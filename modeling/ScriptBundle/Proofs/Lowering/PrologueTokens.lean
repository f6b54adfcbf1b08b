import ScriptBundle.Proofs.Lowering.Prologue
import ScriptBundle.Proofs.Statement.Silence
import ScriptBundle.Proofs.Token.Fragment

/-!
# The tokens of a prologue

In front of any text a prologue gives the same tokens. They close all brackets that they open, and
outside of these no keyword of module syntax stands but as the name of a member. All this needs is that
the names which the prologue writes as they are can be read back as identifiers.

* `Adds`: what a text adds in front of another one;
* `adds_fixed`, `adds_encode`, `adds_identifier`, `adds_member`: constant texts, literals and names;
* `Piece.Fits`, `adds_piece`: the names of a piece, and its tokens;
* `fits_of_mem_pieces`, `adds_prologue`: those of a whole prologue.
-/

namespace ScriptBundle

/-- A text is one word, and no keyword of module syntax. -/
def isIdentifier (w : Text) : Bool :=
  match w with
  | c :: v => Lexeme.startsWord c && v.all Lexeme.inWord && Lexeme.wordKind (c :: v) = .identifier
  | [] => false

theorem exists_of_isIdentifier {w : Text} (h : isIdentifier w) :
    ∃ c v, w = c :: v ∧ Lexeme.startsWord c ∧ (∀ d ∈ v, Lexeme.inWord d) ∧
      Lexeme.wordKind (c :: v) = .identifier := by
  cases w with
  | nil => cases h
  | cons c v =>
    simp only [isIdentifier, Bool.and_eq_true, decide_eq_true_eq, List.all_eq_true] at h
    exact ⟨c, v, rfl, h.1.1, h.1.2, h.2⟩

theorem isPlain_of_isWordKind {t : Token} (h : t.kind.isWordKind) : t.isPlain := by
  unfold Token.isPlain
  generalize t.kind = k at h
  cases k <;> first | rfl | cases h

/-- A token with the text of an identifier is no bracket. -/
theorem isPlain_of_isIdentifier {operand : Bool} {t : Token} {rest : Text}
    (h : Lexer.Lexes operand t.kind t.text rest) (hname : isIdentifier t.text) : t.isPlain := by
  obtain ⟨c, v, htext, hc, -⟩ := exists_of_isIdentifier hname
  rw [htext] at h
  exact isPlain_of_isWordKind (h.isWordKind_of_startsWord hc)

namespace Lowering

open Lexer Statement

/-- In front of any text and behind any token, inside the brackets `st`, the lexer reads `w` and finds
tokens behind which the brackets `st'` are open. No keyword is among those outside all brackets but as
the name of a member. -/
def Adds (operand : Bool) (st : List TokenKind) (w : Text) (operand' : Bool)
    (st' : List TokenKind) : Prop :=
  ∃ ts, Writes operand w (ts.map Token.sign) operand' ∧ openBehind st ts = some st' ∧
    ∀ prev, Mute prev st ts

variable {operand operand' operand'' : Bool} {st st' st'' : List TokenKind} {w w' name object : Text}

theorem adds_nil (operand : Bool) (st : List TokenKind) : Adds operand st [] operand st :=
  ⟨[], writes_nil operand, rfl, fun prev => outer_nil prev st⟩

theorem Adds.append (h : Adds operand st w operand' st') (h' : Adds operand' st' w' operand'' st'') :
    Adds operand st (w ++ w') operand'' st'' := by
  obtain ⟨ts, hts, hopen, hmute⟩ := h
  obtain ⟨us, hus, hopen', hmute'⟩ := h'
  refine ⟨ts ++ us, ?_, ?_, fun prev => (hmute prev).append hopen (hmute' _)⟩
  · rw [List.map_append]
    exact hts.append hus
  · rw [openBehind_append_of_eq hopen, hopen']

/-- A text that a prologue writes as it is, inside the brackets `before` and perhaps further ones. Behind
it an operand may follow or not, and the brackets `after` are open. -/
structure FixedText where
  before : List TokenKind
  text : Text
  operand : Bool
  after : List TokenKind

/-- The fixed text can be read in front of anything, without a keyword of module syntax, and it leaves what
it says. -/
def FixedText.Holds (f : FixedText) : Prop :=
  isFragment f.text ∧ openBehind f.before (tokensOf f.text) = some f.after ∧
    (∀ t ∈ tokensOf f.text, t.isKeyword = false) ∧
    operandBehind true (tokensOf f.text) = f.operand ∧
    operandBehind false (tokensOf f.text) = f.operand

instance : DecidablePred FixedText.Holds := fun _ => inferInstanceAs (Decidable (_ ∧ _))

/-- What a prologue writes around names and string literals. -/
def fixedTexts : List FixedText :=
  [⟨[], "[", true, [.rightBracket]⟩,
    ⟨[.rightBracket], "]", false, []⟩,
    ⟨[], " && ", true, []⟩,
    ⟨[], ".__esModule ? ", true, []⟩,
    ⟨[], ".default : ", true, []⟩,
    ⟨[], "require(", true, [.rightParen]⟩,
    ⟨[.rightParen], ")", false, []⟩,
    ⟨[], "var ", false, []⟩,
    ⟨[], " = ", true, []⟩,
    ⟨[], "; ", true, []⟩,
    ⟨[], esModuleMark ++ " ", true, []⟩,
    ⟨[], exportStarHelper ++ " ", true, []⟩,
    ⟨[], "Object.defineProperty(exports, ", true, [.rightParen]⟩,
    ⟨[.rightParen], ", \x7b enumerable: true, get: function () \x7b return ", true,
      [.rightBrace, .rightBrace, .rightParen]⟩,
    ⟨[.rightBrace, .rightBrace, .rightParen], "; \x7d \x7d); ", true, []⟩,
    ⟨[], "__tsb_export_star(", true, [.rightParen]⟩,
    ⟨[.rightParen], "); ", true, []⟩]

/-- All of these texts hold, by one run of the lexer over each of them. -/
theorem holds_of_mem_fixedTexts : ∀ f ∈ fixedTexts, f.Holds := by
  unfold fixedTexts esModuleMark exportStarHelper
  repeat rw [Text.ofString_ofList]
  decide +kernel

/-- A fixed text, further inside too. -/
theorem adds_fixed (st : List TokenKind) (w : Text) (operand' : Bool) (st' : List TokenKind)
    (h : ⟨st, w, operand', st'⟩ ∈ fixedTexts) (operand : Bool) (base : List TokenKind) :
    Adds operand (st ++ base) w operand' (st' ++ base) := by
  obtain ⟨hw, hopen, hkeyword, htrue, hfalse⟩ := holds_of_mem_fixedTexts _ h
  have hwrites := writes_fragment hw operand
  have hoperand : operandBehind operand (tokensOf w) = operand' := by
    cases operand <;> assumption
  exact ⟨tokensOf w, hoperand ▸ hwrites, openBehind_append_base hopen base,
    fun prev => mute_of_forall hkeyword prev _⟩

/-- A string literal. -/
theorem adds_encode (s : Text) (operand : Bool) (st : List TokenKind) :
    Adds operand st (StringLiteral.encode s) false st :=
  ⟨[⟨.string, StringLiteral.encode s, .start⟩], writes_encode s operand, rfl,
    fun prev => mute_of_forall (by simp [Token.isKeyword]) prev st⟩

/-! ### Names -/

/-- No word goes on with the text. -/
def EndsWord (w : Text) : Prop := ∃ d ∈ w.head?, Lexeme.inWord d = false

/-- An identifier in front of a text with which no word goes on. -/
theorem adds_identifier (hname : isIdentifier name) (hw : EndsWord w)
    (h : ∀ operand, Adds operand st w operand' st') (operand : Bool) :
    Adds operand st (name ++ w) operand' st' := by
  obtain ⟨c, v, rfl, hc, hv, hkind⟩ := exists_of_isIdentifier hname
  obtain ⟨ts, hts, hopen, hmute⟩ := h (Lexeme.operandMayFollow (Lexeme.wordKind (c :: v)) (c :: v))
  have hwrites : Writes operand (c :: v ++ w) _ operand' := writes_word_append hc hv hw hts
  rw [hkind] at hwrites
  have hplain : Token.isPlain ⟨.identifier, c :: v, .start⟩ := rfl
  refine ⟨⟨.identifier, c :: v, .start⟩ :: ts, hwrites, ?_, fun prev => ?_⟩
  · rw [openBehind_cons_of_plain hplain, hopen]
  · refine outer_cons_iff.2 ⟨fun _ _ => rfl, fun mid hmid => ?_⟩
    obtain rfl := Option.some.inj ((openedBy_plain hplain st).symm.trans hmid)
    exact hmute _

/-- The name of a member behind a dot, keywords included. -/
theorem adds_dot {c : CodePoint} {v : Text} (hc : Lexeme.startsWord c) (hdot : c ≠ '.')
    (hdigit : c.isDigit = false) (hv : ∀ d ∈ v, Lexeme.inWord d) (hw : EndsWord w)
    (h : ∀ operand, Adds operand st w operand' st') (operand : Bool) :
    Adds operand st ("." ++ (c :: v ++ w)) operand' st' := by
  obtain ⟨ts, hts, hopen, hmute⟩ := h (Lexeme.operandMayFollow (Lexeme.wordKind (c :: v)) (c :: v))
  have hwrites : Writes operand ("." ++ (c :: v ++ w)) _ operand' :=
    writes_dot_append hdot hdigit (writes_word_append hc hv hw hts)
  have hdot : Token.isPlain ⟨.dot, ".", .start⟩ := rfl
  have hword : Token.isPlain ⟨Lexeme.wordKind (c :: v), c :: v, .start⟩ :=
    isPlain_of_isWordKind (Lexeme.isWordKind_wordKind _)
  refine ⟨⟨.dot, ".", .start⟩ :: ⟨Lexeme.wordKind (c :: v), c :: v, .start⟩ :: ts, hwrites, ?_,
    fun prev => ?_⟩
  · rw [openBehind_cons_of_plain hdot, openBehind_cons_of_plain hword, hopen]
  · refine outer_cons_iff.2 ⟨fun _ _ => rfl, fun mid hmid => ?_⟩
    obtain rfl := Option.some.inj ((openedBy_plain hdot st).symm.trans hmid)
    refine outer_cons_iff.2 ⟨fun _ hmember => ?_, fun mid hmid => ?_⟩
    · cases hmember
    · obtain rfl := Option.some.inj ((openedBy_plain hword _).symm.trans hmid)
      exact hmute _

theorem adds_lineFeed (h : Adds operand st w operand' st') :
    Adds operand st (CodePoint.ofChar '\n' :: w) operand' st' :=
  Adds.append ⟨[], writes_space (by decide) operand, rfl, fun prev => outer_nil prev st⟩ h

/-- An ASCII letter, `_` or `$` starts a word, and no number. -/
theorem startsWord_of_letter {c : CodePoint} (h : c.isAsciiLetter || c = '_' || c = '$') :
    Lexeme.startsWord c ∧ c ≠ '.' ∧ c.isDigit = false := by
  have hall : ∀ n < 123, ∀ hn : n < 0x110000,
      let d : CodePoint := ⟨n, hn⟩
      d.isAsciiLetter || d = '_' || d = '$' → Lexeme.startsWord d ∧ d ≠ '.' ∧ d.isDigit = false := by
    decide
  have hlt : c.val < 123 := by
    simp only [Bool.or_eq_true, decide_eq_true_eq] at h
    rcases h with (h | rfl) | rfl
    · simp only [CodePoint.isAsciiLetter, Bool.or_eq_true, Bool.and_eq_true, decide_eq_true_eq] at h
      omega
    · decide
    · decide
  exact hall c.val hlt c.isLt h

/-- A word goes on with letters and numbers, `_` and `$`. -/
theorem inWord_of_alphanumeric {c : CodePoint} (h : c.isAlphanumeric || c = '_' || c = '$') :
    Lexeme.inWord c := by
  simp only [Bool.or_eq_true, decide_eq_true_eq] at h
  rcases h with (h | rfl) | rfl
  · unfold CodePoint.isAlphanumeric at h
    unfold Lexeme.inWord CodePoint.isIdentifierPart
    split at h
    · next hlow => simp [hlow, h]
    · next hlow => simp [hlow, h]
  · decide
  · decide

/-- A name that can stand behind a dot is a word, perhaps with a line feed behind it. -/
theorem exists_of_isPropertyName (h : isPropertyName name) :
    ∃ c v, (name = c :: v ∨ name = c :: v ++ [CodePoint.ofChar '\n']) ∧ Lexeme.startsWord c ∧ c ≠ '.' ∧
      c.isDigit = false ∧ ∀ d ∈ v, Lexeme.inWord d := by
  have main : ∀ w : Text, isPropertyName name = (match w with
      | c :: s => (c.isAsciiLetter || c = '_' || c = '$') &&
          s.all fun d => d.isAlphanumeric || d = '_' || d = '$'
      | [] => false) → ∃ c v, w = c :: v ∧ Lexeme.startsWord c ∧ c ≠ '.' ∧ c.isDigit = false ∧
        ∀ d ∈ v, Lexeme.inWord d := by
    intro w hw
    rw [h] at hw
    cases w with
    | nil => cases hw
    | cons c v =>
      obtain ⟨hc, hv⟩ := (Bool.and_eq_true_iff.1 hw.symm)
      obtain ⟨hstart, hdot, hdigit⟩ := startsWord_of_letter hc
      exact ⟨c, v, rfl, hstart, hdot, hdigit, fun d hd =>
        inWord_of_alphanumeric (List.all_eq_true.1 hv d hd)⟩
  by_cases hline : name.getLast? = some (CodePoint.ofChar '\n')
  · obtain ⟨c, v, hw, hrest⟩ := main name.dropLast (by simp only [isPropertyName, hline]; rfl)
    refine ⟨c, v, .inr ?_, hrest⟩
    rw [← hw]
    exact (List.dropLast_append_getLast? _ hline).symm
  · obtain ⟨c, v, hw, hrest⟩ := main name (by simp only [isPropertyName, hline]; rfl)
    exact ⟨c, v, .inl hw, hrest⟩

/-- The expression that reads a member. -/
theorem adds_member (hobject : isIdentifier object) (name : Text) (hw : EndsWord w)
    (h : ∀ operand, Adds operand st w operand' st') (operand : Bool) :
    Adds operand st (member object name ++ w) operand' st' := by
  have hdot : EndsWord (Text.ofString "." ++ (name ++ w)) := ⟨_, rfl, by decide⟩
  have hbracket : EndsWord (Text.ofString "[" ++ (StringLiteral.encode name ++ (Text.ofString "]" ++ w))) :=
    ⟨_, rfl, by decide⟩
  unfold member
  split
  · next hname =>
    obtain ⟨c, v, hcv, hc, hc', hdigit, hv⟩ := exists_of_isPropertyName hname
    rw [List.append_assoc, List.append_assoc]
    refine adds_identifier hobject hdot (fun operand => ?_) operand
    rcases hcv with rfl | rfl
    · exact adds_dot hc hc' hdigit hv hw h operand
    · have hline : EndsWord (CodePoint.ofChar '\n' :: w) := ⟨_, rfl, by decide⟩
      rw [List.append_assoc, List.singleton_append]
      exact adds_dot hc hc' hdigit hv hline (fun operand => adds_lineFeed (h operand)) operand
  · simp only [List.append_assoc]
    refine adds_identifier hobject hbracket (fun operand => ?_) operand
    have hopen := adds_fixed [] "[" true [.rightBracket] (by simp [fixedTexts])
      operand st
    have hclose := adds_fixed [.rightBracket] "]" false [] (by simp [fixedTexts])
      false st
    exact hopen.append ((adds_encode name true _).append (hclose.append (h false)))

/-! ### Pieces -/

/-- The names that a reading writes as they are, that of a member excepted, are identifiers. -/
def Reading.Fits : Reading → Prop
  | .variable name => isIdentifier name
  | .property object _ | .defaultOf object => isIdentifier object

/-- The names that a piece writes as they are, those of members excepted, are identifiers. -/
def Piece.Fits : Piece → Prop
  | .mark | .helper | .run _ .nothing | .run _ .passedOn => True
  | .getter _ value => value.Fits
  | .run _ (.bound name) => isIdentifier name
  | .binding name value => isIdentifier name ∧ value.Fits

theorem adds_reading {value : Reading} (hvalue : value.Fits) (hw : EndsWord w)
    (h : ∀ operand, Adds operand st w operand' st') (operand : Bool) :
    Adds operand st (value.text ++ w) operand' st' := by
  rcases value with name | ⟨object, name⟩ | object
  · exact adds_identifier hvalue hw h operand
  · exact adds_member hvalue name hw h operand
  · have hand := adds_fixed [] " && " true [] (by simp [fixedTexts])
    have hflag := adds_fixed [] ".__esModule ? " true [] (by simp [fixedTexts])
    have hdefault := adds_fixed [] ".default : " true [] (by simp [fixedTexts])
    simp only [Reading.text, List.append_assoc]
    refine adds_identifier hvalue ⟨_, rfl, by decide⟩ (fun operand => (hand operand st).append ?_) _
    refine adds_identifier hvalue ⟨_, rfl, by decide⟩ (fun operand => (hflag operand st).append ?_) _
    refine adds_identifier hvalue ⟨_, rfl, by decide⟩ (fun operand => (hdefault operand st).append ?_) _
    exact adds_identifier hvalue hw h true

theorem adds_requireCall (specifier : Text) (operand : Bool) (st : List TokenKind) :
    Adds operand st (requireCall specifier) false st := by
  have hopen := adds_fixed [] "require(" true [.rightParen] (by simp [fixedTexts]) operand st
  have hclose := adds_fixed [.rightParen] ")" false [] (by simp [fixedTexts]) false st
  rw [requireCall, List.append_assoc]
  exact hopen.append ((adds_encode specifier true _).append hclose)

/-- A declaration, with a value in front of its semicolon. -/
theorem adds_varStatement (hname : isIdentifier name) {value : Text}
    (hvalue : Adds true [] (value ++ "; ") true []) :
    Adds true [] (varStatement name value ++ " ") true [] := by
  have hvar := adds_fixed [] "var " false [] (by simp [fixedTexts]) true []
  have hequals := adds_fixed [] " = " true [] (by simp [fixedTexts])
  have htext : varStatement name value ++ Text.ofString " " =
      Text.ofString "var " ++ (name ++ (Text.ofString " = " ++ (value ++ Text.ofString "; "))) := by
    simp only [varStatement, List.append_assoc]
    rfl
  rw [htext]
  exact hvar.append (adds_identifier hname ⟨_, rfl, by decide⟩
    (fun operand => (hequals operand []).append hvalue) false)

theorem adds_piece {p : Piece} (hp : p.Fits) : Adds true [] (p.text ++ " ") true [] := by
  have hend := adds_fixed [] "; " true [] (by simp [fixedTexts])
  cases p with
  | mark => exact adds_fixed [] (esModuleMark ++ " ") true [] (by simp [fixedTexts]) true []
  | helper =>
    exact adds_fixed [] (exportStarHelper ++ " ") true [] (by simp [fixedTexts]) true []
  | getter exported value =>
    have hhead := adds_fixed [] "Object.defineProperty(exports, " true [.rightParen] (by simp [fixedTexts])
      true []
    have hget := adds_fixed [.rightParen] ", \x7b enumerable: true, get: function () \x7b return " true
      [.rightBrace, .rightBrace, .rightParen] (by simp [fixedTexts]) false []
    have hclose := adds_fixed [.rightBrace, .rightBrace, .rightParen] "; \x7d \x7d); " true []
      (by simp [fixedTexts])
    have hvalue := adds_reading hp ⟨_, rfl, by decide⟩ (hclose · []) true
    have htext : Piece.text (.getter exported value) ++ Text.ofString " " =
        Text.ofString "Object.defineProperty(exports, " ++ (StringLiteral.encode exported ++
          (Text.ofString ", \x7b enumerable: true, get: function () \x7b return " ++
            (value.text ++ Text.ofString "; \x7d \x7d); "))) := by
      simp only [Piece.text, getter, List.append_assoc]
      rfl
    rw [htext]
    exact hhead.append ((adds_encode exported true _).append (hget.append hvalue))
  | run specifier use =>
    have hcall := adds_requireCall specifier true []
    cases use with
    | nothing =>
      have := hcall.append (hend false [])
      rwa [show requireCall specifier ++ Text.ofString "; " =
        Piece.text (.run specifier .nothing) ++ Text.ofString " " by
          simp only [Piece.text, List.append_assoc]; rfl] at this
    | bound name => exact adds_varStatement hp (hcall.append (hend false []))
    | passedOn =>
      have hopen := adds_fixed [] "__tsb_export_star(" true [.rightParen] (by simp [fixedTexts]) true []
      have hclose := adds_fixed [.rightParen] "); " true [] (by simp [fixedTexts]) false []
      have := hopen.append ((adds_requireCall specifier true _).append hclose)
      rwa [show Text.ofString "__tsb_export_star(" ++ (requireCall specifier ++ Text.ofString "); ") =
        Piece.text (.run specifier .passedOn) ++ Text.ofString " " by
          simp only [Piece.text, List.append_assoc]; rfl] at this
  | binding name value =>
    exact adds_varStatement hp.1 (adds_reading hp.2 ⟨_, rfl, by decide⟩ (hend · []) true)

/-! ### Prologues -/

/-- The variable of a module is an identifier. -/
theorem isIdentifier_moduleVariable (n : Nat) : isIdentifier (moduleVariable n) := by
  have hdigit : ∀ d ∈ Text.ofNat n, Lexeme.inWord d := fun d hd =>
    inWord_of_alphanumeric (by simp [(digit_continues (Text.isAsciiDigit_of_mem_ofNat hd)).2.2.2])
  have htext : moduleVariable n = CodePoint.ofChar '_' :: (Text.ofString "_tsb_m" ++ Text.ofNat n) := rfl
  have hkind : ∀ v, Lexeme.wordKind (CodePoint.ofChar '_' :: v) = .identifier := by
    intro v
    have himport : CodePoint.ofChar '_' :: v ≠ Text.ofString "import" := fun h =>
      absurd (List.cons.inj h).1 (by decide)
    have hexport : CodePoint.ofChar '_' :: v ≠ Text.ofString "export" := fun h =>
      absurd (List.cons.inj h).1 (by decide)
    rw [Lexeme.wordKind, if_neg himport, if_neg hexport]
  have hprefix : (Text.ofString "_tsb_m").all Lexeme.inWord := by decide
  rw [htext, isIdentifier, hkind, List.all_append, hprefix, List.all_eq_true.2 hdigit]
  decide

theorem fits_bindingPiece {b : Binding} (hobject : isIdentifier object) (hb : isIdentifier b.inner) :
    (bindingPiece object b).Fits := by
  unfold bindingPiece
  repeat' split
  all_goals exact ⟨hb, hobject⟩

theorem fits_bindingReading (b : Binding) (hobject : isIdentifier object) :
    (bindingReading object b).Fits := by
  unfold bindingReading
  split
  all_goals exact hobject

theorem fits_of_mem_getterPieces {s : Statement} {p : Piece} (hobject : isIdentifier object)
    (hs : ∀ name ∈ s.variables, isIdentifier name) (h : p ∈ s.getterPieces object) : p.Fits := by
  obtain ⟨exported, value, rfl, ⟨name, hname, rfl⟩ | ⟨_, _, _, -, b, -, rfl⟩⟩ := getterPieces_cases h
  · exact hs name hname
  · exact fits_bindingReading b hobject

theorem fits_of_mem_requirePieces {s : Statement} {p : Piece} (hobject : isIdentifier object)
    (hs : ∀ name ∈ s.variables, isIdentifier name) (h : p ∈ s.requirePieces object) : p.Fits := by
  obtain ⟨specifier, use, rfl, huse⟩ | ⟨_, bindings, _, hform, b, hb, rfl⟩ := requirePieces_cases h
  · cases use with
    | nothing | passedOn => trivial
    | bound name =>
      obtain rfl | hname := huse name rfl
      · exact hobject
      · exact hs name hname
  · refine fits_bindingPiece hobject (hs b.inner ?_)
    rw [Statement.variables, hform]
    exact List.mem_map_of_mem hb

theorem fits_of_mem_pieces {statements : List Statement} {p : Piece}
    (hs : ∀ s ∈ statements, ∀ name ∈ s.variables, isIdentifier name) (h : p ∈ pieces statements) :
    p.Fits := by
  obtain rfl | rfl | ⟨s, hmem, n, h⟩ := pieces_cases h
  · trivial
  · trivial
  · have hobject := isIdentifier_moduleVariable n
    exact h.elim (fits_of_mem_getterPieces hobject (hs s hmem))
      (fits_of_mem_requirePieces hobject (hs s hmem))

/-- A blank behind each of several texts. -/
theorem join_append_sep (sep : Text) {parts : List Text} (h : parts ≠ []) :
    Text.join sep parts ++ sep = parts.flatMap (· ++ sep) := by
  induction parts with
  | nil => exact absurd rfl h
  | cons w parts ih =>
    cases parts with
    | nil => simp [Text.join]
    | cons v parts =>
      rw [List.flatMap_cons, ← ih (List.cons_ne_nil _ _)]
      simp [Text.join]

/-- A prologue, with the blank behind it. -/
theorem adds_prologue {statements : List Statement}
    (h : ∀ s ∈ statements, ∀ name ∈ s.variables, isIdentifier name) :
    Adds true [] (Text.join " " (prologue statements) ++ " ") true [] := by
  have hfits : ∀ p ∈ pieces statements, p.Fits := fun p hp => fits_of_mem_pieces h hp
  have hne : prologue statements ≠ [] := by simp [prologue]
  rw [join_append_sep _ hne, ← map_text_pieces, List.flatMap_map]
  generalize pieces statements = ps at hfits
  induction ps with
  | nil => exact adds_nil true []
  | cons p ps ih =>
    rw [List.flatMap_cons]
    exact (adds_piece (hfits p List.mem_cons_self)).append
      (ih fun q hq => hfits q (List.mem_cons_of_mem p hq))

end Lowering

end ScriptBundle
