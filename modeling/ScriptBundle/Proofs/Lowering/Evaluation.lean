import ScriptBundle.Proofs.Lowering.Lines
import ScriptBundle.Proofs.Lowering.PrologueTokens
import ScriptBundle.Proofs.StringLiteral.Values

/-!
# The values of names from other modules

A module takes a name from another module by an import, which reads it once into a variable, or passes it
on by a re-export, whose getter reads it each time. The expressions that read it are texts of a prologue.
They are given their meaning here as any program would be: their tokens denote an expression by the
grammar of the language, and an expression has a value in a realm, which says what variables hold, what
`require` returns and what reading a property does.

* `Expression`, `Denotes`, `Denotes.unique`: the expressions of a prologue, and their tokens;
* `Means`, `means_unique`: the expression that a text stands for in front of a semicolon;
* `means_member`, `means_defaultOf`, `means_requireCall`: those that a prologue writes;
* `Realm`, `Realm.eval`, `Realm.IsModule`: values, and those that are exports of a module with a mark;
* `Imports`, `Reexports`: what a list of module statements takes and passes on;
* `eval_eq_of_reexports`: a name that is passed on has the value that an import of it has;
* `plain_default_passed_on`: but not the default export of a module without a mark.
-/

namespace ScriptBundle

namespace Lowering

open Lexer

/-! ### Expressions -/

/-- The kinds and texts of tokens. -/
abbrev Signs := List (TokenKind × Text)

/-- The string that a text is at run time: its UTF-16 units. -/
def stringOf (s : Text) : Text := s.flatMap StringLiteral.units

/-- The expressions of a prologue. -/
inductive Expression
  /-- A variable. -/
  | name (name : Text)
  /-- A call of `require` with a string. -/
  | require (specifier : Text)
  /-- A property of an object. -/
  | property (object : Expression) (key : Text)
  /-- The first expression if it is false, else the second. -/
  | both (first second : Expression)
  /-- The second or the third expression, as the first one is true or false. -/
  | choice (test yes no : Expression)

/-- The levels of the grammar, the one that binds most strongly first. -/
inductive Level
  | operand
  | conjunction
  | whole

/-- The tokens of an expression, by their kinds and texts. -/
inductive Denotes : Level → Signs → Expression → Prop
  | name (name : Text) : Denotes .operand [(.identifier, name)] (.name name)
  | require {literal argument : Text} (h : StringLiteral.decode literal = .ok argument) :
      Denotes .operand
        [(.identifier, "require"), (.leftParen, "("), (.string, literal), (.rightParen, ")")]
        (.require (stringOf argument))
  | dot {ts : Signs} {e : Expression} {kind : TokenKind} {name : Text}
      (h : Denotes .operand ts e) (hk : kind.isWordKind) :
      Denotes .operand (ts ++ ([(.dot, "."), (kind, name)] : Signs)) (.property e (stringOf name))
  | index {ts : Signs} {e : Expression} {literal key : Text}
      (h : Denotes .operand ts e) (hv : StringLiteral.decode literal = .ok key) :
      Denotes .operand (ts ++ ([(.leftBracket, "["), (.string, literal), (.rightBracket, "]")] : Signs))
        (.property e (stringOf key))
  | operand {ts : Signs} {e : Expression} (h : Denotes .operand ts e) :
      Denotes .conjunction ts e
  | both {ts us : Signs} {e f : Expression} (h : Denotes .conjunction ts e)
      (h' : Denotes .operand us f) :
      Denotes .conjunction (ts ++ ((.operator, "&&") :: us : Signs)) (.both e f)
  | conjunction {ts : Signs} {e : Expression} (h : Denotes .conjunction ts e) :
      Denotes .whole ts e
  | choice {ts us vs : Signs} {test yes no : Expression}
      (ht : Denotes .conjunction ts test) (hy : Denotes .conjunction us yes)
      (hn : Denotes .conjunction vs no) :
      Denotes .whole (ts ++ ((.operator, "?") :: (us ++ ((.colon, ":") :: vs : Signs)) : Signs))
        (.choice test yes no)

namespace Denotes

variable {ts us : Signs} {e e' : Expression} {t : TokenKind × Text}

/-- An operand holds no operators. -/
theorem not_operator (h : Denotes .operand ts e) (ht : t ∈ ts) : t.1 ≠ .operator ∧ t.1 ≠ .colon := by
  generalize hl : Level.operand = l at h
  induction h with
  | name => simp_all
  | require => rcases (by simpa using ht) with rfl | rfl | rfl | rfl <;> simp
  | dot _ hk ih =>
    rcases List.mem_append.1 ht with ht | ht
    · exact ih ht hl
    · rcases (by simpa using ht) with rfl | rfl
      · simp
      · constructor <;> (rintro rfl; cases hk)
  | index _ _ ih =>
    rcases List.mem_append.1 ht with ht | ht
    · exact ih ht hl
    · rcases (by simpa using ht) with rfl | rfl | rfl <;> simp
  | operand | both | conjunction | choice => cases hl

/-- A conjunction holds no other operator than its own. -/
theorem eq_and (h : Denotes .conjunction ts e) (ht : t ∈ ts) :
    t.1 ≠ .colon ∧ (t.1 = .operator → t.2 = "&&") := by
  generalize hl : Level.conjunction = l at h
  induction h with
  | operand h => exact ⟨(h.not_operator ht).2, fun hk => absurd hk (h.not_operator ht).1⟩
  | both _ h' ih =>
    rcases List.mem_append.1 ht with ht | ht
    · exact ih ht hl
    · rcases List.mem_cons.1 ht with rfl | ht
      · simp
      · exact ⟨(h'.not_operator ht).2, fun hk => absurd hk (h'.not_operator ht).1⟩
  | name | require | dot | index | conjunction | choice => cases hl

/-- A text is split at the last of the tokens `t` in one way. -/
theorem append_cons_inj {vs ws : Signs} (hu : t ∉ us) (hw : t ∉ ws)
    (h : ts ++ t :: us = vs ++ t :: ws) : ts = vs ∧ us = ws := by
  rcases List.append_eq_append_iff.1 h with ⟨more, rfl, hmore⟩ | ⟨more, rfl, hmore⟩
  · cases more with
    | nil => exact ⟨(List.append_nil _).symm, (List.cons.inj hmore).2⟩
    | cons u more =>
      obtain ⟨rfl, rfl⟩ := List.cons.inj hmore
      exact absurd (List.mem_append_right more List.mem_cons_self) hu
  · cases more with
    | nil => exact ⟨List.append_nil _, (List.cons.inj hmore).2.symm⟩
    | cons u more =>
      obtain ⟨rfl, rfl⟩ := List.cons.inj hmore
      exact absurd (List.mem_append_right more List.mem_cons_self) hw

/-- The last token of an operand tells how it is built. -/
theorem unique_operand (h : Denotes .operand ts e) (h' : Denotes .operand ts e') : e = e' := by
  generalize hl : Level.operand = l at h
  induction h generalizing e' with
  | name n =>
    generalize hts : ([(.identifier, n)] : Signs) = us at h'
    cases h' with
    | name => cases hts; rfl
    | require => cases hts
    | dot | index => simp [List.singleton_eq_append_iff] at hts
  | @require literal argument hv =>
    generalize hts : ([(.identifier, "require"), (.leftParen, "("), (.string, literal),
      (.rightParen, ")")] : Signs) = us at h'
    have hlast := congrArg List.getLast? hts
    cases h' with
    | name => cases hts
    | require hv' =>
      cases hts
      rw [Except.ok.inj (hv.symm.trans hv')]
    | dot _ hk =>
      obtain ⟨rfl, -⟩ : _ = _ ∧ _ := by simpa using hlast
      cases hk
    | index => simp at hlast
  | @dot ts e kind n h hk ih =>
    generalize hts : ts ++ ([(.dot, "."), (kind, n)] : Signs) = us at h'
    have hlast := congrArg List.getLast? hts
    cases h' with
    | name => simp [List.append_eq_singleton_iff] at hts
    | require =>
      obtain ⟨rfl, -⟩ : _ = _ ∧ _ := by simpa using hlast
      cases hk
    | dot h' hk' =>
      obtain ⟨rfl, hsuffix⟩ := List.append_inj' hts rfl
      cases hsuffix
      rw [ih h' hl]
    | index =>
      obtain ⟨rfl, -⟩ : _ = _ ∧ _ := by simpa using hlast
      cases hk
  | @index ts e literal key h hv ih =>
    generalize hts : ts ++ ([(.leftBracket, "["), (.string, literal), (.rightBracket, "]")] : Signs) = us
      at h'
    have hlast := congrArg List.getLast? hts
    cases h' with
    | name => simp [List.append_eq_singleton_iff] at hts
    | require => simp at hlast
    | dot _ hk =>
      obtain ⟨rfl, -⟩ : _ = _ ∧ _ := by simpa using hlast
      cases hk
    | index h' hv' =>
      obtain ⟨rfl, hsuffix⟩ := List.append_inj' hts rfl
      cases hsuffix
      rw [ih h' hl, Except.ok.inj (hv.symm.trans hv')]
  | operand | both | conjunction | choice => cases hl

theorem unique_conjunction (h : Denotes .conjunction ts e) (h' : Denotes .conjunction ts e') :
    e = e' := by
  have hnot : ∀ {us : Signs} {f : Expression}, Denotes .operand us f →
      ((.operator, "&&") : TokenKind × Text) ∉ us := fun hf hmem => (hf.not_operator hmem).1 rfl
  generalize hl : Level.conjunction = l at h
  induction h generalizing e' with
  | operand h =>
    cases h' with
    | operand h' => exact h.unique_operand h'
    | both => exact absurd (List.mem_append_right _ List.mem_cons_self) (hnot h)
  | @both ts us e f h hf ih =>
    generalize hts : ts ++ (((.operator, "&&") : TokenKind × Text) :: us) = vs at h'
    cases h' with
    | operand h' => exact absurd (hts ▸ List.mem_append_right _ List.mem_cons_self) (hnot h')
    | both h' hf' =>
      obtain ⟨rfl, rfl⟩ := append_cons_inj (hnot hf) (hnot hf') hts
      rw [ih h' hl, hf.unique_operand hf']
  | name | require | dot | index | conjunction | choice => cases hl

/-- Tokens denote one expression at most. -/
theorem unique (h : Denotes .whole ts e) (h' : Denotes .whole ts e') : e = e' := by
  have hquestion : ∀ {us : Signs} {f : Expression}, Denotes .conjunction us f →
      ((.operator, "?") : TokenKind × Text) ∉ us := fun hf hmem =>
    absurd ((hf.eq_and hmem).2 rfl) (by decide)
  have hcolon : ∀ {us : Signs} {f : Expression}, Denotes .conjunction us f →
      ((.colon, ":") : TokenKind × Text) ∉ us := fun hf hmem => (hf.eq_and hmem).1 rfl
  have hbranches : ∀ {us vs : Signs} {f g : Expression}, Denotes .conjunction us f →
      Denotes .conjunction vs g →
      ((.operator, "?") : TokenKind × Text) ∉ us ++ ((.colon, ":") :: vs : Signs) := by
    intro us vs f g hf hg hmem
    rcases List.mem_append.1 hmem with hmem | hmem
    · exact hquestion hf hmem
    · rcases List.mem_cons.1 hmem with hmem | hmem
      · cases hmem
      · exact hquestion hg hmem
  cases h with
  | conjunction h =>
    cases h' with
    | conjunction h' => exact h.unique_conjunction h'
    | choice => exact absurd (List.mem_append_right _ List.mem_cons_self) (hquestion h)
  | @choice ts us vs test yes no ht hy hn =>
    generalize hts : ts ++ (((.operator, "?") : TokenKind × Text) ::
      (us ++ (((.colon, ":") : TokenKind × Text) :: vs))) = ws at h'
    cases h' with
    | conjunction h' => exact absurd (hts ▸ List.mem_append_right _ List.mem_cons_self) (hquestion h')
    | choice ht' hy' hn' =>
      obtain ⟨rfl, hrest⟩ := append_cons_inj (hbranches hy hn) (hbranches hy' hn') hts
      obtain ⟨rfl, rfl⟩ := append_cons_inj (hcolon hn) (hcolon hn') hrest
      rw [ht.unique_conjunction ht', hy.unique_conjunction hy', hn.unique_conjunction hn']

end Denotes

/-! ### Texts of expressions -/

/-- A text in front of any other gives one list of tokens. -/
theorem writes_unique {operand operand' operand'' : Bool} {w : Text} {signs signs' : Signs}
    (h : Writes operand w signs operand') (h' : Writes operand w signs' operand'') : signs = signs' := by
  obtain ⟨ts, hts, rfl⟩ := h .start []
  obtain ⟨us, hus, rfl⟩ := h' .start []
  have hrun := (run_of_reads hts).symm.trans (run_of_reads hus)
  simp only [run, Except.map_ok, Except.ok.injEq, TokenStream.mk.injEq,
    List.append_nil] at hrun
  rw [hrun.1]

/-- In front of a semicolon, and of any text behind it, the text is the expression. -/
def Means (w : Text) (e : Expression) : Prop :=
  ∃ signs operand, Writes true (w ++ ";") (signs ++ ([(.semicolon, ";")] : Signs)) operand ∧
    Denotes .whole signs e

/-- A text is one expression at most. -/
theorem means_unique {w : Text} {e e' : Expression} (h : Means w e) (h' : Means w e') : e = e' := by
  obtain ⟨signs, operand, hw, hsigns⟩ := h
  obtain ⟨signs', operand', hw', hsigns'⟩ := h'
  obtain rfl := List.append_cancel_right (writes_unique hw hw')
  exact hsigns.unique hsigns'

section Texts

variable {operand operand' : Bool} {w object name : Text} {signs : Signs}

theorem writes_semicolon (operand : Bool) : Writes operand ";" [(.semicolon, ";")] true :=
  writes_mark (c := ';') (by decide) operand

theorem endsWord_semicolon : EndsWord ";" := ⟨_, rfl, by decide⟩

/-- An identifier in front of a text with which no word goes on. -/
theorem writes_identifier (hname : isIdentifier name) (hw : EndsWord w)
    (h : ∀ operand, Writes operand w signs operand') (operand : Bool) :
    Writes operand (name ++ w) ((.identifier, name) :: signs) operand' := by
  obtain ⟨c, v, rfl, hc, hv, hkind⟩ := exists_of_isIdentifier hname
  rw [← hkind]
  exact writes_word_append hc hv hw (h _)

/-- A fixed text, with its tokens. -/
theorem writes_fixed (w : Text) (signs : Signs) (operand' : Bool)
    (h : isFragment w ∧ (tokensOf w).map Token.sign = signs ∧
      operandBehind true (tokensOf w) = operand' ∧ operandBehind false (tokensOf w) = operand')
    (operand : Bool) : Writes operand w signs operand' := by
  obtain ⟨hw, rfl, htrue, hfalse⟩ := h
  have hoperand : operandBehind operand (tokensOf w) = operand' := by
    cases operand <;> assumption
  exact hoperand ▸ writes_fragment hw operand

/-- The value of a literal that is written is the string that was written. -/
theorem exists_decode_encode (s : Text) :
    ∃ v, StringLiteral.decode (StringLiteral.encode s) = .ok v ∧ stringOf v = stringOf s := by
  refine ⟨StringLiteral.joinPairs (s.flatMap StringLiteral.units), ?_, ?_⟩
  · have hencode : StringLiteral.encode s = CodePoint.ofChar '"' ::
        (s.flatMap StringLiteral.encodePoint ++ [CodePoint.ofChar '"']) := rfl
    rw [hencode, StringLiteral.decode, if_pos (by simp), List.dropLast_concat,
      StringLiteral.decodeBody, StringLiteral.unescape_encode, Except.map_ok]
  · have hunits : ∀ u ∈ s.flatMap StringLiteral.units, StringLiteral.units u = [u] := by
      intro u hu
      obtain ⟨c, -, hc⟩ := List.mem_flatMap.1 hu
      exact if_pos (StringLiteral.val_of_mem_units hc)
    rw [stringOf, StringLiteral.flatMap_units_joinPairs, List.flatMap_congr hunits,
      List.flatMap_singleton']
    rfl

/-- The property that the expression for a name reads: the name, without the line feed that may stand
behind a word. -/
def propertyKey (name : Text) : Text :=
  if isPropertyName name && name.getLast? = some (CodePoint.ofChar '\n') then name.dropLast else name

theorem propertyKey_of_getLast? (h : name.getLast? ≠ some (CodePoint.ofChar '\n')) :
    propertyKey name = name := by
  simp [propertyKey, h]

theorem propertyKey_of_not_isPropertyName (h : isPropertyName name = false) : propertyKey name = name := by
  simp [propertyKey, h]

/-- A property of a word is the word, and the line feed behind it is none of the property. -/
theorem propertyKey_of_word {c : CodePoint} {v : Text} (hname : isPropertyName name)
    (hcv : name = c :: v ∨ name = c :: v ++ [CodePoint.ofChar '\n']) (hc : Lexeme.startsWord c)
    (hv : ∀ d ∈ v, Lexeme.inWord d) : propertyKey name = c :: v := by
  rcases hcv with rfl | rfl
  · refine propertyKey_of_getLast? fun hlast => ?_
    rcases List.mem_cons.1 (List.mem_of_getLast? hlast) with rfl | hmem
    · revert hc
      decide
    · have := hv _ hmem
      revert this
      decide
  · rw [propertyKey, hname, List.getLast?_concat, if_pos (by simp), List.dropLast_concat]

/-- What follows an object reads a property of it, which depends on the name alone. -/
theorem exists_access (name : Text) : ∃ access : Signs,
    (∀ {w : Text} {signs : Signs} {operand' : Bool} {object : Text}, EndsWord w →
      (∀ operand, Writes operand w signs operand') → isIdentifier object → ∀ operand,
        Writes operand (member object name ++ w) ((.identifier, object) :: (access ++ signs)) operand') ∧
    ∀ {ts : Signs} {e : Expression}, Denotes .operand ts e →
      Denotes .operand (ts ++ access) (.property e (stringOf (propertyKey name))) := by
  unfold member
  split
  · next hname =>
    obtain ⟨c, v, hcv, hc, hdot, hdigit, hv⟩ := exists_of_isPropertyName hname
    refine ⟨[(.dot, "."), (Lexeme.wordKind (c :: v), c :: v)], ?_, ?_⟩
    · intro w signs operand' object hw h hobject operand
      have hword : ∀ {w : Text}, EndsWord w → (∀ operand, Writes operand w signs operand') →
          Writes operand (object ++ (Text.ofString "." ++ (c :: v ++ w))) ((.identifier, object) ::
            ((.dot, ".") :: ((Lexeme.wordKind (c :: v), c :: v) :: signs))) operand' := fun hw h =>
        writes_identifier hobject ⟨_, rfl, by decide⟩
          (fun _ => writes_dot_append hdot hdigit (writes_word_append hc hv hw (h _))) operand
      simp only [List.append_assoc]
      rcases hcv with rfl | rfl
      · exact hword hw h
      · -- The line feed behind the name is white space of the source that comes out.
        have hline : ∀ operand, Writes operand (CodePoint.ofChar '\n' :: w) signs operand' := fun operand =>
          (writes_space (by decide) operand).append (h operand)
        have := hword ⟨_, rfl, by decide⟩ hline
        simpa using this
    · rw [propertyKey_of_word hname hcv hc hv]
      exact fun h => h.dot (Lexeme.isWordKind_wordKind _)
  · next hname =>
    obtain ⟨v, hv, hstring⟩ := exists_decode_encode name
    refine ⟨[(.leftBracket, "["), (.string, StringLiteral.encode name), (.rightBracket, "]")], ?_, ?_⟩
    · intro w signs operand' object hw h hobject operand
      have hopen := writes_fixed "[" [(.leftBracket, "[")] true (by decide +kernel)
      have hclose := writes_fixed "]" [(.rightBracket, "]")] false (by decide +kernel)
      simp only [List.append_assoc]
      refine writes_identifier hobject ⟨_, rfl, by decide⟩ (fun operand => ?_) operand
      exact (hopen operand).append ((writes_encode name true).append ((hclose false).append (h false)))
    · rw [propertyKey_of_not_isPropertyName (by simpa using hname), ← hstring]
      exact fun h => h.index hv

theorem means_name (h : isIdentifier name) : Means name (.name name) :=
  ⟨[(.identifier, name)], true, writes_identifier h endsWord_semicolon writes_semicolon true,
    .conjunction (.operand (.name name))⟩

/-- A property of an object. -/
theorem means_member_propertyKey (hobject : isIdentifier object) (name : Text) :
    Means (member object name) (.property (.name object) (stringOf (propertyKey name))) := by
  obtain ⟨access, hwrites, hdenotes⟩ := exists_access name
  exact ⟨(.identifier, object) :: access, true,
    hwrites endsWord_semicolon writes_semicolon hobject true,
    .conjunction (.operand (hdenotes (.name object)))⟩

/-- Which property it is depends on the name alone. -/
theorem means_member (name : Text) : ∃ key,
    (∀ object, isIdentifier object → Means (member object name) (.property (.name object) key)) ∧
      (name.getLast? ≠ some (CodePoint.ofChar '\n') → key = stringOf name) :=
  ⟨stringOf (propertyKey name), fun _ hobject => means_member_propertyKey hobject name,
    fun h => by rw [propertyKey_of_getLast? h]⟩

/-- The value of an import of the default export. -/
def defaultOf (object : Text) : Expression :=
  .choice (.both (.name object) (.property (.name object) "__esModule"))
    (.property (.name object) "default") (.name object)

theorem means_defaultOf (h : isIdentifier object) :
    Means (Reading.defaultOf object).text (defaultOf object) := by
  have hand := writes_fixed " && " [(.operator, "&&")] true (by decide +kernel)
  have hflag := writes_fixed ".__esModule ? " [(.dot, "."), (.identifier, "__esModule"), (.operator, "?")]
    true (by decide +kernel)
  have hdefault := writes_fixed ".default : " [(.dot, "."), (.identifier, "default"), (.colon, ":")]
    true (by decide +kernel)
  have hname : Denotes .operand [(.identifier, object)] (.name object) := .name object
  have hflagged : Denotes .operand [(.identifier, object), (.dot, "."), (.identifier, "__esModule")]
      (.property (.name object) "__esModule") := .dot hname rfl
  have hyes : Denotes .operand [(.identifier, object), (.dot, "."), (.identifier, "default")]
      (.property (.name object) "default") := .dot hname rfl
  refine ⟨_, true, ?_, .choice (.both (.operand hname) hflagged) (.operand hyes) (.operand hname)⟩
  simp only [Reading.text, List.append_assoc]
  refine writes_identifier h ⟨_, rfl, by decide⟩ (fun operand => (hand operand).append ?_) true
  refine writes_identifier h ⟨_, rfl, by decide⟩ (fun operand => (hflag operand).append ?_) _
  refine writes_identifier h ⟨_, rfl, by decide⟩ (fun operand => (hdefault operand).append ?_) _
  exact writes_identifier h endsWord_semicolon writes_semicolon true

/-- The call that runs a module. -/
theorem means_requireCall (specifier : Text) :
    Means (requireCall specifier) (.require (stringOf specifier)) := by
  obtain ⟨v, hv, hstring⟩ := exists_decode_encode specifier
  have hopen := writes_fixed "require(" [(.identifier, "require"), (.leftParen, "(")] true
    (by decide +kernel)
  have hclose := writes_fixed ")" [(.rightParen, ")")] false (by decide +kernel)
  have hdenotes := Denotes.require hv
  rw [hstring] at hdenotes
  refine ⟨_, true, ?_, .conjunction (.operand hdenotes)⟩
  simp only [requireCall, List.append_assoc]
  exact (hopen true).append ((writes_encode specifier true).append
    ((hclose false).append (writes_semicolon false)))

end Texts

/-! ### Values -/

/-- What a program reads: its variables, the exports of other modules, and the properties of values. To
read them may do other things besides, or fail, as `m` says. -/
structure Realm (m : Type → Type) (Value : Type) where
  read : Text → m Value
  require : Text → m Value
  get : Value → Text → m Value
  truthy : Value → Bool

namespace Realm

variable {m : Type → Type} {Value : Type}

/-- The value of an expression. -/
def eval [Monad m] (r : Realm m Value) : Expression → m Value
  | .name name => r.read name
  | .require specifier => r.require specifier
  | .property object key => do
    let v ← r.eval object
    r.get v key
  | .both first second => do
    let v ← r.eval first
    if r.truthy v then r.eval second else pure v
  | .choice test yes no => do
    let v ← r.eval test
    if r.truthy v then r.eval yes else r.eval no

/-- The value has the mark of a module that had module syntax, and reading the mark does nothing else. -/
def IsModule [Monad m] (r : Realm m Value) (v : Value) : Prop :=
  r.truthy v ∧ ∃ flag, r.get v "__esModule" = pure flag ∧ r.truthy flag

variable [Monad m] [LawfulMonad m] {r : Realm m Value} {v : Value} {object : Text}

theorem eval_property (h : r.read object = pure v) (key : Text) :
    r.eval (.property (.name object) key) = r.get v key := by
  simp only [eval, h, pure_bind]

/-- The default export of a module with a mark is a property of its exports. -/
theorem eval_defaultOf_of_isModule (h : r.read object = pure v) (hv : r.IsModule v) :
    r.eval (defaultOf object) = r.get v "default" := by
  obtain ⟨htruthy, flag, hget, hflag⟩ := hv
  simp only [eval, defaultOf, h, pure_bind, htruthy, if_true, hget, hflag]

/-- Without a mark the exports themselves are the default export. -/
theorem eval_defaultOf_of_plain {flag : Value} (h : r.read object = pure v)
    (hflag : r.get v "__esModule" = pure flag) (hplain : r.truthy flag = false) :
    r.eval (defaultOf object) = pure v := by
  cases htruthy : r.truthy v with
  | true =>
    simp only [eval, defaultOf, h, pure_bind, htruthy, if_true, hflag, hplain, Bool.false_eq_true, if_false]
  | false => simp only [eval, defaultOf, h, pure_bind, htruthy, Bool.false_eq_true, if_false]

end Realm

/-! ### Names from other modules -/

/-- Statement `n` imports the export `name` of the module `specifier` into the variable `bound`. -/
def Imports (statements : List Statement) (n : Nat) (specifier name bound : Text) : Prop :=
  ∃ s bindings, statements[n]? = some s ∧ s.form = .imports specifier bindings false ∧
    ⟨name, bound, false⟩ ∈ bindings

/-- Statement `n` passes on the export `name` of the module `specifier` under the name `exported`. -/
def Reexports (statements : List Statement) (n : Nat) (specifier name exported : Text) : Prop :=
  ∃ s bindings, statements[n]? = some s ∧ s.form = .reexports specifier bindings false ∧
    ⟨exported, name, false⟩ ∈ bindings

/-- The variable `bound` is given out under the name `exported`. -/
def Exports (statements : List Statement) (bound exported : Text) : Prop :=
  ∃ s ∈ statements, ∃ bindings typeOnly, s.form = .exportList bindings typeOnly ∧
    ⟨exported, bound, false⟩ ∈ bindings

section Names

variable {statements statements' : List Statement} {n i j : Nat}
  {specifier name bound exported : Text} {s : Statement} {p : Piece}

theorem mem_prologue_of_getterPieces (hs : statements[n]? = some s)
    (hp : p ∈ s.getterPieces (moduleVariable n)) : p.text ∈ prologue statements := by
  have hmem : (s, n) ∈ statements.zipIdx := List.mk_mem_zipIdx_iff_getElem?.2 hs
  rw [← map_text_pieces]
  refine List.mem_map_of_mem (List.mem_append_left _ (List.mem_append_right _ ?_))
  exact List.mem_flatMap.2 ⟨_, hmem, hp⟩

theorem mem_prologue_of_requirePieces (hs : statements[n]? = some s)
    (hp : p ∈ s.requirePieces (moduleVariable n)) : p.text ∈ prologue statements := by
  have hmem : (s, n) ∈ statements.zipIdx := List.mk_mem_zipIdx_iff_getElem?.2 hs
  rw [← map_text_pieces]
  exact List.mem_map_of_mem (List.mem_append_right _ (List.mem_flatMap.2 ⟨_, hmem, hp⟩))

/-- A name that is passed on has a getter that reads the exports of its module. -/
theorem Reexports.mem_prologue (h : Reexports statements n specifier name exported) :
    getter exported (bindingReading (moduleVariable n) ⟨exported, name, false⟩).text ∈
        prologue statements ∧
      varStatement (moduleVariable n) (requireCall specifier) ∈ prologue statements := by
  obtain ⟨s, bindings, hs, hform, hb⟩ := h
  constructor
  · refine mem_prologue_of_getterPieces (p := .getter _ _) hs ?_
    simp only [Statement.getterPieces, hform, Bool.false_eq_true, if_false]
    exact List.mem_map.2 ⟨_, List.mem_filter.2 ⟨hb, rfl⟩, rfl⟩
  · refine mem_prologue_of_requirePieces (p := .run specifier (.bound (moduleVariable n))) hs ?_
    simp [Statement.requirePieces, hform]

/-- An import has a variable for each value that it takes. -/
theorem mem_importPieces {object : Text} {bindings : List Binding} {b : Binding} (hb : b ∈ bindings)
    (hvalue : b.typeOnly = false) :
    (b.outer = "*" ∧ .run specifier (.bound b.inner) ∈ importPieces object specifier bindings false) ∨
      (.run specifier (.bound object) ∈ importPieces object specifier bindings false ∧
        bindingPiece object b ∈ importPieces object specifier bindings false) := by
  have hkept : b ∈ bindings.filter (!·.typeOnly) := List.mem_filter.2 ⟨hb, by simp [hvalue]⟩
  cases bindings with
  | nil => cases hb
  | cons c bs =>
    simp only [importPieces, Bool.false_eq_true, if_false]
    generalize (c :: bs).filter (!·.typeOnly) = kept at hkept
    rcases kept with _ | ⟨d, _ | ⟨d', kept⟩⟩
    · cases hkept
    · obtain rfl := List.mem_singleton.1 hkept
      by_cases houter : b.outer = "*"
      · exact .inl ⟨houter, by simp [houter]⟩
      · exact .inr (by simp [houter])
    · exact .inr ⟨List.mem_cons_self, List.mem_cons_of_mem _ (List.mem_map_of_mem hkept)⟩

/-- A name that is imported has a variable, which reads the exports of its module or holds them. -/
theorem Imports.mem_prologue (h : Imports statements n specifier name bound) :
    (name = "*" ∧ varStatement bound (requireCall specifier) ∈ prologue statements) ∨
      (varStatement (moduleVariable n) (requireCall specifier) ∈ prologue statements ∧
        (bindingPiece (moduleVariable n) ⟨name, bound, false⟩).text ∈ prologue statements) := by
  obtain ⟨s, bindings, hs, hform, hb⟩ := h
  have hmem : ∀ {p : Piece}, p ∈ importPieces (moduleVariable n) specifier bindings false →
      p.text ∈ prologue statements := by
    intro p hp
    refine mem_prologue_of_requirePieces hs ?_
    rwa [Statement.requirePieces, hform]
  rcases mem_importPieces hb rfl with ⟨hname, hrun⟩ | ⟨hrun, hbinding⟩
  · exact .inl ⟨hname, hmem hrun⟩
  · exact .inr ⟨hmem hrun, hmem hbinding⟩

/-- A variable that is given out has a getter. -/
theorem Exports.mem_prologue (h : Exports statements bound exported) :
    getter exported bound ∈ prologue statements := by
  obtain ⟨s, hs, bindings, typeOnly, hform, hb⟩ := h
  obtain ⟨n, hn⟩ := List.getElem?_of_mem hs
  refine mem_prologue_of_getterPieces (p := .getter exported (.variable bound)) hn ?_
  simp only [Statement.getterPieces, hform]
  exact List.mem_map.2 ⟨_, List.mem_filter.2 ⟨hb, rfl⟩, rfl⟩

/-- The expressions that read a name from the exports in two variables: behind a getter, and for an
import. They agree on what they read, for the default export if the exports have a mark. -/
theorem exists_expressions {object object' : Text} (hobject : isIdentifier object)
    (hobject' : isIdentifier object') (name bound exported : Text) :
    ∃ e' E E', (bindingPiece object' ⟨name, bound, false⟩).text = varStatement bound e' ∧
      Means (bindingReading object ⟨exported, name, false⟩).text E ∧ Means e' E' ∧
      ∀ {m : Type → Type} [Monad m] [LawfulMonad m] {Value : Type} (r : Realm m Value) (v : Value),
        r.read object = pure v → r.read object' = pure v → (name = "default" → r.IsModule v) →
          r.eval E = r.eval E' ∧ (name = "*" → r.eval E = pure v) := by
  by_cases hstar : name = "*"
  · refine ⟨object', .name object, .name object', ?_, ?_, means_name hobject', ?_⟩
    · simp only [bindingPiece, if_pos hstar]
      rfl
    · simp only [bindingReading, if_pos hstar]
      exact means_name hobject
    · intro m _ _ Value r v hread hread' _
      exact ⟨hread.trans hread'.symm, fun _ => hread⟩
  · obtain ⟨key, hmember, hkey⟩ := means_member name
    have hreading : (bindingReading object ⟨exported, name, false⟩).text = member object name := by
      simp only [bindingReading, if_neg hstar]
      rfl
    rw [hreading]
    by_cases hdefault : name = "default"
    · obtain rfl : key = "default" := (hkey (by rw [hdefault]; decide)).trans (by rw [hdefault]; decide)
      refine ⟨(Reading.defaultOf object').text, _, _, ?_, hmember object hobject,
        means_defaultOf hobject', ?_⟩
      · simp only [bindingPiece, if_neg hstar, if_pos hdefault]
        rfl
      · intro m _ _ Value r v hread hread' hmodule
        refine ⟨?_, fun h => absurd h hstar⟩
        rw [Realm.eval_property hread, Realm.eval_defaultOf_of_isModule hread' (hmodule hdefault)]
    · refine ⟨member object' name, _, _, ?_, hmember object hobject, hmember object' hobject', ?_⟩
      · simp only [bindingPiece, if_neg hstar, if_neg hdefault]
        rfl
      · intro m _ _ Value r v hread hread' _
        refine ⟨?_, fun h => absurd h hstar⟩
        rw [Realm.eval_property hread, Realm.eval_property hread']

/-- A name that a module passes on has, each time it is read, the value that an import of it would have
then, and so that of a getter for the imported variable. Only the default export of a module without a
mark is read in two ways. -/
theorem eval_eq_of_reexports (h : Reexports statements i specifier name exported)
    (h' : Imports statements' j specifier name bound) :
    ∃ e e' E E', getter exported e ∈ prologue statements ∧
      varStatement (moduleVariable i) (requireCall specifier) ∈ prologue statements ∧
      varStatement bound e' ∈ prologue statements' ∧
      (e' = requireCall specifier ∨
        varStatement (moduleVariable j) (requireCall specifier) ∈ prologue statements') ∧
      (∀ exported', Exports statements' bound exported' →
        getter exported' bound ∈ prologue statements') ∧
      Means e E ∧ Means e' E' ∧
      ∀ {m : Type → Type} [Monad m] [LawfulMonad m] {Value : Type} (r : Realm m Value) (v : Value),
        r.require (stringOf specifier) = pure v → r.read (moduleVariable i) = pure v →
        r.read (moduleVariable j) = pure v → (name = "default" → r.IsModule v) →
          r.eval E = r.eval E' ∧
            ∀ w, r.eval E' = pure w → r.read bound = pure w → r.eval (.name bound) = r.eval E := by
  obtain ⟨hgetter, hmodule⟩ := h.mem_prologue
  obtain ⟨e', E, E', htext, hmeans, hmeans', heval⟩ := exists_expressions (isIdentifier_moduleVariable i)
    (isIdentifier_moduleVariable j) name bound exported
  have hagain : ∀ {m : Type → Type} [Monad m] {Value : Type} {r : Realm m Value} {F : Expression},
      r.eval E = r.eval F →
        ∀ w, r.eval F = pure w → r.read bound = pure w → r.eval (.name bound) = r.eval E :=
    fun heq w hw hbound => hbound.trans (heq.trans hw).symm
  rcases h'.mem_prologue with ⟨hstar, hrun⟩ | ⟨hrun, hbinding⟩
  · refine ⟨_, _, _, _, hgetter, hmodule, hrun, .inl rfl, fun _ h => h.mem_prologue, hmeans,
      means_requireCall specifier, ?_⟩
    intro m _ _ Value r v hrequire hread hread' hmark
    have heq := (heval r v hread hread' hmark).2 hstar
    have : r.eval E = r.eval (.require (stringOf specifier)) := heq.trans hrequire.symm
    exact ⟨this, hagain this⟩
  · rw [htext] at hbinding
    refine ⟨_, _, _, _, hgetter, hmodule, hbinding, .inr hrun, fun _ h => h.mem_prologue, hmeans,
      hmeans', ?_⟩
    intro m _ _ Value r v _ hread hread' hmark
    have heq := (heval r v hread hread' hmark).1
    exact ⟨heq, hagain heq⟩

end Names

/-- The statements of `export { default as x } from 's'`. -/
def defaultPassedOn : List Statement :=
  [⟨⟨0, 1, 1⟩, 32, .reexports "s" [⟨"x", "default", false⟩] false⟩]

/-- The statements of `import { default as y } from 's'`. -/
def defaultImported : List Statement :=
  [⟨⟨0, 1, 1⟩, 32, .imports "s" [⟨"default", "y", false⟩] false⟩]

theorem reexports_defaultPassedOn : Reexports defaultPassedOn 0 "s" "default" "x" :=
  ⟨_, _, rfl, rfl, List.mem_singleton.2 rfl⟩

theorem imports_defaultImported : Imports defaultImported 0 "s" "default" "y" :=
  ⟨_, _, rfl, rfl, List.mem_singleton.2 rfl⟩

/-- The exports of a module with a mark, in a realm of numbers: 0 is undefined, 1 are the exports, 2 is
the mark and 3 the default export. -/
def markedRealm : Realm Id Nat where
  read _ := 1
  require _ := 1
  get v key := if v = 1 && key = "__esModule" then 2 else if v = 1 && key = "default" then 3 else 0
  truthy v := v ≠ 0

/-- The default export of a module with a mark is passed on as it is imported. -/
theorem eval_markedRealm : ∃ e e' E E',
    Reexports defaultPassedOn 0 "s" "default" "x" ∧ Imports defaultImported 0 "s" "default" "y" ∧
      getter "x" e ∈ prologue defaultPassedOn ∧ varStatement "y" e' ∈ prologue defaultImported ∧
      Means e E ∧ Means e' E' ∧ markedRealm.IsModule 1 ∧ markedRealm.eval E = markedRealm.eval E' := by
  have hmodule : markedRealm.IsModule 1 := ⟨rfl, 2, rfl, rfl⟩
  obtain ⟨e, e', E, E', hgetter, -, hbinding, -, -, hmeans, hmeans', heval⟩ :=
    eval_eq_of_reexports reexports_defaultPassedOn imports_defaultImported
  exact ⟨e, e', E, E', reexports_defaultPassedOn, imports_defaultImported, hgetter, hbinding, hmeans,
    hmeans', hmodule, (heval markedRealm 1 rfl rfl rfl fun _ => hmodule).1⟩

/-- A realm with one object that has no properties: the exports of a module without a mark. -/
def plainRealm : Realm Id Bool where
  read _ := true
  require _ := true
  get _ _ := false
  truthy v := v

/-- The default export of a module without a mark is imported as its exports. It is passed on as a
property of them, which they do not have. -/
theorem plain_default_passed_on : ∃ E E',
    (Lowering.transpile "a.js" "export \x7b default as x \x7d from 's'").result =
        .ok (esModuleMark ++ " " ++ getter "x" "__tsb_m0.default" ++ " " ++
          varStatement "__tsb_m0" (requireCall "s") ++ " ") ∧
      (Lowering.transpile "a.js" "import \x7b default as y \x7d from 's'").result =
        .ok (esModuleMark ++ " " ++ varStatement "__tsb_m0" (requireCall "s") ++ " " ++
          varStatement "y" (Reading.defaultOf "__tsb_m0").text ++ " ") ∧
      Means "__tsb_m0.default" E ∧ Means (Reading.defaultOf "__tsb_m0").text E' ∧
      plainRealm.read "__tsb_m0" = pure true ∧ plainRealm.require "s" = pure true ∧
      plainRealm.eval E = pure false ∧ plainRealm.eval E' = pure true := by
  have hobject : isIdentifier "__tsb_m0" := isIdentifier_moduleVariable 0
  obtain ⟨key, hmember, -⟩ := means_member "default"
  have heval : plainRealm.eval (defaultOf "__tsb_m0") = pure true :=
    @Realm.eval_defaultOf_of_plain _ _ _ _ _ _ _ false rfl rfl rfl
  obtain ⟨_, -, hout⟩ := exists_result_transpile "a.js" "export \x7b default as x \x7d from 's'"
    defaultPassedOn (by decide) (by
      rw [Text.ofString_ofList]
      decide +kernel)
  obtain ⟨_, -, hout'⟩ := exists_result_transpile "a.js" "import \x7b default as y \x7d from 's'"
    defaultImported (by decide) (by
      rw [Text.ofString_ofList]
      decide +kernel)
  have hvariable : moduleVariable 0 = "__tsb_m0" := by decide +kernel
  have hreading : readBinding "__tsb_m0" ⟨"x", "default", false⟩ = "__tsb_m0.default" := by decide +kernel
  have hprologue : prologue defaultPassedOn = [esModuleMark,
      getter "x" (readBinding (moduleVariable 0) ⟨"x", "default", false⟩),
      varStatement (moduleVariable 0) (requireCall "s")] := rfl
  have hprologue' : prologue defaultImported = [esModuleMark,
      varStatement (moduleVariable 0) (requireCall "s"),
      varStatement "y" (Reading.defaultOf (moduleVariable 0)).text] := rfl
  rw [hvariable] at hprologue'
  rw [hvariable, hreading] at hprologue
  have hbody : applyEdits 0 (hideHashbang "export \x7b default as x \x7d from 's'")
      (sourceEdits "export \x7b default as x \x7d from 's'" defaultPassedOn) = [] := by
    decide +kernel
  have hbody' : applyEdits 0 (hideHashbang "import \x7b default as y \x7d from 's'")
      (sourceEdits "import \x7b default as y \x7d from 's'" defaultImported) = [] := by
    decide +kernel
  rw [lower_eq_join hprologue hbody rfl] at hout
  rw [lower_eq_join hprologue' hbody' rfl] at hout'
  exact ⟨_, _, by simpa [Text.join] using hout, by simpa [Text.join] using hout', hmember _ hobject,
    means_defaultOf hobject, rfl, rfl, rfl, heval⟩

end Lowering

end ScriptBundle
