import ScriptBundle.Proofs.Statement.Recorded
import ScriptBundle.Proofs.Token.Transport

/-!
# Tokens without module statements

The scanner finds nothing in a list of tokens exactly when outside all brackets each keyword that
names no member is one of the other uses of `import` and `export`. Which use it is can be seen from the
kinds and texts of the tokens behind it, mostly from the next one.

* `isOther`: the keywords that start no module statement, `readStatement_eq_none_iff`;
* `Silent`: no keyword of a list of tokens starts one, `scanFrom_eq_nil_iff`;
* `isOther_append`: how far behind a keyword one has to look.
-/

namespace ScriptBundle

namespace Statement

/-- The words in front of a declaration of a type. -/
def isTypeWord (t : Token) : Bool := t.isWord "type" || t.isWord "interface"

/-- `export`, with `ts` behind it, starts no module statement. -/
def isOtherExport (ts : List Token) : Bool :=
  !kindAhead .star ts && !kindAhead .leftBrace ts && !wordAhead "default" ts &&
    !(dropDeclarationModifiers ts).head?.any fun t => isVariableWord t || isNamingWord t || isTypeWord t

/-- The token `t`, with `ts` behind it, starts no module statement. -/
def isOther (t : Token) (ts : List Token) : Bool :=
  match t.kind with
  | .importWord => isOtherImport ts
  | .exportWord => isOtherExport ts
  | _ => true

section Read

variable {last word t : Token} {ts us : List Token}

theorem readImport_eq_none_iff : readImport last word ts = .ok none ↔ isOtherImport ts := by
  constructor
  · intro h
    by_contra hother
    exact readImport_ne_none (Bool.eq_false_iff.2 hother) h
  · intro h
    rw [readImport, h]
    rfl

theorem readDeclaration_eq_none_iff :
    readDeclaration last ts = .ok none ↔ (dropDeclarationModifiers ts).head?.any (fun t =>
      isVariableWord t || isNamingWord t || isTypeWord t) = false := by
  unfold readDeclaration
  cases dropDeclarationModifiers ts with
  | nil => simp
  | cons t us =>
    simp only [List.head?_cons, Option.any_some, Bool.or_eq_false_iff]
    split
    · next hword =>
      have hvariable : isVariableWord t := hword
      simp only [hvariable, Bool.true_eq_false, false_and, iff_false]
      split
      · intro h
        cases h
      · intro h
        obtain ⟨_, _, h⟩ := Except.map_eq_ok_iff.1 h
        cases h
    · next hword =>
      have hvariable : isVariableWord t = false := Bool.eq_false_iff.2 hword
      split
      · next hname =>
        have hnaming : isNamingWord t := hname
        simp [hnaming]
      · next hname =>
        have hnaming : isNamingWord t = false := Bool.eq_false_iff.2 hname
        split
        · next htype =>
          have htype : isTypeWord t := htype
          simp [htype]
        · next htype =>
          have htype : isTypeWord t = false := Bool.eq_false_iff.2 htype
          simp [hvariable, hnaming, htype]

/-- A word that is no modifier is the one behind the modifiers. -/
theorem dropDeclarationModifiers_cons (h : isModifier t = false) :
    dropDeclarationModifiers (t :: us) = t :: us :=
  @dropDeclarationModifiers_append _ [] us (by simp) h

/-- `export type` gives out types where a list or a star is behind it. -/
theorem exists_of_marksTypeExport (h : marksTypeExport ts) :
    ∃ t u us, ts = t :: u :: us ∧ t.isWord "type" ∧ (u.kind = .leftBrace ∨ u.kind = .star) := by
  unfold marksTypeExport at h
  split at h
  · next t u us =>
    simp only [Bool.and_eq_true, Bool.or_eq_true, decide_eq_true_eq] at h
    exact ⟨t, u, us, rfl, h⟩
  · cases h

theorem not_isOtherExport_of_isWord_type (h : t.isWord "type") : isOtherExport (t :: us) = false := by
  have hmodifier : isModifier t = false := by
    simp only [isModifier, Bool.or_eq_false_iff]
    exact ⟨⟨isWord_eq_false h (by decide), isWord_eq_false h (by decide)⟩,
      isWord_eq_false h (by decide)⟩
  simp [isOtherExport, dropDeclarationModifiers_cons hmodifier, isTypeWord, h]

/-- `export =` and `export as` declare nothing. -/
theorem declares_nothing (h : t.kind = .equals || t.isWord "as") :
    (dropDeclarationModifiers (t :: us)).head?.any (fun t =>
      isVariableWord t || isNamingWord t || isTypeWord t) = false := by
  simp only [Bool.or_eq_true, decide_eq_true_eq] at h
  have hplain : ∀ w, w ≠ Text.ofString "as" → t.isWord w = false := by
    intro w hw
    rcases h with h | h
    · simp [Token.isWord, h]
    · exact isWord_eq_false h hw.symm
  have hother : ∀ {p : Bool}, (p → ∃ w ∈ declarationWords, t.isWord w) → p = false := by
    intro p hp
    by_contra hp'
    obtain ⟨w, hw, ht⟩ := hp (Bool.of_not_eq_false hp')
    have hne : w ≠ Text.ofString "as" := by
      rintro rfl
      revert hw
      decide
    rw [hplain w hne] at ht
    cases ht
  have htype : isTypeWord t = false := by
    rw [isTypeWord, hplain _ (by decide), hplain _ (by decide)]
    rfl
  simp [dropDeclarationModifiers_cons (hother exists_of_isModifier), htype,
    hother exists_of_isVariableWord, hother exists_of_isNamingWord]

theorem readExport_eq_none_iff : readExport last word ts = .ok none ↔ isOtherExport ts := by
  by_cases hmarks : marksTypeExport ts
  · obtain ⟨t, u, us, rfl, ht, hu⟩ := exists_of_marksTypeExport hmarks
    simp only [readExport, hmarks, if_true, List.tail_cons, not_isOtherExport_of_isWord_type ht,
      Bool.false_eq_true, iff_false]
    rcases hu with hu | hu
    · simpa only [hu, reduceCtorEq, if_false, if_true] using readExportNames_ne_none
    · simpa only [hu, if_true] using readExportAll_ne_none
  · simp only [readExport, hmarks, Bool.false_eq_true, if_false]
    cases ts with
    | nil => simp [isOtherExport, kindAhead, wordAhead, dropDeclarationModifiers]
    | cons t us =>
      dsimp only
      split
      · next hstar =>
        have hother : isOtherExport (t :: us) = false := by simp [isOtherExport, kindAhead, hstar]
        simpa only [hother, Bool.false_eq_true, iff_false] using readExportAll_ne_none
      next hstar =>
      split
      · next hbrace =>
        have hother : isOtherExport (t :: us) = false := by simp [isOtherExport, kindAhead, hbrace]
        simpa only [hother, Bool.false_eq_true, iff_false] using readExportNames_ne_none
      next hbrace =>
      split
      · next hdefault => simp [isOtherExport, wordAhead, hdefault]
      next hdefault =>
      -- What is left are declarations, and the keyword is another one if it declares nothing.
      have hfront : isOtherExport (t :: us) = !(dropDeclarationModifiers (t :: us)).head?.any
          fun t => isVariableWord t || isNamingWord t || isTypeWord t := by
        simp [isOtherExport, kindAhead, wordAhead, hstar, hbrace, hdefault]
      rw [hfront, Bool.not_eq_true']
      split
      · next h => simp only [declares_nothing h]
      · rw [← @readDeclaration_eq_none_iff last]
        constructor
        · intro h
          obtain ⟨r, hd, h⟩ := Except.map_eq_ok_iff.1 h
          cases r with
          | none => exact hd
          | some r => cases h
        · intro h
          rw [h]
          rfl

theorem readStatement_eq_none_iff : readStatement last t ts = .ok none ↔ isOther t ts := by
  unfold readStatement isOther
  split
  · next h =>
    rw [h]
    exact readImport_eq_none_iff
  · next himport =>
    split
    · next h =>
      rw [h]
      exact readExport_eq_none_iff
    · next hexport =>
      split
      · next h => exact absurd h himport
      · next h => exact absurd h hexport
      · exact iff_of_true rfl rfl

theorem isOther_of_not_isKeyword (h : t.isKeyword = false) (ts : List Token) : isOther t ts := by
  unfold isOther
  split
  · next hk => simp [Token.isKeyword, hk] at h
  · next hk => simp [Token.isKeyword, hk] at h
  · rfl

end Read

/-! ### How far to look -/

section Ahead

variable {t t' : Token} {ts ts' ws : List Token}

/-- The tokens `ws` behind the keyword `t` do not tell whether it starts a module statement. -/
def Undecided (t : Token) (ws : List Token) : Prop :=
  (t.kind = .importWord ∧ ∀ w ∈ ws, w.kind = .identifier) ∨
    (t.kind = .exportWord ∧ ∀ w ∈ ws, isModifier w)

instance (t : Token) (ws : List Token) : Decidable (Undecided t ws) :=
  inferInstanceAs (Decidable (_ ∨ _))

theorem isOtherImport_append (h : ¬ ∀ w ∈ ws, w.kind = .identifier) (a b : List Token) :
    isOtherImport (ws ++ a) = isOtherImport (ws ++ b) := by
  obtain ⟨w, hw, hkind⟩ : ∃ w ∈ ws, w.kind ≠ .identifier := by simpa using h
  rcases ws with _ | ⟨w₁, _ | ⟨w₂, _ | ⟨w₃, ws⟩⟩⟩
  · cases hw
  · -- The word behind the keyword is none of those that are looked behind.
    obtain rfl := List.mem_singleton.1 hw
    simp [isOtherImport, Token.isWord, hkind]
  · by_cases h₁ : w₁.kind = .identifier
    · have h₂ : w₂.kind ≠ .identifier := by
        rcases List.mem_cons.1 hw with rfl | hw
        · exact absurd h₁ hkind
        · exact List.mem_singleton.1 hw ▸ hkind
      simp [isOtherImport, kindAhead, h₁, h₂]
    · simp [isOtherImport, Token.isWord, h₁]
  · simp [isOtherImport, kindAhead]

theorem isOtherExport_append (h : ¬ ∀ w ∈ ws, isModifier w) (a b : List Token) :
    isOtherExport (ws ++ a) = isOtherExport (ws ++ b) := by
  have hdrop : ∀ c, (dropDeclarationModifiers (ws ++ c)).head? = (ws.dropWhile isModifier).head? := by
    intro c
    change ((ws ++ c).dropWhile isModifier).head? = _
    have hne : ws.dropWhile isModifier ≠ [] := by rwa [Ne, List.dropWhile_eq_nil_iff]
    rw [List.dropWhile_append, if_neg (by simpa using hne), List.head?_append_of_ne_nil _ hne]
  cases ws with
  | nil => simp at h
  | cons w ws =>
    rw [isOtherExport, isOtherExport, hdrop, hdrop]
    rfl

/-- What stands behind the tokens that decide does not matter. -/
theorem isOther_append (h : ¬ Undecided t ws) (a b : List Token) :
    isOther t (ws ++ a) = isOther t (ws ++ b) := by
  simp only [Undecided, not_or, not_and] at h
  unfold isOther
  split
  · next hk => exact isOtherImport_append (h.1 hk) a b
  · next hk => exact isOtherExport_append (h.2 hk) a b
  · rfl

/-- The tokens have the same kinds and texts. -/
def SameSigns (ts ts' : List Token) : Prop := ts.map Token.sign = ts'.map Token.sign

theorem SameSigns.cases (h : SameSigns ts ts') :
    (ts = [] ∧ ts' = []) ∨ ∃ t us t' us', ts = t :: us ∧ ts' = t' :: us' ∧ t.sign = t'.sign ∧
      SameSigns us us' := by
  cases ts with
  | nil => exact .inl ⟨rfl, List.map_eq_nil_iff.1 h.symm⟩
  | cons t us =>
    obtain ⟨t', us', rfl, ht, hus⟩ := List.map_eq_cons_iff.1 h.symm
    exact .inr ⟨t, us, t', us', rfl, rfl, ht.symm, hus.symm⟩

theorem SameSigns.tail (h : SameSigns ts ts') : SameSigns ts.tail ts'.tail := by
  rcases h.cases with ⟨rfl, rfl⟩ | ⟨t, us, t', us', rfl, rfl, -, h⟩
  · rfl
  · exact h

theorem isWord_congr (h : t.sign = t'.sign) (w : Text) : t.isWord w = t'.isWord w := by
  obtain ⟨hkind, htext⟩ := Prod.mk.inj h
  rw [Token.isWord, Token.isWord, hkind, htext]

theorem kindAhead_congr (h : SameSigns ts ts') (k : TokenKind) : kindAhead k ts = kindAhead k ts' := by
  rcases h.cases with ⟨rfl, rfl⟩ | ⟨t, us, t', us', rfl, rfl, ht, -⟩
  · rfl
  · rw [kindAhead, kindAhead, List.head?_cons, List.head?_cons, Option.any_some, Option.any_some,
      (Prod.mk.inj ht).1]

theorem wordAhead_congr (h : SameSigns ts ts') (w : Text) : wordAhead w ts = wordAhead w ts' := by
  rcases h.cases with ⟨rfl, rfl⟩ | ⟨t, us, t', us', rfl, rfl, ht, -⟩
  · rfl
  · rw [wordAhead, wordAhead, List.head?_cons, List.head?_cons, Option.any_some, Option.any_some,
      isWord_congr ht]

theorem dropDeclarationModifiers_congr (h : SameSigns ts ts') :
    SameSigns (dropDeclarationModifiers ts) (dropDeclarationModifiers ts') := by
  induction ts generalizing ts' with
  | nil =>
    obtain rfl := List.map_eq_nil_iff.1 h.symm
    rfl
  | cons t us ih =>
    obtain ⟨⟨⟩, -⟩ | ⟨_, _, t', us', heq, rfl, ht, hus⟩ := h.cases
    obtain ⟨rfl, rfl⟩ := List.cons.inj heq
    unfold dropDeclarationModifiers
    rw [List.dropWhile_cons, List.dropWhile_cons, isWord_congr ht, isWord_congr ht, isWord_congr ht]
    split
    · exact ih hus
    · exact h

/-- Whether a keyword starts a module statement can be seen from the kinds and texts behind it. -/
theorem isOther_congr (ht : t.sign = t'.sign) (h : SameSigns ts ts') : isOther t ts = isOther t' ts' := by
  have himport : isOtherImport ts = isOtherImport ts' := by
    rw [isOtherImport_eq, isOtherImport_eq, isTypeAlias, isTypeAlias]
    simp only [kindAhead_congr h, kindAhead_congr h.tail, kindAhead_congr h.tail.tail,
      wordAhead_congr h]
  have hexport : isOtherExport ts = isOtherExport ts' := by
    have hhead : (dropDeclarationModifiers ts).head?.any (fun t =>
        isVariableWord t || isNamingWord t || isTypeWord t) =
        (dropDeclarationModifiers ts').head?.any (fun t =>
          isVariableWord t || isNamingWord t || isTypeWord t) := by
      rcases (dropDeclarationModifiers_congr h).cases with ⟨heq, heq'⟩ |
        ⟨u, us, u', us', heq, heq', hu, -⟩
      · rw [heq, heq']
      · simp only [heq, heq', List.head?_cons, Option.any_some, isVariableWord, isNamingWord,
          isTypeWord, isWord_congr hu]
    simp only [isOtherExport, kindAhead_congr h, wordAhead_congr h, hhead]
  rw [isOther, isOther, (Prod.mk.inj ht).1, himport, hexport]

end Ahead

/-! ### Silence -/

section Silent

variable {last : Token} {prev prev' : Option Token} {st : List TokenKind} {ts ts' : List Token}

/-- Behind the token `prev` and inside the brackets `st`, every token that stands outside all brackets and
names no member has the property `P`, with the tokens behind it. -/
def Outer (P : Token → List Token → Prop) (prev : Option Token) (st : List TokenKind)
    (ts : List Token) : Prop :=
  ∀ before t after, ts = before ++ t :: after → openBehind st before = some [] →
    (before.getLast?.or prev).any (·.selectsMember) = false → P t after

/-- No token outside all brackets starts a module statement. -/
def Silent (prev : Option Token) (st : List TokenKind) (ts : List Token) : Prop :=
  Outer (fun t after => isOther t after) prev st ts

/-- No token outside all brackets is a keyword, unless it names a member. -/
def Mute (prev : Option Token) (st : List TokenKind) (ts : List Token) : Prop :=
  Outer (fun t _ => t.isKeyword = false) prev st ts

variable {P : Token → List Token → Prop}

theorem outer_nil (prev : Option Token) (st : List TokenKind) : Outer P prev st [] :=
  fun before _ _ h => by cases before <;> cases h

theorem outer_cons_iff {t : Token} :
    Outer P prev st (t :: ts) ↔ (st = [] → prev.any (·.selectsMember) = false → P t ts) ∧
      ∀ st', openedBy st t = some st' → Outer P (some t) st' ts := by
  constructor
  · intro h
    refine ⟨fun hst hprev => h [] t ts rfl (by rw [hst]; rfl) (by simpa using hprev), ?_⟩
    intro st' hst' before u after hts hopen hmember
    refine h (t :: before) u after (congrArg (t :: ·) hts) ?_ (by rwa [getLast?_cons_or])
    rw [openBehind_cons, hst', Option.bind_some, hopen]
  · rintro ⟨hhead, htail⟩ before u after hts hopen hmember
    cases before with
    | nil =>
      obtain ⟨rfl, rfl⟩ := List.cons.inj hts
      exact hhead (Option.some.inj hopen) (by simpa using hmember)
    | cons v before =>
      obtain ⟨rfl, hus⟩ := List.cons.inj hts
      obtain ⟨st', hst', hopen⟩ := exists_of_openBehind_cons hopen
      rw [getLast?_cons_or] at hmember
      exact htail st' hst' before u after hus hopen hmember

theorem length_depthAfter {t : Token} {st' : List TokenKind} (h : openedBy st t = some st') :
    depthAfter st.length t = st'.length := by
  unfold depthAfter
  rcases token_cases t with ht | ht | ht
  · rw [openedBy_opener ht] at h
    cases h
    simp [ht]
  · obtain rfl := (openedBy_closer ht).1 h
    simp [not_isOpener_of_isCloser ht, ht]
  · rw [openedBy_plain ht] at h
    cases h
    simp only [Token.isPlain, Bool.and_eq_true, Bool.not_eq_true'] at ht
    simp [ht.1, ht.2]

/-- The scanner finds no statement in nested tokens exactly when they are silent. -/
theorem scanFrom_eq_nil_iff (hn : openBehind st ts = some []) :
    scanFrom last prev st.length ts = .ok [] ↔ Silent prev st ts := by
  induction ts generalizing prev st with
  | nil => exact iff_of_true (by rw [scanFrom]) (outer_nil prev st)
  | cons t us ih =>
    obtain ⟨st', hst', hn⟩ := exists_of_openBehind_cons hn
    have hrest : (∀ mid, openedBy st t = some mid → Outer (fun t after => isOther t after) (some t) mid us) ↔
        Silent (some t) st' us := by simp [hst', Silent]
    rw [Silent, outer_cons_iff, hrest, ← ih hn, ← length_depthAfter hst', scanFrom]
    by_cases hattempt : st = [] ∧ prev.any (·.selectsMember) = false
    · obtain ⟨rfl, hmember⟩ := hattempt
      rw [if_pos (by simp [hmember])]
      simp only [hmember, forall_const, ← @readStatement_eq_none_iff last]
      split
      · next heq => simp [heq]
      · next s rest heq =>
        rw [heq]
        constructor
        · intro h
          obtain ⟨_, _, h⟩ := Except.map_eq_ok_iff.1 h
          cases h
        · rintro ⟨h, -⟩
          cases h
      · next heq => simp [heq]
    · have hskip : (decide (st.length = 0) && !prev.any (·.selectsMember)) = false := by
        simpa using hattempt
      rw [hskip, if_neg Bool.false_ne_true]
      have hvacuous : st = [] → prev.any (·.selectsMember) = false → isOther t us := fun h h' =>
        absurd ⟨h, h'⟩ hattempt
      exact ⟨fun h => ⟨hvacuous, h⟩, fun h => h.2⟩

theorem selectsMember_congr {t t' : Token} (h : t.sign = t'.sign) :
    t.selectsMember = t'.selectsMember := by
  obtain ⟨hkind, htext⟩ := Prod.mk.inj h
  rw [Token.selectsMember, Token.selectsMember, hkind, htext]

theorem openedBy_congr {t t' : Token} (h : t.sign = t'.sign) (st : List TokenKind) :
    openedBy st t = openedBy st t' := by
  simp only [openedBy, (Prod.mk.inj h).1]

theorem openBehind_congr (h : SameSigns ts ts') (st : List TokenKind) :
    openBehind st ts = openBehind st ts' := by
  induction ts generalizing ts' st with
  | nil =>
    obtain rfl := List.map_eq_nil_iff.1 h.symm
    rfl
  | cons t us ih =>
    obtain ⟨⟨⟩, -⟩ | ⟨_, _, t', us', heq, rfl, ht, hus⟩ := h.cases
    obtain ⟨rfl, rfl⟩ := List.cons.inj heq
    rw [openBehind_cons, openBehind_cons, openedBy_congr ht, funext (ih hus)]

/-- Whether tokens are silent can be seen from their kinds and texts. -/
theorem silent_congr (h : SameSigns ts ts') (hprev : prev.any (·.selectsMember) =
    prev'.any (·.selectsMember)) : Silent prev st ts ↔ Silent prev' st ts' := by
  induction ts generalizing ts' prev prev' st with
  | nil =>
    obtain rfl := List.map_eq_nil_iff.1 h.symm
    exact iff_of_true (outer_nil _ _) (outer_nil _ _)
  | cons t us ih =>
    obtain ⟨⟨⟩, -⟩ | ⟨_, _, t', us', heq, rfl, ht, hus⟩ := h.cases
    obtain ⟨rfl, rfl⟩ := List.cons.inj heq
    rw [Silent, Silent, outer_cons_iff, outer_cons_iff, hprev, isOther_congr ht hus]
    refine and_congr_right' (forall_congr' fun st' => ?_)
    rw [openedBy_congr ht]
    exact imp_congr_right fun _ => ih hus (selectsMember_congr ht)

/-- In front of other tokens, mute ones do not matter. -/
theorem silent_append_iff {st' : List TokenKind} (h : Mute prev st ts)
    (hst : openBehind st ts = some st') :
    Silent prev st (ts ++ ts') ↔ Silent (ts.getLast?.or prev) st' ts' := by
  induction ts generalizing prev st with
  | nil =>
    cases hst
    rfl
  | cons t us ih =>
    obtain ⟨mid, hmid, hst⟩ := exists_of_openBehind_cons hst
    obtain ⟨hhead, htail⟩ := outer_cons_iff.1 h
    rw [getLast?_cons_or, ← ih (htail mid hmid) hst, List.cons_append, Silent, outer_cons_iff, hmid]
    constructor
    · rintro ⟨-, hrest⟩
      exact hrest mid rfl
    · rintro hrest
      refine ⟨fun hnil hprev => isOther_of_not_isKeyword (hhead hnil hprev) _, ?_⟩
      rintro _ ⟨⟩
      exact hrest

/-- What holds of the tokens outside all brackets holds of those behind the first ones. -/
theorem Outer.of_append {st' : List TokenKind} (h : Outer P prev st (ts ++ ts'))
    (hst : openBehind st ts = some st') : Outer P (ts.getLast?.or prev) st' ts' := by
  intro before t after heq hopen hmember
  refine h (ts ++ before) t after (by rw [heq, List.append_assoc]) ?_ ?_
  · rwa [openBehind_append_of_eq hst]
  · rwa [List.getLast?_append, Option.or_assoc]

theorem mute_of_forall (h : ∀ t ∈ ts, t.isKeyword = false) (prev : Option Token) (st : List TokenKind) :
    Mute prev st ts := by
  rintro before t after rfl - -
  exact h t (by simp)

/-- Mute tokens behind mute ones. -/
theorem Mute.append {st' : List TokenKind} (h : Mute prev st ts) (hst : openBehind st ts = some st')
    (h' : Mute (ts.getLast?.or prev) st' ts') : Mute prev st (ts ++ ts') := by
  intro before t after heq hopen hmember
  rcases List.append_eq_append_iff.1 heq with ⟨more, rfl, hts'⟩ | ⟨more, hts, hafter⟩
  · rw [openBehind_append_of_eq hst] at hopen
    refine h' more t after hts' hopen ?_
    rwa [List.getLast?_append, Option.or_assoc] at hmember
  · cases more with
    | nil =>
      obtain rfl : ts = before := by simpa using hts
      exact h' [] t after hafter.symm (hst.symm.trans hopen) hmember
    | cons u more =>
      obtain ⟨rfl, rfl⟩ := List.cons.inj hafter
      exact h before t more hts hopen hmember

end Silent

end Statement

end ScriptBundle
