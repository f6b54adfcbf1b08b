import ScriptBundle.Proofs.Statement.Append
import ScriptBundle.Proofs.Statement.Recorded

/-!
# Values in a declaration

The scanner passes over the default values and the initializers of a declaration without reading them.
It counts brackets and looks for the token behind the value, and a line break may end the value too
early. What is said here of a value holds as well for every other piece that is passed over.

* `IsExpression`: a nested run of tokens without a comma or a semicolon outside its brackets;
* `IsValue`: such a run whose line breaks end nothing, for example one on a single line;
* `dropExpression_of_unendedFrom`: an expression that goes on through a run of tokens;
* `dropExpression_value`, `dropExpression_expression`: what is left of a value, and of any expression;
* `Declarators`, `readStatement_of_declaratorNames`, `scanFrom_of_declarators`: the declarators of an
  exported declaration, what it is recorded as, and how the scanner goes on behind it.
-/

namespace ScriptBundle.Statement

variable {stop : TokenKind → Bool} {inType : Bool} {prev mark t u : Token} {depth : Int}
  {ts us run rest before after : List Token}

/-- A nested run of tokens without a comma or a semicolon outside its brackets. -/
structure IsExpression (ts : List Token) : Prop where
  nested : Nested ts
  outside : ∀ before t after, ts = before ++ t :: after → Nested before →
    t.kind ≠ .comma ∧ t.kind ≠ .semicolon

theorem isExpression_iff : IsExpression ts ↔ Nested ts ∧ ∀ i (h : i < ts.length),
    Nested (ts.take i) → ts[i].kind ≠ .comma ∧ ts[i].kind ≠ .semicolon := by
  constructor
  · rintro ⟨hnested, houtside⟩
    refine ⟨hnested, fun i hi => houtside _ _ (ts.drop (i + 1)) ?_⟩
    rw [List.getElem_cons_drop, List.take_append_drop]
  · rintro ⟨hnested, houtside⟩
    refine ⟨hnested, ?_⟩
    rintro before t after rfl hbefore
    simpa using houtside before.length (by simp) (by simpa using hbefore)

instance : DecidablePred IsExpression := fun _ => decidable_of_iff _ isExpression_iff.symm

/-- An expression without a line break, outside its brackets, in front of a token that starts a
statement. -/
structure IsValue (ts : List Token) : Prop extends IsExpression ts where
  uncut : ∀ before u t after, ts = before ++ u :: t :: after → Nested (before ++ [u]) →
    u.line < t.line → startsStatement u t = false

/-- An expression on one line is a value. -/
theorem isValue_of_line (h : IsExpression ts) {line : Nat} (hline : ∀ t ∈ ts, t.line = line) :
    IsValue ts := by
  refine ⟨h, fun before u t after heq _ hlt => ?_⟩
  have hu := hline u (by simp [heq])
  have ht := hline t (by simp [heq])
  omega

/-- Nested tokens on one line, none of them a comma or a semicolon, are a value. -/
theorem isValue_of_forall (line : Nat) (hn : Nested ts)
    (h : ∀ t ∈ ts, t.line = line ∧ t.kind ≠ .comma ∧ t.kind ≠ .semicolon) : IsValue ts := by
  refine isValue_of_line ⟨hn, fun before t after heq _ => ?_⟩ fun t ht => (h t ht).1
  exact (h t (by simp [heq])).2

/-! ### Passing over expressions -/

/-- Only a word starts a statement. -/
theorem startsStatement_of_not_word (h : t.kind.isWordKind = false) (prev : Token) :
    startsStatement prev t = false := by
  unfold startsStatement
  cases hk : t.kind <;> simp_all [TokenKind.isWordKind] <;> split <;> rfl

theorem unendedFrom_nil : UnendedFrom stop inType prev depth [] := by
  intro before t after heq
  cases before <;> cases heq

/-- An expression that goes on through some tokens goes on behind them. -/
theorem dropExpression_of_unendedFrom (h : UnendedFrom stop inType prev depth run)
    (rest : List Token) :
    dropExpression stop inType prev depth (run ++ rest) =
      dropExpression stop inType (run.getLastD prev) (depth + nestingOf inType run) rest := by
  induction run generalizing prev depth with
  | nil => simp [nestingOf]
  | cons t run ih =>
    obtain ⟨hhead, htail⟩ := unendedFrom_cons_iff.1 h
    have hgoes : (depth = 0 && endsExpression stop prev t) = false := by
      rw [Bool.eq_false_iff]
      intro hend
      simp only [Bool.and_eq_true, decide_eq_true_eq] at hend
      rw [hhead hend.1] at hend
      cases hend.2
    have hlast : (t :: run).getLastD prev = run.getLastD t := by
      cases run <;> rfl
    rw [List.cons_append, dropExpression, hgoes, if_neg (by simp), ih htail, hlast, nestingOf,
      nestingOf, List.map_cons, List.sum_cons, Int.add_assoc]

/-- Outside the brackets of an expression the count of the brackets is zero. -/
theorem nested_of_nestingOf (h : Nested (before ++ after)) (hzero : nestingOf false before = 0) :
    Nested before := by
  obtain ⟨mid, hmid, -⟩ := exists_of_openBehind_append h
  have hlength := length_openBehind hmid
  simp only [List.length_nil] at hlength
  obtain rfl : mid = [] := List.length_eq_zero_iff.1 (by omega)
  exact hmid

theorem nestingOf_of_nested (h : Nested ts) : nestingOf false ts = 0 := by
  have hlength := length_openBehind h
  simp only [List.length_nil] at hlength
  omega

/-- Behind nested tokens no bracket is left to close. -/
theorem not_isCloser_of_nested (h : Nested (before ++ t :: after)) (hbefore : Nested before) :
    t.kind.isCloser = false := by
  rw [Bool.eq_false_iff]
  intro hcloser
  rw [Nested, openBehind_append_of_eq hbefore] at h
  obtain ⟨mid, hmid, -⟩ := exists_of_openBehind_cons h
  cases (openedBy_closer hcloser).1 hmid

/-- Inside an expression only a line break can end it, if nothing but commas, semicolons and closing
brackets does so elsewhere. -/
theorem IsExpression.endsExpression (h : IsExpression ts)
    (hstop : ∀ k, stop k → k = .comma ∨ k = .semicolon ∨ k.isCloser)
    (heq : ts = before ++ t :: after) (hzero : nestingOf false before = 0) (prev : Token) :
    endsExpression stop prev t = (prev.line < t.line && startsStatement prev t) := by
  subst heq
  have hbefore := nested_of_nestingOf h.nested hzero
  have hcloser := not_isCloser_of_nested h.nested hbefore
  obtain ⟨hcomma, hsemicolon⟩ := h.outside before t after rfl hbefore
  have hgoes : stop t.kind = false := by
    rw [Bool.eq_false_iff]
    intro hk
    rcases hstop _ hk with hk | hk | hk
    · exact hcomma hk
    · exact hsemicolon hk
    · rw [hcloser] at hk
      cases hk
  rw [Statement.endsExpression, hgoes, hcloser, Bool.false_or, Bool.false_or]

/-- A value goes on up to its end. -/
theorem IsValue.unended (h : IsValue ts)
    (hstop : ∀ k, stop k → k = .comma ∨ k = .semicolon ∨ k.isCloser) (hmark : mark.kind = .equals) :
    Unended stop false mark ts := by
  intro before t after heq hzero
  rw [h.endsExpression hstop heq hzero]
  rcases List.eq_nil_or_concat' before with rfl | ⟨front, u, rfl⟩
  · have hstarts : startsStatement mark t = false := by simp [startsStatement, hmark]
    rw [List.getLastD_nil, hstarts, Bool.and_false]
  · rw [List.getLastD_concat]
    by_cases hlt : u.line < t.line
    · have hnested := nested_of_nestingOf (heq ▸ h.nested) hzero
      rw [h.uncut front u t after (by rw [heq, List.append_assoc]; rfl) hnested hlt, Bool.and_false]
    · simp [hlt]

/-- A value is passed over up to the token that ends it. -/
theorem dropExpression_value (h : IsValue ts)
    (hstop : ∀ k, stop k → k = .comma ∨ k = .semicolon ∨ k.isCloser) (hmark : mark.kind = .equals)
    (hend : stop t.kind ∨ t.kind.isCloser) (rest : List Token) :
    dropExpression stop false mark 0 (ts ++ t :: rest) = t :: rest := by
  have hunended := unended_iff.1 (h.unended hstop hmark)
  have hends : Statement.endsExpression stop (ts.getLastD mark) t := by
    rcases hend with hend | hend <;> simp [Statement.endsExpression, hend]
  rw [dropExpression_of_unendedFrom hunended, nestingOf_of_nested h.nested, dropExpression, hends]
  rfl

/-- An expression goes on through some tokens, or it ends at the first one that ends it. -/
theorem unendedFrom_or_ends (stop : TokenKind → Bool) (inType : Bool) (prev : Token) (depth : Int)
    (ts : List Token) :
    UnendedFrom stop inType prev depth ts ∨
      ∃ before t after, ts = before ++ t :: after ∧ UnendedFrom stop inType prev depth before ∧
        depth + nestingOf inType before = 0 ∧ endsExpression stop (before.getLastD prev) t ∧
        ∀ rest, dropExpression stop inType prev depth (ts ++ rest) = t :: (after ++ rest) := by
  induction ts generalizing prev depth with
  | nil => exact .inl unendedFrom_nil
  | cons t ts ih =>
    by_cases hend : depth = 0 ∧ endsExpression stop prev t
    · refine .inr ⟨[], t, ts, rfl, unendedFrom_nil, by simp [nestingOf, hend.1], hend.2, fun rest => ?_⟩
      rw [List.cons_append, dropExpression]
      simp [hend.1, hend.2]
    · have hgoes : depth = 0 → endsExpression stop prev t = false := fun hd =>
        Bool.eq_false_iff.2 fun h => hend ⟨hd, h⟩
      rcases ih t (depth + nesting inType t) with h | ⟨before, u, after, rfl, h, hzero, hu, hdrop⟩
      · exact .inl (unendedFrom_cons_iff.2 ⟨hgoes, h⟩)
      · have hlast : (t :: before).getLastD prev = before.getLastD t := by
          cases before <;> rfl
        refine .inr ⟨t :: before, u, after, rfl, unendedFrom_cons_iff.2 ⟨hgoes, h⟩, ?_,
          hlast ▸ hu, fun rest => ?_⟩
        · simp only [nestingOf, List.map_cons, List.sum_cons] at hzero ⊢
          omega
        · rw [List.cons_append, dropExpression, if_neg (by simpa using hend)]
          exact hdrop rest

/-- An expression is passed over up to its end, or a line break in it ends it in front of a token that
starts a statement. -/
theorem dropExpression_expression (h : IsExpression ts)
    (hstop : ∀ k, stop k → k = .comma ∨ k = .semicolon ∨ k.isCloser) (prev : Token)
    (rest : List Token) :
    dropExpression stop false prev 0 (ts ++ rest) =
        dropExpression stop false (ts.getLastD prev) 0 rest ∨
      ∃ u t more, dropExpression stop false prev 0 (ts ++ rest) = t :: more ∧
        startsStatement u t := by
  rcases unendedFrom_or_ends stop false prev 0 ts with
    hunended | ⟨before, t, after, heq, -, hzero, hend, hdrop⟩
  · left
    rw [dropExpression_of_unendedFrom hunended, nestingOf_of_nested h.nested, Int.add_zero]
  · right
    rw [h.endsExpression hstop heq (by omega), Bool.and_eq_true] at hend
    exact ⟨_, t, _, hdrop rest, hend.2⟩

/-! ### Declarators -/

/-- An optional value of the form `E` behind the sign `=`. -/
inductive Assigned (E : List Token → Prop) : List Token → Prop
  | none : Assigned E []
  | value {mark : Token} {value : List Token} (hm : mark.kind = .equals) (hv : E value) :
      Assigned E (mark :: value)

/-- Declarators of the form `D` with commas between them, and the names that they bind. -/
inductive Declarators (D : List Token → List Text → Prop) : List Token → List Text → Prop
  | one {ts : List Token} {names : List Text} (h : D ts names) : Declarators D ts names
  | cons {ts us : List Token} {comma : Token} {names more : List Text} (h : D ts names)
      (hc : comma.kind = .comma) (hr : Declarators D us more) :
      Declarators D (ts ++ comma :: us) (names ++ more)

/-- Declarators that each start with no `enum` start with none. -/
theorem wordAhead_of_declarators {D : List Token → List Text → Prop} {names : List Text}
    (hD : ∀ {ts names}, D ts names → ∃ t us, ts = t :: us ∧ t.isWord "enum" = false)
    (h : Declarators D ts names) (rest : List Token) : wordAhead "enum" (ts ++ rest) = false := by
  cases h with
  | one h | cons h =>
    obtain ⟨t, us, rfl, ht⟩ := hD h
    exact ht

/-- Declarators that are each read down to what follows them are read down to the semicolon. -/
theorem declaratorNames_of_declarators {D : List Token → List Text → Prop} {last semicolon : Token}
    {names : List Text}
    (hD : ∀ {ts names}, D ts names → ∀ u rest, u.kind = .comma ∨ u.kind = .semicolon →
      ∃ r, patternNames last (ts ++ u :: rest) = .ok (names, r) ∧ afterDeclarator r = u :: rest)
    (h : Declarators D ts names) (hs : semicolon.kind = .semicolon) (after : List Token) :
    declaratorNames last (ts ++ semicolon :: after) = .ok (names, semicolon :: after) := by
  induction h with
  | one h =>
    obtain ⟨r, hr, hafter⟩ := hD h semicolon after (.inr hs)
    rw [declaratorNames_eq, hr, Except.ok_bind]
    simp [hafter, hs]
  | @cons ts us comma names more h hc _ ih =>
    obtain ⟨r, hr, hafter⟩ := hD h comma (us ++ semicolon :: after) (.inl hc)
    rw [List.append_assoc, List.cons_append, declaratorNames_eq, hr, Except.ok_bind]
    simp only [hafter, if_pos hc, ih]
    rfl

/-- The statement that an exported declaration of variables is recorded as. -/
def variableExport (word keyword : Token) (names : List Text) : Statement :=
  ⟨word.start, word.stop,
    .declaration (names.map .same) false (if keyword.isWord "var" then none else some keyword)⟩

/-- A token on the first line of a source. -/
def onFirstLine (kind : TokenKind) (text : Text) (offset : Nat) : Token :=
  ⟨kind, text, ⟨offset, 1, offset + 1⟩⟩

section Scan

variable {last word keyword semicolon : Token} {before? : Option Token} {names : List Text}

/-- An exported declaration of variables is read as the names of its declarators. -/
theorem readStatement_of_declaratorNames (hword : word.kind = .exportWord)
    (hkeyword : isVariableWord keyword) (henum : wordAhead "enum" ts = false)
    (h : declaratorNames last ts = .ok (names, rest)) :
    readStatement last word (keyword :: ts) =
      .ok (some (variableExport word keyword names, rest)) := by
  have hdeclaration : readDeclaration last (keyword :: ts) = .ok (some
      (⟨names, false, if keyword.isWord "var" then none else some keyword⟩, rest)) := by
    have hdrop : dropDeclarationModifiers ([] ++ keyword :: ts) = keyword :: ts :=
      dropDeclarationModifiers_append (by simp) (not_isModifier_of_isVariableWord hkeyword)
    rw [List.nil_append] at hdrop
    unfold isVariableWord at hkeyword
    simp only [readDeclaration, hdrop, hkeyword, if_true, henum, Bool.false_eq_true, if_false, h]
    rfl
  have hk : word.kind ≠ .importWord := by simp [hword]
  rw [readStatement, if_neg hk, if_pos hword,
    readExport_of_declarationWord (exists_of_isVariableWord hkeyword), hdeclaration]
  rfl

/-- The scanner goes on behind a statement that it has read. -/
theorem scanFrom_of_readStatement {s : Statement} (hbefore : before?.any (·.selectsMember) = false)
    (h : readStatement last t ts = .ok (some (s, rest))) :
    scanFrom last before? 0 (t :: ts) =
      (scanFrom last (tokenBefore (t :: ts) rest) 0 rest).map (s :: ·) := by
  rw [scanFrom_cons, hbefore, h]
  rfl

/-- The scanner passes over a semicolon, whatever stands in front of it. -/
theorem scanFrom_semicolon (hs : semicolon.kind = .semicolon) (before? : Option Token)
    (after : List Token) :
    scanFrom last before? 0 (semicolon :: after) = scanFrom last (some semicolon) 0 after := by
  have hread : readStatement last semicolon after = .ok none := by
    simp [readStatement, hs]
  have hdepth : depthAfter 0 semicolon = 0 := by
    simp [depthAfter, hs, TokenKind.isOpener, TokenKind.isCloser]
  rw [scanFrom_cons, hread, hdepth]
  split <;> rfl

/-- Behind declarators that are read down to a semicolon, the scanner goes on with what follows it. -/
theorem scanFrom_of_declarators (hbefore : before?.any (·.selectsMember) = false)
    (hword : word.kind = .exportWord) (hkeyword : isVariableWord keyword)
    (henum : wordAhead "enum" (ts ++ semicolon :: after) = false)
    (hs : semicolon.kind = .semicolon)
    (h : declaratorNames last (ts ++ semicolon :: after) = .ok (names, semicolon :: after)) :
    scanFrom last before? 0 (word :: keyword :: (ts ++ semicolon :: after)) =
      (scanFrom last (some semicolon) 0 after).map (variableExport word keyword names :: ·) := by
  have hread := readStatement_of_declaratorNames hword hkeyword henum h
  rw [scanFrom_of_readStatement hbefore hread, scanFrom_semicolon hs]

end Scan

end ScriptBundle.Statement
