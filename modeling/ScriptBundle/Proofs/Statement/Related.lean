import Mathlib.Data.List.Forall2
import Mathlib.Data.Option.Basic
import ScriptBundle.Statement.Scanner

/-!
# Token streams that the scanner does not tell apart

The scanner looks at the kinds and the texts of the tokens, and compares lines. So when the tokens of
two sources resemble each other in these, it finds statements, or a fault, that do, and each of its
readers goes equally far in both.

* `Resemblance`: a relation between tokens that keeps what the scanner looks at;
* `Statement.Form.Rel`: statements that say the same, but for names;
* `Resemblance.Names`, `Resemblance.Statements`, `Resemblance.Faults`: what is found then;
* `dropExpression_rel`, `walkPattern_rel`, `readElements_rel` and the like: the readers;
* `readStatement_rel`, `scanFrom_rel`: one statement, and all of them.
-/

namespace ScriptBundle

/-- Two bindings of names that `N` relates. -/
structure Binding.Rel (N : Text → Text → Prop) (b b' : Binding) : Prop where
  outer : N b.outer b'.outer
  inner : N b.inner b'.inner
  typeOnly : b'.typeOnly = b.typeOnly

/-- Two forms of statements that say the same with names that `N` relates; the `let` or `const` of a
declaration are related by `T`. -/
inductive Statement.Form.Rel (N : Text → Text → Prop) (T : Token → Token → Prop) :
    Statement.Form → Statement.Form → Prop
  | imports {specifier bs bs' typeOnly} (h : List.Forall₂ (Binding.Rel N) bs bs') :
      Rel N T (.imports specifier bs typeOnly) (.imports specifier bs' typeOnly)
  | reexportAll {specifier typeOnly} :
      Rel N T (.reexportAll specifier typeOnly) (.reexportAll specifier typeOnly)
  | reexports {specifier bs bs' typeOnly} (h : List.Forall₂ (Binding.Rel N) bs bs') :
      Rel N T (.reexports specifier bs typeOnly) (.reexports specifier bs' typeOnly)
  | exportList {bs bs' typeOnly} (h : List.Forall₂ (Binding.Rel N) bs bs') :
      Rel N T (.exportList bs typeOnly) (.exportList bs' typeOnly)
  | declaration {bs bs' typeOnly word word'} (h : List.Forall₂ (Binding.Rel N) bs bs')
      (hword : Option.Rel T word word') :
      Rel N T (.declaration bs typeOnly word) (.declaration bs' typeOnly word')
  | default {name name'} (h : Option.Rel N name name') : Rel N T (.default name) (.default name')

theorem Binding.Rel.imp {N N' : Text → Text → Prop} (hN : ∀ n n', N n n' → N' n n') {b b' : Binding}
    (h : Binding.Rel N b b') : Binding.Rel N' b b' :=
  ⟨hN _ _ h.outer, hN _ _ h.inner, h.typeOnly⟩

theorem Statement.Form.Rel.imp {N N' : Text → Text → Prop} {T T' : Token → Token → Prop}
    (hN : ∀ n n', N n n' → N' n n') (hT : ∀ t t', T t t' → T' t t') {f f' : Statement.Form}
    (h : Rel N T f f') : Rel N' T' f f' := by
  have hbindings : ∀ {bs bs'}, List.Forall₂ (Binding.Rel N) bs bs' →
      List.Forall₂ (Binding.Rel N') bs bs' := fun h => h.imp fun _ _ => .imp hN
  cases h with
  | imports h => exact .imports (hbindings h)
  | reexportAll => exact .reexportAll
  | reexports h => exact .reexports (hbindings h)
  | exportList h => exact .exportList (hbindings h)
  | declaration h hword =>
    refine .declaration (hbindings h) ?_
    cases hword with
    | none => exact .none
    | some hword => exact .some (hT _ _ hword)
  | default h =>
    refine .default ?_
    cases h with
    | none => exact .none
    | some h => exact .some (hN _ _ h)

/-- A relation between the tokens of two sources that have the same kinds, and are equally far apart in
lines. Their texts are the same but for template literals, which nothing takes for another token. -/
structure Resemblance where
  rel : Token → Token → Prop
  lines : Nat
  kind_eq : ∀ {t t'}, rel t t' → t'.kind = t.kind
  line_eq : ∀ {t t'}, rel t t' → t'.line = t.line + lines
  text_cases : ∀ {t t'}, rel t t' → t'.text = t.text ∨
    (t.kind = .template ∧ t.text.head? = some (CodePoint.ofChar '`') ∧
      t'.text.head? = some (CodePoint.ofChar '`'))

namespace Resemblance

variable (R : Resemblance)

/-- Lists of tokens that resemble each other one by one. -/
abbrev Tokens (ts ts' : List Token) : Prop := List.Forall₂ R.rel ts ts'

/-- The same name, or the texts of two tokens. -/
def Names (n n' : Text) : Prop := n' = n ∨ ∃ t t', R.rel t t' ∧ n = t.text ∧ n' = t'.text

/-- The offsets behind two tokens. -/
def Stops (n n' : Nat) : Prop := ∃ t t', R.rel t t' ∧ n = t.stop ∧ n' = t'.stop

/-- Bindings and forms of statements with names and tokens of the two sources. -/
abbrev Bindings : Binding → Binding → Prop := Binding.Rel R.Names

@[inherit_doc Bindings]
abbrev Forms : Statement.Form → Statement.Form → Prop := Statement.Form.Rel R.Names R.rel

/-- Two statements that say the same, each between tokens of its source. -/
structure Statements (s s' : Statement) : Prop where
  start : ∃ t t', R.rel t t' ∧ s.start = t.start ∧ s'.start = t'.start
  stop : R.Stops s.stop s'.stop
  form : R.Forms s.form s'.form

/-- Two causes of a fault, which may show a token. -/
inductive Causes : StatementFault.Cause → StatementFault.Cause → Prop
  | specifierExpected {t t'} (h : R.rel t t') : Causes (.specifierExpected t) (.specifierExpected t')
  | unexpected {t t'} (h : R.rel t t') : Causes (.unexpected t) (.unexpected t')
  | patternExpected {t t'} (h : R.rel t t') : Causes (.patternExpected t) (.patternExpected t')
  | invalidEscape {literal f} : Causes (.invalidEscape literal f) (.invalidEscape literal f)
  | namespaceNameExpected : Causes .namespaceNameExpected .namespaceNameExpected
  | importSourceExpected : Causes .importSourceExpected .importSourceExpected
  | exportSourceExpected : Causes .exportSourceExpected .exportSourceExpected
  | unclosedNames : Causes .unclosedNames .unclosedNames
  | unclosedPattern : Causes .unclosedPattern .unclosedPattern
  | unclosedGroup : Causes .unclosedGroup .unclosedGroup

/-- Two faults for the same cause. -/
structure Faults (f f' : StatementFault) : Prop where
  cause : R.Causes f.cause f'.cause
  place : R.rel f.place f'.place

/-- What two readers return: values that `A` relates, and tokens that are left. -/
def Rests {α β : Type} (A : α → β → Prop) (r : α × List Token) (r' : β × List Token) : Prop :=
  A r.1 r'.1 ∧ R.Tokens r.2 r'.2

variable {R} {t t' : Token} {ts ts' : List Token}

theorem text_eq (h : R.rel t t') (hk : t.kind ≠ .template) : t'.text = t.text :=
  (R.text_cases h).resolve_right fun hcases => hk hcases.1

/-- Only template literals have texts that start like one. -/
theorem text_eq_iff (h : R.rel t t') {w : Text} (hw : w.head? ≠ some (CodePoint.ofChar '`')) :
    t'.text = w ↔ t.text = w := by
  rcases R.text_cases h with heq | ⟨-, hhead, hhead'⟩
  · rw [heq]
  · exact iff_of_false (fun hw' => hw (hw' ▸ hhead')) fun hw' => hw (hw' ▸ hhead)

theorem isWord_eq (h : R.rel t t') (w : Text) : t'.isWord w = t.isWord w := by
  unfold Token.isWord
  rw [R.kind_eq h]
  by_cases hk : t.kind = .identifier
  · rw [text_eq h (by rw [hk]; decide)]
  · simp [hk]

theorem isOperator_eq (h : R.rel t t') (op : Text) : t'.isOperator op = t.isOperator op := by
  unfold Token.isOperator
  rw [R.kind_eq h]
  by_cases hk : t.kind = .operator
  · rw [text_eq h (by rw [hk]; decide)]
  · simp [hk]

theorem selectsMember_eq (h : R.rel t t') : t'.selectsMember = t.selectsMember := by
  unfold Token.selectsMember
  rw [R.kind_eq h]
  exact congrArg (_ || ·) (decide_eq_decide.2 (text_eq_iff h (by decide)))

theorem Tokens.tail (h : R.Tokens ts ts') : R.Tokens ts.tail ts'.tail := by
  cases h with
  | nil => exact .nil
  | cons _ h => exact h

theorem Tokens.headD (h : R.Tokens ts ts') {last last' : Token} (hlast : R.rel last last') :
    R.rel (ts.headD last) (ts'.headD last') := by
  cases h with
  | nil => exact hlast
  | cons h _ => exact h

theorem Names.refl (n : Text) : R.Names n n := .inl rfl

theorem Names.of_token (h : R.rel t t') : R.Names t.text t'.text := .inr ⟨t, t', h, rfl, rfl⟩

theorem Stops.of_token (h : R.rel t t') : R.Stops t.stop t'.stop := ⟨t, t', h, rfl, rfl⟩

theorem Tokens.dropWhile (h : R.Tokens ts ts') {p : Token → Bool}
    (hp : ∀ {t t'}, R.rel t t' → p t' = p t) : R.Tokens (ts.dropWhile p) (ts'.dropWhile p) := by
  induction h with
  | nil => exact .nil
  | @cons t t' ts ts' ht hts ih =>
    rw [List.dropWhile_cons, List.dropWhile_cons, hp ht]
    split
    · exact ih
    · exact .cons ht hts

end Resemblance

namespace Statement

open Resemblance

variable {R : Resemblance} {last last' prev prev' opener opener' word word' : Token}
  {prev? prev?' : Option Token} {ts ts' : List Token}

/-! ### Groups, expressions and patterns -/

theorem dropGroup_rel (h : R.Tokens ts ts') (depth : Nat) :
    Option.Rel (fun r r' => R.rel r.1 r'.1 ∧ R.Tokens r.2 r'.2) (dropGroup depth ts)
      (dropGroup depth ts') := by
  induction h generalizing depth with
  | nil => exact .none
  | cons ht hts ih =>
    simp only [dropGroup, R.kind_eq ht]
    repeat' split
    · exact ih _
    · exact .some ⟨ht, hts⟩
    · exact ih _
    · exact ih _

theorem startsStatement_rel {t t' : Token} (hprev : R.rel prev prev') (ht : R.rel t t') :
    startsStatement prev' t' = startsStatement prev t := by
  unfold startsStatement
  rw [R.kind_eq hprev, R.kind_eq ht]
  by_cases hk : t.kind = .identifier
  · rw [text_eq ht (by rw [hk]; decide)]
  · cases hk' : t.kind <;> first | rfl | exact absurd hk' hk

theorem endsExpression_rel {t t' : Token} (stop : TokenKind → Bool) (hprev : R.rel prev prev')
    (ht : R.rel t t') : endsExpression stop prev' t' = endsExpression stop prev t := by
  simp only [endsExpression, startsStatement_rel hprev ht, R.kind_eq ht, R.line_eq ht, R.line_eq hprev,
    Nat.add_lt_add_iff_right]

theorem nesting_rel {t t' : Token} (inType : Bool) (ht : R.rel t t') :
    nesting inType t' = nesting inType t := by
  simp only [nesting, R.kind_eq ht, text_eq_iff ht (w := "<") (by decide),
    text_eq_iff ht (w := ">") (by decide), text_eq_iff ht (w := ">>") (by decide)]

theorem dropExpression_rel (stop : TokenKind → Bool) (inType : Bool) (hprev : R.rel prev prev')
    (h : R.Tokens ts ts') (depth : Int) :
    R.Tokens (dropExpression stop inType prev depth ts) (dropExpression stop inType prev' depth ts') := by
  induction h generalizing prev prev' depth with
  | nil => exact .nil
  | cons ht hts ih =>
    simp only [dropExpression, endsExpression_rel stop hprev ht, nesting_rel inType ht]
    split
    · exact .cons ht hts
    · exact ih ht _

theorem closing_rel {g g' : Token} (hg : R.rel g g') : closing g' = closing g := by
  rw [closing, closing, R.kind_eq hg]

theorem dropDefault_rel {groups groups' : List Token} (hgroups : R.Tokens groups groups')
    (h : R.Tokens ts ts') : R.Tokens (dropDefault groups ts) (dropDefault groups' ts') := by
  cases hgroups with
  | nil => exact h
  | cons hg _ =>
    cases h with
    | nil => exact .nil
    | cons ht hts =>
      simp only [dropDefault, R.kind_eq ht, closing_rel hg]
      split
      · exact dropExpression_rel _ _ ht hts _
      · exact .cons ht hts

theorem afterKey?_rel {key key' : Token} (hkey : R.rel key key') (h : R.Tokens ts ts') :
    Option.Rel R.Tokens (afterKey? key ts) (afterKey? key' ts') := by
  unfold afterKey?
  rw [R.kind_eq hkey]
  split
  · have hgroup := dropGroup_rel h 1
    generalize dropGroup 1 ts = x, dropGroup 1 ts' = y at hgroup ⊢
    cases hgroup with
    | none => exact .none
    | some h => exact .some h.2
  · exact .some h

theorem cons_rel {t t' : Token} (ht : R.rel t t') {n n' : Statement.Names}
    (h : R.Rests (List.Forall₂ R.Names) n n') :
    R.Rests (List.Forall₂ R.Names) (n.cons t.text) (n'.cons t'.text) :=
  ⟨.cons (.of_token ht) h.1, h.2⟩

theorem walkPattern_rel (hlast : R.rel last last') {place : Place} {groups groups' : List Token}
    (hgroups : R.Tokens groups groups') (h : R.Tokens ts ts') :
    Except.Rel R.Faults (R.Rests (List.Forall₂ R.Names)) (walkPattern last place groups ts)
      (walkPattern last' place groups' ts') := by
  fun_induction walkPattern last place groups ts generalizing groups' ts' with
  | case1 =>
    cases h
    rw [walkPattern]
    exact .error ⟨.patternExpected hlast, hlast⟩
  | case2 groups t ts ht ih =>
    obtain ⟨t', ts', htt, hts, rfl⟩ := List.forall₂_cons_left_iff.1 h
    rw [walkPattern, if_pos ((R.kind_eq htt).trans ht)]
    exact (ih hgroups (dropDefault_rel hgroups hts)).map fun _ _ => cons_rel htt
  | case3 groups t ts ht hb ih =>
    obtain ⟨t', ts', htt, hts, rfl⟩ := List.forall₂_cons_left_iff.1 h
    rw [walkPattern, R.kind_eq htt, if_neg ht, if_pos hb]
    exact ih (.cons htt hgroups) hts
  | case4 groups t ts ht hb =>
    obtain ⟨t', ts', htt, hts, rfl⟩ := List.forall₂_cons_left_iff.1 h
    rw [walkPattern, R.kind_eq htt, if_neg ht, if_neg hb]
    exact .error ⟨.patternExpected htt, htt⟩
  | case5 ts =>
    cases hgroups
    rw [walkPattern]
    exact .ok ⟨.nil, h⟩
  | case6 g gs =>
    cases h
    obtain ⟨g', gs', hg, -, rfl⟩ := List.forall₂_cons_left_iff.1 hgroups
    rw [walkPattern]
    exact .error ⟨.unclosedPattern, hg⟩
  | case7 g gs t ts ht ih =>
    obtain ⟨t', ts', htt, hts, rfl⟩ := List.forall₂_cons_left_iff.1 h
    obtain ⟨g', gs', hg, hgs, rfl⟩ := List.forall₂_cons_left_iff.1 hgroups
    rw [walkPattern_element, R.kind_eq htt, closing_rel hg, if_pos ht]
    exact ih hgs (dropDefault_rel hgs hts)
  | case8 g gs t ts ht hc ih =>
    obtain ⟨t', ts', htt, hts, rfl⟩ := List.forall₂_cons_left_iff.1 h
    obtain ⟨g', gs', hg, hgs, rfl⟩ := List.forall₂_cons_left_iff.1 hgroups
    rw [walkPattern_element, R.kind_eq htt, closing_rel hg, if_neg ht, if_pos hc]
    exact ih hgroups hts
  | case9 g gs t ts ht hc ho ih =>
    obtain ⟨t', ts', htt, hts, rfl⟩ := List.forall₂_cons_left_iff.1 h
    obtain ⟨g', gs', hg, hgs, rfl⟩ := List.forall₂_cons_left_iff.1 hgroups
    rw [walkPattern_element, R.kind_eq htt, closing_rel hg, isOperator_eq htt, if_neg ht, if_neg hc,
      if_pos ho]
    exact ih hgroups hts
  | case10 g gs t ts ht hc ho hb hk =>
    obtain ⟨t', ts', htt, hts, rfl⟩ := List.forall₂_cons_left_iff.1 h
    obtain ⟨g', gs', hg, hgs, rfl⟩ := List.forall₂_cons_left_iff.1 hgroups
    have hkey := afterKey?_rel htt hts
    rw [hk] at hkey
    rw [walkPattern_element, R.kind_eq htt, closing_rel hg, isOperator_eq htt, R.kind_eq hg, if_neg ht,
      if_neg hc, if_neg ho, if_pos hb]
    generalize afterKey? t' ts' = x at hkey ⊢
    cases hkey
    exact .error ⟨.unclosedGroup, hlast⟩
  | case11 g gs t ts ht hc ho hb hk ih =>
    obtain ⟨t', ts', htt, hts, rfl⟩ := List.forall₂_cons_left_iff.1 h
    obtain ⟨g', gs', hg, hgs, rfl⟩ := List.forall₂_cons_left_iff.1 hgroups
    have hkey := afterKey?_rel htt hts
    rw [hk] at hkey
    rw [walkPattern_element, R.kind_eq htt, closing_rel hg, isOperator_eq htt, R.kind_eq hg, if_neg ht,
      if_neg hc, if_neg ho, if_pos hb]
    generalize afterKey? t' ts' = x at hkey ⊢
    cases hkey with
    | some hkey =>
      cases hkey
      exact (ih hgroups .nil).map fun _ _ => cons_rel htt
  | case12 g gs t ts ht hc ho hb u us hk hu ih =>
    obtain ⟨t', ts', htt, hts, rfl⟩ := List.forall₂_cons_left_iff.1 h
    obtain ⟨g', gs', hg, hgs, rfl⟩ := List.forall₂_cons_left_iff.1 hgroups
    have hkey := afterKey?_rel htt hts
    rw [hk] at hkey
    rw [walkPattern_element, R.kind_eq htt, closing_rel hg, isOperator_eq htt, R.kind_eq hg, if_neg ht,
      if_neg hc, if_neg ho, if_pos hb]
    generalize afterKey? t' ts' = x at hkey ⊢
    cases hkey with
    | some hkey =>
      obtain ⟨u', us', huu, hus, rfl⟩ := List.forall₂_cons_left_iff.1 hkey
      simp only [R.kind_eq huu, hu, if_true]
      exact ih hgroups hus
  | case13 g gs t ts ht hc ho hb u us hk hu ih =>
    obtain ⟨t', ts', htt, hts, rfl⟩ := List.forall₂_cons_left_iff.1 h
    obtain ⟨g', gs', hg, hgs, rfl⟩ := List.forall₂_cons_left_iff.1 hgroups
    have hkey := afterKey?_rel htt hts
    rw [hk] at hkey
    rw [walkPattern_element, R.kind_eq htt, closing_rel hg, isOperator_eq htt, R.kind_eq hg, if_neg ht,
      if_neg hc, if_neg ho, if_pos hb]
    generalize afterKey? t' ts' = x at hkey ⊢
    cases hkey with
    | some hkey =>
      obtain ⟨u', us', huu, hus, rfl⟩ := List.forall₂_cons_left_iff.1 hkey
      simp only [R.kind_eq huu, hu, if_false]
      exact (ih hgroups (dropDefault_rel hgroups hkey)).map fun _ _ => cons_rel htt
  | case14 g gs t ts ht hc ho hb ih =>
    obtain ⟨t', ts', htt, hts, rfl⟩ := List.forall₂_cons_left_iff.1 h
    obtain ⟨g', gs', hg, hgs, rfl⟩ := List.forall₂_cons_left_iff.1 hgroups
    rw [walkPattern_element, R.kind_eq htt, closing_rel hg, isOperator_eq htt, R.kind_eq hg, if_neg ht,
      if_neg hc, if_neg ho, if_neg hb]
    exact ih hgroups h

theorem dropDefinite_rel (h : R.Tokens ts ts') : R.Tokens (dropDefinite ts) (dropDefinite ts') := by
  cases h with
  | nil => exact .nil
  | cons ht hts =>
    simp only [dropDefinite, isOperator_eq ht]
    split
    · exact hts
    · exact .cons ht hts

theorem dropTypePart_rel (h : R.Tokens ts ts') : R.Tokens (dropTypePart ts) (dropTypePart ts') := by
  cases h with
  | nil => exact .nil
  | cons ht hts =>
    simp only [dropTypePart, R.kind_eq ht]
    split
    · exact dropExpression_rel _ _ ht hts _
    · exact .cons ht hts

theorem dropInitializer_rel (h : R.Tokens ts ts') :
    R.Tokens (dropInitializer ts) (dropInitializer ts') := by
  cases h with
  | nil => exact .nil
  | cons ht hts =>
    simp only [dropInitializer, R.kind_eq ht]
    split
    · exact dropExpression_rel _ _ ht hts _
    · exact .cons ht hts

theorem afterDeclarator_rel (h : R.Tokens ts ts') :
    R.Tokens (afterDeclarator ts) (afterDeclarator ts') :=
  dropInitializer_rel (dropTypePart_rel (dropDefinite_rel h))

theorem patternNames_rel (hlast : R.rel last last') (h : R.Tokens ts ts') :
    Except.Rel R.Faults (R.Rests (List.Forall₂ R.Names)) (patternNames last ts)
      (patternNames last' ts') :=
  walkPattern_rel hlast .nil h

theorem declaratorNames_rel (hlast : R.rel last last') (h : R.Tokens ts ts') :
    Except.Rel R.Faults (R.Rests (List.Forall₂ R.Names)) (declaratorNames last ts)
      (declaratorNames last' ts') := by
  induction hn : ts.length using Nat.strongRecOn generalizing ts ts' with
  | _ n ih =>
    subst hn
    rw [declaratorNames_eq, declaratorNames_eq]
    refine (patternNames_rel hlast h).bind_of_eq fun r r' hr hnames => ?_
    have hafter := afterDeclarator_rel hnames.2
    have hlt : (afterDeclarator r.2).length < ts.length :=
      Nat.lt_of_le_of_lt (afterDeclarator_suffix r.2).length_le (length_lt_of_patternNames hr)
    generalize afterDeclarator r.2 = rest, afterDeclarator r'.2 = rest' at hafter hlt ⊢
    cases hafter with
    | nil => exact .ok ⟨hnames.1, .nil⟩
    | cons ht hus =>
      simp only [R.kind_eq ht]
      split
      · refine (ih _ (Nat.lt_of_succ_lt hlt) hus rfl).map fun m m' hm => ?_
        exact ⟨List.rel_append hnames.1 hm.1, hm.2⟩
      · exact .ok ⟨hnames.1, .cons ht hus⟩

/-! ### Clauses -/

theorem wordAhead_rel (w : Text) (h : R.Tokens ts ts') : wordAhead w ts' = wordAhead w ts := by
  cases h with
  | nil => rfl
  | cons ht _ => exact isWord_eq ht w

theorem kindAhead_rel (k : TokenKind) (h : R.Tokens ts ts') : kindAhead k ts' = kindAhead k ts := by
  cases h with
  | nil => rfl
  | cons ht _ => exact congrArg (fun kind => decide (kind = k)) (R.kind_eq ht)

theorem stringValue_rel {t t' : Token} (ht : R.rel t t') (hk : t.kind ≠ .template) :
    Except.Rel R.Faults (· = ·) (stringValue t) (stringValue t') := by
  unfold stringValue
  rw [text_eq ht hk]
  split
  · exact .ok rfl
  · exact .error ⟨.invalidEscape, ht⟩

theorem bindingName_rel {t t' : Token} (ht : R.rel t t') :
    Except.Rel R.Faults (· = ·) (bindingName t) (bindingName t') := by
  unfold bindingName
  rw [R.kind_eq ht]
  split
  · next hk => exact stringValue_rel ht (by rw [hk]; decide)
  · next hk => exact .ok (text_eq ht (by rw [hk]; decide)).symm
  · next hk => exact .ok (text_eq ht (by rw [hk]; decide)).symm
  · next hk => exact .ok (text_eq ht (by rw [hk]; decide)).symm
  · exact .error ⟨.unexpected ht, ht⟩

theorem readName_rel (hlast : R.rel last last') (h : R.Tokens ts ts') :
    Except.Rel R.Faults (R.Rests (· = ·)) (readName last ts) (readName last' ts') := by
  cases h with
  | nil => exact .error ⟨.unexpected hlast, hlast⟩
  | cons ht hts => exact (bindingName_rel ht).map fun _ _ hname => ⟨hname, hts⟩

theorem marksTypeName_rel (h : R.Tokens ts ts') : marksTypeName ts' = marksTypeName ts := by
  cases h with
  | nil => rfl
  | cons ht hts =>
    cases hts with
    | nil => rfl
    | cons hu _ => simp only [marksTypeName, isWord_eq ht, isWord_eq hu, R.kind_eq hu]

theorem readElement_rel (hlast : R.rel last last') (h : R.Tokens ts ts') :
    Except.Rel R.Faults (R.Rests (· = ·)) (readElement last ts) (readElement last' ts') := by
  have hfront : R.Tokens (if marksTypeName ts then ts.tail else ts)
      (if marksTypeName ts then ts'.tail else ts') := by
    split
    · exact h.tail
    · exact h
  unfold readElement
  simp only [marksTypeName_rel h]
  refine (readName_rel hlast hfront).bind ?_
  rintro ⟨name, rest⟩ ⟨name', rest'⟩ ⟨rfl, hrest⟩
  simp only [wordAhead_rel "as" hrest]
  split
  · refine (readName_rel hlast hrest.tail).bind ?_
    rintro ⟨inner, rest⟩ ⟨inner', rest'⟩ ⟨rfl, hrest⟩
    exact .ok ⟨rfl, hrest⟩
  · exact .ok ⟨rfl, hrest⟩

theorem readElements_rel (hlast : R.rel last last') (hopener : R.rel opener opener')
    (h : R.Tokens ts ts') :
    Except.Rel R.Faults (R.Rests fun r r' => r'.1 = r.1 ∧ R.rel r.2 r'.2)
      (readElements last opener ts) (readElements last' opener' ts') := by
  induction hn : ts.length using Nat.strongRecOn generalizing ts ts' with
  | _ n ih =>
    subst hn
    have helement := readElement_rel hlast h
    cases h with
    | nil =>
      rw [readElements, readElements]
      exact .error ⟨.unclosedNames, hopener⟩
    | @cons t t' us us' ht hus =>
      rw [readElements_cons, readElements_cons, R.kind_eq ht]
      split
      · exact .ok ⟨⟨rfl, ht⟩, hus⟩
      · refine helement.bind_of_eq ?_
        rintro ⟨b, rest⟩ ⟨b', rest'⟩ hb ⟨heq, hrest⟩
        obtain rfl : b = b' := heq
        have hle := (readElement_suffix hb).length_le
        cases hrest with
        | nil => exact .error ⟨.unexpected hlast, hlast⟩
        | cons hv hvs =>
          simp only [R.kind_eq hv]
          split
          · refine (ih _ ?_ hvs rfl).map fun r r' hr => ⟨⟨congrArg (b :: ·) hr.1.1, hr.1.2⟩, hr.2⟩
            simp only [List.length_cons, List.tail_cons] at hle ⊢
            omega
          · split
            · exact .ok ⟨⟨rfl, hv⟩, hvs⟩
            · exact .error ⟨.unexpected hv, hv⟩

theorem readSemicolon_rel {stop stop' : Nat} (hstop : R.Stops stop stop') (h : R.Tokens ts ts') :
    R.Rests R.Stops (readSemicolon stop ts) (readSemicolon stop' ts') := by
  cases h with
  | nil => exact ⟨hstop, .nil⟩
  | cons ht hts =>
    simp only [readSemicolon, R.kind_eq ht]
    split
    · exact ⟨.of_token ht, hts⟩
    · exact ⟨hstop, .cons ht hts⟩

theorem attributesAhead_rel {specifier specifier' : Token} (hspecifier : R.rel specifier specifier')
    (h : R.Tokens ts ts') : attributesAhead specifier' ts' = attributesAhead specifier ts := by
  cases h with
  | nil => rfl
  | cons ht hts =>
    cases hts with
    | nil => rfl
    | cons hu _ =>
      simp only [attributesAhead, isWord_eq ht, R.kind_eq hu, R.line_eq ht, R.line_eq hspecifier,
        Nat.add_right_cancel_iff]

theorem readSpecifier_rel (hlast : R.rel last last') (h : R.Tokens ts ts') :
    Except.Rel R.Faults (R.Rests fun r r' => r'.1 = r.1 ∧ R.Stops r.2 r'.2) (readSpecifier last ts)
      (readSpecifier last' ts') := by
  cases h with
  | nil => exact .error ⟨.specifierExpected hlast, hlast⟩
  | @cons t t' ts ts' ht hts =>
    unfold readSpecifier
    simp only [R.kind_eq ht, attributesAhead_rel ht hts]
    split
    · next hk =>
      have hvalue := stringValue_rel ht (by rw [hk]; decide)
      generalize stringValue t = x, stringValue t' = y at hvalue ⊢
      cases hvalue with
      | error he => exact .error he
      | ok heq =>
        subst heq
        simp only
        split
        · have hgroup := dropGroup_rel (Tokens.tail hts) 0
          generalize dropGroup 0 ts.tail = x, dropGroup 0 ts'.tail = y at hgroup ⊢
          cases hgroup with
          | none => exact .error ⟨.unclosedGroup, hlast⟩
          | some hclose =>
            have hend := readSemicolon_rel (.of_token hclose.1) hclose.2
            exact .ok ⟨⟨rfl, hend.1⟩, hend.2⟩
        · have hend := readSemicolon_rel (.of_token ht) hts
          exact .ok ⟨⟨rfl, hend.1⟩, hend.2⟩
    · exact .error ⟨.specifierExpected ht, ht⟩

theorem readFrom_rel {cause : StatementFault.Cause} (hcause : R.Causes cause cause)
    (hlast : R.rel last last') (h : R.Tokens ts ts') :
    Except.Rel R.Faults R.Tokens (readFrom cause last ts) (readFrom cause last' ts') := by
  cases h with
  | nil => exact .error ⟨hcause, hlast⟩
  | cons ht hts =>
    simp only [readFrom, isWord_eq ht]
    split
    · exact .ok hts
    · exact .error ⟨hcause, ht⟩

/-! ### Exports -/

theorem marksTypeExport_rel (h : R.Tokens ts ts') : marksTypeExport ts' = marksTypeExport ts := by
  cases h with
  | nil => rfl
  | cons ht hts =>
    cases hts with
    | nil => rfl
    | cons hu _ => simp only [marksTypeExport, isWord_eq ht, R.kind_eq hu]

theorem dropStar_rel (h : R.Tokens ts ts') : R.Tokens (dropStar ts) (dropStar ts') := by
  rw [dropStar, dropStar, kindAhead_rel _ h]
  split
  · exact h.tail
  · exact h

theorem declaredName_rel (h : R.Tokens ts ts') : declaredName ts' = declaredName ts := by
  have hdrop : R.Tokens (dropModifiers ts) (dropModifiers ts') :=
    h.dropWhile fun ht => by rw [isWord_eq ht, isWord_eq ht]
  unfold declaredName
  generalize dropModifiers ts = us, dropModifiers ts' = us' at hdrop ⊢
  cases hdrop with
  | nil => rfl
  | @cons t t' us us' ht hus =>
    have hname := dropStar_rel hus
    simp only [isWord_eq ht]
    generalize dropStar us = vs, dropStar us' = vs' at hname ⊢
    split
    · cases hname with
      | nil => rfl
      | @cons v v' _ _ hv _ =>
        simp only [R.kind_eq hv]
        by_cases hk : v.kind = .identifier
        · rw [text_eq hv (by rw [hk]; decide)]
        · simp [hk]
    · rfl

/-- What a reader of statements returns: no statement, or two of one form and tokens that are left. -/
abbrev ParsedRel (R : Resemblance) : Parsed → Parsed → Prop := Option.Rel (R.Rests R.Statements)

theorem readExportAll_rel (hlast : R.rel last last') (hword : R.rel word word') (typeOnly : Bool)
    (h : R.Tokens ts ts') :
    Except.Rel R.Faults (ParsedRel R) (readExportAll last word typeOnly ts)
      (readExportAll last' word' typeOnly ts') := by
  unfold readExportAll
  rw [wordAhead_rel _ h]
  split
  · refine (readName_rel hlast h.tail).bind ?_
    rintro ⟨name, rest⟩ ⟨name', rest'⟩ ⟨rfl, hrest⟩
    refine (readFrom_rel .exportSourceExpected hlast hrest).bind fun rest rest' hrest => ?_
    refine (readSpecifier_rel hlast hrest).bind ?_
    rintro ⟨⟨specifier, stop⟩, rest⟩ ⟨⟨specifier', stop'⟩, rest'⟩ ⟨⟨rfl, hstop⟩, hrest⟩
    refine .ok (.some ⟨⟨⟨_, _, hword, rfl, rfl⟩, hstop, .reexports ?_⟩, hrest⟩)
    exact .cons ⟨.refl _, .refl _, rfl⟩ .nil
  · refine (readFrom_rel .exportSourceExpected hlast h).bind fun rest rest' hrest => ?_
    refine (readSpecifier_rel hlast hrest).bind ?_
    rintro ⟨⟨specifier, stop⟩, rest⟩ ⟨⟨specifier', stop'⟩, rest'⟩ ⟨⟨rfl, hstop⟩, hrest⟩
    exact .ok (.some ⟨⟨⟨_, _, hword, rfl, rfl⟩, hstop, .reexportAll⟩, hrest⟩)

theorem bindings_refl (bs : List Binding) : List.Forall₂ R.Bindings bs bs :=
  List.forall₂_same.2 fun _ _ => ⟨.refl _, .refl _, rfl⟩

theorem readExportNames_rel (hlast : R.rel last last') (hword : R.rel word word')
    (hopener : R.rel opener opener') (typeOnly : Bool) (h : R.Tokens ts ts') :
    Except.Rel R.Faults (ParsedRel R) (readExportNames last word opener typeOnly ts)
      (readExportNames last' word' opener' typeOnly ts') := by
  unfold readExportNames
  refine (readElements_rel hlast hopener h).bind ?_
  rintro ⟨⟨names, close⟩, rest⟩ ⟨⟨names', close'⟩, rest'⟩ ⟨⟨rfl, hclose⟩, hrest⟩
  simp only [wordAhead_rel _ hrest]
  split
  · refine (readSpecifier_rel hlast hrest.tail).bind ?_
    rintro ⟨⟨specifier, stop⟩, rest⟩ ⟨⟨specifier', stop'⟩, rest'⟩ ⟨⟨rfl, hstop⟩, hrest⟩
    exact .ok (.some ⟨⟨⟨_, _, hword, rfl, rfl⟩, hstop, .reexports (bindings_refl _)⟩, hrest⟩)
  · have hend := readSemicolon_rel (.of_token hclose) hrest
    exact .ok (.some ⟨⟨⟨_, _, hword, rfl, rfl⟩, hend.1, .exportList (bindings_refl _)⟩, hend.2⟩)

/-- Two exported declarations. -/
structure DeclaredRel (R : Resemblance) (r r' : Declared) : Prop where
  names : List.Forall₂ R.Names r.names r'.names
  typeOnly : r'.typeOnly = r.typeOnly
  blockScoped : Option.Rel R.rel r.blockScoped r'.blockScoped

theorem readDeclared_rel (hlast : R.rel last last') (h : R.Tokens ts ts') :
    R.Rests (List.Forall₂ R.Names) (readDeclared last ts) (readDeclared last' ts') :=
  ⟨.cons (.of_token (h.headD hlast)) .nil, h.tail⟩

theorem readDeclaration_rel (hlast : R.rel last last') (h : R.Tokens ts ts') :
    Except.Rel R.Faults (Option.Rel (R.Rests (DeclaredRel R))) (readDeclaration last ts)
      (readDeclaration last' ts') := by
  have hdrop : R.Tokens (dropDeclarationModifiers ts) (dropDeclarationModifiers ts') :=
    h.dropWhile fun ht => by rw [isWord_eq ht, isWord_eq ht, isWord_eq ht]
  unfold readDeclaration
  generalize dropDeclarationModifiers ts = us, dropDeclarationModifiers ts' = us' at hdrop ⊢
  cases hdrop with
  | nil => exact .ok .none
  | @cons t t' us us' ht hus =>
    simp only [isWord_eq ht, wordAhead_rel _ hus]
    split
    · split
      · have hname := readDeclared_rel hlast (Tokens.tail hus)
        exact .ok (.some ⟨⟨hname.1, rfl, .none⟩, hname.2⟩)
      · refine (declaratorNames_rel hlast hus).map fun r r' hr => .some ⟨⟨hr.1, rfl, ?_⟩, hr.2⟩
        split
        · exact .none
        · exact .some ht
    · split
      · have hname := readDeclared_rel hlast (dropStar_rel hus)
        exact .ok (.some ⟨⟨hname.1, rfl, .none⟩, hname.2⟩)
      · split
        · exact .ok (.some ⟨⟨.nil, rfl, .none⟩, .cons ht hus⟩)
        · exact .ok .none

theorem readExport_rel (hlast : R.rel last last') (hword : R.rel word word') (h : R.Tokens ts ts') :
    Except.Rel R.Faults (ParsedRel R) (readExport last word ts) (readExport last' word' ts') := by
  have hfront : R.Tokens (if marksTypeExport ts then ts.tail else ts)
      (if marksTypeExport ts then ts'.tail else ts') := by
    split
    · exact h.tail
    · exact h
  unfold readExport
  simp only [marksTypeExport_rel h]
  generalize (if marksTypeExport ts then ts.tail else ts) = us,
    (if marksTypeExport ts then ts'.tail else ts') = us' at hfront ⊢
  cases hfront with
  | nil => exact .ok .none
  | @cons t t' us us' ht hus =>
    simp only [R.kind_eq ht, isWord_eq ht]
    split
    · exact readExportAll_rel hlast hword _ hus
    · split
      · exact readExportNames_rel hlast hword ht _ hus
      · split
        · have hname : Option.Rel R.Names (declaredName us) (declaredName us') := by
            rw [declaredName_rel hus]
            cases declaredName us with
            | none => exact .none
            | some n => exact .some (.refl n)
          exact .ok (.some ⟨⟨⟨_, _, hword, rfl, rfl⟩, .of_token ht, .default hname⟩, hus⟩)
        · split
          · exact .ok .none
          · refine (readDeclaration_rel hlast (.cons ht hus)).map fun r r' hr => ?_
            cases hr with
            | none => exact .none
            | @some r r' hr =>
              obtain ⟨⟨names, typeOnly, blockScoped⟩, rest⟩ := r
              obtain ⟨⟨names', typeOnly', blockScoped'⟩, rest'⟩ := r'
              obtain ⟨⟨hnames, rfl, hscoped⟩, hrest⟩ := hr
              refine .some ⟨⟨⟨_, _, hword, rfl, rfl⟩, .of_token hword, .declaration ?_ hscoped⟩, hrest⟩
              exact List.forall₂_map_left_iff.2 (List.forall₂_map_right_iff.2
                (hnames.imp fun _ _ hname => ⟨hname, hname, rfl⟩))

/-! ### Imports -/

theorem isOtherImport_rel (h : R.Tokens ts ts') : isOtherImport ts' = isOtherImport ts := by
  cases h with
  | nil => rfl
  | cons ht hts =>
    simp only [isOtherImport, R.kind_eq ht, isWord_eq ht, kindAhead_rel _ hts,
      kindAhead_rel _ (Tokens.tail hts)]

theorem marksTypeImport_rel (h : R.Tokens ts ts') : marksTypeImport ts' = marksTypeImport ts := by
  cases h with
  | nil => rfl
  | cons ht hts =>
    cases hts with
    | nil => rfl
    | @cons u u' _ _ hu _ =>
      simp only [marksTypeImport, isWord_eq ht, R.kind_eq hu]
      by_cases hk : u.kind = .identifier
      · rw [text_eq hu (by rw [hk]; decide)]
      · simp [hk]

theorem readDefaultBinding_rel (h : R.Tokens ts ts') :
    R.Rests (List.Forall₂ R.Bindings) (readDefaultBinding ts) (readDefaultBinding ts') := by
  cases h with
  | nil => exact ⟨.nil, .nil⟩
  | cons ht hts =>
    simp only [readDefaultBinding, R.kind_eq ht, kindAhead_rel _ hts]
    split
    · refine ⟨.cons ⟨.refl _, .of_token ht, rfl⟩ .nil, ?_⟩
      show R.Tokens (if _ then _ else _) (if _ then _ else _)
      split
      · exact Tokens.tail hts
      · exact hts
    · exact ⟨.nil, .cons ht hts⟩

theorem readClause_rel (hlast : R.rel last last') (h : R.Tokens ts ts') :
    Except.Rel R.Faults (R.Rests (List.Forall₂ R.Bindings)) (readClause last ts)
      (readClause last' ts') := by
  cases h with
  | nil => exact .ok ⟨.nil, .nil⟩
  | cons ht hus =>
    simp only [readClause, R.kind_eq ht]
    split
    · cases hus with
      | nil => exact .error ⟨.namespaceNameExpected, hlast⟩
      | cons has hvs =>
        simp only [isWord_eq has]
        split
        · exact .ok ⟨.cons ⟨.refl _, .of_token (Tokens.headD hvs hlast), rfl⟩ .nil, Tokens.tail hvs⟩
        · exact .error ⟨.namespaceNameExpected, has⟩
    · split
      · refine (readElements_rel hlast ht hus).map fun r r' hr => ⟨?_, hr.2⟩
        rw [hr.1.1]
        exact bindings_refl _
      · exact .ok ⟨.nil, .cons ht hus⟩

theorem readImport_rel (hlast : R.rel last last') (hword : R.rel word word') (h : R.Tokens ts ts') :
    Except.Rel R.Faults (ParsedRel R) (readImport last word ts) (readImport last' word' ts') := by
  have hfront : R.Tokens (if marksTypeImport ts then ts.tail else ts)
      (if marksTypeImport ts then ts'.tail else ts') := by
    split
    · exact h.tail
    · exact h
  unfold readImport
  simp only [isOtherImport_rel h, kindAhead_rel _ h, marksTypeImport_rel h]
  split
  · exact .ok .none
  · split
    · refine (readSpecifier_rel hlast h).bind ?_
      rintro ⟨⟨specifier, stop⟩, rest⟩ ⟨⟨specifier', stop'⟩, rest'⟩ ⟨⟨rfl, hstop⟩, hrest⟩
      exact .ok (.some ⟨⟨⟨_, _, hword, rfl, rfl⟩, hstop, .imports .nil⟩, hrest⟩)
    · have hdefault := readDefaultBinding_rel hfront
      refine (readClause_rel hlast hdefault.2).bind ?_
      rintro ⟨bindings, rest⟩ ⟨bindings', rest'⟩ ⟨hbindings, hrest⟩
      refine (readFrom_rel .importSourceExpected hlast hrest).bind fun rest rest' hrest => ?_
      refine (readSpecifier_rel hlast hrest).bind ?_
      rintro ⟨⟨specifier, stop⟩, rest⟩ ⟨⟨specifier', stop'⟩, rest'⟩ ⟨⟨rfl, hstop⟩, hrest⟩
      refine .ok (.some ⟨⟨⟨_, _, hword, rfl, rfl⟩, hstop, .imports ?_⟩, hrest⟩)
      exact List.rel_append hdefault.1 hbindings

/-! ### The scanner -/

theorem readStatement_rel (hlast : R.rel last last') (hword : R.rel word word')
    (h : R.Tokens ts ts') :
    Except.Rel R.Faults (ParsedRel R) (readStatement last word ts) (readStatement last' word' ts') := by
  unfold readStatement
  rw [R.kind_eq hword]
  split
  · exact readImport_rel hlast hword h
  · split
    · exact readExport_rel hlast hword h
    · exact .ok .none

theorem tokenBefore_rel (h : R.Tokens ts ts') {rest rest' : List Token} (hrest : R.Tokens rest rest') :
    Option.Rel R.rel (tokenBefore ts rest) (tokenBefore ts' rest') := by
  unfold tokenBefore
  rw [← h.length_eq, ← hrest.length_eq, List.getLast?_eq_head?_reverse, List.getLast?_eq_head?_reverse]
  have hreverse := List.rel_reverse (List.forall₂_take (ts.length - rest.length) h)
  generalize (ts.take _).reverse = us, (ts'.take _).reverse = us' at hreverse ⊢
  cases hreverse with
  | nil => exact .none
  | cons ht _ => exact .some ht

theorem any_selectsMember_rel (h : Option.Rel R.rel prev? prev?') :
    prev?'.any (·.selectsMember) = prev?.any (·.selectsMember) := by
  cases h with
  | none => rfl
  | some h => exact selectsMember_eq h

/-- The scanner finds statements that resemble each other, behind any tokens that select a member if one
of them does. -/
theorem scanFrom_rel (hlast : R.rel last last')
    (hprev : prev?'.any (·.selectsMember) = prev?.any (·.selectsMember)) (depth : Nat)
    (h : R.Tokens ts ts') :
    Except.Rel R.Faults (List.Forall₂ R.Statements) (scanFrom last prev? depth ts)
      (scanFrom last' prev?' depth ts') := by
  induction hn : ts.length using Nat.strongRecOn generalizing ts ts' prev? prev?' depth with
  | _ n ih =>
    subst hn
    cases h with
    | nil =>
      rw [scanFrom, scanFrom]
      exact .ok .nil
    | @cons t t' us us' ht hus =>
      have hskip : Except.Rel R.Faults (List.Forall₂ R.Statements)
          (scanFrom last (some t) (depthAfter depth t) us)
          (scanFrom last' (some t') (depthAfter depth t') us') := by
        rw [show depthAfter depth t' = depthAfter depth t by rw [depthAfter, depthAfter, R.kind_eq ht]]
        exact ih _ (Nat.lt_succ_self _) (any_selectsMember_rel (.some ht)) _ hus rfl
      rw [scanFrom_cons, scanFrom_cons, hprev]
      split
      · refine (readStatement_rel hlast ht hus).bind_of_eq fun r r' hr hparsed => ?_
        cases hparsed with
        | none => exact hskip
        | @some r r' hparsed =>
          refine (ih _ ?_ ?_ 0 hparsed.2 rfl).map fun _ _ hss => .cons hparsed.1 hss
          · exact Nat.lt_succ_of_le (readStatement_suffix hr).length_le
          · exact any_selectsMember_rel (tokenBefore_rel (.cons ht hus) hparsed.2)
      · exact hskip

end Statement

end ScriptBundle
