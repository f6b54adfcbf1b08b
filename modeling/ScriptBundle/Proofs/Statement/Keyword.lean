import Mathlib.Algebra.Ring.Int.Defs
import Mathlib.Data.List.TakeWhile
import ScriptBundle.Proofs.Statement.Extent
import ScriptBundle.Statement.Scanner

/-!
# The keywords that a statement takes with it

A module statement takes more tokens with it than its keyword, and there may be an `import` or an
`export` among them. It says here where: in the place of a name, or in the annotation or the
initializer of a declarator that does not end before it.

* `Unended`: an expression goes on through a list of tokens;
* `DeclaratorAt`, `InDeclarator`: the declarators of an exported variable declaration, and the tokens
  that belong to one;
* `NameAhead`: what stands between the keyword of a statement and a name that may be a keyword;
* `Takes`: all the places where a statement takes a keyword with it;
* `takes_of_readStatement`: outside brackets there are no others.
-/

namespace ScriptBundle

/-- The two keywords of module syntax. -/
def Token.isKeyword (t : Token) : Bool := t.kind = .importWord || t.kind = .exportWord

namespace Statement

/-! ### Expressions -/

/-- By how much the tokens `run` change the bracket depth of an expression. -/
def nestingOf (inType : Bool) (run : List Token) : Int := (run.map (nesting inType)).sum

/-- An expression behind the token `prev` goes on through the tokens `run`: none of them ends it
outside the brackets that it opened. -/
def Unended (stop : TokenKind → Bool) (inType : Bool) (prev : Token) (run : List Token) : Prop :=
  ∀ before t after, run = before ++ t :: after → nestingOf inType before = 0 →
    endsExpression stop (before.getLastD prev) t = false

/-- The same with `depth` brackets open in front of the tokens. -/
def UnendedFrom (stop : TokenKind → Bool) (inType : Bool) (prev : Token) (depth : Int)
    (run : List Token) : Prop :=
  ∀ before t after, run = before ++ t :: after → depth + nestingOf inType before = 0 →
    endsExpression stop (before.getLastD prev) t = false

section Expression

variable {stop : TokenKind → Bool} {inType : Bool} {prev t : Token} {depth : Int}
  {run before after ts : List Token}

theorem unended_iff : Unended stop inType prev run ↔ UnendedFrom stop inType prev 0 run := by
  simp [Unended, UnendedFrom]

theorem unendedFrom_cons_iff :
    UnendedFrom stop inType prev depth (t :: run) ↔
      (depth = 0 → endsExpression stop prev t = false) ∧
        UnendedFrom stop inType t (depth + nesting inType t) run := by
  have hlast : ∀ before : List Token, (t :: before).getLastD prev = before.getLastD t := by
    intro before
    cases before <;> rfl
  constructor
  · intro h
    refine ⟨fun hd => h [] t run rfl (by simp [nestingOf, hd]), fun before u after heq hd => ?_⟩
    have := h (t :: before) u after (by rw [heq, List.cons_append])
      (by simp only [nestingOf, List.map_cons, List.sum_cons] at hd ⊢; omega)
    rwa [hlast] at this
  · rintro ⟨hhead, htail⟩ before u after heq hd
    cases before with
    | nil =>
      obtain ⟨rfl, rfl⟩ := List.cons.inj heq
      exact hhead (by simpa [nestingOf] using hd)
    | cons v before =>
      obtain ⟨rfl, rfl⟩ := List.cons.inj heq
      rw [hlast]
      exact htail before u after rfl
        (by simp only [nestingOf, List.map_cons, List.sum_cons] at hd ⊢; omega)

/-- A token is dropped with an expression exactly when the expression goes on through it. -/
theorem dropExpression_suffix_iff :
    dropExpression stop inType prev depth (before ++ t :: after) <:+ after ↔
      UnendedFrom stop inType prev depth (before ++ [t]) := by
  have hsuffix : ∀ {u : Token} {us : List Token}, ¬ u :: (us ++ t :: after) <:+ after := by
    intro u us h
    have := h.length_le
    simp at this
    omega
  induction before generalizing prev depth with
  | nil =>
    rw [List.nil_append, List.nil_append, unendedFrom_cons_iff, dropExpression]
    split
    · next hend =>
      simp only [Bool.and_eq_true, decide_eq_true_eq] at hend
      refine ⟨fun h => absurd h.length_le (by simp), fun h => ?_⟩
      rw [h.1 hend.1] at hend
      cases hend.2
    · next hend =>
      refine ⟨fun _ => ⟨fun hd => ?_, fun before u us heq => by cases before <;> cases heq⟩,
        fun _ => dropExpression_suffix ..⟩
      simpa [hd] using hend
  | cons u before ih =>
    rw [List.cons_append, List.cons_append, unendedFrom_cons_iff, dropExpression]
    split
    · next hend =>
      simp only [Bool.and_eq_true, decide_eq_true_eq] at hend
      refine ⟨fun h => absurd h hsuffix, fun h => ?_⟩
      rw [h.1 hend.1] at hend
      cases hend.2
    · next hend =>
      refine ⟨fun h => ⟨fun hd => ?_, ih.1 h⟩, fun h => ih.2 h.2⟩
      simpa [hd] using hend

end Expression

/-! ### Declarators -/

/-- The kinds that end the annotation of a declarator. -/
def endsAnnotation (k : TokenKind) : Bool := k = .equals || k = .comma || k = .semicolon

/-- The kinds that end the initializer of a declarator. -/
def endsInitializer (k : TokenKind) : Bool := k = .comma || k = .semicolon

/-- One of the declarators of the tokens `ts` behind `const`, `let` or `var` starts with `us`. -/
inductive DeclaratorAt (last : Token) (ts : List Token) : List Token → Prop
  | first : DeclaratorAt last ts ts
  | next {us rest vs : List Token} {names : List Text} {comma : Token}
      (h : DeclaratorAt last ts us) (hp : patternNames last us = .ok (names, rest))
      (hr : afterDeclarator rest = comma :: vs) (hc : comma.kind = .comma) : DeclaratorAt last ts vs

/-- The token `t`, with `after` behind it, stands in the annotation or in the initializer of the
declarator that starts with `us`, and this has not ended in front of it. -/
def InDeclarator (last : Token) (us : List Token) (t : Token) (after : List Token) : Prop :=
  ∃ names rest mark run, patternNames last us = .ok (names, rest) ∧
    ((dropDefinite rest = mark :: run ++ t :: after ∧ mark.kind = .colon ∧
        Unended endsAnnotation true mark (run ++ [t])) ∨
      (dropTypePart (dropDefinite rest) = mark :: run ++ t :: after ∧ mark.kind = .equals ∧
        Unended endsInitializer false mark (run ++ [t])))

/-! ### Places of a keyword -/

/-- The words in front of a declaration. -/
def isModifier (t : Token) : Bool := t.isWord "declare" || t.isWord "abstract" || t.isWord "async"

/-- The words that declare variables. -/
def isVariableWord (t : Token) : Bool := t.isWord "const" || t.isWord "let" || t.isWord "var"

/-- The words in front of the name of a declaration. -/
def isNamingWord (t : Token) : Bool :=
  t.isWord "function" || t.isWord "class" || t.isWord "enum" || t.isWord "namespace" ||
    t.isWord "module"

/-- A name is to follow the tokens between the keyword `k` and it, whatever its token is. -/
inductive NameAhead (k : Token) : List Token → Prop
  /-- `import … * as`. -/
  | imported {front : List Token} {star word : Token} (hk : k.kind = .importWord)
      (hf : ∀ t ∈ front, t.kind = .identifier ∨ t.kind = .comma) (hs : star.kind = .star)
      (hw : word.isWord "as") : NameAhead k (front ++ [star, word])
  /-- `export * as` and `export type * as`. -/
  | exported {front : List Token} {star word : Token} (hk : k.kind = .exportWord)
      (hf : front = [] ∨ ∃ t, front = [t] ∧ t.isWord "type") (hs : star.kind = .star)
      (hw : word.isWord "as") : NameAhead k (front ++ [star, word])
  /-- `export function`, `export class` and the like, with or without a star. -/
  | declared {front stars : List Token} {word : Token} (hk : k.kind = .exportWord)
      (hf : ∀ t ∈ front, isModifier t) (hw : isNamingWord word)
      (hs : stars = [] ∨ ∃ t, stars = [t] ∧ t.kind = .star) : NameAhead k (front ++ word :: stars)
  /-- `export const enum`. -/
  | enumerated {front : List Token} {word enum : Token} (hk : k.kind = .exportWord)
      (hf : ∀ t ∈ front, isModifier t) (hw : isVariableWord word) (he : enum.isWord "enum") :
      NameAhead k (front ++ [word, enum])

/-- The statement with the keyword `k` takes the token `t` with it, which stands behind the tokens
`before` and in front of the tokens `after`: as a name, or in a declarator that has not ended. -/
def Takes (last k : Token) (before : List Token) (t : Token) (after : List Token) : Prop :=
  NameAhead k before ∨
    ∃ front word us, before ++ t :: after = front ++ word :: us ∧ k.kind = .exportWord ∧
      (∀ t ∈ front, isModifier t) ∧ isVariableWord word ∧ wordAhead "enum" us = false ∧
      ∃ vs, DeclaratorAt last us vs ∧ InDeclarator last vs t after

/-! ### Keywords outside brackets -/

/-- No keyword of `run` stands outside all brackets, when the brackets `base` are open in front. -/
def Quiet (base : List TokenKind) (run : List Token) : Prop :=
  ∀ before t after, run = before ++ t :: after → openBehind base before = some [] →
    t.isKeyword = false

/-- The keywords that are taken from the tokens `ts` down to `rest` and stand outside all brackets have
the places `P`. -/
def KeywordsOnly (base : List TokenKind) (ts rest : List Token)
    (P : List Token → Token → List Token → Prop) : Prop :=
  ∀ before t after, ts = before ++ t :: after → rest <:+ after → openBehind base before = some [] →
    t.isKeyword → P before t after

section Quiet

variable {base st : List TokenKind} {t : Token} {run run' ts rest : List Token}
  {P : List Token → Token → List Token → Prop}

theorem quiet_of_forall (h : ∀ t ∈ run, t.isKeyword = false) : Quiet base run := by
  rintro before t after rfl -
  exact h t (by simp)

theorem isKeyword_of_kind {k : TokenKind} (h : t.kind = k)
    (hk : (k = .importWord || k = .exportWord) = false) : t.isKeyword = false := by
  rwa [Token.isKeyword, h]

theorem kind_of_isKeyword (h : t.isKeyword) : t.kind = .importWord ∨ t.kind = .exportWord := by
  simpa [Token.isKeyword] using h

theorem isKeyword_of_isWord {w : Text} (h : t.isWord w) : t.isKeyword = false := by
  simp only [Token.isWord, Bool.and_eq_true, decide_eq_true_eq] at h
  exact isKeyword_of_kind h.1 (by decide)

theorem isPlain_of_isWord {w : Text} (h : t.isWord w) : t.isPlain := by
  simp only [Token.isWord, Bool.and_eq_true, decide_eq_true_eq] at h
  exact isPlain_of_kind h.1 (by decide)

theorem Quiet.append (h : Quiet base run)
    (h' : ∀ st, openBehind base run = some st → Quiet st run') : Quiet base (run ++ run') := by
  intro before t after heq hst
  rcases List.append_eq_append_iff.1 heq with ⟨more, rfl, hmore⟩ | ⟨more, hrun, hmore⟩
  · obtain ⟨mid, hmid, hst⟩ := exists_of_openBehind_append hst
    exact h' mid hmid more t after hmore hst
  · cases more with
    | nil =>
      obtain rfl : run = before := by simpa using hrun
      exact h' [] hst [] t after hmore.symm rfl
    | cons u more =>
      obtain ⟨rfl, rfl⟩ := List.cons.inj hmore
      exact h before t more hrun hst

theorem Quiet.cons (h : t.isKeyword = false) (hp : t.isPlain) (h' : Quiet base run) :
    Quiet base (t :: run) := by
  change Quiet base ([t] ++ run)
  refine Quiet.append (quiet_of_forall (by simpa using h)) fun st hst => ?_
  rw [openBehind_cons_of_plain hp] at hst
  cases hst
  exact h'

theorem quiet_of_inside (h : Inside st run) (base : List TokenKind) : Quiet (st ++ base) run := by
  intro before t after heq hst
  obtain ⟨mid, hne, hmid⟩ := h before t after heq
  rw [openBehind_append_base hmid] at hst
  exact absurd (List.append_eq_nil_iff.1 (Option.some.inj hst)).1 hne

/-- A group is quiet, whatever it holds. -/
theorem quiet_group (ht : t.kind.isOpener) (h : Inside [t.kind.closer] run)
    (base : List TokenKind) : Quiet base (t :: run) := by
  have hk : t.isKeyword = false := by
    unfold Token.isKeyword
    revert ht
    cases t.kind <;> simp [TokenKind.isOpener]
  change Quiet base ([t] ++ run)
  refine Quiet.append (quiet_of_forall (by simpa using hk)) fun st hst => ?_
  rw [openBehind_cons, openedBy_opener ht] at hst
  cases hst
  exact quiet_of_inside h base

theorem KeywordsOnly.refl (base : List TokenKind) (ts : List Token) : KeywordsOnly base ts ts P := by
  rintro before t after rfl hrest
  have := hrest.length_le
  simp at this
  omega

theorem KeywordsOnly.of_quiet (h : Quiet base run) : KeywordsOnly base (run ++ rest) rest P := by
  intro before t after heq hrest hst hk
  have hlength := hrest.length_le
  rcases List.append_eq_append_iff.1 heq with ⟨more, -, hmore⟩ | ⟨more, hrun, hmore⟩
  · simp only [hmore, List.length_append, List.length_cons] at hlength
    omega
  · cases more with
    | nil =>
      simp only [← List.nil_append rest ▸ hmore, List.length_cons] at hlength
      omega
    | cons u more =>
      obtain ⟨rfl, rfl⟩ := List.cons.inj hmore
      rw [h before t more hrun hst] at hk
      cases hk

theorem KeywordsOnly.trans (h : KeywordsOnly base (run ++ ts) ts P)
    (h' : ∀ st, openBehind base run = some st →
      KeywordsOnly st ts rest fun before => P (run ++ before)) :
    KeywordsOnly base (run ++ ts) rest P := by
  intro before t after heq hrest hst hk
  rcases List.append_eq_append_iff.1 heq with ⟨more, rfl, hmore⟩ | ⟨more, hrun, hmore⟩
  · obtain ⟨mid, hmid, hst⟩ := exists_of_openBehind_append hst
    exact h' mid hmid more t after hmore hrest hst hk
  · cases more with
    | nil =>
      obtain rfl : run = before := by simpa using hrun
      simpa using h' [] hst [] t after hmore.symm hrest rfl hk
    | cons u more =>
      obtain ⟨rfl, rfl⟩ := List.cons.inj hmore
      exact h before t _ heq (List.suffix_append more ts) hst hk

theorem KeywordsOnly.append (h : Quiet base run)
    (h' : ∀ st, openBehind base run = some st →
      KeywordsOnly st ts rest fun before => P (run ++ before)) :
    KeywordsOnly base (run ++ ts) rest P :=
  (KeywordsOnly.of_quiet h).trans h'

theorem KeywordsOnly.cons (ht : t.isKeyword → P [] t ts)
    (h : ∀ st, openedBy base t = some st → KeywordsOnly st ts rest fun before => P (t :: before)) :
    KeywordsOnly base (t :: ts) rest P := by
  intro before u after heq hrest hst hk
  cases before with
  | nil =>
    obtain ⟨rfl, rfl⟩ := List.cons.inj heq
    exact ht hk
  | cons v before =>
    obtain ⟨rfl, rfl⟩ := List.cons.inj heq
    obtain ⟨mid, hmid, hst⟩ := exists_of_openBehind_cons hst
    exact h mid hmid before u after rfl hrest hst hk

theorem KeywordsOnly.cons_plain (hk : t.isKeyword = false) (hp : t.isPlain)
    (h : KeywordsOnly base ts rest fun before => P (t :: before)) :
    KeywordsOnly base (t :: ts) rest P := by
  refine .cons (fun h => ?_) fun st hst => ?_
  · rw [hk] at h
    cases h
  · rw [openedBy_plain hp] at hst
    cases hst
    exact h

theorem KeywordsOnly.mono {Q : List Token → Token → List Token → Prop}
    (h : KeywordsOnly base ts rest P) (hPQ : ∀ before t after, ts = before ++ t :: after →
      P before t after → Q before t after) : KeywordsOnly base ts rest Q :=
  fun before t after heq hrest hst hk => hPQ before t after heq (h before t after heq hrest hst hk)

end Quiet

/-! ### Clauses -/

section Clause

variable {base : List TokenKind} {last : Token} {ts : List Token}

theorem isPlain_of_bindingName {t : Token} {name : Text} (h : bindingName t = .ok name) :
    t.isPlain := by
  unfold bindingName at h
  split at h
  · next hk => exact isPlain_of_kind hk (by decide)
  · next hk => exact isPlain_of_kind hk (by decide)
  · next hk => exact isPlain_of_kind hk (by decide)
  · next hk => exact isPlain_of_kind hk (by decide)
  · cases h

theorem exists_of_readName {n : Text × List Token} (h : readName last ts = .ok n) :
    ∃ t, ts = t :: n.2 ∧ t.isPlain := by
  cases ts with
  | nil => cases h
  | cons t ts =>
    obtain ⟨name, hname, rfl⟩ := Except.map_eq_ok_iff.1 h
    exact ⟨t, rfl, isPlain_of_bindingName hname⟩

theorem eq_cons_of_wordAhead {w : Text} (h : wordAhead w ts) : ∃ t us, ts = t :: us ∧ t.isWord w := by
  cases ts with
  | nil => cases h
  | cons t us => exact ⟨t, us, rfl, by simpa [wordAhead] using h⟩

theorem eq_cons_of_kindAhead {k : TokenKind} (h : kindAhead k ts) :
    ∃ t us, ts = t :: us ∧ t.kind = k := by
  cases ts with
  | nil => cases h
  | cons t us => exact ⟨t, us, rfl, by simpa [kindAhead] using h⟩

theorem exists_of_readElement {b : Binding × List Token} (h : readElement last ts = .ok b) :
    ∃ run, ts = run ++ b.2 ∧ ∀ t ∈ run, t.isPlain := by
  obtain ⟨⟨name, rest⟩, hn, h⟩ := Except.bind_eq_ok_iff.1 h
  have hmark : ∃ front, ts = front ++ (if marksTypeName ts then ts.tail else ts) ∧
      ∀ t ∈ front, t.isPlain := by
    split
    · next hm =>
      unfold marksTypeName at hm
      split at hm
      · next t u us _ =>
        simp only [Bool.and_eq_true] at hm
        exact ⟨[t], rfl, by simpa using isPlain_of_isWord hm.1.1⟩
      · cases hm
    · exact ⟨[], rfl, by simp⟩
  obtain ⟨front, hfront, hplain⟩ := hmark
  obtain ⟨t, ht, htp⟩ := exists_of_readName hn
  simp only at h ht
  have hts : ts = (front ++ [t]) ++ rest := by rw [hfront, ht, List.append_assoc]; rfl
  have hrun : ∀ u ∈ front ++ [t], u.isPlain := by
    intro u hu
    rcases List.mem_append.1 hu with hu | hu
    · exact hplain u hu
    · rwa [List.mem_singleton.1 hu]
  split at h
  · next has =>
    obtain ⟨⟨inner, rest'⟩, hi, h⟩ := Except.bind_eq_ok_iff.1 h
    cases h
    obtain ⟨w, us, rfl, hw⟩ := eq_cons_of_wordAhead has
    obtain ⟨v, hv, hvp⟩ := exists_of_readName hi
    simp only [List.tail_cons] at hv
    refine ⟨(front ++ [t]) ++ [w, v], by rw [hts, hv]; simp, fun u hu => ?_⟩
    rcases List.mem_append.1 hu with hu | hu
    · exact hrun u hu
    · rcases List.mem_cons.1 hu with rfl | hu
      · exact isPlain_of_isWord hw
      · rwa [List.mem_singleton.1 hu]
  · cases h
    exact ⟨_, hts, hrun⟩

theorem Inside.append_plain {st : List TokenKind} (hst : st ≠ []) {run run' : List Token}
    (hr : ∀ t ∈ run, t.isPlain) (h : Inside st run') : Inside st (run ++ run') :=
  h.nested_append hst (openBehind_plain hr [])

theorem exists_of_readElements {opener : Token} {r : (List Binding × Token) × List Token}
    (h : readElements last opener ts = .ok r) :
    ∃ run, ts = run ++ r.2 ∧ Inside [.rightBrace] run := by
  have close : ∀ {t : Token}, t.kind = .rightBrace → Inside [.rightBrace] [t] := fun ht =>
    (Inside.nil []).cons (List.cons_ne_nil _ _)
      ((openedBy_closer (by rw [ht]; rfl)).2 (congrArg (· :: []) ht.symm))
  fun_induction readElements last opener ts generalizing r with
  | case1 => cases h
  | case2 t us ht =>
    cases h
    exact ⟨[t], rfl, close ht⟩
  | case3 => cases h
  | case4 => cases h
  | case5 t us _ b v vs hb hv ih =>
    obtain ⟨m, hm, rfl⟩ := Except.map_eq_ok_iff.1 h
    obtain ⟨run, hrun, hplain⟩ := exists_of_readElement hb
    obtain ⟨run', hrun', hin⟩ := ih hm
    refine ⟨run ++ v :: run', ?_, ?_⟩
    · rw [hrun, List.append_assoc, List.cons_append, ← hrun']
    · exact Inside.append_plain (List.cons_ne_nil _ _) hplain
        (hin.plain (List.cons_ne_nil _ _) (isPlain_of_kind hv (by decide)))
  | case6 t us _ b v vs hb _ hv =>
    cases h
    obtain ⟨run, hrun, hplain⟩ := exists_of_readElement hb
    refine ⟨run ++ [v], by rw [hrun, List.append_assoc]; rfl, ?_⟩
    exact Inside.append_plain (List.cons_ne_nil _ _) hplain (close hv)
  | case7 => cases h

theorem exists_of_readSemicolon (stop : Nat) (ts : List Token) :
    ∃ run, ts = run ++ (readSemicolon stop ts).2 ∧ ∀ t ∈ run, t.kind = .semicolon := by
  unfold readSemicolon
  repeat' split
  · next t us ht => exact ⟨[t], rfl, by simpa using ht⟩
  · exact ⟨[], rfl, by simp⟩
  · exact ⟨[], rfl, by simp⟩

theorem exists_of_readSpecifier {r : (Text × Nat) × List Token}
    (h : readSpecifier last ts = .ok r) (hn : openBehind base ts = some []) :
    ∃ run, ts = run ++ r.2 ∧ Quiet base run := by
  have semicolon : ∀ (stop : Nat) (us : List Token) (st : List TokenKind),
      ∃ run, us = run ++ (readSemicolon stop us).2 ∧ Quiet st run := by
    intro stop us st
    obtain ⟨run, hrun, hkind⟩ := exists_of_readSemicolon stop us
    exact ⟨run, hrun, quiet_of_forall fun t ht => isKeyword_of_kind (hkind t ht) (by decide)⟩
  unfold readSpecifier at h
  split at h
  · cases h
  · next t us =>
    split at h
    · next ht =>
      split at h
      · cases h
      · split at h
        · next hattributes =>
          unfold attributesAhead at hattributes
          split at hattributes
          · next w o us =>
            simp only [Bool.and_eq_true, decide_eq_true_eq, Bool.or_eq_true] at hattributes
            obtain ⟨⟨hw, ho⟩, -⟩ := hattributes
            have hw : w.isKeyword = false ∧ w.isPlain := by
              rcases hw with hw | hw <;> exact ⟨isKeyword_of_isWord hw, isPlain_of_isWord hw⟩
            have hopener : o.kind.isOpener := by rw [ho]; rfl
            rw [openBehind_cons_of_plain (isPlain_of_kind ht (by decide)), openBehind_cons_of_plain hw.2,
              openBehind_cons, openedBy_opener hopener, Option.bind_some] at hn
            rw [List.tail_cons, dropGroup, if_pos hopener] at h
            split at h
            · cases h
            · next close rest hg =>
              cases h
              -- Between the brackets of the attributes no keyword is outside all brackets.
              obtain ⟨run, hrun, hclosed, hin⟩ := exists_of_dropGroup
                [o.kind.closer] hg (List.cons_ne_nil _ _) rfl hn
              obtain ⟨more, hmore, hquiet⟩ := semicolon close.stop rest base
              refine ⟨t :: w :: (o :: run) ++ more, ?_, ?_⟩
              · rw [hrun]
                simpa using hmore
              · refine Quiet.cons (isKeyword_of_kind ht (by decide)) (isPlain_of_kind ht (by decide))
                  (Quiet.cons hw.1 hw.2 ((quiet_group hopener hin base).append fun st hst => ?_))
                rw [openBehind_cons, openedBy_opener hopener, Option.bind_some] at hst
                have hbase : st = base :=
                  Option.some.inj (hst.symm.trans (openBehind_append_base hclosed base))
                exact hbase ▸ hquiet
          · cases hattributes
        · cases h
          obtain ⟨run, hrun, hquiet⟩ := semicolon t.stop us base
          exact ⟨t :: run, congrArg (t :: ·) hrun,
            hquiet.cons (isKeyword_of_kind ht (by decide)) (isPlain_of_kind ht (by decide))⟩
    · cases h

theorem exists_of_readFrom {cause : StatementFault.Cause} {rest : List Token}
    (h : readFrom cause last ts = .ok rest) : ∃ t, ts = t :: rest ∧ t.isWord "from" := by
  unfold readFrom at h
  repeat' split at h
  · next t us ht =>
    cases h
    exact ⟨t, rfl, ht⟩
  · cases h
  · cases h

/-- Where a statement takes its names from holds no keyword outside brackets. -/
theorem exists_of_source {cause : StatementFault.Cause} {rest : List Token}
    {r : (Text × Nat) × List Token} (hf : readFrom cause last ts = .ok rest)
    (hs : readSpecifier last rest = .ok r) (hn : openBehind base ts = some []) :
    ∃ run, ts = run ++ r.2 ∧ Quiet base run := by
  obtain ⟨t, rfl, ht⟩ := exists_of_readFrom hf
  rw [openBehind_cons_of_plain (isPlain_of_isWord ht)] at hn
  obtain ⟨run, hrun, hquiet⟩ := exists_of_readSpecifier hs hn
  exact ⟨t :: run, congrArg (t :: ·) hrun,
    hquiet.cons (isKeyword_of_isWord ht) (isPlain_of_isWord ht)⟩

end Clause

/-! ### Imports -/

section Import

variable {base : List TokenKind} {last word : Token} {ts : List Token}

theorem exists_of_readDefaultBinding (ts : List Token) :
    ∃ run, ts = run ++ (readDefaultBinding ts).2 ∧ ∀ t ∈ run, t.kind = .identifier ∨ t.kind = .comma := by
  unfold readDefaultBinding
  split
  · next t us =>
    split
    · next ht =>
      split
      · next hc =>
        obtain ⟨c, vs, rfl, hk⟩ := eq_cons_of_kindAhead hc
        exact ⟨[t, c], rfl, by simp [ht, hk]⟩
      · exact ⟨[t], rfl, by simp [ht]⟩
    · exact ⟨[], rfl, by simp⟩
  · exact ⟨[], rfl, by simp⟩

/-- The words and commas in front of a namespace or of a list of names. -/
theorem exists_of_importFront (ts : List Token) :
    ∃ run, ts = run ++ (readDefaultBinding (if marksTypeImport ts then ts.tail else ts)).2 ∧
      ∀ t ∈ run, t.kind = .identifier ∨ t.kind = .comma := by
  split
  · next hm =>
    unfold marksTypeImport at hm
    split at hm
    · next t u us =>
      simp only [Bool.and_eq_true] at hm
      have ht : t.kind = .identifier := by
        have := hm.1
        simp only [Token.isWord, Bool.and_eq_true, decide_eq_true_eq] at this
        exact this.1
      obtain ⟨run, hrun, hkind⟩ := exists_of_readDefaultBinding (u :: us)
      refine ⟨t :: run, congrArg (t :: ·) hrun, fun v hv => ?_⟩
      rcases List.mem_cons.1 hv with rfl | hv
      · exact .inl ht
      · exact hkind v hv
    · cases hm
  · exact exists_of_readDefaultBinding ts

theorem isKeyword_of_front {t : Token} (h : t.kind = .identifier ∨ t.kind = .comma) :
    t.isKeyword = false ∧ t.isPlain := by
  rcases h with h | h <;> exact ⟨isKeyword_of_kind h (by decide), isPlain_of_kind h (by decide)⟩

/-- A namespace is bound to any token; a list of names is a group. -/
theorem exists_of_readClause {r : List Binding × List Token} (h : readClause last ts = .ok r) :
    (∃ star as name, ts = star :: as :: name :: r.2 ∧ star.kind = .star ∧ as.isWord "as") ∨
    ∃ run, ts = run ++ r.2 ∧ ∀ base, Quiet base run := by
  unfold readClause at h
  split at h
  · next t us =>
    split at h
    · next ht =>
      split at h
      · next as vs =>
        split at h
        · next has =>
          cases h
          cases vs with
          | nil =>
            refine .inr ⟨[t, as], rfl, fun base => quiet_of_forall fun u hu => ?_⟩
            rcases List.mem_cons.1 hu with rfl | hu
            · exact isKeyword_of_kind ht (by decide)
            · rw [List.mem_singleton.1 hu]
              exact isKeyword_of_isWord has
          | cons name vs => exact .inl ⟨t, as, name, rfl, ht, has⟩
        · cases h
      · cases h
    · split at h
      · next ht =>
        obtain ⟨m, hm, rfl⟩ := Except.map_eq_ok_iff.1 h
        obtain ⟨run, hrun, hin⟩ := exists_of_readElements hm
        have hcloser : t.kind.closer = .rightBrace := by rw [ht]; rfl
        exact .inr ⟨t :: run, congrArg (t :: ·) hrun,
          quiet_group (by rw [ht]; rfl) (hcloser ▸ hin)⟩
      · cases h
        exact .inr ⟨[], rfl, fun base => quiet_of_forall (by simp)⟩
  · cases h
    exact .inr ⟨[], rfl, fun base => quiet_of_forall (by simp)⟩

theorem keywordsOnly_of_readImport {s : Statement} {rest : List Token}
    (h : readImport last word ts = .ok (some (s, rest))) (hword : word.kind = .importWord)
    (hn : openBehind base ts = some []) :
    KeywordsOnly base ts rest fun before _ _ => NameAhead word before := by
  unfold readImport at h
  split at h
  · cases h
  · split at h
    · obtain ⟨⟨⟨specifier, stop⟩, r⟩, hs, h⟩ := Except.bind_eq_ok_iff.1 h
      cases h
      obtain ⟨run, rfl, hquiet⟩ := exists_of_readSpecifier hs hn
      exact .of_quiet hquiet
    · obtain ⟨⟨bindings, r₁⟩, hc, h⟩ := Except.bind_eq_ok_iff.1 h
      obtain ⟨r₂, hf, h⟩ := Except.bind_eq_ok_iff.1 h
      obtain ⟨⟨⟨specifier, stop⟩, r₃⟩, hs, h⟩ := Except.bind_eq_ok_iff.1 h
      cases h
      obtain ⟨front, hfront, hkind⟩ := exists_of_importFront ts
      have hplain : ∀ t ∈ front, t.isPlain := fun t ht => (isKeyword_of_front (hkind t ht)).2
      have hquiet : Quiet base front :=
        quiet_of_forall fun t ht => (isKeyword_of_front (hkind t ht)).1
      rw [hfront] at hn ⊢
      rw [openBehind_append_of_eq (openBehind_plain hplain base)] at hn
      refine .append hquiet fun st hst => ?_
      rw [openBehind_plain hplain] at hst
      cases hst
      rcases exists_of_readClause hc with ⟨star, as, name, hts, hstar, has⟩ | ⟨run, hts, hrun⟩
      · -- The name behind `* as` may be any token, a keyword too.
        rw [hts] at hn ⊢
        rw [openBehind_cons_of_plain (isPlain_of_kind hstar (by decide)),
          openBehind_cons_of_plain (isPlain_of_isWord has)] at hn
        obtain ⟨st, hst, hn⟩ := exists_of_openBehind_cons hn
        obtain ⟨run, hrun, hquiet⟩ := exists_of_source hf hs hn
        refine .cons_plain (isKeyword_of_kind hstar (by decide)) (isPlain_of_kind hstar (by decide)) <|
          .cons_plain (isKeyword_of_isWord has) (isPlain_of_isWord has) <|
          .cons (fun _ => .imported hword hkind hstar has) fun st' hst' => ?_
        rw [hst] at hst'
        cases hst'
        rw [hrun]
        exact .of_quiet hquiet
      · rw [hts] at hn ⊢
        obtain ⟨st, hst, hn⟩ := exists_of_openBehind_append hn
        obtain ⟨run', hrun', hquiet'⟩ := exists_of_source hf hs hn
        refine .append (hrun base) fun st' hst' => ?_
        rw [hst] at hst'
        cases hst'
        rw [hrun']
        exact .of_quiet hquiet'

end Import

/-! ### Exported declarations -/

section Declaration

variable {base : List TokenKind} {last word : Token} {ts : List Token}

theorem DeclaratorAt.trans {us vs : List Token} (h : DeclaratorAt last ts us)
    (h' : DeclaratorAt last us vs) : DeclaratorAt last ts vs := by
  induction h' with
  | first => exact h
  | next _ hp hr hc ih => exact .next ih hp hr hc

/-- A pattern holds no keyword outside brackets. -/
theorem exists_of_patternNames {n : Names} (h : patternNames last ts = .ok n)
    (hn : openBehind base ts = some []) : ∃ run, ts = run ++ n.2 ∧ Quiet base run := by
  cases ts with
  | nil => simp [patternNames, walkPattern] at h
  | cons t us =>
    rw [patternNames, walkPattern] at h
    split at h
    · next ht =>
      obtain ⟨m, hm, rfl⟩ := Except.map_eq_ok_iff.1 h
      simp only [dropDefault, walkPattern] at hm
      cases hm
      exact ⟨[t], rfl, quiet_of_forall (by simpa using isKeyword_of_kind ht (by decide))⟩
    · split at h
      · next ht =>
        have hopener : t.kind.isOpener ∧ closing t = t.kind.closer := by
          simp only [Bool.or_eq_true, decide_eq_true_eq] at ht
          rcases ht with ht | ht <;> simp [closing, ht, TokenKind.isOpener, TokenKind.closer]
        rw [openBehind_cons, openedBy_opener hopener.1, Option.bind_some] at hn
        obtain ⟨run, hrun, hin⟩ := exists_of_walkPattern [t.kind.closer] h (by simp)
          (by simp [hopener.2]) hn
        exact ⟨t :: run, congrArg (t :: ·) hrun, quiet_group hopener.1 hin base⟩
      · cases h

/-- Two tails of one list: the longer one goes on with the shorter one. -/
theorem suffix_or_eq_append {α : Type} {us vs : List α} {t : α} {before after : List α}
    (h : us <:+ vs) (hvs : vs = before ++ t :: after) :
    us <:+ after ∨ ∃ before', us = before' ++ t :: after := by
  rcases List.suffix_or_suffix_of_suffix h (hvs ▸ List.suffix_append before (t :: after))
    with h | ⟨before', h⟩
  · rcases List.suffix_cons_iff.1 h with h | h
    · exact .inr ⟨[], h⟩
    · exact .inl h
  · exact .inr ⟨before', h.symm⟩

/-- Behind a mark that is no keyword, a token of an expression is dropped while that goes on. -/
theorem dropped_or_kept (stop : TokenKind → Bool) (inType : Bool) {mark t : Token}
    {us before after : List Token} (hmark : mark.isKeyword = false) (ht : t.isKeyword)
    (heq : mark :: us = before ++ t :: after) :
    (∃ run, mark :: us = mark :: run ++ t :: after ∧ Unended stop inType mark (run ++ [t])) ∨
      ∃ before', dropExpression stop inType mark 0 us = before' ++ t :: after := by
  cases before with
  | nil =>
    obtain ⟨rfl, rfl⟩ := List.cons.inj heq
    rw [hmark] at ht
    cases ht
  | cons u run =>
    obtain ⟨rfl, rfl⟩ := List.cons.inj heq
    rcases suffix_or_eq_append (dropExpression_suffix stop inType mark 0 _) rfl with h | h
    · exact .inl ⟨run, rfl, unended_iff.2 (dropExpression_suffix_iff.1 h)⟩
    · exact .inr h

theorem inDeclarator_of_afterDeclarator {names : List Text} {rest before after : List Token}
    {t : Token} (hp : patternNames last ts = .ok (names, rest)) (heq : rest = before ++ t :: after)
    (hafter : afterDeclarator rest <:+ after) (ht : t.isKeyword) : InDeclarator last ts t after := by
  have not_kept : ∀ {before' : List Token}, ¬ before' ++ t :: after <:+ after := by
    intro before' h
    have := h.length_le
    simp at this
    omega
  have definite : ∃ before', dropDefinite rest = before' ++ t :: after := by
    unfold dropDefinite
    split
    · next u us =>
      split
      · next hu =>
        cases before with
        | nil =>
          obtain ⟨rfl, rfl⟩ := List.cons.inj heq
          rw [isKeyword_of_kind (kind_of_isOperator hu) (by decide)] at ht
          cases ht
        | cons v before => exact ⟨before, (List.cons.inj heq).2⟩
      · exact ⟨before, heq⟩
    · cases before <;> cases heq
  obtain ⟨before₁, h₁⟩ := definite
  -- The annotation takes the keyword, or it stands behind the annotation, and the same for the value.
  have typePart : InDeclarator last ts t after ∨
      ∃ before', dropTypePart (dropDefinite rest) = before' ++ t :: after := by
    unfold dropTypePart
    split
    · next u us hu =>
      split
      · next hcolon =>
        rcases dropped_or_kept endsAnnotation true
          (isKeyword_of_kind hcolon (by decide)) ht (hu.symm.trans h₁) with ⟨run, hrun, hunended⟩ | hkept
        · exact .inl ⟨names, rest, u, run, hp, .inl ⟨hu.trans hrun, hcolon, hunended⟩⟩
        · exact .inr hkept
      · exact .inr ⟨before₁, hu.symm.trans h₁⟩
    · next hnil => rw [h₁] at hnil; simp at hnil
  rcases typePart with h | ⟨before₂, h₂⟩
  · exact h
  · unfold afterDeclarator dropInitializer at hafter
    split at hafter
    · next u us hu =>
      split at hafter
      · next hequals =>
        rcases dropped_or_kept endsInitializer false
          (isKeyword_of_kind hequals (by decide)) ht (hu.symm.trans h₂) with ⟨run, hrun, hunended⟩ | ⟨_, hkept⟩
        · exact ⟨names, rest, u, run, hp, .inr ⟨hu.trans hrun, hequals, hunended⟩⟩
        · exact absurd (hkept ▸ hafter) not_kept
      · exact absurd (hu.symm.trans h₂ ▸ hafter) not_kept
    · next hnil => rw [h₂] at hnil; simp at hnil

/-- One declarator, down to what follows it. -/
theorem keywordsOnly_of_declarator {names : List Text} {rest : List Token}
    (hp : patternNames last ts = .ok (names, rest)) (hn : openBehind base ts = some []) :
    KeywordsOnly base ts (afterDeclarator rest) fun _ t after => InDeclarator last ts t after := by
  obtain ⟨run, hrun, hquiet⟩ := exists_of_patternNames hp hn
  have hlast : KeywordsOnly base (run ++ rest) (afterDeclarator rest) fun _ t after =>
      InDeclarator last ts t after :=
    .append hquiet fun st _ before t after heq hafter _ ht =>
      inDeclarator_of_afterDeclarator hp heq hafter ht
  rwa [← hrun] at hlast

theorem keywordsOnly_of_declaratorNames {n : Names} (h : declaratorNames last ts = .ok n)
    (hn : openBehind base ts = some []) :
    KeywordsOnly base ts n.2 fun _ t after =>
      ∃ us, DeclaratorAt last ts us ∧ InDeclarator last us t after := by
  fun_induction declaratorNames last ts generalizing n base with
  | case1 => cases h
  | case2 ts names rest hp t us hr ht ih =>
    obtain ⟨m, hm, rfl⟩ := Except.map_eq_ok_iff.1 h
    have hfirst := (keywordsOnly_of_declarator hp hn).mono fun _ _ _ _ h =>
      (⟨ts, .first, h⟩ : ∃ us, DeclaratorAt last ts us ∧ InDeclarator last us _ _)
    obtain ⟨run, hrun⟩ := (afterDeclarator_suffix rest).trans (patternNames_suffix hp)
    rw [hr] at hrun hfirst
    subst hrun
    refine hfirst.trans fun st hst => ?_
    rw [openBehind_append_of_eq hst, openBehind_cons_of_plain (isPlain_of_kind ht (by decide))] at hn
    refine .cons_plain (isKeyword_of_kind ht (by decide)) (isPlain_of_kind ht (by decide)) ((ih hm hn).mono ?_)
    rintro - t after - ⟨vs, hvs, hin⟩
    exact ⟨vs, (DeclaratorAt.next .first hp hr ht).trans hvs, hin⟩
  | case3 ts names rest hp t us hr _ =>
    cases h
    exact hr ▸ (keywordsOnly_of_declarator hp hn).mono fun _ _ _ _ h => ⟨ts, .first, h⟩
  | case4 ts names rest hp hr =>
    cases h
    exact hr ▸ (keywordsOnly_of_declarator hp hn).mono fun _ _ _ _ h => ⟨ts, .first, h⟩

/-- A name takes one token, if there is one. -/
theorem keywordsOnly_tail {P : List Token → Token → List Token → Prop}
    (h : ∀ t us, P [] t us) : KeywordsOnly base ts ts.tail P := by
  cases ts with
  | nil => exact .refl base []
  | cons t us => exact .cons (fun _ => h t us) fun st _ => .refl st us

theorem keywordsOnly_of_readDeclaration {d : Declared} {rest : List Token}
    (h : readDeclaration last ts = .ok (some (d, rest))) (hword : word.kind = .exportWord)
    (hn : openBehind base ts = some []) : KeywordsOnly base ts rest (Takes last word) := by
  obtain ⟨front, hfront, hmodifier⟩ : ∃ front, ts = front ++ dropDeclarationModifiers ts ∧
      ∀ t ∈ front, isModifier t :=
    ⟨_, List.takeWhile_append_dropWhile.symm, fun t ht => List.mem_takeWhile_imp ht⟩
  have hwords : ∀ t ∈ front, t.isKeyword = false ∧ t.isPlain := by
    intro t ht
    have := hmodifier t ht
    simp only [isModifier, Bool.or_eq_true] at this
    rcases this with (h | h) | h <;> exact ⟨isKeyword_of_isWord h, isPlain_of_isWord h⟩
  have hplain : ∀ t ∈ front, t.isPlain := fun t ht => (hwords t ht).2
  unfold readDeclaration at h
  rw [hfront] at hn ⊢
  rw [openBehind_append_of_eq (openBehind_plain hplain base)] at hn
  refine .append (quiet_of_forall fun t ht => (hwords t ht).1) fun st hst => ?_
  rw [openBehind_plain hplain] at hst
  cases hst
  split at h
  · cases h
  · next t us hus =>
    rw [hus] at hn ⊢
    split at h
    · next hvariable =>
      -- Declarators, or `const enum`.
      have ht : t.isKeyword = false ∧ t.isPlain := by
        simp only [Bool.or_eq_true] at hvariable
        rcases hvariable with (h | h) | h <;> exact ⟨isKeyword_of_isWord h, isPlain_of_isWord h⟩
      rw [openBehind_cons_of_plain ht.2] at hn
      refine .cons_plain ht.1 ht.2 ?_
      split at h
      · next henum =>
        cases h
        obtain ⟨enum, vs, rfl, he⟩ := eq_cons_of_wordAhead henum
        exact .cons_plain (isKeyword_of_isWord he) (isPlain_of_isWord he)
          (keywordsOnly_tail fun _ _ => .inl (.enumerated hword hmodifier hvariable he))
      · next henum =>
        obtain ⟨⟨names, rest'⟩, hnames, h⟩ := Except.map_eq_ok_iff.1 h
        cases h
        refine (keywordsOnly_of_declaratorNames hnames hn).mono ?_
        rintro before u after heq ⟨vs, hvs, hin⟩
        refine .inr ⟨front, t, us, ?_, hword, hmodifier, hvariable, by simpa using henum, vs, hvs,
          hin⟩
        rw [heq, List.append_assoc, List.cons_append]
    · split at h
      · next hnaming =>
        have ht : t.isKeyword = false ∧ t.isPlain := by
          simp only [Bool.or_eq_true] at hnaming
          rcases hnaming with (((h | h) | h) | h) | h <;>
            exact ⟨isKeyword_of_isWord h, isPlain_of_isWord h⟩
        cases h
        -- One name, for a function perhaps behind a star.
        refine .cons_plain ht.1 ht.2 ?_
        unfold dropStar readDeclared
        split
        · next hstar =>
          obtain ⟨star, vs, rfl, hs⟩ := eq_cons_of_kindAhead hstar
          exact .cons_plain (isKeyword_of_kind hs (by decide)) (isPlain_of_kind hs (by decide)) (keywordsOnly_tail
            fun _ _ => .inl (.declared hword hmodifier hnaming (.inr ⟨star, rfl, hs⟩)))
        · exact keywordsOnly_tail fun _ _ => .inl (.declared hword hmodifier hnaming (.inl rfl))
      · split at h
        · cases h
          exact .refl base _
        · cases h

end Declaration

/-! ### Exports -/

section Export

variable {base : List TokenKind} {last word : Token} {ts rest : List Token} {s : Statement}
  {typeOnly : Bool}

theorem keywordsOnly_of_readExportAll
    (h : readExportAll last word typeOnly ts = .ok (some (s, rest)))
    (hn : openBehind base ts = some []) :
    KeywordsOnly base ts rest fun before _ _ => ∃ as, before = [as] ∧ as.isWord "as" := by
  unfold readExportAll at h
  split at h
  · next has =>
    obtain ⟨⟨name, r₁⟩, hname, h⟩ := Except.bind_eq_ok_iff.1 h
    obtain ⟨r₂, hf, h⟩ := Except.bind_eq_ok_iff.1 h
    obtain ⟨⟨⟨specifier, stop⟩, r₃⟩, hs, h⟩ := Except.bind_eq_ok_iff.1 h
    cases h
    obtain ⟨as, us, rfl, has⟩ := eq_cons_of_wordAhead has
    obtain ⟨t, rfl, ht⟩ := exists_of_readName hname
    rw [openBehind_cons_of_plain (isPlain_of_isWord has), openBehind_cons_of_plain ht] at hn
    obtain ⟨run, hrun, hquiet⟩ := exists_of_source hf hs hn
    refine .cons_plain (isKeyword_of_isWord has) (isPlain_of_isWord has)
      (.cons (fun _ => ⟨as, rfl, has⟩) fun st hst => ?_)
    rw [openedBy_plain ht] at hst
    cases hst
    rw [hrun]
    exact .of_quiet hquiet
  · obtain ⟨r₂, hf, h⟩ := Except.bind_eq_ok_iff.1 h
    obtain ⟨⟨⟨specifier, stop⟩, r₃⟩, hs, h⟩ := Except.bind_eq_ok_iff.1 h
    cases h
    obtain ⟨run, rfl, hquiet⟩ := exists_of_source hf hs hn
    exact .of_quiet hquiet

theorem keywordsOnly_of_readExportNames {opener : Token}
    {P : List Token → Token → List Token → Prop}
    (h : readExportNames last word opener typeOnly ts = .ok (some (s, rest)))
    (hn : openBehind (.rightBrace :: base) ts = some []) :
    KeywordsOnly (.rightBrace :: base) ts rest P := by
  obtain ⟨⟨⟨names, close⟩, r₁⟩, hnames, h'⟩ := Except.bind_eq_ok_iff.1 h
  clear h
  obtain ⟨run, hrun, hin⟩ := exists_of_readElements hnames
  simp only at h' hrun
  subst hrun
  obtain ⟨st, hst, hn⟩ := exists_of_openBehind_append hn
  refine .append (quiet_of_inside hin base) fun st' hst' => ?_
  rw [hst] at hst'
  cases hst'
  rename' h' => h
  split at h
  · next hfrom =>
    obtain ⟨⟨⟨specifier, stop⟩, r₃⟩, hs, h⟩ := Except.bind_eq_ok_iff.1 h
    cases h
    obtain ⟨f, us, rfl, hf⟩ := eq_cons_of_wordAhead hfrom
    rw [openBehind_cons_of_plain (isPlain_of_isWord hf)] at hn
    obtain ⟨run', hrun', hquiet⟩ := exists_of_readSpecifier hs hn
    rw [List.tail_cons] at hrun'
    rw [hrun']
    exact .cons_plain (isKeyword_of_isWord hf) (isPlain_of_isWord hf) (.of_quiet hquiet)
  · cases h
    obtain ⟨run', hrun', hkind⟩ := exists_of_readSemicolon close.stop r₁
    have hlast : KeywordsOnly st (run' ++ (readSemicolon close.stop r₁).2)
        (readSemicolon close.stop r₁).2 fun before => P (run ++ before) :=
      .of_quiet (quiet_of_forall fun t ht => isKeyword_of_kind (hkind t ht) (by decide))
    rwa [← hrun'] at hlast

/-- A word `type` is taken off only in front of a star or of a brace. -/
theorem exists_of_exportFront (ts : List Token) :
    ∃ front, ts = front ++ (if marksTypeExport ts then ts.tail else ts) ∧
      (front = [] ∨ ∃ t, front = [t] ∧ t.isWord "type" ∧
        ∃ u us, ts = t :: u :: us ∧ (u.kind = .leftBrace ∨ u.kind = .star)) := by
  split
  · next hm =>
    unfold marksTypeExport at hm
    split at hm
    · next t u us =>
      simp only [Bool.and_eq_true, Bool.or_eq_true, decide_eq_true_eq] at hm
      exact ⟨[t], rfl, .inr ⟨t, rfl, hm.1, u, us, rfl, hm.2⟩⟩
    · cases hm
  · exact ⟨[], rfl, .inl rfl⟩

theorem keywordsOnly_of_readExport (h : readExport last word ts = .ok (some (s, rest)))
    (hword : word.kind = .exportWord) (hn : openBehind base ts = some []) :
    KeywordsOnly base ts rest (Takes last word) := by
  unfold readExport at h
  obtain ⟨front, hfront, hcases⟩ := exists_of_exportFront ts
  have hfrontWord : ∀ t ∈ front, t.isKeyword = false ∧ t.isPlain := by
    intro t ht
    rcases hcases with rfl | ⟨u, rfl, hu, -⟩
    · cases ht
    · rw [List.mem_singleton.1 ht]
      exact ⟨isKeyword_of_isWord hu, isPlain_of_isWord hu⟩
  have hplain : ∀ t ∈ front, t.isPlain := fun t ht => (hfrontWord t ht).2
  have hstar : front = [] ∨ ∃ t, front = [t] ∧ t.isWord "type" :=
    hcases.imp id fun ⟨t, ht, hw, _⟩ => ⟨t, ht, hw⟩
  simp only at h
  split at h
  · next t us hus =>
    rw [hfront, hus] at hn ⊢
    rw [openBehind_append_of_eq (openBehind_plain hplain base)] at hn
    refine .append (quiet_of_forall fun t ht => (hfrontWord t ht).1) fun st hst => ?_
    rw [openBehind_plain hplain] at hst
    cases hst
    split at h
    · next ht =>
      rw [openBehind_cons_of_plain (isPlain_of_kind ht (by decide))] at hn
      refine .cons_plain (isKeyword_of_kind ht (by decide)) (isPlain_of_kind ht (by decide))
        ((keywordsOnly_of_readExportAll h hn).mono ?_)
      rintro before u after - ⟨as, rfl, has⟩
      exact .inl (.exported hword hstar ht has)
    · split at h
      · next ht =>
        have hopener : t.kind.isOpener := by rw [ht]; rfl
        have hcloser : t.kind.closer = .rightBrace := by rw [ht]; rfl
        rw [openBehind_cons, openedBy_opener hopener, Option.bind_some, hcloser] at hn
        refine .cons (fun hk => ?_) fun st hst => ?_
        · rw [isKeyword_of_kind ht (by decide)] at hk
          cases hk
        · rw [openedBy_opener hopener, hcloser] at hst
          cases hst
          exact keywordsOnly_of_readExportNames h hn
      · next hnostar hnobrace =>
        -- A `type` in front of anything else is the first word of a declaration.
        obtain rfl : front = [] := by
          rcases hcases with hnil | ⟨v, rfl, -, u, vs, hts, hu⟩
          · exact hnil
          · rw [hus, hts] at hfront
            obtain ⟨-, hfront⟩ := List.cons.inj hfront
            obtain ⟨rfl, -⟩ := List.cons.inj hfront
            exact absurd hu (by simp [hnostar, hnobrace])
        split at h
        · next ht =>
          cases h
          exact .cons_plain (isKeyword_of_isWord ht) (isPlain_of_isWord ht) (.refl base _)
        · split at h
          · cases h
          · obtain ⟨r, hd, h⟩ := Except.map_eq_ok_iff.1 h
            obtain ⟨⟨d, rest'⟩, rfl, h⟩ := Option.map_eq_some_iff.1 h
            cases h
            exact keywordsOnly_of_readDeclaration hd hword hn
  · cases h

/-- Outside brackets a statement takes a keyword with it only where it takes a name, or where a
declarator has not ended. -/
theorem takes_of_readStatement (h : readStatement last word ts = .ok (some (s, rest)))
    (hn : openBehind base ts = some []) : KeywordsOnly base ts rest (Takes last word) := by
  unfold readStatement at h
  split at h
  · next hword => exact (keywordsOnly_of_readImport h hword hn).mono fun _ _ _ _ h => .inl h
  · split at h
    · next hword => exact keywordsOnly_of_readExport h hword hn
    · cases h

end Export

end Statement

end ScriptBundle
