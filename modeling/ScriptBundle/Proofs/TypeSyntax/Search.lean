import ScriptBundle.Proofs.Lowering.Edits
import ScriptBundle.TypeSyntax

/-!
# The search for type syntax

The search goes through the tokens that stay in a module, with a context that each of them changes. It
passes over a stretch of tokens in which nothing is type syntax, and then goes on behind it in the context
that the stretch leaves; in any other stretch it stops.

* `findOutside`: the search, with the tokens that go given by a condition;
* `contextBehind`, `Quiet`: what a stretch of tokens does to the context, and that nothing in it is type
  syntax;
* `findOutside_append_of_quiet`, `exists_findOutside_append`: a stretch passed over, and one that is not;
* `findTypeSyntax_eq_findOutside`: the search of a module.
-/

namespace ScriptBundle.TypeSyntax

/-- The first token of type syntax in the context `c`, outside the tokens that are `gone`. -/
def findOutside (last : Token) (gone : Token → Bool) (c : Context) : List Token → Option Token
  | [] => none
  | t :: ts =>
    if gone t then findOutside last gone c ts
    else if isTypeSyntax c t (ts.headD last) (ts.tail.headD last) then some t
    else findOutside last gone (c.after t (ts.headD last)) ts

/-- The context behind the first of two lists of tokens. -/
def contextBehind (last : Token) (gone : Token → Bool) (c : Context) (ts us : List Token) : Context :=
  match ts with
  | [] => c
  | t :: ts =>
    if gone t then contextBehind last gone c ts us
    else contextBehind last gone (c.after t ((ts ++ us).headD last)) ts us

/-- No token of the first of two lists is type syntax. -/
def Quiet (last : Token) (gone : Token → Bool) (c : Context) (ts us : List Token) : Prop :=
  match ts with
  | [] => True
  | t :: ts =>
    if gone t then Quiet last gone c ts us
    else isTypeSyntax c t ((ts ++ us).headD last) ((ts ++ us).tail.headD last) = false ∧
      Quiet last gone (c.after t ((ts ++ us).headD last)) ts us

section

variable {last t : Token} {gone gone' : Token → Bool} {c : Context} {ts us vs : List Token}

theorem contextBehind_append (c : Context) (ts us vs : List Token) :
    contextBehind last gone c (ts ++ us) vs =
      contextBehind last gone (contextBehind last gone c ts (us ++ vs)) us vs := by
  induction ts generalizing c with
  | nil => rfl
  | cons t ts ih =>
    simp only [List.cons_append, contextBehind, ih, List.append_assoc]
    split <;> rfl

theorem quiet_append_iff : Quiet last gone c (ts ++ us) vs ↔
    Quiet last gone c ts (us ++ vs) ∧ Quiet last gone (contextBehind last gone c ts (us ++ vs)) us vs := by
  induction ts generalizing c with
  | nil => simp [Quiet, contextBehind]
  | cons t ts ih =>
    simp only [List.cons_append, Quiet, contextBehind, List.append_assoc]
    split
    · exact ih
    · rw [ih, and_assoc]

/-- A stretch without type syntax is passed over. -/
theorem findOutside_append_of_quiet (h : Quiet last gone c ts us) :
    findOutside last gone c (ts ++ us) = findOutside last gone (contextBehind last gone c ts us) us := by
  induction ts generalizing c with
  | nil => rfl
  | cons t ts ih =>
    simp only [Quiet] at h
    simp only [List.cons_append, findOutside, contextBehind]
    split
    · next hgone => exact ih (by simpa [hgone] using h)
    · next hgone =>
      rw [if_neg hgone] at h
      rw [h.1]
      exact ih h.2

/-- In any other stretch the search stops. -/
theorem exists_findOutside_append (h : ¬ Quiet last gone c ts us) :
    ∃ t ∈ ts, findOutside last gone c (ts ++ us) = some t := by
  induction ts generalizing c with
  | nil => exact absurd trivial h
  | cons t ts ih =>
    simp only [Quiet] at h
    simp only [List.cons_append, findOutside]
    split
    · next hgone =>
      obtain ⟨u, hu, hfind⟩ := ih (by simpa [hgone] using h)
      exact ⟨u, List.mem_cons_of_mem t hu, hfind⟩
    · next hgone =>
      rw [if_neg hgone] at h
      split
      · exact ⟨t, List.mem_cons_self, rfl⟩
      · next hplain =>
        obtain ⟨u, hu, hfind⟩ := ih fun hrest => h ⟨by simpa using hplain, hrest⟩
        exact ⟨u, List.mem_cons_of_mem t hu, hfind⟩

theorem findOutside_congr (h : ∀ t ∈ ts, gone t = gone' t) (c : Context) :
    findOutside last gone c ts = findOutside last gone' c ts := by
  induction ts generalizing c with
  | nil => rfl
  | cons t ts ih =>
    rw [List.forall_mem_cons] at h
    simp only [findOutside, h.1, ih h.2]

/-- What the search finds is one of the tokens. -/
theorem mem_of_findOutside (h : findOutside last gone c ts = some t) : t ∈ ts := by
  by_cases hquiet : Quiet last gone c ts []
  · have := findOutside_append_of_quiet hquiet
    rw [List.append_nil, h] at this
    cases this
  · obtain ⟨u, hu, hfind⟩ := exists_findOutside_append hquiet
    rw [List.append_nil, h] at hfind
    cases hfind
    exact hu

/-! ### One token -/

theorem prev_after (c : Context) (t next : Token) : (c.after t next).prev = some t := by
  unfold Context.after
  split
  · rfl
  · split
    · split <;> rfl
    · split
      · rfl
      · split
        · rfl
        · split <;> rfl

theorem beforePrev_after (c : Context) (t next : Token) : (c.after t next).beforePrev = c.prev := by
  unfold Context.after
  split
  · rfl
  · split
    · split <;> rfl
    · split
      · rfl
      · split
        · rfl
        · split <;> rfl

theorem contextBehind_singleton (h : gone t = false) (c : Context) (us : List Token) :
    contextBehind last gone c [t] us = c.after t (us.headD last) := by
  simp [contextBehind, h]

theorem quiet_singleton_iff (h : gone t = false) : Quiet last gone c [t] us ↔
    isTypeSyntax c t (us.headD last) (us.tail.headD last) = false := by
  simp [Quiet, h]

/-- The last token that stays is the one before the next. -/
theorem prev_contextBehind (last : Token) (h : ∀ t ∈ ts, gone t = false) (c : Context) (us : List Token) :
    (contextBehind last gone c ts us).prev = ts.getLast?.or c.prev := by
  rcases List.eq_nil_or_concat' ts with rfl | ⟨front, t, rfl⟩
  · rfl
  · rw [contextBehind_append, contextBehind_singleton (h t (by simp)), prev_after]
    simp

/-- And the token before that one is the next to last that stays. -/
theorem beforePrev_contextBehind (last : Token) (ts : List Token) (h : ∀ u ∈ ts ++ [t], gone u = false)
    (c : Context) (us : List Token) :
    (contextBehind last gone c (ts ++ [t]) us).beforePrev = ts.getLast?.or c.prev := by
  rw [List.forall_mem_append, List.forall_mem_singleton] at h
  rw [contextBehind_append, contextBehind_singleton h.2, beforePrev_after, prev_contextBehind last h.1]

end

/-! ### The statements that go -/

section Gone

variable {last : Token} {c : Context} {ts : List Token} {removed : List Statement}

/-- The token belongs to one of the statements. -/
def covers (removed : List Statement) (t : Token) : Bool :=
  removed.any fun s => s.start.offset ≤ t.start.offset && t.start.offset < s.stop

/-- The statements follow each other, and none is empty. -/
def Ordered (removed : List Statement) : Prop :=
  removed.Pairwise (fun s s' => s.stop ≤ s'.start.offset) ∧ ∀ s ∈ removed, s.start.offset < s.stop

theorem Ordered.sublist {removed' : List Statement} (h : Ordered removed) (hs : removed'.Sublist removed) :
    Ordered removed' :=
  ⟨h.1.sublist hs, fun s hs' => h.2 s (hs.subset hs')⟩

/-- A statement that ends in front of a token covers none that follows. -/
theorem covers_dropWhile {t u : Token} (h : t.start.offset ≤ u.start.offset) :
    covers (removed.dropWhile (·.stop ≤ t.start.offset)) u = covers removed u := by
  induction removed with
  | nil => rfl
  | cons s removed ih =>
    rw [List.dropWhile_cons]
    split
    · next hs =>
      rw [ih]
      have hstop : ¬ u.start.offset < s.stop := by
        simp only [decide_eq_true_eq] at hs
        omega
      simp [covers, hstop]
    · rfl

/-- The first statement that does not end in front of a token covers it if any does. -/
theorem covers_iff_head (h : Ordered removed) (t : Token) :
    (removed.dropWhile (·.stop ≤ t.start.offset)).head?.any (·.start.offset ≤ t.start.offset) =
      covers removed t := by
  rw [← covers_dropWhile (Nat.le_refl t.start.offset)]
  have hordered := h.sublist (List.dropWhile_sublist (·.stop ≤ t.start.offset))
  have hhead := List.head?_dropWhile_not (·.stop ≤ t.start.offset) removed
  generalize removed.dropWhile (·.stop ≤ t.start.offset) = rest at hordered hhead ⊢
  cases rest with
  | nil => rfl
  | cons s rest =>
    simp only [List.head?_cons, decide_eq_false_iff_not, Nat.not_le] at hhead
    have hbehind := (List.pairwise_cons.1 hordered.1).1
    have hstart := hordered.2 s List.mem_cons_self
    rw [Bool.eq_iff_iff]
    simp only [covers, List.head?_cons, Option.any_some, List.any_cons, Bool.or_eq_true,
      Bool.and_eq_true, decide_eq_true_eq, List.any_eq_true]
    constructor
    · intro hle
      exact .inl ⟨hle, hhead⟩
    · rintro (⟨hle, -⟩ | ⟨s', hs', hle, -⟩)
      · exact hle
      · have := hbehind s' hs'
        omega

theorem findFrom_eq_findOutside (h : Ordered removed)
    (hts : ts.Pairwise fun t u => t.start.offset ≤ u.start.offset) (c : Context) :
    findFrom last removed c ts = findOutside last (covers removed) c ts := by
  induction ts generalizing removed c with
  | nil => rfl
  | cons t ts ih =>
    obtain ⟨hhead, htail⟩ := List.pairwise_cons.1 hts
    have hrest : ∀ c, findFrom last (removed.dropWhile (·.stop ≤ t.start.offset)) c ts =
        findOutside last (covers removed) c ts := by
      intro c
      rw [ih (h.sublist (List.dropWhile_sublist _)) htail]
      exact findOutside_congr (fun u hu => covers_dropWhile (hhead u hu)) c
    simp only [findFrom, findOutside, covers_iff_head h, hrest]

/-- The statements of a module that go as a whole follow each other. -/
theorem ordered_of_scanSource {source : Text} {ts : TokenStream} {ss : List Statement}
    (h : scanSource source = .ok (ts, ss)) : Ordered (ss.filter (·.isWhole)) := by
  -- Such a statement is replaced by one edit, which has its place.
  have hedit : ∀ s ∈ ss, s.isWhole → ∃ replacement, s.edits (Lowering.hideHashbang source) =
      [⟨s.start.offset, s.stop, replacement⟩] := fun s _ hwhole => ⟨_, Lowering.edits_of_isWhole _ hwhole⟩
  constructor
  · have hpair := (List.pairwise_flatMap.1 (Lowering.pairwise_sourceEdits h)).2
    refine List.pairwise_filter.2 (hpair.imp_of_mem fun {s s'} hs hs' hdisjoint hwhole hwhole' => ?_)
    obtain ⟨r, hr⟩ := hedit s hs hwhole
    obtain ⟨r', hr'⟩ := hedit s' hs' hwhole'
    rw [hr, hr'] at hdisjoint
    exact hdisjoint _ (List.mem_singleton.2 rfl) _ (List.mem_singleton.2 rfl)
  · intro s hs
    obtain ⟨hs, hwhole⟩ := List.mem_filter.1 hs
    obtain ⟨r, hr⟩ := hedit s hs hwhole
    exact (Lowering.bounds_of_mem_sourceEdits h
      (List.mem_flatMap.2 ⟨s, hs, hr ▸ List.mem_singleton.2 rfl⟩)).1

/-- The search of a module. -/
theorem findTypeSyntax_eq_findOutside {source : Text} {ts : TokenStream} {ss : List Statement}
    (h : scanSource source = .ok (ts, ss)) :
    findTypeSyntax ts ss = findOutside ts.last (covers (ss.filter (·.isWhole))) .initial ts.tokens := by
  refine findFrom_eq_findOutside (ordered_of_scanSource h) ?_ _
  exact (start_lt_of_tokenize (Lowering.tokenize_of_scanSource h).1).imp Nat.le_of_lt

end Gone

end ScriptBundle.TypeSyntax
