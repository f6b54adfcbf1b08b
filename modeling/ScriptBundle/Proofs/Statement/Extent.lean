import Mathlib.Data.List.Basic
import ScriptBundle.Proofs.Token.Nesting
import ScriptBundle.Statement.Pattern

/-!
# How far groups, expressions and patterns go

The scanner counts brackets, and each of its readers counts for itself. In a source whose brackets are
nested the counts agree with the brackets that are open: what is dropped as an expression or as a group
is nested, and a pattern that starts with a bracket ends inside it.
-/

namespace ScriptBundle.Statement

variable {st st' base : List TokenKind} {t : Token} {ts : List Token}

/-- The count of an expression that is no type is the height of the stack. -/
theorem length_openedBy (h : openedBy st t = some st') :
    (st'.length : Int) = st.length + nesting false t := by
  rcases token_cases t with ht | ht | ht
  · rw [openedBy_opener ht] at h
    cases h
    simp [nesting, ht]
  · rw [openedBy_closer ht] at h
    subst h
    simp only [nesting, ht, not_isOpener_of_isCloser ht, List.length_cons, Bool.false_and, Bool.or_false,
      Bool.false_eq_true, if_false, if_true]
    omega
  · rw [openedBy_plain ht] at h
    cases h
    simp only [Token.isPlain, Bool.and_eq_true, Bool.not_eq_true'] at ht
    simp [nesting, ht.1, ht.2]

/-- In a nested source an expression ends with the brackets closed that it opened. -/
theorem exists_of_dropExpression (stop : TokenKind → Bool) (prev : Token) {depth : Int}
    (hdepth : depth = st.length) (hn : openBehind (st ++ base) ts = some []) :
    ∃ run, ts = run ++ dropExpression stop false prev depth ts ∧ openBehind st run = some [] := by
  induction ts generalizing st prev depth with
  | nil =>
    obtain ⟨rfl, -⟩ := List.append_eq_nil_iff.1 (Option.some.inj hn)
    exact ⟨[], rfl, rfl⟩
  | cons t ts ih =>
    unfold dropExpression
    split
    · next hend =>
      simp only [Bool.and_eq_true, decide_eq_true_eq] at hend
      obtain rfl : st = [] := List.length_eq_zero_iff.1 (by omega)
      exact ⟨[], rfl, rfl⟩
    · next hend =>
      obtain ⟨next, hnext, hrest⟩ := exists_of_openBehind_cons hn
      have htop : ∃ st', openedBy st t = some st' ∧ next = st' ++ base := by
        rcases List.eq_nil_or_concat' st with rfl | ⟨_, _, rfl⟩
        · -- A closing bracket outside every bracket of the expression ends it.
          rcases token_cases t with ht | ht | ht
          · rw [openedBy_opener ht] at hnext ⊢
            cases hnext
            exact ⟨_, rfl, rfl⟩
          · simp [hdepth, endsExpression, ht] at hend
          · rw [openedBy_plain ht] at hnext ⊢
            cases hnext
            exact ⟨_, rfl, rfl⟩
        · exact openedBy_of_append (by simp) hnext
      obtain ⟨st', hst', rfl⟩ := htop
      have hdepth' : depth + nesting false t = st'.length := by rw [length_openedBy hst', hdepth]
      obtain ⟨run, hrun, hclosed⟩ := ih t hdepth' hrest
      refine ⟨t :: run, congrArg (t :: ·) hrun, ?_⟩
      rw [openBehind_cons, hst', Option.bind_some, hclosed]

/-- In a nested source a group ends with the bracket that closes the innermost of those that were open
when it started to be counted. -/
theorem exists_of_dropGroup {depth : Nat} {close : Token} {rest : List Token} (st : List TokenKind)
    (h : dropGroup depth ts = some (close, rest)) (hne : st ≠ []) (hdepth : st.length = depth)
    (hn : openBehind (st ++ base) ts = some []) :
    ∃ run, ts = run ++ rest ∧ openBehind st run = some [] ∧ Inside st run := by
  induction ts generalizing st depth with
  | nil => cases h
  | cons t ts ih =>
    obtain ⟨next, hnext, hrest⟩ := exists_of_openBehind_cons hn
    obtain ⟨st', hst', rfl⟩ := openedBy_of_append hne hnext
    have hlength := length_openedBy hst'
    have step : ∀ {depth'}, dropGroup depth' ts = some (close, rest) → st' ≠ [] →
        st'.length = depth' → ∃ run, t :: ts = run ++ rest ∧ openBehind st run = some [] ∧
          Inside st run := by
      intro depth' h hne' hdepth'
      obtain ⟨run, hrun, hclosed, hin⟩ := ih st' h hne' hdepth' hrest
      refine ⟨t :: run, congrArg (t :: ·) hrun, ?_, hin.cons hne hst'⟩
      rw [openBehind_cons, hst', Option.bind_some, hclosed]
    unfold dropGroup at h
    split at h
    · next ht =>
      rw [openedBy_opener ht] at hst'
      cases hst'
      exact step h (List.cons_ne_nil _ _) (by simp [hdepth])
    · split at h
      · next ht =>
        obtain rfl := (openedBy_closer ht).1 hst'
        simp only [List.length_cons] at hdepth
        split at h
        · cases h
          obtain rfl : st' = [] := List.length_eq_zero_iff.1 (by omega)
          refine ⟨[close], rfl, ?_, (Inside.nil []).cons hne hst'⟩
          rw [openBehind_cons, hst']
          rfl
        · exact step h (List.length_pos_iff.1 (by omega)) (by omega)
      · next ho hc =>
        have ht : t.isPlain := by simp [Token.isPlain, ho, hc]
        rw [openedBy_plain ht] at hst'
        cases hst'
        exact step h hne hdepth

/-- The default value of an element, if the pattern that it stands in is open, is nested. -/
theorem exists_of_dropDefault (groups : List Token) (hn : openBehind base ts = some []) :
    ∃ run, ts = run ++ dropDefault groups ts ∧ Nested run := by
  unfold dropDefault
  split
  · next g _ t us =>
    split
    · next ht =>
      have hplain := isPlain_of_kind ht (by decide)
      rw [openBehind_cons_of_plain hplain] at hn
      obtain ⟨run, hrun, hnested⟩ := exists_of_dropExpression
        (fun k => k = .comma || k = closing g) t (show (0 : Int) = ([] : List TokenKind).length from rfl) hn
      refine ⟨t :: run, congrArg (t :: ·) hrun, ?_⟩
      rwa [Nested, openBehind_cons_of_plain hplain]
    · exact ⟨[], rfl, rfl⟩
  · exact ⟨[], rfl, rfl⟩

/-- A token other than the bracket that closes the innermost open pattern leaves all of them open. -/
theorem sublist_openedBy {k : TokenKind} {ks : List TokenKind} (hsub : (k :: ks).Sublist st)
    (ht : t.kind ≠ k) (hst : openedBy st t = some st') : (k :: ks).Sublist st' := by
  rcases token_cases t with h | h | h
  · rw [openedBy_opener h] at hst
    cases hst
    exact hsub.cons _
  · obtain rfl := (openedBy_closer h).1 hst
    cases hsub with
    | cons _ hsub => exact hsub
    | cons_cons _ hsub => exact absurd rfl ht
  · rw [openedBy_plain h] at hst
    cases hst
    exact hsub

/-- The key of a property leaves the open patterns open, whatever its token is. -/
theorem exists_of_key {key : Token} {rest : List Token} {k : TokenKind} {ks : List TokenKind}
    (h : afterKey? key ts = some rest) (hkey : key.kind ≠ k) (hsub : (k :: ks).Sublist st)
    (hn : openBehind (st ++ base) (key :: ts) = some []) :
    ∃ run, key :: ts = run ++ rest ∧ ∃ st', (k :: ks).Sublist st' ∧
      openBehind (st ++ base) run = some (st' ++ base) ∧
      ∀ more, Inside st' more → Inside st (run ++ more) := by
  have hne : st ≠ [] := fun hst => by rw [hst] at hsub; cases hsub
  unfold afterKey? at h
  split at h
  · next hbracket =>
    obtain ⟨⟨close, rest'⟩, hg, rfl⟩ := Option.map_eq_some_iff.1 h
    have hopener : key.kind.isOpener := by rw [hbracket]; rfl
    rw [openBehind_cons, openedBy_opener hopener, Option.bind_some] at hn
    obtain ⟨run, hrun, hclosed, -⟩ := exists_of_dropGroup [key.kind.closer] hg
      (List.cons_ne_nil _ _) rfl hn
    have hnested : Nested (key :: run) := by
      rw [Nested, openBehind_cons, openedBy_opener hopener, Option.bind_some, hclosed]
    exact ⟨key :: run, congrArg (key :: ·) hrun, st, hsub, hnested.openBehind _,
      fun more hmore => hmore.nested_append hne hnested⟩
  · cases h
    obtain ⟨next, hnext, -⟩ := exists_of_openBehind_cons hn
    obtain ⟨st', hst', rfl⟩ := openedBy_of_append hne hnext
    refine ⟨[key], rfl, st', sublist_openedBy hsub hkey hst', ?_, fun more hmore => hmore.cons hne hst'⟩
    rw [openBehind_cons, hnext]
    rfl

/-- The walk over a pattern stays inside the brackets of its open patterns, which are among those that
are open in the source. -/
theorem exists_of_walkPattern {last : Token} {place : Place} {groups : List Token} {n : Names}
    (st : List TokenKind) (h : walkPattern last place groups ts = .ok n) (hplace : place = .target → groups ≠ [])
    (hsub : (groups.map closing).Sublist st) (hn : openBehind (st ++ base) ts = some []) :
    ∃ run, ts = run ++ n.2 ∧ Inside st run := by
  have nonempty : ∀ {k : TokenKind} {ks st : List TokenKind}, (k :: ks).Sublist st → st ≠ [] :=
    fun hsub hst => by rw [hst] at hsub; cases hsub
  fun_induction walkPattern last place groups ts generalizing n st with
  | case1 => cases h
  | case2 groups t ts ht ih =>
    obtain ⟨m, hm, rfl⟩ := Except.map_eq_ok_iff.1 h
    obtain ⟨g, gs, rfl⟩ := List.exists_cons_of_ne_nil (hplace rfl)
    rw [openBehind_cons_of_plain (isPlain_of_kind ht (by decide))] at hn
    obtain ⟨value, hvalue, hnested⟩ := exists_of_dropDefault (g :: gs) hn
    rw [hvalue, openBehind_append_of_eq (hnested.openBehind _)] at hn
    obtain ⟨run, hrun, hin⟩ := ih st hm (by simp) hsub hn
    refine ⟨t :: (value ++ run), ?_, ?_⟩
    · rw [List.cons_append, List.append_assoc]
      exact congrArg (t :: ·) (hvalue.trans (congrArg (value ++ ·) hrun))
    · exact (hin.nested_append (nonempty hsub) hnested).plain (nonempty hsub) (isPlain_of_kind ht (by decide))
  | case3 groups t ts _ ht ih =>
    have hopener : t.kind.isOpener ∧ closing t = t.kind.closer := by
      simp only [Bool.or_eq_true, decide_eq_true_eq] at ht
      rcases ht with ht | ht <;> simp [closing, ht, TokenKind.isOpener, TokenKind.closer]
    obtain ⟨g, gs, rfl⟩ := List.exists_cons_of_ne_nil (hplace rfl)
    rw [openBehind_cons, openedBy_opener hopener.1, Option.bind_some] at hn
    obtain ⟨run, hrun, hin⟩ := ih _ h (by simp)
      (show ((t :: g :: gs).map closing).Sublist (t.kind.closer :: st) from
        hopener.2 ▸ hsub.cons_cons _) hn
    exact ⟨t :: run, congrArg (t :: ·) hrun,
      hin.cons (nonempty hsub) (openedBy_opener hopener.1 st)⟩
  | case4 => cases h
  | case5 ts =>
    cases h
    exact ⟨[], rfl, .nil st⟩
  | case6 => cases h
  | case7 g gs t ts ht ih =>
    obtain ⟨next, hnext, hrest⟩ := exists_of_openBehind_cons hn
    obtain ⟨st', hst', rfl⟩ := openedBy_of_append (nonempty hsub) hnext
    have hcloser : t.kind.isCloser := by
      rw [ht]
      unfold closing
      split <;> rfl
    have hsub' : (gs.map closing).Sublist st' := by
      obtain rfl := (openedBy_closer hcloser).1 hst'
      rw [List.map_cons, ← ht] at hsub
      exact List.cons_sublist_cons.1 hsub
    cases gs with
    | nil =>
      -- The outermost pattern is closed, so nothing more is read.
      simp only [dropDefault, walkPattern] at h
      cases h
      exact ⟨[t], rfl, (Inside.nil st').cons (nonempty hsub) hst'⟩
    | cons g' gs =>
      obtain ⟨value, hvalue, hnested⟩ := exists_of_dropDefault (g' :: gs) hrest
      rw [hvalue, openBehind_append_of_eq (hnested.openBehind _)] at hrest
      obtain ⟨run, hrun, hin⟩ := ih st' h (by simp) hsub' hrest
      refine ⟨t :: (value ++ run), ?_, ?_⟩
      · rw [List.cons_append, List.append_assoc]
        exact congrArg (t :: ·) (hvalue.trans (congrArg (value ++ ·) hrun))
      · exact (hin.nested_append (nonempty hsub') hnested).cons (nonempty hsub) hst'
  | case8 g gs t ts _ ht ih =>
    rw [openBehind_cons_of_plain (isPlain_of_kind ht (by decide))] at hn
    obtain ⟨run, hrun, hin⟩ := ih st h (by simp) hsub hn
    exact ⟨t :: run, congrArg (t :: ·) hrun, hin.plain (nonempty hsub) (isPlain_of_kind ht (by decide))⟩
  | case9 g gs t ts _ _ ht ih =>
    have hplain := isPlain_of_kind (kind_of_isOperator ht) (by decide)
    rw [openBehind_cons_of_plain hplain] at hn
    obtain ⟨run, hrun, hin⟩ := ih st h (by simp) hsub hn
    exact ⟨t :: run, congrArg (t :: ·) hrun, hin.plain (nonempty hsub) hplain⟩
  | case10 => cases h
  | case11 =>
    obtain ⟨m, hm, rfl⟩ := Except.map_eq_ok_iff.1 h
    simp [walkPattern] at hm
  | case12 g gs t ts hclose _ _ _ u us hk hu ih =>
    obtain ⟨key, hkey, st', hsub', hst', hin⟩ := exists_of_key hk hclose hsub hn
    rw [hkey, openBehind_append_of_eq hst', openBehind_cons_of_plain (isPlain_of_kind hu (by decide))] at hn
    obtain ⟨run, hrun, hrunin⟩ := ih st' h (by simp) hsub' hn
    refine ⟨key ++ u :: run, ?_, ?_⟩
    · rw [hkey, List.append_assoc, List.cons_append, ← hrun]
    · exact hin _ (hrunin.plain (nonempty hsub') (isPlain_of_kind hu (by decide)))
  | case13 g gs t ts hclose _ _ _ u us hk _ ih =>
    obtain ⟨m, hm, rfl⟩ := Except.map_eq_ok_iff.1 h
    obtain ⟨key, hkey, st', hsub', hst', hin⟩ := exists_of_key hk hclose hsub hn
    rw [hkey, openBehind_append_of_eq hst'] at hn
    obtain ⟨value, hvalue, hnested⟩ := exists_of_dropDefault (g :: gs) hn
    rw [hvalue, openBehind_append_of_eq (hnested.openBehind _)] at hn
    obtain ⟨run, hrun, hrunin⟩ := ih st' hm (by simp) hsub' hn
    refine ⟨key ++ (value ++ run), ?_, ?_⟩
    · rw [hkey, hvalue, hrun, List.append_assoc, List.append_assoc]
      rfl
    · exact hin _ (hrunin.nested_append (nonempty hsub') hnested)
  | case14 g gs t ts _ _ _ _ ih => exact ih st h (by simp) hsub hn

end ScriptBundle.Statement
