import ScriptBundle.Proofs.Statement.Silence
import ScriptBundle.Proofs.Statement.Span

/-!
# More tokens behind

What a reader takes is closed at its end: by a bracket, by a comma or a semicolon, or by the token that
it looks at and leaves. So it takes the same when more tokens follow, if the tokens that it got are
`Finished`: their brackets are closed, and the last one is a semicolon. Only the annotation of a variable
can run on, since the comparison in `a < b` is an open bracket there.

* `Finished`: tokens behind which a statement is over;
* `walkPattern_append`, `readElements_append`: readers that are closed by a bracket;
* `annotations`: the tokens that are taken for annotations, and `declaratorNames_append`;
* `readStatement_append`, `scanFrom_append`: one statement, and all of them;
* `scanFrom_block`: the scanner passes over a group.
-/

namespace ScriptBundle

/-- The angle brackets, which count as brackets in a type. -/
def Token.isAngle (t : Token) : Bool := t.text = "<" || t.text = ">" || t.text = ">>"

namespace Statement

/-- Behind some open brackets, all of them are closed, and the last token is a semicolon. -/
def Finished (ts : List Token) : Prop :=
  (∃ st, openBehind st ts = some []) ∧ ∀ t, ts.getLast? = some t → t.kind = .semicolon

section

variable {last last' : Token} {ts us rest more : List Token} {t : Token}

theorem Finished.of_suffix (h : Finished ts) (hus : us <:+ ts) : Finished us := by
  obtain ⟨front, rfl⟩ := hus
  obtain ⟨⟨st, hst⟩, hlast⟩ := h
  obtain ⟨mid, -, hmid⟩ := exists_of_openBehind_append hst
  refine ⟨⟨mid, hmid⟩, fun t ht => hlast t ?_⟩
  rw [List.getLast?_append, ht]
  rfl

theorem Finished.tail (h : Finished (t :: ts)) : Finished ts := h.of_suffix (List.suffix_cons t ts)

/-- Behind any other token than a semicolon there is one. -/
theorem Finished.ne_nil (h : Finished (t :: ts)) (ht : t.kind ≠ .semicolon) : ts ≠ [] := by
  rintro rfl
  exact ht (h.2 t rfl)

/-- The last token of what is left is the last one of all. -/
theorem Finished.ne_nil_of_suffix (h : Finished ts) (hts : t :: us <:+ ts) (ht : t.kind ≠ .semicolon) :
    us ≠ [] :=
  (h.of_suffix hts).ne_nil ht

/-! ### What is closed by a bracket -/

theorem dropGroup_append {depth : Nat} (h : dropGroup depth ts = some (t, rest)) (more : List Token) :
    dropGroup depth (ts ++ more) = some (t, rest ++ more) := by
  induction ts generalizing depth with
  | nil => cases h
  | cons u us ih =>
    rw [List.cons_append]
    unfold dropGroup at h ⊢
    split at h
    · next ho =>
      rw [if_pos ho]
      exact ih h
    · next ho =>
      rw [if_neg ho]
      split at h
      · next hc =>
        rw [if_pos hc]
        split at h
        · next hd =>
          cases h
          rw [if_pos hd]
        · next hd =>
          rw [if_neg hd]
          exact ih h
      · next hc =>
        rw [if_neg hc]
        exact ih h

theorem dropExpression_append {stop : TokenKind → Bool} {inType : Bool} {prev : Token} {depth : Int}
    (h : dropExpression stop inType prev depth ts ≠ []) (more : List Token) :
    dropExpression stop inType prev depth (ts ++ more) =
      dropExpression stop inType prev depth ts ++ more := by
  induction ts generalizing prev depth with
  | nil => exact absurd rfl h
  | cons t ts ih =>
    rw [List.cons_append]
    unfold dropExpression at h ⊢
    split
    · rfl
    · next hend =>
      rw [if_neg hend] at h
      exact ih h

theorem dropDefault_append {groups : List Token} (h : groups ≠ [] → dropDefault groups ts ≠ [])
    (more : List Token) : dropDefault groups (ts ++ more) = dropDefault groups ts ++ more := by
  cases groups with
  | nil => rfl
  | cons g gs =>
    replace h := h (List.cons_ne_nil g gs)
    cases ts with
    | nil => exact absurd rfl h
    | cons t ts =>
      unfold dropDefault at h ⊢
      simp only [List.cons_append] at h ⊢
      split
      · next ht =>
        rw [if_pos ht] at h
        exact dropExpression_append h more
      · rfl

theorem afterKey?_append (h : afterKey? t ts = some rest) (more : List Token) :
    afterKey? t (ts ++ more) = some (rest ++ more) := by
  unfold afterKey? at h ⊢
  split at h
  · next ht =>
    obtain ⟨⟨close, rest'⟩, hg, rfl⟩ := Option.map_eq_some_iff.1 h
    rw [if_pos ht, dropGroup_append hg]
    rfl
  · next ht =>
    cases h
    rw [if_neg ht]

/-- An open pattern goes on. -/
theorem ne_nil_of_walkPattern {groups : List Token} {n : Names}
    (h : walkPattern last .element groups ts = .ok n) (hgroups : groups ≠ []) : ts ≠ [] := by
  rintro rfl
  obtain ⟨g, gs, rfl⟩ := List.exists_cons_of_ne_nil hgroups
  rw [walkPattern] at h
  cases h

theorem walkPattern_append {place : Place} {groups : List Token} {n : Names}
    (h : walkPattern last place groups ts = .ok n) (more : List Token) :
    walkPattern last' place groups (ts ++ more) = .ok (n.1, n.2 ++ more) := by
  fun_induction walkPattern last place groups ts generalizing n with
  | case1 => cases h
  | case2 groups t ts ht ih =>
    obtain ⟨m, hm, rfl⟩ := Except.map_eq_ok_iff.1 h
    rw [List.cons_append, walkPattern, if_pos ht, dropDefault_append (ne_nil_of_walkPattern hm), ih hm]
    rfl
  | case3 groups t ts ht hb ih =>
    rw [List.cons_append, walkPattern, if_neg ht, if_pos hb]
    exact ih h
  | case4 => cases h
  | case5 ts =>
    cases h
    rw [walkPattern]
  | case6 => cases h
  | case7 g gs t ts ht ih =>
    rw [List.cons_append, walkPattern_element, if_pos ht, dropDefault_append (ne_nil_of_walkPattern h)]
    exact ih h
  | case8 g gs t ts ht hc ih =>
    rw [List.cons_append, walkPattern_element, if_neg ht, if_pos hc]
    exact ih h
  | case9 g gs t ts ht hc ho ih =>
    rw [List.cons_append, walkPattern_element, if_neg ht, if_neg hc, if_pos ho]
    exact ih h
  | case10 => cases h
  | case11 g gs t ts ht hc ho hg hk ih =>
    -- The tokens end here, with brackets still open.
    obtain ⟨m, hm, rfl⟩ := Except.map_eq_ok_iff.1 h
    exact absurd rfl (ne_nil_of_walkPattern hm (List.cons_ne_nil g gs))
  | case12 g gs t ts ht hc ho hg u us hk hu ih =>
    rw [List.cons_append, walkPattern_element, if_neg ht, if_neg hc, if_neg ho, if_pos hg,
      afterKey?_append hk]
    exact (if_pos hu).trans (ih h)
  | case13 g gs t ts ht hc ho hg u us hk hu ih =>
    obtain ⟨m, hm, rfl⟩ := Except.map_eq_ok_iff.1 h
    rw [List.cons_append, walkPattern_element, if_neg ht, if_neg hc, if_neg ho, if_pos hg,
      afterKey?_append hk]
    have hdrop := dropDefault_append (fun _ => ne_nil_of_walkPattern hm (List.cons_ne_nil g gs)) more
    have hwalk := (congrArg (walkPattern last' .element (g :: gs)) hdrop).trans (ih hm)
    exact (if_neg hu).trans (congrArg (Except.map (Names.cons t.text)) hwalk)
  | case14 g gs t ts ht hc ho hg ih =>
    rw [List.cons_append, walkPattern_element, if_neg ht, if_neg hc, if_neg ho, if_neg hg]
    exact ih h

/-- A pattern ends with a name or with a bracket. -/
theorem Finished.ne_nil_of_walkPattern (hf : Finished ts) {place : Place} {groups : List Token} {n : Names}
    (h : walkPattern last place groups ts = .ok n) (hts : place = .element → groups = [] → ts ≠ []) :
    n.2 ≠ [] := by
  fun_induction walkPattern last place groups ts generalizing n with
  | case1 => cases h
  | case2 groups t ts ht ih =>
    obtain ⟨m, hm, rfl⟩ := Except.map_eq_ok_iff.1 h
    change m.2 ≠ []
    refine ih (hf.tail.of_suffix (dropDefault_suffix groups ts)) hm fun _ hg => ?_
    subst hg
    exact hf.ne_nil (by simp [ht])
  | case3 groups t ts ht hb ih => exact ih hf.tail h (fun _ hg => by cases hg)
  | case4 => cases h
  | case5 ts =>
    cases h
    exact hts rfl rfl
  | case6 => cases h
  | case7 g gs t ts ht ih =>
    refine ih (hf.tail.of_suffix (dropDefault_suffix gs ts)) h fun _ hg => ?_
    subst hg
    refine hf.ne_nil ?_
    rw [ht]
    unfold closing
    split <;> simp
  | case8 g gs t ts ht hc ih => exact ih hf.tail h (fun _ hg => by cases hg)
  | case9 g gs t ts ht hc ho ih => exact ih hf.tail h (fun hp => by cases hp)
  | case10 => cases h
  | case11 g gs t ts ht hc ho hg hk ih =>
    obtain ⟨m, hm, rfl⟩ := Except.map_eq_ok_iff.1 h
    simp [walkPattern] at hm
  | case12 g gs t ts ht hc ho hg u us hk hu ih =>
    exact ih ((hf.tail.of_suffix (afterKey?_suffix hk)).tail) h (fun hp => by cases hp)
  | case13 g gs t ts ht hc ho hg u us hk hu ih =>
    obtain ⟨m, hm, rfl⟩ := Except.map_eq_ok_iff.1 h
    change m.2 ≠ []
    exact ih ((hf.tail.of_suffix (afterKey?_suffix hk)).of_suffix (dropDefault_suffix _ _)) hm
      (fun _ hg => by cases hg)
  | case14 g gs t ts ht hc ho hg ih => exact ih hf h (fun hp => by cases hp)

/-! ### Expressions -/

/-- The count of an expression that is no type is the height of the stack. -/
theorem length_openBehind {st st' : List TokenKind} (h : openBehind st ts = some st') :
    (st'.length : Int) = st.length + nestingOf false ts := by
  induction ts generalizing st with
  | nil =>
    cases h
    simp [nestingOf]
  | cons t ts ih =>
    obtain ⟨mid, hmid, h⟩ := exists_of_openBehind_cons h
    have hlength := length_openedBy hmid
    have ih := ih h
    simp only [nestingOf, List.map_cons, List.sum_cons] at ih ⊢
    omega

/-- An expression that ends at a semicolon ends inside finished tokens. -/
theorem Finished.dropExpression_ne_nil (hf : Finished ts) (hts : ts ≠ []) (stop : TokenKind → Bool)
    (hstop : stop .semicolon) (prev : Token) : dropExpression stop false prev 0 ts ≠ [] := by
  intro hnil
  obtain ⟨⟨st, hst⟩, hlast⟩ := hf
  have hzero : (0 : Int) = ([] : List TokenKind).length := rfl
  rw [← List.nil_append st] at hst
  obtain ⟨run, hrun, hclosed⟩ := exists_of_dropExpression stop prev hzero hst
  obtain rfl : ts = run := by rwa [hnil, List.append_nil] at hrun
  obtain ⟨before, t, rfl⟩ := (List.eq_nil_or_concat' ts).resolve_left hts
  have ht : t.kind = .semicolon := hlast t List.getLast?_concat
  -- In front of the semicolon all brackets of the expression are closed, so it ends there.
  obtain ⟨mid, hmid, hlast⟩ := exists_of_openBehind_append hclosed
  rw [openBehind_cons_of_plain (isPlain_of_kind ht (by decide))] at hlast
  cases hlast
  have hcount := length_openBehind hmid
  have hunended : UnendedFrom stop false prev 0 (before ++ [t]) :=
    dropExpression_suffix_iff.1 (hnil ▸ List.nil_suffix)
  have := hunended before t [] rfl (by simp at hcount; omega)
  simp [endsExpression, ht, hstop] at this

/-- The tokens of `ts` in front of its suffix `rest`. -/
def taken (ts rest : List Token) : List Token := ts.take (ts.length - rest.length)

theorem taken_append (run rest : List Token) : taken (run ++ rest) rest = run := by
  simp [taken]

theorem taken_cons (t : Token) (h : rest <:+ ts) : taken (t :: ts) rest = t :: taken ts rest := by
  obtain ⟨run, rfl⟩ := h
  rw [taken_append, ← List.cons_append, taken_append]

/-- Without angle brackets a type goes as far as any other expression. -/
theorem dropExpression_type {stop : TokenKind → Bool} {prev : Token} {depth : Int}
    (h : ∀ t ∈ taken ts (dropExpression stop true prev depth ts), t.isAngle = false) :
    dropExpression stop true prev depth ts = dropExpression stop false prev depth ts := by
  induction ts generalizing prev depth with
  | nil => rfl
  | cons t ts ih =>
    unfold dropExpression at h ⊢
    split
    · rfl
    · next hend =>
      rw [if_neg hend] at h
      rw [taken_cons t (dropExpression_suffix stop true t (depth + nesting true t) ts)] at h
      have ht : nesting true t = nesting false t := by
        have := h t List.mem_cons_self
        simp only [Token.isAngle, Bool.or_eq_false_iff] at this
        simp [nesting, this]
      rw [← ht]
      exact ih fun u hu => h u (List.mem_cons_of_mem t hu)

/-! ### Declarators -/

theorem dropDefinite_append (hf : Finished ts) (hts : ts ≠ []) (more : List Token) :
    dropDefinite (ts ++ more) = dropDefinite ts ++ more ∧ dropDefinite ts ≠ [] := by
  obtain ⟨t, us, rfl⟩ := List.exists_cons_of_ne_nil hts
  rw [List.cons_append, dropDefinite, dropDefinite]
  split
  · next ht =>
    exact ⟨rfl, hf.ne_nil (by simp [kind_of_isOperator ht])⟩
  · exact ⟨rfl, List.cons_ne_nil t us⟩

theorem dropTypePart_append (hf : Finished ts) (hts : ts ≠ [])
    (h : ∀ t ∈ taken ts (dropTypePart ts), t.isAngle = false) (more : List Token) :
    dropTypePart (ts ++ more) = dropTypePart ts ++ more ∧ dropTypePart ts ≠ [] := by
  obtain ⟨t, us, rfl⟩ := List.exists_cons_of_ne_nil hts
  rw [List.cons_append, dropTypePart, dropTypePart]
  rw [dropTypePart] at h
  split
  · next ht =>
    rw [if_pos ht, taken_cons t (dropExpression_suffix ..)] at h
    have hne : dropExpression (fun k => k = .equals || k = .comma || k = .semicolon) true t 0 us ≠
        [] := by
      rw [dropExpression_type fun u hu => h u (List.mem_cons_of_mem t hu)]
      exact hf.tail.dropExpression_ne_nil (hf.ne_nil (by simp [ht])) _ (by simp) t
    exact ⟨dropExpression_append hne more, hne⟩
  · exact ⟨rfl, List.cons_ne_nil t us⟩

theorem dropInitializer_append (hf : Finished ts) (hts : ts ≠ []) (more : List Token) :
    dropInitializer (ts ++ more) = dropInitializer ts ++ more ∧ dropInitializer ts ≠ [] := by
  obtain ⟨t, us, rfl⟩ := List.exists_cons_of_ne_nil hts
  rw [List.cons_append, dropInitializer, dropInitializer]
  split
  · next ht =>
    have hne := hf.tail.dropExpression_ne_nil (hf.ne_nil (by simp [ht]))
      (fun k => k = .comma || k = .semicolon) (by simp) t
    exact ⟨dropExpression_append hne more, hne⟩
  · exact ⟨rfl, List.cons_ne_nil t us⟩

/-- The tokens that are taken for the annotation of a declarator, behind its pattern. -/
def annotation (ts : List Token) : List Token :=
  taken (dropDefinite ts) (dropTypePart (dropDefinite ts))

theorem afterDeclarator_append (hf : Finished ts) (hts : ts ≠ [])
    (h : ∀ t ∈ annotation ts, t.isAngle = false) (more : List Token) :
    afterDeclarator (ts ++ more) = afterDeclarator ts ++ more ∧ afterDeclarator ts ≠ [] := by
  obtain ⟨hdefinite, hts⟩ := dropDefinite_append hf hts more
  replace hf := hf.of_suffix (dropDefinite_suffix ts)
  obtain ⟨htype, hts⟩ := dropTypePart_append hf hts h more
  replace hf := hf.of_suffix (dropTypePart_suffix _)
  rw [afterDeclarator, hdefinite, htype]
  exact dropInitializer_append hf hts more

/-- The tokens that are taken for the annotations of the declarators behind `const`, `let` or `var`. -/
def annotations (last : Token) (ts : List Token) : List Token :=
  match _h : patternNames last ts with
  | .error _ => []
  | .ok (_, rest) =>
    annotation rest ++
      match _h' : afterDeclarator rest with
      | t :: us => if t.kind = .comma then annotations last us else []
      | [] => []
  termination_by ts.length
  decreasing_by
    have h₁ := length_lt_of_patternNames _h
    have h₂ := (afterDeclarator_suffix rest).length_le
    simp only [_h', List.length_cons] at h₁ h₂
    omega

theorem annotations_eq {names : List Text} (hp : patternNames last ts = .ok (names, rest)) :
    annotations last ts = annotation rest ++
      match afterDeclarator rest with
      | t :: us => if t.kind = .comma then annotations last us else []
      | [] => [] := by
  rw [annotations]
  split
  · next hp' => rw [hp] at hp'; cases hp'
  · next hp' =>
    obtain ⟨rfl, rfl⟩ := Prod.mk.inj (Except.ok.inj (hp.symm.trans hp'))
    split <;> simp only [*]

theorem declaratorNames_append {n : Names} (h : declaratorNames last ts = .ok n) (hf : Finished ts)
    (hangle : ∀ t ∈ annotations last ts, t.isAngle = false) (more : List Token) :
    declaratorNames last' (ts ++ more) = .ok (n.1, n.2 ++ more) := by
  have hpattern : ∀ {ts n}, patternNames last ts = .ok n →
      patternNames last' (ts ++ more) = .ok (n.1, n.2 ++ more) := fun h => walkPattern_append h more
  have hdeclarator : ∀ {ts names rest}, patternNames last ts = .ok (names, rest) → Finished ts →
      (∀ t ∈ annotation rest, t.isAngle = false) →
      afterDeclarator (rest ++ more) = afterDeclarator rest ++ more ∧ afterDeclarator rest ≠ [] :=
    fun hp hf hangle => afterDeclarator_append (hf.of_suffix (patternNames_suffix hp))
      (hf.ne_nil_of_walkPattern hp (fun hp => by cases hp)) hangle more
  fun_induction declaratorNames last ts generalizing n with
  | case1 => cases h
  | case2 ts names rest hp t us hr ht ih =>
    obtain ⟨m, hm, rfl⟩ := Except.map_eq_ok_iff.1 h
    rw [annotations_eq hp, hr] at hangle
    simp only [if_pos ht, List.mem_append] at hangle
    have hus : Finished us :=
      (hf.of_suffix ((hr ▸ afterDeclarator_suffix rest).trans (patternNames_suffix hp))).tail
    rw [declaratorNames_eq, hpattern hp, Except.ok_bind,
      (hdeclarator hp hf fun u hu => hangle u (.inl hu)).1, hr]
    have hmore := ih hm hus fun u hu => hangle u (.inr hu)
    exact (if_pos ht).trans (congrArg (Except.map fun n => (names ++ n.1, n.2)) hmore)
  | case3 ts names rest hp t us hr ht =>
    cases h
    rw [annotations_eq hp] at hangle
    rw [declaratorNames_eq, hpattern hp, Except.ok_bind,
      (hdeclarator hp hf fun u hu => hangle u (List.mem_append_left _ hu)).1, hr]
    exact if_neg ht
  | case4 ts names rest hp hr =>
    rw [annotations_eq hp] at hangle
    exact absurd hr (hdeclarator hp hf fun u hu => hangle u (List.mem_append_left _ hu)).2

/-! ### Clauses -/

theorem wordAhead_append (hts : ts ≠ []) (w : Text) (more : List Token) :
    wordAhead w (ts ++ more) = wordAhead w ts := by
  obtain ⟨t, us, rfl⟩ := List.exists_cons_of_ne_nil hts
  rfl

theorem kindAhead_append (hts : ts ≠ []) (k : TokenKind) (more : List Token) :
    kindAhead k (ts ++ more) = kindAhead k ts := by
  obtain ⟨t, us, rfl⟩ := List.exists_cons_of_ne_nil hts
  rfl

theorem readName_append {n : Text × List Token} (h : readName last ts = .ok n) (more : List Token) :
    readName last' (ts ++ more) = .ok (n.1, n.2 ++ more) := by
  cases ts with
  | nil => cases h
  | cons t ts =>
    obtain ⟨name, hname, rfl⟩ := Except.map_eq_ok_iff.1 h
    rw [List.cons_append, readName, hname]
    rfl

/-- An element that something follows. -/
theorem readElement_append {b : Binding × List Token} (h : readElement last ts = .ok b)
    (hb : b.2 ≠ []) (more : List Token) :
    readElement last' (ts ++ more) = .ok (b.1, b.2 ++ more) := by
  obtain ⟨⟨name, rest⟩, hn, h⟩ := Except.bind_eq_ok_iff.1 h
  have hrest : rest ≠ [] := by
    rintro rfl
    cases h
    exact hb rfl
  -- A word `type` has a token behind it, so that it can be told whether it is a name.
  have hfront : marksTypeName (ts ++ more) = marksTypeName ts ∧
      (if marksTypeName ts then (ts ++ more).tail else ts ++ more) =
        (if marksTypeName ts then ts.tail else ts) ++ more := by
    rcases ts with _ | ⟨t, _ | ⟨u, ts⟩⟩
    · cases hn
    · obtain ⟨name', -, heq⟩ := Except.map_eq_ok_iff.1 hn
      cases heq
      exact absurd rfl hrest
    · refine ⟨rfl, ?_⟩
      split <;> rfl
  simp only [readElement, hfront.1, hfront.2]
  rw [readName_append hn, Except.ok_bind]
  simp only [wordAhead_append hrest] at h ⊢
  split
  · next has =>
    simp only [has, if_true] at h
    obtain ⟨⟨inner, rest'⟩, hi, h⟩ := Except.bind_eq_ok_iff.1 h
    cases h
    rw [List.tail_append_of_ne_nil hrest, readName_append hi]
    rfl
  · next has =>
    simp only [has, Bool.false_eq_true, if_false] at h
    cases h
    rfl

theorem readElements_append {opener : Token} {r : (List Binding × Token) × List Token}
    (h : readElements last opener ts = .ok r) (more : List Token) :
    readElements last' opener (ts ++ more) = .ok (r.1, r.2 ++ more) := by
  have helement : ∀ {t us b v vs}, readElement last (t :: us) = .ok (b, v :: vs) →
      readElement last' (t :: (us ++ more)) = .ok (b, v :: (vs ++ more)) := fun h =>
    readElement_append h (List.cons_ne_nil _ _) more
  fun_induction readElements last opener ts generalizing r with
  | case1 => cases h
  | case2 t us ht =>
    cases h
    rw [List.cons_append, readElements_cons, if_pos ht]
  | case3 => cases h
  | case4 => cases h
  | case5 t us ht b v vs hb hv ih =>
    obtain ⟨m, hm, rfl⟩ := Except.map_eq_ok_iff.1 h
    have hmore := ih hm
    rw [List.cons_append, readElements_cons, if_neg ht, helement hb, Except.ok_bind]
    simp only [if_pos hv, hmore]
    rfl
  | case6 t us ht b v vs hb hv hclose =>
    cases h
    rw [List.cons_append, readElements_cons, if_neg ht, helement hb, Except.ok_bind]
    simp only [if_neg hv, if_pos hclose]
  | case7 => cases h

theorem kind_of_readElements {opener : Token} {r : (List Binding × Token) × List Token}
    (h : readElements last opener ts = .ok r) : r.1.2.kind = .rightBrace := by
  fun_induction readElements last opener ts generalizing r with
  | case1 => cases h
  | case2 t us ht =>
    cases h
    exact ht
  | case3 => cases h
  | case4 => cases h
  | case5 t us ht b v vs hb hv ih =>
    obtain ⟨m, hm, rfl⟩ := Except.map_eq_ok_iff.1 h
    have hclose := ih hm
    exact hclose
  | case6 t us ht b v vs hb hv hclose =>
    cases h
    exact hclose
  | case7 => cases h

theorem readSemicolon_append (hts : ts ≠ []) (stop : Nat) (more : List Token) :
    readSemicolon stop (ts ++ more) = ((readSemicolon stop ts).1, (readSemicolon stop ts).2 ++ more) := by
  obtain ⟨t, us, rfl⟩ := List.exists_cons_of_ne_nil hts
  rw [List.cons_append, readSemicolon, readSemicolon]
  split <;> rfl

theorem attributesAhead_append (hf : Finished ts) (hts : ts ≠ []) (specifier : Token)
    (more : List Token) : attributesAhead specifier (ts ++ more) = attributesAhead specifier ts := by
  rcases ts with _ | ⟨t, _ | ⟨u, ts⟩⟩
  · exact absurd rfl hts
  · -- A single token is a semicolon.
    have ht : t.kind = .semicolon := hf.2 t rfl
    cases more with
    | nil => rfl
    | cons u more => simp [attributesAhead, Token.isWord, ht]
  · rfl

theorem readSpecifier_append (hf : Finished ts) {r : (Text × Nat) × List Token}
    (h : readSpecifier last ts = .ok r) (more : List Token) :
    readSpecifier last' (ts ++ more) = .ok (r.1, r.2 ++ more) := by
  cases ts with
  | nil => cases h
  | cons t us =>
    rw [List.cons_append, readSpecifier]
    rw [readSpecifier] at h
    split
    · next ht =>
      have hus := hf.ne_nil (by simp [ht])
      rw [if_pos ht] at h
      rw [attributesAhead_append hf.tail hus]
      cases hvalue : stringValue t with
      | error e =>
        rw [hvalue] at h
        cases h
      | ok specifier =>
        simp only [hvalue] at h ⊢
        split
        · next hahead =>
          rw [if_pos hahead] at h
          split at h
          · cases h
          · next close rest hg =>
            cases h
            obtain ⟨front, hfront, hclose⟩ := exists_front_of_dropGroup hg
            have hkind : close.kind ≠ .semicolon := fun hk => by rw [hk] at hclose; cases hclose
            have hrest : rest ≠ [] := hf.tail.ne_nil_of_suffix
              ((hfront ▸ List.suffix_append front (close :: rest)).trans (List.tail_suffix us)) hkind
            rw [List.tail_append_of_ne_nil hus, dropGroup_append hg]
            simp only [readSemicolon_append hrest]
        · next hahead =>
          rw [if_neg hahead] at h
          cases h
          simp only [readSemicolon_append hus]
    · next ht =>
      rw [if_neg ht] at h
      cases h

theorem readFrom_append {cause : StatementFault.Cause} (h : readFrom cause last ts = .ok rest)
    (more : List Token) : readFrom cause last' (ts ++ more) = .ok (rest ++ more) := by
  cases ts with
  | nil => cases h
  | cons t ts =>
    rw [List.cons_append, readFrom]
    rw [readFrom] at h
    split
    · next ht =>
      rw [if_pos ht] at h
      cases h
      rfl
    · next ht =>
      rw [if_neg ht] at h
      cases h

/-! ### Exports -/

section Export

variable {word : Token} {typeOnly : Bool} {s : Statement}

theorem readExportAll_append (hf : Finished ts)
    (h : readExportAll last word typeOnly ts = .ok (some (s, rest))) (more : List Token) :
    readExportAll last' word typeOnly (ts ++ more) = .ok (some (s, rest ++ more)) := by
  have hts : ts ≠ [] := by
    rintro rfl
    cases h
  unfold readExportAll at h ⊢
  rw [wordAhead_append hts]
  split
  · next has =>
    rw [if_pos has] at h
    obtain ⟨⟨name, r₁⟩, hn, h⟩ := Except.bind_eq_ok_iff.1 h
    obtain ⟨r₂, hfrom, h⟩ := Except.bind_eq_ok_iff.1 h
    obtain ⟨⟨⟨specifier, stop⟩, r₃⟩, hs, h⟩ := Except.bind_eq_ok_iff.1 h
    cases h
    have hfinished : Finished r₂ := hf.of_suffix (((readFrom_suffix hfrom).trans
      (readName_suffix hn)).trans ((List.tail_suffix _).trans (List.tail_suffix _)))
    rw [List.tail_append_of_ne_nil hts, readName_append hn, Except.ok_bind]
    simp only
    rw [readFrom_append hfrom, Except.ok_bind, readSpecifier_append hfinished hs]
    rfl
  · next has =>
    rw [if_neg has] at h
    obtain ⟨r₂, hfrom, h⟩ := Except.bind_eq_ok_iff.1 h
    obtain ⟨⟨⟨specifier, stop⟩, r₃⟩, hs, h⟩ := Except.bind_eq_ok_iff.1 h
    cases h
    rw [readFrom_append hfrom, Except.ok_bind,
      readSpecifier_append (hf.of_suffix (readFrom_suffix hfrom)) hs]
    rfl

theorem readExportNames_append {opener : Token} (hf : Finished ts)
    (h : readExportNames last word opener typeOnly ts = .ok (some (s, rest))) (more : List Token) :
    readExportNames last' word opener typeOnly (ts ++ more) = .ok (some (s, rest ++ more)) := by
  obtain ⟨⟨⟨names, close⟩, r₁⟩, hn, h⟩ := Except.bind_eq_ok_iff.1 h
  have hclose : close.kind ≠ .semicolon := by
    have := kind_of_readElements hn
    simp only at this
    simp [this]
  have hr₁ : r₁ ≠ [] := hf.ne_nil_of_suffix (readElements_suffix hn) hclose
  rw [readExportNames, readElements_append hn, Except.ok_bind]
  simp only [wordAhead_append hr₁, readSemicolon_append hr₁] at h ⊢
  split
  · next hfrom =>
    rw [if_pos hfrom] at h
    obtain ⟨⟨⟨specifier, stop⟩, r₃⟩, hs, h⟩ := Except.bind_eq_ok_iff.1 h
    cases h
    have hfinished : Finished r₁.tail := hf.of_suffix
      (((List.tail_suffix r₁).trans (List.suffix_cons close r₁)).trans (readElements_suffix hn))
    rw [List.tail_append_of_ne_nil hr₁, readSpecifier_append hfinished hs]
    rfl
  · next hfrom =>
    rw [if_neg hfrom] at h
    cases h
    rfl

theorem dropStar_append (hf : Finished ts) (hts : ts ≠ []) (more : List Token) :
    dropStar (ts ++ more) = dropStar ts ++ more ∧ dropStar ts ≠ [] := by
  rw [dropStar, dropStar, kindAhead_append hts]
  split
  · next hstar =>
    obtain ⟨t, us, rfl, ht⟩ := eq_cons_of_kindAhead hstar
    exact ⟨rfl, hf.ne_nil (by simp [ht])⟩
  · exact ⟨rfl, hts⟩

/-- Words are passed over up to something that is not one of them, which there is. -/
theorem dropWhile_append {p : Token → Bool} (hf : Finished ts) (hts : ts ≠ [])
    (hp : ∀ t : Token, t.kind = .semicolon → p t = false) (more : List Token) :
    (ts ++ more).dropWhile p = ts.dropWhile p ++ more ∧ ts.dropWhile p ≠ [] := by
  obtain ⟨before, t, rfl⟩ := (List.eq_nil_or_concat' ts).resolve_left hts
  have ht := hp t (hf.2 t List.getLast?_concat)
  have hne : (before ++ [t]).dropWhile p ≠ [] := by
    rw [Ne, List.dropWhile_eq_nil_iff]
    intro h
    have := h t (by simp)
    rw [ht] at this
    cases this
  rw [List.dropWhile_append, if_neg (by simpa using hne)]
  exact ⟨rfl, hne⟩

theorem not_isWord_of_semicolon (h : t.kind = .semicolon) (w : Text) : t.isWord w = false := by
  simp [Token.isWord, h]

theorem declaredName_append (hf : Finished ts) (hts : ts ≠ []) (more : List Token) :
    declaredName (ts ++ more) = declaredName ts := by
  obtain ⟨hdrop, hne⟩ := dropWhile_append (p := fun t => t.isWord "async" || t.isWord "abstract") hf hts
    (fun t ht => by simp [not_isWord_of_semicolon ht]) more
  have hsuffix : dropModifiers ts <:+ ts := List.dropWhile_suffix _
  unfold declaredName
  rw [show dropModifiers (ts ++ more) = dropModifiers ts ++ more from hdrop]
  obtain ⟨t, us, htu⟩ := List.exists_cons_of_ne_nil (show dropModifiers ts ≠ [] from hne)
  rw [htu] at hsuffix ⊢
  simp only [List.cons_append]
  split
  · next hword =>
    have hkind : t.kind ≠ .semicolon := by
      intro ht
      simp [not_isWord_of_semicolon ht] at hword
    replace hf := hf.of_suffix hsuffix
    obtain ⟨hstar, hstarne⟩ := dropStar_append hf.tail (hf.ne_nil hkind) more
    obtain ⟨n, vs, hnv⟩ := List.exists_cons_of_ne_nil hstarne
    rw [hstar, hnv]
    rfl
  · rfl

theorem readDeclaration_append {d : Declared} (hf : Finished ts)
    (h : readDeclaration last ts = .ok (some (d, rest)))
    (hangle : ∀ t us, dropDeclarationModifiers ts = t :: us → isVariableWord t →
      wordAhead "enum" us = false → ∀ u ∈ annotations last us, u.isAngle = false)
    (more : List Token) :
    readDeclaration last' (ts ++ more) = .ok (some (d, rest ++ more)) := by
  have hts : ts ≠ [] := by
    rintro rfl
    cases h
  obtain ⟨hdrop, hne⟩ := dropWhile_append (p := fun t => isModifier t) hf hts
    (fun t ht => by simp [isModifier, not_isWord_of_semicolon ht]) more
  have hsuffix : dropDeclarationModifiers ts <:+ ts := List.dropWhile_suffix _
  obtain ⟨t, us, htu⟩ := List.exists_cons_of_ne_nil (show dropDeclarationModifiers ts ≠ [] from hne)
  rw [htu] at hsuffix
  replace hf := hf.of_suffix hsuffix
  have hdrop' : dropDeclarationModifiers (ts ++ more) = t :: (us ++ more) := by
    rw [show dropDeclarationModifiers (ts ++ more) = dropDeclarationModifiers ts ++ more from hdrop, htu]
    rfl
  have hus : ∀ {w : Text}, t.isWord w → us ≠ [] := fun hw =>
    hf.ne_nil fun ht => by rw [not_isWord_of_semicolon ht] at hw; cases hw
  have hdeclared : ∀ {vs : List Token}, vs ≠ [] →
      readDeclared last' (vs ++ more) = ((readDeclared last vs).1, (readDeclared last vs).2 ++ more) := by
    intro vs hvs
    obtain ⟨v, vs, rfl⟩ := List.exists_cons_of_ne_nil hvs
    rfl
  unfold readDeclaration at h ⊢
  simp only [htu] at h
  simp only [hdrop']
  by_cases hvar : isVariableWord t
  · have hne : us ≠ [] := by
      obtain ⟨w, -, hw⟩ := exists_of_isVariableWord hvar
      exact hus hw
    have hangle := hangle t us htu hvar
    unfold isVariableWord at hvar
    simp only [hvar, if_true, wordAhead_append hne] at h ⊢
    split
    · next henum =>
      rw [if_pos henum] at h
      cases h
      obtain ⟨enum, vs, rfl, he⟩ := eq_cons_of_wordAhead henum
      have hvs : vs ≠ [] := hf.tail.ne_nil fun ht => by
        rw [not_isWord_of_semicolon ht] at he
        cases he
      rw [List.cons_append, List.tail_cons, List.tail_cons, hdeclared hvs]
    · next henum =>
      rw [if_neg henum] at h
      obtain ⟨n, hn, h⟩ := Except.map_eq_ok_iff.1 h
      cases h
      rw [declaratorNames_append hn hf.tail (hangle (by simpa using henum))]
      rfl
  · by_cases hname : isNamingWord t
    · have hne : us ≠ [] := by
        obtain ⟨w, -, hw⟩ := exists_of_isNamingWord hname
        exact hus hw
      obtain ⟨hstar, hstarne⟩ := dropStar_append hf.tail hne more
      unfold isVariableWord at hvar
      unfold isNamingWord at hname
      simp only [hvar, hname, Bool.false_eq_true, if_true, if_false, hstar, hdeclared hstarne] at h ⊢
      cases h
      rfl
    · unfold isVariableWord at hvar
      unfold isNamingWord at hname
      simp only [hvar, hname, Bool.false_eq_true, if_false] at h ⊢
      split
      · next htype =>
        rw [if_pos htype] at h
        cases h
        rfl
      · next htype =>
        rw [if_neg htype] at h
        cases h

/-- The tokens that are taken for the annotations of an exported variable declaration; none of another
statement. -/
def exportedAnnotations (last : Token) (ts : List Token) : List Token :=
  match dropDeclarationModifiers ts with
  | t :: us => if isVariableWord t && !wordAhead "enum" us then annotations last us else []
  | [] => []

theorem readExport_append (hf : Finished ts) (h : readExport last word ts = .ok (some (s, rest)))
    (hangle : ∀ t ∈ exportedAnnotations last ts, t.isAngle = false) (more : List Token) :
    readExport last' word (ts ++ more) = .ok (some (s, rest ++ more)) := by
  -- A word `type` has a token behind it, so that it can be told whether it marks the export.
  have hfront : marksTypeExport (ts ++ more) = marksTypeExport ts ∧
      (if marksTypeExport ts then (ts ++ more).tail else ts ++ more) =
        (if marksTypeExport ts then ts.tail else ts) ++ more := by
    rcases ts with _ | ⟨t, _ | ⟨u, ts⟩⟩
    · cases h
    · have ht : t.kind = .semicolon := hf.2 t rfl
      cases more with
      | nil => exact ⟨rfl, rfl⟩
      | cons u more => simp [marksTypeExport, not_isWord_of_semicolon ht]
    · refine ⟨rfl, ?_⟩
      split <;> rfl
  have hsuffix : (if marksTypeExport ts then ts.tail else ts) <:+ ts := by
    split
    · exact List.tail_suffix ts
    · exact List.suffix_refl ts
  simp only [readExport, hfront.1, hfront.2] at h ⊢
  obtain ⟨front, hts, hcases⟩ := exists_of_exportFront ts
  generalize (if marksTypeExport ts then ts.tail else ts) = left at h hsuffix hts ⊢
  cases left with
  | nil => cases h
  | cons t us =>
    simp only [List.cons_append] at h ⊢
    replace hf := hf.of_suffix hsuffix
    split
    · next hstar =>
      rw [if_pos hstar] at h
      exact readExportAll_append hf.tail h more
    · next hstar =>
      rw [if_neg hstar] at h
      split
      · next hbrace =>
        rw [if_pos hbrace] at h
        exact readExportNames_append hf.tail h more
      · next hbrace =>
        rw [if_neg hbrace] at h
        split
        · next hdefault =>
          have hne : us ≠ [] := hf.ne_nil fun ht => by
            rw [not_isWord_of_semicolon ht] at hdefault
            cases hdefault
          rw [if_pos hdefault] at h
          cases h
          rw [declaredName_append hf.tail hne]
        · next hdefault =>
          rw [if_neg hdefault] at h
          split
          · next hother =>
            rw [if_pos hother] at h
            cases h
          · next hother =>
            rw [if_neg hother] at h
            obtain ⟨r, hd, h⟩ := Except.map_eq_ok_iff.1 h
            obtain ⟨⟨d, rest'⟩, rfl, h⟩ := Option.map_eq_some_iff.1 h
            cases h
            -- What is left of a list of types starts with a star or a brace.
            obtain rfl : front = [] := by
              rcases hcases with hnil | ⟨v, rfl, -, u, vs, hts', hu⟩
              · exact hnil
              · obtain ⟨rfl, -⟩ := List.cons.inj (List.cons.inj (hts.symm.trans hts')).2
                exact absurd hu (by simp [hstar, hbrace])
            obtain rfl : ts = t :: us := hts
            have hdeclared : readDeclaration last' (t :: (us ++ more)) =
                .ok (some (d, rest' ++ more)) :=
              readDeclaration_append hf hd (fun v vs hdrop hv he u hu =>
                hangle u (by rw [exportedAnnotations, hdrop]; simpa [hv, he] using hu)) more
            rw [hdeclared]
            rfl

end Export

/-! ### Imports -/

section Import

variable {word : Token} {s : Statement}

theorem readClause_append {r : List Binding × List Token} (hf : Finished ts)
    (h : readClause last ts = .ok r) (hr : r.2 ≠ []) (more : List Token) :
    readClause last' (ts ++ more) = .ok (r.1, r.2 ++ more) := by
  cases ts with
  | nil =>
    cases h
    exact absurd rfl hr
  | cons t us =>
    unfold readClause at h ⊢
    simp only [List.cons_append] at h ⊢
    split
    · next ht =>
      rw [if_pos ht] at h
      cases us with
      | nil => cases h
      | cons as vs =>
        simp only [List.cons_append] at h ⊢
        split
        · next has =>
          rw [if_pos has] at h
          have hvs : vs ≠ [] := hf.tail.ne_nil fun hk => by
            rw [not_isWord_of_semicolon hk] at has
            cases has
          obtain ⟨v, ws, rfl⟩ := List.exists_cons_of_ne_nil hvs
          cases h
          rfl
        · next has =>
          rw [if_neg has] at h
          cases h
    · next ht =>
      rw [if_neg ht] at h
      split
      · next hbrace =>
        rw [if_pos hbrace] at h
        obtain ⟨m, hm, rfl⟩ := Except.map_eq_ok_iff.1 h
        rw [readElements_append hm]
        rfl
      · next hbrace =>
        rw [if_neg hbrace] at h
        cases h
        rfl

theorem readDefaultBinding_append (hf : Finished ts) (hts : ts ≠ []) (more : List Token) :
    readDefaultBinding (ts ++ more) =
      ((readDefaultBinding ts).1, (readDefaultBinding ts).2 ++ more) := by
  obtain ⟨t, us, rfl⟩ := List.exists_cons_of_ne_nil hts
  rw [List.cons_append, readDefaultBinding, readDefaultBinding]
  split
  · next ht =>
    have hus := hf.ne_nil (by simp [ht])
    rw [kindAhead_append hus, List.tail_append_of_ne_nil hus]
    split <;> rfl
  · rfl

theorem readImport_append (hf : Finished ts) (hts : ts ≠ [])
    (h : readImport last word ts = .ok (some (s, rest))) (more : List Token) :
    readImport last' word (ts ++ more) = .ok (some (s, rest ++ more)) := by
  have hother : isOtherImport (ts ++ more) = isOtherImport ts := by
    obtain ⟨before, t, rfl⟩ := (List.eq_nil_or_concat' ts).resolve_left hts
    have ht : t.kind = .semicolon := hf.2 t List.getLast?_concat
    have hshown : ¬ ∀ w ∈ before ++ [t], w.kind = .identifier := fun hall => by
      have := hall t (by simp)
      simp [ht] at this
    have := isOtherImport_append hshown more []
    rwa [List.append_nil] at this
  -- A word `type` has a token behind it, so that it can be told whether it marks the import.
  have hfront : marksTypeImport (ts ++ more) = marksTypeImport ts ∧
      (if marksTypeImport ts then (ts ++ more).tail else ts ++ more) =
        (if marksTypeImport ts then ts.tail else ts) ++ more := by
    rcases ts with _ | ⟨t, _ | ⟨u, ts⟩⟩
    · exact absurd rfl hts
    · have ht : t.kind = .semicolon := hf.2 t rfl
      cases more with
      | nil => exact ⟨rfl, rfl⟩
      | cons u more => simp [marksTypeImport, not_isWord_of_semicolon ht]
    · refine ⟨rfl, ?_⟩
      split <;> rfl
  have hleft : (if marksTypeImport ts then ts.tail else ts) ≠ [] ∧
      (if marksTypeImport ts then ts.tail else ts) <:+ ts := by
    rcases ts with _ | ⟨t, _ | ⟨u, ts⟩⟩
    · exact absurd rfl hts
    · exact ⟨List.cons_ne_nil t [], List.suffix_refl _⟩
    · split
      · exact ⟨List.cons_ne_nil u ts, List.suffix_cons t _⟩
      · exact ⟨List.cons_ne_nil t _, List.suffix_refl _⟩
  unfold readImport at h ⊢
  rw [hother, kindAhead_append hts, kindAhead_append hts]
  split
  · next ho =>
    rw [if_pos ho] at h
    cases h
  · next ho =>
    rw [if_neg ho] at h
    split
    · next hstring =>
      rw [if_pos hstring] at h
      obtain ⟨⟨⟨specifier, stop⟩, r₃⟩, hs, h⟩ := Except.bind_eq_ok_iff.1 h
      cases h
      rw [readSpecifier_append hf hs]
      rfl
    · next hstring =>
      rw [if_neg hstring] at h
      simp only [hfront.1, hfront.2] at h ⊢
      generalize (if marksTypeImport ts then ts.tail else ts) = left at h hleft ⊢
      obtain ⟨⟨bindings, r₁⟩, hc, h⟩ := Except.bind_eq_ok_iff.1 h
      obtain ⟨r₂, hfrom, h⟩ := Except.bind_eq_ok_iff.1 h
      obtain ⟨⟨⟨specifier, stop⟩, r₃⟩, hs, h⟩ := Except.bind_eq_ok_iff.1 h
      cases h
      have hr₁ : r₁ ≠ [] := by
        rintro rfl
        cases hfrom
      have hleftf := hf.of_suffix hleft.2
      have hfirst := hleftf.of_suffix (readDefaultBinding_suffix left)
      have hr₁f : Finished r₁ := hfirst.of_suffix (readClause_suffix hc)
      have hr₂ := hr₁f.of_suffix (readFrom_suffix hfrom)
      rw [readDefaultBinding_append hleftf hleft.1, readClause_append hfirst hc hr₁, Except.ok_bind]
      simp only
      rw [readFrom_append hfrom, Except.ok_bind, readSpecifier_append hr₂ hs]
      rfl

end Import

/-! ### The scanner -/

section Scan

variable {word : Token} {prev : Option Token} {depth : Nat} {st st' : List TokenKind}

/-- More tokens behind finished ones do not change the statement behind a keyword. -/
theorem readStatement_append {r : Parsed} (hf : Finished (word :: ts))
    (h : readStatement last word ts = .ok r)
    (hangle : ∀ s rest, r = some (s, rest) → word.kind = .exportWord →
      ∀ t ∈ exportedAnnotations last ts, t.isAngle = false) (more : List Token) :
    readStatement last' word (ts ++ more) = .ok (r.map fun r => (r.1, r.2 ++ more)) := by
  cases r with
  | none =>
    refine readStatement_eq_none_iff.2 ?_
    have hother := readStatement_eq_none_iff.1 h
    by_cases hk : word.isKeyword
    · -- The last token is a semicolon, so the tokens that are there decide what the keyword is.
      have hts : ts ≠ [] := hf.ne_nil fun ht => by simp [Token.isKeyword, ht] at hk
      obtain ⟨before, t, rfl⟩ := (List.eq_nil_or_concat' ts).resolve_left hts
      have ht : t.kind = .semicolon := hf.tail.2 t List.getLast?_concat
      have hundecided : ¬ Undecided word (before ++ [t]) := by
        rintro (⟨-, hall⟩ | ⟨-, hall⟩)
        · have := hall t (by simp)
          simp [ht] at this
        · have := hall t (by simp)
          simp [isModifier, not_isWord_of_semicolon ht] at this
      have := isOther_append hundecided more []
      rw [List.append_nil, hother] at this
      exact this
    · exact isOther_of_not_isKeyword (Bool.eq_false_iff.2 hk) _
  | some r =>
    obtain ⟨s, rest⟩ := r
    unfold readStatement at h ⊢
    split
    · next hk =>
      rw [if_pos hk] at h
      exact readImport_append hf.tail (hf.ne_nil (by simp [hk])) h more
    · next hk =>
      rw [if_neg hk] at h
      split
      · next hexport =>
        rw [if_pos hexport] at h
        exact readExport_append hf.tail h (hangle s rest rfl hexport) more
      · next hexport =>
        rw [if_neg hexport] at h
        cases h

theorem tokenBefore_append_right (h : rest <:+ ts) (more : List Token) :
    tokenBefore (ts ++ more) (rest ++ more) = tokenBefore ts rest := by
  obtain ⟨run, rfl⟩ := h
  rw [List.append_assoc, tokenBefore_append, tokenBefore_append]

/-- The token in front of what is behind all the tokens. -/
theorem getLast?_or_tokenBefore (h : rest <:+ ts) (hts : ts ≠ []) (prev : Option Token) :
    rest.getLast?.or (tokenBefore ts rest) = ts.getLast?.or prev := by
  obtain ⟨run, rfl⟩ := h
  rw [tokenBefore_append, ← List.getLast?_append, List.getLast?_eq_some_getLast hts]
  rfl

/-- Behind finished tokens the scanner goes on outside all brackets. -/
theorem scanFrom_append {ss : List Statement} (h : scanFrom last prev depth ts = .ok ss)
    (hdepth : depth ≤ st.length) (hst : openBehind st ts = some [])
    (hlast : ∀ t, ts.getLast? = some t → t.kind = .semicolon)
    (hangle : ∀ k us, k :: us <:+ ts → k.kind = .exportWord → (∃ s ∈ ss, s.start = k.start) →
      ∀ t ∈ exportedAnnotations last us, t.isAngle = false) (more : List Token) :
    scanFrom last' prev depth (ts ++ more) =
      (scanFrom last' (ts.getLast?.or prev) 0 more).map (ss ++ ·) := by
  fun_induction scanFrom last prev depth ts generalizing ss st with
  | case1 prev depth =>
    cases h
    obtain rfl : st = [] := Option.some.inj hst
    obtain rfl : depth = 0 := Nat.le_zero.1 hdepth
    rw [List.nil_append, List.getLast?_nil, Option.none_or]
    cases scanFrom last' prev 0 more <;> rfl
  | case2 => cases h
  | case3 prev depth t us hattempt s rest hread ih =>
    obtain ⟨ss', hss', rfl⟩ := Except.map_eq_ok_iff.1 h
    have hf : Finished (t :: us) := ⟨⟨st, hst⟩, hlast⟩
    have hsuffix : rest <:+ t :: us := (readStatement_suffix hread).trans (List.suffix_cons t us)
    obtain ⟨⟨mid, hmid⟩, hlast'⟩ := hf.of_suffix hsuffix
    have hmore : readStatement last' t (us ++ more) = .ok (some (s, rest ++ more)) :=
      readStatement_append hf hread (fun s' rest' heq hk => hangle t us (List.suffix_refl _) hk
        ⟨s, List.mem_cons_self, (records_of_readStatement hread).1.1⟩) more
    rw [List.cons_append, scanFrom_cons, if_pos hattempt, hmore]
    simp only [Except.ok_bind]
    rw [← List.cons_append, tokenBefore_append_right hsuffix,
      ih hss' (Nat.zero_le _) hmid hlast' fun k vs hvs hk hstart =>
        hangle k vs (hvs.trans hsuffix) hk
          (hstart.imp fun s' h => ⟨List.mem_cons_of_mem s h.1, h.2⟩),
      getLast?_or_tokenBefore hsuffix (List.cons_ne_nil t us) prev]
    cases scanFrom last' ((t :: us).getLast?.or prev) 0 more <;> rfl
  | case4 prev depth t us hattempt hread ih =>
    have hf : Finished (t :: us) := ⟨⟨st, hst⟩, hlast⟩
    obtain ⟨mid, hmid, hst⟩ := exists_of_openBehind_cons hst
    have hmore : readStatement last' t (us ++ more) = .ok none :=
      readStatement_append hf hread (fun s rest heq => by cases heq) more
    rw [List.cons_append, scanFrom_cons, if_pos hattempt, hmore, getLast?_cons_or]
    exact ih h (depthAfter_le hdepth hmid) hst hf.tail.2 fun k vs hvs =>
      hangle k vs (hvs.trans (List.suffix_cons t us))
  | case5 prev depth t us hattempt ih =>
    have hf : Finished (t :: us) := ⟨⟨st, hst⟩, hlast⟩
    obtain ⟨mid, hmid, hst⟩ := exists_of_openBehind_cons hst
    rw [List.cons_append, scanFrom_cons, if_neg hattempt, getLast?_cons_or]
    exact ih h (depthAfter_le hdepth hmid) hst hf.tail.2 fun k vs hvs =>
      hangle k vs (hvs.trans (List.suffix_cons t us))

/-! ### Groups -/

theorem depthAfter_of_openedBy (h : openedBy st t = some st') (base : Nat) :
    depthAfter (st.length + base) t = st'.length + base := by
  unfold depthAfter
  rcases token_cases t with ht | ht | ht
  · rw [openedBy_opener ht] at h
    cases h
    rw [if_pos ht, List.length_cons, Nat.add_right_comm]
  · obtain rfl := (openedBy_closer ht).1 h
    rw [if_neg (by simp [not_isOpener_of_isCloser ht]), if_pos ht, List.length_cons]
    omega
  · rw [openedBy_plain ht] at h
    cases h
    simp only [Token.isPlain, Bool.and_eq_true, Bool.not_eq_true'] at ht
    simp [ht.1, ht.2]

/-- Inside brackets the scanner only counts. -/
theorem scanFrom_inside (h : openBehind st ts = some st') (base : Nat) (more : List Token) :
    scanFrom last prev (st.length + (base + 1)) (ts ++ more) =
      scanFrom last (ts.getLast?.or prev) (st'.length + (base + 1)) more := by
  induction ts generalizing prev st with
  | nil =>
    cases h
    rfl
  | cons t us ih =>
    obtain ⟨mid, hmid, h⟩ := exists_of_openBehind_cons h
    rw [List.cons_append, scanFrom_cons, if_neg (by simp), depthAfter_of_openedBy hmid,
      getLast?_cons_or]
    exact ih h

/-- The scanner passes over a group outside all brackets. -/
theorem scanFrom_block {opener close : Token} (ho : opener.kind.isOpener) (hn : Nested ts)
    (hc : close.kind.isCloser) (more : List Token) :
    scanFrom last prev 0 (opener :: (ts ++ close :: more)) = scanFrom last (some close) 0 more := by
  have hother : readStatement last opener (ts ++ close :: more) = .ok none :=
    readStatement_eq_none_iff.2 (isOther_of_not_isKeyword (by
      unfold Token.isKeyword
      revert ho
      cases opener.kind <;> simp [TokenKind.isOpener]) _)
  have hopen : depthAfter 0 opener = ([] : List TokenKind).length + (0 + 1) := by
    rw [depthAfter, if_pos ho]
    rfl
  have hclose : depthAfter (([] : List TokenKind).length + (0 + 1)) close = 0 := by
    rw [depthAfter, if_neg (by simp [not_isOpener_of_isCloser hc]), if_pos hc]
    rfl
  have hinside : scanFrom last (some opener) (depthAfter 0 opener) (ts ++ close :: more) =
      scanFrom last (some close) 0 more := by
    rw [hopen, scanFrom_inside hn, scanFrom_cons, if_neg (by simp), hclose]
  rw [scanFrom_cons, hother, hinside]
  exact ite_self _

end Scan

end

end Statement

end ScriptBundle
