import ScriptBundle.Statement.Clause

/-!
# The tokens of bound names

The names that a declaration binds are texts of its tokens. Where a pattern must follow the walk over it
looks for an identifier, but the key of a property without a colon is a name whatever it is. So a name is
an identifier, or such a key, and which of the two can be seen from the token and from what follows it.

* `IsBareKey`, `NameFrom`: the tokens that give names;
* `nameFrom_of_walkPattern`: all names of a pattern come from such tokens;
* `nameFrom_of_declaratorNames`: so do those of a declaration.
-/

namespace ScriptBundle

namespace Statement

/-! ### Names of patterns -/

/-- The token `t`, with `after` behind it, is the key of a property without a colon. -/
def IsBareKey (t : Token) (after : List Token) : Prop :=
  t.kind ≠ .rightBrace ∧ t.kind ≠ .comma ∧ t.isOperator "..." = false ∧
    ∃ us, afterKey? t after = some us ∧ kindAhead .colon us = false

/-- A token of `all` in front of `rest` gives its text to a name: an identifier, or the key of a property
without a colon, behind the brace that opens its pattern. -/
inductive NameFrom (all rest : List Token) : Text → Prop
  | identifier {t : Token} {after : List Token} (ht : t :: after <:+ all) (hr : rest <:+ after)
      (hk : t.kind = .identifier) : NameFrom all rest t.text
  | key {opener t : Token} {us after : List Token} (ho : opener :: us <:+ all)
      (hopener : opener.kind = .leftBrace) (ht : t :: after <:+ us) (hr : rest <:+ after)
      (hk : t.kind ≠ .identifier) (hkey : IsBareKey t after) : NameFrom all rest t.text

section Pattern

variable {last : Token} {all ts rest : List Token} {name : Text}

theorem NameFrom.mono {all' rest' : List Token} (h : NameFrom all rest name) (ha : all <:+ all')
    (hr : rest' <:+ rest) : NameFrom all' rest' name := by
  cases h with
  | identifier ht h hk => exact .identifier (ht.trans ha) (hr.trans h) hk
  | key ho hopener ht h hk hkey => exact .key (ho.trans ha) hopener ht (hr.trans h) hk hkey

/-- Each open pattern was opened in front of the tokens. -/
def OpenedBefore (all groups ts : List Token) : Prop :=
  ∀ g ∈ groups, ∃ us, g :: us <:+ all ∧ ts <:+ us

theorem OpenedBefore.mono {groups us : List Token} (h : OpenedBefore all groups ts) (hu : us <:+ ts) :
    OpenedBefore all groups us := by
  intro g hg
  obtain ⟨vs, hvs, hts⟩ := h g hg
  exact ⟨vs, hvs, hu.trans hts⟩

theorem OpenedBefore.tail {g : Token} {groups : List Token} (h : OpenedBefore all (g :: groups) ts) :
    OpenedBefore all groups ts :=
  fun g' hg => h g' (List.mem_cons_of_mem g hg)

/-- A key without a colon behind it gives a name. -/
theorem nameFrom_key {g t : Token} {gs us after : List Token} (ht : t :: after <:+ all)
    (hgroups : OpenedBefore all (g :: gs) (t :: after)) (hg : g.kind = .leftBrace)
    (hclose : t.kind ≠ closing g) (hcomma : t.kind ≠ .comma) (hdots : ¬ t.isOperator "...")
    (hafter : afterKey? t after = some us) (hcolon : kindAhead .colon us = false)
    (hrest : rest <:+ after) : NameFrom all rest t.text := by
  by_cases hk : t.kind = .identifier
  · exact .identifier ht hrest hk
  · obtain ⟨vs, ho, hvs⟩ := hgroups g List.mem_cons_self
    have hbrace : t.kind ≠ .rightBrace := by simpa [closing, hg] using hclose
    exact .key ho hg hvs hrest hk ⟨hbrace, hcomma, by simpa using hdots, us, hafter, hcolon⟩

/-- The names of a pattern come from the tokens that the walk over it takes. -/
theorem nameFrom_of_walkPattern {place : Place} {groups : List Token} {n : Names}
    (h : walkPattern last place groups ts = .ok n) (hts : ts <:+ all)
    (hgroups : OpenedBefore all groups ts) : ∀ name ∈ n.1, NameFrom all n.2 name := by
  fun_induction walkPattern last place groups ts generalizing n with
  | case1 => cases h
  | case2 groups t ts ht ih =>
    obtain ⟨m, hm, rfl⟩ := Except.map_eq_ok_iff.1 h
    have hdrop : dropDefault groups ts <:+ t :: ts :=
      (dropDefault_suffix groups ts).trans (List.suffix_cons t ts)
    intro name hname
    rcases List.mem_cons.1 hname with rfl | hname
    · exact .identifier hts ((walkPattern_suffix hm).trans (dropDefault_suffix groups ts)) ht
    · exact ih hm (hdrop.trans hts) (hgroups.mono hdrop) name hname
  | case3 groups t ts _ _ ih =>
    have htail := List.suffix_cons t ts
    refine ih h (htail.trans hts) fun g hg => ?_
    rcases List.mem_cons.1 hg with rfl | hg
    · exact ⟨ts, hts, List.suffix_refl ts⟩
    · exact hgroups.mono htail g hg
  | case4 => cases h
  | case5 =>
    cases h
    exact fun name hname => absurd hname List.not_mem_nil
  | case6 => cases h
  | case7 g gs t ts _ ih =>
    have hdrop : dropDefault gs ts <:+ t :: ts := (dropDefault_suffix gs ts).trans (List.suffix_cons t ts)
    exact ih h (hdrop.trans hts) (hgroups.tail.mono hdrop)
  | case8 g gs t ts _ _ ih =>
    have htail := List.suffix_cons t ts
    exact ih h (htail.trans hts) (hgroups.mono htail)
  | case9 g gs t ts _ _ _ ih =>
    have htail := List.suffix_cons t ts
    exact ih h (htail.trans hts) (hgroups.mono htail)
  | case10 => cases h
  | case11 g gs t ts hclose hcomma hdots hg hk ih =>
    obtain ⟨m, hm, rfl⟩ := Except.map_eq_ok_iff.1 h
    intro name hname
    rcases List.mem_cons.1 hname with rfl | hname
    · exact nameFrom_key hts hgroups hg hclose hcomma hdots hk rfl
        ((walkPattern_suffix hm).trans List.nil_suffix)
    · exact ih hm List.nil_suffix (hgroups.mono List.nil_suffix) name hname
  | case12 g gs t ts _ _ _ _ u us hk _ ih =>
    have htail : us <:+ t :: ts :=
      ((List.suffix_cons u us).trans (afterKey?_suffix hk)).trans (List.suffix_cons t ts)
    exact ih h (htail.trans hts) (hgroups.mono htail)
  | case13 g gs t ts hclose hcomma hdots hg u us hk hcolon ih =>
    obtain ⟨m, hm, rfl⟩ := Except.map_eq_ok_iff.1 h
    have hafter : dropDefault (g :: gs) (u :: us) <:+ ts :=
      (dropDefault_suffix _ _).trans (afterKey?_suffix hk)
    have hdrop := hafter.trans (List.suffix_cons t ts)
    intro name hname
    rcases List.mem_cons.1 hname with rfl | hname
    · exact nameFrom_key hts hgroups hg hclose hcomma hdots hk (by simpa [kindAhead] using hcolon)
        ((walkPattern_suffix hm).trans hafter)
    · exact ih hm (hdrop.trans hts) (hgroups.mono hdrop) name hname
  | case14 g gs t ts _ _ _ _ ih => exact ih h hts hgroups

theorem nameFrom_of_patternNames {n : Names} (h : patternNames last ts = .ok n) :
    ∀ name ∈ n.1, NameFrom ts n.2 name :=
  nameFrom_of_walkPattern h (List.suffix_refl ts) fun _ hg => nomatch hg

/-- The names of a declaration come from the tokens that it takes. -/
theorem nameFrom_of_declaratorNames {n : Names} (h : declaratorNames last ts = .ok n) :
    ∀ name ∈ n.1, NameFrom ts n.2 name := by
  fun_induction declaratorNames last ts generalizing n with
  | case1 => cases h
  | case2 ts names rest hp t us hr _ ih =>
    obtain ⟨m, hm, rfl⟩ := Except.map_eq_ok_iff.1 h
    have hus : us <:+ rest := (List.suffix_cons t us).trans (hr ▸ afterDeclarator_suffix rest)
    intro name hname
    rcases List.mem_append.1 hname with hname | hname
    · exact (nameFrom_of_patternNames hp name hname).mono (List.suffix_refl ts)
        ((declaratorNames_suffix hm).trans hus)
    · exact (ih hm name hname).mono (hus.trans (patternNames_suffix hp)) (List.suffix_refl _)
  | case3 ts names rest hp t us hr _ =>
    cases h
    exact fun name hname => (nameFrom_of_patternNames hp name hname).mono (List.suffix_refl ts)
      (hr ▸ afterDeclarator_suffix rest)
  | case4 ts names rest hp =>
    cases h
    exact fun name hname => (nameFrom_of_patternNames hp name hname).mono (List.suffix_refl ts)
      List.nil_suffix

end Pattern

end Statement

end ScriptBundle
