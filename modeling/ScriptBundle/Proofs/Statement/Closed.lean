import ScriptBundle.Proofs.Statement.Span

/-!
# Statements that close their brackets

In a nested source the tokens of an import, a re-export or a list of exported names close every bracket
that they open. So the brackets around what follows are the same when such a statement goes.

* `Closes`: the tokens that a reader takes close what they open;
* `closes_of_readElements`, `closes_of_readSpecifier`, `closes_of_readClause`: the readers;
* `closes_of_readStatement`: a statement that goes as a whole.
-/

namespace ScriptBundle.Statement

variable {base : List TokenKind} {last word t : Token} {ts us rest run : List Token}

/-- The tokens `ts` down to `rest` close the brackets that they open inside the brackets `base`. -/
def Closes (base : List TokenKind) (ts rest : List Token) : Prop :=
  ∃ run, ts = run ++ rest ∧ openBehind base run = some base

theorem Closes.refl (base : List TokenKind) (ts : List Token) : Closes base ts ts := ⟨[], rfl, rfl⟩

theorem closes_of_plain (base : List TokenKind) (h : ∀ t ∈ run, t.isPlain) (rest : List Token) :
    Closes base (run ++ rest) rest :=
  ⟨run, rfl, openBehind_plain h base⟩

theorem Closes.trans (h : Closes base ts us) (h' : Closes base us rest) : Closes base ts rest := by
  obtain ⟨run, rfl, hrun⟩ := h
  obtain ⟨run', rfl, hrun'⟩ := h'
  exact ⟨run ++ run', (List.append_assoc ..).symm, (openBehind_append_of_eq hrun _).trans hrun'⟩

theorem Closes.plain (ht : t.isPlain) (h : Closes base ts rest) : Closes base (t :: ts) rest := by
  obtain ⟨run, rfl, hrun⟩ := h
  exact ⟨t :: run, rfl, (openBehind_cons_of_plain ht base run).trans hrun⟩

/-- What is left is nested as the tokens were. -/
theorem Closes.nested (h : Closes base ts rest) (hn : openBehind base ts = some []) :
    openBehind base rest = some [] := by
  obtain ⟨run, rfl, hrun⟩ := h
  rwa [openBehind_append_of_eq hrun] at hn

/-- A group behind its opening bracket. -/
theorem closes_group (ht : t.kind.isOpener)
    (h : ∃ run, ts = run ++ rest ∧ openBehind (t.kind.closer :: base) run = some base) :
    Closes base (t :: ts) rest := by
  obtain ⟨run, rfl, hrun⟩ := h
  exact ⟨t :: run, rfl, by rw [openBehind_cons, openedBy_opener ht, Option.bind_some, hrun]⟩

theorem closes_of_readSemicolon (stop : Nat) (ts : List Token) :
    Closes base ts (readSemicolon stop ts).2 := by
  obtain ⟨run, hrun, hkind⟩ := exists_of_readSemicolon stop ts
  have hplain : ∀ t ∈ run, t.isPlain := fun t ht => isPlain_of_kind (hkind t ht) (by decide)
  have h := closes_of_plain base hplain (readSemicolon stop ts).2
  rwa [← hrun] at h

/-- A list of names behind its opening brace. -/
theorem closes_of_readElements {opener : Token} {r : (List Binding × Token) × List Token}
    (h : readElements last opener ts = .ok r) :
    ∃ run, ts = run ++ r.2 ∧ openBehind (.rightBrace :: base) run = some base := by
  have close {t : Token} (ht : t.kind = .rightBrace) :
      openBehind (.rightBrace :: base) [t] = some base := by
    rw [openBehind_cons, (openedBy_closer (by rw [ht]; rfl)).2 (congrArg (· :: base) ht.symm)]
    rfl
  fun_induction readElements last opener ts generalizing r with
  | case1 => cases h
  | case2 t us ht =>
    cases h
    exact ⟨[t], rfl, close ht⟩
  | case3 => cases h
  | case4 => cases h
  | case5 t us _ b v vs hb hv ih =>
    obtain ⟨m, hm, rfl⟩ := Except.map_eq_ok_iff.1 h
    obtain ⟨run, hrun, hplain⟩ := exists_of_readElement hb
    obtain ⟨run', hrun', hclosed⟩ := ih hm
    refine ⟨run ++ v :: run', ?_, ?_⟩
    · rw [hrun, List.append_assoc, List.cons_append, ← hrun']
    · rw [openBehind_append_of_eq (openBehind_plain hplain _),
        openBehind_cons_of_plain (isPlain_of_kind hv (by decide)), hclosed]
  | case6 t us _ b v vs hb _ hv =>
    cases h
    obtain ⟨run, hrun, hplain⟩ := exists_of_readElement hb
    refine ⟨run ++ [v], by rw [hrun, List.append_assoc]; rfl, ?_⟩
    rw [openBehind_append_of_eq (openBehind_plain hplain _), close hv]
  | case7 => cases h

/-- A specifier, with its attributes and a semicolon. -/
theorem closes_of_readSpecifier {r : (Text × Nat) × List Token} (h : readSpecifier last ts = .ok r)
    (hn : openBehind base ts = some []) : Closes base ts r.2 := by
  unfold readSpecifier at h
  split at h
  · cases h
  · next t us =>
    split at h
    · next ht =>
      have hplain : t.isPlain := isPlain_of_kind ht (by decide)
      split at h
      · cases h
      · split at h
        · next hattributes =>
          unfold attributesAhead at hattributes
          split at hattributes
          · next w o us =>
            simp only [Bool.and_eq_true, decide_eq_true_eq, Bool.or_eq_true] at hattributes
            obtain ⟨⟨hw, ho⟩, -⟩ := hattributes
            have hw : w.isPlain := hw.elim isPlain_of_isWord isPlain_of_isWord
            have hopener : o.kind.isOpener := by rw [ho]; rfl
            rw [openBehind_cons_of_plain hplain, openBehind_cons_of_plain hw, openBehind_cons,
              openedBy_opener hopener, Option.bind_some] at hn
            rw [List.tail_cons, dropGroup, if_pos hopener] at h
            split at h
            · cases h
            · next close rest hg =>
              cases h
              obtain ⟨run, hrun, hclosed, -⟩ :=
                exists_of_dropGroup [o.kind.closer] hg (List.cons_ne_nil _ _) rfl hn
              have hgroup : Closes base (o :: us) rest :=
                closes_group hopener ⟨run, hrun, openBehind_append_base hclosed base⟩
              exact .plain hplain (.plain hw (hgroup.trans (closes_of_readSemicolon ..)))
          · cases hattributes
        · cases h
          exact .plain hplain (closes_of_readSemicolon ..)
    · cases h

/-- Where a statement takes its names from. -/
theorem closes_of_source {cause : StatementFault.Cause} {r : (Text × Nat) × List Token}
    (hf : readFrom cause last ts = .ok us) (hs : readSpecifier last us = .ok r)
    (hn : openBehind base ts = some []) : Closes base ts r.2 := by
  obtain ⟨t, rfl, ht⟩ := exists_of_readFrom hf
  rw [openBehind_cons_of_plain (isPlain_of_isWord ht)] at hn
  exact .plain (isPlain_of_isWord ht) (closes_of_readSpecifier hs hn)

/-- A namespace or a list of names, if the name of the namespace is no bracket. -/
theorem closes_of_readClause {r : List Binding × List Token} (h : readClause last ts = .ok r)
    (hname : ∀ b ∈ r.1, ∀ t ∈ ts, t.text = b.inner → t.isPlain) : Closes base ts r.2 := by
  unfold readClause at h
  split at h
  · next t us =>
    split at h
    · next ht =>
      have hstar : t.isPlain := isPlain_of_kind ht (by decide)
      split at h
      · next as vs =>
        split at h
        · next has =>
          cases h
          refine .plain hstar (.plain (isPlain_of_isWord has) ?_)
          cases vs with
          | nil => exact .refl base []
          | cons name vs =>
            have hplain : name.isPlain := hname _ List.mem_cons_self name (by simp) rfl
            exact .plain hplain (.refl base vs)
        · cases h
      · cases h
    · split at h
      · next ht =>
        obtain ⟨m, hm, rfl⟩ := Except.map_eq_ok_iff.1 h
        have hcloser : t.kind.closer = .rightBrace := by rw [ht]; rfl
        exact closes_group (by rw [ht]; rfl) (hcloser ▸ closes_of_readElements hm)
      · cases h
        exact .refl base _
  · cases h
    exact .refl base _

theorem closes_of_readImport {s : Statement} (h : readImport last word ts = .ok (some (s, rest)))
    (hn : openBehind base ts = some [])
    (hname : ∀ b ∈ s.bindings, ∀ t ∈ ts, t.text = b.inner → t.isPlain) : Closes base ts rest := by
  unfold readImport at h
  split at h
  · cases h
  · split at h
    · obtain ⟨⟨⟨specifier, stop⟩, r⟩, hs, h⟩ := Except.bind_eq_ok_iff.1 h
      cases h
      exact closes_of_readSpecifier hs hn
    · obtain ⟨⟨bindings, r₁⟩, hc, h⟩ := Except.bind_eq_ok_iff.1 h
      obtain ⟨r₂, hf, h⟩ := Except.bind_eq_ok_iff.1 h
      obtain ⟨⟨⟨specifier, stop⟩, r₃⟩, hs, h⟩ := Except.bind_eq_ok_iff.1 h
      cases h
      obtain ⟨front, hfront, hkind⟩ := exists_of_importFront ts
      have hplain : ∀ t ∈ front, t.isPlain := fun t ht => (isKeyword_of_front (hkind t ht)).2
      have hdefault := closes_of_plain base hplain
        (readDefaultBinding (if marksTypeImport ts then ts.tail else ts)).2
      rw [← hfront] at hdefault
      have hclause : Closes base (readDefaultBinding (if marksTypeImport ts then ts.tail else ts)).2 r₁ := by
        refine closes_of_readClause hc fun b hb t ht => hname b (List.mem_append_right _ hb) t ?_
        rw [hfront]
        exact List.mem_append_right _ ht
      have hboth := hdefault.trans hclause
      exact hboth.trans (closes_of_source hf hs (hboth.nested hn))

theorem closes_of_readExportAll {typeOnly : Bool} {s : Statement}
    (h : readExportAll last word typeOnly ts = .ok (some (s, rest)))
    (hn : openBehind base ts = some []) : Closes base ts rest := by
  unfold readExportAll at h
  split at h
  · next has =>
    obtain ⟨⟨name, r₁⟩, hname, h⟩ := Except.bind_eq_ok_iff.1 h
    obtain ⟨r₂, hf, h⟩ := Except.bind_eq_ok_iff.1 h
    obtain ⟨⟨⟨specifier, stop⟩, r₃⟩, hs, h⟩ := Except.bind_eq_ok_iff.1 h
    cases h
    obtain ⟨as, us, rfl, has⟩ := eq_cons_of_wordAhead has
    obtain ⟨t, rfl, ht⟩ := exists_of_readName hname
    rw [openBehind_cons_of_plain (isPlain_of_isWord has), openBehind_cons_of_plain ht] at hn
    exact .plain (isPlain_of_isWord has) (.plain ht (closes_of_source hf hs hn))
  · obtain ⟨r₂, hf, h⟩ := Except.bind_eq_ok_iff.1 h
    obtain ⟨⟨⟨specifier, stop⟩, r₃⟩, hs, h⟩ := Except.bind_eq_ok_iff.1 h
    cases h
    exact closes_of_source hf hs hn

/-- A list of exported names behind its opening brace, with or without a specifier. -/
theorem closes_of_readExportNames {typeOnly : Bool} {s : Statement} (ht : t.kind = .leftBrace)
    (h : readExportNames last word t typeOnly ts = .ok (some (s, rest)))
    (hn : openBehind base (t :: ts) = some []) : Closes base (t :: ts) rest := by
  obtain ⟨⟨⟨names, close⟩, r₁⟩, hnames, h⟩ := Except.bind_eq_ok_iff.1 h
  have hcloser : t.kind.closer = .rightBrace := by rw [ht]; rfl
  have hlist : Closes base (t :: ts) r₁ :=
    closes_group (by rw [ht]; rfl) (hcloser ▸ closes_of_readElements hnames)
  simp only at h
  split at h
  · next hfrom =>
    obtain ⟨⟨⟨specifier, stop⟩, r₃⟩, hs, h⟩ := Except.bind_eq_ok_iff.1 h
    cases h
    obtain ⟨f, us, rfl, hf⟩ := eq_cons_of_wordAhead hfrom
    have hn := hlist.nested hn
    rw [openBehind_cons_of_plain (isPlain_of_isWord hf)] at hn
    exact hlist.trans (.plain (isPlain_of_isWord hf) (closes_of_readSpecifier hs hn))
  · cases h
    exact hlist.trans (closes_of_readSemicolon ..)

theorem closes_of_readExport {s : Statement} (h : readExport last word ts = .ok (some (s, rest)))
    (hform : s.isWhole) (hn : openBehind base ts = some []) : Closes base ts rest := by
  unfold readExport at h
  obtain ⟨front, hfront, hcases⟩ := exists_of_exportFront ts
  have hplain : ∀ t ∈ front, t.isPlain := by
    intro t ht
    rcases hcases with rfl | ⟨u, rfl, hu, -⟩
    · cases ht
    · exact List.mem_singleton.1 ht ▸ isPlain_of_isWord hu
  simp only at h
  split at h
  · next t us hus =>
    have hmark := closes_of_plain base hplain (t :: us)
    rw [← hus, ← hfront, hus] at hmark
    refine hmark.trans ?_
    have hn := hmark.nested hn
    split at h
    · next ht =>
      have hstar : t.isPlain := isPlain_of_kind ht (by decide)
      rw [openBehind_cons_of_plain hstar] at hn
      exact .plain hstar (closes_of_readExportAll h hn)
    · split at h
      · next ht => exact closes_of_readExportNames ht h hn
      · -- Nothing else goes as a whole.
        split at h
        · cases h
          cases hform
        · split at h
          · cases h
          · obtain ⟨r, hd, h⟩ := Except.map_eq_ok_iff.1 h
            obtain ⟨⟨d, rest'⟩, rfl, h⟩ := Option.map_eq_some_iff.1 h
            cases h
            cases hform
  · cases h

/-- A statement that goes closes its brackets, if no import takes a bracket for a name. -/
theorem closes_of_readStatement {s : Statement}
    (h : readStatement last word ts = .ok (some (s, rest))) (hform : s.isWhole)
    (hn : openBehind base ts = some [])
    (hname : s.isImport → ∀ b ∈ s.bindings, ∀ t ∈ ts, t.text = b.inner → t.isPlain) :
    Closes base ts rest := by
  have hrecords := (records_of_readStatement h).1
  unfold readStatement at h
  split at h
  · next hword => exact closes_of_readImport h hn (hname (hrecords.2.2 hword))
  · split at h
    · exact closes_of_readExport h hform hn
    · cases h

end ScriptBundle.Statement
