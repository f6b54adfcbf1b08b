import ScriptBundle.Proofs.Statement.Recorded

/-!
# What a statement covers

A statement that goes as a whole covers a run of tokens that starts with its keyword and ends with a
specifier, a bracket or a semicolon. Of a declaration or a default export only the words in front are
covered, and the word that introduces its variables is among the tokens behind them. This holds of any
tokens, also where brackets do not match.

* `Ends`: a run that ends as a whole statement does;
* `ends_of_readSpecifier`, `ends_of_readElements`: the runs that the readers take;
* `Covers`, `covers_of_readStatement`: what the statement behind a keyword covers;
* `Scanned`, `scanned_of_scan`: a scan passes over tokens and reads statements, one behind the other.
-/

namespace ScriptBundle

namespace Statement

/-- The kinds that a whole statement ends with. -/
def endsStatement (k : TokenKind) : Bool := k = .string || k = .semicolon || k.isCloser

/-- A whole statement ends with the tokens `run` at the offset `stop`. -/
def Ends (run : List Token) (stop : Nat) : Prop :=
  ∃ front t, run = front ++ [t] ∧ t.stop = stop ∧ endsStatement t.kind

section Readers

variable {last word t : Token} {ts run rest : List Token} {stop : Nat}

theorem ends_singleton (h : endsStatement t.kind) : Ends [t] t.stop := ⟨[], t, rfl, rfl, h⟩

theorem Ends.append (h : Ends run stop) (front : List Token) : Ends (front ++ run) stop := by
  obtain ⟨more, t, rfl, ht⟩ := h
  exact ⟨front ++ more, t, (List.append_assoc ..).symm, ht⟩

/-- A semicolon belongs to the statement. -/
theorem Ends.semicolon (h : Ends run stop) (ts : List Token) :
    ∃ more, ts = more ++ (readSemicolon stop ts).2 ∧ Ends (run ++ more) (readSemicolon stop ts).1 := by
  unfold readSemicolon
  repeat' split
  · next t us ht => exact ⟨[t], rfl, (ends_singleton (by simp [endsStatement, ht])).append run⟩
  · exact ⟨[], rfl, by rwa [List.append_nil]⟩
  · exact ⟨[], rfl, by rwa [List.append_nil]⟩

/-- A group ends with the closing bracket that is returned. -/
theorem exists_front_of_dropGroup {depth : Nat} {close : Token}
    (h : dropGroup depth ts = some (close, rest)) :
    ∃ front, ts = front ++ close :: rest ∧ close.kind.isCloser := by
  induction ts generalizing depth with
  | nil => cases h
  | cons u us ih =>
    have step : ∀ {depth'}, dropGroup depth' us = some (close, rest) →
        ∃ front, u :: us = front ++ close :: rest ∧ close.kind.isCloser := by
      intro depth' h
      obtain ⟨front, hfront, hclose⟩ := ih h
      exact ⟨u :: front, congrArg (u :: ·) hfront, hclose⟩
    unfold dropGroup at h
    split at h
    · exact step h
    · split at h
      · next hcloser =>
        split at h
        · cases h
          exact ⟨[], rfl, hcloser⟩
        · exact step h
      · exact step h

/-- A specifier, with its attributes and a semicolon. -/
theorem ends_of_readSpecifier {r : (Text × Nat) × List Token} (h : readSpecifier last ts = .ok r) :
    ∃ run, ts = run ++ r.2 ∧ Ends run r.1.2 := by
  unfold readSpecifier at h
  split at h
  · cases h
  · next t us =>
    split at h
    · next ht =>
      have hstring : Ends [t] t.stop := ends_singleton (by simp [endsStatement, ht])
      split at h
      · cases h
      · split at h
        · split at h
          · cases h
          · next close rest hg =>
            cases h
            obtain ⟨front, hfront, hclose⟩ := exists_front_of_dropGroup hg
            have hus : us = us.take 1 ++ us.tail := by rw [← List.drop_one, List.take_append_drop]
            have hgroup : Ends (t :: us.take 1 ++ front ++ [close]) close.stop :=
              (ends_singleton (by simp [endsStatement, hclose])).append _
            obtain ⟨more, hmore, hends⟩ := hgroup.semicolon rest
            refine ⟨_, ?_, hends⟩
            rw [List.append_assoc _ more, ← hmore, List.append_assoc, List.append_assoc,
              List.singleton_append, ← hfront, List.cons_append, ← hus]
        · cases h
          obtain ⟨more, hmore, hends⟩ := hstring.semicolon us
          exact ⟨_, congrArg (t :: ·) hmore, hends⟩
    · cases h

/-- A specifier that is read behind some of the tokens. -/
theorem ends_of_suffix {us : List Token} {r : (Text × Nat) × List Token}
    (h : readSpecifier last us = .ok r) (hus : us <:+ ts) :
    ∃ run, ts = run ++ r.2 ∧ Ends run r.1.2 := by
  obtain ⟨front, rfl⟩ := hus
  obtain ⟨run, hrun, hends⟩ := ends_of_readSpecifier h
  refine ⟨front ++ run, ?_, hends.append front⟩
  rw [List.append_assoc, ← hrun]

/-- A list of names ends with its closing brace. -/
theorem ends_of_readElements {opener : Token} {r : (List Binding × Token) × List Token}
    (h : readElements last opener ts = .ok r) :
    ∃ run, ts = run ++ r.2 ∧ Ends run r.1.2.stop := by
  have close : ∀ {t : Token}, t.kind = .rightBrace → Ends [t] t.stop := fun ht =>
    ends_singleton (by rw [ht]; rfl)
  fun_induction readElements last opener ts generalizing r with
  | case1 => cases h
  | case2 t us ht =>
    cases h
    exact ⟨[t], rfl, close ht⟩
  | case3 => cases h
  | case4 => cases h
  | case5 t us _ b v vs hb hv ih =>
    obtain ⟨m, hm, rfl⟩ := Except.map_eq_ok_iff.1 h
    obtain ⟨run, hrun, -⟩ := exists_of_readElement hb
    obtain ⟨run', hrun', hends⟩ := ih hm
    refine ⟨run ++ v :: run', ?_, ?_⟩
    · rw [hrun, List.append_assoc, List.cons_append, ← hrun']
    · rw [← List.singleton_append, ← List.append_assoc]
      exact hends.append _
  | case6 t us _ b v vs hb _ hv =>
    cases h
    obtain ⟨run, hrun, -⟩ := exists_of_readElement hb
    exact ⟨run ++ [v], by rw [hrun, List.append_assoc]; rfl, (close hv).append run⟩
  | case7 => cases h

/-! ### Statements -/

/-- What a statement behind the keyword `word` covers of the tokens `ts`, when `rest` is left. -/
inductive Covers (word : Token) (ts : List Token) (s : Statement) (rest : List Token) : Prop
  /-- The statement goes as a whole. -/
  | whole (run : List Token) (hform : s.isWhole) (hts : ts = run ++ rest) (hends : Ends run s.stop)
  /-- The keyword goes in front of a declaration that is not block-scoped. -/
  | declaration (bindings : List Binding) (typeOnly : Bool)
      (hform : s.form = .declaration bindings typeOnly none) (hstop : s.stop = word.stop)
      (hrest : rest <:+ ts)
  /-- The keyword goes in front of a declaration that the word `t` makes block-scoped. -/
  | blockScoped (bindings : List Binding) (typeOnly : Bool) (front : List Token) (t : Token)
      (behind : List Token) (hform : s.form = .declaration bindings typeOnly (some t))
      (hstop : s.stop = word.stop) (hts : ts = front ++ t :: behind)
      (hfront : ∀ u ∈ front, isModifier u) (hword : t.isWord "let" ∨ t.isWord "const")
      (hrest : rest <:+ behind)
  /-- The keyword goes together with `default`. -/
  | default (name : Option Text) (t : Token) (hform : s.form = .default name) (hts : ts = t :: rest)
      (hword : t.isWord "default") (hstop : s.stop = t.stop) (hname : name = declaredName rest)

variable {s : Statement}

theorem covers_of_readImport (h : readImport last word ts = .ok (some (s, rest))) :
    Covers word ts s rest := by
  unfold readImport at h
  split at h
  · cases h
  · split at h
    · obtain ⟨⟨⟨specifier, stop⟩, r⟩, hs, h⟩ := Except.bind_eq_ok_iff.1 h
      cases h
      obtain ⟨run, hrun, hends⟩ := ends_of_readSpecifier hs
      exact .whole run rfl hrun hends
    · obtain ⟨⟨bindings, r₁⟩, hc, h⟩ := Except.bind_eq_ok_iff.1 h
      obtain ⟨r₂, hf, h⟩ := Except.bind_eq_ok_iff.1 h
      obtain ⟨⟨⟨specifier, stop⟩, r₃⟩, hs, h⟩ := Except.bind_eq_ok_iff.1 h
      cases h
      obtain ⟨front, hfront, -⟩ := exists_of_importFront ts
      have hleft : (readDefaultBinding (if marksTypeImport ts then ts.tail else ts)).2 <:+ ts :=
        ⟨front, hfront.symm⟩
      obtain ⟨run, hrun, hends⟩ :=
        ends_of_suffix hs (((readFrom_suffix hf).trans (readClause_suffix hc)).trans hleft)
      exact .whole run rfl hrun hends

theorem covers_of_readExportAll {typeOnly : Bool} {us : List Token}
    (h : readExportAll last word typeOnly us = .ok (some (s, rest))) (hus : us <:+ ts) :
    Covers word ts s rest := by
  unfold readExportAll at h
  split at h
  · obtain ⟨⟨name, r₁⟩, hname, h⟩ := Except.bind_eq_ok_iff.1 h
    obtain ⟨r₂, hf, h⟩ := Except.bind_eq_ok_iff.1 h
    obtain ⟨⟨⟨specifier, stop⟩, r₃⟩, hs, h⟩ := Except.bind_eq_ok_iff.1 h
    cases h
    have hname := (readName_suffix hname).trans ((List.tail_suffix _).trans (List.tail_suffix us))
    obtain ⟨run, hrun, hends⟩ := ends_of_suffix hs (((readFrom_suffix hf).trans hname).trans hus)
    exact .whole run rfl hrun hends
  · obtain ⟨r₂, hf, h⟩ := Except.bind_eq_ok_iff.1 h
    obtain ⟨⟨⟨specifier, stop⟩, r₃⟩, hs, h⟩ := Except.bind_eq_ok_iff.1 h
    cases h
    obtain ⟨run, hrun, hends⟩ := ends_of_suffix hs ((readFrom_suffix hf).trans hus)
    exact .whole run rfl hrun hends

theorem covers_of_readExportNames {opener : Token} {typeOnly : Bool} {us : List Token}
    (h : readExportNames last word opener typeOnly us = .ok (some (s, rest))) (hus : us <:+ ts) :
    Covers word ts s rest := by
  obtain ⟨⟨⟨names, close⟩, r₁⟩, hnames, h⟩ := Except.bind_eq_ok_iff.1 h
  obtain ⟨front, rfl⟩ := hus
  obtain ⟨list, hlist, hends⟩ := ends_of_readElements hnames
  simp only at h hlist hends
  split at h
  · obtain ⟨⟨⟨specifier, stop⟩, r₃⟩, hs, h⟩ := Except.bind_eq_ok_iff.1 h
    cases h
    have hr : r₁.tail <:+ front ++ us :=
      ((List.tail_suffix r₁).trans ⟨list, hlist.symm⟩).trans (List.suffix_append front us)
    obtain ⟨run, hrun, hends⟩ := ends_of_suffix hs hr
    exact .whole run rfl hrun hends
  · cases h
    obtain ⟨more, hmore, hends⟩ := (hends.append front).semicolon r₁
    refine .whole _ rfl ?_ hends
    rw [List.append_assoc, ← hmore, List.append_assoc, ← hlist]

theorem covers_of_readDeclaration {d : Declared}
    (h : readDeclaration last ts = .ok (some (d, rest))) (hstop : s.stop = word.stop)
    (hform : s.form = .declaration (d.names.map .same) d.typeOnly d.blockScoped) :
    Covers word ts s rest := by
  have hrest := readDeclaration_suffix h
  have htake : ts.takeWhile isModifier ++ dropDeclarationModifiers ts = ts :=
    List.takeWhile_append_dropWhile
  unfold readDeclaration at h
  split at h
  · cases h
  · next t us hts =>
    rw [hts] at htake
    split at h
    · next hvariable =>
      split at h
      · cases h
        exact .declaration _ _ hform hstop hrest
      · obtain ⟨⟨names, rest'⟩, hnames, h⟩ := Except.map_eq_ok_iff.1 h
        cases h
        by_cases hvar : t.isWord "var"
        · simp only [hvar, if_true] at hform
          exact .declaration _ _ hform hstop hrest
        · simp only [hvar, Bool.false_eq_true, if_false] at hform
          have hword : t.isWord "let" ∨ t.isWord "const" := by
            simp only [hvar, Bool.or_false, Bool.or_eq_true] at hvariable
            exact hvariable.symm
          exact .blockScoped _ _ _ t us hform hstop htake.symm
            (fun u hu => List.mem_takeWhile_imp hu) hword (declaratorNames_suffix hnames)
    · split at h
      · cases h
        exact .declaration _ _ hform hstop hrest
      · split at h
        · cases h
          exact .declaration _ _ hform hstop hrest
        · cases h

theorem covers_of_readExport (h : readExport last word ts = .ok (some (s, rest))) :
    Covers word ts s rest := by
  unfold readExport at h
  obtain ⟨front, hfront, hcases⟩ := exists_of_exportFront ts
  simp only at h
  split at h
  · next t us hus =>
    rw [hus] at hfront
    have hsuffix : us <:+ ts := by
      rw [hfront]
      exact (List.suffix_cons t us).trans (List.suffix_append front (t :: us))
    split at h
    · exact covers_of_readExportAll h hsuffix
    · split at h
      · exact covers_of_readExportNames h hsuffix
      · next hnostar hnobrace =>
        -- The word `type` is taken off only in front of a star or of a brace.
        obtain rfl : front = [] := by
          rcases hcases with hnil | ⟨v, rfl, -, u, vs, hts, hu⟩
          · exact hnil
          · rw [hts] at hfront
            obtain ⟨-, hfront⟩ := List.cons.inj hfront
            obtain ⟨rfl, -⟩ := List.cons.inj hfront
            exact absurd hu (by simp [hnostar, hnobrace])
        obtain rfl : ts = t :: us := hfront
        split at h
        · next ht =>
          cases h
          exact .default _ t rfl rfl ht rfl rfl
        · split at h
          · cases h
          · obtain ⟨r, hd, h⟩ := Except.map_eq_ok_iff.1 h
            obtain ⟨⟨d, rest'⟩, rfl, h⟩ := Option.map_eq_some_iff.1 h
            cases h
            exact covers_of_readDeclaration hd rfl rfl
  · cases h

/-- What a statement covers. -/
theorem covers_of_readStatement (h : readStatement last word ts = .ok (some (s, rest))) :
    Covers word ts s rest := by
  unfold readStatement at h
  split at h
  · exact covers_of_readImport h
  · split at h
    · exact covers_of_readExport h
    · cases h

end Readers

/-! ### Scans -/

/-- The tokens `ts` hold the statements `ss`, one behind the other, among tokens that belong to none. -/
inductive Scanned : List Token → List Statement → Prop
  | nil : Scanned [] []
  /-- A token that belongs to no statement. -/
  | pass {ts : List Token} {ss : List Statement} (t : Token) (h : Scanned ts ss) :
      Scanned (t :: ts) ss
  /-- A statement that starts with the keyword `word`. -/
  | read {word : Token} {ts rest : List Token} {s : Statement} {ss : List Statement}
      (hrecords : s.Records word) (hword : word.isKeyword) (hcovers : Covers word ts s rest)
      (h : Scanned rest ss) : Scanned (word :: ts) (s :: ss)

theorem scanned_of_scanFrom {last : Token} {prev : Option Token} {depth : Nat} {ts : List Token}
    {ss : List Statement} (h : scanFrom last prev depth ts = .ok ss) : Scanned ts ss := by
  fun_induction scanFrom last prev depth ts generalizing ss with
  | case1 =>
    cases h
    exact .nil
  | case2 => cases h
  | case3 prev depth t us _ s rest hread ih =>
    obtain ⟨ss', hss', rfl⟩ := Except.map_eq_ok_iff.1 h
    obtain ⟨hrecords, hword⟩ := records_of_readStatement hread
    exact .read hrecords hword (covers_of_readStatement hread) (ih hss')
  | case4 prev depth t us _ _ ih => exact .pass t (ih h)
  | case5 prev depth t us _ ih => exact .pass t (ih h)

/-- A scan passes over tokens and reads statements, one behind the other. -/
theorem scanned_of_scan {ts : TokenStream} {ss : List Statement} (h : scan ts = .ok ss) :
    Scanned ts.tokens ss :=
  scanned_of_scanFrom h

end Statement

end ScriptBundle
