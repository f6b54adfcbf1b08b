import ScriptBundle.Proofs.Statement.Silence

/-!
# What a statement says

A module statement says what its tokens say: which names cross the module boundary, under which names
they are bound here, and which of them a word `type` marks. The tokens are given here by their grammar,
without the order in which the readers look at them. A word `type` is a mark in front of a name and in
front of what a whole statement takes or gives out; elsewhere it is a name like any other.

* `IsMark`, `IsElement`, `IsElements`, `IsClause`, `IsSource`: the pieces of imports and exports;
* `Declares`: an exported declaration, with the names that it binds;
* `Says`: the tokens behind the keyword of a statement, with the form of the statement;
* `says_of_readStatement`, `exists_says_of_scan`: every statement is the one that its tokens say.
-/

namespace ScriptBundle

namespace Statement

/-! ### Grammar -/

/-- A word `type` that makes a whole statement one about types, or nothing. -/
inductive IsMark : List Token → Bool → Prop
  | none : IsMark [] false
  | word {t : Token} (ht : t.isWord "type") : IsMark [t] true

/-- An element of a list of names: its outer name, the name behind `as` if there is one, and a word
`type` in front that marks it. -/
inductive IsElement : List Token → Binding → Prop
  | name {t : Token} {name : Text} (h : bindingName t = .ok name) :
      IsElement [t] ⟨name, name, false⟩
  | renamed {t as u : Token} {outer inner : Text} (h : bindingName t = .ok outer)
      (has : as.isWord "as") (h' : bindingName u = .ok inner) :
      IsElement [t, as, u] ⟨outer, inner, false⟩
  | marked {mark : Token} {run : List Token} {outer inner : Text} (hm : mark.isWord "type")
      (h : IsElement run ⟨outer, inner, false⟩) : IsElement (mark :: run) ⟨outer, inner, true⟩

/-- The elements of a list of names, with commas between them and perhaps behind the last one. -/
inductive IsElements : List Token → List Binding → Prop
  | nil : IsElements [] []
  | one {run : List Token} {b : Binding} (h : IsElement run b) : IsElements run [b]
  | cons {run more : List Token} {comma : Token} {b : Binding} {bs : List Binding}
      (h : IsElement run b) (hc : comma.kind = .comma) (hr : IsElements more bs) :
      IsElements (run ++ comma :: more) (b :: bs)

/-- What an import takes apart from the default export: everything under one name, or a list of
names. -/
inductive IsPart : List Token → List Binding → Prop
  | everything {star as name : Token} (hs : star.kind = .star) (has : as.isWord "as") :
      IsPart [star, as, name] [⟨"*", name.text, false⟩]
  | names {opener close : Token} {run : List Token} {bs : List Binding}
      (ho : opener.kind = .leftBrace) (hc : close.kind = .rightBrace) (h : IsElements run bs) :
      IsPart (opener :: (run ++ [close])) bs

/-- A comma, or nothing. -/
def IsComma (ts : List Token) : Prop := ts = [] ∨ ∃ t, ts = [t] ∧ t.kind = .comma

/-- What an import takes from its module. -/
inductive IsClause : List Token → List Binding → Prop
  | part {ts : List Token} {bs : List Binding} (h : IsPart ts bs) : IsClause ts bs
  | default {t : Token} {comma : List Token} (ht : t.kind = .identifier) (hc : IsComma comma) :
      IsClause (t :: comma) [⟨"default", t.text, false⟩]
  | both {t : Token} {comma ts : List Token} {bs : List Binding} (ht : t.kind = .identifier)
      (hc : IsComma comma) (h : IsPart ts bs) :
      IsClause (t :: (comma ++ ts)) (⟨"default", t.text, false⟩ :: bs)

/-- A word `type` directly in front of a brace or of a star. -/
def StartsMarked (ts : List Token) : Prop :=
  ∃ t u us, ts = t :: u :: us ∧ t.isWord "type" ∧ (u.kind = .leftBrace ∨ u.kind = .star)

/-- The word `from` and the specifier of a module, with any tokens behind them. -/
inductive IsSource : List Token → Text → Prop
  | intro {word t : Token} {ts : List Token} {specifier : Text} (hw : word.isWord "from")
      (ht : t.kind = .string) (h : stringValue t = .ok specifier) :
      IsSource (word :: t :: ts) specifier

/-- The declaration at the head of the tokens, with the names that it binds. One that declares a type
binds none. -/
inductive Declares (last : Token) : List Token → List Text → Bool → Prop
  | named {front us : List Token} {word : Token} (hf : ∀ t ∈ front, isModifier t)
      (hw : isNamingWord word) :
      Declares last (front ++ word :: us) [((dropStar us).headD last).text] false
  | enumerated {front us : List Token} {word enum : Token} (hf : ∀ t ∈ front, isModifier t)
      (hw : isVariableWord word) (he : enum.isWord "enum") :
      Declares last (front ++ word :: enum :: us) [(us.headD last).text] false
  | declarators {front us rest : List Token} {word : Token} {names : List Text}
      (hf : ∀ t ∈ front, isModifier t) (hw : isVariableWord word)
      (h : declaratorNames last us = .ok (names, rest)) :
      Declares last (front ++ word :: us) names false
  | type {front us : List Token} {word : Token} (hf : ∀ t ∈ front, isModifier t)
      (hw : isTypeWord word) : Declares last (front ++ word :: us) [] true

/-- The tokens behind the keyword `word`, with what the statement says. -/
inductive Says (last word : Token) : List Token → Form → Prop
  | runs {t : Token} {ts : List Token} {specifier : Text} (hk : word.kind = .importWord)
      (ht : t.kind = .string) (h : stringValue t = .ok specifier) :
      Says last word (t :: ts) (.imports specifier [] false)
  | imports {mark clause source : List Token} {bindings : List Binding} {typeOnly : Bool}
      {specifier : Text} (hk : word.kind = .importWord) (hm : IsMark mark typeOnly)
      (hu : mark = [] → ¬ StartsMarked clause) (hc : IsClause clause bindings)
      (hs : IsSource source specifier) :
      Says last word (mark ++ (clause ++ source)) (.imports specifier bindings typeOnly)
  | exportsAll {mark source : List Token} {star : Token} {typeOnly : Bool} {specifier : Text}
      (hk : word.kind = .exportWord) (hm : IsMark mark typeOnly) (ht : star.kind = .star)
      (hs : IsSource source specifier) :
      Says last word (mark ++ star :: source) (.reexportAll specifier typeOnly)
  | exportsAs {mark source : List Token} {star as t : Token} {name : Text} {typeOnly : Bool}
      {specifier : Text} (hk : word.kind = .exportWord) (hm : IsMark mark typeOnly)
      (ht : star.kind = .star) (has : as.isWord "as") (hn : bindingName t = .ok name)
      (hs : IsSource source specifier) :
      Says last word (mark ++ star :: as :: t :: source)
        (.reexports specifier [⟨name, "*", false⟩] typeOnly)
  | exportsAgain {mark run source : List Token} {opener close : Token} {names : List Binding}
      {typeOnly : Bool} {specifier : Text} (hk : word.kind = .exportWord) (hm : IsMark mark typeOnly)
      (ho : opener.kind = .leftBrace) (hc : close.kind = .rightBrace) (h : IsElements run names)
      (hs : IsSource source specifier) :
      Says last word (mark ++ opener :: (run ++ close :: source))
        (.reexports specifier (names.map .swap) typeOnly)
  | exportsList {mark run ts : List Token} {opener close : Token} {names : List Binding}
      {typeOnly : Bool} (hk : word.kind = .exportWord) (hm : IsMark mark typeOnly)
      (ho : opener.kind = .leftBrace) (hc : close.kind = .rightBrace) (h : IsElements run names)
      (hts : wordAhead "from" ts = false) :
      Says last word (mark ++ opener :: (run ++ close :: ts)) (.exportList (names.map .swap) typeOnly)
  | declares {ts : List Token} {names : List Text} {typeOnly : Bool} {blockScoped : Option Token}
      (hk : word.kind = .exportWord) (h : Declares last ts names typeOnly) :
      Says last word ts (.declaration (names.map .same) typeOnly blockScoped)
  | default {t : Token} {ts : List Token} (hk : word.kind = .exportWord) (ht : t.isWord "default") :
      Says last word (t :: ts) (.default (declaredName ts))

section Read

variable {last word opener close : Token} {ts rest : List Token} {s : Statement}

/-! ### Lists of names -/

theorem exists_bindingName_of_readName {n : Text × List Token} (h : readName last ts = .ok n) :
    ∃ t, ts = t :: n.2 ∧ bindingName t = .ok n.1 := by
  cases ts with
  | nil => cases h
  | cons t ts =>
    obtain ⟨name, hname, rfl⟩ := Except.map_eq_ok_iff.1 h
    exact ⟨t, rfl, hname⟩

/-- The tokens of an element are those that its reader takes. -/
theorem isElement_of_readElement {b : Binding × List Token} (h : readElement last ts = .ok b) :
    ∃ run, ts = run ++ b.2 ∧ IsElement run b.1 := by
  obtain ⟨⟨outer, rest⟩, hn, h⟩ := Except.bind_eq_ok_iff.1 h
  obtain ⟨t, hts, ht⟩ := exists_bindingName_of_readName hn
  have hplain : ∃ run inner, (if marksTypeName ts then ts.tail else ts) = run ++ b.2 ∧
      b.1 = ⟨outer, inner, marksTypeName ts⟩ ∧ IsElement run ⟨outer, inner, false⟩ := by
    simp only at h
    split at h
    · next has =>
      obtain ⟨⟨inner, rest'⟩, hi, h⟩ := Except.bind_eq_ok_iff.1 h
      cases h
      obtain ⟨as, us, rfl, has⟩ := eq_cons_of_wordAhead has
      obtain ⟨u, hus, hu⟩ := exists_bindingName_of_readName hi
      rw [List.tail_cons] at hus
      exact ⟨[t, as, u], inner, by rw [hts, hus]; rfl, rfl, .renamed ht has hu⟩
    · cases h
      exact ⟨[t], outer, hts, rfl, .name ht⟩
  obtain ⟨run, inner, hrun, hb, helement⟩ := hplain
  cases hm : marksTypeName ts with
  | false =>
    rw [hm] at hrun hb
    exact ⟨run, hrun, hb ▸ helement⟩
  | true =>
    rw [hm] at hrun hb
    unfold marksTypeName at hm
    split at hm
    · next t u us _ =>
      simp only [Bool.and_eq_true] at hm
      exact ⟨t :: run, congrArg (t :: ·) hrun, hb ▸ .marked hm.1.1 helement⟩
    · cases hm

theorem isElements_of_readElements {r : (List Binding × Token) × List Token}
    (h : readElements last opener ts = .ok r) :
    ∃ run, ts = run ++ r.1.2 :: r.2 ∧ r.1.2.kind = .rightBrace ∧ IsElements run r.1.1 := by
  fun_induction readElements last opener ts generalizing r with
  | case1 => cases h
  | case2 t us ht =>
    cases h
    exact ⟨[], rfl, ht, .nil⟩
  | case3 => cases h
  | case4 => cases h
  | case5 t us _ b v vs hb hv ih =>
    obtain ⟨m, hm, rfl⟩ := Except.map_eq_ok_iff.1 h
    obtain ⟨run, hrun, helement⟩ := isElement_of_readElement hb
    obtain ⟨more, hmore, hclose, helements⟩ := ih hm
    refine ⟨run ++ v :: more, ?_, hclose, .cons helement hv helements⟩
    rw [hrun, List.append_assoc, List.cons_append, ← hmore]
  | case6 t us _ b v vs hb _ hv =>
    cases h
    obtain ⟨run, hrun, helement⟩ := isElement_of_readElement hb
    exact ⟨run, hrun, hv, .one helement⟩
  | case7 => cases h

/-! ### Imports -/

theorem exists_stringValue_of_readSpecifier {r : (Text × Nat) × List Token}
    (h : readSpecifier last ts = .ok r) :
    ∃ t us, ts = t :: us ∧ t.kind = .string ∧ stringValue t = .ok r.1.1 := by
  unfold readSpecifier at h
  split at h
  · cases h
  · next t us =>
    split at h
    · next ht =>
      split at h
      · cases h
      · next specifier hvalue =>
        refine ⟨t, us, rfl, ht, ?_⟩
        repeat' split at h
        · cases h
        · cases h
          exact hvalue
        · cases h
          exact hvalue
    · cases h

theorem isSource_of_readFrom {cause : StatementFault.Cause} {r : (Text × Nat) × List Token}
    (hf : readFrom cause last ts = .ok rest) (hs : readSpecifier last rest = .ok r) :
    IsSource ts r.1.1 := by
  obtain ⟨w, rfl, hw⟩ := exists_of_readFrom hf
  obtain ⟨t, us, rfl, ht, hvalue⟩ := exists_stringValue_of_readSpecifier hs
  exact .intro hw ht hvalue

theorem exists_isComma (ts : List Token) :
    ∃ comma, ts = comma ++ (if kindAhead .comma ts then ts.tail else ts) ∧ IsComma comma := by
  split
  · next hc =>
    obtain ⟨c, us, rfl, hk⟩ := eq_cons_of_kindAhead hc
    exact ⟨[c], rfl, .inr ⟨c, rfl, hk⟩⟩
  · exact ⟨[], rfl, .inl rfl⟩

/-- What a source follows has a token for each name. -/
theorem isPart_of_readClause {r : List Binding × List Token} {specifier : Text}
    (h : readClause last ts = .ok r) (hs : IsSource r.2 specifier) :
    (r = ([], ts) ∧ kindAhead .star ts = false ∧ kindAhead .leftBrace ts = false) ∨
      ∃ run, ts = run ++ r.2 ∧ IsPart run r.1 := by
  unfold readClause at h
  split at h
  · next t us =>
    split at h
    · next hstar =>
      split at h
      · next as vs =>
        split at h
        · next has =>
          cases h
          cases vs with
          | nil => cases hs
          | cons name vs => exact .inr ⟨[t, as, name], rfl, .everything hstar has⟩
        · cases h
      · cases h
    · next hstar =>
      split at h
      · next hbrace =>
        obtain ⟨m, hm, rfl⟩ := Except.map_eq_ok_iff.1 h
        obtain ⟨run, rfl, hclose, helements⟩ := isElements_of_readElements hm
        exact .inr ⟨t :: (run ++ [m.1.2]), by simp, .names hbrace hclose helements⟩
      · next hbrace =>
        cases h
        exact .inl ⟨rfl, by simpa [kindAhead] using hstar, by simpa [kindAhead] using hbrace⟩
  · cases h
    exact .inl ⟨rfl, rfl, rfl⟩

/-- A clause is what its two readers take. -/
theorem isClause_of_readClause {r : List Binding × List Token} {specifier : Text}
    (h : readClause last (readDefaultBinding ts).2 = .ok r) (hs : IsSource r.2 specifier) :
    ∃ clause, ts = clause ++ r.2 ∧ IsClause clause ((readDefaultBinding ts).1 ++ r.1) := by
  unfold readDefaultBinding at h ⊢
  split at h
  · next t us =>
    split at h
    · next ht =>
      simp only [if_pos ht] at h ⊢
      obtain ⟨comma, hus, hcomma⟩ := exists_isComma us
      obtain ⟨rfl, -⟩ | ⟨run, hrun, hpart⟩ := isPart_of_readClause h hs
      · exact ⟨t :: comma, congrArg (t :: ·) hus, .default ht hcomma⟩
      · refine ⟨t :: (comma ++ run), ?_, .both ht hcomma hpart⟩
        rw [List.cons_append, List.append_assoc, ← hrun, ← hus]
    · next ht =>
      simp only [if_neg ht] at h ⊢
      obtain ⟨rfl, -⟩ | ⟨run, hrun, hpart⟩ := isPart_of_readClause h hs
      · -- The word `from` would have been read as the name of the default binding.
        obtain ⟨hw, -, -⟩ := hs
        exact absurd (kind_of_isWord hw) ht
      · exact ⟨run, hrun, .part hpart⟩
  · cases h
    cases hs

theorem isMark_of_marksTypeImport (ts : List Token) :
    ∃ mark, ts = mark ++ (if marksTypeImport ts then ts.tail else ts) ∧
      IsMark mark (marksTypeImport ts) := by
  cases hm : marksTypeImport ts with
  | false => exact ⟨[], rfl, .none⟩
  | true =>
    unfold marksTypeImport at hm
    split at hm
    · next t u us =>
      simp only [Bool.and_eq_true] at hm
      exact ⟨[t], rfl, .word hm.1⟩
    · cases hm

theorem marksTypeImport_of_startsMarked {clause : List Token} (h : StartsMarked clause) :
    marksTypeImport (clause ++ ts) := by
  obtain ⟨t, u, us, rfl, ht, hu⟩ := h
  simp only [List.cons_append, marksTypeImport, ht, Bool.true_and, Bool.or_eq_true, decide_eq_true_eq]
  exact .inl hu

theorem says_of_readImport (hk : word.kind = .importWord)
    (h : readImport last word ts = .ok (some (s, rest))) : Says last word ts s.form := by
  unfold readImport at h
  split at h
  · cases h
  · split at h
    · obtain ⟨⟨⟨specifier, stop⟩, r⟩, hs, h⟩ := Except.bind_eq_ok_iff.1 h
      cases h
      obtain ⟨t, us, rfl, ht, hvalue⟩ := exists_stringValue_of_readSpecifier hs
      exact .runs hk ht hvalue
    · obtain ⟨⟨bindings, r₁⟩, hc, h⟩ := Except.bind_eq_ok_iff.1 h
      obtain ⟨r₂, hf, h⟩ := Except.bind_eq_ok_iff.1 h
      obtain ⟨⟨⟨specifier, stop⟩, r₃⟩, hs, h⟩ := Except.bind_eq_ok_iff.1 h
      cases h
      obtain ⟨mark, hmark, hm⟩ := isMark_of_marksTypeImport ts
      have hsource := isSource_of_readFrom hf hs
      obtain ⟨clause, hclause, hc⟩ := isClause_of_readClause hc hsource
      simp only at hclause hc
      have hts : ts = mark ++ (clause ++ r₁) := by rw [← hclause, ← hmark]
      have hunmarked : mark = [] → ¬ StartsMarked clause := by
        rintro rfl hstarts
        have hmarks : marksTypeImport ts := by
          rw [hts, List.nil_append]
          exact marksTypeImport_of_startsMarked hstarts
        rw [hmarks] at hm
        cases hm
      have hsays : Says last word (mark ++ (clause ++ r₁)) _ := .imports hk hm hunmarked hc hsource
      rwa [← hts] at hsays

/-! ### Exports -/

theorem IsMark.eq_nil_or_singleton {mark : List Token} {typeOnly : Bool} (h : IsMark mark typeOnly) :
    mark = [] ∨ ∃ t, mark = [t] := by
  cases h with
  | none => exact .inl rfl
  | @word t _ => exact .inr ⟨t, rfl⟩

theorem isMark_of_marksTypeExport (ts : List Token) :
    ∃ mark, ts = mark ++ (if marksTypeExport ts then ts.tail else ts) ∧
      IsMark mark (marksTypeExport ts) ∧
      (mark = [] ∨ kindAhead .leftBrace ts.tail ∨ kindAhead .star ts.tail) := by
  cases hm : marksTypeExport ts with
  | false => exact ⟨[], rfl, .none, .inl rfl⟩
  | true =>
    unfold marksTypeExport at hm
    split at hm
    · next t u us =>
      simp only [Bool.and_eq_true, Bool.or_eq_true] at hm
      exact ⟨[t], rfl, .word hm.1, .inr (by simpa [kindAhead] using hm.2)⟩
    · cases hm

theorem says_of_readExportAll {mark : List Token} {star : Token} {typeOnly : Bool}
    (hk : word.kind = .exportWord) (hm : IsMark mark typeOnly) (ht : star.kind = .star)
    (h : readExportAll last word typeOnly ts = .ok (some (s, rest))) :
    Says last word (mark ++ star :: ts) s.form := by
  unfold readExportAll at h
  split at h
  · next has =>
    obtain ⟨⟨name, r₁⟩, hn, h⟩ := Except.bind_eq_ok_iff.1 h
    obtain ⟨r₂, hf, h⟩ := Except.bind_eq_ok_iff.1 h
    obtain ⟨⟨⟨specifier, stop⟩, r₃⟩, hs, h⟩ := Except.bind_eq_ok_iff.1 h
    cases h
    obtain ⟨as, us, rfl, has⟩ := eq_cons_of_wordAhead has
    obtain ⟨t, hus, hname⟩ := exists_bindingName_of_readName hn
    rw [List.tail_cons] at hus
    rw [hus]
    exact .exportsAs hk hm ht has hname (isSource_of_readFrom hf hs)
  · obtain ⟨r₂, hf, h⟩ := Except.bind_eq_ok_iff.1 h
    obtain ⟨⟨⟨specifier, stop⟩, r₃⟩, hs, h⟩ := Except.bind_eq_ok_iff.1 h
    cases h
    exact .exportsAll hk hm ht (isSource_of_readFrom hf hs)

theorem says_of_readExportNames {mark : List Token} {typeOnly : Bool}
    (hk : word.kind = .exportWord) (hm : IsMark mark typeOnly) (ho : opener.kind = .leftBrace)
    (h : readExportNames last word opener typeOnly ts = .ok (some (s, rest))) :
    Says last word (mark ++ opener :: ts) s.form := by
  obtain ⟨⟨⟨names, close⟩, r₁⟩, hn, h⟩ := Except.bind_eq_ok_iff.1 h
  obtain ⟨run, hrun, hclose, helements⟩ := isElements_of_readElements hn
  simp only at h hrun hclose helements
  rw [hrun]
  split at h
  · next hfrom =>
    obtain ⟨⟨⟨specifier, stop⟩, r₃⟩, hs, h⟩ := Except.bind_eq_ok_iff.1 h
    cases h
    obtain ⟨w, us, rfl, hw⟩ := eq_cons_of_wordAhead hfrom
    obtain ⟨t, vs, hus, ht, hvalue⟩ := exists_stringValue_of_readSpecifier hs
    rw [List.tail_cons] at hus
    rw [hus]
    exact .exportsAgain hk hm ho hclose helements (.intro hw ht hvalue)
  · next hfrom =>
    cases h
    exact .exportsList hk hm ho hclose helements (Bool.eq_false_iff.2 hfrom)

theorem declares_of_readDeclaration {d : Declared}
    (h : readDeclaration last ts = .ok (some (d, rest))) :
    Declares last ts d.names d.typeOnly := by
  have htake : ts.takeWhile isModifier ++ dropDeclarationModifiers ts = ts :=
    List.takeWhile_append_dropWhile
  have hfront : ∀ t ∈ ts.takeWhile isModifier, isModifier t := fun t ht =>
    List.mem_takeWhile_imp ht
  unfold readDeclaration at h
  split at h
  · cases h
  · next t us hts =>
    rw [hts] at htake
    rw [← htake]
    split at h
    · next hvariable =>
      have hvariable : isVariableWord t := hvariable
      split at h
      · next henum =>
        cases h
        obtain ⟨enum, vs, rfl, he⟩ := eq_cons_of_wordAhead henum
        exact .enumerated hfront hvariable he
      · obtain ⟨⟨names, rest'⟩, hnames, h⟩ := Except.map_eq_ok_iff.1 h
        cases h
        exact .declarators hfront hvariable hnames
    · split at h
      · next hnaming =>
        cases h
        exact .named hfront hnaming
      · split at h
        · next htype =>
          cases h
          exact .type hfront htype
        · cases h

theorem says_of_readExport (hk : word.kind = .exportWord)
    (h : readExport last word ts = .ok (some (s, rest))) : Says last word ts s.form := by
  unfold readExport at h
  obtain ⟨mark, hmark, hm, hahead⟩ := isMark_of_marksTypeExport ts
  simp only at h
  split at h
  · next t us hus =>
    rw [hus] at hmark
    split at h
    · next hstar => exact hmark ▸ says_of_readExportAll hk hm hstar h
    · next hstar =>
      split at h
      · next hbrace => exact hmark ▸ says_of_readExportNames hk hm hbrace h
      · next hbrace =>
        -- The word `type` is a mark only in front of a star or of a brace.
        obtain rfl : mark = [] := by
          rcases hm.eq_nil_or_singleton with hnil | ⟨w, rfl⟩
          · exact hnil
          · rw [hmark] at hahead
            simp [kindAhead, hstar, hbrace] at hahead
        obtain rfl : ts = t :: us := hmark
        split at h
        · next hdefault =>
          cases h
          exact .default hk hdefault
        · split at h
          · cases h
          · obtain ⟨r, hd, h⟩ := Except.map_eq_ok_iff.1 h
            obtain ⟨⟨d, rest'⟩, rfl, h⟩ := Option.map_eq_some_iff.1 h
            cases h
            exact .declares hk (declares_of_readDeclaration hd)
  · cases h

/-- A statement is the one that its tokens say. -/
theorem says_of_readStatement (h : readStatement last word ts = .ok (some (s, rest))) :
    Says last word ts s.form := by
  unfold readStatement at h
  split at h
  · next hk => exact says_of_readImport hk h
  · split at h
    · next hk => exact says_of_readExport hk h
    · cases h

end Read

/-! ### Scans -/

/-- The tokens hold the statement: it starts with the keyword of a statement that says what it does. -/
def SaidIn (last : Token) (ts : List Token) (s : Statement) : Prop :=
  ∃ before word us, ts = before ++ word :: us ∧ s.start = word.start ∧ Says last word us s.form

theorem SaidIn.append {last : Token} {ts : List Token} {s : Statement} (h : SaidIn last ts s)
    (front : List Token) : SaidIn last (front ++ ts) s := by
  obtain ⟨before, word, us, rfl, hsays⟩ := h
  exact ⟨front ++ before, word, us, (List.append_assoc ..).symm, hsays⟩

theorem saidIn_of_scanFrom {last : Token} {prev : Option Token} {depth : Nat} {ts : List Token}
    {ss : List Statement} (h : scanFrom last prev depth ts = .ok ss) :
    ∀ s ∈ ss, SaidIn last ts s := by
  fun_induction scanFrom last prev depth ts generalizing ss with
  | case1 =>
    cases h
    exact fun s hs => absurd hs List.not_mem_nil
  | case2 => cases h
  | case3 prev depth t us _ s rest hread ih =>
    obtain ⟨ss', hss', rfl⟩ := Except.map_eq_ok_iff.1 h
    intro s' hs'
    rcases List.mem_cons.1 hs' with rfl | hs'
    · exact ⟨[], t, us, rfl, (records_of_readStatement hread).1.1, says_of_readStatement hread⟩
    · obtain ⟨front, hfront⟩ := (readStatement_suffix hread).trans (List.suffix_cons t us)
      exact hfront ▸ (ih hss' s' hs').append front
  | case4 prev depth t us _ _ ih => exact fun s hs => (ih h s hs).append [t]
  | case5 prev depth t us _ ih => exact fun s hs => (ih h s hs).append [t]

/-- Every module statement of a source is said by its tokens. -/
theorem saidIn_of_scanSource {source : Text} {tokens : TokenStream} {statements : List Statement}
    (h : scanSource source = .ok (tokens, statements)) :
    ∀ s ∈ statements, SaidIn tokens.last tokens.tokens s := by
  unfold scanSource at h
  split at h
  · cases h
  · split at h
    · cases h
    · next hscan =>
      cases h
      exact saidIn_of_scanFrom hscan

end Statement

end ScriptBundle
