import ScriptBundle.Lowering

/-!
# The pieces of a prologue

A prologue is text, but each of its statements is one of five kinds. The kinds are kept here as data,
so that it can be said which statements run a module, and which module that is, without looking for
calls in a text that also holds names from the source.

* `Reading`, `Piece`: the expressions and statements of a prologue, and their text;
* `Statement.getterPieces`, `Statement.requirePieces`, `pieces`: those of a list of module statements,
  which `map_text_pieces` shows to be the prologue;
* `Statement.getterPieces_cases`, `Statement.requirePieces_cases`, `pieces_cases`: what pieces those
  can be, and which names they hold;
* `filterMap_specifier?_pieces`: the modules that a prologue runs, in order;
* `gettersFirst_pieces`: no getter stands behind a piece that runs a module;
* `transpile_eq_ok`, `result_transpile`: what a lowered source is made of, and which sources are lowered.
-/

namespace ScriptBundle

namespace Lowering

/-- An expression that reads a variable, or from the exports of a module that has run. -/
inductive Reading
  /-- A variable. -/
  | variable (name : Text)
  /-- A property of the exports in a variable. -/
  | property (object name : Text)
  /-- What the module with its exports in a variable gives out by default. -/
  | defaultOf (object : Text)

namespace Reading

/-- The text of an expression. -/
def text : Reading → Text
  | .variable name => name
  | .property object name => member object name
  | .defaultOf object =>
    object ++ " && " ++ object ++ ".__esModule ? " ++ object ++ ".default : " ++ object

end Reading

/-- What becomes of the exports of a module that a piece runs. -/
inductive Use
  | nothing
  | bound (name : Text)
  | passedOn

/-- A statement of a prologue. -/
inductive Piece
  /-- The mark of a module that had module syntax. -/
  | mark
  /-- The function that passes on the exports of a module. -/
  | helper
  /-- A getter on the exports. -/
  | getter (exported : Text) (value : Reading)
  /-- The call that runs a module. -/
  | run (specifier : Text) (use : Use)
  /-- The variable of an imported binding. -/
  | binding (name : Text) (value : Reading)

namespace Piece

/-- The text of a piece. -/
def text : Piece → Text
  | .mark => esModuleMark
  | .helper => exportStarHelper
  | .getter exported value => Lowering.getter exported value.text
  | .run specifier .nothing => requireCall specifier ++ ";"
  | .run specifier (.bound name) => varStatement name (requireCall specifier)
  | .run specifier .passedOn => "__tsb_export_star(" ++ requireCall specifier ++ ");"
  | .binding name value => varStatement name value.text

/-- The module that a piece runs. -/
def specifier? : Piece → Option Text
  | .run specifier _ => some specifier
  | _ => none

/-- Whether a piece is a getter on the exports. -/
def isGetter : Piece → Bool
  | .getter .. => true
  | _ => false

/-- A piece that runs a module holds one call, with the literal of its specifier. -/
theorem text_of_specifier? {p : Piece} {specifier : Text} (h : p.specifier? = some specifier) :
    ∃ front back, p.text = front ++ requireCall specifier ++ back := by
  cases p with
  | run s use =>
    cases h
    cases use with
    | nothing => exact ⟨[], ";", rfl⟩
    | bound name => exact ⟨"var " ++ name ++ " = ", ";", by simp [text, varStatement]⟩
    | passedOn => exact ⟨"__tsb_export_star(", ");", rfl⟩
  | mark | helper | getter | binding => cases h

end Piece

/-- The variable of one import binding; `object` holds the exports of its module. -/
def bindingPiece (object : Text) (b : Binding) : Piece :=
  if b.outer = "*" then .binding b.inner (.variable object)
  else if b.outer = "default" then .binding b.inner (.defaultOf object)
  else .binding b.inner (.property object b.outer)

/-- The reading behind the getter of a re-exported binding. -/
def bindingReading (object : Text) (b : Binding) : Reading :=
  if b.inner = "*" then .variable object else .property object b.inner

/-- The pieces of an import. -/
def importPieces (object specifier : Text) (bindings : List Binding) (typeOnly : Bool) :
    List Piece :=
  if typeOnly then []
  else
    match bindings, bindings.filter (!·.typeOnly) with
    | [], _ => [.run specifier .nothing]
    | _, [] => []
    | _, [b] =>
      if b.outer = "*" then [.run specifier (.bound b.inner)]
      else [.run specifier (.bound object), bindingPiece object b]
    | _, bs => .run specifier (.bound object) :: bs.map (bindingPiece object)

theorem text_bindingPiece (object : Text) (b : Binding) :
    (bindingPiece object b).text = bindingVariable object b := by
  unfold bindingPiece bindingVariable
  repeat' split
  all_goals rfl

theorem text_bindingReading (object : Text) (b : Binding) :
    (bindingReading object b).text = readBinding object b := by
  unfold bindingReading readBinding
  split <;> rfl

theorem map_text_importPieces (object specifier : Text) (bindings : List Binding)
    (typeOnly : Bool) :
    (importPieces object specifier bindings typeOnly).map Piece.text =
      importStatements object specifier bindings typeOnly := by
  unfold importPieces importStatements
  cases typeOnly with
  | true => rfl
  | false =>
    cases bindings with
    | nil => rfl
    | cons b bs =>
      simp only [Bool.false_eq_true, if_false]
      generalize (b :: bs).filter (!·.typeOnly) = kept
      rcases kept with _ | ⟨c, _ | ⟨d, kept⟩⟩
      · rfl
      · by_cases hc : c.outer = "*"
        · simp only [if_pos hc]
          rfl
        · simp only [if_neg hc, List.map_cons, List.map_nil, text_bindingPiece]
          rfl
      · simp only [List.map_cons, List.map_map, Function.comp_def, text_bindingPiece]
        rfl

end Lowering

open Lowering

/-- The variables that a statement binds or gives out. -/
def Statement.variables (s : Statement) : List Text :=
  match s.form with
  | .imports _ bindings _ | .exportList bindings _ | .declaration bindings .. => bindings.map (·.inner)
  | .default name => name.toList
  | .reexportAll .. | .reexports .. => []

namespace Statement

/-- Whether nothing is left of a statement that names a module: it is about types only. An import
without bindings is not, nor is a list of names to export again. -/
def isErased (s : Statement) : Bool :=
  match s.form with
  | .imports _ bindings typeOnly => typeOnly || (!bindings.isEmpty && bindings.all (·.typeOnly))
  | .reexportAll _ typeOnly | .reexports _ _ typeOnly => typeOnly
  | _ => false

/-- The getters of a statement as pieces. -/
def getterPieces (object : Text) (s : Statement) : List Piece :=
  match s.form with
  | .imports .. | .reexportAll .. | .default none => []
  | .reexports _ bindings typeOnly =>
    if typeOnly then []
    else (bindings.filter (!·.typeOnly)).map fun b => .getter b.outer (bindingReading object b)
  | .exportList bindings _ =>
    (bindings.filter (!·.typeOnly)).map fun b => .getter b.outer (.variable b.inner)
  | .declaration bindings .. => bindings.map fun b => .getter b.outer (.variable b.inner)
  | .default (some name) => [.getter "default" (.variable name)]

/-- The pieces of a statement that run the module that it names and bind what it takes. -/
def requirePieces (object : Text) (s : Statement) : List Piece :=
  match s.form with
  | .imports specifier bindings typeOnly => importPieces object specifier bindings typeOnly
  | .reexportAll specifier typeOnly => if typeOnly then [] else [.run specifier .passedOn]
  | .reexports specifier _ typeOnly => if typeOnly then [] else [.run specifier (.bound object)]
  | _ => []

theorem map_text_getterPieces (object : Text) (s : Statement) :
    (s.getterPieces object).map Piece.text = s.getters object := by
  obtain ⟨start, stop, form⟩ := s
  cases form with
  | imports | reexportAll => rfl
  | reexports specifier bindings typeOnly =>
    cases typeOnly with
    | true => rfl
    | false => simp [getterPieces, getters, Piece.text, Function.comp_def, text_bindingReading]
  | exportList | declaration =>
    simp [getterPieces, getters, Piece.text, Function.comp_def, Reading.text]
  | default name => cases name <;> rfl

theorem map_text_requirePieces (object : Text) (s : Statement) :
    (s.requirePieces object).map Piece.text = s.requires object := by
  obtain ⟨start, stop, form⟩ := s
  cases form with
  | imports => exact map_text_importPieces ..
  | reexportAll specifier typeOnly => cases typeOnly <;> rfl
  | reexports specifier bindings typeOnly => cases typeOnly <;> rfl
  | exportList | declaration | default => rfl

/-- The pieces that give out what a statement exports: getters that read a variable of the statement or,
for what is exported again, from the exports in `object`. -/
theorem getterPieces_cases {object : Text} {s : Statement} {p : Piece} (h : p ∈ s.getterPieces object) :
    ∃ exported value, p = .getter exported value ∧
      ((∃ name ∈ s.variables, value = .variable name) ∨
        ∃ specifier bindings typeOnly, s.form = .reexports specifier bindings typeOnly ∧
          ∃ b ∈ bindings, value = bindingReading object b) := by
  obtain ⟨start, stop, form⟩ := s
  cases form with
  | imports | reexportAll => cases h
  | reexports specifier bindings typeOnly =>
    cases typeOnly with
    | true => cases h
    | false =>
      obtain ⟨b, hb, rfl⟩ := List.mem_map.1 h
      exact ⟨b.outer, _, rfl, .inr ⟨_, _, _, rfl, b, (List.mem_filter.1 hb).1, rfl⟩⟩
  | exportList =>
    obtain ⟨b, hb, rfl⟩ := List.mem_map.1 h
    exact ⟨b.outer, _, rfl, .inl ⟨b.inner, List.mem_map_of_mem ((List.mem_filter.1 hb).1), rfl⟩⟩
  | declaration =>
    obtain ⟨b, hb, rfl⟩ := List.mem_map.1 h
    exact ⟨b.outer, _, rfl, .inl ⟨b.inner, List.mem_map_of_mem hb, rfl⟩⟩
  | default name =>
    cases name with
    | none => cases h
    | some name =>
      rw [List.mem_singleton.1 h]
      exact ⟨_, _, rfl, .inl ⟨name, List.mem_cons_self, rfl⟩⟩

/-- The getters of a statement run no module. -/
theorem specifier?_of_mem_getterPieces {object : Text} {s : Statement} {p : Piece}
    (h : p ∈ s.getterPieces object) : p.specifier? = none := by
  obtain ⟨exported, value, rfl, -⟩ := getterPieces_cases h
  rfl

theorem isGetter_bindingPiece (object : Text) (b : Binding) :
    (bindingPiece object b).isGetter = false ∧ (bindingPiece object b).specifier? = none := by
  unfold bindingPiece
  repeat' split
  all_goals exact ⟨rfl, rfl⟩

/-- The pieces of an import: first, if anything of it is left, the call that runs the module. It binds
`object`, or the variable of the import. -/
theorem importPieces_cases (object specifier : Text) (bindings : List Binding) (typeOnly : Bool) :
    (importPieces object specifier bindings typeOnly = [] ∧
      (typeOnly || (!bindings.isEmpty && bindings.all (·.typeOnly))) = true) ∨
    (∃ (use : Use) (more : List Binding), importPieces object specifier bindings typeOnly =
        .run specifier use :: more.map (bindingPiece object) ∧
      (∀ name, use = .bound name → name = object ∨ name ∈ bindings.map (·.inner)) ∧ more ⊆ bindings ∧
      (typeOnly || (!bindings.isEmpty && bindings.all (·.typeOnly))) = false) := by
  cases typeOnly with
  | true => exact .inl ⟨rfl, rfl⟩
  | false =>
    cases bindings with
    | nil => exact .inr ⟨.nothing, [], rfl, nofun, List.nil_subset _, rfl⟩
    | cons b bs =>
      have hall : (b :: bs).all (·.typeOnly) = ((b :: bs).filter (!·.typeOnly)).isEmpty := by
        rw [Bool.eq_iff_iff, List.isEmpty_iff, List.filter_eq_nil_iff]
        simp
      have hkept : (b :: bs).filter (!·.typeOnly) ⊆ b :: bs := fun c hc =>
        (List.mem_filter.1 hc).1
      have hobject : ∀ name, Use.bound object = .bound name →
          name = object ∨ name ∈ (b :: bs).map (·.inner) := fun name h => .inl (Use.bound.inj h).symm
      simp only [importPieces, Bool.false_eq_true, if_false, Bool.false_or, List.isEmpty_cons,
        Bool.not_false, Bool.true_and, hall]
      generalize (b :: bs).filter (!·.typeOnly) = kept at hkept
      match kept with
      | [] => exact .inl ⟨rfl, rfl⟩
      | [c] =>
        by_cases hc : c.outer = "*"
        · refine .inr ⟨.bound c.inner, [], if_pos hc, fun name h => .inr ?_, List.nil_subset _, rfl⟩
          rw [← Use.bound.inj h]
          exact List.mem_map_of_mem (hkept List.mem_cons_self)
        · exact .inr ⟨.bound object, [c], if_neg hc, hobject, hkept, rfl⟩
      | c :: d :: kept => exact .inr ⟨.bound object, c :: d :: kept, rfl, hobject, hkept, rfl⟩

/-- The pieces that take what a statement imports: calls that run its module, and variables for its
bindings. -/
theorem requirePieces_cases {object : Text} {s : Statement} {p : Piece}
    (h : p ∈ s.requirePieces object) :
    (∃ specifier use, p = .run specifier use ∧
      ∀ name, use = .bound name → name = object ∨ name ∈ s.variables) ∨
    ∃ specifier bindings typeOnly, s.form = .imports specifier bindings typeOnly ∧
      ∃ b ∈ bindings, p = bindingPiece object b := by
  obtain ⟨start, stop, form⟩ := s
  cases form with
  | imports specifier bindings typeOnly =>
    change p ∈ importPieces object specifier bindings typeOnly at h
    obtain ⟨he, -⟩ | ⟨use, more, he, huse, hmore, -⟩ :=
      importPieces_cases object specifier bindings typeOnly
    · rw [he] at h
      cases h
    · rw [he] at h
      rcases List.mem_cons.1 h with rfl | h
      · exact .inl ⟨specifier, use, rfl, huse⟩
      · obtain ⟨b, hb, rfl⟩ := List.mem_map.1 h
        exact .inr ⟨specifier, bindings, typeOnly, rfl, b, hmore hb, rfl⟩
  | reexportAll specifier typeOnly =>
    cases typeOnly with
    | true => cases h
    | false =>
      rw [List.mem_singleton.1 h]
      exact .inl ⟨specifier, .passedOn, rfl, nofun⟩
  | reexports specifier _ typeOnly =>
    cases typeOnly with
    | true => cases h
    | false =>
      rw [List.mem_singleton.1 h]
      exact .inl ⟨specifier, .bound object, rfl, fun name h => .inl (Use.bound.inj h).symm⟩
  | exportList | declaration | default => cases h

/-- No piece that runs a module or binds what it gives is a getter. -/
theorem isGetter_of_mem_requirePieces {object : Text} {s : Statement} {p : Piece}
    (h : p ∈ s.requirePieces object) : p.isGetter = false := by
  obtain ⟨specifier, use, rfl, -⟩ | ⟨_, _, _, -, b, -, rfl⟩ := requirePieces_cases h
  · rfl
  · exact (isGetter_bindingPiece object b).1

/-- A statement runs the module that it names, once, unless it is erased. -/
theorem filterMap_specifier?_requirePieces (object : Text) (s : Statement) :
    (s.requirePieces object).filterMap Piece.specifier? =
      if s.isErased then [] else s.specifier?.toList := by
  obtain ⟨start, stop, form⟩ := s
  cases form with
  | imports specifier bindings typeOnly =>
    change (importPieces object specifier bindings typeOnly).filterMap _ = if (typeOnly || _) then _ else _
    obtain ⟨he, hb⟩ | ⟨use, more, he, -, -, hb⟩ := importPieces_cases object specifier bindings typeOnly
    · rw [he, hb]
      rfl
    · have hnone : (more.map (bindingPiece object)).filterMap Piece.specifier? = [] :=
        List.filterMap_eq_nil_iff.2 fun p hp => by
          obtain ⟨b, -, rfl⟩ := List.mem_map.1 hp
          exact (isGetter_bindingPiece object b).2
      rw [he, hb, List.filterMap_cons, hnone]
      rfl
  | reexportAll specifier typeOnly => cases typeOnly <;> rfl
  | reexports specifier bindings typeOnly => cases typeOnly <;> rfl
  | exportList | declaration | default => rfl

end Statement

namespace Lowering

/-- The pieces of the prologue for a list of module statements. -/
def pieces (statements : List Statement) : List Piece :=
  [.mark] ++ (if statements.any (·.exportsAll) then [.helper] else []) ++
    statements.zipIdx.flatMap (fun (s, n) => s.getterPieces (moduleVariable n)) ++
    statements.zipIdx.flatMap (fun (s, n) => s.requirePieces (moduleVariable n))

theorem map_text_pieces (statements : List Statement) :
    (pieces statements).map Piece.text = prologue statements := by
  have hgetters : (fun sn : Statement × Nat => (sn.1.getterPieces (moduleVariable sn.2)).map
      Piece.text) = fun sn => sn.1.getters (moduleVariable sn.2) :=
    funext fun sn => sn.1.map_text_getterPieces _
  have hrequires : (fun sn : Statement × Nat => (sn.1.requirePieces (moduleVariable sn.2)).map
      Piece.text) = fun sn => sn.1.requires (moduleVariable sn.2) :=
    funext fun sn => sn.1.map_text_requirePieces _
  have hhelper : (if statements.any (·.exportsAll) then [Piece.helper] else []).map Piece.text =
      if statements.any (·.exportsAll) then [exportStarHelper] else [] := by
    split <;> rfl
  simp only [pieces, prologue, List.map_append, List.map_flatMap, hgetters, hrequires, hhelper]
  rfl

theorem pieces_cases {statements : List Statement} {p : Piece} (h : p ∈ pieces statements) :
    p = .mark ∨ p = .helper ∨ ∃ s ∈ statements, ∃ n,
      p ∈ s.getterPieces (moduleVariable n) ∨ p ∈ s.requirePieces (moduleVariable n) := by
  unfold pieces at h
  rcases List.mem_append.1 h with h | h
  · rcases List.mem_append.1 h with h | h
    · rcases List.mem_append.1 h with h | h
      · exact .inl (List.mem_singleton.1 h)
      · split at h
        · exact .inr (.inl (List.mem_singleton.1 h))
        · cases h
    · obtain ⟨⟨s, n⟩, hsn, h⟩ := List.mem_flatMap.1 h
      exact .inr (.inr ⟨s, List.fst_mem_of_mem_zipIdx hsn, n, .inl h⟩)
  · obtain ⟨⟨s, n⟩, hsn, h⟩ := List.mem_flatMap.1 h
    exact .inr (.inr ⟨s, List.fst_mem_of_mem_zipIdx hsn, n, .inr h⟩)

/-- What stands in front of the pieces that run modules. -/
theorem specifier?_of_mem_front {statements : List Statement} {p : Piece}
    (h : p ∈ [.mark] ++ (if statements.any (·.exportsAll) then [.helper] else []) ++
      statements.zipIdx.flatMap (fun (s, n) => s.getterPieces (moduleVariable n))) :
    p.specifier? = none := by
  rcases List.mem_append.1 h with h | h
  · rcases List.mem_append.1 h with h | h
    · rw [List.mem_singleton.1 h]
      rfl
    · split at h
      · rw [List.mem_singleton.1 h]
        rfl
      · cases h
  · obtain ⟨sn, -, h⟩ := List.mem_flatMap.1 h
    exact Statement.specifier?_of_mem_getterPieces h

/-- The modules that a prologue runs, in order, are those that the statements name, without the
erased ones. -/
theorem filterMap_specifier?_pieces (statements : List Statement) :
    (pieces statements).filterMap Piece.specifier? =
      (statements.filter (!·.isErased)).filterMap (·.specifier?) := by
  rw [pieces, List.filterMap_append,
    List.filterMap_eq_nil_iff.2 fun p hp => specifier?_of_mem_front hp, List.nil_append,
    List.filterMap_flatMap]
  simp only [Statement.filterMap_specifier?_requirePieces]
  rw [← List.flatMap_map Prod.fst
    (fun s : Statement => if s.isErased then [] else s.specifier?.toList), List.zipIdx_map_fst]
  induction statements with
  | nil => rfl
  | cons s ss ih =>
    rw [List.flatMap_cons, ih]
    cases he : s.isErased with
    | true => simp [he]
    | false => cases hs : s.specifier? <;> simp [he, hs]

/-- No getter stands behind a piece that runs a module. -/
theorem gettersFirst_pieces (statements : List Statement) :
    (pieces statements).Pairwise fun p q => p.specifier?.isSome → q.isGetter = false := by
  have hfront : ∀ {p q : Piece},
      p ∈ [.mark] ++ (if statements.any (·.exportsAll) then [.helper] else []) ++
        statements.zipIdx.flatMap (fun (s, n) => s.getterPieces (moduleVariable n)) →
      p.specifier?.isSome → q.isGetter = false := by
    intro p q hp hs
    rw [specifier?_of_mem_front hp] at hs
    cases hs
  refine List.pairwise_append.2 ⟨List.pairwise_of_forall_mem_list fun p hp q _ => hfront hp,
    List.pairwise_of_forall_mem_list fun p _ q hq _ => ?_, fun p hp q _ => hfront hp⟩
  obtain ⟨sn, -, hq⟩ := List.mem_flatMap.1 hq
  exact Statement.isGetter_of_mem_requirePieces hq

/-- A source that can be lowered has module statements, and what comes out is made of them. -/
theorem transpile_eq_ok {file source body : Text}
    (h : (Lowering.transpile file source).result = .ok body) :
    ∃ tokens statements, scanSource source = .ok (tokens, statements) ∧
      body = lower source statements := by
  unfold Lowering.transpile at h
  split at h
  · cases h
  · next tokens statements hscan =>
    refine ⟨tokens, statements, hscan, ?_⟩
    split at h
    · cases h
    · split at h
      · obtain ⟨_, _, h⟩ := Logged.result_bind_eq_ok_iff.1 h
        cases h
        rfl
      · cases h
        rfl

/-- A source that can be scanned is lowered, unless it is named as typed and holds type syntax. -/
theorem result_transpile {file source : Text} {tokens : TokenStream} {statements : List Statement}
    (hscan : scanSource source = .ok (tokens, statements))
    (hplain : isTypedFile file → findTypeSyntax tokens statements = none) :
    (Lowering.transpile file source).result = .ok (lower source statements) := by
  have hnone : (if isTypedFile file then findTypeSyntax tokens statements else none) = none := by
    split
    · next htyped => exact hplain htyped
    · rfl
  simp only [Lowering.transpile, hscan, hnone]
  cases statements <;> rfl

end Lowering

end ScriptBundle
