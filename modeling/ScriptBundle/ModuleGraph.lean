import ScriptBundle.Failure

/-!
# Module graphs

A module is a source file of a program with its identity and a table that gives, for each specifier of
its source, the identity of the module that the specifier names. In a graph the identity of a module
is its position, and the module at position 0 is the entry of the program.

* `Dependencies.insert`: tables keep the order in which the specifiers first occur (`keys_insert`), and
  the last identity of each (`lookup_insert`);
* `ModuleGraph.ofModules`, which checks the identities;
* `ModuleGraph.table`: the graph as the user sees it.
-/

namespace ScriptBundle

/-- The identities of the modules that the specifiers of a source name. -/
abbrev Dependencies := List (Text × Int)

namespace Dependencies

/-- The table with one more entry; a specifier that is there already keeps its place. -/
def insert (specifier : Text) (id : Int) : Dependencies → Dependencies
  | [] => [(specifier, id)]
  | (s, i) :: ds => if s = specifier then (s, id) :: ds else (s, i) :: insert specifier id ds

/-- The table of a list of entries. -/
def ofList (entries : List (Text × Int)) : Dependencies :=
  entries.foldl (fun ds e => insert e.1 e.2 ds) []

theorem keys_insert (specifier : Text) (id : Int) (ds : Dependencies) :
    (insert specifier id ds).map (·.1) =
      if specifier ∈ ds.map (·.1) then ds.map (·.1) else ds.map (·.1) ++ [specifier] := by
  induction ds with
  | nil => rfl
  | cons d ds ih =>
    obtain ⟨s, i⟩ := d
    unfold insert
    by_cases h : s = specifier
    · simp [h]
    · have h' : ¬specifier = s := fun e => h e.symm
      simp only [if_neg h, List.map_cons, ih, List.mem_cons, h', false_or]
      split <;> rfl

theorem lookup_insert (specifier s : Text) (id : Int) (ds : Dependencies) :
    (insert specifier id ds).lookup s = if s = specifier then some id else ds.lookup s := by
  have lookup_cons (t : Text) (i : Int) (ds : Dependencies) :
      List.lookup s ((t, i) :: ds) = if s = t then some i else ds.lookup s := by
    by_cases h : s = t
    · simp [h]
    · rw [List.lookup_cons, beq_false_of_ne h, if_neg h]
  induction ds with
  | nil => exact lookup_cons ..
  | cons d ds ih =>
    obtain ⟨t, i⟩ := d
    unfold insert
    by_cases h : t = specifier
    · subst h
      rw [if_pos rfl, lookup_cons, lookup_cons]
      split <;> rfl
    · rw [if_neg h, lookup_cons, lookup_cons, ih]
      by_cases hs : s = t
      · rw [if_pos hs, if_pos hs, if_neg (hs ▸ h)]
      · rw [if_neg hs, if_neg hs]

theorem insert_eq_append {specifier : Text} {ds : Dependencies} (h : specifier ∉ ds.map (·.1))
    (id : Int) : insert specifier id ds = ds ++ [(specifier, id)] := by
  induction ds with
  | nil => rfl
  | cons d ds ih =>
    obtain ⟨s, i⟩ := d
    simp only [List.map_cons, List.mem_cons, not_or] at h
    have hs : ¬s = specifier := fun e => h.1 e.symm
    rw [insert, if_neg hs, ih h.2, List.cons_append]

theorem insert_eq_self {specifier : Text} {id : Int} {ds : Dependencies} (hd : (ds.map (·.1)).Nodup)
    (h : (specifier, id) ∈ ds) : insert specifier id ds = ds := by
  induction ds with
  | nil => cases h
  | cons d ds ih =>
    obtain ⟨s, i⟩ := d
    rw [List.map_cons, List.nodup_cons] at hd
    rcases List.mem_cons.1 h with e | h
    · cases e
      rw [insert, if_pos rfl]
    · have hs : ¬s = specifier := by
        rintro rfl
        exact hd.1 (List.mem_map.2 ⟨_, h, rfl⟩)
      rw [insert, if_neg hs, ih hd.2 h]

end Dependencies

/-- A source file of a program. Its source is there once it has been read, and its body, which goes
into the bundle, once it has been transpiled. -/
structure Module where
  id : Int
  path : Path
  dependencies : Dependencies := []
  source? : Option Text := none
  body? : Option Text := none

/-- The first module whose identity is not its position, with that position. -/
def misplaced? (modules : List Module) : Option (Module × Nat) :=
  modules.zipIdx.find? fun (m, n) => m.id ≠ n

theorem id_eq_of_misplaced?_eq_none {modules : List Module} (h : misplaced? modules = none)
    {m : Module} {n : Nat} (hm : modules[n]? = some m) : m.id = n := by
  have := List.find?_eq_none.1 h (m, n) (List.mem_zipIdx_iff_getElem?.2 hm)
  simpa using this

/-- A list of modules in which the identity of each is its position. -/
structure ModuleGraph where
  modules : List Module
  id_eq : ∀ {m : Module} {n : Nat}, modules[n]? = some m → m.id = n

namespace ModuleGraph

/-- The graph of a list of modules. -/
def ofModules (modules : List Module) : Except InternalFault ModuleGraph :=
  match h : misplaced? modules with
  | some (m, n) => .error (.misplacedModule m.path m.id n)
  | none => .ok ⟨modules, id_eq_of_misplaced?_eq_none h⟩

theorem modules_eq_of_ofModules {modules : List Module} {g : ModuleGraph}
    (h : ofModules modules = .ok g) : g.modules = modules := by
  unfold ofModules at h
  split at h
  · cases h
  · cases h
    rfl

/-- The number of modules. -/
def size (g : ModuleGraph) : Nat := g.modules.length

/-- The module that the program starts with. -/
def first? (g : ModuleGraph) : Option Module := g.modules.head?

/-- The module with a given path. -/
def byPath? (g : ModuleGraph) (p : Path) : Option Module := g.modules.find? (·.path = p)

/-- The lines of a module in the table of its graph. -/
def moduleLines (m : Module) : List Text :=
  let dependencies : List Text :=
    match m.dependencies with
    | [] => ["    <no dependencies>"]
    | ds => ds.map fun (s, i) => "    " ++ s.quoted ++ " -> " ++ Text.ofInt i
  (Text.ofInt m.id ++ ": " ++ m.path.text) :: dependencies

/-- The modules of a graph with their dependencies, one on a line. -/
def table (g : ModuleGraph) : Text := Text.join "\n" (g.modules.flatMap moduleLines)

end ModuleGraph

end ScriptBundle
