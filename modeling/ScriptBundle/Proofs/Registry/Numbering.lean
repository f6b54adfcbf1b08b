import Mathlib.Data.List.Nodup
import Mathlib.Data.Set.Function
import ScriptBundle.Proofs.ModuleGraph.Closure
import ScriptBundle.Registry.Catalog

/-!
# A catalog numbers the registered paths

Whatever a catalog is asked, its list and its index stay in step: they are the two tables of a registry,
which holds each path once. So the calls that a catalog has taken say what it holds, and the answers that
it has given say what it answers next.

* `Registry.catalog`: the two tables of a registry; `lookup?_catalog`, `contains_catalog`,
  `register_catalog`, `answer_catalog`: a catalog does with them what the registry does;
* `Registry.answer_cases`: what one call does; `Registry.bijOn_catalog`: the bijection;
* `Catalog.Fits`, `Catalog.Faithful`: what a call answers, by the calls and answers before it;
* `Catalog.Recorded`: what ties a registry to a history, and what every call keeps;
* `inStep_serve`: behind every sequence of calls, the tables and the answers are in step.
-/

namespace ScriptBundle

/-- In a table without two entries for one key, a key is looked up as it is entered. -/
theorem lookup_eq_some_iff_mem {α β : Type} [BEq α] [LawfulBEq α] {table : List (α × β)} {a : α}
    {b : β} (h : (table.map (·.1)).Nodup) : table.lookup a = some b ↔ (a, b) ∈ table := by
  induction table with
  | nil => simp
  | cons entry table ih =>
    obtain ⟨k, v⟩ := entry
    rw [List.map_cons, List.nodup_cons] at h
    rw [List.lookup_cons, List.mem_cons]
    by_cases hk : a = k
    · subst hk
      have hother : (a, b) ∉ table := fun hmem => h.1 (List.mem_map.2 ⟨_, hmem, rfl⟩)
      simp [hother, eq_comm]
    · have hne : (a == k) = false := beq_eq_false_iff_ne.2 hk
      simp [hne, hk, ih h.2]

namespace Registry

variable {r : Registry} {p : Path} {m : Module} {i : Nat}

/-- The modules of the registered paths, before anything is known of them but their paths. -/
def modules (r : Registry) : List Module := r.paths.zipIdx.map fun (path, id) => { id, path }

/-- The two tables of a registry. -/
def catalog (r : Registry) : Catalog where
  index := (r.modules.map fun m => (m.path, m)).reverse
  modules := r.modules

/-- The registry behind a call. -/
def after (r : Registry) : Catalog.Call → Registry
  | .register p => (r.register p).1
  | _ => r

theorem lookup?_eq_some_iff : r.lookup? p = some i ↔ r.paths[i]? = some p := by
  rw [lookup?, List.idxOf?_eq_some_iff, List.getElem?_eq_some_iff]
  refine ⟨fun ⟨hi, hp, _⟩ => ⟨hi, hp⟩, fun ⟨hi, hp⟩ => ⟨hi, hp, fun j hj hjp => ?_⟩⟩
  exact Nat.ne_of_lt hj ((List.Nodup.getElem_inj_iff r.nodup).1 (hjp.trans hp.symm))

theorem mem_modules_iff :
    m ∈ r.modules ↔ ∃ i : Nat, r.paths[i]? = some m.path ∧ m = { id := i, path := m.path } := by
  simp only [modules, List.mem_map, List.mem_zipIdx_iff_getElem?, Prod.exists]
  constructor
  · rintro ⟨p, i, hp, rfl⟩
    exact ⟨i, hp, rfl⟩
  · rintro ⟨i, hp, hm⟩
    exact ⟨m.path, i, hp, hm.symm⟩

@[simp] theorem map_path_modules (r : Registry) : r.modules.map (·.path) = r.paths := by
  rw [modules, List.map_map]
  exact List.zipIdx_map_fst ..

@[simp] theorem map_id_modules (r : Registry) :
    r.modules.map (·.id) = Discovery.firstIdentities r.size := by
  have hids : r.paths.zipIdx.map (·.2) = List.range r.size :=
    (List.zipIdx_map_snd ..).trans List.range_eq_range'.symm
  rw [modules, List.map_map, Discovery.firstIdentities, ← hids, List.map_map]
  rfl

@[simp] theorem length_modules (r : Registry) : r.modules.length = r.size := by
  simp [modules, size]

theorem modules_push (h : p ∉ r.paths) :
    (r.push p h).modules = r.modules ++ [{ id := r.size, path := p }] := by
  simp [modules, push, size, List.zipIdx_append]

theorem map_path_index (r : Registry) : r.catalog.index.map (·.1) = r.paths.reverse := by
  rw [catalog, List.map_reverse, List.map_map, ← map_path_modules]
  rfl

theorem lookup?_catalog_eq_some_iff : r.catalog.lookup? p = some m ↔ m ∈ r.modules ∧ m.path = p := by
  have hkeys : (r.catalog.index.map (·.1)).Nodup := by
    rw [map_path_index]
    exact List.nodup_reverse.2 r.nodup
  rw [Catalog.lookup?, lookup_eq_some_iff_mem hkeys, catalog, List.mem_reverse, List.mem_map]
  constructor
  · rintro ⟨m, hm, h⟩
    cases h
    exact ⟨hm, rfl⟩
  · rintro ⟨hm, rfl⟩
    exact ⟨m, hm, rfl⟩

theorem lookup?_catalog (r : Registry) (p : Path) :
    r.catalog.lookup? p = (r.lookup? p).map fun id => { id, path := p } := by
  ext m
  rw [lookup?_catalog_eq_some_iff, mem_modules_iff, Option.map_eq_some_iff]
  constructor
  · rintro ⟨⟨i, hi, hm⟩, rfl⟩
    exact ⟨i, lookup?_eq_some_iff.2 hi, hm.symm⟩
  · rintro ⟨i, hi, rfl⟩
    exact ⟨⟨i, lookup?_eq_some_iff.1 hi, rfl⟩, rfl⟩

theorem lookup?_catalog_eq_none_iff : r.catalog.lookup? p = none ↔ p ∉ r.paths := by
  rw [lookup?_catalog, Option.map_eq_none_iff]
  exact List.idxOf?_eq_none_iff

theorem size_catalog (r : Registry) : r.catalog.size = r.size := length_modules r

theorem contains_catalog (r : Registry) (p : Path) : r.catalog.contains p = r.contains p := by
  simp only [Catalog.contains, map_path_index, List.mem_reverse, contains]

theorem register_catalog (r : Registry) (p : Path) :
    r.catalog.register p =
      ((r.register p).1.catalog, { id := (r.register p).2.1, path := p }, (r.register p).2.2) := by
  by_cases hp : p ∈ r.paths
  · have hlookup : r.lookup? p = some (r.paths.idxOf p) := by
      have hid := r.getElem?_id_register p
      rw [register_of_mem hp] at hid
      exact lookup?_eq_some_iff.2 hid
    rw [register_of_mem hp, Catalog.register_of_lookup?_eq_some (by rw [lookup?_catalog, hlookup]; rfl)]
  · have hlookup : r.lookup? p = none := List.idxOf?_eq_none_iff.2 hp
    rw [register_of_not_mem hp, Catalog.register_of_lookup?_eq_none (by rw [lookup?_catalog, hlookup]; rfl)]
    simp [catalog, modules_push, Catalog.size]

theorem answer_catalog (r : Registry) (call : Catalog.Call) :
    (r.catalog.answer call).1 = (r.after call).catalog := by
  cases call with
  | register p =>
    show (r.catalog.register p).1 = _
    rw [register_catalog]
    rfl
  | _ => rfl

/-- What a call does: a path that is not there is pushed and its module is new, or nothing changes. -/
theorem answer_cases (r : Registry) (call : Catalog.Call) :
    (∃ p, ∃ hp : p ∉ r.paths, call = .register p ∧ r.after call = r.push p hp ∧
        (r.catalog.answer call).2 = .registered { id := r.size, path := p } true) ∨
      ((∀ p, call = .register p → p ∈ r.paths) ∧ r.after call = r ∧
        ∀ m, (r.catalog.answer call).2 ≠ .registered m true) := by
  cases call with
  | register p =>
    by_cases hp : p ∈ r.paths
    · refine .inr ⟨fun q hq => ?_, by rw [after, register_of_mem hp], fun m hm => ?_⟩
      · cases hq
        exact hp
      · rw [Catalog.answer, register_catalog, register_of_mem hp] at hm
        cases hm
    · refine .inl ⟨p, hp, rfl, by rw [after, register_of_not_mem hp], ?_⟩
      rw [Catalog.answer, register_catalog, register_of_not_mem hp]
  | _ => exact .inr ⟨by simp, rfl, by simp [Catalog.answer]⟩

/-- Only a path that is not there changes the tables. -/
theorem answer_catalog_ne_iff (r : Registry) (call : Catalog.Call) :
    (r.catalog.answer call).1 ≠ r.catalog ↔ ∃ p, call = .register p ∧ p ∉ r.paths := by
  rw [answer_catalog]
  rcases r.answer_cases call with ⟨p, hp, hcall, hafter, -⟩ | ⟨hknown, hafter, -⟩
  · have hsize : (r.push p hp).catalog.size = r.catalog.size + 1 := by
      simp [size_catalog, size, push]
    have hne : (r.push p hp).catalog ≠ r.catalog := by
      intro h
      rw [h] at hsize
      omega
    rw [hafter]
    exact ⟨fun _ => ⟨p, hcall, hp⟩, fun _ => hne⟩
  · rw [hafter]
    constructor
    · intro h
      exact absurd rfl h
    · rintro ⟨p, hcall, hp⟩
      exact absurd (hknown p hcall) hp

theorem map_id_lookup?_catalog (h : r.paths[i]? = some p) :
    (r.catalog.lookup? p).map (·.id) = some (i : Int) := by
  rw [lookup?_catalog, lookup?_eq_some_iff.2 h]
  rfl

/-- The tables give each path an identity, and each identity to one path. -/
theorem bijOn_catalog (r : Registry) :
    Set.BijOn (fun p => (r.catalog.lookup? p).map (·.id)) {p | p ∈ r.paths}
      {id | ∃ i < r.size, id = some (i : Int)} := by
  refine ⟨fun p hp => ?_, fun p hp q hq hpq => ?_, ?_⟩
  · obtain ⟨i, hi⟩ := List.mem_iff_getElem?.1 hp
    have hlt : i < r.size := (List.getElem?_eq_some_iff.1 hi).1
    exact ⟨i, hlt, map_id_lookup?_catalog hi⟩
  · obtain ⟨i, hi⟩ := List.mem_iff_getElem?.1 hp
    obtain ⟨j, hj⟩ := List.mem_iff_getElem?.1 hq
    have hij : (i : Int) = j := by
      simpa [map_id_lookup?_catalog hi, map_id_lookup?_catalog hj] using hpq
    rw [Int.natCast_inj.1 hij, hj] at hi
    exact (Option.some.inj hi).symm
  · rintro - ⟨i, hlt, rfl⟩
    have hlt : i < r.paths.length := hlt
    have hi : r.paths[i]? = some r.paths[i] := List.getElem?_eq_getElem hlt
    exact ⟨_, List.mem_of_getElem? hi, map_id_lookup?_catalog hi⟩

end Registry

namespace Catalog

/-- The paths that calls register, in their order. -/
def registeredPaths (calls : List Call) : List Path :=
  calls.filterMap fun
    | .register p => some p
    | _ => none

/-- The modules that were made for the calls of a history, in their order. -/
def created (history : List (Call × Answer)) : List Module :=
  history.filterMap fun
    | (_, .registered m true) => some m
    | _ => none

/-- What a call answers, by the calls and answers before it. -/
inductive Fits (before : List (Call × Answer)) : Call → Answer → Prop
  /-- A path that is registered for the first time gets a new module, with the next identity. -/
  | first {p : Path} (h : p ∉ registeredPaths (before.map (·.1))) :
    Fits before (.register p) (.registered { id := (created before).length, path := p } true)
  /-- A path that is registered again has the module that it got then. -/
  | again {p : Path} {m : Module} (h : (.register p, .registered m true) ∈ before) :
    Fits before (.register p) (.registered m false)
  | found {p : Path} {m : Module} (h : (.register p, .registered m true) ∈ before) :
    Fits before (.lookup p) (.found (some m))
  | missing {p : Path} (h : p ∉ registeredPaths (before.map (·.1))) :
    Fits before (.lookup p) (.found none)
  | contained (p : Path) :
    Fits before (.contains p) (.contained (p ∈ registeredPaths (before.map (·.1))))
  | counted : Fits before .size (.counted (created before).length)
  | listed : Fits before .modules (.listed (created before))

/-- Every answer of a history is the one that the calls and answers before it ask for. -/
def Faithful (history : List (Call × Answer)) : Prop :=
  ∀ before call a behind, history = before ++ (call, a) :: behind → Fits before call a

variable {r : Registry} {history : List (Call × Answer)} {call : Call} {a : Answer} {p : Path}
  {m : Module}

theorem mem_created : m ∈ created history ↔ ∃ call, (call, .registered m true) ∈ history := by
  simp only [created, List.mem_filterMap]
  constructor
  · rintro ⟨⟨call, a⟩, hmem, h⟩
    split at h
    · next heq =>
      cases heq
      cases h
      exact ⟨call, hmem⟩
    · cases h
  · rintro ⟨call, hmem⟩
    exact ⟨_, hmem, rfl⟩

theorem paths_after {calls : List Call} (h : r.paths = (registeredPaths calls).eraseDups)
    (call : Call) : (r.after call).paths = (registeredPaths (calls ++ [call])).eraseDups := by
  rw [registeredPaths, List.filterMap_append]
  cases call with
  | register p => exact Discovery.paths_register_eq_eraseDups h p
  | _ => simpa [Registry.after, registeredPaths] using h

theorem created_concat_new (history : List (Call × Answer)) (call : Call) (m : Module) :
    created (history ++ [(call, .registered m true)]) = created history ++ [m] :=
  List.filterMap_append

theorem created_concat_old (h : ∀ m, a ≠ .registered m true) :
    created (history ++ [(call, a)]) = created history := by
  have hlast : created [(call, a)] = [] := by
    refine List.filterMap_eq_nil_iff.2 fun e he => ?_
    rw [List.mem_singleton.1 he]
    split
    · next heq =>
      cases heq
      exact absurd rfl (h _)
    · rfl
  rw [created, List.filterMap_append]
  exact (congrArg (created history ++ ·) hlast).trans (List.append_nil _)

theorem Faithful.concat (h : Faithful history) (hfits : Fits history call a) :
    Faithful (history ++ [(call, a)]) := by
  intro before call' a' behind heq
  -- The answer is the new one, or it stands in the old history.
  rcases List.eq_nil_or_concat behind with rfl | ⟨front, e, rfl⟩
  · obtain ⟨rfl, hlast⟩ := List.append_inj' heq rfl
    cases hlast
    exact hfits
  · have heq : history ++ [(call, a)] = (before ++ (call', a') :: front) ++ [e] := by simpa using heq
    exact h _ _ _ _ (List.append_inj' heq rfl).1

/-- The registry holds what a history says: the paths that were registered, and the modules that were
made. The answers of the history are right. -/
structure Recorded (r : Registry) (history : List (Call × Answer)) : Prop where
  paths_eq : r.paths = (registeredPaths (history.map (·.1))).eraseDups
  modules_eq : r.modules = created history
  register_of_new : ∀ call m, (call, .registered m true) ∈ history → call = .register m.path
  faithful : Faithful history

theorem Recorded.mem_paths (h : Recorded r history) :
    p ∈ r.paths ↔ p ∈ registeredPaths (history.map (·.1)) := by
  rw [h.paths_eq, List.mem_eraseDups]

theorem Recorded.registered_iff (h : Recorded r history) :
    (.register p, .registered m true) ∈ history ↔ m ∈ r.modules ∧ m.path = p := by
  rw [h.modules_eq, mem_created]
  constructor
  · intro hmem
    have hp := h.register_of_new _ _ hmem
    cases hp
    exact ⟨⟨_, hmem⟩, rfl⟩
  · rintro ⟨⟨call, hmem⟩, rfl⟩
    exact h.register_of_new _ _ hmem ▸ hmem

theorem Recorded.size_eq (h : Recorded r history) : r.size = (created history).length := by
  rw [← h.modules_eq, Registry.length_modules]

/-- A call answers what the history asks for. -/
theorem Recorded.fits (h : Recorded r history) (call : Call) :
    Fits history call (r.catalog.answer call).2 := by
  have hsome {p : Path} {m : Module} (hm : r.catalog.lookup? p = some m) :
      (.register p, .registered m true) ∈ history :=
    h.registered_iff.2 (Registry.lookup?_catalog_eq_some_iff.1 hm)
  have hnone {p : Path} (hp : r.catalog.lookup? p = none) :
      p ∉ registeredPaths (history.map (·.1)) :=
    mt h.mem_paths.2 (Registry.lookup?_catalog_eq_none_iff.1 hp)
  cases call with
  | register p =>
    cases hp : r.catalog.lookup? p with
    | some m =>
      rw [Catalog.answer, register_of_lookup?_eq_some hp]
      exact .again (hsome hp)
    | none =>
      rw [Catalog.answer, register_of_lookup?_eq_none hp, Registry.size_catalog, h.size_eq]
      exact .first (hnone hp)
  | lookup p =>
    rw [Catalog.answer]
    cases hp : r.catalog.lookup? p with
    | some m => exact .found (hsome hp)
    | none => exact .missing (hnone hp)
  | contains p =>
    rw [Catalog.answer, Registry.contains_catalog, Registry.contains, decide_eq_decide.2 h.mem_paths]
    exact .contained p
  | size =>
    rw [Catalog.answer, Registry.size_catalog, h.size_eq]
    exact .counted
  | modules =>
    have hmodules : r.catalog.modules = created history := h.modules_eq
    rw [Catalog.answer, hmodules]
    exact .listed

/-- A call keeps the tables in step with the history. -/
theorem Recorded.answer (h : Recorded r history) (call : Call) :
    Recorded (r.after call) (history ++ [(call, (r.catalog.answer call).2)]) where
  paths_eq := by
    rw [List.map_append]
    exact paths_after h.paths_eq call
  modules_eq := by
    rcases r.answer_cases call with ⟨p, hp, -, hafter, ha⟩ | ⟨-, hafter, hold⟩
    · rw [hafter, Registry.modules_push, h.modules_eq, ha, created_concat_new]
    · rw [hafter, h.modules_eq, created_concat_old hold]
  register_of_new call' m hmem := by
    rcases List.mem_append.1 hmem with hmem | hmem
    · exact h.register_of_new _ _ hmem
    · obtain ⟨rfl, hm⟩ := Prod.ext_iff.1 (List.mem_singleton.1 hmem)
      rcases r.answer_cases call' with ⟨p, hp, rfl, -, ha⟩ | ⟨-, -, hold⟩
      · cases hm.trans ha
        rfl
      · exact absurd hm.symm (hold m)
  faithful := h.faithful.concat (h.fits call)

theorem map_fst_serve (c : Catalog) (calls : List Call) : (c.serve calls).2.map (·.1) = calls := by
  induction calls generalizing c with
  | nil => rfl
  | cons call calls ih => rw [serve_cons, List.map_cons, ih]

theorem serve_catalog (r : Registry) (calls : List Call) :
    (r.catalog.serve calls).1 = (calls.foldl Registry.after r).catalog := by
  induction calls generalizing r with
  | nil => rfl
  | cons call calls ih => rw [serve_cons, Registry.answer_catalog, ih, List.foldl_cons]

theorem Recorded.serve (h : Recorded r history) (calls : List Call) :
    Recorded (calls.foldl Registry.after r) (history ++ (r.catalog.serve calls).2) := by
  -- Calls are taken from the front and recorded at the end, so the history varies with the registry.
  induction calls generalizing r history with
  | nil => simpa using h
  | cons call calls ih =>
    have hrest := ih (h.answer call)
    rw [List.append_assoc] at hrest
    rw [serve_cons, Registry.answer_catalog]
    exact hrest

theorem recorded_empty : Recorded .empty [] where
  paths_eq := rfl
  modules_eq := rfl
  register_of_new := by simp
  faithful := by simp [Faithful]

/-- What a catalog holds behind calls, and what it has answered. -/
structure InStep (calls : List Call) (c : Catalog) (history : List (Call × Answer)) : Prop where
  /-- Every call has an answer, in their order. -/
  calls_eq : history.map (·.1) = calls
  /-- Every answer is the one that the calls and answers before it ask for. -/
  faithful : Faithful history
  /-- The modules have the different paths that were registered, in the order of the first times. -/
  paths_eq : c.modules.map (·.path) = (registeredPaths calls).eraseDups
  /-- The modules have the identities from 0 on, in their order. -/
  ids_eq : c.modules.map (·.id) = Discovery.firstIdentities c.size
  /-- The index is a bijection between the registered paths and these identities. -/
  bijOn : Set.BijOn (fun p => (c.lookup? p).map (·.id)) {p | p ∈ registeredPaths calls}
    {id | ∃ i < c.size, id = some (i : Int)}
  /-- The index holds the modules of the list. -/
  lookup?_eq_some_iff : ∀ p m, c.lookup? p = some m ↔ m ∈ c.modules ∧ m.path = p
  contains_iff : ∀ p, c.contains p ↔ p ∈ registeredPaths calls
  /-- Only a path that is registered for the first time changes something. -/
  changes_iff : ∀ call,
    (c.answer call).1 ≠ c ↔ ∃ p, call = .register p ∧ p ∉ registeredPaths calls
  /-- The tables are those of the registry in which the paths are registered. -/
  eq_catalog : c = (calls.foldl Registry.after .empty).catalog

/-- Behind every sequence of calls, the list and the index of a catalog are a bijection between the paths
that were registered and the first identities, and every answer has been the right one. -/
theorem inStep_serve (calls : List Call) :
    InStep calls (empty.serve calls).1 (empty.serve calls).2 := by
  obtain ⟨r, hr⟩ : ∃ r, r = calls.foldl Registry.after .empty := ⟨_, rfl⟩
  have hrecorded : Recorded r (empty.serve calls).2 := hr ▸ recorded_empty.serve calls
  have hcatalog : (empty.serve calls).1 = r.catalog := hr ▸ serve_catalog .empty calls
  have hcalls : (empty.serve calls).2.map (·.1) = calls := map_fst_serve empty calls
  have hpaths (p : Path) : p ∈ r.paths ↔ p ∈ registeredPaths calls := hcalls ▸ hrecorded.mem_paths
  rw [hcatalog]
  exact {
    calls_eq := hcalls
    faithful := hrecorded.faithful
    paths_eq := (r.map_path_modules.trans hrecorded.paths_eq).trans (by rw [hcalls])
    ids_eq := by rw [r.size_catalog]; exact r.map_id_modules
    bijOn := by simpa only [hpaths, r.size_catalog] using r.bijOn_catalog
    lookup?_eq_some_iff := fun _ _ => Registry.lookup?_catalog_eq_some_iff
    contains_iff := fun p => by
      rw [r.contains_catalog, Registry.contains, decide_eq_true_iff, hpaths]
    changes_iff := fun call => by simpa only [hpaths] using r.answer_catalog_ne_iff call
    eq_catalog := by rw [hr] }

/-- Two spellings of a path have one identity; with two slashes in front it is another path. -/
example :
    (empty.serve [.register (.ofText "/p/a.ts"), .register (.ofText "//p/a.ts"),
      .register (.ofText "/p/./a.ts")]).1.modules.map (fun m => (m.id, m.path.text)) =
      ([(0, "/p/a.ts"), (1, "//p/a.ts")] : List (Int × Text)) := by
  decide +kernel

end Catalog

end ScriptBundle
