import ScriptBundle.Proofs.ModuleGraph.Rounds
import ScriptBundle.Proofs.Project.Resolution

/-!
# Discovering modules at two sites

Discovery at two sites goes in lockstep: as long as nothing leads out of the project, both registries
hold the same places in the same order, and a module that is read at one site is read at the other, with
the same source and the same table. It may run out of its bound at neither, so both graphs are there or
neither is.

* `SameRegistry`, `SameModule`: the same files of a project at two sites;
* `SameRegistry.register`: registering one place at both;
* `resolveEdges_agrees`, `readModule_agrees`: one module;
* `run_agrees`, `graph_agrees`: all of them.
-/

namespace ScriptBundle

theorem idxOf_map_of_injective {α β : Type} [DecidableEq α] [DecidableEq β] {f : α → β}
    (hf : Function.Injective f) (a : α) (as : List α) : (as.map f).idxOf (f a) = as.idxOf a := by
  induction as with
  | nil => rfl
  | cons b as ih =>
    by_cases h : b = a
    · simp [h]
    · have h' : f b ≠ f a := fun e => h (hf e)
      rw [List.map_cons, List.idxOf_cons_ne _ h', List.idxOf_cons_ne _ h, ih]

namespace Site

open Discovery

variable {P : Project} {a b : Site P}

theorem path_injective (s : Site P) : Function.Injective s.path := Place.below_injective s.root

/-- The registries hold the same places of the project, in the same order. -/
def SameRegistry (a b : Site P) (r r' : Registry) : Prop :=
  ∃ places : List Place, r.paths = places.map a.path ∧ r'.paths = places.map b.path

/-- The modules are the same file of the project, with the same identity and the same contents. -/
structure SameModule (a b : Site P) (m n : Module) : Prop where
  place : ∃ p : Place, p ≠ .top ∧ m.path = a.path p ∧ n.path = b.path p
  id_eq : m.id = n.id
  dependencies_eq : m.dependencies = n.dependencies
  source_eq : m.source? = n.source?
  body_eq : m.body? = n.body?

theorem paths_register_path (s : Site P) {r : Registry} {places : List Place}
    (h : r.paths = places.map s.path) (p : Place) :
    (r.register (s.path p)).1.paths = (if p ∈ places then places else places ++ [p]).map s.path := by
  rw [Registry.paths_register, h]
  simp only [List.mem_map_of_injective s.path_injective]
  split <;> simp

/-- Registering the same place keeps the registries the same, and the place gets the same identity. -/
theorem SameRegistry.register {r r' : Registry} {x y : Path} (h : SameRegistry a b r r')
    (hxy : SamePlace a b x y) :
    SameRegistry a b (r.register x).1 (r'.register y).1 ∧
      (r.register x).2.1 = (r'.register y).2.1 := by
  obtain ⟨places, ha, hb⟩ := h
  obtain ⟨p, rfl, rfl⟩ := hxy
  have ha' := a.paths_register_path ha p
  have hb' := b.paths_register_path hb p
  refine ⟨⟨_, ha', hb'⟩, ?_⟩
  rw [Registry.id_register, Registry.id_register, ha', hb', idxOf_map_of_injective a.path_injective,
    idxOf_map_of_injective b.path_injective]

theorem SameRegistry.getElem? {r r' : Registry} (h : SameRegistry a b r r') (i : Nat) :
    Option.Rel (SamePlace a b) r.paths[i]? r'.paths[i]? := by
  obtain ⟨places, ha, hb⟩ := h
  rw [ha, hb, List.getElem?_map, List.getElem?_map]
  cases places[i]? with
  | none => exact .none
  | some p => exact .some ⟨p, rfl, rfl⟩

/-! ### One module -/

/-- Of a place of the project the same source is read at both sites. -/
theorem readSource_agrees (a b : Site P) (p : Place) :
    Agree (fun x y => x = y ∧ readSource P.resolver p.path = .ok x) (readSource a.resolver (a.path p))
      (readSource b.resolver (b.path p)) := by
  have ha := a.readText_agrees p
  have hb := b.readText_agrees p
  unfold readSource
  rw [workspace_resolver, workspace_resolver]
  generalize P.resolver.workspace.tree.readText _ _ = x, a.workspace.tree.readText _ _ = y,
    b.workspace.tree.readText _ _ = z at ha hb ⊢
  cases ha with
  | error e ea => cases hb with | error _ eb => cases ea <;> cases eb <;> exact .error _ _
  | ok ha => cases hb with | ok hb =>
    subst ha hb
    exact .ok ⟨rfl, rfl⟩

/-- The scanner does not look at the path. -/
theorem edgesOf_agrees (a b : Site P) (p : Place) (source : Text) :
    Agree (fun es es' => es = es' ∧ edgesOf p.path source = .ok es) (edgesOf (a.path p) source)
      (edgesOf (b.path p) source) := by
  unfold edgesOf
  cases moduleEdges source with
  | error f => exact .error _ _
  | ok statements => exact .ok ⟨rfl, rfl⟩

theorem ne_top_of_readSource {p : Place} {source : Text}
    (h : readSource P.resolver p.path = .ok source) : p ≠ .top := by
  rintro rfl
  obtain ⟨bytes, hat⟩ := P.at?_of_readText (readText_of_readSource h)
  cases hat

section Lockstep

variable (hP : P.IsPlain) (hself : P.SelfContained) {ra rb : Registry}

include hP hself

/-- The edges of one module. -/
theorem resolveEdges_agrees {file : Place} (hfile : file ≠ .top) {edges : List Text}
    (hedges : ∀ specifier ∈ edges, P.Contains file.parent.parts specifier)
    (h : SameRegistry a b ra rb) (ds : Dependencies) :
    Agree (fun x y => SameRegistry a b x.1 y.1 ∧ x.2 = y.2)
      (resolveEdges a.resolver (a.path file).text ra ds edges).result
      (resolveEdges b.resolver (b.path file).text rb ds edges).result := by
  induction edges generalizing ra rb ds with
  | nil => exact .ok ⟨h, rfl⟩
  | cons specifier edges ih =>
    rw [result_resolveEdges_cons, result_resolveEdges_cons]
    refine (resolve_agrees hP (a.baseDirectory_some hfile) (b.baseDirectory_some hfile) hself
      (hedges specifier List.mem_cons_self)).bind fun x y hxy => ?_
    obtain ⟨hregistry, hid⟩ := h.register hxy
    rw [hid]
    exact ih (fun s hs => hedges s (List.mem_cons_of_mem _ hs)) hregistry _

/-- One module. -/
theorem readModule_agrees (h : SameRegistry a b ra rb) (id : Nat) (file : Place) :
    Agree (fun x y => SameRegistry a b x.1 y.1 ∧ SameModule a b x.2 y.2)
      (readModule a.resolver ra id (a.path file)).result
      (readModule b.resolver rb id (b.path file)).result := by
  refine Logged.agree_bind (R := fun _ _ => True) (.ok trivial) fun _ _ _ => ?_
  refine Logged.agree_bind (readSource_agrees a b file) ?_
  rintro source _ ⟨rfl, hsource⟩
  refine Logged.agree_bind (edgesOf_agrees a b file source) ?_
  rintro edges _ ⟨rfl, hedges⟩
  have hfile := ne_top_of_readSource hsource
  have hcontains : ∀ specifier ∈ edges, P.Contains file.parent.parts specifier := fun specifier hs =>
    hself.specifiers file specifier ⟨source, edges, hsource, hedges, hs⟩
  refine Logged.agree_bind (resolveEdges_agrees hP hself hfile hcontains h []) ?_
  rintro ⟨ra', ds⟩ ⟨rb', _⟩ ⟨hregistry, rfl⟩
  exact .ok ⟨hregistry, ⟨⟨file, hfile, rfl, rfl⟩, rfl, rfl, rfl, rfl⟩⟩

/-- All modules behind those that have been read. -/
theorem run_agrees (bound : Nat) {done done' : List Module} (h : SameRegistry a b ra rb)
    (hdone : List.Forall₂ (SameModule a b) done done') :
    Agree (List.Forall₂ (SameModule a b)) (run a.resolver bound ra done).result
      (run b.resolver bound rb done').result := by
  induction bound generalizing ra rb done done' with
  | zero =>
    have hnext := h.getElem? done'.length
    unfold run
    rw [hdone.length_eq]
    generalize ra.paths[done'.length]? = x?, rb.paths[done'.length]? = y? at hnext ⊢
    cases hnext with
    | none => exact .ok hdone
    | some _ => exact .error _ _
  | succ bound ih =>
    have hnext := h.getElem? done'.length
    unfold run
    rw [hdone.length_eq]
    generalize ra.paths[done'.length]? = x?, rb.paths[done'.length]? = y? at hnext ⊢
    cases hnext with
    | none => exact .ok hdone
    | some hxy =>
      obtain ⟨file, rfl, rfl⟩ := hxy
      refine Logged.agree_bind (readModule_agrees hP hself h done'.length file) ?_
      rintro ⟨ra', m⟩ ⟨rb', n⟩ ⟨hregistry, hmn⟩
      exact ih hregistry (List.rel_append hdone (.cons hmn .nil))

end Lockstep

theorem SameRegistry.initial {x y : Path} (h : SamePlace a b x y) :
    SameRegistry a b (Registry.empty.register x).1 (Registry.empty.register y).1 :=
  (SameRegistry.register ⟨[], rfl, rfl⟩ h).1

theorem anchored_cwd (s : Site P) : s.resolver.workspace.cwd.Anchored :=
  ⟨by simp [workspace], fun part h => (s.down part h).toIsPart⟩

/-- The graphs of a file of the project at two sites. -/
theorem graph_agrees (hP : P.IsPlain) (hself : P.SelfContained) {x y : Path} (h : SamePlace a b x y) :
    Agree (fun g g' => List.Forall₂ (SameModule a b) g.modules g'.modules)
      (graph a.resolver x.text).result (graph b.resolver y.text).result := by
  obtain ⟨p, rfl, rfl⟩ := h
  -- A bound that is room enough at both sites.
  let both := max (Discovery.bound a.resolver) (Discovery.bound b.resolver)
  have hrun := run_agrees hP hself both
    (SameRegistry.initial (a := a) (b := b) ⟨p, a.normalize_path p, b.normalize_path p⟩) .nil
  rw [run_eq_of_bound_le a.anchored_cwd _ (Nat.le_max_left _ _),
    run_eq_of_bound_le b.anchored_cwd _ (Nat.le_max_right _ _), ← result_graph, ← result_graph] at hrun
  exact hrun.of_map

end Site

end ScriptBundle
