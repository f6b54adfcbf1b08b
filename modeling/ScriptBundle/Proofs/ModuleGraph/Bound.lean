import Mathlib.Data.List.Perm.Subperm
import Mathlib.Tactic.Ring
import ScriptBundle.Proofs.ModuleGraph.Closure
import ScriptBundle.Proofs.Resolver.Results

/-!
# Discovery ends

A path that can be read spells a location of the file tree, so only finitely many can: each location
with each root, as it is, with an extension, or as the directory of an index file. Every module that
discovery has read has such a path, no two have the same, and there are fewer of them than discovery is
allowed to read. It fails only where a module that it reads does.

* `Resolver.places`, `Resolver.readable`: the paths that can be read;
* `mem_readable`: there are no others;
* `Progress.length_le`: the modules that have been read are among them;
* `run_failsOnly`, `graph_failsOnly`: what a run can fail with.
-/

namespace ScriptBundle

open Path Relation

namespace Resolver

variable {r : Resolver} {p q : Path} {loc : Location} {e : Entry}

/-- The locations of the file tree, with each root. -/
def places (r : Resolver) : List Path :=
  [Root.top, Root.doubleTop].flatMap fun root =>
    ([] :: r.workspace.tree.entries.map (·.1)).map fun loc => ⟨root, loc⟩

/-- The path that leads to the place `p` when its last part is written with an extension. -/
def spelled (ext : Text) (p : Path) : Path :=
  { p with parts := p.parts.dropLast ++ [p.name.take (p.name.length - (ending ext).length) ++ ext] }

/-- The paths that specifiers can lead to and that can be read. -/
def readable (r : Resolver) : List Path :=
  r.places ++ r.extensions.flatMap (fun ext => r.places.map (spelled ext)) ++
    r.extensions.flatMap fun ext => r.places.map (·.join (r.settings.indexName ++ ext))

theorem length_places (r : Resolver) :
    r.places.length = 2 * (r.workspace.tree.entries.length + 1) := by
  simp [places]
  omega

theorem length_readable (r : Resolver) : r.readable.length + 2 = Discovery.bound r := by
  have each (f : Text → Path → Path) :
      (r.extensions.flatMap fun ext => r.places.map (f ext)).length =
        (r.settings.sourceExtensions.length + 1) * r.places.length := by
    simp [List.length_flatMap, extensions, Nat.succ_mul]
  rw [readable, List.length_append, List.length_append, each, each, length_places, Discovery.bound]
  ring

theorem mem_places {root : Root} (hroot : root ≠ .working)
    (h : r.workspace.tree.at? loc = some e) : ⟨root, loc⟩ ∈ r.places := by
  refine List.mem_flatMap.2 ⟨root, ?_, List.mem_map.2 ⟨loc, FileTree.mem_of_at? h, rfl⟩⟩
  cases root with
  | working => exact absurd rfl hroot
  | top => simp
  | doubleTop => simp

/-- A walk that begins with parts that lead downwards passes the place that they spell. -/
theorem mem_places_of_walk {root : Root} {parts more : List Text} (hroot : root ≠ .working)
    (hparts : ∀ part ∈ parts, IsDown part)
    (h : r.workspace.tree.walk [] .directory (parts ++ more) = .ok (loc, e)) :
    ⟨root, parts⟩ ∈ r.places := by
  rw [FileTree.walk_append] at h
  obtain ⟨⟨passed, e'⟩, hpassed, -⟩ := Except.bind_eq_ok_iff.1 h
  obtain ⟨rfl, hat⟩ := FileTree.walk_of_isDown hparts rfl hpassed
  exact mem_places hroot hat

/-- A path that a specifier leads to and that leads somewhere is one of the readable ones. -/
theorem mem_readable (h : Result r q)
    (hlocate : r.workspace.tree.locate r.workspace.cwd q = .ok (loc, e)) : q ∈ r.readable := by
  cases h with
  | plain hp =>
    rw [FileTree.locate_of_absolute hp.absolute q.parts, flatMap_partsOf hp.anchored.parts,
      ← List.append_nil q.parts] at hlocate
    refine List.mem_append_left _ (List.mem_append_left _ ?_)
    exact mem_places_of_walk hp.absolute hp.parts hlocate
  | @extended p ext hp hparts hext =>
    -- The last part leads to the name of `p` with the ending of the extension.
    have hname := hp.isDown_name hparts
    obtain ⟨rest, hrest⟩ := hname.partsOf_append ext
    have hfront : ∀ part ∈ p.parts.dropLast, IsDown part := fun part hpart =>
      hp.parts part ((List.dropLast_prefix _).subset hpart)
    have hdown : ∀ part ∈ p.parts.dropLast ++ [p.name ++ ending ext], IsDown part := by
      intro part hpart
      rcases List.mem_append.1 hpart with hpart | hpart
      · exact hfront part hpart
      · exact List.mem_singleton.1 hpart ▸ hname.append (not_mem_ending ext)
    rw [FileTree.locate_of_absolute hp.absolute, List.flatMap_append,
      flatMap_partsOf fun part hpart => (hfront part hpart).toIsPart, List.flatMap_singleton, hrest,
      ← List.singleton_append, ← List.append_assoc] at hlocate
    refine List.mem_append_left _ (List.mem_append_right _ (List.mem_flatMap.2 ⟨ext, hext, ?_⟩))
    refine List.mem_map.2 ⟨_, mem_places_of_walk hp.absolute hdown hlocate, ?_⟩
    simp [spelled, Path.name]
  | @index p ext hp hext =>
    refine List.mem_append_right _ (List.mem_flatMap.2 ⟨ext, hext, List.mem_map.2 ?_⟩)
    by_cases habs : (ofText (r.settings.indexName ++ ext)).isAbsolute
    · -- The directory does not matter.
      have htop : ⟨.top, []⟩ ∈ r.places := mem_places (by decide) rfl
      exact ⟨_, htop, by simp [Path.join, Path.append, habs]⟩
    · have hjoin : p.join (r.settings.indexName ++ ext) =
          { p with parts := p.parts ++ partsOf (r.settings.indexName ++ ext) } := if_neg habs
      rw [hjoin, FileTree.locate_of_absolute hp.absolute, List.flatMap_append,
        flatMap_partsOf hp.anchored.parts] at hlocate
      exact ⟨p, mem_places_of_walk hp.absolute hp.parts hlocate, rfl⟩

end Resolver

namespace Discovery

variable {r : Resolver} {start path : Path} {registry : Registry} {done : List Module}

/-- The file at a path names a file by a specifier. -/
def Imports (r : Resolver) (path : Path) (specifier : Text) : Prop :=
  ∃ source edges, readSource r path = .ok source ∧ edgesOf path source = .ok edges ∧ specifier ∈ edges

/-- The failures of discovery from a file on: those of the project, those to make a name for a
specifier of a file that has been reached, and those to ask for a path that has been reached. -/
inductive Stops (r : Resolver) (start : Path) (f : Failure) : Prop
  | project (h : f.isProjectError)
  | slash (h : r.SlashedName f)
  | climb {path : Path} {specifier : Text} (hpath : ReflTransGen (Names r) start path)
      (himports : Imports r path specifier) (h : r.ClimbedOut specifier (some path.text) f)
  | invalid {path : Path} {fault : PathFault} (hpath : ReflTransGen (Names r) start path)
      (hfile : r.isFile path = false) (hfault : path.fault? = some fault) (h : f = .invalidPath fault)

/-! ### How many modules are read -/

theorem Progress.result (h : Progress r start registry done) (hcwd : r.workspace.cwd.Anchored)
    (hstart : start.Normal) : ∀ p ∈ registry.paths, r.Result p := by
  intro p hp
  rcases ReflTransGen.cases_tail (h.reached p hp) with rfl | ⟨q, -, _, _, _, -, -, -, hres⟩
  · exact .plain hstart
  · exact Resolver.result_of_resolve hcwd hres

/-- The modules that have been read are the first of the registered files. -/
theorem Progress.paths_prefix (h : Progress r start registry done) :
    done.map (·.path) <+: registry.paths := by
  refine List.prefix_iff_getElem?.2 fun i hi => ?_
  rw [List.length_map] at hi
  rw [(h.placed i done[i] (List.getElem?_eq_getElem hi)).2, List.getElem_map]

/-- No two modules that have been read have the same path. -/
theorem Progress.nodup (h : Progress r start registry done) : (done.map (·.path)).Nodup :=
  registry.nodup.sublist h.paths_prefix.sublist

/-- The modules that have been read have different paths that can be read. -/
theorem Progress.length_le (h : Progress r start registry done) (hcwd : r.workspace.cwd.Anchored)
    (hstart : start.Normal) : done.length ≤ r.readable.length := by
  have hsub : done.map (·.path) ⊆ r.readable := by
    intro p hp
    obtain ⟨m, hm, rfl⟩ := List.mem_map.1 hp
    obtain ⟨source, _, hsource, -⟩ := (h.tells m hm).source
    obtain ⟨loc, bytes, hlocate⟩ := FileTree.locate_of_readText (readText_of_readSource hsource)
    exact Resolver.mem_readable (h.result hcwd hstart _ (h.paths_prefix.subset hp)) hlocate
  calc
    done.length = (done.map (·.path)).length := List.length_map _ |>.symm
    _ ≤ r.readable.length := (h.nodup.subperm hsub).length_le

/-! ### What can go wrong -/

theorem resolveEdges_failsOnly {P : Failure → Prop} {importer : Text} {ds : Dependencies}
    {edges : List Text} (h : ∀ specifier ∈ edges, (r.resolve specifier (some importer)).FailsOnly P) :
    (resolveEdges r importer registry ds edges).FailsOnly P := by
  induction edges generalizing registry ds with
  | nil => exact .pure _
  | cons specifier edges ih =>
    have hrest : ∀ s ∈ edges, (r.resolve s (some importer)).FailsOnly P := fun s hs =>
      h s (List.mem_cons_of_mem _ hs)
    refine (h specifier List.mem_cons_self).bind fun p _ => ?_
    simp only
    split
    · exact (Logged.FailsOnly.log _).bind fun _ _ => ih hrest
    · exact ih hrest

/-- The next module fails because of the project, at its path, or at one of its specifiers. -/
theorem readModule_failsOnly (hcwd : r.workspace.cwd.Anchored) {id : Nat}
    (hpath : ReflTransGen (Names r) start path) :
    (readModule r registry id path).FailsOnly (Stops r start) := by
  refine (Logged.FailsOnly.log _).bind fun _ _ => ?_
  refine Logged.FailsOnly.bind (.ofExcept fun f hf => ?_) fun source hsource => ?_
  · unfold readSource at hf
    split at hf
    · cases hf
    · next fault hread =>
      obtain ⟨hfault, e, hlocate⟩ := FileTree.readText_eq_error_path_iff.1 hread
      have hfile : r.isFile path = false := by
        rw [Resolver.isFile, FileTree.isFile, hlocate]
      exact .invalid hpath hfile hfault (Except.error.inj hf).symm
    · cases hf
      exact .project rfl
  refine Logged.FailsOnly.bind (.ofExcept fun f hf => ?_) fun edges hedges => ?_
  · unfold edgesOf at hf
    split at hf
    · cases hf
    · cases hf
      exact .project rfl
  refine Logged.FailsOnly.bind (resolveEdges_failsOnly fun specifier hs f hf => ?_) fun _ _ => .pure _
  rcases Resolver.resolve_failsOnly hcwd specifier _ f hf with h | h | h
  · exact .project h
  · exact .slash h
  · exact .climb hpath ⟨source, edges, hsource, hedges, hs⟩ h

/-- A run that may read more modules than can be read fails only where one of them does. -/
theorem run_failsOnly (hcwd : r.workspace.cwd.Anchored) (hstart : start.Normal) {bound : Nat}
    (h : Progress r start registry done) (hbound : r.readable.length < bound + done.length) :
    (run r bound registry done).FailsOnly (Stops r start) := by
  induction bound generalizing registry done with
  | zero =>
    have := h.length_le hcwd hstart
    omega
  | succ bound ih =>
    unfold run
    split
    · exact .pure _
    · contradiction
    · next path _ hpath heq =>
      cases heq
      have hreached := h.reached path (List.mem_of_getElem? hpath)
      refine (readModule_failsOnly hcwd hreached).bind fun x hx => ?_
      refine ih (h.step hpath hx) ?_
      rw [List.length_append, List.length_singleton]
      omega

/-- The modules that a run has read stand where their identities say. -/
theorem Progress.ofModules_eq_ok (h : Progress r start registry done) :
    ModuleGraph.ofModules done = .ok ⟨done, fun hm => (h.placed _ _ hm).1⟩ := by
  have hplaced : misplaced? done = none := by
    refine List.find?_eq_none.2 fun x hx => ?_
    have hid := (h.placed x.2 x.1 (List.mem_zipIdx_iff_getElem?.1 hx)).1
    simp [hid]
  unfold ModuleGraph.ofModules
  split
  · next hmisplaced => cases hplaced.symm.trans hmisplaced
  · rfl

/-- The graph of a program fails only where one of its modules does. -/
theorem graph_failsOnly (hcwd : r.workspace.cwd.Anchored) (entry : Text) :
    (graph r entry).FailsOnly (Stops r (r.normalize entry)) := by
  have hstart := Resolver.normal_normalize hcwd entry
  have hinitial := Progress.initial r (r.normalize entry)
  have hbound : r.readable.length < bound r + ([] : List Module).length := by
    have := r.length_readable
    simp only [List.length_nil]
    omega
  refine (run_failsOnly hcwd hstart hinitial hbound).bind fun ms hms => ?_
  obtain ⟨registry, hprogress, -⟩ := hinitial.run hms
  refine Logged.FailsOnly.bind (.ofExcept fun f hf => ?_) fun g _ => ?_
  · rw [hprogress.ofModules_eq_ok] at hf
    cases hf
  · exact (Logged.FailsOnly.log _).bind fun _ _ => .pure _

end Discovery

end ScriptBundle
