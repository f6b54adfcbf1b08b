import Mathlib.Data.Finset.Card
import ScriptBundle.Proofs.ModuleGraph.Bound
import ScriptBundle.Proofs.ModuleGraph.Files

/-!
# The rounds of discovery

In each round discovery reads one module, the next of the registered files. It ends when every
registered file has been read, or in the round whose module fails. How many rounds there are is
bounded by the file tree: the modules that have been read are regular files, no two have the same
path, and a file has two normal paths, which start with one slash and with two.

* `Passes`: the states that discovery passes, one for each number of rounds;
* `Ends`: the ways to end in a state;
* `run_ends`, `run_eq_of_le`: a run that has room for all rounds ends, and more room changes nothing;
* `FileTree.files`, `Passes.length_le`: no more rounds than twice the number of files succeed;
* `exists_endsWith`, `graph_ends`: all that for the graph of an entry.
-/

namespace ScriptBundle

namespace FileTree

/-- The locations of the regular files. -/
def files (t : FileTree) : Finset Location :=
  (t.entries.map (·.1)).toFinset.filter fun loc => (t.at? loc).any (!·.isDirectory)

theorem mem_files {t : FileTree} {loc : Location} :
    loc ∈ t.files ↔ ∃ e, t.at? loc = some e ∧ e.isDirectory = false := by
  have hany : (t.at? loc).any (!·.isDirectory) ↔ ∃ e, t.at? loc = some e ∧ e.isDirectory = false := by
    cases t.at? loc <;> simp
  rw [files, Finset.mem_filter, List.mem_toFinset, hany]
  constructor
  · exact fun h => h.2
  · rintro ⟨e, he, hfile⟩
    refine ⟨?_, e, he, hfile⟩
    rcases List.mem_cons.1 (mem_of_at? he) with rfl | hmem
    · cases he
      cases hfile
    · exact hmem

end FileTree

namespace Discovery

variable {r : Resolver} {start path : Path} {registry registry' : Registry} {done : List Module}
  {m : Module}

/-- The states that discovery passes from the file at `start` on: the paths that have been registered,
and the modules that have been read. -/
inductive Passes (r : Resolver) (start : Path) : Registry → List Module → Prop
  | initial : Passes r start (Registry.empty.register start).1 []
  | round {registry registry' : Registry} {done : List Module} {path : Path} {m : Module}
      (hpasses : Passes r start registry done) (hpath : registry.paths[done.length]? = some path)
      (hread : (readModule r registry done.length path).result = .ok (registry', m)) :
      Passes r start registry' (done ++ [m])

/-- Discovery ends in a state with the modules that have been read when no registered file is left, and
with a failure when the next one fails. -/
def Ends (r : Resolver) (registry : Registry) (done : List Module) :
    Except Failure (List Module) → Prop
  | .ok ms => registry.paths[done.length]? = none ∧ ms = done
  | .error f => ∃ path, registry.paths[done.length]? = some path ∧
      (readModule r registry done.length path).result = .error f

theorem Passes.progress (h : Passes r start registry done) : Progress r start registry done := by
  induction h with
  | initial => exact Progress.initial r start
  | round _ hpath hread ih => exact ih.step hpath hread

/-! ### Room for all rounds -/

section Room

variable {limit bound : Nat}
  (hlimit : ∀ {registry : Registry} {done : List Module}, Passes r start registry done →
    done.length ≤ limit)

include hlimit

/-- A run with room for one module more than can succeed ends in a state that it passes. -/
theorem run_ends (h : Passes r start registry done) (hbound : limit < bound + done.length) :
    ∃ registry' done', Passes r start registry' done' ∧
      Ends r registry' done' (run r bound registry done).result := by
  induction bound generalizing registry done with
  | zero =>
    have := hlimit h
    omega
  | succ bound ih =>
    unfold run
    split
    · next hnone => exact ⟨registry, done, h, hnone, rfl⟩
    · contradiction
    · next path _ hpath heq =>
      cases heq
      rw [Logged.result_bind]
      cases hread : (readModule r registry done.length path).result with
      | error f => exact ⟨registry, done, h, path, hpath, hread⟩
      | ok x =>
        refine ih (h.round hpath hread) ?_
        rw [List.length_append, List.length_singleton]
        omega

/-- More room than that changes nothing. -/
theorem run_eq_of_le {bound' : Nat} (h : Passes r start registry done)
    (hbound : limit < bound + done.length) (hle : bound ≤ bound') :
    run r bound' registry done = run r bound registry done := by
  induction bound generalizing registry done bound' with
  | zero =>
    have := hlimit h
    omega
  | succ bound ih =>
    obtain ⟨bound', rfl⟩ : ∃ n, bound' = n + 1 := ⟨bound' - 1, by omega⟩
    cases hpath : registry.paths[done.length]? with
    | none =>
      unfold run
      rw [hpath]
    | some path =>
      unfold run
      rw [hpath]
      refine Logged.bind_congr fun x hread => ih (h.round hpath hread) ?_ (by omega)
      rw [List.length_append, List.length_singleton]
      omega

end Room

/-! ### How many rounds there are -/

section Count

variable (hcwd : r.workspace.cwd.Anchored) (hstart : start.Normal)

include hcwd hstart

theorem Passes.length_le_readable (h : Passes r start registry done) :
    done.length ≤ r.readable.length := h.progress.length_le hcwd hstart

/-- Each module that has been read is a regular file, under one of the two normal paths of the file. -/
theorem Passes.exists_file (hindex : r.HasPlainIndex) (h : Passes r start registry done) (hm : m ∈ done) :
    ∃ loc ∈ r.workspace.tree.files, r.IsFileAt m.path loc ∧
      (m.path = ⟨.top, loc⟩ ∨ m.path = ⟨.doubleTop, loc⟩) := by
  have hnormal := h.progress.normal hcwd hindex hstart m hm
  obtain ⟨bytes, hlocate⟩ := h.progress.isFileAt hcwd hindex hstart m hm
  refine ⟨m.path.parts, ?_, ⟨bytes, hlocate⟩, ?_⟩
  · exact FileTree.mem_files.2 ⟨_, (FileTree.of_locate_normal hnormal hlocate).2, rfl⟩
  · have habsolute := hnormal.absolute
    cases hpath : m.path with
    | mk root parts => cases root <;> simp_all

/-- There are at most two modules for each regular file. -/
theorem Passes.length_le (hindex : r.HasPlainIndex) (h : Passes r start registry done) :
    done.length ≤ 2 * r.workspace.tree.files.card := by
  have hsub : (done.map (·.path)).toFinset ⊆
      r.workspace.tree.files.image (Path.mk .top) ∪ r.workspace.tree.files.image (Path.mk .doubleTop) := by
    intro p hp
    obtain ⟨m, hm, rfl⟩ := List.mem_map.1 (List.mem_toFinset.1 hp)
    obtain ⟨loc, hloc, -, hpath⟩ := h.exists_file hcwd hstart hindex hm
    refine Finset.mem_union.2 (hpath.imp ?_ ?_) <;>
      exact fun heq => Finset.mem_image.2 ⟨loc, hloc, heq.symm⟩
  calc
    done.length = (done.map (·.path)).toFinset.card := by
      rw [List.toFinset_card_of_nodup h.progress.nodup, List.length_map]
    _ ≤ _ := Finset.card_le_card hsub
    _ ≤ _ := Finset.card_union_le _ _
    _ ≤ r.workspace.tree.files.card + r.workspace.tree.files.card :=
      Nat.add_le_add Finset.card_image_le Finset.card_image_le
    _ = 2 * r.workspace.tree.files.card := (Nat.two_mul _).symm

end Count

/-- How discovery from an entry on ends: in a state in which the modules `done` have been read. The
next one, if there is one, fails, and discovery with it. -/
structure EndsWith (r : Resolver) (entry : Text) (registry : Registry) (done : List Module) : Prop where
  passes : Passes r (r.normalize entry) registry done
  ends : Ends r registry done ((graph r entry).result.map (·.modules))
  /-- No two modules that have been read have the same path. -/
  nodup : (done.map (·.path)).Nodup

/-- The modules `done` that discovery from an entry on reads are at most two for each regular file. -/
structure TwicePerFile (r : Resolver) (entry : Text) (done : List Module) : Prop where
  /-- Each of them is a regular file, spelled with one slash in front or with two. -/
  file : ∀ m ∈ done, ∃ loc ∈ r.workspace.tree.files, r.IsFileAt m.path loc ∧
    (m.path = ⟨.top, loc⟩ ∨ m.path = ⟨.doubleTop, loc⟩)
  count : done.length ≤ 2 * r.workspace.tree.files.card
  /-- A run that may read that many modules, and a last one that fails, does all that discovery does. -/
  room : ∀ bound, 2 * r.workspace.tree.files.card + 1 ≤ bound →
    run r bound (Registry.empty.register (r.normalize entry)).1 [] =
      run r (Discovery.bound r) (Registry.empty.register (r.normalize entry)).1 []

/-- A graph holds the modules of the run from its entry on, and it fails like that run. -/
theorem result_graph (r : Resolver) (entry : Text) :
    (graph r entry).result.map (·.modules) =
      (run r (Discovery.bound r) (Registry.empty.register (r.normalize entry)).1 []).result := by
  cases hrun : (run r (Discovery.bound r) (Registry.empty.register (r.normalize entry)).1 []).result with
  | error f =>
    have hgraph : (graph r entry).result = .error f := by
      unfold graph
      simp only [Logged.result_bind, hrun]
      rfl
    rw [hgraph]
    rfl
  | ok ms =>
    obtain ⟨registry, hprogress, -⟩ := (Progress.initial r _).run hrun
    have hgraph : (graph r entry).result = .ok ⟨ms, fun hm => (hprogress.placed _ _ hm).1⟩ := by
      unfold graph
      simp only [Logged.result_bind, hrun]
      show Except.bind (Except.mapError _ (ModuleGraph.ofModules ms)) _ = _
      rw [hprogress.ofModules_eq_ok]
      rfl
    rw [hgraph]
    rfl

theorem length_readable_lt_bound (r : Resolver) :
    r.readable.length < Discovery.bound r + ([] : List Module).length := by
  have := r.length_readable
  rw [List.length_nil]
  omega

/-- The bound of a resolver is room enough for the run from an entry on. -/
theorem run_eq_of_bound_le (hcwd : r.workspace.cwd.Anchored) (entry : Text) {bound : Nat}
    (h : Discovery.bound r ≤ bound) :
    run r bound (Registry.empty.register (r.normalize entry)).1 [] =
      run r (Discovery.bound r) (Registry.empty.register (r.normalize entry)).1 [] :=
  run_eq_of_le (fun h => h.length_le_readable hcwd (Resolver.normal_normalize hcwd entry)) .initial
    (length_readable_lt_bound r) h

/-- Discovery ends in a state that it passes. -/
theorem exists_endsWith (hcwd : r.workspace.cwd.Anchored) (entry : Text) :
    ∃ registry done, EndsWith r entry registry done := by
  have hstart := Resolver.normal_normalize hcwd entry
  obtain ⟨registry, done, hpasses, hends⟩ :=
    run_ends (fun h => h.length_le_readable hcwd hstart) .initial (length_readable_lt_bound r)
  exact ⟨registry, done, hpasses, (result_graph r entry).symm ▸ hends, hpasses.progress.nodup⟩

/-- With plain index files, the state in which discovery ends holds at most two modules for each file. -/
theorem EndsWith.twicePerFile {entry : Text} (h : EndsWith r entry registry done)
    (hcwd : r.workspace.cwd.Anchored) (hindex : r.HasPlainIndex) : TwicePerFile r entry done := by
  have hstart := Resolver.normal_normalize hcwd entry
  refine ⟨fun m hm => h.passes.exists_file hcwd hstart hindex hm, h.passes.length_le hcwd hstart hindex,
    fun bound hle => ?_⟩
  rcases Nat.le_total bound (Discovery.bound r) with hbound | hbound
  · refine (run_eq_of_le (fun h => h.length_le hcwd hstart hindex) .initial ?_ hbound).symm
    rw [List.length_nil]
    omega
  · exact run_eq_of_bound_le hcwd entry hbound

/-- Discovery ends, whatever the files import. With plain index files, it reads at most two modules for
each regular file, and perhaps one more, which fails. -/
theorem graph_ends (hcwd : r.workspace.cwd.Anchored) (entry : Text) :
    ∃ registry done, EndsWith r entry registry done ∧ (r.HasPlainIndex → TwicePerFile r entry done) := by
  obtain ⟨registry, done, hends⟩ := exists_endsWith hcwd entry
  exact ⟨registry, done, hends, hends.twicePerFile hcwd⟩

/-- A program of two files that import each other, one of them also itself, and a package whose
manifest names a file outside the program. -/
def outsideManifest : Resolver where
  workspace :=
    { tree := ((FileTree.empty.insertFile ["p", "a.ts"]
          (.file "import './b'; import 'q'".toUTF8.toList)).insertFile ["p", "b.ts"]
          (.file "import './a'; import './b'".toUTF8.toList)).insertFile
            ["p", "node_modules", "q", "package.json"]
          (.file "\x7b\"main\": \"../../../r\"\x7d".toUTF8.toList)
      cwd := ⟨.top, ["p"]⟩ }
  settings := {}
  directory := ⟨.top, ["p"]⟩

/-- Three files, of which two are modules; what the manifest names cannot be read. -/
theorem graph_ends_outsideManifest :
    outsideManifest.workspace.cwd.Anchored ∧ outsideManifest.HasPlainIndex ∧
      outsideManifest.workspace.tree.files.card = 3 ∧
      (∃ e, (graph outsideManifest "/p/a.ts").result = .error (.unreadableSource ⟨.top, ["r"]⟩ e)) ∧
      ∃ registry done, EndsWith outsideManifest "/p/a.ts" registry done ∧
        TwicePerFile outsideManifest "/p/a.ts" done := by
  have hcwd : outsideManifest.workspace.cwd.Anchored := by decide
  have hindex : outsideManifest.HasPlainIndex := Resolver.hasPlainIndex_of_default rfl
  obtain ⟨registry, done, hends, htwice⟩ := graph_ends hcwd "/p/a.ts"
  refine ⟨hcwd, hindex, by decide +kernel, ?_, registry, done, hends, htwice hindex⟩
  have h : (match (graph outsideManifest "/p/a.ts").result with
      | .error (.unreadableSource p _) => p = ⟨.top, ["r"]⟩
      | _ => false) = true := by
    decide +kernel
  split at h
  · next p e heq => exact ⟨e, of_decide_eq_true h ▸ heq⟩
  · cases h

end Discovery

end ScriptBundle
