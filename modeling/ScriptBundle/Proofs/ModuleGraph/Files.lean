import ScriptBundle.Proofs.ModuleGraph.Bound

/-!
# The files of the modules

Modules are told apart by their paths, and the paths of a graph are normal. A normal path spells the
location that it leads to, so two modules are one file only if their paths have the same parts and
differ in the root, which can be written with one slash or with two.

* `Result.normal`: with plain index files, specifiers lead to normal paths;
* `normal_of_graph`, `isFileAt_of_graph`: the modules of a graph, as files;
* `sameFile_iff_of_graph`: when two modules are one file.
-/

namespace ScriptBundle

open Path

namespace Resolver

variable {r : Resolver} {p q : Path}

/-- The path leads to the regular file at a location. -/
def IsFileAt (r : Resolver) (p : Path) (loc : Location) : Prop :=
  ∃ bytes, r.workspace.tree.locate r.workspace.cwd p = .ok (loc, .file bytes)

/-- Index files are entries of the directories that they stand for. -/
def HasPlainIndex (r : Resolver) : Prop :=
  ∀ ext ∈ r.extensions, IsDown (r.settings.indexName ++ ext)

instance (r : Resolver) : Decidable r.HasPlainIndex :=
  inferInstanceAs (Decidable (∀ ext ∈ r.extensions, IsDown (r.settings.indexName ++ ext)))

/-- The index files of the default settings are plain. -/
theorem hasPlainIndex_of_default (h : r.settings = {}) : r.HasPlainIndex := by
  unfold HasPlainIndex extensions
  rw [h]
  decide

theorem HasPlainIndex.no_slash (h : r.HasPlainIndex) {ext : Text} (hext : ext ∈ r.extensions) :
    CodePoint.ofChar '/' ∉ ext := fun hslash =>
  (h ext hext).no_slash (List.mem_append_right _ hslash)

/-- With plain index files, a specifier leads to a normal path. -/
theorem Result.normal (hindex : r.HasPlainIndex) (h : Result r q) : q.Normal := by
  cases h with
  | plain hp => exact hp
  | @extended p ext hp hparts hext =>
    refine ⟨hp.absolute, fun part hpart => ?_⟩
    rcases List.mem_append.1 hpart with hpart | hpart
    · exact hp.parts part ((List.dropLast_prefix _).subset hpart)
    · rw [List.mem_singleton.1 hpart]
      exact (hp.isDown_name hparts).append (hindex.no_slash hext)
  | index hp hext => exact hp.join (hindex _ hext)

theorem IsFileAt.eq_parts {loc : Location} (hp : p.Normal) (h : r.IsFileAt p loc) : loc = p.parts := by
  obtain ⟨bytes, hlocate⟩ := h
  exact (FileTree.of_locate_normal hp hlocate).1

end Resolver

namespace Discovery

variable {r : Resolver} {entry : Text} {g : ModuleGraph}

/-- The modules that have been read have normal paths. -/
theorem Progress.normal {start : Path} {registry : Registry} {done : List Module}
    (h : Progress r start registry done) (hcwd : r.workspace.cwd.Anchored) (hindex : r.HasPlainIndex)
    (hstart : start.Normal) : ∀ m ∈ done, m.path.Normal := by
  intro m hm
  obtain ⟨i, hi⟩ := List.getElem?_of_mem hm
  exact (h.result hcwd hstart _ (List.mem_of_getElem? (h.placed i m hi).2)).normal hindex

/-- Each module that has been read is the file at the location that its path spells. -/
theorem Progress.isFileAt {start : Path} {registry : Registry} {done : List Module}
    (h : Progress r start registry done) (hcwd : r.workspace.cwd.Anchored) (hindex : r.HasPlainIndex)
    (hstart : start.Normal) : ∀ m ∈ done, r.IsFileAt m.path m.path.parts := by
  intro m hm
  obtain ⟨source, _, hsource, -⟩ := (h.tells m hm).source
  obtain ⟨loc, hfile⟩ := FileTree.locate_of_readText (readText_of_readSource hsource)
  have hfile : r.IsFileAt m.path loc := hfile
  exact hfile.eq_parts (h.normal hcwd hindex hstart m hm) ▸ hfile

/-- The modules of a graph have normal paths. -/
theorem normal_of_graph (hcwd : r.workspace.cwd.Anchored) (hindex : r.HasPlainIndex)
    (h : (graph r entry).result = .ok g) : ∀ m ∈ g.modules, m.path.Normal := by
  obtain ⟨registry, hprogress, -⟩ := progress_of_graph h
  exact hprogress.normal hcwd hindex (Resolver.normal_normalize hcwd entry)

/-- Each module of a graph is the file at the location that its path spells. -/
theorem isFileAt_of_graph (hcwd : r.workspace.cwd.Anchored) (hindex : r.HasPlainIndex)
    (h : (graph r entry).result = .ok g) : ∀ m ∈ g.modules, r.IsFileAt m.path m.path.parts := by
  obtain ⟨registry, hprogress, -⟩ := progress_of_graph h
  exact hprogress.isFileAt hcwd hindex (Resolver.normal_normalize hcwd entry)

/-- Different modules of a graph have different paths. -/
theorem path_ne_of_graph (h : (graph r entry).result = .ok g) {i j : Nat} {m n : Module}
    (hm : g.modules[i]? = some m) (hn : g.modules[j]? = some n) (hij : i ≠ j) : m.path ≠ n.path := by
  obtain ⟨registry, hprogress, -⟩ := progress_of_graph h
  have hmp := (hprogress.placed i m hm).2
  have hnp := (hprogress.placed j n hn).2
  obtain ⟨hi, hmi⟩ := List.getElem?_eq_some_iff.1 hmp
  obtain ⟨hj, hnj⟩ := List.getElem?_eq_some_iff.1 hnp
  intro heq
  refine hij ?_
  rw [← registry.nodup.idxOf_getElem i hi, ← registry.nodup.idxOf_getElem j hj, hmi, hnj, heq]

/-- Two modules of a graph are one file exactly when their paths differ in nothing but the root. -/
theorem sameFile_iff_of_graph (hcwd : r.workspace.cwd.Anchored) (hindex : r.HasPlainIndex)
    (h : (graph r entry).result = .ok g) :
    (∀ m ∈ g.modules, r.IsFileAt m.path m.path.parts) ∧
    ∀ (i j : Nat) (m n : Module), g.modules[i]? = some m → g.modules[j]? = some n → i ≠ j →
      ((∃ loc, r.IsFileAt m.path loc ∧ r.IsFileAt n.path loc) ↔
        m.path.parts = n.path.parts ∧
          (m.path.root = .top ∧ n.path.root = .doubleTop ∨
            m.path.root = .doubleTop ∧ n.path.root = .top)) := by
  have hnormal := normal_of_graph hcwd hindex h
  have hfile := isFileAt_of_graph hcwd hindex h
  refine ⟨hfile, fun i j m n hm hn hij => ?_⟩
  have hmg : m ∈ g.modules := List.mem_of_getElem? hm
  have hng : n ∈ g.modules := List.mem_of_getElem? hn
  constructor
  · rintro ⟨loc, hmloc, hnloc⟩
    have hparts : m.path.parts = n.path.parts := by
      rw [← hmloc.eq_parts (hnormal m hmg), hnloc.eq_parts (hnormal n hng)]
    have hroot : m.path.root ≠ n.path.root := by
      intro hroot
      refine path_ne_of_graph h hm hn hij ?_
      show Path.mk m.path.root m.path.parts = _
      rw [hroot, hparts]
    have hma := (hnormal m hmg).absolute
    have hna := (hnormal n hng).absolute
    refine ⟨hparts, ?_⟩
    cases hmr : m.path.root <;> cases hnr : n.path.root <;> simp_all
  · rintro ⟨hparts, -⟩
    exact ⟨m.path.parts, hfile m hmg, hparts ▸ hfile n hng⟩

/-- A program that names one of its files from the top of the file tree, with two slashes. -/
def twoSlashes : Resolver where
  workspace :=
    { tree := (FileTree.empty.insertFile ["p", "a.ts"]
          (.file "import './b'; import '//p/b'".toUTF8.toList)).insertFile ["p", "b.ts"] (.file [])
      cwd := ⟨.top, ["p"]⟩ }
  settings := {}
  directory := ⟨.top, ["p"]⟩

theorem anchored_twoSlashes : twoSlashes.workspace.cwd.Anchored := by decide

theorem hasPlainIndex_twoSlashes : twoSlashes.HasPlainIndex := Resolver.hasPlainIndex_of_default rfl

/-- What reading that program finds: the entry and twice the other file. -/
theorem paths_twoSlashes : ∃ g, (graph twoSlashes "/p/a.ts").result = .ok g ∧
    g.modules.map (·.path) =
      [⟨.top, ["p", "a.ts"]⟩, ⟨.top, ["p", "b.ts"]⟩, ⟨.doubleTop, ["p", "b.ts"]⟩] := by
  have h : (graph twoSlashes "/p/a.ts").result.toOption.any (fun g => g.modules.map (·.path) =
      [⟨.top, ["p", "a.ts"]⟩, ⟨.top, ["p", "b.ts"]⟩, ⟨.doubleTop, ["p", "b.ts"]⟩]) := by
    decide +kernel
  obtain ⟨g, hg, hpaths⟩ := Except.exists_of_any_toOption h
  exact ⟨g, hg, of_decide_eq_true hpaths⟩

/-- Two modules of that program are the same file. -/
theorem sameFile_twoSlashes :
    ∃ g, (graph twoSlashes "/p/a.ts").result = .ok g ∧
      ∃ m n loc, g.modules[1]? = some m ∧ g.modules[2]? = some n ∧
        twoSlashes.IsFileAt m.path loc ∧ twoSlashes.IsFileAt n.path loc := by
  obtain ⟨g, hg, hpaths⟩ := paths_twoSlashes
  have module_at {i : Nat} {p : Path} (hp : (g.modules.map (·.path))[i]? = some p) :
      ∃ m, g.modules[i]? = some m ∧ m.path = p := by
    rwa [List.getElem?_map, Option.map_eq_some_iff] at hp
  obtain ⟨m, hm, hmpath⟩ := module_at (i := 1) (by rw [hpaths]; rfl)
  obtain ⟨n, hn, hnpath⟩ := module_at (i := 2) (by rw [hpaths]; rfl)
  refine ⟨g, hg, m, n, ["p", "b.ts"], hm, hn, ?_, ?_⟩
  · rw [hmpath]
    exact ⟨[], rfl⟩
  · rw [hnpath]
    exact ⟨[], rfl⟩

theorem sameFile_iff_twoSlashes :
    ∃ g, (graph twoSlashes "/p/a.ts").result = .ok g ∧ g.size = 3 ∧
      (∀ m ∈ g.modules, twoSlashes.IsFileAt m.path m.path.parts) ∧
      ∀ (i j : Nat) (m n : Module), g.modules[i]? = some m → g.modules[j]? = some n → i ≠ j →
        ((∃ loc, twoSlashes.IsFileAt m.path loc ∧ twoSlashes.IsFileAt n.path loc) ↔
          m.path.parts = n.path.parts ∧
            (m.path.root = .top ∧ n.path.root = .doubleTop ∨
              m.path.root = .doubleTop ∧ n.path.root = .top)) := by
  obtain ⟨g, hg, hpaths⟩ := paths_twoSlashes
  have hsize : g.size = 3 := by simpa [ModuleGraph.size] using congrArg List.length hpaths
  exact ⟨g, hg, hsize, sameFile_iff_of_graph anchored_twoSlashes hasPlainIndex_twoSlashes hg⟩

end Discovery

end ScriptBundle
