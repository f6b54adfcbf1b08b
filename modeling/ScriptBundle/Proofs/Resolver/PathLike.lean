import ScriptBundle.Proofs.Path.Place
import ScriptBundle.Proofs.Resolver.Candidates

/-!
# Path-like specifiers

A path-like specifier, joined to the directory of its importer and normalized, stands for the first of
some files: for the path itself if its name ends with a source extension, and otherwise for the path
with one of the extensions; and then, if the path leads to a directory, for one of its index files. What
it leads to can be used as a specifier itself, from everywhere, and leads to itself.

* `Settings.HasPlainNames`: extensions and index names as they are meant;
* `Resolver.filesFor`: the files that a path stands for, in order;
* `Resolver.IsSettled`: a path that leads to itself;
* `resolveRelative_first`: what a path-like specifier leads to.
-/

namespace ScriptBundle

/-- The extensions of sources start with a dot, and no name holds a slash. -/
structure Settings.HasPlainNames (st : Settings) : Prop where
  dot : ∀ ext ∈ st.sourceExtensions, Text.headIs ext '.'
  extension : ∀ ext ∈ st.sourceExtensions, CodePoint.ofChar '/' ∉ ext
  index : CodePoint.ofChar '/' ∉ st.indexName

namespace Path

variable {p : Path} {s ext : Text}

/-- The path with an extension behind its last part. -/
def extend (p : Path) (ext : Text) : Path := { p with parts := p.parts.dropLast ++ [p.name ++ ext] }

theorem name_extend (p : Path) (ext : Text) : (p.extend ext).name = p.name ++ ext := by
  simp [extend, name]

theorem Normal.extend (h : p.Normal) (hp : p.parts ≠ []) (hext : CodePoint.ofChar '/' ∉ ext) :
    (p.extend ext).Normal := by
  refine ⟨h.absolute, fun part hpart => ?_⟩
  rcases List.mem_append.1 hpart with hpart | hpart
  · exact h.parts part ((List.dropLast_prefix _).subset hpart)
  · rw [List.mem_singleton.1 hpart]
    exact (h.isDown_name hp).append hext

/-- A normal path that has a name takes an extension. -/
theorem Normal.withName_append (h : p.Normal) (hp : p.parts ≠ []) (hext : CodePoint.ofChar '/' ∉ ext) :
    p.withName (p.name ++ ext) = .ok (p.extend ext) := by
  have hname := ((h.isDown_name hp).append hext).isName
  rw [withName, if_neg (by simpa using hp), if_pos hname]
  rfl

theorem Normal.isEmpty_name (h : p.Normal) : p.name.isEmpty = decide (p.parts = []) := by
  by_cases hp : p.parts = []
  · simp [name, hp]
  · have hname := (h.isDown_name hp).nonempty
    simp [hp, hname]

theorem Normal.isAbsolute (h : p.Normal) : p.isAbsolute := by simpa [Path.isAbsolute] using h.absolute

/-- The text of a normal path is seen as the path from every directory. -/
theorem Normal.join_text (h : p.Normal) (base : Path) : base.join p.text = p := by
  rw [Path.join, ofText_text h.anchored, append, if_pos h.isAbsolute]

theorem Normal.isRelativeSpecifier_text (h : p.Normal) : isRelativeSpecifier p.text := by
  obtain ⟨root, parts⟩ := p
  have hhead : Text.headIs (Path.mk root parts).text '/' := by
    cases root with
    | working => exact absurd rfl h.absolute
    | top => rfl
    | doubleTop => rfl
  simp [isRelativeSpecifier, hhead]

theorem join_of_partsOf_eq_nil (hroot : rootOf s = .working) (hs : partsOf s = []) (p : Path) :
    p.join s = p := by
  simp [Path.join, append, Path.isAbsolute, ofText, hroot, hs]

theorem IsDown.name_join (h : IsDown s) (p : Path) : (p.join s).name = s := by
  simp [Path.join, h.ofText, Path.append, Path.isAbsolute, Path.name]

/-- What is no entry of a directory leads to it or upwards. -/
theorem join_of_not_isDown (h : ¬ IsDown s) (hs : CodePoint.ofChar '/' ∉ s) (p : Path) :
    p.join s = p ∨ p.join s = { p with parts := p.parts ++ [Text.ofString ".."] } := by
  by_cases hup : s = ".."
  · subst hup
    exact .inr rfl
  · left
    have hpart : s = [] ∨ s = "." := by
      by_contra hpart
      rw [not_or] at hpart
      exact h ⟨⟨hpart.1, hpart.2, hs⟩, hup⟩
    rcases hpart with rfl | rfl
    · exact join_of_partsOf_eq_nil rfl rfl p
    · exact join_of_partsOf_eq_nil rfl rfl p

end Path

namespace Resolver

open Path

variable {r : Resolver} {specifier : Text} {importer : Option Text} {p q : Path}

/-- The files that a normalized path stands for, in the order in which they count. The top of the file
tree has no name that could take an extension. -/
def filesFor (r : Resolver) (q : Path) : List Path :=
  let extensions := r.settings.sourceExtensions
  let named :=
    if ∃ ext ∈ extensions, ext <:+ q.name then [q]
    else if q.parts = [] then []
    else extensions.map q.extend
  let indexFiles :=
    if r.isDirectory q then extensions.map fun ext => q.join (r.settings.indexName ++ ext) else []
  named ++ indexFiles

/-- A path to which every way to name it leads. -/
structure IsSettled (r : Resolver) (p : Path) : Prop where
  absolute : p.isAbsolute
  normal : r.normalize p.text = p
  extension : ∃ ext ∈ r.settings.sourceExtensions, ext <:+ p.name
  relative : ∀ importer, r.resolveRelative p.text importer = .ok p
  specifier : ∀ importer, (r.resolve p.text importer).result = .ok p
  entry : r.resolveEntry p.text = .ok p

theorem firstFile_map_ok (ps : List Path) : r.firstFile (ps.map .ok) = .ok (ps.find? r.isFile) := by
  induction ps with
  | nil => rfl
  | cons p ps ih =>
    rw [List.map_cons, firstFile, List.find?_cons, ih]
    cases r.isFile p <;> rfl

theorem relativeCandidates_eq (hnames : r.settings.HasPlainNames) (hq : q.Normal) :
    r.relativeCandidates q = (r.filesFor q).map .ok := by
  have hsuffix : r.settings.sourceExtensions.any (·.isSuffixOf q.name) =
      decide (∃ ext ∈ r.settings.sourceExtensions, ext <:+ q.name) := by
    rw [Bool.eq_iff_iff, List.any_eq_true, decide_eq_true_iff]
    simp only [List.isSuffixOf_iff_suffix]
  have hextended (hparts : q.parts ≠ []) :
      (r.settings.sourceExtensions.map fun ext => q.withName (q.name ++ ext)) =
        (r.settings.sourceExtensions.map q.extend).map .ok := by
    rw [List.map_map]
    exact List.map_congr_left fun ext hext => hq.withName_append hparts (hnames.extension ext hext)
  simp only [relativeCandidates, filesFor, hsuffix, hq.isEmpty_name, decide_eq_true_eq, List.map_append]
  congr 1
  · split
    · rfl
    · split
      · rfl
      · next hparts => exact hextended hparts
  · split
    · rw [List.map_map]
      rfl
    · rfl

/-! ### The files that are found -/

theorem exists_of_isDirectory (h : r.isDirectory q) :
    ∃ loc, r.workspace.tree.locate r.workspace.cwd q = .ok (loc, .directory) := by
  unfold isDirectory FileTree.isDirectory at h
  split at h
  · next loc e hlocate =>
    cases e with
    | directory => exact ⟨loc, hlocate⟩
    | _ => cases h
  · cases h

/-- What is no entry of a directory is no file. -/
theorem isFile_join_of_not_isDown {s : Text} (hq : q.Normal) (hdirectory : r.isDirectory q)
    (hs : CodePoint.ofChar '/' ∉ s) (hdown : ¬ IsDown s) : r.isFile (q.join s) = false := by
  obtain ⟨loc, hlocate⟩ := exists_of_isDirectory hdirectory
  rcases join_of_not_isDown hdown hs q with hjoin | hjoin
  · rw [hjoin]
    simp [isFile, FileTree.isFile, hlocate, Entry.isDirectory]
  · rw [FileTree.locate_of_absolute hq.absolute q.parts] at hlocate
    have hup : r.workspace.tree.locate r.workspace.cwd (q.join s) = .ok (loc.dropLast, .directory) := by
      rw [hjoin, FileTree.locate_of_absolute hq.absolute, List.flatMap_append, FileTree.walk_append,
        hlocate]
      rfl
    simp [isFile, FileTree.isFile, hup, Entry.isDirectory]

/-- A file that a path stands for has a normal path, which ends with a source extension. -/
theorem normal_of_mem_filesFor (hnames : r.settings.HasPlainNames) (hq : q.Normal)
    (hp : p ∈ r.filesFor q) (hfile : r.isFile p) :
    p.Normal ∧ ∃ ext ∈ r.settings.sourceExtensions, ext <:+ p.name := by
  rcases List.mem_append.1 hp with hp | hp
  · split at hp
    · next hext => exact List.mem_singleton.1 hp ▸ ⟨hq, hext⟩
    · split at hp
      · cases hp
      · next hparts =>
        obtain ⟨ext, hext, rfl⟩ := List.mem_map.1 hp
        refine ⟨hq.extend hparts (hnames.extension ext hext), ext, hext, ?_⟩
        rw [name_extend]
        exact List.suffix_append _ _
  · split at hp
    · next hdirectory =>
      obtain ⟨ext, hext, rfl⟩ := List.mem_map.1 hp
      have hslash : CodePoint.ofChar '/' ∉ r.settings.indexName ++ ext := by
        simp [hnames.index, hnames.extension ext hext]
      have hdown : IsDown (r.settings.indexName ++ ext) := by
        by_contra hdown
        rw [isFile_join_of_not_isDown hq hdirectory hslash hdown] at hfile
        cases hfile
      refine ⟨hq.join hdown, ext, hext, ?_⟩
      rw [hdown.name_join]
      exact List.suffix_append _ _
    · cases hp

/-- A path-like specifier leads to the first of the files that its path stands for. -/
theorem resolveRelative_eq (hcwd : r.workspace.cwd.Anchored) (hnames : r.settings.HasPlainNames)
    (specifier : Text) (importer : Option Text) :
    r.resolveRelative specifier importer =
      match (r.filesFor (r.normalize ((r.baseDirectory importer).join specifier).text)).find?
        r.isFile with
      | some p => .ok p
      | none => .error (.moduleNotFound .file specifier importer) := by
  have hq := normal_normalize hcwd ((r.baseDirectory importer).join specifier).text
  simp only [resolveRelative, relativeCandidates_eq hnames hq, firstFile_map_ok]
  cases (r.filesFor _).find? r.isFile <;> rfl

/-- A file with a normal path that ends with a source extension is what its own path stands for. -/
theorem isSettled_of_normal (hcwd : r.workspace.cwd.Anchored) (hnames : r.settings.HasPlainNames)
    (hp : p.Normal) (hext : ∃ ext ∈ r.settings.sourceExtensions, ext <:+ p.name) (hfile : r.isFile p) :
    r.IsSettled p := by
  have hnormal : r.normalize p.text = p := hp.normalize_text _
  have hfirst : (r.filesFor p).find? r.isFile = some p := by
    rw [filesFor, if_pos hext, List.singleton_append, List.find?_cons_of_pos hfile]
  have hrelative (importer : Option Text) : r.resolveRelative p.text importer = .ok p := by
    rw [resolveRelative_eq hcwd hnames, hp.join_text, hnormal, hfirst]
  refine ⟨hp.isAbsolute, hnormal, hext, hrelative, fun importer => ?_, hrelative none⟩
  rw [resolve, if_pos hp.isRelativeSpecifier_text]
  exact hrelative importer

/-- A path-like specifier leads to the first file of those that its path stands for, and nowhere if
there is none. What it leads to leads to itself. -/
theorem resolveRelative_first (hcwd : r.workspace.cwd.Anchored) (hnames : r.settings.HasPlainNames)
    (specifier : Text) (importer : Option Text) :
    let q := r.normalize ((r.baseDirectory importer).join specifier).text
    (∀ p, r.resolveRelative specifier importer = .ok p ↔ (r.filesFor q).find? r.isFile = some p) ∧
    ((∀ p ∈ r.filesFor q, r.isFile p = false) →
      r.resolveRelative specifier importer = .error (.moduleNotFound .file specifier importer)) ∧
    ∀ p, r.resolveRelative specifier importer = .ok p → r.IsSettled p := by
  intro q
  have hq : q.Normal := normal_normalize hcwd _
  have heq : r.resolveRelative specifier importer = match (r.filesFor q).find? r.isFile with
      | some p => .ok p
      | none => .error (.moduleNotFound .file specifier importer) :=
    resolveRelative_eq hcwd hnames specifier importer
  have hfirst (p : Path) : r.resolveRelative specifier importer = .ok p ↔
      (r.filesFor q).find? r.isFile = some p := by
    rw [heq]
    cases (r.filesFor q).find? r.isFile <;> simp
  refine ⟨hfirst, fun hnone => ?_, fun p hp => ?_⟩
  · have hfind : (r.filesFor q).find? r.isFile = none :=
      List.find?_eq_none.2 fun p hp => by simp [hnone p hp]
    rw [heq, hfind]
  · have hfind := (hfirst p).1 hp
    have hfile : r.isFile p := List.find?_some hfind
    obtain ⟨hnormal, hext⟩ := normal_of_mem_filesFor hnames hq (List.mem_of_find?_eq_some hfind) hfile
    exact isSettled_of_normal hcwd hnames hnormal hext hfile

/-- Two source extensions, and directories that are named like files. -/
def twoExtensions : Resolver where
  workspace :=
    { tree := ((FileTree.empty.insertFile ["p", "lib.ts", "index.js"] (.file [])).insertFile
          ["p", "lib.js"] (.file [])).insertFile ["p", "lib", "index.ts"] (.file [])
      cwd := ⟨.top, ["p"]⟩ }
  settings := { sourceExtensions := [".ts", ".js"] }
  directory := ⟨.top, ["p"]⟩

/-- A directory is no file, whatever its name, and a file counts before the index file of a
directory. -/
theorem resolveRelative_first_twoExtensions :
    twoExtensions.workspace.cwd.Anchored ∧ twoExtensions.settings.HasPlainNames ∧
      twoExtensions.resolveRelative "./lib" (some "/p/a.ts") = .ok ⟨.top, ["p", "lib.js"]⟩ ∧
      twoExtensions.resolveRelative "./x/../lib.ts" (some "/p/a.ts") =
        .ok ⟨.top, ["p", "lib.ts", "index.js"]⟩ ∧
      twoExtensions.IsSettled ⟨.top, ["p", "lib.ts", "index.js"]⟩ := by
  have hcwd : twoExtensions.workspace.cwd.Anchored := by decide
  have hnames : twoExtensions.settings.HasPlainNames := ⟨by decide, by decide, by decide⟩
  have hlib := resolveRelative_first hcwd hnames "./lib" (some "/p/a.ts")
  have hindex := resolveRelative_first hcwd hnames "./x/../lib.ts" (some "/p/a.ts")
  have hpath := (hindex.1 ⟨.top, ["p", "lib.ts", "index.js"]⟩).2 (by decide +kernel)
  exact ⟨hcwd, hnames, (hlib.1 ⟨.top, ["p", "lib.js"]⟩).2 (by decide +kernel), hpath,
    hindex.2.2 _ hpath⟩

end Resolver

end ScriptBundle
