import Mathlib.Data.List.Infix
import ScriptBundle.Proofs.FileTree.Locate
import ScriptBundle.Proofs.ModuleGraph.Files
import ScriptBundle.Proofs.Path.Place
import ScriptBundle.Proofs.Session.Agree

/-!
# The sites of a project

A project is a tree of files with the settings that it is built with. A site of the project is a file
tree in which it stands below some directory, with nothing else around but the directories above. At
every site the places of the project hold what they hold in the project itself, and around the project
there is neither a file nor a package directory.

* `Project`, `Site`, `Site.path`: where a project stands, and the paths of its places there;
* `FileTree.Holds`, `FileTree.moved`, `holds_moved`: a file tree with nothing but the project in it, and
  that there is one below each directory;
* `Site.locate_path`, `Site.isFile_path`, `Site.readText_agrees`: the places of the project;
* `Site.isFile_beside`, `Site.isDirectory_packages_above`: what is around it;
* `Site.exists_packageRoot?`: the package directory that counts for a place.
-/

namespace ScriptBundle

open Path

namespace FileTree

variable {w t : FileTree} {root loc : Location} {e : Entry} {parts : List Text}

/-- The tree `w` holds the tree `t` below the directory that `root` spells, and nothing else. -/
structure Holds (w : FileTree) (root : Location) (t : FileTree) : Prop where
  above : ∀ loc, loc <+: root → w.at? loc = some .directory
  inside : ∀ loc, w.at? (root ++ loc) = t.at? loc
  nothingElse : ∀ loc, ¬loc <+: root → ¬root <+: loc → w.at? loc = none

/-- The tree that holds `t` below a directory, and nothing else. -/
def moved (t : FileTree) (root : Location) : FileTree :=
  ⟨root.inits.map (·, .directory) ++ t.entries.map fun x => (root ++ x.1, x.2)⟩

theorem lookup_map_directory (locs : List Location) (loc : Location) :
    (locs.map (·, Entry.directory)).lookup loc = if loc ∈ locs then some .directory else none := by
  induction locs with
  | nil => rfl
  | cons loc' locs ih =>
    by_cases h : loc = loc'
    · simp [h]
    · simp [List.lookup_cons, beq_false_of_ne h, ih, h]

theorem lookup_map_append (entries : List (Location × Entry)) (root loc : Location) :
    (entries.map fun x => (root ++ x.1, x.2)).lookup (root ++ loc) = entries.lookup loc := by
  induction entries with
  | nil => rfl
  | cons x entries ih =>
    obtain ⟨loc', e⟩ := x
    by_cases h : loc = loc'
    · simp [h]
    · have h' : ¬root ++ loc = root ++ loc' := fun e => h (List.append_cancel_left e)
      simp [List.lookup_cons, beq_false_of_ne h, beq_false_of_ne h', ih]

theorem lookup_map_append_of_not_prefix (entries : List (Location × Entry)) (h : ¬root <+: loc) :
    (entries.map fun x => (root ++ x.1, x.2)).lookup loc = none := by
  refine List.lookup_eq_none_iff.2 fun x hx => ?_
  obtain ⟨y, -, rfl⟩ := List.mem_map.1 hx
  exact bne_iff_ne.2 fun e => h ⟨y.1, e.symm⟩

/-- A project can stand below any directory. -/
theorem holds_moved (t : FileTree) (root : Location) : (t.moved root).Holds root t := by
  have hlookup {loc : Location} (hloc : loc ≠ []) : (t.moved root).at? loc =
      (if loc ∈ root.inits then some .directory else none).or
        ((t.entries.map fun x => (root ++ x.1, x.2)).lookup loc) := by
    obtain ⟨part, rest, rfl⟩ := List.exists_cons_of_ne_nil hloc
    rw [← lookup_map_directory, ← List.lookup_append]
    rfl
  have habove (loc : Location) (h : loc <+: root) : (t.moved root).at? loc = some .directory := by
    by_cases hloc : loc = []
    · subst hloc
      rfl
    · rw [hlookup hloc, if_pos ((List.mem_inits loc root).2 h)]
      rfl
  refine ⟨habove, fun loc => ?_, fun loc hnot hnot' => ?_⟩
  · cases loc with
    | nil =>
      rw [List.append_nil, habove root List.prefix_rfl]
      rfl
    | cons part loc =>
      have hnot : root ++ part :: loc ∉ root.inits := by
        intro h
        have := ((List.mem_inits _ _).1 h).length_le
        simp only [List.length_append, List.length_cons] at this
        omega
      rw [hlookup (by simp), if_neg hnot, lookup_map_append]
      rfl
  · have hloc : loc ≠ [] := fun h => hnot (h ▸ List.nil_prefix)
    rw [hlookup hloc, if_neg fun h => hnot ((List.mem_inits loc root).1 h),
      lookup_map_append_of_not_prefix _ hnot']
    rfl

/-- The directories above the project can be walked through. -/
theorem Holds.walk_root (h : w.Holds root t) {front back : Location} (hroot : front ++ back = root)
    (hback : ∀ part ∈ back, IsDown part) : w.walk front .directory back = .ok (root, .directory) := by
  induction back generalizing front with
  | nil => simp [walk, ← hroot]
  | cons part back ih =>
    have hup : part ≠ ".." := (hback part List.mem_cons_self).not_up
    have hnext : front ++ [part] ++ back = root := by simpa using hroot
    have hat : w.at? (front ++ [part]) = some .directory := h.above _ ⟨back, hnext⟩
    simp only [walk, Entry.isDirectory, hup, hat]
    exact ih hnext fun x hx => hback x (List.mem_cons_of_mem _ hx)

/-- A walk downwards inside the project. -/
theorem Holds.walk_inside (h : w.Holds root t) (hparts : ∀ part ∈ parts, IsDown part) (loc : Location)
    (e : Entry) :
    w.walk (root ++ loc) e parts = (t.walk loc e parts).map fun x => (root ++ x.1, x.2) := by
  induction parts generalizing loc e with
  | nil => rfl
  | cons part parts ih =>
    have hup : part ≠ ".." := (hparts part List.mem_cons_self).not_up
    simp only [walk, if_neg hup, List.append_assoc, h.inside]
    cases e.isDirectory with
    | false => rfl
    | true =>
      cases t.at? (loc ++ [part]) with
      | none => rfl
      | some e => exact ih (fun x hx => hparts x (List.mem_cons_of_mem _ hx)) _ _

/-- No deeper than the project, there is nothing but the directories above it. -/
theorem Holds.above_of_length_le (h : w.Holds root t) (hlength : loc.length ≤ root.length)
    (hat : w.at? loc = some e) : e = .directory ∧ loc <+: root := by
  have habove : loc <+: root := by
    by_contra hnot
    have hnot' : ¬root <+: loc := fun hroot =>
      hnot (hroot.eq_of_length (Nat.le_antisymm hroot.length_le hlength) ▸ List.prefix_rfl)
    rw [h.nothingElse loc hnot hnot'] at hat
    cases hat
  rw [h.above loc habove] at hat
  cases hat
  exact ⟨rfl, habove⟩

end FileTree

/-- A tree of files, and the settings that it is built with. -/
structure Project where
  tree : FileTree
  settings : Settings

namespace Project

/-- What specifiers are resolved against when there is nothing but the project. -/
def resolver (P : Project) : Resolver := .ofWorkspace ⟨P.tree, ⟨.top, []⟩⟩ P.settings

@[simp] theorem settings_resolver (P : Project) : P.resolver.settings = P.settings := rfl

/-- A place that can be read is that of a file. -/
theorem at?_of_readText (P : Project) {p : Place} {source : Text}
    (h : P.resolver.workspace.tree.readText P.resolver.workspace.cwd p.path = .ok source) :
    ∃ bytes, P.tree.at? p.parts = some (.file bytes) := by
  obtain ⟨loc, bytes, hlocate⟩ := FileTree.locate_of_readText h
  obtain ⟨rfl, hat⟩ := FileTree.of_locate_normal p.normal_path hlocate
  exact ⟨bytes, hat⟩

theorem mem_entries_of_readText (P : Project) {p : Place} {source : Text}
    (h : P.resolver.workspace.tree.readText P.resolver.workspace.cwd p.path = .ok source) :
    p.parts ∈ P.tree.entries.map (·.1) := by
  obtain ⟨bytes, hat⟩ := P.at?_of_readText h
  rcases List.mem_cons.1 (FileTree.mem_of_at? hat) with hnil | h
  · rw [hnil] at hat
    cases hat
  · exact h

/-- The index files and the package directories of the project are entries of the directories that
they stand in. -/
structure IsPlain (P : Project) : Prop where
  index : P.resolver.HasPlainIndex
  packageDirectory : IsDown P.settings.packageDirectory

/-- With the default settings a project is plain. -/
theorem isPlain_of_default {P : Project} (h : P.settings = {}) : P.IsPlain where
  index := Resolver.hasPlainIndex_of_default h
  packageDirectory := by
    rw [h]
    decide

end Project

/-- Where a project stands: a file tree with the project below one of its directories, and nothing else.
No package directory is named on the way to the project. -/
structure Site (P : Project) where
  tree : FileTree
  root : Location
  holds : tree.Holds root P.tree
  down : ∀ part ∈ root, IsDown part
  ne_nil : root ≠ []
  noPackages : P.settings.packageDirectory ∉ root

namespace Site

variable {P : Project} (s : Site P) {p : Place}

/-- The files around a build that runs in the directory of the project. -/
def workspace : Workspace := ⟨s.tree, ⟨.top, s.root⟩⟩

/-- What specifiers are resolved against at the site. -/
def resolver : Resolver := .ofWorkspace s.workspace P.settings

@[simp] theorem settings_resolver : s.resolver.settings = P.settings := rfl

@[simp] theorem workspace_resolver : s.resolver.workspace = s.workspace := rfl

/-- The path of a place of the project. -/
def path (p : Place) : Path := p.below s.root

/-- The directory that the project stands in, as a place of the whole file tree. -/
def directory : Place := ⟨s.root, s.down⟩

theorem path_top : s.path .top = s.directory.path := congrArg (Path.mk .top) (List.append_nil s.root)

theorem normal_path (p : Place) : (s.path p).Normal := p.normal_below s.down

/-- A place of the project holds at each site what it holds in the project. -/
theorem locate_path (p : Place) : s.tree.locate s.workspace.cwd (s.path p) =
    (P.tree.locate P.resolver.workspace.cwd p.path).map fun x => (s.root ++ x.1, x.2) := by
  have hroot : s.root.flatMap partsOf = s.root := flatMap_partsOf fun x hx => (s.down x hx).toIsPart
  have hparts : p.parts.flatMap partsOf = p.parts := flatMap_partsOf fun x hx => (p.down x hx).toIsPart
  have hinside := s.holds.walk_inside p.down [] .directory
  rw [List.append_nil] at hinside
  simp only [path, Place.path, Place.below, FileTree.locate_of_absolute (show Root.top ≠ .working by simp),
    List.flatMap_append, hroot, hparts, FileTree.walk_append, s.holds.walk_root (List.nil_append _) s.down,
    List.nil_append]
  exact hinside

theorem isFile_path (p : Place) : s.resolver.isFile (s.path p) = P.resolver.isFile p.path := by
  show s.tree.isFile s.workspace.cwd (s.path p) = P.tree.isFile P.resolver.workspace.cwd p.path
  simp only [FileTree.isFile, locate_path]
  cases P.tree.locate P.resolver.workspace.cwd p.path <;> rfl

theorem isDirectory_path (p : Place) :
    s.resolver.isDirectory (s.path p) = P.resolver.isDirectory p.path := by
  show s.tree.isDirectory s.workspace.cwd (s.path p) =
    P.tree.isDirectory P.resolver.workspace.cwd p.path
  simp only [FileTree.isDirectory, locate_path]
  cases P.tree.locate P.resolver.workspace.cwd p.path <;> rfl

/-- A place of the project has the same text at each site. Why it has none may depend on the site, since
the message about a fault of its path says where in the path it is. -/
theorem readText_agrees (p : Place) :
    Agree (· = ·) (P.resolver.workspace.tree.readText P.resolver.workspace.cwd p.path)
      (s.workspace.tree.readText s.workspace.cwd (s.path p)) := by
  have hbytes : Agree (· = ·) (P.tree.readBytes P.resolver.workspace.cwd p.path)
      (s.tree.readBytes s.workspace.cwd (s.path p)) := by
    simp only [FileTree.readBytes, locate_path]
    rcases P.tree.locate P.resolver.workspace.cwd p.path with _ | ⟨_, _ | _ | _⟩
    · exact .error _ _
    · exact .error _ _
    · exact .ok rfl
    · exact .error _ _
  show Agree _ (P.tree.readText _ _) (s.tree.readText _ _)
  unfold FileTree.readText
  generalize P.tree.readBytes _ _ = x, s.tree.readBytes _ _ = y at hbytes ⊢
  cases hbytes with
  | error e e' => cases e <;> cases e' <;> exact .error _ _
  | @ok bytes _ h =>
    subst h
    simp only
    cases Utf8.decode bytes with
    | error f => exact .error _ _
    | ok source => exact .ok rfl

/-- What is no deeper than the project is a directory above it, if it is there. -/
theorem locate_above {q : Place} {loc : Location} {e : Entry} (hlength : q.parts.length ≤ s.root.length)
    (h : s.tree.locate s.workspace.cwd q.path = .ok (loc, e)) : e = .directory ∧ q.parts <+: s.root := by
  obtain ⟨rfl, hat⟩ := FileTree.of_locate_normal q.normal_path h
  exact s.holds.above_of_length_le hlength hat

/-- There is no file next to the project. -/
theorem isFile_beside {name : Text} (hname : IsDown name) :
    s.resolver.isFile (s.directory.parent.child name hname).path = false := by
  have hlength : (s.directory.parent.child name hname).parts.length ≤ s.root.length := by
    have := List.length_pos_iff.2 s.ne_nil
    simp [Place.child, Place.parent, directory]
    omega
  show s.tree.isFile s.workspace.cwd _ = false
  unfold FileTree.isFile
  split
  · next loc e h =>
    rw [(s.locate_above hlength h).1]
    rfl
  · rfl

/-- There is no package directory above the project. -/
theorem isDirectory_packages_above (hP : P.IsPlain) {d : Place} (hd : d ∈ s.directory.parent.ancestors) :
    s.resolver.isDirectory (d.child P.settings.packageDirectory hP.packageDirectory).path = false := by
  have hlength : (d.child P.settings.packageDirectory hP.packageDirectory).parts.length ≤
      s.root.length := by
    have := List.length_pos_iff.2 s.ne_nil
    have habove := (Place.parts_of_mem_ancestors hd).length_le
    simp only [Place.parent, directory, List.length_dropLast] at habove
    simp only [Place.child, List.length_append, List.length_singleton]
    omega
  show s.tree.isDirectory s.workspace.cwd _ = false
  unfold FileTree.isDirectory
  split
  · next loc e h =>
    have habove := (s.locate_above hlength h).2
    exact absurd (habove.subset (List.mem_append_right _ (List.mem_singleton.2 rfl))) s.noPackages
  · rfl

/-- The package directory that counts for a place is a place of the project again, the same one at every
site. -/
theorem exists_packageRoot? (hP : P.IsPlain) (p : Place) :
    ∃ q? : Option Place, P.resolver.packageRoot? p.path = q?.map Place.path ∧
      ∀ s : Site P, s.resolver.packageRoot? (s.path p) = q?.map s.path := by
  let packages := p.ancestors.map fun d => d.child P.settings.packageDirectory hP.packageDirectory
  have hjoin (root : Location) :
      (p.ancestors.map (Place.below root)).map (fun d => d.join P.settings.packageDirectory) =
        packages.map (Place.below root) := by
    simp [packages, Place.join_below hP.packageDirectory]
  refine ⟨packages.find? fun q => P.resolver.isDirectory q.path, ?_, fun s => ?_⟩
  · rw [Resolver.packageRoot?, Project.settings_resolver, Place.ancestors_path, hjoin, List.find?_map]
    rfl
  · have houter : ((⟨.top, s.root.dropLast⟩ : Path).ancestors.map
        fun d => d.join P.settings.packageDirectory).find? s.resolver.isDirectory = none := by
      have hancestors : (⟨.top, s.root.dropLast⟩ : Path).ancestors =
          s.directory.parent.ancestors.map Place.path := s.directory.parent.ancestors_path
      rw [hancestors]
      refine List.find?_eq_none.2 fun x hx => ?_
      simp only [List.map_map, List.mem_map, Function.comp_apply] at hx
      obtain ⟨d, hd, rfl⟩ := hx
      rw [Place.join_path hP.packageDirectory, s.isDirectory_packages_above hP hd]
      simp
    have hinner : s.resolver.isDirectory ∘ Place.below s.root = fun q => P.resolver.isDirectory q.path :=
      funext s.isDirectory_path
    rw [Resolver.packageRoot?, settings_resolver, path, Place.ancestors_below s.ne_nil,
      List.map_append, hjoin, List.find?_append, houter, Option.or_none, List.find?_map, hinner]
    rfl

end Site

end ScriptBundle
