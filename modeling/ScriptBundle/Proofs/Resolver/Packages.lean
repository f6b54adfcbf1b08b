import ScriptBundle.Proofs.Resolver.PathLike

/-!
# Packages

The name of a package leads to a file by way of a package directory: the one of the deepest directory,
from that of the importer upwards, that has one. Directories farther up do not matter, whatever they
hold. The package itself may be a script, which counts first, or have a manifest that names an entry, or
an index file; a manifest that says nothing ends the search.

* `Path.IsAbove`, `Resolver.IsNearest`: the package directory that counts;
* `Manifest.Says`, `Manifest.Names`: what a manifest is read as, and the entry that it names;
* `Resolver.Chooses`, `Resolver.SaysNothing`: the file of a package, and that its manifest is no help;
* `Resolver.SeesAlike`: two resolvers that see the same of a package;
* `resolvePackage_nearest`: what the name of a package leads to.
-/

namespace ScriptBundle

/-! ### Directories above a path -/

namespace Path

variable {d e p : Path}

/-- The path `d` is `p` itself or a directory above it. -/
structure IsAbove (d p : Path) : Prop where
  root : d.root = p.root
  parts : d.parts <+: p.parts

theorem IsAbove.antisymm (h : d.IsAbove e) (h' : e.IsAbove d) : d = e := by
  obtain ⟨droot, dparts⟩ := d
  obtain ⟨eroot, eparts⟩ := e
  obtain rfl : droot = eroot := h.root
  obtain rfl : dparts = eparts := h.parts.eq_of_length_le h'.parts.length_le
  rfl

theorem mem_ancestors_iff : d ∈ p.ancestors ↔ d.IsAbove p := by
  refine ⟨fun h => ?_, fun h => ?_⟩
  · obtain ⟨n, -, rfl⟩ := List.mem_map.1 h
    exact ⟨rfl, List.take_prefix _ _⟩
  · obtain ⟨root, parts⟩ := d
    obtain rfl : root = p.root := h.root
    have hlength : parts.length ≤ p.parts.length := h.parts.length_le
    refine List.mem_map.2 ⟨p.parts.length - parts.length, List.mem_range.2 (by omega), ?_⟩
    rw [Nat.sub_sub_self hlength, ← List.prefix_iff_eq_take.1 h.parts]

/-- The directories above a path are listed from the inside out. -/
theorem pairwise_ancestors (p : Path) : p.ancestors.Pairwise fun e d => d.IsAbove e := by
  refine List.pairwise_map.2 (List.pairwise_lt_range.imp fun {m n} hmn => ⟨rfl, ?_⟩)
  exact List.take_prefix_take_left (by omega)

end Path

/-! ### What a manifest says -/

/-- A failure to read the manifest at a path, or to make anything of it. -/
def Failure.IsAboutManifest (path : Path) (f : Failure) : Prop :=
  (∃ e, f = .unreadableManifest path e) ∨ ∃ fault, f = .malformedManifest path fault

theorem Failure.not_isAboutManifest_moduleNotFound (path : Path) (cause : NotFound) (specifier : Text)
    (importer : Option Text) : ¬ (moduleNotFound cause specifier importer).IsAboutManifest path := by
  simp [IsAboutManifest]

namespace Manifest

/-- The manifest at a path can be read, and is a JSON object with the given members. -/
def Says (ws : Workspace) (path : Path) (members : List (Text × Json)) : Prop :=
  ∃ source, ws.tree.readText ws.cwd path = .ok source ∧ Json.parse source = .ok (.object members)

/-- The entry that the members name: the value of `module` if that is truthy, and otherwise the value of
`main`. It is a string that is not empty. -/
inductive Names (members : List (Text × Json)) : Text → Prop
  | module {entry : Text} (hne : entry ≠ [])
      (h : members.lookup (Text.ofString "module") = some (.string entry)) : Names members entry
  | main {entry : Text} (hmodule : ∀ v ∈ members.lookup (Text.ofString "module"), v.isTruthy = false)
      (hne : entry ≠ []) (h : members.lookup (Text.ofString "main") = some (.string entry)) :
      Names members entry

variable {ws : Workspace} {path : Path} {members : List (Text × Json)} {entry : Text} {f : Failure}

theorem read_eq_ok_iff : read ws path = .ok members ↔ Says ws path members := by
  unfold read Says
  cases ws.tree.readText ws.cwd path with
  | error e => rcases e with _ | (_ | _) <;> simp
  | ok source =>
    cases hparse : Json.parse source with
    | error f => simp [hparse]
    | ok v => cases v <;> simp [hparse]

/-- A manifest that says nothing fails with an error about it. -/
theorem isAboutManifest_of_read_eq_error (h : read ws path = .error f) : f.IsAboutManifest path := by
  unfold read at h
  repeat' split at h
  all_goals cases h
  all_goals simp [Failure.IsAboutManifest]

theorem names_iff : Names members entry ↔ entry ≠ [] ∧ entryValue members = some (.string entry) := by
  refine ⟨fun h => ?_, fun ⟨hne, h⟩ => ?_⟩
  · cases h with
    | module hne h =>
      refine ⟨hne, ?_⟩
      rw [entryValue, h]
      simp [Json.isTruthy, hne]
    | main hmodule hne h =>
      refine ⟨hne, ?_⟩
      unfold entryValue
      split
      · next v hv => rw [if_neg (by simp [hmodule v hv]), h]
      · exact h
  · unfold entryValue at h
    split at h
    · next v hv =>
      split at h
      · exact .module hne (hv.trans h)
      · next hfalse => exact .main (by simpa [hv] using hfalse) hne h
    · next hnone => exact .main (by simp [hnone]) hne h

/-- Members that are read always give an answer, which is the entry that they name. -/
theorem exists_result_entryOf (path : Path) (members : List (Text × Json)) :
    ∃ named?, (entryOf path members).result = .ok named? ∧
      ∀ entry, named? = some entry ↔ Names members entry := by
  simp only [names_iff]
  unfold entryOf
  split
  · next h => exact ⟨none, rfl, by simp [h]⟩
  · next h => exact ⟨none, rfl, by simp [h]⟩
  · next h => exact ⟨none, rfl, by simp [h]⟩
  · next entry hne h =>
    refine ⟨some entry, rfl, fun e => ?_⟩
    rw [h]
    constructor
    · rintro ⟨⟩
      exact ⟨hne, rfl⟩
    · rintro ⟨-, ⟨⟩⟩
      rfl
  · next v _ _ hstring h =>
    refine ⟨none, rfl, fun e => ?_⟩
    rw [h]
    constructor
    · rintro ⟨⟩
    · rintro ⟨hne, ⟨⟩⟩
      exact absurd rfl (hstring e)

theorem result_entry_eq_some_iff :
    (Manifest.entry ws path).result = .ok (some entry) ↔
      ∃ members, Says ws path members ∧ Names members entry := by
  rw [Manifest.entry, Logged.result_bind_eq_ok_iff]
  refine exists_congr fun members => and_congr read_eq_ok_iff ?_
  obtain ⟨named?, hresult, hnames⟩ := exists_result_entryOf path members
  rw [hresult, ← hnames, Except.ok.injEq]

end Manifest

namespace Resolver

open Path

variable {r r' : Resolver} {specifier : Text} {importer importer' : Option Text}
  {start directory package p : Path} {members : List (Text × Json)} {f : Failure}

/-! ### The package directory that counts -/

/-- Whether a directory has a package directory. -/
def hasPackages (r : Resolver) (d : Path) : Bool := r.isDirectory (d.join r.settings.packageDirectory)

/-- The deepest directory, from `start` upwards, that has a package directory. -/
structure IsDeepest (r : Resolver) (start d : Path) : Prop where
  above : d.IsAbove start
  has : r.hasPackages d
  deepest : ∀ e : Path, e.IsAbove start → r.hasPackages e → e.IsAbove d

/-- The package directory of the deepest directory, from `start` upwards, that has one. -/
def IsNearest (r : Resolver) (start directory : Path) : Prop :=
  ∃ d, r.IsDeepest start d ∧ directory = d.join r.settings.packageDirectory

theorem isDeepest_of_find? {d : Path} (h : start.ancestors.find? r.hasPackages = some d) :
    r.IsDeepest start d := by
  obtain ⟨hd, before, behind, hlist, hbefore⟩ := List.find?_eq_some_iff_append.1 h
  have hpairwise := start.pairwise_ancestors
  rw [hlist] at hpairwise
  refine ⟨mem_ancestors_iff.1 (List.mem_of_find?_eq_some h), hd, fun e he hpackages => ?_⟩
  have hmem : e ∈ before ++ d :: behind := hlist ▸ mem_ancestors_iff.2 he
  rcases List.mem_append.1 hmem with hmem | hmem
  · exact absurd hpackages (by simpa using hbefore e hmem)
  · rcases List.mem_cons.1 hmem with rfl | hmem
    · exact ⟨rfl, List.prefix_rfl⟩
    · exact List.rel_of_pairwise_cons (List.pairwise_append.1 hpairwise).2.1 hmem

theorem find?_of_isDeepest {d : Path} (h : r.IsDeepest start d) :
    start.ancestors.find? r.hasPackages = some d := by
  cases hfind : start.ancestors.find? r.hasPackages with
  | none => exact absurd h.has (List.find?_eq_none.1 hfind d (mem_ancestors_iff.2 h.above))
  | some e =>
    have he := isDeepest_of_find? hfind
    rw [(he.deepest d h.above h.has).antisymm (h.deepest e he.above he.has)]

theorem packageRoot?_eq_some_iff :
    r.packageRoot? start = some directory ↔ r.IsNearest start directory := by
  have hpackages : r.isDirectory ∘ (fun d => d.join r.settings.packageDirectory) = r.hasPackages := by
    funext d
    rw [hasPackages, Function.comp_apply]
  rw [packageRoot?, List.find?_map, hpackages, Option.map_eq_some_iff]
  constructor
  · rintro ⟨d, hd, rfl⟩
    exact ⟨d, isDeepest_of_find? hd, rfl⟩
  · rintro ⟨d, hd, rfl⟩
    exact ⟨d, find?_of_isDeepest hd, rfl⟩

/-! ### The file of a package -/

/-- The script of a package, next to its directory. -/
def scriptOf (r : Resolver) (package : Path) : Path := package.extend r.settings.packageExtension

/-- The file of a package: its script if there is one; or else what the entry of its manifest denotes,
which need not be there; or else its index file, if there is no manifest or it names no entry. -/
inductive Chooses (r : Resolver) (package : Path) : Path → Prop
  | script (h : r.isFile (r.scriptOf package)) : Chooses r package (r.scriptOf package)
  | entry {members : List (Text × Json)} {entry : Text}
      (hscript : r.isFile (r.scriptOf package) = false)
      (hmanifest : r.isFile (package.join "package.json"))
      (hread : Manifest.Says r.workspace (package.join "package.json") members)
      (hnames : Manifest.Names members entry) :
      Chooses r package (r.normalize (package.join entry).text)
  | index (hscript : r.isFile (r.scriptOf package) = false)
      (hmanifest : r.isFile (package.join "package.json") → ∃ members,
        Manifest.Says r.workspace (package.join "package.json") members ∧
          ∀ entry, ¬ Manifest.Names members entry)
      (hindex : r.isFile (r.indexFile package)) : Chooses r package (r.indexFile package)

/-- There is no script, and the manifest is there but cannot be read, or is no JSON object. -/
structure SaysNothing (r : Resolver) (package : Path) : Prop where
  script : r.isFile (r.scriptOf package) = false
  manifest : r.isFile (package.join "package.json")
  nothing : ∀ members, ¬ Manifest.Says r.workspace (package.join "package.json") members

/-- Two resolvers with the same settings that see the same of a package. -/
structure SeesAlike (r r' : Resolver) (package : Path) : Prop where
  settings : r'.settings = r.settings
  cwd : r'.workspace.cwd = r.workspace.cwd
  isFile : ∀ p ∈ [r.scriptOf package, package.join "package.json", r.indexFile package],
    r'.isFile p = r.isFile p
  manifest : r'.workspace.tree.readText r'.workspace.cwd (package.join "package.json") =
    r.workspace.tree.readText r.workspace.cwd (package.join "package.json")

theorem manifestEntry_of_says (hmanifest : r.isFile (package.join "package.json"))
    (hread : Manifest.Says r.workspace (package.join "package.json") members) :
    ∃ named?, r.manifestEntry package = .ok named? ∧
      ∀ entry, named? = some entry ↔ Manifest.Names members entry := by
  obtain ⟨named?, hresult, hnames⟩ :=
    Manifest.exists_result_entryOf (package.join "package.json") members
  refine ⟨named?, ?_, hnames⟩
  rw [manifestEntry, if_pos hmanifest, Manifest.entry, Logged.result_bind_eq_ok_iff]
  exact ⟨members, Manifest.read_eq_ok_iff.2 hread, hresult⟩

theorem result_packageFile_of_chooses (h : r.Chooses package p) :
    (r.packageFile package (r.scriptOf package)).result = .ok (some p) := by
  cases h with
  | script h => exact result_packageFile_of_script h
  | entry hscript hmanifest hread hnames =>
    obtain ⟨named?, hentry, hiff⟩ := manifestEntry_of_says hmanifest hread
    refine result_packageFile_of_entry hscript ?_
    rw [entryFile?, hentry, (hiff _).2 hnames]
    rfl
  | index hscript hmanifest hindex =>
    have hentry : r.manifestEntry package = .ok none := by
      by_cases hfile : r.isFile (package.join "package.json")
      · obtain ⟨members, hread, hnone⟩ := hmanifest hfile
        obtain ⟨named?, hentry, hiff⟩ := manifestEntry_of_says hfile hread
        rw [hentry, Option.eq_none_iff_forall_ne_some.2 fun entry h => hnone entry ((hiff entry).1 h)]
      · exact if_neg hfile
    rw [result_packageFile_of_index hscript hentry, if_pos hindex]

theorem result_packageFile_of_saysNothing (h : r.SaysNothing package) :
    ∃ f, f.IsAboutManifest (package.join "package.json") ∧
      (r.packageFile package (r.scriptOf package)).result = .error f := by
  cases hread : Manifest.read r.workspace (package.join "package.json") with
  | ok members => exact absurd (Manifest.read_eq_ok_iff.1 hread) (h.nothing members)
  | error f =>
    refine ⟨f, Manifest.isAboutManifest_of_read_eq_error hread,
      result_packageFile_of_manifest_error h.script ?_⟩
    rw [manifestEntry, if_pos h.manifest]
    exact Manifest.entry_eq_error_iff.2 hread

theorem SaysNothing.result_ne_ok (h : r.SaysNothing package) (file? : Option Path) :
    (r.packageFile package (r.scriptOf package)).result ≠ .ok file? := by
  obtain ⟨f, -, hf⟩ := result_packageFile_of_saysNothing h
  rw [hf]
  simp

/-- A package whose manifest is no hindrance has a file, or comes to nothing. -/
theorem chooses_or_result_packageFile (h : ¬ r.SaysNothing package) :
    (∃ p, r.Chooses package p) ∨
      (r.packageFile package (r.scriptOf package)).result = .ok none := by
  cases hscript : r.isFile (r.scriptOf package) with
  | true => exact .inl ⟨_, .script hscript⟩
  | false =>
    -- Without an entry, with or without a manifest, there is the index file.
    have index (hentry : r.manifestEntry package = .ok none)
        (hmanifest : r.isFile (package.join "package.json") → ∃ members,
          Manifest.Says r.workspace (package.join "package.json") members ∧
            ∀ entry, ¬ Manifest.Names members entry) :
        (∃ p, r.Chooses package p) ∨
          (r.packageFile package (r.scriptOf package)).result = .ok none := by
      cases hindex : r.isFile (r.indexFile package) with
      | true => exact .inl ⟨_, .index hscript hmanifest hindex⟩
      | false => exact .inr (by simp [result_packageFile_of_index hscript hentry, hindex])
    cases hmanifest : r.isFile (package.join "package.json") with
    | false => exact index (if_neg (by simp [hmanifest])) (by simp [hmanifest])
    | true =>
      obtain ⟨members, hread⟩ : ∃ members,
          Manifest.Says r.workspace (package.join "package.json") members := by
        by_contra hnothing
        exact h ⟨hscript, hmanifest, not_exists.1 hnothing⟩
      obtain ⟨named?, hentry, hiff⟩ := manifestEntry_of_says hmanifest hread
      cases named? with
      | some entry => exact .inl ⟨_, .entry hscript hmanifest hread ((hiff entry).1 rfl)⟩
      | none =>
        exact index hentry fun _ => ⟨members, hread, fun entry hnames => nomatch (hiff entry).2 hnames⟩

theorem result_packageFile_eq_some_iff :
    (r.packageFile package (r.scriptOf package)).result = .ok (some p) ↔ r.Chooses package p := by
  refine ⟨fun h => ?_, result_packageFile_of_chooses⟩
  have hspeaks : ¬ r.SaysNothing package := fun hnothing => hnothing.result_ne_ok _ h
  rcases chooses_or_result_packageFile hspeaks with ⟨q, hq⟩ | hnone
  · cases h.symm.trans (result_packageFile_of_chooses hq)
    exact hq
  · cases h.symm.trans hnone

theorem result_packageFile_eq_error_iff :
    (∃ f, (r.packageFile package (r.scriptOf package)).result = .error f) ↔ r.SaysNothing package := by
  refine ⟨fun ⟨f, h⟩ => ?_, fun h => ?_⟩
  · by_contra hspeaks
    rcases chooses_or_result_packageFile hspeaks with ⟨q, hq⟩ | hnone
    · cases h.symm.trans (result_packageFile_of_chooses hq)
    · cases h.symm.trans hnone
  · obtain ⟨f, -, hf⟩ := result_packageFile_of_saysNothing h
    exact ⟨f, hf⟩

theorem result_packageFile_eq_none_iff :
    (r.packageFile package (r.scriptOf package)).result = .ok none ↔
      (∀ p, ¬ r.Chooses package p) ∧ ¬ r.SaysNothing package := by
  refine ⟨fun h => ⟨fun p hp => ?_, fun hnothing => ?_⟩, fun ⟨hnone, hspeaks⟩ => ?_⟩
  · cases h.symm.trans (result_packageFile_of_chooses hp)
  · exact hnothing.result_ne_ok _ h
  · exact (chooses_or_result_packageFile hspeaks).resolve_left (not_exists.2 hnone)

/-- Only the manifest can keep a package from having a file or none. -/
theorem isAboutManifest_of_packageFile
    (h : (r.packageFile package (r.scriptOf package)).result = .error f) :
    f.IsAboutManifest (package.join "package.json") := by
  obtain ⟨f', hf', hresult⟩ :=
    result_packageFile_of_saysNothing (result_packageFile_eq_error_iff.1 ⟨f, h⟩)
  cases h.symm.trans hresult
  exact hf'

/-- What is seen of a package decides about its file, and about what is logged. -/
theorem SeesAlike.packageFile_eq (h : r.SeesAlike r' package) :
    r'.packageFile package (r.scriptOf package) = r.packageFile package (r.scriptOf package) := by
  have hscript := h.isFile (r.scriptOf package) (by simp)
  have hmanifest := h.isFile (package.join "package.json") (by simp)
  have hindex := h.isFile (r.indexFile package) (by simp)
  have hentry : Manifest.entry r'.workspace (package.join "package.json") =
      Manifest.entry r.workspace (package.join "package.json") := by
    rw [Manifest.entry, Manifest.entry, Manifest.read, Manifest.read, h.manifest]
  rw [indexFile] at hindex
  simp only [packageFile, h.settings, hscript, hmanifest, hindex, hentry, normalize, h.cwd]

/-! ### What the name of a package leads to -/

section Nearest

variable (hcwd : r.workspace.cwd.Anchored) (hext : CodePoint.ofChar '/' ∉ r.settings.packageExtension)
  (hnearest : r.IsNearest (r.normalize (r.baseDirectory importer).text) directory)
  (hpackage : r.normalize (directory.join specifier).text = package) (hparts : package.parts ≠ [])

include hcwd hext hnearest hpackage hparts

theorem result_resolvePackage_of_nearest :
    (r.resolvePackage specifier importer).result =
      (r.packageFile package (r.scriptOf package)).result.bind fun
        | some file => .ok file
        | none => .error (.moduleNotFound .package specifier importer) := by
  refine result_resolvePackage ?_ ?_
  · rw [packageAt?, packageRoot?_eq_some_iff.2 hnearest, Option.map_some, hpackage]
  · have hnormal : package.Normal := hpackage ▸ normal_normalize hcwd _
    exact hnormal.withName_append hparts hext

theorem resolvePackage_eq_ok_iff :
    (r.resolvePackage specifier importer).result = .ok p ↔ r.Chooses package p := by
  rw [result_resolvePackage_of_nearest hcwd hext hnearest hpackage hparts,
    ← result_packageFile_eq_some_iff]
  rcases (r.packageFile package (r.scriptOf package)).result with f | _ | file <;>
    simp [Except.bind]

theorem resolvePackage_eq_notFound_iff :
    (r.resolvePackage specifier importer).result =
        .error (.moduleNotFound .package specifier importer) ↔
      (∀ p, ¬ r.Chooses package p) ∧ ¬ r.SaysNothing package := by
  rw [result_resolvePackage_of_nearest hcwd hext hnearest hpackage hparts,
    ← result_packageFile_eq_none_iff]
  cases hresult : (r.packageFile package (r.scriptOf package)).result with
  | ok file? => cases file? <;> simp [Except.bind]
  | error f =>
    have hf := isAboutManifest_of_packageFile hresult
    simp only [Except.bind, Except.error.injEq, reduceCtorEq, iff_false]
    rintro rfl
    exact Failure.not_isAboutManifest_moduleNotFound _ _ _ _ hf

theorem resolvePackage_eq_error_iff :
    (∃ f, f.IsAboutManifest (package.join "package.json") ∧
      (r.resolvePackage specifier importer).result = .error f) ↔ r.SaysNothing package := by
  rw [result_resolvePackage_of_nearest hcwd hext hnearest hpackage hparts,
    ← result_packageFile_eq_error_iff]
  cases hresult : (r.packageFile package (r.scriptOf package)).result with
  | ok file? => cases file? <;> simp [Except.bind, Failure.not_isAboutManifest_moduleNotFound]
  | error f => simp [Except.bind, isAboutManifest_of_packageFile hresult]

/-- With a package directory, a failure is about the manifest or about the package. -/
theorem isAboutManifest_or_of_resolvePackage
    (h : (r.resolvePackage specifier importer).result = .error f) :
    f.IsAboutManifest (package.join "package.json") ∨
      f = .moduleNotFound .package specifier importer := by
  rw [result_resolvePackage_of_nearest hcwd hext hnearest hpackage hparts] at h
  cases hresult : (r.packageFile package (r.scriptOf package)).result with
  | error e =>
    rw [hresult] at h
    cases h
    exact .inl (isAboutManifest_of_packageFile hresult)
  | ok file? =>
    rw [hresult] at h
    cases file? with
    | none => exact .inr (Except.error.inj h).symm
    | some file => cases h

end Nearest

/-- That there is no package directory is the message if and only if there is none. -/
theorem resolvePackage_eq_packageDirectory_iff (hcwd : r.workspace.cwd.Anchored)
    (hext : CodePoint.ofChar '/' ∉ r.settings.packageExtension)
    (hstart : r.normalize (r.baseDirectory importer).text = start) :
    (r.resolvePackage specifier importer).result =
        .error (.moduleNotFound (.packageDirectory r.settings.packageDirectory start) specifier
          importer) ↔
      ∀ directory, ¬ r.IsNearest start directory := by
  subst hstart
  cases hroot : r.packageRoot? (r.normalize (r.baseDirectory importer).text) with
  | none => simp [← packageRoot?_eq_some_iff, hroot, resolvePackage]
  | some directory =>
    have hnearest := packageRoot?_eq_some_iff.1 hroot
    refine iff_of_false (fun h => ?_) fun h => h directory hnearest
    by_cases hparts : (r.normalize (directory.join specifier).text).parts = []
    · simp [resolvePackage, hroot, withName, hparts] at h
    · rcases isAboutManifest_or_of_resolvePackage hcwd hext hnearest rfl hparts h with hf | hf
      · exact Failure.not_isAboutManifest_moduleNotFound _ _ _ _ hf
      · simp at hf

/-- What is seen of a package, and not where it is looked for, decides about the result. -/
theorem SeesAlike.resolvePackage (h : r.SeesAlike r' (r.normalize (directory.join specifier).text))
    (hnearest : r.IsNearest (r.normalize (r.baseDirectory importer).text) directory)
    (hnearest' : r'.IsNearest (r'.normalize (r'.baseDirectory importer').text) directory) :
    (r'.resolvePackage specifier importer').entries = (r.resolvePackage specifier importer).entries ∧
      ((r'.resolvePackage specifier importer').result = (r.resolvePackage specifier importer).result ∨
        (r.resolvePackage specifier importer).result =
            .error (.moduleNotFound .package specifier importer) ∧
          (r'.resolvePackage specifier importer').result =
            .error (.moduleNotFound .package specifier importer')) := by
  have hroot := packageRoot?_eq_some_iff.2 hnearest
  have hroot' := packageRoot?_eq_some_iff.2 hnearest'
  have hpackage : r'.normalize (directory.join specifier).text =
      r.normalize (directory.join specifier).text := by
    rw [normalize, normalize, h.cwd]
  have hfile := h.packageFile_eq
  simp only [Resolver.resolvePackage, hroot, hroot', hpackage, h.settings]
  generalize r.normalize (directory.join specifier).text = package at hfile ⊢
  cases hscript : package.withName (package.name ++ r.settings.packageExtension) with
  | error e => exact ⟨rfl, .inl rfl⟩
  | ok script =>
    obtain ⟨-, rfl⟩ := withName_eq_ok hscript
    rw [scriptOf, extend] at hfile
    simp only [hfile]
    obtain ⟨entries, f | _ | file⟩ := r.packageFile package _
    · exact ⟨rfl, .inl rfl⟩
    · exact ⟨rfl, .inr ⟨rfl, rfl⟩⟩
    · exact ⟨rfl, .inl rfl⟩

/-- The name of a package leads to the file of the package in the nearest package directory. It is not
found if there is no such directory or no such file, and a manifest that says nothing is an error. What
lies elsewhere makes no difference, and so no package directory farther up is ever consulted. -/
theorem resolvePackage_nearest (hcwd : r.workspace.cwd.Anchored)
    (hext : CodePoint.ofChar '/' ∉ r.settings.packageExtension)
    (specifier : Text) (importer : Option Text) :
    let start := r.normalize (r.baseDirectory importer).text
    let result := (r.resolvePackage specifier importer).result
    (result = .error (.moduleNotFound (.packageDirectory r.settings.packageDirectory start) specifier
      importer) ↔ ∀ directory, ¬ r.IsNearest start directory) ∧
    ∀ directory, r.IsNearest start directory →
      let package := r.normalize (directory.join specifier).text
      (package.parts ≠ [] →
        (∀ p, result = .ok p ↔ r.Chooses package p) ∧
        ((∃ f, f.IsAboutManifest (package.join "package.json") ∧ result = .error f) ↔
          r.SaysNothing package) ∧
        (result = .error (.moduleNotFound .package specifier importer) ↔
          (∀ p, ¬ r.Chooses package p) ∧ ¬ r.SaysNothing package)) ∧
      ∀ (r' : Resolver) (importer' : Option Text), r.SeesAlike r' package →
        r'.IsNearest (r'.normalize (r'.baseDirectory importer').text) directory →
        (r'.resolvePackage specifier importer').entries =
            (r.resolvePackage specifier importer).entries ∧
          ((r'.resolvePackage specifier importer').result = result ∨
            result = .error (.moduleNotFound .package specifier importer) ∧
              (r'.resolvePackage specifier importer').result =
                .error (.moduleNotFound .package specifier importer')) := by
  intro start result
  refine ⟨resolvePackage_eq_packageDirectory_iff hcwd hext rfl, fun directory hnearest => ?_⟩
  intro package
  refine ⟨fun hparts => ⟨fun p => ?_, ?_, ?_⟩, fun r' importer' h hnearest' => ?_⟩
  · exact resolvePackage_eq_ok_iff hcwd hext hnearest rfl hparts
  · exact resolvePackage_eq_error_iff hcwd hext hnearest rfl hparts
  · exact resolvePackage_eq_notFound_iff hcwd hext hnearest rfl hparts
  · exact h.resolvePackage hnearest hnearest'

/-- A package whose manifest names an entry, and another package farther up. -/
def nestedPackages : Resolver where
  workspace :=
    { tree := (FileTree.empty.insertFile ["p", "app", "node_modules", "q", "package.json"]
          (.file "\x7b\"module\": \"\", \"main\": \"lib\"\x7d".toUTF8.toList)).insertFile
          ["p", "node_modules", "s.js"] (.file [])
      cwd := ⟨.top, ["p"]⟩ }
  settings := {}
  directory := ⟨.top, ["p"]⟩

/-- The package farther up is there, and it is not found from inside. -/
theorem resolvePackage_nearest_nestedPackages :
    nestedPackages.workspace.cwd.Anchored ∧
      CodePoint.ofChar '/' ∉ nestedPackages.settings.packageExtension ∧
      nestedPackages.isFile ⟨.top, ["p", "node_modules", "s.js"]⟩ ∧
      (nestedPackages.resolvePackage "q" (some "/p/app/a.ts")).result =
        .ok ⟨.top, ["p", "app", "node_modules", "q", "lib"]⟩ ∧
      (nestedPackages.resolvePackage "s" (some "/p/app/a.ts")).result =
        .error (.moduleNotFound .package "s" (some "/p/app/a.ts")) := by
  have hcwd : nestedPackages.workspace.cwd.Anchored := by decide
  have hext : CodePoint.ofChar '/' ∉ nestedPackages.settings.packageExtension := by decide
  have hnearest : nestedPackages.IsNearest ⟨.top, ["p", "app"]⟩ ⟨.top, ["p", "app", "node_modules"]⟩ :=
    packageRoot?_eq_some_iff.1 (by decide +kernel)
  have hq := (((resolvePackage_nearest hcwd hext "q" (some "/p/app/a.ts")).2 _ hnearest).1 (by decide)).1
  have hs := ((resolvePackage_nearest hcwd hext "s" (some "/p/app/a.ts")).2 _ hnearest).1 (by decide)
  have hentry : (Manifest.entry nestedPackages.workspace
      ⟨.top, ["p", "app", "node_modules", "q", "package.json"]⟩).result.toOption.any
        (· = some (Text.ofString "lib")) := by
    decide +kernel
  obtain ⟨entry, hresult, hname⟩ := Except.exists_of_any_toOption hentry
  rw [of_decide_eq_true hname] at hresult
  obtain ⟨members, hread, hnames⟩ := Manifest.result_entry_eq_some_iff.1 hresult
  have hchooses : nestedPackages.Chooses ⟨.top, ["p", "app", "node_modules", "q"]⟩ _ :=
    .entry (by decide +kernel) (by decide +kernel) hread hnames
  have hpackage : nestedPackages.normalize
      ((Path.mk .top ["p", "app", "node_modules"]).join "q").text =
        ⟨.top, ["p", "app", "node_modules", "q"]⟩ := by
    decide +kernel
  have hlib : nestedPackages.normalize
      ((Path.mk .top ["p", "app", "node_modules", "q"]).join "lib").text =
        ⟨.top, ["p", "app", "node_modules", "q", "lib"]⟩ := by
    decide +kernel
  rw [hpackage] at hq
  rw [hlib] at hchooses
  refine ⟨hcwd, hext, by decide +kernel, (hq _).2 hchooses, hs.2.2.2 ⟨?_, ?_⟩⟩
  · intro p hp
    cases hp with
    | script h => exact absurd h (by decide +kernel)
    | entry _ h => exact absurd h (by decide +kernel)
    | index _ _ h => exact absurd h (by decide +kernel)
  · rintro ⟨-, h, -⟩
    exact absurd h (by decide +kernel)

end Resolver

end ScriptBundle
