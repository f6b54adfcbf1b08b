import ScriptBundle.Proofs.FileTree.Locate
import ScriptBundle.Proofs.Session.FailsOnly
import ScriptBundle.Resolver

/-!
# What specifiers lead to

A specifier leads to a normal path, or to one that the resolver makes from a normal path by an
extension or by an index file. It fails because of the project, or because a name cannot be made: a
package specifier that climbs to the top of the file tree names no package, and an extension that
holds a slash makes no name.

* `Failure.isProjectError`: the failures that are about the project;
* `Resolver.Result`, `result_of_resolve`: the paths that specifiers lead to;
* `Resolver.SlashedName`, `Resolver.ClimbedOut`, `resolve_failsOnly`: the failures that are not about
  the project.
-/

namespace ScriptBundle

/-- Whether a failure is about the files of the project, and not about the build itself. -/
def Failure.isProjectError (f : Failure) : Bool :=
  match f with
  | .internal _ => false
  | f => f.isReported

namespace Resolver

open Path

variable {r : Resolver} {specifier : Text} {importer : Option Text} {p q : Path}

/-- The extensions that are put behind names: those of sources and that of packages. -/
def extensions (r : Resolver) : List Text :=
  r.settings.sourceExtensions ++ [r.settings.packageExtension]

/-- The paths that specifiers lead to. -/
inductive Result (r : Resolver) : Path → Prop
  | plain {p : Path} (hp : p.Normal) : Result r p
  | extended {p : Path} {ext : Text} (hp : p.Normal) (hparts : p.parts ≠ [])
      (hext : ext ∈ r.extensions) :
      Result r { p with parts := p.parts.dropLast ++ [p.name ++ ext] }
  | index {p : Path} {ext : Text} (hp : p.Normal) (hext : ext ∈ r.extensions) :
      Result r (p.join (r.settings.indexName ++ ext))

theorem Result.absolute (h : Result r q) : q.root ≠ .working := by
  cases h with
  | plain hp => exact hp.absolute
  | extended hp => exact hp.absolute
  | index hp =>
    rw [join, append]
    split
    · next habsolute => simpa [isAbsolute] using habsolute
    · exact hp.absolute

/-- A failure to make a name because an extension holds a slash. -/
def SlashedName (r : Resolver) (f : Failure) : Prop :=
  ∃ ext ∈ r.extensions, CodePoint.ofChar '/' ∈ ext ∧ ∃ name, f = .name (.invalidName (name ++ ext))

/-- The specifier is that of a package, and seen from its package directory it is the top of the file
tree. -/
def ClimbsTo (r : Resolver) (specifier : Text) (importer : Option Text) (top : Path) : Prop :=
  isRelativeSpecifier specifier = false ∧
    ∃ root, r.packageRoot? (r.normalize (r.baseDirectory importer).text) = some root ∧
      top = r.normalize (root.join specifier).text ∧ top.parts = []

/-- A failure to make a name because a package specifier climbs to the top of the file tree. -/
def ClimbedOut (r : Resolver) (specifier : Text) (importer : Option Text) (f : Failure) : Prop :=
  ∃ top, r.ClimbsTo specifier importer top ∧ f = .name (.noName top)

theorem mem_extensions_of_mem {ext : Text} (h : ext ∈ r.settings.sourceExtensions) :
    ext ∈ r.extensions := List.mem_append_left _ h

theorem packageExtension_mem (r : Resolver) : r.settings.packageExtension ∈ r.extensions :=
  List.mem_append_right _ (List.mem_singleton.2 rfl)

theorem normal_normalize (hcwd : r.workspace.cwd.Anchored) (s : Text) : (r.normalize s).Normal :=
  Path.normal_normalize hcwd s

theorem result_withName {ext : Text} (hp : p.Normal) (hext : ext ∈ r.extensions)
    (h : p.withName (p.name ++ ext) = .ok q) : Result r q := by
  obtain ⟨hparts, rfl⟩ := withName_eq_ok h
  exact .extended hp hparts hext

/-! ### Path-like specifiers -/

theorem mem_of_firstFile {cs : List (Except NameFault Path)} (h : r.firstFile cs = .ok (some q)) :
    .ok q ∈ cs := by
  induction cs with
  | nil => cases h
  | cons c cs ih =>
    cases c with
    | error e => cases h
    | ok p =>
      rw [firstFile] at h
      split at h
      · cases h
        exact List.mem_cons_self
      · exact List.mem_cons_of_mem _ (ih h)

theorem mem_of_firstFile_error {cs : List (Except NameFault Path)} {e : NameFault}
    (h : r.firstFile cs = .error e) : .error e ∈ cs := by
  induction cs with
  | nil => cases h
  | cons c cs ih =>
    cases c with
    | error e' =>
      cases h
      exact List.mem_cons_self
    | ok p =>
      rw [firstFile] at h
      split at h
      · cases h
      · exact List.mem_cons_of_mem _ (ih h)

/-- A candidate is the path itself, the path with an extension, or an index file. -/
theorem mem_relativeCandidates {c : Except NameFault Path} (h : c ∈ r.relativeCandidates p) :
    c = .ok p ∨
    (p.parts ≠ [] ∧ ∃ ext ∈ r.settings.sourceExtensions, c = p.withName (p.name ++ ext)) ∨
    ∃ ext ∈ r.settings.sourceExtensions, c = .ok (p.join (r.settings.indexName ++ ext)) := by
  rcases List.mem_append.1 h with h | h
  · split at h
    · exact .inl (List.mem_singleton.1 h)
    · split at h
      · cases h
      · next hname =>
        obtain ⟨ext, hext, rfl⟩ := List.mem_map.1 h
        refine .inr (.inl ⟨fun hp => hname ?_, ext, hext, rfl⟩)
        simp [Path.name, hp]
  · split at h
    · obtain ⟨ext, hext, rfl⟩ := List.mem_map.1 h
      exact .inr (.inr ⟨ext, hext, rfl⟩)
    · cases h

theorem result_of_resolveRelative (hcwd : r.workspace.cwd.Anchored)
    (h : r.resolveRelative specifier importer = .ok q) : Result r q := by
  have hp := normal_normalize hcwd ((r.baseDirectory importer).join specifier).text
  unfold resolveRelative at h
  simp only at h
  split at h
  · cases h
  · next file hfile =>
    cases h
    rcases mem_relativeCandidates (mem_of_firstFile hfile) with hc | ⟨-, ext, hext, hc⟩ | ⟨ext, hext, hc⟩
    · obtain rfl := Except.ok.inj hc
      exact .plain hp
    · exact result_withName hp (mem_extensions_of_mem hext) hc.symm
    · cases hc
      exact .index hp (mem_extensions_of_mem hext)
  · cases h

/-- A path-like specifier fails because of the project or because of an extension. -/
theorem resolveRelative_eq_error {f : Failure} (hcwd : r.workspace.cwd.Anchored)
    (h : r.resolveRelative specifier importer = .error f) :
    f.isProjectError ∨ r.SlashedName f := by
  have hp := normal_normalize hcwd ((r.baseDirectory importer).join specifier).text
  unfold resolveRelative at h
  simp only at h
  split at h
  · next e he =>
    cases h
    rcases mem_relativeCandidates (mem_of_firstFile_error he) with hc | ⟨hne, ext, hext, hc⟩ |
      ⟨ext, hext, hc⟩
    · cases hc
    · rcases hp.withName_eq_error hc.symm with ⟨hnil, -⟩ | ⟨hslash, rfl⟩
      · exact absurd hnil hne
      · exact .inr ⟨ext, mem_extensions_of_mem hext, hslash, _, rfl⟩
    · cases hc
  · cases h
  · cases h
    exact .inl rfl

/-! ### Package specifiers -/

theorem entry_failsOnly (ws : Workspace) (manifest : Path) :
    (Manifest.entry ws manifest).FailsOnly fun f => f.isProjectError := by
  refine Logged.FailsOnly.bind (Logged.FailsOnly.ofExcept ?_) fun members _ => ?_
  · intro f h
    unfold Manifest.read at h
    repeat' split at h
    all_goals cases h
    all_goals rfl
  · unfold Manifest.entryOf
    split
    · exact .pure _
    · exact .pure _
    · exact .pure _
    · exact .pure _
    · exact (Logged.FailsOnly.log _).bind fun _ _ => .pure _

theorem packageFile_failsOnly (r : Resolver) (package script : Path) :
    (r.packageFile package script).FailsOnly fun f => f.isProjectError := by
  unfold packageFile
  simp only
  split
  · exact .pure _
  · split
    · refine (entry_failsOnly _ _).bind fun entry _ => ?_
      split
      · exact .pure _
      · exact .pure _
    · exact .pure _

theorem result_of_packageFile {package script : Path} (hcwd : r.workspace.cwd.Anchored)
    (hpackage : package.Normal) (hscript : Result r script)
    (h : (r.packageFile package script).result = .ok (some q)) : Result r q := by
  unfold packageFile at h
  simp only at h
  split at h
  · cases h
    exact hscript
  · -- Without an entry, with or without a manifest, there is the index file.
    have index {index : Path} (hindex : Result r index)
        (h : (if r.isFile index then some index else none) = some q) : Result r q := by
      obtain ⟨-, h⟩ := Option.ite_none_right_eq_some.1 h
      exact Option.some.inj h ▸ hindex
    split at h
    · obtain ⟨entry, -, h⟩ := Logged.result_bind_eq_ok_iff.1 h
      cases entry with
      | some entry =>
        obtain rfl : r.normalize (package.join entry).text = q := Option.some.inj (Except.ok.inj h)
        exact .plain (normal_normalize hcwd _)
      | none => exact index (.index hpackage r.packageExtension_mem) (Except.ok.inj h)
    · exact index (.index hpackage r.packageExtension_mem) (Except.ok.inj h)

theorem result_of_resolvePackage (hcwd : r.workspace.cwd.Anchored)
    (h : (r.resolvePackage specifier importer).result = .ok q) : Result r q := by
  unfold resolvePackage at h
  simp only at h
  split at h
  · cases h
  · next root _ =>
    have hp := normal_normalize hcwd (root.join specifier).text
    split at h
    · cases h
    · next script hscript =>
      obtain ⟨file?, hfile, h⟩ := Logged.result_bind_eq_ok_iff.1 h
      cases file? with
      | none => cases h
      | some file =>
        cases h
        exact result_of_packageFile hcwd hp (result_withName hp r.packageExtension_mem hscript) hfile

theorem resolvePackage_failsOnly (hcwd : r.workspace.cwd.Anchored)
    (hs : isRelativeSpecifier specifier = false) :
    (r.resolvePackage specifier importer).FailsOnly
      fun f => f.isProjectError ∨ r.SlashedName f ∨ r.ClimbedOut specifier importer f := by
  unfold resolvePackage
  simp only
  split
  · exact .fail (.inl rfl)
  · next root hroot =>
    have hp := normal_normalize hcwd (root.join specifier).text
    split
    · next e he =>
      refine .fail (.inr ?_)
      rcases hp.withName_eq_error he with ⟨hnil, rfl⟩ | ⟨hslash, rfl⟩
      · exact .inr ⟨_, ⟨hs, root, hroot, rfl, hnil⟩, rfl⟩
      · exact .inl ⟨_, r.packageExtension_mem, hslash, _, rfl⟩
    · refine Logged.FailsOnly.bind (fun f h => .inl (packageFile_failsOnly r _ _ f h)) fun file? _ => ?_
      split
      · exact .pure _
      · exact .fail (.inl rfl)

/-! ### Both -/

theorem result_of_resolve (hcwd : r.workspace.cwd.Anchored)
    (h : (r.resolve specifier importer).result = .ok q) : Result r q := by
  unfold resolve at h
  split at h
  · exact result_of_resolveRelative hcwd h
  · exact result_of_resolvePackage hcwd h

/-- A specifier that leads nowhere fails because of the project, or because a name cannot be made. -/
theorem resolve_failsOnly (hcwd : r.workspace.cwd.Anchored) (specifier : Text)
    (importer : Option Text) :
    (r.resolve specifier importer).FailsOnly
      fun f => f.isProjectError ∨ r.SlashedName f ∨ r.ClimbedOut specifier importer f := by
  unfold resolve
  split
  · refine .ofExcept fun f h => ?_
    rcases resolveRelative_eq_error hcwd h with h | h
    · exact .inl h
    · exact .inr (.inl h)
  · next hs => exact resolvePackage_failsOnly hcwd (by simpa using hs)

end Resolver

end ScriptBundle
