import ScriptBundle.Manifest

/-!
# Resolving specifiers

A specifier leads from an importing file to the file of the module that it names. A path-like one is
joined to the directory of the importer, and the source extensions and index files are tried in order;
any other is the name of a package in the nearest package directory above the importer.

* `Resolver.resolveRelative`, with `relativeCandidates`: the files that are tried;
* `Resolver.resolvePackage`, with `packageRoot?`: the package directory that counts;
* `Resolver.resolve`: the choice between the two.
-/

namespace ScriptBundle

/-- What specifiers are resolved against: the files, the settings, and the directory for specifiers
that no file imports. -/
structure Resolver where
  workspace : Workspace
  settings : Settings
  directory : Path

namespace Resolver

/-- The resolver of a workspace. -/
def ofWorkspace (ws : Workspace) (st : Settings) : Resolver := ⟨ws, st, ws.cwd⟩

/-- Whether a path leads to a file. -/
def isFile (r : Resolver) (p : Path) : Bool := r.workspace.tree.isFile r.workspace.cwd p

/-- Whether a path leads to a directory. -/
def isDirectory (r : Resolver) (p : Path) : Bool := r.workspace.tree.isDirectory r.workspace.cwd p

/-- The absolute path without `..` that a text denotes. -/
def normalize (r : Resolver) (s : Text) : Path := Path.normalize r.workspace.cwd s

/-- The directory that the specifiers of `importer` are seen from. -/
def baseDirectory (r : Resolver) (importer : Option Text) : Path :=
  match importer with
  | some file => (Path.ofText file).parent
  | none => r.directory

/-- The files tried for a normalized path, in order: the path itself if it ends with a source
extension, and otherwise the path with each of them; then the index files of the directory. -/
def relativeCandidates (r : Resolver) (p : Path) : List (Except NameFault Path) :=
  let extensions := r.settings.sourceExtensions
  let files :=
    if extensions.any (·.isSuffixOf p.name) then [.ok p]
    else if p.name.isEmpty then []
    else extensions.map fun ext => p.withName (p.name ++ ext)
  let indexFiles :=
    if r.isDirectory p then
      extensions.map fun ext => .ok (p.join (r.settings.indexName ++ ext))
    else []
  files ++ indexFiles

/-- The first candidate that is a file. -/
def firstFile (r : Resolver) : List (Except NameFault Path) → Except NameFault (Option Path)
  | [] => .ok none
  | .error e :: _ => .error e
  | .ok p :: ps => if r.isFile p then .ok (some p) else firstFile r ps

/-- The file that a path-like specifier names. -/
def resolveRelative (r : Resolver) (specifier : Text) (importer : Option Text) :
    Except Failure Path :=
  let p := r.normalize ((r.baseDirectory importer).join specifier).text
  match r.firstFile (r.relativeCandidates p) with
  | .error e => .error (.name e)
  | .ok (some file) => .ok file
  | .ok none => .error (.moduleNotFound .file specifier importer)

/-- The package directory of the deepest directory, from `start` upwards, that has one. -/
def packageRoot? (r : Resolver) (start : Path) : Option Path :=
  (start.ancestors.map fun d => d.join r.settings.packageDirectory).find? r.isDirectory

/-- The file named by the package at `package`: its script, the entry of its manifest, or its index
file. The entry of a manifest is taken at its word. -/
def packageFile (r : Resolver) (package script : Path) : Logged (Option Path) := do
  let index := package.join (r.settings.indexName ++ r.settings.packageExtension)
  let manifest := package.join "package.json"
  if r.isFile script then return some script
  let entry ← if r.isFile manifest then Manifest.entry r.workspace manifest else pure none
  match entry with
  | some entry => return some (r.normalize (package.join entry).text)
  | none => return if r.isFile index then some index else none

/-- The file that the name of a package leads to. -/
def resolvePackage (r : Resolver) (specifier : Text) (importer : Option Text) : Logged Path :=
  let start := r.normalize (r.baseDirectory importer).text
  match r.packageRoot? start with
  | none =>
    Logged.fail (.moduleNotFound (.packageDirectory r.settings.packageDirectory start) specifier
      importer)
  | some root =>
    let package := r.normalize (root.join specifier).text
    match package.withName (package.name ++ r.settings.packageExtension) with
    | .error e => Logged.fail (.name e)
    | .ok script => do
      match ← r.packageFile package script with
      | some file => return file
      | none => Logged.fail (.moduleNotFound .package specifier importer)

/-- The file that a specifier names. -/
def resolve (r : Resolver) (specifier : Text) (importer : Option Text) : Logged Path :=
  if isRelativeSpecifier specifier then Logged.ofExcept (r.resolveRelative specifier importer)
  else r.resolvePackage specifier importer

/-- The file that the entry of a program names; it is path-like in any case. -/
def resolveEntry (r : Resolver) (entry : Text) : Except Failure Path :=
  r.resolveRelative entry none

end Resolver

end ScriptBundle
