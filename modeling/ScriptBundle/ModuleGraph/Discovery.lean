import ScriptBundle.ModuleGraph
import ScriptBundle.Registry
import ScriptBundle.Resolver

/-!
# Discovering the modules of a program

Starting from its entry, every source of a program is read, and the files that it names are registered
in the order of its statements. Sources are read in the order of their identities, so the modules come
out breadth first; a file that is registered already is not read again, and import cycles end.

* `Discovery.readModule`: one module, with its dependencies;
* `Discovery.run`, `Discovery.graph`: all modules from the entry on.
-/

namespace ScriptBundle

namespace Discovery

/-- Resolves the statements `edges` of the source in `importer`, registers what they name, and adds it
to the dependencies. -/
def resolveEdges (r : Resolver) (importer : Text) (registry : Registry) (ds : Dependencies) :
    List Text → Logged (Registry × Dependencies)
  | [] => pure (registry, ds)
  | specifier :: rest => do
    let path ← r.resolve specifier (some importer)
    let (registry, id, isNew) := registry.register path
    if isNew then
      Logged.log (Log.debug ("Resolved '" ++ specifier ++ "' to " ++ path.text ++ " (module " ++
        Text.ofNat id ++ ")"))
    resolveEdges r importer registry (ds.insert specifier id) rest

/-- The source at a path. -/
def readSource (r : Resolver) (path : Path) : Except Failure Text :=
  match r.workspace.tree.readText r.workspace.cwd path with
  | .ok source => .ok source
  | .error (.path f) => .error (.invalidPath f)
  | .error (.failed e) => .error (.unreadableSource path e)

/-- The specifiers of the module statements of a source. -/
def edgesOf (path : Path) (source : Text) : Except Failure (List Text) :=
  match moduleEdges source with
  | .ok statements => .ok (statements.filterMap (·.specifier?))
  | .error f => .error (.malformedSource path.text f)

/-- Reads the module with a given identity and path, and registers the files that it names. -/
def readModule (r : Resolver) (registry : Registry) (id : Nat) (path : Path) :
    Logged (Registry × Module) := do
  Logged.log (Log.debug ("Scanning module " ++ Text.ofNat id ++ ": " ++ path.text))
  let source ← Logged.ofExcept (readSource r path)
  let edges ← Logged.ofExcept (edgesOf path source)
  let (registry, dependencies) ← resolveEdges r path.text registry [] edges
  return (registry, { id, path, dependencies, source? := some source })

/-- Reads every registered file behind the modules `done`, at most `bound` of them. -/
def run (r : Resolver) (bound : Nat) (registry : Registry) (done : List Module) :
    Logged (List Module) :=
  match registry.paths[done.length]?, bound with
  | none, _ => pure done
  | some _, 0 => Logged.fail (.internal .unboundedGraph)
  | some path, bound + 1 => do
    let (registry, m) ← readModule r registry done.length path
    run r bound registry (done ++ [m])

/-- How many modules a program can have. A path that can be read is a root with the location of a file,
spelled as it was named or with one of the extensions, or with a directory whose index file it names;
one more may be unreadable. -/
def bound (r : Resolver) : Nat :=
  2 * (r.workspace.tree.entries.length + 1) * (2 * r.settings.sourceExtensions.length + 3) + 2

/-- The modules of the program with the given entry. -/
def graph (r : Resolver) (entry : Text) : Logged ModuleGraph := do
  let (registry, _) := Registry.empty.register (r.normalize entry)
  let modules ← run r (bound r) registry []
  let graph ← Logged.ofExcept ((ModuleGraph.ofModules modules).mapError .internal)
  Logged.log (Log.debug ("Module graph contains " ++ Text.ofNat graph.size ++ " module(s)"))
  return graph

end Discovery

end ScriptBundle
