import ScriptBundle.Log
import ScriptBundle.ModuleGraph

/-!
# The script of a bundle

A bundle is one script: a loader, applied to a table that holds for each module a function with the
body of the module and the dependencies of the module. Each piece stands on a line of its own, and in
front of a module a comment shows its path.

* `Script.check`: what a list of modules must satisfy;
* `Script.lines`, `Script.text`: the script of a list of modules.
-/

namespace ScriptBundle.Script

/-- The loader. The record of a module is kept before its function runs, so that a module that is
reached again through a cycle of imports finds the exports that it has so far. -/
def loader : List Text :=
  ["var executedModules = \x7b\x7d;",
    "function executeModule(id) \x7b",
    "  if (Object.prototype.hasOwnProperty.call(executedModules, id)) \x7b",
    "    return executedModules[id].exports;",
    "  \x7d",
    "  var mod = modules[id];",
    "  var localRequire = function (specifier) \x7b",
    "    if (!Object.prototype.hasOwnProperty.call(mod[1], specifier)) \x7b",
    "      throw new Error(\"Cannot find module '\" + specifier + \"'\");",
    "    \x7d",
    "    return executeModule(mod[1][specifier]);",
    "  \x7d;"].map Text.ofString ++
  ["  var module = \x7b exports: \x7b\x7d \x7d;",
    "  executedModules[id] = module;",
    "  mod[0].call(module.exports, localRequire, module, module.exports);",
    "  return module.exports;",
    "\x7d",
    "executeModule(0);"].map Text.ofString

/-- The lines in front of the first module. -/
def opening : List Text :=
  [Text.ofString ";(function (modules) \x7b"] ++ loader ++ [Text.ofString "\x7d)(\x7b"]

/-- The line behind the last module. -/
def closing : Text := "\x7d)"

/-- The head of the function of a module. -/
def functionHead : Text := "function (require, module, exports) \x7b"

/-- A path as the comment of a module shows it; the end of a comment inside it is broken up. -/
def displayPath (cwd : Path) (root path : Path) : Text :=
  Text.replace "*/" "*\\/" (Path.relativeTo cwd path root)

/-- One entry of the dependencies of a module. -/
def dependencyLine (specifier : Text) (id : Int) : Text :=
  StringLiteral.encode specifier ++ ": " ++ Text.ofInt id ++ ","

/-- The lines of a module. -/
def moduleLines (cwd root : Path) (m : Module) : List Text :=
  ["/* " ++ displayPath cwd root m.path ++ " */",
    Text.ofInt m.id ++ ": [",
    functionHead,
    m.body?.getD [],
    "\x7d, \x7b"] ++
  (m.dependencies.map fun (s, i) => dependencyLine s i) ++
  [Text.ofString "\x7d", Text.ofString "],"]

/-- The fault of a module at a position among `count` modules. -/
def moduleFault? (count : Nat) (m : Module) (position : Nat) : Option InternalFault :=
  if m.id ≠ position then some (.misplacedScript m.path m.id position)
  else if m.body?.isNone then some (.noBody m.path)
  else
    (m.dependencies.find? fun (_, i) => !(0 ≤ i && i < count)).map fun (s, i) =>
      .unknownDependency s m.path i

/-- Checks that modules can form a bundle: there is one, the identity of each is its position, each has
a body, and all dependencies are among them. -/
def check (modules : List Module) : Except InternalFault Unit :=
  if modules.isEmpty then .error .noModules
  else
    match modules.zipIdx.findSome? fun (m, n) => moduleFault? modules.length m n with
    | some f => .error f
    | none => .ok ()

/-- The lines of the script. Paths are shown relative to `root`, or to the directory of the first
module. -/
def lines (cwd : Path) (root? : Option Path) (modules : List Module) : List Text :=
  let root := root?.getD ((modules.head?.map (·.path.parent)).getD cwd)
  opening ++ modules.flatMap (moduleLines cwd root) ++ [closing]

/-- The script of a list of modules. -/
def text (cwd : Path) (root? : Option Path) (modules : List Module) : Text :=
  (lines cwd root? modules).flatMap (· ++ Text.lineFeed)

/-- The script of a list of modules that can form a bundle. -/
def generate (cwd : Path) (root? : Option Path) (modules : List Module) : Logged Text := do
  Logged.ofExcept ((check modules).mapError .internal)
  let code := text cwd root? modules
  Logged.log (Log.debug ("Generated bundle: " ++ Text.ofNat modules.length ++ " module(s), " ++
    Text.ofNat code.length ++ " character(s)"))
  return code

end ScriptBundle.Script
