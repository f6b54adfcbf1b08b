import ScriptBundle.Checker
import ScriptBundle.ModuleGraph.Discovery
import ScriptBundle.Script
import ScriptBundle.Transpiler

/-!
# Bundles

A bundle is the script of a program together with its modules. It is built in stages: the entry is
resolved, the program is checked, its modules are discovered, each is transpiled, and the script is
put together. The first failure ends the build.
-/

namespace ScriptBundle

/-- What a build uses. -/
structure Toolchain where
  resolver : Resolver
  transpiler : Transpiler
  checker : Checker

/-- The modules of a program, with their bodies, and its script. -/
structure Bundle where
  modules : List Module
  code : Text

namespace Toolchain

/-- The module with its body. -/
def transpileModule (tools : Toolchain) (m : Module) : Build Module := do
  Build.log (Log.debug ("Transpiling module " ++ Text.ofInt m.id ++ ": " ++ m.path.text))
  let body ← tools.transpiler.transpile m.path.text (m.source?.getD [])
  return { m with body? := some body }

/-- Checks the program with the given entry file. -/
def checkProgram (tools : Toolchain) (entry : Path) : Build Unit := do
  let diagnostics ← tools.checker.check entry.text
  if !diagnostics.isEmpty then throw (.typeErrors diagnostics)

/-- The file of an entry. -/
def resolveEntry (tools : Toolchain) (entry : Text) : Build Path :=
  Build.ofExcept (tools.resolver.resolveEntry entry)

/-- The modules of the program with the given entry file. -/
def discover (tools : Toolchain) (entry : Path) : Build ModuleGraph :=
  Build.ofLogged (Discovery.graph tools.resolver entry.text)

/-- Builds the bundle of a program. -/
def bundle (tools : Toolchain) (entry : Text) : Build Bundle := do
  Build.log (Log.info ("Starting bundle for entry '" ++ entry ++ "'"))
  Build.log (Log.stage "Resolving entry" entry)
  let path ← tools.resolveEntry entry
  Build.log (Log.debug ("Entry resolved to " ++ path.text))
  Build.log (Log.stage "Type checking" path.text)
  tools.checkProgram path
  Build.log (Log.stage "Building module graph" [])
  let graph ← tools.discover path
  Build.log (Log.info ("Module graph contains " ++ Text.ofNat graph.size ++ " module(s)"))
  Build.log (Log.stage "Transpiling modules" [])
  let modules ← graph.modules.mapM tools.transpileModule
  Build.log (Log.stage "Generating bundle" [])
  let code ← Build.ofLogged (Script.generate tools.resolver.workspace.cwd none modules)
  Build.log (Log.info ("Bundle complete: " ++ Text.ofNat graph.size ++ " module(s)"))
  return { modules, code }

/-- Finds the modules of a program, for inspection. -/
def buildGraph (tools : Toolchain) (entry : Text) : Build ModuleGraph := do
  tools.discover (← tools.resolveEntry entry)

end Toolchain

end ScriptBundle
