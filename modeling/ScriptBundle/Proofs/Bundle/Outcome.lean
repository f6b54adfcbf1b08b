import ScriptBundle.Proofs.Bundle.Requires
import ScriptBundle.Proofs.ModuleGraph.Bound
import ScriptBundle.Proofs.Resolver.Candidates
import ScriptBundle.Proofs.Script.Complete

/-!
# How a build ends

A build without external commands ends with a bundle or with a failure that is about the project. The
invariants of the build itself hold: discovery ends, its modules stand where their identities say, and
every dependency is among them. There are three exceptions. Two are about names that cannot be made: a
package specifier that climbs to the top of the file tree, and an extension that holds a slash. The
third is a manifest that names a path for which the system cannot be asked. Names have no greatest
length here, every directory can be searched, and nothing bounds how deeply sources and manifests nest.

* `Resolver.InvalidEntry`: the failure at such a manifest;
* `Lowering.transpile_failsOnly`: the lowering of one module;
* `complete_of_graph`: the modules of a graph can form a bundle;
* `bundle_failsOnly_of_stages`: the failures of a build are those of its stages;
* `bundle_failsOnly`, `ends_of_bundle`: the whole build, without external commands.
-/

namespace ScriptBundle

open Path Relation

/-- Lowering a source fails because of the source. -/
theorem Lowering.transpile_failsOnly (file source : Text) :
    (Lowering.transpile file source).FailsOnly fun f => f.isProjectError := by
  unfold Lowering.transpile
  split
  · exact .fail rfl
  · split
    · exact .fail rfl
    · split
      · exact (Logged.FailsOnly.log _).bind fun _ _ => .pure _
      · exact .pure _

/-- A failure to read the file that a specifier leads to, because the manifest of its package names a
path for which the system cannot be asked. -/
def Resolver.InvalidEntry (r : Resolver) (specifier : Text) (importer : Option Text) (f : Failure) :
    Prop :=
  ∃ package ∈ r.manifestPackage? specifier importer, ∃ file ∈ r.entryFile? package,
    r.isFile file = false ∧ ∃ fault, file.fault? = some fault ∧ f = .invalidPath fault

/-- A path that has been reached and is no file is the first one, or the entry of a manifest. -/
theorem Discovery.exists_entry_of_reached {r : Resolver} {start path : Path}
    (hstart : r.isFile start) (hpath : ReflTransGen (Names r) start path)
    (hfile : r.isFile path = false) :
    ∃ importer specifier, ReflTransGen (Names r) start importer ∧ Imports r importer specifier ∧
      ∃ package ∈ r.manifestPackage? specifier (some importer.text), path ∈ r.entryFile? package := by
  rcases hpath.cases_tail with rfl |
    ⟨importer, himporter, source, edges, specifier, hsource, hedges, hs, hresolve⟩
  · rw [hstart] at hfile
    cases hfile
  · obtain ⟨package, hpackage, hentry⟩ := Resolver.exists_entry_of_resolve hresolve hfile
    have himports : Imports r importer specifier := ⟨source, edges, hsource, hedges, hs⟩
    exact ⟨importer, specifier, himporter, himports, package, hpackage, hentry⟩

/-- The file of an entry is a file when it is normalized. -/
theorem Resolver.isFile_normalize_of_resolveEntry {r : Resolver} {entry : Text} {file : Path}
    (hcwd : r.workspace.cwd.Anchored) (h : r.resolveEntry entry = .ok file) :
    r.isFile (r.normalize file.text) := by
  have hfile := isFile_of_resolveRelative h
  have habsolute := (result_of_resolveRelative hcwd h).absolute
  simp only [isFile, FileTree.isFile] at hfile ⊢
  split at hfile
  · next heq =>
    rw [normalize, FileTree.locate_normalize habsolute heq]
    exact hfile
  · cases hfile

namespace Toolchain

variable {tools : Toolchain} {start : Text}

/-- The modules of a graph can form a bundle, whatever their bodies are. -/
theorem complete_of_graph {r : Resolver} {g : ModuleGraph} {modules : List Module}
    (hg : (Discovery.graph r start).result = .ok g)
    (h : List.Forall₂ (fun m m' => ∃ body : Text, m' = { m with body? := some body }) g.modules modules) :
    Script.Complete modules := by
  obtain ⟨registry, hprogress, hend⟩ := Discovery.progress_of_graph hg
  have hlength : g.modules.length = modules.length := h.length_eq
  refine ⟨fun hnil => ?_, fun {n m'} hm' => ?_, fun m' hm' => ?_, fun m' hm' d hd => ?_⟩
  · have hentry := (List.getElem?_eq_some_iff.1 hprogress.entry).1
    rw [hnil, List.length_nil] at hlength
    omega
  · obtain ⟨m, hm, body, rfl⟩ := exists_of_forall₂_of_getElem? h hm'
    exact (hprogress.placed n m hm).1
  · obtain ⟨m, hm, body, rfl⟩ := exists_of_forall₂_of_mem h hm'
    rfl
  · obtain ⟨m, hm, body, rfl⟩ := exists_of_forall₂_of_mem h hm'
    obtain ⟨j, p, hj, hp, -⟩ := (hprogress.tells m hm).leads d hd
    have hlt := (List.getElem?_eq_some_iff.1 hp).1
    omega

/-- The failures of a build: those of the project, those to make a name with an extension, and those at
a specifier of a file that is reached from the entry. The specifier climbs to the top of the file tree,
or the manifest of its package names a path for which the system cannot be asked. -/
inductive Stops (tools : Toolchain) (entry : Text) (f : Failure) : Prop
  | project (h : f.isProjectError)
  | slash (h : tools.resolver.SlashedName f)
  | specifier {file path : Path} {specifier : Text}
      (hfile : tools.resolver.resolveEntry entry = .ok file)
      (hpath : ReflTransGen (Discovery.Names tools.resolver) (tools.resolver.normalize file.text) path)
      (himports : Discovery.Imports tools.resolver path specifier)
      (h : tools.resolver.ClimbedOut specifier (some path.text) f ∨
        tools.resolver.InvalidEntry specifier (some path.text) f)

/-- A transpiler gives a module its body, and changes nothing else. -/
theorem exists_body_of_transpileModule {m m' : Module} {session session' : Session}
    (h : (tools.transpileModule m).run session = (.ok m', session')) :
    ∃ body : Text, m' = { m with body? := some body } := by
  obtain ⟨_, _, _, h⟩ := Build.run_bind_eq_ok h
  obtain ⟨body, _, -, h⟩ := Build.run_bind_eq_ok h
  exact ⟨body, (Build.eq_of_run_pure h).symm⟩

/-- A build fails like one of its stages. Putting the script together is none that fails. -/
theorem bundle_failsOnly_of_stages {P : Failure → Prop} {entry : Text}
    (hentry : ∀ f, tools.resolver.resolveEntry entry = .error f → P f)
    (hcheck : ∀ file, (tools.checkProgram file).FailsOnly P)
    (hgraph : ∀ file, tools.resolver.resolveEntry entry = .ok file →
      (Discovery.graph tools.resolver file.text).FailsOnly P)
    (htranspile : ∀ m, (tools.transpileModule m).FailsOnly P) : (tools.bundle entry).FailsOnly P := by
  refine (Build.FailsOnly.log _).bind fun _ _ => (Build.FailsOnly.log _).bind fun _ _ => ?_
  refine Build.FailsOnly.bind (.ofExcept hentry) fun file ⟨_, _, hfile⟩ => ?_
  refine (Build.FailsOnly.log _).bind fun _ _ => (Build.FailsOnly.log _).bind fun _ _ => ?_
  refine (hcheck file).bind fun _ _ => (Build.FailsOnly.log _).bind fun _ _ => ?_
  refine Build.FailsOnly.bind (.ofLogged (hgraph file (Build.result_of_run_ofExcept hfile)))
    fun g ⟨_, _, hg⟩ => ?_
  refine (Build.FailsOnly.log _).bind fun _ _ => (Build.FailsOnly.log _).bind fun _ _ => ?_
  refine Build.FailsOnly.bind (.mapM fun m _ => htranspile m) fun modules ⟨_, _, hmodules⟩ => ?_
  refine (Build.FailsOnly.log _).bind fun _ _ => ?_
  refine Build.FailsOnly.bind (.ofLogged ?_) fun _ _ => (Build.FailsOnly.log _).bind fun _ _ => .pure _
  have hcomplete : Script.Complete modules := by
    refine complete_of_graph (Build.result_of_run_ofLogged hg) ?_
    exact (Build.forall₂_of_run_mapM hmodules).imp fun m m' ⟨_, _, hm⟩ =>
      exists_body_of_transpileModule hm
  unfold Script.generate
  rw [Script.check_eq_ok_iff.2 hcomplete]
  exact (Logged.FailsOnly.log _).bind fun _ _ => .pure _

theorem transpileModule_failsOnly (ht : tools.transpiler = .lowering) (m : Module) :
    (tools.transpileModule m).FailsOnly fun f => f.isProjectError := by
  refine (Build.FailsOnly.log _).bind fun _ _ => Build.FailsOnly.bind ?_ fun _ _ => .pure _
  rw [ht]
  exact .ofLogged (Lowering.transpile_failsOnly _ _)

/-- The graph of an entry fails like a build. -/
theorem stops_of_graph (hcwd : tools.resolver.workspace.cwd.Anchored) {entry : Text} {file : Path}
    (hfile : tools.resolver.resolveEntry entry = .ok file) {f : Failure}
    (h : Discovery.Stops tools.resolver (tools.resolver.normalize file.text) f) :
    tools.Stops entry f := by
  cases h with
  | project h => exact .project h
  | slash h => exact .slash h
  | climb hpath himports h => exact .specifier hfile hpath himports (.inl h)
  | invalid hpath hnone hfault h =>
    have hstart := Resolver.isFile_normalize_of_resolveEntry hcwd hfile
    obtain ⟨importer, specifier, himporter, himports, package, hpackage, hentry⟩ :=
      Discovery.exists_entry_of_reached hstart hpath hnone
    exact .specifier hfile himporter himports
      (.inr ⟨package, hpackage, _, hentry, hnone, _, hfault, h⟩)

/-- A build without external commands fails because of the project, because a name cannot be made, or
because the system cannot be asked for a path. -/
theorem bundle_failsOnly (ht : tools.transpiler = .lowering) (hc : tools.checker = .none)
    (hcwd : tools.resolver.workspace.cwd.Anchored) (entry : Text) :
    (tools.bundle entry).FailsOnly (tools.Stops entry) := by
  refine bundle_failsOnly_of_stages (fun f hf => ?_) (fun file => ?_) (fun file hfile f hf => ?_)
    fun m s f s' hm => .project (transpileModule_failsOnly ht m s f s' hm)
  · rcases Resolver.resolveRelative_eq_error hcwd hf with h | h
    · exact .project h
    · exact .slash h
  · -- Nothing is checked.
    unfold checkProgram
    rw [hc]
    exact Build.FailsOnly.pure ()
  · exact stops_of_graph hcwd hfile (Discovery.graph_failsOnly hcwd file.text f hf)

/-- A build without external commands ends with a bundle, or with a failure that is about the project,
or because a name cannot be made, for a package specifier that climbs to the top of the file tree or
with an extension that holds a slash, or because a manifest names a path for which the system cannot be
asked. -/
theorem ends_of_bundle (ht : tools.transpiler = .lowering) (hc : tools.checker = .none)
    (hcwd : tools.resolver.workspace.cwd.Anchored) (entry : Text) (session : Session) :
    (∃ b session', (tools.bundle entry).run session = (.ok b, session')) ∨
      ∃ f session', (tools.bundle entry).run session = (.error f, session') ∧ tools.Stops entry f := by
  rcases hrun : (tools.bundle entry).run session with ⟨f | b, session'⟩
  · exact .inr ⟨f, session', rfl, bundle_failsOnly ht hc hcwd entry session f session' hrun⟩
  · exact .inl ⟨b, session', rfl⟩

/-- A program that imports a package whose manifest names a path with the null character. -/
def nullEntryProgram : Toolchain where
  resolver :=
    { workspace :=
        { tree :=
            (FileTree.empty.insertFile ["p", "a.ts"] (.file "import 'q'".toUTF8.toList)).insertFile
              ["p", "node_modules", "q", "package.json"]
              (.file "\x7b\"main\": \"a\\u0000b\"\x7d".toUTF8.toList)
          cwd := ⟨.top, ["p"]⟩ }
      settings := {}
      directory := ⟨.top, ["p"]⟩ }
  transpiler := .lowering
  checker := .none

example : (match ((nullEntryProgram.bundle "a").run {}).1 with
    | .error (.invalidPath fault) => fault = .embeddedNull
    | _ => false) = true := by
  decide +kernel

/-- A program whose file imports a package that it spells as the top of the file tree. -/
def climbingProgram : Toolchain where
  resolver :=
    { workspace :=
        { tree := (FileTree.empty.insertFile ["p", "a.ts"]
              (.file "import \"x/../../..\"".toUTF8.toList)).insertDirectory ["p", "node_modules"]
          cwd := ⟨.top, ["p"]⟩ }
      settings := {}
      directory := ⟨.top, ["p"]⟩ }
  transpiler := .lowering
  checker := .none

/-- Its build fails, and the failure is not about the project. -/
theorem stops_climbingProgram :
    ∃ f session', (climbingProgram.bundle "a").run {} = (.error f, session') ∧
      f = .name (.noName ⟨.top, []⟩) ∧ f.isProjectError = false := by
  have h : (match ((climbingProgram.bundle "a").run {}).1 with
      | .error (.name fault) => fault = .noName ⟨.top, []⟩
      | _ => false) = true := by
    decide +kernel
  rcases hrun : (climbingProgram.bundle "a").run {} with ⟨f | b, session'⟩
  · rw [hrun] at h
    refine ⟨f, session', rfl, ?_⟩
    cases f <;> simp_all [Failure.isProjectError, Failure.isReported]
  · rw [hrun] at h
    cases h

theorem anchored_climbingProgram : climbingProgram.resolver.workspace.cwd.Anchored := by decide

theorem ends_climbingProgram :
    climbingProgram.transpiler = .lowering ∧ climbingProgram.checker = .none ∧
      climbingProgram.resolver.workspace.cwd.Anchored ∧
      ((∃ b session', (climbingProgram.bundle "a").run {} = (.ok b, session')) ∨
        ∃ f session', (climbingProgram.bundle "a").run {} = (.error f, session') ∧
          climbingProgram.Stops "a" f) :=
  ⟨rfl, rfl, anchored_climbingProgram, ends_of_bundle rfl rfl anchored_climbingProgram "a" {}⟩

end Toolchain

end ScriptBundle
