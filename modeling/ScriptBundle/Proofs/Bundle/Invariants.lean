import ScriptBundle.Proofs.Bundle.Outcome

/-!
# The invariants of a build

A build checks its own work in two places: a graph must hold each module where its identity says, and
the modules that go into a bundle must be complete. Neither check ever fails, whatever the files, the
checker and the transpiler are, since discovery hands out the identities in the order of its modules
and mentions no others.

* `Failure.IsOrdinary`: the failures that are no violated invariant;
* `Checker.check_failsOnly`, `Transpiler.transpile_failsOnly`: the external commands;
* `invariants_of_bundle`: no build and no graph violates an invariant.
-/

namespace ScriptBundle

/-- The failure is no violated invariant of the build. -/
def Failure.IsOrdinary (f : Failure) : Prop := ∀ fault, f ≠ .internal fault

theorem Failure.IsOrdinary.of_isProjectError {f : Failure} (h : f.isProjectError) : f.IsOrdinary := by
  rintro fault rfl
  cases h

theorem Checker.check_failsOnly (entry : Text) (checker : Checker) :
    (checker.check entry).FailsOnly Failure.IsOrdinary := by
  cases checker with
  | none => exact .pure _
  | command words arguments =>
    refine (Build.FailsOnly.log _).bind fun _ _ => (Build.FailsOnly.start _).bind fun outcome _ => ?_
    cases outcome with
    | notStarted e => exact .pure _
    | interrupted => exact .throw (by rintro _ ⟨⟩)
    | exited status output errors =>
      refine Build.FailsOnly.bind (.ofExcept fun f hf => ?_) fun _ _ =>
        (Build.FailsOnly.log _).bind fun _ _ => .pure _
      cases hparse : Report.parse (reportOf output errors) with
      | error fault =>
        rw [hparse] at hf
        cases hf
        rintro _ ⟨⟩
      | ok diagnostics =>
        rw [hparse] at hf
        cases hf

theorem Transpiler.transpile_failsOnly (file source : Text) (transpiler : Transpiler) :
    (transpiler.transpile file source).FailsOnly Failure.IsOrdinary := by
  cases transpiler with
  | lowering =>
    refine .ofLogged fun f hf => ?_
    exact .of_isProjectError (Lowering.transpile_failsOnly file source f hf)
  | command words =>
    refine (Build.FailsOnly.log _).bind fun _ _ => ?_
    split
    · exact .throw (by rintro _ ⟨⟩)
    · refine (Build.FailsOnly.start _).bind fun outcome _ => ?_
      cases outcome with
      | notStarted e => exact .throw (by rintro _ ⟨⟩)
      | interrupted => exact .throw (by rintro _ ⟨⟩)
      | exited status output errors =>
        refine .ofExcept fun f hf => ?_
        unfold bodyOf at hf
        split at hf
        · cases hf
        · cases hf
          rintro _ ⟨⟩

namespace Discovery

variable {r : Resolver} {start : Path} {f : Failure}

theorem Stops.isOrdinary (h : Stops r start f) : f.IsOrdinary := by
  rintro fault rfl
  cases h with
  | project h => cases h
  | slash h =>
    obtain ⟨_, -, -, _, h⟩ := h
    cases h
  | climb _ _ h =>
    obtain ⟨_, -, h⟩ := h
    cases h
  | invalid _ _ _ h => cases h

end Discovery

namespace Toolchain

variable {tools : Toolchain}

theorem transpileModule_isOrdinary (m : Module) :
    (tools.transpileModule m).FailsOnly Failure.IsOrdinary :=
  (Build.FailsOnly.log _).bind fun _ _ =>
    (Transpiler.transpile_failsOnly _ _ _).bind fun _ _ => .pure _

theorem checkProgram_failsOnly (file : Path) : (tools.checkProgram file).FailsOnly Failure.IsOrdinary := by
  refine (Checker.check_failsOnly _ _).bind fun diagnostics _ => ?_
  split
  · exact .throw (by rintro _ ⟨⟩)
  · exact .pure _

/-- The modules of a graph, each with its body. -/
def withBodies (modules : List Module) (bodies : List Text) : List Module :=
  List.zipWith (fun m body => { m with body? := some body }) modules bodies

theorem forall₂_withBodies {modules : List Module} {bodies : List Text}
    (h : bodies.length = modules.length) :
    List.Forall₂ (fun m m' => ∃ body : Text, m' = { m with body? := some body }) modules
      (withBodies modules bodies) := by
  induction modules generalizing bodies with
  | nil => exact .nil
  | cons m modules ih =>
    obtain ⟨body, bodies, rfl⟩ := List.exists_cons_of_length_eq_add_one h
    exact .cons ⟨body, rfl⟩ (ih (by simpa using h))

/-- A build fails in an ordinary way, if it fails. -/
theorem bundle_isOrdinary (hcwd : tools.resolver.workspace.cwd.Anchored) (entry : Text) :
    (tools.bundle entry).FailsOnly Failure.IsOrdinary := by
  refine bundle_failsOnly_of_stages (fun f hf => ?_) checkProgram_failsOnly (fun file _ f hf => ?_)
    transpileModule_isOrdinary
  · rcases Resolver.resolveRelative_eq_error hcwd hf with h | ⟨_, -, -, _, rfl⟩
    · exact .of_isProjectError h
    · rintro _ ⟨⟩
  · exact (Discovery.graph_failsOnly hcwd file.text f hf).isOrdinary

/-- No build violates an invariant, whatever its files, its checker and its transpiler are. The modules
that discovery finds make a graph, and whatever texts they get for bodies, they can form a bundle. -/
theorem invariants_of_bundle (hcwd : tools.resolver.workspace.cwd.Anchored) (entry : Text) :
    (∀ session fault session', (tools.bundle entry).run session ≠ (.error (.internal fault), session')) ∧
    (∀ start fault, (Discovery.graph tools.resolver start).result ≠ .error (.internal fault)) ∧
    ∀ start g bodies, (Discovery.graph tools.resolver start).result = .ok g →
      bodies.length = g.modules.length →
      Script.Complete (withBodies g.modules bodies) ∧
        Script.check (withBodies g.modules bodies) = .ok () := by
  refine ⟨fun session fault session' h => ?_, fun start fault h => ?_, fun start g bodies hg hlength => ?_⟩
  · exact bundle_isOrdinary hcwd entry session _ session' h fault rfl
  · exact (Discovery.graph_failsOnly hcwd start _ h).isOrdinary fault rfl
  · have hcomplete := complete_of_graph hg (forall₂_withBodies hlength)
    exact ⟨hcomplete, Script.check_eq_ok_iff.2 hcomplete⟩

/-- A build of two files that import each other, which gets its bodies from a command. -/
def commandProgram : Toolchain where
  resolver := Discovery.mutualImports
  transpiler := .command ["t"]
  checker := .none

theorem invariants_commandProgram :
    commandProgram.resolver.workspace.cwd.Anchored ∧
      (∀ session fault session',
        (commandProgram.bundle "a").run session ≠ (.error (.internal fault), session')) ∧
      ∃ g, (Discovery.graph commandProgram.resolver "/p/a.ts").result = .ok g ∧ g.size = 2 ∧
        Script.Complete (withBodies g.modules ["a();", "b();"]) ∧
        Script.check (withBodies g.modules ["a();", "b();"]) = .ok () := by
  have hcwd : commandProgram.resolver.workspace.cwd.Anchored := by decide
  obtain ⟨hbundle, -, hcomplete⟩ := invariants_of_bundle hcwd "a"
  have h : (Discovery.graph commandProgram.resolver "/p/a.ts").result.toOption.any (·.size = 2) := by
    decide +kernel
  obtain ⟨g, hg, hsize⟩ := Except.exists_of_any_toOption h
  have hsize : g.size = 2 := of_decide_eq_true hsize
  exact ⟨hcwd, hbundle, g, hg, hsize, hcomplete "/p/a.ts" g ["a();", "b();"] hg hsize.symm⟩

end Toolchain

end ScriptBundle
