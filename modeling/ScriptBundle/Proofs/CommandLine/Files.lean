import Mathlib.Data.List.Nodup
import Mathlib.Data.List.Perm.Subperm
import ScriptBundle.CommandLine
import ScriptBundle.Proofs.FileTree.Write

/-!
# What the program does to the files

Only the writing of an output file changes the files for good: a script that is run from a temporary
file is removed when the run has ended, and no other action touches a file. But a bundle that has no
encoding leaves an empty file where it was to be written.

* `temporaryFile_free`: a temporary file stands where nothing stood before;
* `Machine.Bundles`: the bundle that the options ask for;
* `Machine.Writes`, `Machine.Empties`, `Effect`: what can become of the files, with `effect_of_build`,
  `effect_of_run` and `effect_of_perform`;
* `files_of_main`: the files after the program has ended.
-/

namespace ScriptBundle

open CommandLine

/-- The bundle that the options ask for is `b`. -/
def Machine.Bundles (m : Machine) (a : Arguments) (b : Bundle) : Prop :=
  ∃ tools s t, (a.toolchain m).run { outcomes := m.outcomes } = (.ok tools, s) ∧
    (tools.bundle (a.entryFile?.getD [])).run s = (.ok b, t)

/-- The output file that the options name is written, with the bundle that they ask for. -/
def Machine.Writes (m : Machine) (a : Arguments) (tree : FileTree) : Prop :=
  ∃ b output bytes, m.Bundles a b ∧ Arguments.given a.output? = some output ∧
    Utf8.encode b.code = .ok bytes ∧
    m.workspace.tree.Writes m.workspace.cwd (Path.ofText output) bytes tree

/-- Where the bundle is to be written: at the output file, or to be run. -/
def Machine.Destination (m : Machine) (a : Arguments) (loc : Location) : Prop :=
  match a.mode with
  | .build => ∃ output, Arguments.given a.output? = some output ∧
      m.workspace.tree.writable m.workspace.cwd (Path.ofText output) = .ok loc
  | .run => loc = temporaryFile m.workspace.tree
  | .graph => False

/-- The bundle that the options ask for has no encoding, and an empty file stands in its place. -/
def Machine.Empties (m : Machine) (a : Arguments) (u : Utf8.Unencodable) (tree : FileTree) : Prop :=
  ∃ b loc, m.Bundles a b ∧ Utf8.encode b.code = .error u ∧ m.Destination a loc ∧
    tree = m.workspace.tree.insert loc (.file [])

namespace CommandLine

variable {α : Type} {m : Machine} {a : Arguments} {b : Bundle} {s : State} {t : FileTree}

/-! ### Temporary files -/

theorem temporaryPlace_injective : Function.Injective temporaryPlace := by
  intro i j h
  have h : ("tsb_run" ++ List.replicate i (CodePoint.ofChar '_') ++ ".js" : Text) =
      "tsb_run" ++ List.replicate j (CodePoint.ofChar '_') ++ ".js" := by
    simpa [temporaryPlace] using h
  simpa using congrArg List.length h

/-- A tree with `n` entries leaves one of any `n + 1` places free. -/
theorem exists_free (t : FileTree) :
    ∃ n ∈ List.range (t.entries.length + 1), (t.at? (temporaryPlace n)).isNone := by
  by_contra hall
  push Not at hall
  have hsub : (List.range (t.entries.length + 1)).map temporaryPlace ⊆ t.entries.map (·.1) := by
    intro loc hloc
    obtain ⟨n, hn, rfl⟩ := List.mem_map.1 hloc
    cases he : t.at? (temporaryPlace n) with
    | none => exact absurd (by rw [he]; rfl) (hall n hn)
    | some e =>
      rcases List.mem_cons.1 (FileTree.mem_of_at? he) with h | h
      · exact absurd h (List.cons_ne_nil _ _)
      · exact h
  have hnodup : ((List.range (t.entries.length + 1)).map temporaryPlace).Nodup :=
    (List.nodup_map_iff temporaryPlace_injective).2 List.nodup_range
  have hlength := (List.subperm_of_subset hnodup hsub).length_le
  rw [List.length_map, List.length_map, List.length_range] at hlength
  omega

theorem temporaryFile_free (t : FileTree) : t.at? (temporaryFile t) = none := by
  obtain ⟨n, hn, hfree⟩ := exists_free t
  unfold temporaryFile
  cases hfind : (List.range (t.entries.length + 1)).find? fun n =>
      (t.at? (temporaryPlace n)).isNone with
  | none => exact absurd hfree (by simpa using List.find?_eq_none.1 hfind n hn)
  | some k => simpa using List.find?_some hfind

/-! ### Bundles -/

theorem run_of_attempt {x : Build α} {v : α} {s t : Session}
    (h : (attempt x).run s = (.ok (.ok v), t)) : x.run s = (.ok v, t) := by
  obtain ⟨r, u, hr, h⟩ := Build.run_bind_eq_ok h
  have hx : x.run s = (r, u) := by
    cases hx : x.run s with
    | mk r' u' =>
      have hr : (Except.ok (x.run s).1, (x.run s).2) = (Except.ok r, u) := hr
      rw [hx] at hr
      cases hr
      rfl
  cases r with
  | error f =>
    simp only at h
    split at h <;> cases h
  | ok w =>
    cases h
    exact hx

theorem bundles_of_makeBundle {session : Session}
    (h : (makeBundle m a).run { outcomes := m.outcomes } = (.ok (some b), session)) :
    m.Bundles a b := by
  obtain ⟨tools, s, htools, h⟩ := Build.run_bind_eq_ok h
  obtain ⟨r, t, hr, h⟩ := Build.run_bind_eq_ok h
  cases r with
  | error f =>
    obtain ⟨_, _, _, h⟩ := Build.run_bind_eq_ok h
    cases h
  | ok b' =>
    cases h
    exact ⟨tools, s, _, htools, run_of_attempt hr⟩

/-! ### What becomes of the files -/

/-- What becomes of the files when the options are carried out, by the result. -/
inductive Effect (m : Machine) (a : Arguments) : Except Failure Ending × State → Prop
  | untouched {r : Except Failure Ending} {s : State} (htree : s.tree = m.workspace.tree)
      (h : ∀ e, r = .ok e → a.mode = .build → e.status ≠ 0) : Effect m a (r, s)
  | written {s : State} (hmode : a.mode = .build) (h : m.Writes a s.tree) :
      Effect m a (.ok { status := 0 }, s)
  | emptied {u : Utf8.Unencodable} {s : State} (h : m.Empties a u s.tree) :
      Effect m a (.error (.unencodable u), s)

theorem Effect.failed {f : Failure} (htree : s.tree = m.workspace.tree) :
    Effect m a (.error f, s) :=
  .untouched htree nofun

theorem Effect.reported (htree : s.tree = m.workspace.tree) : Effect m a (.ok { status := 1 }, s) := by
  refine .untouched htree fun e he _ => ?_
  cases he
  exact Int.one_ne_zero

theorem effect_of_writeBundle {output : Text} (hmode : a.mode = .build) (hb : m.Bundles a b)
    (houtput : Arguments.given a.output? = some output) (hs : s.tree = m.workspace.tree) :
    Effect m a ((writeBundle m.workspace.cwd output b).run s) := by
  rw [writeBundle, Action.run_bind, Action.run_files, hs]
  simp only
  cases hloc : m.workspace.tree.writable m.workspace.cwd (Path.ofText output) with
  | error e =>
    cases e with
    | path fault => exact .failed hs
    | failed e =>
      simp only [Action.run_bind, Action.run_log]
      exact .reported hs
  | ok loc =>
    simp only [Action.run_bind, Action.run_write, hs]
    cases hcode : Utf8.encode b.code with
    | error u =>
      refine .emptied ⟨b, loc, hb, hcode, ?_, rfl⟩
      rw [Machine.Destination, hmode]
      exact ⟨output, houtput, hloc⟩
    | ok bytes =>
      exact .written hmode ⟨b, output, bytes, hb, houtput, hcode, FileTree.writes_of_writable hloc bytes⟩

theorem effect_of_build (hmode : a.mode = .build) :
    Effect m a ((build m a).run ⟨m.workspace.tree, { outcomes := m.outcomes }⟩) := by
  rw [build, Action.run_bind, Action.run_ofBuild]
  rcases hmake : (makeBundle m a).run { outcomes := m.outcomes } with ⟨_ | b?, session⟩
  · exact .failed rfl
  · cases b? with
    | none => exact .reported rfl
    | some b =>
      simp only
      cases houtput : Arguments.given a.output? with
      | none => exact .reported rfl
      | some output => exact effect_of_writeBundle hmode (bundles_of_makeBundle hmake) houtput rfl

/-- The temporary file is there while the bundle runs, and neither before nor behind. -/
theorem effect_of_runBundle (hmode : a.mode = .run) (hb : m.Bundles a b)
    (hs : s.tree = m.workspace.tree) : Effect m a ((runBundle m a b).run s) := by
  rw [runBundle, Action.run_bind, Action.run_files]
  simp only
  rw [Action.run_bind, Action.run_write]
  cases hcode : Utf8.encode b.code with
  | error u =>
    refine .emptied ⟨b, temporaryFile s.tree, hb, hcode, ?_, by rw [← hs]⟩
    rw [Machine.Destination, hmode]
    exact congrArg temporaryFile hs
  | ok bytes =>
    simp only
    rw [Action.run_andFinally_remove]
    refine .untouched ?_ fun e _ h => by rw [hmode] at h; cases h
    rw [Action.run_ofBuild]
    exact (FileTree.remove_insert (temporaryFile_free s.tree) _).trans hs

theorem effect_of_run (hmode : a.mode = .run) :
    Effect m a ((run m a).run ⟨m.workspace.tree, { outcomes := m.outcomes }⟩) := by
  rw [run, Action.run_bind, Action.run_ofBuild]
  rcases hmake : (makeBundle m a).run { outcomes := m.outcomes } with ⟨_ | b?, session⟩
  · exact .failed rfl
  · cases b? with
    | none => exact .reported rfl
    | some b => exact effect_of_runBundle hmode (bundles_of_makeBundle hmake) rfl

theorem effect_of_perform (m : Machine) (a : Arguments) :
    Effect m a ((perform m a).run ⟨m.workspace.tree, { outcomes := m.outcomes }⟩) := by
  unfold perform
  cases hmode : a.mode with
  | build => exact effect_of_build hmode
  | run => exact effect_of_run hmode
  | graph =>
    simp only
    rw [Action.run_ofBuild]
    exact .untouched rfl fun e _ h => by rw [hmode] at h; cases h

/-- If the program ends with the status 0 after building a bundle, it has written the output file with
the encoding of the bundle, and changed nothing else. If it ends in any other way, the files are what
they were, unless the bundle has no encoding: then an empty file stands where it was to be written. -/
theorem files_of_main (m : Machine) (argv : List Text) :
    (∀ a, Arguments.parse argv = .ok a → a.help = false → a.mode = .build →
      (main m argv).status = .ok 0 → m.Writes a (main m argv).tree) ∧
    ((∀ a, Arguments.parse argv = .ok a → a.help = false → a.mode = .build →
        (main m argv).status ≠ .ok 0) →
      (main m argv).tree = m.workspace.tree ∨
        ∃ a u, Arguments.parse argv = .ok a ∧ (main m argv).status = .error (.unencodable u) ∧
          m.Empties a u (main m argv).tree) := by
  cases hparse : Arguments.parse argv with
  | error e =>
    refine ⟨fun a ha => ?_, fun _ => .inl ?_⟩
    · cases ha
    · rw [main, hparse]
  | ok a =>
    cases hhelp : a.help with
    | true =>
      refine ⟨fun a' ha hfalse => ?_, fun _ => .inl ?_⟩
      · cases ha
        rw [hhelp] at hfalse
        cases hfalse
      · rw [main, hparse]
        simp only [hhelp, if_true]
    | false =>
      unfold main
      simp only [hparse, hhelp, Bool.false_eq_true, if_false]
      have heffect := effect_of_perform m a
      generalize (perform m a).run ⟨m.workspace.tree, { outcomes := m.outcomes }⟩ = x at heffect ⊢
      cases heffect with
      | @untouched r s htree h =>
        rcases r with f | e
        · exact ⟨fun _ _ _ _ => nofun, fun _ => .inl htree⟩
        · refine ⟨fun a' ha _ hmode hzero => ?_, fun _ => .inl htree⟩
          cases ha
          exact absurd (Except.ok.inj hzero) (h e rfl hmode)
      | written hmode h =>
        refine ⟨fun a' ha _ _ _ => ?_, fun hnot => absurd rfl (hnot a rfl hhelp hmode)⟩
        cases ha
        exact h
      | emptied h => exact ⟨fun _ _ _ _ => nofun, fun _ => .inr ⟨a, _, rfl, rfl, h⟩⟩

/-- A machine with one file, in the directory in which the program runs. -/
def machineWith (source : String) : Machine where
  workspace := ⟨FileTree.empty.insertFile ["p", "m.ts"] (.file source.toUTF8.toList), ⟨.top, ["p"]⟩⟩
  environment := []
  outcomes := []
  clock := []

/-- A module whose bundle has no encoding: it exports a name that is half a surrogate pair. -/
def halfPair : Machine := machineWith "export \x7b '\\ud800' as x \x7d"

/-- Building it fails, and an empty file is left behind. -/
theorem emptied_halfPair :
    let r := main halfPair ["m.ts", "-o", "o.js", "--no-check"]
    (∃ u, r.status = .error (.unencodable u)) ∧
      halfPair.workspace.tree.at? ["p", "o.js"] = none ∧
      r.tree.at? ["p", "o.js"] = some (.file []) := by
  have h : (match main halfPair ["m.ts", "-o", "o.js", "--no-check"] with
      | ⟨.error (.unencodable _), _, _, _, tree⟩ => tree.at? ["p", "o.js"] = some (.file [])
      | _ => false) = true := by
    decide +kernel
  simp only
  refine ⟨?_, by decide +kernel, ?_⟩ <;> split at h
  · next u _ _ _ _ hmain => exact ⟨u, by rw [hmain]⟩
  · cases h
  · next hmain =>
    rw [hmain]
    exact of_decide_eq_true h
  · cases h

theorem files_of_main_plain :
    ∃ a, Arguments.parse ["m.ts", "-o", "o.js", "--no-check"] = .ok a ∧
      (machineWith "f()").Writes a
        (main (machineWith "f()") ["m.ts", "-o", "o.js", "--no-check"]).tree := by
  have hparse : (Arguments.parse ["m.ts", "-o", "o.js", "--no-check"]).toOption.any
      fun a => !a.help && a.mode = .build := by
    decide +kernel
  have hstatus : (main (machineWith "f()") ["m.ts", "-o", "o.js", "--no-check"]).status.toOption.any
      fun status => status = 0 := by
    decide +kernel
  obtain ⟨a, ha, hmode⟩ := Except.exists_of_any_toOption hparse
  obtain ⟨status, hstatus, hzero⟩ := Except.exists_of_any_toOption hstatus
  have hmode : a.help = false ∧ a.mode = .build := by simpa using hmode
  rw [of_decide_eq_true hzero] at hstatus
  exact ⟨a, ha, (files_of_main _ _).1 a ha hmode.1 hmode.2 hstatus⟩

end CommandLine

end ScriptBundle
