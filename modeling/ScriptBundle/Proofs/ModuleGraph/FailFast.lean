import ScriptBundle.Proofs.ModuleGraph.Rounds

/-!
# The first failure ends discovery

Apart from the order in which files come up, discovery is a sequence of steps that have nothing to do
with each other: reading a file, scanning its source, resolving one specifier. It fails exactly with
the first of them that fails on its own, breadth first, and it succeeds exactly when no step at a file
of the closure fails.

* `Step`, `Step.result`: the steps, and what each gives on its own;
* `stepsAt`, `namedBy`: the steps at a file, and the files that they find;
* `known`: the files in the order in which they come up;
* `FirstFailure`: the first failure in that order;
* `graph_eq_error_iff`, `graph_eq_ok_iff`, `graph_failsFast`: how discovery ends.
-/

namespace ScriptBundle

namespace Discovery

open Relation

variable {r : Resolver} {start path : Path} {registry registry' : Registry} {done : List Module}
  {m : Module} {f : Failure}

/-- One thing that discovery does at a file. -/
inductive Step
  | read (path : Path)
  | scan (path : Path) (source : Text)
  | resolve (path : Path) (specifier : Text)

/-- What becomes of a step that is done on its own. -/
def Step.result (r : Resolver) : Step → Except Failure Unit
  | .read path => (readSource r path).map fun _ => ()
  | .scan path source => (edgesOf path source).map fun _ => ()
  | .resolve path specifier => (r.resolve specifier (some path.text)).result.map fun _ => ()

/-- The file that a step finds. -/
def Step.target? (r : Resolver) : Step → Option Path
  | .resolve path specifier => (r.resolve specifier (some path.text)).result.toOption
  | _ => none

/-- The steps at a file: it is read, its source is scanned to the end, and its specifiers are resolved
in their order. What cannot be read is not scanned, and what cannot be scanned has no specifiers. -/
def stepsAt (r : Resolver) (path : Path) : List Step :=
  .read path ::
    match readSource r path with
    | .error _ => []
    | .ok source =>
      .scan path source ::
        match edgesOf path source with
        | .error _ => []
        | .ok edges => edges.map (.resolve path)

/-- The files that a file names, in the order of its specifiers. -/
def namedBy (r : Resolver) (path : Path) : List Path := (stepsAt r path).filterMap (Step.target? r)

/-- The entry and the files that are named by the first `n` files, each as often as it is named. The
files are visited in the order in which they are named for the first time. -/
def mentioned (r : Resolver) (start : Path) : Nat → List Path
  | 0 => [start]
  | n + 1 =>
    match (mentioned r start n).eraseDups[n]? with
    | none => mentioned r start n
    | some path => mentioned r start n ++ namedBy r path

/-- The files that are known when the first `n` of them have been visited, in the order in which they
came up. -/
def known (r : Resolver) (start : Path) (n : Nat) : List Path := (mentioned r start n).eraseDups

/-- The first `n` files have been visited, the file that comes next is at a step that fails with `f`,
and no step in front of that one fails. -/
def FailsAt (r : Resolver) (start : Path) (n : Nat) (f : Failure) : Prop :=
  ∃ path before step, (known r start n)[n]? = some path ∧ before ++ [step] <+: stepsAt r path ∧
    (∀ s ∈ ((known r start n).take n).flatMap (stepsAt r) ++ before, s.result r = .ok ()) ∧
    step.result r = .error f

/-- The failure of the first step that fails, breadth first from the file at `start` on. -/
def FirstFailure (r : Resolver) (start : Path) (f : Failure) : Prop := ∃ n, FailsAt r start n f

/-! ### The steps at one file -/

section Steps

variable {edges : List Text} {source : Text}

theorem result_read_eq_ok (h : readSource r path = .ok source) : (Step.read path).result r = .ok () := by
  simp [Step.result, h]

theorem result_scan_eq_ok (h : edgesOf path source = .ok edges) :
    (Step.scan path source).result r = .ok () := by
  simp [Step.result, h]

theorem stepsAt_eq (hsource : readSource r path = .ok source) (hedges : edgesOf path source = .ok edges) :
    stepsAt r path = .read path :: .scan path source :: edges.map (.resolve path) := by
  simp only [stepsAt, hsource, hedges]

/-- No step at a file fails exactly when its source can be scanned and its specifiers lead to files. -/
theorem forall_stepsAt_iff : (∀ s ∈ stepsAt r path, s.result r = .ok ()) ↔
    ∃ source edges, readSource r path = .ok source ∧ edgesOf path source = .ok edges ∧
      ∀ specifier ∈ edges, ∃ p, (r.resolve specifier (some path.text)).result = .ok p := by
  constructor
  · intro h
    obtain ⟨source, hsource, -⟩ := Except.map_eq_ok_iff.1 (h (.read path) List.mem_cons_self)
    have hscan : Step.scan path source ∈ stepsAt r path := by simp [stepsAt, hsource]
    obtain ⟨edges, hedges, -⟩ := Except.map_eq_ok_iff.1 (h _ hscan)
    refine ⟨source, edges, hsource, hedges, fun specifier hs => ?_⟩
    have hresolve : Step.resolve path specifier ∈ stepsAt r path := by
      simp [stepsAt_eq hsource hedges, hs]
    obtain ⟨p, hp, -⟩ := Except.map_eq_ok_iff.1 (h _ hresolve)
    exact ⟨p, hp⟩
  · rintro ⟨source, edges, hsource, hedges, hresolve⟩ s hs
    rw [stepsAt_eq hsource hedges, List.mem_cons, List.mem_cons, List.mem_map] at hs
    rcases hs with rfl | rfl | ⟨specifier, hmem, rfl⟩
    · exact result_read_eq_ok hsource
    · exact result_scan_eq_ok hedges
    · obtain ⟨p, hp⟩ := hresolve specifier hmem
      simp [Step.result, hp]

/-- What a list of edges does to the registry: the files that it names come behind those that were
there, unless they were there. -/
theorem paths_of_resolveEdges {ds ds' : Dependencies} {before : List Path}
    (hbefore : registry.paths = before.eraseDups)
    (h : (resolveEdges r path.text registry ds edges).result = .ok (registry', ds')) :
    registry'.paths = (before ++ (edges.map (Step.resolve path)).filterMap (Step.target? r)).eraseDups ∧
      ∀ specifier ∈ edges, ∃ p, (r.resolve specifier (some path.text)).result = .ok p := by
  induction edges generalizing registry ds before with
  | nil =>
    cases h
    exact ⟨by simpa using hbefore, by simp⟩
  | cons specifier edges ih =>
    rw [result_resolveEdges_cons] at h
    obtain ⟨p, hp, h⟩ := Except.bind_eq_ok_iff.1 h
    obtain ⟨hrest, hresolve⟩ := ih (paths_register_eq_eraseDups hbefore p) h
    have htarget : (Step.resolve path specifier).target? r = some p := by
      simp [Step.target?, hp, Except.toOption]
    refine ⟨?_, fun s hs => ?_⟩
    · rw [hrest, List.map_cons, List.filterMap_cons_some htarget, List.append_assoc]
      rfl
    · rcases List.mem_cons.1 hs with rfl | hs
      · exact ⟨p, hp⟩
      · exact hresolve s hs

/-- A list of edges fails at the first one that leads nowhere. -/
theorem resolveEdges_eq_error {ds : Dependencies}
    (h : (resolveEdges r path.text registry ds edges).result = .error f) :
    ∃ before step, before ++ [step] <+: edges.map (Step.resolve path) ∧
      (∀ s ∈ before, s.result r = .ok ()) ∧ step.result r = .error f := by
  induction edges generalizing registry ds with
  | nil => cases h
  | cons specifier edges ih =>
    rw [result_resolveEdges_cons] at h
    cases hp : (r.resolve specifier (some path.text)).result with
    | error f' =>
      rw [hp] at h
      cases h
      refine ⟨[], .resolve path specifier, ?_, by simp, by simp [Step.result, hp]⟩
      exact ⟨edges.map (.resolve path), rfl⟩
    | ok p =>
      rw [hp] at h
      obtain ⟨before, step, hupto, hbefore, hstep⟩ := ih h
      refine ⟨.resolve path specifier :: before, step, ?_, fun s hs => ?_, hstep⟩
      · exact List.prefix_cons_inj _ |>.2 hupto
      · rcases List.mem_cons.1 hs with rfl | hs
        · simp [Step.result, hp]
        · exact hbefore s hs

/-- A module that is read: none of the steps at its file fails, and the files that it names come behind
those that were there. -/
theorem of_readModule_eq_ok {id : Nat} {before : List Path}
    (hbefore : registry.paths = before.eraseDups)
    (h : (readModule r registry id path).result = .ok (registry', m)) :
    (∀ s ∈ stepsAt r path, s.result r = .ok ()) ∧
      registry'.paths = (before ++ namedBy r path).eraseDups := by
  obtain ⟨source, edges, ds, hsource, hedges, hds, rfl⟩ := readModule_eq_ok h
  obtain ⟨hpaths, hresolve⟩ := paths_of_resolveEdges hbefore hds
  refine ⟨forall_stepsAt_iff.2 ⟨source, edges, hsource, hedges, hresolve⟩, ?_⟩
  rw [hpaths, namedBy, stepsAt_eq hsource hedges]
  rfl

/-- A module that fails does so at the first step at its file that fails. -/
theorem of_readModule_eq_error {id : Nat} (h : (readModule r registry id path).result = .error f) :
    ∃ before step, before ++ [step] <+: stepsAt r path ∧
      (∀ s ∈ before, s.result r = .ok ()) ∧ step.result r = .error f := by
  obtain h | ⟨_, -, h⟩ := Logged.result_bind_eq_error_iff.1 h
  · cases h
  obtain hsource | ⟨source, hsource, h⟩ := Logged.result_bind_eq_error_iff.1 h
  · rw [Logged.result_ofExcept] at hsource
    refine ⟨[], .read path, ?_, by simp, by simp [Step.result, hsource]⟩
    exact ⟨_, rfl⟩
  rw [Logged.result_ofExcept] at hsource
  obtain hedges | ⟨edges, hedges, h⟩ := Logged.result_bind_eq_error_iff.1 h
  · rw [Logged.result_ofExcept] at hedges
    refine ⟨[.read path], .scan path source, ?_, ?_, by simp [Step.result, hedges]⟩
    · simp [stepsAt, hsource]
    · simpa using result_read_eq_ok hsource
  rw [Logged.result_ofExcept] at hedges
  obtain hds | ⟨_, -, h⟩ := Logged.result_bind_eq_error_iff.1 h
  · obtain ⟨before, step, hupto, hbefore, hstep⟩ := resolveEdges_eq_error hds
    refine ⟨.read path :: .scan path source :: before, step, ?_, fun s hs => ?_, hstep⟩
    · rw [stepsAt_eq hsource hedges]
      simpa using hupto
    · rw [List.mem_cons, List.mem_cons] at hs
      rcases hs with rfl | rfl | hs
      · exact result_read_eq_ok hsource
      · exact result_scan_eq_ok hedges
      · exact hbefore s hs
  · cases h

end Steps

/-! ### The order of the files -/

section Order

theorem mentioned_succ {n : Nat} (h : (known r start n)[n]? = some path) :
    mentioned r start (n + 1) = mentioned r start n ++ namedBy r path := by
  rw [mentioned, show (mentioned r start n).eraseDups[n]? = some path from h]

theorem known_succ_mono (r : Resolver) (start : Path) (n : Nat) :
    known r start n <+: known r start (n + 1) := by
  cases h : (known r start n)[n]? with
  | none =>
    have hsame : mentioned r start (n + 1) = mentioned r start n := by
      rw [mentioned, show (mentioned r start n).eraseDups[n]? = none from h]
    rw [known, known, hsame]
  | some path =>
    rw [known, known, mentioned_succ h, List.eraseDups_append]
    exact List.prefix_append _ _

/-- Files that are known stay where they are. -/
theorem known_mono (r : Resolver) (start : Path) {n k : Nat} (h : n ≤ k) :
    known r start n <+: known r start k := by
  induction h with
  | refl => exact List.prefix_rfl
  | step _ ih => exact ih.trans (known_succ_mono r start _)

/-- When discovery has read `n` modules, they are those at the first `n` known files, where no step
fails, and the known files are registered. -/
theorem Passes.paths_eq (h : Passes r start registry done) :
    registry.paths = known r start done.length ∧
      ∀ s ∈ ((known r start done.length).take done.length).flatMap (stepsAt r),
        s.result r = .ok () := by
  induction h with
  | initial => exact ⟨rfl, by simp⟩
  | @round registry registry' done path m _ hpath hread ih =>
    obtain ⟨hpaths, hsteps⟩ := ih
    rw [hpaths] at hpath
    obtain ⟨hown, hpaths'⟩ := of_readModule_eq_ok hpaths hread
    have hlt := (List.getElem?_eq_some_iff.1 hpath).1
    have htake : (known r start (done.length + 1)).take (done.length + 1) =
        (known r start done.length).take done.length ++ [path] := by
      obtain ⟨more, hmore⟩ := known_succ_mono r start done.length
      rw [← hmore, List.take_append_of_le_length hlt, List.take_add_one, hpath]
      rfl
    rw [List.length_append, List.length_singleton, htake]
    refine ⟨?_, fun s hs => ?_⟩
    · rw [hpaths', known, mentioned_succ hpath]
    · rw [List.flatMap_append, List.flatMap_singleton, List.mem_append] at hs
      exact hs.elim (hsteps s) (hown s)

/-- A step that fails does not stand in front of the first one that fails. -/
theorem eq_of_before {before before' : List Step} {step step' : Step} {f' : Failure}
    (h : before ++ [step] <+: before' ++ [step']) (hbefore' : ∀ s ∈ before', s.result r = .ok ())
    (hstep : step.result r = .error f) (hstep' : step'.result r = .error f') : f = f' := by
  rcases List.prefix_concat_iff.1 h with heq | hupto
  · obtain ⟨-, rfl⟩ : before = before' ∧ step = step' := by simpa using heq
    exact Except.error.inj (hstep.symm.trans hstep')
  · have hok := hbefore' step (hupto.subset (by simp))
    cases hok.symm.trans hstep

/-- A file with a step that fails is not visited before the first failure. -/
theorem FailsAt.le {n n' : Nat} {f' : Failure} (h : FailsAt r start n f) (h' : FailsAt r start n' f') :
    n' ≤ n := by
  obtain ⟨path, before, step, hpath, hupto, -, hstep⟩ := h
  obtain ⟨_, _, _, -, -, hbefore', -⟩ := h'
  by_contra hlt
  have hlt : n < n' := by omega
  obtain ⟨hn, rfl⟩ := List.getElem?_eq_some_iff.1 hpath
  have hmem : (known r start n)[n] ∈ (known r start n').take n' := by
    refine List.mem_of_getElem? (i := n) ?_
    obtain ⟨more, hmore⟩ := known_mono r start hlt.le
    rw [List.getElem?_take_of_lt hlt, ← hmore, List.getElem?_append_left hn, hpath]
  have hok := hbefore' step (List.mem_append_left _ (List.mem_flatMap.2 ⟨_, hmem, hupto.subset (by simp)⟩))
  cases hok.symm.trans hstep

/-- There is but one first failure. -/
theorem FirstFailure.eq {f' : Failure} (h : FirstFailure r start f) (h' : FirstFailure r start f') :
    f = f' := by
  obtain ⟨n, h⟩ := h
  obtain ⟨n', h'⟩ := h'
  obtain rfl : n = n' := Nat.le_antisymm (h'.le h) (h.le h')
  obtain ⟨path, before, step, hpath, hupto, hbefore, hstep⟩ := h
  obtain ⟨path', before', step', hpath', hupto', hbefore', hstep'⟩ := h'
  obtain rfl : path = path' := by simpa using hpath.symm.trans hpath'
  rcases List.prefix_or_prefix_of_prefix hupto hupto' with h | h
  · exact eq_of_before h (fun s hs => hbefore' s (List.mem_append_right _ hs)) hstep hstep'
  · exact (eq_of_before h (fun s hs => hbefore s (List.mem_append_right _ hs)) hstep' hstep).symm

/-- When all known files have been visited, no more come up. -/
theorem known_eq_of_none {n k : Nat} (h : (known r start n)[n]? = none) (hle : n ≤ k) :
    known r start k = known r start n := by
  have hsame : mentioned r start k = mentioned r start n := by
    induction hle with
    | refl => rfl
    | @step k hle ih =>
      have hnone : (mentioned r start k).eraseDups[k]? = none := by
        rw [ih]
        have hlength := List.getElem?_eq_none_iff.1 h
        exact List.getElem?_eq_none_iff.2 (hlength.trans hle)
      rw [mentioned, hnone]
      exact ih
  rw [known, known, hsame]

end Order

/-! ### How discovery ends -/

section Graph

variable {entry : Text}

/-- Discovery that fails does so with the first failure, at a file of the closure. -/
theorem firstFailure_of_graph (hcwd : r.workspace.cwd.Anchored) (h : (graph r entry).result = .error f) :
    FirstFailure r (r.normalize entry) f ∧
      ∃ path step, ReflTransGen (Names r) (r.normalize entry) path ∧ step ∈ stepsAt r path ∧
        step.result r = .error f := by
  obtain ⟨registry, done, hends⟩ := exists_endsWith hcwd entry
  obtain ⟨path, hpath, hread⟩ : ∃ path, registry.paths[done.length]? = some path ∧
      (readModule r registry done.length path).result = .error f := by
    simpa [h, Ends] using hends.ends
  obtain ⟨before, step, hupto, hbefore, hstep⟩ := of_readModule_eq_error hread
  obtain ⟨hpaths, hvisited⟩ := hends.passes.paths_eq
  refine ⟨⟨done.length, path, before, step, hpaths ▸ hpath, hupto, fun s hs => ?_, hstep⟩,
    path, step, hends.passes.progress.reached path (List.mem_of_getElem? hpath),
    hupto.subset (by simp), hstep⟩
  exact (List.mem_append.1 hs).elim (hvisited s) (hbefore s)

/-- Discovery that succeeds has visited all known files, and no step at one of them fails. -/
theorem exists_visited_of_graph {g : ModuleGraph} (hcwd : r.workspace.cwd.Anchored)
    (h : (graph r entry).result = .ok g) :
    ∃ n, (known r (r.normalize entry) n)[n]? = none ∧
      known r (r.normalize entry) n = g.modules.map (·.path) ∧
      ∀ path ∈ known r (r.normalize entry) n, ∀ s ∈ stepsAt r path, s.result r = .ok () := by
  obtain ⟨registry, done, hends⟩ := exists_endsWith hcwd entry
  obtain ⟨hnone, rfl⟩ : registry.paths[done.length]? = none ∧ g.modules = done := by
    simpa [h, Ends] using hends.ends
  obtain ⟨hpaths, hvisited⟩ := hends.passes.paths_eq
  rw [hpaths] at hnone
  have hlength := List.getElem?_eq_none_iff.1 hnone
  have hupto := hends.passes.progress.paths_prefix
  rw [hpaths] at hupto
  refine ⟨_, hnone, ?_, fun path hp s hs => ?_⟩
  · exact (hupto.eq_of_length_le (by simpa using hlength)).symm
  · refine hvisited s (List.mem_flatMap.2 ⟨path, ?_, hs⟩)
    rwa [List.take_of_length_le hlength]

/-- Discovery fails with the first failure, and only with that. -/
theorem graph_eq_error_iff (hcwd : r.workspace.cwd.Anchored) :
    (graph r entry).result = .error f ↔ FirstFailure r (r.normalize entry) f := by
  refine ⟨fun h => (firstFailure_of_graph hcwd h).1, fun h => ?_⟩
  cases hgraph : (graph r entry).result with
  | error f' => rw [(firstFailure_of_graph hcwd hgraph).1.eq h]
  | ok g =>
    obtain ⟨k, hnone, -, hvisited⟩ := exists_visited_of_graph hcwd hgraph
    obtain ⟨n, path, before, step, hpath, hupto, -, hstep⟩ := h
    -- The file of the failure is known at the end, when no known file has a step that fails.
    have hknown : path ∈ known r (r.normalize entry) k := by
      rcases Nat.le_total n k with hle | hle
      · exact (known_mono r _ hle).subset (List.mem_of_getElem? hpath)
      · exact known_eq_of_none hnone hle ▸ List.mem_of_getElem? hpath
    have hok := hvisited path hknown step (hupto.subset (by simp))
    cases hok.symm.trans hstep

/-- Discovery succeeds exactly when no step at a file of the closure fails. -/
theorem graph_eq_ok_iff (hcwd : r.workspace.cwd.Anchored) :
    (∃ g, (graph r entry).result = .ok g) ↔
      ∀ path, ReflTransGen (Names r) (r.normalize entry) path →
        ∀ s ∈ stepsAt r path, s.result r = .ok () := by
  constructor
  · rintro ⟨g, hg⟩ path hpath
    obtain ⟨n, -, hknown, hvisited⟩ := exists_visited_of_graph hcwd hg
    obtain ⟨registry, hprogress, hend⟩ := progress_of_graph hg
    exact hvisited path (hknown ▸ ((hprogress.isClosure hend).reached path).2 hpath)
  · intro h
    cases hgraph : (graph r entry).result with
    | ok g => exact ⟨g, rfl⟩
    | error f =>
      obtain ⟨-, path, step, hpath, hmem, hstep⟩ := firstFailure_of_graph hcwd hgraph
      cases (h path hpath step hmem).symm.trans hstep

/-- Discovery fails fast: its failure is the first one, breadth first over the files, at each of which
reading comes before scanning and scanning before resolving the specifiers in their order. It succeeds
exactly when every file of the closure can be read and scanned and all specifiers lead to files. -/
theorem graph_failsFast (hcwd : r.workspace.cwd.Anchored) (entry : Text) :
    (∀ f, (graph r entry).result = .error f ↔ FirstFailure r (r.normalize entry) f) ∧
    ((∃ g, (graph r entry).result = .ok g) ↔
      ∀ path, ReflTransGen (Names r) (r.normalize entry) path →
        ∃ source edges, readSource r path = .ok source ∧ edgesOf path source = .ok edges ∧
          ∀ specifier ∈ edges, ∃ p, (r.resolve specifier (some path.text)).result = .ok p) := by
  refine ⟨fun f => graph_eq_error_iff hcwd, ?_⟩
  simp only [graph_eq_ok_iff hcwd, forall_stepsAt_iff]

end Graph

/-- A program with two faults: the file that is named first names a file that is missing, and the one
that is named second cannot be scanned. -/
def twoFaults : Resolver where
  workspace :=
    { tree := ((FileTree.empty.insertFile ["p", "a.ts"]
          (.file "import './b'; import './c'".toUTF8.toList)).insertFile ["p", "b.ts"]
          (.file "import './a'; import './d'".toUTF8.toList)).insertFile ["p", "c.ts"]
          (.file "import 'e".toUTF8.toList)
      cwd := ⟨.top, ["p"]⟩ }
  settings := {}
  directory := ⟨.top, ["p"]⟩

/-- The missing file is the first failure, though the other fault is in a file that is known before
the specifier is resolved. -/
theorem graph_failsFast_twoFaults :
    twoFaults.workspace.cwd.Anchored ∧
      (∃ importer, FirstFailure twoFaults (twoFaults.normalize "/p/a.ts")
        (.moduleNotFound .file "./d" importer)) ∧
      ¬∀ path, ReflTransGen (Names twoFaults) (twoFaults.normalize "/p/a.ts") path →
        ∃ source edges, readSource twoFaults path = .ok source ∧ edgesOf path source = .ok edges ∧
          ∀ specifier ∈ edges, ∃ p, (twoFaults.resolve specifier (some path.text)).result = .ok p := by
  have hcwd : twoFaults.workspace.cwd.Anchored := by decide
  obtain ⟨hfails, hsucceeds⟩ := graph_failsFast hcwd "/p/a.ts"
  have h : (match (graph twoFaults "/p/a.ts").result with
      | .error (.moduleNotFound .file specifier _) => specifier = "./d"
      | _ => false) = true := by
    decide +kernel
  split at h
  · next specifier importer heq =>
    obtain rfl : specifier = "./d" := of_decide_eq_true h
    refine ⟨hcwd, ⟨importer, (hfails _).1 heq⟩, fun hclosure => ?_⟩
    obtain ⟨g, hg⟩ := hsucceeds.2 hclosure
    cases heq.symm.trans hg
  · cases h

end Discovery

end ScriptBundle
