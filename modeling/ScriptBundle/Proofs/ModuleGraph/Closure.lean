import Mathlib.Logic.Relation
import ScriptBundle.ModuleGraph.Discovery

/-!
# The modules of a program are the closure of its entry

Discovery reads files in the order of their identities while the registry grows, so three things go
on together: the modules that are done, the paths that are registered, and the table of the module at
hand. What ties them is that the registered paths are the entry and all files that were named so far,
in the order of their first mention.

* `Names`: one file names another;
* `IsClosure`: what a list of modules says about the files of a program;
* `Tabulated`, `Progress`: the invariants of the edges of one module and of the whole run;
* `isClosure_of_graph`: the modules of a graph are the closure of its entry.
-/

namespace ScriptBundle

namespace Discovery

open Relation

variable {r : Resolver}

/-- The file at `p` names the file at `q`: one of its specifiers leads there. -/
def Names (r : Resolver) (p q : Path) : Prop :=
  ∃ source edges specifier, readSource r p = .ok source ∧ edgesOf p source = .ok edges ∧
    specifier ∈ edges ∧ (r.resolve specifier (some p.text)).result = .ok q

/-- An entry of the dependencies of `importer`: its identity is that of the path, among `paths`, that
its specifier leads to. -/
def Leads (r : Resolver) (importer : Text) (paths : List Path) (d : Text × Int) : Prop :=
  ∃ (j : Nat) (p : Path), d.2 = j ∧ paths[j]? = some p ∧
    (r.resolve d.1 (some importer)).result = .ok p

/-- The identities that a table mentions, in its order. -/
def identities (ds : Dependencies) : List Int := ds.map (·.2)

/-- The identities that modules mention, one module behind the other. -/
def mentions (ms : List Module) : List Int := ms.flatMap fun m => identities m.dependencies

/-- The identities of `n` modules, in increasing order. -/
def firstIdentities (n : Nat) : List Int := (List.range n).map (Nat.cast : Nat → Int)

/-- `m` holds what its file says: the source, and for each specifier of the source, once and in the
order of the first occurrences, the identity of the file that it leads to. -/
structure Tells (r : Resolver) (paths : List Path) (m : Module) : Prop where
  source : ∃ source edges, readSource r m.path = .ok source ∧ m.source? = some source ∧
    edgesOf m.path source = .ok edges ∧ m.dependencies.map (·.1) = edges.eraseDups
  leads : ∀ d ∈ m.dependencies, Leads r m.path.text paths d

/-- A module names the module with the identity `j`, and no module in front of it does. -/
def FirstMention (ms : List Module) (i j : Nat) : Prop :=
  (∃ m : Module, ms[i]? = some m ∧ (j : Int) ∈ identities m.dependencies) ∧
    ∀ (k : Nat) (m : Module), k < i → ms[k]? = some m → (j : Int) ∉ identities m.dependencies

/-- `ms` are the modules of the program that starts at the path `start`. -/
structure IsClosure (r : Resolver) (start : Path) (ms : List Module) : Prop where
  /-- The identity of a module is its position. -/
  id_eq : ∀ (i : Nat) (m : Module), ms[i]? = some m → m.id = i
  /-- The first module is the entry. -/
  entry : (ms.map (·.path))[0]? = some start
  /-- No path occurs twice. -/
  nodup : (ms.map (·.path)).Nodup
  /-- Each module holds what its file says. -/
  tells : ∀ m ∈ ms, Tells r (ms.map (·.path)) m
  /-- The modules are the files that are reached from the entry. -/
  reached : ∀ p, p ∈ ms.map (·.path) ↔ ReflTransGen (Names r) start p
  /-- The modules come up for the first time in the order of their identities. -/
  order : ((0 : Int) :: mentions ms).eraseDups = firstIdentities ms.length
  /-- Every module but the entry is first named by one with a smaller identity. -/
  earlier : ∀ j, 0 < j → j < ms.length → ∃ i, i < j ∧ FirstMention ms i j

section Identities

theorem mem_firstIdentities {n j : Nat} : (j : Int) ∈ firstIdentities n ↔ j < n := by
  simp only [firstIdentities, List.mem_map, List.mem_range, Int.natCast_inj, exists_eq_right]

theorem firstIdentities_succ (n : Nat) :
    firstIdentities (n + 1) = firstIdentities n ++ [(n : Int)] := by
  simp [firstIdentities, List.range_succ]

theorem eraseDups_concat_of_mem {α : Type} [BEq α] [LawfulBEq α] {l : List α} {a : α} (h : a ∈ l) :
    (l ++ [a]).eraseDups = l.eraseDups := by
  simp [List.eraseDups_append, List.cons_removeAll, h]

theorem eraseDups_concat_of_not_mem {α : Type} [BEq α] [LawfulBEq α] {l : List α} {a : α} (h : a ∉ l) :
    (l ++ [a]).eraseDups = l.eraseDups ++ [a] := by
  simp [List.eraseDups_append, List.cons_removeAll, List.eraseDups_cons, h]

/-- What is registered behind paths that were registered: the different paths, in the order in which they
first occur. -/
theorem paths_register_eq_eraseDups {registry : Registry} {before : List Path}
    (h : registry.paths = before.eraseDups) (p : Path) :
    (registry.register p).1.paths = (before ++ [p]).eraseDups := by
  rw [Registry.paths_register, h]
  by_cases hmem : p ∈ before
  · rw [if_pos (List.mem_eraseDups.2 hmem), eraseDups_concat_of_mem hmem]
  · rw [if_neg (fun h => hmem (List.mem_eraseDups.1 h)), eraseDups_concat_of_not_mem hmem]

theorem mentions_append (ms ns : List Module) : mentions (ms ++ ns) = mentions ms ++ mentions ns :=
  List.flatMap_append

@[simp] theorem mentions_singleton (m : Module) : mentions [m] = identities m.dependencies := by
  simp [mentions]

theorem not_mem_identities {ms : List Module} {i : Nat} {m : Module} {j : Int}
    (h : j ∉ mentions ms) (hm : ms[i]? = some m) : j ∉ identities m.dependencies := fun hj =>
  h (List.mem_flatMap.2 ⟨m, List.mem_of_getElem? hm, hj⟩)

end Identities

theorem Leads.mono {importer : Text} {paths paths' : List Path} {d : Text × Int}
    (hp : paths <+: paths') (h : Leads r importer paths d) : Leads r importer paths' d := by
  obtain ⟨j, p, hj, hget, hres⟩ := h
  obtain ⟨more, rfl⟩ := hp
  have hlt := (List.getElem?_eq_some_iff.1 hget).1
  exact ⟨j, p, hj, by rw [List.getElem?_append_left hlt, hget], hres⟩

theorem Tells.mono {paths paths' : List Path} {m : Module} (hp : paths <+: paths')
    (h : Tells r paths m) : Tells r paths' m :=
  ⟨h.source, fun d hd => (h.leads d hd).mono hp⟩

/-! ### The edges of one module -/

/-- The table `ds` behind the specifiers `seen` of `importer`, when `before` are the identities that
were mentioned before that module. -/
structure Tabulated (r : Resolver) (importer : Text) (before : List Int) (registry : Registry)
    (seen : List Text) (ds : Dependencies) : Prop where
  keys : ds.map (·.1) = seen.eraseDups
  nodup : (ds.map (·.1)).Nodup
  leads : ∀ d ∈ ds, Leads r importer registry.paths d
  order : ((0 : Int) :: (before ++ identities ds)).eraseDups = firstIdentities registry.paths.length

section Edges

variable {importer specifier : Text} {before : List Int} {registry : Registry} {seen : List Text}
  {ds : Dependencies} {p : Path}

theorem Tabulated.mem_mentions (h : Tabulated r importer before registry seen ds) {j : Nat} :
    (j : Int) ∈ (0 : Int) :: (before ++ identities ds) ↔ j < registry.paths.length := by
  rw [← List.mem_eraseDups, h.order, mem_firstIdentities]

/-- A specifier that is in the table changes nothing. -/
theorem Tabulated.repeated (h : Tabulated r importer before registry seen ds)
    (hres : (r.resolve specifier (some importer)).result = .ok p)
    (hs : specifier ∈ ds.map (·.1)) :
    (registry.register p).1 = registry ∧ ds.insert specifier (registry.register p).2.1 = ds := by
  obtain ⟨⟨_, id⟩, hd, rfl⟩ := List.mem_map.1 hs
  obtain ⟨j, q, rfl, hget, hq⟩ := h.leads _ hd
  obtain rfl : q = p := by
    simpa using hq.symm.trans hres
  have hp : q ∈ registry.paths := List.mem_of_getElem? hget
  have hidx : registry.paths.idxOf q = j := by
    obtain ⟨hlt, rfl⟩ := List.getElem?_eq_some_iff.1 hget
    exact registry.nodup.idxOf_getElem j hlt
  rw [Registry.register_of_mem hp, hidx]
  exact ⟨rfl, Dependencies.insert_eq_self h.nodup hd⟩

/-- One more edge keeps the invariant. -/
theorem Tabulated.step (h : Tabulated r importer before registry seen ds)
    (hres : (r.resolve specifier (some importer)).result = .ok p) :
    Tabulated r importer before (registry.register p).1 (seen ++ [specifier])
      (ds.insert specifier (registry.register p).2.1) := by
  by_cases hs : specifier ∈ ds.map (·.1)
  · obtain ⟨hreg, hins⟩ := h.repeated hres hs
    rw [hreg, hins]
    have hseen : specifier ∈ seen := List.mem_eraseDups.1 (h.keys ▸ hs)
    exact ⟨by rw [eraseDups_concat_of_mem hseen, h.keys], h.nodup, h.leads, h.order⟩
  · have hseen : specifier ∉ seen := fun hm => hs (h.keys ▸ List.mem_eraseDups.2 hm)
    rw [Dependencies.insert_eq_append hs]
    refine ⟨?_, ?_, ?_, ?_⟩
    · rw [List.map_append, h.keys, eraseDups_concat_of_not_mem hseen]
      rfl
    · rw [List.map_append]
      exact List.nodup_append.2 ⟨h.nodup, by simp, by
        intro s hm t ht e
        obtain rfl : t = specifier := List.mem_singleton.1 ht
        exact hs (e ▸ hm)⟩
    · intro d hd
      rcases List.mem_append.1 hd with hd | hd
      · exact (h.leads d hd).mono (registry.prefix_paths_register p)
      · rw [List.mem_singleton.1 hd]
        exact ⟨_, p, rfl, registry.getElem?_id_register p, hres⟩
    · have hids : identities (ds ++ [(specifier, ((registry.register p).2.1 : Int))]) =
          identities ds ++ [((registry.register p).2.1 : Int)] := by
        simp [identities]
      rw [hids, ← List.append_assoc, ← List.cons_append]
      by_cases hp : p ∈ registry.paths
      · have hlt : registry.paths.idxOf p < registry.paths.length := List.idxOf_lt_length_iff.2 hp
        rw [Registry.register_of_mem hp, eraseDups_concat_of_mem (h.mem_mentions.2 hlt), h.order]
      · have hlen : (registry.push p hp).paths.length = registry.paths.length + 1 :=
          List.length_append
        rw [Registry.register_of_not_mem hp, hlen, firstIdentities_succ, ← h.order,
          eraseDups_concat_of_not_mem]
        · rfl
        · exact fun hm => Nat.lt_irrefl _ (h.mem_mentions.1 hm)

/-- The result for a list of edges, from that for all but the first. -/
theorem result_resolveEdges_cons (r : Resolver) (importer : Text) (registry : Registry)
    (ds : Dependencies) (specifier : Text) (edges : List Text) :
    (resolveEdges r importer registry ds (specifier :: edges)).result =
      (r.resolve specifier (some importer)).result.bind fun p =>
        (resolveEdges r importer (registry.register p).1
          (ds.insert specifier (registry.register p).2.1) edges).result := by
  rw [resolveEdges, Logged.result_bind]
  congr 1
  funext p
  simp only
  split <;> rfl

/-- What the edges of a module do to the registry and the table. -/
theorem Tabulated.run {edges : List Text} {registry' : Registry} {ds' : Dependencies}
    (h : Tabulated r importer before registry seen ds)
    (hrun : (resolveEdges r importer registry ds edges).result = .ok (registry', ds')) :
    Tabulated r importer before registry' (seen ++ edges) ds' ∧ registry.paths <+: registry'.paths ∧
      ∀ p ∈ registry'.paths, p ∈ registry.paths ∨
        ∃ specifier ∈ edges, (r.resolve specifier (some importer)).result = .ok p := by
  induction edges generalizing registry seen ds with
  | nil =>
    cases hrun
    exact ⟨by simpa using h, List.prefix_rfl, fun p hp => .inl hp⟩
  | cons specifier edges ih =>
    rw [result_resolveEdges_cons] at hrun
    obtain ⟨p, hres, hrun⟩ := Except.bind_eq_ok_iff.1 hrun
    obtain ⟨htab, hpre, hmem⟩ := ih (h.step hres) hrun
    refine ⟨by simpa using htab, (registry.prefix_paths_register p).trans hpre, fun q hq => ?_⟩
    rcases hmem q hq with hq | ⟨s, hs, hq⟩
    · rw [Registry.paths_register] at hq
      split at hq
      · exact .inl hq
      · rcases List.mem_append.1 hq with hq | hq
        · exact .inl hq
        · exact .inr ⟨specifier, List.mem_cons_self, List.mem_singleton.1 hq ▸ hres⟩
    · exact .inr ⟨s, List.mem_cons_of_mem _ hs, hq⟩

end Edges

/-! ### The whole run -/

/-- The modules `done` of the program that starts at `start`, when the paths of `registry` have been
registered. -/
structure Progress (r : Resolver) (start : Path) (registry : Registry) (done : List Module) :
    Prop where
  entry : registry.paths[0]? = some start
  placed : ∀ (i : Nat) (m : Module), done[i]? = some m →
    m.id = i ∧ registry.paths[i]? = some m.path
  tells : ∀ m ∈ done, Tells r registry.paths m
  reached : ∀ p ∈ registry.paths, ReflTransGen (Names r) start p
  order : ((0 : Int) :: mentions done).eraseDups = firstIdentities registry.paths.length
  earlier : ∀ j, 0 < j → j < registry.paths.length → ∃ i, i < j ∧ FirstMention done i j

section Run

variable {start path : Path} {registry registry' : Registry} {done : List Module} {m : Module}

theorem readText_of_readSource {source : Text} (h : readSource r path = .ok source) :
    r.workspace.tree.readText r.workspace.cwd path = .ok source := by
  unfold readSource at h
  split at h
  · cases h
    assumption
  · cases h
  · cases h

theorem readModule_eq_ok {id : Nat}
    (h : (readModule r registry id path).result = .ok (registry', m)) :
    ∃ source edges ds, readSource r path = .ok source ∧ edgesOf path source = .ok edges ∧
      (resolveEdges r path.text registry [] edges).result = .ok (registry', ds) ∧
      m = { id, path, dependencies := ds, source? := some source } := by
  obtain ⟨_, _, h⟩ := Logged.result_bind_eq_ok_iff.1 h
  obtain ⟨source, hsource, h⟩ := Logged.result_bind_eq_ok_iff.1 h
  obtain ⟨edges, hedges, h⟩ := Logged.result_bind_eq_ok_iff.1 h
  obtain ⟨⟨registry'', ds⟩, hds, h⟩ := Logged.result_bind_eq_ok_iff.1 h
  cases h
  exact ⟨source, edges, ds, hsource, hedges, hds, rfl⟩

theorem FirstMention.append {i j : Nat} (h : FirstMention done i j) (m : Module) :
    FirstMention (done ++ [m]) i j := by
  obtain ⟨⟨m', hm', hj⟩, hfirst⟩ := h
  have hi : i < done.length := (List.getElem?_eq_some_iff.1 hm').1
  refine ⟨⟨m', by rw [List.getElem?_append_left hi, hm'], hj⟩, fun k n hk hn => ?_⟩
  rw [List.getElem?_append_left (Nat.lt_trans hk hi)] at hn
  exact hfirst k n hk hn

theorem Progress.initial (r : Resolver) (p : Path) :
    Progress r p (Registry.empty.register p).1 [] where
  entry := rfl
  placed i m h := by cases h
  tells m h := by cases h
  reached q hq := by
    obtain rfl : q = p := List.mem_singleton.1 hq
    exact .refl
  order := rfl
  earlier j h₀ h₁ := absurd h₁ (Nat.not_lt.2 h₀)

/-- The next module keeps the invariant. -/
theorem Progress.step (h : Progress r start registry done)
    (hpath : registry.paths[done.length]? = some path)
    (hm : (readModule r registry done.length path).result = .ok (registry', m)) :
    Progress r start registry' (done ++ [m]) := by
  obtain ⟨source, edges, ds, hsource, hedges, hds, rfl⟩ := readModule_eq_ok hm
  have hempty : Tabulated r path.text (mentions done) registry [] [] :=
    ⟨rfl, List.nodup_nil, by simp, by simpa [identities] using h.order⟩
  obtain ⟨htab, hpre, hnew⟩ := hempty.run hds
  have hreach : ReflTransGen (Names r) start path := h.reached _ (List.mem_of_getElem? hpath)
  have hlen : registry.paths.length ≤ registry'.paths.length := hpre.length_le
  have keep : ∀ {i : Nat} {p : Path}, registry.paths[i]? = some p →
      registry'.paths[i]? = some p := by
    intro i p hp
    obtain ⟨more, hmore⟩ := hpre
    rw [← hmore, List.getElem?_append_left (List.getElem?_eq_some_iff.1 hp).1, hp]
  refine ⟨keep h.entry, ?_, ?_, ?_, ?_, ?_⟩
  · intro i n hn
    rcases Nat.lt_or_ge i done.length with hi | hi
    · rw [List.getElem?_append_left hi] at hn
      exact ⟨(h.placed i n hn).1, keep (h.placed i n hn).2⟩
    · obtain ⟨hi', rfl⟩ : i - done.length = 0 ∧ _ := by
        rw [List.getElem?_append_right hi, List.getElem?_singleton] at hn
        split at hn
        · exact ⟨‹_›, Option.some.inj hn⟩
        · cases hn
      obtain rfl : i = done.length := by omega
      exact ⟨rfl, keep hpath⟩
  · intro n hn
    rcases List.mem_append.1 hn with hn | hn
    · exact (h.tells n hn).mono hpre
    · rw [List.mem_singleton.1 hn]
      exact ⟨⟨source, edges, hsource, rfl, hedges, htab.keys⟩, htab.leads⟩
  · intro p hp
    rcases hnew p hp with hp | ⟨specifier, hs, hres⟩
    · exact h.reached p hp
    · exact hreach.tail ⟨source, edges, specifier, hsource, hedges, hs, hres⟩
  · rw [mentions_append, mentions_singleton]
    exact htab.order
  · intro j hj hj'
    rcases Nat.lt_or_ge j registry.paths.length with hold | hfresh
    · obtain ⟨i, hi, hfirst⟩ := h.earlier j hj hold
      exact ⟨i, hi, hfirst.append _⟩
    · -- An identity that is handed out here is not among the earlier mentions.
      have hnot : (j : Int) ∉ mentions done := fun hmem => by
        have := (hempty.mem_mentions (j := j)).1 (List.mem_cons_of_mem _ (List.mem_append_left _ hmem))
        omega
      have hin : (j : Int) ∈ identities ds := by
        rcases List.mem_cons.1 (htab.mem_mentions.2 hj') with h0 | hmem
        · omega
        · exact (List.mem_append.1 hmem).resolve_left hnot
      have hdone : done.length < registry.paths.length := (List.getElem?_eq_some_iff.1 hpath).1
      refine ⟨done.length, by omega, ⟨_, List.getElem?_concat_length, hin⟩, fun k n hk hn => ?_⟩
      rw [List.getElem?_append_left hk] at hn
      exact not_mem_identities hnot hn

/-- What a run does first: it ends, or it reads the next module. -/
theorem run_cases {bound : Nat} {ms : List Module}
    (h : (run r bound registry done).result = .ok ms) :
    (registry.paths[done.length]? = none ∧ ms = done) ∨
    ∃ path bound' registry' m, bound = bound' + 1 ∧ registry.paths[done.length]? = some path ∧
      (readModule r registry done.length path).result = .ok (registry', m) ∧
      (run r bound' registry' (done ++ [m])).result = .ok ms := by
  unfold run at h
  split at h
  · next hnone =>
    cases h
    exact .inl ⟨hnone, rfl⟩
  · cases h
  · next path bound' hpath =>
    obtain ⟨⟨registry', m⟩, hm, h⟩ := Logged.result_bind_eq_ok_iff.1 h
    exact .inr ⟨path, bound', registry', m, rfl, hpath, hm, h⟩

/-- A run that ends has read every registered file. -/
theorem Progress.run {bound : Nat} {ms : List Module} (h : Progress r start registry done)
    (hrun : (Discovery.run r bound registry done).result = .ok ms) :
    ∃ registry', Progress r start registry' ms ∧ registry'.paths.length ≤ ms.length := by
  induction bound generalizing registry done with
  | zero =>
    obtain ⟨hnone, rfl⟩ | ⟨_, _, _, _, hb, _⟩ := run_cases hrun
    · exact ⟨registry, h, List.getElem?_eq_none_iff.1 hnone⟩
    · cases hb
  | succ bound ih =>
    obtain ⟨hnone, rfl⟩ | ⟨path, _, registry', m, hb, hpath, hm, hrun⟩ := run_cases hrun
    · exact ⟨registry, h, List.getElem?_eq_none_iff.1 hnone⟩
    · cases hb
      exact ih (h.step hpath hm) hrun

/-- At the end the registered paths are those of the modules. -/
theorem Progress.isClosure (h : Progress r start registry done)
    (hend : registry.paths.length ≤ done.length) : IsClosure r start done := by
  have hpaths : registry.paths = done.map (·.path) := by
    refine List.ext_getElem? fun i => ?_
    rw [List.getElem?_map]
    cases hm : done[i]? with
    | none => exact List.getElem?_eq_none_iff.2 (Nat.le_trans hend (List.getElem?_eq_none_iff.1 hm))
    | some m => exact (h.placed i m hm).2
  have hlen : registry.paths.length = done.length := by rw [hpaths, List.length_map]
  refine ⟨fun i m hm => (h.placed i m hm).1, hpaths ▸ h.entry, hpaths ▸ registry.nodup,
    fun m hm => hpaths ▸ h.tells m hm, fun p => ⟨fun hp => h.reached p (hpaths ▸ hp), fun hp => ?_⟩,
    hlen ▸ h.order, fun j h₀ hj => h.earlier j h₀ (hlen ▸ hj)⟩
  induction hp with
  | refl => exact List.mem_of_getElem? (hpaths ▸ h.entry)
  | @tail p q _ hpq ih =>
    -- The file `p` that names `q` is that of a module, and the table of that module holds `q`.
    obtain ⟨source, edges, specifier, hsource, hedges, hs, hres⟩ := hpq
    obtain ⟨m, hm, rfl⟩ := List.mem_map.1 ih
    obtain ⟨source', edges', hsource', -, hedges', hkeys⟩ := (h.tells m hm).source
    obtain rfl : source = source' := by simpa using hsource.symm.trans hsource'
    obtain rfl : edges = edges' := by simpa using hedges.symm.trans hedges'
    have hkey : specifier ∈ m.dependencies.map (·.1) := hkeys ▸ List.mem_eraseDups.2 hs
    obtain ⟨d, hd, rfl⟩ := List.mem_map.1 hkey
    obtain ⟨j, q', -, hget, hres'⟩ := (h.tells m hm).leads d hd
    obtain rfl : q' = q := by simpa using hres'.symm.trans hres
    exact hpaths ▸ List.mem_of_getElem? hget

end Run

/-- A graph comes from a run that has read every registered file. -/
theorem progress_of_graph {r : Resolver} {entry : Text} {g : ModuleGraph}
    (h : (graph r entry).result = .ok g) :
    ∃ registry, Progress r (r.normalize entry) registry g.modules ∧
      registry.paths.length ≤ g.modules.length := by
  obtain ⟨ms, hms, h⟩ := Logged.result_bind_eq_ok_iff.1 h
  obtain ⟨g', hg, h⟩ := Logged.result_bind_eq_ok_iff.1 h
  obtain ⟨_, _, h⟩ := Logged.result_bind_eq_ok_iff.1 h
  cases h
  rw [ModuleGraph.modules_eq_of_ofModules (Except.mapError_eq_ok_iff.1 hg)]
  exact (Progress.initial r _).run hms

/-- The modules of a graph are the files that are reached from the entry. Each holds its source and
the identities that its specifiers lead to, and the identities are handed out breadth first. -/
theorem isClosure_of_graph {r : Resolver} {entry : Text} {g : ModuleGraph}
    (h : (graph r entry).result = .ok g) : IsClosure r (r.normalize entry) g.modules := by
  obtain ⟨registry, hprogress, hend⟩ := progress_of_graph h
  exact hprogress.isClosure hend

/-- A program of two files that import each other, the second one also itself. -/
def mutualImports : Resolver where
  workspace :=
    { tree := (FileTree.empty.insertFile ["p", "a.ts"]
          (.file "import \"./b\"; export * from './b'".toUTF8.toList)).insertFile ["p", "b.ts"]
          (.file "import \"./b\"; import x from \"./a\"".toUTF8.toList)
      cwd := ⟨.top, ["p"]⟩ }
  settings := {}
  directory := ⟨.top, ["p"]⟩

theorem isClosure_mutualImports :
    ∃ g, (graph mutualImports "/p/./a.ts").result = .ok g ∧ g.size = 2 ∧
      IsClosure mutualImports (mutualImports.normalize "/p/./a.ts") g.modules := by
  have h : (graph mutualImports "/p/./a.ts").result.toOption.map (·.size) = some 2 := by
    decide +kernel
  obtain ⟨g, hg, hsize⟩ := Option.map_eq_some_iff.1 h
  have hg : (graph mutualImports "/p/./a.ts").result = .ok g := by
    cases hr : (graph mutualImports "/p/./a.ts").result with
    | error e => rw [hr] at hg; cases hg
    | ok g' => rw [hr] at hg; cases hg; rfl
  exact ⟨g, hg, hsize, isClosure_of_graph hg⟩

end Discovery

end ScriptBundle
