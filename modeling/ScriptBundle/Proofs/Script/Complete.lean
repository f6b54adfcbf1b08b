import ScriptBundle.Script

/-!
# Modules that can form a bundle

What `check` makes sure of, said without it: the modules are complete. There is one, each stands where
its identity says and has a body, and all dependencies are among them.

* `Complete`: what a list of modules must satisfy;
* `check_eq_ok_iff`: `check` accepts nothing else, and all of that.
-/

namespace ScriptBundle.Script

/-- The modules can form a bundle. -/
structure Complete (modules : List Module) : Prop where
  nonempty : modules ≠ []
  id_eq : ∀ {n : Nat} {m : Module}, modules[n]? = some m → m.id = n
  body : ∀ m ∈ modules, m.body?.isSome
  dependencies : ∀ m ∈ modules, ∀ d ∈ m.dependencies, 0 ≤ d.2 ∧ d.2 < modules.length

/-- A module is in order when its identity is its position, it has a body, and its dependencies are
among the modules. -/
theorem moduleFault?_eq_none_iff {count position : Nat} {m : Module} :
    moduleFault? count m position = none ↔
      m.id = position ∧ m.body?.isSome ∧ ∀ d ∈ m.dependencies, 0 ≤ d.2 ∧ d.2 < count := by
  unfold moduleFault?
  by_cases hid : m.id = position
  · cases hbody : m.body? with
    | none => simp [hid]
    | some body => simp [hid, List.find?_eq_none]
  · simp [hid]

theorem check_eq_ok_iff {modules : List Module} : check modules = .ok () ↔ Complete modules := by
  have hfaults : (∀ x ∈ modules.zipIdx, moduleFault? modules.length x.1 x.2 = none) ↔
      ∀ {n : Nat} {m : Module}, modules[n]? = some m → moduleFault? modules.length m n = none :=
    ⟨fun h n m hm => h (m, n) (List.mem_zipIdx_iff_getElem?.2 hm),
      fun h x hx => h (List.mem_zipIdx_iff_getElem?.1 hx)⟩
  have hcheck : check modules = .ok () ↔
      modules ≠ [] ∧ ∀ x ∈ modules.zipIdx, moduleFault? modules.length x.1 x.2 = none := by
    unfold check
    split
    · next hempty => simp [List.isEmpty_iff.1 hempty]
    · next hne =>
      rw [List.isEmpty_iff] at hne
      split
      · next f hf =>
        obtain ⟨x, hx, hfault⟩ := List.exists_of_findSome?_eq_some hf
        refine iff_of_false (by simp) fun h => ?_
        cases (h.2 x hx).symm.trans hfault
      · next hnone => exact iff_of_true rfl ⟨hne, List.findSome?_eq_none_iff.1 hnone⟩
  rw [hcheck, hfaults]
  constructor
  · rintro ⟨hne, h⟩
    have inOrder (m : Module) (hm : m ∈ modules) :
        m.body?.isSome ∧ ∀ d ∈ m.dependencies, 0 ≤ d.2 ∧ d.2 < modules.length := by
      obtain ⟨n, hn⟩ := List.getElem?_of_mem hm
      exact (moduleFault?_eq_none_iff.1 (h hn)).2
    exact ⟨hne, fun hm => (moduleFault?_eq_none_iff.1 (h hm)).1, fun m hm => (inOrder m hm).1,
      fun m hm => (inOrder m hm).2⟩
  · intro h
    refine ⟨h.nonempty, fun hm => moduleFault?_eq_none_iff.2 ⟨h.id_eq hm, ?_⟩⟩
    have hmem := List.mem_of_getElem? hm
    exact ⟨h.body _ hmem, h.dependencies _ hmem⟩

end ScriptBundle.Script
