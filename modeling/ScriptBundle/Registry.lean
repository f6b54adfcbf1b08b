import ScriptBundle.Path

/-!
# Registry of paths

A registry hands out identities to paths: the numbers 0, 1, 2, … in the order in which the paths are
first registered. It is a list without repetitions, and the identity of a path is its index in it.

* `Registry.register`, `Registry.lookup?`, `Registry.contains`, `Registry.size`;
* `paths_register`, `id_register`, `isNew_register`: a path is added only when it is not there yet, and
  the identity that is returned is its index (`getElem?_id_register`).
-/

namespace ScriptBundle

/-- The registered paths, in the order of their identities. -/
structure Registry where
  paths : List Path
  nodup : paths.Nodup

namespace Registry

/-- The registry without a path. -/
def empty : Registry := ⟨[], List.nodup_nil⟩

/-- The number of registered paths. -/
def size (r : Registry) : Nat := r.paths.length

/-- The identity of a path, if it is registered. -/
def lookup? (r : Registry) (p : Path) : Option Nat := r.paths.idxOf? p

/-- Whether a path is registered. -/
def contains (r : Registry) (p : Path) : Bool := p ∈ r.paths

/-- The registry with one more path. -/
def push (r : Registry) (p : Path) (h : p ∉ r.paths) : Registry where
  paths := r.paths ++ [p]
  nodup := List.nodup_append.2 ⟨r.nodup, by simp, by
    intro a ha b hb
    rw [List.mem_singleton.1 hb]
    exact fun e => h (e ▸ ha)⟩

/-- Registers a path. Returns the registry, the identity of the path, and whether it is new. -/
def register (r : Registry) (p : Path) : Registry × Nat × Bool :=
  if h : p ∈ r.paths then (r, r.paths.idxOf p, false) else (r.push p h, r.size, true)

@[simp] theorem paths_empty : empty.paths = [] := rfl

theorem register_of_mem {r : Registry} {p : Path} (h : p ∈ r.paths) :
    r.register p = (r, r.paths.idxOf p, false) := dif_pos h

theorem register_of_not_mem {r : Registry} {p : Path} (h : p ∉ r.paths) :
    r.register p = (r.push p h, r.size, true) := dif_neg h

theorem paths_register (r : Registry) (p : Path) :
    (r.register p).1.paths = if p ∈ r.paths then r.paths else r.paths ++ [p] := by
  unfold register
  split <;> rfl

theorem id_register (r : Registry) (p : Path) :
    (r.register p).2.1 = (r.register p).1.paths.idxOf p := by
  unfold register
  split
  · rfl
  · next h =>
    show r.paths.length = (r.paths ++ [p]).idxOf p
    rw [List.idxOf_append, if_neg h]
    simp

theorem isNew_register (r : Registry) (p : Path) : (r.register p).2.2 = !r.contains p := by
  unfold register contains
  split <;> simp_all

theorem prefix_paths_register (r : Registry) (p : Path) : r.paths <+: (r.register p).1.paths := by
  rw [paths_register]
  split
  · exact List.prefix_rfl
  · exact List.prefix_append _ _

theorem getElem?_id_register (r : Registry) (p : Path) :
    (r.register p).1.paths[(r.register p).2.1]? = some p := by
  have hp : p ∈ (r.register p).1.paths := by
    rw [paths_register]
    split
    · assumption
    · simp
  rw [id_register, List.getElem?_eq_getElem (List.idxOf_lt_length_iff.2 hp), List.getElem_idxOf]

end Registry

end ScriptBundle
