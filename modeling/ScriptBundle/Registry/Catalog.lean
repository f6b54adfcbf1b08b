import ScriptBundle.ModuleGraph

/-!
# Catalogs of modules

A catalog numbers modules while they are found. It keeps them in two tables: the list of all modules,
in the order of their identities, and an index, which finds a module by its path. A path that is
registered for the first time gets the next identity; from then on the index gives the module that was
made for it.

* `Catalog.register`, `Catalog.lookup?`, `Catalog.contains`, `Catalog.size`;
* `Catalog.Call`, `Catalog.Answer`: what a catalog is asked, and what it answers;
* `Catalog.answer`, `Catalog.serve`: one call, and one call after the other.
-/

namespace ScriptBundle

/-- Modules in the order of their identities, with an index by path. -/
structure Catalog where
  index : List (Path × Module)
  modules : List Module

namespace Catalog

/-- The catalog without a module. -/
def empty : Catalog := ⟨[], []⟩

/-- The number of modules. -/
def size (c : Catalog) : Nat := c.modules.length

/-- The module of a path, if the path is registered. -/
def lookup? (c : Catalog) (p : Path) : Option Module := c.index.lookup p

/-- Whether a path is registered. -/
def contains (c : Catalog) (p : Path) : Bool := p ∈ c.index.map (·.1)

/-- Registers a path. Returns the catalog, the module of the path, and whether it is new. -/
def register (c : Catalog) (p : Path) : Catalog × Module × Bool :=
  match c.lookup? p with
  | some m => (c, m, false)
  | none =>
    let m : Module := { id := c.size, path := p }
    ({ index := (p, m) :: c.index, modules := c.modules ++ [m] }, m, true)

/-- What a catalog is asked. -/
inductive Call
  | register (path : Path)
  | lookup (path : Path)
  | contains (path : Path)
  | size
  | modules
  deriving DecidableEq

/-- What a catalog answers. -/
inductive Answer
  /-- The module of a path, and whether it is new. -/
  | registered (m : Module) (isNew : Bool)
  | found (m? : Option Module)
  | contained (isRegistered : Bool)
  | counted (n : Nat)
  | listed (ms : List Module)

/-- The catalog behind a call, and the answer. -/
def answer (c : Catalog) : Call → Catalog × Answer
  | .register p =>
    let (c, m, isNew) := c.register p
    (c, .registered m isNew)
  | .lookup p => (c, .found (c.lookup? p))
  | .contains p => (c, .contained (c.contains p))
  | .size => (c, .counted c.size)
  | .modules => (c, .listed c.modules)

/-- Takes one call after the other. Returns the catalog behind them, and every call with its answer. -/
def serve (c : Catalog) : List Call → Catalog × List (Call × Answer)
  | [] => (c, [])
  | call :: calls =>
    let (c, a) := c.answer call
    let (c, history) := c.serve calls
    (c, (call, a) :: history)

@[simp] theorem serve_nil (c : Catalog) : c.serve [] = (c, []) := rfl

theorem serve_cons (c : Catalog) (call : Call) (calls : List Call) :
    c.serve (call :: calls) =
      (((c.answer call).1.serve calls).1,
        (call, (c.answer call).2) :: ((c.answer call).1.serve calls).2) := rfl

theorem register_of_lookup?_eq_some {c : Catalog} {p : Path} {m : Module} (h : c.lookup? p = some m) :
    c.register p = (c, m, false) := by
  simp only [register, h]

theorem register_of_lookup?_eq_none {c : Catalog} {p : Path} (h : c.lookup? p = none) :
    c.register p =
      ({ index := (p, { id := c.size, path := p }) :: c.index
         modules := c.modules ++ [{ id := c.size, path := p }] },
        { id := c.size, path := p }, true) := by
  simp only [register, h]

end Catalog

end ScriptBundle
