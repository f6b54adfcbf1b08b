import ScriptBundle.FileTree
import ScriptBundle.Session

/-!
# Actions on files

What the program does, and what becomes of the files on the way. A failure keeps the files as they are
when it occurs. A file that has been opened can be written to its end and can be removed.

* `CommandLine.State`, `CommandLine.Action`;
* `Action.ofBuild`: the actions of a build, which change no file;
* `Action.write`, `Action.remove`: the actions that do.
-/

namespace ScriptBundle.CommandLine

/-- The files, and what the program has done so far besides changing them. -/
structure State where
  tree : FileTree
  session : Session

/-- An action of the program. -/
abbrev Action := ExceptT Failure (StateM State)

namespace Action

variable {α β : Type}

/-- An action of a build. -/
def ofBuild (x : Build α) : Action α := fun s =>
  ((x.run s.session).1, { s with session := (x.run s.session).2 })

/-- Logs a message. -/
def log (e : Log.Entry) : Action Unit := ofBuild (Build.log e)

/-- The files as they are now. -/
def files : Action FileTree := return (← get).tree

/-- Puts a file with the given bytes at a location. -/
def put (loc : Location) (bytes : List UInt8) : Action Unit :=
  modify fun s => { s with tree := s.tree.insert loc (.file bytes) }

/-- Writes a text to the file at a location. The file is emptied when it is opened, and that is what
becomes of it if the text cannot be encoded. -/
def write (loc : Location) (text : Text) : Action Unit := do
  put loc []
  match Utf8.encode text with
  | .error u => throw (.unencodable u)
  | .ok bytes => put loc bytes

/-- Removes the file at a location, if there is one. -/
def remove (loc : Location) : Action Unit := modify fun s => { s with tree := s.tree.remove loc }

/-- Does one action, and another behind it, whether the first fails or not. -/
def andFinally (x : Action α) (cleanup : Action Unit) : Action α := fun s =>
  match (cleanup.run (x.run s).2) with
  | (.ok (), t) => ((x.run s).1, t)
  | (.error f, t) => (.error f, t)

theorem run_bind (x : Action α) (f : α → Action β) (s : State) :
    (x >>= f).run s =
      match x.run s with
      | (.ok a, t) => (f a).run t
      | (.error e, t) => (.error e, t) := by
  show (ExceptT.bindCont f (x.run s).1 : StateM State _) (x.run s).2 = _
  rcases x.run s with ⟨_ | a, t⟩ <;> rfl

@[simp] theorem run_pure (a : α) (s : State) : (pure a : Action α).run s = (.ok a, s) := rfl

@[simp] theorem run_ofBuild (x : Build α) (s : State) :
    (ofBuild x).run s = ((x.run s.session).1, { s with session := (x.run s.session).2 }) := rfl

@[simp] theorem run_log (e : Log.Entry) (s : State) :
    (log e).run s = (.ok (), { s with session.log := s.session.log ++ [e] }) := rfl

@[simp] theorem run_files (s : State) : files.run s = (.ok s.tree, s) := rfl

@[simp] theorem run_put (loc : Location) (bytes : List UInt8) (s : State) :
    (put loc bytes).run s = (.ok (), { s with tree := s.tree.insert loc (.file bytes) }) := rfl

@[simp] theorem run_remove (loc : Location) (s : State) :
    (remove loc).run s = (.ok (), { s with tree := s.tree.remove loc }) := rfl

theorem run_write (loc : Location) (text : Text) (s : State) :
    (write loc text).run s =
      match Utf8.encode text with
      | .error u => (.error (.unencodable u), { s with tree := s.tree.insert loc (.file []) })
      | .ok bytes => (.ok (), { s with tree := s.tree.insert loc (.file bytes) }) := by
  rw [write, run_bind, run_put]
  simp only
  cases Utf8.encode text with
  | error u => rfl
  | ok bytes =>
    rw [run_put]
    simp only [FileTree.insert_insert]

theorem run_andFinally_remove (x : Action α) (loc : Location) (s : State) :
    (x.andFinally (remove loc)).run s =
      ((x.run s).1, { (x.run s).2 with tree := (x.run s).2.tree.remove loc }) := rfl

end Action

end ScriptBundle.CommandLine
