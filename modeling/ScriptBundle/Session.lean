import ScriptBundle.Log

/-!
# Sessions

What a build has done so far: the messages that it logged and the processes that it started. What the
processes will answer is given beforehand, in the order in which they are started. Every command can be
handed to the system, and what a process writes can be read as text.

* `ProcessOutcome`, `ProcessCall`, `Session`;
* `Build`: an action that goes on with a session and gives a result or a failure;
* `Build.run_bind_eq_ok`: a sequence of actions that gives a result has one for each of them.
-/

namespace ScriptBundle

/-- What becomes of a process. -/
inductive ProcessOutcome
  /-- It ran and ended with a status, having written two texts. -/
  | exited (status : Int) (output errors : Text)
  /-- It did not start. -/
  | notStarted (error : SystemError)
  /-- It was interrupted by the user. -/
  | interrupted

/-- A process that was started: its command, the text that it was given to read, and the text of the
bundle that it was given to run. -/
structure ProcessCall where
  command : List Text
  input? : Option Text := none
  bundle? : Option Text := none

/-- What a build has done so far, and what the next processes will answer. -/
structure Session where
  log : List Log.Entry := []
  calls : List ProcessCall := []
  outcomes : List ProcessOutcome := []

/-- An action of a build. -/
abbrev Build := ExceptT Failure (StateM Session)

namespace Build

/-- Logs a message. -/
def log (e : Log.Entry) : Build Unit := modify fun s => { s with log := s.log ++ [e] }

/-- A result or a failure, without an action. -/
def ofExcept {α : Type} : Except Failure α → Build α
  | .ok a => return a
  | .error e => throw e

/-- Takes over what was logged on the way to a result. -/
def ofLogged {α : Type} (x : Logged α) : Build α := do
  modify fun s => { s with log := s.log ++ x.entries }
  ofExcept x.result

/-- Starts a process. Without an answer for it there is no such command. -/
def start (call : ProcessCall) : Build ProcessOutcome := do
  let s ← get
  match s.outcomes with
  | [] =>
    set { s with calls := s.calls ++ [call] }
    return .notStarted .noEntry
  | outcome :: outcomes =>
    set { s with calls := s.calls ++ [call], outcomes }
    return outcome

variable {α β : Type} {s s' : Session}

theorem run_bind (x : Build α) (f : α → Build β) (s : Session) :
    (x >>= f).run s =
      match x.run s with
      | (.ok a, t) => (f a).run t
      | (.error e, t) => (.error e, t) := by
  show (ExceptT.bindCont f (x.run s).1 : StateM Session _) (x.run s).2 = _
  rcases x.run s with ⟨_ | a, t⟩ <;> rfl

theorem run_bind_eq_ok {x : Build α} {f : α → Build β} {b : β}
    (h : (x >>= f).run s = (.ok b, s')) :
    ∃ a t, x.run s = (.ok a, t) ∧ (f a).run t = (.ok b, s') := by
  rw [run_bind] at h
  rcases hx : x.run s with ⟨_ | a, t⟩
  · rw [hx] at h
    cases h
  · rw [hx] at h
    exact ⟨a, t, rfl, h⟩

theorem eq_of_run_pure {a b : α} (h : (pure a : Build α).run s = (.ok b, s')) : a = b := by
  cases h
  rfl

theorem result_of_run_ofExcept {r : Except Failure α} {a : α}
    (h : (ofExcept r).run s = (.ok a, s')) : r = .ok a := by
  cases r with
  | error e => cases h
  | ok b =>
    cases h
    rfl

theorem result_of_run_ofLogged {x : Logged α} {a : α} (h : (ofLogged x).run s = (.ok a, s')) :
    x.result = .ok a := by
  obtain ⟨_, _, _, h⟩ := run_bind_eq_ok h
  exact result_of_run_ofExcept h

end Build

end ScriptBundle
