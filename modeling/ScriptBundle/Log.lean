import ScriptBundle.Failure
import ScriptBundle.Settings

/-!
# The log

A build says what it does by messages of different levels. They are kept as data; which of them are
shown, and how, is decided when the log is rendered for some settings.

* `Log.Entry`, `Log.render`;
* `Logged`: a result, or a failure, together with what was logged on the way to it.
-/

namespace ScriptBundle

namespace Log

/-- One message of a build. -/
structure Entry where
  level : LogLevel
  message : Text
  deriving DecidableEq

/-- The line of an entry, if the settings admit it. A message of the level `silent` has no mark and is
always admitted. -/
def Entry.render (st : Settings) (clock : Text) (e : Entry) : Text :=
  if st.logLevel.admits e.level then
    let mark : Text :=
      if st.timeStamps && e.level ≠ .silent then clock ++ " " ++ e.level.mark ++ " " else []
    mark ++ e.message ++ "\n"
  else []

/-- The text of a log. `clock` is the time that it shows. -/
def render (st : Settings) (clock : Text) (entries : List Entry) : Text :=
  entries.flatMap (Entry.render st clock)

/-- A message about an error. -/
def error (message : Text) : Entry := ⟨.error, message⟩

/-- A message about something that may be an error. -/
def warning (message : Text) : Entry := ⟨.warning, message⟩

/-- A message about the progress of a build. -/
def info (message : Text) : Entry := ⟨.info, message⟩

/-- A message about the details of a build. -/
def debug (message : Text) : Entry := ⟨.debug, message⟩

/-- The message at the start of a stage, with the subject of the stage unless that is empty. -/
def stage (name : Text) (subject : Text) : Entry :=
  info (if subject.isEmpty then name ++ "..." else name ++ " '" ++ subject ++ "'")

end Log

/-- A result or a failure, and what was logged on the way to it. -/
structure Logged (α : Type) where
  entries : List Log.Entry
  result : Except Failure α

namespace Logged

variable {α β : Type}

/-- A result without a message. -/
protected def pure (a : α) : Logged α := ⟨[], .ok a⟩

/-- Goes on from a result; a failure is final. -/
protected def bind (x : Logged α) (f : α → Logged β) : Logged β :=
  match x.result with
  | .error e => ⟨x.entries, .error e⟩
  | .ok a => ⟨x.entries ++ (f a).entries, (f a).result⟩

instance : Monad Logged where
  pure := Logged.pure
  bind := Logged.bind

/-- A result without a message, or a failure. -/
def ofExcept (r : Except Failure α) : Logged α := ⟨[], r⟩

/-- A failure. -/
def fail (e : Failure) : Logged α := ofExcept (.error e)

/-- A message. -/
def log (e : Log.Entry) : Logged Unit := ⟨[e], .ok ()⟩

/-- Several messages. -/
def logAll (es : List Log.Entry) : Logged Unit := ⟨es, .ok ()⟩

@[simp] theorem result_pure (a : α) : (pure a : Logged α).result = .ok a := rfl

@[simp] theorem result_ofExcept (r : Except Failure α) : (ofExcept r).result = r := rfl

@[simp] theorem result_fail (e : Failure) : (fail e : Logged α).result = .error e := rfl

@[simp] theorem result_log (e : Log.Entry) : (log e).result = .ok () := rfl

@[simp] theorem result_bind (x : Logged α) (f : α → Logged β) :
    (x >>= f).result = x.result.bind fun a => (f a).result := by
  obtain ⟨entries, _ | a⟩ := x <;> rfl

theorem result_bind_eq_ok_iff {x : Logged α} {f : α → Logged β} {b : β} :
    (x >>= f).result = .ok b ↔ ∃ a, x.result = .ok a ∧ (f a).result = .ok b := by
  rw [result_bind]
  exact Except.bind_eq_ok_iff

theorem result_bind_eq_error_iff {x : Logged α} {f : α → Logged β} {e : Failure} :
    (x >>= f).result = .error e ↔
      x.result = .error e ∨ ∃ a, x.result = .ok a ∧ (f a).result = .error e := by
  rw [result_bind]
  exact Except.bind_eq_error_iff

/-- Sequences that start with one action are equal when they go on in the same way from its result. -/
theorem bind_congr {x : Logged α} {f g : α → Logged β} (h : ∀ a, x.result = .ok a → f a = g a) :
    x >>= f = x >>= g := by
  obtain ⟨entries, e | a⟩ := x
  · rfl
  · show Logged.bind _ f = Logged.bind _ g
    simp only [Logged.bind, h a rfl]

end Logged

end ScriptBundle
