import ScriptBundle.Text.CodePoint

/-!
# Positions in a text

A position is an offset together with the line and column that it falls on. Lines and columns count
from one, and only a line feed starts a new line.

* `Position.next`, `Position.after`: the position behind one code point, and behind a text;
* `after_append` says how positions behave under concatenation, and `offset_after` and `line_after` how
  far down they are.
-/

namespace ScriptBundle

/-- A place in a text. -/
@[ext]
structure Position where
  offset : Nat
  line : Nat
  column : Nat
  deriving DecidableEq

namespace Position

/-- The beginning of a text. -/
def start : Position := ⟨0, 1, 1⟩

/-- The position behind one code point. -/
def next (p : Position) (c : CodePoint) : Position :=
  if c = '\n' then ⟨p.offset + 1, p.line + 1, 1⟩ else ⟨p.offset + 1, p.line, p.column + 1⟩

/-- The position behind a text. -/
def after (p : Position) (s : Text) : Position := s.foldl next p

@[simp] theorem after_nil (p : Position) : p.after [] = p := rfl

@[simp] theorem after_cons (p : Position) (c : CodePoint) (s : Text) :
    p.after (c :: s) = (p.next c).after s := rfl

theorem after_append (p : Position) (s t : Text) : p.after (s ++ t) = (p.after s).after t := by
  simp [after]

@[simp] theorem offset_next (p : Position) (c : CodePoint) : (p.next c).offset = p.offset + 1 := by
  unfold next; split <;> rfl

@[simp] theorem offset_after (p : Position) (s : Text) :
    (p.after s).offset = p.offset + s.length := by
  induction s generalizing p with
  | nil => rfl
  | cons c s ih => simp [ih]; omega

theorem line_after (p : Position) (s : Text) : (p.after s).line = p.line + Text.lineFeeds s := by
  induction s generalizing p with
  | nil => rfl
  | cons c s ih =>
    rw [after_cons, ih]
    by_cases hc : c = '\n'
    · subst hc
      simp [next, Text.lineFeeds]
      omega
    · simp [next, hc, Text.lineFeeds]

end Position

end ScriptBundle
