/-!
# Results that may be errors

When a mapped or chained result is a value, so was the result it came from. Two results correspond,
`Rel`, when both are values or both are errors, and these correspond.
-/

namespace ScriptBundle.Except

variable {ε α β : Type}

@[simp] theorem map_ok (f : α → β) (a : α) : (Except.ok a : Except ε α).map f = .ok (f a) := rfl

@[simp] theorem map_error (f : α → β) (e : ε) :
    (Except.error e : Except ε α).map f = .error e := rfl

theorem map_eq_ok_iff {f : α → β} {x : Except ε α} {b : β} :
    x.map f = .ok b ↔ ∃ a, x = .ok a ∧ f a = b := by
  cases x <;> simp

theorem map_eq_error_iff {f : α → β} {x : Except ε α} {e : ε} : x.map f = .error e ↔ x = .error e := by
  cases x <;> simp

theorem mapError_eq_ok_iff {ε' : Type} {f : ε → ε'} {x : Except ε α} {a : α} :
    x.mapError f = .ok a ↔ x = .ok a := by
  cases x with
  | error e =>
    show Except.error (f e) = .ok a ↔ Except.error e = .ok a
    simp
  | ok b =>
    show Except.ok b = .ok a ↔ Except.ok b = .ok a
    simp

@[simp] theorem ok_bind (a : α) (f : α → Except ε β) : (Except.ok a : Except ε α) >>= f = f a := rfl

@[simp] theorem error_bind (e : ε) (f : α → Except ε β) :
    (Except.error e : Except ε α) >>= f = .error e := rfl

theorem bind_eq_ok_iff {x : Except ε α} {f : α → Except ε β} {b : β} :
    x >>= f = .ok b ↔ ∃ a, x = .ok a ∧ f a = .ok b := by
  cases x <;> simp

theorem bind_eq_error_iff {x : Except ε α} {f : α → Except ε β} {e : ε} :
    x >>= f = .error e ↔ x = .error e ∨ ∃ a, x = .ok a ∧ f a = .error e := by
  cases x <;> simp

theorem exists_of_any_toOption {x : Except ε α} {p : α → Bool} (h : x.toOption.any p) :
    ∃ a, x = .ok a ∧ p a := by
  cases x with
  | error e => cases h
  | ok a => exact ⟨a, rfl, h⟩

/-- Two results that correspond: both are values that `A` relates, or errors that `E` relates. -/
inductive Rel {ε' : Type} (E : ε → ε' → Prop) (A : α → β → Prop) : Except ε α → Except ε' β → Prop
  | ok {a : α} {b : β} (h : A a b) : Rel E A (.ok a) (.ok b)
  | error {e : ε} {e' : ε'} (h : E e e') : Rel E A (.error e) (.error e')

namespace Rel

variable {ε' α' β' : Type} {E : ε → ε' → Prop} {A : α → β → Prop} {B : α' → β' → Prop}
  {x : Except ε α} {y : Except ε' β}

/-- What goes on from values that correspond, with the knowledge of where the first came from. -/
theorem bind_of_eq {f : α → Except ε α'} {g : β → Except ε' β'} (h : Rel E A x y)
    (hf : ∀ a b, x = .ok a → A a b → Rel E B (f a) (g b)) : Rel E B (x >>= f) (y >>= g) := by
  cases h with
  | ok h => exact hf _ _ rfl h
  | error h => exact .error h

theorem bind {f : α → Except ε α'} {g : β → Except ε' β'} (h : Rel E A x y)
    (hf : ∀ a b, A a b → Rel E B (f a) (g b)) : Rel E B (x >>= f) (y >>= g) :=
  h.bind_of_eq fun a b _ => hf a b

theorem map {f : α → α'} {g : β → β'} (h : Rel E A x y) (hf : ∀ a b, A a b → B (f a) (g b)) :
    Rel E B (x.map f) (y.map g) := by
  cases h with
  | ok h => exact .ok (hf _ _ h)
  | error h => exact .error h

end Rel

end ScriptBundle.Except
