import Mathlib.Data.List.Forall2
import ScriptBundle.Session

/-!
# Actions that end alike

Two actions end alike when both fail or both give results, and then a relation holds between the
results. What they log, and how they fail, may differ. As for failures, there is a rule for each way in
which actions are built: sequences end alike when their first actions do, and when what follows does
for all related results of these.

* `Agree`: two results of the kind that an action has;
* `Agree.bind`, `Logged.agree_bind`: sequences;
* `Build.Agrees`: two actions of a build, each with a session of its own.
-/

namespace ScriptBundle

variable {ε ε' α α' β β' : Type} {R : α → β → Prop} {S : α' → β' → Prop}

/-- Two results agree: both are failures, or both are values that `R` relates. -/
inductive Agree (R : α → β → Prop) : Except ε α → Except ε' β → Prop
  | error (e : ε) (e' : ε') : Agree R (.error e) (.error e')
  | ok {a : α} {b : β} (h : R a b) : Agree R (.ok a) (.ok b)

namespace Agree

variable {x : Except ε α} {y : Except ε' β}

theorem bind {f : α → Except ε α'} {g : β → Except ε' β'} (h : Agree R x y)
    (hf : ∀ a b, R a b → Agree S (f a) (g b)) : Agree S (x.bind f) (y.bind g) := by
  cases h with
  | error e e' => exact .error e e'
  | ok h => exact hf _ _ h

theorem map {f : α → α'} {g : β → β'} (h : Agree R x y) (hf : ∀ a b, R a b → S (f a) (g b)) :
    Agree S (x.map f) (y.map g) := by
  cases h with
  | error e e' => exact .error e e'
  | ok h => exact .ok (hf _ _ h)

theorem of_map {f : α → α'} {g : β → β'} (h : Agree S (x.map f) (y.map g)) :
    Agree (fun a b => S (f a) (g b)) x y := by
  cases x <;> cases y <;> cases h
  · exact .error _ _
  · next h => exact .ok h

theorem exists_ok_iff (h : Agree R x y) : (∃ a, x = .ok a) ↔ ∃ b, y = .ok b := by
  cases h <;> simp

theorem rel (h : Agree R x y) {a : α} {b : β} (hx : x = .ok a) (hy : y = .ok b) : R a b := by
  cases h with
  | error e e' => cases hx
  | ok h =>
    cases hx
    cases hy
    exact h

end Agree

theorem Logged.agree_bind {x : Logged α} {y : Logged β} {f : α → Logged α'} {g : β → Logged β'}
    (h : Agree R x.result y.result) (hf : ∀ a b, R a b → Agree S (f a).result (g b).result) :
    Agree S (x >>= f).result (y >>= g).result := by
  rw [result_bind, result_bind]
  exact h.bind hf

namespace Build

/-- Two actions end alike, whatever their sessions are. -/
def Agrees (R : α → β → Prop) (x : Build α) (y : Build β) : Prop :=
  ∀ s t, Agree R (x.run s).1 (y.run t).1

theorem Agrees.pure {a : α} {b : β} (h : R a b) : Agrees R (Pure.pure a) (Pure.pure b) :=
  fun _ _ => .ok h

theorem Agrees.log (e e' : Log.Entry) : Agrees (· = ·) (Build.log e) (Build.log e') :=
  fun _ _ => .ok rfl

theorem Agrees.ofExcept {x : Except Failure α} {y : Except Failure β} (h : Agree R x y) :
    Agrees R (Build.ofExcept x) (Build.ofExcept y) := by
  intro s t
  cases h with
  | error e e' => exact .error e e'
  | ok h => exact .ok h

theorem Agrees.bind {x : Build α} {y : Build β} {f : α → Build α'} {g : β → Build β'}
    (h : Agrees R x y) (hf : ∀ a b, R a b → Agrees S (f a) (g b)) : Agrees S (x >>= f) (y >>= g) := by
  intro s t
  rw [run_bind, run_bind]
  have hst := h s t
  generalize x.run s = xs, y.run t = yt at hst ⊢
  obtain ⟨x', s'⟩ := xs
  obtain ⟨y', t'⟩ := yt
  cases hst with
  | error e e' => exact .error e e'
  | ok hab => exact hf _ _ hab s' t'

theorem Agrees.ofLogged {x : Logged α} {y : Logged β} (h : Agree R x.result y.result) :
    Agrees R (Build.ofLogged x) (Build.ofLogged y) :=
  Agrees.bind (R := (· = ·)) (fun _ _ => .ok rfl) fun _ _ _ => Agrees.ofExcept h

theorem Agrees.mapM {f : α → Build α'} {g : β → Build β'} {as : List α} {bs : List β}
    (h : List.Forall₂ (fun a b => Agrees S (f a) (g b)) as bs) :
    Agrees (List.Forall₂ S) (as.mapM f) (bs.mapM g) := by
  induction h with
  | nil =>
    rw [List.mapM_nil, List.mapM_nil]
    exact Agrees.pure .nil
  | cons hab _ ih =>
    rw [List.mapM_cons, List.mapM_cons]
    exact hab.bind fun c d hcd => ih.bind fun cs ds hcds => Agrees.pure (.cons hcd hcds)

end Build

end ScriptBundle
