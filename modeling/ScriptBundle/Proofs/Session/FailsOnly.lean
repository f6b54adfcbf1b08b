import ScriptBundle.Session

/-!
# The failures of an action

What an action can fail with is collected from its parts: a sequence fails like one of its actions,
and the later ones can be judged for the results that the earlier ones give.

* `Logged.FailsOnly`, `Build.FailsOnly`: every failure satisfies a condition;
* `bind`, `throw`, `ofExcept`, `ofLogged`, `mapM`: a rule for each way in which actions are built.
-/

namespace ScriptBundle

variable {α β : Type} {P : Failure → Prop}

namespace Logged

/-- If the action fails, then in a way that `P` allows. -/
def FailsOnly (P : Failure → Prop) (x : Logged α) : Prop := ∀ e, x.result = .error e → P e

theorem FailsOnly.pure (a : α) : FailsOnly P (Pure.pure a : Logged α) := fun _ h => by cases h

theorem FailsOnly.log (e : Log.Entry) : FailsOnly P (Logged.log e) := fun _ h => by cases h

theorem FailsOnly.fail {e : Failure} (h : P e) : FailsOnly P (Logged.fail e : Logged α) := by
  intro e' he
  cases he
  exact h

theorem FailsOnly.ofExcept {r : Except Failure α} (h : ∀ e, r = .error e → P e) :
    FailsOnly P (Logged.ofExcept r) := h

theorem FailsOnly.bind {x : Logged α} {f : α → Logged β} (hx : FailsOnly P x)
    (hf : ∀ a, x.result = .ok a → FailsOnly P (f a)) : FailsOnly P (x >>= f) := by
  intro e he
  rw [result_bind] at he
  cases hr : x.result with
  | error e' =>
    rw [hr] at he
    cases he
    exact hx _ hr
  | ok a =>
    rw [hr] at he
    exact hf a hr e he

end Logged

namespace Build

/-- If the action fails, from whatever session on, then in a way that `P` allows. -/
def FailsOnly (P : Failure → Prop) (x : Build α) : Prop :=
  ∀ s e s', x.run s = (.error e, s') → P e

theorem FailsOnly.pure (a : α) : FailsOnly P (Pure.pure a : Build α) := fun _ _ _ h => by cases h

theorem FailsOnly.log (e : Log.Entry) : FailsOnly P (Build.log e) := fun _ _ _ h => by cases h

theorem FailsOnly.start (call : ProcessCall) : FailsOnly P (Build.start call) := by
  intro s e s' h
  rcases s with ⟨log, calls, _ | ⟨outcome, outcomes⟩⟩ <;> cases h

theorem FailsOnly.throw {e : Failure} (h : P e) : FailsOnly P (throw e : Build α) := by
  intro s e' s' he
  cases he
  exact h

theorem FailsOnly.ofExcept {r : Except Failure α} (h : ∀ e, r = .error e → P e) :
    FailsOnly P (Build.ofExcept r) := by
  intro s e s' he
  cases r with
  | error e' =>
    cases he
    exact h _ rfl
  | ok a => cases he

theorem FailsOnly.bind {x : Build α} {f : α → Build β} (hx : FailsOnly P x)
    (hf : ∀ a, (∃ s s', x.run s = (.ok a, s')) → FailsOnly P (f a)) : FailsOnly P (x >>= f) := by
  intro s e s' he
  rw [run_bind] at he
  rcases hr : x.run s with ⟨_ | a, t⟩
  · rw [hr] at he
    cases he
    exact hx _ _ _ hr
  · rw [hr] at he
    exact hf a ⟨_, _, hr⟩ _ _ _ he

theorem FailsOnly.ofLogged {x : Logged α} (h : x.FailsOnly P) : FailsOnly P (Build.ofLogged x) :=
  FailsOnly.bind (fun _ _ _ h => by cases h) fun _ _ => FailsOnly.ofExcept h

theorem FailsOnly.mapM {f : α → Build β} {as : List α} (h : ∀ a ∈ as, FailsOnly P (f a)) :
    FailsOnly P (as.mapM f) := by
  induction as with
  | nil =>
    rw [List.mapM_nil]
    exact FailsOnly.pure _
  | cons a as ih =>
    rw [List.mapM_cons]
    refine (h a List.mem_cons_self).bind fun b _ => ?_
    exact (ih fun x hx => h x (List.mem_cons_of_mem _ hx)).bind fun bs _ => FailsOnly.pure _

end Build

end ScriptBundle
