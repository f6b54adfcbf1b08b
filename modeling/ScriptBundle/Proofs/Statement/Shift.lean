import ScriptBundle.Proofs.Statement.Related
import ScriptBundle.Proofs.Token.Shift

/-!
# Module statements further down

The scanner finds the same statements, or the same fault, when all tokens stand further down: a token
further down resembles the token.

* `Statement.shift`, `StatementFault.shift`, `SyntaxFault.shift`: the same statement or fault further down;
* `Shift.resemblance`: tokens further down;
* `scanFrom_shift`: all statements.
-/

namespace ScriptBundle

section

variable (d : Shift)

/-- The same form further down; of a declaration, the `let` or `const` has a place. -/
def Statement.Form.shift : Statement.Form → Statement.Form
  | .declaration bindings typeOnly blockScoped =>
    .declaration bindings typeOnly (blockScoped.map (Token.shift d))
  | form => form

/-- The same statement further down. -/
def Statement.shift (s : Statement) : Statement :=
  ⟨s.start.shift d, s.stop + d.chars, s.form.shift d⟩

/-- The same cause further down. -/
def StatementFault.Cause.shift : StatementFault.Cause → StatementFault.Cause
  | .specifierExpected t => .specifierExpected (t.shift d)
  | .unexpected t => .unexpected (t.shift d)
  | .patternExpected t => .patternExpected (t.shift d)
  | cause => cause

/-- The same fault further down. -/
def StatementFault.shift (f : StatementFault) : StatementFault := ⟨f.cause.shift d, f.place.shift d⟩

/-- The same fault further down. -/
def SyntaxFault.shift : SyntaxFault → SyntaxFault
  | .lexical f => .lexical (f.shift d)
  | .statement f => .statement (f.shift d)

theorem SyntaxFault.message_shift (f : SyntaxFault) : (f.shift d).message = f.message := by
  cases f with
  | lexical => rfl
  | statement f =>
    obtain ⟨cause, place⟩ := f
    cases cause <;> rfl

theorem SyntaxFault.position_shift (f : SyntaxFault) :
    (f.shift d).position = f.position.shift d := by
  cases f <;> rfl

end

/-- Tokens further down. -/
def Shift.resemblance (d : Shift) : Resemblance where
  rel t t' := t' = t.shift d
  lines := d.lines
  kind_eq := by rintro _ _ rfl; rfl
  line_eq := by rintro _ _ rfl; rfl
  text_cases := by rintro _ _ rfl; exact .inl rfl

namespace Statement

variable {d : Shift}

theorem tokens_shift (ts : List Token) : d.resemblance.Tokens ts (ts.map (Token.shift d)) :=
  List.forall₂_map_right_iff.2 (List.forall₂_same.2 fun _ _ => rfl)

theorem eq_of_names {n n' : Text} (h : d.resemblance.Names n n') : n' = n := by
  rcases h with h | ⟨t, _, rfl, rfl, rfl⟩
  · exact h
  · rfl

theorem eq_of_bindings {bs bs' : List Binding} (h : List.Forall₂ d.resemblance.Bindings bs bs') :
    bs' = bs := by
  induction h with
  | nil => rfl
  | cons hb _ ih =>
    exact congrArg₂ _ (Binding.ext (eq_of_names hb.outer) (eq_of_names hb.inner) hb.typeOnly) ih

theorem eq_of_forms {f f' : Form} (h : d.resemblance.Forms f f') : f' = f.shift d := by
  cases h with
  | imports h | reexports h | exportList h => rw [eq_of_bindings h]; rfl
  | reexportAll => rfl
  | declaration h hword =>
    rw [eq_of_bindings h]
    cases hword with
    | none => rfl
    | some hword => rw [show _ = _ from hword]; rfl
  | default h =>
    cases h with
    | none => rfl
    | some h => rw [eq_of_names h]; rfl

theorem eq_of_statements {s s' : Statement} (h : d.resemblance.Statements s s') : s' = s.shift d := by
  obtain ⟨start, stop, form⟩ := s
  obtain ⟨start', stop', form'⟩ := s'
  obtain ⟨⟨t, _, rfl, hstart, hstart'⟩, ⟨u, _, rfl, hstop, hstop'⟩, hform⟩ := h
  simp only at hstart hstart' hstop hstop'
  rw [Statement.shift, ← eq_of_forms hform, hstart, hstart', hstop, hstop', Token.stop_shift]
  rfl

theorem eq_of_faults {f f' : StatementFault} (h : d.resemblance.Faults f f') : f' = f.shift d := by
  obtain ⟨cause, place⟩ := f
  obtain ⟨cause', place'⟩ := f'
  obtain ⟨hcause, rfl⟩ := h
  cases hcause with
  | specifierExpected h | unexpected h | patternExpected h => rw [show _ = _ from h]; rfl
  | _ => rfl

/-- The scanner finds the same further down, behind any token that selects a member if the one in front
did. -/
theorem scanFrom_shift (d : Shift) (last : Token) {prev prev' : Option Token}
    (hprev : prev'.any (·.selectsMember) = prev.any (·.selectsMember)) (depth : Nat)
    (ts : List Token) :
    scanFrom (last.shift d) prev' depth (ts.map (Token.shift d)) =
      Except.bimap (StatementFault.shift d) (List.map (Statement.shift d))
        (scanFrom last prev depth ts) := by
  have hrel := scanFrom_rel (R := d.resemblance) (rfl : last.shift d = last.shift d) hprev depth (tokens_shift ts)
  generalize scanFrom last prev depth ts = x, scanFrom (last.shift d) prev' depth _ = y at hrel ⊢
  cases hrel with
  | @ok ss ss' h =>
    refine congrArg Except.ok ?_
    induction h with
    | nil => rfl
    | cons hs _ ih => rw [List.map_cons, eq_of_statements hs, ih]
  | error h => rw [eq_of_faults h]; rfl

end Statement

end ScriptBundle
