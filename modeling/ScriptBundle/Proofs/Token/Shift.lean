import ScriptBundle.Proofs.Token.Lockstep

/-!
# Sources further down

The lexer does the same wherever it starts: only the positions of the tokens, and of a fault, tell where
that was. So a source gives the same tokens, moved down, when whole lines stand in front of it.

* `Shift`: a number of code points and of lines, by which a position, a token or a fault moves down;
* `run_shift`: a run further down.
-/

namespace ScriptBundle

/-- A result whose value and whose fault are changed. -/
def Except.bimap {ε ε' α β : Type} (g : ε → ε') (f : α → β) : Except ε α → Except ε' β
  | .ok a => .ok (f a)
  | .error e => .error (g e)

@[simp] theorem Except.bimap_ok {ε ε' α β : Type} {g : ε → ε'} {f : α → β} (a : α) :
    bimap g f (.ok a : Except ε α) = .ok (f a) := rfl

/-- How far something stands further down: by whole lines, which hold a number of code points. -/
structure Shift where
  chars : Nat
  lines : Nat

variable (d : Shift)

/-- The same column further down. -/
def Position.shift (p : Position) : Position := ⟨p.offset + d.chars, p.line + d.lines, p.column⟩

theorem Position.next_shift (p : Position) (c : CodePoint) :
    (p.shift d).next c = (p.next c).shift d := by
  unfold Position.next
  split <;> simp [Position.shift] <;> omega

theorem Position.after_shift (p : Position) (s : Text) : (p.shift d).after s = (p.after s).shift d := by
  induction s generalizing p with
  | nil => rfl
  | cons c s ih => rw [after_cons, after_cons, next_shift, ih]

namespace Token

/-- The same token further down. -/
def shift (t : Token) : Token := { t with start := t.start.shift d }

@[simp] theorem stop_shift (t : Token) : (t.shift d).stop = t.stop + d.chars := by
  unfold stop
  exact Nat.add_right_comm ..

end Token

/-- The same tokens further down. -/
def TokenStream.shift (ts : TokenStream) : TokenStream :=
  ⟨ts.tokens.map (Token.shift d), ts.finish.shift d⟩

/-- The same fault further down. -/
def LexicalFault.shift (f : LexicalFault) : LexicalFault := { f with position := f.position.shift d }

namespace Lexer

/-- The same piece further down. -/
def furtherDown : Pieces := fun q t q' t' => q' = q.shift d ∧ t' = t

theorem steady_furtherDown (p : Position) : Steady (furtherDown d) p (p.shift d) :=
  ⟨fun v => ⟨Position.after_shift d p v, rfl⟩, fun h _ _ => ⟨h.1, congrArg (· ++ _) h.2⟩⟩

theorem tokens_eq_of_furtherDown {ts ts' : List Token}
    (h : List.Forall₂ (TokenPair (furtherDown d)) ts ts') : ts' = ts.map (Token.shift d) := by
  induction h with
  | nil => rfl
  | cons h _ ih => exact congrArg₂ _ (Token.ext h.kind h.piece.2 h.piece.1) ih

/-- A run further down finds the same, further down. -/
theorem run_shift (operand : Bool) (p : Position) (s : Text) :
    run ⟨operand, []⟩ (p.shift d) s =
      Except.bimap (LexicalFault.shift d) (TokenStream.shift d) (run ⟨operand, []⟩ p s) := by
  have houtcome : Outcome (furtherDown d) (run ⟨operand, []⟩ p s) (run ⟨operand, []⟩ (p.shift d) s) :=
    run_lockstep ⟨rfl, .nil⟩ (steady_furtherDown d p)
  generalize run ⟨operand, []⟩ p s = x, run ⟨operand, []⟩ (p.shift d) s = y at houtcome ⊢
  cases houtcome with
  | @ok ts ts' h =>
    obtain ⟨tokens, finish⟩ := ts
    obtain ⟨tokens', finish'⟩ := ts'
    obtain ⟨htokens, hfinish, -⟩ := h
    rw [Except.bimap_ok, TokenStream.shift, ← tokens_eq_of_furtherDown d htokens, ← hfinish]
  | @error f f' h =>
    obtain ⟨cause, position⟩ := f
    obtain ⟨cause', position'⟩ := f'
    obtain ⟨hcause, -, -, hposition, -⟩ := h
    obtain rfl : cause' = cause := hcause
    obtain rfl : position' = position.shift d := hposition
    rfl

end Lexer

end ScriptBundle
