import ScriptBundle.Proofs.Token.Lockstep

/-!
# Reading the same text elsewhere

What the lexer reads from a piece of a source depends on neither the place of the piece nor, but for
the next separator, on what follows. So a piece can be moved into another source, and the same tokens
are read there.

* `Token.sign`: a token without its place;
* `Like`: two places from which the lexer goes on in the same way;
* `Reads.transport`: a reading in front of texts that agree.
-/

namespace ScriptBundle

/-- A token without its place. -/
def Token.sign (t : Token) : TokenKind × Text := (t.kind, t.text)

namespace Lexer

/-- The same text, wherever it stands. -/
def sameText : Pieces := fun _ t _ t' => t' = t

/-- Two places with the same operand to follow and the same template literals open. -/
abbrev Like (x x' : Place) : Prop := Lockstep sameText x x'

theorem steady_sameText (p p' : Position) : Steady sameText p p' :=
  ⟨fun _ => rfl, fun h _ _ => congrArg (· ++ _) h⟩

theorem map_sign_of_forall₂ {ts ts' : List Token} (h : List.Forall₂ (TokenPair sameText) ts ts') :
    ts'.map Token.sign = ts.map Token.sign := by
  induction h with
  | nil => rfl
  | cons h _ ih => rw [List.map_cons, List.map_cons, ih, Token.sign, Token.sign, h.kind, h.piece]

/-- A reading in front of a text that changes nothing in front of it. -/
theorem Reads.transport {x x' y : Place} {ts : List Token} {text rest : Text} (h : Reads x ts y)
    (hl : Like x x') (htext : x.rest = text ++ y.rest) (htext' : x'.rest = text ++ rest)
    (hrest : Lexeme.Stable y.rest rest) :
    ∃ ts' y', Reads x' ts' y' ∧ ts'.map Token.sign = ts.map Token.sign ∧ Like y y' ∧
      y'.rest = rest := by
  obtain ⟨ts', y', hreads, htokens, hlike, hy⟩ :=
    h.lockstep hl (steady_sameText _ _) htext htext' hrest
  exact ⟨ts', y', hreads, map_sign_of_forall₂ htokens, hlike, hy⟩

end Lexer

end ScriptBundle
