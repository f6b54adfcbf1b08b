import ScriptBundle.Statement.Clause

/-!
# Imports

`readImport` reads what follows the keyword `import`. What only looks like an import stays an
expression or a form of another module system: `import(…)`, `import.meta`, `import a = …`.
-/

namespace ScriptBundle.Statement

/-- Whether `import`, with `ts` behind it, is part of an expression or of a form of another module
system: `import(…)`, `import.meta`, `import a = …`, `import type a = …`. -/
def isOtherImport : List Token → Bool
  | t :: ts =>
    t.kind = .leftParen || t.kind = .dot ||
      (t.kind = .identifier && kindAhead .equals ts) ||
      (t.isWord "type" && kindAhead .identifier ts && kindAhead .equals ts.tail)
  | [] => false

/-- Whether a word `type` at the head makes the whole import one of types. -/
def marksTypeImport : List Token → Bool
  | t :: u :: _ =>
    t.isWord "type" &&
      (u.kind = .leftBrace || u.kind = .star || (u.kind = .identifier && u.text ≠ "from"))
  | _ => false

/-- The default binding at the head of an import clause, if it has one, and a comma behind it. -/
def readDefaultBinding : List Token → List Binding × List Token
  | t :: ts =>
    if t.kind = .identifier then
      ([⟨"default", t.text, false⟩], if kindAhead .comma ts then ts.tail else ts)
    else ([], t :: ts)
  | [] => ([], [])

theorem readDefaultBinding_suffix (ts : List Token) : (readDefaultBinding ts).2 <:+ ts := by
  unfold readDefaultBinding
  split
  · next t us =>
    by_cases ht : t.kind = .identifier <;> by_cases hc : kindAhead .comma us <;> simp only [ht, hc]
    · exact (List.tail_suffix us).trans (List.suffix_cons t us)
    · exact List.suffix_cons t us
    · exact List.suffix_refl _
    · exact List.suffix_refl _
  · exact List.suffix_refl _

/-- The namespace or the list of names of an import clause, if it has one. -/
def readClause (last : Token) (ts : List Token) :
    Except StatementFault (List Binding × List Token) :=
  match ts with
  | t :: us =>
    if t.kind = .star then
      match us with
      | as :: vs =>
        if as.isWord "as" then
          .ok ([⟨"*", (vs.headD last).text, false⟩], vs.tail)
        else .error ⟨.namespaceNameExpected, as⟩
      | [] => .error ⟨.namespaceNameExpected, last⟩
    else if t.kind = .leftBrace then
      (readElements last t us).map fun r => (r.1.1, r.2)
    else .ok ([], ts)
  | [] => .ok ([], [])

theorem readClause_suffix {last : Token} {ts : List Token} {r : List Binding × List Token}
    (h : readClause last ts = .ok r) : r.2 <:+ ts := by
  unfold readClause at h
  split at h
  · next t us =>
    split at h
    · split at h
      · next as vs =>
        split at h
        · cases h
          exact ((List.tail_suffix vs).trans (List.suffix_cons as vs)).trans
            (List.suffix_cons t (as :: vs))
        · cases h
      · cases h
    · split at h
      · obtain ⟨m, hm, rfl⟩ := Except.map_eq_ok_iff.1 h
        exact ((List.suffix_cons _ _).trans (readElements_suffix hm)).trans (List.suffix_cons t us)
      · cases h
        exact List.suffix_refl _
  · cases h
    exact List.suffix_refl _

/-- The import behind the keyword `word`, or `none` if it is no module statement. -/
def readImport (last word : Token) (ts : List Token) : Except StatementFault Parsed :=
  if isOtherImport ts then .ok none
  else if kindAhead .string ts || kindAhead .template ts then do
    let ((specifier, stop), rest) ← readSpecifier last ts
    .ok (some (⟨word.start, stop, .imports specifier [] false⟩, rest))
  else do
    let typeOnly := marksTypeImport ts
    let first := readDefaultBinding (if typeOnly then ts.tail else ts)
    let (bindings, rest) ← readClause last first.2
    let rest ← readFrom .importSourceExpected last rest
    let ((specifier, stop), rest) ← readSpecifier last rest
    .ok (some (⟨word.start, stop, .imports specifier (first.1 ++ bindings) typeOnly⟩, rest))

theorem readImport_suffix {last word : Token} {ts rest : List Token} {s : Statement}
    (h : readImport last word ts = .ok (some (s, rest))) : rest <:+ ts := by
  unfold readImport at h
  split at h
  · cases h
  · split at h
    · obtain ⟨⟨⟨specifier, stop⟩, r⟩, hs, h⟩ := Except.bind_eq_ok_iff.1 h
      cases h
      exact (readSpecifier_suffix hs).trans (List.tail_suffix _)
    · obtain ⟨⟨bindings, r₁⟩, hc, h⟩ := Except.bind_eq_ok_iff.1 h
      obtain ⟨r₂, hf, h⟩ := Except.bind_eq_ok_iff.1 h
      obtain ⟨⟨⟨specifier, stop⟩, r₃⟩, hs, h⟩ := Except.bind_eq_ok_iff.1 h
      cases h
      have htail : (if marksTypeImport ts then ts.tail else ts) <:+ ts := by
        split
        · exact List.tail_suffix _
        · exact List.suffix_refl _
      exact ((((readSpecifier_suffix hs).trans (List.tail_suffix _)).trans
        (readFrom_suffix hf)).trans (readClause_suffix hc)).trans
        ((readDefaultBinding_suffix _).trans htail)

end ScriptBundle.Statement
