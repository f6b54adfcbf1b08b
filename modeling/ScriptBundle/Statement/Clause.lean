import ScriptBundle.Statement.Pattern

/-!
# Clauses of module statements

The pieces that imports and exports share. Each reader takes the tokens from its place on and
returns what it read together with the tokens that are left, which are a suffix of those that it
got; `last` is always the token at the end of the source.

* `readName`, `readElements`: the names between braces;
* `readFrom`, `readSpecifier`: where a statement takes its names from, and where it ends.
-/

namespace ScriptBundle.Statement

/-- Whether the next token is the given word. -/
def wordAhead (w : Text) (ts : List Token) : Bool := ts.head?.any (·.isWord w)

/-- Whether the next token is of the given kind. -/
def kindAhead (k : TokenKind) (ts : List Token) : Bool := ts.head?.any (·.kind = k)

/-- The value of a string token. -/
def stringValue (t : Token) : Except StatementFault Text :=
  match StringLiteral.decode t.text with
  | .ok v => .ok v
  | .error f => .error ⟨.invalidEscape t.text f, t⟩

/-- The name that a token gives to a binding: a word, a keyword or the value of a string. -/
def bindingName (t : Token) : Except StatementFault Text :=
  match t.kind with
  | .string => stringValue t
  | .identifier | .importWord | .exportWord => .ok t.text
  | _ => .error ⟨.unexpected t, t⟩

/-- The binding name at the head of the tokens. -/
def readName (last : Token) : List Token → Except StatementFault (Text × List Token)
  | [] => .error ⟨.unexpected last, last⟩
  | t :: ts => (bindingName t).map fun name => (name, ts)

theorem readName_suffix {last : Token} {ts : List Token} {n : Text × List Token}
    (h : readName last ts = .ok n) : n.2 <:+ ts.tail := by
  cases ts with
  | nil => cases h
  | cons t ts =>
    obtain ⟨_, _, rfl⟩ := Except.map_eq_ok_iff.1 h
    exact List.suffix_refl _

/-- Whether a word `type` at the head marks the name behind it, and is no name itself. -/
def marksTypeName : List Token → Bool
  | t :: u :: _ =>
    t.isWord "type" && (u.kind = .identifier || u.kind = .string) && !u.isWord "as"
  | _ => false

/-- One element of a list of names: `a`, `a as b` or `type T`. -/
def readElement (last : Token) (ts : List Token) :
    Except StatementFault (Binding × List Token) := do
  let typeOnly := marksTypeName ts
  let (name, rest) ← readName last (if typeOnly then ts.tail else ts)
  if wordAhead "as" rest then
    let (inner, rest) ← readName last rest.tail
    .ok (⟨name, inner, typeOnly⟩, rest)
  else .ok (⟨name, name, typeOnly⟩, rest)

theorem readElement_suffix {last : Token} {ts : List Token} {b : Binding × List Token}
    (h : readElement last ts = .ok b) : b.2 <:+ ts.tail := by
  obtain ⟨⟨name, rest⟩, hn, h⟩ := Except.bind_eq_ok_iff.1 h
  have hr : rest <:+ ts.tail := by
    refine (readName_suffix hn).trans ?_
    split
    · exact List.tail_suffix _
    · exact List.suffix_refl _
  simp only at h
  split at h
  · obtain ⟨⟨inner, rest'⟩, hi, h⟩ := Except.bind_eq_ok_iff.1 h
    cases h
    exact (((readName_suffix hi).trans (List.tail_suffix _)).trans (List.tail_suffix _)).trans hr
  · cases h
    exact hr

/-- The rest of a list of names behind its brace `opener`, up to the closing brace, which is returned
too. -/
def readElements (last opener : Token) (ts : List Token) :
    Except StatementFault ((List Binding × Token) × List Token) :=
  match ts with
  | [] => .error ⟨.unclosedNames, opener⟩
  | t :: us =>
    if t.kind = .rightBrace then .ok (([], t), us)
    else
      match _h : readElement last (t :: us) with
      | .error e => .error e
      | .ok (_, []) => .error ⟨.unexpected last, last⟩
      | .ok (b, v :: vs) =>
        if v.kind = .comma then
          (readElements last opener vs).map fun ((bs, close), rest) => ((b :: bs, close), rest)
        else if v.kind = .rightBrace then .ok (([b], v), vs)
        else .error ⟨.unexpected v, v⟩
  termination_by ts.length
  decreasing_by
    have := (readElement_suffix _h).length_le
    simp only [List.length_cons, List.tail_cons] at this ⊢
    omega

/-- What follows an element of a list of names tells whether the list goes on. -/
theorem readElements_cons (last opener t : Token) (us : List Token) :
    readElements last opener (t :: us) =
      if t.kind = .rightBrace then .ok (([], t), us)
      else readElement last (t :: us) >>= fun r =>
        match r with
        | (_, []) => .error ⟨.unexpected last, last⟩
        | (b, v :: vs) =>
          if v.kind = .comma then
            (readElements last opener vs).map fun ((bs, close), rest) => ((b :: bs, close), rest)
          else if v.kind = .rightBrace then .ok (([b], v), vs)
          else .error ⟨.unexpected v, v⟩ := by
  rw [readElements]
  split
  · rfl
  · split <;> simp only [*] <;> rfl

theorem readElements_suffix {last opener : Token} {ts : List Token}
    {r : (List Binding × Token) × List Token} (h : readElements last opener ts = .ok r) :
    r.1.2 :: r.2 <:+ ts := by
  fun_induction readElements last opener ts generalizing r with
  | case1 => cases h
  | case2 t us => cases h; exact List.suffix_refl _
  | case3 => cases h
  | case4 => cases h
  | case5 t us _ b v vs hb _ ih =>
    obtain ⟨m, hm, rfl⟩ := Except.map_eq_ok_iff.1 h
    exact ((ih hm).trans (List.suffix_cons v vs)).trans
      ((readElement_suffix hb).trans (List.suffix_cons t us))
  | case6 t us _ b v vs hb _ _ =>
    cases h
    exact (readElement_suffix hb).trans (List.suffix_cons t us)
  | case7 => cases h

/-- The end of a statement that has been read up to the offset `stop`: a semicolon belongs to it. -/
def readSemicolon (stop : Nat) : List Token → Nat × List Token
  | t :: ts => if t.kind = .semicolon then (t.stop, ts) else (stop, t :: ts)
  | [] => (stop, [])

theorem readSemicolon_suffix (stop : Nat) (ts : List Token) : (readSemicolon stop ts).2 <:+ ts := by
  unfold readSemicolon
  repeat' split
  · exact List.suffix_cons ..
  · exact List.suffix_refl _
  · exact List.suffix_refl _

/-- Whether import attributes follow a specifier: `with` or `assert` and a brace, on its line. -/
def attributesAhead (specifier : Token) : List Token → Bool
  | t :: u :: _ =>
    (t.isWord "with" || t.isWord "assert") && u.kind = .leftBrace && t.line = specifier.line
  | _ => false

/-- The specifier at the end of a statement, its attributes and a semicolon. Returns the value of the
specifier and the offset where the statement ends. -/
def readSpecifier (last : Token) (ts : List Token) :
    Except StatementFault ((Text × Nat) × List Token) :=
  match ts with
  | [] => .error ⟨.specifierExpected last, last⟩
  | t :: ts =>
    if t.kind = .string then
      match stringValue t with
      | .error e => .error e
      | .ok specifier =>
        if attributesAhead t ts then
          match dropGroup 0 ts.tail with
          | none => .error ⟨.unclosedGroup, last⟩
          | some (close, ts) =>
            let e := readSemicolon close.stop ts
            .ok ((specifier, e.1), e.2)
        else
          let e := readSemicolon t.stop ts
          .ok ((specifier, e.1), e.2)
    else .error ⟨.specifierExpected t, t⟩

theorem readSpecifier_suffix {last : Token} {ts : List Token} {r : (Text × Nat) × List Token}
    (h : readSpecifier last ts = .ok r) : r.2 <:+ ts.tail := by
  unfold readSpecifier at h
  split at h
  · cases h
  · next t us =>
    repeat' split at h
    · cases h
    · cases h
    · next hg =>
      cases h
      exact (((readSemicolon_suffix ..).trans (List.suffix_cons ..)).trans
        (dropGroup_suffix hg)).trans (List.tail_suffix _)
    · cases h
      exact readSemicolon_suffix ..
    · cases h

/-- What follows the word `from`. -/
def readFrom (cause : StatementFault.Cause) (last : Token) :
    List Token → Except StatementFault (List Token)
  | t :: ts => if t.isWord "from" then .ok ts else .error ⟨cause, t⟩
  | [] => .error ⟨cause, last⟩

theorem readFrom_suffix {cause : StatementFault.Cause} {last : Token} {ts r : List Token}
    (h : readFrom cause last ts = .ok r) : r <:+ ts := by
  unfold readFrom at h
  repeat' split at h
  · cases h
    exact List.suffix_cons ..
  · cases h
  · cases h

/-- A statement that has been read, and the tokens that are left. -/
abbrev Parsed := Option (Statement × List Token)

end ScriptBundle.Statement
