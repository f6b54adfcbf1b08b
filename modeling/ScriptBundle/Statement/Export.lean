import ScriptBundle.Statement.Clause

/-!
# Exports

`readExport` reads what follows the keyword `export`: a re-export, a list of local names, `default`,
or a declaration. Of a declaration it takes the names that it binds; what has an unknown form is no
module statement and stays as it is.
-/

namespace ScriptBundle.Statement

/-- Whether a word `type` at the head makes the whole export one of types. -/
def marksTypeExport : List Token → Bool
  | t :: u :: _ => t.isWord "type" && (u.kind = .leftBrace || u.kind = .star)
  | _ => false

/-- The tokens behind the words `async` and `abstract`. -/
def dropModifiers (ts : List Token) : List Token :=
  ts.dropWhile fun t => t.isWord "async" || t.isWord "abstract"

/-- What follows the star of a generator function. -/
def dropStar (ts : List Token) : List Token := if kindAhead .star ts then ts.tail else ts

theorem dropStar_suffix (ts : List Token) : dropStar ts <:+ ts := by
  unfold dropStar
  split
  · exact List.tail_suffix _
  · exact List.suffix_refl _

/-- The name of the function or class declaration at the head of the tokens, if there is one. -/
def declaredName (ts : List Token) : Option Text :=
  match dropModifiers ts with
  | t :: us =>
    if t.isWord "function" || t.isWord "class" then
      match dropStar us with
      | n :: _ =>
        if n.kind = .identifier && n.text ≠ "extends" && n.text ≠ "implements" then some n.text
        else none
      | [] => none
    else none
  | [] => none

/-- The rest of a re-export of everything behind its star: under a name, or name by name. -/
def readExportAll (last word : Token) (typeOnly : Bool) (ts : List Token) :
    Except StatementFault Parsed :=
  if wordAhead "as" ts then do
    let (name, rest) ← readName last ts.tail
    let rest ← readFrom .exportSourceExpected last rest
    let ((specifier, stop), rest) ← readSpecifier last rest
    .ok (some (⟨word.start, stop, .reexports specifier [⟨name, "*", false⟩] typeOnly⟩, rest))
  else do
    let rest ← readFrom .exportSourceExpected last ts
    let ((specifier, stop), rest) ← readSpecifier last rest
    .ok (some (⟨word.start, stop, .reexportAll specifier typeOnly⟩, rest))

theorem readExportAll_suffix {last word : Token} {typeOnly : Bool} {ts rest : List Token}
    {s : Statement} (h : readExportAll last word typeOnly ts = .ok (some (s, rest))) :
    rest <:+ ts := by
  unfold readExportAll at h
  split at h
  · obtain ⟨⟨name, r₁⟩, hn, h⟩ := Except.bind_eq_ok_iff.1 h
    obtain ⟨r₂, hf, h⟩ := Except.bind_eq_ok_iff.1 h
    obtain ⟨⟨⟨specifier, stop⟩, r₃⟩, hs, h⟩ := Except.bind_eq_ok_iff.1 h
    cases h
    exact ((((readSpecifier_suffix hs).trans (List.tail_suffix _)).trans
      (readFrom_suffix hf)).trans (readName_suffix hn)).trans
      ((List.tail_suffix _).trans (List.tail_suffix _))
  · obtain ⟨r₂, hf, h⟩ := Except.bind_eq_ok_iff.1 h
    obtain ⟨⟨⟨specifier, stop⟩, r₃⟩, hs, h⟩ := Except.bind_eq_ok_iff.1 h
    cases h
    exact ((readSpecifier_suffix hs).trans (List.tail_suffix _)).trans (readFrom_suffix hf)

/-- The rest of an export list behind its brace `opener`, with or without a specifier. -/
def readExportNames (last word opener : Token) (typeOnly : Bool) (ts : List Token) :
    Except StatementFault Parsed := do
  let ((names, close), rest) ← readElements last opener ts
  let bindings := names.map Binding.swap
  if wordAhead "from" rest then
    let ((specifier, stop), rest) ← readSpecifier last rest.tail
    .ok (some (⟨word.start, stop, .reexports specifier bindings typeOnly⟩, rest))
  else
    let e := readSemicolon close.stop rest
    .ok (some (⟨word.start, e.1, .exportList bindings typeOnly⟩, e.2))

theorem readExportNames_suffix {last word opener : Token} {typeOnly : Bool} {ts rest : List Token}
    {s : Statement} (h : readExportNames last word opener typeOnly ts = .ok (some (s, rest))) :
    rest <:+ ts := by
  obtain ⟨⟨⟨names, close⟩, r₁⟩, hn, h⟩ := Except.bind_eq_ok_iff.1 h
  have hr : r₁ <:+ ts := (List.suffix_cons _ _).trans (readElements_suffix hn)
  simp only at h
  split at h
  · obtain ⟨⟨⟨specifier, stop⟩, r₃⟩, hs, h⟩ := Except.bind_eq_ok_iff.1 h
    cases h
    exact ((readSpecifier_suffix hs).trans
      ((List.tail_suffix _).trans (List.tail_suffix _))).trans hr
  · cases h
    exact (readSemicolon_suffix ..).trans hr

/-- The words in front of a declaration that do not tell its form. -/
def dropDeclarationModifiers (ts : List Token) : List Token :=
  ts.dropWhile fun t => t.isWord "declare" || t.isWord "abstract" || t.isWord "async"

/-- The name that a declaration takes from the next token. -/
def readDeclared (last : Token) (ts : List Token) : List Text × List Token :=
  ([(ts.headD last).text], ts.tail)

/-- An exported declaration. -/
structure Declared where
  names : List Text
  typeOnly : Bool
  blockScoped : Option Token

/-- The declaration at the head of the tokens, or `none` if its form is unknown. -/
def readDeclaration (last : Token) (ts : List Token) :
    Except StatementFault (Option (Declared × List Token)) :=
  match dropDeclarationModifiers ts with
  | [] => .ok none
  | t :: us =>
    if t.isWord "const" || t.isWord "let" || t.isWord "var" then
      if wordAhead "enum" us then
        let d := readDeclared last us.tail
        .ok (some (⟨d.1, false, none⟩, d.2))
      else
        (declaratorNames last us).map fun (names, rest) =>
          some (⟨names, false, if t.isWord "var" then none else some t⟩, rest)
    else if t.isWord "function" || t.isWord "class" || t.isWord "enum" || t.isWord "namespace" ||
        t.isWord "module" then
      let d := readDeclared last (dropStar us)
      .ok (some (⟨d.1, false, none⟩, d.2))
    else if t.isWord "type" || t.isWord "interface" then
      .ok (some (⟨[], true, none⟩, t :: us))
    else .ok none

theorem readDeclaration_suffix {last : Token} {ts rest : List Token} {d : Declared}
    (h : readDeclaration last ts = .ok (some (d, rest))) : rest <:+ ts := by
  have hm : dropDeclarationModifiers ts <:+ ts := List.dropWhile_suffix _
  unfold readDeclaration at h
  split at h
  · cases h
  · next t us hs =>
    rw [hs] at hm
    refine List.IsSuffix.trans ?_ hm
    split at h
    · split at h
      · cases h
        exact ((List.tail_suffix _).trans (List.tail_suffix _)).trans (List.suffix_cons t us)
      · obtain ⟨⟨names, r⟩, hn, h⟩ := Except.map_eq_ok_iff.1 h
        cases h
        exact (declaratorNames_suffix hn).trans (List.suffix_cons t us)
    · split at h
      · cases h
        exact ((List.tail_suffix _).trans (dropStar_suffix us)).trans (List.suffix_cons t us)
      · split at h
        · cases h
          exact List.suffix_refl _
        · cases h

/-- The export behind the keyword `word`, or `none` if it is no module statement. -/
def readExport (last word : Token) (ts : List Token) : Except StatementFault Parsed :=
  let typeOnly := marksTypeExport ts
  match if typeOnly then ts.tail else ts with
  | t :: us =>
    if t.kind = .star then readExportAll last word typeOnly us
    else if t.kind = .leftBrace then readExportNames last word t typeOnly us
    else if t.isWord "default" then
      .ok (some (⟨word.start, t.stop, .default (declaredName us)⟩, us))
    else if t.kind = .equals || t.isWord "as" then .ok none
    else
      (readDeclaration last (t :: us)).map fun r => r.map fun (d, rest) =>
        (⟨word.start, word.stop, .declaration (d.names.map .same) d.typeOnly d.blockScoped⟩, rest)
  | [] => .ok none

theorem readExport_suffix {last word : Token} {ts rest : List Token} {s : Statement}
    (h : readExport last word ts = .ok (some (s, rest))) : rest <:+ ts := by
  unfold readExport at h
  have ht : (if marksTypeExport ts then ts.tail else ts) <:+ ts := by
    split
    · exact List.tail_suffix _
    · exact List.suffix_refl _
  simp only at h
  split at h
  · next t us heq =>
    rw [heq] at ht
    refine List.IsSuffix.trans ?_ ht
    split at h
    · exact (readExportAll_suffix h).trans (List.suffix_cons t us)
    · split at h
      · exact (readExportNames_suffix h).trans (List.suffix_cons t us)
      · split at h
        · cases h
          exact List.suffix_cons ..
        · split at h
          · cases h
          · obtain ⟨r, hd, h⟩ := Except.map_eq_ok_iff.1 h
            obtain ⟨⟨d, rest'⟩, rfl, h⟩ := Option.map_eq_some_iff.1 h
            cases h
            exact readDeclaration_suffix hd
  · cases h

end ScriptBundle.Statement
