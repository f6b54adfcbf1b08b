import ScriptBundle.Proofs.Statement.Anonymous
import ScriptBundle.TypeSyntax

/-!
# Plain scripts

A grammar of scripts without types, for lists of tokens. It has the expressions and the statements in
which a colon or a question mark has a meaning of its own: conditionals, properties, clauses of a
`switch`, labels, optional members, and the lists, functions and statements that hold them.

It is generous where that does no harm: words that are reserved may be names, lists may have gaps, and
what is bound may have a default value everywhere. So every script that has only these forms is in it.

* `IsName`: the names of a plain script, which are no words that types or clauses begin with;
* `ScriptPiece`, `IsScript`: the grammar.
-/

namespace ScriptBundle.TypeSyntax

open Statement (IsOptional)

/-- The words that a type, or a declaration of one, may begin with. -/
def typeWords : List Text :=
  reservedWords ++
    (["as", "satisfies", "type", "enum", "declare", "namespace", "module", "abstract"] : List Text)

/-- The words that a type or a clause may begin with. -/
def markedWords : List Text := typeWords ++ (["case", "default"] : List Text)

/-- The text of a punctuator. -/
def spelling : TokenKind → Text
  | .leftBrace => "\x7b"
  | .rightBrace => "\x7d"
  | .leftParen => "("
  | .rightParen => ")"
  | .leftBracket => "["
  | .rightBracket => "]"
  | .comma => ","
  | .semicolon => ";"
  | .colon => ":"
  | _ => []

/-- The token is the punctuator of the kind `k`. -/
def IsPunctuator (k : TokenKind) (t : Token) : Prop := t.kind = k ∧ t.text = spelling k

/-- A word that may be a name. -/
def IsName (t : Token) : Prop := t.kind = .identifier ∧ t.text ∉ markedWords

/-- A literal. -/
def IsLiteral (t : Token) : Prop :=
  t.kind = .number ∨ t.kind = .string ∨ t.kind = .template ∨ t.kind = .regex

/-- The words in front of an operand. -/
def unaryWords : List Text := ["typeof", "void", "delete", "new", "await", "yield", "async"]

/-- The signs in front of an operand, and behind one. -/
def unarySigns : List Text := ["!", "~", "+", "-", "++", "--"]

/-- The operators that are no binary ones. -/
def otherSigns : List Text := ["?", "?.", "=>", "...", "!", "~", "++", "--"]

/-- An operator in front of its operand. -/
def IsUnary (t : Token) : Prop :=
  (t.kind = .operator ∧ t.text ∈ unarySigns) ∨ (t.kind = .identifier ∧ t.text ∈ unaryWords)

/-- An operator behind its operand. -/
def IsSuffix (t : Token) : Prop := t.isOperator "++" ∨ t.isOperator "--"

/-- An operator between its operands; an assignment is one, and so is the comma of a sequence. -/
def IsBinary (t : Token) : Prop :=
  t.kind = .star ∨ t.kind = .equals ∨ IsPunctuator .comma t ∨
    (t.kind = .operator ∧ t.text ∉ otherSigns) ∨ t.isWord "in" ∨ t.isWord "instanceof"

/-- Whether a phrase is evaluated, or bound to a value. -/
inductive Role
  | value
  | target

/-- The pieces of a script. -/
inductive ScriptPiece
  /-- An expression, or a name or a pattern that is bound. -/
  | phrase (r : Role)
  /-- Phrases with commas between them: elements, arguments, parameters, or declared names. -/
  | list (r : Role)
  /-- The properties between the braces of an object or of a pattern. -/
  | properties (r : Role)
  /-- One of them. -/
  | property (r : Role)
  /-- The name of a property. -/
  | key
  /-- A value that is given to what is bound, or none. -/
  | initializer
  /-- The parameters of a function, in their parentheses. -/
  | parameters
  /-- Statements between braces. -/
  | block
  /-- What stands behind an arrow. -/
  | body
  /-- A function that starts with the word for it. -/
  | function
  /-- Expressions, or a declaration. -/
  | simple
  /-- What stands in the parentheses behind `if`, `for` or `while`. -/
  | head
  | statement
  | statements
  /-- The clauses of a `switch`. -/
  | clauses

/-- The tokens are a piece of a plain script. -/
inductive IsScript : ScriptPiece → List Token → Prop
  -- Phrases.
  | name {r : Role} {t : Token} (h : IsName t) : IsScript (.phrase r) [t]
  | array {r : Role} {opener close : Token} {ts : List Token} (ho : IsPunctuator .leftBracket opener)
      (h : IsScript (.list r) ts) (hc : IsPunctuator .rightBracket close) :
      IsScript (.phrase r) (opener :: (ts ++ [close]))
  | object {r : Role} {opener close : Token} {ts : List Token} (ho : IsPunctuator .leftBrace opener)
      (h : IsScript (.properties r) ts) (hc : IsPunctuator .rightBrace close) :
      IsScript (.phrase r) (opener :: (ts ++ [close]))
  | literal {t : Token} (h : IsLiteral t) : IsScript (.phrase .value) [t]
  | group {opener close : Token} {ts : List Token} (ho : IsPunctuator .leftParen opener)
      (h : IsScript (.phrase .value) ts) (hc : IsPunctuator .rightParen close) :
      IsScript (.phrase .value) (opener :: (ts ++ [close]))
  | unary {t : Token} {ts : List Token} (ht : IsUnary t) (h : IsScript (.phrase .value) ts) :
      IsScript (.phrase .value) (t :: ts)
  | suffixed {t : Token} {ts : List Token} (h : IsScript (.phrase .value) ts) (ht : IsSuffix t) :
      IsScript (.phrase .value) (ts ++ [t])
  | binary {t : Token} {ts us : List Token} (h : IsScript (.phrase .value) ts) (ht : IsBinary t)
      (h' : IsScript (.phrase .value) us) : IsScript (.phrase .value) (ts ++ t :: us)
  | conditional {mark colon : Token} {ts us vs : List Token} (h : IsScript (.phrase .value) ts)
      (hm : mark.isOperator "?") (h' : IsScript (.phrase .value) us) (hc : IsPunctuator .colon colon)
      (h'' : IsScript (.phrase .value) vs) :
      IsScript (.phrase .value) (ts ++ mark :: (us ++ colon :: vs))
  | member {dot name : Token} {ts : List Token} (h : IsScript (.phrase .value) ts)
      (hd : dot.kind = .dot ∨ dot.isOperator "?.") (hn : name.kind.isWordKind) :
      IsScript (.phrase .value) (ts ++ [dot, name])
  | index {opener close : Token} {ts mark us : List Token} (h : IsScript (.phrase .value) ts)
      (hm : IsOptional (·.isOperator "?.") mark) (ho : IsPunctuator .leftBracket opener)
      (hu : IsScript (.phrase .value) us) (hc : IsPunctuator .rightBracket close) :
      IsScript (.phrase .value) (ts ++ (mark ++ opener :: (us ++ [close])))
  | call {opener close : Token} {ts mark us : List Token} (h : IsScript (.phrase .value) ts)
      (hm : IsOptional (·.isOperator "?.") mark) (ho : IsPunctuator .leftParen opener)
      (hu : IsScript (.list .value) us) (hc : IsPunctuator .rightParen close) :
      IsScript (.phrase .value) (ts ++ (mark ++ opener :: (us ++ [close])))
  | arrow {arrow : Token} {ts us : List Token} (h : IsScript .parameters ts) (ha : arrow.isOperator "=>")
      (h' : IsScript .body us) : IsScript (.phrase .value) (ts ++ arrow :: us)
  | arrowOfName {t arrow : Token} {us : List Token} (ht : IsName t) (ha : arrow.isOperator "=>")
      (h' : IsScript .body us) : IsScript (.phrase .value) (t :: arrow :: us)
  | functionValue {ts : List Token} (h : IsScript .function ts) : IsScript (.phrase .value) ts
  -- Functions.
  | parameters {opener close : Token} {ts : List Token} (ho : IsPunctuator .leftParen opener)
      (h : IsScript (.list .target) ts) (hc : IsPunctuator .rightParen close) :
      IsScript .parameters (opener :: (ts ++ [close]))
  | block {opener close : Token} {ts : List Token} (ho : IsPunctuator .leftBrace opener)
      (h : IsScript .statements ts) (hc : IsPunctuator .rightBrace close) :
      IsScript .block (opener :: (ts ++ [close]))
  | bodyOfBlock {ts : List Token} (h : IsScript .block ts) : IsScript .body ts
  | bodyOfValue {ts : List Token} (h : IsScript (.phrase .value) ts) : IsScript .body ts
  | function {word : Token} {star name ts us : List Token} (hw : word.isWord "function")
      (hs : IsOptional (·.kind = .star) star) (hn : IsOptional IsName name) (h : IsScript .parameters ts)
      (h' : IsScript .block us) : IsScript .function (word :: (star ++ (name ++ (ts ++ us))))
  -- Lists.
  | noInitializer : IsScript .initializer []
  | initializer {t : Token} {ts : List Token} (ht : t.kind = .equals)
      (h : IsScript (.phrase .value) ts) : IsScript .initializer (t :: ts)
  | noElement {r : Role} : IsScript (.list r) []
  | gap {r : Role} {comma : Token} {ts : List Token} (hc : IsPunctuator .comma comma)
      (h : IsScript (.list r) ts) : IsScript (.list r) (comma :: ts)
  | lastElement {r : Role} {mark ts us : List Token} (hm : IsOptional (·.isOperator "...") mark)
      (h : IsScript (.phrase r) ts) (hi : IsScript .initializer us) :
      IsScript (.list r) (mark ++ (ts ++ us))
  | element {r : Role} {comma : Token} {mark ts us vs : List Token}
      (hm : IsOptional (·.isOperator "...") mark) (h : IsScript (.phrase r) ts)
      (hi : IsScript .initializer us) (hc : IsPunctuator .comma comma) (h' : IsScript (.list r) vs) :
      IsScript (.list r) (mark ++ (ts ++ (us ++ comma :: vs)))
  -- Properties.
  | noProperty {r : Role} : IsScript (.properties r) []
  | lastProperty {r : Role} {ts : List Token} (h : IsScript (.property r) ts) :
      IsScript (.properties r) ts
  | moreProperties {r : Role} {comma : Token} {ts us : List Token} (h : IsScript (.property r) ts)
      (hc : IsPunctuator .comma comma) (h' : IsScript (.properties r) us) :
      IsScript (.properties r) (ts ++ comma :: us)
  | keyed {r : Role} {colon : Token} {ts us vs : List Token} (h : IsScript .key ts)
      (hc : IsPunctuator .colon colon) (h' : IsScript (.phrase r) us) (hi : IsScript .initializer vs) :
      IsScript (.property r) (ts ++ colon :: (us ++ vs))
  | short {r : Role} {t : Token} {ts : List Token} (ht : IsName t) (hi : IsScript .initializer ts) :
      IsScript (.property r) (t :: ts)
  | rest {r : Role} {mark : Token} {ts : List Token} (hm : mark.isOperator "...")
      (h : IsScript (.phrase r) ts) : IsScript (.property r) (mark :: ts)
  | wordKey {t : Token} (h : t.kind.isWordKind) : IsScript .key [t]
  | literalKey {t : Token} (h : t.kind = .string ∨ t.kind = .number) : IsScript .key [t]
  | computedKey {opener close : Token} {ts : List Token} (ho : IsPunctuator .leftBracket opener)
      (h : IsScript (.phrase .value) ts) (hc : IsPunctuator .rightBracket close) :
      IsScript .key (opener :: (ts ++ [close]))
  -- Statements.
  | expressions {ts : List Token} (h : IsScript (.list .value) ts) : IsScript .simple ts
  | declaration {word : Token} {ts : List Token} (hw : word.kind = .identifier ∧ word.text ∈ bindingWords)
      (h : IsScript (.list .target) ts) : IsScript .simple (word :: ts)
  | test {ts : List Token} (h : IsScript (.phrase .value) ts) : IsScript .head ts
  | steps {semicolon semicolon' : Token} {ts us vs : List Token} (h : IsScript .simple ts)
      (hs : IsPunctuator .semicolon semicolon) (h' : IsScript (.list .value) us)
      (hs' : IsPunctuator .semicolon semicolon') (h'' : IsScript (.list .value) vs) :
      IsScript .head (ts ++ semicolon :: (us ++ semicolon' :: vs))
  | each {word : Token} {ts us : List Token} (h : IsScript .simple ts)
      (hw : word.isWord "of" ∨ word.isWord "in") (h' : IsScript (.phrase .value) us) :
      IsScript .head (ts ++ word :: us)
  | simple {semicolon : Token} {ts : List Token} (h : IsScript .simple ts)
      (hs : IsPunctuator .semicolon semicolon) : IsScript .statement (ts ++ [semicolon])
  | jump {word semicolon : Token} {ts : List Token}
      (hw : word.isWord "return" ∨ word.isWord "throw" ∨ word.isWord "break" ∨ word.isWord "continue")
      (h : IsScript (.list .value) ts) (hs : IsPunctuator .semicolon semicolon) :
      IsScript .statement (word :: (ts ++ [semicolon]))
  | blockStatement {ts : List Token} (h : IsScript .block ts) : IsScript .statement ts
  | functionStatement {ts : List Token} (h : IsScript .function ts) : IsScript .statement ts
  | headed {word opener close : Token} {ts us : List Token}
      (hw : word.isWord "if" ∨ word.isWord "for" ∨ word.isWord "while")
      (ho : IsPunctuator .leftParen opener) (h : IsScript .head ts) (hc : IsPunctuator .rightParen close)
      (h' : IsScript .statement us) : IsScript .statement (word :: opener :: (ts ++ close :: us))
  | alternative {word opener close other : Token} {ts us vs : List Token} (hw : word.isWord "if")
      (ho : IsPunctuator .leftParen opener) (h : IsScript .head ts) (hc : IsPunctuator .rightParen close)
      (h' : IsScript .statement us) (he : other.isWord "else") (h'' : IsScript .statement vs) :
      IsScript .statement (word :: opener :: (ts ++ close :: (us ++ other :: vs)))
  | switch {word opener close opener' close' : Token} {ts us : List Token} (hw : word.isWord "switch")
      (ho : IsPunctuator .leftParen opener) (h : IsScript (.phrase .value) ts)
      (hc : IsPunctuator .rightParen close) (ho' : IsPunctuator .leftBrace opener')
      (h' : IsScript .clauses us) (hc' : IsPunctuator .rightBrace close') :
      IsScript .statement (word :: opener :: (ts ++ close :: opener' :: (us ++ [close'])))
  | labelled {t colon : Token} {ts : List Token} (ht : IsName t) (hc : IsPunctuator .colon colon)
      (h : IsScript .statement ts) : IsScript .statement (t :: colon :: ts)
  | noStatement : IsScript .statements []
  | moreStatements {ts us : List Token} (h : IsScript .statement ts) (h' : IsScript .statements us) :
      IsScript .statements (ts ++ us)
  | noClause : IsScript .clauses []
  | caseClause {word colon : Token} {ts us vs : List Token} (hw : word.isWord "case")
      (h : IsScript (.phrase .value) ts) (hc : IsPunctuator .colon colon) (h' : IsScript .statements us)
      (h'' : IsScript .clauses vs) : IsScript .clauses (word :: (ts ++ colon :: (us ++ vs)))
  | defaultClause {word colon : Token} {us vs : List Token} (hw : word.isWord "default")
      (hc : IsPunctuator .colon colon) (h' : IsScript .statements us) (h'' : IsScript .clauses vs) :
      IsScript .clauses (word :: colon :: (us ++ vs))

end ScriptBundle.TypeSyntax
