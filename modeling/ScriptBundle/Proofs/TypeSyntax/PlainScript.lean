import ScriptBundle.Proofs.TypeSyntax.Balance

/-!
# No type syntax in plain scripts

The search for type syntax passes over a plain script. By induction on the grammar, each piece of a script
leaves the search as the piece around it needs it: phrases leave no trace from wherever they are met,
properties and statements none where nothing waits in their group.

* `Meets`, `meets_of_isScript`: what the search does in each piece;
* `findTypeSyntax_of_isScript`: a plain script has no type syntax.
-/

namespace ScriptBundle.TypeSyntax

open Statement (IsOptional)

/-- What the search does in a piece of a plain script. -/
def Meets : ScriptPiece → List Token → Prop
  | .phrase _, ts | .parameters, ts => Passes ts ∧ Starts ts
  | .function, ts => Passes ts ∧ Starts ts ∧ Ends ts
  | .block, ts => Passes ts ∧ Ends ts
  | .list _, ts | .initializer, ts | .body, ts | .simple, ts => Passes ts
  | .key, ts => ∀ colon, IsPunctuator .colon colon → Runs Settled id (ts ++ [colon])
  | .property _, ts | .properties _, ts => Runs Settled id ts
  | .head, ts => Runs Rests id ts
  | .statement, ts => Runs Settled id ts ∧ Ends ts
  | .statements, ts | .clauses, ts => Runs Settled id ts ∧ FreshEnd ts

/-! ### Operators and brackets -/

section Pieces

variable {k : TokenKind} {w : Text} {t opener close semicolon : Token} {ts us : List Token}

theorem IsUnary.isInert (h : IsUnary t) : IsInert t := by
  rcases h with ⟨hk, ht⟩ | ⟨hk, ht⟩
  · exact .of_operator hk fun he => absurd (he ▸ ht) (by decide)
  · have hwords : ∀ w ∈ unaryWords, w ∉ markedWords := by decide
    exact .of_name ⟨hk, hwords _ ht⟩

theorem IsSuffix.isInert (h : IsSuffix t) : IsInert t := by
  rcases h with h | h <;> exact .of_isOperator h (by decide)

theorem IsBinary.isInert (h : IsBinary t) : IsInert t := by
  rcases h with h | h | h | ⟨hk, ht⟩ | h | h
  · exact .of_kind h (by decide)
  · exact .of_kind h (by decide)
  · exact .of_kind h.1 (by decide)
  · exact .of_operator hk fun he => ht (he ▸ by decide)
  · exact .of_isWord h (by decide)
  · exact .of_isWord h (by decide)

theorem IsLiteral.isInert (h : IsLiteral t) : IsInert t := by
  rcases h with h | h | h | h <;> exact .of_kind h (by decide)

theorem isInert_of_isBinding (h : t.kind = .identifier ∧ t.text ∈ bindingWords) : IsInert t := by
  have hwords : ∀ w ∈ bindingWords, w ∉ markedWords := by decide
  exact .of_name ⟨h.1, hwords _ h.2⟩

theorem passes_optional {p : Token → Prop} (h : IsOptional p ts) (hp : ∀ t, p t → IsInert t) :
    Passes ts := by
  rcases h with rfl | ⟨t, rfl, ht⟩
  · exact passes_nil
  · exact (hp t ht).passes

theorem passes_question (h : IsOptional (·.isOperator "?.") ts) : Passes ts :=
  passes_optional h fun _ ht => .of_isOperator ht (by decide)

theorem passes_dots (h : IsOptional (·.isOperator "...") ts) : Passes ts :=
  passes_optional h fun _ ht => .of_isOperator ht (by decide)

theorem starts_of_kind (h : t.kind = k) (hk : k ≠ .colon ∧ k ≠ .rightParen ∧ k ≠ .comma)
    (ts : List Token) : Starts (t :: ts) :=
  starts_cons (by simp [marksOptional, h, hk]) ts

/-- A group in brackets, in front of which and in which the phrase is. -/
theorem passes_brackets (hk : k.isOpener) (ho : IsPunctuator k opener) (h : Passes ts)
    (hc : close.kind.isCloser) : Passes (opener :: (ts ++ [close])) :=
  passes_group hk ho (h.runs _) hc

/-- A group in braces. -/
theorem passes_braces (ho : IsPunctuator .leftBrace opener) (h : Runs Settled id ts)
    (hc : close.kind.isCloser) : Passes (opener :: (ts ++ [close])) :=
  passes_group (by decide) ho (h.mono fun _ hopened => hopened.settled (by decide)) hc

/-- The head of a statement, in its parentheses. -/
theorem passes_head (ho : IsPunctuator .leftParen opener) (h : Runs Rests id ts)
    (hc : close.kind.isCloser) : Passes (opener :: (ts ++ [close])) :=
  passes_group (by decide) ho (h.mono fun _ hopened => hopened.rests) hc

/-- The end of a statement. -/
theorem runs_semicolon_behind (h : Passes ts) (hs : IsPunctuator .semicolon semicolon) :
    Runs Settled id (ts ++ [semicolon]) := by
  refine (h.runs _).append (runs_semicolon hs) fun c c' hc hshifts _ => ?_
  rw [Rests, hshifts.group]
  exact hc.rests

theorem ends_of_isPunctuator (h : IsPunctuator k t) (hk : k ≠ .dot) (ts : List Token) : Ends (ts ++ [t]) :=
  .concat (isFresh_of_isPunctuator h hk) ts

/-- What stands behind a fresh token. -/
theorem runs_behind_fresh (front : List Token) (h : Runs Settled id (front ++ [t])) (ht : IsFresh t)
    (h' : Runs Settled id us) : Runs Settled id (front ++ t :: us) := by
  rw [List.append_cons]
  exact h.behind (.inr (.concat ht front)) h'

end Pieces

/-- The search leaves each piece of a plain script as the piece around it needs it. -/
theorem meets_of_isScript {p : ScriptPiece} {ts : List Token} (h : IsScript p ts) : Meets p ts := by
  induction h with
  | name h => exact ⟨(IsInert.of_name h).passes, starts_of_kind h.1 (by decide) _⟩
  | array ho _ hc ih =>
    exact ⟨passes_brackets (by decide) ho ih (hc.isCloser rfl), starts_of_kind ho.1 (by decide) _⟩
  | object ho _ hc ih =>
    exact ⟨passes_braces ho ih (hc.isCloser rfl), starts_of_kind ho.1 (by decide) _⟩
  | literal h =>
    refine ⟨h.isInert.passes, ?_⟩
    rcases h with h | h | h | h <;> exact starts_of_kind h (by decide) _
  | group ho _ hc ih =>
    exact ⟨passes_brackets (by decide) ho ih.1 (hc.isCloser rfl), starts_of_kind ho.1 (by decide) _⟩
  | unary ht _ ih =>
    refine ⟨ht.isInert.passes.cons ih.1, ?_⟩
    rcases ht with ht | ht <;> exact starts_of_kind ht.1 (by decide) _
  | suffixed _ ht ih => exact ⟨ih.1.append ht.isInert.passes, ih.2.append _⟩
  | binary _ ht _ ih ih' => exact ⟨ih.1.append (ht.isInert.passes.cons ih'.1), ih.2.append _⟩
  | conditional _ hm _ hc _ ih ih' ih'' =>
    exact ⟨passes_conditional ih.1 hm ih'.2 ih'.1 hc ih''.1, ih.2.append _⟩
  | member _ hd hn ih => exact ⟨ih.1.append (passes_member hd hn), ih.2.append _⟩
  | index _ hm ho _ hc ih ih' =>
    have hgroup := passes_brackets (by decide) ho ih'.1 (hc.isCloser rfl)
    exact ⟨ih.1.append ((passes_question hm).append hgroup), ih.2.append _⟩
  | call _ hm ho _ hc ih ih' =>
    have hgroup := passes_brackets (by decide) ho ih' (hc.isCloser rfl)
    exact ⟨ih.1.append ((passes_question hm).append hgroup), ih.2.append _⟩
  | arrow _ ha _ ih ih' =>
    have harrow := (IsInert.of_isOperator ha (by decide)).passes
    exact ⟨ih.1.append (harrow.cons ih'), ih.2.append _⟩
  | arrowOfName ht ha _ ih =>
    have harrow := (IsInert.of_isOperator ha (by decide)).passes
    exact ⟨(IsInert.of_name ht).passes.cons (harrow.cons ih), starts_of_kind ht.1 (by decide) _⟩
  | functionValue _ ih => exact ⟨ih.1, ih.2.1⟩
  | parameters ho _ hc ih =>
    exact ⟨passes_brackets (by decide) ho ih (hc.isCloser rfl), starts_of_kind ho.1 (by decide) _⟩
  | @block opener close ts ho _ hc ih =>
    exact ⟨passes_braces ho ih.1 (hc.isCloser rfl), ends_of_isPunctuator hc (by decide) (opener :: ts)⟩
  | bodyOfBlock _ ih => exact ih.1
  | bodyOfValue _ ih => exact ih.1
  | @function word star name ts us hw hs hn _ _ ih ih' =>
    have hword := (IsInert.of_isWord hw (by decide)).passes
    have hstar := passes_optional hs fun t ht => .of_kind ht (by decide)
    have hname := passes_optional hn fun t ht => .of_name ht
    exact ⟨hword.cons (hstar.append (hname.append (ih.1.append ih'.1))),
      starts_of_kind (Statement.kind_of_isWord hw) (by decide) _,
      (((ih'.2.append ts).append name).append star).append [word]⟩
  | noInitializer => exact passes_nil
  | initializer ht _ ih => exact (IsInert.of_kind ht (by decide)).passes.cons ih.1
  | noElement => exact passes_nil
  | gap hc _ ih => exact (IsInert.of_kind hc.1 (by decide)).passes.cons ih
  | lastElement hm _ _ ih ih' => exact (passes_dots hm).append (ih.1.append ih')
  | element hm _ _ hc _ ih ih' ih'' =>
    have hcomma := (IsInert.of_kind hc.1 (by decide)).passes
    exact (passes_dots hm).append (ih.1.append (ih'.append (hcomma.cons ih'')))
  | noProperty => exact passes_nil.runs _
  | lastProperty _ ih => exact ih
  | moreProperties _ hc _ ih ih' =>
    have hcomma : Passes _ := (IsInert.of_kind hc.1 (by decide)).passes
    have hfront := ih.append (hcomma.runs fun _ => True) fun _ _ _ _ _ => trivial
    exact runs_behind_fresh _ hfront (isFresh_of_isPunctuator hc (by decide)) ih'
  | keyed _ hc _ _ ih ih' ih'' =>
    rw [List.append_cons]
    exact (ih _ hc).append (ih'.1.append ih'') fun _ _ _ _ _ => trivial
  | short ht _ ih => exact ((IsInert.of_name ht).passes.cons ih).runs _
  | rest hm _ ih => exact ((IsInert.of_isOperator hm (by decide)).passes.cons ih.1).runs _
  | wordKey h => exact fun colon hc => runs_wordColon h hc
  | @literalKey t h =>
    intro colon hcolon
    have ht : IsInert t := h.elim (fun h => .of_kind h (by decide)) fun h => .of_kind h (by decide)
    exact runs_keyColon [] ht.passes (by rcases h with h | h <;> simp [h]) hcolon
  | @computedKey opener close ts ho _ hc ih =>
    intro colon hcolon
    have hgroup := passes_brackets (by decide) ho ih.1 (hc.isCloser rfl)
    exact runs_keyColon (opener :: ts) hgroup (by simp [hc.1]) hcolon
  | expressions _ ih => exact ih
  | declaration hw _ ih => exact (isInert_of_isBinding hw).passes.cons ih
  | test _ ih => exact ih.1.runs _
  | @steps semicolon semicolon' ts us vs _ hs _ hs' _ ih ih' ih'' =>
    have hlast := (runs_semicolon hs').behind_rests (ih''.runs _)
    have hmiddle := (runs_semicolon hs).behind_rests ((ih'.runs _).behind_rests hlast)
    exact (ih.runs _).behind_rests hmiddle
  | each _ hw _ ih ih' =>
    have hword : IsInert _ := hw.elim (fun h => .of_isWord h (by decide)) fun h => .of_isWord h (by decide)
    exact (ih.append (hword.passes.cons ih'.1)).runs _
  | simple _ hs ih => exact ⟨runs_semicolon_behind ih hs, ends_of_isPunctuator hs (by decide) _⟩
  | @jump word semicolon ts hw _ hs ih =>
    have hword : IsInert word := by
      rcases hw with hw | hw | hw | hw <;> exact .of_isWord hw (by decide)
    exact ⟨runs_semicolon_behind (hword.passes.cons ih) hs, ends_of_isPunctuator hs (by decide) (word :: ts)⟩
  | blockStatement _ ih => exact ⟨ih.1.runs _, ih.2⟩
  | functionStatement _ ih => exact ⟨ih.1.runs _, ih.2.2⟩
  | @headed word opener close ts us hw ho _ hc _ ih ih' =>
    have hword : IsInert word := by
      rcases hw with hw | hw | hw <;> exact .of_isWord hw (by decide)
    have hhead := hword.passes.cons (passes_head ho ih (hc.isCloser rfl))
    have hstatement := runs_behind_fresh (word :: opener :: ts) (hhead.runs _)
      (isFresh_of_isPunctuator hc (by decide)) ih'.1
    refine ⟨hstatement, ?_⟩
    have heq : word :: opener :: (ts ++ close :: us) = (word :: opener :: (ts ++ [close])) ++ us := by simp
    rw [heq]
    exact ih'.2.append _
  | @alternative word opener close other ts us vs hw ho _ hc _ he _ ih ih' ih'' =>
    have hhead := (IsInert.of_isWord hw (by decide)).passes.cons (passes_head ho ih (hc.isCloser rfl))
    have hstatement := runs_behind_fresh (word :: opener :: ts) (hhead.runs _)
      (isFresh_of_isPunctuator hc (by decide)) ih'.1
    have hother := (IsInert.of_isWord he (by decide)).passes.runs Settled
    have hend : Ends (word :: opener :: ts ++ close :: us) := by
      rw [List.append_cons]
      exact ih'.2.append _
    have heq : word :: opener :: (ts ++ close :: (us ++ other :: vs)) =
        (word :: opener :: ts ++ close :: us) ++ other :: vs := by simp
    rw [heq]
    refine ⟨runs_behind_fresh _ (hstatement.behind (.inr hend) hother)
      (isFresh_of_isWord he (by decide)) ih''.1, ?_⟩
    rw [List.append_cons]
    exact ih''.2.append _
  | @switch word opener close opener' close' ts us hw ho _ hc ho' _ hc' ih ih' =>
    have hhead := (IsInert.of_isWord hw (by decide)).passes.cons
      (passes_brackets (by decide) ho ih.1 (hc.isCloser rfl))
    have hclauses := passes_braces ho' ih'.1 (hc'.isCloser rfl)
    have heq : word :: opener :: (ts ++ close :: opener' :: (us ++ [close'])) =
        (word :: opener :: (ts ++ [close])) ++ opener' :: (us ++ [close']) := by simp
    rw [heq]
    exact ⟨(hhead.append hclauses).runs _,
      (ends_of_isPunctuator hc' (by decide) (opener' :: us)).append _⟩
  | @labelled t colon ts ht hc _ ih =>
    have hlabel := runs_wordColon (by rw [ht.1]; decide) hc
    exact ⟨runs_behind_fresh [t] hlabel (isFresh_of_isPunctuator hc (by decide)) ih.1,
      ih.2.append [t, colon]⟩
  | noStatement => exact ⟨passes_nil.runs _, .inl rfl⟩
  | moreStatements _ _ ih ih' => exact ⟨ih.1.behind (.inr ih.2) ih'.1, .append (.inr ih.2) ih'.2⟩
  | noClause => exact ⟨passes_nil.runs _, .inl rfl⟩
  | @caseClause word colon ts us vs hw _ hc _ _ ih ih' ih'' =>
    have hclauses := ih'.1.behind ih'.2 ih''.1
    have heq : word :: (ts ++ colon :: (us ++ vs)) = (word :: (ts ++ [colon])) ++ (us ++ vs) := by simp
    refine ⟨runs_behind_fresh (word :: ts) (runs_case hw ih.1 hc)
      (isFresh_of_isPunctuator hc (by decide)) hclauses, ?_⟩
    rw [heq]
    exact .append (.inr (ends_of_isPunctuator hc (by decide) (word :: ts))) (ih'.2.append ih''.2)
  | @defaultClause word colon us vs hw hc _ _ ih ih' =>
    have hhead := runs_wordColon (by rw [Statement.kind_of_isWord hw]; decide) hc
    refine ⟨runs_behind_fresh [word] hhead (isFresh_of_isPunctuator hc (by decide))
      (ih.1.behind ih.2 ih'.1), ?_⟩
    exact .append (.inr (ends_of_isPunctuator hc (by decide) [word])) (ih.2.append ih'.2)

/-- Without statements to remove, the search goes through all tokens. -/
theorem findFrom_nil (last : Token) (c : Context) (ts : List Token) :
    findFrom last [] c ts = findOutside last (fun _ => false) c ts := by
  induction ts generalizing c with
  | nil => rfl
  | cons t ts ih => simp [findFrom, findOutside, ih]

/-- A plain script has no type syntax. -/
theorem findTypeSyntax_of_isScript {ts : List Token} (h : IsScript .statements ts) (finish : Position) :
    findTypeSyntax ⟨ts, finish⟩ [] = none := by
  have hinitial : Settled .initial := ⟨rfl, by decide, fun t ht => by cases ht⟩
  obtain ⟨hquiet, -⟩ := (meets_of_isScript h).1 (.endOfFile finish) (fun _ => false) .initial []
    (fun _ _ => rfl) hinitial
  have hfind := findOutside_append_of_quiet hquiet
  rw [List.append_nil] at hfind
  exact (findFrom_nil _ _ _).trans hfind

/-- A token in the first line. -/
def inFirstLine (k : TokenKind) (s : Text) (offset : Nat) : Token := ⟨k, s, ⟨offset, 1, offset + 1⟩⟩

/-- A clause that returns a function: `case c ? d : 1: return ({ e: f = g }) => h;`. -/
def returningClause : List Token :=
  [inFirstLine .identifier "case" 16, inFirstLine .identifier "c" 21, inFirstLine .operator "?" 23,
    inFirstLine .identifier "d" 25, inFirstLine .colon ":" 27, inFirstLine .number "1" 29,
    inFirstLine .colon ":" 30, inFirstLine .identifier "return" 32, inFirstLine .leftParen "(" 39,
    inFirstLine .leftBrace "\x7b" 40, inFirstLine .identifier "e" 42, inFirstLine .colon ":" 43,
    inFirstLine .identifier "f" 45, inFirstLine .equals "=" 47, inFirstLine .identifier "g" 49,
    inFirstLine .rightBrace "\x7d" 51, inFirstLine .rightParen ")" 52, inFirstLine .operator "=>" 54,
    inFirstLine .identifier "h" 57, inFirstLine .semicolon ";" 58]

/-- A label in front of `switch (b)`, with the clause and a default one. -/
def labelledSwitch : List Token :=
  inFirstLine .identifier "a" 0 :: inFirstLine .colon ":" 1 :: inFirstLine .identifier "switch" 3 ::
    inFirstLine .leftParen "(" 10 :: inFirstLine .identifier "b" 11 :: inFirstLine .rightParen ")" 12 ::
    inFirstLine .leftBrace "\x7b" 14 :: (returningClause ++
      [inFirstLine .identifier "default" 60, inFirstLine .colon ":" 67, inFirstLine .rightBrace "\x7d" 69])

/-- Every colon in it is of another kind, and none is type syntax. -/
theorem findTypeSyntax_labelledSwitch :
    IsScript .statements labelledSwitch ∧ findTypeSyntax ⟨labelledSwitch, ⟨70, 1, 71⟩⟩ [] = none := by
  have hname : ∀ (r : Role) (w : Text) (i : Nat), w ∉ markedWords →
      IsScript (.phrase r) [inFirstLine .identifier w i] := fun r w i hw => .name ⟨rfl, hw⟩
  have hmark : ∀ (k : TokenKind) (i : Nat), IsPunctuator k (inFirstLine k (spelling k) i) :=
    fun k i => ⟨rfl, rfl⟩
  have hone : IsScript (.phrase .value) [inFirstLine .number "1" 29] := .literal (.inl rfl)
  have htest := IsScript.conditional (hname .value "c" 21 (by decide))
    (show (inFirstLine .operator "?" 23).isOperator "?" by decide) (hname .value "d" 25 (by decide))
    (hmark .colon 27) hone
  have hvalue := IsScript.initializer (t := inFirstLine .equals "=" 47) rfl
    (hname .value "g" 49 (by decide))
  have hkey : IsScript .key [inFirstLine .identifier "e" 42] := .wordKey rfl
  have hproperty := IsScript.keyed hkey (hmark .colon 43) (hname .target "f" 45 (by decide)) hvalue
  have hpattern := IsScript.object (hmark .leftBrace 40) (.lastProperty hproperty) (hmark .rightBrace 51)
  have hparameters := IsScript.parameters (hmark .leftParen 39)
    (.lastElement (.inl rfl) hpattern .noInitializer) (hmark .rightParen 52)
  have harrow := IsScript.arrow hparameters
    (show (inFirstLine .operator "=>" 54).isOperator "=>" by decide)
    (.bodyOfValue (hname .value "h" 57 (by decide)))
  have hreturn := IsScript.jump (.inl (show (inFirstLine .identifier "return" 32).isWord "return" by decide))
    (.lastElement (.inl rfl) harrow .noInitializer) (hmark .semicolon 58)
  have hdefault := IsScript.defaultClause
    (show (inFirstLine .identifier "default" 60).isWord "default" by decide) (hmark .colon 67) .noStatement
    .noClause
  have hclauses := IsScript.caseClause (show (inFirstLine .identifier "case" 16).isWord "case" by decide)
    htest (hmark .colon 30) (.moreStatements hreturn .noStatement) hdefault
  have hswitch := IsScript.switch (show (inFirstLine .identifier "switch" 3).isWord "switch" by decide)
    (hmark .leftParen 10) (hname .value "b" 11 (by decide)) (hmark .rightParen 12) (hmark .leftBrace 14)
    hclauses (hmark .rightBrace 69)
  have hlabelled := IsScript.labelled (t := inFirstLine .identifier "a" 0) ⟨rfl, by decide⟩
    (hmark .colon 1) hswitch
  have hscript : IsScript .statements labelledSwitch := .moreStatements hlabelled .noStatement
  exact ⟨hscript, findTypeSyntax_of_isScript hscript _⟩

end ScriptBundle.TypeSyntax
