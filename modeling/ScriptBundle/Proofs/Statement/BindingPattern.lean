import ScriptBundle.Proofs.Statement.Value

/-!
# The names of binding patterns

A binding pattern is a name, or a group of elements that are patterns again. The walk over a pattern
keeps the open groups on a stack and finds the names in the order of the source: the keys of properties,
computed ones too, the default values and the holes of arrays bind nothing.

* `Binds`: the grammar of binding patterns, with the names that they bind;
* `Walks`: what the walk does with a piece of a pattern, for each kind of piece;
* `walks_of_binds`: it does so with every piece;
* `BindsDeclarator`: a binding pattern with an optional initializer;
* `readStatement_of_patterns`: an exported declaration is recorded with the names of its patterns.
-/

namespace ScriptBundle.Statement

/-- A name that a declaration can bind. The word `enum` is none. -/
def IsName (t : Token) : Prop := t.kind = .identifier ∧ t.text ≠ "enum"

/-- The key of a property: a word, a string, a number, or an expression in brackets. -/
inductive IsKey : List Token → Prop
  | literal {t : Token} (ht : t.kind = .identifier ∨ t.isKeyword ∨ t.kind = .string ∨
      t.kind = .number) : IsKey [t]
  | computed {opener close : Token} {ts : List Token} (ho : opener.kind = .leftBracket)
      (hc : close.kind = .rightBracket) (h : Nested ts) : IsKey (opener :: (ts ++ [close]))

/-- A default value or an initializer. -/
abbrev IsDefault : List Token → Prop := Assigned IsValue

/-- The pieces of a binding pattern. The elements of an object pattern and those of an array pattern
have the kind of their opening bracket. -/
inductive PatternPiece
  | pattern
  | element (opener : TokenKind)
  | elements (opener : TokenKind)

/-- The pieces of binding patterns, and the names that they bind, in the order of the source. -/
inductive Binds : PatternPiece → List Token → List Text → Prop
  | name {t : Token} (ht : IsName t) : Binds .pattern [t] [t.text]
  | group {opener close : Token} {ts : List Token} {names : List Text}
      (ho : opener.kind = .leftBrace ∨ opener.kind = .leftBracket)
      (hc : close.kind = closing opener) (h : Binds (.elements opener.kind) ts names) :
      Binds .pattern (opener :: (ts ++ [close])) names
  | shorthand {t : Token} {ds : List Token} (ht : IsName t) (hd : IsDefault ds) :
      Binds (.element .leftBrace) (t :: ds) [t.text]
  | keyed {ks ps ds : List Token} {colon : Token} {names : List Text} (hk : IsKey ks)
      (hc : colon.kind = .colon) (hp : Binds .pattern ps names) (hd : IsDefault ds) :
      Binds (.element .leftBrace) (ks ++ colon :: (ps ++ ds)) names
  | item {ps ds : List Token} {names : List Text} (hp : Binds .pattern ps names)
      (hd : IsDefault ds) : Binds (.element .leftBracket) (ps ++ ds) names
  | rest {k : TokenKind} {dots : Token} {ps : List Token} {names : List Text}
      (hdots : dots.isOperator "...") (hp : Binds .pattern ps names) :
      Binds (.element k) (dots :: ps) names
  | none {k : TokenKind} : Binds (.elements k) [] []
  | one {k : TokenKind} {ts : List Token} {names : List Text} (h : Binds (.element k) ts names) :
      Binds (.elements k) ts names
  | hole {comma : Token} {ts : List Token} {names : List Text} (hc : comma.kind = .comma)
      (h : Binds (.elements .leftBracket) ts names) :
      Binds (.elements .leftBracket) (comma :: ts) names
  | cons {k : TokenKind} {ts us : List Token} {comma : Token} {names more : List Text}
      (h : Binds (.element k) ts names) (hc : comma.kind = .comma)
      (hr : Binds (.elements k) us more) :
      Binds (.elements k) (ts ++ comma :: us) (names ++ more)

/-! ### The walk -/

/-- The names with more of them in front. -/
def Names.prepend (names : List Text) (r : Names) : Names := (names ++ r.1, r.2)

section Walk

variable {last g t u key : Token} {gs ts ds ks rest : List Token} {names more : List Text}

theorem Names.map_prepend_prepend (x : Except StatementFault Names) :
    (x.map (Names.prepend more)).map (Names.prepend names) =
      x.map (Names.prepend (names ++ more)) := by
  cases x with
  | error e => rfl
  | ok r => exact congrArg Except.ok (Prod.ext (List.append_assoc ..).symm rfl)

theorem Names.map_prepend_nil (x : Except StatementFault Names) :
    x.map (Names.prepend []) = x := by
  cases x <;> rfl

/-- What the walk does with a piece of a pattern. It goes on behind a pattern and its default value as
behind any element, and it takes elements up to the bracket that closes them. -/
def Walks (last : Token) : PatternPiece → List Token → List Text → Prop
  | .pattern, ts, names => ∀ groups rest,
    walkPattern last .target groups (ts ++ rest) =
      (walkPattern last .element groups (dropDefault groups rest)).map (.prepend names)
  | .element k, ts, names => ∀ g gs u rest, g.kind = k → u.kind = .comma ∨ u.kind = closing g →
    walkPattern last .element (g :: gs) (ts ++ u :: rest) =
      (walkPattern last .element (g :: gs) (u :: rest)).map (.prepend names)
  | .elements k, ts, names => ∀ g gs u rest, g.kind = k → u.kind = closing g →
    walkPattern last .element (g :: gs) (ts ++ u :: rest) =
      (walkPattern last .element gs (dropDefault gs rest)).map (.prepend names)

/-- A default value is passed over up to what follows it. -/
theorem dropDefault_assigned (h : IsDefault ds) (hu : u.kind = .comma ∨ u.kind = closing g)
    (gs rest : List Token) :
    dropDefault (g :: gs) (ds ++ u :: rest) = u :: rest := by
  cases h with
  | none =>
    have hne : u.kind ≠ .equals := by
      rcases hu with hu | hu
      · simp [hu]
      · rw [hu]
        unfold closing
        split <;> simp
    exact if_neg hne
  | @value mark value hm hv =>
    have hcloser : (closing g).isCloser := by
      unfold closing
      split <;> rfl
    rw [List.cons_append, dropDefault, if_pos hm]
    refine dropExpression_value hv (fun k hk => ?_) hm (.inl (by simpa using hu)) rest
    simp only [Bool.or_eq_true, decide_eq_true_eq] at hk
    rcases hk with rfl | rfl
    · exact .inl rfl
    · exact .inr (.inr hcloser)

/-- A group is passed over with the bracket that closes it. -/
theorem dropGroup_of_openBehind {st : List TokenKind} (h : openBehind st ts = some [])
    (hu : u.kind.isCloser) (rest : List Token) :
    dropGroup (st.length + 1) (ts ++ u :: rest) = some (u, rest) := by
  induction ts generalizing st with
  | nil =>
    cases h
    simp [dropGroup, not_isOpener_of_isCloser hu, hu]
  | cons t ts ih =>
    obtain ⟨mid, hmid, hrest⟩ := exists_of_openBehind_cons h
    rw [List.cons_append, dropGroup]
    rcases token_cases t with ht | ht | ht
    · rw [openedBy_opener ht] at hmid
      cases hmid
      rw [if_pos ht]
      exact ih hrest
    · obtain rfl : st = t.kind :: mid := (openedBy_closer ht).1 hmid
      rw [if_neg (by simp [not_isOpener_of_isCloser ht]), if_pos ht, if_neg (by simp)]
      exact ih hrest
    · rw [openedBy_plain ht] at hmid
      cases hmid
      simp only [Token.isPlain, Bool.and_eq_true, Bool.not_eq_true'] at ht
      rw [if_neg (by simp [ht.1]), if_neg (by simp [ht.2])]
      exact ih hrest

/-- Behind the key of a property the colon follows, or what else stands there. -/
theorem IsKey.exists_cons (h : IsKey ks) :
    ∃ t us, ks = t :: us ∧ t.kind ≠ .rightBrace ∧ t.kind ≠ .comma ∧ t.kind ≠ .operator ∧
      ∀ rest, afterKey? t (us ++ rest) = some rest := by
  cases h with
  | @literal t ht =>
    have hkind : t.kind = .identifier ∨ t.kind = .importWord ∨ t.kind = .exportWord ∨
        t.kind = .string ∨ t.kind = .number := by
      simpa [Token.isKeyword, or_assoc] using ht
    refine ⟨t, [], rfl, ?_⟩
    rcases hkind with hk | hk | hk | hk | hk <;> simp [afterKey?, hk]
  | @computed opener close ts ho hc h =>
    refine ⟨opener, ts ++ [close], rfl, by simp [ho], by simp [ho], by simp [ho], fun rest => ?_⟩
    have hgroup := dropGroup_of_openBehind h (u := close) (by rw [hc]; rfl) rest
    rw [afterKey?, if_pos ho, List.append_assoc, List.singleton_append]
    exact congrArg (Option.map (·.2)) hgroup

/-- A pattern starts with a name or with the bracket of a group. -/
theorem Binds.exists_cons {p : PatternPiece} (h : Binds p ts names) (hp : p = .pattern) :
    ∃ t us, ts = t :: us ∧ (t.kind = .identifier ∨ t.kind = .leftBrace ∨ t.kind = .leftBracket) := by
  cases h with
  | name ht => exact ⟨_, _, rfl, .inl ht.1⟩
  | group ho => exact ⟨_, _, rfl, .inr ho⟩
  | _ => cases hp

/-- What the walk does with a property of an object pattern. -/
theorem walkPattern_property (hg : g.kind = .leftBrace) (hclose : t.kind ≠ .rightBrace)
    (hcomma : t.kind ≠ .comma) (hdots : t.kind ≠ .operator) (hkey : afterKey? t ts = some (u :: rest)) :
    walkPattern last .element (g :: gs) (t :: ts) =
      if u.kind = .colon then walkPattern last .target (g :: gs) rest
      else (walkPattern last .element (g :: gs) (dropDefault (g :: gs) (u :: rest))).map
        (.cons t.text) := by
  have hclosing : closing g = .rightBrace := if_pos hg
  have hoperator : t.isOperator "..." = false := by simp [Token.isOperator, hdots]
  rw [walkPattern_element, hclosing, if_neg hclose, if_neg hcomma, hoperator, if_neg (by simp),
    if_pos hg, hkey]

/-- The walk takes every piece of a binding pattern, with its names. -/
theorem walks_of_binds {p : PatternPiece} (h : Binds p ts names) : Walks last p ts names := by
  induction h with
  | @name t ht =>
    intro groups rest
    rw [List.singleton_append, walkPattern, if_pos ht.1]
    rfl
  | @group opener close ts names ho hc h ih =>
    intro groups rest
    have hname : opener.kind ≠ .identifier := by
      rcases ho with ho | ho <;> simp [ho]
    rw [List.cons_append, List.append_assoc, walkPattern, if_neg hname, if_pos (by simpa using ho)]
    exact ih opener groups close rest rfl hc
  | @shorthand t ds ht hd =>
    intro g gs u rest hg hu
    have hdrop := dropDefault_assigned hd hu gs rest
    obtain ⟨v, vs, hvs, hcolon⟩ : ∃ v vs, ds ++ u :: rest = v :: vs ∧ v.kind ≠ .colon := by
      cases hd with
      | none =>
        refine ⟨u, rest, rfl, ?_⟩
        rcases hu with hu | hu <;> simp [hu, closing, hg]
      | value hm => exact ⟨_, _, rfl, by simp [hm]⟩
    have hkey : afterKey? t (v :: vs) = some (v :: vs) := by simp [afterKey?, ht.1]
    rw [hvs] at hdrop
    rw [List.cons_append, hvs, walkPattern_property hg (by simp [ht.1]) (by simp [ht.1])
      (by simp [ht.1]) hkey, if_neg hcolon, hdrop]
    rfl
  | @keyed ks ps ds colon names hk hc hp hd ih =>
    intro g gs u rest hg hu
    obtain ⟨t, us, rfl, hclose, hcomma, hdots, hkey⟩ := hk.exists_cons
    simp only [List.cons_append, List.append_assoc]
    rw [walkPattern_property hg hclose hcomma hdots (hkey _), if_pos hc, ih (g :: gs),
      dropDefault_assigned hd hu gs rest]
  | @item ps ds names hp hd ih =>
    intro g gs u rest hg hu
    obtain ⟨t, us, rfl, ht⟩ := hp.exists_cons rfl
    have htarget : walkPattern last .element (g :: gs) (t :: us ++ (ds ++ u :: rest)) =
        walkPattern last .target (g :: gs) (t :: us ++ (ds ++ u :: rest)) := by
      have hclosing : closing g = .rightBracket := if_neg (by simp [hg])
      rw [List.cons_append, walkPattern_element, hclosing]
      rcases ht with ht | ht | ht <;> simp [ht, hg, Token.isOperator]
    rw [List.append_assoc, htarget, ih (g :: gs), dropDefault_assigned hd hu gs rest]
  | @rest k dots ps names hdots hp ih =>
    intro g gs u rest hg hu
    have hoperator := kind_of_isOperator hdots
    have hclosing : dots.kind ≠ closing g := by
      rw [hoperator, closing]
      split <;> simp
    have hcomma : dots.kind ≠ .comma := by simp [hoperator]
    rw [List.cons_append, walkPattern_element, if_neg hclosing, if_neg hcomma, if_pos hdots,
      ih (g :: gs)]
    have hdrop := dropDefault_assigned (.none : IsDefault []) hu gs rest
    rw [List.nil_append] at hdrop
    rw [hdrop]
  | @none k =>
    intro g gs u rest hg hu
    rw [List.nil_append, walkPattern_element, if_pos hu, Names.map_prepend_nil]
  | @one k ts names h ih =>
    intro g gs u rest hg hu
    rw [ih g gs u rest hg (.inr hu), walkPattern_element, if_pos hu]
  | @hole comma ts names hc h ih =>
    intro g gs u rest hg hu
    have hclosing : comma.kind ≠ closing g := by simp [hc, closing, hg]
    rw [List.cons_append, walkPattern_element, if_neg hclosing, if_pos hc]
    exact ih g gs u rest hg hu
  | @cons k ts us comma names more h hc hr ih ihr =>
    intro g gs u rest hg hu
    have hclosing : comma.kind ≠ closing g := by
      rw [hc, closing]
      split <;> simp
    rw [List.append_assoc, List.cons_append, ih g gs comma _ hg (.inl hc), walkPattern_element,
      if_neg hclosing, if_pos hc, ihr g gs u rest hg hu, Names.map_prepend_prepend]

/-- The names of a binding pattern, whatever follows it. -/
theorem patternNames_of_binds (h : Binds .pattern ts names) (rest : List Token) :
    patternNames last (ts ++ rest) = .ok (names, rest) := by
  have hwalk : Walks last .pattern ts names := walks_of_binds h
  have hdrop : dropDefault [] rest = rest := rfl
  rw [patternNames, hwalk [] rest, hdrop, walkPattern]
  exact congrArg (fun ns => Except.ok (ns, rest)) (List.append_nil names)

end Walk

/-! ### Declarators -/

/-- A binding pattern with an optional initializer of the form `E`. -/
def BindsDeclarator (E : List Token → Prop) (ts : List Token) (names : List Text) : Prop :=
  ∃ ps vs, ts = ps ++ vs ∧ Binds .pattern ps names ∧ Assigned E vs

section Declarator

variable {last word keyword semicolon u : Token} {before? : Option Token}
  {ts vs rest after : List Token} {names : List Text}

/-- Nothing in front of a comma or a semicolon, and no initializer, is an annotation. -/
theorem dropTypePart_of_kind (hu : u.kind = .equals ∨ u.kind = .comma ∨ u.kind = .semicolon)
    (rest : List Token) : dropTypePart (dropDefinite (u :: rest)) = u :: rest := by
  have hdefinite : u.isOperator "!" = false := by
    rcases hu with hu | hu | hu <;> simp [Token.isOperator, hu]
  have hcolon : u.kind ≠ .colon := by
    rcases hu with hu | hu | hu <;> simp [hu]
  rw [dropDefinite, hdefinite, if_neg (by simp), dropTypePart, if_neg hcolon]

theorem endsInitializer_cases : ∀ k, endsInitializer k → k = .comma ∨ k = .semicolon ∨ k.isCloser := by
  intro k hk
  simp only [endsInitializer, Bool.or_eq_true, decide_eq_true_eq] at hk
  rcases hk with hk | hk
  · exact .inl hk
  · exact .inr (.inl hk)

/-- An initializer is passed over up to what follows it. -/
theorem dropInitializer_assigned (h : IsDefault vs) (hu : u.kind = .comma ∨ u.kind = .semicolon)
    (rest : List Token) : dropInitializer (vs ++ u :: rest) = u :: rest := by
  cases h with
  | none =>
    have hne : u.kind ≠ .equals := by
      rcases hu with hu | hu <;> simp [hu]
    exact if_neg hne
  | @value mark value hm hv =>
    rw [List.cons_append, dropInitializer, if_pos hm]
    refine dropExpression_value hv endsInitializer_cases hm (.inl ?_) rest
    rcases hu with hu | hu <;> rw [hu] <;> rfl

/-- Behind a pattern an initializer is passed over up to what follows it. -/
theorem afterDeclarator_assigned (h : IsDefault vs) (hu : u.kind = .comma ∨ u.kind = .semicolon)
    (rest : List Token) : afterDeclarator (vs ++ u :: rest) = u :: rest := by
  have hplain : dropTypePart (dropDefinite (vs ++ u :: rest)) = vs ++ u :: rest := by
    cases h with
    | none => exact dropTypePart_of_kind (.inr hu) rest
    | value hm => exact dropTypePart_of_kind (.inl hm) _
  rw [afterDeclarator, hplain, dropInitializer_assigned h hu]

/-- A binding pattern does not start with the word `enum`. -/
theorem Binds.isWord_enum {ps : List Token} (h : Binds .pattern ps names) :
    ∃ t us, ps = t :: us ∧ t.isWord "enum" = false := by
  cases h with
  | name ht => exact ⟨_, _, rfl, by simp [Token.isWord, ht.2]⟩
  | group ho =>
    refine ⟨_, _, rfl, ?_⟩
    rcases ho with ho | ho <;> simp [Token.isWord, ho]

/-- Declarators do not start with the word `enum`. -/
theorem wordAhead_of_bindsDeclarators {E : List Token → Prop}
    (h : Declarators (BindsDeclarator E) ts names) (rest : List Token) :
    wordAhead "enum" (ts ++ rest) = false := by
  refine wordAhead_of_declarators ?_ h rest
  rintro _ names ⟨ps, vs, rfl, hp, -⟩
  obtain ⟨t, us, rfl, ht⟩ := hp.isWord_enum
  exact ⟨t, us ++ vs, rfl, ht⟩

/-- An exported declaration of binding patterns is recorded with the names of the patterns, in their
order, and the scanner goes on at its semicolon. -/
theorem readStatement_of_patterns (hbefore : before?.any (·.selectsMember) = false)
    (hword : word.kind = .exportWord) (hkeyword : isVariableWord keyword)
    (h : Declarators (BindsDeclarator IsValue) ts names) (hs : semicolon.kind = .semicolon)
    (after : List Token) :
    readStatement last word (keyword :: (ts ++ semicolon :: after)) =
        .ok (some (variableExport word keyword names, semicolon :: after)) ∧
      scanFrom last before? 0 (word :: keyword :: (ts ++ semicolon :: after)) =
        (scanFrom last (some semicolon) 0 after).map (variableExport word keyword names :: ·) := by
  have hnames : declaratorNames last (ts ++ semicolon :: after) = .ok (names, semicolon :: after) := by
    refine declaratorNames_of_declarators ?_ h hs after
    rintro _ names ⟨ps, vs, rfl, hp, hv⟩ u rest hu
    rw [List.append_assoc]
    exact ⟨_, patternNames_of_binds hp _, afterDeclarator_assigned hv hu rest⟩
  have henum := wordAhead_of_bindsDeclarators h (semicolon :: after)
  exact ⟨readStatement_of_declaratorNames hword hkeyword henum hnames,
    scanFrom_of_declarators hbefore hword hkeyword henum hs hnames⟩

/-- Patterns with a renamed property, a hole, a default value, and a rest. -/
theorem readStatement_of_nestedPatterns :
    ∃ word keyword ts semicolon last,
      (tokenize "export let \x7ba: [, b = 1], ...c\x7d = d, e;").toOption.map (·.toList) =
        some (word :: keyword :: (ts ++ semicolon :: []) ++ [last]) ∧
      (none : Option Token).any (·.selectsMember) = false ∧ word.kind = .exportWord ∧
      isVariableWord keyword ∧ Declarators (BindsDeclarator IsValue) ts ["b", "c", "e"] ∧
      semicolon.kind = .semicolon ∧
      readStatement last word (keyword :: (ts ++ semicolon :: [])) =
        .ok (some (variableExport word keyword ["b", "c", "e"], [semicolon])) := by
  have name : ∀ (w : Text) (n : Nat), w ≠ "enum" →
      Binds .pattern [onFirstLine .identifier w n] [w] := fun w n hw => .name ⟨rfl, hw⟩
  have hone : IsDefault [onFirstLine .equals "=" 20, onFirstLine .number "1" 22] :=
    .value rfl (isValue_of_forall 1 (by decide) (by decide))
  have harray : Binds .pattern (onFirstLine .leftBracket "[" 15 ::
      ((onFirstLine .comma "," 16 :: ([onFirstLine .identifier "b" 18] ++
        [onFirstLine .equals "=" 20, onFirstLine .number "1" 22])) ++
      [onFirstLine .rightBracket "]" 23])) ["b"] :=
    .group (.inr rfl) rfl (.hole rfl (.one (.item (name "b" 18 (by decide)) hone)))
  have hobject : Binds .pattern (onFirstLine .leftBrace "\x7b" 11 ::
      ((([onFirstLine .identifier "a" 12] ++ onFirstLine .colon ":" 13 ::
          (onFirstLine .leftBracket "[" 15 ::
            ((onFirstLine .comma "," 16 :: ([onFirstLine .identifier "b" 18] ++
              [onFirstLine .equals "=" 20, onFirstLine .number "1" 22])) ++
            [onFirstLine .rightBracket "]" 23]) ++ [])) ++ onFirstLine .comma "," 24 ::
        [onFirstLine .operator "..." 26, onFirstLine .identifier "c" 29]) ++
      [onFirstLine .rightBrace "\x7d" 30])) ([Text.ofString "b"] ++ [Text.ofString "c"]) :=
    .group (.inl rfl) rfl (.cons (.keyed (.literal (.inl rfl)) rfl harray .none) rfl
      (.one (.rest rfl (name "c" 29 (by decide)))))
  have hd : IsDefault [onFirstLine .equals "=" 32, onFirstLine .identifier "d" 34] :=
    .value rfl (isValue_of_forall 1 (by decide) (by decide))
  have he : BindsDeclarator IsValue [onFirstLine .identifier "e" 37] ["e"] :=
    ⟨_, [], rfl, name "e" 37 (by decide), .none⟩
  have hcomma : (onFirstLine .comma "," 35).kind = .comma := rfl
  have hfirst : BindsDeclarator IsValue _ _ := ⟨_, _, rfl, hobject, hd⟩
  have hall := Declarators.cons hfirst hcomma (.one he)
  have hbefore : (none : Option Token).any (·.selectsMember) = false := rfl
  refine ⟨onFirstLine .exportWord "export" 0, onFirstLine .identifier "let" 7, _,
    onFirstLine .semicolon ";" 38, .endOfFile ⟨39, 1, 40⟩, ?_, hbefore, rfl, rfl, hall,
    rfl, (readStatement_of_patterns hbefore rfl rfl hall rfl []).1⟩
  decide +kernel

end Declarator

end ScriptBundle.Statement
