import ScriptBundle.Proofs.Statement.BindingPattern

/-!
# Declarations that end with their line

A declaration without a semicolon ends where its last declarator cannot go on. The scanner knows only
some words that start a statement, and it reads on behind other line breaks, but it does not look at the
tokens that it passes over. What it passes over adds a name only where it comes to a comma outside all
brackets, since a comma asks for another declarator.

* `Leading`: the declarators in front of the last one;
* `CanStart`: what a statement does not start with;
* `ReachesComma`: the statement behind an initializer is read on to a comma;
* `declaratorNames_comma`, `declaratorNames_final`: the names of the declarators in front of the last
  one, and of that one, whatever statement follows that leads to no comma;
* `readStatement_of_lineBreak`: in front of a statement that leads to no comma, no other names than those
  of its patterns are recorded for a declaration;
* `names_invented_behind_lineBreak`: a call in front of a comma.
-/

namespace ScriptBundle.Statement

/-- The declarators in front of the last one, with a comma behind each of them. -/
inductive Leading : List Token → List Text → Prop
  | none : Leading [] []
  | some {ts : List Token} {comma : Token} {names : List Text}
      (h : Declarators (BindsDeclarator IsExpression) ts names) (hc : comma.kind = .comma) :
      Leading (ts ++ [comma]) names

/-- The tokens start with no comma, no sign `=` and no colon, nor with one of these behind a `!`, as no
statement does. -/
def CanStart (ts : List Token) : Prop :=
  ∀ t ∈ (dropDefinite ts).head?, t.kind ≠ .comma ∧ t.kind ≠ .equals ∧ t.kind ≠ .colon

/-- Read on as an initializer from the token `prev`, the tokens come to a comma outside all brackets. -/
def ReachesComma (prev : Token) (ts : List Token) : Prop :=
  ∃ run comma rest, ts = run ++ comma :: rest ∧ comma.kind = .comma ∧
    Unended endsInitializer false prev run ∧ nestingOf false run = 0

section

variable {last word keyword comma mark prev u : Token} {before? : Option Token}
  {ts fs ps vs value rest after : List Token} {names more : List Text}

theorem kind_ne_comma_of_startsStatement {t : Token} (h : startsStatement prev t) :
    t.kind ≠ .comma := by
  intro hk
  rw [startsStatement_of_not_word (by rw [hk]; rfl)] at h
  cases h

/-- Behind the sign `=` a declarator goes on as its initializer does. -/
theorem afterDeclarator_equals (hm : mark.kind = .equals) (rest : List Token) :
    afterDeclarator (mark :: rest) = dropExpression endsInitializer false mark 0 rest := by
  rw [afterDeclarator, dropTypePart_of_kind (.inl hm), dropInitializer, if_pos hm]
  rfl

/-- In front of the comma behind it, an initializer is passed over, or it is left at a token that is no
comma. -/
theorem afterDeclarator_comma (hv : Assigned IsExpression vs) (hc : comma.kind = .comma)
    (rest : List Token) :
    afterDeclarator (vs ++ comma :: rest) = comma :: rest ∨
      ∃ t us, afterDeclarator (vs ++ comma :: rest) = t :: us ∧ t.kind ≠ .comma := by
  cases hv with
  | none => exact .inl (afterDeclarator_assigned .none (.inl hc) rest)
  | @value mark value hm hv =>
    rw [List.cons_append, afterDeclarator_equals hm]
    rcases dropExpression_expression hv endsInitializer_cases mark (comma :: rest) with
      hpast | ⟨w, t, us, hcut, hstarts⟩
    · left
      have hends : endsExpression endsInitializer (value.getLastD mark) comma := by
        simp [endsExpression, endsInitializer, hc]
      rw [hpast, dropExpression, hends]
      rfl
    · exact .inr ⟨t, us, hcut, kind_ne_comma_of_startsStatement hstarts⟩

/-- A declarator in front of a comma gives its names. Either the comma asks for the next declarator, or
the declaration is left behind the names. -/
theorem declaratorNames_of_bindsDeclarator (h : BindsDeclarator IsExpression ts names)
    (hc : comma.kind = .comma) (rest : List Token) :
    declaratorNames last (ts ++ comma :: rest) =
        (declaratorNames last rest).map (Names.prepend names) ∨
      ∃ left, declaratorNames last (ts ++ comma :: rest) = .ok (names, left) := by
  obtain ⟨ps, vs, rfl, hp, hv⟩ := h
  rw [List.append_assoc, declaratorNames_eq, patternNames_of_binds hp, Except.ok_bind]
  rcases afterDeclarator_comma hv hc rest with hafter | ⟨t, us, hafter, ht⟩
  · left
    simp only [hafter, if_pos hc]
    rfl
  · right
    simp only [hafter, if_neg ht]
    exact ⟨_, rfl⟩

/-- The declarators in front of a comma give their names, or a line break in one of their initializers
ends the declaration behind some of them. -/
theorem declaratorNames_comma (h : Declarators (BindsDeclarator IsExpression) ts names)
    (hc : comma.kind = .comma) (rest : List Token) :
    declaratorNames last (ts ++ comma :: rest) =
        (declaratorNames last rest).map (Names.prepend names) ∨
      ∃ recorded left, declaratorNames last (ts ++ comma :: rest) = .ok (recorded, left) ∧
        recorded <+: names := by
  induction h with
  | one h =>
    rcases declaratorNames_of_bindsDeclarator h hc rest with hnames | ⟨left, hnames⟩
    · exact .inl hnames
    · exact .inr ⟨_, left, hnames, List.prefix_refl _⟩
  | @cons ts us comma' names more h hc' _ ih =>
    rw [List.append_assoc, List.cons_append]
    rcases declaratorNames_of_bindsDeclarator h hc' (us ++ comma :: rest) with hnames | ⟨left, hnames⟩
    · rw [hnames]
      rcases ih with ih | ⟨recorded, left, ih, hprefix⟩
      · left
        rw [ih, Names.map_prepend_prepend]
      · right
        rw [ih]
        exact ⟨names ++ recorded, left, rfl, (List.prefix_append_right_inj names).2 hprefix⟩
    · exact .inr ⟨names, left, hnames, List.prefix_append names more⟩

/-- Behind a declarator without an initializer no statement asks for another declarator. -/
theorem afterDeclarator_canStart (h : CanStart after) :
    ∀ t ∈ (afterDeclarator after).head?, t.kind ≠ .comma := by
  intro t ht
  rcases hafter : dropDefinite after with _ | ⟨u, us⟩
  · rw [afterDeclarator, hafter] at ht
    cases ht
  · obtain ⟨hcomma, hequals, hcolon⟩ := h u (by rw [hafter]; rfl)
    rw [afterDeclarator, hafter, dropTypePart, if_neg hcolon, dropInitializer, if_neg hequals] at ht
    cases ht
    exact hcomma

/-- Behind an initializer a statement that leads to no comma asks for no other declarator. -/
theorem dropExpression_of_not_reachesComma (h : ¬ ReachesComma prev after) :
    ∀ t ∈ (dropExpression endsInitializer false prev 0 after).head?, t.kind ≠ .comma := by
  intro t ht hcomma
  have hend := unendedFrom_or_ends endsInitializer false prev 0 after
  rcases hend with hunended | ⟨run, u, rest, rfl, hunended, hzero, -, hdrop⟩
  · have hdrop := dropExpression_of_unendedFrom hunended []
    rw [List.append_nil, dropExpression] at hdrop
    rw [hdrop] at ht
    cases ht
  · have hdrop := hdrop []
    rw [List.append_nil, List.append_nil] at hdrop
    rw [hdrop] at ht
    cases ht
    exact h ⟨run, t, rest, rfl, hcomma, unended_iff.2 hunended, by omega⟩

/-- A statement without a comma outside its brackets leads to none, if what follows it ends the
declaration at last. -/
theorem IsExpression.not_reachesComma (h : IsExpression ts) (ht : u.kind ≠ .comma)
    (hend : Statement.endsExpression endsInitializer (ts.getLastD prev) u) (rest : List Token) :
    ¬ ReachesComma prev (ts ++ u :: rest) := by
  rintro ⟨run, comma, after, heq, hc, hunended, hzero⟩
  rcases List.append_eq_append_iff.1 heq with ⟨mid, rfl, hmid⟩ | ⟨mid, rfl, hmid⟩
  · -- The comma stands behind the statement.
    rcases mid with _ | ⟨v, mid⟩
    · cases hmid
      exact ht hc
    · cases hmid
      have hgoes := hunended ts u mid rfl (nestingOf_of_nested h.nested)
      rw [hend] at hgoes
      cases hgoes
  · -- It stands inside the statement, or directly behind it.
    rcases mid with _ | ⟨v, mid⟩
    · cases hmid
      exact ht hc
    · cases hmid
      exact (h.outside run comma mid rfl (nested_of_nestingOf h.nested hzero)).1 hc

/-- The last declarator gives its names, whatever statement follows that leads to no comma. -/
theorem declaratorNames_final (hp : Binds .pattern ps names) (hv : Assigned IsExpression vs)
    (hstart : CanStart after)
    (hcomma : ∀ mark value, vs = mark :: value → ¬ ReachesComma (value.getLastD mark) after) :
    ∃ left, declaratorNames last (ps ++ (vs ++ after)) = .ok (names, left) := by
  have hends : ∀ t ∈ (afterDeclarator (vs ++ after)).head?, t.kind ≠ .comma := by
    cases hv with
    | none => exact afterDeclarator_canStart hstart
    | @value mark value hm hv =>
      rw [List.cons_append, afterDeclarator_equals hm]
      rcases dropExpression_expression hv endsInitializer_cases mark after with
        hpast | ⟨u, t, us, hcut, hstarts⟩
      · rw [hpast]
        exact dropExpression_of_not_reachesComma (hcomma mark value rfl)
      · rw [hcut]
        rintro _ ⟨⟩
        exact kind_ne_comma_of_startsStatement hstarts
  rw [declaratorNames_eq, patternNames_of_binds hp, Except.ok_bind]
  simp only
  split
  · next t us hafter =>
    rw [if_neg (hends t (by rw [hafter]; rfl))]
    exact ⟨_, rfl⟩
  · exact ⟨_, rfl⟩

/-- An exported declaration without a semicolon is read without an error, whatever statement follows that
leads to no comma. The names that are recorded for it are those of its patterns, or the first of them
where a line break in an initializer ends it. -/
theorem readStatement_of_lineBreak (hbefore : before?.any (·.selectsMember) = false)
    (hword : word.kind = .exportWord) (hkeyword : isVariableWord keyword) (hf : Leading fs names)
    (hp : Binds .pattern ps more) (hv : Assigned IsExpression vs) (hstart : CanStart after)
    (hcomma : ∀ mark value, vs = mark :: value → ¬ ReachesComma (value.getLastD mark) after) :
    ∃ recorded left, recorded <+: names ++ more ∧
      readStatement last word (keyword :: (fs ++ (ps ++ (vs ++ after)))) =
        .ok (some (variableExport word keyword recorded, left)) ∧
      scanFrom last before? 0 (word :: keyword :: (fs ++ (ps ++ (vs ++ after)))) =
        (scanFrom last (tokenBefore (word :: keyword :: (fs ++ (ps ++ (vs ++ after)))) left) 0 left).map
          (variableExport word keyword recorded :: ·) := by
  obtain ⟨rest, hfinal⟩ : ∃ left, declaratorNames last (ps ++ (vs ++ after)) = .ok (more, left) :=
    declaratorNames_final hp hv hstart hcomma
  have hnames : ∃ recorded left, recorded <+: names ++ more ∧
      declaratorNames last (fs ++ (ps ++ (vs ++ after))) = .ok (recorded, left) := by
    cases hf with
    | none => exact ⟨more, rest, List.prefix_refl _, hfinal⟩
    | @some ts comma names h hc =>
      rw [List.append_assoc, List.singleton_append]
      rcases declaratorNames_comma h hc (ps ++ (vs ++ after)) with hall | ⟨recorded, left, hcut, hprefix⟩
      · rw [hall, hfinal]
        exact ⟨names ++ more, rest, List.prefix_refl _, rfl⟩
      · exact ⟨recorded, left, hprefix.trans (List.prefix_append ..), hcut⟩
  have henum : wordAhead "enum" (fs ++ (ps ++ (vs ++ after))) = false := by
    obtain ⟨t, us, rfl, ht⟩ := hp.isWord_enum
    cases hf with
    | none => exact ht
    | some h hc =>
      rw [List.append_assoc]
      exact wordAhead_of_bindsDeclarators h _
  obtain ⟨recorded, left, hprefix, hnames⟩ := hnames
  have hread := readStatement_of_declaratorNames hword hkeyword henum hnames
  exact ⟨recorded, left, hprefix, hread, scanFrom_of_readStatement hbefore hread⟩

/-- Two declarators, and a call on the next line. -/
theorem readStatement_in_front_of_call :
    ∃ word keyword fs ps vs after last,
      (tokenize "export let a = 1, [b] = c\nfoo(b, c);").toOption.map (·.toList) =
        some (word :: keyword :: (fs ++ (ps ++ (vs ++ after))) ++ [last]) ∧
      (none : Option Token).any (·.selectsMember) = false ∧ word.kind = .exportWord ∧
      isVariableWord keyword ∧ Leading fs ["a"] ∧ Binds .pattern ps ["b"] ∧
      Assigned IsExpression vs ∧ CanStart after ∧
      (∀ mark value, vs = mark :: value → ¬ ReachesComma (value.getLastD mark) after) ∧
      ∃ (recorded : List Text) (left : List Token), recorded <+: ["a", "b"] ∧
        readStatement last word (keyword :: (fs ++ (ps ++ (vs ++ after)))) =
          .ok (some (variableExport word keyword recorded, left)) := by
  have name : ∀ (w : Text) (n : Nat), w ≠ "enum" →
      Binds .pattern [onFirstLine .identifier w n] [w] := fun w n hw => .name ⟨rfl, hw⟩
  have hone : Assigned IsExpression [onFirstLine .equals "=" 13, onFirstLine .number "1" 15] :=
    .value rfl (by decide)
  have ha : BindsDeclarator IsExpression (_ ++ _) [Text.ofString "a"] :=
    ⟨_, _, rfl, name "a" 11 (by decide), hone⟩
  have hb : Binds .pattern (onFirstLine .leftBracket "[" 18 ::
      (([onFirstLine .identifier "b" 19] ++ []) ++ [onFirstLine .rightBracket "]" 20]))
      [Text.ofString "b"] :=
    .group (.inr rfl) rfl (.one (.item (name "b" 19 (by decide)) .none))
  have hc : Assigned IsExpression [onFirstLine .equals "=" 22, onFirstLine .identifier "c" 24] :=
    .value rfl (by decide)
  have hcomma : (onFirstLine .comma "," 16).kind = .comma := rfl
  have hfs := Leading.some (.one ha) hcomma
  have hcall : IsExpression [⟨.identifier, "foo", ⟨26, 2, 1⟩⟩, ⟨.leftParen, "(", ⟨29, 2, 4⟩⟩,
      ⟨.identifier, "b", ⟨30, 2, 5⟩⟩, ⟨.comma, ",", ⟨31, 2, 6⟩⟩, ⟨.identifier, "c", ⟨33, 2, 8⟩⟩,
      ⟨.rightParen, ")", ⟨34, 2, 9⟩⟩] := by
    decide
  obtain ⟨after, hafter, hstart, hnot⟩ : ∃ after, after =
        [⟨.identifier, "foo", ⟨26, 2, 1⟩⟩, ⟨.leftParen, "(", ⟨29, 2, 4⟩⟩, ⟨.identifier, "b", ⟨30, 2, 5⟩⟩,
          ⟨.comma, ",", ⟨31, 2, 6⟩⟩, ⟨.identifier, "c", ⟨33, 2, 8⟩⟩, ⟨.rightParen, ")", ⟨34, 2, 9⟩⟩,
          ⟨.semicolon, ";", ⟨35, 2, 10⟩⟩] ∧
      CanStart after ∧ ¬ ReachesComma (onFirstLine .identifier "c" 24) after := by
    refine ⟨_, rfl, ?_, hcall.not_reachesComma (by decide) (by decide) []⟩
    rintro _ ⟨⟩
    decide
  have hends : ∀ mark value,
      [onFirstLine .equals "=" 22, onFirstLine .identifier "c" 24] = mark :: value →
        ¬ ReachesComma (value.getLastD mark) after := by
    rintro _ _ ⟨⟩
    exact hnot
  have hbefore : (none : Option Token).any (·.selectsMember) = false := rfl
  refine ⟨onFirstLine .exportWord "export" 0, onFirstLine .identifier "let" 7, _, _, _, after,
    .endOfFile ⟨36, 2, 11⟩, ?_, hbefore, rfl, rfl, hfs, hb, hc, hstart, hends,
    (readStatement_of_lineBreak hbefore rfl rfl hfs hb hc hstart hends).imp fun recorded h =>
      h.imp fun left h => ⟨h.1, h.2.1⟩⟩
  rw [hafter]
  decide +kernel

/-- A call on the next line is taken for a part of the initializer. Behind a comma in its statement a
name is recorded that the declaration does not bind, or the source is refused. -/
theorem names_invented_behind_lineBreak :
    ∃ word keyword ts call after after' last last',
      (tokenize "export let a = 1\nfoo(), b = 2").toOption.map (·.toList) =
        some (word :: keyword :: (ts ++ call :: after) ++ [last]) ∧
      (tokenize "export let a = 1\nfoo(), 2").toOption.map (·.toList) =
        some (word :: keyword :: (ts ++ call :: after') ++ [last']) ∧
      Declarators (BindsDeclarator IsValue) ts ["a"] ∧ call.kind = .identifier ∧
      (∀ t ∈ ts, t.line < call.line) ∧
      (scanFrom last none 0 (word :: keyword :: (ts ++ call :: after))).toOption =
        some [variableExport word keyword ["a", "b"]] ∧
      (scanFrom last' none 0 (word :: keyword :: (ts ++ call :: after'))).toOption = none := by
  have hone : IsDefault [onFirstLine .equals "=" 13, onFirstLine .number "1" 15] :=
    .value rfl (isValue_of_forall 1 (by decide) (by decide))
  have ha : BindsDeclarator IsValue ([onFirstLine .identifier "a" 11] ++ _) ["a"] :=
    ⟨_, _, rfl, .name ⟨rfl, by decide⟩, hone⟩
  refine ⟨onFirstLine .exportWord "export" 0, onFirstLine .identifier "let" 7, _,
    ⟨.identifier, "foo", ⟨17, 2, 1⟩⟩,
    [⟨.leftParen, "(", ⟨20, 2, 4⟩⟩, ⟨.rightParen, ")", ⟨21, 2, 5⟩⟩, ⟨.comma, ",", ⟨22, 2, 6⟩⟩,
      ⟨.identifier, "b", ⟨24, 2, 8⟩⟩, ⟨.equals, "=", ⟨26, 2, 10⟩⟩, ⟨.number, "2", ⟨28, 2, 12⟩⟩],
    [⟨.leftParen, "(", ⟨20, 2, 4⟩⟩, ⟨.rightParen, ")", ⟨21, 2, 5⟩⟩, ⟨.comma, ",", ⟨22, 2, 6⟩⟩,
      ⟨.number, "2", ⟨24, 2, 8⟩⟩],
    .endOfFile ⟨29, 2, 13⟩, .endOfFile ⟨25, 2, 9⟩, ?_, ?_, .one ha, rfl, by decide, ?_, ?_⟩
  all_goals decide +kernel

end

end ScriptBundle.Statement
