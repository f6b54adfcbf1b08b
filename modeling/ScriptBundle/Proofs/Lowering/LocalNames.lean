import ScriptBundle.Proofs.Lowering.Lines
import ScriptBundle.Proofs.Statement.Contents
import ScriptBundle.Proofs.Statement.PatternNames

/-!
# The names that a prologue writes as they are

A prologue reads and declares variables by names that are not in quotes. These are the variables of the
modules that it runs, and names from the source. Most of the latter are identifiers there, since the
readers look for one. In three places they take the next token as it is: behind `as` in an import of
everything, and behind the keyword of a declaration; in a list of names, where the name in another module
could be a string or a keyword; and where a property of an object pattern has no colon, so that its key is
a variable.

* `Statement.Unchecked`: the names from these places that are no identifiers;
* `Statement.identifier_or_unchecked`: the variables of a statement;
* `Piece.locals`, `locals_of_mem_pieces`: the names of a prologue;
* `rejected_or_named`: what becomes of a source, by its names;
* `number_declared`: a number that is declared as a variable.
-/

namespace ScriptBundle

namespace Statement

/-- A name that the statement behind the keyword `word` takes from its tokens `ts` although the token is
no identifier. -/
inductive Unchecked (last word : Token) (ts : List Token) : Text → Prop
  /-- A name must follow, and whatever follows is taken, be it the end of the source. -/
  | ahead {before rest : List Token} (h : NameAhead word before) (hts : ts = before ++ rest)
      (hk : (rest.headD last).kind ≠ .identifier) : Unchecked last word ts (rest.headD last).text
  /-- A string or a keyword in a list of names stands for a variable. -/
  | listed {front run rest : List Token} {opener close t : Token} {bs : List Binding} {name : Text}
      (hts : ts = front ++ opener :: (run ++ close :: rest)) (ho : opener.kind = .leftBrace)
      (hc : close.kind = .rightBrace) (h : IsElements run bs) (ht : t ∈ run)
      (hk : t.kind = .string ∨ t.isKeyword) (hn : bindingName t = .ok name) : Unchecked last word ts name
  /-- The key of a property without a colon, in an object pattern of a declaration. -/
  | key {front us rest after vs : List Token} {declarer opener t : Token} {names : List Text}
      (hts : ts = front ++ declarer :: us) (hd : isVariableWord declarer)
      (hnames : declaratorNames last us = .ok (names, rest)) (ho : opener :: vs <:+ us)
      (hopener : opener.kind = .leftBrace) (ht : t :: after <:+ vs) (hr : rest <:+ after)
      (hk : t.kind ≠ .identifier) (hkey : IsBareKey t after) : Unchecked last word ts t.text

/-- An identifier among the tokens gives the name. -/
def IsIdentifierOf (ts : List Token) (name : Text) : Prop :=
  ∃ t ∈ ts, t.kind = .identifier ∧ name = t.text

section Names

variable {last word : Token} {ts us run rest : List Token} {name : Text} {b : Binding}
  {bs : List Binding}

/-- Both names of an element are names of its tokens. -/
theorem exists_bindingName_of_isElement (h : IsElement run b) :
    (∃ t ∈ run, bindingName t = .ok b.outer) ∧ ∃ t ∈ run, bindingName t = .ok b.inner := by
  induction h with
  | @name t _ h => exact ⟨⟨t, List.mem_cons_self, h⟩, t, List.mem_cons_self, h⟩
  | @renamed t as u _ _ h _ h' => exact ⟨⟨t, by simp, h⟩, u, by simp, h'⟩
  | marked _ _ ih =>
    obtain ⟨⟨t, ht, houter⟩, u, hu, hinner⟩ := ih
    exact ⟨⟨t, List.mem_cons_of_mem _ ht, houter⟩, u, List.mem_cons_of_mem _ hu, hinner⟩

theorem exists_bindingName_of_isElements (h : IsElements run bs) (hb : b ∈ bs) :
    (∃ t ∈ run, bindingName t = .ok b.outer) ∧ ∃ t ∈ run, bindingName t = .ok b.inner := by
  induction h with
  | nil => cases hb
  | one h =>
    obtain rfl := List.mem_singleton.1 hb
    exact exists_bindingName_of_isElement h
  | cons h _ _ ih =>
    rcases List.mem_cons.1 hb with rfl | hb
    · obtain ⟨⟨t, ht, houter⟩, u, hu, hinner⟩ := exists_bindingName_of_isElement h
      exact ⟨⟨t, List.mem_append_left _ ht, houter⟩, u, List.mem_append_left _ hu, hinner⟩
    · obtain ⟨⟨t, ht, houter⟩, u, hu, hinner⟩ := ih hb
      exact ⟨⟨t, List.mem_append_right _ (List.mem_cons_of_mem _ ht), houter⟩, u,
        List.mem_append_right _ (List.mem_cons_of_mem _ hu), hinner⟩

/-- A name in a list is an identifier, a keyword or the value of a string. -/
theorem kind_of_bindingName {t : Token} (h : bindingName t = .ok name) :
    (t.kind = .identifier ∧ name = t.text) ∨ t.kind = .string ∨ t.isKeyword := by
  unfold bindingName at h
  split at h
  · next hk => exact .inr (.inl hk)
  · next hk => exact .inl ⟨hk, (Except.ok.inj h).symm⟩
  · next hk => exact .inr (.inr (by simp [Token.isKeyword, hk]))
  · next hk => exact .inr (.inr (by simp [Token.isKeyword, hk]))
  · cases h

theorem identifier_or_unchecked_of_listed {front : List Token} {opener close t : Token}
    (hts : ts = front ++ opener :: (run ++ close :: rest)) (ho : opener.kind = .leftBrace)
    (hc : close.kind = .rightBrace) (h : IsElements run bs) (ht : t ∈ run)
    (hn : bindingName t = .ok name) : IsIdentifierOf ts name ∨ Unchecked last word ts name := by
  rcases kind_of_bindingName hn with ⟨hk, rfl⟩ | hk
  · exact .inl ⟨t, by rw [hts]; simp [ht], hk, rfl⟩
  · exact .inr (.listed hts ho hc h ht hk hn)

theorem identifier_or_unchecked_of_ahead (hlast : last.kind ≠ .identifier) {before : List Token}
    (h : NameAhead word before) (hts : ts = before ++ rest) :
    IsIdentifierOf ts (rest.headD last).text ∨ Unchecked last word ts (rest.headD last).text := by
  by_cases hk : (rest.headD last).kind = .identifier
  · cases rest with
    | nil => exact absurd hk hlast
    | cons t us => exact .inl ⟨t, by rw [hts]; simp, hk, rfl⟩
  · exact .inr (.ahead h hts hk)

/-! ### Variables of statements -/

/-- What an import takes, behind a default binding or at the head of its tokens. -/
theorem identifier_or_unchecked_of_isPart (hlast : last.kind ≠ .identifier)
    (hword : word.kind = .importWord) {front part source : List Token}
    (hts : ts = front ++ (part ++ source)) (hf : ∀ t ∈ front, t.kind = .identifier ∨ t.kind = .comma)
    (h : IsPart part bs) (hb : b ∈ bs) : IsIdentifierOf ts b.inner ∨ Unchecked last word ts b.inner := by
  cases h with
  | @everything star as t hs has =>
    obtain rfl := List.mem_singleton.1 hb
    have hahead : NameAhead word (front ++ [star, as]) := .imported hword hf hs has
    have hrest : ts = (front ++ [star, as]) ++ t :: source := by rw [hts]; simp
    exact identifier_or_unchecked_of_ahead hlast hahead hrest
  | @names opener close run bs ho hc h =>
    obtain ⟨-, t, ht, hn⟩ := exists_bindingName_of_isElements h hb
    have hlist : ts = front ++ opener :: (run ++ close :: source) := by rw [hts]; simp
    exact identifier_or_unchecked_of_listed hlist ho hc h ht hn

theorem IsMark.kind {mark : List Token} {typeOnly : Bool} (h : IsMark mark typeOnly) :
    ∀ t ∈ mark, t.kind = .identifier ∨ t.kind = .comma := by
  cases h with
  | none => exact fun t ht => nomatch ht
  | word hw =>
    intro t ht
    rw [List.mem_singleton.1 ht]
    exact .inl (kind_of_isWord hw)

theorem IsComma.kind {comma : List Token} (h : IsComma comma) :
    ∀ t ∈ comma, t.kind = .identifier ∨ t.kind = .comma := by
  rcases h with rfl | ⟨t, rfl, ht⟩
  · exact fun t ht => nomatch ht
  · simp [ht]

theorem identifier_or_unchecked_of_isClause (hlast : last.kind ≠ .identifier)
    (hword : word.kind = .importWord) {mark clause source : List Token} {typeOnly : Bool}
    (hts : ts = mark ++ (clause ++ source)) (hm : IsMark mark typeOnly) (h : IsClause clause bs)
    (hb : b ∈ bs) : IsIdentifierOf ts b.inner ∨ Unchecked last word ts b.inner := by
  cases h with
  | part h => exact identifier_or_unchecked_of_isPart hlast hword hts hm.kind h hb
  | @default t comma ht hc =>
    obtain rfl := List.mem_singleton.1 hb
    exact .inl ⟨t, by rw [hts]; simp, ht, rfl⟩
  | @both t comma part bs ht hc h =>
    rcases List.mem_cons.1 hb with rfl | hb
    · exact .inl ⟨t, by rw [hts]; simp, ht, rfl⟩
    · have hpart : ts = (mark ++ t :: comma) ++ (part ++ source) := by rw [hts]; simp
      refine identifier_or_unchecked_of_isPart hlast hword hpart (fun u hu => ?_) h hb
      rcases List.mem_append.1 hu with hu | hu
      · exact hm.kind u hu
      · rcases List.mem_cons.1 hu with rfl | hu
        · exact .inl ht
        · exact hc.kind u hu

/-- The name of a declaration that can be exported by default. -/
theorem isIdentifierOf_declaredName (h : declaredName ts = some name) : IsIdentifierOf ts name := by
  have hdrop : dropModifiers ts <:+ ts := List.dropWhile_suffix _
  unfold declaredName at h
  split at h
  · next t us hts =>
    rw [hts] at hdrop
    split at h
    · split at h
      · next n vs hstar =>
        split at h
        · next hn =>
          simp only [Bool.and_eq_true, decide_eq_true_eq] at hn
          have hmem : n ∈ dropStar us := by rw [hstar]; exact List.mem_cons_self
          have hus : n ∈ us := (dropStar_suffix us).subset hmem
          exact ⟨n, hdrop.subset (List.mem_cons_of_mem t hus), hn.1.1, (Option.some.inj h).symm⟩
        · cases h
      · cases h
    · cases h
  · cases h

theorem identifier_or_unchecked_of_declares (hlast : last.kind ≠ .identifier)
    (hword : word.kind = .exportWord) {names : List Text} {typeOnly : Bool}
    (h : Declares last ts names typeOnly) (hn : name ∈ names) :
    IsIdentifierOf ts name ∨ Unchecked last word ts name := by
  cases h with
  | @named front us declarer hf hw =>
    obtain rfl := List.mem_singleton.1 hn
    unfold dropStar
    split
    · next hstar =>
      obtain ⟨star, vs, rfl, hs⟩ := eq_cons_of_kindAhead hstar
      have hahead : NameAhead word (front ++ declarer :: [star]) :=
        .declared hword hf hw (.inr ⟨star, rfl, hs⟩)
      have hrest : front ++ declarer :: star :: vs = (front ++ declarer :: [star]) ++ vs := by simp
      exact identifier_or_unchecked_of_ahead hlast hahead hrest
    · have hahead : NameAhead word (front ++ declarer :: []) := .declared hword hf hw (.inl rfl)
      have hrest : front ++ declarer :: us = (front ++ declarer :: []) ++ us := by simp
      exact identifier_or_unchecked_of_ahead hlast hahead hrest
  | @enumerated front us declarer enum hf hw he =>
    obtain rfl := List.mem_singleton.1 hn
    have hahead : NameAhead word (front ++ [declarer, enum]) := .enumerated hword hf hw he
    have hrest : front ++ declarer :: enum :: us = (front ++ [declarer, enum]) ++ us := by simp
    exact identifier_or_unchecked_of_ahead hlast hahead hrest
  | @declarators front us rest declarer names hf hw h =>
    cases nameFrom_of_declaratorNames h name hn with
    | @identifier t after ht _ hk =>
      have hmem : t ∈ us := ht.subset List.mem_cons_self
      exact .inl ⟨t, by simp [hmem], hk, rfl⟩
    | key ho hopener ht hr hk hkey => exact .inr (.key rfl hw h ho hopener ht hr hk hkey)
  | type => cases hn

/-- The variables of a statement are identifiers among its tokens, but for the unchecked ones. -/
theorem identifier_or_unchecked {s : Statement} (hlast : last.kind ≠ .identifier)
    (h : Says last word ts s.form) (hn : name ∈ s.variables) :
    IsIdentifierOf ts name ∨ Unchecked last word ts name := by
  obtain ⟨start, stop, form⟩ := s
  cases h with
  | runs => cases hn
  | imports hk hm _ hc =>
    obtain ⟨b, hb, rfl⟩ := List.mem_map.1 hn
    exact identifier_or_unchecked_of_isClause hlast hk rfl hm hc hb
  | exportsAll | exportsAs | exportsAgain => cases hn
  | exportsList hk hm ho hc h =>
    obtain ⟨b, hb, rfl⟩ := List.mem_map.1 hn
    obtain ⟨c, hmem, rfl⟩ := List.mem_map.1 hb
    obtain ⟨⟨t, ht, hname⟩, -⟩ := exists_bindingName_of_isElements h hmem
    exact identifier_or_unchecked_of_listed rfl ho hc h ht hname
  | declares hk h =>
    obtain ⟨b, hb, rfl⟩ := List.mem_map.1 hn
    obtain ⟨c, hmem, rfl⟩ := List.mem_map.1 hb
    exact identifier_or_unchecked_of_declares hlast hk h hmem
  | @default t us hk ht =>
    obtain ⟨u, hu, hkind, htext⟩ := isIdentifierOf_declaredName (Option.mem_toList.1 hn)
    exact .inl ⟨u, List.mem_cons_of_mem t hu, hkind, htext⟩

end Names

end Statement

namespace Lowering

open Statement

/-! ### Prologues -/

/-- The variables that an expression reads. -/
def Reading.reads : Reading → List Text
  | .variable name => [name]
  | .property object _ | .defaultOf object => [object]

/-- The variables that a piece reads or declares. -/
def Piece.locals : Piece → List Text
  | .mark | .helper | .run _ .nothing | .run _ .passedOn => []
  | .getter _ value => value.reads
  | .run _ (.bound name) => [name]
  | .binding name value => name :: value.reads

section Prologue

variable {statements : List Statement} {object name : Text} {s : Statement} {p : Piece}

theorem reads_bindingReading (object : Text) (b : Binding) :
    (bindingReading object b).reads = [object] := by
  unfold bindingReading
  split <;> rfl

theorem locals_bindingPiece (object : Text) (b : Binding) :
    (bindingPiece object b).locals = [b.inner, object] := by
  unfold bindingPiece
  repeat' split
  all_goals rfl

theorem locals_of_mem_getterPieces (h : p ∈ s.getterPieces object) (hn : name ∈ p.locals) :
    name = object ∨ name ∈ s.variables := by
  obtain ⟨exported, value, rfl, ⟨v, hv, rfl⟩ | ⟨_, _, _, -, b, -, rfl⟩⟩ := getterPieces_cases h
  · rw [List.mem_singleton.1 hn]
    exact .inr hv
  · exact .inl (List.mem_singleton.1 (reads_bindingReading object b ▸ hn))

theorem locals_of_mem_requirePieces (h : p ∈ s.requirePieces object) (hn : name ∈ p.locals) :
    name = object ∨ name ∈ s.variables := by
  obtain ⟨specifier, use, rfl, huse⟩ | ⟨_, bindings, _, hform, b, hb, rfl⟩ := requirePieces_cases h
  · cases use with
    | nothing | passedOn => cases hn
    | bound v =>
      rw [List.mem_singleton.1 hn]
      exact huse v rfl
  · rw [locals_bindingPiece, List.mem_pair] at hn
    refine hn.symm.imp id fun hn => ?_
    rw [hn, Statement.variables, hform]
    exact List.mem_map_of_mem hb

/-- The names of a prologue are the variables of modules, and those of the statements. -/
theorem locals_of_mem_pieces (h : p ∈ pieces statements) (hn : name ∈ p.locals) :
    (∃ n, name = moduleVariable n) ∨ ∃ s ∈ statements, name ∈ s.variables := by
  obtain rfl | rfl | ⟨s, hs, n, h⟩ := pieces_cases h
  · cases hn
  · cases hn
  · have hcases : name = moduleVariable n ∨ name ∈ s.variables :=
      h.elim (locals_of_mem_getterPieces · hn) (locals_of_mem_requirePieces · hn)
    exact hcases.imp (fun hname => ⟨n, hname⟩) fun hname => ⟨s, hs, hname⟩

end Prologue

/-- A source with tokens is rejected for one of its statements, or the names that its prologue writes as
they are come from it: variables of modules apart, they are identifiers of the source, but for those that
a statement takes unchecked. -/
theorem rejected_or_named (file : Text) {source : Text} {tokens : TokenStream}
    (h : tokenize source = .ok tokens) :
    (∃ f, (Lowering.transpile file source).result =
        .error (.malformedSource file (.statement f))) ∨
      ∃ statements, scanSource source = .ok (tokens, statements) ∧
        (∀ out, (Lowering.transpile file source).result = .ok out → out = heading statements ++
          applyEdits 0 (hideHashbang source) (sourceEdits source statements)) ∧
        prologue statements = (pieces statements).map Piece.text ∧
        ∀ p ∈ pieces statements, ∀ name ∈ p.locals,
          (∃ n, name = moduleVariable n) ∨ IsIdentifierOf tokens.tokens name ∨
            ∃ s ∈ statements, ∃ before word us, tokens.tokens = before ++ word :: us ∧
              s.start = word.start ∧ Unchecked tokens.last word us name := by
  cases hscan : Statement.scan tokens with
  | error f =>
    have hsource : scanSource source = .error (.statement f) := by simp only [scanSource, h, hscan]
    exact .inl ⟨f, by simp only [Lowering.transpile, hsource]; rfl⟩
  | ok statements =>
    have hsource : scanSource source = .ok (tokens, statements) := by simp only [scanSource, h, hscan]
    refine .inr ⟨statements, hsource, fun out hout => ?_, (map_text_pieces statements).symm,
      fun p hp name hn => ?_⟩
    · obtain ⟨tokens', statements', hsource', rfl⟩ := transpile_eq_ok hout
      obtain ⟨rfl, rfl⟩ := Prod.mk.inj (Except.ok.inj (hsource.symm.trans hsource'))
      exact lower_eq_heading source statements
    · refine (locals_of_mem_pieces hp hn).imp id ?_
      rintro ⟨s, hs, hname⟩
      obtain ⟨before, word, us, hts, hstart, hsays⟩ := saidIn_of_scanSource hsource s hs
      have hlast : tokens.last.kind ≠ .identifier := by simp [TokenStream.last, Token.endOfFile]
      rcases identifier_or_unchecked hlast hsays hname with ⟨t, ht, hk, rfl⟩ | hunchecked
      · exact .inl ⟨t, by rw [hts]; simp [ht], hk, rfl⟩
      · exact .inr ⟨s, hs, before, word, us, hts, hstart, hunchecked⟩

/-- A source with names of all sorts: of a namespace, in a list and in patterns, and of a class. -/
def namedSource : Text :=
  "import * as a from 's'; import b, \x7b c as d \x7d from 't'; export \x7b d \x7d;" ++
    "export let \x7b e, f: [g] \x7d = a; export default class h \x7b\x7d"

/-- This source is not rejected, so its names are as they have to be. -/
theorem named_namedSource : ∃ tokens statements out,
    tokenize namedSource = .ok tokens ∧ (Lowering.transpile "a.js" namedSource).result = .ok out ∧
      (pieces statements).flatMap Piece.locals = [Text.ofString "d", "e", "g", "h", "a", "__tsb_m1", "b",
        "__tsb_m1", "d", "__tsb_m1"] ∧
      ∀ p ∈ pieces statements, ∀ name ∈ p.locals,
        (∃ n, name = moduleVariable n) ∨ IsIdentifierOf tokens.tokens name ∨
          ∃ s ∈ statements, ∃ before word us, tokens.tokens = before ++ word :: us ∧
            s.start = word.start ∧ Unchecked tokens.last word us name := by
  have hcheck : (scanSource namedSource).toOption.any fun (_, statements) =>
      (pieces statements).flatMap Piece.locals = [Text.ofString "d", "e", "g", "h", "a", "__tsb_m1", "b",
        "__tsb_m1", "d", "__tsb_m1"] := by
    unfold namedSource
    repeat rw [Text.ofString_ofList]
    decide +kernel
  obtain ⟨⟨tokens, statements⟩, hscan, hlocals⟩ := Except.exists_of_any_toOption hcheck
  have htokens := (tokenize_of_scanSource hscan).1
  have hfile : ¬ isTypedFile "a.js" := by decide
  have hout := result_transpile hscan fun htyped => absurd htyped hfile
  obtain ⟨f, hf⟩ | ⟨statements', hscan', -, -, hnames⟩ := rejected_or_named "a.js" htokens
  · rw [hf] at hout
    cases hout
  · obtain rfl : statements = statements' := congrArg Prod.snd (Except.ok.inj (hscan.symm.trans hscan'))
    exact ⟨tokens, statements, _, htokens, hout, of_decide_eq_true hlocals, hnames⟩

/-- An import with a number in the place of a name. -/
def numberedImport : Text := "import * as 1 from 's'"

/-- The module statement of this source. -/
def numberedStatements : List Statement := [⟨⟨0, 1, 1⟩, 22, .imports "s" [⟨"*", "1", false⟩] false⟩]

/-- The number is declared as a variable, although it is no identifier of the source. -/
theorem number_declared : ∃ tokens, tokenize numberedImport = .ok tokens ∧
    (Lowering.transpile "a.js" numberedImport).result =
      .ok (esModuleMark ++ " " ++ varStatement "1" (requireCall "s") ++ " ") ∧
    ¬ IsIdentifierOf tokens.tokens "1" := by
  have hstatements : (scanSource numberedImport).toOption.map (·.2) = some numberedStatements := by
    rw [numberedImport, Text.ofString_ofList]
    decide +kernel
  obtain ⟨tokens, hscan, hout⟩ :=
    exists_result_transpile "a.js" numberedImport numberedStatements (by decide) hstatements
  have hlower : lower numberedImport numberedStatements =
      esModuleMark ++ " " ++ varStatement "1" (requireCall "s") ++ " " := by
    have hprologue : prologue numberedStatements =
        [esModuleMark, varStatement "1" (requireCall "s")] := rfl
    have hbody : applyEdits 0 (hideHashbang numberedImport)
        (sourceEdits numberedImport numberedStatements) = [] := by
      decide +kernel
    rw [lower_eq_join hprologue hbody rfl]
    simp [Text.join]
  have htokens := (tokenize_of_scanSource hscan).1
  have hcheck : (tokenize numberedImport).toOption.any fun ts =>
      ts.tokens.all fun t => t.kind ≠ .identifier || t.text ≠ "1" := by
    decide +kernel
  rw [htokens] at hcheck
  refine ⟨tokens, htokens, hlower ▸ hout, ?_⟩
  rintro ⟨t, ht, hk, htext⟩
  have := List.all_eq_true.1 hcheck t ht
  simp [hk, ← htext] at this

end Lowering

end ScriptBundle
