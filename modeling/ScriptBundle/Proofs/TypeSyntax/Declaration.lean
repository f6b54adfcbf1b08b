import ScriptBundle.Proofs.Statement.BindingPattern
import ScriptBundle.Proofs.Token.Layout
import ScriptBundle.Proofs.TypeSyntax.PlainScript

/-!
# Annotated declarations

In a file that is named as typed, the colon of an annotated declaration is taken for type syntax where
nothing waits in its group, if what it annotates is the first name of the declaration or if the declaration
stands right in parentheses. Then the file is refused. The colon behind a pattern, or behind a later name,
is passed over outside parentheses.

* `Declares`, `Recognised`: a declaration with an annotation, and when its colon is type syntax;
* `annotates_iff`: that this is when;
* `AtStatement`, `settled_of_atStatement`: places at which nothing waits;
* `transpile_annotated`: what becomes of the file.
-/

namespace ScriptBundle.TypeSyntax

/-- Among the tokens `ts`, the colon annotates what the declaration with the word `word` binds in
`target`, behind the declarators `before`. -/
structure Declares (ts front : List Token) (word : Token) (before target : List Token) (colon : Token)
    (back : List Token) : Prop where
  tokens_eq : ts = front ++ word :: (before ++ (target ++ colon :: back))
  isBinding : word.kind = .identifier ∧ word.text ∈ bindingWords
  ends_before : before = [] ∨ ∃ us comma, before = us ++ [comma] ∧ comma.kind = .comma
  binds : ∃ names, Statement.Binds .pattern target names
  isColon : colon.kind = .colon

/-- Nothing waits in the group, and the colon stands behind the first name of its declaration or the
declaration stands right in parentheses. -/
def Recognised (c : Context) (before target : List Token) : Prop :=
  c.group.waiting = 0 ∧ (c.group.opener = some .leftParen ∨ before = [] ∧ ∃ t, target = [t])

section Declaration

variable {last word name colon : Token} {gone : Token → Bool} {c : Context}
  {ts front before target back : List Token} {source : Text} {stream : TokenStream}

/-- Only words have the texts of the words that introduce bindings. -/
theorem isWordKind_of_binding {t : Token} (h : tokenize source = .ok stream) (ht : t ∈ stream.tokens)
    (htext : t.text ∈ bindingWords) : t.kind.isWordKind := by
  obtain ⟨operand, rest, hlexes⟩ := Lexer.lexes_of_tokenize h ht
  have hstart : ∀ w ∈ bindingWords, ∃ c v, w = c :: v ∧ Lexeme.startsWord c := by
    intro w hw
    simp only [bindingWords, List.mem_cons, List.not_mem_nil, or_false] at hw
    rcases hw with rfl | rfl | rfl <;> exact ⟨_, _, rfl, by decide⟩
  obtain ⟨c, v, hv, hc⟩ := hstart _ htext
  rw [hv] at hlexes
  exact hlexes.isWordKind_of_startsWord hc

/-- What a declaration binds is a name, or it ends with a brace or a bracket. -/
theorem binds_cases {names : List Text} (h : Statement.Binds .pattern target names) :
    (∃ t, target = [t] ∧ t.kind = .identifier) ∨
      ∃ us t, target = us ++ [t] ∧ us ≠ [] ∧ (t.kind = .rightBrace ∨ t.kind = .rightBracket) := by
  cases h with
  | name ht => exact .inl ⟨_, rfl, ht.1⟩
  | @group opener close ts _ ho hc _ =>
    refine .inr ⟨opener :: ts, close, rfl, List.cons_ne_nil _ _, ?_⟩
    rcases ho with ho | ho
    · exact .inl (by rw [hc, Statement.closing, if_pos ho])
    · exact .inr (by rw [hc, Statement.closing, if_neg (by simp [ho])])

/-- The word or the comma in front of the last name of a declaration. -/
theorem getLast?_of_declares (htokens : tokenize source = .ok stream)
    (h : Declares stream.tokens front word before target colon back) :
    ∃ q, (word :: before).getLast? = some q ∧ (q.text ∈ bindingWords ↔ before = []) := by
  rcases h.ends_before with rfl | ⟨us, comma, rfl, hcomma⟩
  · exact ⟨word, rfl, fun _ => rfl, fun _ => h.isBinding.2⟩
  · refine ⟨comma, by rw [← List.cons_append, List.getLast?_concat], fun htext => ?_, fun hnil => ?_⟩
    · have hmem : comma ∈ stream.tokens := by
        rw [h.tokens_eq]
        simp
      have := isWordKind_of_binding htokens hmem htext
      rw [hcomma] at this
      cases this
    · exact absurd hnil (by simp)

/-- The colon of a declaration is taken for an annotation exactly when it is recognised. -/
theorem annotates_iff (htokens : tokenize source = .ok stream)
    (h : Declares stream.tokens front word before target colon back)
    (hstays : ∀ t ∈ word :: (before ++ target), gone t = false) (c : Context) :
    annotates (contextBehind last gone c (word :: (before ++ target)) (colon :: back)) ↔
      Recognised (contextBehind last gone c (word :: (before ++ target)) (colon :: back)) before target := by
  obtain ⟨names, hbinds⟩ := h.binds
  have hprev := prev_contextBehind last hstays c (colon :: back)
  rcases binds_cases hbinds with ⟨t, rfl, hkind⟩ | ⟨us, t, rfl, hne, hkind⟩
  · -- A name is told from others by what stands in front of it.
    obtain ⟨q, hq, hbinding⟩ := getLast?_of_declares htokens h
    have hbeforePrev := beforePrev_contextBehind last (word :: before) hstays c (colon :: back)
    rw [hq, Option.some_or] at hbeforePrev
    rw [← List.cons_append, List.getLast?_concat, Option.some_or] at hprev
    rw [← List.cons_append]
    generalize contextBehind last gone c (word :: before ++ [t]) (colon :: back) = c' at hprev hbeforePrev ⊢
    simp [annotates, Recognised, hprev, hbeforePrev, hkind, hbinding]
  · -- A pattern ends with a bracket that is no parenthesis.
    have hlast : (word :: (before ++ (us ++ [t]))).getLast? = some t := by
      rw [← List.append_assoc, ← List.cons_append, List.getLast?_concat]
    rw [hlast, Option.some_or] at hprev
    generalize contextBehind last gone c (word :: (before ++ (us ++ [t]))) (colon :: back) = c' at hprev ⊢
    have hmany : ¬ ∃ u, us ++ [t] = [u] := by
      rintro ⟨u, hu⟩
      exact hne (List.append_inj_left' (hu.trans (List.nil_append [u]).symm) rfl)
    rcases hkind with hkind | hkind <;> simp [annotates, Recognised, hprev, hkind, hmany]

/-! ### Places where nothing waits -/

/-- Behind the tokens a statement of a plain script may stand: at the beginning of the source or of a
block, and behind statements of a plain script, behind what is removed and behind `export`. -/
inductive AtStatement (gone : Token → Bool) : List Token → Prop
  | start : AtStatement gone []
  | opened {ts : List Token} {t : Token} (ht : IsPunctuator .leftBrace t) (hstays : gone t = false) :
      AtStatement gone (ts ++ [t])
  | behind {ts us : List Token} (h : AtStatement gone ts) (hu : IsScript .statement us)
      (hstays : ∀ t ∈ us, gone t = false) : AtStatement gone (ts ++ us)
  | removed {ts us : List Token} (h : AtStatement gone ts) (hgone : ∀ t ∈ us, gone t) :
      AtStatement gone (ts ++ us)
  | exported {ts : List Token} {t : Token} (h : AtStatement gone ts) (hk : t.kind = .exportWord)
      (ht : t.text = "export") (hstays : gone t = false) : AtStatement gone (ts ++ [t])

/-- What is removed leaves the context as it is. -/
theorem contextBehind_of_gone (h : ∀ t ∈ ts, gone t) (c : Context) (us : List Token) :
    contextBehind last gone c ts us = c := by
  induction ts with
  | nil => rfl
  | cons t ts ih =>
    rw [List.forall_mem_cons] at h
    rw [contextBehind, if_pos h.1, ih h.2]

/-- Where a statement of a plain script may stand, nothing waits. -/
theorem settled_of_atStatement (h : AtStatement gone front) (us : List Token) :
    Settled (contextBehind last gone .initial front us) := by
  induction h generalizing us with
  | start =>
    refine ⟨rfl, ?_, fun t ht => by cases ht⟩
    intro h
    cases h
  | opened ht hstays =>
    rw [contextBehind_append, contextBehind_singleton hstays]
    exact (opened_after (by decide) ht _ _).settled (by decide)
  | @behind ts vs _ hu hstays ih =>
    obtain ⟨hruns, hends⟩ := meets_of_isScript hu
    rw [contextBehind_append]
    have hfront := ih (vs ++ us)
    have hshifts := (hruns last gone _ us hstays hfront).2
    exact hfront.behind hshifts (prev_contextBehind last hstays _ _) (.inr hends)
  | @removed ts vs _ hgone ih =>
    rw [contextBehind_append, contextBehind_of_gone hgone]
    exact ih (vs ++ us)
  | @exported ts t _ hk ht hstays ih =>
    rw [contextBehind_append]
    have hfront := ih ([t] ++ us)
    have hpasses := (IsInert.of_kind hk (by decide)).passes
    have hone : ∀ u ∈ [t], gone u = false := fun u hu => List.mem_singleton.1 hu ▸ hstays
    have hfresh : IsFresh t := ⟨by rw [ht]; decide, by simp [Token.selectsMember, hk, ht]; decide⟩
    have hshifts := (hpasses last gone (contextBehind last gone .initial ts ([t] ++ us)) us hone trivial).2
    exact hfront.behind hshifts (prev_contextBehind last hone _ _) (.inr (.concat hfresh []))

/-- Behind a semicolon and behind an opening bracket nothing waits either. -/
theorem rests_of_concat {t : Token} (ht : t.kind = .semicolon ∨ t.kind.isOpener) (hstays : gone t = false)
    (c : Context) (us : List Token) : Rests (contextBehind last gone c (ts ++ [t]) us) := by
  rw [contextBehind_append, contextBehind_singleton hstays]
  rcases ht with ht | ht
  · rw [after_of_semicolon ht]
    rfl
  · rw [after_of_isOpener ht]
    rfl

/-- A word that waits for no colon leaves the group as it is. -/
theorem group_after_of_word {t : Token} (hk : t.kind = .identifier)
    (ht : t.text ≠ "case" ∧ t.text ≠ "default") (c : Context) (next : Token) :
    (c.after t next).group = c.group := by
  have hawaits : (t.isOperator "?" || c.awaitsColon t next) = false := by
    simp [Token.isOperator, Context.awaitsColon, Token.isWord, hk, ht]
  rw [after_eq (isPlain_of_kind hk (by decide)) (by simp [hk]) (by simp [hk]), hawaits]
  rfl

/-- Where nothing waits, the first name of a declaration is recognised. -/
theorem recognised_of_rests (h : Declares ts front word [] [name] colon back)
    (hname : name.text ≠ "case" ∧ name.text ≠ "default") (hstays : ∀ t ∈ [word, name], gone t = false)
    (hrests : Rests c) (us : List Token) :
    Recognised (contextBehind last gone c [word, name] us) [] [name] := by
  refine ⟨?_, .inr ⟨rfl, name, rfl⟩⟩
  have hwords : ∀ w ∈ bindingWords, w ≠ "case" ∧ w ≠ "default" := by decide
  have hkind : name.kind = .identifier := by
    obtain ⟨names, hbinds⟩ := h.binds
    rcases binds_cases hbinds with ⟨t, ht, hk⟩ | ⟨us, t, ht, hne, -⟩
    · rwa [List.head_eq_of_cons_eq ht]
    · exact absurd (List.append_inj_left' (ht.symm.trans (List.nil_append [name]).symm) rfl) hne
  have hword := hstays word (by simp)
  have hlast := hstays name (by simp)
  simp only [contextBehind, hword, hlast, Bool.false_eq_true, if_false]
  rw [group_after_of_word hkind hname, group_after_of_word h.isBinding.1 (hwords _ h.isBinding.2)]
  exact hrests

end Declaration

/-! ### The file -/

section File

variable {file source : Text} {stream : TokenStream} {ss : List Statement} {word colon : Token}
  {front before target back : List Token}

/-- The statements that a lowering removes cover the token. -/
def isRemoved (ss : List Statement) : Token → Bool := covers (ss.filter (·.isWhole))

/-- The context in front of the second of two lists of tokens that make up a source. -/
def contextIn (stream : TokenStream) (ss : List Statement) (ts us : List Token) : Context :=
  contextBehind stream.last (isRemoved ss) .initial ts us

/-- A scanned file is refused for the first token of type syntax, if it is named as typed. -/
theorem transpile_eq_error_iff (h : scanSource source = .ok (stream, ss)) (htyped : isTypedFile file)
    {t : Token} : (Lowering.transpile file source).result = .error (.typeSyntax file t) ↔
      findTypeSyntax stream ss = some t := by
  simp only [Lowering.transpile, h, if_pos htyped]
  cases findTypeSyntax stream ss with
  | none => cases ss <;> simp [Except.bind]
  | some u => simp

/-- The search stops in front of a colon that stays, or at the colon exactly when it annotates. -/
theorem findTypeSyntax_at_colon {ts : List Token} (h : scanSource source = .ok (stream, ss))
    (htokens : stream.tokens = ts ++ colon :: back) (hkind : colon.kind = .colon)
    (hstays : isRemoved ss colon = false) :
    (∃ t ∈ ts, findTypeSyntax stream ss = some t) ∨
      (findTypeSyntax stream ss = some colon ↔ annotates (contextIn stream ss ts (colon :: back))) := by
  have hfind : findTypeSyntax stream ss = findOutside stream.last (isRemoved ss) .initial stream.tokens :=
    findTypeSyntax_eq_findOutside h
  rw [hfind, htokens]
  by_cases hquiet : Quiet stream.last (isRemoved ss) .initial ts (colon :: back)
  · right
    have hcolon : ∀ c next afterNext, isTypeSyntax c colon next afterNext = annotates c := by
      intro c next afterNext
      simp only [isTypeSyntax, hkind]
    rw [findOutside_append_of_quiet hquiet, findOutside, hstays, hcolon, contextIn]
    generalize contextBehind stream.last (isRemoved ss) .initial ts (colon :: back) = c
    cases hannotates : annotates c with
    | true => simp
    | false =>
      -- Behind the colon the search finds another token.
      have hstarts := start_lt_of_tokenize (Lowering.tokenize_of_scanSource h).1
      rw [htokens] at hstarts
      have hbehind := (List.pairwise_cons.1 (List.pairwise_append.1 hstarts).2.1).1
      simp only [Bool.false_eq_true, if_false, iff_false]
      intro hsome
      exact absurd (hbehind colon (mem_of_findOutside hsome)) (Nat.lt_irrefl _)
  · exact .inl (exists_findOutside_append hquiet)

/-- A file that is named as typed and holds an annotated declaration is malformed, or is refused for
something in front of the colon, or for the colon exactly where this is recognised. Where a statement may
stand, and behind a semicolon or an opening bracket, this is so if the declaration begins with the
annotated name, which is none of the words that wait for a colon. -/
theorem transpile_annotated (htyped : isTypedFile file) :
    (∀ f, scanSource source = .error f →
      (Lowering.transpile file source).result = .error (.malformedSource file f)) ∧
    ∀ stream ss front word before target colon back, scanSource source = .ok (stream, ss) →
      Declares stream.tokens front word before target colon back →
      (∀ t ∈ word :: (before ++ (target ++ [colon])), isRemoved ss t = false) →
      ((∃ t ∈ stream.tokens, t.start.offset < colon.start.offset ∧
          (Lowering.transpile file source).result = .error (.typeSyntax file t)) ∨
        ((Lowering.transpile file source).result = .error (.typeSyntax file colon) ↔
          Recognised (contextIn stream ss (front ++ word :: (before ++ target)) (colon :: back))
            before target)) ∧
      (AtStatement (isRemoved ss) front ∨
          (∃ us t, front = us ++ [t] ∧ (t.kind = .semicolon ∨ t.kind.isOpener) ∧
            isRemoved ss t = false) →
        ∀ name : Token, name.text ≠ "case" ∧ name.text ≠ "default" → before = [] → target = [name] →
          Recognised (contextIn stream ss (front ++ word :: (before ++ target)) (colon :: back))
            before target) := by
  refine ⟨fun f h => by simp [Lowering.transpile, h], fun stream ss front word before target colon back
    h hdeclares hstays => ⟨?_, ?_⟩⟩
  · have htokenize := (Lowering.tokenize_of_scanSource h).1
    have htokens : stream.tokens = (front ++ word :: (before ++ target)) ++ colon :: back := by
      rw [hdeclares.tokens_eq]
      simp
    rcases findTypeSyntax_at_colon h htokens hdeclares.isColon (hstays colon (by simp)) with
      ⟨t, ht, hfind⟩ | hfind
    · have hstarts := start_lt_of_tokenize htokenize
      rw [htokens] at hstarts
      have hfront := (List.pairwise_append.1 hstarts).2.2 t ht colon List.mem_cons_self
      refine .inl ⟨t, ?_, hfront, (transpile_eq_error_iff h htyped).2 hfind⟩
      rw [htokens]
      exact List.mem_append_left _ ht
    · right
      rw [transpile_eq_error_iff h htyped, hfind, contextIn, contextBehind_append]
      refine annotates_iff htokenize hdeclares (fun t ht => hstays t ?_) _
      rw [List.mem_cons, List.mem_append] at ht
      rcases ht with rfl | ht | ht <;> simp [*]
  · rintro hplace name hname rfl rfl
    have hrests : Rests (contextBehind stream.last (isRemoved ss) .initial front
        ([word, name] ++ colon :: back)) := by
      rcases hplace with hplace | ⟨us, t, rfl, ht, htstays⟩
      · exact (settled_of_atStatement hplace _).rests
      · exact rests_of_concat ht htstays _ _
    rw [contextIn, contextBehind_append]
    refine recognised_of_rests hdeclares hname (fun t ht => hstays t ?_) hrests _
    rcases List.mem_pair.1 ht with rfl | rfl <;> simp

/-- The file `f(); export let x: T;` is refused. -/
theorem transpile_annotatedExport :
    isTypedFile "a.ts" ∧ ∃ t,
      (Lowering.transpile "a.ts" "f(); export let x: T;").result = .error (.typeSyntax "a.ts" t) := by
  have htyped : isTypedFile "a.ts" := by decide
  let call := [inFirstLine .identifier "f" 0, inFirstLine .leftParen "(" 1, inFirstLine .rightParen ")" 2,
    inFirstLine .semicolon ";" 3]
  obtain ⟨⟨stream, ss⟩, hscan, hp⟩ := Except.exists_of_any_toOption
    (x := scanSource "f(); export let x: T;") (p := fun r => r.2.filter (·.isWhole) = [] ∧
      r.1.tokens = call ++ [inFirstLine .exportWord "export" 5] ++
        [inFirstLine .identifier "let" 12, inFirstLine .identifier "x" 16, inFirstLine .colon ":" 17,
          inFirstLine .identifier "T" 19, inFirstLine .semicolon ";" 20]) (by decide +kernel)
  obtain ⟨hwhole, htokens⟩ := of_decide_eq_true hp
  have hstays : ∀ t, isRemoved ss t = false := fun t => by rw [isRemoved, hwhole]; rfl
  have hdeclares : Declares stream.tokens (call ++ [inFirstLine .exportWord "export" 5])
      (inFirstLine .identifier "let" 12) [] [inFirstLine .identifier "x" 16] (inFirstLine .colon ":" 17)
      [inFirstLine .identifier "T" 19, inFirstLine .semicolon ";" 20] :=
    ⟨htokens, ⟨rfl, by decide⟩, .inl rfl, ⟨_, .name ⟨rfl, by decide⟩⟩, rfl⟩
  have hcall : IsScript .statement call := by
    have hname : IsScript (.phrase .value) [inFirstLine .identifier "f" 0] := .name ⟨rfl, by decide⟩
    have hopener : IsPunctuator .leftParen (inFirstLine .leftParen "(" 1) := ⟨rfl, rfl⟩
    have hclose : IsPunctuator .rightParen (inFirstLine .rightParen ")" 2) := ⟨rfl, rfl⟩
    have hvalue := IsScript.call hname (.inl rfl) hopener .noElement hclose
    exact .simple (.expressions (.lastElement (.inl rfl) hvalue .noInitializer)) ⟨rfl, rfl⟩
  have hplace : AtStatement (isRemoved ss) (call ++ [inFirstLine .exportWord "export" 5]) :=
    .exported (.behind .start hcall fun t _ => hstays t) rfl rfl (hstays _)
  obtain ⟨hrefused, hrecognised⟩ := (transpile_annotated htyped).2 stream ss _ _ _ _ _ _ hscan hdeclares
    fun t _ => hstays t
  refine ⟨htyped, ?_⟩
  rcases hrefused with ⟨t, -, -, h⟩ | h
  · exact ⟨t, h⟩
  · exact ⟨_, h.2 (hrecognised (.inl hplace) _ (by decide) rfl rfl)⟩

/-- The file `let a, b: number;` holds an annotated declaration, and is emitted as it is. -/
theorem transpile_laterAnnotation :
    isTypedFile "a.ts" ∧ (∃ stream ss front word before target colon back,
      scanSource "let a, b: number;" = .ok (stream, ss) ∧
      Declares stream.tokens front word before target colon back) ∧
    (Lowering.transpile "a.ts" "let a, b: number;").result = .ok "let a, b: number;" := by
  refine ⟨by decide, ?_, ?_⟩
  · obtain ⟨⟨stream, ss⟩, hscan, hp⟩ := Except.exists_of_any_toOption (x := scanSource "let a, b: number;")
      (p := fun r => r.1.tokens = [inFirstLine .identifier "let" 0, inFirstLine .identifier "a" 4,
        inFirstLine .comma "," 5, inFirstLine .identifier "b" 7, inFirstLine .colon ":" 8,
        inFirstLine .identifier "number" 10, inFirstLine .semicolon ";" 16]) (by decide +kernel)
    exact ⟨stream, ss, [], _, [_, _], [_], _, _, hscan, of_decide_eq_true hp, ⟨rfl, by decide⟩,
      .inr ⟨[_], _, rfl, rfl⟩, ⟨_, .name ⟨rfl, by decide⟩⟩, rfl⟩
  · obtain ⟨code, hcode, hp⟩ := Except.exists_of_any_toOption
      (x := (Lowering.transpile "a.ts" "let a, b: number;").result)
      (p := (· = Text.ofString "let a, b: number;")) (by decide +kernel)
    exact hcode.trans (congrArg Except.ok (of_decide_eq_true hp))

end File

end ScriptBundle.TypeSyntax
