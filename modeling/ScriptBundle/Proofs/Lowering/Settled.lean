import Mathlib.Data.List.Infix
import ScriptBundle.Proofs.Lowering.Lines
import ScriptBundle.Proofs.Lowering.PrologueTokens
import ScriptBundle.Proofs.Lowering.Seams

/-!
# Sources that one lowering settles

A lowering takes the module statements out of a source and puts a prologue in front. What is left has
new neighbours, and it is scanned again when it is lowered again. Here it is shown to hold no module
statement, if no declaration has taken one with it and no token can be read in another way at the edges
of what goes.

* `silent_left`, `openBehind_left`: the tokens that are left;
* `hiddenLine`, `gaps_hiddenLine`: the hashbang line as a comment;
* `Settled`, `Settled.outer_inExpression`: what has been read as a statement goes;
* `exists_tokens_lower`: the tokens of a whole lowered source;
* `moduleStatements_of_transpile`: it holds no module statement, and lowering it again changes nothing.
-/

namespace ScriptBundle

namespace Lowering

open Lexer Statement

/-! ### What is left -/

/-- The keyword `t`, with `after` behind it, stands in an expression: it is an import by a call, or the
`import` of a property. -/
def InExpression (t : Token) (after : List Token) : Prop :=
  t.kind = .importWord ∧ (kindAhead .leftParen after ∨ kindAhead .dot after)

instance (t : Token) (after : List Token) : Decidable (InExpression t after) :=
  inferInstanceAs (Decidable (_ ∧ _))

theorem InExpression.isOther {t : Token} {after : List Token} (h : InExpression t after) :
    isOther t after := by
  obtain ⟨hkind, hahead⟩ := h
  rw [Statement.isOther, hkind]
  rcases hahead with hahead | hahead <;> simp [isOtherImport_eq, hahead]

section Left

variable {es : List Edit} {p : Position} {st : List TokenKind} {parts : List Part} {k : TokenKind}
  {prev prev' : Option Token}

/-- What takes the place of a run holds no brackets and no keywords. -/
theorem Replacement.plain_items (gap : Text) (r : Replacement) :
    ∀ t ∈ (r.items gap).1.map Item.token, t.isPlain ∧ t.isKeyword = false := by
  cases r with
  | breaks => simp [items]
  | varWord => simp [items, inserted, Token.isPlain, Token.isKeyword, TokenKind.isOpener, TokenKind.isCloser]
  | assignment =>
    simp [items, inserted, Token.isPlain, Token.isKeyword, TokenKind.isOpener, TokenKind.isCloser]

theorem Replacement.openBehind_items (gap : Text) (r : Replacement) (st : List TokenKind) :
    openBehind st ((r.items gap).1.map Item.token) = some st :=
  openBehind_plain (fun t ht => (r.plain_items gap t ht).1) st

/-- What is left closes its brackets. -/
theorem openBehind_left (h : Divides st parts) (gap : Text) :
    openBehind st ((left gap parts).1.map Item.token) = some [] := by
  induction h generalizing gap with
  | nil => rfl
  | @keep st st' item parts hst _ ih =>
    rw [left, List.map_cons, openBehind_cons, hst]
    exact ih []
  | @swap st first more r parts _ _ ih =>
    rw [left, List.map_append, openBehind_append_of_eq (r.openBehind_items _ st)]
    exact ih _

/-- A parenthesis and a dot stay behind a token that stays. -/
theorem kindAhead_left (h : Divides st parts) (hk : k = .leftParen ∨ k = .dot)
    (hahead : kindAhead k ((sourceItems parts).map Item.token)) (gap : Text) :
    kindAhead k ((left gap parts).1.map Item.token) := by
  cases h with
  | nil => exact hahead
  | keep => exact hahead
  | @swap _ first more r parts hgoes =>
    exfalso
    have hkind : first.token.kind = k := of_decide_eq_true hahead
    rcases hgoes.starts with hword | hword | hword
    · rcases hk with rfl | rfl <;> simp [Token.isKeyword, hkind] at hword
    · rcases hk with rfl | rfl <;> cases hkind.symm.trans (kind_of_isWord hword)
    · rcases hk with rfl | rfl <;> cases hkind.symm.trans (kind_of_isWord hword)

/-- If each keyword that stays outside all brackets stands in an expression, what is left is silent. -/
theorem silent_left (hdivides : Divides st parts) (hmarked : ∀ part ∈ parts, part.Marked es)
    (houter : Outer (fun t after => t.isKeyword → Stays es t → InExpression t after) prev st
      ((sourceItems parts).map Item.token))
    (hselects : ∀ t ∈ (sourceItems parts).map Item.token, t.kind ≠ .dot → t.kind ≠ .operator →
      t.selectsMember = false)
    (hprev : prev.any (·.selectsMember) → prev'.any (·.selectsMember)) (gap : Text) :
    Silent prev' st ((left gap parts).1.map Item.token) := by
  induction hdivides generalizing prev prev' gap with
  | nil => exact outer_nil prev' []
  | @keep st st' item parts hst hdivides ih =>
    obtain ⟨hstays, hmarked⟩ := List.forall_mem_cons.1 hmarked
    rw [sourceItems_cons, Part.items, List.singleton_append, List.map_cons] at houter hselects
    obtain ⟨hhead, htail⟩ := outer_cons_iff.1 houter
    rw [left, List.map_cons]
    refine outer_cons_iff.2 ⟨fun hnil hmember => ?_, fun mid hmid => ?_⟩
    · cases hword : item.token.isKeyword with
      | false => exact isOther_of_not_isKeyword hword _
      | true =>
        have hmember : prev.any (·.selectsMember) = false :=
          Bool.eq_false_iff.2 fun h => by rw [hprev h] at hmember; cases hmember
        obtain ⟨hkind, hahead⟩ := hhead hnil hmember hword hstays
        refine InExpression.isOther ⟨hkind, ?_⟩
        exact hahead.imp (kindAhead_left hdivides (.inl rfl) · []) (kindAhead_left hdivides (.inr rfl) · [])
    · obtain rfl := Option.some.inj (hst.symm.trans hmid)
      exact ih hmarked (htail _ hst) (fun t ht => hselects t (List.mem_cons_of_mem _ ht)) (fun h => h) []
  | @swap st first more r parts hgoes hdivides ih =>
    -- The tokens that come in are no keywords, and no member is named behind what goes.
    rw [sourceItems_cons, Part.items, List.map_append] at houter hselects
    have houter := houter.of_append hgoes.closes
    have hlast : (((first :: more).map Item.token).getLast?.or prev).any (·.selectsMember) = false := by
      have hmem := List.getLast_mem (List.cons_ne_nil first more)
      rw [List.getLast?_map, List.getLast?_eq_some_getLast (List.cons_ne_nil _ _)]
      have hends := hgoes.ends
      refine hselects _ (List.mem_append_left _ (List.mem_map_of_mem hmem)) ?_ ?_ <;>
        · intro hk
          rw [hk] at hends
          cases hends
    rw [left, List.map_append]
    refine (silent_append_iff (mute_of_forall (fun t ht => (r.plain_items _ t ht).2) prev' st)
      (r.openBehind_items _ st)).2 ?_
    refine ih (fun part h => hmarked part (List.mem_cons_of_mem _ h)) houter
      (fun t ht => hselects t (List.mem_append_right _ ht)) (fun h => ?_) _
    rw [hlast] at h
    cases h

end Left

/-! ### The hashbang line -/

section Hashbang

variable {source : Text} {tokens : TokenStream} {rest : Text}

/-- The hashbang line of a source, as a comment. -/
def hiddenLine (source : Text) : Text := (hideHashbang source).take (hashbang source).length

theorem length_hiddenLine (source : Text) : (hiddenLine source).length = (hashbang source).length := by
  rw [hiddenLine, List.length_take, length_hideHashbang]
  exact Nat.min_eq_left (length_hashbang_le source)

theorem hiddenLine_append_drop (source : Text) :
    hiddenLine source ++ source.drop (hashbang source).length = hideHashbang source := by
  rw [← drop_hideHashbang le_rfl, hiddenLine, List.take_append_drop]

/-- Where there is a hashbang line, nothing on its line is left behind it. -/
theorem hiddenLine_cases (source : Text) :
    (hiddenLine source = [] ∧ hashbang source = []) ∨
      ∃ w, hiddenLine source = Text.ofString "//" ++ w ∧ hashbang source = Text.ofString "#!" ++ w ∧
        (∀ c ∈ w, Lexeme.inLineComment c) ∧
        (source.drop (hashbang source).length).head?.all fun c => !Lexeme.inLineComment c := by
  rcases hideHashbang_cases source with ⟨-, hmark⟩ | ⟨rest, rfl, hhide⟩
  · have hnone : hashbang source = [] := by rw [hashbang, hmark]; rfl
    exact .inl ⟨by rw [hiddenLine, hnone]; rfl, hnone⟩
  · have hline : hashbang (Text.ofString "#!" ++ rest) =
        Text.ofString "#!" ++ rest.takeWhile Lexeme.inLineComment := by
      rw [hashbang, if_pos (List.isPrefixOf_iff_prefix.2 ⟨_, rfl⟩)]
      exact List.takeWhile_append_of_pos (by decide)
    have hcomment : ∀ c ∈ rest.takeWhile Lexeme.inLineComment, Lexeme.inLineComment c := fun c hc =>
      List.mem_takeWhile_imp hc
    have hend := List.head?_dropWhile_not Lexeme.inLineComment rest
    have hsplit : rest = rest.takeWhile Lexeme.inLineComment ++ rest.dropWhile Lexeme.inLineComment :=
      List.takeWhile_append_dropWhile.symm
    rw [hiddenLine, hhide, hline]
    generalize rest.takeWhile Lexeme.inLineComment = w at *
    generalize rest.dropWhile Lexeme.inLineComment = r at *
    subst hsplit
    refine .inr ⟨w, ?_, rfl, hcomment, ?_⟩
    · have hlength : (Text.ofString "#!" ++ w).length = (Text.ofString "//" ++ w).length := rfl
      rw [hlength, ← List.append_assoc, List.take_left]
    · rw [← List.append_assoc, List.drop_left]
      cases r with
      | nil => rfl
      | cons c r => simpa using hend

theorem head?_drop_hashbang (h : hashbang source ≠ []) :
    (source.drop (hashbang source).length).head?.all fun c => !Lexeme.inLineComment c := by
  rcases hiddenLine_cases source with ⟨-, hnone⟩ | ⟨-, -, -, -, hend⟩
  · exact absurd hnone h
  · exact hend

/-- As a comment the hashbang line is a gap, in front of what does not go on with it. -/
theorem gaps_hiddenLine
    (h : hashbang source ≠ [] → rest.head?.all fun c => !Lexeme.inLineComment c) :
    Gaps (hiddenLine source) rest := by
  rcases hiddenLine_cases source with ⟨hnone, -⟩ | ⟨w, hw, hline, hcomment, -⟩
  · rw [hnone]
    exact .nil rest
  · have hend := h (by rw [hline]; exact List.cons_ne_nil _ _)
    have htake : (w ++ rest).takeWhile Lexeme.inLineComment = w := by
      rw [List.takeWhile_append_of_pos hcomment, List.append_right_eq_self]
      cases rest with
      | nil => rfl
      | cons c r =>
        rw [List.head?_cons, Option.all_some, Bool.not_eq_true'] at hend
        rw [List.takeWhile_cons, hend]
        rfl
    have hgap : Gaps (CodePoint.ofChar '/' :: ((CodePoint.ofChar '/' :: w) ++ [])) rest := by
      refine .cons (fun operand => ?_) (.nil rest)
      have hhead : Lexeme.Head operand (CodePoint.ofChar '/') (CodePoint.ofChar '/' :: (w ++ rest)) _ _ :=
        .line rfl rfl
      rw [List.tail_cons, htake] at hhead
      rw [List.length_cons, Nat.add_comm, List.nil_append, List.cons_append]
      exact hhead
    rw [hw]
    rwa [List.append_nil] at hgap

end Hashbang

/-! ### Settled sources -/

/-- One of the statements takes the keyword `t`, with `before` in front of it and `after` behind it, as a
name or as a part of a declarator that has not ended. -/
def Taken (last : Token) (statements : List Statement) (before : List Token) (t : Token)
    (after : List Token) : Prop :=
  ∃ s ∈ statements, ∃ front k mid, before = front ++ k :: mid ∧ s.start = k.start ∧
    Takes last k mid t after

/-- A nested source can do without its module statements. Outside all brackets, each keyword that stays
starts a module statement or stands in an expression, and no declaration takes one that starts a
statement. The neighbours of what goes can be told apart, the slashes that stay are read as before, and
the names that are bound or given out are identifiers. -/
structure Settled (source : Text) (tokens : TokenStream) (statements : List Statement) : Prop where
  nested : Nested tokens.tokens
  expressions : Outer (fun t after => t.isKeyword → isOther t after →
    Stays (sourceEdits source statements) t → InExpression t after) none [] tokens.tokens
  untaken : ∀ before t after, tokens.tokens = before ++ t :: after → openBehind [] before = some [] →
    t.isKeyword → isOther t after = false → Stays (sourceEdits source statements) t →
    ¬ Taken tokens.last statements before t after
  seams : tokens.tokens.IsChain (Seam (sourceEdits source statements))
  slashes : SlashesStay (sourceEdits source statements) true true tokens.tokens
  names : ∀ s ∈ statements, ∀ name ∈ s.variables, isIdentifier name

section Settled

variable {source : Text} {tokens : TokenStream} {statements : List Statement}

theorem adds_heading (h : ∀ s ∈ statements, ∀ name ∈ s.variables, isIdentifier name) :
    Adds true [] (heading statements) true [] := by
  unfold heading
  split
  · exact adds_nil true []
  · exact adds_prologue h

/-- What a source is lowered to starts with no hashbang. -/
theorem hashbang_lower (source : Text) (statements : List Statement) :
    (Text.ofString "#!").isPrefixOf (lower source statements) = false := by
  cases statements with
  | nil =>
    rcases hideHashbang_cases source with ⟨h, hmark⟩ | ⟨rest, -, h⟩
    · rw [lower, h]
      exact hmark
    · rw [lower, h]
      rfl
  | cons s ss =>
    have hprologue : prologue (s :: ss) = esModuleMark :: (prologue (s :: ss)).tail := rfl
    have hjoin : ∃ w, Text.join " " (prologue (s :: ss)) ++ Text.ofString " " = esModuleMark ++ w := by
      rw [join_append_sep _ (by rw [hprologue]; exact List.cons_ne_nil _ _), hprologue, List.flatMap_cons,
        List.append_assoc]
      exact ⟨_, rfl⟩
    obtain ⟨w, hw⟩ := hjoin
    have hlower : lower source (s :: ss) = (Text.join " " (prologue (s :: ss)) ++ Text.ofString " ") ++
        applyEdits 0 (hideHashbang source) (sourceEdits source (s :: ss)) := rfl
    rw [hlower, hw]
    rfl

/-- The keyword of a statement goes. -/
theorem not_stays_of_records (hscan : scanSource source = .ok (tokens, statements)) {s : Statement}
    {t : Token} (hs : s ∈ statements) (hrecords : s.Records t) (ht : t ∈ tokens.tokens) :
    ¬ Stays (sourceEdits source statements) t := by
  obtain ⟨e, he, hstart⟩ : ∃ e ∈ s.edits (hideHashbang source), e.start = s.start.offset := by
    obtain ⟨start, stop, form⟩ := s
    cases form with
    | imports | reexportAll | reexports | exportList | declaration =>
      exact ⟨_, List.mem_cons_self, rfl⟩
    | default name => cases name <;> exact ⟨_, List.mem_cons_self, rfl⟩
  have hmem : e ∈ sourceEdits source statements := List.mem_flatMap.2 ⟨s, hs, he⟩
  have hlt := (bounds_of_mem_sourceEdits hscan hmem).1
  have htoken := (increasing_tokens (tokenize_of_scanSource hscan).1).2 t ht
  rw [hstart, hrecords.1] at hlt
  intro hstays
  rcases hstays e hmem with h | h
  · rw [hstart, hrecords.1] at h
    omega
  · omega

/-- Outside all brackets, the keywords that stay stand in expressions: the scan has recorded the others. -/
theorem Settled.outer_inExpression (hscan : scanSource source = .ok (tokens, statements))
    (hsettled : Settled source tokens statements) :
    Outer (fun t after => t.isKeyword → Stays (sourceEdits source statements) t → InExpression t after)
      none [] tokens.tokens := by
  obtain ⟨-, hstatements⟩ := tokenize_of_scanSource hscan
  intro before t after hts hst hmember hword hstays
  cases hother : isOther t after with
  | true => exact hsettled.expressions before t after hts hst hmember hword hother hstays
  | false =>
    have hread : readStatement tokens.last t after ≠ .ok none := fun h => by
      rw [readStatement_eq_none_iff.1 h] at hother
      cases hother
    rcases recorded_or_taken_of_reads hstatements (Nat.zero_le _) hsettled.nested hts hst hmember hword
      hread with ⟨s, hs, hrecords⟩ | htaken
    · exact absurd hstays (not_stays_of_records hscan hs hrecords (by simp [hts]))
    · exact absurd htaken (hsettled.untaken before t after hts hst hword hother hstays)

/-- The parts of a source. -/
theorem exists_parts (hscan : scanSource source = .ok (tokens, statements))
    (hsettled : Settled source tokens statements) :
    ∃ parts final, (sourceItems parts).map Item.token = tokens.tokens ∧ Divides [] parts ∧
      (∀ part ∈ parts, part.Marked (sourceEdits source statements)) ∧ Seams true true parts ∧
      source.drop (hashbang source).length = textOf (sourceItems parts) ++ final ∧
      Lays true (sourceItems parts) final ∧ Gaps final [] ∧
      applyEdits 0 (hideHashbang source) (sourceEdits source statements) =
        hiddenLine source ++ (leftText parts ++ final) := by
  obtain ⟨htokens, hstatements⟩ := tokenize_of_scanSource hscan
  obtain ⟨items, final, hitems, hsource, hlays, hplaced, hfinal⟩ := exists_lays_of_tokenize htokens
  have hplain : ∀ s ∈ statements, s.isImport → ∀ b ∈ s.bindings, ∀ t ∈ tokens.tokens, t.text = b.inner →
      t.isPlain := by
    intro s hs himport b hb t ht htext
    obtain ⟨operand, rest, hlexes⟩ := lexes_of_tokenize htokens ht
    refine isPlain_of_isIdentifier hlexes (htext ▸ hsettled.names s hs b.inner ?_)
    obtain ⟨start, stop, form⟩ := s
    cases form with
    | imports specifier bindings typeOnly => exact List.mem_map_of_mem hb
    | reexportAll | reexports | exportList | declaration | default => cases himport
  obtain ⟨parts, rfl, hedits, hdivides⟩ :=
    exists_parted_of_scanFrom (hideHashbang source) hstatements hitems hsettled.nested hplain
  have hdrop : source.drop (hashbang source).length = textOf (sourceItems parts) ++ final :=
    List.append_cancel_left ((hashbang_append_drop source).trans hsource)
  replace hedits : parts.filterMap Part.edit? = sourceEdits source statements := hedits
  have hedited : Edited (sourceEdits source statements)
      (Position.start.after (hashbang source)) parts :=
    { placed := hplaced
      increasing := hitems ▸ increasing_tokens htokens
      nonempty := fun e he => (bounds_of_mem_sourceEdits hscan he).1
      front := fun e he => .inr (hedits ▸ he)
      mem := fun e he => hedits ▸ he }
  refine ⟨parts, final, hitems, hdivides, hedited.marked, ?_, hdrop, hlays, hfinal, ?_⟩
  · exact seams_of_edited hedited hlays hdivides (hitems ▸ hsettled.seams) (hitems ▸ hsettled.slashes)
  · have hparts := applyEdits_parts hplaced final
    have hbehind := fun e he => le_start_of_mem_edits hplaced (e := e) he
    rw [Position.offset_after, show Position.start.offset = 0 from rfl, ← length_hiddenLine, hedits]
      at hparts hbehind
    rw [← hiddenLine_append_drop, hdrop, applyEdits_append _ _ hbehind, hparts]

/-- The tokens of a lowered source: mute ones, then those that are left. -/
theorem exists_tokens_lower (hscan : scanSource source = .ok (tokens, statements))
    (hsettled : Settled source tokens statements) :
    ∃ stream front parts, tokenize (lower source statements) = .ok stream ∧
      SameSigns stream.tokens (front ++ (left (hiddenLine source) parts).1.map Item.token) ∧
      openBehind [] front = some [] ∧ Mute none [] front ∧
      (sourceItems parts).map Item.token = tokens.tokens ∧ Divides [] parts ∧
      ∀ part ∈ parts, part.Marked (sourceEdits source statements) := by
  obtain ⟨parts, final, hitems, hdivides, hmarked, hseams, hdrop, hlays, hfinal, hbody⟩ :=
    exists_parts hscan hsettled
  obtain ⟨front, hwrites, hopen, hmute⟩ := adds_heading hsettled.names
  have hgap : Gaps (hiddenLine source) (leftText parts ++ final) := by
    refine gaps_hiddenLine fun hne => ?_
    have hend := hdrop ▸ head?_drop_hashbang hne
    by_cases htouch : Touches parts
    · -- Behind a hashbang line stands no letter.
      obtain ⟨c, hc, hletter⟩ := (Option.any_eq_true _ _).1 (head?_of_touches hseams htouch final)
      rw [hc, Option.all_some, (letter_continues hletter).2] at hend
      cases hend
    · rwa [head?_leftText hlays htouch]
  obtain ⟨hleft, hlast⟩ := lays_left hseams hlays hfinal hgap
  have hend : Gaps ((left (hiddenLine source) parts).2 ++ final) [] :=
    Gaps.append (by rwa [List.append_nil]) hfinal
  have htext : lower source statements = heading statements ++ (textOf (left (hiddenLine source) parts).1 ++
      ((left (hiddenLine source) parts).2 ++ final)) := by
    rw [lower_eq_heading, hbody, ← List.append_assoc (textOf _), textOf_left, List.append_assoc]
  obtain ⟨us, hus, hsigns⟩ := hwrites .start (textOf (left (hiddenLine source) parts).1 ++
      ((left (hiddenLine source) parts).2 ++ final))
  rw [← htext, ← first_eq_outside (hashbang_lower source statements)] at hus
  have hbody := hleft.reads (Position.start.after (heading statements))
  have hreads := hus.trans (hbody.trans (by
    have := hend.reads (operandBehind true ((left (hiddenLine source) parts).1.map Item.token))
      ((Position.start.after (heading statements)).after (textOf (left (hiddenLine source) parts).1))
    rwa [List.append_nil] at this))
  refine ⟨⟨_, _⟩, front, parts, tokenize_eq_ok_iff.2 ⟨_, hreads⟩, ?_, hopen, hmute none, hitems, hdivides, hmarked⟩
  rw [SameSigns, List.append_nil, List.map_append, List.map_append, hsigns, map_sign_tokensAt, List.map_map]
  rfl

/-- A lowered source holds no module statement. -/
theorem moduleStatements_lower (hscan : scanSource source = .ok (tokens, statements))
    (hsettled : Settled source tokens statements) :
    ∃ stream, scanSource (lower source statements) = .ok (stream, []) := by
  obtain ⟨htokens, -⟩ := tokenize_of_scanSource hscan
  obtain ⟨stream, front, parts, hstream, hsigns, hopen, hmute, hitems, hdivides, hmarked⟩ :=
    exists_tokens_lower hscan hsettled
  have hleft : Silent (front.getLast?.or none) [] ((left (hiddenLine source) parts).1.map Item.token) := by
    refine silent_left hdivides hmarked (hitems ▸ hsettled.outer_inExpression hscan) ?_
      (fun h => by cases h) _
    rw [hitems]
    exact fun t ht hdot hoperator => selectsMember_of_tokenize htokens ht hdot hoperator
  have hsilent : Silent none [] stream.tokens :=
    (silent_congr hsigns rfl).2 ((silent_append_iff hmute hopen).2 hleft)
  have hnested : openBehind [] stream.tokens = some [] := by
    rw [openBehind_congr hsigns, openBehind_append_of_eq hopen]
    exact openBehind_left hdivides _
  have hscan : scan stream = .ok [] := (scanFrom_eq_nil_iff hnested).2 hsilent
  exact ⟨stream, by rw [scanSource, hstream]; simp only [hscan]⟩

/-- A source without module statements and without a hashbang stays as it is, or it is refused for its
type syntax. -/
theorem transpile_of_no_statements (file : Text) {text : Text}
    (h : scanSource text = .ok (tokens, []))
    (hmark : (Text.ofString "#!").isPrefixOf text = false) :
    (Lowering.transpile file text).result = .ok text ∨
      isTypedFile file ∧ ∃ t, (Lowering.transpile file text).result = .error (.typeSyntax file t) := by
  have hlower : lower text [] = text := by
    change hideHashbang text = text
    rw [hideHashbang, hmark]
    rfl
  simp only [Lowering.transpile, h, hlower]
  cases hcheck : if isTypedFile file then findTypeSyntax tokens [] else none with
  | none => exact .inl rfl
  | some t =>
    refine .inr ⟨?_, t, rfl⟩
    by_contra hfile
    rw [if_neg hfile] at hcheck
    cases hcheck

/-- What a settled source is lowered to holds no module statement, and to lower it once more changes
nothing. Only a second look for type syntax, in a file that is named as typed, can come out otherwise. -/
theorem moduleStatements_of_transpile {file out : Text}
    (hscan : scanSource source = .ok (tokens, statements))
    (hsettled : Settled source tokens statements)
    (h : (Lowering.transpile file source).result = .ok out) :
    moduleStatements out = .ok [] ∧
      ((Lowering.transpile file out).result = .ok out ∨
        isTypedFile file ∧ ∃ t, (Lowering.transpile file out).result = .error (.typeSyntax file t)) := by
  obtain ⟨tokens', statements', hscan', rfl⟩ := transpile_eq_ok h
  obtain ⟨rfl, rfl⟩ := Prod.mk.inj (Except.ok.inj (hscan.symm.trans hscan'))
  obtain ⟨stream, hstream⟩ := moduleStatements_lower hscan hsettled
  refine ⟨by rw [moduleStatements, hstream]; rfl, ?_⟩
  exact transpile_of_no_statements file hstream (hashbang_lower source statements)

end Settled

/-- A source with a hashbang, an import of each kind with a regular expression between them, and exports
in front of a declaration and of a default value. -/
def settledSource : Text :=
  "#!a\nimport b from 'c';\n/b/.test(b);\nexport let d = import('e'); export default class \x7b\x7d"

theorem moduleStatements_of_settledSource : ∃ out tokens statements,
    scanSource settledSource = .ok (tokens, statements) ∧
      Settled settledSource tokens statements ∧
      (Lowering.transpile "a.js" settledSource).result = .ok out ∧
      moduleStatements out = .ok [] ∧ (Lowering.transpile "a.js" out).result = .ok out := by
  have hcheck : (scanSource settledSource).toOption.any fun (tokens, statements) =>
      let es := sourceEdits settledSource statements
      Nested tokens.tokens ∧ tokens.tokens.IsChain (Seam es) ∧ SlashesStay es true true tokens.tokens ∧
        (∀ ts ∈ tokens.tokens.tails, ∀ t ∈ ts.head?, t.isKeyword → Stays es t →
          isOther t ts.tail ∧ InExpression t ts.tail) ∧
        (∀ s ∈ statements, ∀ name ∈ s.variables, isIdentifier name) := by
    rw [settledSource, Text.ofString_ofList]
    decide +kernel
  cases hscan : scanSource settledSource with
  | error f =>
    rw [hscan] at hcheck
    cases hcheck
  | ok r =>
    obtain ⟨tokens, statements⟩ := r
    rw [hscan] at hcheck
    obtain ⟨hnested, hseams, hslashes, hexpressions, hnames⟩ := of_decide_eq_true hcheck
    have hstays : ∀ before t after, tokens.tokens = before ++ t :: after → t.isKeyword →
        Stays (sourceEdits settledSource statements) t → isOther t after ∧ InExpression t after :=
      fun before t after hts => hexpressions (t :: after) ((List.mem_tails _ _).2 ⟨before, hts.symm⟩) t rfl
    have hsettled : Settled settledSource tokens statements :=
      { nested := hnested
        expressions := fun before t after hts _ _ hword _ h => (hstays before t after hts hword h).2
        untaken := fun before t after hts _ hword hother h => by
          rw [(hstays before t after hts hword h).1] at hother
          cases hother
        seams := hseams
        slashes := hslashes
        names := hnames }
    have hfile : ¬ isTypedFile "a.js" := by decide
    have hout := result_transpile hscan fun htyped => absurd htyped hfile
    obtain ⟨hnone, hagain | ⟨htyped, -⟩⟩ := moduleStatements_of_transpile hscan hsettled hout
    · exact ⟨_, tokens, statements, rfl, hsettled, hout, hnone, hagain⟩
    · exact absurd htyped hfile

/-- An exported declaration whose initializer ends in an operator, with an import on the next line. -/
def incrementedSource : Text := "export let a = b++\nimport x from \"y\""

/-- The one module statement that is recorded in this source. -/
def incrementedStatements : List Statement :=
  [⟨⟨0, 1, 1⟩, 6, .declaration [⟨"a", "a", false⟩] false (some ⟨.identifier, "let", ⟨7, 1, 8⟩⟩)⟩]

/-- The import is taken for a part of the initializer, so it is left. -/
theorem moduleStatements_left_behind_increment : ∃ out,
    (Lowering.transpile "a.js" incrementedSource).result = .ok out ∧
      (moduleStatements out).toOption.map (·.map (·.specifier?)) = some [some (Text.ofString "y")] := by
  have hstatements : (scanSource incrementedSource).toOption.map (·.2) = some incrementedStatements := by
    rw [incrementedSource, Text.ofString_ofList]
    decide +kernel
  obtain ⟨-, -, hout⟩ :=
    exists_result_transpile "a.js" incrementedSource incrementedStatements (by decide) hstatements
  refine ⟨_, hout, ?_⟩
  -- With its literals read off, the lowered source is short enough to be scanned again.
  unfold lower prologue esModuleMark incrementedSource incrementedStatements
  simp only [List.zipIdx, List.flatMap_cons, Statement.getters, List.map_cons, getter]
  repeat rw [Text.ofString_ofList]
  decide +kernel

end Lowering

end ScriptBundle
