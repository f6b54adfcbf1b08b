import ScriptBundle.Lowering
import ScriptBundle.Proofs.Token.Layout

/-!
# Putting pieces of a source in the place of others

A lowering takes runs of tokens out of a source and puts line feeds, `var` or `exports.default =` in
their place. Here the source is a list of parts, each a token that stays or a run that goes. If the
seams hold, the edited source has the tokens that stay and those that were put in, and no others.

* `Part`, `Replacement`: what stays and what goes;
* `left`: the items that are left, `applyEdits_parts`: the text that they make;
* `Seams`: where a token could change because of its new neighbours;
* `lays_left`: with good seams the lexer finds the items that are left.
-/

namespace ScriptBundle

namespace Lowering

open Lexer
open Lexeme (Head Alike separators inWord operandMayFollow)

/-- What takes the place of a run of tokens. -/
inductive Replacement
  | breaks (count : Nat)
  | varWord
  | assignment

/-- A token that a lowering puts in. -/
def inserted (kind : TokenKind) (text : Text) : Token := ⟨kind, text, .start⟩

namespace Replacement

/-- The text that takes the place. -/
def text : Replacement → Text
  | breaks count => List.replicate count '\n'
  | varWord => "var"
  | assignment => "exports.default ="

/-- The items that take the place behind the gaps `gap`, and the gaps behind them. -/
def items (gap : Text) : Replacement → List Item × Text
  | breaks count => ([], gap ++ List.replicate count (CodePoint.ofChar '\n'))
  | varWord => ([⟨gap, inserted .identifier "var"⟩], [])
  | assignment =>
    ([⟨gap, inserted .identifier "exports"⟩, ⟨[], inserted .dot "."⟩,
      ⟨[], inserted .identifier "default"⟩, ⟨" ", inserted .equals "="⟩], [])

/-- Whether an operand may stand behind, when it may in front. -/
def operand (before : Bool) : Replacement → Bool
  | breaks _ => before
  | varWord => false
  | assignment => true

theorem textOf_items (gap : Text) (r : Replacement) :
    textOf (r.items gap).1 ++ (r.items gap).2 = gap ++ r.text := by
  cases r with
  | breaks => rfl
  | varWord => simp [items, text, inserted]
  | assignment =>
    simp only [items, text, inserted, textOf_cons, textOf_nil, List.append_nil, List.nil_append]
    rfl

end Replacement

/-- A piece of a source under a lowering: a token that stays, or a run of tokens that goes. -/
inductive Part
  | keep (item : Item)
  | swap (first : Item) (more : List Item) (replacement : Replacement)

namespace Part

/-- The items of the source. -/
def items : Part → List Item
  | keep item => [item]
  | swap first more _ => first :: more

/-- The edit of the source. -/
def edit? : Part → Option Edit
  | keep _ => none
  | swap first more r =>
    some ⟨first.token.start.offset, ((first :: more).getLast (List.cons_ne_nil _ _)).token.stop, r.text⟩

end Part

/-- The items of a list of parts. -/
def sourceItems (parts : List Part) : List Item := parts.flatMap Part.items

/-- The items that are left of a list of parts behind the gaps `gap`, and the gaps behind them. -/
def left (gap : Text) : List Part → List Item × Text
  | [] => ([], gap)
  | .keep item :: parts =>
    let r := left [] parts
    ({ item with gap := gap ++ item.gap } :: r.1, r.2)
  | .swap first _ replacement :: parts =>
    let here := replacement.items (gap ++ first.gap)
    let r := left here.2 parts
    (here.1 ++ r.1, r.2)

/-- The text that is left of a list of parts. -/
def leftText : List Part → Text
  | [] => []
  | .keep item :: parts => item.text ++ leftText parts
  | .swap first _ replacement :: parts => first.gap ++ replacement.text ++ leftText parts

theorem textOf_left (gap : Text) (parts : List Part) :
    textOf (left gap parts).1 ++ (left gap parts).2 = gap ++ leftText parts := by
  induction parts generalizing gap with
  | nil => simp [left, leftText]
  | cons part parts ih =>
    cases part with
    | keep item =>
      have := ih []
      rw [List.nil_append] at this
      simp only [left, leftText, textOf_cons, Item.text, List.append_assoc, this]
    | swap first more r =>
      simp only [left, leftText, textOf_append]
      rw [List.append_assoc, ih, ← List.append_assoc, r.textOf_items]
      simp only [List.append_assoc]

/-! ### Edits -/

theorem sourceItems_cons (part : Part) (parts : List Part) :
    sourceItems (part :: parts) = part.items ++ sourceItems parts :=
  List.flatMap_cons

/-- The edits of parts that stand at `p` start behind `p`, and end behind their starts. -/
theorem le_start_of_mem_edits {p : Position} {parts : List Part} (h : Placed p (sourceItems parts))
    {e : Edit} (he : e ∈ parts.filterMap Part.edit?) : p.offset ≤ e.start ∧ e.start ≤ e.stop := by
  induction parts generalizing p with
  | nil => cases he
  | cons part parts ih =>
    rw [sourceItems_cons] at h
    have hrest := ih (placed_append h)
    rw [Position.offset_after] at hrest
    cases part with
    | keep item =>
      rw [List.filterMap_cons_none (by rfl)] at he
      have := hrest he
      omega
    | swap first more r =>
      rw [List.filterMap_cons_some (by rfl)] at he
      rcases List.mem_cons.1 he with rfl | he
      · have hstart : first.token.start.offset = p.offset + first.gap.length := by
          rw [h.1, Position.offset_after]
        have hstop := stop_getLast h (List.cons_ne_nil _ _)
        simp only [Part.items, textOf_cons, List.length_append] at hstop
        simp only
        omega
      · have := hrest he
        omega

/-- What stands in front of all edits stays. -/
theorem applyEdits_append {pos : Nat} (w s : Text) {es : List Edit}
    (h : ∀ e ∈ es, pos + w.length ≤ e.start ∧ e.start ≤ e.stop) :
    applyEdits pos (w ++ s) es = w ++ applyEdits (pos + w.length) s es := by
  cases es with
  | nil => rfl
  | cons e es =>
    obtain ⟨hstart, hstop⟩ := h e List.mem_cons_self
    have htake : (w ++ s).take (e.start - pos) = w ++ s.take (e.start - (pos + w.length)) := by
      rw [show e.start - pos = w.length + (e.start - (pos + w.length)) by omega,
        List.take_length_add_append]
    have hdrop : (w ++ s).drop (e.stop - pos) = s.drop (e.stop - (pos + w.length)) := by
      rw [show e.stop - pos = w.length + (e.stop - (pos + w.length)) by omega,
        List.drop_length_add_append]
    simp only [applyEdits, htake, hdrop, List.append_assoc]

/-- The edits of a list of parts leave what `leftText` says. -/
theorem applyEdits_parts {p : Position} {parts : List Part} (h : Placed p (sourceItems parts))
    (final : Text) :
    applyEdits p.offset (textOf (sourceItems parts) ++ final) (parts.filterMap Part.edit?) =
      leftText parts ++ final := by
  induction parts generalizing p with
  | nil => rfl
  | cons part parts ih =>
    rw [sourceItems_cons] at h ⊢
    have hrest := placed_append h
    have ih := ih hrest
    rw [Position.offset_after] at ih
    cases part with
    | keep item =>
      rw [List.filterMap_cons_none (by rfl), textOf_append, List.append_assoc, applyEdits_append, ih]
      · simp only [Part.items, leftText, textOf_cons, textOf_nil, List.append_nil, Item.text,
          List.append_assoc]
      · intro e he
        have := le_start_of_mem_edits hrest he
        rwa [Position.offset_after] at this
    | swap first more r =>
      have hstart : first.token.start.offset = p.offset + first.gap.length := by
        rw [h.1, Position.offset_after]
      have hstop := stop_getLast h (List.cons_ne_nil _ _)
      simp only [Part.items] at hstop ih ⊢
      rw [List.filterMap_cons_some (by rfl)]
      have htake : (textOf (first :: more ++ sourceItems parts) ++ final).take
          (p.offset + first.gap.length - p.offset) = first.gap := by
        rw [Nat.add_sub_cancel_left, List.cons_append, textOf_cons, List.append_assoc, List.take_left]
      have hdrop : (textOf (first :: more ++ sourceItems parts) ++ final).drop
          (p.offset + (textOf (first :: more)).length - p.offset) =
          textOf (sourceItems parts) ++ final := by
        rw [Nat.add_sub_cancel_left, textOf_append, List.append_assoc, List.drop_left]
      simp only [applyEdits, leftText, hstart, hstop, htake, hdrop, ih, List.append_assoc]

/-! ### Seams -/

/-- The seams of a list of parts hold, when an operand may follow in front of them in the source and in
the edited source as given: a slash is read in the same way in both, a token that touches a run which
goes is sealed, a run starts with a letter, and where a word takes its place a word ended it. -/
inductive Seams : Bool → Bool → List Part → Prop
  | nil (source out : Bool) : Seams source out []
  | keep {source out : Bool} {item : Item} {parts : List Part}
      (hslash : Text.headIs item.token.text '/' → out = source)
      (hsealed : ∀ first more r rest, parts = .swap first more r :: rest → first.gap = [] →
        item.token.kind.isSealed)
      (h : Seams (operandMayFollow item.token.kind item.token.text)
        (operandMayFollow item.token.kind item.token.text) parts) :
      Seams source out (.keep item :: parts)
  | swap {source out : Bool} {first : Item} {more : List Item} {r : Replacement} {parts : List Part}
      (hletter : first.token.text.head?.any (·.isAsciiLetter))
      (hword : (∃ n, r = .breaks n) ∨
        ((first :: more).getLast (List.cons_ne_nil _ _)).token.kind = .identifier)
      (hassign : r = .assignment → ∀ item rest, parts = .keep item :: rest → item.gap = [] →
        Text.headIs item.token.text '=' = false ∧ Text.headIs item.token.text '>' = false)
      (h : Seams (operandBehind source ((first :: more).map Item.token)) (r.operand out) parts) :
      Seams source out (.swap first more r :: parts)

/-- A run that goes touches what is in front of the parts. -/
def Touches (parts : List Part) : Prop :=
  ∃ first more r rest, parts = .swap first more r :: rest ∧ first.gap = []

variable {source out : Bool} {parts : List Part} {final : Text}

theorem letter_continues {c : CodePoint} (h : c.isAsciiLetter) :
    inWord c ∧ Lexeme.inLineComment c := by
  have hrange : (65 ≤ c.val ∧ c.val ≤ 90) ∨ (97 ≤ c.val ∧ c.val ≤ 122) := by
    simpa [CodePoint.isAsciiLetter] using h
  have hlow : c.val < 0x80 := by omega
  refine ⟨by simp [inWord, CodePoint.isIdentifierPart, hlow, h], ?_⟩
  have hne : ∀ d : CodePoint, d.val < 65 → c ≠ d := by
    rintro d hd rfl
    omega
  simp only [Lexeme.inLineComment, Bool.and_eq_true, decide_eq_true_eq]
  exact ⟨hne _ (by decide), hne _ (by decide)⟩

/-- The first run starts with a letter. -/
theorem head?_of_touches (hseams : Seams source out parts) (h : Touches parts) (rest : Text) :
    (textOf (sourceItems parts) ++ rest).head?.any (·.isAsciiLetter) := by
  obtain ⟨first, more, r, ps, rfl, hgap⟩ := h
  cases hseams with
  | swap hletter =>
    obtain ⟨c, hc, hc'⟩ := (Option.any_eq_true _ _).1 hletter
    rw [sourceItems_cons, Part.items, List.cons_append, textOf_cons, hgap, List.nil_append,
      List.append_assoc, List.head?_append, hc]
    exact hc'

theorem exists_swap_of_touches (h : ¬ Touches parts) :
    parts = [] ∨ (∃ item ps, parts = .keep item :: ps) ∨
      ∃ first more r ps, parts = .swap first more r :: ps ∧ first.gap ≠ [] := by
  rcases parts with _ | ⟨item | ⟨first, more, r⟩, ps⟩
  · exact .inl rfl
  · exact .inr (.inl ⟨item, ps, rfl⟩)
  · exact .inr (.inr ⟨first, more, r, ps, rfl, fun hgap => h ⟨first, more, r, ps, rfl, hgap⟩⟩)

/-- The source and the edited source start in the same way, unless a run that goes comes first. -/
theorem head?_leftText (hlays : Lays source (sourceItems parts) final) (h : ¬ Touches parts) :
    (leftText parts ++ final).head? = (textOf (sourceItems parts) ++ final).head? := by
  rcases exists_swap_of_touches h with rfl | ⟨item, ps, rfl⟩ | ⟨first, more, r, ps, rfl, hgap⟩
  · rfl
  · rw [sourceItems_cons] at hlays ⊢
    obtain ⟨c, w, hw⟩ := List.exists_cons_of_ne_nil hlays.2.1.ne_nil
    have hne : item.text ≠ [] := by simp [Item.text, hw]
    obtain ⟨d, v, hv⟩ := List.exists_cons_of_ne_nil hne
    rw [leftText, textOf_append, show textOf (Part.keep item).items = item.text by
      simp [Part.items, Item.text], hv]
    rfl
  · obtain ⟨c, w, hw⟩ := List.exists_cons_of_ne_nil hgap
    rw [leftText, sourceItems_cons, Part.items, List.cons_append, textOf_cons, hw]
    rfl

/-- A token in front of parts that it may touch, in both sources. -/
theorem alike_token {operand : Bool} {item : Item}
    (hlexes : Lexes operand item.token.kind item.token.text (textOf (sourceItems parts) ++ final))
    (hsealed : ∀ first more r rest, parts = .swap first more r :: rest → first.gap = [] →
      item.token.kind.isSealed)
    (h : ¬ Touches parts → Alike (textOf (sourceItems parts) ++ final) (leftText parts ++ final)) :
    Alike (item.token.text ++ (textOf (sourceItems parts) ++ final))
      (item.token.text ++ (leftText parts ++ final)) := by
  by_cases htouch : Touches parts
  · -- The token is sealed, so it ends in a separator.
    obtain ⟨first, more, r, ps, hparts, hgap⟩ := htouch
    obtain ⟨⟨d, hd, hlast⟩, -⟩ := hlexes.of_isSealed (hsealed first more r ps hparts hgap)
    exact Lexeme.alike_of_getLast? hlast hd _ _
  · exact (h htouch).append _

/-- The source and the edited source agree up to a separator, unless a run that goes comes first. -/
theorem alike_leftText (hlays : Lays source (sourceItems parts) final)
    (hseams : Seams source out parts) (h : ¬ Touches parts) :
    Alike (textOf (sourceItems parts) ++ final) (leftText parts ++ final) := by
  induction hseams with
  | nil => exact .inl rfl
  | @keep source out item parts hslash hsealed hseams ih =>
    obtain ⟨-, hlexes, hrest⟩ := hlays
    have hsource : textOf (sourceItems (.keep item :: parts)) ++ final =
        item.gap ++ (item.token.text ++ (textOf (sourceItems parts) ++ final)) := by
      simp [sourceItems_cons, Part.items]
    rw [hsource, leftText, Item.text, List.append_assoc, List.append_assoc]
    exact (alike_token hlexes hsealed (ih hrest)).append _
  | @swap source out first more r parts hletter =>
    obtain ⟨hgaps, -, -⟩ := hlays
    have hgap : first.gap ≠ [] := fun hgap => h ⟨first, more, r, parts, rfl, hgap⟩
    obtain ⟨c, hc, hc'⟩ := (Option.any_eq_true _ _).1 hletter
    obtain ⟨d, hd, hlast⟩ := hgaps.getLast?_mem (by
      rw [List.head?_append, hc]
      exact (letter_continues hc').2) hgap
    simp only [sourceItems_cons, Part.items, List.cons_append, textOf_cons, leftText,
      List.append_assoc]
    exact Lexeme.alike_of_getLast? hlast hd _ _

/-! ### What is put in -/

/-- An equals sign in front of a text that begins no longer operator. -/
theorem lexes_equals {rest : Text}
    (h : Text.headIs rest '=' = false ∧ Text.headIs rest '>' = false)
    (operand : Bool) : Lexes operand .equals "=" rest := by
  have hall : ∀ op ∈ Lexeme.operators, op.head? = some (CodePoint.ofChar '=') →
      ∃ d ∈ op.tail.head?, d = '=' ∨ d = '>' := by decide +kernel
  have hnumber : Lexeme.startsNumber '=' rest = false := by
    simp [Lexeme.startsNumber, show (CodePoint.ofChar '=').isDigit = false by decide,
      show CodePoint.ofChar '=' ≠ '.' by decide]
  refine lexes_mark (by decide) (by decide +kernel) hnumber (by decide) (by decide) fun op hop hc => ?_
  obtain ⟨d, hd, hequals⟩ := hall op hop hc
  refine ⟨d, hd, fun hrest => ?_⟩
  obtain ⟨w, rfl⟩ := List.head?_eq_some_iff.1 hrest
  rcases hequals with rfl | rfl
  · cases h.1
  · cases h.2

/-- The last item of a run is a token in front of what follows the run. -/
theorem lexes_getLast {items : List Item} (h : Lays source items final) (hne : items ≠ []) :
    ∃ operand, Lexes operand (items.getLast hne).token.kind (items.getLast hne).token.text final := by
  rw [← List.dropLast_append_getLast hne, lays_append_iff] at h
  obtain ⟨-, -, hlexes, -⟩ := h
  rw [textOf_nil, List.nil_append] at hlexes
  exact ⟨_, hlexes⟩

/-- Behind an assignment no operator goes on with what is left. -/
theorem headIs_leftText (hfinal : Gaps final [])
    (hassign : ∀ item rest, parts = .keep item :: rest → item.gap = [] →
      Text.headIs item.token.text '=' = false ∧ Text.headIs item.token.text '>' = false)
    (hlays : Lays source (sourceItems parts) final) (htouch : ¬ Touches parts) :
    Text.headIs (leftText parts ++ final) '=' = false ∧
      Text.headIs (leftText parts ++ final) '>' = false := by
  have hgap : ∀ {g rest rest' : Text}, Gaps g rest → g ≠ [] →
      Text.headIs (g ++ rest') '=' = false ∧ Text.headIs (g ++ rest') '>' = false := by
    intro g rest rest' hg hne
    obtain ⟨d, hd, hhead⟩ := hg.head?_mem hne
    have hother : ∀ d ∈ separators, d ≠ '=' ∧ d ≠ '>' := by decide
    simp [Text.headIs, List.head?_append, hhead, hother d hd]
  rcases exists_swap_of_touches htouch with rfl | ⟨item, ps, rfl⟩ | ⟨first, more, r, ps, rfl, hne⟩
  · by_cases hnil : final = []
    · subst hnil
      exact ⟨rfl, rfl⟩
    · have := @hgap _ _ [] hfinal hnil
      rwa [List.append_nil] at this
  · obtain ⟨hg, hlexes, -⟩ := hlays
    rw [leftText, Item.text, List.append_assoc, List.append_assoc]
    by_cases hnil : item.gap = []
    · obtain ⟨c, w, hw⟩ := List.exists_cons_of_ne_nil hlexes.ne_nil
      have := hassign item ps rfl hnil
      rw [hw] at this ⊢
      rw [hnil]
      exact this
    · exact hgap hg hnil
  · rw [leftText, List.append_assoc, List.append_assoc]
    exact hgap hlays.1 hne

/-- With good seams the lexer finds the items that are left. -/
theorem lays_left (hseams : Seams source out parts) (hlays : Lays source (sourceItems parts) final)
    (hfinal : Gaps final []) {gap : Text} (hgap : Gaps gap (leftText parts ++ final)) :
    Lays out (left gap parts).1 ((left gap parts).2 ++ final) ∧ Gaps (left gap parts).2 final := by
  have text_left : ∀ (gap : Text) (parts : List Part),
      textOf (left gap parts).1 ++ ((left gap parts).2 ++ final) = gap ++ (leftText parts ++ final) := by
    intro gap parts
    rw [← List.append_assoc, textOf_left, List.append_assoc]
  induction hseams generalizing gap with
  | nil => exact ⟨trivial, hgap⟩
  | @keep source out item parts hslash hsealed hseams ih =>
    obtain ⟨hg, hlexes, hrest⟩ := hlays
    have htoken := alike_token hlexes hsealed (alike_leftText hrest hseams)
    -- A token that what goes touches is sealed; any other one has in front of it what it had before.
    have hlexes' : Lexes out item.token.kind item.token.text (leftText parts ++ final) := by
      by_cases htouch : Touches parts
      · obtain ⟨first, more, r, ps, hparts, hempty⟩ := htouch
        exact (hlexes.of_isSealed (hsealed first more r ps hparts hempty)).2 out _
      · have := hlexes.stable (alike_leftText hrest hseams htouch).stable
        by_cases hc : Text.headIs item.token.text '/'
        · exact hslash hc ▸ this
        · exact this.of_operand (Bool.eq_false_iff.2 hc) out
    obtain ⟨hlays', hlast⟩ := ih hrest (.nil _)
    rw [leftText, Item.text, List.append_assoc, List.append_assoc] at hgap
    have hgap' := hgap.append (hg.stable htoken.stable)
    rw [← List.nil_append (leftText parts ++ final), ← text_left] at hgap' hlexes'
    exact ⟨⟨hgap', hlexes', hlays'⟩, hlast⟩
  | @swap source out first more r parts hletter hword hassign hseams ih =>
    obtain ⟨hrun, hrest⟩ := lays_append_iff.1 (sourceItems_cons _ parts ▸ hlays)
    have hg : ∀ rest, Gaps first.gap rest := by
      obtain ⟨c, hc, hc'⟩ := (Option.any_eq_true _ _).1 hletter
      refine hlays.1.closed ?_
      rw [List.head?_append, hc]
      exact (letter_continues hc').2
    rw [leftText, List.append_assoc, List.append_assoc] at hgap
    -- Behind a word stands nothing that a word could go on with.
    have hhead : ((first :: more).getLast (List.cons_ne_nil _ _)).token.kind = .identifier →
        ¬ Touches parts ∧ (leftText parts ++ final).head?.all fun d => !inWord d := by
      intro hkind
      obtain ⟨operand, hlexes⟩ := lexes_getLast
        (show Lays source (first :: more) _ from hrun) (List.cons_ne_nil _ _)
      obtain ⟨-, -, -, -, -, -, hend⟩ := hlexes.word_cases (by rw [hkind]; rfl)
      have htouch : ¬ Touches parts := by
        intro htouch
        obtain ⟨c, hc, hc'⟩ := (Option.any_eq_true _ _).1 (head?_of_touches hseams htouch final)
        rw [hc, Option.all_some, (letter_continues hc').1] at hend
        cases hend
      exact ⟨htouch, by rwa [head?_leftText hrest htouch]⟩
    cases r with
    | breaks n => exact ih hrest ((hgap.append (hg _)).append (gaps_replicate n _))
    | varWord =>
      obtain ⟨-, hend⟩ := hhead (hword.resolve_left (by rintro ⟨n, hn⟩; cases hn))
      obtain ⟨hlays', hlast⟩ := ih hrest (.nil _)
      have hvar : Lexes out .identifier "var" (leftText parts ++ final) :=
        lexes_word (c := 'v') (w := "ar") (by decide) (by decide) hend
      have hgap' := hgap.append (hg _)
      rw [← List.nil_append (leftText parts ++ final), ← text_left] at hgap' hvar
      exact ⟨⟨hgap', hvar, hlays'⟩, hlast⟩
    | assignment =>
      obtain ⟨htouch, -⟩ := hhead (hword.resolve_left (by rintro ⟨n, hn⟩; cases hn))
      obtain ⟨hlays', hlast⟩ := ih hrest (.nil _)
      have hequals : Lexes (operandMayFollow .identifier "default") .equals "=" (leftText parts ++ final) :=
        lexes_equals (headIs_leftText hfinal (hassign rfl) hrest htouch) _
      have hspace : Gaps " " ("=" ++ (leftText parts ++ final)) :=
        .cons (w := []) (fun _ => .space (by decide)) (.nil _)
      have hdefault : ∀ rest, Lexes (operandMayFollow .dot ".") .identifier "default" (" " ++ rest) :=
        fun rest => lexes_word (c := 'd') (w := "efault") (by decide) (by decide)
          (show !inWord ' ' by decide)
      have hexports : ∀ rest, Lexes out .identifier "exports" ("." ++ rest) :=
        fun rest => lexes_word (c := 'e') (w := "xports") (by decide) (by decide)
          (show !inWord '.' by decide)
      have hgap' := hgap.append (hg _)
      rw [← List.nil_append (leftText parts ++ final), ← text_left] at hgap' hequals hspace
      exact ⟨⟨hgap', hexports _, .nil _, lexes_dot (by decide) (by decide) _, .nil _, hdefault _, hspace,
        hequals, hlays'⟩, hlast⟩

end Lowering

end ScriptBundle
