import Mathlib.Data.List.Chain
import ScriptBundle.Proofs.Lowering.Lines
import ScriptBundle.Proofs.Lowering.Parts

/-!
# The seams of a lowered source

Where tokens go and others stay, neighbours meet that did not stand side by side in the source. Whether
they can be told apart there is a question about the tokens of the source and its edits. The answers are
those that the parts of the source need, so that what is left has the tokens that stay.

* `Stays`, `Edited.marked`: the tokens that no edit touches are those of the parts that stay;
* `Seam`: neighbours of which one goes;
* `operandLeft`, `SlashesStay`: what may stand behind a token that is left, and the slashes;
* `seams_of_edited`: the seams between the parts of a source.
-/

namespace ScriptBundle

namespace Lowering

open Lexer Statement
open Lexeme (operandMayFollow)

/-! ### Tokens that stay -/

/-- No edit touches the token. -/
def Stays (es : List Edit) (t : Token) : Prop := ∀ e ∈ es, t.stop ≤ e.start ∨ e.stop ≤ t.start.offset

instance (es : List Edit) (t : Token) : Decidable (Stays es t) :=
  inferInstanceAs (Decidable (∀ e ∈ es, _))

/-- The edits touch the tokens of a part that goes, and no others. -/
def Part.Marked (es : List Edit) : Part → Prop
  | keep item => Stays es item.token
  | swap first more _ => ∀ t ∈ (first :: more).map Item.token, ¬ Stays es t

section Marks

variable {es : List Edit} {e : Edit} {run : List Token} {t : Token}

/-- No token that an edit replaces starts in front of it. -/
theorem Edit.Spans.start_le_of_mem (h : e.Spans run) (hi : Increasing run) (ht : t ∈ run) :
    e.start ≤ t.start.offset := by
  obtain ⟨u, hu, hstart⟩ := Option.map_eq_some_iff.1 h.1
  obtain ⟨rest, rfl⟩ := List.head?_eq_some_iff.1 hu
  rcases List.mem_cons.1 ht with rfl | ht
  · omega
  · have := (List.pairwise_cons.1 hi.1).1 t ht
    have := hi.2 u List.mem_cons_self
    omega

/-- No token that an edit replaces ends behind it. -/
theorem Edit.Spans.stop_le_of_mem (h : e.Spans run) (hi : Increasing run) (ht : t ∈ run) :
    t.stop ≤ e.stop := by
  obtain ⟨v, hv, hstop⟩ := Option.map_eq_some_iff.1 h.2
  obtain ⟨front, rfl⟩ := List.getLast?_eq_some_iff.1 hv
  rcases List.mem_append.1 ht with ht | ht
  · have := (List.pairwise_append.1 hi.1).2.2 t ht v List.mem_cons_self
    have := hi.2 v (by simp)
    omega
  · obtain rfl := List.mem_singleton.1 ht
    omega

/-- An edit touches the tokens that it replaces. -/
theorem Edit.Spans.not_stays (h : e.Spans run) (hi : Increasing run) (he : e ∈ es) (ht : t ∈ run) :
    ¬ Stays es t := by
  have hlt := hi.2 t ht
  have hbehind := h.start_le_of_mem hi ht
  have hfront := h.stop_le_of_mem hi ht
  intro hstays
  rcases hstays e he with h | h <;> omega

theorem Part.spans_edit (first : Item) (more : List Item) (r : Replacement) :
    ∃ e, (Part.swap first more r).edit? = some e ∧ e.Spans ((first :: more).map Item.token) := by
  refine ⟨_, rfl, rfl, ?_⟩
  rw [List.getLast?_map, List.getLast?_eq_some_getLast (List.cons_ne_nil _ _)]
  rfl

/-- The edit of a run ends where the run does. -/
theorem stop_edit {p : Position} {first : Item} {more items : List Item} {r : Replacement}
    (hplaced : Placed p (first :: more ++ items)) (hedit : (Part.swap first more r).edit? = some e) :
    e.stop = (p.after (textOf (first :: more))).offset := by
  have hstop := stop_getLast hplaced (List.cons_ne_nil first more)
  rw [Position.offset_after]
  cases hedit
  exact hstop

/-- An edit that ends in front of a run, or belongs to it or to the parts behind it. -/
theorem stop_le_or_mem {p : Position} {first : Item} {more items : List Item} {r : Replacement}
    {f : Edit} {es : List Edit} (hplaced : Placed p (first :: more ++ items))
    (hedit : (Part.swap first more r).edit? = some e) (hf : f.stop ≤ p.offset ∨ f ∈ e :: es) :
    f.stop ≤ (p.after (textOf (first :: more))).offset ∨ f ∈ es := by
  rcases hf with hle | hmem
  · exact .inl (by rw [Position.offset_after]; omega)
  · refine (List.mem_cons.1 hmem).imp_left ?_
    rintro rfl
    exact (stop_edit hplaced hedit).le

/-- The edits of the parts in front end before a token, and those of the parts behind start after it. -/
theorem stays_of_placed {p : Position} {i : Item} {parts : List Part}
    (hplaced : Placed p (i :: sourceItems parts))
    (hes : ∀ e ∈ es, e.stop ≤ p.offset ∨ e ∈ parts.filterMap Part.edit?) : Stays es i.token := by
  have hstart : i.token.start.offset = p.offset + i.gap.length := by
    rw [hplaced.1, Position.offset_after]
  intro e he
  rcases hes e he with hle | he
  · exact .inr (by omega)
  · refine .inl ?_
    have hbehind := (le_start_of_mem_edits hplaced.2 he).1
    rw [Position.offset_after] at hbehind
    exact hbehind

/-- Both the tokens of a part and those of the parts behind it are in their order. -/
theorem increasing_of_cons {part : Part} {parts : List Part}
    (h : Increasing ((sourceItems (part :: parts)).map Item.token)) :
    Increasing (part.items.map Item.token) ∧ Increasing ((sourceItems parts).map Item.token) := by
  rw [sourceItems_cons, List.map_append] at h
  exact ⟨h.sublist (List.sublist_append_left _ _), h.sublist (List.sublist_append_right _ _)⟩

/-- The parts stand at `p`, and the edits `es` are theirs, apart from some that end in front of `p`. -/
structure Edited (es : List Edit) (p : Position) (parts : List Part) : Prop where
  placed : Placed p (sourceItems parts)
  increasing : Increasing ((sourceItems parts).map Item.token)
  nonempty : ∀ e ∈ es, e.start < e.stop
  front : ∀ e ∈ es, e.stop ≤ p.offset ∨ e ∈ parts.filterMap Part.edit?
  mem : ∀ e ∈ parts.filterMap Part.edit?, e ∈ es

section Edited

variable {p : Position} {parts : List Part} {item first : Item} {more : List Item} {r : Replacement}

theorem Edited.tail_keep (h : Edited es p (.keep item :: parts)) :
    Edited es (p.after (textOf (Part.keep item).items)) parts where
  placed := placed_append (sourceItems_cons _ parts ▸ h.placed)
  increasing := (increasing_of_cons h.increasing).2
  nonempty := h.nonempty
  front := fun e he => (h.front e he).imp_left fun hle => by rw [Position.offset_after]; omega
  mem := h.mem

theorem Edited.stays (h : Edited es p (.keep item :: parts)) : Stays es item.token :=
  stays_of_placed h.placed h.front

/-- The edit of a run that goes, and those behind it. -/
theorem Edited.tail_swap (h : Edited es p (.swap first more r :: parts)) :
    ∃ e ∈ es, (Part.swap first more r).edit? = some e ∧ e.Spans ((first :: more).map Item.token) ∧
      Edited es (p.after (textOf (first :: more))) parts := by
  obtain ⟨e, hedit, hspans⟩ := Part.spans_edit first more r
  have hplaced := h.placed
  have hfront := h.front
  have hmem := h.mem
  rw [sourceItems_cons] at hplaced
  rw [List.filterMap_cons_some hedit] at hfront hmem
  exact ⟨e, hmem e List.mem_cons_self, hedit, hspans, {
    placed := placed_append hplaced
    increasing := (increasing_of_cons h.increasing).2
    nonempty := h.nonempty
    front := fun f hf => stop_le_or_mem hplaced hedit (hfront f hf)
    mem := fun f hf => hmem f (List.mem_cons_of_mem e hf) }⟩

theorem Edited.increasing_run (h : Edited es p (.swap first more r :: parts)) :
    Increasing ((first :: more).map Item.token) :=
  (increasing_of_cons h.increasing).1

/-- The edits mark the parts. -/
theorem Edited.marked (h : Edited es p parts) : ∀ part ∈ parts, part.Marked es := by
  induction parts generalizing p with
  | nil =>
    intro part hpart
    cases hpart
  | cons part parts ih =>
    cases part with
    | keep item => exact List.forall_mem_cons.2 ⟨h.stays, ih h.tail_keep⟩
    | swap first more r =>
      obtain ⟨e, he, -, hspans, htail⟩ := h.tail_swap
      refine List.forall_mem_cons.2 ⟨fun t ht => ?_, ih htail⟩
      exact hspans.not_stays h.increasing_run he ht

/-- Only the edit of a run ends with a token of the run. -/
theorem Edited.eq_of_stop (h : Edited es p (.swap first more r :: parts))
    (ht : t ∈ (first :: more).map Item.token) {f : Edit} (hf : f ∈ es) (hstop : f.stop = t.stop) :
    (Part.swap first more r).edit? = some f := by
  obtain ⟨e, -, hedit, hspans, htail⟩ := h.tail_swap
  have hi := h.increasing_run
  have hlast := stop_edit h.placed hedit
  have hstart : p.offset ≤ e.start := (le_start_of_mem_edits h.placed
    (List.mem_filterMap.2 ⟨_, List.mem_cons_self, hedit⟩)).1
  have hbehind := hspans.start_le_of_mem hi ht
  have hlt := hi.2 t ht
  have hfront := h.front f hf
  rw [List.filterMap_cons_some hedit, List.mem_cons] at hfront
  rcases hfront with hle | rfl | hmem
  · omega
  · exact hedit
  · have hle := hspans.stop_le_of_mem hi ht
    have hbetween := (le_start_of_mem_edits htail.placed hmem).1
    have := h.nonempty f hf
    omega

/-- The edit of a run ends with its last token, and what stands behind the run without a gap touches
that. -/
theorem Edited.exists_last (h : Edited es p (.swap first more r :: .keep item :: parts))
    (hgap : item.gap = []) :
    ∃ last ∈ ((first :: more).map Item.token).getLast?, ¬ Stays es last ∧
      last.stop = item.token.start.offset ∧
      ∃ e ∈ es, e.stop = last.stop ∧ e.replacement = r.text := by
  obtain ⟨e, he, hedit, hspans, htail⟩ := h.tail_swap
  obtain ⟨last, hlast, hstop⟩ := Option.map_eq_some_iff.1 hspans.2
  have hgone : ¬ Stays es last := hspans.not_stays h.increasing_run he (List.mem_of_getLast? hlast)
  have htouch : last.stop = item.token.start.offset := by
    have hstart := htail.placed.1
    rw [hgap, Position.after_nil] at hstart
    rw [hstart, hstop, stop_edit h.placed hedit]
  have hreplacement : e.replacement = r.text := by
    cases hedit
    rfl
  exact ⟨last, hlast, hgone, htouch, e, he, hstop.symm, hreplacement⟩

end Edited

end Marks

/-! ### Seams -/

/-- The neighbours `t` and `u` can be told apart when one of them goes: a token that touches what goes
is sealed, and no operator that goes on with an equals sign touches what becomes an assignment. -/
structure Seam (es : List Edit) (t u : Token) : Prop where
  sealed : Stays es t → ¬ Stays es u → t.stop = u.start.offset → t.kind.isSealed
  follows : ¬ Stays es t → Stays es u → t.stop = u.start.offset →
    (∃ e ∈ es, e.stop = t.stop ∧ e.replacement = "exports.default =") →
    ∀ c ∈ u.text.head?, c ≠ '=' ∧ c ≠ '>'

instance (es : List Edit) (t u : Token) : Decidable (Seam es t u) :=
  decidable_of_iff ((Stays es t → ¬ Stays es u → t.stop = u.start.offset → t.kind.isSealed) ∧
      (¬ Stays es t → Stays es u → t.stop = u.start.offset →
        (∃ e ∈ es, e.stop = t.stop ∧ e.replacement = "exports.default =") →
        ∀ c ∈ u.text.head?, c ≠ '=' ∧ c ≠ '>'))
    ⟨fun h => ⟨h.1, h.2⟩, fun h => ⟨h.sealed, h.follows⟩⟩

/-- Whether an operand may stand behind what an edit puts in, when it may in front. -/
def Edit.operand (before : Bool) (e : Edit) : Bool :=
  if e.replacement = "var" then false
  else if e.replacement = "exports.default =" then true
  else before

/-- Whether an operand may stand behind the token `t` in the edited source, when it may in front. A
token that stays decides that, and of those that go the last one, by what the edit that ends there puts
in. -/
def operandLeft (es : List Edit) (before : Bool) (t : Token) : Bool :=
  if Stays es t then operandMayFollow t.kind t.text
  else (es.find? (·.stop = t.stop)).elim before (·.operand before)

/-- Each slash that stays is read in the edited source as in the source: in front of it an operand may
stand in both or in neither. In front of the tokens it is as given for each. -/
def SlashesStay (es : List Edit) : Bool → Bool → List Token → Prop
  | _, _, [] => True
  | source, out, t :: ts =>
    (Stays es t → Text.headIs t.text '/' → out = source) ∧
      SlashesStay es (operandMayFollow t.kind t.text) (operandLeft es out t) ts

instance decidableSlashesStay (es : List Edit) (source out : Bool) :
    (ts : List Token) → Decidable (SlashesStay es source out ts)
  | [] => .isTrue trivial
  | t :: ts =>
    have := decidableSlashesStay es (operandMayFollow t.kind t.text) (operandLeft es out t) ts
    inferInstanceAs (Decidable (_ ∧ _))

section Seams

variable {es : List Edit} {source out : Bool} {p : Position} {st : List TokenKind} {parts : List Part}
  {final rest : Text}

theorem headIs_eq_false {w : Text} {d : CodePoint} (h : ∀ c ∈ w.head?, c ≠ d) :
    Text.headIs w d = false := by
  cases w with
  | nil => rfl
  | cons c w => simpa [Text.headIs] using h c rfl

/-- An item without a gap starts where the item in front of it ends. -/
theorem stop_eq_of_gap {i first : Item} {items : List Item} (hplaced : Placed p (i :: first :: items))
    (hgap : first.gap = []) : i.token.stop = first.token.start.offset := by
  rw [hplaced.2.1, hgap, Position.after_nil, Position.offset_after]
  rfl

/-- A run that goes starts with a letter. -/
theorem letter_of_starts {operand : Bool} {t : Token} (h : Lexes operand t.kind t.text rest)
    (hstarts : t.isKeyword ∨ t.isWord "let" ∨ t.isWord "const") :
    t.text.head?.any (·.isAsciiLetter) := by
  have htext : t.text ∈ ["import", "export", "let", "const"].map Text.ofString := by
    rcases hstarts with hword | hword | hword
    · obtain ⟨-, -, -, -, -, hk, -⟩ := h.word_cases (isWordKind_of_isKeyword hword)
      rw [Token.isKeyword, hk, Lexeme.wordKind] at hword
      split at hword
      · next htext => simp [htext]
      · split at hword
        · next htext => simp [htext]
        · cases hword
    · simp [text_of_isWord hword]
    · simp [text_of_isWord hword]
  revert htext
  generalize t.text = w
  revert w
  decide

theorem Part.operand_edit {e : Edit} {first : Item} {more : List Item} {r : Replacement}
    (h : (Part.swap first more r).edit? = some e) (before : Bool) :
    e.operand before = r.operand before := by
  cases h
  cases r with
  | varWord => rfl
  | assignment => rfl
  | breaks n =>
    have hbreaks : ∀ c ∈ (Replacement.breaks n).text, c = '\n' := fun c hc =>
      List.eq_of_mem_replicate hc
    have hvar : (Replacement.breaks n).text ≠ "var" := fun h => by
      rw [h] at hbreaks
      exact absurd (hbreaks 'v' (by decide)) (by decide)
    have hassignment : (Replacement.breaks n).text ≠ "exports.default =" := fun h => by
      rw [h] at hbreaks
      exact absurd (hbreaks 'e' (by decide)) (by decide)
    rw [Edit.operand, if_neg hvar, if_neg hassignment]
    rfl

/-- The slashes behind a run that goes. -/
theorem SlashesStay.behind_run {front us : List Token} {last : Token} {e : Edit}
    (h : SlashesStay es source out (front ++ last :: us))
    (hfront : ∀ t ∈ front, ¬ Stays es t ∧ ∀ f ∈ es, f.stop ≠ t.stop) (hlast : ¬ Stays es last)
    (hedit : es.find? (·.stop = last.stop) = some e) :
    SlashesStay es (operandBehind source (front ++ [last])) (e.operand out) us := by
  induction front generalizing source with
  | nil =>
    have hleft : operandLeft es out last = e.operand out := by
      rw [operandLeft, if_neg hlast, hedit]
      rfl
    exact hleft ▸ h.2
  | cons t front ih =>
    obtain ⟨hstays, hnone⟩ := hfront t List.mem_cons_self
    have hleft : operandLeft es out t = out := by
      rw [operandLeft, if_neg hstays, List.find?_eq_none.2 (by simpa using hnone)]
      rfl
    exact ih (hleft ▸ h.2) fun u hu => hfront u (List.mem_cons_of_mem t hu)

theorem SlashesStay.behind_swap {first : Item} {more : List Item} {r : Replacement}
    (hedited : Edited es p (.swap first more r :: parts))
    (h : SlashesStay es source out ((sourceItems (.swap first more r :: parts)).map Item.token)) :
    SlashesStay es (operandBehind source ((first :: more).map Item.token)) (r.operand out)
      ((sourceItems parts).map Item.token) := by
  obtain ⟨e, he, hedit, hspans, -⟩ := hedited.tail_swap
  obtain ⟨last, hlast, hstop⟩ := Option.map_eq_some_iff.1 hspans.2
  obtain ⟨front, hrun⟩ := List.getLast?_eq_some_iff.1 hlast
  have hi := hedited.increasing_run
  have hgone : ∀ t ∈ (first :: more).map Item.token, ¬ Stays es t := fun t ht =>
    hspans.not_stays hi he ht
  have hunique : ∀ t ∈ (first :: more).map Item.token, ∀ f ∈ es, f.stop = t.stop → f = e :=
    fun t ht f hf hstop => Option.some.inj ((hedited.eq_of_stop ht hf hstop).symm.trans hedit)
  rw [sourceItems_cons, Part.items, List.map_append, hrun, List.append_assoc] at h
  rw [hrun] at hi hgone hunique ⊢
  rw [← Part.operand_edit hedit]
  refine h.behind_run (fun t ht => ⟨hgone t (List.mem_append_left _ ht), fun f hf hfstop => ?_⟩)
    (hgone last (by simp)) ?_
  · -- The edit ends with the last token, and not with one in front of it.
    obtain rfl := hunique t (List.mem_append_left _ ht) f hf hfstop
    have hbetween := (List.pairwise_append.1 hi.1).2.2 t ht last List.mem_cons_self
    have := hi.2 last (by simp)
    omega
  · cases hfind : es.find? (·.stop = last.stop) with
    | none => exact absurd hstop (by simpa [eq_comm] using List.find?_eq_none.1 hfind e he)
    | some f =>
      have hf : f.stop = last.stop := by simpa using List.find?_some hfind
      rw [hunique last (by simp) f (List.mem_of_find?_eq_some hfind) hf]

/-- The seams hold of the parts of a source, if they hold between its tokens. -/
theorem seams_of_edited (hedited : Edited es p parts)
    (hlays : Lays source (sourceItems parts) final) (hdivides : Divides st parts)
    (hseams : ((sourceItems parts).map Item.token).IsChain (Seam es))
    (hslashes : SlashesStay es source out ((sourceItems parts).map Item.token)) :
    Seams source out parts := by
  induction parts generalizing p st source out with
  | nil => exact .nil source out
  | cons part parts ih =>
    -- Neighbours in the list of tokens are neighbours in a part or, here, the last token of this part
    -- and the first of the next one.
    have hplaced := hedited.placed
    rw [sourceItems_cons] at hplaced hlays hseams
    rw [List.map_append] at hseams
    obtain ⟨-, hchain, hseam⟩ := List.isChain_append.1 hseams
    cases hdivides with
    | @keep _ st' item _ hst hdivides =>
      have htail := hedited.tail_keep
      have hstays := hedited.stays
      have hslashes' := hslashes.2
      rw [operandLeft, if_pos hstays] at hslashes'
      refine .keep (hslashes.1 hstays) ?_ (ih htail hlays.2.2 hdivides hchain hslashes')
      rintro first more r ps rfl hgap
      have hfirst := htail.marked _ List.mem_cons_self first.token List.mem_cons_self
      rw [sourceItems_cons] at hplaced
      exact (hseam item.token rfl first.token rfl).sealed hstays hfirst (stop_eq_of_gap hplaced hgap)
    | @swap _ first more r _ hgoes hdivides =>
      obtain ⟨hrun, hlays'⟩ := lays_append_iff.1 hlays
      obtain ⟨-, -, -, -, htail⟩ := hedited.tail_swap
      have hslashes' := hslashes.behind_swap hedited
      refine .swap (letter_of_starts hrun.2.1 hgoes.starts) hgoes.word ?_
        (ih htail hlays' hdivides hchain hslashes')
      rintro rfl item ps rfl hgap
      obtain ⟨last, hlast, hgone, htouch, hedit⟩ := hedited.exists_last hgap
      have hfollows := (hseam last hlast item.token rfl).follows hgone htail.stays htouch hedit
      exact ⟨headIs_eq_false fun c hc => (hfollows c hc).1,
        headIs_eq_false fun c hc => (hfollows c hc).2⟩

end Seams

end Lowering

end ScriptBundle
