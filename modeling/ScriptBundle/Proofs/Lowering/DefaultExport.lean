import ScriptBundle.Proofs.Lowering.Settled
import ScriptBundle.Proofs.Statement.Anonymous
import ScriptBundle.Proofs.Token.StatementEnd

/-!
# Where the assignment of a default export ends

In front of a function or a class without a name, `export default` becomes an assignment. The function or
class is an expression there, and what was a declaration that ends by itself is now a statement that ends
as expressions do. Nothing is put behind it, so it depends on what follows, when the statements that go
have gone, whether the assignment ends where the declaration did.

* `Cleared`, `exists_cleared`: the edits behind the declaration leave line feeds or `var`;
* `firstLeft?`, `LeftBehind`: the first token that is left behind a place, and the text that is;
* `exists_leftBehind`: what is left of the parts behind a place;
* `scanned_behind_anonymous`: no statement is read in a declaration without a name;
* `assignment_ends_iff`: the first token that is left behind the declaration decides.
-/

namespace ScriptBundle

namespace Lowering

open Lexer Statement

/-! ### The parts behind a declaration -/

/-- What goes leaves its line feeds, and only `let` and `const` become another word. -/
inductive Part.Clears : Part → Prop
  | keep (item : Item) : Clears (.keep item)
  | removed {first : Item} {more : List Item} (h : first.token.isKeyword) :
      Clears (.swap first more (.breaks (Text.lineFeeds (first.token.text ++ textOf more))))
  | varWord {item : Item} (h : item.token.isWord "let" ∨ item.token.isWord "const") :
      Clears (.swap item [] .varWord)

/-- The parts divide the items as the edits say, and they clear them. -/
structure Cleared (edits : List Edit) (items : List Item) (parts : List Part) : Prop where
  items_eq : sourceItems parts = items
  edits_eq : parts.filterMap Part.edit? = edits
  clears : ∀ part ∈ parts, part.Clears

section Cleared

variable {source final : Text} {p : Position} {edits : List Edit} {items front more : List Item}
  {parts : List Part} {i : Item}

theorem Cleared.keeps (h : Cleared edits items parts) (front : List Item) :
    Cleared edits (front ++ items) (front.map .keep ++ parts) := by
  induction front with
  | nil => exact h
  | cons i front ih =>
    refine ⟨?_, ?_, ?_⟩
    · rw [List.map_cons, List.cons_append, sourceItems_cons, ih.items_eq]
      rfl
    · rw [List.map_cons, List.cons_append, List.filterMap_cons_none (by rfl), ih.edits_eq]
    · intro part hpart
      rcases List.mem_cons.1 hpart with rfl | hpart
      · exact .keep i
      · exact ih.clears part hpart

theorem Cleared.swap {first : Item} {r : Replacement} {e : Edit}
    (hclears : (Part.swap first more r).Clears) (hedit : (Part.swap first more r).edit? = some e)
    (h : Cleared edits items parts) :
    Cleared (e :: edits) (first :: (more ++ items)) (.swap first more r :: parts) where
  items_eq := by rw [sourceItems_cons, h.items_eq]; rfl
  edits_eq := by rw [List.filterMap_cons_some hedit, h.edits_eq]
  clears := by
    intro part hpart
    rcases List.mem_cons.1 hpart with rfl | hpart
    · exact hclears
    · exact h.clears part hpart

/-- The piece of a source from the first of some items on. -/
theorem slice_items {back : List Item} (hplaced : Placed p (i :: (more ++ back)))
    (hsource : source.drop p.offset = textOf (i :: (more ++ back)) ++ final) :
    slice source i.token.start.offset ((i :: more).getLast (List.cons_ne_nil _ _)).token.stop =
      i.token.text ++ textOf more := by
  have hstart : i.token.start.offset = p.offset + i.gap.length := by
    rw [hplaced.1, Position.offset_after]
  have hstop : ((i :: more).getLast (List.cons_ne_nil _ _)).token.stop =
      p.offset + (textOf (i :: more)).length := stop_getLast hplaced _
  have hdrop : source.drop (p.offset + i.gap.length) =
      (i.token.text ++ textOf more) ++ (textOf back ++ final) := by
    rw [← List.drop_drop, hsource, textOf_cons, textOf_append]
    simp
  have hlength : p.offset + (textOf (i :: more)).length - (p.offset + i.gap.length) =
      (i.token.text ++ textOf more).length := by
    simp only [textOf_cons, List.length_append]
    omega
  rw [slice, hstart, hstop, hdrop, hlength, List.take_left]

/-- What a source holds behind some items. -/
theorem drop_behind {more : List Item} (hsource : source.drop p.offset = textOf (items ++ more) ++ final) :
    source.drop (p.after (textOf items)).offset = textOf more ++ final := by
  rw [Position.offset_after, ← List.drop_drop, hsource, textOf_append, List.append_assoc, List.drop_left]

/-- The edits of a statement other than a default export clear its items, if those behind it are
cleared. -/
theorem exists_cleared_of_covers {word : Token} {us rest : List Token} {s : Statement} {edits : List Edit}
    (hrecords : s.Records word) (hword : word.isKeyword) (hcovers : Covers word us s rest)
    (hdefault : ∀ name, s.form ≠ .default name) (hitems : items.map Item.token = word :: us)
    (hplaced : Placed p items) (hsource : source.drop p.offset = textOf items ++ final)
    (hline : Text.OneLine word.text)
    (hrest : ∀ front back, items = front ++ back → back.map Item.token = rest →
      ∃ parts, Cleared edits back parts) :
    ∃ parts, Cleared (s.edits source ++ edits) items parts := by
  obtain ⟨i, items, rfl, rfl, hus⟩ := List.map_eq_cons_iff.1 hitems
  have hstart : s.start = i.token.start := hrecords.1
  have hkeyword : (Part.swap i [] (.breaks 0)).Clears := by
    have hbreaks : Text.lineFeeds (i.token.text ++ textOf []) = 0 := by
      rwa [textOf_nil, List.append_nil]
    exact hbreaks ▸ .removed hword
  cases hcovers with
  | whole run hwhole hts hends =>
    obtain ⟨more, back, rfl, rfl, hback⟩ := List.map_eq_append_iff.1 (hus.trans hts)
    obtain ⟨parts, hparts⟩ := hrest (i :: more) back rfl hback
    obtain ⟨hstop, -⟩ := getLast_of_ends (i := i) hends
    have hbreaks := congrArg Text.lineFeeds (slice_items hplaced hsource)
    rw [hstop] at hbreaks
    rw [edits_of_isWhole source hwhole, hstart, hbreaks]
    exact ⟨_, hparts.swap (.removed hword) (by rw [Part.edit?, hstop]; rfl)⟩
  | declaration bindings typeOnly hform hstop hsuffix =>
    obtain ⟨front, rfl⟩ := hsuffix
    obtain ⟨front, back, rfl, -, hback⟩ := List.map_eq_append_iff.1 hus
    obtain ⟨parts, hparts⟩ := hrest (i :: front) back rfl hback
    have hedits : s.edits source = [⟨i.token.start.offset, i.token.stop, []⟩] := by
      simp [Statement.edits, hform, hstart, hstop]
    have hall := Cleared.swap hkeyword rfl (hparts.keeps front)
    rw [hedits]
    exact ⟨_, hall⟩
  | blockScoped bindings typeOnly front t behind hform hstop hts hfront ht hsuffix =>
    obtain ⟨middle, rfl⟩ := hsuffix
    obtain ⟨front, behind, rfl, -, hbehind⟩ := List.map_eq_append_iff.1 (hus.trans hts)
    obtain ⟨j, behind, rfl, rfl, htail⟩ := List.map_eq_cons_iff.1 hbehind
    obtain ⟨middle, back, rfl, -, hback⟩ := List.map_eq_append_iff.1 htail
    obtain ⟨parts, hparts⟩ := hrest (i :: (front ++ j :: middle)) back (by simp) hback
    have hedits : s.edits source = [⟨i.token.start.offset, i.token.stop, []⟩,
        ⟨j.token.start.offset, j.token.stop, "var"⟩] := by
      simp [Statement.edits, hform, hstart, hstop]
    -- The keyword goes, and the word behind the modifiers becomes another one.
    have hvar := Cleared.swap (.varWord ht) rfl (hparts.keeps middle)
    have hall := Cleared.swap hkeyword rfl (hvar.keeps front)
    rw [hedits]
    exact ⟨_, hall⟩
  | default name t hform => exact absurd hform (hdefault name)

/-- The edits of the statements of a scan clear the items, if none of them is a default export. -/
theorem exists_cleared {ts : List Token} {ss : List Statement} (h : Scanned ts ss)
    (hdefault : ∀ s ∈ ss, ∀ name, s.form ≠ .default name) (hitems : items.map Item.token = ts)
    (hplaced : Placed p items) (hsource : source.drop p.offset = textOf items ++ final)
    (hwords : ∀ t ∈ ts, t.kind.isWordKind → Text.OneLine t.text) :
    ∃ parts, Cleared (ss.flatMap (·.edits source)) items parts := by
  induction h generalizing p items with
  | nil =>
    obtain rfl := List.map_eq_nil_iff.1 hitems
    refine ⟨[], rfl, rfl, ?_⟩
    intro part hpart
    cases hpart
  | pass t _ ih =>
    obtain ⟨i, items, rfl, rfl, htail⟩ := List.map_eq_cons_iff.1 hitems
    obtain ⟨parts, hparts⟩ := ih hdefault htail (placed_append (show Placed p ([i] ++ items) from hplaced))
      (drop_behind (show _ = textOf ([i] ++ items) ++ final from hsource))
      fun t ht => hwords t (List.mem_cons_of_mem _ ht)
    exact ⟨_, hparts.keeps [i]⟩
  | @read word us rest s ss hrecords hword hcovers _ ih =>
    obtain ⟨hform, hdefault⟩ := List.forall_mem_cons.1 hdefault
    have hline := hwords word List.mem_cons_self (isWordKind_of_isKeyword hword)
    rw [List.flatMap_cons]
    refine exists_cleared_of_covers hrecords hword hcovers hform hitems hplaced hsource hline ?_
    rintro front back rfl hback
    refine ih hdefault hback (placed_append hplaced) (drop_behind hsource) fun t ht => hwords t ?_
    rw [← hitems, List.map_append, hback]
    exact List.mem_append_right _ ht

end Cleared

/-! ### What is left behind a place -/

/-- The edits that leave nothing but line feeds. -/
def removals (es : List Edit) : List Edit := es.filter fun e => e.replacement.all (· = '\n')

/-- The first token of which a lowering leaves something: it stays, or `var` takes its place. -/
def firstLeft? (es : List Edit) (ts : List Token) : Option Token := ts.find? fun t => Stays (removals es) t

/-- Behind a place on the given line a lowered source goes on with the white space and the comments `gap`
and with `rest`, and `first?` is the first token that is left. -/
structure LeftBehind (line : Nat) (first? : Option Token) (gap rest : Text) : Prop where
  trivia : Trivia gap rest
  /-- The text starts with the token, or with what takes its place. -/
  starts : first?.elim (rest = []) fun t =>
    t.text <+: rest ∨ (t.isWord "let" ∨ t.isWord "const") ∧ Text.ofString "var" <+: rest
  /-- The token stands on the line where it stood. -/
  line_eq : ∀ t ∈ first?, line + Text.lineFeeds gap = t.line
  /-- The token tells whether a statement ends in front of the text. -/
  ends : ∀ g, EndsBefore g rest ↔ ∀ t ∈ first?, EndsBefore g t.text

section LeftBehind

variable {operand : Bool} {line : Nat} {first? : Option Token} {gap rest s o final : Text}
  {es : List Edit} {t : Token} {run ts : List Token} {p : Position} {i : Item} {parts : List Part}

theorem firstLeft?_append (h : ∀ t ∈ run, ¬ Stays (removals es) t) :
    firstLeft? es (run ++ ts) = firstLeft? es ts := by
  have hrun : run.find? (fun t => Stays (removals es) t) = none :=
    List.find?_eq_none.2 fun t ht => by simpa using h t ht
  rw [firstLeft?, List.find?_append, hrun, Option.none_or, firstLeft?]

theorem firstLeft?_cons (h : Stays (removals es) t) : firstLeft? es (t :: ts) = some t :=
  List.find?_cons_of_pos (by simpa using h)

/-- White space and comments in front of what follows. -/
theorem LeftBehind.prepend {g : Text} (h : LeftBehind (line + Text.lineFeeds g) first? gap rest)
    (hg : Gaps g (gap ++ rest)) : LeftBehind line first? (g ++ gap) rest where
  trivia := gaps_iff_trivia.1 (hg.append (gaps_iff_trivia.2 h.trivia))
  starts := h.starts
  line_eq t ht := by rw [Text.lineFeeds_append, ← Nat.add_assoc, h.line_eq t ht]
  ends := h.ends

theorem leftBehind_nil (h : Gaps gap []) : LeftBehind line none gap [] where
  trivia := gaps_iff_trivia.1 h
  starts := rfl
  line_eq := by
    intro t ht
    cases ht
  ends g := by
    refine ⟨fun _ t ht => ?_, fun _ => endsBefore_nil g⟩
    cases ht

/-- A token that stays in front of a text that starts as the source does behind it. -/
theorem leftBehind_token (hgap : Gaps gap (t.text ++ s)) (hlexes : Lexes operand t.kind t.text s)
    (ho : t.kind.isSealed ∨ o.head? = s.head?) (hline : line + Text.lineFeeds gap = t.line) :
    LeftBehind line (some t) gap (t.text ++ o) where
  trivia := by
    refine (gaps_iff_trivia.1 hgap).of_head? ?_
    obtain ⟨c, w, hw⟩ := List.exists_cons_of_ne_nil hlexes.ne_nil
    rw [hw]
    rfl
  starts := .inl (List.prefix_append _ _)
  line_eq := by
    rintro _ ⟨⟩
    exact hline
  ends g := by
    rw [endsBefore_append_iff hlexes.ne_nil (goesOn_append_of_lexes hlexes ho)]
    simp

/-- No expression goes on with `let`, `const` or `var`. -/
theorem leftBehind_varWord (hgap : ∀ rest, Gaps gap rest) (ht : t.isWord "let" ∨ t.isWord "const")
    (hline : line + Text.lineFeeds gap = t.line) (o : Text) :
    LeftBehind line (some t) gap ("var" ++ o) where
  trivia := gaps_iff_trivia.1 (hgap _)
  starts := .inr ⟨ht, List.prefix_append _ _⟩
  line_eq := by
    rintro _ ⟨⟩
    exact hline
  ends g := by
    have htext : ∃ c v, t.text = c :: v ∧ c.isAsciiLetter ∧ c ≠ 'i' := by
      rcases ht with ht | ht <;> rw [text_of_isWord ht] <;> exact ⟨_, _, rfl, by decide, by decide⟩
    obtain ⟨c, v, htext, hc, hi⟩ := htext
    have hvar : Text.ofString "var" ++ o = CodePoint.ofChar 'v' :: (Text.ofString "ar" ++ o) := rfl
    rw [hvar, endsBefore_of_letter (by decide) (by decide)]
    simp only [Option.mem_def, Option.some.injEq, forall_eq', htext, endsBefore_of_letter hc hi]

/-- In front of a token on a later line with which no expression goes on, a statement ends. -/
theorem LeftBehind.endsBefore (h : LeftBehind line (some t) gap rest) (hline : line < t.line)
    (ht : goesOn t.text = false) : EndsBefore gap rest := by
  refine (h.ends gap).2 ?_
  rintro _ ⟨⟩
  have hbreak : CodePoint.ofChar '\n' ∈ gap := by
    have := h.line_eq t rfl
    exact List.count_pos_iff.1 (show 0 < Text.lineFeeds gap by omega)
  exact .inr (.inr (.inr ⟨⟨_, hbreak, by decide⟩, ht⟩))

/-- The line of a token and the line behind it. -/
theorem line_behind (hplaced : Placed p (i :: more)) : p.line + Text.lineFeeds i.gap = i.token.line := by
  rw [Token.line, hplaced.1, Position.line_after]

/-- The edit of what touches an item starts where the item ends. -/
theorem exists_edit_of_touches (hplaced : Placed p (i :: sourceItems parts)) (h : Touches parts) :
    ∃ e ∈ parts.filterMap Part.edit?, e.start = i.token.stop := by
  obtain ⟨first, more, r, ps, rfl, hgap⟩ := h
  rw [sourceItems_cons] at hplaced
  exact ⟨_, List.mem_cons_self, (stop_eq_of_gap hplaced hgap).symm⟩

/-- A gap in front of a run that goes is one in front of any text. -/
theorem gaps_of_starts (hgap : Gaps gap (t.text ++ s)) (hlexes : Lexes operand t.kind t.text s)
    (hstarts : t.isKeyword ∨ t.isWord "let" ∨ t.isWord "const") (rest : Text) : Gaps gap rest := by
  obtain ⟨c, hc, hletter⟩ := (Option.any_eq_true _ _).1 (letter_of_starts hlexes hstarts)
  refine hgap.closed ?_ rest
  rw [List.head?_append, hc]
  exact (letter_continues hletter).2

/-- Behind a run that goes stands what is left behind it, with the line feeds that it leaves in between. -/
theorem leftBehind_removed {first : Item} (hgap : ∀ rest, Gaps first.gap rest)
    (h : LeftBehind (p.after (textOf (first :: more))).line first? gap rest) :
    LeftBehind p.line first? (first.gap ++
      List.replicate (Text.lineFeeds (first.token.text ++ textOf more)) (CodePoint.ofChar '\n') ++ gap) rest := by
  generalize hn : Text.lineFeeds (first.token.text ++ textOf more) = n
  have hline : (p.after (textOf (first :: more))).line =
      p.line + Text.lineFeeds (first.gap ++ List.replicate n (CodePoint.ofChar '\n')) := by
    have hbreaks : Text.lineFeeds (List.replicate n (CodePoint.ofChar '\n')) = n := List.count_replicate_self ..
    rw [Position.line_after, textOf_cons, Text.lineFeeds_append first.gap, hn,
      Text.lineFeeds_append first.gap, hbreaks]
  exact LeftBehind.prepend (hline ▸ h) ((hgap _).append (gaps_replicate n (gap ++ rest)))

/-- What is left behind a place, when the parts stand there. -/
theorem exists_leftBehind (hplaced : Placed p (sourceItems parts))
    (hlays : Lays operand (sourceItems parts) final) (hfinal : Gaps final [])
    (hclears : ∀ part ∈ parts, part.Clears) (hi : Increasing ((sourceItems parts).map Item.token))
    (hes : ∀ e ∈ es, e.stop ≤ p.offset ∨ e ∈ parts.filterMap Part.edit?)
    (hedits : ∀ e ∈ parts.filterMap Part.edit?, e ∈ es)
    (hapart : ∀ t ∈ firstLeft? es ((sourceItems parts).map Item.token),
      t.kind.isSealed ∨ ∀ e ∈ es, e.start ≠ t.stop) :
    ∃ gap rest, leftText parts ++ final = gap ++ rest ∧
      LeftBehind p.line (firstLeft? es ((sourceItems parts).map Item.token)) gap rest := by
  -- A token that is left ends the search, and what goes is passed over with the line feeds that it leaves.
  induction parts generalizing p operand with
  | nil => exact ⟨final, [], by simp [leftText], leftBehind_nil hfinal⟩
  | cons part parts ih =>
    rw [sourceItems_cons] at hplaced hlays hi hapart ⊢
    rw [List.map_append] at hi hapart ⊢
    have hrest := placed_append hplaced
    obtain ⟨hpart, hparts⟩ := List.forall_mem_cons.1 hclears
    cases part with
    | keep i =>
      rw [List.filterMap_cons_none (by rfl)] at hes hedits
      have hstays : Stays (removals es) i.token :=
        stays_of_placed hplaced fun e he => hes e (List.mem_of_mem_filter he)
      have hfirst : firstLeft? es (i.token :: (sourceItems parts).map Item.token) = some i.token :=
        firstLeft?_cons hstays
      obtain ⟨hgap, hlexes, hlays'⟩ := hlays
      have hhead : i.token.kind.isSealed ∨
          (leftText parts ++ final).head? = (textOf (sourceItems parts) ++ final).head? := by
        refine (hapart i.token hfirst).imp_right fun hnone => head?_leftText hlays' fun htouch => ?_
        obtain ⟨e, he, hstart⟩ := exists_edit_of_touches hplaced htouch
        exact hnone e (hedits e he) hstart
      refine ⟨i.gap, i.token.text ++ (leftText parts ++ final), ?_, ?_⟩
      · simp [leftText, Item.text]
      · exact hfirst ▸ leftBehind_token hgap hlexes hhead (line_behind hplaced)
    | swap first more r =>
      obtain ⟨hrun, hlays'⟩ := lays_append_iff.1 hlays
      have hclosed := gaps_of_starts hrun.1 hrun.2.1
      obtain ⟨e, hedit, hspans⟩ := Part.spans_edit first more r
      rw [List.filterMap_cons_some hedit] at hes hedits
      cases hpart with
      | removed hword =>
        have hremoval : e ∈ removals es := by
          refine List.mem_filter.2 ⟨hedits e List.mem_cons_self, ?_⟩
          cases hedit
          simp [Replacement.text]
        have hpassed : firstLeft? es ((first :: more).map Item.token ++ (sourceItems parts).map Item.token) =
            firstLeft? es ((sourceItems parts).map Item.token) :=
          firstLeft?_append fun t ht =>
            hspans.not_stays (hi.sublist (List.sublist_append_left _ _)) hremoval ht
        obtain ⟨gap, rest, htext, hleft⟩ := ih hrest hlays' hparts
          (hi.sublist (List.sublist_append_right _ _))
          (fun f hf => stop_le_or_mem hplaced hedit (hes f hf))
          (fun f hf => hedits f (List.mem_cons_of_mem e hf)) (hpassed ▸ hapart)
        refine ⟨_, rest, ?_, hpassed ▸ leftBehind_removed (hclosed (.inl hword)) hleft⟩
        rw [leftText, List.append_assoc _ _ final, htext, ← List.append_assoc]
        rfl
      | varWord ht =>
        have hstays : Stays (removals es) first.token := by
          refine stays_of_placed hplaced fun f hf => ?_
          obtain ⟨hf, hall⟩ := List.mem_filter.1 hf
          refine (hes f hf).imp_right fun hmem => (List.mem_cons.1 hmem).resolve_left ?_
          rintro rfl
          cases hedit
          cases hall
        have hfirst : firstLeft? es (first.token :: (sourceItems parts).map Item.token) = some first.token :=
          firstLeft?_cons hstays
        refine ⟨first.gap, "var" ++ (leftText parts ++ final), ?_, ?_⟩
        · simp [leftText, Replacement.text]
        · exact hfirst ▸ leftBehind_varWord (hclosed (.inr ht)) ht (line_behind hplaced) _

end LeftBehind

/-! ### The assignment -/

/-- Edits that follow each other are applied one behind the other. -/
theorem applyEdits_split {pos : Nat} {s : Text} {es₁ es₂ : List Edit} {e : Edit}
    (hpair : (es₁ ++ e :: es₂).Pairwise fun f g => f.stop ≤ g.start)
    (hlt : ∀ f ∈ es₁ ++ e :: es₂, pos ≤ f.start ∧ f.start < f.stop) :
    ∃ front, applyEdits pos s (es₁ ++ e :: es₂) =
      front ++ (e.replacement ++ applyEdits e.stop (s.drop (e.stop - pos)) es₂) := by
  induction es₁ generalizing pos s with
  | nil => exact ⟨s.take (e.start - pos), by simp [applyEdits]⟩
  | cons f es₁ ih =>
    obtain ⟨hnext, hpair⟩ := List.pairwise_cons.1 hpair
    have hf := hlt f List.mem_cons_self
    have hbehind : ∀ g ∈ es₁ ++ e :: es₂, f.stop ≤ g.start ∧ g.start < g.stop := fun g hg =>
      ⟨hnext g hg, (hlt g (List.mem_cons_of_mem f hg)).2⟩
    obtain ⟨front, hfront⟩ := ih hpair hbehind
    have he := hbehind e (by simp)
    have hdrop : (s.drop (f.stop - pos)).drop (e.stop - f.stop) = s.drop (e.stop - pos) := by
      rw [List.drop_drop]
      congr 1
      omega
    refine ⟨s.take (f.start - pos) ++ f.replacement ++ front, ?_⟩
    rw [List.cons_append, applyEdits, hfront, hdrop]
    simp only [List.append_assoc]

/-- The edits up to one of them end where it does or in front of it. -/
theorem stop_le_of_mem_split {es₁ es₂ : List Edit} {e f : Edit}
    (hpair : (es₁ ++ e :: es₂).Pairwise fun f g => f.stop ≤ g.start) (he : e.start < e.stop)
    (hf : f ∈ es₁ ++ e :: es₂) : f.stop ≤ e.stop ∨ f ∈ es₂ := by
  rcases List.mem_append.1 hf with hf | hf
  · have := (List.pairwise_append.1 hpair).2.2 f hf e List.mem_cons_self
    exact .inl (by omega)
  · refine (List.mem_cons.1 hf).imp_left ?_
    rintro rfl
    exact le_rfl

section Assignment

variable {file source out : Text} {tokens : TokenStream} {statements : List Statement}
  {before behind decl : List Token} {word t close : Token} {s : Statement}

/-- The items behind a run of tokens that ends with a bracket or a mark of its kind. -/
theorem exists_items_behind {front : List Token} (h : tokenize source = .ok tokens)
    (htokens : tokens.tokens = front ++ t :: (decl ++ close :: behind)) (hclose : close.kind.isSealed) :
    ∃ p body items final operand, items.map Item.token = behind ∧
      source.drop t.stop = body ++ (textOf items ++ final) ∧ t.stop + body.length = p.offset ∧
      close.stop = p.offset ∧ p.line = close.line ∧ Placed p items ∧ Lays operand items final ∧
      Gaps final [] ∧ (hashbang source).length ≤ t.stop := by
  obtain ⟨items, final, hitems, hsource, hlays, hplaced, hfinal⟩ := exists_lays_of_tokenize h
  obtain ⟨front, tail, rfl, -, htail⟩ := List.map_eq_append_iff.1 (hitems.trans htokens)
  obtain ⟨j, tail, rfl, rfl, hrest⟩ := List.map_eq_cons_iff.1 htail
  obtain ⟨run, tail, rfl, -, hlast⟩ := List.map_eq_append_iff.1 hrest
  obtain ⟨c, items, rfl, rfl, hbehind⟩ := List.map_eq_cons_iff.1 hlast
  have hgroup : front ++ j :: (run ++ c :: items) = (front ++ [j]) ++ ((run ++ [c]) ++ items) := by simp
  rw [hgroup] at hsource hlays hplaced
  have hdrop : source.drop (Position.start.after (hashbang source)).offset =
      textOf ((front ++ [j]) ++ ((run ++ [c]) ++ items)) ++ final := by
    rw [Position.offset_after, show Position.start.offset = 0 from rfl, Nat.zero_add]
    exact List.append_cancel_left ((hashbang_append_drop source).trans hsource)
  have hstop := stop_getLast hplaced (by simp)
  have hplaced' := placed_append hplaced
  have hstop' := stop_getLast hplaced' (by simp)
  rw [List.getLast_concat, ← Position.offset_after] at hstop hstop'
  obtain ⟨operand, hlays⟩ : ∃ operand, Lays operand items final :=
    ⟨_, (lays_append_iff.1 (lays_append_iff.1 hlays).2).2⟩
  refine ⟨_, textOf (run ++ [c]), items, final, operand, hbehind, ?_, ?_, hstop', ?_,
    placed_append hplaced', hlays, hfinal, ?_⟩
  · rw [hstop, drop_behind hdrop, textOf_append, List.append_assoc]
  · rw [hstop, ← Position.offset_after]
  · -- The last token is one code point and no line feed.
    rw [List.append_assoc] at hplaced'
    obtain ⟨hstart, -⟩ := placed_append hplaced'
    obtain ⟨_, hlexes⟩ := lexes_of_tokenize h (show c.token ∈ tokens.tokens by simp [htokens])
    obtain ⟨d, hd, htext, -⟩ := hlexes.choose_spec.text_of_isSealed hclose
    have hline : ∀ d ∈ Lexeme.sealedMarks, Text.lineFeeds [d] = 0 := by decide
    rw [textOf_append run, textOf_cons, textOf_nil, List.append_nil, Position.after_append _ (textOf run),
      Position.after_append _ c.gap, ← hstart, Position.line_after, htext, hline d hd, Nat.add_zero, Token.line]
  · rw [hstop, Position.offset_after, Position.offset_after]
    omega

/-- Behind the words of a default export the scan goes on behind what has no name. -/
theorem scanned_behind_anonymous (hscan : scanSource source = .ok (tokens, statements))
    (htokens : tokens.tokens = before ++ word :: t :: (decl ++ close :: behind))
    (hword : word.kind = .exportWord) (ht : t.isWord "default")
    (hdecl : IsAnonymous (decl ++ [close])) (hs : s ∈ statements) (hstart : s.start = word.start) :
    ∃ front back, statements = front ++ s :: back ∧ s = ⟨word.start, t.stop, .default none⟩ ∧
      Scanned behind back ∧ ∀ s' ∈ back, s' ≠ s := by
  obtain ⟨htokenize, hstatements⟩ := tokenize_of_scanSource hscan
  obtain ⟨before', word', us, rest, prev, front, back, hts, rfl, hstart', hread, hback⟩ :=
    exists_scanFrom_of_mem hstatements hs
  have hpairs := start_lt_of_tokenize htokenize
  have hsame : word.start.offset = word'.start.offset := by rw [← hstart, hstart']
  -- Tokens start at different places, so the statement starts with the word.
  have hplaces := List.pairwise_append.1 (htokens ▸ hpairs)
  have hnone : word' ∉ before := fun h => by
    have := hplaces.2.2 word' h word List.mem_cons_self
    omega
  have hnone' : word' ∉ t :: (decl ++ close :: behind) := fun h => by
    have := (List.pairwise_cons.1 hplaces.2.1).1 word' h
    omega
  obtain ⟨rfl, rfl, rfl⟩ := (List.append_cons_inj_of_notMem hnone hnone').1 (htokens.symm.trans hts)
  have hname : declaredName (decl ++ close :: behind) = none := by
    have := declaredName_of_isAnonymous hdecl behind
    rwa [List.append_assoc] at this
  rw [readStatement_default hword ht, hname] at hread
  obtain ⟨rfl, rfl⟩ := Prod.mk.inj (Option.some.inj (Except.ok.inj hread))
  have hbehind := passed_of_isAnonymous hdecl tokens.last prev behind
  rw [List.append_assoc, List.singleton_append, hback] at hbehind
  refine ⟨front, back, rfl, rfl, scanned_of_scanFrom hbehind.symm, ?_⟩
  rintro s' hs' rfl
  obtain ⟨w, hw, hwstart⟩ := exists_start_of_scanFrom hback _ hs'
  have := (List.pairwise_cons.1 hplaces.2.1).1 w (List.mem_cons_of_mem t hw)
  rw [← hwstart] at this
  exact absurd this (lt_irrefl _)

/-- Behind a function or a class without a name an assignment ends where a statement does that is an
expression. The assignment holds what the declaration has held, and nothing stands behind it but what is
left of the source there. A token that a module statement touches is sealed, and no other default
export is read. -/
theorem assignment_ends_iff (hscan : scanSource source = .ok (tokens, statements))
    (h : (Lowering.transpile file source).result = .ok out)
    (htokens : tokens.tokens = before ++ word :: t :: (decl ++ close :: behind))
    (hword : word.kind = .exportWord) (ht : t.isWord "default")
    (hdecl : IsAnonymous (decl ++ [close])) (hs : s ∈ statements) (hstart : s.start = word.start)
    (honly : ∀ s' ∈ statements, ∀ name, s'.form = .default name → s' = s)
    (hapart : ∀ u ∈ firstLeft? (sourceEdits source statements) behind,
      u.kind.isSealed ∨ ∀ e ∈ sourceEdits source statements, e.start ≠ u.stop) :
    ∃ front gap rest,
      out = front ++ ("exports.default =" ++ (slice source t.stop close.stop ++ (gap ++ rest))) ∧
        LeftBehind close.line (firstLeft? (sourceEdits source statements) behind) gap rest ∧
        (EndsBefore gap rest ↔
          ∀ u ∈ firstLeft? (sourceEdits source statements) behind, EndsBefore gap u.text) := by
  obtain ⟨tokens', statements', hscan', rfl⟩ := transpile_eq_ok h
  obtain ⟨rfl, rfl⟩ := Prod.mk.inj (Except.ok.inj (hscan.symm.trans hscan'))
  obtain ⟨htokenize, -⟩ := tokenize_of_scanSource hscan
  obtain ⟨front, back, rfl, hform, hback, hne⟩ :=
    scanned_behind_anonymous hscan htokens hword ht hdecl hs hstart
  have hclose : close.kind.isSealed := by rw [kind_of_isAnonymous hdecl]; rfl
  have hsplit : tokens.tokens = (before ++ [word]) ++ t :: (decl ++ close :: behind) := by simp [htokens]
  obtain ⟨p, body, items, final, operand, rfl, hdrop, hbody, hstop, hline, hplaced, hlays, hfinal, hle⟩ :=
    exists_items_behind htokenize hsplit hclose
  have hhide : (hideHashbang source).drop p.offset = textOf items ++ final := by
    rw [← hbody, ← List.drop_drop, drop_hideHashbang hle, hdrop, List.drop_left]
  have hdefault : ∀ s' ∈ back, ∀ name, s'.form ≠ .default name := fun s' hs' name hname =>
    hne s' hs' (honly s' (by simp [hs']) name hname)
  obtain ⟨parts, rfl, hedits, hclears⟩ := exists_cleared hback hdefault rfl hplaced hhide fun u hu hk => by
    have hu : u ∈ tokens.tokens := by simp [htokens, hu]
    exact slice_hideHashbang htokenize hu ▸ oneLine_slice htokenize hu hk
  -- The edits of the statements in front, that of the words, and those of the statements behind.
  have hall : sourceEdits source (front ++ s :: back) = front.flatMap (·.edits (hideHashbang source)) ++
      ⟨word.start.offset, t.stop, "exports.default ="⟩ :: parts.filterMap Part.edit? := by
    rw [sourceEdits, List.flatMap_append, List.flatMap_cons, hedits, hform]
    rfl
  have hpair := pairwise_sourceEdits hscan
  have hbounds := fun f hf => (bounds_of_mem_sourceEdits (e := f) hscan hf).1
  rw [hall] at hpair hbounds hapart ⊢
  have hlt : word.start.offset < t.stop := hbounds _ (List.mem_append_right _ List.mem_cons_self)
  have hle' : t.stop ≤ p.offset := hbody ▸ Nat.le_add_right _ _
  have hsuffix : (sourceItems parts).map Item.token <:+ tokens.tokens :=
    ⟨before ++ word :: t :: (decl ++ [close]), by simp [htokens]⟩
  obtain ⟨gap, rest, htext, hleft⟩ := exists_leftBehind hplaced hlays hfinal hclears
    ((increasing_tokens htokenize).sublist hsuffix.sublist)
    (fun f hf => (stop_le_of_mem_split hpair hlt hf).imp_left (·.trans hle'))
    (fun f hf => List.mem_append_right _ (List.mem_cons_of_mem _ hf)) hapart
  obtain ⟨before', hbefore⟩ := applyEdits_split (s := hideHashbang source) hpair
    fun f hf => ⟨Nat.zero_le _, hbounds f hf⟩
  have hbehind : applyEdits t.stop ((hideHashbang source).drop (t.stop - 0)) (parts.filterMap Part.edit?) =
      body ++ (leftText parts ++ final) := by
    rw [Nat.sub_zero, drop_hideHashbang hle, hdrop, applyEdits_append body _ fun f hf =>
      hbody ▸ le_start_of_mem_edits hplaced hf, hbody, applyEdits_parts hplaced]
  have hslice : slice source t.stop close.stop = body := by
    rw [slice, hdrop, hstop, ← hbody, Nat.add_sub_cancel_left, List.take_left]
  refine ⟨heading (front ++ s :: back) ++ before', gap, rest, ?_, hline ▸ hleft, hleft.ends gap⟩
  rw [lower_eq_heading, hall, hbefore, hbehind, hslice, htext, List.append_assoc]

end Assignment

/-- A class without a name, with an import behind it on the same line and a name on the next one. -/
def classSource : Text := "export default class extends a \x7b\x7dimport 'b'\na"

/-- The module statements of this source. -/
def classStatements : List Statement :=
  [⟨⟨0, 1, 1⟩, 14, .default none⟩, ⟨⟨33, 1, 34⟩, 43, .imports "b" [] false⟩]

/-- The import goes, and the assignment ends in front of the name. -/
theorem ends_classSource : ∃ out front gap rest,
    (Lowering.transpile "a.js" classSource).result = .ok out ∧
      out = front ++ ("exports.default =" ++ (" class extends a \x7b\x7d" ++ (gap ++ rest))) ∧
      EndsBefore gap rest := by
  have hcheck : (scanSource classSource).toOption.any fun r => r.2 = classStatements ∧ r.1.tokens = [] ++
      ⟨.exportWord, "export", ⟨0, 1, 1⟩⟩ :: ⟨.identifier, "default", ⟨7, 1, 8⟩⟩ ::
        ([⟨.identifier, "class", ⟨15, 1, 16⟩⟩, ⟨.identifier, "extends", ⟨21, 1, 22⟩⟩,
          ⟨.identifier, "a", ⟨29, 1, 30⟩⟩, ⟨.leftBrace, "\x7b", ⟨31, 1, 32⟩⟩] ++
        ⟨.rightBrace, "\x7d", ⟨32, 1, 33⟩⟩ :: [⟨.importWord, "import", ⟨33, 1, 34⟩⟩,
          ⟨.string, "'b'", ⟨40, 1, 41⟩⟩, ⟨.identifier, "a", ⟨44, 2, 1⟩⟩]) := by
    rw [classSource, Text.ofString_ofList]
    decide +kernel
  obtain ⟨⟨tokens, _⟩, hscan, hcheck⟩ := Except.exists_of_any_toOption hcheck
  obtain ⟨rfl, htokens⟩ := of_decide_eq_true hcheck
  have hfile : ¬ isTypedFile "a.js" := by decide
  have hout := result_transpile hscan fun htyped => absurd htyped hfile
  have hbody : IsGroup .leftBrace
      (⟨.leftBrace, "\x7b", ⟨31, 1, 32⟩⟩ :: ([] ++ [⟨.rightBrace, "\x7d", ⟨32, 1, 33⟩⟩])) :=
    .intro rfl rfl (by decide)
  have hbase : IsOperand [⟨.identifier, "a", ⟨29, 1, 30⟩⟩] := .word rfl (by decide)
  have hclass := @IsAnonymous.derivedClass _ _ ⟨.identifier, "class", ⟨15, 1, 16⟩⟩
    ⟨.identifier, "extends", ⟨21, 1, 22⟩⟩ (by decide) (by decide) hbase hbody
  obtain ⟨front, gap, rest, htext, hleft, -⟩ := assignment_ends_iff hscan hout htokens
    rfl (by decide) hclass List.mem_cons_self rfl
    (by
      intro s' hs' name hname
      rcases List.mem_pair.1 hs' with rfl | rfl
      · rfl
      · cases hname)
    (by decide +kernel)
  have hfirst : firstLeft? (sourceEdits classSource classStatements) [⟨.importWord, "import", ⟨33, 1, 34⟩⟩,
      ⟨.string, "'b'", ⟨40, 1, 41⟩⟩, ⟨.identifier, "a", ⟨44, 2, 1⟩⟩] =
        some ⟨.identifier, "a", ⟨44, 2, 1⟩⟩ := by
    decide +kernel
  rw [hfirst] at hleft
  exact ⟨_, front, gap, rest, hout, htext, hleft.endsBefore (by decide) (by decide)⟩

/-- A function without a name, with a parenthesis on the next line. -/
def calledSource : Text := "export default function () \x7b\x7d\n(1)"

/-- The module statement of this source. -/
def calledStatements : List Statement := [⟨⟨0, 1, 1⟩, 14, .default none⟩]

/-- The function is called there: nothing ends the assignment in front of the parenthesis. -/
theorem calledSource_goes_on :
    (Lowering.transpile "a.js" calledSource).result =
        .ok (esModuleMark ++ " " ++ "exports.default = function () \x7b\x7d" ++ "\n" ++ "(1)") ∧
      ¬ EndsBefore "\n" "(1)" := by
  have hstatements : (scanSource calledSource).toOption.map (·.2) = some calledStatements := by
    rw [calledSource, Text.ofString_ofList]
    decide +kernel
  obtain ⟨-, -, hout⟩ :=
    exists_result_transpile "a.js" calledSource calledStatements (by decide) hstatements
  have hlower : lower calledSource calledStatements =
      esModuleMark ++ " " ++ "exports.default = function () \x7b\x7d" ++ "\n" ++ "(1)" := by
    have hprologue : prologue calledStatements = [esModuleMark] := rfl
    have hbody : applyEdits 0 (hideHashbang calledSource) (sourceEdits calledSource calledStatements) =
        "exports.default = function () \x7b\x7d" ++ ("\n" ++ Text.ofString "(1)") := by
      rw [calledSource, Text.ofString_ofList]
      decide +kernel
    rw [lower_eq_join hprologue hbody rfl]
    simp [Text.join]
  exact ⟨hlower ▸ hout, by decide⟩

end Lowering

end ScriptBundle
