import Mathlib.Algebra.GroupWithZero.Nat
import ScriptBundle.Proofs.Lowering.Edits
import ScriptBundle.Proofs.StringLiteral.RoundTrip
import ScriptBundle.Proofs.Token.Layout

/-!
# The lines of a lowered source

A code point of a source that no edit covers stands on the same line behind the lowering, but for two
things: the line feeds between `export` and `default` are lost, and a name that the prologue writes as
it is may hold a line feed of its own.

* `Statement.plainNames`, `lineFeeds_heading`: the names that stand in a prologue as they are, and the
  lines of the prologue;
* `Splices.lineFeeds`: the lines of a text with pieces replaced;
* `Statement.lostBreaks`, `lineFeeds_editsUpTo`: how many lines the edits of statements take away;
* `lines_of_transpile`: the lines of a lowered source, as a whole and in front of each code point.
-/

namespace ScriptBundle

open Statement

namespace Text

theorem lineFeeds_append (s t : Text) : lineFeeds (s ++ t) = lineFeeds s + lineFeeds t :=
  List.count_append

/-- A text without line feeds. -/
def OneLine (s : Text) : Prop := lineFeeds s = 0

instance (s : Text) : Decidable (OneLine s) := inferInstanceAs (Decidable (_ = _))

@[simp] theorem oneLine_append_iff {s t : Text} : OneLine (s ++ t) ↔ OneLine s ∧ OneLine t := by
  rw [OneLine, lineFeeds_append, Nat.add_eq_zero_iff]
  rfl

theorem oneLine_iff {s : Text} : OneLine s ↔ ∀ c ∈ s, c ≠ '\n' := by
  rw [OneLine, lineFeeds, List.count_eq_zero]
  exact ⟨fun h c hc hn => h (hn ▸ hc), fun h hn => h _ hn rfl⟩

/-- A literal without line feeds. -/
theorem oneLine_ofString {cs : List Char} (h : '\n' ∉ cs) : OneLine (ofString (String.ofList cs)) := by
  rw [oneLine_iff, ofString_ofList]
  intro c hc hn
  obtain ⟨d, hd, rfl⟩ := List.mem_map.1 hc
  have hd' : d = '\n' := Char.toNat_inj.1 (congrArg CodePoint.val hn)
  exact h (hd' ▸ hd)

/-- Parts without line feeds stay on one line when they are joined without one. -/
theorem oneLine_join {sep : Text} (hsep : OneLine sep) {parts : List Text}
    (h : ∀ s ∈ parts, OneLine s) : OneLine (join sep parts) := by
  unfold join
  induction parts with
  | nil => rfl
  | cons s parts ih =>
    have hs := h s List.mem_cons_self
    have ih := ih fun t ht => h t (List.mem_cons_of_mem s ht)
    cases parts with
    | nil => rwa [List.intercalate_singleton]
    | cons t parts =>
      rw [List.intercalate_cons_cons]
      exact oneLine_append_iff.2 ⟨oneLine_append_iff.2 ⟨hs, hsep⟩, ih⟩

theorem oneLine_ofNat (n : Nat) : OneLine (ofNat n) := by
  rw [oneLine_iff]
  rintro c hc rfl
  exact absurd (isAsciiDigit_of_mem_ofNat hc) (by decide)

end Text

open Text (OneLine oneLine_append_iff oneLine_ofString)

/-- A literal stands on one line. -/
theorem StringLiteral.oneLine_encode (s : Text) : OneLine (encode s) := by
  rw [Text.oneLine_iff]
  rintro c hc rfl
  exact absurd (mem_encode hc).1 (by decide)

/-! ### The prologue -/

namespace Lowering

open StringLiteral (oneLine_encode)

/-- The names that an expression writes as they are. -/
def Reading.names : Reading → List Text
  | .variable name => [name]
  | .property object name => object :: if isPropertyName name then [name] else []
  | .defaultOf object => [object]

/-- The names that a statement of a prologue writes as they are. -/
def Piece.names : Piece → List Text
  | .mark | .helper | .run _ .nothing | .run _ .passedOn => []
  | .getter _ value => value.names
  | .run _ (.bound name) => [name]
  | .binding name value => name :: value.names

theorem Reading.oneLine_text {r : Reading} (h : ∀ name ∈ r.names, OneLine name) : OneLine r.text := by
  rcases r with name | ⟨object, name⟩ | object
  · exact h name (List.mem_singleton.2 rfl)
  · have hobject := h object List.mem_cons_self
    unfold Reading.text member
    by_cases hname : isPropertyName name
    · simp only [hname, if_true, oneLine_append_iff]
      exact ⟨⟨hobject, by decide⟩, h name (by simp [Reading.names, hname])⟩
    · simp only [hname, Bool.false_eq_true, if_false, oneLine_append_iff]
      exact ⟨⟨⟨hobject, by decide⟩, oneLine_encode name⟩, by decide⟩
  · have hobject := h object (List.mem_singleton.2 rfl)
    simp only [Reading.text, oneLine_append_iff]
    exact ⟨⟨⟨⟨⟨⟨hobject, by decide⟩, hobject⟩, by decide⟩, hobject⟩, by decide⟩, hobject⟩

theorem oneLine_requireCall (specifier : Text) : OneLine (requireCall specifier) := by
  simp only [requireCall, oneLine_append_iff]
  exact ⟨⟨by decide, oneLine_encode specifier⟩, by decide⟩

theorem oneLine_varStatement {name value : Text} (hname : OneLine name) (hvalue : OneLine value) :
    OneLine (varStatement name value) := by
  simp only [varStatement, oneLine_append_iff]
  exact ⟨⟨⟨⟨by decide, hname⟩, by decide⟩, hvalue⟩, by decide⟩

theorem Piece.oneLine_text {p : Piece} (h : ∀ name ∈ p.names, OneLine name) : OneLine p.text := by
  cases p with
  | mark => exact oneLine_ofString (by decide)
  | helper =>
    simp only [Piece.text, exportStarHelper, oneLine_append_iff]
    exact ⟨⟨⟨oneLine_ofString (by decide), oneLine_ofString (by decide)⟩, oneLine_ofString (by decide)⟩,
      oneLine_ofString (by decide)⟩
  | getter exported value =>
    simp only [Piece.text, Lowering.getter, oneLine_append_iff]
    exact ⟨⟨⟨⟨oneLine_ofString (by decide), oneLine_encode exported⟩, oneLine_ofString (by decide)⟩,
      Reading.oneLine_text h⟩, by decide⟩
  | run specifier use =>
    have hcall := oneLine_requireCall specifier
    cases use with
    | nothing => exact oneLine_append_iff.2 ⟨hcall, by decide⟩
    | bound name => exact oneLine_varStatement (h name (List.mem_singleton.2 rfl)) hcall
    | passedOn => exact oneLine_append_iff.2 ⟨oneLine_append_iff.2 ⟨by decide, hcall⟩, by decide⟩
  | binding name value =>
    exact oneLine_varStatement (h name List.mem_cons_self)
      (Reading.oneLine_text fun n hn => h n (List.mem_cons_of_mem name hn))

end Lowering

open Lowering

/-- The names of a statement that the prologue writes as they are: those that are bound, and those of
properties that can stand behind a dot. -/
def Statement.plainNames (s : Statement) : List Text :=
  match s.form with
  | .imports _ bindings _ => bindings.map (·.inner) ++ (bindings.map (·.outer)).filter isPropertyName
  | .reexportAll .. => []
  | .reexports _ bindings _ => (bindings.map (·.inner)).filter isPropertyName
  | .exportList bindings _ | .declaration bindings .. => bindings.map (·.inner)
  | .default name => name.toList

namespace Statement

variable {object name : Text} {s : Statement} {p : Piece}

theorem mem_plainNames_of_mem_variables (h : name ∈ s.variables) : name ∈ s.plainNames := by
  obtain ⟨start, stop, form⟩ := s
  cases form with
  | imports => exact List.mem_append_left _ h
  | reexportAll | reexports => cases h
  | exportList | declaration | default => exact h

theorem names_bindingReading {b : Binding} (hname : name ∈ (bindingReading object b).names) :
    name = object ∨ (name = b.inner ∧ isPropertyName name) := by
  unfold bindingReading at hname
  split at hname
  · exact .inl (List.mem_singleton.1 hname)
  · refine (List.mem_cons.1 hname).imp_right fun hname => ?_
    split at hname
    · next hproperty =>
      obtain rfl := List.mem_singleton.1 hname
      exact ⟨rfl, hproperty⟩
    · cases hname

theorem names_of_mem_getterPieces (hp : p ∈ s.getterPieces object) (hname : name ∈ p.names) :
    name = object ∨ name ∈ s.plainNames := by
  obtain ⟨exported, value, rfl, ⟨n, hn, rfl⟩ | ⟨_, bindings, _, hform, b, hb, rfl⟩⟩ :=
    getterPieces_cases hp
  · obtain rfl := List.mem_singleton.1 hname
    exact .inr (mem_plainNames_of_mem_variables hn)
  · refine (names_bindingReading hname).imp_right ?_
    rintro ⟨rfl, hproperty⟩
    rw [plainNames, hform]
    exact List.mem_filter.2 ⟨List.mem_map_of_mem hb, hproperty⟩

theorem names_bindingPiece {b : Binding} (hname : name ∈ (bindingPiece object b).names) :
    name = object ∨ name = b.inner ∨ (name = b.outer ∧ isPropertyName name) := by
  unfold bindingPiece at hname
  split at hname
  · rcases List.mem_pair.1 hname with h | h
    · exact .inr (.inl h)
    · exact .inl h
  · split at hname
    · rcases List.mem_pair.1 hname with h | h
      · exact .inr (.inl h)
      · exact .inl h
    · rcases List.mem_cons.1 hname with h | h
      · exact .inr (.inl h)
      · refine (List.mem_cons.1 h).imp_right fun h => .inr ?_
        split at h
        · next hproperty =>
          obtain rfl := List.mem_singleton.1 h
          exact ⟨rfl, hproperty⟩
        · cases h

theorem names_of_mem_requirePieces (hp : p ∈ s.requirePieces object) (hname : name ∈ p.names) :
    name = object ∨ name ∈ s.plainNames := by
  obtain ⟨specifier, use, rfl, huse⟩ | ⟨_, bindings, _, hform, b, hb, rfl⟩ := requirePieces_cases hp
  · cases use with
    | nothing | passedOn => cases hname
    | bound n =>
      obtain rfl := List.mem_singleton.1 hname
      exact (huse name rfl).imp_right mem_plainNames_of_mem_variables
  · refine (names_bindingPiece hname).imp_right ?_
    rw [plainNames, hform]
    rintro (rfl | ⟨rfl, hproperty⟩)
    · exact List.mem_append_left _ (List.mem_map_of_mem hb)
    · exact List.mem_append_right _ (List.mem_filter.2 ⟨List.mem_map_of_mem hb, hproperty⟩)

end Statement

namespace Lowering

variable {source : Text} {statements : List Statement}

theorem oneLine_moduleVariable (n : Nat) : OneLine (moduleVariable n) :=
  oneLine_append_iff.2 ⟨by decide, Text.oneLine_ofNat n⟩

/-- A prologue stands on one line, if the names do that it writes as they are. -/
theorem oneLine_of_mem_prologue (h : ∀ s ∈ statements, ∀ name ∈ s.plainNames, OneLine name) :
    ∀ text ∈ prologue statements, OneLine text := by
  intro text htext
  rw [← map_text_pieces] at htext
  obtain ⟨p, hp, rfl⟩ := List.mem_map.1 htext
  refine Piece.oneLine_text fun name hname => ?_
  have hnumbered : ∀ {s : Statement} {n : Nat}, s ∈ statements →
      name = moduleVariable n ∨ name ∈ s.plainNames → OneLine name := by
    rintro s n hs (rfl | hname)
    · exact oneLine_moduleVariable n
    · exact h s hs name hname
  obtain rfl | rfl | ⟨s, hs, n, hp | hp⟩ := pieces_cases hp
  · cases hname
  · cases hname
  · exact hnumbered hs (names_of_mem_getterPieces hp hname)
  · exact hnumbered hs (names_of_mem_requirePieces hp hname)

/-- What stands in front of the source: the prologue and a blank, if there is a module statement. -/
def heading (statements : List Statement) : Text :=
  if statements.isEmpty then [] else Text.join " " (prologue statements) ++ " "

theorem oneLine_heading (h : ∀ s ∈ statements, ∀ name ∈ s.plainNames, OneLine name) :
    OneLine (heading statements) := by
  unfold heading
  split
  · rfl
  · exact oneLine_append_iff.2
      ⟨Text.oneLine_join (by decide) (oneLine_of_mem_prologue h), by decide⟩

theorem lower_eq_heading (source : Text) (statements : List Statement) :
    lower source statements = heading statements ++
      applyEdits 0 (hideHashbang source) (sourceEdits source statements) := by
  cases statements with
  | nil => rfl
  | cons s ss => rfl

/-- A source with module statements is lowered to the parts of its prologue and to its body. -/
theorem lower_eq_join {source body : Text} {parts : List Text} (hprologue : prologue statements = parts)
    (hbody : applyEdits 0 (hideHashbang source) (sourceEdits source statements) = body)
    (hne : statements.isEmpty = false) :
    lower source statements = Text.join " " parts ++ (" " ++ body) := by
  rw [lower_eq_heading, heading, hne, if_neg Bool.false_ne_true, hprologue, hbody, List.append_assoc]

/-! ### The lines of a text with pieces replaced -/

/-- The line feeds in the pieces that edits replace. -/
def removedBreaks (source : Text) (es : List Edit) : Nat :=
  (es.map fun e => Text.lineFeeds (slice source e.start e.stop)).sum

/-- The line feeds in what takes the place of these pieces. -/
def insertedBreaks (es : List Edit) : Nat := (es.map fun e => Text.lineFeeds e.replacement).sum

theorem slice_append (before old after : Text) :
    slice (before ++ old ++ after) before.length (before.length + old.length) = old := by
  rw [slice, List.append_assoc, List.drop_left, Nat.add_sub_cancel_left, List.take_left]

/-- The line feeds of a text with pieces replaced; `before` stands in front of the text. -/
theorem Splices.lineFeeds {pos : Nat} {s out : Text} {es : List Edit} (h : Splices pos s es out)
    (before : Text) (hpos : pos = before.length) :
    Text.lineFeeds out + removedBreaks (before ++ s) es =
      Text.lineFeeds s + insertedBreaks es := by
  induction h generalizing before with
  | rest => rfl
  | @cut pos kept old s out e es hstart hstop hold h ih =>
    have hwhole : before ++ (kept ++ old ++ s) = before ++ kept ++ old ++ s := by
      simp only [List.append_assoc]
    have hslice : slice (before ++ kept ++ old ++ s) e.start e.stop = old := by
      have := slice_append (before ++ kept) old s
      rwa [List.length_append, ← hpos, ← hstart, ← hstop] at this
    have ih := ih (before ++ kept ++ old) (by simp only [List.length_append]; omega)
    simp only [removedBreaks, insertedBreaks, List.map_cons, List.sum_cons, hwhole, hslice,
      Text.lineFeeds_append] at ih ⊢
    omega

theorem slice_append_of_le {start stop : Nat} {s : Text} (h : stop ≤ s.length) (t : Text) :
    slice (s ++ t) start stop = slice s start stop := by
  rw [slice, slice, ← List.drop_take, ← List.drop_take, List.take_append_of_le_length h]

/-! ### What the edits of statements take away -/

end Lowering

/-- The line feeds between the two words of a default export. -/
def Statement.lostBreaks (source : Text) (s : Statement) : Nat :=
  match s.form with
  | .default _ => Text.lineFeeds (slice source s.start.offset s.stop)
  | _ => 0

namespace Lowering

/-- The line feeds between `export` and `default` that a source has up to the offset `pos`. -/
def lostBreaks (source : Text) (statements : List Statement) (pos : Nat) : Nat :=
  ((statements.filter fun s => s.stop ≤ pos).map (·.lostBreaks source)).sum

section Statement

variable {source : Text} {s : Statement} {word : Token} {ts rest : List Token}

theorem removedBreaks_eq {es : List Edit}
    (h : ∀ e ∈ es, Text.lineFeeds (slice source e.start e.stop) = Text.lineFeeds e.replacement) :
    removedBreaks source es = insertedBreaks es :=
  congrArg List.sum (List.map_congr_left h)

theorem isWordKind_of_isWord {t : Token} {w : Text} (h : t.isWord w) : t.kind.isWordKind := by
  rw [kind_of_isWord h]
  rfl

theorem isWordKind_of_isKeyword {t : Token} (h : t.isKeyword) : t.kind.isWordKind := by
  rcases kind_of_isKeyword h with h | h <;> rw [h] <;> rfl

/-- The edits of a statement leave as many line feeds as they take away, but for those between the
words of a default export. -/
theorem removedBreaks_edits (pos : Nat) (hrecords : s.Records word) (hword : word.isKeyword)
    (hcovers : Covers word ts s rest)
    (hwords : ∀ t ∈ word :: ts, t.kind.isWordKind → OneLine (slice source t.start.offset t.stop)) :
    removedBreaks source (editsUpTo pos (s.edits source)) =
      insertedBreaks (editsUpTo pos (s.edits source)) +
        if s.stop ≤ pos then s.lostBreaks source else 0 := by
  have hkeyword : OneLine (slice source word.start.offset word.stop) :=
    hwords word List.mem_cons_self (isWordKind_of_isKeyword hword)
  -- Breaks are lost by a default export only: elsewhere an edit puts in as many as it takes out.
  have hkept : (∀ e ∈ s.edits source,
      Text.lineFeeds (slice source e.start e.stop) = Text.lineFeeds e.replacement) →
      s.lostBreaks source = 0 → removedBreaks source (editsUpTo pos (s.edits source)) =
        insertedBreaks (editsUpTo pos (s.edits source)) +
          if s.stop ≤ pos then s.lostBreaks source else 0 := by
    intro hedits hlost
    rw [hlost, ite_self, Nat.add_zero]
    exact removedBreaks_eq fun e he => hedits e (List.mem_filter.1 he).1
  cases hcovers with
  | whole run hform hts hends =>
    refine hkept (fun e he => ?_) ?_
    · obtain rfl := List.mem_singleton.1 (edits_of_isWhole source hform ▸ he)
      exact (List.count_replicate_self ..).symm
    · obtain ⟨start, stop, form⟩ := s
      cases form with
      | declaration | default => cases hform
      | imports | reexportAll | reexports | exportList => rfl
  | declaration bindings typeOnly hform hstop hrest =>
    refine hkept (fun e he => ?_) (by rw [Statement.lostBreaks, hform])
    simp only [edits, hform, hrecords.1, hstop, Option.toList_none, List.map_nil,
      List.mem_singleton] at he
    rw [he]
    exact hkeyword
  | blockScoped bindings typeOnly front t behind hform hstop hts hfront ht hrest =>
    have hscope : OneLine (slice source t.start.offset t.stop) :=
      hwords t (by simp [hts]) (ht.elim isWordKind_of_isWord isWordKind_of_isWord)
    refine hkept (fun e he => ?_) (by rw [Statement.lostBreaks, hform])
    simp only [edits, hform, hrecords.1, hstop, Option.toList_some, List.map_cons, List.map_nil] at he
    rcases List.mem_pair.1 he with rfl | rfl
    · exact hkeyword
    · exact hscope
  | default name t hform hts ht hstop hname =>
    obtain ⟨replacement, hedits, hline⟩ : ∃ replacement, s.edits source =
        [⟨s.start.offset, s.stop, replacement⟩] ∧ OneLine replacement := by
      cases name with
      | none => exact ⟨_, by rw [edits, hform], by decide⟩
      | some n => exact ⟨_, by rw [edits, hform], by decide⟩
    have hlost : s.lostBreaks source = Text.lineFeeds (slice source s.start.offset s.stop) := by
      rw [Statement.lostBreaks, hform]
    rw [hedits, hlost, editsUpTo]
    by_cases hpos : s.stop ≤ pos
    · rw [List.filter_cons_of_pos (by simpa using hpos), if_pos hpos]
      simp only [removedBreaks, insertedBreaks, List.filter_nil, List.map_cons, List.map_nil,
        List.sum_cons, List.sum_nil, show Text.lineFeeds replacement = 0 from hline]
      omega
    · rw [List.filter_cons_of_neg (by simpa using hpos), if_neg hpos]
      rfl

/-- The same for all statements of a scan. -/
theorem removedBreaks_scanned (pos : Nat) {ss : List Statement} (h : Scanned ts ss)
    (hwords : ∀ t ∈ ts, t.kind.isWordKind → OneLine (slice source t.start.offset t.stop)) :
    removedBreaks source (editsUpTo pos (ss.flatMap (·.edits source))) =
      insertedBreaks (editsUpTo pos (ss.flatMap (·.edits source))) + lostBreaks source ss pos := by
  induction h with
  | nil => rfl
  | pass t _ ih => exact ih fun u hu => hwords u (List.mem_cons_of_mem t hu)
  | @read word ts rest s ss hrecords hword hcovers _ ih =>
    have hrest : rest <:+ word :: ts := by
      obtain ⟨taken, htaken, -⟩ := edits_of_covers source hrecords hword hcovers
      exact ⟨taken, htaken.symm⟩
    have hstatement := removedBreaks_edits pos hrecords hword hcovers hwords
    have ih := ih fun u hu => hwords u (hrest.subset hu)
    have hlost : lostBreaks source (s :: ss) pos =
        (if s.stop ≤ pos then s.lostBreaks source else 0) + lostBreaks source ss pos := by
      by_cases hpos : s.stop ≤ pos <;> simp [lostBreaks, hpos]
    simp only [removedBreaks, insertedBreaks, editsUpTo, List.flatMap_cons, List.filter_append,
      List.map_append, List.sum_append] at hstatement ih ⊢
    omega

end Statement

/-! ### The lines of a lowered source -/

section Source

variable {source : Text} {tokens : TokenStream} {statements : List Statement}

theorem hideHashbang_cases (source : Text) :
    (hideHashbang source = source ∧ (Text.ofString "#!").isPrefixOf source = false) ∨
      ∃ rest, source = Text.ofString "#!" ++ rest ∧
        hideHashbang source = Text.ofString "//" ++ rest := by
  cases h : (Text.ofString "#!").isPrefixOf source with
  | false => exact .inl ⟨by simp [hideHashbang, h], rfl⟩
  | true =>
    obtain ⟨rest, rfl⟩ := List.isPrefixOf_iff_prefix.1 h
    exact .inr ⟨rest, rfl, by rw [hideHashbang, if_pos h]; rfl⟩

theorem lineFeeds_hideHashbang (source : Text) :
    Text.lineFeeds (hideHashbang source) = Text.lineFeeds source := by
  rcases hideHashbang_cases source with ⟨h, -⟩ | ⟨rest, hsource, h⟩
  · rw [h]
  · have hmark : Text.lineFeeds "//" = Text.lineFeeds "#!" := by decide
    rw [h, hsource, Text.lineFeeds_append, Text.lineFeeds_append, hmark]

/-- Behind its hashbang line a source stays as it is. -/
theorem drop_hideHashbang {n : Nat} (h : (hashbang source).length ≤ n) :
    (hideHashbang source).drop n = source.drop n := by
  rcases hideHashbang_cases source with ⟨hs, -⟩ | ⟨rest, rfl, hs⟩
  · rw [hs]
  · have hline : 2 ≤ (hashbang (Text.ofString "#!" ++ rest)).length := by
      have : (Text.ofString "#!" ++ rest).takeWhile Lexeme.inLineComment =
          Text.ofString "#!" ++ rest.takeWhile Lexeme.inLineComment :=
        List.takeWhile_append_of_pos (by decide)
      rw [hashbang, if_pos (List.isPrefixOf_iff_prefix.2 ⟨_, rfl⟩), this,
        List.length_append]
      exact Nat.le_add_right 2 _
    obtain ⟨k, rfl⟩ := Nat.exists_eq_add_of_le (hline.trans h)
    rw [hs, ← List.drop_drop, ← List.drop_drop]
    rfl

/-- A token is the piece of the source between its ends. -/
theorem slice_hideHashbang (h : tokenize source = .ok tokens) {t : Token} (ht : t ∈ tokens.tokens) :
    slice (hideHashbang source) t.start.offset t.stop = t.text := by
  obtain ⟨hline, rest, hrest⟩ := drop_start_of_tokenize h ht
  rw [slice, drop_hideHashbang hline, hrest, Token.stop, Nat.add_sub_cancel_left, List.take_left]

theorem oneLine_slice (h : tokenize source = .ok tokens) {t : Token} (ht : t ∈ tokens.tokens)
    (hk : t.kind.isWordKind) : OneLine (slice (hideHashbang source) t.start.offset t.stop) := by
  obtain ⟨c, w, htext, hc, hw, -⟩ := Lexer.word_of_tokenize h ht hk
  rw [slice_hideHashbang h ht, htext, Text.oneLine_iff]
  intro d hd
  rcases List.mem_cons.1 hd with rfl | hd
  · rintro rfl
    exact absurd hc (by decide)
  · rintro rfl
    exact absurd (hw _ hd) (by decide)

/-- The lines of a lowered source, if the prologue writes only names without line feeds as they are:
the source has more of them by the line feeds between `export` and `default`, and a code point that no
edit covers moves up by those in front of it. -/
theorem lines_of_transpile {file out : Text} (hscan : scanSource source = .ok (tokens, statements))
    (hnames : ∀ s ∈ statements, ∀ name ∈ s.plainNames, OneLine name)
    (h : (Lowering.transpile file source).result = .ok out) :
    Text.lineFeeds out + lostBreaks (hideHashbang source) statements source.length =
        Text.lineFeeds source ∧
      ∀ front c back, hideHashbang source = front ++ c :: back →
        (∀ e ∈ sourceEdits source statements, e.stop ≤ front.length ∨ front.length < e.start) →
        ∃ front' back', out = heading statements ++ front' ++ c :: back' ∧
          Splices 0 front (editsUpTo front.length (sourceEdits source statements)) front' ∧
          Text.lineFeeds (heading statements ++ front') +
            lostBreaks (hideHashbang source) statements front.length = Text.lineFeeds front := by
  obtain ⟨tokens', statements', hscan', rfl⟩ := transpile_eq_ok h
  obtain ⟨rfl, rfl⟩ := Prod.mk.inj (Except.ok.inj (hscan.symm.trans hscan'))
  obtain ⟨htokens, hstatements⟩ := tokenize_of_scanSource hscan
  have hsplices := splices_sourceEdits hscan
  have hbreaks := fun pos => removedBreaks_scanned pos (scanned_of_scan hstatements)
    fun t ht hk => oneLine_slice htokens ht hk
  have hheading : Text.lineFeeds (heading statements) = 0 := oneLine_heading hnames
  constructor
  · have hall : editsUpTo source.length (sourceEdits source statements) =
        sourceEdits source statements :=
      List.filter_eq_self.2 fun e he => by simpa using (bounds_of_mem_sourceEdits hscan he).2
    have hlines := hsplices.lineFeeds [] rfl
    have hbreaks := hbreaks source.length
    rw [show statements.flatMap (·.edits (hideHashbang source)) = sourceEdits source statements
      from rfl, hall] at hbreaks
    rw [lower_eq_heading, Text.lineFeeds_append]
    rw [List.nil_append, lineFeeds_hideHashbang] at hlines
    omega
  · intro front c back hsource hc
    rw [hsource] at hsplices
    obtain ⟨front', back', hbody, hfront, -⟩ := hsplices.split fun e he => by
      rw [Nat.zero_add]
      exact hc e he
    rw [Nat.zero_add] at hfront
    have hlines := hfront.lineFeeds [] rfl
    have hbreaks := hbreaks front.length
    have hremoved : removedBreaks (hideHashbang source)
        (editsUpTo front.length (sourceEdits source statements)) =
        removedBreaks front (editsUpTo front.length (sourceEdits source statements)) := by
      refine congrArg List.sum (List.map_congr_left fun e he => ?_)
      have hle : e.stop ≤ front.length := by simpa using (List.mem_filter.1 he).2
      rw [hsource, slice_append_of_le hle]
    rw [show statements.flatMap (·.edits (hideHashbang source)) = sourceEdits source statements
      from rfl, hremoved] at hbreaks
    refine ⟨front', back', ?_, hfront, ?_⟩
    · rw [lower_eq_heading, hsource, hbody, List.append_assoc]
    · rw [Text.lineFeeds_append]
      rw [List.nil_append] at hlines
      omega

end Source

/-- What a source with known module statements is lowered to, if it is not named as typed. -/
theorem exists_result_transpile (file source : Text) (statements : List Statement)
    (hfile : isTypedFile file = false)
    (hscan : (scanSource source).toOption.map (·.2) = some statements) :
    ∃ tokens, scanSource source = .ok (tokens, statements) ∧
      (Lowering.transpile file source).result = .ok (lower source statements) := by
  cases h : scanSource source with
  | error f =>
    rw [h] at hscan
    cases hscan
  | ok r =>
    obtain ⟨tokens, statements'⟩ := r
    rw [h] at hscan
    obtain rfl : statements' = statements := Option.some.inj hscan
    exact ⟨tokens, rfl, result_transpile h fun htyped => absurd htyped (by simp [hfile])⟩

/-- A source with an import over several lines and a default export on one. -/
def foldedSource : Text := "import \x7b\n  a\n\x7d from 'b';\nexport default a;\n"

/-- The module statements of this source. -/
def foldedStatements : List Statement :=
  [⟨⟨0, 1, 1⟩, 24, .imports "b" [⟨"a", "a", false⟩] false⟩, ⟨⟨25, 4, 1⟩, 39, .default none⟩]

theorem lines_foldedSource : ∃ out tokens,
    scanSource foldedSource = .ok (tokens, foldedStatements) ∧
      (Lowering.transpile "a.js" foldedSource).result = .ok out ∧
      lostBreaks (hideHashbang foldedSource) foldedStatements foldedSource.length = 0 ∧
      Text.lineFeeds out = Text.lineFeeds foldedSource := by
  have hstatements : (scanSource foldedSource).toOption.map (·.2) = some foldedStatements := by
    rw [foldedSource, Text.ofString_ofList]
    decide +kernel
  obtain ⟨tokens, hscan, hout⟩ :=
    exists_result_transpile "a.js" foldedSource foldedStatements (by decide) hstatements
  have hnames : ∀ s ∈ foldedStatements, ∀ name ∈ s.plainNames, OneLine name := by decide +kernel
  have hlost : lostBreaks (hideHashbang foldedSource) foldedStatements foldedSource.length = 0 := by
    decide +kernel
  have hlines := (lines_of_transpile hscan hnames hout).1
  rw [hlost, Nat.add_zero] at hlines
  exact ⟨lower foldedSource foldedStatements, tokens, hscan, hout, hlost, hlines⟩

/-- A default export over two lines. -/
def splitDefault : Text := "export\ndefault 1;"

/-- Between `export` and `default` a line feed is lost. -/
theorem line_lost_in_splitDefault : ∃ out,
    (Lowering.transpile "a.js" splitDefault).result = .ok out ∧
      Text.lineFeeds out = 0 ∧ Text.lineFeeds splitDefault = 1 := by
  obtain ⟨tokens, hscan, hout⟩ := exists_result_transpile "a.js" splitDefault
    [⟨⟨0, 1, 1⟩, 14, .default none⟩] (by decide) (by decide +kernel)
  refine ⟨_, hout, ?_, by decide⟩
  rw [lower_eq_heading]
  refine oneLine_append_iff.2 ⟨oneLine_heading fun s hs name hname => ?_, by decide +kernel⟩
  rw [List.mem_singleton.1 hs] at hname
  cases hname

end Lowering

end ScriptBundle
