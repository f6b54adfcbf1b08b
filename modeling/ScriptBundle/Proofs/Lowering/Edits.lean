import ScriptBundle.Proofs.Lowering.Prologue
import ScriptBundle.Proofs.Statement.Span

/-!
# What an edited source keeps

The edits of a lowered source replace runs of whole tokens, one behind the other: a statement that
goes, the words in front of a declaration or of a default export, and the word that makes a declaration
block-scoped. All else of the source is still there, in its order.

* `Edit.Spans`, `Statement.Replaced`: the tokens that an edit replaces, and which of a statement's
  tokens they may be;
* `Splices`, `splices_applyEdits`: a text with pieces replaced, and what is left of it;
* `Splices.split`: what no edit covers stays where it was among the rest;
* `pairwise_edits`, `exists_run_of_mem_edits`: the edits of the statements of a scan;
* `splices_of_transpile`: all of it for a lowered source.
-/

namespace ScriptBundle

open Statement

namespace Lowering

/-- The edit replaces the tokens `run`, from the start of the first up to the end of the last. -/
def Edit.Spans (e : Edit) (run : List Token) : Prop :=
  run.head?.map (·.start.offset) = some e.start ∧ run.getLast?.map Token.stop = some e.stop

/-- Each token starts behind the end of the one before it, and none is empty. -/
def Increasing (ts : List Token) : Prop :=
  ts.Pairwise (fun t u => t.stop ≤ u.start.offset) ∧ ∀ t ∈ ts, t.start.offset < t.stop

theorem increasing_tokens {source : Text} {ts : TokenStream} (h : tokenize source = .ok ts) :
    Increasing ts.tokens := by
  refine ⟨increasing_of_tokenize h, fun t ht => ?_⟩
  have := List.length_pos_iff.2 (text_ne_nil_of_tokenize h ht)
  rw [Token.stop]
  omega

section Spans

variable {e f : Edit} {run run' front back ts : List Token}

theorem Increasing.sublist (h : Increasing ts) (hs : run.Sublist ts) : Increasing run :=
  ⟨h.1.sublist hs, fun t ht => h.2 t (hs.subset ht)⟩

theorem Edit.spans_singleton (t : Token) (replacement : Text) :
    Edit.Spans ⟨t.start.offset, t.stop, replacement⟩ [t] :=
  ⟨rfl, rfl⟩

/-- The first and the last token that an edit replaces. -/
theorem Edit.Spans.exists_tokens (h : e.Spans run) :
    (∃ t ∈ run, t.start.offset = e.start) ∧ ∃ t ∈ run, t.stop = e.stop := by
  obtain ⟨t, ht, hstart⟩ := Option.map_eq_some_iff.1 h.1
  obtain ⟨u, hu, hstop⟩ := Option.map_eq_some_iff.1 h.2
  exact ⟨⟨t, List.mem_of_head? ht, hstart⟩, ⟨u, List.mem_of_getLast? hu, hstop⟩⟩

theorem Edit.Spans.lt (h : e.Spans run) (hi : Increasing run) : e.start < e.stop := by
  obtain ⟨t, ht, hstart⟩ := Option.map_eq_some_iff.1 h.1
  obtain ⟨u, hu, hstop⟩ := h.exists_tokens.2
  obtain ⟨rest, rfl⟩ : ∃ rest, run = t :: rest := List.head?_eq_some_iff.1 ht
  have hlt := hi.2 t List.mem_cons_self
  rcases List.mem_cons.1 hu with rfl | hmem
  · omega
  · have := (List.pairwise_cons.1 hi.1).1 u hmem
    have := hi.2 u hu
    omega

/-- An edit of earlier tokens ends in front of an edit of later ones. -/
theorem Edit.Spans.stop_le (he : e.Spans run) (hf : f.Spans run') (hi : Increasing (front ++ back))
    (hrun : run ⊆ front) (hrun' : run' ⊆ back) : e.stop ≤ f.start := by
  obtain ⟨t, ht, hstop⟩ := he.exists_tokens.2
  obtain ⟨u, hu, hstart⟩ := hf.exists_tokens.1
  have := (List.pairwise_append.1 hi.1).2.2 t (hrun ht) u (hrun' hu)
  omega

end Spans

/-! ### A text with pieces replaced -/

/-- `Splices pos s es out`: in the text `s`, which starts at the offset `pos`, the edits `es` replace
pieces that are not empty and follow each other, and `out` is what comes out. -/
inductive Splices : Nat → Text → List Edit → Text → Prop
  | rest (pos : Nat) (s : Text) : Splices pos s [] s
  | cut {pos : Nat} {kept old s out : Text} {e : Edit} {es : List Edit}
      (hstart : e.start = pos + kept.length) (hstop : e.stop = e.start + old.length)
      (hold : old ≠ []) (h : Splices e.stop s es out) :
      Splices pos (kept ++ old ++ s) (e :: es) (kept ++ e.replacement ++ out)

/-- Edits that follow each other inside the text cut it. -/
theorem splices_applyEdits {pos : Nat} {s : Text} {es : List Edit}
    (hpair : es.Pairwise fun e f => e.stop ≤ f.start)
    (hin : ∀ e ∈ es, pos ≤ e.start ∧ e.start < e.stop ∧ e.stop ≤ pos + s.length) :
    Splices pos s es (applyEdits pos s es) := by
  induction es generalizing pos s with
  | nil => exact .rest pos s
  | cons e es ih =>
    obtain ⟨hpos, hlt, hstop⟩ := hin e List.mem_cons_self
    obtain ⟨hnext, hpair⟩ := List.pairwise_cons.1 hpair
    have hs : s = s.take (e.start - pos) ++ (s.drop (e.start - pos)).take (e.stop - e.start) ++
        s.drop (e.stop - pos) := by
      rw [List.append_assoc, show e.stop - pos = e.start - pos + (e.stop - e.start) by omega,
        ← List.drop_drop, List.take_append_drop, List.take_append_drop]
    have hold : ((s.drop (e.start - pos)).take (e.stop - e.start)).length = e.stop - e.start := by
      rw [List.length_take, List.length_drop]
      omega
    have hrest : Splices e.stop (s.drop (e.stop - pos)) es
        (applyEdits e.stop (s.drop (e.stop - pos)) es) := by
      refine ih hpair fun f hf => ⟨hnext f hf, ?_⟩
      have := hin f (List.mem_cons_of_mem e hf)
      rw [List.length_drop]
      omega
    rw [applyEdits]
    conv => arg 2; rw [hs]
    refine .cut ?_ ?_ ?_ hrest
    · rw [List.length_take]
      omega
    · omega
    · rw [← List.length_pos_iff]
      omega

/-- The edits whose pieces end at the offset `pos` or before it. -/
def editsUpTo (pos : Nat) (es : List Edit) : List Edit := es.filter fun e => e.stop ≤ pos

/-- The edits whose pieces start at the offset `pos` or behind it. -/
def editsFrom (pos : Nat) (es : List Edit) : List Edit := es.filter fun e => pos ≤ e.start

/-- No edit replaces anything in front of the text. -/
theorem Splices.le_start {pos : Nat} {s out : Text} {es : List Edit} (h : Splices pos s es out) :
    ∀ e ∈ es, pos ≤ e.start ∧ e.start < e.stop := by
  induction h with
  | rest => intro e he; cases he
  | @cut pos kept old s out e es hstart hstop hold h ih =>
    have := List.length_pos_iff.2 hold
    intro f hf
    rcases List.mem_cons.1 hf with rfl | hf
    · omega
    · have := ih f hf
      omega

/-- A code point that no edit covers is still there, between what is left of the text in front of it
and what is left of the text behind it. -/
theorem Splices.split {pos : Nat} {front back out : Text} {c : CodePoint} {es : List Edit}
    (h : Splices pos (front ++ c :: back) es out)
    (hc : ∀ e ∈ es, e.stop ≤ pos + front.length ∨ pos + front.length < e.start) :
    ∃ front' back', out = front' ++ c :: back' ∧
      Splices pos front (editsUpTo (pos + front.length) es) front' ∧
      Splices (pos + front.length + 1) back (editsFrom (pos + front.length + 1) es) back' := by
  generalize hs : front ++ c :: back = s at h
  induction h generalizing front with
  | rest pos s =>
    subst hs
    exact ⟨front, back, rfl, .rest _ _, .rest _ _⟩
  | @cut pos kept old s out e es hstart hstop hold h ih =>
    have hlength := List.length_pos_iff.2 hold
    have hlater := h.le_start
    rcases hc e List.mem_cons_self with hbefore | hbehind
    · -- The piece is replaced in front of the code point.
      obtain ⟨more, rfl⟩ : kept ++ old <+: front :=
        List.prefix_of_prefix_length_le ⟨s, hs.symm⟩ ⟨c :: back, rfl⟩ (by rw [List.length_append]; omega)
      have hrest : more ++ c :: back = s := List.append_cancel_left ((List.append_assoc ..).symm.trans hs)
      have hpos : pos + (kept ++ old ++ more).length = e.stop + more.length := by
        rw [List.length_append, List.length_append]
        omega
      obtain ⟨front', back', rfl, hf, hb⟩ :=
        ih (fun f hf => hpos ▸ hc f (List.mem_cons_of_mem e hf)) hrest
      refine ⟨kept ++ e.replacement ++ front', back', (List.append_assoc ..).symm, ?_, ?_⟩
      · rw [hpos, editsUpTo, List.filter_cons_of_pos (by simp)]
        exact .cut hstart hstop hold hf
      · rw [hpos, editsFrom, List.filter_cons_of_neg (by simp; omega)]
        exact hb
    · -- The code point stands in what is kept in front of the piece.
      have hpoint : (front ++ [c]) ++ back = kept ++ (old ++ s) := by simpa using hs
      obtain ⟨more, rfl⟩ : front ++ [c] <+: kept :=
        List.prefix_of_prefix_length_le ⟨back, hpoint⟩ ⟨old ++ s, rfl⟩ (by
          rw [List.length_append, List.length_singleton]
          omega)
      have hback : back = more ++ (old ++ s) :=
        List.append_cancel_left (hpoint.trans (List.append_assoc ..))
      have hpos : pos + (front ++ [c] ++ more).length = pos + front.length + 1 + more.length := by
        rw [List.length_append, List.length_append, List.length_singleton]
        omega
      have hnone : editsUpTo (pos + front.length) (e :: es) = [] := by
        rw [editsUpTo, List.filter_eq_nil_iff]
        intro f hf
        rcases List.mem_cons.1 hf with rfl | hf
        · simp
          omega
        · have := hlater f hf
          simp
          omega
      have hall : editsFrom (pos + front.length + 1) (e :: es) = e :: es := by
        rw [editsFrom, List.filter_eq_self]
        intro f hf
        rcases List.mem_cons.1 hf with rfl | hf
        · simp
          omega
        · have := hlater f hf
          simp
          omega
      refine ⟨front, more ++ e.replacement ++ out, by simp, ?_, ?_⟩
      · rw [hnone]
        exact .rest _ _
      · rw [hall, hback, ← List.append_assoc]
        exact .cut (by omega) hstop hold h

/-! ### The edits of a scan -/

/-- The tokens `run` are those of a statement `s` that an edit may replace. -/
inductive Replaced (s : Statement) : List Token → Prop
  /-- A whole import, re-export or list of exported names. -/
  | whole {word : Token} {run : List Token} (hform : s.isWhole) (hrecords : s.Records word)
      (hword : word.isKeyword) (hends : Ends (word :: run) s.stop) : Replaced s (word :: run)
  /-- The keyword in front of a declaration. -/
  | exportWord {word : Token} {bindings : List Binding} {typeOnly : Bool} {t? : Option Token}
      (hform : s.form = .declaration bindings typeOnly t?) (hstart : s.start = word.start)
      (hword : word.kind = .exportWord) : Replaced s [word]
  /-- The words `export default`. -/
  | exportDefault {word t : Token} {name : Option Text} (hform : s.form = .default name)
      (hstart : s.start = word.start) (hword : word.kind = .exportWord) (ht : t.isWord "default") :
      Replaced s [word, t]
  /-- The word that makes a declaration block-scoped. -/
  | blockScoped {t : Token} {bindings : List Binding} {typeOnly : Bool}
      (hform : s.form = .declaration bindings typeOnly (some t))
      (ht : t.isWord "let" ∨ t.isWord "const") : Replaced s [t]

/-- The edit replaces a run of the tokens `ts` that belongs to the statement `s`. -/
def Edit.Replaces (e : Edit) (s : Statement) (ts : List Token) : Prop :=
  ∃ run, run <:+: ts ∧ e.Spans run ∧ Replaced s run

theorem Edit.Replaces.mono {e : Edit} {s : Statement} {ts us : List Token} (h : e.Replaces s ts)
    (hts : ts <:+: us) : e.Replaces s us := by
  obtain ⟨run, hrun, hspans, hreplaced⟩ := h
  exact ⟨run, hrun.trans hts, hspans, hreplaced⟩

section Statement

variable {s : Statement} {word : Token} {ts rest : List Token}

theorem kind_of_records (hrecords : s.Records word) (hword : word.isKeyword)
    (hform : s.isImport = false) : word.kind = .exportWord := by
  have hnot : word.kind ≠ .importWord := fun h => by simp [hrecords.2.2 h] at hform
  exact (kind_of_isKeyword hword).resolve_left hnot

/-- The edit of a statement that goes as a whole. -/
theorem edits_of_isWhole (source : Text) (h : s.isWhole) :
    s.edits source = [⟨s.start.offset, s.stop,
      List.replicate (Text.lineFeeds (slice source s.start.offset s.stop)) '\n'⟩] := by
  obtain ⟨start, stop, form⟩ := s
  cases form with
  | declaration | default => cases h
  | imports | reexportAll | reexports | exportList => rfl

/-- The edits of one statement replace tokens of its own, in their order. -/
theorem edits_of_covers (source : Text) (hrecords : s.Records word) (hword : word.isKeyword)
    (hcovers : Covers word ts s rest) :
    ∃ taken, word :: ts = taken ++ rest ∧ (∀ e ∈ s.edits source, e.Replaces s taken) ∧
      (Increasing taken → (s.edits source).Pairwise fun e f => e.stop ≤ f.start) := by
  cases hcovers with
  | whole run hform hts hends =>
    have hedits := edits_of_isWhole source hform
    obtain ⟨front, t, rfl, hstop, ht⟩ := hends
    refine ⟨word :: (front ++ [t]), by rw [hts, List.cons_append], fun e he => ?_, fun _ => ?_⟩
    · obtain rfl := List.mem_singleton.1 (hedits ▸ he)
      refine ⟨_, List.infix_rfl, ⟨?_, ?_⟩, .whole hform hrecords hword ⟨word :: front, t, rfl, hstop, ht⟩⟩
      · simp [hrecords.1]
      · rw [← List.cons_append, List.getLast?_append, List.getLast?_singleton, Option.some_or,
          Option.map_some, hstop]
    · rw [hedits]
      exact List.pairwise_singleton _ _
  | declaration bindings typeOnly hform hstop hrest =>
    obtain ⟨front, rfl⟩ := hrest
    have hkind := kind_of_records hrecords hword (by simp [isImport, hform])
    have hedits : s.edits source = [⟨word.start.offset, word.stop, []⟩] := by
      simp [edits, hform, hrecords.1, hstop]
    refine ⟨word :: front, rfl, fun e he => ?_, fun _ => ?_⟩
    · obtain rfl := List.mem_singleton.1 (hedits ▸ he)
      exact ⟨[word], ⟨[], front, rfl⟩, Edit.spans_singleton word [],
        .exportWord hform hrecords.1 hkind⟩
    · rw [hedits]
      exact List.pairwise_singleton _ _
  | blockScoped bindings typeOnly front t behind hform hstop hts hfront ht hrest =>
    obtain ⟨more, rfl⟩ := hrest
    have hkind := kind_of_records hrecords hword (by simp [isImport, hform])
    have hedits : s.edits source =
        [⟨word.start.offset, word.stop, []⟩, ⟨t.start.offset, t.stop, "var"⟩] := by
      simp [edits, hform, hrecords.1, hstop]
    refine ⟨word :: (front ++ t :: more), by simp [hts], fun e he => ?_, fun hi => ?_⟩
    · rw [hedits] at he
      rcases List.mem_cons.1 he with rfl | he
      · exact ⟨[word], ⟨[], _, rfl⟩, Edit.spans_singleton word [],
          .exportWord hform hrecords.1 hkind⟩
      · obtain rfl := List.mem_singleton.1 he
        exact ⟨[t], ⟨word :: front, more, by simp⟩, Edit.spans_singleton t "var",
          .blockScoped hform ht⟩
    · rw [hedits, List.pairwise_pair]
      exact (List.pairwise_cons.1 hi.1).1 t (by simp)
  | default name t hform hts ht hstop hname =>
    have hkind := kind_of_records hrecords hword (by simp [isImport, hform])
    obtain ⟨replacement, hedits⟩ :
        ∃ replacement, s.edits source = [⟨word.start.offset, t.stop, replacement⟩] := by
      cases name <;> exact ⟨_, by simp [edits, hform, hrecords.1, hstop]; rfl⟩
    refine ⟨[word, t], by rw [hts]; rfl, fun e he => ?_, fun _ => ?_⟩
    · obtain rfl := List.mem_singleton.1 (hedits ▸ he)
      exact ⟨[word, t], List.infix_rfl, ⟨rfl, rfl⟩, .exportDefault hform hrecords.1 hkind ht⟩
    · rw [hedits]
      exact List.pairwise_singleton _ _

end Statement

section Scan

variable {ts : List Token} {ss : List Statement}

/-- Each edit replaces tokens of its statement. -/
theorem replaces_of_scanned (source : Text) (h : Scanned ts ss) :
    ∀ s ∈ ss, ∀ e ∈ s.edits source, e.Replaces s ts := by
  induction h with
  | nil => intro s hs; cases hs
  | pass t _ ih => exact fun s hs e he => (ih s hs e he).mono (List.suffix_cons t _).isInfix
  | @read word ts rest s ss hrecords hword hcovers _ ih =>
    obtain ⟨taken, htaken, hreplaces, -⟩ := edits_of_covers source hrecords hword hcovers
    intro s' hs' e he
    rw [htaken]
    rcases List.mem_cons.1 hs' with rfl | hs'
    · exact (hreplaces e he).mono ⟨[], rest, rfl⟩
    · exact (ih s' hs' e he).mono (List.suffix_append taken rest).isInfix

/-- The edits of a scan follow each other. -/
theorem pairwise_edits (source : Text) (h : Scanned ts ss) (hi : Increasing ts) :
    (ss.flatMap (·.edits source)).Pairwise fun e f => e.stop ≤ f.start := by
  induction h with
  | nil => exact .nil
  | pass t _ ih => exact ih (hi.sublist (List.sublist_cons_self t _))
  | @read word ts rest s ss hrecords hword hcovers h ih =>
    obtain ⟨taken, htaken, hreplaces, hpair⟩ := edits_of_covers source hrecords hword hcovers
    rw [htaken] at hi
    rw [List.flatMap_cons]
    refine List.pairwise_append.2 ⟨hpair (hi.sublist (List.sublist_append_left taken rest)),
      ih (hi.sublist (List.sublist_append_right taken rest)), fun e he f hf => ?_⟩
    obtain ⟨s', hs', hf⟩ := List.mem_flatMap.1 hf
    obtain ⟨run, hrun, hspans, -⟩ := hreplaces e he
    obtain ⟨run', hrun', hspans', -⟩ := replaces_of_scanned source h s' hs' f hf
    exact hspans.stop_le hspans' hi hrun.subset hrun'.subset

end Scan

theorem length_hideHashbang (source : Text) : (hideHashbang source).length = source.length := by
  unfold hideHashbang
  split
  · next h =>
    have hle := (List.isPrefixOf_iff_prefix.1 h).length_le
    have hmark : (Text.ofString "#!").length = 2 := by decide
    have hhidden : (Text.ofString "//").length = 2 := by decide
    rw [List.length_append, List.length_drop, hhidden]
    omega
  · rfl

/-- The edits of a source. -/
def sourceEdits (source : Text) (statements : List Statement) : List Edit :=
  statements.flatMap (·.edits (hideHashbang source))

section Source

variable {source : Text} {tokens : TokenStream} {statements : List Statement}

theorem tokenize_of_scanSource (h : scanSource source = .ok (tokens, statements)) :
    tokenize source = .ok tokens ∧ scan tokens = .ok statements := by
  unfold scanSource at h
  split at h
  · cases h
  · next ts hts =>
    split at h
    · cases h
    · next ss hss =>
      cases h
      exact ⟨hts, hss⟩

/-- The edits of a source replace pieces of it that follow each other. -/
theorem pairwise_sourceEdits (h : scanSource source = .ok (tokens, statements)) :
    (sourceEdits source statements).Pairwise fun e f => e.stop ≤ f.start := by
  obtain ⟨htokens, hscan⟩ := tokenize_of_scanSource h
  exact pairwise_edits _ (scanned_of_scan hscan) (increasing_tokens htokens)

/-- No edit is empty, and each stays inside the source. -/
theorem bounds_of_mem_sourceEdits (h : scanSource source = .ok (tokens, statements)) {e : Edit}
    (he : e ∈ sourceEdits source statements) : e.start < e.stop ∧ e.stop ≤ source.length := by
  obtain ⟨htokens, hscan⟩ := tokenize_of_scanSource h
  obtain ⟨s, hs, he⟩ := List.mem_flatMap.1 he
  obtain ⟨run, hrun, hspans, -⟩ := replaces_of_scanned _ (scanned_of_scan hscan) s hs e he
  obtain ⟨t, ht, hstop⟩ := hspans.exists_tokens.2
  exact ⟨hspans.lt ((increasing_tokens htokens).sublist hrun.sublist),
    hstop ▸ stop_le_of_tokenize htokens (hrun.subset ht)⟩

theorem splices_sourceEdits (h : scanSource source = .ok (tokens, statements)) :
    Splices 0 (hideHashbang source) (sourceEdits source statements)
      (applyEdits 0 (hideHashbang source) (sourceEdits source statements)) := by
  refine splices_applyEdits (pairwise_sourceEdits h) fun e he => ?_
  have := bounds_of_mem_sourceEdits h he
  rw [length_hideHashbang]
  omega

end Source

end Lowering

end ScriptBundle
