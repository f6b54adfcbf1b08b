import ScriptBundle.Proofs.Token.Lossless

/-!
# Comments in lines

What a comment behind `//`, or a hashbang line, says does not matter to the lexer: with another comment
in its place, a source has the same tokens, or the same fault, and what is behind the line is only
further up or down. A comment must not hold a code point zero, which ends it like a line feed.

* `Position.moved`, `Exchanged`: how the pieces of a source correspond when one line is exchanged;
* `Between`, `OpensLine`: where a comment or a hashbang line starts;
* `outcome_of_reads`: exchanging what the lexer passes over;
* `outcome_of_comment`: exchanging a comment, or a hashbang line.
-/

namespace ScriptBundle

/-- A position whose line has not changed, with `n` code points in front of it exchanged for `n'`. -/
def Position.moved (p : Position) (n n' : Nat) : Position := { p with offset := p.offset - n + n' }

/-- Behind a text that ends a line there is only the line and the offset. -/
theorem Position.after_line (p : Position) {w : Text} (hw : ∀ c ∈ w, c ≠ '\n') :
    p.after (w ++ Text.lineFeed) = ⟨p.offset + w.length + 1, p.line + 1, 1⟩ := by
  have hline : (p.after w).line = p.line := by
    rw [line_after, Text.lineFeeds, List.count_eq_zero.2 fun h => hw _ h rfl, Nat.add_zero]
  rw [after_append]
  show (p.after w).next (CodePoint.ofChar '\n') = _
  rw [next, if_pos rfl, offset_after, hline]

namespace Lexer

/-- How the pieces of two sources correspond that start with `front` and go on in the same way behind
`line` and `line'`: those in front are the same, those behind are moved, and those around hold the
one line or the other. No piece starts inside. -/
inductive Exchanged (front line line' : Text) : Pieces
  | before {q : Position} {t : Text} (h : q.offset + t.length ≤ front.length) :
      Exchanged front line line' q t q t
  | around {q : Position} {t : Text} (h : q.offset < front.length) :
      Exchanged front line line' q (front.drop q.offset ++ line ++ t) q
        (front.drop q.offset ++ line' ++ t)
  | behind {q : Position} {t : Text} (h : front.length + line.length ≤ q.offset) :
      Exchanged front line line' q t (q.moved line.length line'.length) t

/-- The lexer, having read `front`, stands between two lexemes in front of `rest`. -/
def Between (front rest : Text) : Prop :=
  ∃ ts y, Reads (.first (front ++ rest)) ts y ∧ y.rest = rest

/-- A line opens behind `front` whose code points in front of `rest` are passed over: a comment between
two lexemes, or the hashbang line of the source. -/
inductive OpensLine : Text → Text → Text → Prop
  | comment {front rest : Text} (h : Between front ("//" ++ rest)) : OpensLine front "//" rest
  | hashbang {rest : Text} : OpensLine [] "#!" rest

variable {front line line' rest : Text} {x y z z' : Place} {ts : List Token}

/-! ### Where the pieces are -/

/-- From behind the line on, pieces that correspond still do so with any text behind both. -/
theorem steady_exchanged {p p' : Position} (hline : line ≠ [])
    (hp : p.offset = front.length + line.length) (hp' : p'.offset = front.length + line'.length)
    (habreast : p.Abreast p') : Steady (Exchanged front line line') p p' := by
  have hpos := List.length_pos_iff.2 hline
  refine ⟨fun v => ?_, fun {v w q t q' t'} hK hq _ => ?_⟩
  · have hmoved : p'.after v = (p.after v).moved line.length line'.length := by
      refine Position.ext ?_ (habreast.after v).line (habreast.after v).column
      show (p'.after v).offset = (p.after v).offset - line.length + line'.length
      rw [Position.offset_after, Position.offset_after]
      omega
    rw [hmoved]
    exact .behind (by rw [Position.offset_after]; omega)
  · cases hK with
    | before h =>
      -- The piece would end behind the line.
      have := congrArg Position.offset hq
      rw [Position.offset_after, Position.offset_after] at this
      omega
    | @around _ u h =>
      rw [List.append_assoc _ u w, List.append_assoc _ u w]
      exact .around h
    | behind h => exact .behind h

/-- Every open template literal has started in front of the place, and holds the source from there on. -/
theorem source_of_reads {source : Text} (h : Reads x ts y)
    (hx : ∀ f ∈ x.state.frames, f.source = source.drop f.start.offset ∧
      f.start.offset < x.position.offset)
    (hrest : x.rest = source.drop x.position.offset) :
    ∀ f ∈ y.state.frames, f.source = source.drop f.start.offset ∧
      f.start.offset < y.position.offset := by
  induction h with
  | refl => exact hx
  | @step st p c s r ts y hs _ ih =>
    refine ih (fun f hf => ?_) ?_
    · show _ ∧ _ < (p.after (c :: s.take r.length)).offset
      rw [Position.offset_after, List.length_cons]
      rcases frames_of_step hs hf with ⟨g, hg, hstart, hsource⟩ | ⟨hstart, hsource⟩
      · obtain ⟨hdrop, hlt⟩ := hx g hg
        rw [← hstart, ← hsource]
        exact ⟨hdrop, Nat.lt_of_lt_of_le hlt (Nat.le_add_right _ _)⟩
      · rw [hstart, hsource]
        exact ⟨hrest, by omega⟩
    · show s.drop r.length = source.drop (p.after (c :: s.take r.length)).offset
      have hrest : c :: s = source.drop p.offset := hrest
      rw [Position.offset_after, ← List.drop_drop, ← hrest, List.length_cons,
        List.length_take_of_le (length_le_of_step hs), List.drop_succ_cons]

theorem Reads.stop_le (h : Reads x ts y) (hf : x.state.frames = []) :
    ∀ t ∈ ts, t.stop ≤ y.position.offset := by
  intro t ht
  obtain ⟨before, after, rfl⟩ := List.append_of_mem ht
  obtain ⟨u, v, -, hat, hy⟩ := h.split hf
  exact hat.stop_eq ▸ hy.offset_le

/-! ### The source in front of the line -/

/-- The hashbang line is known in front of a mark that belongs to no hashbang. -/
theorem hashbang_append_cons {d : CodePoint} (hd : d ≠ '#' ∧ d ≠ '!') {r : Text}
    (h : (hashbang (front ++ d :: r)).length ≤ front.length) (r' : Text) :
    hashbang (front ++ d :: r') = hashbang (front ++ d :: r) := by
  have hstarts : (Text.ofString "#!").isPrefixOf (front ++ d :: r') =
      (Text.ofString "#!").isPrefixOf (front ++ d :: r) := by
    have htail : d ∉ (Text.ofString "#!").tail := by
      rw [show (Text.ofString "#!").tail = [CodePoint.ofChar '!'] by decide]
      simpa using hd.2
    cases front with
    | nil =>
      have hmark : Text.ofString "#!" = [CodePoint.ofChar '#', CodePoint.ofChar '!'] := by decide
      have hne : (CodePoint.ofChar '#' == d) = false := by simpa using hd.1.symm
      simp [hmark, List.isPrefixOf, hne]
    | cons c u =>
      exact (Lexeme.isPrefixOf_append_cons c u htail r').trans
        (Lexeme.isPrefixOf_append_cons c u htail r).symm
  unfold hashbang at h ⊢
  rw [hstarts]
  split
  · next hp =>
    rw [if_pos hp] at h
    exact Lexeme.takeWhile_append_cons h r'
  · rfl

/-- The same text at the same place. -/
def samePiece : Pieces := fun q t q' t' => q' = q ∧ t' = t

theorem steady_samePiece (p : Position) : Steady samePiece p p :=
  ⟨fun _ => ⟨rfl, rfl⟩, fun h _ _ => ⟨h.1, congrArg (· ++ _) h.2⟩⟩

theorem eq_of_samePiece {ts ts' : List Token} (h : List.Forall₂ (TokenPair samePiece) ts ts') :
    ts' = ts := by
  induction h with
  | nil => rfl
  | cons h _ ih => exact congrArg₂ _ (Token.ext h.kind h.piece.2 h.piece.1) ih

/-- Where the lexer is when it has read the text in front of `r`. -/
theorem offset_of_reads {r : Text} (h : Reads (.first (front ++ r)) ts y) (hy : y.rest = r) :
    y.position.offset = front.length := by
  obtain ⟨text, htext, hp⟩ := h.exists_text
  have hle := length_hashbang_le (front ++ r)
  have hlength := congrArg List.length htext
  simp only [Place.first, List.length_drop, List.length_append, hy] at hlength hle
  rw [hp, Position.offset_after]
  simp only [Place.first, Position.offset_after, Position.start]
  omega

/-- In front of a slash the lexer does the same, whatever is behind the slash. -/
theorem Reads.exchange {r : Text} (h : Reads (.first (front ++ CodePoint.ofChar '/' :: r)) ts y)
    (hy : y.rest = CodePoint.ofChar '/' :: r) (r' : Text) :
    ∃ y', Reads (.first (front ++ CodePoint.ofChar '/' :: r')) ts y' ∧
      y'.rest = CodePoint.ofChar '/' :: r' ∧ y'.position = y.position ∧ Lockstep samePiece y y' := by
  obtain ⟨text, htext, hp⟩ := h.exists_text
  -- The hashbang line is in front of the slash.
  have hfront : front = hashbang (front ++ CodePoint.ofChar '/' :: r) ++ text := by
    have := hashbang_append_drop (front ++ CodePoint.ofChar '/' :: r)
    rw [show List.drop _ _ = text ++ y.rest from htext, hy, ← List.append_assoc] at this
    exact (List.append_cancel_right this).symm
  have hbang : hashbang (front ++ CodePoint.ofChar '/' :: r') =
      hashbang (front ++ CodePoint.ofChar '/' :: r) :=
    hashbang_append_cons (by decide) (by
      have := congrArg List.length hfront
      rw [List.length_append] at this
      omega) r'
  have htext' : (Place.first (front ++ CodePoint.ofChar '/' :: r')).rest =
      text ++ CodePoint.ofChar '/' :: r' := by
    have := hashbang_append_drop (front ++ CodePoint.ofChar '/' :: r')
    rw [hbang] at this
    have hwhole : hashbang (front ++ CodePoint.ofChar '/' :: r) ++
        (Place.first (front ++ CodePoint.ofChar '/' :: r')).rest =
        hashbang (front ++ CodePoint.ofChar '/' :: r) ++ (text ++ CodePoint.ofChar '/' :: r') := by
      rw [← List.append_assoc, ← hfront]
      refine Eq.trans ?_ this
      exact congrArg (fun w : Text => _ ++ List.drop w.length _) hbang
    exact List.append_cancel_left hwhole
  have hfirst : (Place.first (front ++ CodePoint.ofChar '/' :: r')).position =
      (Place.first (front ++ CodePoint.ofChar '/' :: r)).position :=
    congrArg Position.start.after hbang
  have hstable : Lexeme.Stable y.rest (CodePoint.ofChar '/' :: r') := by
    rw [hy]
    exact Lexeme.Alike.stable (.inr ⟨[], CodePoint.ofChar '/', r, r', by decide, rfl, rfl⟩)
  have hlockstep : Lockstep samePiece (.first (front ++ CodePoint.ofChar '/' :: r))
      (.first (front ++ CodePoint.ofChar '/' :: r')) := ⟨rfl, .nil⟩
  obtain ⟨ts', y', hreads, htokens, hl, hrest⟩ :=
    h.lockstep hlockstep (by rw [hfirst]; exact steady_samePiece _) htext htext' hstable
  obtain rfl := eq_of_samePiece htokens
  refine ⟨y', hreads, hrest, ?_, hl⟩
  obtain ⟨text', htext'', hp'⟩ := hreads.exists_text
  have hwhole : text' ++ y'.rest = text ++ y'.rest := by rw [← htext'', htext', hrest]
  obtain rfl : text' = text := List.append_cancel_right hwhole
  rw [hp', hfirst, hp]

/-! ### Behind the line -/

/-- When the lexer passes over the one line and the other, it goes on in the same way. -/
theorem outcome_of_reads {X X' w w' : Text} {p : Position} (h : Reads (.first X) ts z)
    (h' : Reads (.first X') ts z') (hts : ∀ t ∈ ts, t.stop ≤ front.length)
    (hw : ∀ d ∈ w, d ≠ '\n') (hw' : ∀ d ∈ w', d ≠ '\n') (hoffset : p.offset = front.length)
    (hp : z.position = p.after (w ++ Text.lineFeed))
    (hp' : z'.position = p.after (w' ++ Text.lineFeed)) (hrest : z'.rest = z.rest)
    (hl : Lockstep (Exchanged front (w ++ Text.lineFeed) (w' ++ Text.lineFeed)) z z') :
    Outcome (Exchanged front (w ++ Text.lineFeed) (w' ++ Text.lineFeed)) (tokenize X) (tokenize X') := by
  have hsteady : Steady (Exchanged front (w ++ Text.lineFeed) (w' ++ Text.lineFeed)) z.position
      z'.position := by
    refine steady_exchanged (by simp [Text.lineFeed, Text.ofString]) ?_ ?_ ⟨?_, ?_⟩
    · rw [hp, Position.offset_after, hoffset]
    · rw [hp', Position.offset_after, hoffset]
    · rw [hp, hp', Position.after_line p hw, Position.after_line p hw']
    · rw [hp, hp', Position.after_line p hw, Position.after_line p hw']
  obtain ⟨st, q, s⟩ := z
  obtain ⟨st', q', s'⟩ := z'
  obtain rfl : s' = s := hrest
  have hrun : tokenize X = _ := run_of_reads h
  have hrun' : tokenize X' = _ := run_of_reads h'
  rw [hrun, hrun']
  exact (run_lockstep hl hsteady).cons (List.forall₂_same.2 fun t ht => ⟨rfl, .before (hts t ht)⟩)

/-- Behind the line the open template literals hold the one line or the other. -/
theorem Lockstep.exchanged {r : Text} {y' : Place} (h : Reads (.first (front ++ r)) ts y)
    (hr : y.rest = r) (hl : Lockstep samePiece y y') (hy : Behind y line z) (hy' : Behind y' line' z')
    (hz : z.state = y.state) (hz' : z'.state = y'.state) :
    Lockstep (Exchanged front line line') z z' := by
  have hoffset := offset_of_reads h hr
  have hrest : (Place.first (front ++ r)).rest =
      (front ++ r).drop (Place.first (front ++ r)).position.offset := by
    show List.drop _ _ = List.drop (Position.start.after _).offset _
    rw [Position.offset_after, show Position.start.offset = 0 from rfl, Nat.zero_add]
  have hsource := source_of_reads h (fun f hf => by cases hf) hrest
  refine ⟨by rw [hz, hz', hl.operand], ?_⟩
  rw [hz, hz']
  refine ((List.forall₂_and_left _ _).2 ⟨hsource, hl.frames⟩).imp fun f f' hf => ?_
  obtain ⟨⟨hdrop, hlt⟩, hpair⟩ := hf
  rw [hoffset] at hlt
  obtain ⟨_, text, ⟨hstart, rfl⟩, htext, hp, htext', hp'⟩ := hpair.piece
  obtain rfl : text = front.drop f.start.offset := by
    rw [hr, hdrop, List.drop_append_of_le_length hlt.le] at htext
    exact (List.append_cancel_right htext).symm
  refine ⟨hpair.depth, front.drop f.start.offset ++ line, front.drop f.start.offset ++ line', ?_,
    ?_, ?_, ?_, ?_⟩
  · rw [hstart, ← List.append_nil (_ ++ line), ← List.append_nil (_ ++ line')]
    exact .around hlt
  · rw [htext, hy.rest, List.append_assoc]
  · rw [hy.position, hp, Position.after_append]
  · rw [htext', hy'.rest, List.append_assoc]
  · rw [hy'.position, hp', Position.after_append]

/-! ### Exchanging a line -/

variable {mark c c' : Text}

/-- A comment behind `//`, with its line feed, is passed over. -/
theorem gaps_comment (hc : ∀ d ∈ c, d ≠ '\n' ∧ d ≠ '\x00') (rest : Text) :
    Gaps ("//" ++ c ++ Text.lineFeed) rest := by
  refine gaps_of_trivia (.lineComment hc ?_ (.space (by decide) (.nil rest)))
  intro d hd
  exact .inl (Option.some.inj hd).symm

/-- A hashbang line ends in front of its line feed. -/
theorem hashbang_of_line (hc : ∀ d ∈ c, d ≠ '\n' ∧ d ≠ '\x00') (rest : Text) :
    hashbang ("#!" ++ c ++ Text.lineFeed ++ rest) = "#!" ++ c := by
  have hmark : ∀ d ∈ Text.ofString "#!", d ≠ '\n' ∧ d ≠ '\x00' := by decide
  have hall : ∀ d ∈ Text.ofString "#!" ++ c, d ≠ '\n' ∧ d ≠ '\x00' := fun d hd =>
    (List.mem_append.1 hd).elim (hmark d) (hc d)
  unfold hashbang
  rw [if_pos (List.isPrefixOf_iff_prefix.2 ⟨c ++ Text.lineFeed ++ rest, by simp⟩), List.append_assoc]
  exact takeWhile_inLineComment hall fun d hd => .inl (Option.some.inj hd).symm

/-- The same source with another comment or hashbang line in place of one: it has the same tokens, those
behind the line moved, or the same fault. -/
theorem outcome_of_opensLine (hc : ∀ d ∈ c, d ≠ '\n' ∧ d ≠ '\x00')
    (hc' : ∀ d ∈ c', d ≠ '\n' ∧ d ≠ '\x00')
    (h : OpensLine front mark (c ++ Text.lineFeed ++ rest)) :
    Outcome (Exchanged front (mark ++ c ++ Text.lineFeed) (mark ++ c' ++ Text.lineFeed))
      (tokenize (front ++ (mark ++ c ++ Text.lineFeed ++ rest)))
      (tokenize (front ++ (mark ++ c' ++ Text.lineFeed ++ rest))) := by
  have hline : ∀ {mark d : Text}, (∀ e ∈ mark, e ≠ '\n') → (∀ e ∈ d, e ≠ '\n' ∧ e ≠ '\x00') →
      ∀ e ∈ mark ++ d, e ≠ '\n' := fun hmark hd e he =>
    (List.mem_append.1 he).elim (hmark e) fun he => (hd e he).1
  cases h with
  | comment h =>
    have hmark : ∀ e ∈ Text.ofString "//", e ≠ '\n' := by decide
    obtain ⟨ts, y, hy, hr⟩ := h
    obtain ⟨y', hy', hr', hp, hl⟩ := hy.exchange hr ('/' :: (c' ++ Text.lineFeed ++ rest))
    have hrest : y.rest = "//" ++ c ++ Text.lineFeed ++ rest := by
      rw [hr]
      simp only [List.append_assoc]
    have hrest' : y'.rest = "//" ++ c' ++ Text.lineFeed ++ rest := by
      rw [hr']
      simp only [List.append_assoc]
      rfl
    have hz := (gaps_comment hc rest).reads_of_state y.state y.position
    have hz' := (gaps_comment hc' rest).reads_of_state y'.state y'.position
    rw [← hrest] at hz
    rw [← hrest'] at hz'
    have hX : "//" ++ (c ++ Text.lineFeed ++ rest) = "//" ++ c ++ Text.lineFeed ++ rest := by
      simp only [List.append_assoc]
    have hX' : CodePoint.ofChar '/' :: '/' :: (c' ++ Text.lineFeed ++ rest) =
        "//" ++ c' ++ Text.lineFeed ++ rest := hr'.symm.trans hrest'
    have hoffset := offset_of_reads hy hr
    have hstop := hy.stop_le rfl
    rw [hoffset] at hstop
    have hexchanged : Lockstep
        (Exchanged front ("//" ++ c ++ Text.lineFeed) ("//" ++ c' ++ Text.lineFeed))
        ⟨y.state, y.position.after ("//" ++ c ++ Text.lineFeed), rest⟩
        ⟨y'.state, y'.position.after ("//" ++ c' ++ Text.lineFeed), rest⟩ :=
      hl.exchanged hy hr ⟨hrest, rfl⟩ ⟨hrest', rfl⟩ rfl rfl
    have hreads := hy.trans hz
    have hreads' := hy'.trans hz'
    rw [hX] at hreads
    rw [hX'] at hreads'
    refine outcome_of_reads hreads hreads' ?_ (hline hmark hc) (hline hmark hc') hoffset rfl ?_ rfl
      hexchanged
    · rwa [List.append_nil]
    · rw [← hp]
  | hashbang =>
    have hmark : ∀ e ∈ Text.ofString "#!", e ≠ '\n' := by decide
    have hreads : ∀ {c : Text}, (∀ d ∈ c, d ≠ '\n' ∧ d ≠ '\x00') →
        Reads (.first ("#!" ++ c ++ Text.lineFeed ++ rest)) []
          ⟨.initial, Position.start.after ("#!" ++ c ++ Text.lineFeed), rest⟩ := by
      intro c hc
      have hgap := (gaps_replicate 1 rest).reads_of_state .initial (Position.start.after ("#!" ++ c))
      rw [← Position.after_append] at hgap
      rw [Place.first, hashbang_of_line hc, List.append_assoc, List.drop_left]
      exact hgap
    have hnone : ∀ t : Token, t ∈ [] → t.stop ≤ ([] : Text).length :=
      fun t ht => absurd ht List.not_mem_nil
    have hstart : Position.start.offset = ([] : Text).length := rfl
    exact outcome_of_reads (hreads hc) (hreads hc') hnone (hline hmark hc) (hline hmark hc') hstart
      rfl rfl rfl ⟨rfl, .nil⟩

/-- A word of a source with such a line stands in front of the line or behind it. -/
theorem Exchanged.word {t : Token} {q' : Position} {t' : Text} {source : Text} {ts : TokenStream}
    (h : Exchanged front line line' t.start t.text q' t') (hline : CodePoint.ofChar '\n' ∈ line)
    (hts : tokenize source = .ok ts) (ht : t ∈ ts.tokens) (hk : t.kind.isWordKind) :
    t.stop ≤ front.length ∨ front.length + line.length ≤ t.start.offset := by
  obtain ⟨d, w, htext, hd, hw, -⟩ := word_of_tokenize hts ht hk
  generalize ht : t.text = text at h htext
  cases h with
  | before h =>
    rw [← ht] at h
    exact .inl h
  | around =>
    -- There is no line feed in a word.
    have hmem : CodePoint.ofChar '\n' ∈ d :: w := by
      rw [← htext]
      simp [hline]
    rcases List.mem_cons.1 hmem with rfl | hmem
    · cases hd
    · cases hw _ hmem
  | behind h => exact .inr h

/-- What a comment or a hashbang line says does not matter: with another one in its place the source has
the same tokens, those behind the line moved, or the same fault. No word in the line is a token. -/
theorem outcome_of_comment (hc : ∀ d ∈ c, d ≠ '\n' ∧ d ≠ '\x00')
    (hc' : ∀ d ∈ c', d ≠ '\n' ∧ d ≠ '\x00')
    (h : OpensLine front mark (c ++ Text.lineFeed ++ rest)) :
    Outcome (Exchanged front (mark ++ c ++ Text.lineFeed) (mark ++ c' ++ Text.lineFeed))
        (tokenize (front ++ (mark ++ c ++ Text.lineFeed ++ rest)))
        (tokenize (front ++ (mark ++ c' ++ Text.lineFeed ++ rest))) ∧
      ∀ ts, tokenize (front ++ (mark ++ c ++ Text.lineFeed ++ rest)) = .ok ts →
        ∀ t ∈ ts.tokens, t.kind.isWordKind →
          t.stop ≤ front.length ∨
            front.length + (mark ++ c ++ Text.lineFeed).length ≤ t.start.offset := by
  have houtcome := outcome_of_opensLine hc hc' h
  refine ⟨houtcome, fun ts hts t ht hk => ?_⟩
  rw [hts] at houtcome
  generalize tokenize (front ++ (mark ++ c' ++ Text.lineFeed ++ rest)) = result at houtcome
  cases houtcome with
  | ok hpairs =>
    have hpieces := ((List.forall₂_and_left _ _).1 (hpairs.tokens.imp fun u u' hu =>
      ⟨(⟨u'.start, u'.text, hu.piece⟩ : ∃ q text, Exchanged front _ _ u.start u.text q text), hu⟩)).1
    obtain ⟨_, _, hpiece⟩ := hpieces t ht
    exact hpiece.word (List.mem_append_right _ (by decide)) hts ht hk

/-- The lexer is between two lexemes where the substitution of a template literal starts. -/
theorem between_substitution (r : Text) :
    Between (['`', '$', '{'] : List CodePoint) (CodePoint.ofChar '/' :: r) :=
  ⟨[], _, .step (step_of_openTemplate (.opening (n := 2) rfl rfl)) (.refl _), rfl⟩

/-- A comment in the substitution of a template literal. -/
theorem outcome_of_comment_inSubstitution :
    ((∀ d ∈ Text.ofString " one", d ≠ '\n' ∧ d ≠ '\x00') ∧
        (∀ d ∈ Text.ofString " import \"two\" \x7d", d ≠ '\n' ∧ d ≠ '\x00') ∧
        OpensLine "`$\x7b" "//" (" one" ++ Text.lineFeed ++ "b\x7d`; import \"c\"")) ∧
      Outcome (Exchanged "`$\x7b" ("//" ++ " one" ++ Text.lineFeed)
          ("//" ++ " import \"two\" \x7d" ++ Text.lineFeed))
        (tokenize ("`$\x7b" ++ ("//" ++ " one" ++ Text.lineFeed ++ "b\x7d`; import \"c\"")))
        (tokenize ("`$\x7b" ++
          ("//" ++ " import \"two\" \x7d" ++ Text.lineFeed ++ "b\x7d`; import \"c\""))) := by
  have hc : ∀ d ∈ Text.ofString " one", d ≠ '\n' ∧ d ≠ '\x00' := by decide
  have hc' : ∀ d ∈ Text.ofString " import \"two\" \x7d", d ≠ '\n' ∧ d ≠ '\x00' := by decide
  have hopens : OpensLine "`$\x7b" "//" (" one" ++ Text.lineFeed ++ "b\x7d`; import \"c\"") := by
    refine .comment ?_
    have hfront : Text.ofString "`$\x7b" = (['`', '$', '{'] : List CodePoint) := by decide
    rw [hfront]
    exact between_substitution _
  exact ⟨⟨hc, hc', hopens⟩, (outcome_of_comment hc hc' hopens).1⟩

/-- A code point zero ends a comment, and an import behind it in the line is read. -/
theorem import_behind_zero :
    OpensLine [] "//" (Text.ofString "\x00import \"x\"" ++ Text.lineFeed ++ []) ∧
      ¬ Outcome (Exchanged [] ("//" ++ "\x00import \"x\"" ++ Text.lineFeed) ("//" ++ "" ++ Text.lineFeed))
        (tokenize ("//" ++ "\x00import \"x\"" ++ Text.lineFeed))
        (tokenize ("//" ++ "" ++ Text.lineFeed)) := by
  refine ⟨.comment ⟨[], _, .refl _, by decide +kernel⟩, fun h => ?_⟩
  have hcount : (tokenize ("//" ++ "\x00import \"x\"" ++ Text.lineFeed)).toOption.map
      (·.tokens.length) = some 3 := by decide +kernel
  have hcount' : (tokenize ("//" ++ "" ++ Text.lineFeed)).toOption.map
      (·.tokens.length) = some 0 := by decide +kernel
  generalize tokenize ("//" ++ "\x00import \"x\"" ++ Text.lineFeed) = a at h hcount
  generalize tokenize ("//" ++ "" ++ Text.lineFeed) = b at h hcount'
  cases h with
  | ok hpairs =>
    have hlength := hpairs.tokens.length_eq
    have hthree := Option.some.inj hcount
    have hnone := Option.some.inj hcount'
    simp only at hthree hnone
    omega
  | error => cases hcount

end Lexer

end ScriptBundle
