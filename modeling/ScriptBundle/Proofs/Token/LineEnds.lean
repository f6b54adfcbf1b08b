import ScriptBundle.Proofs.Token.CarriageReturn
import ScriptBundle.Proofs.Token.Lossless

/-!
# Sources with other line ends

With a carriage return in front of each line feed a source has the same tokens on the same lines and
columns, or the same fault, unless a string or a regular expression literal goes on over a line end, behind
a backslash: such a literal is unterminated with the other line ends.

* `otherEnds`: how the pieces of the two sources correspond;
* `Follows`: how the lexer stands in the two sources, level or one carriage return apart;
* `Breaks`, `LiteralsOnOneLine`: literals over line ends;
* `run_crlf`, `tokenize_crlf`: the whole source.
-/

namespace ScriptBundle

/-- Positions stay abreast behind the two line ends. -/
theorem Position.Abreast.crlf {p p' : Position} (h : p.Abreast p') (s : Text) :
    (p.after s).Abreast (p'.after s.crlf) := by
  induction s generalizing p p' with
  | nil => exact h
  | cons c s ih =>
    by_cases hc : c = '\n'
    · subst hc
      refine ih (.lineFeed ?_)
      rw [Position.next, if_neg (by decide)]
      exact h.line
    · rw [Text.crlf_cons hc]
      exact ih (h.next c)

namespace Lexer

open Lexeme (Head Unclosed inLineComment onLine crlfLength)

/-- The same piece on the same line and column, with carriage returns in front of its line feeds; in the
second source `pending` has been read in advance. -/
def otherEnds (pending : Text) : Pieces := fun q t q' t' => q.Abreast q' ∧ t' = t.crlf ++ pending

/-- How the lexer stands in a source and in the source with the other line ends: before the same text, or
before a line feed whose carriage return belonged to a comment. -/
inductive Follows : Place → Place → Prop
  | level {x x' : Place} (hl : Lockstep (otherEnds []) x x') (hp : x.position.Abreast x'.position)
      (hrest : x'.rest = x.rest.crlf) : Follows x x'
  | behindReturn {x x' : Place} {r : Text} (hl : Lockstep (otherEnds ['\r']) x x')
      (hline : x'.position.line = x.position.line) (hrest : x.rest = CodePoint.ofChar '\n' :: r)
      (hrest' : x'.rest = CodePoint.ofChar '\n' :: r.crlf) : Follows x x'

/-- A string or a regular expression literal at the head of `c :: s` goes on over a line end. -/
def BrokenLiteral (operand : Bool) (c : CodePoint) (s : Text) : Prop :=
  ∃ kind n, Head operand c s (.token kind) n ∧ (kind = .string ∨ kind = .regex) ∧ onLine s n = false

/-- From the place on the lexer reads a string or a regular expression literal that goes on over a line
end. -/
def Breaks (x : Place) : Prop :=
  ∃ ts y c s, Reads x ts y ∧ y.rest = c :: s ∧ BrokenLiteral y.state.operand c s

variable {x x' y y' : Place} {st st' : State} {p p' : Position} {c : CodePoint} {s : Text} {r : Step}
  {pending : Text}

/-! ### Line feeds and comments -/

theorem otherEnds_grow {pending' w w' : Text} (h : pending ++ w' = w.crlf ++ pending') :
    Grows (otherEnds pending) (otherEnds pending') x x' w w' := by
  rintro q t q' t' ⟨hq, rfl⟩ - -
  exact ⟨hq, by rw [Text.crlf_append, List.append_assoc, h, List.append_assoc]⟩

/-- A line end is passed over. -/
theorem Follows.lineFeed (h : Follows ⟨st, p, CodePoint.ofChar '\n' :: s⟩ x') :
    ∃ y', Reads x' [] y' ∧ Follows ⟨st, p.after Text.lineFeed, s⟩ y' := by
  obtain ⟨st', p', s'⟩ := x'
  have hfeed : ∀ t : Text, Gaps Text.lineFeed t := gaps_replicate 1
  have hreturn : ∀ t : Text, Gaps (Text.crlf Text.lineFeed) t := fun t =>
    .cons (w := []) (fun _ => .space (by decide)) (hfeed t)
  cases h with
  | level hl hp hrest =>
    obtain rfl : s' = Text.crlf Text.lineFeed ++ s.crlf := hrest
    refine ⟨_, (hreturn s.crlf).reads_of_state st' p', .level ?_ (hp.crlf Text.lineFeed) rfl⟩
    exact hl.gap ⟨rfl, rfl⟩ ⟨rfl, rfl⟩ rfl rfl (otherEnds_grow rfl)
  | behindReturn hl hline hrest hrest' =>
    obtain rfl := List.tail_eq_of_cons_eq hrest
    obtain rfl : s' = Text.lineFeed ++ s.crlf := hrest'
    refine ⟨_, (hfeed s.crlf).reads_of_state st' p', .level ?_ (.lineFeed hline) rfl⟩
    exact hl.gap ⟨rfl, rfl⟩ ⟨rfl, rfl⟩ rfl rfl (otherEnds_grow rfl)

/-- How a comment goes on in both sources: up to a line feed, whose carriage return belongs to it, or up to
anything else that ends it. -/
theorem takeWhile_inLineComment_crlf (s : Text) :
    ∃ u v : Text, s = u ++ v ∧ s.takeWhile inLineComment = u ∧ CodePoint.ofChar '\n' ∉ u ∧
      ((s.crlf.takeWhile inLineComment = u ∧ s.crlf = u ++ v.crlf) ∨
        ∃ r : Text, v = CodePoint.ofChar '\n' :: r ∧
          s.crlf.takeWhile inLineComment = u ++ [CodePoint.ofChar '\r'] ∧
          s.crlf = (u ++ [CodePoint.ofChar '\r']) ++ CodePoint.ofChar '\n' :: r.crlf) := by
  obtain ⟨v, hv⟩ := List.takeWhile_prefix (l := s) inLineComment
  have hmem := Text.not_mem_takeWhile (p := inLineComment) (by decide) s
  have hbody : ∀ c ∈ s.takeWhile inLineComment, c ≠ '\n' ∧ c ≠ '\x00' := fun c hc =>
    inLineComment_iff.1 (List.all_eq_true.1 List.all_takeWhile c hc)
  have hend := head?_of_takeWhile hv
  generalize s.takeWhile inLineComment = u at hv hmem hbody ⊢
  subst hv
  have hcrlf : Text.crlf (u ++ v) = u ++ Text.crlf v := by
    rw [Text.crlf_append, Text.crlf_of_not_mem hmem]
  refine ⟨u, v, rfl, rfl, hmem, ?_⟩
  cases v with
  | nil =>
    refine .inl ⟨?_, hcrlf⟩
    rw [hcrlf, Text.crlf_nil]
    exact takeWhile_inLineComment hbody fun d hd => by cases hd
  | cons d r =>
    rcases hend d rfl with rfl | rfl
    · have hwhole : Text.crlf (u ++ CodePoint.ofChar '\n' :: r) =
          (u ++ [CodePoint.ofChar '\r']) ++ CodePoint.ofChar '\n' :: Text.crlf r := by
        rw [hcrlf, Text.crlf_lineFeed, List.append_assoc]
        rfl
      refine .inr ⟨r, rfl, ?_, hwhole⟩
      rw [hwhole]
      refine takeWhile_inLineComment (fun c hc => ?_) (by rintro _ ⟨⟩; exact .inl rfl)
      rcases List.mem_append.1 hc with hc | hc
      · exact hbody c hc
      · rw [List.mem_singleton.1 hc]
        decide
    · refine .inl ⟨?_, hcrlf⟩
      rw [hcrlf]
      exact takeWhile_inLineComment hbody (by rintro _ ⟨⟩; exact .inr rfl)

theorem place_of_comment (st : State) (p : Position) (u v : Text) :
    Step.place ⟨1 + u.length, st, none⟩ p '/' (CodePoint.ofChar '/' :: (u ++ v)) =
      ⟨st, p.after (CodePoint.ofChar '/' :: CodePoint.ofChar '/' :: u), v⟩ := by
  simp only [Step.place, Nat.add_comm 1, List.take_succ_cons, List.take_left, List.drop_succ_cons,
    List.drop_left]

theorem reads_comment {u v : Text} (h : (u ++ v).takeWhile inLineComment = u) (st : State) (p : Position) :
    Reads ⟨st, p, CodePoint.ofChar '/' :: CodePoint.ofChar '/' :: (u ++ v)⟩ []
      ⟨st, p.after (CodePoint.ofChar '/' :: CodePoint.ofChar '/' :: u), v⟩ := by
  have hhead : Head st.operand '/' (CodePoint.ofChar '/' :: (u ++ v)) .gap (1 + u.length) := by
    have hbody : 1 + u.length = 1 + ((u ++ v).takeWhile inLineComment).length := by rw [h]
    rw [hbody]
    exact .line rfl rfl
  have hstep := step_of_gap (p := p) hhead
  rw [← place_of_comment]
  exact .step hstep (.refl _)

/-- Behind a comment the line feed of the second source may stand without its carriage return. -/
theorem Follows.comment (h : Follows ⟨st, p, CodePoint.ofChar '/' :: CodePoint.ofChar '/' :: s⟩ x') :
    ∃ y', Reads x' [] y' ∧ Follows (Step.place ⟨1 + (s.takeWhile inLineComment).length, st, none⟩ p
      '/' (CodePoint.ofChar '/' :: s)) y' := by
  obtain ⟨st', p', s'⟩ := x'
  cases h with
  | behindReturn _ _ hrest => cases hrest
  | level hl hp hrest =>
    obtain ⟨u, v, rfl, htake, hmem, hcases⟩ := takeWhile_inLineComment_crlf s
    have hmark : Text.crlf (CodePoint.ofChar '/' :: CodePoint.ofChar '/' :: u) =
        CodePoint.ofChar '/' :: CodePoint.ofChar '/' :: u :=
      Text.crlf_of_not_mem (by simpa +decide using hmem)
    rw [htake, place_of_comment]
    rcases hcases with ⟨htake', hsplit⟩ | ⟨r, rfl, htake', hsplit⟩
    · obtain rfl : s' = CodePoint.ofChar '/' :: CodePoint.ofChar '/' :: (u ++ Text.crlf v) :=
        hrest.trans (congrArg (_ :: _ :: ·) hsplit)
      refine ⟨_, reads_comment (hsplit ▸ htake') st' p', .level ?_ (hp.after _) rfl⟩
      exact hl.gap ⟨rfl, rfl⟩ ⟨rfl, rfl⟩ rfl rfl (otherEnds_grow (by rw [hmark]; simp))
    · obtain rfl : s' = CodePoint.ofChar '/' :: CodePoint.ofChar '/' ::
          ((u ++ [CodePoint.ofChar '\r']) ++ CodePoint.ofChar '\n' :: Text.crlf r) :=
        hrest.trans (congrArg (_ :: _ :: ·) hsplit)
      refine ⟨_, reads_comment (hsplit ▸ htake') st' p', .behindReturn ?_ ?_ rfl rfl⟩
      · exact hl.gap ⟨rfl, rfl⟩ ⟨rfl, rfl⟩ rfl rfl (otherEnds_grow (by rw [hmark]; simp))
      · show (p'.after _).line = (p.after _).line
        rw [Position.line_after, Position.line_after, show p'.line = p.line from hp.line]
        simp +decide [Text.lineFeeds]

/-! ### One step -/

/-- What stands at the head stands there in the second source. -/
theorem matches_crlf {n : Nat} (hc : c ≠ '\n') (hline : c = '/' → Text.headIs s '/' = false)
    (hbroken : ¬ BrokenLiteral st.operand c s) :
    Matches st.operand c s n s.crlf (crlfLength s n) := by
  have hon : ∀ {kind}, Head st.operand c s (.token kind) n → kind ≠ .template → onLine s n := by
    intro kind h hk
    by_cases hliteral : kind = .string ∨ kind = .regex
    · by_contra hon
      exact hbroken ⟨kind, n, h, hliteral, by simpa using hon⟩
    · rw [not_or] at hliteral
      exact h.onLine ⟨hk, hliteral⟩
  refine ⟨fun {lexeme} h => h.crlf hc hline fun hl => ?_, fun {e} h => ?_, fun {kind} h => ?_⟩
  · rcases hl with rfl | rfl
    · exact hon h (by decide)
    · exact hon h (by decide)
  · rw [Lexeme.chunkLength?_crlf, h]
    rfl
  · by_cases hk : kind = .template
    · rw [hk]
      rfl
    · rw [Text.take_crlf, Text.crlf_of_not_mem (of_decide_eq_true (hon h hk))]

/-- One step, in both sources. -/
theorem Follows.step (h : Follows ⟨st, p, c :: s⟩ x') (hs : step st p c s = .ok r)
    (hbroken : ¬ BrokenLiteral st.operand c s) :
    ∃ ts y', Reads x' ts y' ∧ List.Forall₂ (TokenPair (otherEnds [])) r.token?.toList ts ∧
      Follows (r.place p c s) y' := by
  by_cases hc : c = '\n'
  · subst hc
    have hspace : Head st.operand '\n' s .gap 0 := .space (by decide)
    have hgap := step_of_gap (p := p) hspace
    obtain rfl := Except.ok.inj (hgap.symm.trans hs)
    obtain ⟨y', hreads, hy⟩ := h.lineFeed
    exact ⟨[], y', hreads, .nil, hy⟩
  by_cases hline : c = '/' ∧ Text.headIs s '/'
  · obtain ⟨rfl, hslash⟩ := hline
    obtain ⟨s, rfl⟩ := Lexeme.eq_cons_of_headIs hslash
    have hcomment : Head st.operand '/' (CodePoint.ofChar '/' :: s) .gap
        (1 + (s.takeWhile inLineComment).length) := .line rfl hslash
    have hgap := step_of_gap (p := p) hcomment
    obtain rfl := Except.ok.inj (hgap.symm.trans hs)
    obtain ⟨y', hreads, hy⟩ := h.comment
    exact ⟨[], y', hreads, .nil, hy⟩
  cases h with
  | behindReturn _ _ hrest => exact absurd (List.cons.inj hrest).1 hc
  | level hl hp hrest =>
    obtain ⟨st', p', s'⟩ := x'
    obtain rfl : s' = c :: s.crlf := hrest.trans (Text.crlf_cons hc s)
    have htake : Text.crlf (c :: s.take r.length) = c :: s.crlf.take (crlfLength s r.length) := by
      rw [Text.crlf_cons hc, Text.take_crlf]
    have hmatch : Matches st.operand c s r.length s.crlf (crlfLength s r.length) :=
      matches_crlf hc (by simpa using hline) hbroken
    obtain ⟨r', hs', hlength, hl', htoken⟩ :=
      hl.step hs ⟨hp, rfl⟩ (otherEnds_grow (by rw [htake]; simp)) hmatch
    refine ⟨_, _, .step hs' (.refl _), by rwa [List.append_nil], .level hl' ?_ ?_⟩
    · show (p.after (c :: s.take r.length)).Abreast (p'.after (c :: s.crlf.take r'.length))
      rw [hlength, ← htake]
      exact hp.crlf _
    · show s.crlf.drop r'.length = Text.crlf (s.drop r.length)
      rw [hlength, Text.drop_crlf]

/-- What has no end starts with a quote or a slash. -/
theorem ne_of_unclosed {operand : Bool} {cause : Unterminated} (h : Unclosed operand c s cause) :
    c ≠ '\n' ∧ c ≠ '}' := by
  cases h with
  | string hc => rcases hc with rfl | rfl <;> decide
  | template hc | regex hc | comment hc => exact hc ▸ by decide

theorem step_of_unclosed {cause : Unterminated} (h : Unclosed st.operand c s cause) :
    step st p c s = .error ⟨cause, p⟩ := by
  have hc := (ne_of_unclosed h).2
  have hread : readLexeme st p c s = .error ⟨cause, p⟩ := by
    rw [readLexeme, Lexeme.read_eq_error_iff.2 h]
  unfold step
  simp only [hc, decide_false, Bool.false_and, Bool.false_eq_true, if_false, hread]
  split <;> rfl

/-- A literal that goes on over a line end has no end in the second source. -/
theorem Follows.broken (h : Follows ⟨st, p, c :: s⟩ x') (hbroken : BrokenLiteral st.operand c s) :
    ∃ e, run x'.state x'.position x'.rest = .error e := by
  obtain ⟨kind, n, hhead, hkind, hon⟩ := hbroken
  obtain ⟨cause, hunclosed⟩ := hhead.unclosed hkind hon
  have hc := (ne_of_unclosed hunclosed).1
  cases h with
  | behindReturn _ _ hrest => exact absurd (List.cons.inj hrest).1 hc
  | level hl hp hrest =>
    rw [hrest.trans (Text.crlf_cons hc s), run, step_of_unclosed (hl.operand ▸ hunclosed)]
    exact ⟨_, rfl⟩

/-- What is unterminated in the one source is unterminated in the other. -/
theorem Follows.error {e : LexicalFault} (h : Follows ⟨st, p, c :: s⟩ x')
    (hs : Lexer.step st p c s = .error e) :
    ∃ e', run x'.state x'.position x'.rest = .error e' ∧ FaultPair (otherEnds []) e e' := by
  have hc : c ≠ '\n' := by
    rintro rfl
    rw [step_of_gap (.space (by decide))] at hs
    cases hs
  cases h with
  | behindReturn _ _ hrest => exact absurd (List.cons.inj hrest).1 hc
  | level hl hp hrest =>
    obtain ⟨st', p', s'⟩ := x'
    obtain rfl : s' = c :: s.crlf := hrest.trans (Text.crlf_cons hc s)
    obtain ⟨e', hs', hpair⟩ := hl.step_error hs ⟨hp, rfl⟩
      (fun cause hread => Lexeme.read_eq_error_iff.2 (Lexeme.read_eq_error_iff.1 hread).crlf)
      (fun hnone => by rw [Lexeme.chunkLength?_crlf, hnone]; rfl)
    exact ⟨e', by rw [run, hs'], hpair⟩

/-! ### The whole source -/

/-- A literal over a line end stands at the place, or further down. -/
theorem breaks_iff (hs : Lexer.step st p c s = .ok r) :
    Breaks ⟨st, p, c :: s⟩ ↔ BrokenLiteral st.operand c s ∨ Breaks (r.place p c s) := by
  constructor
  · rintro ⟨ts, y, d, t, hreads, hrest, hbroken⟩
    cases hreads with
    | refl =>
      obtain ⟨rfl, rfl⟩ := List.cons.inj hrest
      exact .inl hbroken
    | @step _ _ _ _ r' us _ hs' hr =>
      obtain rfl := Except.ok.inj (hs.symm.trans hs')
      exact .inr ⟨us, y, d, t, hr, hrest, hbroken⟩
  · rintro (hbroken | ⟨ts, y, d, t, hreads, hrest, hbroken⟩)
    · exact ⟨[], _, c, s, .refl _, rfl, hbroken⟩
    · exact ⟨_, y, d, t, .step hs hreads, hrest, hbroken⟩

theorem not_breaks_nil : ¬ Breaks ⟨st, p, []⟩ := by
  rintro ⟨ts, y, c, s, hreads, hrest, -⟩
  cases hreads
  cases hrest

theorem Follows.nil (h : Follows ⟨st, p, []⟩ x') :
    Lockstep (otherEnds []) ⟨st, p, []⟩ x' ∧ p.Abreast x'.position ∧ x'.rest = [] := by
  cases h with
  | behindReturn _ _ hrest => cases hrest
  | level hl hp hrest => exact ⟨hl, hp, hrest⟩

/-- The rest of both sources: without a literal over a line end it gives the same tokens or the same fault,
and with one there is a fault in the second source. -/
theorem run_crlf (h : Follows ⟨st, p, s⟩ x') :
    (¬ Breaks ⟨st, p, s⟩ →
        Outcome (otherEnds []) (run st p s) (run x'.state x'.position x'.rest)) ∧
      (Breaks ⟨st, p, s⟩ → ∃ e, run x'.state x'.position x'.rest = .error e) := by
  fun_induction run st p s generalizing x' with
  | case1 st p hf =>
    obtain ⟨hl, hp, hrest⟩ := h.nil
    have hf' : x'.state.frames = [] := List.isEmpty_iff.1 (by
      rw [isEmpty_of_forall₂ hl.frames]
      exact List.isEmpty_iff.2 hf)
    refine ⟨fun _ => ?_, fun hbreaks => absurd hbreaks not_breaks_nil⟩
    rw [hrest, run, hf']
    exact .ok ⟨.nil, hp, rfl⟩
  | case2 st p f fs hf =>
    obtain ⟨hl, hp, hrest⟩ := h.nil
    have hframes := hl.frames
    simp only [hf] at hframes
    obtain ⟨f', fs', hpair, -, hf'⟩ := List.forall₂_cons_left_iff.1 hframes
    obtain ⟨text, text', hpiece, -⟩ := hpair.piece
    refine ⟨fun _ => ?_, fun hbreaks => absurd hbreaks not_breaks_nil⟩
    rw [hrest, run, hf']
    exact .error ⟨rfl, text, text', hpiece⟩
  | case3 st p c s e hs =>
    obtain ⟨e', he', hpair⟩ := h.error hs
    refine ⟨fun _ => ?_, fun _ => ⟨e', he'⟩⟩
    rw [he']
    exact .error hpair
  | case4 st p c s r hs ih =>
    rw [breaks_iff hs]
    by_cases hbroken : BrokenLiteral st.operand c s
    · exact ⟨fun hnot => absurd (.inl hbroken) hnot, fun _ => h.broken hbroken⟩
    · obtain ⟨ts, y', hreads, htokens, hy⟩ := h.step hs hbroken
      obtain ⟨houtcome, hfault⟩ := ih hy
      rw [run_of_reads hreads]
      refine ⟨fun hnot => ?_, fun hbreaks => ?_⟩
      · exact (houtcome fun hb => hnot (.inr hb)).cons htokens
      · obtain ⟨e, he⟩ := hfault (hbreaks.resolve_left hbroken)
        exact ⟨e, by rw [he]; rfl⟩

theorem first_eq {u v : Text} (h : hashbang (u ++ v) = u) :
    Place.first (u ++ v) = ⟨.initial, Position.start.after u, v⟩ := by
  rw [Place.first, h, List.drop_left]

/-- The lexer starts behind the hashbang lines, if there are any. -/
theorem follows_first (s : Text) : Follows (.first s) (.first s.crlf) := by
  have hstarts : (Text.ofString "#!").isPrefixOf s.crlf = (Text.ofString "#!").isPrefixOf s :=
    Text.isPrefixOf_crlf (by decide) s
  have hstart : Position.start.Abreast Position.start := ⟨rfl, rfl⟩
  by_cases hbang : (Text.ofString "#!").isPrefixOf s
  · have hs : hashbang s = s.takeWhile inLineComment := if_pos hbang
    have hs' : hashbang s.crlf = s.crlf.takeWhile inLineComment := if_pos (hstarts.trans hbang)
    obtain ⟨u, v, rfl, htake, hmem, ⟨htake', hsplit⟩ | ⟨r, rfl, htake', hsplit⟩⟩ :=
      takeWhile_inLineComment_crlf s
    · rw [first_eq (hs.trans htake), hsplit, first_eq (hsplit ▸ hs'.trans htake')]
      exact .level ⟨rfl, .nil⟩ (hstart.after u) rfl
    · rw [first_eq (hs.trans htake), hsplit, first_eq (hsplit ▸ hs'.trans htake')]
      refine .behindReturn ⟨rfl, .nil⟩ ?_ rfl rfl
      show (Position.start.after _).line = (Position.start.after _).line
      rw [Position.line_after, Position.line_after]
      simp +decide [Text.lineFeeds]
  · have hs : hashbang ([] ++ s) = [] := if_neg hbang
    have hs' : hashbang ([] ++ s.crlf) = [] := if_neg (by rwa [List.nil_append, hstarts])
    have hfirst := first_eq hs
    have hfirst' := first_eq hs'
    rw [List.nil_append] at hfirst hfirst'
    rw [hfirst, hfirst']
    exact .level ⟨rfl, .nil⟩ hstart rfl

end Lexer

open Lexer

/-- Each string and each regular expression literal of the source, also inside of template literals, ends
on the line where it starts. -/
def LiteralsOnOneLine (s : Text) : Prop := ¬ Breaks (.first s)

/-- With carriage returns in front of the line feeds a source has the same tokens, or the same fault, if its
literals are on one line each. -/
theorem tokenize_crlf {s : Text} (h : LiteralsOnOneLine s) :
    Outcome (otherEnds []) (tokenize s) (tokenize s.crlf) :=
  (run_crlf (follows_first s)).1 h

/-- With carriage returns in front of the line feeds, a literal over a line end has no end. -/
theorem exists_fault_crlf {s : Text} (h : ¬ LiteralsOnOneLine s) : ∃ e, tokenize s.crlf = .error e :=
  (run_crlf (follows_first s)).2 (not_not.1 h)

end ScriptBundle
