import ScriptBundle.Except
import ScriptBundle.Token.Lexer

/-!
# What the lexer reads

A run of the lexer is cut here into pieces. A `Place` is a state of the lexer together with the source
that is left, and `Reads x ts y` says that the lexer comes from `x` to `y` and keeps the tokens `ts`.
The text behind `y` stays in sight, so a piece is never cut where a longer lexeme would start.

* `Place`, `Reads`, `run_eq_ok_iff`: a run is a reading up to the end of the source;
* `run_of_reads`: a run goes on where a reading has come to;
* `step_cases`: all that one step can do;
* `Place.Sound`: the open template literals of a state started where its frames say;
* `Reads.split`: a reading stands still in front of each token that it keeps, and behind it;
* `increasing_of_tokenize`: the tokens of a source follow each other without overlaps.
-/

namespace ScriptBundle

namespace Lexer

/-- A state of the lexer, its position, and the source from there on. -/
structure Place where
  state : State
  position : Position
  rest : Text

/-- `Reads x ts y`: the lexer comes from `x` to `y` and keeps the tokens `ts`. -/
inductive Reads : Place → List Token → Place → Prop
  | refl (x : Place) : Reads x [] x
  | step {st : State} {p : Position} {c : CodePoint} {s : Text} {r : Step} {ts : List Token}
      {y : Place} (h : step st p c s = .ok r)
      (hr : Reads ⟨r.state, p.after (c :: s.take r.length), s.drop r.length⟩ ts y) :
      Reads ⟨st, p, c :: s⟩ (r.token?.toList ++ ts) y

theorem Reads.trans {x y z : Place} {ts us : List Token} (h : Reads x ts y) (h' : Reads y us z) :
    Reads x (ts ++ us) z := by
  induction h with
  | refl => exact h'
  | step hs _ ih =>
    rw [List.append_assoc]
    exact .step hs (ih h')

/-- A run is a reading that ends outside every template literal, at the end of the source. -/
theorem run_eq_ok_iff {st : State} {p : Position} {s : Text} {ts : TokenStream} :
    run st p s = .ok ts ↔
      ∃ operand, Reads ⟨st, p, s⟩ ts.tokens ⟨⟨operand, []⟩, ts.finish, []⟩ := by
  constructor
  · intro h
    fun_induction run st p s generalizing ts with
    | case1 st p hf =>
      cases h
      obtain ⟨operand, frames⟩ := st
      obtain rfl : frames = [] := hf
      exact ⟨operand, .refl _⟩
    | case2 => cases h
    | case3 => cases h
    | case4 st p c s r hs ih =>
      obtain ⟨us, hus, rfl⟩ := Except.map_eq_ok_iff.1 h
      obtain ⟨operand, hr⟩ := ih hus
      exact ⟨operand, .step hs hr⟩
  · rintro ⟨operand, h⟩
    obtain ⟨tokens, finish⟩ := ts
    change Reads _ tokens ⟨⟨operand, []⟩, finish, []⟩ at h
    generalize hx : (⟨st, p, s⟩ : Place) = x at h
    generalize hy : (⟨⟨operand, []⟩, finish, []⟩ : Place) = y at h
    induction h generalizing st p s with
    | refl x =>
      obtain ⟨rfl, rfl, rfl⟩ := Place.mk.inj (hx.trans hy.symm)
      simp [run]
    | @step st' p' c s' r ts y hs _ ih =>
      obtain ⟨rfl, rfl, rfl⟩ := Place.mk.inj hx
      unfold run
      rw [hs]
      simp only [ih rfl hy]
      rfl

/-- A run goes on where a reading has come to. -/
theorem run_of_reads {x y : Place} {ts : List Token} (h : Reads x ts y) :
    run x.state x.position x.rest =
      (run y.state y.position y.rest).map fun us => { us with tokens := ts ++ us.tokens } := by
  induction h with
  | refl x => cases run x.state x.position x.rest <;> rfl
  | @step st p c s r ts y hs hr ih =>
    rw [run]
    simp only [hs]
    simp only at ih
    rw [ih]
    cases run y.state y.position y.rest with
    | error e => rfl
    | ok us => simp [TokenStream.cons?]

/-! ### One step -/

/-- What `readLexeme` does: it passes over a gap, opens a template literal, or reads a token. -/
theorem readLexeme_cases {st : State} {p : Position} {c : CodePoint} {s : Text} {r : Step}
    (h : readLexeme st p c s = .ok r) :
    (∃ n, Lexeme.read st.operand c s = .ok (.gap, n) ∧ r = ⟨n, st, none⟩) ∨
    (∃ n, Lexeme.read st.operand c s = .ok (.openTemplate, n) ∧
      r = ⟨n, ⟨true, ⟨p, c :: s, 0⟩ :: st.frames⟩, none⟩) ∨
    (∃ kind n, Lexeme.read st.operand c s = .ok (.token kind, n) ∧
      r = ⟨n, st.afterToken kind (c :: s.take n), st.keep ⟨kind, c :: s.take n, p⟩⟩) := by
  unfold readLexeme at h
  split at h
  · cases h
  · next n hr => cases h; exact .inl ⟨n, hr, rfl⟩
  · next n hr => cases h; exact .inr (.inl ⟨n, hr, rfl⟩)
  · next kind n hr => cases h; exact .inr (.inr ⟨kind, n, hr, rfl⟩)

/-- What `resume` does: it reads up to the next substitution, or to the end of the literal. -/
theorem resume_cases {f : Frame} {fs : List Frame} {p : Position} {s : Text} {r : Step}
    (h : resume f fs p s = .ok r) :
    (∃ n, Lexeme.chunkLength? s = some (.substitution, n) ∧ r = ⟨n, ⟨true, f :: fs⟩, none⟩) ∨
    (∃ n, Lexeme.chunkLength? s = some (.closed, n) ∧
      r = ⟨n, ⟨false, fs⟩, State.keep ⟨false, fs⟩
        ⟨.template, f.source.take (p.offset + 1 + n - f.start.offset), f.start⟩⟩) := by
  unfold resume at h
  split at h
  · cases h
  · next n hc => cases h; exact .inl ⟨n, hc, rfl⟩
  · next n hc => cases h; exact .inr ⟨n, hc, rfl⟩

/-- A step reads a lexeme, or goes on with the innermost template literal. -/
theorem step_cases {st : State} {p : Position} {c : CodePoint} {s : Text} {r : Step}
    (h : step st p c s = .ok r) :
    readLexeme st p c s = .ok r ∨
    ∃ f fs, st.frames = f :: fs ∧ c = '}' ∧ f.depth = 0 ∧ resume f fs p s = .ok r := by
  unfold step at h
  split at h
  · next f fs hf =>
    split at h
    · next hc =>
      simp only [Bool.and_eq_true, decide_eq_true_eq] at hc
      exact .inr ⟨f, fs, hf, hc.1, hc.2, h⟩
    · exact .inl h
  · exact .inl h

theorem mem_braced {kind : TokenKind} {fs : List Frame} {f : Frame} (h : f ∈ braced kind fs) :
    ∃ f' ∈ fs, f'.start = f.start ∧ f'.source = f.source := by
  unfold braced at h
  split at h
  · cases h
  · split at h
    all_goals
      rcases List.mem_cons.1 h with rfl | h
      · exact ⟨_, List.mem_cons_self, rfl, rfl⟩
      · exact ⟨f, List.mem_cons_of_mem _ h, rfl, rfl⟩

/-! ### Open template literals -/

/-- Where the outermost open template literal starts, and the source from there on. -/
def outermost (fs : List Frame) : Option (Position × Text) :=
  fs.getLast?.map fun f => (f.start, f.source)

theorem exists_outermost {fs : List Frame} (h : fs ≠ []) : ∃ b, outermost fs = some b :=
  ⟨_, congrArg (Option.map _) (List.getLast?_eq_some_getLast h)⟩

theorem outermost_cons (f : Frame) {fs : List Frame} (h : fs ≠ []) :
    outermost (f :: fs) = outermost fs := by
  obtain ⟨g, gs, rfl⟩ := List.exists_cons_of_ne_nil h
  rfl

theorem braced_ne_nil (kind : TokenKind) {fs : List Frame} (h : fs ≠ []) : braced kind fs ≠ [] := by
  obtain ⟨f, fs, rfl⟩ := List.exists_cons_of_ne_nil h
  cases kind <;> exact List.cons_ne_nil _ _

theorem outermost_braced (kind : TokenKind) (fs : List Frame) :
    outermost (braced kind fs) = outermost fs := by
  unfold braced
  split
  · rfl
  · next f fs =>
    cases fs with
    | nil => split <;> rfl
    | cons g gs => split <;> rfl

namespace Place

/-- Where the outermost open template literal starts, with the source from there on; without one, the
place itself. -/
def base (x : Place) : Position × Text :=
  (outermost x.state.frames).getD (x.position, x.rest)

/-- Every open template literal holds the source from its start on, and the place is behind it. -/
def Sound (x : Place) : Prop :=
  ∀ f ∈ x.state.frames, ∃ text, f.source = text ++ x.rest ∧ x.position = f.start.after text

theorem sound_of_frames {x : Place} (h : x.state.frames = []) : x.Sound := by
  intro f hf
  rw [h] at hf
  cases hf

end Place

/-- The place behind one step from `⟨st, p, c :: s⟩`. -/
def Step.place (r : Step) (p : Position) (c : CodePoint) (s : Text) : Place :=
  ⟨r.state, p.after (c :: s.take r.length), s.drop r.length⟩

section Step

variable {st : State} {p : Position} {c : CodePoint} {s : Text} {r : Step}

theorem frames_of_step (h : step st p c s = .ok r) {f : Frame} (hf : f ∈ r.state.frames) :
    (∃ f' ∈ st.frames, f'.start = f.start ∧ f'.source = f.source) ∨
      (f.start = p ∧ f.source = c :: s) := by
  rcases step_cases h with h | ⟨g, fs, hg, -, -, h⟩
  · rcases readLexeme_cases h with ⟨n, -, rfl⟩ | ⟨n, -, rfl⟩ | ⟨kind, n, -, rfl⟩
    · exact .inl ⟨f, hf, rfl, rfl⟩
    · rcases List.mem_cons.1 hf with rfl | hf
      · exact .inr ⟨rfl, rfl⟩
      · exact .inl ⟨f, hf, rfl, rfl⟩
    · exact .inl (mem_braced hf)
  · rcases resume_cases h with ⟨n, -, rfl⟩ | ⟨n, -, rfl⟩
    · exact .inl ⟨f, hg ▸ hf, rfl, rfl⟩
    · exact .inl ⟨f, hg ▸ List.mem_cons_of_mem g hf, rfl, rfl⟩

theorem sound_step (hx : Place.Sound ⟨st, p, c :: s⟩) (h : step st p c s = .ok r) :
    (r.place p c s).Sound := by
  intro f hf
  rcases frames_of_step h hf with ⟨f', hf', hstart, hsource⟩ | ⟨hstart, hsource⟩
  · obtain ⟨text, htext, hp⟩ := hx f' hf'
    refine ⟨text ++ (c :: s.take r.length), ?_, ?_⟩
    · rw [← hsource, htext, List.append_assoc, List.cons_append]
      exact congrArg (text ++ c :: ·) (List.take_append_drop r.length s).symm
    · rw [← hstart, Position.after_append, ← hp]
      rfl
  · refine ⟨c :: s.take r.length, ?_, by rw [hstart]; rfl⟩
    rw [hsource, List.cons_append]
    exact congrArg (c :: ·) (List.take_append_drop r.length s).symm

/-- A step keeps no token and stays inside the literal at the same base, or it passes over a gap
outside every literal, or it keeps the token that starts at the base. -/
theorem step_base (hx : Place.Sound ⟨st, p, c :: s⟩) (h : step st p c s = .ok r) :
    (r.token? = none ∧ r.state.frames ≠ [] ∧
      (r.place p c s).base = Place.base ⟨st, p, c :: s⟩) ∨
    (r.token? = none ∧ st.frames = [] ∧ r.state = st) ∨
    ∃ t, r.token? = some t ∧ r.state.frames = [] ∧
      Place.base ⟨st, p, c :: s⟩ = (t.start, t.text ++ (r.place p c s).rest) ∧
      (r.place p c s).position = t.start.after t.text := by
  have hwhole : ∀ n, c :: s = (c :: s.take n) ++ s.drop n := fun n => by
    rw [List.cons_append, List.take_append_drop]
  -- Outside of all template literals a token is given out where it ends. Inside of one nothing is, and
  -- the outermost frame keeps the place where the literal starts.
  rcases step_cases h with h | ⟨f, fs, hf, -, -, h⟩
  · rcases readLexeme_cases h with ⟨n, -, rfl⟩ | ⟨n, -, rfl⟩ | ⟨kind, n, -, rfl⟩
    · by_cases hst : st.frames = []
      · exact .inr (.inl ⟨rfl, hst, rfl⟩)
      · obtain ⟨b, hb⟩ := exists_outermost hst
        exact .inl ⟨rfl, hst, by simp [Place.base, Step.place, hb]⟩
    · refine .inl ⟨rfl, List.cons_ne_nil _ _, ?_⟩
      by_cases hst : st.frames = []
      · simp [Place.base, Step.place, outermost, hst]
      · obtain ⟨b, hb⟩ := exists_outermost hst
        simp [Place.base, Step.place, outermost_cons _ hst, hb]
    · by_cases hst : st.frames = []
      · refine .inr (.inr ⟨⟨kind, c :: s.take n, p⟩, by simp [State.keep, hst],
          by simp [State.afterToken, braced, hst], ?_, rfl⟩)
        simp only [Place.base, outermost, hst]
        exact congrArg (Prod.mk p) (hwhole n)
      · obtain ⟨b, hb⟩ := exists_outermost hst
        refine .inl ⟨by simp [State.keep, hst], braced_ne_nil kind hst, ?_⟩
        simp [Place.base, Step.place, State.afterToken, outermost_braced, hb]
  · rcases resume_cases h with ⟨n, -, rfl⟩ | ⟨n, -, rfl⟩
    · refine .inl ⟨rfl, List.cons_ne_nil f fs, ?_⟩
      obtain ⟨b, hb⟩ := exists_outermost (List.cons_ne_nil f fs)
      simp [Place.base, Step.place, hf, hb]
    · by_cases hfs : fs = []
      · -- The literal ends, and its text is what has been read since its frame was opened.
        subst hfs
        obtain ⟨text, htext, hp⟩ := hx f (by simp [hf])
        obtain rfl : p = f.start.after text := hp
        have hlength : (f.start.after text).offset + 1 + n - f.start.offset =
            text.length + (n + 1) := by
          rw [Position.offset_after]
          omega
        have htake : f.source.take (text.length + (n + 1)) = text ++ c :: s.take n := by
          rw [htext, List.take_length_add_append, List.take_succ_cons]
        have hsource : f.source = (text ++ c :: s.take n) ++ s.drop n := by
          rw [htext, List.append_assoc, List.cons_append, List.take_append_drop]
        refine .inr (.inr ⟨_, rfl, rfl, ?_, ?_⟩)
        · simp only [Place.base, outermost, hf, hlength, htake]
          exact congrArg (Prod.mk f.start) hsource
        · simp only [Step.place, hlength, htake, Position.after_append]
      · obtain ⟨b, hb⟩ := exists_outermost hfs
        refine .inl ⟨by simp [State.keep, hfs], hfs, ?_⟩
        simp [Place.base, Step.place, hf, outermost_cons f hfs, hb]

end Step

/-! ### Cutting a reading at its tokens -/

/-- The token `t` stands at `x`, and the lexer comes from there to `y` behind it. -/
structure TokenAt (x : Place) (t : Token) (y : Place) : Prop where
  reads : Reads x [t] y
  before : x.state.frames = []
  behind : y.state.frames = []
  start : x.position = t.start
  text : x.rest = t.text ++ y.rest
  stop : y.position = t.start.after t.text

namespace Reads

variable {x y z : Place} {t : Token} {ts us : List Token}

/-- Inside a template literal the next token is the outermost literal. -/
theorem inside (h : Reads x (t :: us) z) (hx : x.Sound) (hf : x.state.frames ≠ []) :
    ∃ y, Reads x [t] y ∧ y.state.frames = [] ∧ x.base = (t.start, t.text ++ y.rest) ∧
      y.position = t.start.after t.text ∧ Reads y us z := by
  generalize hts : t :: us = ts at h
  induction h with
  | refl => cases hts
  | @step st p c s r ts z h hr ih =>
    rcases step_base hx h with ⟨hn, hne, hbase⟩ | ⟨-, he, -⟩ | ⟨t', ht, he, hbase, hp⟩
    · rw [hn] at hts
      obtain ⟨y, hy, he, hb, hp, hz⟩ := ih (sound_step hx h) hne hts
      refine ⟨y, ?_, he, hbase ▸ hb, hp, hz⟩
      have := Reads.step h hy
      rwa [hn] at this
    · exact absurd he hf
    · rw [ht] at hts
      obtain ⟨rfl, rfl⟩ := List.cons.inj hts
      refine ⟨r.place p c s, ?_, he, hbase, hp, hr⟩
      have := Reads.step h (.refl _)
      rwa [ht] at this

/-- Outside every template literal the lexer passes over gaps until it stands at the next token. -/
theorem next (h : Reads x (t :: us) z) (hf : x.state.frames = []) :
    ∃ y y', Reads x [] y ∧ y.state = x.state ∧ TokenAt y t y' ∧ Reads y' us z := by
  generalize hts : t :: us = ts at h
  induction h with
  | refl => cases hts
  | @step st p c s r ts z h hr ih =>
    have hx : Place.Sound ⟨st, p, c :: s⟩ := Place.sound_of_frames hf
    have hbase : Place.base ⟨st, p, c :: s⟩ = (p, c :: s) := by
      simp only [Place.base, show st.frames = [] from hf]
      rfl
    rcases step_base hx h with ⟨hn, hne, hb⟩ | ⟨hn, -, hst⟩ | ⟨t', ht, he, hb, hp⟩
    · rw [hn] at hts
      obtain rfl : t :: us = ts := hts
      obtain ⟨y, hy, he, hb', hp, hz⟩ := hr.inside (sound_step hx h) hne
      have htext := (hb.trans hbase).symm.trans hb'
      have hreads := Reads.step h hy
      rw [hn] at hreads
      exact ⟨_, y, .refl _, rfl, ⟨hreads, hf, he, congrArg Prod.fst htext, congrArg Prod.snd htext,
        hp⟩, hz⟩
    · rw [hn] at hts
      obtain ⟨y, y', hy, hstate, hy', hz⟩ := ih ((congrArg State.frames hst).trans hf) hts
      have hreads := Reads.step h hy
      rw [hn] at hreads
      exact ⟨y, y', hreads, hstate.trans hst, hy', hz⟩
    · rw [ht] at hts
      obtain ⟨rfl, rfl⟩ := List.cons.inj hts
      have htext := hbase.symm.trans hb
      have hreads := Reads.step h (.refl _)
      rw [ht] at hreads
      exact ⟨_, r.place p c s, .refl _, rfl, ⟨hreads, hf, he, congrArg Prod.fst htext,
        congrArg Prod.snd htext, hp⟩, hr⟩

/-- A reading stands still in front of each of its tokens, and behind it. -/
theorem split (h : Reads x (ts ++ t :: us) z) (hf : x.state.frames = []) :
    ∃ y y', Reads x ts y ∧ TokenAt y t y' ∧ Reads y' us z := by
  induction ts generalizing x with
  | nil =>
    obtain ⟨y, y', hy, -, hy', hz⟩ := h.next hf
    exact ⟨y, y', hy, hy', hz⟩
  | cons u ts ih =>
    obtain ⟨v, v', hv, -, hv', hz⟩ := h.next hf
    obtain ⟨y, y', hy, hy', hz⟩ := ih hz hv'.behind
    exact ⟨y, y', hv.trans (hv'.reads.trans hy), hy', hz⟩

/-- What is read is a piece of the source. -/
theorem exists_text (h : Reads x ts y) :
    ∃ text, x.rest = text ++ y.rest ∧ y.position = x.position.after text := by
  induction h with
  | refl => exact ⟨[], rfl, rfl⟩
  | @step st p c s r ts y _ _ ih =>
    obtain ⟨text, htext, hp⟩ := ih
    refine ⟨(c :: s.take r.length) ++ text, ?_, by rw [hp, Position.after_append]⟩
    rw [List.append_assoc, List.cons_append]
    exact congrArg (c :: ·) ((List.take_append_drop r.length s).symm.trans
      (congrArg (s.take r.length ++ ·) htext))

theorem offset_le (h : Reads x ts y) : x.position.offset ≤ y.position.offset := by
  obtain ⟨text, -, hp⟩ := h.exists_text
  rw [hp, Position.offset_after]
  omega

end Reads

theorem TokenAt.stop_eq {x y : Place} {t : Token} (h : TokenAt x t y) :
    t.stop = y.position.offset := by
  rw [h.stop, Position.offset_after]
  rfl

theorem TokenAt.text_ne_nil {x y : Place} {t : Token} (h : TokenAt x t y) : t.text ≠ [] := by
  intro ht
  have hp : y.position.offset = x.position.offset := by
    rw [h.stop, ht, h.start]
    rfl
  have hreads := h.reads
  generalize hts : [t] = ts at hreads
  cases hreads with
  | refl => cases hts
  | step hs hr =>
    have := hr.offset_le
    simp only [Position.offset_after, List.length_cons] at this hp
    omega

/-- The tokens of a reading start behind its place, each behind the end of the one before it. -/
theorem Reads.increasing {x z : Place} {ts : List Token} (h : Reads x ts z)
    (hf : x.state.frames = []) :
    (∀ t ∈ ts, x.position.offset ≤ t.start.offset) ∧
      ts.Pairwise fun t u => t.stop ≤ u.start.offset := by
  induction ts generalizing x with
  | nil => exact ⟨fun t ht => (List.not_mem_nil ht).elim, List.Pairwise.nil⟩
  | cons t ts ih =>
    obtain ⟨y, y', hy, -, ht, hz⟩ := h.next hf
    obtain ⟨hle, hpair⟩ := ih hz ht.behind
    have hstart : x.position.offset ≤ t.start.offset := ht.start ▸ hy.offset_le
    have hstop : t.start.offset ≤ t.stop := Nat.le_add_right ..
    refine ⟨fun u hu => ?_, List.pairwise_cons.2 ⟨fun u hu => ht.stop_eq ▸ hle u hu, hpair⟩⟩
    rcases List.mem_cons.1 hu with rfl | hu
    · exact hstart
    · have := hle u hu
      rw [← ht.stop_eq] at this
      omega

end Lexer

open Lexer

/-- The place where the lexer starts in a source. -/
def Lexer.Place.first (s : Text) : Place :=
  ⟨.initial, Position.start.after (hashbang s), s.drop (hashbang s).length⟩

theorem tokenize_eq_ok_iff {s : Text} {ts : TokenStream} :
    tokenize s = .ok ts ↔
      ∃ operand, Reads (.first s) ts.tokens ⟨⟨operand, []⟩, ts.finish, []⟩ :=
  run_eq_ok_iff

/-- Each token of a source starts behind the end of the one before it. -/
theorem increasing_of_tokenize {s : Text} {ts : TokenStream} (h : tokenize s = .ok ts) :
    ts.tokens.Pairwise fun t u => t.stop ≤ u.start.offset := by
  obtain ⟨operand, hr⟩ := tokenize_eq_ok_iff.1 h
  exact (hr.increasing rfl).2

theorem length_hashbang_le (s : Text) : (hashbang s).length ≤ s.length := by
  unfold hashbang
  split
  · exact (List.takeWhile_sublist _).length_le
  · exact Nat.zero_le _

theorem hashbang_append_drop (s : Text) : hashbang s ++ s.drop (hashbang s).length = s := by
  have hprefix : hashbang s <+: s := by
    unfold hashbang
    split
    · exact List.takeWhile_prefix _
    · exact List.nil_prefix
  exact List.prefix_iff_eq_append.1 hprefix

/-- The end of a source is as far from its beginning as the source is long. -/
theorem finish_of_tokenize {s : Text} {ts : TokenStream} (h : tokenize s = .ok ts) :
    ts.finish.offset = s.length := by
  obtain ⟨operand, hr⟩ := tokenize_eq_ok_iff.1 h
  obtain ⟨text, htext, hp⟩ := hr.exists_text
  have hle := length_hashbang_le s
  have hlength := congrArg List.length htext
  simp only [Place.first, List.length_drop, List.append_nil] at hlength
  change ts.finish = (Position.start.after (hashbang s)).after text at hp
  rw [hp, Position.offset_after, Position.offset_after, show Position.start.offset = 0 from rfl]
  omega

/-- Each token ends inside the source. -/
theorem stop_le_of_tokenize {s : Text} {ts : TokenStream} (h : tokenize s = .ok ts) {t : Token}
    (ht : t ∈ ts.tokens) : t.stop ≤ s.length := by
  rw [← finish_of_tokenize h]
  obtain ⟨operand, hr⟩ := tokenize_eq_ok_iff.1 h
  obtain ⟨before, after, hsplit⟩ := List.append_of_mem ht
  obtain ⟨y, y', -, hy, hz⟩ := (hsplit ▸ hr).split rfl
  exact hy.stop_eq ▸ hz.offset_le

/-- A token is read from the source as it stands behind the offset of the token. -/
theorem tokenAt_of_tokenize {s : Text} {ts : TokenStream} (h : tokenize s = .ok ts) {t : Token}
    (ht : t ∈ ts.tokens) :
    (hashbang s).length ≤ t.start.offset ∧ ∃ x y, TokenAt x t y ∧ x.rest = s.drop t.start.offset := by
  obtain ⟨operand, hr⟩ := tokenize_eq_ok_iff.1 h
  obtain ⟨before, after, hsplit⟩ := List.append_of_mem ht
  obtain ⟨y, y', hy, hat, -⟩ := (hsplit ▸ hr).split rfl
  obtain ⟨text, htext, hp⟩ := hy.exists_text
  change s.drop (hashbang s).length = text ++ y.rest at htext
  change y.position = (Position.start.after (hashbang s)).after text at hp
  have hoffset : t.start.offset = (hashbang s).length + text.length := by
    rw [← hat.start, hp, Position.offset_after, Position.offset_after,
      show Position.start.offset = 0 from rfl, Nat.zero_add]
  refine ⟨by omega, y, y', hat, ?_⟩
  rw [hoffset, ← List.drop_drop, htext, List.drop_left]

/-- A token stands in the source, at its offset. -/
theorem drop_start_of_tokenize {s : Text} {ts : TokenStream} (h : tokenize s = .ok ts) {t : Token}
    (ht : t ∈ ts.tokens) :
    (hashbang s).length ≤ t.start.offset ∧ ∃ rest, s.drop t.start.offset = t.text ++ rest := by
  obtain ⟨hoffset, x, y, hat, hrest⟩ := tokenAt_of_tokenize h ht
  exact ⟨hoffset, y.rest, hrest ▸ hat.text⟩

theorem text_ne_nil_of_tokenize {s : Text} {ts : TokenStream} (h : tokenize s = .ok ts)
    {t : Token} (ht : t ∈ ts.tokens) : t.text ≠ [] := by
  obtain ⟨operand, hr⟩ := tokenize_eq_ok_iff.1 h
  obtain ⟨before, after, hsplit⟩ := List.append_of_mem ht
  obtain ⟨y, y', -, hy, -⟩ := (hsplit ▸ hr).split rfl
  exact hy.text_ne_nil

/-- The tokens of a source start at different places, in their order. -/
theorem start_lt_of_tokenize {s : Text} {ts : TokenStream} (h : tokenize s = .ok ts) :
    ts.tokens.Pairwise fun t u => t.start.offset < u.start.offset := by
  refine (increasing_of_tokenize h).imp_of_mem fun {t u} ht _ hlt => ?_
  have : 0 < t.text.length := List.length_pos_iff.2 (text_ne_nil_of_tokenize h ht)
  have : t.stop = t.start.offset + t.text.length := rfl
  omega

end ScriptBundle
