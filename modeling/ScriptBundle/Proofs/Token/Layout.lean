import ScriptBundle.Proofs.Token.Transport

/-!
# Layouts

Outside template literals a source is a sequence of tokens with gaps in front of them. Here it is taken
apart into these pieces, so that a source can be changed piece by piece and put together again.

* `Gaps`: a text of white space and comments, in front of another text;
* `Lexes`: a text that is one token in front of another text;
* `Item`, `Lays`: tokens with the gaps in front of them, and what it takes for the lexer to find them;
* `exists_lays_of_reads`, `Lays.reads`: a reading is a layout.
-/

namespace ScriptBundle

namespace Lexer

open Lexeme (Head Stable separators operandMayFollow)

/-- A place outside every template literal. -/
abbrev outside (operand : Bool) (p : Position) (s : Text) : Place := ⟨⟨operand, []⟩, p, s⟩

/-- A token with the gaps in front of it. -/
structure Item where
  gap : Text
  token : Token

/-- The piece of a source that an item takes. -/
def Item.text (i : Item) : Text := i.gap ++ i.token.text

variable {operand : Bool} {p : Position} {c : CodePoint} {s text rest : Text} {n : Nat}

/-- A gap is passed over in every state, since no substitution closes in front of it. -/
theorem step_of_gap {st : State} (h : Head st.operand c s .gap n) :
    step st p c s = .ok ⟨n, st, none⟩ := by
  have hc : c ≠ '}' := by
    rintro rfl
    cases h with
    | space h => exact absurd h (by decide)
    | line h => exact absurd h (by decide)
    | block h => exact absurd h (by decide)
  unfold step readLexeme
  simp only [Lexeme.read_eq_ok_iff.2 h, hc, decide_false, Bool.false_and, Bool.false_eq_true, if_false]
  split <;> rfl

/-! ### One step outside template literals -/

theorem step_of_openTemplate (h : Head operand c s .openTemplate n) :
    step ⟨operand, []⟩ p c s = .ok ⟨n, ⟨true, [⟨p, c :: s, 0⟩]⟩, none⟩ := by
  simp only [step, readLexeme, Lexeme.read_eq_ok_iff.2 h]

theorem step_of_token {kind : TokenKind} (h : Head operand c s (.token kind) n) :
    step ⟨operand, []⟩ p c s = .ok ⟨n, ⟨operandMayFollow kind (c :: s.take n), []⟩,
      some ⟨kind, c :: s.take n, p⟩⟩ := by
  simp only [step, readLexeme, Lexeme.read_eq_ok_iff.2 h]
  rfl

/-- Outside template literals a step reads a gap, opens a literal, or reads a token. -/
theorem step_outside {r : Step} (h : step ⟨operand, []⟩ p c s = .ok r) :
    (∃ n, Head operand c s .gap n ∧ r = ⟨n, ⟨operand, []⟩, none⟩) ∨
    (∃ n, Head operand c s .openTemplate n ∧ r = ⟨n, ⟨true, [⟨p, c :: s, 0⟩]⟩, none⟩) ∨
    ∃ kind n, Head operand c s (.token kind) n ∧
      r = ⟨n, ⟨operandMayFollow kind (c :: s.take n), []⟩, some ⟨kind, c :: s.take n, p⟩⟩ := by
  rcases readLexeme_cases h with ⟨n, hr, rfl⟩ | ⟨n, hr, rfl⟩ | ⟨kind, n, hr, rfl⟩
  · exact .inl ⟨n, Lexeme.read_eq_ok_iff.1 hr, rfl⟩
  · exact .inr (.inl ⟨n, Lexeme.read_eq_ok_iff.1 hr, rfl⟩)
  · exact .inr (.inr ⟨kind, n, Lexeme.read_eq_ok_iff.1 hr, rfl⟩)

/-- A literal does not end without a token. -/
theorem Reads.frames_ne_nil {x y : Place} (h : Reads x [] y) (hx : x.Sound)
    (hf : x.state.frames ≠ []) : y.state.frames ≠ [] := by
  generalize hts : ([] : List Token) = ts at h
  induction h with
  | refl => exact hf
  | @step st p c s r ts y hs hr ih =>
    rcases step_base hx hs with ⟨hn, hne, -⟩ | ⟨-, he, -⟩ | ⟨t, ht, -⟩
    · rw [hn] at hts
      exact ih (sound_step hx hs) hne hts
    · exact absurd he hf
    · rw [ht] at hts
      cases hts

/-! ### Gaps -/

/-- The text is made of gaps when it stands in front of `rest`. -/
inductive Gaps : Text → Text → Prop
  | nil (rest : Text) : Gaps [] rest
  | cons {c : CodePoint} {w g rest : Text}
      (h : ∀ operand, Head operand c (w ++ (g ++ rest)) .gap w.length) (hg : Gaps g rest) :
      Gaps (c :: (w ++ g)) rest

namespace Gaps

variable {g g' rest' : Text}

theorem reads_of_state (h : Gaps g rest) (st : State) (p : Position) :
    Reads ⟨st, p, g ++ rest⟩ [] ⟨st, p.after g, rest⟩ := by
  induction h generalizing p with
  | nil => exact .refl _
  | @cons c w g rest h hg ih =>
    have hstep : step st p c ((w ++ g) ++ rest) = .ok ⟨w.length, st, none⟩ :=
      step_of_gap (by rw [List.append_assoc]; exact h st.operand)
    have hplace : Reads (Step.place ⟨w.length, st, none⟩ p c ((w ++ g) ++ rest)) []
        ⟨st, p.after (c :: (w ++ g)), rest⟩ := by
      simp only [Step.place, List.append_assoc, List.take_left, List.drop_left]
      rw [← List.cons_append, Position.after_append]
      exact ih _
    exact .step hstep hplace

theorem reads (h : Gaps g rest) (operand : Bool) (p : Position) :
    Reads (outside operand p (g ++ rest)) [] (outside operand (p.after g) rest) :=
  h.reads_of_state ⟨operand, []⟩ p

theorem append (h : Gaps g (g' ++ rest)) (h' : Gaps g' rest) : Gaps (g ++ g') rest := by
  generalize hs : g' ++ rest = s at h
  induction h with
  | nil => exact h'
  | @cons c w g s hc hg ih =>
    subst hs
    rw [List.cons_append, List.append_assoc]
    refine .cons (fun operand => ?_) (ih rfl)
    rw [List.append_assoc]
    exact hc operand

theorem stable (h : Gaps g rest) (hrest : Stable rest rest') : Gaps g rest' := by
  induction h with
  | nil => exact .nil _
  | @cons c w g rest hc hg ih =>
    exact .cons (fun operand => hrest.append g (hc operand) le_rfl) (ih hrest)

/-- Gaps start with a separator. -/
theorem head?_mem (h : Gaps g rest) (hg : g ≠ []) : ∃ d ∈ separators, g.head? = some d := by
  cases h with
  | nil => exact absurd rfl hg
  | @cons c w _ _ hc =>
    refine ⟨c, ?_, rfl⟩
    have hhead := hc true
    generalize w.length = n at hhead
    cases hhead with
    | space h => exact Lexeme.mem_separators_of_isSpace h
    | line hc => exact hc ▸ by decide
    | block hc => exact hc ▸ by decide

/-- Gaps in front of something else on their line end in a separator. -/
theorem getLast?_mem (h : Gaps g rest) (hrest : rest.head?.any Lexeme.inLineComment) (hg : g ≠ []) :
    ∃ d ∈ separators, g.getLast? = some d := by
  induction h with
  | nil => exact absurd rfl hg
  | @cons c w g rest hc _ ih =>
    by_cases hnil : g = []
    · subst hnil
      have := (hc true).getLast?_gap (by rwa [List.drop_left])
      rw [List.take_left] at this
      rwa [List.append_nil]
    · obtain ⟨d, hd, hlast⟩ := ih hrest hnil
      refine ⟨d, hd, ?_⟩
      rw [← List.cons_append, List.getLast?_append, hlast]
      rfl

/-- Gaps in front of something else on their line are gaps in front of any text. -/
theorem closed (h : Gaps g rest) (hrest : rest.head?.any Lexeme.inLineComment) (rest' : Text) :
    Gaps g rest' := by
  induction h with
  | nil => exact .nil _
  | @cons c w g rest hc hg ih =>
    refine .cons (fun operand => ?_) (ih hrest)
    by_cases hnil : g = []
    · subst hnil
      have := (hc operand).closed (by rwa [List.drop_left]) operand rest'
      rwa [List.take_left] at this
    · obtain ⟨d, hd, hlast⟩ := hg.getLast?_mem hrest hnil
      exact (Lexeme.alike_of_getLast? hlast hd rest rest').stable (hc operand) le_rfl

end Gaps

/-- Line feeds are gaps in front of any text. -/
theorem gaps_replicate (n : Nat) (rest : Text) : Gaps (List.replicate n '\n') rest := by
  induction n with
  | zero => exact .nil rest
  | succ n ih =>
    have : Gaps (CodePoint.ofChar '\n' :: ([] ++ List.replicate n (CodePoint.ofChar '\n'))) rest :=
      .cons (fun operand => .space (by decide)) ih
    exact this

/-- What is read outside template literals without a token is made of gaps. -/
theorem gaps_of_reads {x y : Place} (h : Reads x [] y) (hx : x.state.frames = [])
    (hy : y.state.frames = []) :
    ∃ g, Gaps g y.rest ∧ x.rest = g ++ y.rest ∧ y.state = x.state ∧
      y.position = x.position.after g := by
  generalize hts : ([] : List Token) = ts at h
  induction h with
  | refl x => exact ⟨[], .nil _, rfl, rfl, rfl⟩
  | @step st p c s r ts y hs hr ih =>
    obtain ⟨operand, frames⟩ := st
    obtain rfl : frames = [] := hx
    have hsound : Place.Sound ⟨⟨operand, []⟩, p, c :: s⟩ := Place.sound_of_frames rfl
    rcases step_outside hs with ⟨n, hn, rfl⟩ | ⟨n, -, rfl⟩ | ⟨kind, n, -, rfl⟩
    · obtain ⟨g, hg, hrest, hstate, hp⟩ := ih rfl hy hts
      replace hrest : s.drop n = g ++ y.rest := hrest
      have hs' : s = s.take n ++ (g ++ y.rest) := by rw [← hrest, List.take_append_drop]
      have hlength : (s.take n).length = n := List.length_take_of_le hn.length_le
      refine ⟨c :: (s.take n ++ g), .cons (fun operand' => ?_) hg, ?_, hstate, ?_⟩
      · rw [← hs', hlength]
        exact hn.of_operand (fun _ => rfl) operand'
      · rw [List.cons_append, List.append_assoc, ← hs']
      · rw [hp, ← List.cons_append, Position.after_append]
    · cases hts
      exact absurd hy (hr.frames_ne_nil (sound_step hsound hs) (List.cons_ne_nil _ _))
    · cases hts

/-! ### Tokens -/

/-- In front of `rest` the text is one token of the given kind. -/
def Lexes (operand : Bool) (kind : TokenKind) (text rest : Text) : Prop :=
  ∀ p, Reads (outside operand p (text ++ rest)) [⟨kind, text, p⟩]
    (outside (operandMayFollow kind text) (p.after text) rest)

/-- A lexeme that is a whole token. -/
theorem lexes_of_head {kind : TokenKind} {w : Text}
    (h : Head operand c (w ++ rest) (.token kind) w.length) : Lexes operand kind (c :: w) rest := by
  intro p
  have hstep := step_of_token (p := p) h
  rw [List.take_left] at hstep
  have hplace : Reads (Step.place ⟨w.length, ⟨operandMayFollow kind (c :: w), []⟩,
      some ⟨kind, c :: w, p⟩⟩ p c (w ++ rest)) []
      (outside (operandMayFollow kind (c :: w)) (p.after (c :: w)) rest) := by
    simp only [Step.place, List.take_left, List.drop_left]
    exact .refl _
  exact .step hstep hplace

/-- The token at a place starts with the lexeme there: it is this lexeme, or a template literal. -/
theorem TokenAt.first {y : Place} {t : Token} (h : TokenAt (outside operand p s) t y) :
    ∃ c r n, s = c :: r ∧
      ((Head operand c r (.token t.kind) n ∧ t.text = c :: r.take n ∧ y.rest = r.drop n ∧
          y.state = ⟨operandMayFollow t.kind t.text, []⟩) ∨
        (Head operand c r .openTemplate n ∧
          Reads (Step.place ⟨n, ⟨true, [⟨p, c :: r, 0⟩]⟩, none⟩ p c r) [t] y)) := by
  have hreads := h.reads
  have hstart := h.start
  generalize hx : outside operand p s = x at hreads hstart
  generalize hts : [t] = ts at hreads
  cases hreads with
  | refl => cases hts
  | @step st p' c r step us _ hs hr =>
    obtain ⟨rfl, rfl, rfl⟩ := Place.mk.inj hx
    refine ⟨c, r, step.length, rfl, ?_⟩
    rcases step_outside hs with ⟨n, hn, rfl⟩ | ⟨n, hn, rfl⟩ | ⟨kind, n, hn, rfl⟩
    · -- A token does not start with a gap.
      obtain rfl : [t] = us := hts
      have := (hr.increasing rfl).1 t (by simp)
      rw [← hstart, Position.offset_after, List.length_cons] at this
      simp only at this
      omega
    · obtain rfl : [t] = us := hts
      exact .inr ⟨hn, hr⟩
    · obtain ⟨rfl, rfl⟩ := List.cons.inj hts
      obtain ⟨g, hg, hrest, hstate, -⟩ := gaps_of_reads hr rfl h.behind
      refine .inl ⟨hn, rfl, ?_, hstate⟩
      have htext : r.take n ++ r.drop n = r.take n ++ y.rest := by
        rw [List.take_append_drop]
        exact List.tail_eq_of_cons_eq h.text
      exact (List.append_cancel_left htext).symm

/-- The token that closes a template literal with substitutions is the literal. -/
theorem Reads.template_of_inside {x y : Place} {t : Token} (h : Reads x [t] y) (hx : x.Sound)
    (hf : x.state.frames ≠ []) (hy : y.state.frames = []) :
    t.kind = .template ∧ y.state = ⟨false, []⟩ := by
  generalize hts : [t] = ts at h
  induction h with
  | refl => cases hts
  | @step st p c s r ts y hs hr ih =>
    rcases step_base hx hs with ⟨hn, hne, -⟩ | ⟨-, he, -⟩ | ⟨t', ht, he, -⟩
    · rw [hn] at hts
      exact ih (sound_step hx hs) hne hy hts
    · exact absurd he hf
    · rw [ht] at hts
      obtain ⟨rfl, rfl⟩ := List.cons.inj hts
      obtain ⟨-, -, -, hstate, -⟩ := gaps_of_reads hr he hy
      have hkeep : ∀ u : Token, st.keep u = none := fun u => if_neg (by simpa using hf)
      rcases step_cases hs with h | ⟨f, fs, -, -, -, h⟩
      · rcases readLexeme_cases h with ⟨n, -, rfl⟩ | ⟨n, -, rfl⟩ | ⟨kind, n, -, rfl⟩
        · cases ht
        · cases ht
        · rw [show Step.token? ⟨n, _, st.keep _⟩ = none from hkeep _] at ht
          cases ht
      · rcases resume_cases h with ⟨n, -, rfl⟩ | ⟨n, -, rfl⟩
        · cases ht
        · obtain rfl : fs = [] := he
          cases ht
          exact ⟨rfl, hstate⟩

/-- Behind a token an operand may follow or not, as the token says. -/
theorem TokenAt.state {y : Place} {t : Token} (h : TokenAt (outside operand p s) t y) :
    y.state = ⟨operandMayFollow t.kind t.text, []⟩ := by
  obtain ⟨c, r, n, rfl, ⟨-, -, -, hstate⟩ | ⟨hn, hr⟩⟩ := h.first
  · exact hstate
  · have hsound := sound_step (Place.sound_of_frames rfl) (step_of_openTemplate (p := p) hn)
    obtain ⟨hk, hstate⟩ := hr.template_of_inside hsound (List.cons_ne_nil _ _) h.behind
    rw [hstate, hk]
    rfl

/-- A token that is no template literal is one lexeme. -/
theorem TokenAt.head {y : Place} {t : Token} (h : TokenAt (outside operand p s) t y)
    (hk : t.kind ≠ .template) :
    ∃ c w, t.text = c :: w ∧ Head operand c (w ++ y.rest) (.token t.kind) w.length := by
  obtain ⟨c, r, n, rfl, ⟨hn, htext, hrest, -⟩ | ⟨hn, hr⟩⟩ := h.first
  · refine ⟨c, r.take n, htext, ?_⟩
    rwa [hrest, List.take_append_drop, List.length_take_of_le hn.length_le]
  · have hsound := sound_step (Place.sound_of_frames rfl) (step_of_openTemplate (p := p) hn)
    exact absurd (hr.template_of_inside hsound (List.cons_ne_nil _ _) h.behind).1 hk

/-- A token that takes all of a text stands at its beginning. -/
theorem tokenAt_of_reads {y : Place} {t : Token} (h : Reads (outside operand p s) [t] y)
    (hs : s = t.text ++ y.rest) (hy : y.state.frames = []) :
    TokenAt (outside operand p s) t y := by
  obtain ⟨z, z', hz, hstate, ht, hy'⟩ := h.next rfl
  obtain ⟨g, -, hg, -, hp⟩ := gaps_of_reads hz rfl ht.before
  obtain ⟨g', -, hg', hstate', hp'⟩ := gaps_of_reads hy' ht.behind hy
  have hlength := congrArg List.length (hs.symm.trans hg)
  rw [ht.text, hg'] at hlength
  simp only [List.length_append] at hlength
  obtain rfl : g = [] := List.length_eq_zero_iff.1 (by omega)
  obtain rfl : g' = [] := List.length_eq_zero_iff.1 (by omega)
  obtain ⟨zs, zp, zr⟩ := z
  obtain rfl : zr = s := hg.symm
  obtain rfl : zp = p := hp
  obtain rfl : zs = ⟨operand, []⟩ := hstate
  refine ⟨h, rfl, hy, ht.start, hs, ?_⟩
  rw [hp', ht.stop]
  rfl

theorem lexes_of_tokenAt {y : Place} {t : Token} (h : TokenAt (outside operand p s) t y) :
    Lexes operand t.kind t.text y.rest := by
  intro p'
  have hlike : Like (outside operand p s) (outside operand p' s) := ⟨rfl, .nil⟩
  obtain ⟨ts, y', hr, hsign, hy, hrest⟩ := h.reads.transport hlike h.text h.text
    (Lexeme.Alike.stable (.inl rfl))
  obtain ⟨t', rfl, ht'⟩ : ∃ t', ts = [t'] ∧ t'.sign = t.sign := by
    obtain ⟨t', ts, rfl, ht', hts⟩ := List.map_eq_cons_iff.1 hsign
    exact ⟨t', by rw [List.map_eq_nil_iff.1 hts], ht'⟩
  obtain ⟨hkind, htext⟩ := Prod.mk.inj ht'
  have hframes : y'.state.frames = [] := List.isEmpty_iff.1 (by
    rw [isEmpty_of_forall₂ hy.frames, h.behind]
    rfl)
  have hat := tokenAt_of_reads hr (by rw [htext, hrest]; exact h.text) hframes
  obtain rfl : t' = ⟨t.kind, t.text, p'⟩ := by
    have hstart := hat.start
    obtain ⟨kind, text, start⟩ := t'
    cases hkind
    cases htext
    cases hstart
    rfl
  obtain ⟨st, q, r⟩ := y'
  obtain rfl : r = y.rest := hrest
  obtain rfl : st = ⟨operandMayFollow t.kind t.text, []⟩ := hat.state
  obtain rfl : q = p'.after t.text := hat.stop
  obtain rfl : s = t.text ++ y.rest := h.text
  exact hr

namespace Lexes

variable {kind : TokenKind} {rest' : Text}

theorem tokenAt (h : Lexes operand kind text rest) (p : Position) :
    TokenAt (outside operand p (text ++ rest)) ⟨kind, text, p⟩
      (outside (operandMayFollow kind text) (p.after text) rest) :=
  ⟨h p, rfl, rfl, rfl, rfl, rfl⟩

theorem ne_nil (h : Lexes operand kind text rest) : text ≠ [] := (h.tokenAt .start).text_ne_nil

/-- A token in front of a text that changes nothing in front of it. -/
theorem stable (h : Lexes operand kind text rest) (hrest : Stable rest rest') :
    Lexes operand kind text rest' := by
  have hlike : Like (outside operand .start (text ++ rest)) (outside operand .start (text ++ rest')) :=
    ⟨rfl, .nil⟩
  obtain ⟨ts, y, hr, hsign, hy, hrest⟩ := (h .start).transport hlike rfl rfl hrest
  obtain ⟨t, rfl, ht⟩ : ∃ t, ts = [t] ∧ t.sign = (kind, text) := by
    obtain ⟨t, ts, rfl, ht, hts⟩ := List.map_eq_cons_iff.1 hsign
    exact ⟨t, by rw [List.map_eq_nil_iff.1 hts], ht⟩
  obtain ⟨hkind, htext⟩ := Prod.mk.inj ht
  have hframes : y.state.frames = [] := List.isEmpty_iff.1 (by
    rw [isEmpty_of_forall₂ hy.frames]
    rfl)
  have hat := tokenAt_of_reads hr (by rw [htext, hrest]) hframes
  have := lexes_of_tokenAt hat
  rwa [hkind, htext, hrest] at this

/-- What may follow a place matters only to a token that starts with a slash. -/
theorem of_operand (h : Lexes operand kind text rest) (htext : Text.headIs text '/' = false)
    (operand' : Bool) : Lexes operand' kind text rest := by
  intro p
  obtain ⟨c, r, n, hs, ⟨hn, rfl, rfl, -⟩ | ⟨hn, hr⟩⟩ := (h.tokenAt p).first
  · have hc : c ≠ '/' := by
      rintro rfl
      cases htext
    have hlength := List.length_take_of_le hn.length_le
    refine lexes_of_head (w := r.take n) ?_ p
    rw [List.take_append_drop, hlength]
    exact hn.of_operand (fun hs => absurd hs hc) operand'
  · have hc : c ≠ '/' := by
      cases hn with
      | opening hc => exact hc ▸ by decide
    rw [hs]
    exact .step (step_of_openTemplate (hn.of_operand (fun hs => absurd hs hc) operand')) hr

/-- A sealed token is one code point. -/
theorem text_of_isSealed (h : Lexes operand kind text rest) (hk : kind.isSealed) :
    ∃ c ∈ Lexeme.sealedMarks, text = [c] ∧ kind = Lexeme.punctuatorKind c := by
  obtain ⟨c, w, htext, hhead⟩ := (h.tokenAt .start).head (by rintro rfl; cases hk)
  obtain ⟨hc, hkind, hlength⟩ := hhead.of_isSealed hk
  obtain rfl : w = [] := List.length_eq_zero_iff.1 hlength
  exact ⟨c, hc, htext, hkind⟩

/-- A sealed token ends in a separator and stands in front of any text. -/
theorem of_isSealed (h : Lexes operand kind text rest) (hk : kind.isSealed) :
    (∃ d ∈ separators, text.getLast? = some d) ∧
      ∀ operand' rest', Lexes operand' kind text rest' := by
  obtain ⟨c, hc, rfl, rfl⟩ := h.text_of_isSealed hk
  refine ⟨⟨c, Lexeme.mem_separators_of_mem_sealedMarks c hc, rfl⟩, fun operand' rest' => ?_⟩
  exact lexes_of_head (w := []) (Lexeme.head_of_mem_sealedMarks hc operand' rest')

end Lexes

/-! ### Words -/

/-- A word that ends where no word goes on. -/
theorem lexes_word {c : CodePoint} {w : Text} (hc : Lexeme.startsWord c)
    (hw : ∀ d ∈ w, Lexeme.inWord d) (hrest : rest.head?.all fun d => !Lexeme.inWord d) :
    Lexes operand (Lexeme.wordKind (c :: w)) (c :: w) rest := by
  have htake : (w ++ rest).takeWhile Lexeme.inWord = w := by
    rw [List.takeWhile_append_of_pos hw]
    cases rest with
    | nil => simp
    | cons d rest => simp_all
  have : Head operand c (w ++ rest) _ _ := .word hc
  rw [htake] at this
  exact lexes_of_head this

/-- A punctuator in front of a text that continues no operator which it starts. -/
theorem lexes_mark {c : CodePoint} (hspace : Lexeme.isSpace c = false)
    (hword : Lexeme.startsWord c = false) (hnumber : Lexeme.startsNumber c rest = false)
    (hquote : c ≠ '\'' ∧ c ≠ '"' ∧ c ≠ '`') (hslash : c ≠ '/')
    (h : ∀ op ∈ Lexeme.operators, op.head? = some c → ∃ d ∈ op.tail.head?, rest.head? ≠ some d) :
    Lexes operand (Lexeme.punctuatorKind c) [c] rest := by
  have hhead : Head operand c rest _ _ :=
    .mark hspace hword hnumber hquote fun hc => absurd hc hslash
  rw [Lexeme.punctuator_of_forall h] at hhead
  exact lexes_of_head (w := []) hhead

/-- A dot in front of what is no other dot and no digit. -/
theorem lexes_dot {d : CodePoint} (hdot : d ≠ '.') (hdigit : d.isDigit = false) (rest : Text) :
    Lexes operand .dot "." (d :: rest) := by
  have hall : ∀ op ∈ Lexeme.operators, op.head? = some (CodePoint.ofChar '.') →
      op.tail.head? = some (CodePoint.ofChar '.') := by decide +kernel
  have hnumber : Lexeme.startsNumber '.' (d :: rest) = false := by
    have hown : (CodePoint.ofChar '.').isDigit = false := by decide
    simp [Lexeme.startsNumber, hdigit, hown]
  exact lexes_mark (by decide) (by decide +kernel) hnumber (by decide) (by decide) fun op hop hc =>
    ⟨_, hall op hop hc, by simpa using hdot⟩

/-- A word starts as one and goes on as far as it can. -/
theorem Lexes.word_cases {kind : TokenKind} (h : Lexes operand kind text rest)
    (hk : kind.isWordKind) :
    ∃ c w, text = c :: w ∧ Lexeme.startsWord c ∧ (∀ d ∈ w, Lexeme.inWord d) ∧
      kind = Lexeme.wordKind text ∧ rest.head?.all fun d => !Lexeme.inWord d := by
  obtain ⟨c, w, htext, hhead⟩ := (h.tokenAt .start).head (by rintro rfl; cases hk)
  obtain rfl : text = c :: w := htext
  obtain ⟨hc, hkind, hlength⟩ := hhead.of_isWordKind hk
  have htake : (w ++ rest).takeWhile Lexeme.inWord = w := by
    have hfront := List.takeWhile_prefix (l := w ++ rest) Lexeme.inWord
    rwa [List.prefix_iff_eq_take, ← hlength, List.take_left] at hfront
  have hall : ∀ d ∈ w, Lexeme.inWord d := fun d hd =>
    (List.all_eq_true.1 (w ++ rest).all_takeWhile) d (htake.symm ▸ hd)
  refine ⟨c, w, rfl, hc, hall, by rw [← htake]; exact hkind, ?_⟩
  rw [List.takeWhile_append_of_pos hall, List.append_right_eq_self] at htake
  cases rest with
  | nil => rfl
  | cons d rest =>
    cases hd : Lexeme.inWord d with
    | true => simp [hd] at htake
    | false => simp [hd]

/-- A token that starts as a word is a word. -/
theorem Lexes.isWordKind_of_startsWord {kind : TokenKind} {c : CodePoint} {w : Text}
    (h : Lexes operand kind (c :: w) rest) (hc : Lexeme.startsWord c) : kind.isWordKind := by
  obtain ⟨d, r, n, hs, ⟨hn, -⟩ | ⟨hn, -⟩⟩ := (h.tokenAt .start).first <;>
    obtain ⟨rfl, -⟩ := List.cons.inj hs
  · obtain rfl := Lexeme.token.inj (hn.of_startsWord hc)
    exact Lexeme.isWordKind_wordKind _
  · cases hn.of_startsWord hc

/-- What starts with a mark of operators is an operator. -/
theorem Lexes.operator_of_mark {kind : TokenKind} {w : Text} (h : Lexes operand kind (c :: w) rest)
    (hc : c ∈ Lexeme.operatorMarks) : kind = .operator := by
  obtain ⟨d, r, n, hs, ⟨hn, -⟩ | ⟨hn, -⟩⟩ := (h.tokenAt .start).first
  · obtain ⟨rfl, -⟩ := List.cons.inj hs
    exact hn.of_operatorMark hc
  · obtain ⟨rfl, -⟩ := List.cons.inj hs
    cases hn with
    | opening hback => exact absurd hc (hback ▸ by decide)

/-- Only dots and operators select members. -/
theorem Lexes.selectsMember_eq_false {t : Token} (h : Lexes operand t.kind t.text rest)
    (hdot : t.kind ≠ .dot) (hoperator : t.kind ≠ .operator) : t.selectsMember = false := by
  have htext : t.text ≠ "?." := by
    intro htext
    rw [htext] at h
    exact hoperator (h.operator_of_mark (c := '?') (by decide))
  simp [Token.selectsMember, hdot, htext]

/-- A token of a source is read where it stands. -/
theorem lexes_of_tokenize {source : Text} {ts : TokenStream} {t : Token}
    (h : tokenize source = .ok ts) (ht : t ∈ ts.tokens) :
    ∃ operand rest, Lexes operand t.kind t.text rest := by
  obtain ⟨operand, hr⟩ := tokenize_eq_ok_iff.1 h
  obtain ⟨before, after, hsplit⟩ := List.append_of_mem ht
  obtain ⟨⟨⟨operand', frames⟩, p, s⟩, y, -, hat, -⟩ := (hsplit ▸ hr).split rfl
  obtain rfl : frames = [] := hat.before
  exact ⟨_, _, lexes_of_tokenAt hat⟩

/-- The words of a source. -/
theorem word_of_tokenize {source : Text} {ts : TokenStream} {t : Token}
    (h : tokenize source = .ok ts) (ht : t ∈ ts.tokens) (hk : t.kind.isWordKind) :
    ∃ c w, t.text = c :: w ∧ Lexeme.startsWord c ∧ (∀ d ∈ w, Lexeme.inWord d) ∧
      t.kind = Lexeme.wordKind t.text := by
  obtain ⟨operand, rest, hlexes⟩ := lexes_of_tokenize h ht
  obtain ⟨c, w, htext, hc, hw, hkind, -⟩ := hlexes.word_cases hk
  exact ⟨c, w, htext, hc, hw, hkind⟩

theorem selectsMember_of_tokenize {source : Text} {ts : TokenStream} {t : Token}
    (h : tokenize source = .ok ts) (ht : t ∈ ts.tokens) (hdot : t.kind ≠ .dot)
    (hoperator : t.kind ≠ .operator) : t.selectsMember = false := by
  obtain ⟨operand, rest, hlexes⟩ := lexes_of_tokenize h ht
  exact hlexes.selectsMember_eq_false hdot hoperator

/-! ### Layouts -/

/-- The source that a list of items makes. -/
def textOf (items : List Item) : Text := items.flatMap Item.text

@[simp] theorem textOf_nil : textOf [] = [] := rfl

@[simp] theorem textOf_cons (i : Item) (items : List Item) :
    textOf (i :: items) = i.gap ++ (i.token.text ++ textOf items) :=
  List.append_assoc ..

@[simp] theorem textOf_append (items more : List Item) :
    textOf (items ++ more) = textOf items ++ textOf more :=
  List.flatMap_append

/-- In front of `rest` the lexer finds the items. -/
def Lays (operand : Bool) : List Item → Text → Prop
  | [], _ => True
  | i :: items, rest =>
    Gaps i.gap (i.token.text ++ (textOf items ++ rest)) ∧
      Lexes operand i.token.kind i.token.text (textOf items ++ rest) ∧
        Lays (operandMayFollow i.token.kind i.token.text) items rest

/-- The tokens of the items are those of a source from the position `p` on. -/
def Placed (p : Position) : List Item → Prop
  | [] => True
  | i :: items => i.token.start = p.after i.gap ∧ Placed (i.token.start.after i.token.text) items

/-- The tokens that the lexer finds when the items stand at the position `p`. -/
def tokensAt (p : Position) : List Item → List Token
  | [] => []
  | i :: items => ⟨i.token.kind, i.token.text, p.after i.gap⟩ :: tokensAt (p.after i.text) items

/-- Whether an operand may follow the tokens `ts`, when it may be so in front of them. -/
def operandBehind (operand : Bool) (ts : List Token) : Bool :=
  ts.foldl (fun _ t => operandMayFollow t.kind t.text) operand

/-- Only the last token tells what may follow. -/
theorem operandBehind_of_sign {ts : List Token} {signs : List (TokenKind × Text)} {kind : TokenKind}
    (h : ts.map Token.sign = signs ++ [(kind, text)]) :
    operandBehind operand ts = operandMayFollow kind text := by
  obtain ⟨us, vs, rfl, -, hvs⟩ := List.map_eq_append_iff.1 h
  obtain ⟨t, vs, rfl, ht, hnil⟩ := List.map_eq_cons_iff.1 hvs
  obtain rfl := List.map_eq_nil_iff.1 hnil
  obtain ⟨rfl, rfl⟩ := Prod.mk.inj ht
  exact List.foldl_concat ..

/-- Behind a reading an operand may follow or not, as its last token says. -/
theorem operand_of_reads {y : Place} {ts : List Token} (h : Reads (outside operand p s) ts y)
    (hy : y.state.frames = []) : y.state = ⟨operandBehind operand ts, []⟩ := by
  induction ts generalizing operand p s with
  | nil =>
    obtain ⟨-, -, -, hstate, -⟩ := gaps_of_reads h rfl hy
    exact hstate
  | cons t ts ih =>
    obtain ⟨⟨zs, zp, zr⟩, ⟨st, q, r⟩, -, hstate, ht, hy'⟩ := h.next rfl
    obtain rfl : zs = ⟨operand, []⟩ := hstate
    obtain rfl : st = ⟨operandMayFollow t.kind t.text, []⟩ := ht.state
    exact ih hy'

theorem map_sign_tokensAt (p : Position) (items : List Item) :
    (tokensAt p items).map Token.sign = items.map (·.token.sign) := by
  induction items generalizing p with
  | nil => rfl
  | cons i items ih => exact congrArg (_ :: ·) (ih _)

/-- A reading finds a layout. -/
theorem exists_lays_of_reads {y : Place} {ts : List Token} (h : Reads (outside operand p s) ts y)
    (hy : y.state.frames = []) :
    ∃ items g, items.map Item.token = ts ∧ s = textOf items ++ (g ++ y.rest) ∧
      Lays operand items (g ++ y.rest) ∧ Placed p items ∧ Gaps g y.rest := by
  induction ts generalizing operand p s with
  | nil =>
    obtain ⟨g, hg, hs, -, -⟩ := gaps_of_reads h rfl hy
    exact ⟨[], g, rfl, hs, trivial, trivial, hg⟩
  | cons t ts ih =>
    obtain ⟨⟨zs, zp, zr⟩, z', hz, hstate, ht, hy'⟩ := h.next rfl
    obtain rfl : zs = ⟨operand, []⟩ := hstate
    obtain ⟨g, hg, hs, -, hp⟩ := gaps_of_reads hz rfl rfl
    obtain ⟨st, q, r⟩ := z'
    obtain rfl : st = ⟨operandMayFollow t.kind t.text, []⟩ := ht.state
    obtain ⟨items, final, hmap, hr, hlays, hplaced, hfinal⟩ := ih hy'
    have htext := ht.text
    simp only at htext hs hp hr
    have hlexes := lexes_of_tokenAt ht
    simp only [hr] at htext hlexes
    refine ⟨⟨g, t⟩ :: items, final, congrArg (t :: ·) hmap, ?_, ⟨?_, ?_, hlays⟩, ⟨?_, ?_⟩, hfinal⟩
    · rw [hs, htext, textOf_cons]
      simp only [List.append_assoc]
    · exact htext ▸ hg
    · exact hlexes
    · exact ht.start.symm.trans hp
    · exact ht.stop ▸ hplaced

/-- A layout is read. -/
theorem Lays.reads {items : List Item} (h : Lays operand items rest) (p : Position) :
    Reads (outside operand p (textOf items ++ rest)) (tokensAt p items)
      (outside (operandBehind operand (items.map Item.token)) (p.after (textOf items)) rest) := by
  induction items generalizing operand p with
  | nil => exact .refl _
  | cons i items ih =>
    obtain ⟨hgap, hlexes, hlays⟩ := h
    have hrest := ih hlays (p.after i.text)
    have htoken := hlexes (p.after i.gap)
    have hgaps := hgap.reads operand p
    rw [← Position.after_append] at htoken
    have := hgaps.trans (htoken.trans hrest)
    rw [textOf_cons, List.append_assoc, List.append_assoc]
    rw [← Position.after_append, Item.text, List.append_assoc] at this
    exact this

/-- A layout in front of a text that changes nothing in front of it. -/
theorem Lays.stable {items : List Item} {rest' : Text} (h : Lays operand items rest)
    (hrest : Stable rest rest') : Lays operand items rest' := by
  induction items generalizing operand with
  | nil => trivial
  | cons i items ih =>
    obtain ⟨hgap, hlexes, hlays⟩ := h
    have hitems : Stable (textOf items ++ rest) (textOf items ++ rest') := hrest.append _
    exact ⟨hgap.stable (hitems.append i.token.text), hlexes.stable hitems, ih hlays⟩

/-- Tokens stand where their places say. -/
theorem tokensAt_of_placed {items : List Item} (h : Placed p items) :
    tokensAt p items = items.map Item.token := by
  induction items generalizing p with
  | nil => rfl
  | cons i items ih =>
    obtain ⟨hstart, hplaced⟩ := h
    rw [hstart, ← Position.after_append] at hplaced
    rw [tokensAt, List.map_cons, Item.text, ih hplaced, ← hstart]

theorem lays_append_iff {items more : List Item} :
    Lays operand (items ++ more) rest ↔ Lays operand items (textOf more ++ rest) ∧
      Lays (operandBehind operand (items.map Item.token)) more rest := by
  induction items generalizing operand with
  | nil => simp [Lays, operandBehind]
  | cons i items ih =>
    rw [List.cons_append, Lays, Lays, ih, textOf_append, List.append_assoc, and_assoc, and_assoc]
    rfl

theorem placed_append {p : Position} {items more : List Item} (h : Placed p (items ++ more)) :
    Placed (p.after (textOf items)) more := by
  induction items generalizing p with
  | nil => exact h
  | cons i items ih =>
    rw [textOf_cons, Position.after_append, Position.after_append, ← h.1]
    exact ih h.2

/-- One more item behind those that are placed. -/
theorem placed_concat {p : Position} {items : List Item} {i : Item} (h : Placed p items)
    (hi : i.token.start = (p.after (textOf items)).after i.gap) : Placed p (items ++ [i]) := by
  induction items generalizing p with
  | nil => exact ⟨hi, trivial⟩
  | cons j items ih =>
    refine ⟨h.1, ih h.2 ?_⟩
    rw [hi, textOf_cons, Position.after_append, Position.after_append, h.1]

theorem stop_getLast {p : Position} {items more : List Item} (h : Placed p (items ++ more))
    (hne : items ≠ []) :
    (items.getLast hne).token.stop = p.offset + (textOf items).length := by
  induction items generalizing p with
  | nil => exact absurd rfl hne
  | cons i items ih =>
    have hstart : i.token.stop = p.offset + i.gap.length + i.token.text.length := by
      rw [Token.stop, h.1, Position.offset_after]
    by_cases hnil : items = []
    · subst hnil
      simp only [List.getLast_singleton, textOf_cons, textOf_nil, List.append_nil, List.length_append,
        hstart]
      omega
    · rw [List.getLast_cons hnil, ih h.2 hnil, Position.offset_after, textOf_cons, List.length_append,
        List.length_append]
      simp only [Token.stop] at hstart
      omega

end Lexer

end ScriptBundle
