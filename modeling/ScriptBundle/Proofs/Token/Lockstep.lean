import Mathlib.Data.List.Forall2
import ScriptBundle.Proofs.Token.Lookahead
import ScriptBundle.Proofs.Token.Reads

/-!
# Two readings in lockstep

Two sources that differ are read side by side here. A relation between pieces, `Pieces`, says what may
differ: which piece of the one source, at its place, stands for which piece of the other. As long as
the lexer finds the same kinds of lexemes in both, the pieces in the open template literals grow
together, and the tokens are such pieces.

* `Position.Abreast`: positions that differ in their offsets only;
* `Pieces`, `TokenPair`: corresponding pieces, and tokens that are;
* `Lockstep`: two places with the same operand to follow and corresponding template literals open;
* `Lockstep.step`, `Lockstep.step_error`: one step from such places;
* `Steady`, `Reads.lockstep`, `run_lockstep`: a reading, and a run, of the same text elsewhere.
-/

namespace ScriptBundle

/-- Two positions on one line and column, at whatever offsets. -/
structure Position.Abreast (p p' : Position) : Prop where
  line : p'.line = p.line
  column : p'.column = p.column

namespace Position.Abreast

variable {p p' : Position}

theorem next (h : p.Abreast p') (c : CodePoint) : (p.next c).Abreast (p'.next c) := by
  unfold Position.next
  split
  · exact ⟨congrArg (· + 1) h.line, rfl⟩
  · exact ⟨h.line, congrArg (· + 1) h.column⟩

theorem after (h : p.Abreast p') (s : Text) : (p.after s).Abreast (p'.after s) := by
  induction s generalizing p p' with
  | nil => exact h
  | cons c s ih => exact ih (h.next c)

/-- What follows a line feed starts at the beginning of a line. -/
theorem lineFeed (h : p'.line = p.line) : (p.next '\n').Abreast (p'.next '\n') := by
  rw [Position.next, Position.next, if_pos rfl, if_pos rfl]
  exact ⟨congrArg (· + 1) h, rfl⟩

end Position.Abreast

namespace Lexer

/-- Which pieces of two sources correspond, each given by its position and its text. -/
abbrev Pieces := Position → Text → Position → Text → Prop

/-- Two tokens of one kind that are corresponding pieces. -/
structure TokenPair (K : Pieces) (t t' : Token) : Prop where
  kind : t'.kind = t.kind
  piece : K t.start t.text t'.start t'.text

/-- The open template literals `f` at `x` and `f'` at `x'` have been read up to there with corresponding
pieces, and with the same number of open braces. -/
structure FramePair (K : Pieces) (x x' : Place) (f f' : Frame) : Prop where
  depth : f'.depth = f.depth
  piece : ∃ text text', K f.start text f'.start text' ∧
    f.source = text ++ x.rest ∧ x.position = f.start.after text ∧
    f'.source = text' ++ x'.rest ∧ x'.position = f'.start.after text'

/-- Two places with the same operand to follow and corresponding template literals open. -/
structure Lockstep (K : Pieces) (x x' : Place) : Prop where
  operand : x'.state.operand = x.state.operand
  frames : List.Forall₂ (FramePair K x x') x.state.frames x'.state.frames

/-- The place `y` stands in the source of `x`, behind the text `w`. -/
structure Behind (x : Place) (w : Text) (y : Place) : Prop where
  rest : x.rest = w ++ y.rest
  position : y.position = x.position.after w

/-- Pieces that correspond up to `x` and `x'` still do so with the texts `w` and `w'` behind them. -/
def Grows (K L : Pieces) (x x' : Place) (w w' : Text) : Prop :=
  ∀ ⦃q t q' t'⦄, K q t q' t' → x.position = q.after t → x'.position = q'.after t' →
    L q (t ++ w) q' (t' ++ w')

/-- What stands at the head of `c :: s`, and goes on for `n`, stands at the head of `c :: s'` as well, and
goes on there for `n'`. -/
structure Matches (operand : Bool) (c : CodePoint) (s : Text) (n : Nat) (s' : Text) (n' : Nat) :
    Prop where
  head : ∀ {lexeme}, Lexeme.Head operand c s lexeme n → Lexeme.Head operand c s' lexeme n'
  chunk : ∀ {e}, Lexeme.chunkLength? s = some (e, n) → Lexeme.chunkLength? s' = some (e, n')
  operand : ∀ {kind}, Lexeme.Head operand c s (.token kind) n →
    Lexeme.operandMayFollow kind (c :: s'.take n') = Lexeme.operandMayFollow kind (c :: s.take n)

variable {K L : Pieces} {x x' y y' : Place} {st st' : State} {p p' : Position} {c : CodePoint}
  {s s' w w' : Text} {r : Step} {n : Nat}

theorem Step.behind (r : Step) (st : State) (p : Position) (c : CodePoint) (s : Text) :
    Behind ⟨st, p, c :: s⟩ (c :: s.take r.length) (r.place p c s) :=
  ⟨congrArg (c :: ·) (List.take_append_drop r.length s).symm, rfl⟩

/-! ### Open template literals -/

theorem FramePair.moveOn {f f' : Frame} (h : FramePair K x x' f f') (hy : Behind x w y)
    (hy' : Behind x' w' y') (hgrow : Grows K L x x' w w') : FramePair L y y' f f' := by
  obtain ⟨text, text', hK, hsource, hp, hsource', hp'⟩ := h.piece
  refine ⟨h.depth, text ++ w, text' ++ w', hgrow hK hp hp', ?_, ?_, ?_, ?_⟩
  · rw [hsource, hy.rest, List.append_assoc]
  · rw [hy.position, hp, Position.after_append]
  · rw [hsource', hy'.rest, List.append_assoc]
  · rw [hy'.position, hp', Position.after_append]

theorem FramePair.setDepth {f f' : Frame} (h : FramePair K x x' f f') (n : Nat) :
    FramePair K x x' { f with depth := n } { f' with depth := n } :=
  ⟨rfl, h.piece⟩

theorem forall₂_braced (kind : TokenKind) {fs fs' : List Frame}
    (h : List.Forall₂ (FramePair K x x') fs fs') :
    List.Forall₂ (FramePair K x x') (braced kind fs) (braced kind fs') := by
  cases h with
  | nil => exact .nil
  | @cons f f' fs fs' hf hfs =>
    unfold braced
    cases kind
    case leftBrace => exact .cons (hf.depth ▸ hf.setDepth _) hfs
    case rightBrace => exact .cons (hf.depth ▸ hf.setDepth _) hfs
    all_goals exact .cons hf hfs

theorem isEmpty_of_forall₂ {R : Frame → Frame → Prop} {fs fs' : List Frame}
    (h : List.Forall₂ R fs fs') : fs'.isEmpty = fs.isEmpty := by
  cases h <;> rfl

/-- Both lexers pass over something: only the pieces in the open literals grow. -/
theorem Lockstep.gap (hl : Lockstep K x x') (hy : Behind x w y) (hy' : Behind x' w' y')
    (hstate : y.state = x.state) (hstate' : y'.state = x'.state) (hgrow : Grows K L x x' w w') :
    Lockstep L y y' := by
  refine ⟨by rw [hstate, hstate', hl.operand], ?_⟩
  rw [hstate, hstate']
  exact hl.frames.imp fun f f' hf => hf.moveOn hy hy' hgrow

/-! ### One step -/

theorem forall₂_keep (hframes : st'.frames.isEmpty = st.frames.isEmpty) {t t' : Token}
    (h : TokenPair K t t') :
    List.Forall₂ (TokenPair K) (st.keep t).toList (st'.keep t').toList := by
  unfold State.keep
  rw [hframes]
  split
  · exact .cons h .nil
  · exact .nil

/-- What both lexers do when the second finds the lexeme that the first finds. -/
theorem Lockstep.readLexeme (hl : Lockstep K ⟨st, p, c :: s⟩ ⟨st', p', c :: s'⟩)
    (h : readLexeme st p c s = .ok r) (hhere : K p [] p' [])
    (hgrow : Grows K K ⟨st, p, c :: s⟩ ⟨st', p', c :: s'⟩ (c :: s.take r.length) (c :: s'.take n))
    (hmatch : Matches st.operand c s r.length s' n) :
    ∃ r', Lexer.readLexeme st' p' c s' = .ok r' ∧ r'.length = n ∧
      Lockstep K (r.place p c s) (r'.place p' c s') ∧
      List.Forall₂ (TokenPair K) r.token?.toList r'.token?.toList := by
  have hread : ∀ {lexeme}, Lexeme.read st.operand c s = .ok (lexeme, r.length) →
      Lexeme.read st'.operand c s' = .ok (lexeme, n) := by
    intro lexeme hr
    rw [show st'.operand = st.operand from hl.operand]
    exact Lexeme.read_eq_ok_iff.2 (hmatch.head (Lexeme.read_eq_ok_iff.1 hr))
  have hframes : ∀ {r' : Step}, r'.length = n →
      List.Forall₂ (FramePair K (r.place p c s) (r'.place p' c s')) st.frames st'.frames := by
    rintro r' rfl
    exact hl.frames.imp fun f f' hf =>
      hf.moveOn (r.behind st p c s) (r'.behind st' p' c s') hgrow
  -- The piece of this step alone.
  have hpiece : K p (c :: s.take r.length) p' (c :: s'.take n) := hgrow hhere rfl rfl
  rcases readLexeme_cases h with ⟨m, hr, rfl⟩ | ⟨m, hr, rfl⟩ | ⟨kind, m, hr, rfl⟩
  · exact ⟨⟨n, st', none⟩, by rw [Lexer.readLexeme, hread hr], rfl, ⟨hl.operand, hframes rfl⟩, .nil⟩
  · refine ⟨⟨n, ⟨true, ⟨p', c :: s', 0⟩ :: st'.frames⟩, none⟩, by rw [Lexer.readLexeme, hread hr],
      rfl, ⟨rfl, .cons ⟨rfl, _, _, hpiece, ?_, rfl, ?_, rfl⟩ (hframes rfl)⟩, .nil⟩
    · exact congrArg (c :: ·) (List.take_append_drop m s).symm
    · exact congrArg (c :: ·) (List.take_append_drop n s').symm
  · refine ⟨⟨n, st'.afterToken kind (c :: s'.take n), st'.keep ⟨kind, c :: s'.take n, p'⟩⟩,
      by rw [Lexer.readLexeme, hread hr], rfl, ⟨?_, forall₂_braced kind (hframes rfl)⟩,
      forall₂_keep (isEmpty_of_forall₂ hl.frames) ⟨rfl, hpiece⟩⟩
    exact hmatch.operand (Lexeme.read_eq_ok_iff.1 hr)

/-- What both lexers do behind the brace that closes a substitution. -/
theorem Lockstep.resume {f f' : Frame} {fs fs' : List Frame}
    (hl : Lockstep K ⟨st, p, c :: s⟩ ⟨st', p', c :: s'⟩) (hf : st.frames = f :: fs)
    (hf' : st'.frames = f' :: fs') (h : resume f fs p s = .ok r)
    (hgrow : Grows K K ⟨st, p, c :: s⟩ ⟨st', p', c :: s'⟩ (c :: s.take r.length) (c :: s'.take n))
    (hchunk : ∀ {e}, Lexeme.chunkLength? s = some (e, r.length) →
      Lexeme.chunkLength? s' = some (e, n)) :
    ∃ r', Lexer.resume f' fs' p' s' = .ok r' ∧ r'.length = n ∧
      Lockstep K (r.place p c s) (r'.place p' c s') ∧
      List.Forall₂ (TokenPair K) r.token?.toList r'.token?.toList := by
  have hframes := hl.frames
  simp only [hf, hf'] at hframes
  obtain ⟨hpair, hrest⟩ := List.forall₂_cons.1 hframes
  have hmove : ∀ {r' : Step}, r'.length = n → ∀ {g g' : Frame},
      FramePair K ⟨st, p, c :: s⟩ ⟨st', p', c :: s'⟩ g g' →
      FramePair K (r.place p c s) (r'.place p' c s') g g' := by
    rintro r' rfl g g' hg
    exact hg.moveOn (r.behind st p c s) (r'.behind st' p' c s') hgrow
  have hrest' : ∀ {r' : Step}, r'.length = n →
      List.Forall₂ (FramePair K (r.place p c s) (r'.place p' c s')) fs fs' :=
    fun hlength => hrest.imp fun g g' hg => hmove hlength hg
  rcases resume_cases h with ⟨m, hm, rfl⟩ | ⟨m, hm, rfl⟩
  · exact ⟨⟨n, ⟨true, f' :: fs'⟩, none⟩, by rw [Lexer.resume, hchunk hm], rfl,
      ⟨rfl, .cons (hmove rfl hpair) (hrest' rfl)⟩, .nil⟩
  · obtain ⟨text, text', hK, hsource, hp, hsource', hp'⟩ := hpair.piece
    -- The text of the whole literal is what was read before and this chunk, in both sources.
    have htext : ∀ {source text s : Text} {start p : Position} {n : Nat},
        source = text ++ c :: s → p = start.after text →
        source.take (p.offset + 1 + n - start.offset) = text ++ c :: s.take n := by
      rintro source text s start p n rfl rfl
      rw [Position.offset_after, show start.offset + text.length + 1 + n - start.offset =
        text.length + (n + 1) by omega, List.take_length_add_append, List.take_succ_cons]
    refine ⟨⟨n, ⟨false, fs'⟩, State.keep ⟨false, fs'⟩
        ⟨.template, f'.source.take (p'.offset + 1 + n - f'.start.offset), f'.start⟩⟩,
      by rw [Lexer.resume, hchunk hm], rfl, ⟨rfl, hrest' rfl⟩,
      forall₂_keep (isEmpty_of_forall₂ hrest) ⟨rfl, ?_⟩⟩
    change K f.start (f.source.take (p.offset + 1 + m - f.start.offset)) f'.start
      (f'.source.take (p'.offset + 1 + n - f'.start.offset))
    rw [htext hsource hp, htext hsource' hp']
    exact hgrow hK hp hp'

/-- Outside of a substitution, or in front of anything but its closing brace, a lexeme is read. -/
theorem Lockstep.step (hl : Lockstep K ⟨st, p, c :: s⟩ ⟨st', p', c :: s'⟩)
    (h : step st p c s = .ok r) (hhere : K p [] p' [])
    (hgrow : Grows K K ⟨st, p, c :: s⟩ ⟨st', p', c :: s'⟩ (c :: s.take r.length) (c :: s'.take n))
    (hmatch : Matches st.operand c s r.length s' n) :
    ∃ r', Lexer.step st' p' c s' = .ok r' ∧ r'.length = n ∧
      Lockstep K (r.place p c s) (r'.place p' c s') ∧
      List.Forall₂ (TokenPair K) r.token?.toList r'.token?.toList := by
  unfold Lexer.step at h ⊢
  cases hf : st.frames with
  | nil =>
    have hf' : st'.frames = [] := List.isEmpty_iff.1 (by
      rw [isEmpty_of_forall₂ hl.frames]
      exact List.isEmpty_iff.2 hf)
    simp only [hf, hf'] at h ⊢
    exact hl.readLexeme h hhere hgrow hmatch
  | cons f fs =>
    have hframes := hl.frames
    simp only [hf] at hframes
    obtain ⟨f', fs', hpair, -, hf'⟩ := List.forall₂_cons_left_iff.1 hframes
    simp only [hf, hf', hpair.depth] at h ⊢
    split at h
    · next hc =>
      rw [if_pos hc]
      exact hl.resume hf hf' h hgrow hmatch.chunk
    · next hc =>
      rw [if_neg hc]
      exact hl.readLexeme h hhere hgrow hmatch

/-- Two faults with one cause, at corresponding positions. -/
structure FaultPair (K : Pieces) (f f' : LexicalFault) : Prop where
  cause : f'.cause = f.cause
  position : ∃ t t', K f.position t f'.position t'

/-- Where the first lexer finds something unterminated, so does the second, if that is how it is with
lexemes and chunks. -/
theorem Lockstep.step_error {e : LexicalFault} (hl : Lockstep K ⟨st, p, c :: s⟩ ⟨st', p', c :: s'⟩)
    (h : Lexer.step st p c s = .error e) (hhere : K p [] p' [])
    (hread : ∀ cause, Lexeme.read st.operand c s = .error cause →
      Lexeme.read st.operand c s' = .error cause)
    (hchunk : Lexeme.chunkLength? s = none → Lexeme.chunkLength? s' = none) :
    ∃ e', Lexer.step st' p' c s' = .error e' ∧ FaultPair K e e' := by
  have hlexeme : Lexer.readLexeme st p c s = .error e →
      ∃ e', Lexer.readLexeme st' p' c s' = .error e' ∧ FaultPair K e e' := by
    intro h
    unfold Lexer.readLexeme at h
    split at h
    · next cause hcause =>
      cases h
      refine ⟨⟨cause, p'⟩, ?_, rfl, _, _, hhere⟩
      rw [Lexer.readLexeme, show st'.operand = st.operand from hl.operand, hread _ hcause]
    all_goals cases h
  unfold Lexer.step at h ⊢
  cases hf : st.frames with
  | nil =>
    have hf' : st'.frames = [] := List.isEmpty_iff.1 (by
      rw [isEmpty_of_forall₂ hl.frames]
      exact List.isEmpty_iff.2 hf)
    simp only [hf, hf'] at h ⊢
    exact hlexeme h
  | cons f fs =>
    have hframes := hl.frames
    simp only [hf] at hframes
    obtain ⟨f', fs', hpair, -, hf'⟩ := List.forall₂_cons_left_iff.1 hframes
    simp only [hf, hf', hpair.depth] at h ⊢
    split at h
    · next hc =>
      rw [if_pos hc]
      unfold Lexer.resume at h ⊢
      split at h
      · next hnone =>
        cases h
        obtain ⟨text, text', hK, -⟩ := hpair.piece
        rw [hchunk hnone]
        exact ⟨_, rfl, rfl, text, text', hK⟩
      all_goals cases h
    · next hc =>
      rw [if_neg hc]
      exact hlexeme h

/-- A step ends inside the source. -/
theorem length_le_of_step (h : step st p c s = .ok r) : r.length ≤ s.length := by
  rcases step_cases h with h | ⟨f, fs, -, -, -, h⟩
  · rcases readLexeme_cases h with ⟨n, hr, rfl⟩ | ⟨n, hr, rfl⟩ | ⟨kind, n, hr, rfl⟩ <;>
      exact (Lexeme.read_eq_ok_iff.1 hr).length_le
  · rcases resume_cases h with ⟨n, hn, rfl⟩ | ⟨n, hn, rfl⟩ <;> exact Lexeme.chunkLength?_le hn

/-! ### The same text -/

/-- From `p` and `p'` on, pieces that correspond still do so with any text behind both. -/
structure Steady (K : Pieces) (p p' : Position) : Prop where
  here : ∀ v, K (p.after v) [] (p'.after v) []
  grow : ∀ {v w q t q' t'}, K q t q' t' → p.after v = q.after t → p'.after v = q'.after t' →
    K q (t ++ w) q' (t' ++ w)

theorem Steady.after (h : Steady K p p') (u : Text) : Steady K (p.after u) (p'.after u) := by
  refine ⟨fun v => ?_, fun {v w q t q' t'} hpiece hp hp' => ?_⟩
  · rw [← Position.after_append, ← Position.after_append]
    exact h.here _
  · rw [← Position.after_append] at hp hp'
    exact h.grow hpiece hp hp'

theorem Steady.grows (h : Steady K x.position x'.position) (w : Text) : Grows K K x x' w w :=
  fun _ _ _ _ hK hp hp' => h.grow (v := []) hK hp hp'

/-- One step in front of another text. -/
theorem Lockstep.step_of_take (hl : Lockstep K ⟨st, p, c :: s⟩ ⟨st', p', c :: s'⟩)
    (hK : Steady K p p') (h : Lexer.step st p c s = .ok r) (htake : s'.take r.length = s.take r.length)
    (hhead : ∀ {lexeme}, Lexeme.Head st.operand c s lexeme r.length →
      Lexeme.Head st.operand c s' lexeme r.length)
    (hchunk : ∀ {e}, Lexeme.chunkLength? s = some (e, r.length) →
      Lexeme.chunkLength? s' = some (e, r.length)) :
    ∃ r', Lexer.step st' p' c s' = .ok r' ∧ r'.length = r.length ∧
      Lockstep K (r.place p c s) (r'.place p' c s') ∧
      List.Forall₂ (TokenPair K) r.token?.toList r'.token?.toList :=
  hl.step h (hK.here []) (htake ▸ hK.grows _) ⟨hhead, hchunk, fun _ => by rw [htake]⟩

/-- A reading in front of a text that changes nothing in front of it. -/
theorem Reads.lockstep {ts : List Token} {text rest : Text} (h : Reads x ts y) (hl : Lockstep K x x')
    (hK : Steady K x.position x'.position) (htext : x.rest = text ++ y.rest)
    (htext' : x'.rest = text ++ rest) (hrest : Lexeme.Stable y.rest rest) :
    ∃ ts' y', Reads x' ts' y' ∧ List.Forall₂ (TokenPair K) ts ts' ∧ Lockstep K y y' ∧
      y'.rest = rest := by
  induction h generalizing x' text with
  | refl x =>
    obtain rfl : text = [] := by simpa using htext
    exact ⟨[], x', .refl x', .nil, hl, htext'⟩
  | @step st p c s r ts y hs hr ih =>
    obtain ⟨st', p', s'⟩ := x'
    obtain ⟨more, hmore, -⟩ := hr.exists_text
    replace hmore : s.drop r.length = more ++ y.rest := hmore
    have hwhole : s = (s.take r.length ++ more) ++ y.rest := by
      rw [List.append_assoc, ← hmore, List.take_append_drop]
    obtain rfl : text = c :: (s.take r.length ++ more) := by
      have : text ++ y.rest = (c :: (s.take r.length ++ more)) ++ y.rest :=
        htext.symm.trans (congrArg (c :: ·) hwhole)
      exact List.append_cancel_right this
    obtain rfl : s' = c :: ((s.take r.length ++ more) ++ rest) := htext'
    have hle : r.length ≤ (s.take r.length ++ more).length := by
      rw [List.length_append, List.length_take_of_le (length_le_of_step hs)]
      exact Nat.le_add_right _ _
    have hdrop : ((s.take r.length ++ more) ++ rest).drop r.length = more ++ rest := by
      rw [List.append_assoc, List.drop_left' (List.length_take_of_le (length_le_of_step hs))]
    generalize s.take r.length ++ more = u at hwhole hle hdrop hl htext
    have htake : (u ++ rest).take r.length = s.take r.length := by
      rw [hwhole, List.take_append_of_le_length hle, List.take_append_of_le_length hle]
    have hhead : ∀ {lexeme}, Lexeme.Head st.operand c s lexeme r.length →
        Lexeme.Head st.operand c (u ++ rest) lexeme r.length := by
      intro lexeme h
      rw [hwhole] at h
      exact hrest h hle
    have hchunk : ∀ {e}, Lexeme.chunkLength? s = some (e, r.length) →
        Lexeme.chunkLength? (u ++ rest) = some (e, r.length) := by
      intro e h
      rw [hwhole] at h
      have := Lexeme.chunkLength?_take h (u.drop r.length ++ rest)
      rwa [List.take_append_of_le_length hle, ← List.append_assoc, List.take_append_drop] at this
    obtain ⟨r', hr', hlength, hlike, htoken⟩ := hl.step_of_take hK hs htake hhead hchunk
    have hsteady : Steady K (r.place p c s).position (r'.place p' c (u ++ rest)).position := by
      show Steady K _ (p'.after (c :: (u ++ rest).take r'.length))
      rw [hlength, htake]
      exact hK.after _
    obtain ⟨ts', y', hreads, htokens, hlike', hy⟩ := ih hlike hsteady hmore
      (show (u ++ rest).drop r'.length = more ++ rest from hlength ▸ hdrop) hrest
    exact ⟨_, y', .step hr' hreads, List.rel_append htoken htokens, hlike', hy⟩

/-- Two token streams that correspond, up to the ends of the sources. -/
structure StreamPair (K : Pieces) (ts ts' : TokenStream) : Prop where
  tokens : List.Forall₂ (TokenPair K) ts.tokens ts'.tokens
  finish : K ts.finish [] ts'.finish []

/-- Two results that correspond: the tokens do, or the faults. -/
abbrev Outcome (K : Pieces) :
    Except LexicalFault TokenStream → Except LexicalFault TokenStream → Prop :=
  Except.Rel (FaultPair K) (StreamPair K)

theorem Outcome.cons {a b : Except LexicalFault TokenStream} {ts ts' : List Token}
    (h : Outcome K a b) (hts : List.Forall₂ (TokenPair K) ts ts') :
    Outcome K (a.map fun us => { us with tokens := ts ++ us.tokens })
      (b.map fun us => { us with tokens := ts' ++ us.tokens }) :=
  h.map fun _ _ hus => ⟨List.rel_append hts hus.tokens, hus.finish⟩

/-- Two runs of one text correspond when they start in lockstep. -/
theorem run_lockstep (hl : Lockstep K ⟨st, p, s⟩ ⟨st', p', s⟩) (hK : Steady K p p') :
    Outcome K (run st p s) (run st' p' s) := by
  fun_induction run st p s generalizing st' p' with
  | case1 st p hf =>
    have hf' : st'.frames = [] := List.isEmpty_iff.1 (by
      rw [isEmpty_of_forall₂ hl.frames]
      exact List.isEmpty_iff.2 hf)
    rw [run, hf']
    exact .ok ⟨.nil, hK.here []⟩
  | case2 st p f fs hf =>
    have hframes := hl.frames
    simp only [hf] at hframes
    obtain ⟨f', fs', hpair, -, hf'⟩ := List.forall₂_cons_left_iff.1 hframes
    obtain ⟨text, text', hpiece, -⟩ := hpair.piece
    rw [run, show st'.frames = f' :: fs' from hf']
    exact .error ⟨rfl, text, text', hpiece⟩
  | case3 st p c s e hs =>
    obtain ⟨e', he', hpair⟩ := hl.step_error hs (hK.here []) (fun _ => id) id
    rw [run, he']
    exact .error hpair
  | case4 st p c s r hs ih =>
    obtain ⟨r', hr', hlength, hlike, htoken⟩ := hl.step_of_take hK hs rfl id id
    rw [run, hr']
    simp only [hlength]
    have hplace : r'.place p' c s = ⟨r'.state, p'.after (c :: s.take r.length), s.drop r.length⟩ := by
      rw [Step.place, hlength]
    exact (ih (hplace ▸ hlike) (hK.after _)).cons htoken

end Lexer

end ScriptBundle
