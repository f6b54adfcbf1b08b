import ScriptBundle.Proofs.Token.Fragment

/-!
# Template literals with substitutions

A substitution of a template literal may hold any text that has tokens of its own and closes no brace
that it did not open. What the lexer reads there it reads as it would anywhere else, only that the
braces are counted and the tokens are not kept. So a template literal is one token, whatever its
substitutions hold.

* `bracesBehind`, `Embedded`: the texts that a substitution may hold;
* `IsTemplate`: template literals, with substitutions nested to any depth;
* `Reads.within`: a reading inside a substitution;
* `reads_template`: the reading of a template literal;
* `tokenize_of_isTemplate`: it is one token, and the lexer goes on behind it as behind any operand.
-/

namespace ScriptBundle

namespace Lexer

open Lexeme (Head operandMayFollow)

/-- The number of braces that are open behind the tokens if `depth` are open in front of them, or
`none` if a brace is closed that is not open. -/
def bracesBehind : Nat → List Token → Option Nat
  | depth, [] => some depth
  | depth, t :: ts =>
    match t.kind, depth with
    | .leftBrace, depth => bracesBehind (depth + 1) ts
    | .rightBrace, 0 => none
    | .rightBrace, depth + 1 => bracesBehind depth ts
    | _, depth => bracesBehind depth ts

/-- What a substitution may hold: a text with tokens of its own, whose braces are balanced. -/
structure Embedded (e : Text) : Prop where
  tokens : ∃ ts, tokenize e = .ok ts ∧ bracesBehind 0 ts.tokens = some 0
  hashbang : (Text.ofString "#!").isPrefixOf e = false

/-- What follows the opening backquote of a template literal: code points, escapes, and substitutions
with a line feed in front of the closing brace, up to the closing backquote. -/
inductive TemplateRest : Text → Prop
  | close : TemplateRest [CodePoint.ofChar '`']
  | plain {c : CodePoint} {s : Text} (hc : c ≠ '\\' ∧ c ≠ '`' ∧ c ≠ '$') (h : TemplateRest s) :
      TemplateRest (c :: s)
  | escape (c : CodePoint) {s : Text} (h : TemplateRest s) :
      TemplateRest (CodePoint.ofChar '\\' :: c :: s)
  | substitution {e s : Text} (he : Embedded e) (h : TemplateRest s) :
      TemplateRest ("$\x7b" ++ (e ++ ("\n\x7d" ++ s)))

/-- A template literal. -/
def IsTemplate (w : Text) : Prop := ∃ s, w = CodePoint.ofChar '`' :: s ∧ TemplateRest s

/-! ### Reading inside a substitution -/

/-- The state `st` inside a substitution of the template literal `f` with `depth` open braces. -/
def State.within (st : State) (f : Frame) (depth : Nat) (fs : List Frame) : State :=
  ⟨st.operand, st.frames ++ { f with depth := depth } :: fs⟩

/-- The place `x` inside a substitution of the template literal `f` with `depth` open braces. -/
def Place.within (x : Place) (f : Frame) (depth : Nat) (fs : List Frame) : Place :=
  { x with state := x.state.within f depth fs }

theorem State.keep_within (st : State) (f : Frame) (depth : Nat) (fs : List Frame) (t : Token) :
    (st.within f depth fs).keep t = none := by
  simp [State.keep, State.within]

theorem bracesBehind_append (depth : Nat) (ts us : List Token) :
    bracesBehind depth (ts ++ us) = (bracesBehind depth ts).bind (bracesBehind · us) := by
  fun_induction bracesBehind depth ts <;> simp_all [bracesBehind]

/-- Only the kinds of the tokens matter. -/
theorem bracesBehind_of_sign {ts us : List Token} (h : ts.map Token.sign = us.map Token.sign)
    (depth : Nat) : bracesBehind depth ts = bracesBehind depth us := by
  induction ts generalizing us depth with
  | nil =>
    obtain rfl : us = [] := List.map_eq_nil_iff.1 h.symm
    rfl
  | cons t ts ih =>
    obtain ⟨u, us, rfl⟩ : ∃ u vs, us = u :: vs := by
      cases us with
      | nil => cases h
      | cons u us => exact ⟨u, us, rfl⟩
    obtain ⟨hsign, htail⟩ := List.cons.inj h
    have hkind : t.kind = u.kind := congrArg Prod.fst hsign
    unfold bracesBehind
    rw [hkind]
    split <;> first | rfl | exact ih htail _

/-- A brace by itself is one token. -/
theorem read_rightBrace (operand : Bool) (s : Text) :
    Lexeme.read operand (CodePoint.ofChar '}') s = .ok (.token .rightBrace, 0) :=
  Lexeme.read_eq_ok_iff.2 (Lexeme.head_of_mem_sealedMarks (by decide) operand s)

section Within

variable {st : State} {p : Position} {c : CodePoint} {s : Text} {r : Step} {f : Frame}
  {fs : List Frame} {depth depth' : Nat}

/-- A token outside every template literal changes the number of open braces as it does in a
substitution. -/
theorem braced_of_bracesBehind {t : Token} (h : bracesBehind depth [t] = some depth') :
    braced t.kind ({ f with depth := depth } :: fs) = { f with depth := depth' } :: fs := by
  unfold bracesBehind at h
  split at h
  · next hk => cases h; rw [hk]; rfl
  · cases h
  · next hk => cases h; rw [hk]; rfl
  · next hleft hzero hsucc =>
    cases h
    unfold braced
    simp only
    split
    · next hk => exact absurd hk hleft
    · next hk =>
      cases hn : depth' with
      | zero => exact absurd hn (hzero hk)
      | succ n => exact absurd hn (hsucc n hk)
    · rfl

theorem readLexeme_within (h : readLexeme st p c s = .ok r)
    (hd : bracesBehind depth r.token?.toList = some depth') :
    readLexeme (st.within f depth fs) p c s = .ok ⟨r.length, r.state.within f depth' fs, none⟩ := by
  rcases readLexeme_cases h with ⟨n, hr, rfl⟩ | ⟨n, hr, rfl⟩ | ⟨kind, n, hr, rfl⟩
  · cases hd
    simp only [readLexeme, State.within, hr]
  · cases hd
    simp only [readLexeme, State.within, hr, List.cons_append]
  · have hkeep := State.keep_within st f depth fs ⟨kind, c :: s.take n, p⟩
    have hframes : braced kind (st.frames ++ { f with depth := depth } :: fs) =
        braced kind st.frames ++ { f with depth := depth' } :: fs := by
      obtain ⟨operand, frames⟩ := st
      cases frames with
      | nil => exact braced_of_bracesBehind hd
      | cons g gs =>
        cases hd
        cases kind <;> rfl
    simp only [readLexeme, show (st.within f depth fs).operand = st.operand from rfl, hr, hkeep]
    simp only [State.afterToken, State.within, hframes]

theorem resume_within {g : Frame} {gs : List Frame} (h : resume g gs p s = .ok r)
    (hd : bracesBehind depth r.token?.toList = some depth') :
    resume g (gs ++ { f with depth := depth } :: fs) p s =
      .ok ⟨r.length, r.state.within f depth' fs, none⟩ := by
  rcases resume_cases h with ⟨n, hc, rfl⟩ | ⟨n, hc, rfl⟩
  · cases hd
    simp only [resume, hc, State.within, List.cons_append]
  · obtain rfl : depth = depth' := by
      simp only [State.keep] at hd
      split at hd <;> exact Option.some.inj hd
    have hkeep := State.keep_within ⟨false, gs⟩ f depth fs
    simp only [resume, hc]
    exact congrArg (fun t => Except.ok (Step.mk n _ t)) (hkeep _)

/-- A step reads in a substitution what it reads elsewhere, and keeps no token. It does not close the
substitution, since the brace that would do so is not open. -/
theorem step_within (h : step st p c s = .ok r)
    (hd : bracesBehind depth r.token?.toList = some depth') :
    step (st.within f depth fs) p c s = .ok ⟨r.length, r.state.within f depth' fs, none⟩ := by
  obtain ⟨operand, frames⟩ := st
  cases frames with
  | nil =>
    have hopen : (c = '}' && depth = 0) = false := by
      rw [Bool.eq_false_iff]
      intro hc
      simp only [Bool.and_eq_true, decide_eq_true_eq] at hc
      obtain ⟨rfl, rfl⟩ := hc
      simp only [step, readLexeme, read_rightBrace] at h
      cases h
      cases hd
    have hstep : step (State.within ⟨operand, []⟩ f depth fs) p c s =
        readLexeme (State.within ⟨operand, []⟩ f depth fs) p c s := by
      simp only [step, State.within, List.nil_append, hopen, Bool.false_eq_true, if_false]
    rw [hstep]
    exact readLexeme_within h hd
  | cons g gs =>
    simp only [step, State.within, List.cons_append] at h ⊢
    split at h
    · next hc =>
      rw [if_pos hc]
      exact resume_within h hd
    · next hc =>
      rw [if_neg hc]
      show readLexeme (State.within ⟨operand, g :: gs⟩ f depth fs) p c s = _
      exact readLexeme_within h hd

/-- Inside a substitution the lexer reads as elsewhere, and counts the braces instead of keeping the
tokens. -/
theorem Reads.within {x y : Place} {ts : List Token} (h : Reads x ts y) (f : Frame)
    (fs : List Frame) (hd : bracesBehind depth ts = some depth') :
    Reads (x.within f depth fs) [] (y.within f depth' fs) := by
  induction h generalizing depth with
  | refl =>
    cases hd
    exact .refl _
  | @step st p c s r ts y hs _ ih =>
    rw [bracesBehind_append] at hd
    obtain ⟨between, hr, hd⟩ := Option.bind_eq_some_iff.1 hd
    exact .step (step_within hs hr) (ih hd)

end Within

/-! ### Reading a template literal -/

/-- The first chunk of a template literal is all of it, or it ends at a substitution. -/
theorem TemplateRest.chunk {s : Text} (h : TemplateRest s) (rest : Text) :
    Lexeme.chunkLength? (s ++ rest) = some (.closed, s.length) ∨
    ∃ v e s', s = v ++ (e ++ ("\n\x7d" ++ s')) ∧ Embedded e ∧ TemplateRest s' ∧
      Lexeme.chunkLength? (s ++ rest) = some (.substitution, v.length) := by
  induction h with
  | close =>
    refine .inl ?_
    rw [List.singleton_append, Lexeme.chunkLength?.eq_def]
    rfl
  | @plain c s hc h ih =>
    obtain ⟨hslash, hquote, hdollar⟩ := hc
    have hchunk := Lexeme.chunkLength?_cons (s := s ++ rest) ⟨hslash, hquote⟩
      (fun heq => absurd heq hdollar)
    rcases ih with ih | ⟨v, e, s', rfl, he, hs', ih⟩
    · exact .inl (by rw [List.cons_append, hchunk, ih]; rfl)
    · exact .inr ⟨c :: v, e, s', rfl, he, hs', by rw [List.cons_append, hchunk, ih]; rfl⟩
  | @escape c s h ih =>
    have hchunk := Lexeme.chunkLength?_escape c (s ++ rest)
    rcases ih with ih | ⟨v, e, s', rfl, he, hs', ih⟩
    · exact .inl (by rw [List.cons_append, List.cons_append, hchunk, ih]; rfl)
    · exact .inr ⟨_ :: c :: v, e, s', rfl, he, hs', by
        rw [List.cons_append, List.cons_append, hchunk, ih]; rfl⟩
  | @substitution e s he h =>
    exact .inr ⟨"$\x7b", e, s, rfl, he, h, rfl⟩

/-- The lexer comes through a substitution to the brace that closes it. -/
theorem Embedded.reads {e : Text} (he : Embedded e) (start p : Position) (source : Text)
    (fs : List Frame) (rest : Text) :
    ∃ operand, Reads ⟨⟨true, ⟨start, source, 0⟩ :: fs⟩, p, e ++ ("\n\x7d" ++ rest)⟩ []
      ⟨⟨operand, ⟨start, source, 0⟩ :: fs⟩, p.after (e ++ Text.lineFeed),
        CodePoint.ofChar '}' :: rest⟩ := by
  obtain ⟨ts, hts, hbraces⟩ := he.tokens
  obtain ⟨us, hus, hsigns⟩ := writes_line hts he.hashbang p (CodePoint.ofChar '}' :: rest)
  have hreads := hus.within ⟨start, source, 0⟩ fs
    ((bracesBehind_of_sign hsigns 0).trans hbraces)
  rw [List.append_assoc] at hreads
  exact ⟨_, hreads⟩

/-- The brace that closes a substitution goes on with the literal. -/
theorem step_of_rightBrace (operand : Bool) (start p : Position) (source s : Text)
    (fs : List Frame) :
    step ⟨operand, ⟨start, source, 0⟩ :: fs⟩ p (CodePoint.ofChar '}') s =
      resume ⟨start, source, 0⟩ fs p s := by
  unfold step
  exact if_pos rfl

/-- Behind a substitution the lexer reads the rest of the literal, and keeps all of it as one token. -/
theorem TemplateRest.reads {s : Text} (h : TemplateRest s) (operand : Bool) (start : Position)
    (front : Text) (fs : List Frame) (rest : Text) :
    Reads ⟨⟨operand, ⟨start, front ++ CodePoint.ofChar '}' :: (s ++ rest), 0⟩ :: fs⟩,
        start.after front, CodePoint.ofChar '}' :: (s ++ rest)⟩
      (State.keep ⟨false, fs⟩ ⟨.template, front ++ CodePoint.ofChar '}' :: s, start⟩).toList
      ⟨⟨false, fs⟩, start.after (front ++ CodePoint.ofChar '}' :: s), rest⟩ := by
  -- Each substitution is behind a chunk, so the rest of the literal gets shorter.
  induction hn : s.length using Nat.strong_induction_on generalizing s operand front with
  | _ n ih =>
    subst hn
    rcases h.chunk rest with hchunk | ⟨v, e, s', rfl, he, hs', hchunk⟩
    · have htake : (front ++ CodePoint.ofChar '}' :: (s ++ rest)).take
          ((start.after front).offset + 1 + s.length - start.offset) =
            front ++ CodePoint.ofChar '}' :: s := by
        rw [Position.offset_after, show start.offset + front.length + 1 + s.length - start.offset =
          front.length + (s.length + 1) by omega, List.take_length_add_append, List.take_succ_cons,
          List.take_left]
      have hstep := step_of_rightBrace operand start (start.after front)
        (front ++ CodePoint.ofChar '}' :: (s ++ rest)) (s ++ rest) fs
      simp only [resume, hchunk, htake] at hstep
      have hreads := Reads.step hstep (.refl _)
      simpa only [List.append_nil, List.take_left, List.drop_left, Position.after_append] using hreads
    · -- Up to the end of the substitution all of it has been read.
      obtain ⟨front', hfront'⟩ : ∃ front', front' = front ++ CodePoint.ofChar '}' :: v ++
          (e ++ Text.lineFeed) := ⟨_, rfl⟩
      have hfront : ∀ r, front ++ CodePoint.ofChar '}' :: (v ++ (e ++ ("\n\x7d" ++ r))) =
          front' ++ CodePoint.ofChar '}' :: r := by
        intro r
        rw [hfront']
        simp only [List.append_assoc, List.cons_append]
        rfl
      have hstep := step_of_rightBrace operand start (start.after front)
        (front' ++ CodePoint.ofChar '}' :: (s' ++ rest)) (v ++ (e ++ ("\n\x7d" ++ (s' ++ rest)))) fs
      simp only [List.append_assoc] at hchunk ⊢
      simp only [resume, hchunk] at hstep
      obtain ⟨operand', hreads⟩ := he.reads start (start.after (front ++ CodePoint.ofChar '}' :: v))
        (front' ++ CodePoint.ofChar '}' :: (s' ++ rest)) fs (s' ++ rest)
      rw [← Position.after_append, ← hfront'] at hreads
      have hlength : s'.length < (v ++ (e ++ ("\n\x7d" ++ s'))).length := by
        simp only [List.length_append]
        have : (Text.ofString "\n\x7d").length = 2 := by decide
        omega
      have hrest := ih _ hlength hs' operand' front' rfl
      have hfirst : Reads ⟨_, start.after front, _⟩ [] _ := .step hstep (by
        simp only [List.take_left, List.drop_left]
        rw [← Position.after_append]
        exact hreads)
      rw [hfront, hfront]
      exact hfirst.trans hrest

/-- A template literal is read at once, wherever it stands, and kept as one token. -/
theorem reads_template {w : Text} (hw : IsTemplate w) (st : State) (p : Position) (rest : Text) :
    Reads ⟨st, p, w ++ rest⟩ (st.keep ⟨.template, w, p⟩).toList
      ⟨⟨false, st.frames⟩, p.after w, rest⟩ := by
  obtain ⟨s, rfl, hs⟩ := hw
  have hquote : CodePoint.ofChar '`' ≠ '}' := by decide
  have hstep : ∀ tail, step st p (CodePoint.ofChar '`') tail =
      readLexeme st p (CodePoint.ofChar '`') tail := by
    intro tail
    unfold step
    split
    · exact if_neg (by simp [hquote])
    · rfl
  rcases hs.chunk rest with hchunk | ⟨v, e, s', rfl, he, hs', hchunk⟩
  · have hread : Lexeme.read st.operand (CodePoint.ofChar '`') (s ++ rest) =
        .ok (.token .template, s.length) := Lexeme.read_eq_ok_iff.2 (.template rfl hchunk)
    replace hstep := hstep (s ++ rest)
    simp only [readLexeme, hread, List.take_left, State.afterToken] at hstep
    have hreads := Reads.step hstep (.refl _)
    have hframes : braced .template st.frames = st.frames := by
      cases st.frames <;> rfl
    simpa only [hframes, operandMayFollow, List.append_nil, List.take_left, List.drop_left,
      List.cons_append] using hreads
  · obtain ⟨front, hfront⟩ : ∃ front, front = CodePoint.ofChar '`' :: v ++ (e ++ Text.lineFeed) :=
      ⟨_, rfl⟩
    have hsplit : ∀ r, CodePoint.ofChar '`' :: (v ++ (e ++ ("\n\x7d" ++ r))) =
        front ++ CodePoint.ofChar '}' :: r := by
      intro r
      rw [hfront]
      simp only [List.append_assoc, List.cons_append]
      rfl
    simp only [List.cons_append, List.append_assoc] at hchunk ⊢
    have hread : Lexeme.read st.operand (CodePoint.ofChar '`')
        (v ++ (e ++ ("\n\x7d" ++ (s' ++ rest)))) = .ok (.openTemplate, v.length) :=
      Lexeme.read_eq_ok_iff.2 (.opening rfl hchunk)
    replace hstep := hstep (v ++ (e ++ ("\n\x7d" ++ (s' ++ rest))))
    simp only [readLexeme, hread, hsplit] at hstep
    obtain ⟨operand, hreads⟩ := he.reads p (p.after (CodePoint.ofChar '`' :: v))
      (front ++ CodePoint.ofChar '}' :: (s' ++ rest)) st.frames (s' ++ rest)
    rw [← Position.after_append, ← hfront] at hreads
    have hfirst : Reads ⟨st, p, _⟩ [] _ := .step hstep (by
      simp only [List.take_left, List.drop_left]
      exact hreads)
    have hall := hfirst.trans (hs'.reads operand p front st.frames rest)
    rwa [← hsplit] at hall

/-- Behind an operand the lexer stands as behind any other: nothing but an operator may follow, and the
open template literals are as before. -/
theorem afterToken_of_operand {kind : TokenKind} {text : Text}
    (h : operandMayFollow kind text = false) (st : State) :
    st.afterToken kind text = ⟨false, st.frames⟩ := by
  have hframes : braced kind st.frames = st.frames := by
    cases st.frames with
    | nil => rfl
    | cons f fs =>
      cases kind
      case leftBrace => cases h
      case rightBrace => cases h
      all_goals rfl
  rw [State.afterToken, h, hframes]

/-- A source goes on behind what has been read of it. -/
theorem tokenize_of_reads {source : Text} {ts : List Token} {y : Place}
    (h : Reads (.first source) ts y) :
    tokenize source = (run y.state y.position y.rest).map fun us =>
      { us with tokens := ts ++ us.tokens } :=
  run_of_reads h

/-- A template literal is one token, which covers all of it, and behind it the lexer goes on as behind
any other operand. -/
theorem tokenize_of_isTemplate {source w rest : Text} {ts : List Token} {st : State} {p : Position}
    (hw : IsTemplate w) (h : Reads (.first source) ts ⟨st, p, w ++ rest⟩) :
    (∀ kind text, operandMayFollow kind text = false →
      tokenize source = (run (st.afterToken kind text) (p.after w) rest).map fun us =>
        { us with tokens := ts ++ ((st.keep ⟨.template, w, p⟩).toList ++ us.tokens) }) ∧
    (st.frames = [] → ∀ source' ts' operand' p' kind text,
      Reads (.first source') ts' (outside operand' p' (text ++ rest)) →
      Lexes operand' kind text rest → operandMayFollow kind text = false →
      ∃ a b, Outcome sameText a b ∧
        (tokenize source = a.map fun us =>
          { us with tokens := ts ++ (⟨.template, w, p⟩ :: us.tokens) }) ∧
        (tokenize source' = b.map fun us =>
          { us with tokens := ts' ++ (⟨kind, text, p'⟩ :: us.tokens) })) := by
  have hsource := tokenize_of_reads (h.trans (reads_template hw st p rest))
  simp only [List.append_assoc] at hsource
  refine ⟨fun kind text hk => ?_, fun hf source' ts' operand' p' kind text h' hlexes hk => ?_⟩
  · rw [hsource, afterToken_of_operand hk]
  · obtain ⟨operand, frames⟩ := st
    obtain rfl : frames = [] := hf
    have hsource' := tokenize_of_reads (h'.trans (hlexes p'))
    simp only [List.append_assoc, hk] at hsource'
    -- Behind the two tokens both sources are the same text, read from the same state.
    have houtcome : Outcome sameText (run ⟨false, []⟩ (p.after w) rest)
        (run ⟨false, []⟩ (p'.after text) rest) :=
      run_lockstep ⟨rfl, .nil⟩ (steady_sameText _ _)
    exact ⟨_, _, houtcome, hsource, hsource'⟩

/-- A template literal in a substitution of another one, and a division behind it. -/
theorem tokenize_of_nested :
    ∃ w : Text, w = "`a$\x7b \x7bx: `b$\x7bc\n\x7d`\x7d\n\x7dd`" ∧ IsTemplate w ∧
      Reads (.first (w ++ " / 2")) [] (outside true .start (w ++ " / 2")) ∧
      (tokenize (w ++ " / 2") = (run ⟨false, []⟩ (Position.start.after w) " / 2").map fun us =>
        { us with tokens := ⟨.template, w, .start⟩ :: us.tokens }) ∧
      Lexes true .number "1" " / 2" ∧
      ∃ a b, Outcome sameText a b ∧
        (tokenize (w ++ " / 2") = a.map fun us =>
          { us with tokens := ⟨.template, w, .start⟩ :: us.tokens }) ∧
        (tokenize "1 / 2" = b.map fun us =>
          { us with tokens := ⟨.number, "1", .start⟩ :: us.tokens }) := by
  have hinner : Embedded " \x7bx: `b$\x7bc\n\x7d`\x7d" := by
    refine ⟨?_, by decide⟩
    obtain ⟨ts, hts, hbraces⟩ := Except.exists_of_any_toOption
      (x := tokenize " \x7bx: `b$\x7bc\n\x7d`\x7d")
      (p := fun ts => bracesBehind 0 ts.tokens = some 0) (by decide +kernel)
    exact ⟨ts, hts, of_decide_eq_true hbraces⟩
  have hw : IsTemplate "`a$\x7b \x7bx: `b$\x7bc\n\x7d`\x7d\n\x7dd`" :=
    ⟨_, rfl, .plain (by decide) (.substitution hinner (.plain (by decide) .close))⟩
  have hone : Lexes true .number "1" " / 2" := lexes_of_head (w := []) (.number rfl rfl rfl)
  have hfirst : Reads (.first ("`a$\x7b \x7bx: `b$\x7bc\n\x7d`\x7d\n\x7dd`" ++ " / 2")) []
      (outside true .start ("`a$\x7b \x7bx: `b$\x7bc\n\x7d`\x7d\n\x7dd`" ++ " / 2")) := .refl _
  have hmain := tokenize_of_isTemplate hw hfirst
  exact ⟨_, rfl, hw, hfirst, hmain.1 .number "1" rfl, hone,
    hmain.2 rfl "1 / 2" [] true .start .number "1" (.refl _) hone rfl⟩

end Lexer

end ScriptBundle
