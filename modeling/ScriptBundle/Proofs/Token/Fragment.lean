import ScriptBundle.Proofs.StringLiteral.RoundTrip
import ScriptBundle.Proofs.Token.Layout
import ScriptBundle.Text.Decimal

/-!
# Texts that can be put together

A text whose last lexeme cannot run on gives the same tokens in front of any other text. A program that
is put together from such texts has their tokens, one behind the other.

* `Writes`: a text gives certain tokens, in front of any other text;
* `writes_mark`, `writes_number`, `writes_encode`: punctuators, numbers and written string literals;
* `writes_blockComment`: a comment whose text does not end it;
* `writes_line`: a source of its own, with a line feed behind it;
* `tokenize_of_writes`: the tokens of a source that is put together;
* `writes_fragment`: a fixed text whose last code point is read by itself;
* `writes_word_append`, `writes_dot_append`: a word or a dot in front of a fragment.
-/

namespace ScriptBundle

namespace Lexer

open Lexeme (Head operandMayFollow)

/-- In front of any text the lexer reads `w`, from where an operand may follow or not as `operand` says
to where it may as `operand'` says, and finds tokens of the given kinds and texts. -/
def Writes (operand : Bool) (w : Text) (signs : List (TokenKind × Text)) (operand' : Bool) : Prop :=
  ∀ p rest, ∃ ts, Reads (outside operand p (w ++ rest)) ts (outside operand' (p.after w) rest) ∧
    ts.map Token.sign = signs

variable {operand operand' operand'' : Bool} {w w' : Text} {signs signs' : List (TokenKind × Text)}

theorem writes_nil (operand : Bool) : Writes operand [] [] operand :=
  fun _ _ => ⟨[], .refl _, rfl⟩

theorem Writes.append (h : Writes operand w signs operand')
    (h' : Writes operand' w' signs' operand'') :
    Writes operand (w ++ w') (signs ++ signs') operand'' := by
  intro p rest
  obtain ⟨ts, hts, rfl⟩ := h p (w' ++ rest)
  obtain ⟨us, hus, rfl⟩ := h' (p.after w) rest
  refine ⟨ts ++ us, ?_, List.map_append⟩
  rw [List.append_assoc, Position.after_append]
  exact hts.trans hus

/-- Fragments of the same shape, one behind the other. -/
theorem writes_flatMap {α : Type} {f : α → Text} {g : α → List (TokenKind × Text)} {as : List α}
    (h : ∀ a ∈ as, Writes operand (f a) (g a) operand) :
    Writes operand (as.flatMap f) (as.flatMap g) operand := by
  induction as with
  | nil => exact writes_nil operand
  | cons a as ih =>
    exact (h a List.mem_cons_self).append (ih fun b hb => h b (List.mem_cons_of_mem a hb))

theorem writes_gap (h : ∀ rest, Gaps w rest) (operand : Bool) : Writes operand w [] operand :=
  fun p rest => ⟨[], (h rest).reads operand p, rfl⟩

theorem writes_token {kind : TokenKind} (h : ∀ rest, Lexes operand kind w rest) :
    Writes operand w [(kind, w)] (operandMayFollow kind w) :=
  fun p rest => ⟨[⟨kind, w, p⟩], h rest p, rfl⟩

/-- White space. -/
theorem writes_space {c : CodePoint} (h : Lexeme.isSpace c) (operand : Bool) :
    Writes operand [c] [] operand :=
  writes_gap (fun rest => .cons (w := []) (fun _ => .space h) (.nil rest)) operand

/-- White space behind a fragment. -/
theorem Writes.space (h : Writes operand w signs operand') {c : CodePoint}
    (hc : Lexeme.isSpace c) : Writes operand (w ++ [c]) signs operand' := by
  have := h.append (writes_space hc operand')
  rwa [List.append_nil] at this

/-- A punctuator that starts no operator. -/
theorem writes_mark {c : CodePoint} (h : c ∈ Lexeme.sealedMarks) (operand : Bool) :
    Writes operand [c] [(Lexeme.punctuatorKind c, [c])]
      (operandMayFollow (Lexeme.punctuatorKind c) [c]) :=
  writes_token fun rest => lexes_of_head (w := []) (Lexeme.head_of_mem_sealedMarks h operand rest)

/-! ### Numbers -/

/-- A digit starts a number and goes on with it. -/
theorem digit_continues {c : CodePoint} (h : c.isAsciiDigit) :
    Lexeme.isSpace c = false ∧ Lexeme.startsWord c = false ∧ c.isDigit ∧ c.isAlphanumeric := by
  have hall : ∀ n < 58, 48 ≤ n → ∀ hn : n < 0x110000, Lexeme.isSpace ⟨n, hn⟩ = false ∧
      Lexeme.startsWord ⟨n, hn⟩ = false ∧ (CodePoint.mk n hn).isDigit ∧
        (CodePoint.mk n hn).isAlphanumeric := by
    decide +kernel
  obtain ⟨n, hn⟩ := c
  simp only [CodePoint.isAsciiDigit, Bool.and_eq_true, decide_eq_true_eq] at h
  exact hall n (by omega) h.1 hn

theorem numberLength_digits (hexadecimal : Bool) (prev : CodePoint) {s : Text}
    (h : ∀ c ∈ s, c.isAsciiDigit) : Lexeme.numberLength hexadecimal prev s = s.length := by
  induction s generalizing prev with
  | nil => rfl
  | cons c s ih =>
    have hc := (digit_continues (h c List.mem_cons_self)).2.2.2
    rw [Lexeme.numberLength, hc, ih c fun d hd => h d (List.mem_cons_of_mem c hd)]
    rfl

/-- A number in front of a separator. -/
theorem lexes_ofNat (n : Nat) {d : CodePoint} (hd : d ∈ Lexeme.separators) (rest : Text)
    (operand : Bool) : Lexes operand .number (Text.ofNat n) (d :: rest) := by
  obtain ⟨c, w, hw⟩ : ∃ c w, Text.ofNat n = c :: w :=
    List.exists_cons_of_ne_nil (by simp [Text.ofNat, Nat.toDigits_ne_nil])
  have hall : ∀ e ∈ c :: w, e.isAsciiDigit := fun e he => Text.isAsciiDigit_of_mem_ofNat (hw ▸ he)
  obtain ⟨hspace, hword, hdigit, -⟩ := digit_continues (hall c List.mem_cons_self)
  have hlength : Lexeme.numberLength (Lexeme.isHexadecimal c (w ++ d :: rest)) c (w ++ d :: rest) =
      w.length := by
    rw [Lexeme.numberLength_append_cons _ _ _ hd,
      numberLength_digits _ _ fun e he => hall e (List.mem_cons_of_mem c he)]
  have hhead : Head operand c (w ++ d :: rest) _ _ :=
    .number hspace hword (by simp [Lexeme.startsNumber, hdigit])
  rw [hlength] at hhead
  exact hw ▸ lexes_of_head hhead

/-- A number and the punctuator behind it. -/
theorem writes_number (n : Nat) {d : CodePoint} (hd : d ∈ Lexeme.sealedMarks) (operand : Bool) :
    Writes operand (Text.ofNat n ++ [d])
      [(.number, Text.ofNat n), (Lexeme.punctuatorKind d, [d])]
      (operandMayFollow (Lexeme.punctuatorKind d) [d]) := by
  intro p rest
  have hsep := Lexeme.mem_separators_of_mem_sealedMarks d hd
  have hnumber := lexes_ofNat n hsep rest operand p
  obtain ⟨ts, hts, hsigns⟩ := writes_mark hd (operandMayFollow .number (Text.ofNat n))
    (p.after (Text.ofNat n)) rest
  rw [List.singleton_append] at hts
  refine ⟨⟨.number, Text.ofNat n, p⟩ :: ts, ?_,
    congrArg ((TokenKind.number, Text.ofNat n) :: ·) hsigns⟩
  rw [List.append_assoc, List.singleton_append, Position.after_append]
  exact hnumber.trans hts

/-! ### String literals and comments -/

/-- A written string literal. -/
theorem writes_encode (s : Text) (operand : Bool) :
    Writes operand (StringLiteral.encode s) [(.string, StringLiteral.encode s)] false := by
  suffices h : ∀ rest, Lexes operand .string (StringLiteral.encode s) rest from writes_token h
  intro rest
  have hlength := StringLiteral.stringLength?_encode s rest
  refine lexes_of_head (w := s.flatMap StringLiteral.encodePoint ++ [CodePoint.ofChar '"']) ?_
  rw [List.append_assoc, List.singleton_append, List.length_append, List.length_singleton]
  exact .string (.inr rfl) hlength

/-- No star of the text stands in front of a slash. -/
def Uncommented (s : Text) : Prop :=
  List.IsChain (fun c d : CodePoint => ¬ (c = '*' ∧ d = '/')) s

theorem commentLength?_append {s : Text} (h : Uncommented (s ++ [CodePoint.ofChar '*']))
    (rest : Text) :
    Lexeme.commentLength? (s ++ CodePoint.ofChar '*' :: CodePoint.ofChar '/' :: rest) =
      some (s.length + 2) := by
  induction s with
  | nil => simp [Lexeme.commentLength?, Text.headIs]
  | cons c s ih =>
    have hc : (c = '*' && Text.headIs (s ++ CodePoint.ofChar '*' :: CodePoint.ofChar '/' :: rest) '/') =
        false := by
      rw [Bool.eq_false_iff]
      intro hc
      simp only [Bool.and_eq_true, decide_eq_true_eq] at hc
      cases s with
      | nil =>
        have hstar : CodePoint.ofChar '*' ≠ '/' := by decide
        exact hstar (by simpa [Text.headIs] using hc.2)
      | cons d s =>
        have hd : d = '/' := by simpa [Text.headIs] using hc.2
        exact (List.isChain_cons_cons.1 h).1 ⟨hc.1, hd⟩
    rw [List.cons_append, Lexeme.commentLength?, hc, ih h.tail]
    rfl

/-- A comment whose text does not end it. -/
theorem writes_blockComment {s : Text} (h : Uncommented (s ++ [CodePoint.ofChar '*']))
    (operand : Bool) : Writes operand ("/*" ++ s ++ "*/") [] operand := by
  refine writes_gap (fun rest => ?_) operand
  have hgap : Gaps (CodePoint.ofChar '/' :: ((CodePoint.ofChar '*' :: (s ++ "*/")) ++ [])) rest := by
    refine .cons (fun operand => ?_) (.nil rest)
    have hlength := commentLength?_append h rest
    have hhead : Head operand (CodePoint.ofChar '/')
        (CodePoint.ofChar '*' :: (s ++ CodePoint.ofChar '*' :: CodePoint.ofChar '/' :: rest)) _ _ :=
      .block rfl rfl hlength
    have hw : (CodePoint.ofChar '*' :: (s ++ "*/")).length = 1 + (s.length + 2) := by
      simp only [List.length_cons, List.length_append]
      rw [show (Text.ofString "*/").length = 2 by decide]
      omega
    rw [hw, List.nil_append, List.cons_append, List.append_assoc]
    exact hhead
  rw [List.append_nil] at hgap
  exact hgap

/-! ### Whole sources -/

theorem first_eq_outside (hw : (Text.ofString "#!").isPrefixOf w = false) :
    Place.first w = outside true .start w := by
  simp [Place.first, hashbang, hw, State.initial]

/-- A source without a hashbang that has tokens of its own, with a line feed behind it. -/
theorem writes_line {ts : TokenStream} (h : tokenize w = .ok ts)
    (hw : (Text.ofString "#!").isPrefixOf w = false) :
    Writes true (w ++ Text.lineFeed) (ts.tokens.map Token.sign) (operandBehind true ts.tokens) := by
  obtain ⟨operand, hr⟩ := tokenize_eq_ok_iff.1 h
  rw [first_eq_outside hw] at hr
  obtain rfl : operand = operandBehind true ts.tokens :=
    congrArg State.operand (operand_of_reads hr rfl)
  intro p rest
  have hlike : Like (outside true .start w) (outside true p (w ++ CodePoint.ofChar '\n' :: rest)) :=
    ⟨rfl, .nil⟩
  obtain ⟨us, y, hus, hsigns, hy, hrest⟩ :=
    hr.transport hlike (List.append_nil w).symm rfl (Lexeme.stable_nil rest)
  obtain ⟨text, htext, hp⟩ := hus.exists_text
  obtain ⟨⟨operand, frames⟩, q, r⟩ := y
  obtain rfl : operand = operandBehind true ts.tokens := hy.operand
  obtain rfl : frames = [] := List.isEmpty_iff.1 (isEmpty_of_forall₂ hy.frames)
  obtain rfl : r = CodePoint.ofChar '\n' :: rest := hrest
  obtain rfl : text = w := (List.append_cancel_right htext).symm
  obtain rfl : q = p.after text := hp
  obtain ⟨vs, hvs, hnil⟩ := writes_space (c := '\n') (by decide) _ (p.after text) rest
  obtain rfl : vs = [] := List.map_eq_nil_iff.1 hnil
  refine ⟨us, ?_, hsigns⟩
  rw [List.append_assoc, Position.after_append]
  have := hus.trans hvs
  rwa [List.append_nil] at this

/-- The tokens of a source without a hashbang that is put together. -/
theorem tokenize_of_writes (h : Writes true w signs operand)
    (hw : (Text.ofString "#!").isPrefixOf w = false) :
    ∃ ts, tokenize w = .ok ts ∧ ts.tokens.map Token.sign = signs := by
  obtain ⟨ts, hts, hsigns⟩ := h .start []
  rw [List.append_nil, ← first_eq_outside hw] at hts
  exact ⟨⟨ts, Position.start.after w⟩, tokenize_eq_ok_iff.2 ⟨operand, hts⟩, hsigns⟩

/-! ### Fixed texts -/

/-- The items of a source, and what stands behind the last one. -/
theorem exists_lays_of_tokenize {source : Text} {ts : TokenStream} (h : tokenize source = .ok ts) :
    ∃ items g, items.map Item.token = ts.tokens ∧ source = hashbang source ++ (textOf items ++ g) ∧
      Lays true items g ∧ Placed (Position.start.after (hashbang source)) items ∧ Gaps g [] := by
  obtain ⟨operand, hr⟩ := tokenize_eq_ok_iff.1 h
  obtain ⟨items, g, hmap, hs, hlays, hplaced, hg⟩ := exists_lays_of_reads hr rfl
  simp only [List.append_nil] at hs hlays hg
  exact ⟨items, g, hmap, by rw [← hs, hashbang_append_drop], hlays, hplaced, hg⟩

/-- Only a slash depends on whether an operand may follow what is in front. -/
theorem Lays.of_operand {items : List Item} {rest : Text} (h : Lays operand items rest)
    (hfirst : ∀ i ∈ items.head?, Text.headIs i.token.text '/' = false) (operand' : Bool) :
    Lays operand' items rest := by
  cases items with
  | nil => trivial
  | cons i items => exact ⟨h.1, h.2.1.of_operand (hfirst i rfl) operand', h.2.2⟩

/-- The tokens of a text by itself. -/
def tokensOf (w : Text) : List Token :=
  match tokenize w with
  | .ok ts => ts.tokens
  | .error _ => []

/-- The last code point of a text with the given tokens is read by itself: it is a sealed token, or it is
white space. -/
def endsAlone (w : Text) (ts : List Token) : Bool :=
  match w.getLast?, ts.getLast? with
  | some c, some t =>
    (t.kind.isSealed && t.stop = w.length) || (Lexeme.isSpace c && t.stop + 1 = w.length)
  | _, _ => false

/-- A text starts with no slash, and its last code point is read by itself. -/
def isFragment (w : Text) : Bool :=
  !(Text.ofString "#!").isPrefixOf w && endsAlone w (tokensOf w) &&
    (tokensOf w).head?.all fun t => !Text.headIs t.text '/'

/-- The items of a text that ends in a sealed token are read in front of anything. -/
theorem lays_of_isSealed {items : List Item} {i : Item} (h : Lays operand (items ++ [i]) [])
    (hi : i.token.kind.isSealed) (rest : Text) : Lays operand (items ++ [i]) rest := by
  obtain ⟨hitems, hgap, hlexes, -⟩ := lays_append_iff.1 h
  obtain ⟨⟨d, hd, hlast⟩, hall⟩ := hlexes.of_isSealed hi
  have htoken : Lexeme.Alike (i.token.text ++ []) (i.token.text ++ rest) :=
    Lexeme.alike_of_getLast? hlast hd [] rest
  have htext : Lexeme.Alike (textOf [i] ++ []) (textOf [i] ++ rest) := by
    simpa only [textOf_cons, textOf_nil, List.append_nil, List.append_assoc] using htoken.append i.gap
  exact lays_append_iff.2 ⟨hitems.stable htext.stable, hgap.stable htoken.stable, hall _ rest, trivial⟩

/-- What ends by itself is read in front of anything. -/
theorem lays_of_endsAlone {items : List Item} {g : Text} (hlays : Lays operand items g)
    (hplaced : Placed .start items) (h : endsAlone (textOf items ++ g) (items.map Item.token))
    (rest : Text) : Lays operand items (g ++ rest) ∧ Gaps g rest := by
  unfold endsAlone at h
  split at h
  · next c t hc ht =>
    have hne : items ≠ [] := by
      rintro rfl
      cases ht
    have hstop : (items.getLast hne).token.stop = (textOf items).length := by
      rw [stop_getLast (by rwa [List.append_nil]) hne, Position.start, Nat.zero_add]
    obtain rfl : (items.getLast hne).token = t := by
      rw [List.getLast?_map, List.getLast?_eq_some_getLast hne] at ht
      exact Option.some.inj ht
    rw [hstop, List.length_append] at h
    rcases Bool.or_eq_true_iff.1 h with h | h <;>
      simp only [Bool.and_eq_true, decide_eq_true_eq] at h
    · obtain rfl : g = [] := List.length_eq_zero_iff.1 (by omega)
      refine ⟨?_, .nil rest⟩
      rw [← List.dropLast_append_getLast hne] at hlays ⊢
      exact lays_of_isSealed hlays h.1 rest
    · obtain ⟨d, rfl⟩ : ∃ d, g = [d] := List.length_eq_one_iff.1 (by omega)
      obtain rfl : d = c := by simpa using hc
      have halike : Lexeme.Alike ([] ++ [d]) ([] ++ (d :: rest)) :=
        .inr ⟨[], d, [], rest, Lexeme.mem_separators_of_isSpace h.1, rfl, rfl⟩
      exact ⟨hlays.stable halike.stable, .cons (w := []) (fun _ => .space h.1) (.nil rest)⟩
  · cases h

/-- A fixed text is read in front of anything. -/
theorem writes_fragment (h : isFragment w) (operand : Bool) :
    Writes operand w ((tokensOf w).map Token.sign) (operandBehind operand (tokensOf w)) := by
  simp only [isFragment, Bool.and_eq_true, Bool.not_eq_true'] at h
  obtain ⟨⟨hhashbang, hend⟩, hfirst⟩ := h
  cases hw : tokenize w with
  | error f =>
    rw [tokensOf, hw] at hend
    unfold endsAlone at hend
    split at hend <;> simp_all
  | ok ts =>
    have htokens : tokensOf w = ts.tokens := by rw [tokensOf, hw]
    obtain ⟨items, g, hmap, htext, hlays, hplaced, -⟩ := exists_lays_of_tokenize hw
    have hnone : hashbang w = [] := by simp [hashbang, hhashbang]
    rw [hnone, List.nil_append] at htext
    rw [hnone] at hplaced
    rw [htokens, ← hmap] at hend hfirst ⊢
    subst htext
    have hlays := hlays.of_operand (fun i hi => by
      rw [List.head?_map, Option.mem_def.1 hi] at hfirst
      simpa using hfirst) operand
    intro p rest
    obtain ⟨hitems, hgap⟩ := lays_of_endsAlone hlays hplaced hend rest
    refine ⟨tokensAt p items, ?_, by rw [map_sign_tokensAt, List.map_map]; rfl⟩
    have hreads := (hitems.reads p).trans (hgap.reads _ _)
    rwa [List.append_nil, ← List.append_assoc, ← Position.after_append] at hreads

/-! ### Words and dots -/

/-- A word in front of a fragment that no word goes on with. -/
theorem writes_word_append {c : CodePoint} {v : Text} (hc : Lexeme.startsWord c)
    (hv : ∀ d ∈ v, Lexeme.inWord d) (hw : ∃ d ∈ w.head?, Lexeme.inWord d = false)
    (h : Writes (operandMayFollow (Lexeme.wordKind (c :: v)) (c :: v)) w signs operand') :
    Writes operand (c :: v ++ w) ((Lexeme.wordKind (c :: v), c :: v) :: signs) operand' := by
  intro p rest
  obtain ⟨d, hd, hd'⟩ := hw
  have hlexes : Lexes operand (Lexeme.wordKind (c :: v)) (c :: v) (w ++ rest) :=
    lexes_word hc hv (by simp [List.head?_append, Option.mem_def.1 hd, hd'])
  obtain ⟨ts, hts, rfl⟩ := h (p.after (c :: v)) rest
  refine ⟨⟨_, c :: v, p⟩ :: ts, ?_, rfl⟩
  rw [List.append_assoc, Position.after_append]
  exact (hlexes p).trans hts

/-- A word is the one token of the source that it makes up. -/
theorem tokenize_word {c : CodePoint} {v : Text} (hc : Lexeme.startsWord c)
    (hv : ∀ d ∈ v, Lexeme.inWord d) :
    ∃ ts, tokenize (c :: v) = .ok ts ∧
      ts.tokens.map Token.sign = [(Lexeme.wordKind (c :: v), c :: v)] := by
  have hfirst : (Text.ofString "#!").isPrefixOf (c :: v) = false := by
    have hne : c ≠ '#' := by
      rintro rfl
      revert hc
      decide
    simp [Text.ofString, List.isPrefixOf, hne.symm]
  have hlexes : Lexes true (Lexeme.wordKind (c :: v)) (c :: v) [] := lexes_word hc hv rfl
  have hreads := hlexes .start
  rw [List.append_nil, ← first_eq_outside hfirst] at hreads
  exact ⟨⟨_, Position.start.after (c :: v)⟩, tokenize_eq_ok_iff.2 ⟨_, hreads⟩, rfl⟩

/-- A dot in front of a fragment that starts with no other dot and no digit. -/
theorem writes_dot_append {d : CodePoint} (hdot : d ≠ '.') (hdigit : d.isDigit = false)
    (h : Writes true (d :: w) signs operand') :
    Writes operand ("." ++ d :: w) ((.dot, ".") :: signs) operand' := by
  intro p rest
  obtain ⟨ts, hts, rfl⟩ := h (p.after ".") rest
  have hlexes : Lexes operand .dot "." (d :: (w ++ rest)) := lexes_dot hdot hdigit _
  refine ⟨⟨.dot, ".", p⟩ :: ts, ?_, rfl⟩
  rw [List.append_assoc, Position.after_append]
  exact (hlexes p).trans hts

end Lexer

end ScriptBundle
