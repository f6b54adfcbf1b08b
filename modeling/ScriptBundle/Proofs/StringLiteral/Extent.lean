import ScriptBundle.Proofs.StringLiteral.Escapes
import ScriptBundle.Proofs.Token.Lossless
import ScriptBundle.Proofs.Written.Spelling

/-!
# The extent of a string literal

The lexer and the decoder read a string literal by rules of their own. The lexer pairs each backslash with
the one code point behind it, and ends the literal at the first quote that is in no such pair. The decoder
takes as much behind a backslash as the escape is long. Yet the two never fall out of step: what the decoder
takes behind the first code point of an escape is no backslash and no quote, so that wherever it stands, a
pair or a single code point of the lexer begins. It never runs out of text behind a backslash.

* `exists_of_stringLength?`: what the lexer takes for a literal;
* `Comes`: how far decoding has come;
* `Quotable.comes`: decoding keeps in step with the lexer;
* `extent_of_tokenize`: the strings among the tokens of a source.
-/

namespace ScriptBundle

open Written (Quotable)

/-- What the lexer takes for a literal behind its opening quote. -/
theorem Lexeme.exists_of_stringLength? {quote : CodePoint} {s : Text} {n : Nat}
    (h : stringLength? quote s = some n) :
    ∃ body rest, s = body ++ quote :: rest ∧ n = body.length + 1 ∧ Quotable quote body := by
  fun_induction stringLength? quote s generalizing n with
  | case1 => cases h
  | case2 => cases h
  | case3 => cases h
  | case4 d s hline ih =>
    obtain ⟨m, hm, rfl⟩ := Option.map_eq_some_iff.1 h
    obtain ⟨body, rest, rfl, rfl, hbody⟩ := ih hm
    exact ⟨_, rest, rfl, rfl, .escaped d hbody⟩
  | case5 =>
    cases h
    exact ⟨[], _, rfl, rfl, .nil⟩
  | case6 c s hline hback hquote ih =>
    obtain ⟨m, hm, rfl⟩ := Option.map_eq_some_iff.1 h
    obtain ⟨body, rest, rfl, rfl, hbody⟩ := ih hm
    exact ⟨c :: body, rest, rfl, rfl, .plain hquote hback hline hbody⟩

/-- A string starts with a quote, and goes on as far as its end. -/
theorem Lexeme.Head.of_string {operand : Bool} {c : CodePoint} {s : Text} {n : Nat}
    (h : Head operand c s (token .string) n) : (c = '\'' ∨ c = '"') ∧ stringLength? c s = some n := by
  generalize hl : token .string = l at h
  cases h with
  | space | line | block | opening | number | template | regex => cases hl
  | word =>
    have := isWordKind_wordKind (c :: s.takeWhile inWord)
    rw [← token.inj hl] at this
    cases this
  | string hc h => exact ⟨hc, h⟩
  | mark =>
    have hkind := token.inj hl
    unfold punctuator at hkind
    split at hkind
    · cases hkind
    · exact absurd hkind.symm (punctuatorKind_ne c (by decide))

namespace StringLiteral

/-- `Comes s t`: decoding the text `s`, character by character and escape by escape, comes to its end
`t`. -/
inductive Comes : Text → Text → Prop
  | refl (s : Text) : Comes s s
  | character {c : CodePoint} {s t : Text} (hc : c ≠ '\\') (h : Comes s t) : Comes (c :: s) t
  | escape {d : CodePoint} {s t : Text} {v : Option CodePoint} {n : Nat}
      (he : StringLiteral.escape d s = .ok (v, n)) (h : Comes (s.drop n) t) :
      Comes (CodePoint.ofChar '\\' :: d :: s) t

section Step

variable {quote c d : CodePoint} {e s t rest : Text} {u : Option CodePoint} {n : Nat}

/-- A code point that the lexer passes over in any string. -/
def IsSafe (c : CodePoint) : Prop := c ≠ '\\' ∧ c ≠ '\'' ∧ c ≠ '"'

instance (c : CodePoint) : Decidable (IsSafe c) := inferInstanceAs (Decidable (_ ∧ _))

theorem isSafe_of_hexValue? {digits : Text} (h : Text.hexValue? digits = some n) (hc : c ∈ digits) :
    IsSafe c := by
  obtain ⟨m, hm⟩ := exists_hexValue?_of_mem h hc
  refine ⟨?_, ?_, ?_⟩ <;> rintro rfl <;> cases hm

/-- Behind its first code point an escape has digits, braces or a line feed. -/
theorem isSafe_of_isEscape (h : IsEscape (d :: e) rest u) (hc : c ∈ e) : IsSafe c := by
  generalize hde : d :: e = de at h
  cases h with
  | control | zero | lineTerminator | itself =>
    obtain ⟨rfl, rfl⟩ := List.cons.inj hde
    cases hc
  | byte _ hvalue | unit _ hvalue =>
    obtain ⟨rfl, rfl⟩ := List.cons.inj hde
    exact isSafe_of_hexValue? hvalue hc
  | codePoint _ hvalue =>
    obtain ⟨rfl, rfl⟩ := List.cons.inj hde
    rcases List.mem_cons.1 hc with rfl | hc
    · decide
    · rcases List.mem_append.1 hc with hc | hc
      · exact isSafe_of_hexValue? hvalue hc
      · rw [List.mem_singleton.1 hc]
        decide
  | lineBreak =>
    obtain ⟨rfl, rfl⟩ := List.cons.inj hde
    rw [List.mem_singleton.1 hc]
    decide

/-- What the decoder takes behind the first code point of an escape. -/
theorem isSafe_of_escape (h : escape d s = .ok (u, n)) (hc : c ∈ s.take n) : IsSafe c :=
  isSafe_of_isEscape (isEscape_of_escape h) hc

theorem error_of_bracedHex {f : EscapeFault} (h : bracedHex s = .error f) :
    f = .invalidUnicode true ∨ f = .outOfRange := by
  unfold bracedHex at h
  simp only at h
  repeat' split at h
  all_goals cases h
  all_goals simp

/-- The faults of an escape. -/
theorem code_of_escape {f : EscapeFault} (h : escape d s = .error f) :
    f.code ≠ "not_a_string_literal" ∧ f.code ≠ "dangling_backslash" := by
  unfold escape at h
  repeat' split at h
  all_goals first
    | cases h
    | rcases error_of_bracedHex (Except.map_eq_error_iff.1 h) with rfl | rfl
  all_goals
    simp only [EscapeFault.code]
    decide

/-- Where decoding fails: at an escape, or behind a backslash that ends the text. -/
theorem comes_of_unescape {f : EscapeFault} (h : unescape s = .error f) :
    (∃ d t, Comes s (CodePoint.ofChar '\\' :: d :: t) ∧ escape d t = .error f) ∨
      Comes s [CodePoint.ofChar '\\'] := by
  fun_induction unescape s with
  | case1 => cases h
  | case2 => exact .inr (.refl _)
  | case3 d t g hescape =>
    cases h
    exact .inl ⟨d, t, .refl _, hescape⟩
  | case4 d t u n hescape ih =>
    rcases ih (Except.map_eq_error_iff.1 h) with ⟨d', t', hcomes, hfault⟩ | hcomes
    · exact .inl ⟨d', t', .escape hescape hcomes, hfault⟩
    · exact .inr (.escape hescape hcomes)
  | case5 c t hc ih =>
    rcases ih (Except.map_eq_error_iff.1 h) with ⟨d, t', hcomes, hfault⟩ | hcomes
    · exact .inl ⟨d, t', .character hc hcomes, hfault⟩
    · exact .inr (.character hc hcomes)

end Step

end StringLiteral

/-! ### In step -/

namespace Written.Quotable

open StringLiteral

variable {quote c d : CodePoint} {s t : Text} {u : Option CodePoint} {n : Nat}

/-- Behind a code point that is no backslash the lexer stands where a pair or a single code point
begins. -/
theorem tail (h : Quotable quote (c :: s)) (hc : c ≠ '\\') : Quotable quote s := by
  cases h with
  | plain _ _ _ hs => exact hs
  | escaped => exact absurd rfl hc

theorem behind_pair (h : Quotable quote (CodePoint.ofChar '\\' :: s)) :
    ∃ d r, s = d :: r ∧ Quotable quote r := by
  generalize hb : CodePoint.ofChar '\\' = b at h
  cases h with
  | plain _ hback => exact absurd hb.symm hback
  | escaped d hs => exact ⟨d, _, rfl, hs⟩

theorem drop (h : Quotable quote s) (n : Nat) (hs : ∀ c ∈ s.take n, c ≠ '\\') :
    Quotable quote (s.drop n) := by
  induction n generalizing s with
  | zero => exact h
  | succ n ih =>
    cases s with
    | nil => exact h
    | cons c s =>
      exact ih (h.tail (hs c List.mem_cons_self)) fun d hd => hs d (List.mem_cons_of_mem c hd)

/-- Behind an escape of the decoder, too. -/
theorem behind_escape (h : Quotable quote s) (he : escape d s = .ok (u, n)) : Quotable quote (s.drop n) :=
  h.drop n fun _ hc => (isSafe_of_escape he hc).1

/-- Wherever decoding comes to, a pair or a single code point of the lexer begins. -/
theorem comes (h : Quotable quote s) (hs : Comes s t) : Quotable quote t := by
  induction hs with
  | refl => exact h
  | character hc _ ih => exact ih (h.tail hc)
  | escape he _ ih =>
    obtain ⟨d, r, hr, hquotable⟩ := h.behind_pair
    obtain ⟨rfl, rfl⟩ := List.cons.inj hr
    exact ih (hquotable.behind_escape he)

/-- Decoding fails for an escape only, and never because a backslash ends the text. -/
theorem code_of_unescape {f : EscapeFault} (h : Quotable quote s) (hs : unescape s = .error f) :
    f.code ≠ "not_a_string_literal" ∧ f.code ≠ "dangling_backslash" := by
  rcases comes_of_unescape hs with ⟨d, t, -, hescape⟩ | hcomes
  · exact code_of_escape hescape
  · obtain ⟨d, r, hr, -⟩ := (h.comes hcomes).behind_pair
    cases hr

end Written.Quotable

/-! ### Tokens -/

open Lexer StringLiteral

variable {source : Text} {ts : TokenStream} {t : Token}

/-- A string of a source stands between two equal quotes. Between them the quote is only behind a backslash
that is paired with it. Wherever the decoder comes to in the text, the lexer stood too, and no escape that
it takes there holds a further backslash or the quote. So decoding never fails because the text is no literal
or ends with a backslash. -/
theorem extent_of_tokenize (h : tokenize source = .ok ts) (ht : t ∈ ts.tokens) (hk : t.kind = .string) :
    ∃ (quote : CodePoint) (body : Text), (quote = '\'' ∨ quote = '"') ∧ t.text = quote :: (body ++ [quote]) ∧
      Quotable quote body ∧ (∀ s, Comes body s → Quotable quote s) ∧
      (∀ d s u n, Comes body (CodePoint.ofChar '\\' :: d :: s) → escape d s = .ok (u, n) →
        ∀ c ∈ s.take n, c ≠ '\\' ∧ c ≠ quote) ∧
      ∀ f, decode t.text = .error f →
        f.code ≠ "not_a_string_literal" ∧ f.code ≠ "dangling_backslash" := by
  obtain ⟨operand, rest, hlexes⟩ := lexes_of_tokenize h ht
  obtain ⟨quote, w, htext, hhead⟩ := (hlexes.tokenAt .start).head (by rw [hk]; decide)
  replace htext : t.text = quote :: w := htext
  rw [hk] at hhead
  obtain ⟨hquote, hlength⟩ := hhead.of_string
  obtain ⟨body, rest', hrest, hw, hbody⟩ := Lexeme.exists_of_stringLength? hlength
  obtain rfl : w = body ++ [quote] := by
    rw [List.append_cons] at hrest
    exact (List.append_inj hrest (by simp [hw])).1
  refine ⟨quote, body, hquote, htext, hbody, fun s hs => hbody.comes hs, ?_, fun f hf => ?_⟩
  · intro d s u n _ he c hc
    obtain ⟨hback, hsingle, hdouble⟩ := isSafe_of_escape he hc
    exact ⟨hback, hquote.elim (fun hq => hq ▸ hsingle) fun hq => hq ▸ hdouble⟩
  · have hdelimited : ((quote = '\'' || quote = '"') && (body ++ [quote]).getLast? = some quote) := by
      simpa using hquote
    simp only [htext, decode, hdelimited, if_true, List.dropLast_concat, decodeBody] at hf
    exact hbody.code_of_unescape (Except.map_eq_error_iff.1 hf)

/-- A string with a quote of its own, escapes of several widths and a backslash at its end. -/
theorem extent_in_escapedString :
    ∃ ts t, tokenize "f('\\'\\x27\\u\x7b5c\x7d\\\\')" = .ok ts ∧ t ∈ ts.tokens ∧ t.kind = .string ∧
      decode t.text = .ok "''\\\\" ∧
      ∃ (quote : CodePoint) (body : Text), (quote = '\'' ∨ quote = '"') ∧
        t.text = quote :: (body ++ [quote]) ∧ Quotable quote body ∧ (∀ s, Comes body s → Quotable quote s) ∧
        (∀ d s u n, Comes body (CodePoint.ofChar '\\' :: d :: s) → escape d s = .ok (u, n) →
          ∀ c ∈ s.take n, c ≠ '\\' ∧ c ≠ quote) ∧
        ∀ f, decode t.text = .error f →
          f.code ≠ "not_a_string_literal" ∧ f.code ≠ "dangling_backslash" := by
  obtain ⟨ts, h, hts⟩ := Except.exists_of_any_toOption
    (x := tokenize "f('\\'\\x27\\u\x7b5c\x7d\\\\')")
    (p := fun ts => ∃ t ∈ ts.tokens, t.kind = .string ∧ decode t.text = .ok "''\\\\")
    (by decide +kernel)
  obtain ⟨t, ht, hk, hvalue⟩ := of_decide_eq_true hts
  exact ⟨ts, t, h, ht, hk, hvalue, extent_of_tokenize h ht hk⟩

end ScriptBundle
