import ScriptBundle.Proofs.Token.Fragment

/-!
# White space and comments

What the lexer passes over between two tokens is described here on its own, without the lexer: code
points of white space, comments in `/*` and `*/`, and comments behind `//` that go on to the end of
their line. `gaps_iff_trivia` says that the lexer passes over exactly that.

* `Trivia`: white space and complete comments, in front of another text;
* `commentLength?_eq_some_iff`: where a comment ends;
* `gaps_iff_trivia`: the two descriptions are the same.
-/

namespace ScriptBundle

namespace Lexer

open Lexeme (Head inLineComment commentLength?)

/-- White space and complete comments, when the text stands in front of `rest`. A comment in a line goes
on up to a line feed, a code point zero or the end of the source. -/
inductive Trivia : Text → Text → Prop
  | nil (rest : Text) : Trivia [] rest
  | space {c : CodePoint} {g rest : Text} (hc : Lexeme.isSpace c) (hg : Trivia g rest) :
      Trivia (c :: g) rest
  | lineComment {body g rest : Text} (hbody : ∀ c ∈ body, c ≠ '\n' ∧ c ≠ '\x00')
      (hend : ∀ c ∈ (g ++ rest).head?, c = '\n' ∨ c = '\x00') (hg : Trivia g rest) :
      Trivia ("//" ++ body ++ g) rest
  | blockComment {body g rest : Text} (hbody : Uncommented body) (hg : Trivia g rest) :
      Trivia ("/*" ++ body ++ "*/" ++ g) rest

variable {g g' rest s body : Text} {n : Nat}

/-- Only the head of what is behind it matters to white space and comments. -/
theorem Trivia.of_head? {rest rest' : Text} (h : Trivia g rest) (hrest : rest.head? = rest'.head?) :
    Trivia g rest' := by
  induction h with
  | nil => exact .nil rest'
  | space hc _ ih => exact .space hc (ih hrest)
  | @lineComment body g rest hbody hend _ ih =>
    refine .lineComment hbody ?_ (ih hrest)
    rwa [List.head?_append, ← hrest, ← List.head?_append]
  | blockComment hbody _ ih => exact .blockComment hbody (ih hrest)

/-! ### Where comments end -/

theorem inLineComment_iff {c : CodePoint} : inLineComment c ↔ c ≠ '\n' ∧ c ≠ '\x00' := by
  simp [inLineComment]

/-- A star behind a text ends no comment in it. -/
theorem Uncommented.concat_star (h : Uncommented body) : Uncommented (body ++ [CodePoint.ofChar '*']) := by
  refine List.isChain_append.2 ⟨h, List.isChain_singleton _, ?_⟩
  rintro c - d hd ⟨-, rfl⟩
  cases hd

/-- A comment ends with the first star in front of a slash. -/
theorem commentLength?_eq_some_iff :
    commentLength? s = some n ↔
      ∃ body rest, s = body ++ "*/" ++ rest ∧ Uncommented body ∧ n = body.length + 2 := by
  have hmark : Text.ofString "*/" = [CodePoint.ofChar '*', CodePoint.ofChar '/'] := by decide
  simp only [hmark]
  constructor
  · intro h
    induction s generalizing n with
    | nil => cases h
    | cons c s ih =>
      unfold commentLength? at h
      split at h
      · next hc =>
        simp only [Bool.and_eq_true, decide_eq_true_eq] at hc
        obtain ⟨r, rfl⟩ := Lexeme.eq_cons_of_headIs hc.2
        cases h
        exact ⟨[], r, by rw [hc.1]; rfl, .nil, rfl⟩
      · next hc =>
        obtain ⟨m, hm, rfl⟩ := Option.map_eq_some_iff.1 h
        obtain ⟨body, rest, rfl, hbody, rfl⟩ := ih hm
        refine ⟨c :: body, rest, rfl, ?_, rfl⟩
        cases body with
        | nil => exact List.isChain_singleton c
        | cons d body =>
          -- The comment would have ended at `c`.
          refine List.isChain_cons_cons.2 ⟨?_, hbody⟩
          rintro ⟨rfl, rfl⟩
          exact hc (by simp [Text.headIs])
  · rintro ⟨body, rest, rfl, hbody, rfl⟩
    have := commentLength?_append hbody.concat_star rest
    rwa [List.append_assoc]

/-- A line goes on exactly as far as its code points belong to the comment. -/
theorem takeWhile_inLineComment (hbody : ∀ c ∈ body, c ≠ '\n' ∧ c ≠ '\x00')
    (hend : ∀ c ∈ s.head?, c = '\n' ∨ c = '\x00') : (body ++ s).takeWhile inLineComment = body := by
  rw [List.takeWhile_append_of_pos fun c hc => inLineComment_iff.2 (hbody c hc)]
  cases s with
  | nil => simp
  | cons c s =>
    have hc : inLineComment c = false := by
      rcases hend c rfl with rfl | rfl <;> rfl
    simp [hc]

theorem head?_of_takeWhile (hs : s.takeWhile inLineComment ++ g = s) :
    ∀ c ∈ g.head?, c = '\n' ∨ c = '\x00' := by
  intro c hc
  by_contra hne
  rw [not_or] at hne
  obtain ⟨r, rfl⟩ : ∃ r, g = c :: r := by
    cases g with
    | nil => cases hc
    | cons d r => exact ⟨r, by rw [Option.some.inj hc]⟩
  have htake := congrArg (List.takeWhile inLineComment) hs
  have hall : ∀ d ∈ s.takeWhile inLineComment, inLineComment d :=
    List.all_eq_true.1 s.all_takeWhile
  rw [List.takeWhile_append_of_pos hall, List.append_right_eq_self,
    List.takeWhile_cons_of_pos (inLineComment_iff.2 hne)] at htake
  cases htake

/-! ### What the lexer passes over -/

theorem gaps_of_trivia (h : Trivia g rest) : Gaps g rest := by
  induction h with
  | nil rest => exact .nil rest
  | space hc _ ih => exact .cons (w := []) (fun _ => .space hc) ih
  | @lineComment body g rest hbody hend _ ih =>
    have hgaps : Gaps (CodePoint.ofChar '/' :: ((CodePoint.ofChar '/' :: body) ++ g)) rest := by
      refine .cons (fun operand => ?_) ih
      have htake := takeWhile_inLineComment hbody hend
      have hhead : Head operand (CodePoint.ofChar '/')
          (CodePoint.ofChar '/' :: (body ++ (g ++ rest))) _ _ := .line rfl rfl
      rw [List.tail_cons, htake, Nat.add_comm] at hhead
      exact hhead
    exact hgaps
  | @blockComment body g rest hbody _ ih =>
    have hmark : Text.ofString "*/" = [CodePoint.ofChar '*', CodePoint.ofChar '/'] := by decide
    have hgaps : Gaps (CodePoint.ofChar '/' :: ((CodePoint.ofChar '*' :: (body ++ "*/")) ++ g)) rest := by
      refine .cons (fun operand => ?_) ih
      have hlength : commentLength? (body ++ "*/" ++ (g ++ rest)) = some (body.length + 2) :=
        commentLength?_eq_some_iff.2 ⟨body, g ++ rest, rfl, hbody, rfl⟩
      have hhead : Head operand (CodePoint.ofChar '/')
          (CodePoint.ofChar '*' :: (body ++ "*/" ++ (g ++ rest))) _ _ := .block rfl rfl hlength
      have hw : (CodePoint.ofChar '*' :: (body ++ "*/")).length = 1 + (body.length + 2) := by
        simp only [hmark, List.length_cons, List.length_append, List.length_nil]
        omega
      rw [hw]
      exact hhead
    have htext : CodePoint.ofChar '/' :: ((CodePoint.ofChar '*' :: (body ++ "*/")) ++ g) =
        "/*" ++ body ++ "*/" ++ g := by
      simp only [List.append_assoc, List.cons_append]
      rfl
    exact htext ▸ hgaps

theorem trivia_of_gaps (h : Gaps g rest) : Trivia g rest := by
  induction h with
  | nil rest => exact .nil rest
  | @cons c w g rest hhead _ ih =>
    replace hhead := hhead true
    generalize hl : Lexeme.gap = l at hhead
    generalize hs : w ++ (g ++ rest) = s at hhead
    generalize hn : w.length = n at hhead
    cases hhead with
    | space hc =>
      obtain rfl := List.length_eq_zero_iff.1 hn
      exact .space hc ih
    | line hc hslash =>
      obtain ⟨r, rfl⟩ := Lexeme.eq_cons_of_headIs hslash
      obtain ⟨body, rfl⟩ : ∃ body, w = CodePoint.ofChar '/' :: body := by
        cases w with
        | nil => simp only [List.length_nil] at hn; omega
        | cons d body => exact ⟨body, by rw [(List.cons.inj hs).1]⟩
      obtain rfl : body ++ (g ++ rest) = r := (List.cons.inj hs).2
      -- The comment is the line, since it is as long as the line.
      have hbody : (body ++ (g ++ rest)).takeWhile inLineComment = body := by
        have hprefix := List.prefix_iff_eq_take.1
          (List.takeWhile_prefix (l := body ++ (g ++ rest)) inLineComment)
        rw [List.length_cons, Nat.add_comm, List.tail_cons] at hn
        rwa [← Nat.add_left_cancel hn, List.take_left] at hprefix
      have hall : ∀ d ∈ body, d ≠ '\n' ∧ d ≠ '\x00' := by
        intro d hd
        rw [← hbody] at hd
        exact inLineComment_iff.1 (List.all_eq_true.1 List.all_takeWhile d hd)
      have hend := head?_of_takeWhile (s := body ++ (g ++ rest)) (g := g ++ rest) (by rw [hbody])
      have := Trivia.lineComment hall hend ih
      rw [hc]
      exact this
    | @block m hc hstar hm =>
      obtain ⟨r, rfl⟩ := Lexeme.eq_cons_of_headIs hstar
      obtain ⟨w, rfl⟩ : ∃ w', w = CodePoint.ofChar '*' :: w' := by
        cases w with
        | nil => simp only [List.length_nil] at hn; omega
        | cons d w' => exact ⟨w', by rw [(List.cons.inj hs).1]⟩
      obtain rfl : w ++ (g ++ rest) = r := (List.cons.inj hs).2
      obtain ⟨body, r, hr, hbody, rfl⟩ := commentLength?_eq_some_iff.1 hm
      have hw : w = body ++ "*/" := by
        refine List.append_inj_left hr ?_
        have hmark : (Text.ofString "*/").length = 2 := by decide
        simp only [List.length_cons, List.length_append] at hn ⊢
        omega
      have htext : c :: (CodePoint.ofChar '*' :: w ++ g) = "/*" ++ body ++ "*/" ++ g := by
        rw [hc, hw]
        simp only [List.append_assoc, List.cons_append]
        rfl
      exact htext ▸ .blockComment hbody ih
    | word | number | string | template | opening | regex | mark => cases hl

/-- The lexer passes over white space and complete comments, and over nothing else. -/
theorem gaps_iff_trivia : Gaps g rest ↔ Trivia g rest := ⟨trivia_of_gaps, gaps_of_trivia⟩

end Lexer

end ScriptBundle
