import ScriptBundle.Proofs.Token.Trivia

/-!
# Nothing of a source is lost

A source either has tokens or a fault. The tokens take all of the source but white space and comments,
each of them knows its place, and there is one at the end. A fault shows where something starts that is
not terminated.

* `lineAt`, `columnAt`: the line and the column of an offset, by counting in the source;
* `Partition`: what the tokens of a source are;
* `Unterminated.Opens`: the beginning of what is not terminated;
* `partition_or_fault`: every source has the one or the other.
-/

namespace ScriptBundle

open Lexer

/-- The line of an offset: line feeds in front of it start new ones. -/
def lineAt (source : Text) (offset : Nat) : Nat := 1 + Text.lineFeeds (source.take offset)

/-- The column of an offset: its distance from the last line feed in front of it, or from the beginning. -/
def columnAt (source : Text) (offset : Nat) : Nat :=
  1 + ((source.take offset).reverse.takeWhile (· ≠ CodePoint.ofChar '\n')).length

/-- The offset behind the tokens `ts`, the first of which stands behind the offset `first`. -/
def stopOf (first : Nat) (ts : List Token) : Nat := (ts.getLast?.map Token.stop).getD first

/-- The tokens are a source, less white space and comments. -/
structure Partition (source : Text) (tokens : List Token) : Prop where
  length_le : tokens.length ≤ source.length + 1
  /-- The last token, and no other, stands for the end of the source. -/
  exists_last : ∃ front last, tokens = front ++ [last] ∧ last.kind = .endOfFile ∧ last.text = [] ∧
    last.start.offset = source.length ∧ ∀ t ∈ front, t.kind ≠ .endOfFile
  /-- Every other token is a piece of the source. -/
  text_eq : ∀ t ∈ tokens, t.kind ≠ .endOfFile →
    t.text ≠ [] ∧ t.text = (source.take t.stop).drop t.start.offset
  ordered : tokens.Pairwise fun t u => t.stop ≤ u.start.offset
  /-- In front of each token, back to the one before it or to the hashbang line, is what may be skipped. -/
  trivia : ∀ before t after, tokens = before ++ t :: after →
    Trivia ((source.take t.start.offset).drop (stopOf (hashbang source).length before))
      (source.drop t.start.offset)
  line_eq : ∀ t ∈ tokens, t.start.line = lineAt source t.start.offset
  column_eq : ∀ t ∈ tokens, t.start.column = columnAt source t.start.offset

/-! ### Positions -/

theorem column_after_start (s : Text) :
    (Position.start.after s).column = 1 + (s.reverse.takeWhile (· ≠ CodePoint.ofChar '\n')).length := by
  induction s using List.reverseRecOn with
  | nil => rfl
  | append_singleton s c ih =>
    have hstep : Position.start.after (s ++ [c]) = (Position.start.after s).next c :=
      Position.after_append ..
    rw [hstep, List.reverse_append, List.reverse_singleton, List.singleton_append, Position.next]
    by_cases hc : c = '\n'
    · rw [if_pos hc, List.takeWhile_cons_of_neg (by simp [hc])]
      rfl
    · rw [if_neg hc, List.takeWhile_cons_of_pos (by simpa using hc), List.length_cons, ih, Nat.add_assoc]

/-- The line and the column behind a piece of a source are those of its offset. -/
theorem position_after {source before after : Text} (h : source = before ++ after) :
    (Position.start.after before).offset = before.length ∧
      (Position.start.after before).line = lineAt source before.length ∧
        (Position.start.after before).column = columnAt source before.length := by
  have htake : source.take before.length = before := by rw [h, List.take_left]
  refine ⟨?_, ?_, ?_⟩
  · rw [Position.offset_after]
    exact Nat.zero_add _
  · rw [Position.line_after, lineAt, htake]
    rfl
  · rw [column_after_start, columnAt, htake]

/-! ### Tokens -/

/-- No punctuator is the end of the source, a template literal or a string. -/
theorem punctuatorKind_ne (c : CodePoint) {kind : TokenKind}
    (hkind : kind ∈ [TokenKind.endOfFile, .template, .string]) : Lexeme.punctuatorKind c ≠ kind := by
  have hite : ∀ {p : Prop} [Decidable p] {k k' : TokenKind}, k ≠ kind → k' ≠ kind →
      (if p then k else k') ≠ kind := by
    intro p _ k k' hk hk'
    split <;> assumption
  unfold Lexeme.punctuatorKind
  simp only [List.mem_cons, List.not_mem_nil, or_false] at hkind
  rcases hkind with rfl | rfl | rfl
  all_goals
    repeat refine hite (by decide) ?_
    decide

theorem kind_ne_endOfFile_of_head {operand : Bool} {c : CodePoint} {s : Text} {k : TokenKind} {n : Nat}
    (h : Lexeme.Head operand c s (.token k) n) : k ≠ .endOfFile := by
  generalize hl : Lexeme.token k = l at h
  cases h with
  | space | line | block | opening => cases hl
  | word =>
    cases hl
    unfold Lexeme.wordKind
    repeat' split
    all_goals exact fun h => by cases h
  | number | string | template | regex =>
    cases hl
    exact fun h => by cases h
  | mark =>
    cases hl
    unfold Lexeme.punctuator
    split
    · exact fun h => by cases h
    · exact punctuatorKind_ne c (by decide)

theorem kind_ne_endOfFile_of_lexes {operand : Bool} {k : TokenKind} {text rest : Text}
    (h : Lexes operand k text rest) : k ≠ .endOfFile := by
  by_cases hk : k = .template
  · rw [hk]
    exact fun h => by cases h
  · obtain ⟨c, w, -, hhead⟩ := (h.tokenAt .start).head hk
    exact kind_ne_endOfFile_of_head hhead

/-- The source as items: the tokens, the one at its end included, with what may be skipped in front of
them. -/
theorem exists_items {source : Text} {ts : TokenStream} (h : tokenize source = .ok ts) :
    ∃ items final, items.map Item.token = ts.tokens ∧
      source = hashbang source ++ textOf (items ++ [⟨final, ts.last⟩]) ∧
      Placed (Position.start.after (hashbang source)) (items ++ [⟨final, ts.last⟩]) ∧
      Lays true items final ∧ Trivia final [] := by
  obtain ⟨operand, hr⟩ := tokenize_eq_ok_iff.1 h
  obtain ⟨text, htext, hp⟩ := hr.exists_text
  obtain ⟨items, final, hmap, hs, hlays, hplaced, hgaps⟩ := exists_lays_of_reads hr rfl
  simp only [Place.first, List.append_nil] at hs hlays htext hp
  have hlast : ts.last.start = ((Position.start.after (hashbang source)).after (textOf items)).after
      final := by
    rw [← Position.after_append, ← hs, htext, ← hp]
    rfl
  refine ⟨items, final, hmap, ?_, ?_, hlays, trivia_of_gaps hgaps⟩
  · rw [textOf_append, textOf_cons, textOf_nil, List.append_nil, show ts.last.text = [] from rfl,
      List.append_nil, ← hs, hashbang_append_drop]
  · exact placed_concat hplaced hlast

/-- What may be skipped in front of an item. -/
theorem trivia_of_lays {operand : Bool} {items before after : List Item} {i : Item}
    {final : Text} {last : Token} (hlays : Lays operand items final) (hfinal : Trivia final [])
    (hlast : last.text = []) (h : items ++ [⟨final, last⟩] = before ++ i :: after) :
    Trivia i.gap (i.token.text ++ textOf after) := by
  cases List.eq_nil_or_concat after with
  | inl hnil =>
    subst hnil
    obtain ⟨-, hi⟩ := List.append_inj' h rfl
    cases hi
    rwa [hlast]
  | inr hconcat =>
    obtain ⟨after, j, rfl⟩ := hconcat
    rw [List.concat_eq_append, ← List.cons_append, ← List.append_assoc] at h
    obtain ⟨rfl, hj⟩ := List.append_inj' h rfl
    cases hj
    have hgap := (lays_append_iff.1 hlays).2.1
    rw [List.concat_eq_append, textOf_append, textOf_cons, textOf_nil, hlast, List.append_nil,
      List.append_nil]
    exact trivia_of_gaps hgap

theorem stopOf_of_placed {p : Position} {before after : List Item} (h : Placed p (before ++ after)) :
    stopOf p.offset (before.map Item.token) = p.offset + (textOf before).length := by
  by_cases hnil : before = []
  · subst hnil
    rfl
  · rw [stopOf, List.getLast?_map, List.getLast?_eq_some_getLast hnil]
    exact stop_getLast h hnil

/-- No item is empty, so there are not more of them than code points. -/
theorem length_le_textOf {operand : Bool} {items : List Item} {rest : Text}
    (h : Lays operand items rest) : items.length ≤ (textOf items).length := by
  induction items generalizing operand with
  | nil => exact Nat.zero_le _
  | cons i items ih =>
    obtain ⟨-, hlexes, hlays⟩ := h
    have hitem : 0 < i.token.text.length := List.length_pos_iff.2 hlexes.ne_nil
    have hrest := ih hlays
    rw [textOf_cons, List.length_append, List.length_append, List.length_cons]
    omega

theorem partition_of_tokenize {source : Text} {ts : TokenStream} (h : tokenize source = .ok ts) :
    Partition source ts.toList := by
  obtain ⟨items, final, hmap, hsource, hplaced, hlays, hfinal⟩ := exists_items h
  have htokens : ts.toList = List.map Item.token (items ++ [⟨final, ts.last⟩]) := by
    rw [List.map_append, hmap]
    rfl
  -- A token of the list, with what is in front of it and behind it in the source.
  have hplace : ∀ before t after, ts.toList = before ++ t :: after → ∃ front gap rest,
      source = hashbang source ++ front ++ gap ++ (t.text ++ rest) ∧
      t.start = Position.start.after (hashbang source ++ front ++ gap) ∧
      stopOf (hashbang source).length before = (hashbang source ++ front).length ∧
      Trivia gap (t.text ++ rest) := by
    intro before t after heq
    obtain ⟨bs, js, hitems, rfl, hjs⟩ := List.map_eq_append_iff.1 (htokens.symm.trans heq)
    obtain ⟨i, as, rfl, rfl, -⟩ := List.map_eq_cons_iff.1 hjs
    rw [hitems] at hplaced hsource
    refine ⟨textOf bs, i.gap, textOf as, ?_, ?_, ?_, trivia_of_lays hlays hfinal rfl hitems⟩
    · rw [textOf_append, textOf_cons, ← List.append_assoc, ← List.append_assoc] at hsource
      exact hsource
    · rw [Position.after_append, Position.after_append]
      exact (placed_append hplaced).1
    · have hstop := stopOf_of_placed hplaced
      rw [Position.offset_after, show Position.start.offset = 0 from rfl, Nat.zero_add] at hstop
      rw [hstop, List.length_append]
  have hmem : ∀ t ∈ ts.toList, ∃ front rest, source = front ++ (t.text ++ rest) ∧
      t.start = Position.start.after front := by
    intro t ht
    obtain ⟨before, after, heq⟩ := List.append_of_mem ht
    obtain ⟨front, gap, rest, hs, hstart, -⟩ := hplace before t after heq
    exact ⟨_, rest, hs, hstart⟩
  have hkinds : ∀ t ∈ ts.tokens, t.kind ≠ .endOfFile := by
    intro t ht
    rw [← hmap] at ht
    obtain ⟨i, hi, rfl⟩ := List.mem_map.1 ht
    obtain ⟨bs, as, rfl⟩ := List.append_of_mem hi
    exact kind_ne_endOfFile_of_lexes (lays_append_iff.1 hlays).2.2.1
  refine ⟨?_, ?_, ?_, ?_, ?_, ?_, ?_⟩
  · have hlength := congrArg List.length hsource
    have hcount := length_le_textOf hlays
    rw [htokens, List.length_map, List.length_append, List.length_singleton]
    rw [textOf_append, List.length_append, List.length_append] at hlength
    omega
  · exact ⟨ts.tokens, ts.last, rfl, rfl, rfl, finish_of_tokenize h, hkinds⟩
  · intro t ht hk
    obtain ⟨front, rest, hs, hstart⟩ := hmem t ht
    have hoffset : t.start.offset = front.length := by
      rw [hstart]
      exact (position_after hs).1
    have hstop : t.stop = front.length + t.text.length := by rw [Token.stop, hoffset]
    refine ⟨?_, ?_⟩
    · rcases List.mem_append.1 ht with ht | ht
      · exact text_ne_nil_of_tokenize h ht
      · rw [List.mem_singleton.1 ht] at hk
        exact absurd rfl hk
    · rw [hs, hstop, hoffset, List.take_length_add_append, List.take_left, List.drop_left]
  · refine List.pairwise_append.2 ⟨increasing_of_tokenize h, List.pairwise_singleton _ _, ?_⟩
    intro t ht u hu
    rw [List.mem_singleton.1 hu, show ts.last.start.offset = source.length from finish_of_tokenize h]
    exact stop_le_of_tokenize h ht
  · intro before t after heq
    obtain ⟨front, gap, rest, hs, hstart, hstop, htrivia⟩ := hplace before t after heq
    have hoffset : t.start.offset = (hashbang source ++ front ++ gap).length := by
      rw [hstart]
      exact (position_after hs).1
    have hcut : ∀ v w : Text, source = v ++ w → source.take v.length = v ∧ source.drop v.length = w := by
      intro v w h
      rw [h, List.take_left, List.drop_left]
      exact ⟨rfl, rfl⟩
    obtain ⟨htake, hdrop⟩ := hcut _ _ hs
    rw [hstop, hoffset, htake, hdrop, List.drop_left]
    exact htrivia
  · intro t ht
    obtain ⟨front, rest, hs, hstart⟩ := hmem t ht
    obtain ⟨hoffset, hline, -⟩ := position_after hs
    rw [hstart, hoffset, hline]
  · intro t ht
    obtain ⟨front, rest, hs, hstart⟩ := hmem t ht
    obtain ⟨hoffset, -, hcolumn⟩ := position_after hs
    rw [hstart, hoffset, hcolumn]

/-! ### Faults -/

/-- What is not terminated starts at the head of the text. -/
def Unterminated.Opens : Unterminated → Text → Prop
  | .string, s => Text.headIs s '\'' ∨ Text.headIs s '"'
  | .template, s => Text.headIs s '`'
  | .regex, s => Text.headIs s '/'
  | .comment, s => Text.ofString "/*" <+: s

/-- The fault shows a place in the source where what is not terminated starts. -/
def LexicalFault.Shows (f : LexicalFault) (source : Text) : Prop :=
  ∃ front rest, source = front ++ rest ∧ f.position = Position.start.after front ∧ f.cause.Opens rest

theorem opens_of_read {operand : Bool} {c : CodePoint} {s : Text} {cause : Unterminated}
    (h : Lexeme.read operand c s = .error cause) : cause.Opens (c :: s) := by
  unfold Lexeme.read at h
  split at h
  · cases h
  split at h
  · cases h
  split at h
  · next hblock =>
    simp only [Bool.and_eq_true, decide_eq_true_eq] at hblock
    obtain ⟨r, rfl⟩ := Lexeme.eq_cons_of_headIs hblock.2
    split at h
    · cases h
    · cases h
      exact ⟨r, by rw [hblock.1]; rfl⟩
  split at h
  · cases h
  split at h
  · cases h
  split at h
  · next hquote =>
    split at h
    · cases h
    · cases h
      simpa [Unterminated.Opens, Text.headIs] using hquote
  split at h
  · next hquote =>
    split at h
    · cases h
    · cases h
    · cases h
      simpa [Unterminated.Opens, Text.headIs] using hquote
  split at h
  · next hregex =>
    simp only [Bool.and_eq_true, decide_eq_true_eq] at hregex
    split at h
    · cases h
    · cases h
      simp [Unterminated.Opens, Text.headIs, hregex.1]
  · cases h

namespace Lexer

/-- Every open template literal starts with a backquote of the source, at its place. -/
def Rooted (source : Text) (frames : List Frame) : Prop :=
  ∀ f ∈ frames, LexicalFault.Shows ⟨.template, f.start⟩ source

theorem rooted_braced {source : Text} {kind : TokenKind} {frames : List Frame}
    (h : Rooted source frames) : Rooted source (braced kind frames) := by
  intro f hf
  obtain ⟨g, hg, hstart, -⟩ := mem_braced hf
  exact hstart ▸ h g hg

theorem rooted_step {source front s : Text} {st : State} {c : CodePoint} {r : Step}
    (hs : source = front ++ c :: s) (h : Rooted source st.frames)
    (hstep : step st (Position.start.after front) c s = .ok r) : Rooted source r.state.frames := by
  rcases step_cases hstep with hstep | ⟨f, fs, hf, -, -, hstep⟩
  · rcases readLexeme_cases hstep with ⟨n, -, rfl⟩ | ⟨n, hread, rfl⟩ | ⟨kind, n, -, rfl⟩
    · exact h
    · intro f hf
      rcases List.mem_cons.1 hf with rfl | hf
      · refine ⟨front, c :: s, hs, rfl, ?_⟩
        cases Lexeme.read_eq_ok_iff.1 hread with
        | opening hc => simp [Unterminated.Opens, Text.headIs, hc]
      · exact h f hf
    · exact rooted_braced h
  · have htail : Rooted source fs := fun g hg => h g (hf ▸ List.mem_cons_of_mem f hg)
    rcases resume_cases hstep with ⟨n, -, rfl⟩ | ⟨n, -, rfl⟩
    · exact fun g hg => h g (hf ▸ hg)
    · exact htail

theorem shows_of_step {source front s : Text} {st : State} {c : CodePoint} {f : LexicalFault}
    (hs : source = front ++ c :: s) (h : Rooted source st.frames)
    (hstep : step st (Position.start.after front) c s = .error f) : f.Shows source := by
  have hread : readLexeme st (Position.start.after front) c s = .error f → f.Shows source := by
    intro hread
    unfold readLexeme at hread
    split at hread
    · next hcause =>
      cases hread
      exact ⟨front, c :: s, hs, rfl, opens_of_read hcause⟩
    all_goals cases hread
  unfold step at hstep
  split at hstep
  · next g gs hg =>
    split at hstep
    · unfold resume at hstep
      split at hstep
      · cases hstep
        exact h g (hg ▸ List.mem_cons_self)
      all_goals cases hstep
    · exact hread hstep
  · exact hread hstep

/-- A run that fails shows what is not terminated, also when that started further up. -/
theorem shows_of_run {source front s : Text} {st : State} {p : Position} {f : LexicalFault}
    (h : run st p s = .error f) (hp : p = Position.start.after front) (hs : source = front ++ s)
    (hframes : Rooted source st.frames) : f.Shows source := by
  fun_induction run st p s generalizing front with
  | case1 => cases h
  | case2 st p g gs hg =>
    cases h
    exact hframes g (hg ▸ List.mem_cons_self)
  | case3 st p c s e hstep =>
    cases h
    exact shows_of_step hs hframes (hp ▸ hstep)
  | case4 st p c s r hstep ih =>
    have hrun : run r.state (p.after (c :: s.take r.length)) (s.drop r.length) = .error f := by
      revert h
      generalize run r.state _ _ = x
      cases x with
      | error e => exact id
      | ok ts => exact fun h => by cases h
    have hp' : p.after (c :: s.take r.length) = Position.start.after (front ++ c :: s.take r.length) := by
      rw [hp, Position.after_append]
    have hs' : source = (front ++ c :: s.take r.length) ++ s.drop r.length := by
      rw [hs, List.append_assoc, List.cons_append, List.take_append_drop]
    exact ih hrun hp' hs' (rooted_step hs hframes (hp ▸ hstep))

end Lexer

theorem shows_of_tokenize {source : Text} {f : LexicalFault} (h : tokenize source = .error f) :
    f.Shows source :=
  shows_of_run h rfl (hashbang_append_drop source).symm fun _ hf => by cases hf

/-! ### Every source -/

/-- Every source has tokens, which are the source less white space and comments, or a fault, which shows
what is not terminated in it. -/
theorem partition_or_fault (source : Text) :
    (∃ ts, tokenize source = .ok ts ∧ Partition source ts.toList) ∨
      ∃ f, tokenize source = .error f ∧ f.Shows source := by
  cases h : tokenize source with
  | ok ts => exact .inl ⟨ts, rfl, partition_of_tokenize h⟩
  | error f => exact .inr ⟨f, rfl, shows_of_tokenize h⟩

end ScriptBundle
