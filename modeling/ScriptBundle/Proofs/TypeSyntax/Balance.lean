import ScriptBundle.Proofs.TypeSyntax.Script
import ScriptBundle.Proofs.TypeSyntax.Search

/-!
# The balance of plain scripts

The pieces of a plain script leave the search for type syntax in the group that it found, with as many
colons to wait for: a conditional and a clause bring a colon for what they wait for, a bracket closes the
group that it opened, and the colon of a property or of a label stands where no annotation can.

* `Shifts`, `Runs`: what a stretch of tokens does to the count of its group, and that nothing in it is type
  syntax;
* `Runs.append`, `passes_group`, `passes_conditional`: stretches put together.
-/

namespace ScriptBundle.TypeSyntax

open Statement (IsOptional)

/-- The context `c'` is in the group of `c`, and its count has changed by `f`. -/
structure Shifts (f : Nat → Nat) (c c' : Context) : Prop where
  group : c'.group = ⟨c.group.opener, f c.group.waiting⟩
  outer : c'.outer = c.outer

theorem Shifts.trans {f g : Nat → Nat} {c c' c'' : Context} (h : Shifts f c c') (h' : Shifts g c' c'') :
    Shifts (g ∘ f) c c'' where
  group := by rw [h'.group, h.group]; rfl
  outer := h'.outer.trans h.outer

/-- From every context with `P`, nothing in the tokens is type syntax, and they change the count of their
group by `f`. -/
def Runs (P : Context → Prop) (f : Nat → Nat) (ts : List Token) : Prop :=
  ∀ last gone c us, (∀ t ∈ ts, gone t = false) → P c →
    Quiet last gone c ts us ∧ Shifts f c (contextBehind last gone c ts us)

/-- The tokens are passed over from every context, and leave the count as it is. -/
def Passes (ts : List Token) : Prop := Runs (fun _ => True) id ts

section Runs

variable {P P' : Context → Prop} {f g : Nat → Nat} {t : Token} {ts us : List Token}

theorem Runs.mono (h : Runs P f ts) (hP : ∀ c, P' c → P c) : Runs P' f ts :=
  fun last gone c us hgone hc => h last gone c us hgone (hP c hc)

theorem Passes.runs (h : Passes ts) (P : Context → Prop) : Runs P id ts := h.mono fun _ _ => trivial

theorem Runs.append (h : Runs P f ts) (h' : Runs P' g us)
    (hmid : ∀ c c', P c → Shifts f c c' → c'.prev = ts.getLast?.or c.prev → P' c') :
    Runs P (g ∘ f) (ts ++ us) := by
  intro last gone c vs hgone hc
  rw [List.forall_mem_append] at hgone
  obtain ⟨hquiet, hshifts⟩ := h last gone c (us ++ vs) hgone.1 hc
  have hprev := prev_contextBehind last hgone.1 c (us ++ vs)
  obtain ⟨hquiet', hshifts'⟩ := h' last gone _ vs hgone.2 (hmid c _ hc hshifts hprev)
  rw [quiet_append_iff, contextBehind_append]
  exact ⟨⟨hquiet, hquiet'⟩, hshifts.trans hshifts'⟩

theorem passes_nil : Passes [] := fun _ _ _ _ _ _ => ⟨trivial, rfl, rfl⟩

theorem Passes.append (h : Passes ts) (h' : Passes us) : Passes (ts ++ us) :=
  Runs.append h h' fun _ _ _ _ _ => trivial

theorem Passes.cons (h : Passes [t]) (h' : Passes ts) : Passes (t :: ts) := h.append h'

/-- One token. -/
theorem runs_singleton (h : ∀ c next afterNext, P c →
    isTypeSyntax c t next afterNext = false ∧ Shifts f c (c.after t next)) : Runs P f [t] := by
  intro last gone c us hgone hc
  have ht := hgone t (List.mem_singleton.2 rfl)
  obtain ⟨hplain, hshifts⟩ := h c (us.headD last) (us.tail.headD last) hc
  rw [quiet_singleton_iff ht, contextBehind_singleton ht]
  exact ⟨hplain, hshifts⟩

end Runs

/-! ### Tokens -/

/-- The token has no meaning for the search: it is neither a bracket, a semicolon, a colon, a question
mark nor a word that types or clauses begin with. -/
structure IsInert (t : Token) : Prop where
  isPlain : t.isPlain
  ne_semicolon : t.kind ≠ .semicolon
  ne_colon : t.kind ≠ .colon
  ne_mark : t.kind = .operator → t.text ≠ "?"
  not_marked : t.kind = .identifier → t.text ∉ markedWords

section Tokens

variable {t : Token} {ts : List Token} {k : TokenKind} {w : Text}

theorem IsInert.of_kind (h : t.kind = k) (hk : k ≠ .operator ∧ k ≠ .identifier ∧ k ≠ .semicolon ∧
    k ≠ .colon ∧ k.isOpener = false ∧ k.isCloser = false) : IsInert t := by
  subst h
  exact ⟨by simp [Token.isPlain, hk.2.2.2.2], hk.2.2.1, hk.2.2.2.1, fun h => absurd h hk.1,
    fun h => absurd h hk.2.1⟩

theorem IsInert.of_operator (h : t.kind = .operator) (ht : t.text ≠ "?") : IsInert t :=
  ⟨isPlain_of_kind h (by decide), by simp [h], by simp [h], fun _ => ht, by simp [h]⟩

theorem IsInert.of_name (h : IsName t) : IsInert t :=
  ⟨isPlain_of_kind h.1 (by decide), by simp [h.1], by simp [h.1], by simp [h.1], fun _ => h.2⟩

theorem IsInert.of_isOperator (h : t.isOperator w) (hw : w ≠ "?") : IsInert t :=
  .of_operator (kind_of_isOperator h) (by rwa [text_of_isOperator h])

theorem IsInert.of_isWord (h : t.isWord w) (hw : w ∉ markedWords) : IsInert t :=
  .of_name ⟨Statement.kind_of_isWord h, by rwa [Statement.text_of_isWord h]⟩

/-- A word that no type begins with is no type syntax. -/
theorem isTypeSyntax_of_word (hk : t.kind = .identifier) (h : t.text ∉ typeWords) (c : Context)
    (next afterNext : Token) : isTypeSyntax c t next afterNext = false := by
  have hwords : t.text ∉ reservedWords ∧ t.text ≠ "as" ∧ t.text ≠ "satisfies" ∧ t.text ≠ "type" ∧
      t.text ≠ "enum" ∧ t.text ≠ "declare" ∧ t.text ≠ "namespace" ∧ t.text ≠ "module" ∧
      t.text ≠ "abstract" := by
    simpa [typeWords] using h
  simp [isTypeSyntax, hk, isModifier, isAssertion, isTypeDeclaration, hwords]

theorem IsInert.isTypeSyntax (h : IsInert t) (c : Context) (next afterNext : Token) :
    isTypeSyntax c t next afterNext = false := by
  by_cases hk : t.kind = .identifier
  · exact isTypeSyntax_of_word hk (fun hm => h.not_marked hk (List.mem_append_left _ hm)) c next afterNext
  · unfold TypeSyntax.isTypeSyntax
    split
    · next hk => simp [h.ne_mark hk]
    · next hk => exact absurd hk h.ne_colon
    · next hk' => exact absurd hk' hk
    · rfl

theorem IsInert.awaitsColon (h : IsInert t) (c : Context) (next : Token) :
    c.awaitsColon t next = false := by
  by_cases hk : t.kind = .identifier
  · have hwords : t.text ≠ "case" ∧ t.text ≠ "default" := by
      constructor <;> exact fun he => h.not_marked hk (he ▸ by decide)
    simp [Context.awaitsColon, Token.isWord, hwords]
  · simp [Context.awaitsColon, Token.isWord, hk]

/-- A token that is no bracket, no semicolon and no colon changes only the count. -/
theorem after_eq (hp : t.isPlain) (hs : t.kind ≠ .semicolon) (hc : t.kind ≠ .colon) (c : Context)
    (next : Token) : c.after t next =
      { c with
        prev := some t
        beforePrev := c.prev
        group := if t.isOperator "?" || c.awaitsColon t next then
          { c.group with waiting := c.group.waiting + 1 } else c.group } := by
  simp only [Token.isPlain, Bool.and_eq_true, Bool.not_eq_true'] at hp
  unfold Context.after
  simp only [hp.1, hp.2, hs, hc, Bool.false_eq_true, if_false]
  split <;> rfl

theorem IsInert.shifts (h : IsInert t) (c : Context) (next : Token) : Shifts id c (c.after t next) := by
  have hmark : t.isOperator "?" = false := by
    by_cases hk : t.kind = .operator
    · simp [Token.isOperator, h.ne_mark hk]
    · simp [Token.isOperator, hk]
  rw [after_eq h.isPlain h.ne_semicolon h.ne_colon, hmark, h.awaitsColon]
  exact ⟨rfl, rfl⟩

theorem IsInert.passes (h : IsInert t) : Passes [t] :=
  runs_singleton fun c next afterNext _ => ⟨h.isTypeSyntax c next afterNext, h.shifts c next⟩

theorem isTypeSyntax_of_kind (h : t.kind = k) (hk : k ≠ .operator ∧ k ≠ .colon ∧ k ≠ .identifier)
    (c : Context) (next afterNext : Token) : isTypeSyntax c t next afterNext = false := by
  subst h
  unfold TypeSyntax.isTypeSyntax
  split
  · next h => exact absurd h hk.1
  · next h => exact absurd h hk.2.1
  · next h => exact absurd h hk.2.2
  · rfl

end Tokens

/-! ### Groups -/

/-- Behind the token a word may be a label, and it names no member. -/
def IsFresh (t : Token) : Prop := t.text ∉ bindingWords ∧ t.selectsMember = false

/-- The next token is the first one, or it stands behind a fresh one. -/
def Context.IsFresh (c : Context) : Prop := ∀ t ∈ c.prev, TypeSyntax.IsFresh t

/-- Nothing waits in the group, which the bracket `k` has opened, and the token before is fresh. -/
def Opened (k : TokenKind) (c : Context) : Prop := c.group = ⟨some k, 0⟩ ∧ c.IsFresh

section Groups

variable {opener close colon mark : Token} {k : TokenKind} {ts us vs : List Token} {f : Nat → Nat}

theorem isFresh_of_isPunctuator {t : Token} (h : IsPunctuator k t) (hk : k ≠ .dot) : IsFresh t := by
  have hspelling : ∀ k, spelling k ∉ bindingWords ∧ spelling k ≠ "?." := by
    intro k
    cases k <;> decide
  exact ⟨h.2 ▸ (hspelling k).1, by simp [Token.selectsMember, h.1, hk, h.2, (hspelling k).2]⟩

theorem IsPunctuator.isCloser {t : Token} (h : IsPunctuator k t) (hk : k.isCloser) : t.kind.isCloser := by
  rw [h.1]
  exact hk

/-- An opening bracket puts the group aside, and starts a new one. -/
theorem after_of_isOpener {t : Token} (h : t.kind.isOpener) (c : Context) (next : Token) :
    c.after t next = ⟨⟨some t.kind, 0⟩, c.group :: c.outer, some t, c.prev⟩ := by
  rw [Context.after, if_pos h]

theorem opened_after (hk : k.isOpener) (ho : IsPunctuator k opener) (c : Context) (next : Token) :
    Opened k (c.after opener next) := by
  have hdot : k ≠ .dot := by
    rintro rfl
    cases hk
  rw [after_of_isOpener (by rw [ho.1, hk])]
  refine ⟨by rw [ho.1], fun t ht => ?_⟩
  obtain rfl := Option.some.inj ht
  exact isFresh_of_isPunctuator ho hdot

/-- A group in brackets leaves no trace. -/
theorem passes_group (hk : k.isOpener) (ho : IsPunctuator k opener) (h : Runs (Opened k) id ts)
    (hc : close.kind.isCloser) : Passes (opener :: (ts ++ [close])) := by
  intro last gone c us hgone _
  rw [List.forall_mem_cons, List.forall_mem_append, List.forall_mem_singleton] at hgone
  obtain ⟨hopener, hts, hclose⟩ := hgone
  have hkinds : ∀ k : TokenKind, k.isOpener ∨ k.isCloser → k ≠ .operator ∧ k ≠ .colon ∧ k ≠ .identifier := by
    intro k
    cases k <;> decide
  obtain ⟨hquiet, hshifts⟩ := h last gone _ (close :: us) hts
    (opened_after hk ho c ((ts ++ close :: us).headD last))
  generalize hbehind : contextBehind last gone _ ts (close :: us) = c' at hquiet hshifts
  have houter := hshifts.outer
  rw [after_of_isOpener (by rw [ho.1, hk])] at houter
  have hafter : c'.after close (us.headD last) = ⟨c.group, c.outer, some close, c'.prev⟩ := by
    simp only [Context.after, not_isOpener_of_isCloser hc, hc, houter, Bool.false_eq_true, if_false, if_true]
  have hfirst := isTypeSyntax_of_kind ho.1 (hkinds k (.inl hk)) c ((ts ++ close :: us).headD last)
    ((ts ++ close :: us).tail.headD last)
  have hlast := isTypeSyntax_of_kind rfl (hkinds _ (.inr hc)) c' (us.headD last) (us.tail.headD last)
  simp only [Quiet, contextBehind, hopener, Bool.false_eq_true, if_false, List.append_assoc,
    List.singleton_append]
  rw [quiet_append_iff, contextBehind_append, List.singleton_append, hbehind,
    quiet_singleton_iff hclose, contextBehind_singleton hclose, hafter]
  exact ⟨⟨hfirst, hquiet, hlast⟩, rfl, rfl⟩

end Groups

/-! ### Colons -/

/-- The first token is none in front of which a question mark makes a parameter optional. -/
def Starts (ts : List Token) : Prop := ∃ t us, ts = t :: us ∧ marksOptional t = false

section Colons

variable {P : Context → Prop} {colon mark dot name t : Token} {ts us vs : List Token}

theorem Starts.append (h : Starts ts) (us : List Token) : Starts (ts ++ us) := by
  obtain ⟨t, ts, rfl, ht⟩ := h
  exact ⟨t, ts ++ us, rfl, ht⟩

theorem starts_cons (h : marksOptional t = false) (ts : List Token) : Starts (t :: ts) := ⟨t, ts, rfl, h⟩

/-- A colon that annotates nothing. -/
theorem runs_colon (hc : IsPunctuator .colon colon) (hP : ∀ c, P c → annotates c = false) :
    Runs P (· - 1) [colon] := by
  refine runs_singleton fun c next afterNext h => ⟨?_, ?_⟩
  · simp only [isTypeSyntax, hc.1]
    exact hP c h
  · simp only [Context.after, hc.1]
    exact ⟨rfl, rfl⟩

/-- A question mark in front of a phrase waits for a colon. -/
theorem runs_mark (hm : mark.isOperator "?") (hs : Starts us) (h : Passes us) :
    Runs (fun _ => True) (· + 1) (mark :: us) := by
  obtain ⟨t, us, rfl, ht⟩ := hs
  intro last gone c vs hgone _
  rw [List.forall_mem_cons] at hgone
  have hkind := kind_of_isOperator hm
  have hafter : c.after mark t = { c with
      prev := some mark
      beforePrev := c.prev
      group := { c.group with waiting := c.group.waiting + 1 } } := by
    rw [after_eq (isPlain_of_kind hkind (by decide)) (by simp [hkind]) (by simp [hkind]), hm]
    rfl
  have hfirst : isTypeSyntax c mark t ((us ++ vs).headD last) = false := by
    simp [isTypeSyntax, hkind, text_of_isOperator hm, ht]
  obtain ⟨hquiet, hshifts⟩ := h last gone (c.after mark t) vs hgone.2 trivial
  rw [Quiet, contextBehind]
  simp only [hgone.1, Bool.false_eq_true, if_false, List.cons_append, List.headD_cons, List.tail_cons]
  refine ⟨⟨hfirst, hquiet⟩, ?_⟩
  rw [hafter] at hshifts ⊢
  exact ⟨hshifts.group, hshifts.outer⟩

/-- Where something waits, a colon annotates nothing. -/
theorem annotates_of_waiting {c : Context} (h : c.group.waiting ≠ 0) : annotates c = false := by
  simp [annotates, h]

/-- A conditional brings the colon that it waits for. -/
theorem passes_conditional (h : Passes ts) (hm : mark.isOperator "?") (hs : Starts us) (h' : Passes us)
    (hc : IsPunctuator .colon colon) (h'' : Passes vs) :
    Passes (ts ++ mark :: (us ++ colon :: vs)) := by
  have hcolon : Runs (fun c => c.group.waiting ≠ 0) (· - 1) [colon] :=
    runs_colon hc fun c => annotates_of_waiting
  have hmiddle : Passes ((mark :: us) ++ [colon]) := by
    refine (runs_mark hm hs h').append hcolon fun c c' _ hshifts _ => ?_
    rw [hshifts.group]
    exact Nat.succ_ne_zero _
  have := h.append (hmiddle.append h'')
  simpa using this

/-- A member may be named like any word. -/
theorem passes_member (hd : dot.kind = .dot ∨ dot.isOperator "?.") (hn : name.kind.isWordKind) :
    Passes [dot, name] := by
  have hdot : IsInert dot := by
    rcases hd with hd | hd
    · exact .of_kind hd (by decide)
    · exact .of_isOperator hd (by decide)
  have hselects : dot.selectsMember := by
    rcases hd with hd | hd
    · simp [Token.selectsMember, hd]
    · simp [Token.selectsMember, text_of_isOperator hd]
  have hname : Runs (fun c => c.inMember) id [name] := by
    refine runs_singleton fun c next afterNext hc => ?_
    by_cases hk : name.kind = .identifier
    · refine ⟨by simp [isTypeSyntax, hk, hc], ?_⟩
      rw [after_eq (isPlain_of_kind hk (by decide)) (by simp [hk]) (by simp [hk])]
      have hmark : (name.isOperator "?" || c.awaitsColon name next) = false := by
        simp [Token.isOperator, hk, Context.awaitsColon, hc]
      rw [hmark]
      exact ⟨rfl, rfl⟩
    · have hinert : IsInert name := by
        refine .of_kind rfl ?_
        revert hn hk
        cases name.kind <;> decide
      exact ⟨hinert.isTypeSyntax c next afterNext, hinert.shifts c next⟩
  refine (hdot.passes.runs _).append hname fun c c' _ _ hprev => ?_
  simp [Context.inMember, hprev, hselects]

end Colons

/-! ### Statements -/

/-- Nothing waits in the group. -/
def Rests (c : Context) : Prop := c.group.waiting = 0

/-- Nothing waits in the group, which is not one in parentheses, and the token before is fresh. -/
structure Settled (c : Context) : Prop where
  rests : Rests c
  opener : c.group.opener ≠ some .leftParen
  isFresh : c.IsFresh

/-- There is a last token, and it is fresh. -/
def Ends (ts : List Token) : Prop := ∃ front t, ts = front ++ [t] ∧ IsFresh t

/-- The last token, if there is one, is fresh. -/
def FreshEnd (ts : List Token) : Prop := ts = [] ∨ Ends ts

section Statements

variable {P : Context → Prop} {f g : Nat → Nat} {k : TokenKind} {w : Text}
  {t colon semicolon word opener close : Token} {ts us : List Token}

theorem Opened.settled {c : Context} (h : Opened k c) (hk : k ≠ .leftParen) : Settled c :=
  ⟨by rw [Rests, h.1], by rw [h.1]; simpa using hk, h.2⟩

theorem Opened.rests {c : Context} (h : Opened k c) : Rests c := by rw [Rests, h.1]

theorem Ends.concat (h : IsFresh t) (ts : List Token) : Ends (ts ++ [t]) := ⟨ts, t, rfl, h⟩

theorem Ends.append (h : Ends us) (ts : List Token) : Ends (ts ++ us) := by
  obtain ⟨front, t, rfl, ht⟩ := h
  exact ⟨ts ++ front, t, by rw [List.append_assoc], ht⟩

theorem FreshEnd.append (h : FreshEnd ts) (h' : FreshEnd us) : FreshEnd (ts ++ us) := by
  rcases h' with rfl | h'
  · rwa [List.append_nil]
  · exact .inr (h'.append ts)

theorem isFresh_of_isWord (h : t.isWord w) (hw : w ∉ bindingWords ∧ w ≠ "?.") : IsFresh t := by
  refine ⟨by rw [Statement.text_of_isWord h]; exact hw.1, ?_⟩
  simp [Token.selectsMember, Statement.kind_of_isWord h, Statement.text_of_isWord h, hw.2]

theorem Settled.behind {c c' : Context} (h : Settled c) (hshifts : Shifts id c c')
    (hprev : c'.prev = ts.getLast?.or c.prev) (he : FreshEnd ts) : Settled c' := by
  refine ⟨by rw [Rests, hshifts.group]; exact h.rests, by rw [hshifts.group]; exact h.opener, fun t ht => ?_⟩
  rw [hprev] at ht
  rcases he with rfl | ⟨front, u, rfl, hu⟩
  · exact h.isFresh t ht
  · rw [List.getLast?_concat] at ht
    rwa [← Option.some.inj ht]

/-- One stretch behind another that ends with a fresh token. -/
theorem Runs.behind (h : Runs Settled id ts) (he : FreshEnd ts) (h' : Runs Settled id us) :
    Runs Settled id (ts ++ us) :=
  h.append h' fun _ _ hc hshifts hprev => hc.behind hshifts hprev he

theorem Runs.congr (h : Runs P f ts) (hfg : ∀ c, P c → f c.group.waiting = g c.group.waiting) :
    Runs P g ts := by
  intro last gone c us hgone hc
  obtain ⟨hquiet, hshifts⟩ := h last gone c us hgone hc
  exact ⟨hquiet, by rw [hshifts.group, hfg c hc], hshifts.outer⟩

/-- One stretch behind another where nothing waits. -/
theorem Runs.behind_rests (h : Runs Rests id ts) (h' : Runs Rests id us) : Runs Rests id (ts ++ us) :=
  h.append h' fun _ _ hc hshifts _ => by rw [Rests, hshifts.group]; exact hc

/-- Outside parentheses a colon behind a fresh token and a word, or behind what is no word and no closing
parenthesis, annotates nothing. -/
theorem annotates_of_opener {c : Context} (h : c.group.opener ≠ some .leftParen)
    (hprev : ∀ p ∈ c.prev, p.kind ≠ .rightParen ∧
      (p.kind = .identifier → ∀ q ∈ c.beforePrev, q.text ∉ bindingWords)) : annotates c = false := by
  obtain ⟨⟨opener, waiting⟩, outer, prev, beforePrev⟩ := c
  cases prev with
  | none => simpa [annotates] using fun _ => h
  | some p =>
    obtain ⟨hparen, hword⟩ := hprev p rfl
    cases beforePrev with
    | none => simpa [annotates, hparen] using fun _ => h
    | some q =>
      have hq : p.kind = .identifier → q.text ∉ bindingWords := fun hk => hword hk q rfl
      simpa [annotates, hparen] using fun _ => ⟨h, hq⟩

/-- A word with its colon: the key of a property, a label, or `default`. -/
theorem runs_wordColon (ht : t.kind.isWordKind) (hc : IsPunctuator .colon colon) :
    Runs Settled id [t, colon] := by
  intro last gone c us hgone hsettled
  have hword : t.isPlain ∧ t.kind ≠ .semicolon ∧ t.kind ≠ .colon ∧ t.kind ≠ .operator ∧
      t.kind ≠ .rightParen := by
    unfold Token.isPlain
    revert ht
    cases t.kind <;> decide
  obtain ⟨hplain, hsemicolon, hcolon, hoperator, hparen⟩ := hword
  have hfirst : isTypeSyntax c t colon (us.headD last) = false := by
    unfold isTypeSyntax
    split <;> first | contradiction | simp [isModifier, isAssertion, isTypeDeclaration, hc.1]
  have hafter := after_eq hplain hsemicolon hcolon c colon
  rw [show t.isOperator "?" = false by simp [Token.isOperator, hoperator], Bool.false_or] at hafter
  generalize hbehind : c.after t colon = c' at hafter
  have hannotates : annotates c' = false := by
    cases hawaits : c.awaitsColon t colon with
    | true => exact annotates_of_waiting (by simp [hafter, hawaits])
    | false =>
      refine annotates_of_opener (by simpa [hafter, hawaits] using hsettled.opener) fun p hp => ?_
      rw [hafter] at hp ⊢
      obtain rfl := Option.some.inj hp
      exact ⟨hparen, fun _ q hq => (hsettled.isFresh q hq).1⟩
  obtain ⟨hquiet, hshifts⟩ := runs_colon (P := (· = c')) hc (fun _ h => h ▸ hannotates) last gone c' us
    (fun u hu => hgone u (List.mem_cons_of_mem t hu)) rfl
  have hgroup : c'.group.opener = c.group.opener ∧ c'.group.waiting - 1 = c.group.waiting := by
    have hwaiting : c.group.waiting = 0 := hsettled.rests
    rw [hafter]
    split <;> simp [hwaiting]
  rw [Quiet, contextBehind]
  simp only [hgone t List.mem_cons_self, Bool.false_eq_true, if_false, List.singleton_append,
    List.headD_cons, List.tail_cons, hbehind]
  refine ⟨⟨hfirst, hquiet⟩, ?_, ?_⟩
  · rw [hshifts.group, hgroup.1, hgroup.2]
    rfl
  · rw [hshifts.outer, hafter]

/-- What is neither a word nor in parentheses, with the colon behind it: the other keys of properties. -/
theorem runs_keyColon (ts : List Token) (h : Passes (ts ++ [t]))
    (ht : t.kind ≠ .identifier ∧ t.kind ≠ .rightParen) (hc : IsPunctuator .colon colon) :
    Runs Settled id ((ts ++ [t]) ++ [colon]) := by
  have hcolon : Runs (fun c => c.group.opener ≠ some .leftParen ∧ c.prev = some t) (· - 1) [colon] := by
    refine runs_colon hc fun c hP => annotates_of_opener hP.1 fun p hp => ?_
    rw [hP.2] at hp
    obtain rfl := Option.some.inj hp
    exact ⟨ht.2, fun hk => absurd hk ht.1⟩
  have hall := (h.runs Settled).append hcolon fun c c' hsettled hshifts hprev =>
    ⟨by rw [hshifts.group]; exact hsettled.opener, by rw [hprev, List.getLast?_concat, Option.some_or]⟩
  refine hall.congr fun c hsettled => ?_
  have hwaiting : c.group.waiting = 0 := hsettled.rests
  simp [hwaiting]

/-- A clause waits for its colon. -/
theorem runs_case (hw : word.isWord "case") (h : Passes ts) (hc : IsPunctuator .colon colon) :
    Runs Settled id (word :: (ts ++ [colon])) := by
  have hkind := Statement.kind_of_isWord hw
  have hword : Runs Settled (· + 1) [word] := by
    refine runs_singleton fun c next afterNext hc => ⟨?_, ?_⟩
    · exact isTypeSyntax_of_word hkind (by rw [Statement.text_of_isWord hw]; decide) c next afterNext
    · have hawaits : c.awaitsColon word next := by
        have hmember : c.inMember = false := by
          rw [Context.inMember, Option.any_eq_false]
          exact fun p hp => by simp [(hc.isFresh p hp).2]
        simp [Context.awaitsColon, hmember, hw]
      rw [after_eq (isPlain_of_kind hkind (by decide)) (by simp [hkind]) (by simp [hkind]), hawaits,
        Bool.or_true]
      exact ⟨rfl, rfl⟩
  have hcolon : Runs (fun c => c.group.waiting ≠ 0) (· - 1) [colon] :=
    runs_colon hc fun c => annotates_of_waiting
  have hts := hword.append h fun _ _ _ _ _ => trivial
  exact hts.append hcolon fun c c' _ hshifts _ => by
    rw [hshifts.group]
    exact Nat.succ_ne_zero _

/-- Behind a semicolon nothing waits. -/
theorem after_of_semicolon (h : t.kind = .semicolon) (c : Context) (next : Token) :
    c.after t next = ⟨⟨c.group.opener, 0⟩, c.outer, some t, c.prev⟩ := by
  simp [Context.after, h, TokenKind.isOpener, TokenKind.isCloser]

/-- Where nothing waits, a semicolon changes nothing. -/
theorem runs_semicolon (hs : IsPunctuator .semicolon semicolon) : Runs Rests id [semicolon] := by
  refine runs_singleton fun c next afterNext h => ⟨isTypeSyntax_of_kind hs.1 (by decide) _ _ _, ?_⟩
  rw [after_of_semicolon hs.1]
  rw [Rests] at h
  exact ⟨by rw [h]; rfl, rfl⟩

end Statements

end ScriptBundle.TypeSyntax
