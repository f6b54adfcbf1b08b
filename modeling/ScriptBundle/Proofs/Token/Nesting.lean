import Mathlib.Data.List.Basic
import ScriptBundle.Token

/-!
# Nested brackets

The brackets that are open behind a list of tokens form a stack. It is kept as the list of the kinds
that close them, innermost first, and there is none when a bracket closes what is not the innermost
group.

* `openBehind`: the stack behind a list of tokens, and its behaviour under concatenation;
* `Nested`: every bracket is closed, in the right order;
* `Inside`: a list of tokens that stays inside the brackets that are open in front of it.
-/

namespace ScriptBundle

/-- The kind of the bracket that closes a group. -/
def TokenKind.closer : TokenKind → TokenKind
  | .leftBrace => .rightBrace
  | .leftParen => .rightParen
  | .leftBracket => .rightBracket
  | k => k

/-- Whether a token is no bracket. -/
def Token.isPlain (t : Token) : Bool := !t.kind.isOpener && !t.kind.isCloser

/-- The brackets that are open behind the token `t`. -/
def openedBy (st : List TokenKind) (t : Token) : Option (List TokenKind) :=
  if t.kind.isOpener then some (t.kind.closer :: st)
  else if t.kind.isCloser then
    match st with
    | k :: ks => if t.kind = k then some ks else none
    | [] => none
  else some st

/-- The brackets that are open behind the tokens `ts`. -/
def openBehind (st : List TokenKind) (ts : List Token) : Option (List TokenKind) :=
  ts.foldlM openedBy st

/-- Every bracket is closed, the innermost first. -/
def Nested (ts : List Token) : Prop := openBehind [] ts = some []

instance (ts : List Token) : Decidable (Nested ts) :=
  inferInstanceAs (Decidable (openBehind [] ts = some []))

section

variable {st st' base : List TokenKind} {t : Token} {ts us : List Token}

@[simp] theorem openBehind_nil (st : List TokenKind) : openBehind st [] = some st := rfl

theorem openBehind_cons (st : List TokenKind) (t : Token) (ts : List Token) :
    openBehind st (t :: ts) = (openedBy st t).bind (openBehind · ts) :=
  List.foldlM_cons

theorem openBehind_append (st : List TokenKind) (ts us : List Token) :
    openBehind st (ts ++ us) = (openBehind st ts).bind (openBehind · us) :=
  List.foldlM_append

/-- A stack behind two lists is one behind the first. -/
theorem exists_of_openBehind_append (h : openBehind st (ts ++ us) = some st') :
    ∃ mid, openBehind st ts = some mid ∧ openBehind mid us = some st' := by
  rw [openBehind_append] at h
  exact Option.bind_eq_some_iff.1 h

theorem exists_of_openBehind_cons (h : openBehind st (t :: ts) = some st') :
    ∃ mid, openedBy st t = some mid ∧ openBehind mid ts = some st' := by
  rw [openBehind_cons] at h
  exact Option.bind_eq_some_iff.1 h

theorem openBehind_append_of_eq (h : openBehind st ts = some st') (us : List Token) :
    openBehind st (ts ++ us) = openBehind st' us := by
  rw [openBehind_append, h, Option.bind_some]

theorem openedBy_plain (h : t.isPlain) (st : List TokenKind) : openedBy st t = some st := by
  simp only [Token.isPlain, Bool.and_eq_true, Bool.not_eq_true'] at h
  simp [openedBy, h.1, h.2]

theorem openBehind_cons_of_plain (h : t.isPlain) (st : List TokenKind) (ts : List Token) :
    openBehind st (t :: ts) = openBehind st ts := by
  rw [openBehind_cons, openedBy_plain h, Option.bind_some]

theorem isPlain_of_kind {k : TokenKind} (h : t.kind = k)
    (hk : !k.isOpener && !k.isCloser) : t.isPlain := by
  rwa [Token.isPlain, h]

theorem kind_of_isOperator {op : Text} (h : t.isOperator op) : t.kind = .operator := by
  simp only [Token.isOperator, Bool.and_eq_true, decide_eq_true_eq] at h
  exact h.1

theorem text_of_isOperator {op : Text} (h : t.isOperator op) : t.text = op := by
  simp only [Token.isOperator, Bool.and_eq_true, decide_eq_true_eq] at h
  exact h.2

theorem openedBy_opener (h : t.kind.isOpener) (st : List TokenKind) :
    openedBy st t = some (t.kind.closer :: st) := by
  simp [openedBy, h]

theorem not_isOpener_of_isCloser {k : TokenKind} (h : k.isCloser) : k.isOpener = false := by
  cases k <;> first | rfl | cases h

theorem openedBy_closer (h : t.kind.isCloser) :
    openedBy st t = some st' ↔ st = t.kind :: st' := by
  simp only [openedBy, not_isOpener_of_isCloser h, h, Bool.false_eq_true, if_false, if_true]
  cases st with
  | nil => simp
  | cons k ks =>
    by_cases hk : t.kind = k
    · simp [hk]
    · simp [hk, Ne.symm hk]

/-- Every token is an opening bracket, a closing one, or plain. -/
theorem token_cases (t : Token) : t.kind.isOpener ∨ t.kind.isCloser ∨ t.isPlain := by
  unfold Token.isPlain
  cases t.kind <;> simp [TokenKind.isOpener, TokenKind.isCloser]

/-- What is open further out does not matter. -/
theorem openedBy_append (h : openedBy st t = some st') (base : List TokenKind) :
    openedBy (st ++ base) t = some (st' ++ base) := by
  rcases token_cases t with ht | ht | ht
  · rw [openedBy_opener ht] at h ⊢
    cases h
    rfl
  · rw [openedBy_closer ht] at h ⊢
    rw [h, List.cons_append]
  · rw [openedBy_plain ht] at h ⊢
    cases h
    rfl

theorem openBehind_append_base (h : openBehind st ts = some st') (base : List TokenKind) :
    openBehind (st ++ base) ts = some (st' ++ base) := by
  induction ts generalizing st with
  | nil => cases h; rfl
  | cons t ts ih =>
    obtain ⟨mid, hmid, h⟩ := exists_of_openBehind_cons h
    rw [openBehind_cons, openedBy_append hmid, Option.bind_some]
    exact ih h

/-- Inside a bracket a token does not reach what is open further out. -/
theorem openedBy_of_append (hst : st ≠ []) (h : openedBy (st ++ base) t = some st') :
    ∃ mid, openedBy st t = some mid ∧ st' = mid ++ base := by
  rcases token_cases t with ht | ht | ht
  · rw [openedBy_opener ht] at h ⊢
    cases h
    exact ⟨_, rfl, rfl⟩
  · rw [openedBy_closer ht] at h
    obtain ⟨k, ks, rfl⟩ := List.exists_cons_of_ne_nil hst
    obtain ⟨rfl, rfl⟩ := List.cons.inj h
    exact ⟨ks, (openedBy_closer ht).2 rfl, rfl⟩
  · rw [openedBy_plain ht] at h ⊢
    cases h
    exact ⟨_, rfl, rfl⟩

theorem Nested.openBehind (h : Nested ts) (st : List TokenKind) : openBehind st ts = some st :=
  openBehind_append_base h st

theorem openBehind_plain (h : ∀ t ∈ ts, t.isPlain) (st : List TokenKind) :
    openBehind st ts = some st := by
  induction ts with
  | nil => rfl
  | cons t ts ih =>
    rw [openBehind_cons_of_plain (h t List.mem_cons_self)]
    exact ih fun u hu => h u (List.mem_cons_of_mem t hu)

end

/-! ### Staying inside -/

/-- In front of each of the tokens `ts` one of the brackets `st`, or one opened since, is open. -/
def Inside (st : List TokenKind) (ts : List Token) : Prop :=
  ∀ before t after, ts = before ++ t :: after →
    ∃ mid, mid ≠ [] ∧ openBehind st before = some mid

namespace Inside

variable {st st' : List TokenKind} {t : Token} {ts us : List Token}

theorem nil (st : List TokenKind) : Inside st [] := fun before _ _ h => by
  cases before <;> cases h

theorem cons (hst : st ≠ []) (ht : openedBy st t = some st') (h : Inside st' ts) :
    Inside st (t :: ts) := by
  intro before u after heq
  cases before with
  | nil => exact ⟨st, hst, rfl⟩
  | cons v before =>
    obtain ⟨rfl, rfl⟩ := List.cons.inj heq
    rw [openBehind_cons, ht, Option.bind_some]
    exact h before u after rfl

theorem plain (hst : st ≠ []) (ht : t.isPlain) (h : Inside st ts) : Inside st (t :: ts) :=
  h.cons hst (openedBy_plain ht st)

/-- A nested list inside a bracket, and what follows it there. -/
theorem nested_append (hst : st ≠ []) (ht : Nested ts) (h : Inside st us) :
    Inside st (ts ++ us) := by
  intro before u after heq
  rcases List.append_eq_append_iff.1 heq with ⟨more, rfl, hus⟩ | ⟨more, hts, -⟩
  · rw [openBehind_append_of_eq (ht.openBehind st)]
    exact h more u after hus
  · subst hts
    obtain ⟨mid, hmid, -⟩ := exists_of_openBehind_append ht
    exact ⟨mid ++ st, List.append_ne_nil_of_right_ne_nil mid hst, openBehind_append_base hmid st⟩

end Inside

end ScriptBundle
