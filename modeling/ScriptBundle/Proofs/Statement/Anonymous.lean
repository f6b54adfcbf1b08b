import ScriptBundle.Proofs.Statement.Append
import ScriptBundle.Proofs.Statement.Silence

/-!
# Declarations without a name

A default export may stand in front of a function or a class that has no name. The scanner reads nothing
of it: it passes over the tokens outside all brackets, one by one, and over the groups in brackets. The
only keywords that it meets outside brackets are those of an import by a call, of `import.meta`, and of
members that are named like them, in what a class extends.

* `IsOperand`: the grammar of what a class can extend;
* `IsAnonymous`: the grammar of functions and classes without a name;
* `Passed`: tokens that the scanner passes over, and behind which it goes on;
* `passed_of_isAnonymous`, `declaredName_of_isAnonymous`: what the scanner does with such a declaration;
* `exists_scanFrom_of_mem`: the scan behind a statement that it has read.
-/

namespace ScriptBundle.Statement

/-- A group in brackets of the given kind. -/
inductive IsGroup (k : TokenKind) : List Token → Prop
  | intro {opener close : Token} {ts : List Token} (ho : opener.kind = k) (hc : close.kind = k.closer)
      (h : Nested ts) : IsGroup k (opener :: (ts ++ [close]))

/-- No token, or one with the given property. -/
def IsOptional (p : Token → Prop) (ts : List Token) : Prop := ts = [] ∨ ∃ t, ts = [t] ∧ p t

/-- A function with the tokens `name` in the place of its name. -/
inductive IsFunction (name : List Token) : List Token → Prop
  | intro {mark star params body : List Token} {word : Token} (hm : IsOptional (·.isWord "async") mark)
      (hw : word.isWord "function") (hs : IsOptional (·.kind = .star) star)
      (hp : IsGroup .leftParen params) (hb : IsGroup .leftBrace body) :
      IsFunction name (mark ++ word :: (star ++ (name ++ (params ++ body))))

/-- An expression that stands in front of a call or a member, as the class that another one extends. -/
inductive IsOperand : List Token → Prop
  | word {t : Token} (hk : t.kind = .identifier) (ht : t.text ≠ "function" ∧ t.text ≠ "class") :
      IsOperand [t]
  | literal {t : Token}
      (hk : t.kind = .number ∨ t.kind = .string ∨ t.kind = .template ∨ t.kind = .regex) : IsOperand [t]
  | group {k : TokenKind} {ts : List Token} (hk : k.isOpener) (h : IsGroup k ts) : IsOperand ts
  | function {name ts : List Token} (hn : IsOptional (·.kind = .identifier) name)
      (h : IsFunction name ts) : IsOperand ts
  | plainClass {name body : List Token} {word : Token} (hw : word.isWord "class")
      (hn : IsOptional (·.kind = .identifier) name) (hb : IsGroup .leftBrace body) :
      IsOperand (word :: (name ++ body))
  | derivedClass {name ts body : List Token} {word mark : Token} (hw : word.isWord "class")
      (hn : IsOptional (·.kind = .identifier) name) (hm : mark.isWord "extends") (h : IsOperand ts)
      (hb : IsGroup .leftBrace body) : IsOperand (word :: (name ++ mark :: (ts ++ body)))
  | new {t : Token} {ts : List Token} (ht : t.isWord "new") (h : IsOperand ts) : IsOperand (t :: ts)
  | importCall {t : Token} {ts : List Token} (ht : t.kind = .importWord) (h : IsGroup .leftParen ts) :
      IsOperand (t :: ts)
  | importMeta {t dot name : Token} (ht : t.kind = .importWord) (hd : dot.kind = .dot)
      (hn : name.isWord "meta") : IsOperand [t, dot, name]
  | member {ts : List Token} {dot name : Token} (h : IsOperand ts)
      (hd : dot.kind = .dot ∨ dot.isOperator "?.") (hn : name.kind.isWordKind) :
      IsOperand (ts ++ [dot, name])
  | applied {k : TokenKind} {ts mark us : List Token} (h : IsOperand ts)
      (hm : IsOptional (·.isOperator "?.") mark) (hk : k = .leftParen ∨ k = .leftBracket)
      (hu : IsGroup k us) : IsOperand (ts ++ (mark ++ us))
  | tagged {ts : List Token} {t : Token} (h : IsOperand ts) (ht : t.kind = .template) :
      IsOperand (ts ++ [t])

/-- A function or a class without a name. -/
inductive IsAnonymous : List Token → Prop
  | function {ts : List Token} (h : IsFunction [] ts) : IsAnonymous ts
  | plainClass {body : List Token} {word : Token} (hw : word.isWord "class") (hb : IsGroup .leftBrace body) :
      IsAnonymous (word :: body)
  | derivedClass {ts body : List Token} {word mark : Token} (hw : word.isWord "class")
      (hm : mark.isWord "extends") (h : IsOperand ts) (hb : IsGroup .leftBrace body) :
      IsAnonymous (word :: mark :: (ts ++ body))

/-! ### Passing over tokens -/

/-- Outside all brackets the scanner finds no statement in the tokens and goes on behind them. -/
def Passed (ts : List Token) : Prop :=
  ∀ last prev more, scanFrom last prev 0 (ts ++ more) = scanFrom last (ts.getLast?.or prev) 0 more

section Passed

variable {k : TokenKind} {t dot name word : Token} {ts us : List Token}

theorem passed_nil : Passed [] := fun _ _ _ => rfl

theorem Passed.append (h : Passed ts) (h' : Passed us) : Passed (ts ++ us) := by
  intro last prev more
  rw [List.append_assoc, h, h', List.getLast?_append, Option.or_assoc]

theorem Passed.cons (h : Passed [t]) (h' : Passed ts) : Passed (t :: ts) := h.append h'

theorem depthAfter_of_isPlain (h : t.isPlain) (depth : Nat) : depthAfter depth t = depth := by
  simp only [Token.isPlain, Bool.and_eq_true, Bool.not_eq_true'] at h
  simp [depthAfter, h.1, h.2]

/-- A token that is neither a bracket nor a keyword. -/
theorem passed_of_isPlain (hp : t.isPlain) (hk : t.isKeyword = false) : Passed [t] := by
  intro last prev more
  rw [List.singleton_append, scanFrom_cons,
    readStatement_eq_none_iff.2 (isOther_of_not_isKeyword hk more), depthAfter_of_isPlain hp]
  exact ite_self _

theorem passed_of_kind (h : t.kind = k) (hk : k.isOpener = false ∧ k.isCloser = false ∧
    k ≠ .importWord ∧ k ≠ .exportWord) : Passed [t] :=
  passed_of_isPlain (by simp [Token.isPlain, h, hk]) (by simp [Token.isKeyword, h, hk])

theorem passed_of_isWord {w : Text} (h : t.isWord w) : Passed [t] :=
  passed_of_kind (kind_of_isWord h) (by decide)

theorem passed_of_isOptional {p : Token → Prop} (h : IsOptional p ts) (hp : ∀ t, p t → Passed [t]) :
    Passed ts := by
  rcases h with rfl | ⟨t, rfl, ht⟩
  · exact passed_nil
  · exact hp t ht

theorem passed_of_isGroup (hk : k.isOpener) (h : IsGroup k ts) : Passed ts := by
  obtain ⟨rfl, hc, h⟩ := h
  intro last prev more
  have hcloser : ∀ k : TokenKind, k.isOpener → k.closer.isCloser := by
    intro k
    cases k <;> decide
  rw [List.cons_append, List.append_assoc, List.singleton_append,
    scanFrom_block hk h (by rw [hc]; exact hcloser _ hk), ← List.cons_append, List.getLast?_append]
  rfl

/-- A member may be named like a keyword, since the scanner reads nothing behind a dot. -/
theorem passed_member (hd : dot.kind = .dot ∨ dot.isOperator "?.") (hn : name.kind.isWordKind) :
    Passed [dot, name] := by
  intro last prev more
  have hselects : dot.selectsMember := by
    rcases hd with hd | hd
    · simp [Token.selectsMember, hd]
    · simp [Token.selectsMember, text_of_isOperator hd]
  have hdot : Passed [dot] := by
    rcases hd with hd | hd
    · exact passed_of_kind hd (by decide)
    · exact passed_of_kind (kind_of_isOperator hd) (by decide)
  have hplain : name.isPlain := by
    unfold Token.isPlain
    revert hn
    cases name.kind <;> decide
  have hname : scanFrom last (some dot) 0 (name :: more) = scanFrom last (some name) 0 more := by
    rw [scanFrom_cons, Option.any_some, hselects, if_neg (by simp), depthAfter_of_isPlain hplain]
  exact (hdot last prev (name :: more)).trans hname

/-- The keyword of an import in an expression. -/
theorem passed_import (ht : t.kind = .importWord) (h : Passed us)
    (hahead : kindAhead .leftParen us ∨ kindAhead .dot us) : Passed (t :: us) := by
  intro last prev more
  have hne : us ≠ [] := by
    rintro rfl
    rcases hahead with hahead | hahead <;> cases hahead
  have hother : isOther t (us ++ more) := by
    rw [isOther, ht, isOtherImport_eq, kindAhead_append hne, kindAhead_append hne]
    rcases hahead with hahead | hahead <;> simp [hahead]
  have hplain : t.isPlain := isPlain_of_kind ht (by decide)
  have hstep : scanFrom last prev 0 (t :: (us ++ more)) = scanFrom last (some t) 0 (us ++ more) := by
    rw [scanFrom_cons, readStatement_eq_none_iff.2 hother, depthAfter_of_isPlain hplain]
    exact ite_self _
  rw [List.cons_append, hstep, h, getLast?_cons_or]

/-! ### Declarations -/

theorem passed_of_isFunction (hn : Passed ts) (h : IsFunction ts us) : Passed us := by
  obtain ⟨hm, hw, hs, hp, hb⟩ := h
  have hmark := passed_of_isOptional hm fun t ht => passed_of_isWord ht
  have hstar := passed_of_isOptional hs fun t ht => passed_of_kind ht (by decide)
  have hgroups := (passed_of_isGroup (by decide) hp).append (passed_of_isGroup (by decide) hb)
  exact hmark.append ((passed_of_isWord hw).cons (hstar.append (hn.append hgroups)))

theorem passed_name (h : IsOptional (·.kind = .identifier) ts) : Passed ts :=
  passed_of_isOptional h fun _ ht => passed_of_kind ht (by decide)

theorem passed_of_isOperand (h : IsOperand ts) : Passed ts := by
  induction h with
  | word hk => exact passed_of_kind hk (by decide)
  | literal hk => rcases hk with hk | hk | hk | hk <;> exact passed_of_kind hk (by decide)
  | group hk h => exact passed_of_isGroup hk h
  | function hn h => exact passed_of_isFunction (passed_name hn) h
  | plainClass hw hn hb =>
    exact (passed_of_isWord hw).cons ((passed_name hn).append (passed_of_isGroup (by decide) hb))
  | derivedClass hw hn hm _ hb ih =>
    have hbody := passed_of_isGroup (by decide) hb
    exact (passed_of_isWord hw).cons
      ((passed_name hn).append ((passed_of_isWord hm).cons (ih.append hbody)))
  | new ht _ ih => exact (passed_of_isWord ht).cons ih
  | importCall ht h =>
    refine passed_import ht (passed_of_isGroup (by decide) h) (.inl ?_)
    obtain ⟨ho, -, -⟩ := h
    exact decide_eq_true ho
  | importMeta ht hd hn =>
    have hword := kind_of_isWord hn
    exact passed_import ht (passed_member (.inl hd) (by rw [hword]; rfl)) (.inr (decide_eq_true hd))
  | member _ hd hn ih => exact ih.append (passed_member hd hn)
  | applied _ hm hk hu ih =>
    have hmark := passed_of_isOptional hm fun t ht =>
      passed_of_kind (kind_of_isOperator ht) (by decide)
    exact ih.append (hmark.append (passed_of_isGroup (by rcases hk with rfl | rfl <;> rfl) hu))
  | tagged _ ht ih => exact ih.append (passed_of_kind ht (by decide))

/-- The scanner passes over a function or a class without a name. -/
theorem passed_of_isAnonymous (h : IsAnonymous ts) : Passed ts := by
  cases h with
  | function h => exact passed_of_isFunction passed_nil h
  | plainClass hw hb => exact (passed_of_isWord hw).cons (passed_of_isGroup (by decide) hb)
  | derivedClass hw hm h hb =>
    have hbody := passed_of_isGroup (by decide) hb
    exact (passed_of_isWord hw).cons
      ((passed_of_isWord hm).cons ((passed_of_isOperand h).append hbody))

/-- A function or a class ends with the closing brace of its body. -/
theorem kind_of_isAnonymous (h : IsAnonymous (ts ++ [t])) : t.kind = .rightBrace := by
  have hgroup : ∀ front {body}, IsGroup .leftBrace body → ts ++ [t] = front ++ body →
      t.kind = .rightBrace := by
    rintro front body ⟨-, hclose, -⟩ heq
    rw [← List.cons_append, ← List.append_assoc] at heq
    obtain ⟨-, hlast⟩ := List.append_inj' heq rfl
    rw [List.singleton_inj.1 hlast, hclose]
    rfl
  generalize hus : ts ++ [t] = us at h
  cases h with
  | function h =>
    obtain @⟨mark, star, params, body, word, -, -, -, -, hb⟩ := h
    exact hgroup (mark ++ word :: (star ++ params)) hb (by simp [hus])
  | @plainClass body word _ hb => exact hgroup [word] hb hus
  | @derivedClass us body word mark _ _ _ hb =>
    exact hgroup (word :: mark :: us) hb (by simp [hus])

end Passed

/-! ### Default exports -/

section Default

variable {last word t : Token} {prev : Option Token} {depth : Nat} {ts us : List Token} {s : Statement}
  {ss : List Statement}

/-- Behind its modifiers a declaration without a name has no name. -/
theorem declaredName_eq_none (hm : IsOptional (·.isWord "async") ts)
    (hw : word.isWord "function" ∨ word.isWord "class")
    (hname : ∀ n ∈ (dropStar us).head?, n.kind = .identifier → n.isWord "extends") :
    declaredName (ts ++ word :: us) = none := by
  have hword : (word.isWord "async" || word.isWord "abstract") = false := by
    rcases hw with hw | hw <;>
      rw [isWord_eq_false hw (by decide), isWord_eq_false hw (by decide), Bool.or_false]
  have hdrop : dropModifiers (ts ++ word :: us) = word :: us := by
    rcases hm with rfl | ⟨t, rfl, ht⟩
    · simp [dropModifiers, hword]
    · simp [dropModifiers, hword, ht]
  unfold declaredName
  rw [hdrop]
  simp only [show (word.isWord "function" || word.isWord "class") = true by simpa using hw, if_true]
  split
  · next n _ hstar =>
    rw [if_neg]
    intro hn
    simp only [Bool.and_eq_true, decide_eq_true_eq] at hn
    exact hn.1.2 (text_of_isWord (hname n (by rw [hstar]; rfl) hn.1.1))
  · rfl

theorem declaredName_of_isAnonymous (h : IsAnonymous ts) (more : List Token) :
    declaredName (ts ++ more) = none := by
  have hgroup : ∀ {k us}, IsGroup k us → ∀ vs, ∃ t ws, us ++ vs = t :: ws ∧ t.kind = k := by
    rintro k us ⟨ho, -, -⟩ vs
    exact ⟨_, _, rfl, ho⟩
  cases h with
  | function h =>
    obtain @⟨mark, star, params, body, word, hm, hw, hs, hp, hb⟩ := h
    obtain ⟨t, ws, hgroups, ht⟩ := hgroup hp (body ++ more)
    have hts : (mark ++ word :: (star ++ ([] ++ (params ++ body)))) ++ more =
        mark ++ word :: (star ++ t :: ws) := by
      rw [← hgroups]
      simp
    rw [hts]
    refine declaredName_eq_none hm (.inl hw) fun n hn hk => ?_
    have hstar : dropStar (star ++ t :: ws) = t :: ws := by
      rcases hs with rfl | ⟨u, rfl, hu⟩
      · simp [dropStar, kindAhead, ht]
      · simp [dropStar, kindAhead, hu]
    rw [hstar] at hn
    obtain rfl := Option.some.inj hn
    rw [ht] at hk
    cases hk
  | @plainClass body word hw hb =>
    obtain ⟨t, ws, hbody, ht⟩ := hgroup hb more
    rw [List.cons_append, hbody]
    refine declaredName_eq_none (.inl rfl) (.inr hw) fun n hn hk => ?_
    have hstar : dropStar (t :: ws) = t :: ws := by simp [dropStar, kindAhead, ht]
    rw [hstar] at hn
    obtain rfl := Option.some.inj hn
    rw [ht] at hk
    cases hk
  | @derivedClass ts body word mark hw hm h hb =>
    rw [List.cons_append, List.cons_append]
    refine declaredName_eq_none (.inl rfl) (.inr hw) fun n hn _ => ?_
    have hstar : dropStar (mark :: ((ts ++ body) ++ more)) = mark :: ((ts ++ body) ++ more) := by
      simp [dropStar, kindAhead, kind_of_isWord hm]
    rw [hstar] at hn
    obtain rfl := Option.some.inj hn
    exact hm

/-- The words `export default` are a statement, whatever follows them. -/
theorem readStatement_default (hword : word.kind = .exportWord) (ht : t.isWord "default") :
    readStatement last word (t :: us) =
      .ok (some (⟨word.start, t.stop, .default (declaredName us)⟩, us)) := by
  have hkind := kind_of_isWord ht
  simp [readStatement, readExport, hword, marksTypeExport_eq_false (isWord_eq_false ht (by decide)),
    hkind, ht]

/-- A statement that the scanner has read starts with its keyword, and the scan goes on behind it. -/
theorem exists_scanFrom_of_mem (h : scanFrom last prev depth ts = .ok ss) (hs : s ∈ ss) :
    ∃ before word us rest prev' front back, ts = before ++ word :: us ∧ ss = front ++ s :: back ∧
      s.start = word.start ∧ readStatement last word us = .ok (some (s, rest)) ∧
      scanFrom last prev' 0 rest = .ok back := by
  fun_induction scanFrom last prev depth ts generalizing ss with
  | case1 =>
    cases h
    cases hs
  | case2 => cases h
  | case3 prev depth t us _ s' rest hread ih =>
    obtain ⟨ss', hss', rfl⟩ := Except.map_eq_ok_iff.1 h
    rcases List.mem_cons.1 hs with rfl | hs
    · exact ⟨[], t, us, rest, _, [], ss', rfl, rfl, (records_of_readStatement hread).1.1, hread, hss'⟩
    · obtain ⟨more, hmore⟩ := (readStatement_suffix hread).trans (List.suffix_cons t us)
      obtain ⟨before, word, vs, rest', prev', front, back, rfl, rfl, hrest⟩ := ih hss' hs
      exact ⟨more ++ before, word, vs, rest', prev', s' :: front, back, by simp [← hmore], rfl, hrest⟩
  | case4 prev depth t us _ _ ih =>
    obtain ⟨before, word, vs, rest, prev', front, back, rfl, hrest⟩ := ih h hs
    exact ⟨t :: before, word, vs, rest, prev', front, back, rfl, hrest⟩
  | case5 prev depth t us _ ih =>
    obtain ⟨before, word, vs, rest, prev', front, back, rfl, hrest⟩ := ih h hs
    exact ⟨t :: before, word, vs, rest, prev', front, back, rfl, hrest⟩

end Default

end ScriptBundle.Statement
