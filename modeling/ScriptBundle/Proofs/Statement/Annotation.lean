import ScriptBundle.Proofs.Statement.BindingPattern
import ScriptBundle.Proofs.Token.Layout

/-!
# Type annotations

The annotation of a declarator is passed over by its brackets, the angle brackets of type arguments
included. A type closes all the brackets that it opens, and outside of them nothing ends it: a word there
stands behind a token that asks for more. Two closing angle brackets that touch are one token, which
counts for both.

* `IsType`: the grammar of types, over tokens in which every angle bracket stands by itself;
* `Fused`: the same tokens with some pairs of closing angle brackets in one;
* `Passes`: the count of the brackets is never negative, and where it is zero nothing ends the type;
* `passes_of_isType`, `Passes.fused`: a type passes, in either form;
* `readStatement_of_annotated`: an exported declaration is recorded with the names of its annotated
  declarators, and the scanner goes on at its semicolon;
* `import_lost_behind_arguments`: three closing angle brackets in one token are not counted.
-/

namespace ScriptBundle

/-- The token is of the kind `k`, and it is no angle bracket. -/
def Token.Is (t : Token) (k : TokenKind) : Prop := t.kind = k ∧ t.isAngle = false

namespace Statement

/-- What can stand in the label of a parameter or of a member of an object type, in front of its colon
or of its parameters. -/
def IsLabel (t : Token) : Prop :=
  t.Is .identifier ∨ t.Is .importWord ∨ t.Is .exportWord ∨ t.Is .string ∨ t.Is .number ∨
    t.isOperator "?" ∨ t.isOperator "..."

/-- The pieces of a type: types, lists of type arguments, and the fields of a type with their labels,
which are the parameters of a function or the members of an object type. -/
inductive TypePiece
  | type
  | arguments
  | label
  | field
  | fields

/-- The grammar of types, with every angle bracket as a token of its own. -/
inductive IsType : TypePiece → List Token → Prop
  | name {t : Token} (ht : t.Is .identifier) : IsType .type [t]
  | member {ts : List Token} {dot t : Token} (h : IsType .type ts) (hd : dot.Is .dot)
      (ht : t.Is .identifier) : IsType .type (ts ++ [dot, t])
  | array {ts : List Token} {opener close : Token} (h : IsType .type ts)
      (ho : opener.Is .leftBracket) (hc : close.Is .rightBracket) :
      IsType .type (ts ++ [opener, close])
  | union {ts us : List Token} {bar : Token} (h : IsType .type ts) (hb : bar.isOperator "|")
      (hr : IsType .type us) : IsType .type (ts ++ bar :: us)
  | leadingBar {ts : List Token} {bar : Token} (hb : bar.isOperator "|") (h : IsType .type ts) :
      IsType .type (bar :: ts)
  | applied {ts us : List Token} {less greater : Token} (h : IsType .type ts)
      (hl : less.isOperator "<") (ha : IsType .arguments us) (hg : greater.isOperator ">") :
      IsType .type (ts ++ less :: (us ++ [greater]))
  | parens {ts : List Token} {opener close : Token} (ho : opener.Is .leftParen)
      (h : IsType .type ts) (hc : close.Is .rightParen) : IsType .type (opener :: (ts ++ [close]))
  | function {ts us : List Token} {opener close arrow : Token} (ho : opener.Is .leftParen)
      (hf : IsType .fields ts) (hc : close.Is .rightParen) (ha : arrow.isOperator "=>")
      (h : IsType .type us) : IsType .type (opener :: (ts ++ close :: arrow :: us))
  | generic {ts us : List Token} {less greater : Token} (hl : less.isOperator "<")
      (ha : IsType .arguments ts) (hg : greater.isOperator ">") (h : IsType .type us) :
      IsType .type (less :: (ts ++ greater :: us))
  | object {ts : List Token} {opener close : Token} (ho : opener.Is .leftBrace)
      (hf : IsType .fields ts) (hc : close.Is .rightBrace) :
      IsType .type (opener :: (ts ++ [close]))
  | argument {ts : List Token} (h : IsType .type ts) : IsType .arguments ts
  | arguments {ts us : List Token} {comma : Token} (h : IsType .type ts) (hc : comma.Is .comma)
      (hr : IsType .arguments us) : IsType .arguments (ts ++ comma :: us)
  | label {ts : List Token} (h : ∀ t ∈ ts, IsLabel t) : IsType .label ts
  | method {ts us : List Token} {opener close : Token} (h : IsType .label ts)
      (ho : opener.Is .leftParen) (hf : IsType .fields us) (hc : close.Is .rightParen) :
      IsType .label (ts ++ opener :: (us ++ [close]))
  | index {ts : List Token} {opener close : Token} (ho : opener.Is .leftBracket)
      (hf : IsType .field ts) (hc : close.Is .rightBracket) :
      IsType .label (opener :: (ts ++ [close]))
  | field {ls ts : List Token} {colon : Token} (hl : IsType .label ls) (hc : colon.Is .colon)
      (h : IsType .type ts) : IsType .field (ls ++ colon :: ts)
  | bare {ls : List Token} (hl : IsType .label ls) : IsType .field ls
  | noField : IsType .fields []
  | oneField {ts : List Token} (h : IsType .field ts) : IsType .fields ts
  | fields {ts us : List Token} {separator : Token} (h : IsType .field ts)
      (hs : separator.Is .comma ∨ separator.Is .semicolon) (hr : IsType .fields us) :
      IsType .fields (ts ++ separator :: us)
  | lines {ts us : List Token} (h : IsType .field ts) (hr : IsType .fields us) :
      IsType .fields (ts ++ us)

/-- The tokens `us` are the tokens `ts` with some pairs of closing angle brackets in one token. -/
inductive Fused : List Token → List Token → Prop
  | nil : Fused [] []
  | cons (t : Token) {ts us : List Token} (h : Fused ts us) : Fused (t :: ts) (t :: us)
  | pair {t t' u : Token} {ts us : List Token} (ht : t.isOperator ">") (ht' : t'.isOperator ">")
      (hu : u.isOperator ">>") (h : Fused ts us) : Fused (t :: t' :: ts) (u :: us)

/-! ### Passing over types -/

/-- Whether no statement starts behind the token, whatever line follows. -/
def asksForMore (t : Token) : Bool :=
  match t.kind with
  | .operator | .equals | .comma | .dot | .colon => true
  | _ => false

/-- With `depth` brackets open in front, the tokens close no other bracket, and outside of all brackets
none of them ends an annotation: a word stands behind a token that asks for more, as the one in front of
the first token does if `asks` is set. -/
def Passes : Bool → Int → List Token → Prop
  | _, _, [] => True
  | asks, depth, t :: ts =>
    (depth = 0 → endsAnnotation t.kind = false ∧ t.kind.isCloser = false ∧
      (t.kind.isWordKind → asks)) ∧
    0 ≤ depth + nesting true t ∧ Passes (asksForMore t) (depth + nesting true t) ts

/-- The tokens close the brackets that they open, and no other ones. -/
def Enclosed (ts : List Token) : Prop :=
  nestingOf true ts = 0 ∧ ∀ asks depth, 0 < depth → Passes asks depth ts

section Passes

variable {asks : Bool} {depth : Int} {t u opener close prev : Token} {ts us : List Token} {w : Text}

theorem startsStatement_of_asksForMore (h : asksForMore prev) (t : Token) :
    startsStatement prev t = false := by
  unfold asksForMore at h
  unfold startsStatement
  revert h
  cases prev.kind <;> simp

/-- What passes does not end an annotation. -/
theorem Passes.unendedFrom (h : Passes (asksForMore prev) depth ts) :
    UnendedFrom endsAnnotation true prev depth ts := by
  induction ts generalizing prev depth with
  | nil => exact unendedFrom_nil
  | cons t ts ih =>
    obtain ⟨hhead, -, htail⟩ := h
    refine unendedFrom_cons_iff.2 ⟨fun hd => ?_, ih htail⟩
    obtain ⟨hend, hcloser, hword⟩ := hhead hd
    have hstarts : startsStatement prev t = false := by
      by_cases hk : t.kind.isWordKind
      · exact startsStatement_of_asksForMore (hword hk) t
      · exact startsStatement_of_not_word (by simpa using hk) prev
    simp [endsExpression, hend, hcloser, hstarts]

theorem Passes.append (h : Passes asks depth ts)
    (h' : ∀ asks, Passes asks (depth + nestingOf true ts) us) : Passes asks depth (ts ++ us) := by
  induction ts generalizing asks depth with
  | nil => simpa [nestingOf] using h' asks
  | cons t ts ih =>
    obtain ⟨hhead, hcount, htail⟩ := h
    refine ⟨hhead, hcount, ih htail fun asks => ?_⟩
    have := h' asks
    simp only [nestingOf, List.map_cons, List.sum_cons] at this ⊢
    rwa [Int.add_assoc]

theorem nesting_of_isOperator (h : t.isOperator w) :
    nesting true t = if w = "<" then 1 else if w = ">" then -1 else if w = ">>" then -2 else 0 := by
  simp [nesting, kind_of_isOperator h, text_of_isOperator h, TokenKind.isOpener, TokenKind.isCloser]

theorem nesting_of_is {k : TokenKind} (h : t.Is k) :
    nesting true t = if k.isOpener then 1 else if k.isCloser then -1 else 0 := by
  obtain ⟨hk, hangle⟩ := h
  simp only [Token.isAngle, Bool.or_eq_false_iff, decide_eq_false_iff_not] at hangle
  simp [nesting, hk, hangle.1.1, hangle.1.2, hangle.2]

/-- Two closing angle brackets in one token count for both. -/
theorem Passes.fused (h : Passes asks depth ts) (hf : Fused ts us) : Passes asks depth us := by
  induction hf generalizing asks depth with
  | nil => exact h
  | cons t _ ih => exact ⟨h.1, h.2.1, ih h.2.2⟩
  | @pair t t' u ts us ht ht' hu _ ih =>
    obtain ⟨-, hcount, -, hcount', hrest⟩ := h
    have hone : nesting true t = -1 := (nesting_of_isOperator ht).trans (by decide)
    have hone' : nesting true t' = -1 := (nesting_of_isOperator ht').trans (by decide)
    have htwo : nesting true u = -2 := (nesting_of_isOperator hu).trans (by decide)
    rw [hone] at hcount hcount' hrest
    rw [hone'] at hcount' hrest
    -- In front of the two brackets at least two are open.
    refine ⟨fun hd => by omega, by omega, ?_⟩
    have hasks : asksForMore u = asksForMore t' := by
      simp only [asksForMore, kind_of_isOperator hu, kind_of_isOperator ht']
    rw [htwo, hasks, show depth + -2 = depth + -1 + -1 by omega]
    exact ih hrest

theorem nestingOf_fused (hf : Fused ts us) : nestingOf true us = nestingOf true ts := by
  induction hf with
  | nil => rfl
  | cons t _ ih =>
    simp only [nestingOf, List.map_cons, List.sum_cons] at ih ⊢
    rw [ih]
  | @pair t t' u ts us ht ht' hu _ ih =>
    have hone : nesting true t = -1 := (nesting_of_isOperator ht).trans (by decide)
    have hone' : nesting true t' = -1 := (nesting_of_isOperator ht').trans (by decide)
    have htwo : nesting true u = -2 := (nesting_of_isOperator hu).trans (by decide)
    simp only [nestingOf, List.map_cons, List.sum_cons, hone, hone', htwo] at ih ⊢
    omega

/-! ### Brackets in types -/

theorem Passes.plain (hn : nesting true t = 0) (hd : 0 ≤ depth)
    (hhead : depth = 0 → endsAnnotation t.kind = false ∧ t.kind.isCloser = false ∧
      (t.kind.isWordKind → asks)) (h : Passes (asksForMore t) depth ts) :
    Passes asks depth (t :: ts) := by
  refine ⟨hhead, by omega, ?_⟩
  rwa [hn, Int.add_zero]

/-- A group takes the brackets from where they are open in front of it to the same number behind it. -/
theorem Passes.group (ho : nesting true opener = 1) (hc : nesting true close = -1) (hd : 0 ≤ depth)
    (hhead : depth = 0 → endsAnnotation opener.kind = false ∧ opener.kind.isCloser = false ∧
      opener.kind.isWordKind = false) (hts : Enclosed ts)
    (h : Passes (asksForMore close) depth us) :
    Passes asks depth (opener :: (ts ++ close :: us)) := by
  refine ⟨fun hzero => ?_, by omega, (hts.2 _ _ (by omega)).append fun asks => ?_⟩
  · obtain ⟨hend, hcloser, hword⟩ := hhead hzero
    exact ⟨hend, hcloser, fun hk => by rw [hword] at hk; cases hk⟩
  · rw [hts.1, ho, Int.add_zero]
    refine ⟨fun hzero => by omega, by omega, ?_⟩
    rwa [hc, show depth + 1 + -1 = depth by omega]

namespace Enclosed

theorem nil : Enclosed [] := ⟨rfl, fun _ _ _ => trivial⟩

theorem append (h : Enclosed ts) (h' : Enclosed us) : Enclosed (ts ++ us) := by
  constructor
  · have hsum := h.1
    have hsum' := h'.1
    simp only [nestingOf, List.map_append, List.sum_append] at hsum hsum' ⊢
    omega
  · intro asks depth hd
    refine (h.2 asks depth hd).append fun asks => ?_
    rw [h.1, Int.add_zero]
    exact h'.2 asks depth hd

theorem cons (hn : nesting true t = 0) (h : Enclosed ts) : Enclosed (t :: ts) := by
  constructor
  · have hsum := h.1
    simp only [nestingOf, List.map_cons, List.sum_cons] at hsum ⊢
    omega
  · intro asks depth hd
    exact .plain hn (by omega) (fun hzero => by omega) (h.2 _ depth hd)

theorem group (ho : nesting true opener = 1) (hc : nesting true close = -1) (hts : Enclosed ts)
    (hus : Enclosed us) : Enclosed (opener :: (ts ++ close :: us)) := by
  constructor
  · have hsum := hts.1
    have hsum' := hus.1
    simp only [nestingOf, List.map_cons, List.sum_cons, List.map_append, List.sum_append] at hsum hsum' ⊢
    omega
  · intro asks depth hd
    exact .group ho hc (by omega) (fun hzero => by omega) hts (hus.2 _ depth hd)

end Enclosed

/-- What can stand in a type behind another type: it closes its brackets, and outside of them nothing
ends an annotation, whatever stands in front. -/
def Continues (ts : List Token) : Prop := Enclosed ts ∧ ∀ asks, Passes asks 0 ts

theorem Continues.nil : Continues [] := ⟨.nil, fun _ => trivial⟩

/-- A mark that asks for more, and a type behind it. -/
theorem Continues.mark (hn : nesting true t = 0) (hask : asksForMore t)
    (ht : endsAnnotation t.kind = false ∧ t.kind.isCloser = false ∧ t.kind.isWordKind = false)
    (h : Enclosed ts) (h' : Passes true 0 ts) : Continues (t :: ts) := by
  refine ⟨.cons hn h, fun asks => .plain hn le_rfl (fun _ => ⟨ht.1, ht.2.1, fun hk => ?_⟩) ?_⟩
  · rw [ht.2.2] at hk
    cases hk
  · rwa [hask]

/-- A group, and what follows it. -/
theorem Continues.group {k k' : TokenKind} (ho : opener.Is k) (hk : k.isOpener) (hc : close.Is k')
    (hk' : k'.isCloser) (hts : Enclosed ts) (hus : Continues us) :
    Continues (opener :: (ts ++ close :: us)) := by
  have hone : nesting true opener = 1 := by rw [nesting_of_is ho, if_pos hk]
  have hminus : nesting true close = -1 := by
    rw [nesting_of_is hc, not_isOpener_of_isCloser hk', hk']
    rfl
  have hopener : endsAnnotation opener.kind = false ∧ opener.kind.isCloser = false ∧
      opener.kind.isWordKind = false := by
    rw [ho.1]
    revert hk
    cases k <;> decide
  exact ⟨.group hone hminus hts hus.1, fun _ =>
    .group hone hminus le_rfl (fun _ => hopener) hts (hus.2 _)⟩

/-- An operator that is no angle bracket, and a type behind it. -/
theorem Continues.operator (ht : t.isOperator w) (hw : w ≠ "<" ∧ w ≠ ">" ∧ w ≠ ">>")
    (h : Enclosed ts ∧ Passes true 0 ts) : Continues (t :: ts) := by
  have hk := kind_of_isOperator ht
  have hn : nesting true t = 0 := by
    rw [nesting_of_isOperator ht, if_neg hw.1, if_neg hw.2.1, if_neg hw.2.2]
  refine .mark hn ?_ ?_ h.1 h.2
  · rw [asksForMore, hk]
  · rw [hk]
    decide

/-- Type arguments or type parameters, and a type behind them. -/
theorem Continues.arguments (ho : opener.isOperator "<") (hc : close.isOperator ">")
    (hts : Enclosed ts) (h : Enclosed us ∧ Passes true 0 us) :
    Continues (opener :: (ts ++ close :: us)) := by
  have hone : nesting true opener = 1 := (nesting_of_isOperator ho).trans (by decide)
  have hminus : nesting true close = -1 := (nesting_of_isOperator hc).trans (by decide)
  have hask : asksForMore close = true := by rw [asksForMore, kind_of_isOperator hc]
  refine ⟨.group hone hminus hts h.1, fun _ => .group hone hminus le_rfl (fun _ => ?_) hts ?_⟩
  · rw [kind_of_isOperator ho]
    decide
  · rw [hask]
    exact h.2

theorem nesting_of_isLabel (h : IsLabel t) : nesting true t = 0 := by
  rcases h with h | h | h | h | h | h | h
  · exact nesting_of_is h
  · exact nesting_of_is h
  · exact nesting_of_is h
  · exact nesting_of_is h
  · exact nesting_of_is h
  · exact (nesting_of_isOperator h).trans (by decide)
  · exact (nesting_of_isOperator h).trans (by decide)

theorem enclosed_of_isLabel (h : ∀ t ∈ ts, IsLabel t) : Enclosed ts := by
  induction ts with
  | nil => exact .nil
  | cons t ts ih =>
    exact .cons (nesting_of_isLabel (h t List.mem_cons_self))
      (ih fun u hu => h u (List.mem_cons_of_mem t hu))

/-- A type with something behind it that continues it. -/
theorem Continues.behind (h : Enclosed ts ∧ Passes true 0 ts) (h' : Continues us) :
    Enclosed (ts ++ us) ∧ Passes true 0 (ts ++ us) := by
  refine ⟨h.1.append h'.1, h.2.append fun asks => ?_⟩
  rw [h.1.1, Int.add_zero]
  exact h'.2 asks

/-- A type closes its brackets, and outside of them nothing ends it. -/
theorem passes_of_isType {p : TypePiece} (h : IsType p ts) :
    Enclosed ts ∧ (p = .type → Passes true 0 ts) := by
  have type : ∀ {ts : List Token} {p : TypePiece}, Enclosed ts ∧ Passes true 0 ts →
      Enclosed ts ∧ (p = .type → Passes true 0 ts) := fun h => ⟨h.1, fun _ => h.2⟩
  have inner : ∀ {ts : List Token} {p : TypePiece}, p ≠ .type → Enclosed ts →
      Enclosed ts ∧ (p = .type → Passes true 0 ts) := fun hp h => ⟨h, fun heq => absurd heq hp⟩
  -- A type starts with a name, a mark or a group, and each of its other pieces continues it.
  have name : ∀ {t : Token}, t.Is .identifier → Enclosed [t] ∧ Passes true 0 [t] := by
    intro t ht
    have hn : nesting true t = 0 := nesting_of_is ht
    refine ⟨.cons hn .nil, .plain hn le_rfl (fun _ => ?_) trivial⟩
    rw [ht.1]
    decide
  induction h with
  | name ht => exact type (name ht)
  | @member ts dot t h hd ht ih =>
    have hname := name ht
    have hdot : Continues (dot :: [t]) := by
      refine .mark (nesting_of_is hd) ?_ ?_ hname.1 hname.2
      · rw [asksForMore, hd.1]
      · rw [hd.1]
        decide
    exact type (hdot.behind ⟨ih.1, ih.2 rfl⟩)
  | array h ho hc ih =>
    have hgroup := Continues.group ho rfl hc rfl .nil .nil
    exact type (hgroup.behind ⟨ih.1, ih.2 rfl⟩)
  | union h hb hr ih ihr =>
    have hunion := Continues.operator hb (by decide) ⟨ihr.1, ihr.2 rfl⟩
    exact type (hunion.behind ⟨ih.1, ih.2 rfl⟩)
  | leadingBar hb h ih =>
    have hbar := Continues.operator hb (by decide) ⟨ih.1, ih.2 rfl⟩
    exact type ⟨hbar.1, hbar.2 true⟩
  | applied h hl ha hg ih iha =>
    have harguments := Continues.arguments hl hg iha.1 ⟨.nil, trivial⟩
    exact type (harguments.behind ⟨ih.1, ih.2 rfl⟩)
  | generic hl ha hg h iha ih =>
    have hparameters := Continues.arguments hl hg iha.1 ⟨ih.1, ih.2 rfl⟩
    exact type ⟨hparameters.1, hparameters.2 true⟩
  | parens ho h hc ih =>
    have hgroup := Continues.group ho rfl hc rfl ih.1 .nil
    exact type ⟨hgroup.1, hgroup.2 true⟩
  | function ho hf hc ha h ihf ih =>
    have hresult := Continues.operator ha (by decide) ⟨ih.1, ih.2 rfl⟩
    have hgroup := Continues.group ho rfl hc rfl ihf.1 hresult
    exact type ⟨hgroup.1, hgroup.2 true⟩
  | object ho hf hc ih =>
    have hgroup := Continues.group ho rfl hc rfl ih.1 .nil
    exact type ⟨hgroup.1, hgroup.2 true⟩
  | argument h ih => exact inner nofun ih.1
  | arguments h hc hr ih ihr => exact inner nofun (ih.1.append (.cons (nesting_of_is hc) ihr.1))
  | label h => exact inner nofun (enclosed_of_isLabel h)
  | method h ho hf hc ih ihf =>
    exact inner nofun (ih.1.append (Continues.group ho rfl hc rfl ihf.1 .nil).1)
  | index ho hf hc ih => exact inner nofun (Continues.group ho rfl hc rfl ih.1 .nil).1
  | field hl hc h ihl ih => exact inner nofun (ihl.1.append (.cons (nesting_of_is hc) ih.1))
  | bare hl ih => exact inner nofun ih.1
  | noField => exact inner nofun .nil
  | oneField h ih => exact inner nofun ih.1
  | @fields ts us separator h hs hr ih ihr =>
    have hn : nesting true separator = 0 := by
      rcases hs with hs | hs <;> exact nesting_of_is hs
    exact inner nofun (ih.1.append (.cons hn ihr.1))
  | lines h hr ih ihr => exact inner nofun (ih.1.append ihr.1)

end Passes

/-! ### Annotated declarators -/

/-- An optional annotation. -/
inductive IsAnnotation : List Token → Prop
  | none : IsAnnotation []
  | type {colon : Token} {ts us : List Token} (hc : colon.kind = .colon) (h : IsType .type ts)
      (hf : Fused ts us) : IsAnnotation (colon :: us)

/-- A name with an optional annotation and an optional initializer. -/
def AnnotatedDeclarator (ts : List Token) (names : List Text) : Prop :=
  ∃ t as vs, ts = t :: (as ++ vs) ∧ names = [t.text] ∧ IsName t ∧ IsAnnotation as ∧ IsDefault vs

section Declarator

variable {last word keyword semicolon u : Token} {before? : Option Token}
  {ts as vs rest after : List Token} {names : List Text}

/-- An annotation is passed over up to what follows it. -/
theorem dropTypePart_annotation (h : IsAnnotation as)
    (hu : u.kind = .equals ∨ u.kind = .comma ∨ u.kind = .semicolon) (rest : List Token) :
    dropTypePart (dropDefinite (as ++ u :: rest)) = u :: rest := by
  cases h with
  | none => exact dropTypePart_of_kind hu rest
  | @type colon ts us hc h hf =>
    obtain ⟨⟨hzero, -⟩, hpasses⟩ := passes_of_isType h
    have hdefinite : colon.isOperator "!" = false := by simp [Token.isOperator, hc]
    have hask : asksForMore colon = true := by rw [asksForMore, hc]
    have hunended : UnendedFrom endsAnnotation true colon 0 us :=
      Passes.unendedFrom (hask ▸ (hpasses rfl).fused hf)
    have hends : endsExpression endsAnnotation (us.getLastD colon) u := by
      rcases hu with hu | hu | hu <;> simp [endsExpression, endsAnnotation, hu]
    rw [List.cons_append, dropDefinite, hdefinite, if_neg (by simp), dropTypePart, if_pos hc]
    refine (dropExpression_of_unendedFrom hunended (u :: rest)).trans ?_
    rw [nestingOf_fused hf, hzero, dropExpression, hends]
    rfl

/-- Behind a name its annotation and its initializer are passed over. -/
theorem afterDeclarator_annotated (ha : IsAnnotation as) (hv : IsDefault vs)
    (hu : u.kind = .comma ∨ u.kind = .semicolon) (rest : List Token) :
    afterDeclarator (as ++ (vs ++ u :: rest)) = u :: rest := by
  obtain ⟨v, more, hvs, hkind⟩ : ∃ v more, vs ++ u :: rest = v :: more ∧
      (v.kind = .equals ∨ v.kind = .comma ∨ v.kind = .semicolon) := by
    cases hv with
    | none => exact ⟨u, rest, rfl, .inr hu⟩
    | value hm => exact ⟨_, _, rfl, .inl hm⟩
  rw [afterDeclarator, hvs, dropTypePart_annotation ha hkind, ← hvs, dropInitializer_assigned hv hu]

/-- An exported declaration of annotated names is recorded with these names, in their order, and the
scanner goes on with what follows its semicolon. -/
theorem readStatement_of_annotated (hbefore : before?.any (·.selectsMember) = false)
    (hword : word.kind = .exportWord) (hkeyword : isVariableWord keyword)
    (h : Declarators AnnotatedDeclarator ts names) (hs : semicolon.kind = .semicolon)
    (after : List Token) :
    readStatement last word (keyword :: (ts ++ semicolon :: after)) =
        .ok (some (variableExport word keyword names, semicolon :: after)) ∧
      scanFrom last before? 0 (word :: keyword :: (ts ++ semicolon :: after)) =
        (scanFrom last (some semicolon) 0 after).map (variableExport word keyword names :: ·) := by
  have hnames : declaratorNames last (ts ++ semicolon :: after) = .ok (names, semicolon :: after) := by
    refine declaratorNames_of_declarators ?_ h hs after
    rintro _ _ ⟨t, as, vs, rfl, rfl, ht, ha, hv⟩ u rest hu
    have hpattern : patternNames last ([t] ++ (as ++ (vs ++ u :: rest))) = .ok ([t.text], _) :=
      patternNames_of_binds (.name ht) _
    refine ⟨as ++ (vs ++ u :: rest), ?_, afterDeclarator_annotated ha hv hu rest⟩
    rw [List.cons_append, List.append_assoc]
    exact hpattern
  have henum : wordAhead "enum" (ts ++ semicolon :: after) = false := by
    refine wordAhead_of_declarators ?_ h _
    rintro _ _ ⟨t, as, vs, rfl, -, ht, -⟩
    exact ⟨t, as ++ vs, rfl, by simp [Token.isWord, ht.2]⟩
  exact ⟨readStatement_of_declaratorNames hword hkeyword henum hnames,
    scanFrom_of_declarators hbefore hword hkeyword henum hs hnames⟩

/-- Two annotated names, with two closing angle brackets in one token, and an import behind them. -/
theorem readStatement_of_nestedArguments :
    ∃ word keyword ts semicolon after last,
      (tokenize "export let m: A<B<C>> = e, n: D[];\nimport \"x\"").toOption.map (·.toList) =
        some (word :: keyword :: (ts ++ semicolon :: after) ++ [last]) ∧
      (none : Option Token).any (·.selectsMember) = false ∧ word.kind = .exportWord ∧
      isVariableWord keyword ∧ Declarators AnnotatedDeclarator ts ["m", "n"] ∧
      semicolon.kind = .semicolon ∧
      scanFrom last none 0 (word :: keyword :: (ts ++ semicolon :: after)) =
        (scanFrom last (some semicolon) 0 after).map (variableExport word keyword ["m", "n"] :: ·) := by
  have name : ∀ (w : Text) (n : Nat), (onFirstLine .identifier w n).isAngle = false →
      IsType .type [onFirstLine .identifier w n] := fun w n hw => .name ⟨rfl, hw⟩
  have hinner : IsType .type ([onFirstLine .identifier "B" 16] ++ onFirstLine .operator "<" 17 ::
      ([onFirstLine .identifier "C" 18] ++ [onFirstLine .operator ">" 19])) :=
    .applied (name "B" 16 (by decide)) rfl (.argument (name "C" 18 (by decide))) rfl
  have hm : IsType .type ([onFirstLine .identifier "A" 14] ++ onFirstLine .operator "<" 15 ::
      (([onFirstLine .identifier "B" 16] ++ onFirstLine .operator "<" 17 ::
        ([onFirstLine .identifier "C" 18] ++ [onFirstLine .operator ">" 19])) ++
      [onFirstLine .operator ">" 20])) :=
    .applied (name "A" 14 (by decide)) rfl (.argument hinner) rfl
  have hannotation : IsAnnotation [onFirstLine .colon ":" 12, onFirstLine .identifier "A" 14,
      onFirstLine .operator "<" 15, onFirstLine .identifier "B" 16, onFirstLine .operator "<" 17,
      onFirstLine .identifier "C" 18, onFirstLine .operator ">>" 19] :=
    .type rfl hm (.cons _ (.cons _ (.cons _ (.cons _ (.cons _ (.pair rfl rfl rfl .nil))))))
  have hn : IsType .type ([onFirstLine .identifier "D" 30] ++
      [onFirstLine .leftBracket "[" 31, onFirstLine .rightBracket "]" 32]) :=
    .array (name "D" 30 (by decide)) ⟨rfl, by decide⟩ ⟨rfl, by decide⟩
  have hannotation' : IsAnnotation [onFirstLine .colon ":" 28, onFirstLine .identifier "D" 30,
      onFirstLine .leftBracket "[" 31, onFirstLine .rightBracket "]" 32] :=
    .type rfl hn (.cons _ (.cons _ (.cons _ .nil)))
  have he : IsDefault [onFirstLine .equals "=" 22, onFirstLine .identifier "e" 24] :=
    .value rfl (isValue_of_forall 1 (by decide) (by decide))
  have hfirst : AnnotatedDeclarator (onFirstLine .identifier "m" 11 :: (_ ++ _)) ["m"] :=
    ⟨_, _, _, rfl, rfl, ⟨rfl, by decide⟩, hannotation, he⟩
  have hsecond : AnnotatedDeclarator (onFirstLine .identifier "n" 27 :: (_ ++ [])) ["n"] :=
    ⟨_, _, _, rfl, rfl, ⟨rfl, by decide⟩, hannotation', .none⟩
  have hcomma : (onFirstLine .comma "," 25).kind = .comma := rfl
  have hall := Declarators.cons hfirst hcomma (.one hsecond)
  have hbefore : (none : Option Token).any (·.selectsMember) = false := rfl
  refine ⟨onFirstLine .exportWord "export" 0, onFirstLine .identifier "let" 7, _,
    onFirstLine .semicolon ";" 33, [⟨.importWord, "import", ⟨35, 2, 1⟩⟩, ⟨.string, "\"x\"", ⟨42, 2, 8⟩⟩],
    .endOfFile ⟨45, 2, 11⟩, ?_, hbefore, rfl, rfl, hall, rfl,
    (readStatement_of_annotated hbefore rfl rfl hall rfl _).2⟩
  decide +kernel

/-- Three closing angle brackets in one token are not counted, and the annotation takes everything up to
the end of the source with it: the declaration is recorded, and the import behind it is not. -/
theorem import_lost_behind_arguments :
    ∃ word keyword name colon as equals value semicolon after last ts,
      (tokenize "export let m: A<B<C<D>>> = e;\nimport \"x\"").toOption.map (·.toList) =
        some (word :: keyword :: name :: colon ::
          (as ++ equals :: value :: semicolon :: after) ++ [last]) ∧
      colon.kind = .colon ∧ IsType .type ts ∧ ts.flatMap Token.text = as.flatMap Token.text ∧
      equals.kind = .equals ∧ semicolon.kind = .semicolon ∧
      (scanFrom last (some semicolon) 0 after).toOption.map (·.length) = some 1 ∧
      (scanFrom last none 0 (word :: keyword :: name :: colon ::
          (as ++ equals :: value :: semicolon :: after))).toOption =
        some [variableExport word keyword ["m"]] := by
  have name : ∀ (w : Text) (n : Nat), (onFirstLine .identifier w n).isAngle = false →
      IsType .type [onFirstLine .identifier w n] := fun w n hw => .name ⟨rfl, hw⟩
  have hinner : IsType .type ([onFirstLine .identifier "C" 18] ++ onFirstLine .operator "<" 19 ::
      ([onFirstLine .identifier "D" 20] ++ [onFirstLine .operator ">" 21])) :=
    .applied (name "C" 18 (by decide)) rfl (.argument (name "D" 20 (by decide))) rfl
  have hmiddle : IsType .type ([onFirstLine .identifier "B" 16] ++ onFirstLine .operator "<" 17 ::
      (_ ++ [onFirstLine .operator ">" 22])) :=
    .applied (name "B" 16 (by decide)) rfl (.argument hinner) rfl
  have houter : IsType .type ([onFirstLine .identifier "A" 14] ++ onFirstLine .operator "<" 15 ::
      (_ ++ [onFirstLine .operator ">" 23])) :=
    .applied (name "A" 14 (by decide)) rfl (.argument hmiddle) rfl
  refine ⟨onFirstLine .exportWord "export" 0, onFirstLine .identifier "let" 7,
    onFirstLine .identifier "m" 11, onFirstLine .colon ":" 12,
    [onFirstLine .identifier "A" 14, onFirstLine .operator "<" 15, onFirstLine .identifier "B" 16,
      onFirstLine .operator "<" 17, onFirstLine .identifier "C" 18, onFirstLine .operator "<" 19,
      onFirstLine .identifier "D" 20, onFirstLine .operator ">>>" 21],
    onFirstLine .equals "=" 25, onFirstLine .identifier "e" 27, onFirstLine .semicolon ";" 28,
    [⟨.importWord, "import", ⟨30, 2, 1⟩⟩, ⟨.string, "\"x\"", ⟨37, 2, 8⟩⟩],
    .endOfFile ⟨40, 2, 11⟩, _, ?_, rfl, houter, ?_, rfl, rfl, ?_, ?_⟩
  · decide +kernel
  · decide
  · decide +kernel
  · decide +kernel

end Declarator

end Statement

end ScriptBundle
