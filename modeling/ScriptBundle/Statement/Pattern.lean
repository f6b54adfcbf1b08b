import ScriptBundle.Except
import ScriptBundle.Statement.Expression

/-!
# Binding patterns

The names that a declaration binds: an identifier binds itself, an object or array pattern binds the
names of its elements, and patterns nest. The walk over a pattern remembers the brackets that are
open, innermost first, so that one pass over the tokens suffices.

* `patternNames`: the names of one pattern;
* `declaratorNames`: the names of a whole `const`, `let` or `var` declaration;
* `patternNames_suffix`, `declaratorNames_suffix`: what they leave is a suffix of what they got.
-/

namespace ScriptBundle.Statement

/-- Names that have been read, and the tokens that are left. -/
abbrev Names := List Text × List Token

/-- One more name in front. -/
def Names.cons (name : Text) (r : Names) : Names := (name :: r.1, r.2)

/-- The kind of the bracket that closes a pattern. -/
def closing (opener : Token) : TokenKind :=
  if opener.kind = .leftBrace then .rightBrace else .rightBracket

/-- Passes over the default value of an element of the innermost open pattern, if it has one. -/
def dropDefault : List Token → List Token → List Token
  | g :: _, t :: ts =>
    if t.kind = .equals then
      dropExpression (fun k => k = .comma || k = closing g) false t 0 ts
    else t :: ts
  | _, ts => ts

theorem dropDefault_suffix (groups ts : List Token) : dropDefault groups ts <:+ ts := by
  unfold dropDefault
  split
  · split
    · exact (dropExpression_suffix ..).trans (List.suffix_cons ..)
    · exact List.suffix_refl _
  · exact List.suffix_refl _

/-- What follows the key of a property, whose first token has been read. A computed key is a group
in brackets; it may lack its closing bracket. -/
def afterKey? (key : Token) (ts : List Token) : Option (List Token) :=
  if key.kind = .leftBracket then (dropGroup 1 ts).map (·.2) else some ts

theorem afterKey?_suffix {key : Token} {ts r : List Token} (h : afterKey? key ts = some r) :
    r <:+ ts := by
  unfold afterKey? at h
  split at h
  · obtain ⟨⟨t, r'⟩, hg, rfl⟩ := Option.map_eq_some_iff.1 h
    exact (List.suffix_cons t _).trans (dropGroup_suffix hg)
  · cases h
    exact List.suffix_refl _

/-- Whether the walk stands where a pattern must follow, or behind an element of the innermost open
pattern. -/
inductive Place
  | target
  | element
  deriving DecidableEq

/-- The names bound by the rest of a pattern inside the open patterns `groups`, whose opening
brackets are given innermost first; `last` is the token at the end of the source. -/
def walkPattern (last : Token) (place : Place) (groups : List Token) (ts : List Token) :
    Except StatementFault Names :=
  match place, groups, ts with
  | .target, _, [] => .error ⟨.patternExpected last, last⟩
  | .target, groups, t :: ts =>
    if t.kind = .identifier then
      (walkPattern last .element groups (dropDefault groups ts)).map (.cons t.text)
    else if t.kind = .leftBrace || t.kind = .leftBracket then
      walkPattern last .element (t :: groups) ts
    else .error ⟨.patternExpected t, t⟩
  | .element, [], ts => .ok ([], ts)
  | .element, g :: _, [] => .error ⟨.unclosedPattern, g⟩
  | .element, g :: gs, t :: ts =>
    if t.kind = closing g then walkPattern last .element gs (dropDefault gs ts)
    else if t.kind = .comma then walkPattern last .element (g :: gs) ts
    else if t.isOperator "..." then walkPattern last .target (g :: gs) ts
    else if g.kind = .leftBrace then
      match _h : afterKey? t ts with
      | none => .error ⟨.unclosedGroup, last⟩
      | some [] => (walkPattern last .element (g :: gs) []).map (.cons t.text)
      | some (u :: us) =>
        if u.kind = .colon then walkPattern last .target (g :: gs) us
        else
          (walkPattern last .element (g :: gs) (dropDefault (g :: gs) (u :: us))).map (.cons t.text)
    else walkPattern last .target (g :: gs) (t :: ts)
  termination_by 2 * ts.length + if place = .target then 0 else 1
  decreasing_by
    all_goals simp only [List.length_cons, List.length_nil, if_true, if_false]
    · have := (dropDefault_suffix groups ts).length_le
      omega
    · omega
    · have := (dropDefault_suffix gs ts).length_le
      omega
    · omega
    · omega
    · omega
    · have := (afterKey?_suffix _h).length_le
      simp only [List.length_cons] at this
      omega
    · have := (dropDefault_suffix (g :: gs) (u :: us)).length_le
      have := (afterKey?_suffix _h).length_le
      omega
    · omega

/-- Behind an element of an open pattern the next token tells how the walk goes on. -/
theorem walkPattern_element (last g t : Token) (gs ts : List Token) :
    walkPattern last .element (g :: gs) (t :: ts) =
      if t.kind = closing g then walkPattern last .element gs (dropDefault gs ts)
      else if t.kind = .comma then walkPattern last .element (g :: gs) ts
      else if t.isOperator "..." then walkPattern last .target (g :: gs) ts
      else if g.kind = .leftBrace then
        match afterKey? t ts with
        | none => .error ⟨.unclosedGroup, last⟩
        | some [] => (walkPattern last .element (g :: gs) []).map (.cons t.text)
        | some (u :: us) =>
          if u.kind = .colon then walkPattern last .target (g :: gs) us
          else
            (walkPattern last .element (g :: gs) (dropDefault (g :: gs) (u :: us))).map
              (.cons t.text)
      else walkPattern last .target (g :: gs) (t :: ts) := by
  conv => lhs; rw [walkPattern]
  split
  · rfl
  · split
    · rfl
    · split
      · rfl
      · split
        · split <;> simp only [*]
        · rfl

theorem walkPattern_suffix {last : Token} {place : Place} {groups ts : List Token} {n : Names}
    (h : walkPattern last place groups ts = .ok n) : n.2 <:+ ts := by
  fun_induction walkPattern last place groups ts generalizing n with
  | case1 => cases h
  | case2 groups t ts _ ih =>
    obtain ⟨m, hm, rfl⟩ := Except.map_eq_ok_iff.1 h
    exact ((ih hm).trans (dropDefault_suffix _ _)).trans (List.suffix_cons t ts)
  | case3 groups t ts _ _ ih => exact (ih h).trans (List.suffix_cons t ts)
  | case4 => cases h
  | case5 => cases h; exact List.suffix_refl _
  | case6 => cases h
  | case7 g gs t ts _ ih =>
    exact ((ih h).trans (dropDefault_suffix _ _)).trans (List.suffix_cons t ts)
  | case8 g gs t ts _ _ ih => exact (ih h).trans (List.suffix_cons t ts)
  | case9 g gs t ts _ _ _ ih => exact (ih h).trans (List.suffix_cons t ts)
  | case10 => cases h
  | case11 g gs t ts _ _ _ _ hk ih =>
    obtain ⟨m, hm, rfl⟩ := Except.map_eq_ok_iff.1 h
    exact (ih hm).trans (List.nil_suffix)
  | case12 g gs t ts _ _ _ _ u us hk _ ih =>
    exact ((ih h).trans ((List.suffix_cons u us).trans (afterKey?_suffix hk))).trans
      (List.suffix_cons t ts)
  | case13 g gs t ts _ _ _ _ u us hk _ ih =>
    obtain ⟨m, hm, rfl⟩ := Except.map_eq_ok_iff.1 h
    exact ((ih hm).trans ((dropDefault_suffix _ _).trans (afterKey?_suffix hk))).trans
      (List.suffix_cons t ts)
  | case14 g gs t ts _ _ _ _ ih => exact ih h

/-- The names of the pattern at the head of the tokens. -/
def patternNames (last : Token) (ts : List Token) : Except StatementFault Names :=
  walkPattern last .target [] ts

theorem patternNames_suffix {last : Token} {ts : List Token} {n : Names}
    (h : patternNames last ts = .ok n) : n.2 <:+ ts :=
  walkPattern_suffix h

/-- A pattern takes at least one token. -/
theorem length_lt_of_patternNames {last : Token} {ts : List Token} {n : Names}
    (h : patternNames last ts = .ok n) : n.2.length < ts.length := by
  unfold patternNames walkPattern at h
  split at h
  · cases h
  · split at h
    · obtain ⟨m, hm, rfl⟩ := Except.map_eq_ok_iff.1 h
      exact Nat.lt_succ_of_le
        (Nat.le_trans (walkPattern_suffix hm).length_le (dropDefault_suffix _ _).length_le)
    · split at h
      · exact Nat.lt_succ_of_le (walkPattern_suffix h).length_le
      · cases h
  all_goals contradiction

/-- What follows the mark `!` behind a declared name, which only types use. -/
def dropDefinite : List Token → List Token
  | t :: ts => if t.isOperator "!" then ts else t :: ts
  | [] => []

/-- Passes over the type annotation of a declarator, if it has one. -/
def dropTypePart : List Token → List Token
  | t :: ts =>
    if t.kind = .colon then
      dropExpression (fun k => k = .equals || k = .comma || k = .semicolon) true t 0 ts
    else t :: ts
  | [] => []

/-- Passes over the initializer of a declarator, if it has one. -/
def dropInitializer : List Token → List Token
  | t :: ts =>
    if t.kind = .equals then dropExpression (fun k => k = .comma || k = .semicolon) false t 0 ts
    else t :: ts
  | [] => []

/-- What follows the pattern, the annotation and the initializer of a declarator. -/
def afterDeclarator (ts : List Token) : List Token :=
  dropInitializer (dropTypePart (dropDefinite ts))

theorem dropDefinite_suffix (ts : List Token) : dropDefinite ts <:+ ts := by
  unfold dropDefinite
  repeat' split
  · exact List.suffix_cons ..
  · exact List.suffix_refl _
  · exact List.suffix_refl _

theorem dropTypePart_suffix (ts : List Token) : dropTypePart ts <:+ ts := by
  unfold dropTypePart
  repeat' split
  · exact (dropExpression_suffix ..).trans (List.suffix_cons ..)
  · exact List.suffix_refl _
  · exact List.suffix_refl _

theorem dropInitializer_suffix (ts : List Token) : dropInitializer ts <:+ ts := by
  unfold dropInitializer
  repeat' split
  · exact (dropExpression_suffix ..).trans (List.suffix_cons ..)
  · exact List.suffix_refl _
  · exact List.suffix_refl _

theorem afterDeclarator_suffix (ts : List Token) : afterDeclarator ts <:+ ts :=
  ((dropInitializer_suffix _).trans (dropTypePart_suffix _)).trans (dropDefinite_suffix ts)

/-- The names of a declaration, behind its `const`, `let` or `var`. -/
def declaratorNames (last : Token) (ts : List Token) : Except StatementFault Names :=
  match _h : patternNames last ts with
  | .error e => .error e
  | .ok (names, rest) =>
    match _h' : afterDeclarator rest with
    | t :: us =>
      if t.kind = .comma then (declaratorNames last us).map fun n => (names ++ n.1, n.2)
      else .ok (names, t :: us)
    | [] => .ok (names, [])
  termination_by ts.length
  decreasing_by
    have h₁ := length_lt_of_patternNames _h
    have h₂ := (afterDeclarator_suffix rest).length_le
    simp only [_h', List.length_cons] at h₁ h₂
    omega

/-- A comma behind a declarator tells that there is another one. -/
theorem declaratorNames_eq (last : Token) (ts : List Token) :
    declaratorNames last ts = patternNames last ts >>= fun r =>
      match afterDeclarator r.2 with
      | t :: us =>
        if t.kind = .comma then (declaratorNames last us).map fun n => (r.1 ++ n.1, n.2)
        else .ok (r.1, t :: us)
      | [] => .ok (r.1, []) := by
  rw [declaratorNames]
  split
  · simp only [*]; rfl
  · split <;> simp only [*] <;> simp only [Except.ok_bind, *]

theorem declaratorNames_suffix {last : Token} {ts : List Token} {n : Names}
    (h : declaratorNames last ts = .ok n) : n.2 <:+ ts := by
  fun_induction declaratorNames last ts generalizing n with
  | case1 => cases h
  | case2 ts names rest hp t us hr _ ih =>
    obtain ⟨m, hm, rfl⟩ := Except.map_eq_ok_iff.1 h
    exact ((ih hm).trans (List.suffix_cons t us)).trans
      (hr ▸ (afterDeclarator_suffix rest).trans (patternNames_suffix hp))
  | case3 ts names rest hp t us hr _ =>
    cases h
    exact hr ▸ (afterDeclarator_suffix rest).trans (patternNames_suffix hp)
  | case4 => cases h; exact List.nil_suffix

end ScriptBundle.Statement
