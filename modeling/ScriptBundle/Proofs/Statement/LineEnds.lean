import ScriptBundle.Proofs.Statement.Related
import ScriptBundle.Proofs.Token.LineEnds

/-!
# Module statements in a source with other line ends

With a carriage return in front of each line feed a source has the same module statements on the same lines
and columns, unless a literal goes on over a line end: then it has none, since the literal is unterminated.

* `SameName`, `SameStatement`: what stays the same;
* `onLine_of_tokenize`, `lineEnds`: the tokens of the two sources resemble each other;
* `moduleStatements_crlf`: the statements of the two sources.
-/

namespace ScriptBundle

open Lexer
open Lexeme (Head)

/-! ### What stays the same -/

/-- The same name, unless it is the text of a template literal, which has the other line ends. -/
def SameName (n n' : Text) : Prop :=
  n' = n ∨ (n.head? = some (CodePoint.ofChar '`') ∧ n' = n.crlf)

/-- The same token on the same line and column. -/
structure SameToken (t t' : Token) : Prop where
  kind : t'.kind = t.kind
  start : t.start.Abreast t'.start
  text : t'.text = t.text ∨
    (t.kind = .template ∧ t.text.head? = some (CodePoint.ofChar '`') ∧ t'.text = t.text.crlf)

/-- The same statement on the same line and column. -/
structure SameStatement (s s' : Statement) : Prop where
  start : s.start.Abreast s'.start
  form : Statement.Form.Rel SameName SameToken s.form s'.form

/-! ### Tokens -/

/-- No lexeme but a gap starts with a line feed. -/
theorem eq_gap_of_head {operand : Bool} {s : Text} {l : Lexeme} {n : Nat}
    (h : Head operand '\n' s l n) : l = .gap := by
  have hspace : Head operand '\n' s .gap 0 := .space (by decide)
  have heq := (Lexeme.read_eq_ok_iff.2 h).symm.trans (Lexeme.read_eq_ok_iff.2 hspace)
  exact (Prod.mk.inj (Except.ok.inj heq)).1

/-- A template literal starts with a backquote. -/
theorem eq_of_template {operand : Bool} {c : CodePoint} {s : Text} {n : Nat}
    (h : Head operand c s (.token .template) n) : c = '`' := by
  generalize hl : Lexeme.token .template = l at h
  cases h with
  | space | line | block | opening | number | string | regex => cases hl
  | word =>
    have hword := Lexeme.isWordKind_wordKind (c :: s.takeWhile Lexeme.inWord)
    rw [← Lexeme.token.inj hl] at hword
    cases hword
  | template hc => exact hc
  | mark =>
    have hkind := Lexeme.token.inj hl
    unfold Lexeme.punctuator at hkind
    split at hkind
    · cases hkind
    · exact absurd hkind.symm (punctuatorKind_ne c (by decide))

/-- Of the tokens of a source whose literals are on one line each, only template literals go on over line
ends. -/
theorem onLine_of_tokenize {s : Text} {ts : TokenStream} (h : tokenize s = .ok ts)
    (hliterals : LiteralsOnOneLine s) {t : Token} (ht : t ∈ ts.tokens) :
    CodePoint.ofChar '\n' ∉ t.text ∨
      (t.kind = .template ∧ t.text.head? = some (CodePoint.ofChar '`')) := by
  obtain ⟨operand, hr⟩ := tokenize_eq_ok_iff.1 h
  obtain ⟨before, after, hsplit⟩ := List.append_of_mem ht
  obtain ⟨⟨⟨operand', frames⟩, p, r⟩, y, hreads, hat, -⟩ := (hsplit ▸ hr).split rfl
  obtain rfl : frames = [] := hat.before
  by_cases hk : t.kind = .template
  · refine .inr ⟨hk, ?_⟩
    obtain ⟨d, w, htext⟩ := List.exists_cons_of_ne_nil hat.text_ne_nil
    obtain ⟨c, r', n, rfl, hcases⟩ := hat.first
    obtain rfl : c = d := by
      have := hat.text
      rw [htext] at this
      exact (List.cons.inj this).1
    rw [htext, List.head?_cons]
    rcases hcases with ⟨hhead, -⟩ | ⟨hhead, -⟩
    · rw [hk] at hhead
      rw [eq_of_template hhead]
    · cases hhead with
      | opening hc => rw [hc]
  · obtain ⟨c, w, htext, hhead⟩ := hat.head hk
    have hrest : r = c :: (w ++ y.rest) := by
      have := hat.text
      rwa [htext] at this
    have hc : c ≠ '\n' := by
      rintro rfl
      cases eq_gap_of_head hhead
    have hon : Lexeme.onLine (w ++ y.rest) w.length := by
      by_cases hliteral : t.kind = .string ∨ t.kind = .regex
      · by_contra hon
        exact hliterals ⟨before, _, c, _, hreads, hrest, t.kind, _, hhead, hliteral, by simpa using hon⟩
      · rw [not_or] at hliteral
        exact hhead.onLine ⟨hk, hliteral⟩
    rw [Lexeme.onLine, List.take_left, decide_eq_true_eq] at hon
    rw [htext, List.mem_cons, not_or]
    exact .inl ⟨hc.symm, hon⟩

/-- The tokens of a source and of the source with the other line ends. -/
def lineEnds : Resemblance where
  rel := SameToken
  lines := 0
  kind_eq h := h.kind
  line_eq h := h.start.line
  text_cases := by
    intro t t' h
    rcases h.text with heq | ⟨hk, hhead, heq⟩
    · exact .inl heq
    · refine .inr ⟨hk, hhead, ?_⟩
      obtain ⟨w, hw⟩ := List.head?_eq_some_iff.1 hhead
      rw [heq, hw, Text.crlf_cons (by decide)]
      rfl

theorem sameName_of_names {n n' : Text} (h : lineEnds.Names n n') : SameName n n' := by
  rcases h with heq | ⟨t, t', ht, rfl, rfl⟩
  · exact .inl heq
  · rcases ht.text with heq | ⟨-, hhead, heq⟩
    · exact .inl heq
    · exact .inr ⟨hhead, heq⟩

theorem sameStatement_of_statements {s s' : Statement} (h : lineEnds.Statements s s') :
    SameStatement s s' := by
  obtain ⟨⟨t, t', ht, hstart, hstart'⟩, -, hform⟩ := h
  refine ⟨?_, hform.imp (fun _ _ => sameName_of_names) fun _ _ => id⟩
  rw [hstart, hstart']
  exact ht.start

theorem sameTokens_of_tokenize {s : Text} {ts ts' : TokenStream} (h : tokenize s = .ok ts)
    (hliterals : LiteralsOnOneLine s)
    (hpairs : List.Forall₂ (TokenPair (otherEnds [])) ts.tokens ts'.tokens) :
    List.Forall₂ SameToken ts.tokens ts'.tokens := by
  refine ((List.forall₂_and_left _ _).2
    ⟨fun t ht => onLine_of_tokenize h hliterals ht, hpairs⟩).imp ?_
  rintro t t' ⟨hcases, hkind, hp, htext⟩
  rw [List.append_nil] at htext
  refine ⟨hkind, hp, ?_⟩
  rcases hcases with hon | ⟨hk, hhead⟩
  · exact .inl (htext.trans (Text.crlf_of_not_mem hon))
  · exact .inr ⟨hk, hhead, htext⟩

/-! ### Statements -/

/-- With the literals of a source on one line each, the other line ends change nothing but offsets, and what
template literals hold. -/
theorem moduleStatements_rel {s : Text} (hliterals : LiteralsOnOneLine s) :
    Except.Rel (fun f f' => f.position.Abreast f'.position) (List.Forall₂ SameStatement)
      (moduleStatements s) (moduleStatements s.crlf) := by
  have houtcome := tokenize_crlf hliterals
  unfold moduleStatements scanSource
  cases hs : tokenize s with
  | error f =>
    rw [hs] at houtcome
    generalize tokenize s.crlf = y at houtcome ⊢
    cases houtcome with
    | error hfault =>
      obtain ⟨-, _, _, hp, -⟩ := hfault
      exact .error hp
  | ok ts =>
    rw [hs] at houtcome
    generalize tokenize s.crlf = y at houtcome ⊢
    cases houtcome with
    | @ok _ ts' hpairs =>
      have hlast : lineEnds.rel ts.last ts'.last := ⟨rfl, hpairs.finish.1, .inl rfl⟩
      have hscan : Except.Rel lineEnds.Faults (List.Forall₂ lineEnds.Statements) (Statement.scan ts)
          (Statement.scan ts') :=
        Statement.scanFrom_rel hlast rfl 0 (sameTokens_of_tokenize hs hliterals hpairs.tokens)
      simp only
      generalize Statement.scan ts = x, Statement.scan ts' = y at hscan ⊢
      cases hscan with
      | ok hss => exact .ok (hss.imp fun _ _ => sameStatement_of_statements)
      | error hfault => exact .error hfault.place.start

/-- With carriage returns in front of its line feeds a source has module statements exactly if it has some
without them and its literals are on one line each; then they are the same statements on the same lines and
columns. -/
theorem moduleStatements_crlf (s : Text) :
    ((∃ ss', moduleStatements s.crlf = .ok ss') ↔
        (∃ ss, moduleStatements s = .ok ss) ∧ LiteralsOnOneLine s) ∧
      ∀ ss ss', moduleStatements s = .ok ss → moduleStatements s.crlf = .ok ss' →
        List.Forall₂ SameStatement ss ss' := by
  by_cases hliterals : LiteralsOnOneLine s
  · have hrel := moduleStatements_rel hliterals
    generalize moduleStatements s = x, moduleStatements s.crlf = y at hrel ⊢
    cases hrel with
    | error => simp
    | ok h =>
      refine ⟨by simp [hliterals], fun ss ss' hss hss' => ?_⟩
      rwa [← Except.ok.inj hss, ← Except.ok.inj hss']
  · obtain ⟨e, he⟩ := exists_fault_crlf hliterals
    have hfault : moduleStatements s.crlf = .error (.lexical e) := by
      rw [moduleStatements, scanSource, he]
      rfl
    rw [hfault]
    simp [hliterals]

/-- An import and an export on two lines, and a template literal over a line end. -/
def twoLineSource : Text := "import a from \"x\"\nexport let b = `c\nd`"

theorem moduleStatements_crlf_twoLineSource :
    ∃ ss ss', moduleStatements twoLineSource = .ok ss ∧ ss.length = 2 ∧
      moduleStatements twoLineSource.crlf = .ok ss' ∧ List.Forall₂ SameStatement ss ss' := by
  have hss : (moduleStatements twoLineSource).toOption.any (·.length = 2) := by decide +kernel
  have hss' : (moduleStatements twoLineSource.crlf).toOption.any fun _ => true := by decide +kernel
  obtain ⟨ss, hss, hlength⟩ := Except.exists_of_any_toOption hss
  obtain ⟨ss', hss', -⟩ := Except.exists_of_any_toOption hss'
  exact ⟨ss, ss', hss, of_decide_eq_true hlength, hss',
    (moduleStatements_crlf twoLineSource).2 ss ss' hss hss'⟩

/-- A string that goes on behind a backslash and a line feed is read, but not with the other line end. -/
theorem unterminated_otherLineEnd :
    CodePoint.ofChar '\r' ∉ Text.ofString "import \"a\\\nb\"" ∧
      moduleStatements "import \"a\\\nb\"" =
        .ok [⟨.start, 13, .imports "ab" [] false⟩] ∧
      moduleStatements (Text.crlf "import \"a\\\nb\"") =
        .error (.lexical ⟨.string, ⟨7, 1, 8⟩⟩) := by
  refine ⟨?_, ?_, ?_⟩ <;> decide +kernel

end ScriptBundle
