import ScriptBundle.Proofs.Lowering.Evaluation
import ScriptBundle.Proofs.Lowering.LocalNames
import ScriptBundle.Proofs.Text.WrittenLines

/-!
# Properties with the names of other modules

A name from another module is read as a property of its exports: behind a dot where the name is a word, in
brackets and quotes elsewhere. The text for it is on one line and reads the property with that name, for any
name that an import or a re-export can have, with two exceptions. A word of ASCII and alphanumeric characters
with a line feed behind it passes for a word, so that the line feed stands in the output and is none of the
property. And the name `*`, which a string can give, stands for all exports.

* `Accesses`: a text that reads a property;
* `Statement.foreignNames`, `paired_of_mem_foreignNames`: the names that statements take from other modules;
* `Lined`: a word with a line feed behind it;
* `ReadsProperty`, `readsProperty_iff`: what becomes of a name.
-/

namespace ScriptBundle

/-! ### Words have no surrogates -/

/-- A set without a boundary among the surrogates, and without the first one, holds none of them. -/
theorem RunSet.contains_surrogate {r : RunSet} {c : CodePoint}
    (hgap : ∀ b ∈ r.boundaries, b ≤ 0xD800 ∨ 0xE000 ≤ b) (h : r.contains ⟨0xD800, by decide⟩ = false)
    (hc : c.isSurrogate) : r.contains c = false := by
  rw [← h]
  refine contains_congr fun b hb => ?_
  simp only [CodePoint.isSurrogate, Bool.and_eq_true, decide_eq_true_eq] at hc
  rcases hgap b hb with hb | hb <;> simp only <;> omega

/-- No word has half of a surrogate pair. -/
theorem Lexeme.isSurrogate_of_word {c : CodePoint} (h : startsWord c ∨ inWord c) :
    c.isSurrogate = false := by
  by_contra hsurrogate
  have hc : c.isSurrogate = true := by simpa using hsurrogate
  have hstart := RunSet.contains_surrogate (r := CodePoint.identifierStartRuns) (by decide +kernel)
    (by decide +kernel) hc
  have halphanumeric := RunSet.contains_surrogate (r := CodePoint.alphanumericRuns) (by decide +kernel)
    (by decide +kernel) hc
  have hmark := RunSet.contains_surrogate (r := CodePoint.identifierMarkRuns) (by decide +kernel)
    (by decide +kernel) hc
  have hback : c ≠ '\\' := by
    rintro rfl
    revert hc
    decide
  have hlow : ¬ c.val < 0x80 := by
    simp only [CodePoint.isSurrogate, Bool.and_eq_true, decide_eq_true_eq] at hc
    omega
  rcases h with h | h
  · simp [startsWord, CodePoint.isIdentifierStart, hlow, hstart, hback] at h
  · simp [inWord, CodePoint.isIdentifierPart, hlow, halphanumeric, hmark, hback] at h

open StringLiteral (Paired)

theorem StringLiteral.paired_of_forall {s : Text} (h : ∀ c ∈ s, c.isSurrogate = false) : Paired s := by
  refine (List.pairwise_of_forall_mem_list fun c hc d _ hhalves => ?_).isChain
  have := isSurrogate_of_isHighSurrogate hhalves.1
  rw [h c hc] at this
  cases this

/-! ### Names from other modules -/

namespace Statement

/-- The names that a statement takes from another module. -/
def foreignNames (s : Statement) : List Text :=
  match s.form with
  | .imports _ bindings _ => bindings.map (·.outer)
  | .reexports _ bindings _ => bindings.map (·.inner)
  | _ => []

section Names

variable {source name : Text} {tokens : TokenStream} {t : Token} {run : List Token} {bs : List Binding}
  {b : Binding}

theorem paired_of_bindingName (h : tokenize source = .ok tokens) (ht : t ∈ tokens.tokens)
    (hn : bindingName t = .ok name) : Paired name := by
  have hword : ∀ {w}, t.kind.isWordKind → t.text = w → Paired w := by
    rintro w hk rfl
    obtain ⟨c, v, htext, hc, hv, -⟩ := Lexer.word_of_tokenize h ht hk
    rw [htext]
    refine StringLiteral.paired_of_forall (List.forall_mem_cons.2 ⟨?_, fun d hd => ?_⟩)
    · exact Lexeme.isSurrogate_of_word (.inl hc)
    · exact Lexeme.isSurrogate_of_word (.inr (hv d hd))
  unfold bindingName at hn
  split at hn
  · unfold stringValue at hn
    split at hn
    · next hvalue =>
      cases hn
      exact StringLiteral.paired_of_decode hvalue
    · cases hn
  · next hk => exact hword (by rw [hk]; rfl) (Except.ok.inj hn)
  · next hk => exact hword (by rw [hk]; rfl) (Except.ok.inj hn)
  · next hk => exact hword (by rw [hk]; rfl) (Except.ok.inj hn)
  · cases hn

/-- A name in a list of bindings is a word or the value of a string. -/
theorem paired_of_isElements (h : tokenize source = .ok tokens) (hrun : ∀ t ∈ run, t ∈ tokens.tokens)
    (hbs : IsElements run bs) (hb : b ∈ bs) : Paired b.outer := by
  obtain ⟨⟨t, ht, hn⟩, -⟩ := exists_bindingName_of_isElements hbs hb
  exact paired_of_bindingName h (hrun t ht) hn

theorem paired_of_isPart (h : tokenize source = .ok tokens) (hrun : ∀ t ∈ run, t ∈ tokens.tokens)
    (hbs : IsPart run bs) (hb : b ∈ bs) : Paired b.outer := by
  cases hbs with
  | everything =>
    rw [List.mem_singleton.1 hb]
    show Paired (Text.ofString "*")
    decide
  | names _ _ hbs => exact paired_of_isElements h (fun t ht => hrun t (by simp [ht])) hbs hb

theorem paired_of_isClause (h : tokenize source = .ok tokens) (hrun : ∀ t ∈ run, t ∈ tokens.tokens)
    (hbs : IsClause run bs) (hb : b ∈ bs) : Paired b.outer := by
  cases hbs with
  | part hbs => exact paired_of_isPart h hrun hbs hb
  | default =>
    rw [List.mem_singleton.1 hb]
    show Paired (Text.ofString "default")
    decide
  | both _ _ hbs =>
    rcases List.mem_cons.1 hb with rfl | hb
    · show Paired (Text.ofString "default")
      decide
    · exact paired_of_isPart h (fun t ht => hrun t (by simp [ht])) hbs hb

/-- In the names that statements take from other modules no two halves of a surrogate pair meet. -/
theorem paired_of_mem_foreignNames {statements : List Statement} {s : Statement}
    (h : scanSource source = .ok (tokens, statements)) (hs : s ∈ statements)
    (hn : name ∈ s.foreignNames) : Paired name := by
  have htokens := (Lowering.tokenize_of_scanSource h).1
  obtain ⟨before, word, us, hts, -, hsays⟩ := saidIn_of_scanSource h s hs
  have hmem : ∀ t ∈ us, t ∈ tokens.tokens := fun t ht => by simp [hts, ht]
  obtain ⟨start, stop, form⟩ := s
  cases hsays with
  | runs | exportsAll | exportsList | declares | default => cases hn
  | imports _ _ _ hclause =>
    obtain ⟨b, hb, rfl⟩ := List.mem_map.1 hn
    exact paired_of_isClause htokens (fun t ht => hmem t (by simp [ht])) hclause hb
  | exportsAs =>
    rw [List.mem_singleton.1 hn]
    show Paired (Text.ofString "*")
    decide
  | exportsAgain _ _ _ _ helements =>
    obtain ⟨b, hb, rfl⟩ := List.mem_map.1 hn
    obtain ⟨c, hc, rfl⟩ := List.mem_map.1 hb
    exact paired_of_isElements htokens (fun t ht => hmem t (by simp [ht])) helements hc

end Names

end Statement

namespace Lowering

/-! ### Texts that read a property -/

/-- The text reads the property `name` of `object`: behind a dot, where the name is one word and nothing
else, or by a string whose value the name is. -/
inductive Accesses (object name : Text) : Text → Prop
  | dot {tokens : TokenStream} {kind : TokenKind} (h : tokenize name = .ok tokens)
      (hsigns : tokens.tokens.map Token.sign = [(kind, name)]) (hk : kind.isWordKind) :
      Accesses object name (object ++ "." ++ name)
  | index {literal : Text} (h : StringLiteral.decode literal = .ok name) :
      Accesses object name (object ++ "[" ++ literal ++ "]")

/-- A word that can stand behind a dot, with a line feed behind it. -/
def Lined (name : Text) : Prop :=
  ∃ (c : CodePoint) (v : Text), name = c :: (v ++ [CodePoint.ofChar '\n']) ∧
    (c.isAsciiLetter || c = '_' || c = '$') ∧ ∀ d ∈ v, d.isAlphanumeric || d = '_' || d = '$'

/-- Every text for the name reads the property with this name, and no other one, and it is on one line.
An import of the default export is read in its own way. -/
structure ReadsProperty (name : Text) : Prop where
  accesses (object : Text) : Accesses object name (member object name)
  unbroken {object : Text} (h : Text.Unbroken object) : Text.Unbroken (member object name)
  reexported {object : Text} (h : isIdentifier object) (exported : Text) (typeOnly : Bool) :
    Means (readBinding object ⟨exported, name, typeOnly⟩) (.property (.name object) (stringOf name))
  imported (hname : name ≠ "default") {object : Text} (h : isIdentifier object) (bound : Text)
    (typeOnly : Bool) : ∃ e, bindingVariable object ⟨name, bound, typeOnly⟩ = varStatement bound e ∧
      Means e (.property (.name object) (stringOf name))

section Member

variable {name object : Text} {c : CodePoint} {v : Text}

theorem lined_iff : Lined name ↔ isPropertyName name ∧ name.getLast? = some (CodePoint.ofChar '\n') := by
  constructor
  · rintro ⟨c, v, rfl, hc, hv⟩
    have hconcat : c :: (v ++ [CodePoint.ofChar '\n']) = (c :: v) ++ [CodePoint.ofChar '\n'] := rfl
    have hlast : (c :: (v ++ [CodePoint.ofChar '\n'])).getLast? = some (CodePoint.ofChar '\n') := by
      rw [hconcat, List.getLast?_concat]
    have hdrop : (c :: (v ++ [CodePoint.ofChar '\n'])).dropLast = c :: v := by
      rw [hconcat, List.dropLast_concat]
    refine ⟨?_, hlast⟩
    simp only [isPropertyName, hlast, if_true, hdrop, Bool.and_eq_true, List.all_eq_true]
    exact ⟨hc, hv⟩
  · rintro ⟨hname, hlast⟩
    rw [isPropertyName, if_pos hlast] at hname
    cases hdrop : name.dropLast with
    | nil =>
      rw [hdrop] at hname
      cases hname
    | cons c v =>
      rw [hdrop] at hname
      obtain ⟨hc, hv⟩ := Bool.and_eq_true_iff.1 hname
      refine ⟨c, v, ?_, hc, List.all_eq_true.1 hv⟩
      rw [← List.cons_append, ← hdrop]
      exact (List.dropLast_append_getLast? _ hlast).symm

instance (name : Text) : Decidable (Lined name) := decidable_of_iff _ lined_iff.symm

theorem propertyKey_of_not_lined (h : ¬ Lined name) : propertyKey name = name := by
  rw [lined_iff] at h
  simp [propertyKey, h]

/-- The text for a name is a word behind a dot, or the literal of the name in brackets. -/
theorem member_cases (h : ¬ Lined name) (object : Text) :
    (∃ c v, name = c :: v ∧ Lexeme.startsWord c ∧ (∀ d ∈ v, Lexeme.inWord d) ∧
      member object name = object ++ "." ++ name) ∨
    member object name = object ++ "[" ++ StringLiteral.encode name ++ "]" := by
  unfold member
  split
  · next hname =>
    obtain ⟨c, v, rfl | hcv, hc, -, -, hv⟩ := exists_of_isPropertyName hname
    · exact .inl ⟨c, v, rfl, hc, hv, rfl⟩
    · exact absurd (lined_iff.2 ⟨hname, by rw [hcv, List.getLast?_concat]⟩) h
  · exact .inr rfl

theorem accesses_member (hpaired : Paired name) (h : ¬ Lined name) (object : Text) :
    Accesses object name (member object name) := by
  rcases member_cases h object with ⟨c, v, rfl, hc, hv, hmember⟩ | hmember
  · rw [hmember]
    obtain ⟨tokens, htokens, hsigns⟩ := Lexer.tokenize_word hc hv
    exact .dot htokens hsigns (Lexeme.isWordKind_wordKind _)
  · rw [hmember]
    exact .index (StringLiteral.decode_encode hpaired)

theorem unbroken_word (hc : Lexeme.startsWord c) (hv : ∀ d ∈ v, Lexeme.inWord d) :
    Text.Unbroken (c :: v) := by
  have hall : ∀ d ∈ CodePoint.lineBoundaries, Lexeme.startsWord d = false ∧ Lexeme.inWord d = false := by
    decide +kernel
  refine List.forall_mem_cons.2 ⟨?_, fun d hd => ?_⟩
  · by_contra hboundary
    rw [(hall c (CodePoint.mem_lineBoundaries (by simpa using hboundary))).1] at hc
    cases hc
  · by_contra hboundary
    have := hv d hd
    rw [(hall d (CodePoint.mem_lineBoundaries (by simpa using hboundary))).2] at this
    cases this

theorem unbroken_encode (s : Text) : Text.Unbroken (StringLiteral.encode s) := by
  intro d hd
  obtain ⟨hlow, hhigh⟩ := StringLiteral.mem_encode hd
  simp only [CodePoint.isLineBoundary, Bool.or_eq_false_iff, Bool.and_eq_false_iff, decide_eq_false_iff_not]
  omega

theorem unbroken_member (h : ¬ Lined name) (hobject : Text.Unbroken object) :
    Text.Unbroken (member object name) := by
  rcases member_cases h object with ⟨c, v, rfl, hc, hv, hmember⟩ | hmember
  · rw [hmember]
    exact (hobject.append (by decide)).append (unbroken_word hc hv)
  · rw [hmember]
    exact ((hobject.append (by decide)).append (unbroken_encode name)).append (by decide)

theorem means_member_of_not_lined (h : ¬ Lined name) (hobject : isIdentifier object) :
    Means (member object name) (.property (.name object) (stringOf name)) := by
  have := means_member_propertyKey hobject name
  rwa [propertyKey_of_not_lined h] at this

/-- A name that can come from a source, apart from the two exceptions. -/
theorem readsProperty_of_paired (hpaired : Paired name) (h : ¬ Lined name) (hstar : name ≠ "*") :
    ReadsProperty name where
  accesses object := accesses_member hpaired h object
  unbroken hobject := unbroken_member h hobject
  reexported hobject exported typeOnly := by
    rw [readBinding, if_neg hstar]
    exact means_member_of_not_lined h hobject
  imported hname object hobject bound typeOnly := by
    refine ⟨member object name, ?_, means_member_of_not_lined h hobject⟩
    rw [bindingVariable, if_neg hstar, if_neg hname]

/-- With a line feed behind it a word is read without the line feed, from a text of two lines. -/
theorem member_of_lined (h : Lined name) (hobject : isIdentifier object) :
    ¬ Text.Unbroken (member object name) ∧
      Means (member object name) (.property (.name object) (stringOf name.dropLast)) := by
  obtain ⟨hname, hlast⟩ := lined_iff.1 h
  constructor
  · intro hunbroken
    have hmem : CodePoint.ofChar '\n' ∈ member object name := by
      rw [member, if_pos hname]
      exact List.mem_append_right _ (List.mem_of_getLast? hlast)
    have := hunbroken _ hmem
    revert this
    decide
  · have hkey : propertyKey name = name.dropLast := by simp [propertyKey, hname, hlast]
    rw [← hkey]
    exact means_member_propertyKey hobject name

theorem ReadsProperty.not_lined (h : ReadsProperty name) : ¬ Lined name :=
  fun hlined => (member_of_lined hlined (isIdentifier_moduleVariable 0)).1 (h.unbroken (by decide))

/-- The name `*` is read as the object itself. -/
theorem ReadsProperty.ne_star (h : ReadsProperty name) : name ≠ "*" := by
  rintro rfl
  have hobject := isIdentifier_moduleVariable 0
  cases means_unique (means_name hobject) (h.reexported hobject [] false)

end Member

section Source

variable {source name : Text} {tokens : TokenStream} {statements : List Statement} {s : Statement}

/-- The text for a name that a statement takes from another module reads the property with this name, on
one line, exactly if the name is no word with a line feed behind it and not `*`. It is the text that stands
in the prologue for an import or a re-export of the name. -/
theorem readsProperty_iff (h : scanSource source = .ok (tokens, statements)) (hs : s ∈ statements)
    (hn : name ∈ s.foreignNames) :
    (ReadsProperty name ↔ ¬ Lined name ∧ name ≠ "*") ∧
      (∀ n specifier exported, Reexports statements n specifier name exported →
        getter exported (readBinding (moduleVariable n) ⟨exported, name, false⟩) ∈ prologue statements) ∧
      ∀ n specifier bound, Imports statements n specifier name bound → name ≠ "*" →
        bindingVariable (moduleVariable n) ⟨name, bound, false⟩ ∈ prologue statements := by
  refine ⟨⟨fun hreads => ⟨hreads.not_lined, hreads.ne_star⟩, fun ⟨hlined, hstar⟩ =>
    readsProperty_of_paired (Statement.paired_of_mem_foreignNames h hs hn) hlined hstar⟩, ?_, ?_⟩
  · intro n specifier exported hexport
    rw [← text_bindingReading]
    exact hexport.mem_prologue.1
  · intro n specifier bound himport hstar
    rw [← text_bindingPiece]
    exact (himport.mem_prologue.resolve_left fun hname => hstar hname.1).2

/-- Two statements with names that are no words to begin with: a string, and a keyword. -/
def foreignSource : Text :=
  "import \x7b \"a b\" as x \x7d from 's'; export \x7b import as y \x7d from 't'"

theorem readsProperty_foreignSource : ∃ tokens statements,
    scanSource foreignSource = .ok (tokens, statements) ∧
      (∃ s ∈ statements, Text.ofString "a b" ∈ s.foreignNames) ∧
      (∃ s ∈ statements, Text.ofString "import" ∈ s.foreignNames) ∧
      ReadsProperty "a b" ∧ ReadsProperty "import" := by
  obtain ⟨⟨tokens, statements⟩, hscan, hnames⟩ := Except.exists_of_any_toOption
    (x := scanSource foreignSource)
    (p := fun (_, statements) => (∃ s ∈ statements, Text.ofString "a b" ∈ s.foreignNames) ∧
      ∃ s ∈ statements, Text.ofString "import" ∈ s.foreignNames) (by
      unfold foreignSource
      repeat rw [Text.ofString_ofList]
      decide +kernel)
  obtain ⟨⟨s, hs, hn⟩, s', hs', hn'⟩ := of_decide_eq_true hnames
  exact ⟨tokens, statements, hscan, ⟨s, hs, hn⟩, ⟨s', hs', hn'⟩,
    (readsProperty_iff hscan hs hn).1.2 (by decide +kernel),
    (readsProperty_iff hscan hs' hn').1.2 (by decide +kernel)⟩

end Source

/-- The import of a name that a line feed ends. -/
def linedImport : Text := "import \x7b \"a\\n\" as x \x7d from 's'"

/-- Its module statement. -/
def linedStatements : List Statement := [⟨⟨0, 1, 1⟩, 30, .imports "s" [⟨"a\n", "x", false⟩] false⟩]

/-- The import of a name that is a star. -/
def starImport : Text := "import \x7b \"*\" as x \x7d from 's'"

/-- Its module statement. -/
def starStatements : List Statement := [⟨⟨0, 1, 1⟩, 28, .imports "s" [⟨"*", "x", false⟩] false⟩]

/-- The first import reads the property `a`, in two lines; the second one reads no property. -/
theorem misread_imports :
    (Lowering.transpile "a.js" linedImport).result = .ok (esModuleMark ++ " " ++
        varStatement "__tsb_m0" (requireCall "s") ++ " " ++ varStatement "x" "__tsb_m0.a\n" ++ " ") ∧
      Means "__tsb_m0.a\n" (.property (.name "__tsb_m0") (stringOf "a")) ∧ ¬ ReadsProperty "a\n" ∧
      (Lowering.transpile "a.js" starImport).result =
        .ok (esModuleMark ++ " " ++ varStatement "x" (requireCall "s") ++ " ") ∧
      ¬ ReadsProperty "*" := by
  have hlined : Lined "a\n" := by decide +kernel
  have hstatements : (scanSource linedImport).toOption.map (·.2) = some linedStatements := by
    rw [linedImport, Text.ofString_ofList]
    decide +kernel
  have hstatements' : (scanSource starImport).toOption.map (·.2) = some starStatements := by
    rw [starImport, Text.ofString_ofList]
    decide +kernel
  obtain ⟨-, -, hout⟩ := exists_result_transpile "a.js" linedImport linedStatements (by decide) hstatements
  obtain ⟨-, -, hout'⟩ := exists_result_transpile "a.js" starImport starStatements (by decide) hstatements'
  have hlower : lower linedImport linedStatements = esModuleMark ++ " " ++
      varStatement "__tsb_m0" (requireCall "s") ++ " " ++ varStatement "x" "__tsb_m0.a\n" ++ " " := by
    have hvariable : moduleVariable 0 = "__tsb_m0" := by decide +kernel
    have hmember : member "__tsb_m0" "a\n" = "__tsb_m0.a\n" := by decide +kernel
    have hprologue : prologue linedStatements = [esModuleMark,
        varStatement (moduleVariable 0) (requireCall "s"),
        varStatement "x" (member (moduleVariable 0) "a\n")] := rfl
    rw [hvariable, hmember] at hprologue
    have hbody : applyEdits 0 (hideHashbang linedImport) (sourceEdits linedImport linedStatements) = [] := by
      decide +kernel
    rw [lower_eq_join hprologue hbody rfl]
    simp [Text.join]
  have hlower' : lower starImport starStatements =
      esModuleMark ++ " " ++ varStatement "x" (requireCall "s") ++ " " := by
    have hprologue : prologue starStatements = [esModuleMark, varStatement "x" (requireCall "s")] := rfl
    have hbody : applyEdits 0 (hideHashbang starImport) (sourceEdits starImport starStatements) = [] := by
      decide +kernel
    rw [lower_eq_join hprologue hbody rfl]
    simp [Text.join]
  exact ⟨hlower ▸ hout, (member_of_lined hlined (isIdentifier_moduleVariable 0)).2,
    fun h => h.not_lined hlined, hlower' ▸ hout', fun h => h.ne_star rfl⟩

end Lowering

end ScriptBundle
