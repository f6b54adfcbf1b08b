import ScriptBundle.Proofs.Statement.Keyword
import ScriptBundle.Proofs.Token.Reads

/-!
# Which keywords are recorded

Outside all brackets of a nested source, a keyword that starts a module statement is recorded, unless a
statement before it takes it along. So an `import` is lost exactly when it stands in a declarator that
the scanner does not see end: an operator such as `++` in front of a line break is one reason.

* `StartsModuleStatement`: the keywords that start a module statement;
* `Statement.Records`: a statement is the one of a keyword;
* `suffix_of_takes`, `recorded_or_taken`, `not_recorded_of_takes`: what is taken is not recorded, and
  there is nothing else;
* `recorded_iff`: the two together, for a whole source.
-/

namespace ScriptBundle

namespace Statement

/-- Whether a statement is an import. -/
def isImport (s : Statement) : Bool :=
  match s.form with
  | .imports .. => true
  | _ => false

/-- The statement `s` starts with the keyword `t`, and is an import if `t` is. -/
def Records (s : Statement) (t : Token) : Prop :=
  s.start = t.start ∧ (s.isImport ↔ t.kind = .importWord)

instance (s : Statement) (t : Token) : Decidable (s.Records t) :=
  inferInstanceAs (Decidable (_ ∧ _))

/-- The words behind `export` that tell a module statement. -/
def exportedWords : List Text := ["const", "let", "var", "function", "class", "default"]

/-- The keyword `t` between the token `prev` and the tokens `after` starts a module statement: it names
no member, and what follows tells it from the other uses of `import`, or tells what is exported. -/
def StartsModuleStatement (prev : Option Token) (t : Token) (after : List Token) : Prop :=
  prev.any (·.selectsMember) = false ∧
    ((t.kind = .importWord ∧ kindAhead .leftParen after = false ∧ kindAhead .dot after = false ∧
        (kindAhead .identifier after && kindAhead .equals after.tail) = false) ∨
      (t.kind = .exportWord ∧ (kindAhead .leftBrace after ∨ kindAhead .star after ∨
        ∃ w ∈ exportedWords, wordAhead w after)))

instance (prev : Option Token) (t : Token) (after : List Token) :
    Decidable (StartsModuleStatement prev t after) :=
  inferInstanceAs (Decidable (_ ∧ _))

/-- The typed form of `import a = …`. -/
def isTypeAlias (after : List Token) : Bool :=
  wordAhead "type" after && kindAhead .identifier after.tail && kindAhead .equals after.tail.tail

theorem isOtherImport_eq (ts : List Token) :
    isOtherImport ts = (kindAhead .leftParen ts || kindAhead .dot ts ||
      (kindAhead .identifier ts && kindAhead .equals ts.tail) || isTypeAlias ts) := by
  cases ts <;> rfl

section Read

variable {last word t : Token} {ts rest : List Token} {s : Statement}

/-! ### What a reader makes of a keyword -/

theorem readImport_ne_none (h : isOtherImport ts = false) : readImport last word ts ≠ .ok none := by
  intro hr
  rw [readImport, h] at hr
  simp only [Bool.false_eq_true, if_false] at hr
  split at hr
  · obtain ⟨_, _, hr⟩ := Except.bind_eq_ok_iff.1 hr
    cases hr
  · obtain ⟨_, _, hr⟩ := Except.bind_eq_ok_iff.1 hr
    obtain ⟨_, _, hr⟩ := Except.bind_eq_ok_iff.1 hr
    obtain ⟨_, _, hr⟩ := Except.bind_eq_ok_iff.1 hr
    cases hr

theorem text_of_isWord {w : Text} (h : t.isWord w) : t.text = w := by
  simp only [Token.isWord, Bool.and_eq_true, decide_eq_true_eq] at h
  exact h.2

theorem isWord_unique {v w : Text} (hv : t.isWord v) (hw : t.isWord w) : v = w :=
  (text_of_isWord hv).symm.trans (text_of_isWord hw)

theorem kind_of_isWord {w : Text} (h : t.isWord w) : t.kind = .identifier := by
  simp only [Token.isWord, Bool.and_eq_true, decide_eq_true_eq] at h
  exact h.1

/-- The words that start an exported declaration, but for those of types. -/
def declarationWords : List Text :=
  ["declare", "abstract", "async", "const", "let", "var", "function", "class", "enum", "namespace",
    "module"]

theorem exists_of_isModifier (h : isModifier t) : ∃ w ∈ declarationWords, t.isWord w := by
  simp only [isModifier, Bool.or_eq_true] at h
  rcases h with (h | h) | h <;> exact ⟨_, by decide, h⟩

theorem exists_of_isVariableWord (h : isVariableWord t) : ∃ w ∈ declarationWords, t.isWord w := by
  simp only [isVariableWord, Bool.or_eq_true] at h
  rcases h with (h | h) | h <;> exact ⟨_, by decide, h⟩

theorem exists_of_isNamingWord (h : isNamingWord t) : ∃ w ∈ declarationWords, t.isWord w := by
  simp only [isNamingWord, Bool.or_eq_true] at h
  rcases h with (((h | h) | h) | h) | h <;> exact ⟨_, by decide, h⟩

theorem isWord_eq_false {v w : Text} (h : t.isWord v) (hne : v ≠ w) : t.isWord w = false :=
  Bool.eq_false_iff.2 fun hw => hne (isWord_unique h hw)

theorem marksTypeExport_eq_false (ht : t.isWord "type" = false) :
    marksTypeExport (t :: ts) = false := by
  unfold marksTypeExport
  split
  · next heq =>
    obtain ⟨rfl, -⟩ := List.cons.inj heq
    rw [ht, Bool.false_and]
  · rfl

/-- What `export` is in front of, when that is a star. -/
theorem readExport_star (ht : t.kind = .star) :
    readExport last word (t :: ts) = readExportAll last word false ts := by
  have htype : t.isWord "type" = false := by simp [Token.isWord, ht]
  simp only [readExport, marksTypeExport_eq_false htype, Bool.false_eq_true, if_false, if_pos ht]

/-- What `export` is in front of, when that is a brace. -/
theorem readExport_brace (ht : t.kind = .leftBrace) :
    readExport last word (t :: ts) = readExportNames last word t false ts := by
  have htype : t.isWord "type" = false := by simp [Token.isWord, ht]
  have hstar : t.kind ≠ .star := by simp [ht]
  simp only [readExport, marksTypeExport_eq_false htype, Bool.false_eq_true, if_false, if_neg hstar,
    if_pos ht]

/-- A word that declares is none of those that an export looks for first. -/
theorem readExport_of_declarationWord {us : List Token}
    (h : ∃ w ∈ declarationWords, t.isWord w) :
    readExport last word (t :: us) =
      (readDeclaration last (t :: us)).map fun r => r.map fun (d, rest) =>
        (⟨word.start, word.stop, .declaration (d.names.map .same) d.typeOnly d.blockScoped⟩, rest) := by
  obtain ⟨w, hw, ht⟩ := h
  have other : ∀ {v : Text}, v ∉ declarationWords → t.isWord v = false := fun hv =>
    isWord_eq_false ht fun heq => hv (heq ▸ hw)
  have hkind := kind_of_isWord ht
  simp only [readExport, marksTypeExport_eq_false (other (by decide)), hkind, other (v := "default") (by decide),
    other (v := "as") (by decide), Bool.false_eq_true, if_false, reduceCtorEq]
  rfl

/-- What follows the modifiers of a declaration. -/
theorem dropDeclarationModifiers_append {front us : List Token} (hf : ∀ u ∈ front, isModifier u)
    (ht : isModifier t = false) : dropDeclarationModifiers (front ++ t :: us) = t :: us := by
  change (front ++ t :: us).dropWhile isModifier = t :: us
  induction front with
  | nil => exact List.dropWhile_cons_of_neg (by simp [ht])
  | cons u front ih =>
    rw [List.cons_append, List.dropWhile_cons_of_pos (hf u List.mem_cons_self)]
    exact ih fun v hv => hf v (List.mem_cons_of_mem u hv)

theorem not_isModifier_of_isVariableWord (h : isVariableWord t) : isModifier t = false := by
  simp only [isVariableWord, Bool.or_eq_true] at h
  simp only [isModifier, Bool.or_eq_false_iff]
  rcases h with (h | h) | h <;>
    exact ⟨⟨isWord_eq_false h (by decide), isWord_eq_false h (by decide)⟩,
      isWord_eq_false h (by decide)⟩

theorem not_isModifier_of_isNamingWord (h : isNamingWord t) :
    isModifier t = false ∧ isVariableWord t = false := by
  simp only [isNamingWord, Bool.or_eq_true] at h
  simp only [isModifier, isVariableWord, Bool.or_eq_false_iff]
  rcases h with (((h | h) | h) | h) | h <;>
    exact ⟨⟨⟨isWord_eq_false h (by decide), isWord_eq_false h (by decide)⟩,
      isWord_eq_false h (by decide)⟩, ⟨isWord_eq_false h (by decide),
      isWord_eq_false h (by decide)⟩, isWord_eq_false h (by decide)⟩

theorem readExportAll_ne_none {typeOnly : Bool} :
    readExportAll last word typeOnly ts ≠ .ok none := by
  intro h
  unfold readExportAll at h
  split at h
  · obtain ⟨_, _, h⟩ := Except.bind_eq_ok_iff.1 h
    obtain ⟨_, _, h⟩ := Except.bind_eq_ok_iff.1 h
    obtain ⟨_, _, h⟩ := Except.bind_eq_ok_iff.1 h
    cases h
  · obtain ⟨_, _, h⟩ := Except.bind_eq_ok_iff.1 h
    obtain ⟨_, _, h⟩ := Except.bind_eq_ok_iff.1 h
    cases h

theorem readExportNames_ne_none {opener : Token} {typeOnly : Bool} :
    readExportNames last word opener typeOnly ts ≠ .ok none := by
  intro h
  obtain ⟨⟨⟨names, close⟩, r⟩, _, h⟩ := Except.bind_eq_ok_iff.1 h
  simp only at h
  split at h
  · obtain ⟨_, _, h⟩ := Except.bind_eq_ok_iff.1 h
    cases h
  · cases h

theorem readDeclaration_ne_none {us : List Token} (ht : isVariableWord t ∨ isNamingWord t) :
    readDeclaration last (t :: us) ≠ .ok none := by
  intro h
  have hm : isModifier t = false := ht.elim not_isModifier_of_isVariableWord
    fun h => (not_isModifier_of_isNamingWord h).1
  rw [readDeclaration, show t :: us = [] ++ t :: us from rfl,
    dropDeclarationModifiers_append (by simp) hm] at h
  rcases ht with hw | hw
  · unfold isVariableWord at hw
    simp only [hw, if_true] at h
    split at h
    · cases h
    · obtain ⟨_, _, h⟩ := Except.map_eq_ok_iff.1 h
      cases h
  · have hvariable := (not_isModifier_of_isNamingWord hw).2
    unfold isVariableWord at hvariable
    unfold isNamingWord at hw
    simp only [hvariable, hw, Bool.false_eq_true, if_false, if_true] at h
    cases h

/-- A keyword that starts a module statement is read as one, or is an error. -/
theorem readStatement_ne_none {prev : Option Token} (h : StartsModuleStatement prev word ts)
    (halias : word.kind = .importWord → isTypeAlias ts = false) :
    readStatement last word ts ≠ .ok none := by
  unfold readStatement
  rcases h.2 with ⟨hk, hparen, hdot, hequals⟩ | ⟨hk, hexport⟩
  · rw [if_pos hk]
    exact readImport_ne_none (by rw [isOtherImport_eq, hparen, hdot, hequals, halias hk]; rfl)
  · rw [hk, if_neg (by simp), if_pos rfl]
    rcases hexport with hbrace | hstar | ⟨w, hw, hahead⟩
    · obtain ⟨t, us, rfl, ht⟩ := eq_cons_of_kindAhead hbrace
      rw [readExport_brace ht]
      exact readExportNames_ne_none
    · obtain ⟨t, us, rfl, ht⟩ := eq_cons_of_kindAhead hstar
      rw [readExport_star ht]
      exact readExportAll_ne_none
    · obtain ⟨t, us, rfl, ht⟩ := eq_cons_of_wordAhead hahead
      by_cases hdefault : t.isWord "default"
      · have hkind := kind_of_isWord hdefault
        simp [readExport, marksTypeExport_eq_false (isWord_eq_false hdefault (by decide)), hkind, hdefault]
      · have hdeclares : isVariableWord t ∨ isNamingWord t := by
          simp only [exportedWords, List.mem_cons, List.not_mem_nil, or_false] at hw
          simp only [isVariableWord, isNamingWord, Bool.or_eq_true]
          rcases hw with rfl | rfl | rfl | rfl | rfl | rfl
          · exact .inl (.inl (.inl ht))
          · exact .inl (.inl (.inr ht))
          · exact .inl (.inr ht)
          · exact .inr (.inl (.inl (.inl (.inl ht))))
          · exact .inr (.inl (.inl (.inl (.inr ht))))
          · exact absurd ht hdefault
        rw [readExport_of_declarationWord
          (hdeclares.elim exists_of_isVariableWord exists_of_isNamingWord)]
        intro h
        obtain ⟨r, hd, h⟩ := Except.map_eq_ok_iff.1 h
        cases r with
        | none => exact readDeclaration_ne_none hdeclares hd
        | some r => cases h

/-! ### What is taken is not left -/

/-- What is left of a declaration is left of what follows its first declarator. -/
theorem suffix_afterDeclarator {n : Names} {names : List Text}
    (h : declaratorNames last ts = .ok n) (hp : patternNames last ts = .ok (names, rest)) :
    n.2 <:+ afterDeclarator rest := by
  unfold declaratorNames at h
  split at h
  · cases h
  · next names' rest' hp' =>
    obtain ⟨rfl, rfl⟩ := Prod.mk.inj (Except.ok.inj (hp.symm.trans hp'))
    split at h
    · next u us hr =>
      rw [hr]
      split at h
      · obtain ⟨m, hm, rfl⟩ := Except.map_eq_ok_iff.1 h
        exact (declaratorNames_suffix hm).trans (List.suffix_cons u us)
      · cases h
        exact List.suffix_refl _
    · cases h
      exact List.nil_suffix

/-- Every declarator is read together with those behind it. -/
theorem declaratorNames_of_declaratorAt {n : Names} {us : List Token}
    (h : declaratorNames last ts = .ok n) (hat : DeclaratorAt last ts us) :
    ∃ m, declaratorNames last us = .ok m ∧ m.2 = n.2 := by
  induction hat with
  | first => exact ⟨n, h, rfl⟩
  | @next us rest vs names comma _ hp hr hc ih =>
    obtain ⟨m, hm, heq⟩ := ih
    unfold declaratorNames at hm
    split at hm
    · cases hm
    · next names' rest' hp' =>
      obtain ⟨rfl, rfl⟩ := Prod.mk.inj (Except.ok.inj (hp.symm.trans hp'))
      split at hm
      · next u us' hr' =>
        obtain ⟨rfl, rfl⟩ := List.cons.inj (hr.symm.trans hr')
        rw [if_pos hc] at hm
        obtain ⟨k, hk, rfl⟩ := Except.map_eq_ok_iff.1 hm
        exact ⟨k, hk, heq⟩
      · next hr' => rw [hr] at hr'; cases hr'

theorem suffix_of_inDeclarator {us after : List Token} {n : Names}
    (h : declaratorNames last us = .ok n) (hin : InDeclarator last us t after) : n.2 <:+ after := by
  obtain ⟨names, rest, mark, run, hp, hcases⟩ := hin
  refine (suffix_afterDeclarator h hp).trans ?_
  unfold afterDeclarator
  rcases hcases with ⟨hrest, hmark, hrun⟩ | ⟨hrest, hmark, hrun⟩
  · have htype : dropTypePart (dropDefinite rest) =
        dropExpression endsAnnotation true mark 0 (run ++ t :: after) := by
      rw [hrest, List.cons_append, dropTypePart, if_pos hmark]
      rfl
    rw [htype]
    exact (dropInitializer_suffix _).trans (dropExpression_suffix_iff.2 (unended_iff.1 hrun))
  · rw [hrest, List.cons_append, dropInitializer, if_pos hmark]
    exact dropExpression_suffix_iff.2 (unended_iff.1 hrun)

theorem suffix_of_declaratorAt {us after : List Token} {n : Names}
    (h : declaratorNames last ts = .ok n) (hat : DeclaratorAt last ts us)
    (hin : InDeclarator last us t after) : n.2 <:+ after := by
  obtain ⟨m, hm, heq⟩ := declaratorNames_of_declaratorAt h hat
  exact heq ▸ suffix_of_inDeclarator hm hin

theorem suffix_of_namespaceImport {front after : List Token} {star as : Token}
    (h : readImport last word (front ++ star :: as :: t :: after) = .ok (some (s, rest)))
    (hf : ∀ u ∈ front, u.kind = .identifier ∨ u.kind = .comma) (hs : star.kind = .star)
    (has : as.isWord "as") : rest <:+ after := by
  have hstring : (kindAhead .string (front ++ star :: as :: t :: after) ||
      kindAhead .template (front ++ star :: as :: t :: after)) = false := by
    cases front with
    | nil => simp [kindAhead, hs]
    | cons u front => rcases hf u List.mem_cons_self with hu | hu <;> simp [kindAhead, hu]
  unfold readImport at h
  split at h
  · cases h
  · rw [hstring] at h
    simp only [Bool.false_eq_true, if_false] at h
    obtain ⟨⟨bindings, r₁⟩, hc, h⟩ := Except.bind_eq_ok_iff.1 h
    obtain ⟨r₂, hfrom, h⟩ := Except.bind_eq_ok_iff.1 h
    obtain ⟨⟨⟨specifier, stop⟩, r₃⟩, hspec, h⟩ := Except.bind_eq_ok_iff.1 h
    cases h
    -- The default binding takes words and commas, so the star is still to be read.
    obtain ⟨run, hrun, hkind⟩ := exists_of_importFront (front ++ star :: as :: t :: after)
    generalize (readDefaultBinding (if marksTypeImport (front ++ star :: as :: t :: after) then
      (front ++ star :: as :: t :: after).tail else front ++ star :: as :: t :: after)).2 = left
      at hrun hc
    have hleft : ∃ more, left = more ++ star :: as :: t :: after ∧
        ∀ u ∈ more, u.kind = .identifier ∨ u.kind = .comma := by
      rcases List.append_eq_append_iff.1 hrun with ⟨more, hmore, hstar⟩ | ⟨more, hmore, hleft⟩
      · cases more with
        | nil => exact ⟨[], by simpa using hstar.symm, by simp⟩
        | cons u more =>
          obtain ⟨rfl, -⟩ := List.cons.inj hstar
          have := hkind star (by rw [hmore]; simp)
          simp [hs] at this
      · exact ⟨more, hleft, fun u hu => hf u (by rw [hmore]; exact List.mem_append_right _ hu)⟩
    obtain ⟨more, rfl, hmore⟩ := hleft
    have hsource : r₁ = after ∨ ∃ u us, r₁ = u :: us ∧ us.head?.all (·.kind ≠ .string) := by
      cases more with
      | nil =>
        simp only [List.nil_append, readClause, hs, has, if_true] at hc
        cases hc
        exact .inl rfl
      | cons u more =>
        right
        have hu : u.kind ≠ .star ∧ u.kind ≠ .leftBrace := by
          rcases hmore u List.mem_cons_self with hu | hu <;> simp [hu]
        simp only [List.cons_append, readClause, hu.1, hu.2, if_false] at hc
        cases hc
        refine ⟨u, _, rfl, ?_⟩
        cases more with
        | nil => simp [hs]
        | cons v more => rcases hmore v (by simp) with hv | hv <;> simp [hv]
    have hrest := readSpecifier_suffix hspec
    rcases hsource with rfl | ⟨u, us, rfl, hus⟩
    · exact (hrest.trans (List.tail_suffix _)).trans (readFrom_suffix hfrom)
    · obtain ⟨v, hv, -⟩ := exists_of_readFrom hfrom
      obtain ⟨rfl, rfl⟩ := List.cons.inj hv
      cases us with
      | nil => simp [readSpecifier] at hspec
      | cons w ws =>
        have hw : w.kind ≠ .string := by simpa using hus
        simp [readSpecifier, hw] at hspec

theorem suffix_of_namespaceExport {front after : List Token} {star as : Token}
    (h : readExport last word (front ++ star :: as :: t :: after) = .ok (some (s, rest)))
    (hf : front = [] ∨ ∃ u, front = [u] ∧ u.isWord "type") (hs : star.kind = .star)
    (has : as.isWord "as") : rest <:+ after := by
  have hall : ∃ typeOnly, readExportAll last word typeOnly (as :: t :: after) =
      .ok (some (s, rest)) := by
    rcases hf with rfl | ⟨u, rfl, hu⟩
    · have htype : marksTypeExport (star :: as :: t :: after) = false := by
        simp [marksTypeExport, Token.isWord, hs]
      simp only [List.nil_append, readExport, htype, hs, Bool.false_eq_true, if_false, if_true] at h
      exact ⟨_, h⟩
    · have htype : marksTypeExport (u :: star :: as :: t :: after) = true := by
        simp [marksTypeExport, hu, hs]
      simp only [List.cons_append, List.nil_append, readExport, htype, hs, if_true,
        List.tail_cons] at h
      exact ⟨_, h⟩
  obtain ⟨typeOnly, hall⟩ := hall
  have hahead : wordAhead "as" (as :: t :: after) := by simpa [wordAhead] using has
  rw [readExportAll, if_pos hahead] at hall
  obtain ⟨⟨name, r₁⟩, hname, hall⟩ := Except.bind_eq_ok_iff.1 hall
  obtain ⟨r₂, hfrom, hall⟩ := Except.bind_eq_ok_iff.1 hall
  obtain ⟨⟨⟨specifier, stop⟩, r₃⟩, hspec, hall⟩ := Except.bind_eq_ok_iff.1 hall
  cases hall
  exact (((readSpecifier_suffix hspec).trans (List.tail_suffix _)).trans
    (readFrom_suffix hfrom)).trans (readName_suffix hname)

/-- An exported declaration is read behind its modifiers. -/
theorem readDeclaration_of_readExport {front us : List Token}
    (h : readExport last word (front ++ t :: us) = .ok (some (s, rest)))
    (hf : ∀ u ∈ front, isModifier u) (ht : ∃ w ∈ declarationWords, t.isWord w)
    (hm : isModifier t = false) :
    ∃ d, readDeclaration last (front ++ t :: us) = .ok (some (d, rest)) ∧
      dropDeclarationModifiers (front ++ t :: us) = t :: us := by
  have hhead : ∃ u vs, front ++ t :: us = u :: vs ∧ ∃ w ∈ declarationWords, u.isWord w := by
    cases front with
    | nil => exact ⟨t, us, rfl, ht⟩
    | cons u front => exact ⟨u, _, rfl, exists_of_isModifier (hf u List.mem_cons_self)⟩
  obtain ⟨u, vs, heq, hu⟩ := hhead
  rw [heq, readExport_of_declarationWord hu] at h
  obtain ⟨r, hd, h⟩ := Except.map_eq_ok_iff.1 h
  obtain ⟨⟨d, rest'⟩, rfl, h⟩ := Option.map_eq_some_iff.1 h
  cases h
  exact ⟨d, heq ▸ hd, dropDeclarationModifiers_append hf hm⟩

/-- What a statement takes is not left behind it. -/
theorem suffix_of_takes {before after : List Token}
    (h : readStatement last word (before ++ t :: after) = .ok (some (s, rest)))
    (ht : Takes last word before t after) : rest <:+ after := by
  have export_ : word.kind = .exportWord →
      readExport last word (before ++ t :: after) = .ok (some (s, rest)) := fun hk => by
    rw [readStatement, hk] at h
    exact h
  rcases ht with hname | ⟨front, w, us, heq, hk, hf, hw, henum, vs, hvs, hin⟩
  · cases hname with
    | @imported front star as hk hf hs has =>
      rw [readStatement, if_pos hk, List.append_assoc] at h
      exact suffix_of_namespaceImport h hf hs has
    | @exported front star as hk hf hs has =>
      have h := export_ hk
      rw [List.append_assoc] at h
      exact suffix_of_namespaceExport h hf hs has
    | @declared front stars w hk hf hw hs =>
      have h := export_ hk
      rw [List.append_assoc, List.cons_append] at h
      obtain ⟨d, hd, hdrop⟩ := readDeclaration_of_readExport h hf (exists_of_isNamingWord hw)
        (not_isModifier_of_isNamingWord hw).1
      have hvariable := (not_isModifier_of_isNamingWord hw).2
      unfold isVariableWord at hvariable
      unfold isNamingWord at hw
      rw [readDeclaration, hdrop] at hd
      simp only [hvariable, hw, Bool.false_eq_true, if_false, if_true] at hd
      cases hd
      rcases hs with rfl | ⟨star, rfl, hs⟩
      · unfold dropStar
        split
        · exact List.tail_suffix after
        · exact List.suffix_refl _
      · simp [dropStar, kindAhead, hs, readDeclared]
    | @enumerated front w enum hk hf hw he =>
      have h := export_ hk
      rw [show front ++ [w, enum] ++ t :: after = front ++ w :: enum :: t :: after by simp] at h
      obtain ⟨d, hd, hdrop⟩ := readDeclaration_of_readExport h hf (exists_of_isVariableWord hw)
        (not_isModifier_of_isVariableWord hw)
      have henum : wordAhead "enum" (enum :: t :: after) := by simpa [wordAhead] using he
      unfold isVariableWord at hw
      rw [readDeclaration, hdrop] at hd
      simp only [hw, henum, if_true] at hd
      cases hd
      exact List.suffix_refl _
  · have h := export_ hk
    rw [heq] at h
    obtain ⟨d, hd, hdrop⟩ := readDeclaration_of_readExport h hf (exists_of_isVariableWord hw)
      (not_isModifier_of_isVariableWord hw)
    unfold isVariableWord at hw
    rw [readDeclaration, hdrop] at hd
    simp only [hw, henum, Bool.false_eq_true, if_true, if_false] at hd
    obtain ⟨n, hn, hd⟩ := Except.map_eq_ok_iff.1 hd
    cases hd
    exact suffix_of_declaratorAt hn hvs hin

theorem start_of_readExport (h : readExport last word ts = .ok (some (s, rest))) :
    s.start = word.start ∧ s.isImport = false := by
  unfold readExport at h
  simp only at h
  split at h
  · split at h
    · unfold readExportAll at h
      split at h
      · obtain ⟨_, _, h⟩ := Except.bind_eq_ok_iff.1 h
        obtain ⟨_, _, h⟩ := Except.bind_eq_ok_iff.1 h
        obtain ⟨_, _, h⟩ := Except.bind_eq_ok_iff.1 h
        cases h
        exact ⟨rfl, rfl⟩
      · obtain ⟨_, _, h⟩ := Except.bind_eq_ok_iff.1 h
        obtain ⟨_, _, h⟩ := Except.bind_eq_ok_iff.1 h
        cases h
        exact ⟨rfl, rfl⟩
    · split at h
      · obtain ⟨⟨⟨names, close⟩, r⟩, _, h⟩ := Except.bind_eq_ok_iff.1 h
        simp only at h
        split at h
        · obtain ⟨_, _, h⟩ := Except.bind_eq_ok_iff.1 h
          cases h
          exact ⟨rfl, rfl⟩
        · cases h
          exact ⟨rfl, rfl⟩
      · split at h
        · cases h
          exact ⟨rfl, rfl⟩
        · split at h
          · cases h
          · obtain ⟨r, _, h⟩ := Except.map_eq_ok_iff.1 h
            obtain ⟨_, rfl, h⟩ := Option.map_eq_some_iff.1 h
            cases h
            exact ⟨rfl, rfl⟩
  · cases h

theorem records_of_readStatement (h : readStatement last word ts = .ok (some (s, rest))) :
    s.Records word ∧ word.isKeyword := by
  unfold readStatement at h
  split at h
  · next hk =>
    refine ⟨?_, by simp [Token.isKeyword, hk]⟩
    unfold readImport at h
    split at h
    · cases h
    · split at h
      · obtain ⟨_, _, h⟩ := Except.bind_eq_ok_iff.1 h
        cases h
        exact ⟨rfl, by simp [isImport, hk]⟩
      · obtain ⟨_, _, h⟩ := Except.bind_eq_ok_iff.1 h
        obtain ⟨_, _, h⟩ := Except.bind_eq_ok_iff.1 h
        obtain ⟨_, _, h⟩ := Except.bind_eq_ok_iff.1 h
        cases h
        exact ⟨rfl, by simp [isImport, hk]⟩
  · split at h
    · next hk =>
      obtain ⟨hstart, himport⟩ := start_of_readExport h
      exact ⟨⟨hstart, by simp [himport, hk]⟩, by simp [Token.isKeyword, hk]⟩
    · cases h

end Read

/-! ### The scanner -/

section Scan

variable {last : Token} {prev : Option Token} {depth : Nat} {ts : List Token} {ss : List Statement}

theorem depthAfter_le {st st' : List TokenKind} {t : Token} (hd : depth ≤ st.length)
    (h : openedBy st t = some st') : depthAfter depth t ≤ st'.length := by
  unfold depthAfter
  rcases token_cases t with ht | ht | ht
  · rw [openedBy_opener ht] at h
    cases h
    simpa [ht] using hd
  · obtain rfl := (openedBy_closer ht).1 h
    simp only [not_isOpener_of_isCloser ht, ht, Bool.false_eq_true, if_false, if_true]
    simp only [List.length_cons] at hd
    omega
  · rw [openedBy_plain ht] at h
    cases h
    simp only [Token.isPlain, Bool.and_eq_true, Bool.not_eq_true'] at ht
    simpa [ht.1, ht.2] using hd

theorem isPlain_of_isKeyword {t : Token} (h : t.isKeyword) : t.isPlain := by
  rcases kind_of_isKeyword h with h | h <;> exact isPlain_of_kind h (by decide)

theorem getLast?_cons_or (t : Token) (ts : List Token) (prev : Option Token) :
    (t :: ts).getLast?.or prev = ts.getLast?.or (some t) := by
  rw [List.getLast?_cons]
  cases ts.getLast? <;> rfl

theorem tokenBefore_append (run rest : List Token) :
    tokenBefore (run ++ rest) rest = run.getLast? := by
  simp [tokenBefore]

/-- Every statement starts with one of the tokens. -/
theorem exists_start_of_scanFrom (h : scanFrom last prev depth ts = .ok ss) :
    ∀ s ∈ ss, ∃ t ∈ ts, s.start = t.start := by
  fun_induction scanFrom last prev depth ts generalizing ss with
  | case1 => cases h; simp
  | case2 => cases h
  | case3 prev depth t us _ s rest hread ih =>
    obtain ⟨ss', hss', rfl⟩ := Except.map_eq_ok_iff.1 h
    intro s' hs'
    rcases List.mem_cons.1 hs' with rfl | hs'
    · exact ⟨t, List.mem_cons_self, (records_of_readStatement hread).1.1⟩
    · obtain ⟨u, hu, heq⟩ := ih hss' s' hs'
      exact ⟨u, List.mem_cons_of_mem t ((readStatement_suffix hread).subset hu), heq⟩
  | case4 prev depth t us _ _ ih =>
    intro s hs
    obtain ⟨u, hu, heq⟩ := ih h s hs
    exact ⟨u, List.mem_cons_of_mem t hu, heq⟩
  | case5 prev depth t us _ ih =>
    intro s hs
    obtain ⟨u, hu, heq⟩ := ih h s hs
    exact ⟨u, List.mem_cons_of_mem t hu, heq⟩

/-- Outside brackets, a keyword that is read as a statement is recorded, or an earlier one takes it. -/
theorem recorded_or_taken_of_reads {st : List TokenKind} (h : scanFrom last prev depth ts = .ok ss)
    (hd : depth ≤ st.length) (hn : openBehind st ts = some []) {before after : List Token} {t : Token}
    (hts : ts = before ++ t :: after) (hst : openBehind st before = some [])
    (hmember : (before.getLast?.or prev).any (·.selectsMember) = false) (hk : t.isKeyword)
    (hread : readStatement last t after ≠ .ok none) :
    (∃ s ∈ ss, s.Records t) ∨ ∃ s ∈ ss, ∃ front k mid, before = front ++ k :: mid ∧
      s.start = k.start ∧ Takes last k mid t after := by
  have shift : ∀ (run : List Token) {before : List Token} {ss : List Statement},
      (∃ s ∈ ss, ∃ front k mid, before = front ++ k :: mid ∧ s.start = k.start ∧
        Takes last k mid t after) →
      ∃ s ∈ ss, ∃ front k mid, run ++ before = front ++ k :: mid ∧ s.start = k.start ∧
        Takes last k mid t after := by
    rintro run before ss ⟨s, hs, front, k, mid, rfl, hrest⟩
    exact ⟨s, hs, run ++ front, k, mid, (List.append_assoc ..).symm, hrest⟩
  fun_induction scanFrom last prev depth ts generalizing ss st before with
  | case1 => cases before <;> cases hts
  | case2 => cases h
  | case3 prev depth u us _ s rest hreads ih =>
    obtain ⟨ss', hss', rfl⟩ := Except.map_eq_ok_iff.1 h
    cases before with
    | nil =>
      obtain ⟨rfl, rfl⟩ := List.cons.inj hts
      exact .inl ⟨s, List.mem_cons_self, (records_of_readStatement hreads).1⟩
    | cons v before =>
      obtain ⟨rfl, hus⟩ := List.cons.inj hts
      obtain ⟨hrecords, hword⟩ := records_of_readStatement hreads
      have hplain : u.isPlain := isPlain_of_isKeyword hword
      rw [openBehind_cons_of_plain hplain] at hn hst
      rcases suffix_or_eq_append (readStatement_suffix hreads) hus with hafter | ⟨before', hrest⟩
      · -- The statement has been read past the token.
        exact .inr ⟨s, List.mem_cons_self, [], u, before, rfl, hrecords.1,
          takes_of_readStatement hreads hn before t after hus hafter hst hk⟩
      · obtain ⟨run, hrun⟩ := readStatement_suffix hreads
        obtain rfl : before = run ++ before' :=
          List.append_cancel_right (hus.symm.trans (by rw [← hrun, hrest, List.append_assoc]))
        obtain ⟨st', hrunst, hst⟩ := exists_of_openBehind_append hst
        rw [← hrun, openBehind_append_of_eq hrunst] at hn
        have hprev : before'.getLast?.or (tokenBefore (u :: us) rest) =
            (u :: (run ++ before')).getLast?.or prev := by
          rw [← hrun, ← List.cons_append, tokenBefore_append, ← List.cons_append,
            List.getLast?_append]
          cases before'.getLast? with
          | none => simp [List.getLast?_cons]
          | some w => rfl
        rcases ih hss' (Nat.zero_le _) hn hrest hst (hprev ▸ hmember) with ⟨s', hs', hrec⟩ | htaken
        · exact .inl ⟨s', List.mem_cons_of_mem s hs', hrec⟩
        · obtain ⟨s', hs', htaken⟩ := shift (u :: run) htaken
          exact .inr ⟨s', List.mem_cons_of_mem s hs', htaken⟩
  | case4 prev depth u us hattempt hnone ih =>
    cases before with
    | nil =>
      obtain ⟨rfl, rfl⟩ := List.cons.inj hts
      exact absurd hnone hread
    | cons v before =>
      obtain ⟨rfl, hus⟩ := List.cons.inj hts
      obtain ⟨st', hst', hn⟩ := exists_of_openBehind_cons hn
      rw [openBehind_cons, hst', Option.bind_some] at hst
      rw [getLast?_cons_or] at hmember
      exact (ih h (depthAfter_le hd hst') hn hus hst hmember).imp id (shift [u])
  | case5 prev depth u us hattempt ih =>
    cases before with
    | nil =>
      -- The count is at most the height of the stack, so it is zero here.
      obtain rfl : st = [] := Option.some.inj hst
      obtain rfl : depth = 0 := Nat.le_zero.1 hd
      have hprev : prev.any (·.selectsMember) = false := by simpa using hmember
      exact absurd (by simp [hprev]) hattempt
    | cons v before =>
      obtain ⟨rfl, hus⟩ := List.cons.inj hts
      obtain ⟨st', hst', hn⟩ := exists_of_openBehind_cons hn
      rw [openBehind_cons, hst', Option.bind_some] at hst
      rw [getLast?_cons_or] at hmember
      exact (ih h (depthAfter_le hd hst') hn hus hst hmember).imp id (shift [u])

/-- The same for a keyword with which a module statement starts. -/
theorem recorded_or_taken {st : List TokenKind} (h : scanFrom last prev depth ts = .ok ss)
    (hd : depth ≤ st.length) (hn : openBehind st ts = some []) {before after : List Token} {t : Token}
    (hts : ts = before ++ t :: after) (hst : openBehind st before = some [])
    (ht : StartsModuleStatement (before.getLast?.or prev) t after)
    (halias : t.kind = .importWord → isTypeAlias after = false) :
    (∃ s ∈ ss, s.Records t) ∨ ∃ s ∈ ss, ∃ front k mid, before = front ++ k :: mid ∧
      s.start = k.start ∧ Takes last k mid t after := by
  refine recorded_or_taken_of_reads h hd hn hts hst ht.1 ?_ (readStatement_ne_none ht halias)
  rcases ht.2 with ⟨h, -⟩ | ⟨h, -⟩ <;> simp [Token.isKeyword, h]

/-- A statement that starts with a token has been read behind it, and every other one starts before the
token or behind what has been read. -/
theorem exists_readStatement (h : scanFrom last prev depth ts = .ok ss)
    (hp : ts.Pairwise fun t u => t.start.offset < u.start.offset) {before after : List Token}
    {t : Token} (hts : ts = before ++ t :: after) {s : Statement} (hs : s ∈ ss)
    (hstart : s.start = t.start) :
    ∃ rest, readStatement last t after = .ok (some (s, rest)) ∧
      ∀ s' ∈ ss, s'.start.offset ≤ t.start.offset ∨ ∃ w ∈ rest, s'.start = w.start := by
  fun_induction scanFrom last prev depth ts generalizing ss before s with
  | case1 => cases before <;> cases hts
  | case2 => cases h
  | case3 prev depth u us _ s₀ rest hread ih =>
    obtain ⟨ss', hss', rfl⟩ := Except.map_eq_ok_iff.1 h
    have hstart₀ : s₀.start = u.start := (records_of_readStatement hread).1.1
    obtain ⟨hhead, htail⟩ := List.pairwise_cons.1 hp
    have hrest := readStatement_suffix hread
    have hother := exists_start_of_scanFrom hss'
    cases before with
    | nil =>
      obtain ⟨rfl, rfl⟩ := List.cons.inj hts
      rcases List.mem_cons.1 hs with rfl | hs
      · refine ⟨rest, hread, fun s' hs' => ?_⟩
        rcases List.mem_cons.1 hs' with rfl | hs'
        · exact .inl (by rw [hstart])
        · exact .inr (hother s' hs')
      · obtain ⟨w, hw, heq⟩ := hother s hs
        have := hhead w (hrest.subset hw)
        rw [← heq, hstart] at this
        omega
    | cons v before =>
      -- The statement read here starts before the token, and those behind it start with a token of
      -- what is left, so the token is among these.
      obtain ⟨rfl, hus⟩ := List.cons.inj hts
      have hlt := hhead t (by rw [hus]; simp)
      rcases List.mem_cons.1 hs with rfl | hs
      · rw [← hstart₀, hstart] at hlt
        omega
      · rcases suffix_or_eq_append hrest hus with hsuffix | ⟨before', hbefore'⟩
        · obtain ⟨w, hw, heq⟩ := hother s hs
          have := (List.pairwise_cons.1 (List.pairwise_append.1 (hus ▸ htail)).2.1).1 w
            (hsuffix.subset hw)
          rw [← heq, hstart] at this
          omega
        · obtain ⟨rest', hread', hall⟩ :=
            ih hss' (htail.sublist hrest.sublist) hbefore' hs hstart
          refine ⟨rest', hread', fun s' hs' => ?_⟩
          rcases List.mem_cons.1 hs' with rfl | hs'
          · rw [hstart₀]
            exact .inl (by omega)
          · exact hall s' hs'
  | case4 prev depth u us _ _ ih | case5 prev depth u us _ ih =>
    obtain ⟨hhead, htail⟩ := List.pairwise_cons.1 hp
    cases before with
    | nil =>
      obtain ⟨rfl, rfl⟩ := List.cons.inj hts
      obtain ⟨w, hw, heq⟩ := exists_start_of_scanFrom h s hs
      have := hhead w hw
      rw [← heq, hstart] at this
      omega
    | cons v before =>
      obtain ⟨rfl, hus⟩ := List.cons.inj hts
      exact ih h htail hus hs hstart

/-- A keyword that a recorded statement takes is not recorded. -/
theorem not_recorded_of_takes (h : scanFrom last prev depth ts = .ok ss)
    (hp : ts.Pairwise fun t u => t.start.offset < u.start.offset) {front mid after : List Token}
    {k t : Token} (hts : ts = front ++ k :: (mid ++ t :: after)) {s : Statement} (hs : s ∈ ss)
    (hstart : s.start = k.start) (ht : Takes last k mid t after) :
    ∀ s' ∈ ss, s'.start ≠ t.start := by
  obtain ⟨rest, hread, hall⟩ := exists_readStatement h hp hts hs hstart
  have hbehind := List.pairwise_cons.1 (List.pairwise_append.1 (hts ▸ hp)).2.1
  have htail := List.pairwise_cons.1 (List.pairwise_append.1 hbehind.2).2.1
  intro s' hs' heq
  rcases hall s' hs' with hle | ⟨w, hw, hw'⟩
  · have := hbehind.1 t (by simp)
    rw [heq] at hle
    omega
  · have := htail.1 w ((suffix_of_takes hread ht).subset hw)
    rw [← hw', heq] at this
    omega

end Scan

end Statement

open Statement

theorem scanSource_eq_ok_iff {source : Text} {ts : TokenStream} {ss : List Statement} :
    scanSource source = .ok (ts, ss) ↔ tokenize source = .ok ts ∧ Statement.scan ts = .ok ss := by
  unfold scanSource
  cases htokens : tokenize source with
  | error f => simp
  | ok us =>
    simp only [Except.ok.injEq]
    cases hscan : Statement.scan us with
    | error f =>
      constructor
      · intro h
        cases h
      · rintro ⟨rfl, h⟩
        rw [hscan] at h
        cases h
    | ok ss' =>
      constructor
      · intro h
        cases h
        exact ⟨rfl, hscan⟩
      · rintro ⟨rfl, h⟩
        rw [hscan] at h
        cases h
        rfl

/-- In a nested source that can be scanned, a keyword that starts a module statement outside brackets
is recorded, unless it starts the typed form of `import a = …` or a recorded statement takes it. -/
theorem recorded_iff {source : Text} {ts : TokenStream} {ss : List Statement}
    (h : scanSource source = .ok (ts, ss)) (hn : Nested ts.tokens) {before after : List Token}
    {t : Token} (hts : ts.tokens = before ++ t :: after) (hst : openBehind [] before = some [])
    (ht : StartsModuleStatement before.getLast? t after) :
    (∃ s ∈ ss, s.Records t) ↔
      ¬ (t.kind = .importWord ∧ isTypeAlias after) ∧
      ¬ ∃ s ∈ ss, ∃ front k mid, before = front ++ k :: mid ∧ s.start = k.start ∧
        Takes ts.last k mid t after := by
  obtain ⟨htokens, hscan⟩ := scanSource_eq_ok_iff.1 h
  have hp := start_lt_of_tokenize htokens
  constructor
  · rintro ⟨s, hs, hrecords⟩
    constructor
    · rintro ⟨hk, halias⟩
      obtain ⟨rest, hread, -⟩ := exists_readStatement hscan hp hts hs hrecords.1
      rw [readStatement, if_pos hk, readImport, isOtherImport_eq, halias, Bool.or_true,
        if_pos rfl] at hread
      cases hread
    · rintro ⟨s', hs', front, k, mid, rfl, hstart, htakes⟩
      rw [List.append_assoc, List.cons_append] at hts
      exact not_recorded_of_takes hscan hp hts hs' hstart htakes s hs hrecords.1
  · rintro ⟨halias, htaken⟩
    have ht' : StartsModuleStatement (before.getLast?.or none) t after := by
      rwa [Option.or_none]
    refine (recorded_or_taken hscan (Nat.zero_le _) hn hts hst ht' fun hk => ?_).resolve_right htaken
    exact Bool.eq_false_iff.2 fun hal => halias ⟨hk, hal⟩

/-- An import on the line behind a declaration with the initializer `value`. -/
def importBehind (value : Text) : Text :=
  "export let a = " ++ value ++ "\nimport x from \"y\""

/-- Whether the token at `i` is an `import` outside the brackets of a nested source that starts a module
statement, and whether it is recorded. -/
def importAt (i : Nat) (recorded : Bool) (r : TokenStream × List Statement) : Bool :=
  match r.1.tokens.drop i with
  | t :: after =>
    Nested r.1.tokens && openBehind [] (r.1.tokens.take i) = some [] && t.kind = .importWord &&
      StartsModuleStatement (r.1.tokens.take i).getLast? t after &&
      decide (∃ s ∈ r.2, s.Records t) == recorded
  | [] => false

theorem exists_of_importAt (source : Text) (i : Nat) (recorded : Bool)
    (h : (scanSource source).toOption.any (importAt i recorded)) :
    ∃ ts ss before t after, scanSource source = .ok (ts, ss) ∧ Nested ts.tokens ∧
      ts.tokens = before ++ t :: after ∧ openBehind [] before = some [] ∧ t.kind = .importWord ∧
      StartsModuleStatement before.getLast? t after ∧
      decide (∃ s ∈ ss, s.Records t) = recorded := by
  cases hs : scanSource source with
  | error f => rw [hs] at h; cases h
  | ok r =>
    obtain ⟨ts, ss⟩ := r
    rw [hs] at h
    change importAt i recorded (ts, ss) = true at h
    unfold importAt at h
    split at h
    · next t after hdrop =>
      simp only [Bool.and_eq_true, decide_eq_true_eq, beq_iff_eq] at h
      obtain ⟨⟨⟨⟨hn, hst⟩, hk⟩, ht⟩, hrecorded⟩ := h
      refine ⟨ts, ss, _, t, after, rfl, hn, ?_, hst, hk, ht, hrecorded⟩
      rw [← hdrop, List.take_append_drop]
    · cases h

/-- Behind a call the line break ends the declaration, and the import is recorded. -/
theorem recorded_behind_call :
    ∃ ts ss before t after, scanSource (importBehind "b()") = .ok (ts, ss) ∧ Nested ts.tokens ∧
      ts.tokens = before ++ t :: after ∧ openBehind [] before = some [] ∧ t.kind = .importWord ∧
      StartsModuleStatement before.getLast? t after ∧ (∃ s ∈ ss, s.Records t) ∧
      ¬ ∃ s ∈ ss, ∃ front k mid, before = front ++ k :: mid ∧ s.start = k.start ∧
        Takes ts.last k mid t after := by
  obtain ⟨ts, ss, before, t, after, h, hn, hts, hst, hk, ht, hrecorded⟩ :=
    exists_of_importAt (importBehind "b()") 7 true (by decide +kernel)
  have hrecorded := of_decide_eq_true hrecorded
  exact ⟨ts, ss, before, t, after, h, hn, hts, hst, hk, ht, hrecorded,
    ((recorded_iff h hn hts hst ht).1 hrecorded).2⟩

/-- Behind an increment the line break does not end the declaration, and the import is lost. -/
theorem not_recorded_behind_increment :
    ∃ ts ss before t after, scanSource (importBehind "b++") = .ok (ts, ss) ∧ Nested ts.tokens ∧
      ts.tokens = before ++ t :: after ∧ openBehind [] before = some [] ∧ t.kind = .importWord ∧
      StartsModuleStatement before.getLast? t after ∧ ¬ ∃ s ∈ ss, s.Records t := by
  obtain ⟨ts, ss, before, t, after, h, hn, hts, hst, hk, ht, hrecorded⟩ :=
    exists_of_importAt (importBehind "b++") 6 false (by decide +kernel)
  exact ⟨ts, ss, before, t, after, h, hn, hts, hst, hk, ht, of_decide_eq_false hrecorded⟩

end ScriptBundle
