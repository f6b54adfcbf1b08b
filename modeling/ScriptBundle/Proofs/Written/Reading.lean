import ScriptBundle.Proofs.Statement.Recorded
import ScriptBundle.Proofs.Written.Spelling

/-!
# Reading what is written

The readers of module statements are given the tokens of a declaration, with those of another one or
nothing behind them. Each reader takes exactly the tokens of its piece, and gives what the piece says.
The words `type`, `from` and `as` are names like any other here: what stands behind them tells that they
mark nothing.

* `readName_spells`, `readElements_spells`: names and lists of names;
* `readSpecifier_spells`: the end of a declaration;
* `readStatement_spells`: a whole declaration.
-/

namespace ScriptBundle.Written

open Statement

variable {ts us : List Token} {t v : Token} {ss ss' : List Symbol} {s : Symbol} {w : Text}

/-! ### Tokens of symbols -/

theorem spells_nil_iff : Spells ts [] ↔ ts = [] := by simp [Spells]

theorem spells_cons_iff :
    Spells ts (s :: ss) ↔ ∃ t us, ts = t :: us ∧ t.sign = s.sign ∧ Spells us ss := by
  simp only [Spells, List.map_cons, List.map_eq_cons_iff]

theorem spells_append_iff :
    Spells ts (ss ++ ss') ↔ ∃ us vs, ts = us ++ vs ∧ Spells us ss ∧ Spells vs ss' := by
  simp only [Spells, List.map_append, List.map_eq_append_iff]

theorem kind_of_sign (h : t.sign = s.sign) : t.kind = s.kind := congrArg Prod.fst h

theorem text_of_sign (h : t.sign = s.sign) : t.text = s.text := congrArg Prod.snd h

theorem isWord_of_sign (h : t.sign = (.identifier, w)) : t.isWord w := by
  obtain ⟨hk, ht⟩ := Prod.mk.inj h
  simp [Token.isWord, hk, ht]

theorem not_isWord_of_kind (h : t.kind ≠ .identifier) (w : Text) : t.isWord w = false := by
  simp [Token.isWord, h]

/-- A name is a word or a string. -/
theorem kind_name {n : Name} (h : t.sign = n.symbol.sign) : t.kind.isWordKind ∨ t.kind = .string := by
  rw [kind_of_sign h]
  cases n with
  | word w => exact .inl (Lexeme.isWordKind_wordKind w.text)
  | literal l => exact .inr rfl

/-- No symbol selects a member. -/
theorem selectsMember_of_sign (h : t.sign = s.sign) : t.selectsMember = false := by
  rw [Token.selectsMember, kind_of_sign h, text_of_sign h]
  cases s with
  | word w =>
    obtain ⟨c, u, hw, hc, -⟩ := w.isWord
    have hkind : Lexeme.wordKind w.text ≠ .dot := by
      have := Lexeme.isWordKind_wordKind w.text
      rintro hdot
      rw [hdot] at this
      cases this
    have htext : w.text ≠ "?." := by
      rw [hw]
      rintro hdot
      obtain rfl : c = '?' := (List.cons.inj hdot).1
      exact absurd hc (by decide)
    simp [Symbol.kind, Symbol.text, hkind, htext]
  | literal l =>
    have htext : l.text ≠ "?." := by
      rintro hdot
      have hq : l.quote = '?' := (List.cons.inj hdot).1
      rcases l.isQuote with h | h <;> rw [h] at hq <;> exact absurd hq (by decide)
    simp [Symbol.kind, Symbol.text, htext]
  | mark m => cases m <;> decide

/-! ### Names -/

theorem stringValue_literal {l : Literal} (h : t.sign = (Symbol.literal l).sign) :
    stringValue t = .ok l.value := by
  rw [stringValue, text_of_sign h, Symbol.text, decode_text]

theorem bindingName_of_isWordKind (h : t.kind.isWordKind) : bindingName t = .ok t.text := by
  unfold bindingName
  cases hk : t.kind <;> rw [hk] at h <;> first | rfl | exact absurd h (by decide)

theorem bindingName_spells {n : Name} (h : t.sign = n.symbol.sign) : bindingName t = .ok n.value := by
  cases n with
  | word w =>
    have hkind : t.kind.isWordKind := kind_of_sign h ▸ Lexeme.isWordKind_wordKind w.text
    rw [bindingName_of_isWordKind hkind, text_of_sign h]
    rfl
  | literal l =>
    unfold bindingName
    rw [kind_of_sign h]
    exact stringValue_literal h

variable (last : Token)

theorem readName_spells {n : Name} (h : t.sign = n.symbol.sign) :
    readName last (t :: us) = .ok (n.value, us) := by
  rw [readName, bindingName_spells h]
  rfl

/-- An element of a list ends in front of a comma or of a closing brace. -/
theorem readElement_spells (us : List Token) {e : Element} (h : Spells ts e.symbols)
    (hv : v.kind = .comma ∨ v.kind = .rightBrace) :
    readElement last (ts ++ v :: us) = .ok (e.binding, v :: us) := by
  obtain ⟨name, alias?⟩ := e
  obtain ⟨t, rest, rfl, ht, hrest⟩ := spells_cons_iff.1 h
  cases alias? with
  | none =>
    obtain rfl := spells_nil_iff.1 hrest
    -- Nothing follows that a word `type` could mark.
    have hmarks : marksTypeName (t :: v :: us) = false := by
      rcases hv with hv | hv <;> simp [marksTypeName, hv]
    have has : wordAhead "as" (v :: us) = false := by
      rcases hv with hv | hv <;> simp [wordAhead, Token.isWord, hv]
    rw [List.singleton_append, readElement, hmarks]
    simp only [Bool.false_eq_true, if_false, readName_spells last ht, Except.ok_bind, has]
    rfl
  | some a =>
    obtain ⟨as, rest, rfl, has, hrest⟩ := spells_cons_iff.1 hrest
    obtain ⟨u, rest, rfl, hu, hrest⟩ := spells_cons_iff.1 hrest
    obtain rfl := spells_nil_iff.1 hrest
    have has : as.isWord "as" := isWord_of_sign has
    have hmarks : marksTypeName (t :: as :: u :: v :: us) = false := by simp [marksTypeName, has]
    rw [List.cons_append, List.cons_append, List.singleton_append, readElement, hmarks]
    simp only [Bool.false_eq_true, if_false, readName_spells last ht, Except.ok_bind, wordAhead,
      List.head?_cons, Option.any_some, has, if_true, List.tail_cons, readName_spells last hu]
    rfl

/-- An element of a list starts with no brace. -/
theorem exists_of_spells_element {e : Element} (h : Spells ts e.symbols) :
    ∃ t rest, ts = t :: rest ∧ t.kind ≠ .rightBrace := by
  obtain ⟨t, rest, rfl, ht, -⟩ := spells_cons_iff.1 h
  refine ⟨t, rest, rfl, fun hbrace => ?_⟩
  rcases kind_name ht with hk | hk <;> rw [hbrace] at hk <;> cases hk

/-- A comma behind an element goes on with the list. -/
theorem readElements_comma (us : List Token) {e : Element} {opener : Token} (h : Spells ts e.symbols)
    (hv : v.kind = .comma) :
    readElements last opener (ts ++ v :: us) =
      (readElements last opener us).map fun ((bs, close), rest) => ((e.binding :: bs, close), rest) := by
  have hread := readElement_spells last us h (.inl hv)
  obtain ⟨t, rest, rfl, ht⟩ := exists_of_spells_element h
  rw [List.cons_append] at hread ⊢
  rw [readElements_cons, if_neg ht, hread]
  exact if_pos hv

/-- A brace behind an element ends the list. -/
theorem readElements_brace (us : List Token) {e : Element} {opener : Token} (h : Spells ts e.symbols)
    (hv : v.kind = .rightBrace) :
    readElements last opener (ts ++ v :: us) = .ok (([e.binding], v), us) := by
  have hread := readElement_spells last us h (.inr hv)
  have hcomma : v.kind ≠ .comma := by simp [hv]
  obtain ⟨t, rest, rfl, ht⟩ := exists_of_spells_element h
  rw [List.cons_append] at hread ⊢
  rw [readElements_cons, if_neg ht, hread]
  exact (if_neg hcomma).trans (if_pos hv)

/-- A list of names, read behind its opening brace. -/
theorem readElements_spells (us : List Token) (opener : Token) {es : List Element} {comma : Bool}
    (h : Spells ts (separated comma (es.map Element.symbols) ++ [.mark .rightBrace])) :
    ∃ close, readElements last opener (ts ++ us) = .ok ((es.map Element.binding, close), us) := by
  have brace_kind {close : Token} (h : close.sign = (Symbol.mark .rightBrace).sign) :
      close.kind = .rightBrace := kind_of_sign h
  have comma_kind {t : Token} (h : t.sign = (Symbol.mark .comma).sign) : t.kind = .comma :=
    kind_of_sign h
  induction es generalizing ts with
  | nil =>
    obtain ⟨close, rest, rfl, hclose, hrest⟩ := spells_cons_iff.1 h
    obtain rfl := spells_nil_iff.1 hrest
    exact ⟨close, by rw [List.singleton_append, readElements_cons, if_pos (brace_kind hclose)]; rfl⟩
  | cons e es ih =>
    -- What stands behind the first element is the brace, or a comma and the rest of the list.
    have more {ws : List Token} (hws : Spells ws
          (.mark .comma :: (separated comma (es.map Element.symbols) ++ [.mark .rightBrace])))
        {element : List Token} (helement : Spells element e.symbols) : ∃ close,
        readElements last opener (element ++ ws ++ us) =
          .ok (((e :: es).map Element.binding, close), us) := by
      obtain ⟨v, ws, rfl, hv, hws⟩ := spells_cons_iff.1 hws
      obtain ⟨close, hclose⟩ := ih hws
      rw [List.append_assoc, List.cons_append, readElements_comma last _ helement (comma_kind hv), hclose]
      exact ⟨close, rfl⟩
    cases es with
    | nil =>
      cases comma with
      | false =>
        obtain ⟨element, ws, rfl, helement, hws⟩ := spells_append_iff.1 h
        obtain ⟨close, ws, rfl, hclose, hws⟩ := spells_cons_iff.1 hws
        obtain rfl := spells_nil_iff.1 hws
        rw [List.map_cons, List.map_nil, separated, if_neg Bool.false_ne_true, List.append_nil] at helement
        rw [List.append_assoc, List.singleton_append,
          readElements_brace last _ helement (brace_kind hclose)]
        exact ⟨close, rfl⟩
      | true =>
        rw [List.map_cons, List.map_nil, separated, if_pos rfl, List.append_assoc] at h
        obtain ⟨element, ws, rfl, helement, hws⟩ := spells_append_iff.1 h
        exact more hws helement
    | cons e' es =>
      rw [List.map_cons, List.map_cons, separated, List.append_assoc] at h
      obtain ⟨element, ws, rfl, helement, hws⟩ := spells_append_iff.1 h
      exact more hws helement

/-! ### The end of a declaration -/

/-- What stands behind a declaration: the keyword of another one, or nothing. -/
def AtKeyword (us : List Token) : Prop :=
  ∀ u ∈ us.head?, u.kind = .importWord ∨ u.kind = .exportWord

/-- Tokens that are no brackets belong to the group around them. -/
theorem dropGroup_of_plain {depth : Nat}
    (h : ∀ t ∈ ts, t.kind.isOpener = false ∧ t.kind.isCloser = false) :
    dropGroup depth (ts ++ us) = dropGroup depth us := by
  induction ts with
  | nil => rfl
  | cons t ts ih =>
    obtain ⟨hopener, hcloser⟩ := h t List.mem_cons_self
    rw [List.cons_append, dropGroup, hopener, hcloser]
    simpa using ih fun t ht => h t (List.mem_cons_of_mem _ ht)

theorem mem_separated {comma : Bool} {lists : List (List Symbol)} (h : s ∈ separated comma lists) :
    s = .mark .comma ∨ ∃ l ∈ lists, s ∈ l := by
  induction lists with
  | nil => cases h
  | cons a lists ih =>
    cases lists with
    | nil =>
      rcases List.mem_append.1 h with h | h
      · exact .inr ⟨a, List.mem_cons_self, h⟩
      · split at h
        · exact .inl (List.mem_singleton.1 h)
        · cases h
    | cons b rest =>
      rcases List.mem_append.1 h with h | h
      · exact .inr ⟨a, List.mem_cons_self, h⟩
      · rcases List.mem_cons.1 h with rfl | h
        · exact .inl rfl
        · exact (ih h).imp_right fun ⟨l, hl, hs⟩ => ⟨l, List.mem_cons_of_mem _ hl, hs⟩

theorem exists_symbol_of_spells (h : Spells ts ss) (ht : t ∈ ts) : ∃ s ∈ ss, t.sign = s.sign := by
  have hmem : t.sign ∈ ss.map Symbol.sign := h ▸ List.mem_map_of_mem ht
  obtain ⟨s, hs, hsign⟩ := List.mem_map.1 hmem
  exact ⟨s, hs, hsign.symm⟩

/-- There are no brackets between the braces of attributes. -/
theorem plain_of_spells_entries {comma : Bool} {entries : List (Name × Literal)}
    (h : Spells ts (separated comma
      (entries.map fun (key, value) => [key.symbol, .mark .colon, .literal value]))) :
    ∀ t ∈ ts, t.kind.isOpener = false ∧ t.kind.isCloser = false := by
  intro t ht
  have of_isWordKind {k : TokenKind} (hk : k.isWordKind) : k.isOpener = false ∧ k.isCloser = false := by
    cases k <;> first | exact ⟨rfl, rfl⟩ | cases hk
  obtain ⟨s, hs, hsign⟩ := exists_symbol_of_spells h ht
  rcases mem_separated hs with rfl | ⟨entry, hentry, hs⟩
  · rw [kind_of_sign hsign]
    exact ⟨rfl, rfl⟩
  · obtain ⟨⟨key, value⟩, -, rfl⟩ := List.mem_map.1 hentry
    simp only [List.mem_cons, List.not_mem_nil, or_false] at hs
    rcases hs with rfl | rfl | rfl
    · rcases kind_name hsign with hk | hk
      · exact of_isWordKind hk
      · rw [hk]
        exact ⟨rfl, rfl⟩
    · rw [kind_of_sign hsign]
      exact ⟨rfl, rfl⟩
    · rw [kind_of_sign hsign]
      exact ⟨rfl, rfl⟩

/-- The end of a declaration is behind its semicolon, if it has one. -/
theorem readSemicolon_spells {semicolon : Bool} {stop : Nat}
    (h : Spells ts (if semicolon then [.mark .semicolon] else [])) (hus : AtKeyword us) :
    readSemicolon stop (ts ++ us) = ((ts.getLast?.map Token.stop).getD stop, us) := by
  cases semicolon with
  | true =>
    obtain ⟨t, rest, rfl, ht, hrest⟩ := spells_cons_iff.1 h
    obtain rfl := spells_nil_iff.1 hrest
    have hkind : t.kind = .semicolon := kind_of_sign ht
    exact if_pos hkind
  | false =>
    obtain rfl := spells_nil_iff.1 h
    cases us with
    | nil => rfl
    | cons u us =>
      have hkind : u.kind ≠ .semicolon := by rcases hus u rfl with hu | hu <;> simp [hu]
      exact if_neg hkind

/-- No attributes are read where there are none. -/
theorem attributesAhead_spells {semicolon : Bool}
    (h : Spells ts (if semicolon then [.mark .semicolon] else [])) (hus : AtKeyword us) :
    attributesAhead t (ts ++ us) = false := by
  have hhead : ∀ u ∈ (ts ++ us).head?, u.kind ≠ .identifier := by
    cases semicolon with
    | true =>
      obtain ⟨v, rest, rfl, hv, -⟩ := spells_cons_iff.1 h
      rintro u hu
      cases hu
      rw [kind_of_sign hv]
      decide
    | false =>
      obtain rfl := spells_nil_iff.1 h
      intro u hu
      rcases hus u hu with hu | hu <;> simp [hu]
  match hts : ts ++ us with
  | [] | [_] => rfl
  | u :: v :: rest =>
    have hu : u.kind ≠ .identifier := hhead u (by rw [hts]; rfl)
    simp [attributesAhead, not_isWord_of_kind hu]

/-- The end of a declaration reaches up to its last token. -/
theorem readSpecifier_spells {source : Source} (h : Spells ts source.symbols)
    (hline : ts.IsChain SameLine) (hus : AtKeyword us) :
    ∃ t, ts.getLast? = some t ∧
      readSpecifier last (ts ++ us) = .ok ((source.specifier.value, t.stop), us) := by
  obtain ⟨specifier, attributes?, semicolon⟩ := source
  obtain ⟨t, rest, rfl, ht, hrest⟩ := spells_cons_iff.1 h
  have hkind : t.kind = .string := kind_of_sign ht
  rw [List.cons_append, readSpecifier, if_pos hkind, stringValue_literal ht]
  obtain ⟨attributes, semi, rfl, hattributes, hsemi⟩ := spells_append_iff.1 hrest
  cases attributes? with
  | none =>
    obtain rfl := spells_nil_iff.1 hattributes
    simp only [List.nil_append, attributesAhead_spells hsemi hus, readSemicolon_spells hsemi hus]
    refine ⟨_, List.getLast?_cons, ?_⟩
    cases semi.getLast? <;> rfl
  | some a =>
    obtain ⟨withToken, group, rfl, hwith, hgroup⟩ := spells_cons_iff.1 hattributes
    obtain ⟨opener, group, rfl, hopener, hgroup⟩ := spells_cons_iff.1 hgroup
    obtain ⟨inner, ends, rfl, hinner, hends⟩ := spells_append_iff.1 hgroup
    obtain ⟨close, ends, rfl, hclose, hends⟩ := spells_cons_iff.1 hends
    obtain rfl := spells_nil_iff.1 hends
    have hopener : opener.kind = .leftBrace := kind_of_sign hopener
    have hclose : close.kind = .rightBrace := kind_of_sign hclose
    have hahead : attributesAhead t (withToken :: opener :: (inner ++ close :: (semi ++ us))) := by
      have hsame : withToken.line = t.line :=
        (List.isChain_cons_cons.1 hline).1 hkind (text_of_sign hwith)
      have hword : withToken.isWord "with" := isWord_of_sign hwith
      simp [attributesAhead, hword, hopener, hsame]
    have hdrop : dropGroup 0 (opener :: (inner ++ close :: (semi ++ us))) = some (close, semi ++ us) := by
      rw [dropGroup, hopener, if_pos (by rfl), dropGroup_of_plain (plain_of_spells_entries hinner),
        dropGroup, hclose]
      rfl
    simp only [List.cons_append, List.append_assoc, List.nil_append, hahead, if_true, List.tail_cons,
      hdrop, readSemicolon_spells hsemi hus]
    refine ⟨semi.getLast?.getD close, ?_, ?_⟩
    · rw [← List.getLast?_cons]
      exact List.getLast?_append_cons (t :: withToken :: opener :: inner) close semi
    · cases semi.getLast? <;> rfl

theorem readFrom_from {cause : StatementFault.Cause} (h : t.sign = fromWord.sign) :
    readFrom cause last (t :: us) = .ok us := if_pos (isWord_of_sign h)

/-! ### Imports -/

theorem readClause_spells (us : List Token) {c : Clause} (h : Spells ts c.symbols) :
    readClause last (ts ++ us) = .ok (c.bindings, us) := by
  cases c with
  | star n =>
    obtain ⟨star, rest, rfl, hstar, hrest⟩ := spells_cons_iff.1 h
    obtain ⟨as, rest, rfl, has, hrest⟩ := spells_cons_iff.1 hrest
    obtain ⟨t, rest, rfl, ht, hrest⟩ := spells_cons_iff.1 hrest
    obtain rfl := spells_nil_iff.1 hrest
    have hstar : star.kind = .star := kind_of_sign hstar
    have has : as.isWord "as" := isWord_of_sign has
    have hname : t.text = n.text := text_of_sign ht
    simp [readClause, hstar, has, hname, Clause.bindings]
  | names ns =>
    obtain ⟨opener, rest, rfl, hopener, hrest⟩ := spells_cons_iff.1 h
    have hopener : opener.kind = .leftBrace := kind_of_sign hopener
    obtain ⟨close, hread⟩ := readElements_spells last us opener hrest
    simp [readClause, hopener, hread, Clause.bindings]

/-- A default binding is read together with the comma behind it. -/
theorem readDefaultBinding_spells {d : Identifier} (h : t.sign = (Symbol.word d.toWord).sign) :
    readDefaultBinding (t :: us) =
      ([d.binding], if kindAhead .comma us then us.tail else us) := by
  have hkind : t.kind = .identifier := (kind_of_sign h).trans d.kind_eq
  have htext : t.text = d.text := text_of_sign h
  rw [readDefaultBinding, if_pos hkind, htext]
  rfl

/-- A clause starts with a star or a brace, and a brace is no binding. -/
theorem exists_of_spells_clause {c : Clause} (h : Spells ts c.symbols) :
    ∃ t rest, ts = t :: rest ∧ (t.kind = .star ∨ t.kind = .leftBrace) := by
  cases c with
  | star n =>
    obtain ⟨t, rest, rfl, ht, -⟩ := spells_cons_iff.1 h
    exact ⟨t, rest, rfl, .inl (kind_of_sign ht)⟩
  | names ns =>
    obtain ⟨t, rest, rfl, ht, -⟩ := spells_cons_iff.1 h
    exact ⟨t, rest, rfl, .inr (kind_of_sign ht)⟩

/-- What an import binds, read up to the word `from`. -/
theorem readBindings_spells (us : List Token) {b : Bindings} (h : Spells ts b.symbols) (hv : v.sign = fromWord.sign) :
    ∃ bs, readClause last (readDefaultBinding (ts ++ v :: us)).2 = .ok (bs, v :: us) ∧
      (readDefaultBinding (ts ++ v :: us)).1 ++ bs = b.bindings := by
  have hv : v.kind = .identifier := kind_of_sign hv
  cases b with
  | default d =>
    obtain ⟨t, rest, rfl, ht, hrest⟩ := spells_cons_iff.1 h
    obtain rfl := spells_nil_iff.1 hrest
    have hcomma : kindAhead .comma (v :: us) = false := by simp [kindAhead, hv]
    rw [List.singleton_append, readDefaultBinding_spells ht, hcomma]
    exact ⟨[], by simp [readClause, hv], rfl⟩
  | clause c =>
    have hread := readClause_spells last (v :: us) h
    obtain ⟨t, rest, rfl, ht⟩ := exists_of_spells_clause h
    have hkind : t.kind ≠ .identifier := by rcases ht with ht | ht <;> simp [ht]
    rw [List.cons_append] at hread ⊢
    rw [readDefaultBinding, if_neg hkind]
    exact ⟨c.bindings, hread, rfl⟩
  | both d c =>
    obtain ⟨t, rest, rfl, ht, hrest⟩ := spells_cons_iff.1 h
    obtain ⟨comma, rest, rfl, hcomma, hrest⟩ := spells_cons_iff.1 hrest
    have hcomma : comma.kind = .comma := kind_of_sign hcomma
    have hahead : kindAhead .comma (comma :: (rest ++ v :: us)) = true := by simp [kindAhead, hcomma]
    rw [List.cons_append, List.cons_append, readDefaultBinding_spells ht, hahead]
    exact ⟨c.bindings, readClause_spells last _ hrest, rfl⟩

/-- How the clause of an import starts: with a word in front of a comma or of `from`, with a star or
with a brace. -/
theorem exists_of_spells_bindings (v : Token) (us : List Token) {b : Bindings} (h : Spells ts b.symbols) :
    ∃ t u rest, ts ++ v :: us = t :: u :: rest ∧
      (t.kind = .identifier ∧ (u.kind = .comma ∨ u = v ∧ rest = us) ∨
        t.kind = .star ∨ t.kind = .leftBrace) := by
  cases b with
  | default d =>
    obtain ⟨t, rest, rfl, ht, hrest⟩ := spells_cons_iff.1 h
    obtain rfl := spells_nil_iff.1 hrest
    exact ⟨t, v, us, rfl, .inl ⟨(kind_of_sign ht).trans d.kind_eq, .inr ⟨rfl, rfl⟩⟩⟩
  | clause c =>
    obtain ⟨t, rest, rfl, ht⟩ := exists_of_spells_clause h
    cases rest with
    | nil => exact ⟨t, v, us, rfl, .inr ht⟩
    | cons u rest => exact ⟨t, u, rest ++ v :: us, rfl, .inr ht⟩
  | both d c =>
    obtain ⟨t, rest, rfl, ht, hrest⟩ := spells_cons_iff.1 h
    obtain ⟨comma, rest, rfl, hcomma, -⟩ := spells_cons_iff.1 hrest
    exact ⟨t, comma, rest ++ v :: us, rfl,
      .inl ⟨(kind_of_sign ht).trans d.kind_eq, .inl (kind_of_sign hcomma)⟩⟩

/-- A clause with a word `type` in it is no import of types, and none of another module system. -/
theorem not_type_of_spells_bindings {b : Bindings} (h : Spells ts b.symbols)
    (hv : v.sign = fromWord.sign) (hus : kindAhead .string us) :
    isOtherImport (ts ++ v :: us) = false ∧ marksTypeImport (ts ++ v :: us) = false := by
  have hvkind : v.kind = .identifier := kind_of_sign hv
  have hvtext : v.text = "from" := text_of_sign hv
  have hstring : kindAhead .equals us = false := by
    cases us with
    | nil => rfl
    | cons u us =>
      have hu : u.kind = .string := by simpa [kindAhead] using hus
      simp [kindAhead, hu]
  obtain ⟨t, u, rest, hts, hcase⟩ := exists_of_spells_bindings v us h
  rw [hts]
  rcases hcase with ⟨ht, hu | ⟨rfl, rfl⟩⟩ | ht | ht
  · simp [isOtherImport, marksTypeImport, kindAhead, ht, hu]
  · have hequals : kindAhead .equals (u :: rest) = false := by simp [kindAhead, hvkind]
    simp [isOtherImport, marksTypeImport, ht, hvkind, hvtext, hstring, hequals]
  · simp [isOtherImport, marksTypeImport, Token.isWord, ht]
  · simp [isOtherImport, marksTypeImport, Token.isWord, ht]

theorem kindAhead_of_spells_source (us : List Token) {source : Source} (h : Spells ts source.symbols) :
    kindAhead .string (ts ++ us) := by
  obtain ⟨t, rest, rfl, ht, -⟩ := spells_cons_iff.1 h
  have hkind : t.kind = .string := kind_of_sign ht
  simp [kindAhead, hkind]

/-- An import without a clause. -/
theorem readImport_run (word : Token) {source : Source} (h : Spells ts source.symbols)
    (hline : ts.IsChain SameLine) (hus : AtKeyword us) :
    ∃ t, ts.getLast? = some t ∧
      readImport last word (ts ++ us) =
        .ok (some (⟨word.start, t.stop, .imports source.specifier.value [] false⟩, us)) := by
  obtain ⟨t, hlast, hread⟩ := readSpecifier_spells last h hline hus
  have hstring : kindAhead .string (ts ++ us) := kindAhead_of_spells_source us h
  have hother : isOtherImport (ts ++ us) = false := by
    obtain ⟨u, rest, rfl, hu, -⟩ := spells_cons_iff.1 h
    have hkind : u.kind = .string := kind_of_sign hu
    simp [isOtherImport, hkind, Token.isWord]
  refine ⟨t, hlast, ?_⟩
  simp only [readImport, hother, hstring, hread, Bool.false_eq_true, if_false, Bool.true_or, if_true]
  rfl

/-- An import with a clause. -/
theorem readImport_clause (word : Token) {source : Source} {b : Bindings}
    (h : Spells ts (b.symbols ++ fromWord :: source.symbols)) (hline : ts.IsChain SameLine)
    (hus : AtKeyword us) :
    ∃ t, ts.getLast? = some t ∧
      readImport last word (ts ++ us) =
        .ok (some (⟨word.start, t.stop, .imports source.specifier.value b.bindings false⟩, us)) := by
  obtain ⟨clause, rest, rfl, hclause, hrest⟩ := spells_append_iff.1 h
  obtain ⟨v, rest, rfl, hv, hrest⟩ := spells_cons_iff.1 hrest
  obtain ⟨t, hlast, hread⟩ := readSpecifier_spells last hrest
    (List.IsChain.right_of_append hline).tail hus
  obtain ⟨hother, hmarks⟩ := not_type_of_spells_bindings hclause hv
    (kindAhead_of_spells_source us hrest)
  obtain ⟨bs, hbs, hbindings⟩ := readBindings_spells last (rest ++ us) hclause hv
  have hstring : (kindAhead .string (clause ++ v :: (rest ++ us)) ||
      kindAhead .template (clause ++ v :: (rest ++ us))) = false := by
    obtain ⟨u, w, tail, hts, hcase⟩ := exists_of_spells_bindings v (rest ++ us) hclause
    rw [hts]
    rcases hcase with ⟨hu, -⟩ | hu | hu <;> simp [kindAhead, hu]
  refine ⟨t, ?_, ?_⟩
  · rw [List.getLast?_append_cons, List.getLast?_cons, hlast]
    rfl
  · rw [List.append_assoc, List.cons_append]
    simp only [readImport, hother, hstring, hmarks, hbs, Except.ok_bind, readFrom_from last hv, hread,
      Bool.false_eq_true, if_false, hbindings]

/-! ### Re-exports -/

/-- The part of an export behind `export *`. -/
theorem readExportAll_spells (word : Token) {source : Source} (hv : v.sign = fromWord.sign)
    (h : Spells ts source.symbols) (hline : ts.IsChain SameLine) (hus : AtKeyword us) :
    ∃ t, ts.getLast? = some t ∧
      readExportAll last word false (v :: (ts ++ us)) =
        .ok (some (⟨word.start, t.stop, .reexportAll source.specifier.value false⟩, us)) := by
  obtain ⟨t, hlast, hread⟩ := readSpecifier_spells last h hline hus
  have has : wordAhead "as" (v :: (ts ++ us)) = false := by
    have htext : v.text = "from" := text_of_sign hv
    have hne : Text.ofString "from" ≠ "as" := by decide
    simp [wordAhead, Token.isWord, htext, hne]
  refine ⟨t, hlast, ?_⟩
  simp only [readExportAll, has, Bool.false_eq_true, if_false, readFrom_from last hv, Except.ok_bind, hread]

/-- The part of an export behind `export *` that gives everything one name. -/
theorem readExportAll_as (word : Token) {as name : Token} {n : Name} {source : Source}
    (has : as.sign = asWord.sign) (hname : name.sign = n.symbol.sign) (hv : v.sign = fromWord.sign)
    (h : Spells ts source.symbols) (hline : ts.IsChain SameLine) (hus : AtKeyword us) :
    ∃ t, ts.getLast? = some t ∧
      readExportAll last word false (as :: name :: v :: (ts ++ us)) =
        .ok (some (⟨word.start, t.stop,
          .reexports source.specifier.value [⟨n.value, "*", false⟩] false⟩, us)) := by
  obtain ⟨t, hlast, hread⟩ := readSpecifier_spells last h hline hus
  have has : wordAhead "as" (as :: name :: v :: (ts ++ us)) := isWord_of_sign has
  refine ⟨t, hlast, ?_⟩
  simp only [readExportAll, has, if_true, List.tail_cons, readName_spells last hname, readFrom_from last hv,
    Except.ok_bind, hread]

/-- The part of an export behind its opening brace. -/
theorem readExportNames_spells (word opener : Token) {es : List Element} {comma : Bool}
    {source : Source} {inner : List Token}
    (hinner : Spells inner (separated comma (es.map Element.symbols) ++ [.mark .rightBrace]))
    (hv : v.sign = fromWord.sign) (h : Spells ts source.symbols) (hline : ts.IsChain SameLine)
    (hus : AtKeyword us) :
    ∃ t, ts.getLast? = some t ∧
      readExportNames last word opener false (inner ++ v :: (ts ++ us)) =
        .ok (some (⟨word.start, t.stop,
          .reexports source.specifier.value (es.map fun e => e.binding.swap) false⟩, us)) := by
  obtain ⟨t, hlast, hread⟩ := readSpecifier_spells last h hline hus
  obtain ⟨close, hnames⟩ :=
    readElements_spells last (v :: (ts ++ us)) opener hinner
  have hfrom : wordAhead "from" (v :: (ts ++ us)) := isWord_of_sign hv
  refine ⟨t, hlast, ?_⟩
  simp only [readExportNames, hnames, Except.ok_bind, hfrom, if_true, List.tail_cons, hread,
    List.map_map]
  rfl

/-! ### Declarations -/

theorem getLast?_cons_of (h : ts.getLast? = some t) (u : Token) : (u :: ts).getLast? = some t := by
  rw [List.getLast?_cons, h]
  rfl

theorem readStatement_import {word : Token} (h : word.sign = importWord.sign) :
    readStatement last word us = readImport last word us := if_pos (kind_of_sign h)

theorem readStatement_export {word : Token} (h : word.sign = exportWord.sign) :
    readStatement last word us = readExport last word us := by
  have hkind : word.kind = .exportWord := kind_of_sign h
  rw [readStatement, if_neg (by simp [hkind]), if_pos hkind]

/-- A declaration is read up to its last token. -/
theorem readStatement_spells {d : Declaration} (h : Spells ts d.symbols)
    (hline : ts.IsChain SameLine) (hus : AtKeyword us) :
    ∃ word rest t, ts = word :: rest ∧ ts.getLast? = some t ∧
      readStatement last word (rest ++ us) = .ok (some (⟨word.start, t.stop, d.form⟩, us)) := by
  cases d with
  | run source =>
    obtain ⟨word, rest, rfl, hword, h⟩ := spells_cons_iff.1 h
    obtain ⟨t, ht, hread⟩ := readImport_run last word h hline.tail hus
    refine ⟨word, rest, t, rfl, getLast?_cons_of ht word, ?_⟩
    rw [readStatement_import last hword, hread]
    rfl
  | imports b source =>
    obtain ⟨word, rest, rfl, hword, h⟩ := spells_cons_iff.1 h
    obtain ⟨t, ht, hread⟩ := readImport_clause last word h hline.tail hus
    refine ⟨word, rest, t, rfl, getLast?_cons_of ht word, ?_⟩
    rw [readStatement_import last hword, hread]
    rfl
  | exportAll source =>
    obtain ⟨word, rest, rfl, hword, h⟩ := spells_cons_iff.1 h
    obtain ⟨star, rest, rfl, hstar, h⟩ := spells_cons_iff.1 h
    obtain ⟨v, rest, rfl, hv, h⟩ := spells_cons_iff.1 h
    obtain ⟨t, ht, hread⟩ := readExportAll_spells last word hv h
      hline.tail.tail.tail hus
    refine ⟨word, _, t, rfl, getLast?_cons_of (getLast?_cons_of (getLast?_cons_of ht v) star) word, ?_⟩
    rw [readStatement_export last hword, List.cons_append, List.cons_append,
      readExport_star (kind_of_sign hstar), hread]
    rfl
  | exportAs n source =>
    obtain ⟨word, rest, rfl, hword, h⟩ := spells_cons_iff.1 h
    obtain ⟨star, rest, rfl, hstar, h⟩ := spells_cons_iff.1 h
    obtain ⟨as, rest, rfl, has, h⟩ := spells_cons_iff.1 h
    obtain ⟨name, rest, rfl, hname, h⟩ := spells_cons_iff.1 h
    obtain ⟨v, rest, rfl, hv, h⟩ := spells_cons_iff.1 h
    obtain ⟨t, ht, hread⟩ := readExportAll_as last word has hname hv h
      hline.tail.tail.tail.tail.tail hus
    refine ⟨word, _, t, rfl, getLast?_cons_of (getLast?_cons_of (getLast?_cons_of
      (getLast?_cons_of (getLast?_cons_of ht v) name) as) star) word, ?_⟩
    rw [readStatement_export last hword, List.cons_append, List.cons_append, List.cons_append,
      List.cons_append, readExport_star (kind_of_sign hstar), hread]
    rfl
  | exportNames ns source =>
    obtain ⟨word, rest, rfl, hword, h⟩ := spells_cons_iff.1 h
    obtain ⟨names, source, rfl, hnames, hsource⟩ := spells_append_iff.1 h
    obtain ⟨opener, inner, rfl, hopener, hinner⟩ := spells_cons_iff.1 hnames
    obtain ⟨v, source, rfl, hv, hsource⟩ := spells_cons_iff.1 hsource
    obtain ⟨t, ht, hread⟩ := readExportNames_spells last word opener hinner hv hsource (List.IsChain.right_of_append hline.tail).tail hus
    refine ⟨word, _, t, rfl, getLast?_cons_of ?_ word, ?_⟩
    · rw [List.getLast?_append_cons]
      exact getLast?_cons_of ht v
    · rw [readStatement_export last hword, List.append_assoc, List.cons_append, List.cons_append,
        readExport_brace (kind_of_sign hopener), hread]
      rfl

end ScriptBundle.Written
