import ScriptBundle.Proofs.Diagnostic.Accounts

/-!
# Printing and parsing a report

A report is printed one diagnostic after the other, each with a header line and lines that go on with its
message. Parsing gives back the diagnostics that were printed, and it fails only where a line or a column is
written with too many digits. A header with a place could be cut in more than one way, since a file name
may hold parentheses and numbers. The shortest name that fits is the one that was printed as long as the
name holds no whole mark `(line,column): kind code: `: a mark that starts inside the name would have a
parenthesis behind its first character.

* `Numeral`, `Place`, `Printed`: what is printed, with the conditions on its parts;
* `IsPlaceMark`: what a file name must not hold;
* `Printed.isLocated_header`: the name that was printed is the shortest that fits;
* `foldlM_addLine_lines`: reading the lines of one diagnostic;
* `parse_printed`: a whole report.
-/

namespace ScriptBundle

/-! ### Decimal notation -/

namespace Text

theorem decimalValue_append_singleton (s : Text) (c : CodePoint) :
    decimalValue (s ++ [c]) = 10 * decimalValue s + c.decimalValue?.getD 0 := by
  simp [decimalValue]

/-- The last digit of a number, behind those of its tenth. -/
theorem ofNat_eq (n : Nat) :
    ofNat n = (if n < 10 then [] else ofNat (n / 10)) ++ [CodePoint.ofChar (n % 10).digitChar] := by
  unfold ofNat
  rw [Nat.toDigits_eq_if (by decide)]
  split
  · next h => simp [Nat.mod_eq_of_lt h]
  · simp

/-- Reading a number in decimal notation gives it back. -/
theorem decimalValue_ofNat (n : Nat) : decimalValue (ofNat n) = n := by
  have hdigit : ∀ d < 10, (CodePoint.ofChar d.digitChar).decimalValue?.getD 0 = d := by decide
  induction n using Nat.strongRecOn with
  | ind n ih =>
    rw [ofNat_eq, decimalValue_append_singleton, hdigit _ (Nat.mod_lt n (by decide))]
    split
    · next h => simp [decimalValue, Nat.mod_eq_of_lt h]
    · rw [ih (n / 10) (by omega)]
      omega

end Text

namespace Report

/-! ### What is printed -/

instance (s : Text) : Decidable (IsNumeral s) := inferInstanceAs (Decidable (_ ∧ _))

theorem isNumeral_ofNat (n : Nat) : IsNumeral (Text.ofNat n) := by
  refine ⟨?_, fun c hc => ?_⟩
  · rw [Text.ofNat_eq]
    simp
  · have hdigit := Text.isAsciiDigit_of_mem_ofNat hc
    have hlow : c.val < 0x80 := by
      simp only [CodePoint.isAsciiDigit, Bool.and_eq_true, decide_eq_true_eq] at hdigit
      omega
    rw [CodePoint.isDecimal, if_pos hlow]
    exact hdigit

/-- A decimal number as it is written. -/
structure Numeral where
  text : Text
  isNumeral : IsNumeral text

namespace Numeral

/-- The number. -/
def value (n : Numeral) : Nat := Text.decimalValue n.text

/-- A number without further zeros in front of it. -/
def ofNat (n : Nat) : Numeral := ⟨Text.ofNat n, isNumeral_ofNat n⟩

@[simp] theorem value_ofNat (n : Nat) : (ofNat n).value = n := Text.decimalValue_ofNat n

end Numeral

/-- The text reads `kind code: `. -/
inductive IsCodeMark : Text → Prop
  | intro {kind digits : Text} (hkind : kind = "error" ∨ kind = "warning") (hdigits : IsNumeral digits) :
      IsCodeMark (kind ++ (" TS" ++ (digits ++ ": ")))

/-- The text reads `(line,column): kind code: `. -/
inductive IsPlaceMark : Text → Prop
  | intro {line column mark : Text} (hline : IsNumeral line) (hcolumn : IsNumeral column)
      (hmark : IsCodeMark mark) : IsPlaceMark (placed line column mark)

/-- The line has the form of a diagnostic with a place. -/
def IsPlacedLine (s : Text) : Prop := ∃ file line column d, HasPlace s file line column d

/-- If a line has a place, it has one with the shortest name that fits. -/
theorem exists_isLocated_iff {s : Text} :
    (∃ file line column d, IsLocated s file line column d) ↔ IsPlacedLine s := by
  constructor
  · rintro ⟨file, line, column, d, h⟩
    exact ⟨file, line, column, d, h.toHasPlace⟩
  · rintro ⟨file, line, column, d, h⟩
    -- Induction on the length of the name: either it is the shortest, or a shorter one fits.
    induction hn : file.length using Nat.strongRecOn generalizing file line column d with
    | ind n ih =>
      by_cases hshortest : ∀ file' line' column' d', HasPlace s file' line' column' d' →
          file.length ≤ file'.length
      · exact ⟨file, line, column, d, h, hshortest⟩
      · simp only [not_forall, Nat.not_le] at hshortest
        obtain ⟨file', line', column', d', h', hlt⟩ := hshortest
        exact ih file'.length (hn ▸ hlt) file' line' column' d' h' rfl

theorem located?_eq_none_iff_unplaced {s : Text} : located? s = none ↔ ¬ IsPlacedLine s := by
  rw [located?_eq_none_iff, ← exists_isLocated_iff]
  simp

instance (s : Text) : Decidable (IsPlacedLine s) :=
  decidable_of_iff (located? s ≠ none) (by rw [Ne, located?_eq_none_iff_unplaced, not_not])

/-- The place of a diagnostic. -/
structure Place where
  file : Text
  line : Numeral
  column : Numeral
  ne_nil : file ≠ []
  unbroken : Text.Unbroken file
  unmarked : ∀ mark, IsPlaceMark mark → ¬ mark <:+: file

/-- The line goes on with a message as it stands: white space starts it and does not end it, and it does
not have the form of a diagnostic with a place. -/
structure IsMore (l : Text) : Prop where
  starts : l.head?.any (·.isBlank)
  ends : l.getLast?.any (!·.isBlank)
  unbroken : Text.Unbroken l
  unplaced : ¬ IsPlacedLine l

theorem isMore_iff {l : Text} :
    IsMore l ↔ l.head?.any (·.isBlank) ∧ l.getLast?.any (!·.isBlank) ∧ Text.Unbroken l ∧ ¬ IsPlacedLine l :=
  ⟨fun h => ⟨h.starts, h.ends, h.unbroken, h.unplaced⟩, fun ⟨hs, he, hu, hp⟩ => ⟨hs, he, hu, hp⟩⟩

instance (l : Text) : Decidable (IsMore l) := decidable_of_iff _ isMore_iff.symm

/-- The text `kind code: message`. -/
def coded (kind digits message : Text) : Text := kind ++ (" TS" ++ (digits ++ (": " ++ message)))

/-- A diagnostic as it is printed, with or without a place, and the lines that go on with its message. -/
structure Printed where
  place? : Option Place
  kind : Text
  digits : Text
  message : Text
  more : List Text
  kind_eq : kind = "error" ∨ kind = "warning"
  isNumeral_digits : IsNumeral digits
  unbroken_message : Text.Unbroken message
  isMore : ∀ l ∈ more, IsMore l
  unplaced : place? = none → ¬ IsPlacedLine (coded kind digits message)

namespace Printed

/-- The line that opens the diagnostic. -/
def header (p : Printed) : Text :=
  match p.place? with
  | none => coded p.kind p.digits p.message
  | some place => place.file ++ placed place.line.text place.column.text (coded p.kind p.digits p.message)

/-- The lines of the diagnostic. -/
def lines (p : Printed) : List Text := p.header :: p.more

/-- The diagnostic as its first line tells it. -/
def opened (p : Printed) : Diagnostic where
  kind := p.kind
  message := p.message
  file? := p.place?.map (·.file)
  code? := some ("TS" ++ p.digits)
  line? := p.place?.map (·.line.value)
  column? := p.place?.map (·.column.value)

/-- The diagnostic that is printed. -/
def diagnostic (p : Printed) : Diagnostic :=
  { p.opened with message := p.message ++ p.more.flatMap fun l => Text.lineFeed ++ l }

/-- No number of the place has too many digits. -/
def IsReadable (p : Printed) : Prop :=
  ∀ place ∈ p.place?, place.line.text.length ≤ TooManyDigits.limit ∧
    place.column.text.length ≤ TooManyDigits.limit

instance (p : Printed) : Decidable p.IsReadable := inferInstanceAs (Decidable (∀ place ∈ p.place?, _))

end Printed

/-- The text ends a line: it has line boundaries only. -/
def IsLineEnd (s : Text) : Prop := s ≠ [] ∧ ∀ c ∈ s, c.isLineBoundary

instance (s : Text) : Decidable (IsLineEnd s) := inferInstanceAs (Decidable (_ ∧ _))

/-- A line, and further ones, each behind the end of the line in front of it. -/
def joinLines (first : Text) (rest : List (Text × Text)) : Text :=
  first ++ rest.flatMap fun x => x.1 ++ x.2

/-! ### No line boundaries -/

section Unbroken

variable {s t : Text}

theorem IsNumeral.unbroken (h : IsNumeral s) : Text.Unbroken s := by
  have hall : ∀ c ∈ CodePoint.lineBoundaries, c.isDecimal = false := by decide
  intro c hc
  by_contra hline
  have := hall c (CodePoint.mem_lineBoundaries (by simpa using hline))
  rw [h.2 c hc] at this
  cases this

theorem Printed.unbroken_header (p : Printed) : Text.Unbroken p.header := by
  have hkind : Text.Unbroken p.kind := by
    rcases p.kind_eq with hkind | hkind <;> rw [hkind] <;> decide
  have hcoded : Text.Unbroken (coded p.kind p.digits p.message) :=
    hkind.append (.append (by decide) (p.isNumeral_digits.unbroken.append
      (.append (by decide) p.unbroken_message)))
  unfold Printed.header
  split
  · exact hcoded
  · next place _ =>
    exact place.unbroken.append (.append (by decide) (place.line.isNumeral.unbroken.append
      (.append (by decide) (place.column.isNumeral.unbroken.append (.append (by decide) hcoded)))))

theorem Printed.unbroken_of_mem_lines (p : Printed) {l : Text} (hl : l ∈ p.lines) : Text.Unbroken l := by
  rcases List.mem_cons.1 hl with rfl | hl
  · exact p.unbroken_header
  · exact (p.isMore l hl).unbroken

end Unbroken

/-! ### The place that was printed -/

section Place

variable {mark rest : Text}

/-- A numeral has no parenthesis. -/
theorem IsNumeral.not_mem_paren {s : Text} (h : IsNumeral s) : CodePoint.ofChar '(' ∉ s := by
  intro hc
  have := h.2 _ hc
  revert this
  decide

theorem IsCodeMark.not_mem_paren (h : IsCodeMark mark) : CodePoint.ofChar '(' ∉ mark := by
  obtain ⟨hkind, hdigits⟩ := h
  have hfixed : CodePoint.ofChar '(' ∉ Text.ofString " TS" ∧ CodePoint.ofChar '(' ∉ Text.ofString ": " := by
    decide
  simp only [List.mem_append, not_or]
  refine ⟨?_, hfixed.1, hdigits.not_mem_paren, hfixed.2⟩
  rcases hkind with rfl | rfl <;> decide

/-- The parenthesis that opens a mark is its only one. -/
theorem IsPlaceMark.not_mem_tail (h : IsPlaceMark mark) : CodePoint.ofChar '(' ∉ mark.tail := by
  obtain ⟨hline, hcolumn, hmark⟩ := h
  have hfixed : CodePoint.ofChar '(' ∉ Text.ofString "," ∧ CodePoint.ofChar '(' ∉ Text.ofString "): " := by
    decide
  show _ ∉ _ ++ (_ ++ (_ ++ (_ ++ _)))
  simp only [List.mem_append, not_or]
  exact ⟨hline.not_mem_paren, hfixed.1, hcolumn.not_mem_paren, hfixed.2, hmark.not_mem_paren⟩

/-- A text with a place starts with a mark. -/
theorem exists_isPlaceMark {s line column : Text} {d : Diagnostic} (h : IsPlaced s line column d) :
    ∃ mark message, IsPlaceMark mark ∧ s = mark ++ message := by
  obtain ⟨hline, hcolumn, text, rfl, hkind, hdigits⟩ := h
  next kind digits message =>
  refine ⟨placed line column (kind ++ (" TS" ++ (digits ++ ": "))), message,
    .intro hline hcolumn (.intro hkind hdigits), ?_⟩
  simp [placed]

/-- A mark that starts at or before a parenthesis with something in front of it ends before it: the
parenthesis of a mark is its first character. -/
theorem IsPlaceMark.isPrefix_of_append (h : IsPlaceMark mark) {extra message : Text} (hne : extra ≠ [])
    (heq : extra ++ CodePoint.ofChar '(' :: rest = mark ++ message) : mark <+: extra := by
  rcases List.append_eq_append_iff.1 heq with ⟨u, rfl, hu⟩ | ⟨u, rfl, -⟩
  · cases u with
    | nil => simp
    | cons c u =>
      obtain ⟨rfl, -⟩ := List.cons.inj hu
      refine absurd ?_ h.not_mem_tail
      rw [List.tail_append_of_ne_nil hne]
      simp
  · exact List.prefix_append mark u

end Place

namespace Printed

variable {p : Printed} {place : Place}

theorem isCoded (p : Printed) :
    IsCoded (coded p.kind p.digits p.message)
      { kind := p.kind, message := p.message, code? := some ("TS" ++ p.digits) } :=
  .intro p.kind_eq p.isNumeral_digits

/-- The name that was printed is the shortest that fits. -/
theorem isLocated_header (hplace : p.place? = some place) :
    IsLocated p.header place.file place.line.text place.column.text
      { kind := p.kind, message := p.message, code? := some ("TS" ++ p.digits) } := by
  have hheader : p.header = place.file ++
      placed place.line.text place.column.text (coded p.kind p.digits p.message) := by
    rw [header, hplace]
  refine ⟨⟨place.ne_nil, _, hheader, place.line.isNumeral, place.column.isNumeral, _, rfl, p.isCoded⟩, ?_⟩
  rintro file line column d ⟨-, rest, hrest, hplaced⟩
  by_contra hshort
  obtain ⟨mark, message, hmark, rfl⟩ := exists_isPlaceMark hplaced
  -- The shorter name leaves a part of the printed one, and the mark lies in that part.
  rw [hheader] at hrest
  obtain ⟨extra, hfile, hextra⟩ : ∃ extra, place.file = file ++ extra ∧
      mark ++ message = extra ++ placed place.line.text place.column.text
        (coded p.kind p.digits p.message) := by
    rcases List.append_eq_append_iff.1 hrest with ⟨u, rfl, -⟩ | ⟨u, hu, hmessage⟩
    · simp at hshort
    · exact ⟨u, hu, hmessage⟩
  have hne : extra ≠ [] := by
    rintro rfl
    simp [hfile] at hshort
  have hstarts := hmark.isPrefix_of_append hne hextra.symm
  exact place.unmarked mark hmark (hstarts.isInfix.trans (hfile ▸ (List.suffix_append file extra).isInfix))

theorem isBlank_header (p : Printed) : Text.isBlank p.header = false := by
  have hkind : Text.isBlank p.kind = false := by
    rcases p.kind_eq with hkind | hkind <;> rw [hkind] <;> decide
  unfold header
  split <;> simp [coded, placed, hkind]

theorem isOverlong_header (h : ¬ p.IsReadable) : IsOverlong p.header := by
  simp only [IsReadable, Option.mem_def, not_forall, not_and_or, Nat.not_le] at h
  obtain ⟨place, hplace, hlong⟩ := h
  exact ⟨_, _, _, _, isLocated_header hplace, hlong⟩

end Printed

/-! ### Reading what was printed -/

section Reading

variable {p : Printed} {l : Text} {d : Diagnostic} {ds : List Diagnostic} {ps : List Printed}

/-- The line that opens a diagnostic. -/
theorem addLine_header (h : p.IsReadable) (ds : List Diagnostic) :
    addLine ds p.header = .ok (p.opened :: ds) := by
  unfold addLine
  rw [if_neg (by simp [p.isBlank_header])]
  cases hplace : p.place? with
  | none =>
    have hheader : p.header = coded p.kind p.digits p.message := by rw [Printed.header, hplace]
    rw [hheader, located?_eq_none_iff_unplaced.2 (p.unplaced hplace), global?_eq_some_iff.2 p.isCoded]
    simp [Printed.opened, hplace]
  | some place =>
    obtain ⟨hline, hcolumn⟩ := h place hplace
    have hlocated := located?_eq_some_iff.2
      ⟨_, _, _, _, Printed.isLocated_header hplace, by rw [readPlace_of_le hline hcolumn]⟩
    rw [hlocated]
    simp [Printed.opened, hplace, Numeral.value]

/-- A diagnostic without a place starts with no white space. -/
theorem IsCoded.head?_isBlank (h : IsCoded l d) : l.head?.any (·.isBlank) = false := by
  obtain ⟨rfl | rfl, -⟩ := h
  · show (some (CodePoint.ofChar 'e')).any _ = false
    decide
  · show (some (CodePoint.ofChar 'w')).any _ = false
    decide

theorem IsMore.exists_append (h : IsMore l) : ∃ s c, l = s ++ [c] ∧ c.isBlank = false := by
  have hends := h.ends
  rcases List.eq_nil_or_concat' l with rfl | ⟨s, c, rfl⟩
  · cases hends
  · exact ⟨s, c, rfl, by simpa using hends⟩

/-- A line that goes on with the message of the latest diagnostic. -/
theorem addLine_more (h : IsMore l) (d : Diagnostic) (ds : List Diagnostic) :
    addLine (d :: ds) l = .ok ({ d with message := d.message ++ (Text.lineFeed ++ l) } :: ds) := by
  obtain ⟨s, c, hl, hc⟩ := h.exists_append
  have hblank : Text.isBlank l = false := by simp [hl, Text.isBlank_cons, hc]
  have htrim : Text.trimEnd l = l := by simp [Text.trimEnd, hl, hc]
  have hglobal : global? l = none := by
    refine Option.eq_none_iff_forall_not_mem.2 fun d' hd' => ?_
    have := (global?_eq_some_iff.1 hd').head?_isBlank
    rw [h.starts] at this
    cases this
  unfold addLine
  rw [if_neg (by simp [hblank]), located?_eq_none_iff_unplaced.2 h.unplaced, hglobal, htrim]
  simp only [h.starts, if_true, List.append_assoc, Text.lineFeed]

/-- The lines that go on with a diagnostic. -/
theorem foldlM_addLine_more {more : List Text} (h : ∀ l ∈ more, IsMore l) (d : Diagnostic)
    (ds : List Diagnostic) :
    more.foldlM addLine (d :: ds) =
      .ok ({ d with message := d.message ++ more.flatMap fun l => Text.lineFeed ++ l } :: ds) := by
  induction more generalizing d with
  | nil => simp [pure, Except.pure]
  | cons l more ih =>
    obtain ⟨hl, hmore⟩ := List.forall_mem_cons.1 h
    rw [List.foldlM_cons, addLine_more hl, Except.ok_bind, ih hmore]
    simp

/-- All lines of a diagnostic. -/
theorem foldlM_addLine_lines (h : p.IsReadable) (ds : List Diagnostic) :
    p.lines.foldlM addLine ds = .ok (p.diagnostic :: ds) := by
  rw [Printed.lines, List.foldlM_cons, addLine_header h, Except.ok_bind, foldlM_addLine_more p.isMore]
  rfl

/-- The lines of several diagnostics. -/
theorem foldlM_addLine_printed (h : ∀ p ∈ ps, p.IsReadable) (ds : List Diagnostic) :
    (ps.flatMap Printed.lines).foldlM addLine ds = .ok ((ps.map Printed.diagnostic).reverse ++ ds) := by
  induction ps generalizing ds with
  | nil => rfl
  | cons p ps ih =>
    obtain ⟨hp, hps⟩ := List.forall_mem_cons.1 h
    rw [List.flatMap_cons, List.foldlM_append, foldlM_addLine_lines hp, Except.ok_bind, ih hps]
    simp

/-- Blank lines make no difference. -/
theorem foldlM_addLine_filter (ls : List Text) (ds : List Diagnostic) :
    (ls.filter (!Text.isBlank ·)).foldlM addLine ds = ls.foldlM addLine ds := by
  induction ls generalizing ds with
  | nil => rfl
  | cons l ls ih =>
    cases hblank : Text.isBlank l with
    | true => simp [hblank, addLine_of_isBlank hblank, ih]
    | false => simp [hblank, ih]

theorem parse_eq (report : Text) :
    parse report = ((Text.writtenLines report).foldlM addLine []).map List.reverse := by
  rw [parse, Text.writtenLines, foldlM_addLine_filter]

end Reading

/-! ### A whole report -/

section Report

variable {first : Text} {rest : List (Text × Text)} {ps : List Printed}

/-- Behind the end of a line the written lines start anew. -/
theorem writtenLines_append_lineEnd {sep : Text} (h : IsLineEnd sep) (s t : Text) :
    Text.writtenLines (s ++ (sep ++ t)) = Text.writtenLines s ++ Text.writtenLines t := by
  obtain ⟨hne, hsep⟩ := h
  induction sep generalizing s with
  | nil => exact absurd rfl hne
  | cons c sep ih =>
    obtain ⟨hc, hsep⟩ := List.forall_mem_cons.1 hsep
    rw [List.cons_append, Text.writtenLines_append_boundary hc]
    cases sep with
    | nil => rfl
    | cons b sep =>
      have := ih [] (List.cons_ne_nil b sep) hsep
      rw [List.nil_append] at this
      rw [this]
      rfl

/-- The written lines of lines that are joined are those of all of them. -/
theorem writtenLines_joinLines (hrest : ∀ x ∈ rest, IsLineEnd x.1) :
    Text.writtenLines (joinLines first rest) = (first :: rest.map (·.2)).flatMap Text.writtenLines := by
  induction rest generalizing first with
  | nil => simp [joinLines]
  | cons x rest ih =>
    obtain ⟨hx, hrest⟩ := List.forall_mem_cons.1 hrest
    have hjoin : joinLines first (x :: rest) = first ++ (x.1 ++ joinLines x.2 rest) := by
      simp [joinLines]
    rw [hjoin, writtenLines_append_lineEnd hx, ih hrest]
    rfl

/-- Lines that are blank or unbroken are written as they stand. -/
theorem flatMap_writtenLines {ls : List Text}
    (h : ∀ l ∈ ls.filter (!Text.isBlank ·), Text.Unbroken l) :
    ls.flatMap Text.writtenLines = ls.filter (!Text.isBlank ·) := by
  induction ls with
  | nil => rfl
  | cons l ls ih =>
    rw [List.flatMap_cons]
    cases hblank : Text.isBlank l with
    | true =>
      rw [List.filter_cons_of_neg (by simp [hblank])] at h ⊢
      rw [Text.writtenLines_eq_nil_iff.2 hblank, ih h]
      rfl
    | false =>
      rw [List.filter_cons_of_pos (by simp [hblank])] at h ⊢
      obtain ⟨hl, hls⟩ := List.forall_mem_cons.1 h
      rw [Text.writtenLines_of_unbroken hl hblank, ih hls]
      rfl

/-- The written lines of a printed report. -/
theorem writtenLines_printed (hrest : ∀ x ∈ rest, IsLineEnd x.1)
    (hlines : (first :: rest.map (·.2)).filter (!Text.isBlank ·) = ps.flatMap Printed.lines) :
    Text.writtenLines (joinLines first rest) = ps.flatMap Printed.lines := by
  rw [writtenLines_joinLines hrest, flatMap_writtenLines, hlines]
  intro l hl
  rw [hlines] at hl
  obtain ⟨p, -, hl⟩ := List.mem_flatMap.1 hl
  exact p.unbroken_of_mem_lines hl

/-- Whether a printed report is read. -/
theorem exists_parse_printed_iff (hrest : ∀ x ∈ rest, IsLineEnd x.1)
    (hlines : (first :: rest.map (·.2)).filter (!Text.isBlank ·) = ps.flatMap Printed.lines) :
    (∃ ds, parse (joinLines first rest) = .ok ds) ↔ ∀ p ∈ ps, p.IsReadable := by
  constructor
  · intro h p hp
    by_contra hlong
    refine exists_parse_iff.1 h p.header ?_ (Printed.isOverlong_header hlong)
    rw [writtenLines_printed hrest hlines]
    exact List.mem_flatMap_of_mem hp List.mem_cons_self
  · intro h
    rw [parse_eq, writtenLines_printed hrest hlines, foldlM_addLine_printed h]
    exact ⟨_, rfl⟩

/-- Parsing undoes printing. What was printed, with blank lines anywhere between, is given back, in order
and with the lines that go on with a message behind it, exactly when no line and no column of it has too
many digits; and otherwise the report is not read at all. -/
theorem parse_printed (hrest : ∀ x ∈ rest, IsLineEnd x.1)
    (hlines : (first :: rest.map (·.2)).filter (!Text.isBlank ·) = ps.flatMap Printed.lines) :
    (parse (joinLines first rest) = .ok (ps.map Printed.diagnostic) ↔ ∀ p ∈ ps, p.IsReadable) ∧
      ((∃ f, parse (joinLines first rest) = .error f) ↔ ∃ p ∈ ps, ¬ p.IsReadable) := by
  have hread := exists_parse_printed_iff hrest hlines
  constructor
  · constructor
    · exact fun h => hread.1 ⟨_, h⟩
    · intro h
      rw [parse_eq, writtenLines_printed hrest hlines, foldlM_addLine_printed h]
      simp
  · have hnot : (∃ p ∈ ps, ¬ p.IsReadable) ↔ ¬ ∀ p ∈ ps, p.IsReadable := by simp
    rw [hnot, ← hread]
    cases parse (joinLines first rest) <;> simp

/-- A name without a space holds no mark. -/
theorem unmarked_of_not_mem_space {file : Text} (h : CodePoint.ofChar ' ' ∉ file) (mark : Text)
    (hmark : IsPlaceMark mark) : ¬ mark <:+: file := by
  intro hinside
  refine h (hinside.subset ?_)
  obtain ⟨-, -, -⟩ := hmark
  simp [placed, Text.ofString]

/-- A diagnostic whose file name reads like a place, with a line that goes on with its message. -/
def placedSample : Printed where
  place? := some {
    file := "b(1,2):c.ts"
    line := .ofNat 30
    column := .ofNat 7
    ne_nil := by decide
    unbroken := by decide
    unmarked := unmarked_of_not_mem_space (by decide) }
  kind := "error"
  digits := "2322"
  message := "no"
  more := ["  in d(1,2): error"]
  kind_eq := by decide
  isNumeral_digits := by decide
  unbroken_message := by decide
  isMore := by decide
  unplaced := by decide

/-- A diagnostic without a place. -/
def unplacedSample : Printed where
  place? := none
  kind := "warning"
  digits := "6"
  message := "old (1,2)"
  more := []
  kind_eq := by decide
  isNumeral_digits := by decide
  unbroken_message := by decide
  isMore := by decide
  unplaced := by decide

/-- The lines of both, with blank lines and line ends of several kinds. -/
def sampleLines : List (Text × Text) :=
  [("\r\n", placedSample.header), ("\r\n", "  in d(1,2): error"), ("\n", "\t"),
    ("\n", unplacedSample.header), ("\u2028", [])]

/-- The report with these lines, behind an empty one. -/
def sampleReport : Text :=
  Text.ofString "\r\nb(1,2):c.ts(30,7): error TS2322: no\r\n  in d(1,2): error\n\t\n" ++
    Text.ofString "warning TS6: old (1,2)\u2028"

theorem parse_printed_samples :
    parse sampleReport =
      .ok [{ kind := "error", message := "no\n  in d(1,2): error", file? := some "b(1,2):c.ts",
             code? := some "TS2322", line? := some 30, column? := some 7 },
           { kind := "warning", message := "old (1,2)", code? := some "TS6" }] := by
  have hreport : joinLines [] sampleLines = sampleReport := by decide +kernel
  have h := (@parse_printed [] sampleLines [placedSample, unplacedSample] (by decide +kernel)
    (by decide +kernel)).1.2 (by decide +kernel)
  rw [hreport] at h
  exact h.trans (congrArg Except.ok (by decide +kernel))

/-- A power of ten with one digit more than a number that is read may have. -/
def overlongNumeral : Numeral where
  text := CodePoint.ofChar '1' :: List.replicate TooManyDigits.limit (CodePoint.ofChar '0')
  isNumeral := by
    refine ⟨List.cons_ne_nil _ _, fun c hc => ?_⟩
    rcases List.mem_cons.1 hc with rfl | hc
    · decide
    · rw [List.eq_of_mem_replicate hc]
      decide

/-- A diagnostic in a line with this number. -/
def overlongSample : Printed where
  place? := some {
    file := "a"
    line := overlongNumeral
    column := .ofNat 1
    ne_nil := by decide
    unbroken := by decide
    unmarked := unmarked_of_not_mem_space (by decide) }
  kind := "error"
  digits := "1"
  message := "x"
  more := []
  kind_eq := by decide
  isNumeral_digits := by decide
  unbroken_message := by decide
  isMore := by decide
  unplaced := nofun

/-- The report of this diagnostic is not read. -/
theorem parse_overlongSample :
    parse overlongSample.header ≠ .ok [overlongSample.diagnostic] := by
  intro h
  have hjoin : joinLines overlongSample.header [] = overlongSample.header := by simp [joinLines]
  rw [← hjoin] at h
  have hlines : [overlongSample.header].filter (!Text.isBlank ·) =
      [overlongSample].flatMap Printed.lines := by
    rw [List.filter_cons_of_pos (by rw [overlongSample.isBlank_header]; rfl)]
    rfl
  have hread := (@exists_parse_printed_iff overlongSample.header [] _ (List.forall_mem_nil _)
    hlines).1 ⟨_, h⟩
  have hline : TooManyDigits.limit + 1 ≤ TooManyDigits.limit := by
    simpa [overlongNumeral] using (hread overlongSample List.mem_cons_self _ rfl).1
  exact Nat.not_succ_le_self _ hline

end Report

end Report

end ScriptBundle
