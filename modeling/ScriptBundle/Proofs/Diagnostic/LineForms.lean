import ScriptBundle.Diagnostic.Report

/-!
# The forms of a report's lines

A line of a report that opens a diagnostic reads `file(line,column): kind code: message`, where the name
of the file is the shortest possible, or `kind code: message`, or it has another form. The readers of
these forms find exactly them.

* `IsNumeral`, `IsCoded`, `HasPlace`, `IsLocated`: the forms;
* `global?_eq_some_iff`, `located?_eq_some_iff`: what the readers find;
* `Opens`, `Continues`, `IsOverlong`: what becomes of a line.
-/

namespace ScriptBundle.Report

/-! ### The forms -/

/-- A decimal number. -/
def IsNumeral (s : Text) : Prop := s ≠ [] ∧ ∀ c ∈ s, c.isDecimal

/-- The text reads `kind code: message`, and that is the diagnostic. -/
inductive IsCoded : Text → Diagnostic → Prop
  | intro {kind digits message : Text} (hkind : kind = "error" ∨ kind = "warning")
      (hdigits : IsNumeral digits) :
      IsCoded (kind ++ (" TS" ++ (digits ++ (": " ++ message))))
        { kind, message, code? := some ("TS" ++ digits) }

/-- What follows the name of a file: its place, and a text. -/
def placed (line column text : Text) : Text := "(" ++ (line ++ ("," ++ (column ++ ("): " ++ text))))

/-- The text reads `(line,column): kind code: message`. -/
structure IsPlaced (s line column : Text) (d : Diagnostic) : Prop where
  isNumeral_line : IsNumeral line
  isNumeral_column : IsNumeral column
  exists_text : ∃ text, s = placed line column text ∧ IsCoded text d

/-- The line reads `file(line,column): kind code: message`. -/
structure HasPlace (s file line column : Text) (d : Diagnostic) : Prop where
  ne_nil : file ≠ []
  exists_rest : ∃ rest, s = file ++ rest ∧ IsPlaced rest line column d

/-- The line reads `file(line,column): kind code: message`, and with no shorter name of the file. -/
structure IsLocated (s file line column : Text) (d : Diagnostic) : Prop extends
    HasPlace s file line column d where
  length_le : ∀ file' line' column' d', HasPlace s file' line' column' d' → file.length ≤ file'.length

/-- The diagnostic `d` at a place. -/
def readPlace (line column : Text) (d : Diagnostic) : Except TooManyDigits Diagnostic := do
  return { d with line? := some (← Text.readDecimal line), column? := some (← Text.readDecimal column) }

/-! ### Reading the forms -/

section Reading

variable {s rest mark file line column done : Text} {d : Diagnostic}

theorem after?_eq_some_iff : after? mark s = some rest ↔ s = mark ++ rest := by
  unfold after?
  constructor
  · intro h
    split at h
    · next hmark =>
      cases h
      exact (List.prefix_iff_eq_append.1 (List.isPrefixOf_iff_prefix.1 hmark)).symm
    · cases h
  · rintro rfl
    simp

theorem takeWhile_numeral {digits : Text} (h : ∀ c ∈ digits, c.isDecimal)
    (hrest : rest.head?.all fun c => !c.isDecimal) : (digits ++ rest).takeWhile (·.isDecimal) = digits := by
  rw [List.takeWhile_append_of_pos h]
  cases rest with
  | nil => simp
  | cons c rest => simp_all

/-- The digits at the head of a text, if there are any, and what follows them. -/
theorem digits_iff {digits : Text} (hhead : rest.head?.all fun c => !c.isDecimal) :
    (s.takeWhile (·.isDecimal) = digits ∧ digits ≠ [] ∧ s.drop digits.length = rest) ↔
      IsNumeral digits ∧ s = digits ++ rest := by
  constructor
  · rintro ⟨rfl, hne, rfl⟩
    refine ⟨⟨hne, fun c hc => List.all_eq_true.1 List.all_takeWhile c hc⟩, ?_⟩
    exact (List.prefix_iff_eq_append.1 (List.takeWhile_prefix _)).symm
  · rintro ⟨⟨hne, hdigits⟩, rfl⟩
    exact ⟨takeWhile_numeral hdigits hhead, hne, List.drop_left⟩

theorem kind?_eq_some_iff {kind : Text} :
    kind? s = some (kind, rest) ↔ (kind = "error" ∨ kind = "warning") ∧ s = kind ++ rest := by
  unfold kind?
  cases herror : after? "error" s with
  | some r =>
    have hs := after?_eq_some_iff.1 herror
    constructor
    · intro h
      cases h
      exact ⟨.inl rfl, hs⟩
    · rintro ⟨rfl | rfl, h⟩
      · rw [hs] at h
        rw [List.append_cancel_left h]
      · rw [hs] at h
        cases h
  | none =>
    rw [Option.map_eq_some_iff]
    constructor
    · rintro ⟨r, hr, h⟩
      cases h
      exact ⟨.inr rfl, after?_eq_some_iff.1 hr⟩
    · rintro ⟨rfl | rfl, h⟩
      · rw [after?_eq_some_iff.2 h] at herror
        cases herror
      · exact ⟨rest, after?_eq_some_iff.2 h, rfl⟩

/-- A number at the head of a text, in front of what is no digit. -/
theorem number?_eq_some_iff {x : Except TooManyDigits Nat} (hhead : rest.head?.all fun c => !c.isDecimal) :
    number? s = some (x, rest) ↔
      ∃ digits, IsNumeral digits ∧ s = digits ++ rest ∧ x = Text.readDecimal digits := by
  unfold number?
  constructor
  · intro h
    simp only at h
    split at h
    · cases h
    · next hne =>
      obtain ⟨rfl, hrest⟩ := Prod.mk.inj (Option.some.inj h)
      have hdigits := (digits_iff hhead).1 ⟨rfl, by simpa using hne, hrest⟩
      exact ⟨_, hdigits.1, hdigits.2, rfl⟩
  · rintro ⟨digits, hdigits, hs, rfl⟩
    obtain ⟨rfl, hne, hrest⟩ := (digits_iff hhead).2 ⟨hdigits, hs⟩
    rw [if_neg (by simpa using hne), hrest]

theorem global?_eq_some_iff : global? s = some d ↔ IsCoded s d := by
  have hhead : ∀ message : Text, (Text.ofString ": " ++ message).head?.all fun c => !c.isDecimal := by
    intro message
    show (some (CodePoint.ofChar ':')).all _ = true
    decide
  simp only [global?, Option.bind_eq_bind, Option.bind_eq_some_iff, Prod.exists]
  constructor
  · rintro ⟨kind, s', hkind, s'', hmark, h⟩
    obtain ⟨hword, rfl⟩ := kind?_eq_some_iff.1 hkind
    obtain rfl := after?_eq_some_iff.1 hmark
    split at h
    · cases h
    · next hne =>
      obtain ⟨message, hmessage, h⟩ := Option.bind_eq_some_iff.1 h
      obtain ⟨hdigits, hs⟩ := (digits_iff (hhead message)).1
        ⟨rfl, by simpa using hne, after?_eq_some_iff.1 hmessage⟩
      cases h
      generalize s''.takeWhile (·.isDecimal) = digits at hdigits hs ⊢
      rw [hs]
      exact .intro hword hdigits
  · rintro ⟨hkind, hdigits⟩
    next kind digits message =>
    refine ⟨_, _, kind?_eq_some_iff.2 ⟨hkind, rfl⟩, _, after?_eq_some_iff.2 rfl, ?_⟩
    obtain ⟨htake, hne, hdrop⟩ := (digits_iff (hhead message)).2 ⟨hdigits, rfl⟩
    rw [htake, if_neg (by simpa using hne), hdrop, after?_eq_some_iff.2 rfl]
    rfl

theorem location?_eq_some_iff {x : Except TooManyDigits Diagnostic} :
    location? s = some x ↔ ∃ line column d, IsPlaced s line column d ∧ x = readPlace line column d := by
  have hcomma : ∀ t : Text, (Text.ofString "," ++ t).head?.all fun c => !c.isDecimal := by
    intro t
    show (some (CodePoint.ofChar ',')).all _ = true
    decide
  have hclose : ∀ t : Text, (Text.ofString "): " ++ t).head?.all fun c => !c.isDecimal := by
    intro t
    show (some (CodePoint.ofChar ')')).all _ = true
    decide
  simp only [location?, Option.bind_eq_bind, Option.bind_eq_some_iff, Prod.exists]
  constructor
  · rintro ⟨s₁, hopen, x₁, s₂, hline, s₃, hmark, x₂, s₄, hcolumn, text, hend, d, hd, h⟩
    obtain rfl := after?_eq_some_iff.1 hopen
    obtain rfl := after?_eq_some_iff.1 hmark
    obtain rfl := after?_eq_some_iff.1 hend
    obtain ⟨line, hlineDigits, rfl, rfl⟩ := (number?_eq_some_iff (hcomma s₃)).1 hline
    obtain ⟨column, hcolumnDigits, rfl, rfl⟩ := (number?_eq_some_iff (hclose text)).1 hcolumn
    cases h
    exact ⟨line, column, d, ⟨hlineDigits, hcolumnDigits, text, rfl, global?_eq_some_iff.1 hd⟩, rfl⟩
  · rintro ⟨line, column, d, ⟨hline, hcolumn, text, rfl, hd⟩, rfl⟩
    exact ⟨_, after?_eq_some_iff.2 rfl,
      _, _, (number?_eq_some_iff (hcomma _)).2 ⟨line, hline, rfl, rfl⟩, _, after?_eq_some_iff.2 rfl,
      _, _, (number?_eq_some_iff (hclose _)).2 ⟨column, hcolumn, rfl, rfl⟩, _, after?_eq_some_iff.2 rfl,
      d, global?_eq_some_iff.2 hd, rfl⟩

/-- Looking for the place behind `done` and one more code point finds it behind the shortest name. -/
theorem locatedFrom?_eq_some_iff {x : Except TooManyDigits Diagnostic} :
    locatedFrom? done s = some x ↔
      ∃ file rest y, s = file ++ rest ∧ file ≠ [] ∧ location? rest = some y ∧
        x = y.map (fun d => { d with file? := some (done.reverse ++ file) }) ∧
        ∀ file' rest', s = file' ++ rest' → file' ≠ [] → location? rest' ≠ none →
          file.length ≤ file'.length := by
  induction s generalizing done with
  | nil =>
    constructor
    · intro h
      cases h
    · rintro ⟨file, rest, y, hs, hne, -⟩
      exact absurd (List.append_eq_nil_iff.1 hs.symm).1 hne
  | cons c s ih =>
    rw [locatedFrom?]
    cases hplace : location? s with
    | some y =>
      constructor
      · intro h
        refine ⟨[c], s, y, rfl, List.cons_ne_nil c [], hplace, ?_, ?_⟩
        · simpa using (Option.some.inj h).symm
        · intro file' rest' _ hne _
          exact List.length_pos_iff.2 hne
      · rintro ⟨file, rest, y', hs, hne, hy', rfl, hshortest⟩
        have hlength := hshortest [c] s rfl (List.cons_ne_nil c []) (by simp [hplace])
        obtain ⟨b, file, rfl⟩ := List.exists_cons_of_ne_nil hne
        obtain rfl : file = [] := by simpa using hlength
        obtain ⟨rfl, rfl⟩ := List.cons.inj hs
        rw [hplace] at hy'
        cases hy'
        simp
    | none =>
      rw [ih]
      constructor
      · rintro ⟨file, rest, y, rfl, hne, hy, rfl, hshortest⟩
        refine ⟨c :: file, rest, y, rfl, List.cons_ne_nil c file, hy, by simp, ?_⟩
        intro file' rest' hs hne' hsome
        obtain ⟨b, file', rfl⟩ := List.exists_cons_of_ne_nil hne'
        have htail : file ++ rest = file' ++ rest' := List.tail_eq_of_cons_eq hs
        by_cases hfile' : file' = []
        · rw [hfile', List.nil_append] at htail
          rw [← htail, hplace] at hsome
          exact absurd rfl hsome
        · have := hshortest file' rest' htail hfile' hsome
          simpa using this
      · rintro ⟨file, rest, y, hs, hne, hy, rfl, hshortest⟩
        obtain ⟨b, file, rfl⟩ := List.exists_cons_of_ne_nil hne
        obtain rfl : c = b := List.head_eq_of_cons_eq hs
        have htail : s = file ++ rest := List.tail_eq_of_cons_eq hs
        have hfile : file ≠ [] := by
          rintro rfl
          rw [List.nil_append] at htail
          rw [htail, hy] at hplace
          cases hplace
        refine ⟨file, rest, y, htail, hfile, hy, by simp, ?_⟩
        intro file' rest' hs' hne' hsome
        have := hshortest (c :: file') rest' (by rw [hs', List.cons_append]) (List.cons_ne_nil c file') hsome
        simpa using this

theorem located?_eq_some_iff {x : Except TooManyDigits Diagnostic} :
    located? s = some x ↔
      ∃ file line column d, IsLocated s file line column d ∧
        x = (readPlace line column d).map fun d => { d with file? := some file } := by
  rw [located?, locatedFrom?_eq_some_iff]
  constructor
  · rintro ⟨file, rest, y, hs, hne, hy, rfl, hshortest⟩
    obtain ⟨line, column, d, hplaced, rfl⟩ := location?_eq_some_iff.1 hy
    refine ⟨file, line, column, d, ⟨⟨hne, rest, hs, hplaced⟩, ?_⟩, rfl⟩
    rintro file' line' column' d' ⟨hne', rest', hs', hplaced'⟩
    refine hshortest file' rest' hs' hne' ?_
    rw [location?_eq_some_iff.2 ⟨line', column', d', hplaced', rfl⟩]
    exact Option.some_ne_none _
  · rintro ⟨file, line, column, d, ⟨⟨hne, rest, hs, hplaced⟩, hshortest⟩, rfl⟩
    refine ⟨file, rest, _, hs, hne, location?_eq_some_iff.2 ⟨line, column, d, hplaced, rfl⟩, rfl, ?_⟩
    intro file' rest' hs' hne' hsome
    obtain ⟨y, hy⟩ := Option.ne_none_iff_exists'.1 hsome
    obtain ⟨line', column', d', hplaced', -⟩ := location?_eq_some_iff.1 hy
    exact hshortest file' line' column' d' ⟨hne', rest', hs', hplaced'⟩

end Reading

/-! ### What becomes of a line -/

/-- The line has one of the two forms. -/
def HasForm (s : Text) : Prop := (∃ file line column d, IsLocated s file line column d) ∨ ∃ d, IsCoded s d

/-- The line opens the diagnostic. -/
inductive Opens (s : Text) : Diagnostic → Prop
  /-- With a place whose numbers are not too long. -/
  | located {file line column : Text} {d : Diagnostic} (h : IsLocated s file line column d)
      (hline : line.length ≤ TooManyDigits.limit) (hcolumn : column.length ≤ TooManyDigits.limit) :
      Opens s { d with
        file? := some file
        line? := some (Text.decimalValue line)
        column? := some (Text.decimalValue column) }
  /-- Without a place. -/
  | coded {d : Diagnostic} (hplace : ∀ file line column d, ¬ IsLocated s file line column d)
      (h : IsCoded s d) : Opens s d
  /-- A line of another form is an error. -/
  | other (h : ¬ HasForm s) : Opens s { kind := "error", message := Text.trimEnd s }

/-- The line goes on with the diagnostic in front of it: it starts with white space, and it has neither
of the forms. -/
def Continues (s : Text) : Prop := s.head?.any (·.isBlank) ∧ ¬ HasForm s

/-- A number of the line's place is too long. -/
def IsOverlong (s : Text) : Prop :=
  ∃ file line column d, IsLocated s file line column d ∧
    (TooManyDigits.limit < line.length ∨ TooManyDigits.limit < column.length)

section Place

variable {s line column : Text}

theorem readPlace_of_le (hline : line.length ≤ TooManyDigits.limit)
    (hcolumn : column.length ≤ TooManyDigits.limit) (d : Diagnostic) :
    readPlace line column d = .ok { d with
      line? := some (Text.decimalValue line)
      column? := some (Text.decimalValue column) } := by
  simp only [readPlace, Text.readDecimal, if_neg (Nat.not_lt.2 hline), if_neg (Nat.not_lt.2 hcolumn)]
  rfl

theorem exists_readPlace_of_lt (h : TooManyDigits.limit < line.length ∨ TooManyDigits.limit < column.length)
    (d : Diagnostic) : ∃ f, readPlace line column d = .error f := by
  by_cases hline : TooManyDigits.limit < line.length
  · refine ⟨⟨line.length⟩, ?_⟩
    simp only [readPlace, Text.readDecimal, if_pos hline]
    rfl
  · refine ⟨⟨column.length⟩, ?_⟩
    simp only [readPlace, Text.readDecimal, if_neg hline, if_pos (h.resolve_left hline)]
    rfl

theorem isOverlong_iff : IsOverlong s ↔ ∃ f, located? s = some (.error f) := by
  constructor
  · rintro ⟨file, line, column, d, hd, hlong⟩
    obtain ⟨f, hf⟩ := exists_readPlace_of_lt hlong d
    exact ⟨f, located?_eq_some_iff.2 ⟨file, line, column, d, hd, by rw [hf]; rfl⟩⟩
  · rintro ⟨f, hf⟩
    obtain ⟨file, line, column, d, hd, hx⟩ := located?_eq_some_iff.1 hf
    by_cases hlong : TooManyDigits.limit < line.length ∨ TooManyDigits.limit < column.length
    · exact ⟨file, line, column, d, hd, hlong⟩
    · simp only [not_or, Nat.not_lt] at hlong
      rw [readPlace_of_le hlong.1 hlong.2] at hx
      cases hx

/-- A line that has a place opens its diagnostic, unless a number of the place is too long. -/
theorem opens_of_located? {d : Diagnostic} (h : located? s = some (.ok d)) : Opens s d ∧ HasForm s := by
  obtain ⟨file, line, column, d', hd, hx⟩ := located?_eq_some_iff.1 h
  by_cases hlong : TooManyDigits.limit < line.length ∨ TooManyDigits.limit < column.length
  · obtain ⟨f, hf⟩ := exists_readPlace_of_lt hlong d'
    rw [hf] at hx
    cases hx
  · simp only [not_or, Nat.not_lt] at hlong
    rw [readPlace_of_le hlong.1 hlong.2] at hx
    cases hx
    exact ⟨.located (d := d') hd hlong.1 hlong.2, .inl ⟨_, _, _, _, hd⟩⟩

theorem located?_eq_none_iff :
    located? s = none ↔ ∀ file line column d, ¬ IsLocated s file line column d := by
  constructor
  · intro h file line column d hd
    rw [located?_eq_some_iff.2 ⟨file, line, column, d, hd, rfl⟩] at h
    cases h
  · intro h
    refine Option.eq_none_iff_forall_not_mem.2 fun x hx => ?_
    obtain ⟨file, line, column, d, hd, -⟩ := located?_eq_some_iff.1 hx
    exact h file line column d hd

end Place

end ScriptBundle.Report
