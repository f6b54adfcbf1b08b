import ScriptBundle.Text.Blank
import ScriptBundle.Text.Lines

/-!
# Written lines

The lines of a report that are not blank are what a reader has to account for. Cutting a text into lines
drops line boundaries only, which are white space, so a text has a written line unless it is blank
throughout; and two texts that are joined by a line boundary have the written lines of both.

* `Text.writtenLines`: the lines that are not blank;
* `Text.Unbroken`: a text without line boundaries, which is one line;
* `forall_isBlank_iff`: the lines of a text are blank when the text is;
* `writtenLines_append_boundary`: the written lines of joined texts;
* `boundaryLines_append_lineFeed`: the lines behind an unbroken one.
-/

namespace ScriptBundle

/-- The line boundaries. -/
def CodePoint.lineBoundaries : List CodePoint :=
  ['\n', '\x0b', '\x0c', '\r', '\x1c', '\x1d', '\x1e', '\u0085', '\u2028', '\u2029']

theorem CodePoint.mem_lineBoundaries {c : CodePoint} (h : c.isLineBoundary) : c ∈ lineBoundaries := by
  have hval : c.val ∈ lineBoundaries.map (·.val) := by
    simp only [isLineBoundary, Bool.or_eq_true, Bool.and_eq_true, decide_eq_true_eq] at h
    show c.val ∈ ([10, 11, 12, 13, 0x1C, 0x1D, 0x1E, 0x85, 0x2028, 0x2029] : List Nat)
    simp only [List.mem_cons, List.not_mem_nil, or_false]
    omega
  obtain ⟨d, hd, hc⟩ := List.mem_map.1 hval
  rwa [← CodePoint.ext hc]

/-- Line boundaries are white space. -/
theorem CodePoint.isBlank_of_isLineBoundary {c : CodePoint} (h : c.isLineBoundary) : c.isBlank :=
  (by decide : ∀ c ∈ lineBoundaries, c.isBlank) c (mem_lineBoundaries h)

namespace Text

/-- The lines of a report that are not blank. -/
def writtenLines (s : Text) : List Text := (boundaryLines s).filter (!isBlank ·)

/-- The text has no line boundary. -/
def Unbroken (s : Text) : Prop := ∀ c ∈ s, c.isLineBoundary = false

instance (s : Text) : Decidable (Unbroken s) := inferInstanceAs (Decidable (∀ c ∈ s, _))

variable {s t line : Text} {done : List Text} {afterReturn : Bool}

@[simp] theorem isBlank_nil : isBlank [] = true := rfl

theorem isBlank_cons (c : CodePoint) (s : Text) : isBlank (c :: s) = (c.isBlank && isBlank s) := rfl

@[simp] theorem isBlank_append (s t : Text) : isBlank (s ++ t) = (isBlank s && isBlank t) :=
  List.all_append

@[simp] theorem isBlank_reverse (s : Text) : isBlank s.reverse = isBlank s :=
  List.all_reverse

/-! ### Cutting at boundaries -/

/-- The lines that are done stay in front of the others. -/
theorem boundaryLinesAfter_eq (done : List Text) (line : Text) (afterReturn : Bool) (s : Text) :
    boundaryLinesAfter done line afterReturn s =
      done.reverse ++ boundaryLinesAfter [] line afterReturn s := by
  induction s generalizing done line afterReturn with
  | nil =>
    simp only [boundaryLinesAfter]
    split <;> simp
  | cons c s ih =>
    simp only [boundaryLinesAfter]
    split
    · exact ih done line false
    · split
      · rw [ih (line.reverse :: done), ih [line.reverse]]
        simp
      · exact ih done (c :: line) false

theorem boundaryLinesAfter_nil (line : Text) (afterReturn : Bool) :
    boundaryLinesAfter [] line afterReturn [] = if line.isEmpty then [] else [line.reverse] := by
  simp only [boundaryLinesAfter]
  split <;> rfl

/-- A line feed behind a carriage return is passed over; any other boundary ends the line. -/
theorem boundaryLinesAfter_cons (line : Text) (afterReturn : Bool) (c : CodePoint) (s : Text) :
    boundaryLinesAfter [] line afterReturn (c :: s) =
      if c = '\n' && afterReturn then boundaryLinesAfter [] line false s
      else if c.isLineBoundary then line.reverse :: boundaryLinesAfter [] [] (c = '\r') s
      else boundaryLinesAfter [] (c :: line) false s := by
  rw [boundaryLinesAfter, boundaryLinesAfter_eq [line.reverse]]
  rfl

/-- All lines are blank when the beginning of the first one and the rest of the text are. -/
theorem forall_isBlank_boundaryLinesAfter (line : Text) (afterReturn : Bool) (s : Text) :
    (∀ l ∈ boundaryLinesAfter [] line afterReturn s, isBlank l) ↔ isBlank line ∧ isBlank s := by
  induction s generalizing line afterReturn with
  | nil =>
    rw [boundaryLinesAfter_nil]
    split
    · next h => simp [List.isEmpty_iff.1 h]
    · simp
  | cons c s ih =>
    rw [boundaryLinesAfter_cons, isBlank_cons]
    split
    · next h =>
      have hc : c.isBlank := by
        simp only [Bool.and_eq_true, decide_eq_true_eq] at h
        rw [h.1]
        decide
      simp [ih, hc]
    · split
      · next h => simp [ih, CodePoint.isBlank_of_isLineBoundary h]
      · rw [ih, isBlank_cons, Bool.and_eq_true, Bool.and_eq_true, and_assoc, and_left_comm]

/-- The lines of a text are blank exactly when the text is. -/
theorem forall_isBlank_iff : (∀ l ∈ boundaryLines s, isBlank l) ↔ isBlank s := by
  rw [boundaryLines, forall_isBlank_boundaryLinesAfter]
  simp

theorem writtenLines_eq_nil_iff : writtenLines s = [] ↔ isBlank s := by
  rw [writtenLines, List.filter_eq_nil_iff, ← forall_isBlank_iff]
  simp

/-- A line feed that may belong to a carriage return in front of it makes no difference to the written
lines. -/
theorem filter_boundaryLinesAfter_return (t : Text) :
    (boundaryLinesAfter [] [] true t).filter (!isBlank ·) = writtenLines t := by
  cases t with
  | nil => rfl
  | cons c t =>
    rw [writtenLines, boundaryLines, boundaryLinesAfter_cons, boundaryLinesAfter_cons]
    by_cases hc : c = '\n'
    · subst hc
      rfl
    · simp [hc]

/-- Behind a line boundary the lines start anew. A carriage return in front of a line feed has ended its
line already, so that no line is open there. -/
theorem filter_boundaryLinesAfter_append (hline : afterReturn → line = []) {c : CodePoint}
    (hc : c.isLineBoundary) (s t : Text) :
    (boundaryLinesAfter [] line afterReturn (s ++ c :: t)).filter (!isBlank ·) =
      (boundaryLinesAfter [] line afterReturn s).filter (!isBlank ·) ++ writtenLines t := by
  have hanew : ∀ b, (boundaryLinesAfter [] [] b t).filter (!isBlank ·) = writtenLines t := by
    rintro (_ | _)
    · rfl
    · exact filter_boundaryLinesAfter_return t
  induction s generalizing line afterReturn with
  | nil =>
    rw [List.nil_append, boundaryLinesAfter_cons, boundaryLinesAfter_nil]
    split
    · next h =>
      obtain rfl := hline (Bool.and_eq_true_iff.1 h).2
      rfl
    · rw [List.filter_cons, hanew]
      by_cases hempty : line = []
      · simp [hempty]
      · simp only [List.isEmpty_iff, hempty, if_false, List.filter_cons]
        split <;> rfl
  | cons d s ih =>
    rw [List.cons_append, boundaryLinesAfter_cons, boundaryLinesAfter_cons]
    split
    · exact ih (by simp)
    · split
      · rw [List.filter_cons, List.filter_cons, ih (fun _ => rfl)]
        split <;> rfl
      · exact ih (by simp)

/-- The written lines of two texts that a line boundary joins are those of both. -/
theorem writtenLines_append_boundary {c : CodePoint} (hc : c.isLineBoundary) (s t : Text) :
    writtenLines (s ++ c :: t) = writtenLines s ++ writtenLines t :=
  filter_boundaryLinesAfter_append (by simp) hc s t

theorem writtenLines_append_lineFeed (s t : Text) :
    writtenLines (s ++ CodePoint.ofChar '\n' :: t) = writtenLines s ++ writtenLines t :=
  writtenLines_append_boundary (by decide) s t

/-! ### A text of one line -/

theorem boundaryLinesAfter_of_unbroken (h : Unbroken s) :
    boundaryLinesAfter [] line afterReturn s =
      if (line.reverse ++ s).isEmpty then [] else [line.reverse ++ s] := by
  induction s generalizing line afterReturn with
  | nil => simp [boundaryLinesAfter_nil]
  | cons c s ih =>
    obtain ⟨hc, hs⟩ := List.forall_mem_cons.1 h
    have hfeed : c ≠ '\n' := by
      rintro rfl
      cases hc
    rw [boundaryLinesAfter_cons, if_neg (by simp [hfeed]), if_neg (by simp [hc]), ih hs]
    simp

/-- A text without line boundaries is its only line. -/
theorem boundaryLines_of_unbroken (h : Unbroken s) (hne : s ≠ []) : boundaryLines s = [s] := by
  rw [boundaryLines, boundaryLinesAfter_of_unbroken h]
  simp [hne]

theorem writtenLines_of_unbroken (h : Unbroken s) (hblank : isBlank s = false) : writtenLines s = [s] := by
  have hne : s ≠ [] := by
    rintro rfl
    cases hblank
  rw [writtenLines, boundaryLines_of_unbroken h hne]
  simp [hblank]

/-! ### The lines one by one -/

theorem Unbroken.append (hs : Unbroken s) (ht : Unbroken t) : Unbroken (s ++ t) :=
  fun c hc => (List.mem_append.1 hc).elim (hs c) (ht c)

theorem Unbroken.reverse (h : Unbroken s) : Unbroken s.reverse := fun c hc => h c (List.mem_reverse.1 hc)

/-- No line has a line boundary. -/
theorem unbroken_of_mem_boundaryLinesAfter (hline : Unbroken line) {l : Text}
    (hl : l ∈ boundaryLinesAfter [] line afterReturn s) : Unbroken l := by
  induction s generalizing line afterReturn with
  | nil =>
    rw [boundaryLinesAfter_nil] at hl
    split at hl
    · cases hl
    · rw [List.mem_singleton.1 hl]
      exact hline.reverse
  | cons c s ih =>
    rw [boundaryLinesAfter_cons] at hl
    split at hl
    · exact ih hline hl
    · split at hl
      · rcases List.mem_cons.1 hl with rfl | hl
        · exact hline.reverse
        · exact ih (List.forall_mem_nil _) hl
      · next hc => exact ih (List.forall_mem_cons.2 ⟨by simpa using hc, hline⟩) hl

theorem unbroken_of_mem_boundaryLines {l : Text} (hl : l ∈ boundaryLines s) : Unbroken l :=
  unbroken_of_mem_boundaryLinesAfter (by decide) hl

/-- Behind a line feed that ends an unbroken line come the lines of the rest. -/
theorem boundaryLines_append_lineFeed (h : Unbroken s) (t : Text) :
    boundaryLines (s ++ CodePoint.ofChar '\n' :: t) = s :: boundaryLines t := by
  suffices hafter : ∀ line : Text, boundaryLinesAfter [] line false (s ++ CodePoint.ofChar '\n' :: t) =
      (line.reverse ++ s) :: boundaryLines t from hafter []
  induction s with
  | nil =>
    intro line
    rw [List.nil_append, boundaryLinesAfter_cons, if_neg (by simp), if_pos (by decide), List.append_nil]
    rfl
  | cons c s ih =>
    obtain ⟨hc, hs⟩ := List.forall_mem_cons.1 h
    intro line
    rw [List.cons_append, boundaryLinesAfter_cons, if_neg (by simp), if_neg (by simp [hc]), ih hs]
    simp

end Text

end ScriptBundle
