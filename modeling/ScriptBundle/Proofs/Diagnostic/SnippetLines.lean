import ScriptBundle.Diagnostic.Snippet
import ScriptBundle.Proofs.Text.WrittenLines
import ScriptBundle.Proofs.Token.Lossless

/-!
# The line that a snippet shows

The place of a diagnostic counts lines as positions do: only a line feed starts a new one. A snippet is cut
from the file at every line boundary that Unicode knows. It shows the line that the diagnostic means, with
the caret below the column that it means, as long as no line up to there holds another boundary; and some
line up to there is shown wrongly if one does.

* `IsLine`: the lines of a source, as positions count them;
* `boundaryLines_getElem?_of_isLine`: where both counts agree;
* `Shows`: what a snippet should look like;
* `shows_iff_lineAt?`: what it depends on;
* `shows_isLine_iff`: the snippets of a file.
-/

namespace ScriptBundle

/-! ### Lines as positions count them -/

/-- The line of the source with the number `n`: behind it comes a line feed or the end of the source, and
an empty rest behind the last line feed is no line. -/
structure IsLine (source : Text) (n : Nat) (line : Text) : Prop where
  not_mem : CodePoint.ofChar '\n' ∉ line
  exists_split : ∃ before after, source = before ++ line ++ after ∧
    (Position.start.after before).line = n ∧ (Position.start.after before).column = 1 ∧
    (after = [] ∨ after.head? = some '\n') ∧ (line ≠ [] ∨ after ≠ [])

namespace Position

/-- A line begins behind a line feed. -/
theorem column_after_start_eq_one_iff {s : Text} :
    (start.after s).column = 1 ↔ s = [] ∨ s.getLast? = some '\n' := by
  rw [column_after_start]
  rcases List.eq_nil_or_concat' s with rfl | ⟨s, c, rfl⟩
  · simp
  · by_cases hc : c = '\n'
    · simp [hc]
    · simp [hc]

theorem line_after_start (s : Text) : (start.after s).line = 1 + Text.lineFeeds s := line_after start s

/-- Behind a first line, lines begin where they begin in the rest. -/
theorem begins_append_iff {l : Text} (hl : CodePoint.ofChar '\n' ∉ l) (s : Text) (n : Nat) :
    (start.after (l ++ CodePoint.ofChar '\n' :: s)).line = n + 1 ∧
        (start.after (l ++ CodePoint.ofChar '\n' :: s)).column = 1 ↔
      (start.after s).line = n ∧ (start.after s).column = 1 := by
  have hfeeds : Text.lineFeeds (l ++ CodePoint.ofChar '\n' :: s) = Text.lineFeeds s + 1 := by
    have hcount : List.count (CodePoint.ofChar '\n') l = 0 := List.count_eq_zero.2 hl
    simp [Text.lineFeeds, hcount]
  have hlast : (l ++ CodePoint.ofChar '\n' :: s).getLast? = some '\n' ↔
      s = [] ∨ s.getLast? = some '\n' := by
    rcases List.eq_nil_or_concat' s with rfl | ⟨s, c, rfl⟩
    · simp
    · simp [List.getLast?_cons]
  rw [line_after_start, line_after_start, hfeeds, column_after_start_eq_one_iff,
    column_after_start_eq_one_iff, hlast, ← Nat.add_assoc, Nat.add_right_cancel_iff]
  simp

end Position

namespace IsLine

variable {source l line t : Text} {n : Nat}

theorem pos (h : IsLine source n line) : 0 < n := by
  obtain ⟨-, before, after, -, hline, -⟩ := h
  rw [Position.line_after_start] at hline
  omega

/-- The first line. -/
theorem first (h : IsLine source 1 line) :
    (source = line ∧ line ≠ []) ∨ ∃ t, source = line ++ CodePoint.ofChar '\n' :: t := by
  obtain ⟨-, before, after, rfl, hline, hcolumn, hafter, hne⟩ := h
  rw [Position.line_after_start] at hline
  have hfeeds : CodePoint.ofChar '\n' ∉ before := List.count_eq_zero.1 (Nat.add_left_cancel hline)
  rcases Position.column_after_start_eq_one_iff.1 hcolumn with rfl | hlast
  · rcases hafter with rfl | hafter
    · exact .inl ⟨by simp, by simpa using hne⟩
    · obtain ⟨t, rfl⟩ := List.head?_eq_some_iff.1 hafter
      exact .inr ⟨t, rfl⟩
  · exact absurd (List.mem_of_getLast? hlast) hfeeds

/-- A line of what follows a line feed is a line of the whole. -/
theorem behind (h : IsLine t n line) (hl : CodePoint.ofChar '\n' ∉ l) :
    IsLine (l ++ CodePoint.ofChar '\n' :: t) (n + 1) line := by
  obtain ⟨hfeed, before, after, rfl, hline, hcolumn, hend⟩ := h
  obtain ⟨hline, hcolumn⟩ := (Position.begins_append_iff hl before n).2 ⟨hline, hcolumn⟩
  exact ⟨hfeed, l ++ CodePoint.ofChar '\n' :: before, after, by simp, hline, hcolumn, hend⟩

/-- A line that is not the first is a line of what follows the first. -/
theorem exists_behind (h : IsLine source (n + 2) line) :
    ∃ l t, source = l ++ CodePoint.ofChar '\n' :: t ∧ CodePoint.ofChar '\n' ∉ l ∧
      IsLine t (n + 1) line := by
  obtain ⟨hfeed, before, after, rfl, hline, hcolumn, hend⟩ := h
  have hmem : CodePoint.ofChar '\n' ∈ before := by
    rw [Position.line_after_start, Text.lineFeeds] at hline
    exact List.count_pos_iff.1 (by omega)
  obtain ⟨l, before, rfl, hl⟩ := List.eq_append_cons_of_mem hmem
  obtain ⟨hline, hcolumn⟩ := (Position.begins_append_iff hl before (n + 1)).1 ⟨hline, hcolumn⟩
  exact ⟨l, before ++ line ++ after, by simp, hl, hfeed, before, after, rfl, hline, hcolumn, hend⟩

/-- Where line feeds are the only boundaries, every line is unbroken. -/
theorem unbroken (h : IsLine source n line) (hsource : ∀ c ∈ source, c.isLineBoundary → c = '\n') :
    Text.Unbroken line := by
  obtain ⟨hfeed, before, after, rfl, -⟩ := h
  intro c hc
  by_contra hboundary
  have hmem : c ∈ before ++ line ++ after :=
    List.mem_append_left after (List.mem_append_right before hc)
  obtain rfl := hsource c hmem (by simpa using hboundary)
  exact hfeed hc

/-- The first of several lines. -/
theorem of_append (hl : CodePoint.ofChar '\n' ∉ l) (t : Text) :
    IsLine (l ++ CodePoint.ofChar '\n' :: t) 1 l :=
  ⟨hl, [], CodePoint.ofChar '\n' :: t, rfl, rfl, rfl, .inr rfl, .inr (List.cons_ne_nil _ t)⟩

end IsLine

/-- Cutting at all boundaries gives the line with the number `n` where no line up to there has one. -/
theorem boundaryLines_getElem?_of_isLine {source line : Text} {n : Nat} (h : IsLine source (n + 1) line)
    (hunbroken : ∀ m l, m ≤ n + 1 → IsLine source m l → Text.Unbroken l) :
    (Text.boundaryLines source)[n]? = some line := by
  have hline := hunbroken (n + 1) line le_rfl h
  induction n generalizing source with
  | zero =>
    rcases h.first with ⟨rfl, hne⟩ | ⟨t, rfl⟩
    · rw [Text.boundaryLines_of_unbroken hline hne]
      rfl
    · rw [Text.boundaryLines_append_lineFeed hline]
      rfl
  | succ n ih =>
    obtain ⟨l, t, rfl, hl, ht⟩ := h.exists_behind
    have hfirst := hunbroken 1 l (Nat.le_add_left 1 _) (.of_append hl t)
    rw [Text.boundaryLines_append_lineFeed hfirst, List.getElem?_cons_succ]
    exact ih ht fun m l' hm hl' => hunbroken (m + 1) l' (Nat.succ_le_succ hm) (hl'.behind hl)

/-! ### What a snippet shows -/

namespace Snippet

/-- What stands in front of a line with the number `n`. -/
def gutter (n : Nat) : Text := Text.padLeft 5 (Text.ofNat n) ++ " | "

/-- A text as a row of the log for errors. -/
def row (st : Settings) (clock text : Text) : Text :=
  (if st.timeStamps then clock ++ " [ERROR] " else []) ++ text ++ Text.lineFeed

/-- The row ends with a caret at the index `i`, and has no other. -/
def PointsAt (under : Text) (i : Nat) : Prop :=
  ∃ front, under = front ++ [CodePoint.ofChar '^'] ∧ front.length = i ∧ CodePoint.ofChar '^' ∉ front

/-- The log for the diagnostic shows its header, the line with its number and, in a row of its own, a caret
below the code point at the column; a column before the first is the first. -/
def Shows (st : Settings) (clock : Text) (ws : Workspace) (d : Diagnostic) (n : Nat) (line : Text)
    (column : Int) : Prop :=
  ∃ under, Log.render st clock (log ws d).entries =
      row st clock (d.header ws.cwd) ++ (row st clock (gutter n ++ line) ++ row st clock under) ∧
    PointsAt under ((gutter n).length + ((max 1 column).toNat - 1))

variable {st : Settings} {clock : Text} {ws : Workspace} {d : Diagnostic} {file source line : Text}
  {n : Nat} {column : Int}

theorem render_error (h : st.logLevel.admits .error) (text : Text) :
    (Log.error text).render st clock = row st clock text := by
  have hmark : LogLevel.error.mark = "[ERROR]" := rfl
  simp only [Log.Entry.render, Log.error, h, if_true, row]
  cases st.timeStamps
  · rfl
  · simp [hmark, Text.lineFeed, Text.ofString]

theorem padLeft_max (w : Nat) (s : Text) : Text.padLeft (max w s.length) s = Text.padLeft w s := by
  have hpad : max w s.length - s.length = w - s.length := by omega
  rw [Text.padLeft, hpad, Text.padLeft]

theorem ofInt_natCast (n : Nat) : Text.ofInt n = Text.ofNat n := by
  rw [Text.ofInt, if_neg (by omega), Int.natAbs_natCast]

theorem numbered_eq (n : Nat) (line : Text) : numbered n line = gutter n ++ line := by
  rw [numbered, gutterWidth, ofInt_natCast, padLeft_max, gutter]

theorem length_padLeft (w : Nat) (s : Text) : (Text.padLeft w s).length = max w s.length := by
  simp only [Text.padLeft, List.length_append, List.length_replicate]
  omega

/-- The caret stands below the column, since the rows in front of both are equally long. -/
theorem pointsAt_caret (n : Nat) (column : Int) :
    PointsAt (caret n column) ((gutter n).length + ((max 1 column).toNat - 1)) := by
  refine ⟨_, rfl, ?_, ?_⟩
  · simp only [gutter, gutterWidth, ofInt_natCast, List.length_append, length_padLeft, List.length_nil]
    omega
  · have hspace : CodePoint.ofChar '^' ≠ CodePoint.ofChar ' ' := by decide
    have hmark : CodePoint.ofChar '^' ∉ Text.ofString " | " := by decide
    simp [Text.padLeft, hspace, hmark]

theorem PointsAt.length {under : Text} {i : Nat} (h : PointsAt under i) : under.length = i + 1 := by
  obtain ⟨front, rfl, rfl, -⟩ := h
  simp

/-- The snippet of a diagnostic in a file that can be read. -/
theorem lines_of_readText (hfile : file ≠ [])
    (hread : ws.tree.readText ws.cwd (Path.ofText file) = .ok source) (hd : d.file? = some file)
    (hline : d.line? = some ((n + 1 : Nat) : Int)) (hcolumn : d.column? = some column) :
    lines ws d = .ok
      (match (Text.boundaryLines source)[n]? with
      | none => []
      | some line => [gutter (n + 1) ++ line, caret (n + 1 : Nat) column]) := by
  obtain ⟨c, file, rfl⟩ := List.exists_cons_of_ne_nil hfile
  have hindex : lineAt? (Text.boundaryLines source) ((n + 1 : Nat) : Int) =
      (Text.boundaryLines source)[n]? := by
    rw [lineAt?, if_neg (by omega)]
    congr 1
    omega
  have hfileLines : fileLines ws (c :: file) = .ok (Text.boundaryLines source) := by
    rw [fileLines, hread]
  simp only [lines, hd, hline, hfileLines, Except.map_ok, linesAt, hindex, hcolumn]
  cases (Text.boundaryLines source)[n]? with
  | none => rfl
  | some line =>
    simp only [numbered_eq]
    rfl

/-- A diagnostic is logged in front of its snippet. -/
theorem entries_log {ls : List Text} (h : lines ws d = .ok ls) :
    (log ws d).entries = (d.header ws.cwd :: ls).map Log.error := by
  rw [log, h]
  rfl

/-- A snippet shows the line with that number among those that it is cut into. -/
theorem shows_iff (hfile : file ≠ [])
    (hread : ws.tree.readText ws.cwd (Path.ofText file) = .ok source) (hadmits : st.logLevel.admits .error)
    (hd : d.file? = some file) (hline : d.line? = some ((n + 1 : Nat) : Int))
    (hcolumn : d.column? = some column) :
    Shows st clock ws d (n + 1) line column ↔ (Text.boundaryLines source)[n]? = some line := by
  have hlines := lines_of_readText hfile hread hd hline hcolumn
  rw [Shows, entries_log hlines, Log.render, List.flatMap_map, List.flatMap_cons]
  simp only [render_error hadmits]
  constructor
  · rintro ⟨under, h, hunder⟩
    have hrows := List.append_cancel_left h
    cases hshown : (Text.boundaryLines source)[n]? with
    | none =>
      rw [hshown] at hrows
      simp [row, Text.lineFeed, Text.ofString] at hrows
    | some shown =>
      rw [hshown, List.flatMap_cons, List.flatMap_singleton] at hrows
      have hlength : (row st clock (caret (n + 1 : Nat) column)).length = (row st clock under).length := by
        simp only [row, List.length_append, (pointsAt_caret (n + 1) column).length, hunder.length]
      have hrow := List.append_inj_left' hrows hlength
      rw [List.append_cancel_left (List.append_cancel_left (List.append_cancel_right hrow))]
  · intro h
    rw [h]
    exact ⟨caret (n + 1 : Nat) column, by simp, pointsAt_caret (n + 1) column⟩

/-- The snippets of a file show the lines that positions mean, each with the caret below the column, up to
any line exactly as far as line feeds are the only boundaries there. -/
theorem shows_isLine_iff (hfile : file ≠ [])
    (hread : ws.tree.readText ws.cwd (Path.ofText file) = .ok source) (hadmits : st.logLevel.admits .error)
    (clock : Text) (n : Nat) :
    (∀ m line, m ≤ n → IsLine source m line → ∀ (d : Diagnostic) (column : Int), d.file? = some file →
        d.line? = some (m : Int) → d.column? = some column → Shows st clock ws d m line column) ↔
      ∀ m line, m ≤ n → IsLine source m line → Text.Unbroken line := by
  constructor
  · intro h m line hm hline
    obtain ⟨k, rfl⟩ := Nat.exists_eq_add_one.2 hline.pos
    have hshows := h (k + 1) line hm hline
      { kind := [], message := [], file? := some file, line? := some (k + 1 : Nat), column? := some 1 } 1
      rfl rfl rfl
    have hshown := (shows_iff hfile hread hadmits rfl rfl rfl).1 hshows
    exact Text.unbroken_of_mem_boundaryLines (List.mem_of_getElem? hshown)
  · intro h m line hm hline d column hd hdline hcolumn
    obtain ⟨k, rfl⟩ := Nat.exists_eq_add_one.2 hline.pos
    refine (shows_iff hfile hread hadmits hd hdline hcolumn).2 ?_
    exact boundaryLines_getElem?_of_isLine hline fun i l hi hl => h i l (hi.trans hm) hl

/-- A workspace with one file in its working directory. -/
def workspaceOf (name content : Text) : Workspace where
  tree := ⟨[([Text.ofString "proj"], .directory),
    ([Text.ofString "proj", name], .file (content.flatMap Utf8.encodePoint))]⟩
  cwd := Path.ofText "/proj"

/-- The last of three lines, in a log with time stamps. -/
theorem shows_lastLine :
    Shows { timeStamps := true } "12:00" (workspaceOf "a.ts" "let x\r\n\r\nend x")
      { kind := "error", message := "m", file? := some "a.ts", line? := some 3, column? := some 5 } 3 "end x"
      5 := by
  have hread : (workspaceOf "a.ts" "let x\r\n\r\nend x").tree.readText
      (workspaceOf "a.ts" "let x\r\n\r\nend x").cwd (Path.ofText "a.ts") = .ok "let x\n\nend x" := by
    rfl
  have hline : IsLine "let x\n\nend x" 3 "end x" :=
    ⟨by decide, "let x\n\n", [], rfl, by decide, by decide, .inl rfl, .inl (by decide)⟩
  have hunbroken : ∀ m line, m ≤ 3 → IsLine "let x\n\nend x" m line → Text.Unbroken line :=
    fun m line _ h => h.unbroken (by decide)
  exact (shows_isLine_iff (by decide) hread (by decide) "12:00" 3).2 hunbroken 3 "end x" le_rfl hline
    { kind := "error", message := "m", file? := some "a.ts", line? := some 3, column? := some 5 } 5
    rfl rfl rfl

/-- A form feed takes the second line of a file away: the rest of the first one is shown. -/
theorem not_shows_behind_formFeed :
    IsLine "a\x0cb\nc" 2 "c" ∧
      (workspaceOf "a.ts" "a\x0cb\nc").tree.readText (workspaceOf "a.ts" "a\x0cb\nc").cwd
        (Path.ofText "a.ts") = .ok "a\x0cb\nc" ∧
      ¬ Shows { } [] (workspaceOf "a.ts" "a\x0cb\nc")
        { kind := "error", message := "m", file? := some "a.ts", line? := some 2, column? := some 1 } 2 "c"
        1 := by
  have hread : (workspaceOf "a.ts" "a\x0cb\nc").tree.readText (workspaceOf "a.ts" "a\x0cb\nc").cwd
      (Path.ofText "a.ts") = .ok "a\x0cb\nc" := by
    rfl
  refine ⟨⟨by decide, "a\x0cb\n", [], rfl, by decide, by decide, .inl rfl, .inl (by decide)⟩, hread,
    fun h => ?_⟩
  have hshown := (shows_iff (by decide) hread (by decide) rfl rfl rfl).1 h
  revert hshown
  decide

end Snippet

end ScriptBundle
