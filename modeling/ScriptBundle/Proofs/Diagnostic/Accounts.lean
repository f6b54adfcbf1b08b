import Mathlib.Data.List.Forall2
import ScriptBundle.Except
import ScriptBundle.Proofs.Diagnostic.LineForms
import ScriptBundle.Proofs.Text.WrittenLines

/-!
# Every written line is accounted for

The diagnostics of a report partition its written lines: each has a line that opens it, and perhaps more
that go on with it, and the lines of all of them, one after the other, are the written lines of the report.
Only a number that is too long makes a report unreadable.

* `Entry`, `Accounts`: the lines of one diagnostic, and the diagnostics for a list of lines;
* `addLine_cases`, `addLine_eq_error_iff`: all that reading one line can do;
* `accounts_of_parse`, `exists_parse_iff`: a whole report.
-/

namespace ScriptBundle.Report

/-- The lines of one diagnostic: the one that opens it, and those that go on with it. -/
structure Entry where
  first : Text
  more : List Text

namespace Entry

/-- All lines of the diagnostic. -/
def lines (e : Entry) : List Text := e.first :: e.more

/-- The first line opens the diagnostic, and the others go on with its message. -/
def Tells (e : Entry) (d : Diagnostic) : Prop :=
  (∀ l ∈ e.more, Continues l) ∧ ∃ opened, Opens e.first opened ∧
    d = { opened with
      message := opened.message ++
      e.more.flatMap fun l => Text.lineFeed ++ Text.trimEnd l }

end Entry

/-- The diagnostics account for the lines: each for some of them, in order. A line that could go on with
a diagnostic opens one only where there is none in front of it. -/
def Accounts (lines : List Text) (ds : List Diagnostic) : Prop :=
  ∃ entries : List Entry, lines = entries.flatMap Entry.lines ∧ List.Forall₂ Entry.Tells entries ds ∧
    ∀ e ∈ entries.tail, ¬ Continues e.first

/-- The diagnostic with one more line in its message. -/
def extend (d : Diagnostic) (line : Text) : Diagnostic :=
  { d with message := d.message ++ "\n" ++ Text.trimEnd line }

namespace Accounts

variable {lines : List Text} {ds : List Diagnostic} {line : Text} {d : Diagnostic}

theorem nil : Accounts [] [] := ⟨[], rfl, .nil, fun e he => by cases he⟩

/-- One more diagnostic. -/
theorem opens (h : Accounts lines ds) (hd : Opens line d) (hline : ds = [] ∨ ¬ Continues line) :
    Accounts (lines ++ [line]) (ds ++ [d]) := by
  obtain ⟨entries, rfl, htells, hfirst⟩ := h
  have htell : Entry.Tells ⟨line, []⟩ d := by
    refine ⟨fun l hl => absurd hl List.not_mem_nil, d, hd, ?_⟩
    simp
  refine ⟨entries ++ [⟨line, []⟩], ?_, List.rel_append htells (.cons htell .nil), ?_⟩
  · simp [Entry.lines]
  · intro e he
    cases entries with
    | nil => cases he
    | cons e' entries =>
      rcases List.mem_append.1 he with he | he
      · exact hfirst e he
      · rcases hline with rfl | hline
        · cases htells
        · rwa [List.mem_singleton.1 he]

/-- One more line of the latest diagnostic. -/
theorem continues (h : Accounts lines (ds ++ [d])) (hline : Continues line) :
    Accounts (lines ++ [line]) (ds ++ [extend d line]) := by
  obtain ⟨entries, rfl, htells, hfirst⟩ := h
  have hfront := List.forall₂_take_append entries ds [d] htells
  obtain ⟨last, rest, hlast, hrest, hdrop⟩ :=
    List.forall₂_cons_right_iff.1 (List.forall₂_drop_append entries ds [d] htells)
  obtain rfl := List.forall₂_nil_right_iff.1 hrest
  obtain ⟨hmore, opened, hopened, rfl⟩ := hlast
  have hentries : entries = entries.take ds.length ++ [last] := by
    rw [← hdrop, List.take_append_drop]
  generalize entries.take ds.length = front at hfront hentries
  subst hentries
  refine ⟨front ++ [⟨last.first, last.more ++ [line]⟩], ?_, List.rel_append hfront (.cons ⟨?_, ?_⟩ .nil), ?_⟩
  · simp [Entry.lines]
  · intro l hl
    rcases List.mem_append.1 hl with hl | hl
    · exact hmore l hl
    · rwa [List.mem_singleton.1 hl]
  · refine ⟨opened, hopened, ?_⟩
    simp [extend, Text.lineFeed]
  · intro e he
    cases front with
    | nil => cases he
    | cons e' front =>
      rcases List.mem_append.1 he with he | he
      · exact hfirst e (List.mem_append_left _ he)
      · rw [List.mem_singleton.1 he]
        exact hfirst last (List.mem_append_right _ List.mem_cons_self)

theorem eq_nil_iff (h : Accounts lines ds) : ds = [] ↔ lines = [] := by
  obtain ⟨entries, rfl, htells, -⟩ := h
  cases htells with
  | nil => simp
  | cons => simp [Entry.lines]

end Accounts

/-! ### One line -/

section Line

variable {ds ds' : List Diagnostic} {line : Text}

theorem addLine_of_isBlank (h : Text.isBlank line) (ds : List Diagnostic) : addLine ds line = .ok ds :=
  if_pos h

/-- All that a written line can do: it opens a diagnostic, or goes on with the latest one, or a number in
it is too long. -/
theorem addLine_cases (h : Text.isBlank line = false) (ds : List Diagnostic) :
    (∃ d, addLine ds line = .ok (d :: ds) ∧ Opens line d ∧ (ds = [] ∨ ¬ Continues line)) ∨
      (∃ d rest, ds = d :: rest ∧ addLine ds line = .ok (extend d line :: rest) ∧ Continues line) ∨
      ∃ f, addLine ds line = .error f := by
  unfold addLine
  rw [if_neg (by simp [h])]
  cases hlocated : located? line with
  | some x =>
    cases x with
    | error f => exact .inr (.inr ⟨f, rfl⟩)
    | ok d =>
      obtain ⟨hopens, hform⟩ := opens_of_located? hlocated
      exact .inl ⟨d, rfl, hopens, .inr fun hc => hc.2 hform⟩
  | none =>
    have hplace := located?_eq_none_iff.1 hlocated
    cases hglobal : global? line with
    | some d =>
      have hcoded := global?_eq_some_iff.1 hglobal
      exact .inl ⟨d, rfl, .coded hplace hcoded, .inr fun hc => hc.2 (.inr ⟨d, hcoded⟩)⟩
    | none =>
      have hform : ¬ HasForm line := by
        rintro (⟨file, l, c, d, hd⟩ | ⟨d, hd⟩)
        · exact hplace file l c d hd
        · rw [global?_eq_some_iff.2 hd] at hglobal
          cases hglobal
      cases ds with
      | nil => exact .inl ⟨_, rfl, .other hform, .inl rfl⟩
      | cons d rest =>
        by_cases hblank : line.head?.any (·.isBlank)
        · exact .inr (.inl ⟨d, rest, rfl, if_pos hblank, hblank, hform⟩)
        · exact .inl ⟨_, if_neg hblank, .other hform, .inr fun hc => hblank hc.1⟩

theorem isBlank_of_isOverlong (h : IsOverlong line) : Text.isBlank line = false := by
  obtain ⟨file, l, c, d, hd, -⟩ := h
  obtain ⟨rest, rfl, -, -, text, rfl, -⟩ := hd.exists_rest
  have hparen : Text.isBlank (Text.ofString "(") = false := by decide
  simp [placed, hparen]

/-- Reading a line fails when a number of its place is too long. -/
theorem addLine_eq_error_iff {f : TooManyDigits} :
    addLine ds line = .error f ↔ located? line = some (.error f) := by
  constructor
  · intro h
    unfold addLine at h
    split at h
    · cases h
    · split at h
      · next x hx =>
        cases x with
        | error f' =>
          cases h
          exact hx
        | ok d => cases h
      · cases h
      · split at h
        · split at h <;> cases h
        · cases h
  · intro h
    have hblank := isBlank_of_isOverlong (isOverlong_iff.2 ⟨f, h⟩)
    unfold addLine
    rw [if_neg (by simp [hblank]), h]
    rfl

end Line

/-! ### A whole report -/

section Report

variable {report : Text} {ls front : List Text} {ds ds' : List Diagnostic}

/-- Reading a line keeps the account. -/
theorem Accounts.addLine {line : Text} (hacc : Accounts front ds.reverse)
    (h : Report.addLine ds line = .ok ds') :
    Accounts (front ++ [line].filter (!Text.isBlank ·)) ds'.reverse := by
  cases hblank : Text.isBlank line with
  | true =>
    rw [addLine_of_isBlank hblank] at h
    cases h
    simpa [hblank] using hacc
  | false =>
    have hline : [line].filter (!Text.isBlank ·) = [line] := by simp [hblank]
    rw [hline]
    rcases addLine_cases hblank ds with ⟨d, hok, hd, hopens⟩ | ⟨d, rest, rfl, hok, hcontinues⟩ | ⟨f, herror⟩
    · rw [hok] at h
      cases h
      rw [List.reverse_cons]
      exact hacc.opens hd (hopens.imp_left fun hds => by rw [hds]; rfl)
    · rw [hok] at h
      cases h
      rw [List.reverse_cons] at hacc ⊢
      exact hacc.continues hcontinues
    · rw [herror] at h
      cases h

/-- Reading lines keeps the account. -/
theorem Accounts.foldlM (hacc : Accounts front ds.reverse) (h : ls.foldlM Report.addLine ds = .ok ds') :
    Accounts (front ++ ls.filter (!Text.isBlank ·)) ds'.reverse := by
  induction ls generalizing front ds with
  | nil =>
    cases h
    simpa using hacc
  | cons line ls ih =>
    rw [List.foldlM_cons] at h
    obtain ⟨mid, hmid, h⟩ := Except.bind_eq_ok_iff.1 h
    have := ih (hacc.addLine hmid) h
    rwa [List.append_assoc, ← List.filter_append] at this

/-- The diagnostics of a report account for its written lines. -/
theorem accounts_of_parse (h : parse report = .ok ds) : Accounts (Text.writtenLines report) ds := by
  obtain ⟨last, hlast, rfl⟩ := Except.map_eq_ok_iff.1 h
  exact Accounts.nil.foldlM hlast

/-- Lines are read unless a number in one of them is too long. -/
theorem exists_foldlM_iff : (∃ ds', ls.foldlM addLine ds = .ok ds') ↔ ∀ l ∈ ls, ¬ IsOverlong l := by
  induction ls generalizing ds with
  | nil =>
    constructor
    · intro _ l hl
      cases hl
    · intro _
      exact ⟨ds, rfl⟩
  | cons line ls ih =>
    rw [List.foldlM_cons, List.forall_mem_cons]
    constructor
    · rintro ⟨ds', h⟩
      obtain ⟨mid, hmid, h⟩ := Except.bind_eq_ok_iff.1 h
      refine ⟨fun hlong => ?_, ih.1 ⟨ds', h⟩⟩
      obtain ⟨f, hf⟩ := isOverlong_iff.1 hlong
      rw [addLine_eq_error_iff.2 hf] at hmid
      cases hmid
    · rintro ⟨hline, hls⟩
      cases hmid : addLine ds line with
      | error f => exact absurd (isOverlong_iff.2 ⟨f, addLine_eq_error_iff.1 hmid⟩) hline
      | ok mid => exact ih.2 hls

/-- A report is read unless a number in it is too long. -/
theorem exists_parse_iff :
    (∃ ds, parse report = .ok ds) ↔ ∀ l ∈ Text.writtenLines report, ¬ IsOverlong l := by
  have hwritten : (∀ l ∈ Text.writtenLines report, ¬ IsOverlong l) ↔
      ∀ l ∈ Text.boundaryLines report, ¬ IsOverlong l := by
    constructor
    · intro h l hl hlong
      refine h l (List.mem_filter.2 ⟨hl, ?_⟩) hlong
      simp [isBlank_of_isOverlong hlong]
    · exact fun h l hl => h l (List.mem_filter.1 hl).1
  rw [hwritten, ← @exists_foldlM_iff (Text.boundaryLines report) []]
  constructor
  · rintro ⟨ds, h⟩
    obtain ⟨last, hlast, -⟩ := Except.map_eq_ok_iff.1 h
    exact ⟨last, hlast⟩
  · rintro ⟨last, hlast⟩
    exact ⟨last.reverse, Except.map_eq_ok_iff.2 ⟨last, hlast, rfl⟩⟩

/-- There are no diagnostics exactly when all lines are blank. -/
theorem eq_nil_iff_of_parse (h : parse report = .ok ds) :
    ds = [] ↔ ∀ l ∈ Text.boundaryLines report, Text.isBlank l := by
  rw [(accounts_of_parse h).eq_nil_iff, Text.writtenLines_eq_nil_iff, Text.forall_isBlank_iff]

end Report

end ScriptBundle.Report
