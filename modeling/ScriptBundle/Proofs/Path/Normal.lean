import Mathlib.Data.List.TakeWhile
import ScriptBundle.Path

/-!
# Normal paths

Reading a path drops what its text says twice, and normalizing it drops what the path says twice. What
is left is a path whose parts all lead downwards, and its text is read back as the same parts. The
exception is the root: one slash and two slashes in front stay apart.

* `Path.IsPart`, `Path.IsDown`: the parts that reading and normalizing leave;
* `Path.Anchored`, `Path.Normal`: absolute paths of such parts;
* `partsOf_text`, `Normal.partsOf_text`: the text of a path, read back;
* `normal_normalize`: normalizing gives a normal path;
* `IsDown.partsOf_append`, `Normal.partsOf_withName`: a part with an extension behind it.
-/

namespace ScriptBundle

namespace Text

variable {sep : CodePoint} {s part : Text}

theorem splitAt_ne_nil (sep : CodePoint) (s : Text) : splitAt sep s ≠ [] := by
  cases s with
  | nil => exact List.cons_ne_nil _ _
  | cons c s =>
    rw [splitAt]
    split
    · exact List.cons_ne_nil _ _
    · split <;> exact List.cons_ne_nil _ _

theorem splitAt_append_cons (sep : CodePoint) (s t : Text) :
    splitAt sep (s ++ sep :: t) = splitAt sep s ++ splitAt sep t := by
  induction s with
  | nil => simp [splitAt]
  | cons c s ih =>
    by_cases hc : c = sep
    · simp [splitAt, hc, ih]
    · simp only [List.cons_append, splitAt, if_neg hc, ih]
      cases hs : splitAt sep s with
      | nil => exact absurd hs (splitAt_ne_nil sep s)
      | cons part parts => rfl

theorem splitAt_of_not_mem (h : sep ∉ s) : splitAt sep s = [s] := by
  induction s with
  | nil => rfl
  | cons c s ih =>
    rw [List.mem_cons, not_or] at h
    rw [splitAt, if_neg (Ne.symm h.1), ih h.2]

theorem not_mem_of_mem_splitAt (h : part ∈ splitAt sep s) : sep ∉ part := by
  induction s generalizing part with
  | nil =>
    rw [List.mem_singleton.1 h]
    exact List.not_mem_nil
  | cons c s ih =>
    rw [splitAt] at h
    split at h
    · rcases List.mem_cons.1 h with rfl | h
      · exact List.not_mem_nil
      · exact ih h
    · next hc =>
      split at h
      · rw [List.mem_singleton.1 h, List.mem_singleton]
        exact Ne.symm hc
      · next first rest heq =>
        rw [heq] at ih
        rcases List.mem_cons.1 h with rfl | h
        · rw [List.mem_cons, not_or]
          exact ⟨Ne.symm hc, ih List.mem_cons_self⟩
        · exact ih (List.mem_cons_of_mem _ h)

end Text

namespace Path

/-- A part as reading a path leaves it. -/
structure IsPart (s : Text) : Prop where
  nonempty : s ≠ []
  not_dot : s ≠ "."
  no_slash : CodePoint.ofChar '/' ∉ s

/-- A part that leads from a directory to one of its entries. -/
structure IsDown (s : Text) : Prop extends IsPart s where
  not_up : s ≠ ".."

/-- An absolute path that may still hold `..`. -/
structure Anchored (p : Path) : Prop where
  absolute : p.root ≠ .working
  parts : ∀ part ∈ p.parts, IsPart part

/-- An absolute path without `..`. -/
structure Normal (p : Path) : Prop where
  absolute : p.root ≠ .working
  parts : ∀ part ∈ p.parts, IsDown part

instance (s : Text) : Decidable (IsPart s) :=
  decidable_of_iff (s ≠ [] ∧ s ≠ "." ∧ CodePoint.ofChar '/' ∉ s)
    ⟨fun h => ⟨h.1, h.2.1, h.2.2⟩, fun h => ⟨h.nonempty, h.not_dot, h.no_slash⟩⟩

instance (s : Text) : Decidable (IsDown s) :=
  decidable_of_iff (IsPart s ∧ s ≠ "..") ⟨fun h => ⟨h.1, h.2⟩, fun h => ⟨h.toIsPart, h.not_up⟩⟩

instance (p : Path) : Decidable p.Anchored :=
  decidable_of_iff (p.root ≠ .working ∧ ∀ part ∈ p.parts, IsPart part)
    ⟨fun h => ⟨h.1, h.2⟩, fun h => ⟨h.absolute, h.parts⟩⟩

section Parts

variable {s t part : Text} {p : Path}

theorem Normal.anchored (h : p.Normal) : p.Anchored := ⟨h.absolute, fun part hp => (h.parts part hp).toIsPart⟩

theorem isPart_of_mem_partsOf (h : part ∈ partsOf s) : IsPart part := by
  obtain ⟨hmem, hkept⟩ := List.mem_filter.1 h
  have hkept : part ≠ [] ∧ part ≠ "." := by simpa using hkept
  exact ⟨hkept.1, hkept.2, Text.not_mem_of_mem_splitAt hmem⟩

theorem partsOf_append_slash (s t : Text) :
    partsOf (s ++ CodePoint.ofChar '/' :: t) = partsOf s ++ partsOf t := by
  rw [partsOf, Text.splitAt_append_cons, List.filter_append]
  rfl

theorem partsOf_slash (t : Text) : partsOf (CodePoint.ofChar '/' :: t) = partsOf t :=
  partsOf_append_slash [] t

theorem IsPart.partsOf (h : IsPart s) : partsOf s = [s] := by
  rw [Path.partsOf, Text.splitAt_of_not_mem h.no_slash]
  simp [h.nonempty, h.not_dot]

theorem partsOf_root_append (root : Root) (s : Text) : partsOf (root.text ++ s) = partsOf s := by
  cases root with
  | working => rfl
  | top => exact partsOf_slash s
  | doubleTop => exact (partsOf_slash _).trans (partsOf_slash s)

theorem join_slash_cons_cons (a b : Text) (parts : List Text) :
    Text.join "/" (a :: b :: parts) = a ++ CodePoint.ofChar '/' :: Text.join "/" (b :: parts) := by
  simp only [Text.join, List.intercalate_cons_cons, List.append_assoc]
  rfl

theorem partsOf_join (parts : List Text) :
    partsOf (Text.join "/" parts) = parts.flatMap partsOf := by
  induction parts with
  | nil => rfl
  | cons a parts ih =>
    cases parts with
    | nil => simp [Text.join]
    | cons b parts =>
      rw [join_slash_cons_cons, partsOf_append_slash, ih]
      rfl

/-- The text of a path, read back: its parts, each read on its own. -/
theorem partsOf_text (p : Path) : partsOf p.text = p.parts.flatMap partsOf := by
  unfold text
  split
  · next h =>
    have h : p.root = .working ∧ p.parts = [] := by simpa using h
    rw [h.2]
    rfl
  · rw [partsOf_root_append, partsOf_join]

/-- The text of an absolute path is read back as one. -/
theorem rootOf_text_ne_working (h : p.root ≠ .working) : rootOf p.text ≠ .working := by
  have hslash : ∃ s, p.text = CodePoint.ofChar '/' :: s := by
    obtain ⟨root, parts⟩ := p
    cases root with
    | working => exact absurd rfl h
    | top => exact ⟨_, rfl⟩
    | doubleTop => exact ⟨_, rfl⟩
  obtain ⟨s, hs⟩ := hslash
  rw [hs, rootOf, List.takeWhile_cons_of_pos (by simp), List.length_cons]
  split <;> simp_all

theorem flatMap_partsOf {parts : List Text} (h : ∀ part ∈ parts, IsPart part) :
    parts.flatMap partsOf = parts := by
  induction parts with
  | nil => rfl
  | cons part parts ih =>
    rw [List.flatMap_cons, (h part List.mem_cons_self).partsOf,
      ih fun x hx => h x (List.mem_cons_of_mem _ hx)]
    rfl

theorem Normal.partsOf_text (h : p.Normal) : Path.partsOf p.text = p.parts := by
  rw [Path.partsOf_text, flatMap_partsOf h.anchored.parts]

end Parts

section Normalize

variable {cwd p q : Path}

theorem anchored_append (hp : p.Anchored) (hq : ∀ part ∈ q.parts, IsPart part) :
    (p.append q).Anchored := by
  unfold append
  split
  · next h => exact ⟨by simpa [isAbsolute] using h, hq⟩
  · refine ⟨hp.absolute, fun part hpart => ?_⟩
    rcases List.mem_append.1 hpart with hpart | hpart
    · exact hp.parts part hpart
    · exact hq part hpart

theorem anchored_join (hp : p.Anchored) (s : Text) : (p.join s).Anchored :=
  anchored_append hp fun _ => isPart_of_mem_partsOf

theorem isDown_foldl {parts done : List Text} (hparts : ∀ part ∈ parts, IsPart part)
    (hdone : ∀ part ∈ done, IsDown part) :
    ∀ part ∈ parts.foldl foldPart done, IsDown part := by
  induction parts generalizing done with
  | nil => exact hdone
  | cons part parts ih =>
    refine ih (fun x hx => hparts x (List.mem_cons_of_mem _ hx)) fun x hx => ?_
    unfold foldPart at hx
    split at hx
    · exact hdone x ((List.dropLast_prefix done).subset hx)
    · next hup =>
      rcases List.mem_append.1 hx with hx | hx
      · exact hdone x hx
      · rw [List.mem_singleton.1 hx]
        exact ⟨hparts part List.mem_cons_self, hup⟩

theorem normal_normalize (hcwd : cwd.Anchored) (s : Text) : (normalize cwd s).Normal :=
  have h := anchored_join hcwd s
  ⟨h.absolute, isDown_foldl h.parts (by simp)⟩

end Normalize

section Extensions

variable {s t ext : Text} {p q : Path}

/-- What an extension adds to the part in front of it: all up to a slash. -/
def ending (ext : Text) : Text := ext.takeWhile (· ≠ CodePoint.ofChar '/')

theorem not_mem_ending (ext : Text) : CodePoint.ofChar '/' ∉ ending ext := by
  intro h
  simpa using List.mem_takeWhile_imp h

theorem ending_of_not_mem (h : CodePoint.ofChar '/' ∉ ext) : ending ext = ext := by
  refine List.takeWhile_eq_self_iff.2 fun c hc => ?_
  have hne : c ≠ CodePoint.ofChar '/' := fun e => h (e ▸ hc)
  simpa using hne

theorem ending_append_slash (h : CodePoint.ofChar '/' ∉ s) (t : Text) :
    ending (s ++ CodePoint.ofChar '/' :: t) = s := by
  rw [ending, List.takeWhile_append_of_pos]
  · simp
  · intro c hc
    have hne : c ≠ CodePoint.ofChar '/' := fun e => h (e ▸ hc)
    simpa using hne

theorem IsDown.append (h : IsDown s) (ht : CodePoint.ofChar '/' ∉ t) : IsDown (s ++ t) := by
  have dot : Text.ofString "." = [CodePoint.ofChar '.'] := rfl
  have dots : Text.ofString ".." = [CodePoint.ofChar '.', CodePoint.ofChar '.'] := rfl
  obtain ⟨⟨nonempty, not_dot, no_slash⟩, not_up⟩ := h
  rw [dot] at not_dot
  rw [dots] at not_up
  refine ⟨⟨by simp [nonempty], ?_, by simp [no_slash, ht]⟩, ?_⟩
  · rw [dot]
    intro e
    rcases List.append_eq_singleton_iff.1 e with ⟨rfl, -⟩ | ⟨rfl, -⟩
    · exact nonempty rfl
    · exact not_dot rfl
  · rw [dots]
    intro e
    rcases List.append_eq_cons_iff.1 e with ⟨rfl, -⟩ | ⟨s', rfl, tail⟩
    · exact nonempty rfl
    · rcases List.append_eq_singleton_iff.1 tail.symm with ⟨rfl, -⟩ | ⟨rfl, -⟩
      · exact not_dot rfl
      · exact not_up rfl

/-- A part with an extension behind it. What stands behind a slash in the extension is read on its
own. -/
theorem IsDown.partsOf_append (h : IsDown s) (ext : Text) :
    ∃ rest, partsOf (s ++ ext) = (s ++ ending ext) :: rest := by
  by_cases hslash : CodePoint.ofChar '/' ∈ ext
  · obtain ⟨t, rest, rfl, ht⟩ := List.eq_append_cons_of_mem hslash
    rw [ending_append_slash ht, ← List.append_assoc, partsOf_append_slash, (h.append ht).partsOf]
    exact ⟨partsOf rest, rfl⟩
  · rw [ending_of_not_mem hslash, (h.append hslash).partsOf]
    exact ⟨[], rfl⟩

theorem IsDown.ofText (h : IsDown s) : ofText s = ⟨.working, [s]⟩ := by
  have hroot : rootOf s = .working := by
    obtain ⟨c, rest, rfl⟩ := List.exists_cons_of_ne_nil h.nonempty
    have hc : c ≠ CodePoint.ofChar '/' := fun e => h.no_slash (by simp [e])
    simp [rootOf, hc]
  rw [Path.ofText, hroot, h.partsOf]

theorem IsDown.isName (h : IsDown s) : isName s := by
  have hroot : rootOf s = .working := congrArg Path.root h.ofText
  have hlast : s.getLast? ≠ some (CodePoint.ofChar '/') := fun e =>
    h.no_slash (List.mem_of_getLast? e)
  simp [Path.isName, hroot, hlast, h.partsOf, h.nonempty]

theorem Normal.join (h : p.Normal) (hs : IsDown s) : (p.join s).Normal := by
  have hjoin : p.join s = { p with parts := p.parts ++ [s] } := by
    rw [Path.join, hs.ofText]
    rfl
  rw [hjoin]
  refine ⟨h.absolute, fun part hpart => ?_⟩
  rcases List.mem_append.1 hpart with hpart | hpart
  · exact h.parts part hpart
  · exact List.mem_singleton.1 hpart ▸ hs

theorem Normal.isDown_name (h : p.Normal) (hp : p.parts ≠ []) : IsDown p.name := by
  refine h.parts _ ?_
  rw [name, List.getLast?_eq_some_getLast hp]
  exact List.getLast_mem hp

/-- Why a normal path cannot take an extension: it is a root, or the extension holds a slash. -/
theorem Normal.withName_eq_error {e : NameFault} (h : p.Normal)
    (hfault : p.withName (p.name ++ ext) = .error e) :
    (p.parts = [] ∧ e = .noName p) ∨
      (CodePoint.ofChar '/' ∈ ext ∧ e = .invalidName (p.name ++ ext)) := by
  unfold withName at hfault
  split at hfault
  · next hp =>
    cases hfault
    exact .inl ⟨List.isEmpty_iff.1 hp, rfl⟩
  · next hp =>
    split at hfault
    · cases hfault
    · next hname =>
      cases hfault
      have hp : p.parts ≠ [] := by simpa using hp
      refine .inr ⟨?_, rfl⟩
      by_contra hext
      exact hname ((h.isDown_name hp).append hext).isName

theorem withName_eq_ok (h : p.withName s = .ok q) :
    p.parts ≠ [] ∧ q = { p with parts := p.parts.dropLast ++ [s] } := by
  unfold withName at h
  split at h
  · cases h
  · next hp =>
    split at h
    · cases h
      exact ⟨by simpa using hp, rfl⟩
    · cases h

end Extensions

end Path

end ScriptBundle
