import ScriptBundle.Proofs.FileTree.Locate

/-!
# Paths for which the system cannot be asked

The names in a file tree hold neither the null character nor a surrogate that stands for no byte. So a
path that holds one leads nowhere, and whatever is done with its file fails because of the path.

* `isNameCharacter`, `Path.fault?_eq_none_iff`: what a path may hold;
* `FileTree.Nameable`, `Nameable.locate_eq_error`: where a path with a fault leads;
* `Nameable.readText_eq_path_iff`, `Nameable.writable_eq_path_iff`: what comes of reading and writing
  its file.
-/

namespace ScriptBundle

/-- Whether a code point can stand in the name of a file. -/
def isNameCharacter (c : CodePoint) : Bool :=
  !(c.isSurrogate && !Utf8.isEscapedByte c) && c ≠ CodePoint.ofNat 0

theorem Utf8.firstBad?_eq_none_iff {bad : CodePoint → Bool} {s : Text} :
    firstBad? bad s = none ↔ ∀ c ∈ s, bad c = false := by
  have hnil : s.dropWhile (!bad ·) = [] ↔ ∀ c ∈ s, bad c = false := by
    simp [List.dropWhile_eq_nil_iff]
  rw [firstBad?, ← hnil]
  cases s.dropWhile (!bad ·) <;> simp

theorem Text.exists_mem_splitAt {sep c : CodePoint} {s : Text} (hc : c ∈ s) (hsep : c ≠ sep) :
    ∃ part ∈ splitAt sep s, c ∈ part := by
  induction s with
  | nil => cases hc
  | cons d s ih =>
    rw [splitAt]
    rcases List.mem_cons.1 hc with rfl | hc
    · rw [if_neg hsep]
      split
      · exact ⟨_, List.mem_cons_self, List.mem_cons_self⟩
      · exact ⟨_, List.mem_cons_self, List.mem_cons_self⟩
    · obtain ⟨part, hpart, hmem⟩ := ih hc
      split
      · exact ⟨part, List.mem_cons_of_mem _ hpart, hmem⟩
      · split
        · next heq => exact absurd heq (splitAt_ne_nil sep s)
        · next first rest heq =>
          rw [heq] at hpart
          rcases List.mem_cons.1 hpart with rfl | hpart
          · exact ⟨_, List.mem_cons_self, List.mem_cons_of_mem _ hmem⟩
          · exact ⟨part, List.mem_cons_of_mem _ hpart, hmem⟩

namespace Path

variable {p : Path} {s : Text} {c : CodePoint}

theorem fault?_eq_none_iff : p.fault? = none ↔ ∀ c ∈ p.text, isNameCharacter c := by
  have hname : Utf8.unencodableName? p.text = none ↔
      ∀ c ∈ p.text, (c.isSurrogate && !Utf8.isEscapedByte c) = false :=
    Utf8.firstBad?_eq_none_iff
  have hsplit : (∀ c ∈ p.text, isNameCharacter c) ↔
      Utf8.unencodableName? p.text = none ∧ p.text.contains (CodePoint.ofNat 0) = false := by
    rw [hname, ← Bool.not_eq_true, List.contains_iff_mem]
    simp only [isNameCharacter, Bool.and_eq_true, Bool.not_eq_true', decide_eq_true_eq]
    exact ⟨fun h => ⟨fun c hc => (h c hc).1, fun hc => (h _ hc).2 rfl⟩,
      fun h c hc => ⟨h.1 c hc, fun e => h.2 (e ▸ hc)⟩⟩
  rw [hsplit, fault?]
  cases Utf8.unencodableName? p.text <;> simp

/-- Each code point of a text is a slash, a dot, or in a part of the path that the text denotes. -/
theorem exists_mem_partsOf (hc : c ∈ s) (hslash : c ≠ '/') (hdot : c ≠ '.') :
    ∃ part ∈ partsOf s, c ∈ part := by
  obtain ⟨part, hpart, hmem⟩ := Text.exists_mem_splitAt hc hslash
  refine ⟨part, List.mem_filter.2 ⟨hpart, ?_⟩, hmem⟩
  have hne : part ≠ [] := List.ne_nil_of_mem hmem
  have hnot : part ≠ "." := by
    rintro rfl
    exact hdot (List.mem_singleton.1 hmem)
  simp [hne, hnot]

end Path

namespace FileTree

open Path

variable {t : FileTree} {cwd p : Path} {loc loc' : Location} {e e' : Entry} {parts : List Text}
  {f : PathFault}

/-- The names of all entries can be names of files. -/
def Nameable (t : FileTree) : Prop :=
  ∀ loc ∈ t.entries.map (·.1), ∀ name ∈ loc, ∀ c ∈ name, isNameCharacter c

/-- A walk passes only through names of entries. -/
theorem Nameable.isNameCharacter_of_walk (ht : t.Nameable)
    (h : t.walk loc e parts = .ok (loc', e')) {part : Text} (hpart : part ∈ parts) {c : CodePoint}
    (hc : c ∈ part) : isNameCharacter c := by
  induction parts generalizing loc e with
  | nil => cases hpart
  | cons first parts ih =>
    rw [walk] at h
    split at h
    · cases h
    · split at h
      · next hup =>
        rcases List.mem_cons.1 hpart with rfl | hpart
        · have hdots : ∀ d ∈ Text.ofString "..", isNameCharacter d := by decide
          exact hdots c (hup ▸ hc)
        · exact ih h hpart
      · split at h
        · cases h
        · next e₁ he₁ =>
          rcases List.mem_cons.1 hpart with rfl | hpart
          · have hmem := mem_of_at? he₁
            rw [List.mem_cons] at hmem
            exact ht _ (hmem.resolve_left (by simp)) part (by simp) c hc
          · exact ih h hpart

/-- A path with a fault leads nowhere. -/
theorem Nameable.locate_eq_error (ht : t.Nameable) (cwd : Path) (h : p.fault? = some f) :
    ∃ e, t.locate cwd p = .error e := by
  cases hlocate : t.locate cwd p with
  | error e => exact ⟨e, rfl⟩
  | ok x =>
    have hnone : p.fault? = none := by
      refine fault?_eq_none_iff.2 fun c hc => ?_
      by_cases hslash : c = '/'
      · rw [hslash]
        decide
      by_cases hdot : c = '.'
      · rw [hdot]
        decide
      obtain ⟨part, hpart, hmem⟩ := exists_mem_partsOf hc hslash hdot
      refine ht.isNameCharacter_of_walk hlocate ?_ hmem
      rw [partsOf_text] at hpart ⊢
      rw [append]
      split
      · exact hpart
      · rw [List.flatMap_append]
        exact List.mem_append_right _ hpart
    rw [hnone] at h
    cases h

/-- The text of a file is not read because of its path exactly if the path has a fault. -/
theorem Nameable.readText_eq_path_iff (ht : t.Nameable) :
    t.readText cwd p = .error (.path f) ↔ p.fault? = some f := by
  rw [readText_eq_error_path_iff]
  exact and_iff_left_of_imp (ht.locate_eq_error cwd)

/-- A file is not written because of its path exactly if the path has a fault. -/
theorem Nameable.writable_eq_path_iff (ht : t.Nameable) :
    t.writable cwd p = .error (.path f) ↔ p.fault? = some f := by
  constructor
  · intro h
    unfold writable openError at h
    split at h
    · cases h
    · cases h
    · cases h
    · cases hfault : p.fault? with
      | some f' => simpa [hfault] using h
      | none =>
        rw [hfault] at h
        simp only at h
        repeat' split at h
        all_goals cases h
  · intro h
    obtain ⟨e, hlocate⟩ := ht.locate_eq_error cwd h
    rw [writable, hlocate]
    simp only [openError, h]

end FileTree

end ScriptBundle
