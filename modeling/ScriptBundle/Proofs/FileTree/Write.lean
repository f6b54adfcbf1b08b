import ScriptBundle.Proofs.FileTree.Locate

/-!
# Writing files

A file that can be written under a path is found under that path again, and nothing else of the tree
changes: a walk passes only through directories, and no directory is written over.

* `not_directory_of_writable`, `ne_nil_of_writable`: where files can be written;
* `walk_insert`: a walk through the tree that holds the file;
* `Writes`, `writes_of_writable`: the tree after the file is written.
-/

namespace ScriptBundle

namespace FileTree

open Path

variable {t t' : FileTree} {cwd p : Path} {loc loc' : Location} {e e' f : Entry} {parts : List Text}
  {s : Text} {bytes : List UInt8}

/-- A walk ends at a directory or at an entry of the tree. -/
theorem at?_of_walk (he : e = .directory ∨ t.at? loc = some e)
    (h : t.walk loc e parts = .ok (loc', e')) : e' = .directory ∨ t.at? loc' = some e' := by
  induction parts generalizing loc e with
  | nil =>
    cases h
    exact he
  | cons part parts ih =>
    rw [walk] at h
    split at h
    · cases h
    · split at h
      · exact ih (.inl rfl) h
      · split at h
        · cases h
        · next e₁ he₁ => exact ih (.inr he₁) h

/-- What stands at `loc'` in the tree with the file `f` at `loc`, if `e` stands there in the tree without
it. -/
def replaced (loc : Location) (f : Entry) (loc' : Location) (e : Entry) : Entry :=
  if loc' = loc ∧ e ≠ .directory then f else e

/-- A file that is put where no directory is changes no walk but its end. -/
theorem walk_insert {start : Location} (hloc : t.at? loc ≠ some .directory) (hne : loc ≠ [])
    (h : t.walk start e parts = .ok (loc', e')) :
    (t.insert loc f).walk start (replaced loc f start e) parts = .ok (loc', replaced loc f loc' e') := by
  induction parts generalizing start e with
  | nil =>
    cases h
    rfl
  | cons part parts ih =>
    rw [walk] at h
    split at h
    · cases h
    · next hdir =>
      have he : e = .directory := by
        cases e <;> simp_all [Entry.isDirectory]
      have hreplaced (l : Location) : replaced loc f l .directory = .directory := if_neg (by simp)
      rw [he, hreplaced, walk, if_neg (by simp [Entry.isDirectory])]
      split at h
      · next hup => rw [if_pos hup, ← hreplaced, ih h]
      · next hup =>
        rw [if_neg hup]
        cases he₁ : t.at? (start ++ [part]) with
        | none =>
          rw [he₁] at h
          cases h
        | some e₁ =>
          rw [he₁] at h
          have hnew : (t.insert loc f).at? (start ++ [part]) =
              some (replaced loc f (start ++ [part]) e₁) := by
            unfold replaced
            by_cases heq : start ++ [part] = loc
            · rw [heq, at?_insert_self t hne, if_pos ⟨rfl, fun h => hloc (by rw [← heq, he₁, h])⟩]
            · rw [at?_insert_of_ne t heq, he₁, if_neg fun h => heq h.1]
          simp only [hnew]
          exact ih h

/-- The way to a path is the way to its directory, and its name. -/
theorem partsOf_append_text (cwd : Path) (h : (ofText s).parts ≠ []) :
    partsOf (cwd.append (ofText s)).text =
      partsOf (cwd.append (ofText s).parent).text ++ [(ofText s).name] := by
  have hname : (ofText s).parts.getLast h = (ofText s).name := by
    simp [Path.name, List.getLast?_eq_some_getLast h]
  have hparts : (ofText s).parts = (ofText s).parent.parts ++ [(ofText s).name] := by
    rw [← hname]
    exact (List.dropLast_concat_getLast h).symm
  have hpart : IsPart (ofText s).name := by
    rw [← hname]
    exact isPart_of_mem_partsOf (List.getLast_mem h)
  have happend : (cwd.append (ofText s)).parts =
      (cwd.append (ofText s).parent).parts ++ [(ofText s).name] := by
    by_cases habs : (ofText s).root = .working
    · have hrelative (q : Path) (hq : q.root = .working) : cwd.append q =
          { cwd with parts := cwd.parts ++ q.parts } := if_neg (by simp [isAbsolute, hq])
      rw [hrelative _ habs, hrelative (ofText s).parent habs]
      exact (congrArg _ hparts).trans (List.append_assoc ..).symm
    · rw [append_of_absolute habs, append_of_absolute (p := (ofText s).parent) habs]
      exact hparts
  rw [partsOf_text, partsOf_text, happend, List.flatMap_append]
  simp [hpart.partsOf]

/-- A file can be written over a file, or as a new one in a directory. -/
theorem writable_cases (h : t.writable cwd (ofText s) = .ok loc) :
    (∃ bytes, t.locate cwd (ofText s) = .ok (loc, .file bytes)) ∨
      ∃ (dir : Location) (name : Text), loc = dir ++ [name] ∧ name ≠ ".." ∧ t.at? loc = none ∧
        t.locate cwd (ofText s).parent = .ok (dir, .directory) ∧
        partsOf (cwd.append (ofText s)).text = partsOf (cwd.append (ofText s).parent).text ++ [name] := by
  unfold writable at h
  split at h
  · cases h
  · cases h
  · next bytes hlocate =>
    cases h
    exact .inl ⟨_, hlocate⟩
  · next fault hfault =>
    split at h
    · next dir _ hdir =>
      split at h
      · cases h
      · next hup =>
        cases h
        have hparts : (ofText s).parts ≠ [] := by
          intro hnil
          have hparent : (ofText s).parent = ofText s := by
            unfold parent
            rw [hnil, List.dropLast_nil, ← hnil]
          rw [hparent, hfault] at hdir
          cases hdir
        have hway := partsOf_append_text cwd hparts
        refine .inr ⟨dir, _, rfl, hup, ?_, hdir, hway⟩
        -- What stood there would be found under the path.
        cases hat : t.at? (dir ++ [(ofText s).name]) with
        | none => rfl
        | some e =>
          have hfound : t.locate cwd (ofText s) = .ok (dir ++ [(ofText s).name], e) := by
            unfold locate at hdir ⊢
            rw [hway, walk_append, hdir]
            show t.walk dir .directory [(ofText s).name] = _
            simp only [walk, if_neg hup, hat]
            rfl
          rw [hfault] at hfound
          cases hfound
    · cases h

theorem ne_nil_of_writable (h : t.writable cwd (ofText s) = .ok loc) : loc ≠ [] := by
  rcases writable_cases h with ⟨bytes, hlocate⟩ | ⟨dir, name, rfl, -⟩
  · rintro rfl
    rcases at?_of_walk (.inl rfl) hlocate with h | h <;> cases h
  · simp

theorem not_directory_of_writable (h : t.writable cwd (ofText s) = .ok loc) :
    t.at? loc ≠ some .directory := by
  rcases writable_cases h with ⟨bytes, hlocate⟩ | ⟨dir, name, -, -, hnone, -⟩
  · rcases at?_of_walk (.inl rfl) hlocate with h | h
    · cases h
    · rw [h]
      exact nofun
  · rw [hnone]
    exact nofun

/-- What is written under a path is found under it. -/
theorem locate_insert_of_writable (h : t.writable cwd (ofText s) = .ok loc) :
    (t.insert loc f).locate cwd (ofText s) = .ok (loc, f) := by
  have hne := ne_nil_of_writable h
  have hloc := not_directory_of_writable h
  have htop : replaced loc f [] .directory = .directory := if_neg (by simp)
  rcases writable_cases h with ⟨bytes, hlocate⟩ | ⟨dir, name, rfl, hup, -, hdir, hway⟩
  · have hwalk := walk_insert hloc hne (f := f) hlocate
    rw [htop] at hwalk
    exact hwalk.trans (by simp [replaced])
  · have hwalk := walk_insert hloc hne (f := f) hdir
    rw [htop] at hwalk
    unfold locate
    rw [hway, walk_append, hwalk]
    show (t.insert _ f).walk dir (replaced _ f dir .directory) [name] = _
    rw [replaced, if_neg (by simp)]
    simp only [walk, if_neg hup, at?_insert_self t hne]
    rfl

/-- The tree `t'` is `t` with a file of the given bytes written under a path, and no other change. -/
def Writes (t : FileTree) (cwd p : Path) (bytes : List UInt8) (t' : FileTree) : Prop :=
  t'.readBytes cwd p = .ok bytes ∧
    ∃ loc, t.writable cwd p = .ok loc ∧ t'.at? loc = some (.file bytes) ∧
      ∀ loc' ≠ loc, t'.at? loc' = t.at? loc'

theorem writes_of_writable (h : t.writable cwd (ofText s) = .ok loc) (bytes : List UInt8) :
    t.Writes cwd (ofText s) bytes (t.insert loc (.file bytes)) :=
  ⟨by rw [readBytes, locate_insert_of_writable h], loc, h, at?_insert_self t (ne_nil_of_writable h) _,
    fun _ hne => at?_insert_of_ne t hne _⟩

end FileTree

end ScriptBundle
