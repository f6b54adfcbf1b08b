import Mathlib.Data.List.Basic
import ScriptBundle.Except
import ScriptBundle.FileTree
import ScriptBundle.Proofs.Path.Normal

/-!
# Where paths lead

A walk along parts that lead downwards ends at the location that they spell, so a normal path leads
nowhere but to its own parts. A longer walk passes the location that its beginning spells. A walk that
gets somewhere gets there without going up, so a path leads where it leads when it is normalized.

* `walk_append`: a walk in two stages;
* `of_locate_normal`: the location of a normal path;
* `locate_normalize`: where a path leads when it is normalized;
* `mem_of_at?`, `locate_of_readText`: the locations that there are, and those that can be read;
* `readText_eq_error_path_iff`: the paths that the system cannot be asked for.
-/

namespace ScriptBundle

namespace FileTree

open Path

variable {t : FileTree} {cwd p : Path} {loc loc' : Location} {e e' : Entry} {parts more : List Text}

theorem walk_append (t : FileTree) (loc : Location) (e : Entry) (parts more : List Text) :
    t.walk loc e (parts ++ more) = (t.walk loc e parts).bind fun x => t.walk x.1 x.2 more := by
  induction parts generalizing loc e with
  | nil => rfl
  | cons part parts ih =>
    simp only [List.cons_append, walk]
    split
    · rfl
    · split
      · exact ih ..
      · split
        · rfl
        · exact ih ..

/-- A downward walk spells the location that it ends at. -/
theorem walk_of_isDown (hparts : ∀ part ∈ parts, IsDown part) (he : t.at? loc = some e)
    (h : t.walk loc e parts = .ok (loc', e')) : loc' = loc ++ parts ∧ t.at? loc' = some e' := by
  induction parts generalizing loc e with
  | nil =>
    cases h
    exact ⟨(List.append_nil _).symm, he⟩
  | cons part parts ih =>
    have hup : part ≠ ".." := (hparts part List.mem_cons_self).not_up
    rw [walk, if_neg hup] at h
    split at h
    · cases h
    · split at h
      · cases h
      · next e₁ he₁ =>
        obtain ⟨hloc, hat⟩ := ih (fun x hx => hparts x (List.mem_cons_of_mem _ hx)) he₁ h
        exact ⟨by rw [hloc, List.append_assoc]; rfl, hat⟩

theorem append_of_absolute (hp : p.root ≠ .working) : cwd.append p = p :=
  if_pos (by simpa [isAbsolute] using hp)

theorem locate_of_absolute {root : Root} (hroot : root ≠ .working) (parts : List Text) :
    t.locate cwd ⟨root, parts⟩ = t.walk [] .directory (parts.flatMap partsOf) := by
  rw [locate, append_of_absolute hroot, partsOf_text]

/-- A normal path leads to the location that its parts spell. -/
theorem of_locate_normal (hp : p.Normal) (h : t.locate cwd p = .ok (loc, e)) :
    loc = p.parts ∧ t.at? loc = some e := by
  rw [locate_of_absolute hp.absolute p.parts, flatMap_partsOf hp.anchored.parts] at h
  exact walk_of_isDown hp.parts rfl h

/-- A walk to a location passes the directory above it. -/
theorem walk_dropLast {done : List Text} (hdone : ∀ part ∈ done, IsDown part)
    (h : t.walk [] .directory done = .ok (done, e)) :
    t.walk [] .directory done.dropLast = .ok (done.dropLast, .directory) := by
  rcases List.eq_nil_or_concat' done with rfl | ⟨above, last, rfl⟩
  · rfl
  · rw [List.dropLast_concat]
    rw [walk_append] at h
    obtain ⟨⟨loc₁, e₁⟩, habove, hlast⟩ := Except.bind_eq_ok_iff.1 h
    have hdown : ∀ part ∈ above, IsDown part := fun part hpart =>
      hdone part (List.mem_append_left _ hpart)
    obtain rfl : loc₁ = above := (walk_of_isDown hdown rfl habove).1
    have hdirectory : e₁ = .directory := by
      cases e₁ <;> simp_all [walk, Entry.isDirectory]
    rw [habove, hdirectory]

/-- A walk to a directory goes on to what stands in it. -/
theorem walk_concat {done : List Text} {part : Text} (h : t.walk [] .directory done = .ok (done, e))
    (hdirectory : e.isDirectory) (hpart : part ≠ "..") (hat : t.at? (done ++ [part]) = some e') :
    t.walk [] .directory (done ++ [part]) = .ok (done ++ [part], e') := by
  rw [walk_append, h]
  show t.walk done e [part] = _
  rw [walk, if_neg (by simp [hdirectory]), if_neg hpart, hat]
  rfl

/-- A walk that goes on from a location gets to the end of its parts without going up. -/
theorem walk_foldl_foldPart {done : List Text} (hparts : ∀ part ∈ parts, IsPart part)
    (hdone : ∀ part ∈ done, IsDown part) (hwalk : t.walk [] .directory done = .ok (done, e))
    (h : t.walk done e parts = .ok (loc', e')) :
    t.walk [] .directory (parts.foldl foldPart done) = .ok (loc', e') := by
  induction parts generalizing done e with
  | nil =>
    cases h
    exact hwalk
  | cons part parts ih =>
    have hparts' : ∀ x ∈ parts, IsPart x := fun x hx => hparts x (List.mem_cons_of_mem _ hx)
    rw [walk] at h
    split at h
    · cases h
    · next hdir =>
      split at h
      · next hup =>
        rw [List.foldl_cons, foldPart, if_pos hup]
        have habove : ∀ x ∈ done.dropLast, IsDown x := fun x hx =>
          hdone x ((List.dropLast_prefix done).subset hx)
        exact ih hparts' habove (walk_dropLast hdone hwalk) h
      · next hup =>
        split at h
        · cases h
        · next e₁ he₁ =>
          rw [List.foldl_cons, foldPart, if_neg hup]
          have hdown : ∀ x ∈ done ++ [part], IsDown x := by
            intro x hx
            rcases List.mem_append.1 hx with hx | hx
            · exact hdone x hx
            · exact List.mem_singleton.1 hx ▸ ⟨hparts part List.mem_cons_self, hup⟩
          exact ih hparts' hdown (walk_concat hwalk (by simpa using hdir) hup he₁) h

/-- An absolute path leads where it leads when it is normalized. -/
theorem locate_normalize (hp : p.root ≠ .working) (h : t.locate cwd p = .ok (loc, e)) :
    t.locate cwd (Path.normalize cwd p.text) = .ok (loc, e) := by
  have hroot := rootOf_text_ne_working hp
  have hjoin : cwd.join p.text = ofText p.text := append_of_absolute hroot
  have hparts : ∀ part ∈ partsOf p.text, IsPart part := fun _ => isPart_of_mem_partsOf
  have hdown : ∀ part ∈ (partsOf p.text).foldl foldPart [], IsDown part :=
    isDown_foldl hparts (by simp)
  have hnormal : Path.normalize cwd p.text = ⟨rootOf p.text, (partsOf p.text).foldl foldPart []⟩ := by
    simp only [Path.normalize, hjoin]
    rfl
  rw [hnormal, locate_of_absolute hroot, flatMap_partsOf fun part hpart => (hdown part hpart).toIsPart]
  obtain ⟨root, parts⟩ := p
  rw [locate_of_absolute hp, ← partsOf_text ⟨root, parts⟩] at h
  exact walk_foldl_foldPart hparts (by simp) rfl h

theorem mem_of_at? (h : t.at? loc = some e) : loc ∈ [] :: t.entries.map (·.1) := by
  cases loc with
  | nil => exact List.mem_cons_self
  | cons part loc =>
    refine List.mem_cons_of_mem _ ?_
    have h : t.entries.lookup (part :: loc) = some e := h
    obtain ⟨front, back, hentries, -⟩ := List.lookup_eq_some_iff.1 h
    rw [hentries]
    simp

/-- What can be read is a regular file. -/
theorem locate_of_readText {source : Text} (h : t.readText cwd p = .ok source) :
    ∃ loc bytes, t.locate cwd p = .ok (loc, .file bytes) := by
  unfold readText at h
  split at h
  · cases h
  · cases h
  · next bytes hbytes =>
    unfold readBytes at hbytes
    split at hbytes
    · cases hbytes
    · cases hbytes
    · cases hbytes
    · next loc _ hlocate => exact ⟨loc, _, hlocate⟩

/-- A fault of a path is an error only where the path leads nowhere. -/
theorem readText_eq_error_path_iff {f : PathFault} :
    t.readText cwd p = .error (.path f) ↔
      p.fault? = some f ∧ ∃ e, t.locate cwd p = .error e := by
  unfold readText readBytes openError
  cases hlocate : t.locate cwd p with
  | error e => cases hfault : p.fault? <;> simp
  | ok x =>
    obtain ⟨loc, entry⟩ := x
    cases entry with
    | directory => simp
    | locked e => simp
    | file bytes => cases hdecode : Utf8.decode bytes <;> simp [hdecode]

end FileTree

end ScriptBundle
