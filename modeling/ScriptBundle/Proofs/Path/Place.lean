import ScriptBundle.Proofs.Path.Normal

/-!
# Places in a tree

A place in a directory tree is named from the top of the tree, by parts that lead downwards. The tree
itself can stand below any directory. A text that is seen from a place leads to a place again, unless
it is an absolute path or climbs above the top, and where it leads does not depend on where the tree
stands.

* `Place`, `Place.below`: places, and their paths when the tree stands below a directory;
* `climbs`, `StaysInside`: the texts that leave the tree, and those that do not;
* `ofText_text`, `Normal.normalize_text`: the text of a path denotes the path;
* `normalize_join_below`, `ancestors_below`, `relativeTo_below`, `isSuffixOf_text_below`: what is the
  same wherever the tree stands.
-/

namespace ScriptBundle

namespace Path

/-- Whether a walk along parts, which starts at the place that `dir` spells, goes above the top. -/
def climbs (dir : List Text) : List Text → Bool
  | [] => false
  | part :: parts => (part = ".." && dir.isEmpty) || climbs (foldPart dir part) parts

/-- Seen from the place that `dir` spells, the text leads to a place of the tree, and it does not leave
the tree on its way. -/
structure StaysInside (dir : List Text) (s : Text) : Prop where
  relative : rootOf s = .working
  within : climbs dir (partsOf s) = false

instance (dir : List Text) (s : Text) : Decidable (StaysInside dir s) :=
  decidable_of_iff (rootOf s = .working ∧ climbs dir (partsOf s) = false)
    ⟨fun h => ⟨h.1, h.2⟩, fun h => ⟨h.relative, h.within⟩⟩

section Text

variable {cwd p : Path} {parts : List Text} {s : Text}

theorem IsPart.takeWhile_slash (h : IsPart s) (t : Text) :
    (s ++ t).takeWhile (fun c => c = CodePoint.ofChar '/') = [] := by
  obtain ⟨c, rest, rfl⟩ := List.exists_cons_of_ne_nil h.nonempty
  have hc : c ≠ CodePoint.ofChar '/' := fun e => h.no_slash (by simp [e])
  simp [hc]

theorem takeWhile_slash_join (h : ∀ part ∈ parts, IsPart part) :
    (Text.join "/" parts).takeWhile (fun c => c = CodePoint.ofChar '/') = [] := by
  cases parts with
  | nil => rfl
  | cons a parts =>
    have ha := h a List.mem_cons_self
    cases parts with
    | nil =>
      have hjoin : Text.join "/" [a] = a ++ [] := by simp [Text.join]
      rw [hjoin, ha.takeWhile_slash]
    | cons b parts => rw [join_slash_cons_cons, ha.takeWhile_slash]

theorem rootOf_text (h : p.Anchored) : rootOf p.text = p.root := by
  obtain ⟨root, parts⟩ := p
  have hjoin := takeWhile_slash_join h.parts
  cases root with
  | working => exact absurd rfl h.absolute
  | top =>
    show rootOf (CodePoint.ofChar '/' :: Text.join "/" parts) = _
    simp [rootOf, hjoin]
  | doubleTop =>
    show rootOf (CodePoint.ofChar '/' :: CodePoint.ofChar '/' :: Text.join "/" parts) = _
    simp [rootOf, hjoin]

/-- The text of an absolute path denotes the path. -/
theorem ofText_text (h : p.Anchored) : ofText p.text = p := by
  rw [ofText, rootOf_text h, partsOf_text, flatMap_partsOf h.parts]

theorem normalize_text_of_anchored (h : p.Anchored) :
    normalize cwd p.text = { p with parts := p.parts.foldl foldPart [] } := by
  have habsolute : p.isAbsolute = true := by simpa [isAbsolute] using h.absolute
  simp only [normalize, join, ofText_text h, append, habsolute, if_true]

theorem foldl_foldPart_of_isDown (h : ∀ part ∈ parts, IsDown part) (dir : List Text) :
    parts.foldl foldPart dir = dir ++ parts := by
  induction parts generalizing dir with
  | nil => simp
  | cons part parts ih =>
    have hup : part ≠ ".." := (h part List.mem_cons_self).not_up
    rw [List.foldl_cons, foldPart, if_neg hup, ih fun x hx => h x (List.mem_cons_of_mem _ hx)]
    simp

/-- The text of a normal path, normalized, is the path. -/
theorem Normal.normalize_text (h : p.Normal) (cwd : Path) : normalize cwd p.text = p := by
  rw [normalize_text_of_anchored h.anchored, foldl_foldPart_of_isDown h.parts]
  rfl

end Text

/-- A walk that does not go above the top of a tree is the same below every directory. -/
theorem foldl_foldPart_append {dir parts : List Text} (h : climbs dir parts = false)
    (root : List Text) :
    parts.foldl foldPart (root ++ dir) = root ++ parts.foldl foldPart dir := by
  induction parts generalizing dir with
  | nil => rfl
  | cons part parts ih =>
    obtain ⟨hpart, hparts⟩ := Bool.or_eq_false_iff.1 h
    have hstep : foldPart (root ++ dir) part = root ++ foldPart dir part := by
      unfold foldPart
      split
      · next hup =>
        have hdir : dir ≠ [] := by simpa [hup] using hpart
        exact List.dropLast_append_of_ne_nil hdir
      · exact List.append_assoc ..
    rw [List.foldl_cons, List.foldl_cons, hstep, ih hparts]

end Path

open Path

/-- A place in a tree: the parts that lead to it from the top of the tree. -/
structure Place where
  parts : List Text
  down : ∀ part ∈ parts, IsDown part
  deriving DecidableEq

namespace Place

/-- The top of the tree. -/
def top : Place := ⟨[], by simp⟩

/-- The directory of a place; the top is its own. -/
def parent (p : Place) : Place :=
  ⟨p.parts.dropLast, fun part h => p.down part ((List.dropLast_prefix _).subset h)⟩

/-- A place in a directory. -/
def child (p : Place) (s : Text) (hs : IsDown s) : Place where
  parts := p.parts ++ [s]
  down part h := by
    rcases List.mem_append.1 h with h | h
    · exact p.down part h
    · exact List.mem_singleton.1 h ▸ hs

/-- The place that a text denotes as seen from a directory. -/
def follow (p : Place) (s : Text) : Place :=
  ⟨(partsOf s).foldl foldPart p.parts, isDown_foldl (fun _ => isPart_of_mem_partsOf) p.down⟩

/-- The place itself and the directories above it, up to the top of the tree. -/
def ancestors (p : Place) : List Place :=
  (List.range (p.parts.length + 1)).map fun n =>
    ⟨p.parts.take (p.parts.length - n), fun part h => p.down part (List.mem_of_mem_take h)⟩

/-- The path of a place when the tree stands below the directory that `root` spells. -/
def below (root : List Text) (p : Place) : Path := ⟨.top, root ++ p.parts⟩

/-- The path of a place when there is nothing but the tree. -/
abbrev path (p : Place) : Path := p.below []

variable {p q : Place} {s : Text}

theorem below_injective (root : List Text) : Function.Injective (below root) := by
  rintro ⟨ps, hps⟩ ⟨qs, hqs⟩ h
  simpa [below] using h

theorem parts_ne_nil (h : p ≠ top) : p.parts ≠ [] := by
  obtain ⟨parts, hparts⟩ := p
  simpa [top] using h

section Below

variable {root : List Text} (hroot : ∀ part ∈ root, IsDown part)

include hroot in
theorem normal_below (p : Place) : (p.below root).Normal := by
  refine ⟨by simp [below], fun part h => ?_⟩
  rcases List.mem_append.1 h with h | h
  · exact hroot part h
  · exact p.down part h

theorem normal_path (p : Place) : p.path.Normal := normal_below (by simp) p

theorem join_below (hs : IsDown s) : (p.below root).join s = (p.child s hs).below root := by
  rw [Path.join, hs.ofText]
  simp [append, isAbsolute, below, child]

theorem join_path (hs : IsDown s) : p.path.join s = (p.child s hs).path := join_below hs

theorem parent_below (hp : p ≠ top) : (p.below root).parent = p.parent.below root := by
  simp [Path.parent, below, parent, List.dropLast_append_of_ne_nil (parts_ne_nil hp)]

theorem name_below (hp : p ≠ top) : (p.below root).name = p.path.name := by
  simp [Path.name, below, List.getLast?_eq_some_getLast (parts_ne_nil hp)]

theorem withName_below (hp : p ≠ top) (hs : IsDown s) :
    (p.below root).withName s = .ok ((p.parent.child s hs).below root) := by
  have hparts := parts_ne_nil hp
  simp [withName, below, hs.isName, child, parent, hparts, List.dropLast_append_of_ne_nil hparts]

include hroot in
/-- A text that stays inside the tree leads to the same place wherever the tree stands. -/
theorem normalize_join_below {cwd : Path} (hs : StaysInside p.parts s) :
    normalize cwd ((p.below root).join s).text = (p.follow s).below root := by
  rw [normalize_text_of_anchored (anchored_join (normal_below hroot p).anchored s)]
  have hjoin : (p.below root).join s = ⟨.top, root ++ p.parts ++ partsOf s⟩ := by
    simp [Path.join, append, isAbsolute, ofText, hs.relative, below]
  have hfold : (root ++ p.parts).foldl foldPart [] = root ++ p.parts :=
    foldl_foldPart_of_isDown (normal_below hroot p).parts []
  rw [hjoin, List.foldl_append, hfold, foldl_foldPart_append hs.within]
  rfl

theorem parts_of_mem_ancestors {d : Place} (h : d ∈ p.ancestors) : d.parts <+: p.parts := by
  obtain ⟨n, -, rfl⟩ := List.mem_map.1 h
  exact List.take_prefix _ _

theorem ancestors_path (p : Place) : p.path.ancestors = p.ancestors.map path := by
  simp [Path.ancestors, ancestors, below]

/-- Above a place there are the directories of the tree, and above these the ones that the tree stands
in. -/
theorem ancestors_below (hne : root ≠ []) (p : Place) :
    (p.below root).ancestors =
      p.ancestors.map (below root) ++ (⟨.top, root.dropLast⟩ : Path).ancestors := by
  have hlength : 0 < root.length := List.length_pos_iff.2 hne
  have hrange : (p.below root).parts.length + 1 = (p.parts.length + 1) + root.length := by
    simp [below]
    omega
  have houter : root.dropLast.length + 1 = root.length := by
    rw [List.length_dropLast]
    omega
  rw [Path.ancestors, hrange, List.range_add, List.map_append]
  congr 1
  · rw [ancestors, List.map_map]
    refine List.map_congr_left fun n hn => ?_
    have hn := List.mem_range.1 hn
    have htake : (root ++ p.parts).take (root.length + p.parts.length - n) =
        root ++ p.parts.take (p.parts.length - n) := by
      rw [List.take_append, List.take_of_length_le (by omega)]
      congr 2
      omega
    simp [below, htake]
  · rw [Path.ancestors, houter, List.map_map]
    refine List.map_congr_left fun k hk => ?_
    have hk := List.mem_range.1 hk
    have htake : (root ++ p.parts).take (root.length + p.parts.length - (p.parts.length + 1 + k)) =
        root.dropLast.take (root.dropLast.length - k) := by
      rw [List.take_append_of_le_length (by omega), List.dropLast_eq_take, List.take_take,
        List.length_take]
      congr 1
      omega
    simp only [Function.comp_apply, below, List.length_append, htake]

theorem shared_append (front as bs : List Text) :
    shared (front ++ as) (front ++ bs) = front ++ shared as bs := by
  induction front with
  | nil => rfl
  | cons a front ih => simp [shared, ih]

include hroot in
/-- How one place is reached from another does not depend on where the tree stands. -/
theorem relativeTo_below {cwd cwd' : Path} (p q : Place) :
    relativeTo cwd (p.below root) (q.below root) = relativeTo cwd' p.path q.path := by
  have hsteps : (q.below root).parts.length -
        (shared (q.below root).parts (p.below root).parts).length =
      q.path.parts.length - (shared q.path.parts p.path.parts).length := by
    simp only [below, shared_append, List.length_append]
    omega
  have hgoal : (p.below root).parts.drop (shared (q.below root).parts (p.below root).parts).length =
      p.path.parts.drop (shared q.path.parts p.path.parts).length := by
    simp [below, shared_append]
  simp only [relativeTo, (normal_below hroot _).normalize_text, (normal_path _).normalize_text, hsteps,
    hgoal]

theorem exists_slash_join (front : List Text) (last : Text) :
    ∃ s : Text, CodePoint.ofChar '/' :: Text.join "/" (front ++ [last]) =
      s ++ CodePoint.ofChar '/' :: last := by
  induction front with
  | nil => exact ⟨[], by simp [Text.join]⟩
  | cons a front ih =>
    obtain ⟨s, hs⟩ := ih
    obtain ⟨b, rest, hrest⟩ := List.exists_cons_of_ne_nil (List.append_ne_nil_of_right_ne_nil front
      (List.cons_ne_nil last []))
    refine ⟨CodePoint.ofChar '/' :: a ++ s, ?_⟩
    rw [hrest] at hs
    rw [List.cons_append, hrest, join_slash_cons_cons, hs]
    simp

/-- The text of a place ends with its name, behind a slash. -/
theorem exists_text_below (root : List Text) (hp : p ≠ top) :
    ∃ front : Text, (p.below root).text = front ++ CodePoint.ofChar '/' :: p.path.name := by
  have hparts := parts_ne_nil hp
  have hname : p.path.name = p.parts.getLast hparts := by
    simp [Path.name, below, List.getLast?_eq_some_getLast hparts]
  have hsplit : root ++ p.parts = (root ++ p.parts.dropLast) ++ [p.parts.getLast hparts] := by
    rw [List.append_assoc, List.dropLast_concat_getLast]
  obtain ⟨s, hs⟩ := exists_slash_join (root ++ p.parts.dropLast) (p.parts.getLast hparts)
  refine ⟨s, ?_⟩
  rw [hname, ← hs, ← hsplit]
  rfl

/-- An extension is looked for in the name of a place alone. -/
theorem isSuffixOf_text_below {ext : Text} (hp : p ≠ top) (hext : CodePoint.ofChar '/' ∉ ext) :
    ext.isSuffixOf (p.below root).text = ext.isSuffixOf p.path.name := by
  obtain ⟨front, htext⟩ := exists_text_below root hp
  rw [Bool.eq_iff_iff, List.isSuffixOf_iff_suffix, List.isSuffixOf_iff_suffix, htext]
  refine ⟨fun h => ?_, fun h => (h.trans (List.suffix_cons _ _)).trans (List.suffix_append _ _)⟩
  rcases List.suffix_or_suffix_of_suffix h (List.suffix_append _ _) with h | h
  · rcases List.suffix_cons_iff.1 h with rfl | h
    · simp at hext
    · exact h
  · exact absurd (h.subset List.mem_cons_self) hext

end Below

end Place

end ScriptBundle
