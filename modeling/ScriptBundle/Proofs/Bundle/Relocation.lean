import ScriptBundle.Proofs.Bundle.Requires
import ScriptBundle.Proofs.Project.Modules
import ScriptBundle.Proofs.Script.Complete

/-!
# Builds at two sites

A build that uses no external command does not depend on where its project stands. Everything that it
takes from the absolute path of a file is the same at every site: whether the file is typed, and how it
is reached from the directory of the entry. So when nothing leads out of the project, two sites have the
same bundle or both have none. The entry must not lead out either, since it is seen from the directory
of the project: `not_bundle_relocates_climbing_entry` finds a project again by the name of its
directory.

* `isTypedFile_path`, `transpile_agrees`: bodies;
* `complete_of_same`, `text_eq`, `generate_agrees`: scripts;
* `bundle_agrees`, `bundle_relocates`: whole builds;
* `not_bundle_relocates_climbing_entry`: an entry that leads out of the project and back.
-/

namespace ScriptBundle

namespace Site

open Path

variable {P : Project} {a b : Site P} {m n : Module} {ms ns : List Module}

theorem SameModule.symm (h : SameModule a b m n) : SameModule b a n m := by
  obtain ⟨p, hp, hm, hn⟩ := h.place
  exact ⟨⟨p, hp, hn, hm⟩, h.id_eq.symm, h.dependencies_eq.symm, h.source_eq.symm, h.body_eq.symm⟩

/-! ### Bodies -/

/-- Whether a file is typed shows in its name alone. -/
theorem isTypedFile_path (s : Site P) {p : Place} (hp : p ≠ .top) :
    isTypedFile (s.path p).text = isTypedFile p.path.name := by
  have hslash : ∀ ext ∈ [Text.ofString ".ts", Text.ofString ".tsx", Text.ofString ".mts",
      Text.ofString ".cts"], CodePoint.ofChar '/' ∉ ext := by decide
  unfold isTypedFile
  rw [Bool.eq_iff_iff, List.any_eq_true, List.any_eq_true]
  refine exists_congr fun ext => and_congr_right fun hext => ?_
  have hsuffix : ext.isSuffixOf (s.path p).text = ext.isSuffixOf p.path.name :=
    Place.isSuffixOf_text_below hp (hslash ext hext)
  rw [hsuffix]

/-- A source is lowered to the same body at both sites. -/
theorem transpile_agrees (a b : Site P) {p : Place} (hp : p ≠ .top) (source : Text) :
    Agree (· = ·) (Lowering.transpile (a.path p).text source).result
      (Lowering.transpile (b.path p).text source).result := by
  unfold Lowering.transpile
  rw [isTypedFile_path a hp, isTypedFile_path b hp]
  cases scanSource source with
  | error f => exact .error _ _
  | ok scanned =>
    obtain ⟨tokens, statements⟩ := scanned
    simp only
    cases if isTypedFile p.path.name then findTypeSyntax tokens statements else none with
    | some t => exact .error _ _
    | none =>
      simp only
      split
      · exact .ok rfl
      · exact .ok rfl

/-! ### Scripts -/

theorem complete_of_same (h : List.Forall₂ (SameModule a b) ms ns) (hms : Script.Complete ms) :
    Script.Complete ns := by
  refine ⟨fun hnil => ?_, fun {i n} hn => ?_, fun n hn => ?_, fun n hn d hd => ?_⟩
  · subst hnil
    cases h
    exact hms.nonempty rfl
  · obtain ⟨m, hm, hmn⟩ := exists_of_forall₂_of_getElem? h hn
    exact hmn.id_eq ▸ hms.id_eq hm
  · obtain ⟨m, hm, hmn⟩ := exists_of_forall₂_of_mem h hn
    exact hmn.body_eq ▸ hms.body m hm
  · obtain ⟨m, hm, hmn⟩ := exists_of_forall₂_of_mem h hn
    rw [← h.length_eq]
    exact hms.dependencies m hm d (hmn.dependencies_eq ▸ hd)

/-- The lines of a module, when paths are shown as they are reached from a place of the project. -/
theorem moduleLines_eq (h : SameModule a b m n) (base : Place) :
    Script.moduleLines a.workspace.cwd (a.path base) m =
      Script.moduleLines b.workspace.cwd (b.path base) n := by
  obtain ⟨p, -, hm, hn⟩ := h.place
  have hrelative : relativeTo a.workspace.cwd (a.path p) (a.path base) =
      relativeTo b.workspace.cwd (b.path p) (b.path base) :=
    calc
      _ = relativeTo a.workspace.cwd p.path base.path := Place.relativeTo_below a.down p base
      _ = _ := (Place.relativeTo_below b.down p base).symm
  have hdisplay : Script.displayPath a.workspace.cwd (a.path base) m.path =
      Script.displayPath b.workspace.cwd (b.path base) n.path := by
    rw [hm, hn, Script.displayPath, Script.displayPath, hrelative]
  rw [Script.moduleLines, Script.moduleLines, hdisplay, h.id_eq, h.dependencies_eq, h.body_eq]

/-- The scripts of the same modules are the same text. -/
theorem text_eq (h : List.Forall₂ (SameModule a b) ms ns) (hne : ms ≠ []) :
    Script.text a.workspace.cwd none ms = Script.text b.workspace.cwd none ns := by
  -- Paths are shown as they are reached from the directory of the first module.
  obtain ⟨base, hbase⟩ : ∃ base : Place, ms.head?.map (·.path.parent) = some (a.path base) ∧
      ns.head?.map (·.path.parent) = some (b.path base) := by
    cases h with
    | nil => exact absurd rfl hne
    | cons hmn _ =>
      obtain ⟨p, hp, hm, hn⟩ := hmn.place
      refine ⟨p.parent, ?_, ?_⟩
      · simp only [List.head?_cons, Option.map_some, hm]
        exact congrArg some (Place.parent_below hp)
      · simp only [List.head?_cons, Option.map_some, hn]
        exact congrArg some (Place.parent_below hp)
  have hlines : ms.flatMap (Script.moduleLines a.workspace.cwd (a.path base)) =
      ns.flatMap (Script.moduleLines b.workspace.cwd (b.path base)) := by
    clear hbase hne
    induction h with
    | nil => rw [List.flatMap_nil, List.flatMap_nil]
    | cons hmn _ ih => rw [List.flatMap_cons, List.flatMap_cons, moduleLines_eq hmn base, ih]
  simp only [Script.text, Script.lines, hbase, Option.getD_none, Option.getD_some, hlines]

/-- Two scripts are generated from the same modules, or none. -/
theorem generate_agrees (h : List.Forall₂ (SameModule a b) ms ns) :
    Agree (· = ·) (Script.generate a.workspace.cwd none ms).result
      (Script.generate b.workspace.cwd none ns).result := by
  have hback : List.Forall₂ (SameModule b a) ns ms := h.flip.imp fun _ _ hmn => SameModule.symm hmn
  refine Logged.agree_bind (R := fun _ _ => Script.Complete ms) ?_ fun _ _ hms => ?_
  · show Agree _ ((Script.check ms).mapError _) ((Script.check ns).mapError _)
    cases hms : Script.check ms with
    | ok _ =>
      have hcomplete := Script.check_eq_ok_iff.1 hms
      rw [Script.check_eq_ok_iff.2 (complete_of_same h hcomplete)]
      exact .ok hcomplete
    | error f =>
      cases hns : Script.check ns with
      | ok _ =>
        rw [Script.check_eq_ok_iff.2 (complete_of_same hback (Script.check_eq_ok_iff.1 hns))] at hms
        cases hms
      | error g => exact .error _ _
  · rw [text_eq h hms.nonempty]
    exact .ok rfl

/-! ### Whole builds -/

/-- The build of the project at the site, without external commands. -/
def toolchain (s : Site P) : Toolchain := ⟨s.resolver, .lowering, .none⟩

theorem checkProgram_agrees (a b : Site P) (x y : Path) :
    Build.Agrees (· = ·) (a.toolchain.checkProgram x) (b.toolchain.checkProgram y) :=
  Build.Agrees.pure rfl

theorem transpileModule_agrees (h : SameModule a b m n) :
    Build.Agrees (SameModule a b) (a.toolchain.transpileModule m) (b.toolchain.transpileModule n) := by
  obtain ⟨p, hp, hm, hn⟩ := h.place
  refine (Build.Agrees.log _ _).bind fun _ _ _ => ?_
  have hbody : Build.Agrees (· = ·)
      (a.toolchain.transpiler.transpile m.path.text (m.source?.getD []))
      (b.toolchain.transpiler.transpile n.path.text (n.source?.getD [])) := by
    rw [hm, hn, h.source_eq]
    exact .ofLogged (transpile_agrees a b hp _)
  refine hbody.bind ?_
  rintro body _ rfl
  exact .pure ⟨⟨p, hp, hm, hn⟩, h.id_eq, h.dependencies_eq, h.source_eq, rfl⟩

/-- Builds at two sites end alike, and bundles have the same modules and the same code. -/
theorem bundle_agrees (hP : P.IsPlain) (hself : P.SelfContained) (a b : Site P) {entry : Text}
    (hentry : StaysInside [] entry) :
    Build.Agrees (fun x y => List.Forall₂ (SameModule a b) x.modules y.modules ∧ x.code = y.code)
      (a.toolchain.bundle entry) (b.toolchain.bundle entry) := by
  refine (Build.Agrees.log _ _).bind fun _ _ _ => (Build.Agrees.log _ _).bind fun _ _ _ => ?_
  have hfile : Build.Agrees (SamePlace a b) (a.toolchain.resolveEntry entry)
      (b.toolchain.resolveEntry entry) :=
    .ofExcept (resolveRelative_agrees hP a.baseDirectory_none b.baseDirectory_none hentry)
  refine hfile.bind fun x y hxy => ?_
  refine (Build.Agrees.log _ _).bind fun _ _ _ => (Build.Agrees.log _ _).bind fun _ _ _ => ?_
  refine (checkProgram_agrees a b x y).bind fun _ _ _ => (Build.Agrees.log _ _).bind fun _ _ _ => ?_
  refine (Build.Agrees.ofLogged (graph_agrees hP hself hxy)).bind fun g g' hg => ?_
  refine (Build.Agrees.log _ _).bind fun _ _ _ => (Build.Agrees.log _ _).bind fun _ _ _ => ?_
  refine (Build.Agrees.mapM (hg.imp fun _ _ hmn => transpileModule_agrees hmn)).bind fun ms ns hms => ?_
  refine (Build.Agrees.log _ _).bind fun _ _ _ => ?_
  refine (Build.Agrees.ofLogged (generate_agrees hms)).bind fun code code' hcode => ?_
  exact (Build.Agrees.log _ _).bind fun _ _ _ => .pure ⟨hms, hcode⟩

/-- Where a project stands does not matter, if nothing leads out of it, the entry included: with its
files below one directory a build gives a bundle exactly when it does so with them below another one,
and then both bundles are the same text. -/
theorem bundle_relocates (hP : P.IsPlain) (hself : P.SelfContained) (a b : Site P) {entry : Text}
    (hentry : StaysInside [] entry) (s t : Session) :
    ((∃ x, ((a.toolchain.bundle entry).run s).1 = .ok x) ↔
      ∃ y, ((b.toolchain.bundle entry).run t).1 = .ok y) ∧
    ∀ x y, ((a.toolchain.bundle entry).run s).1 = .ok x →
      ((b.toolchain.bundle entry).run t).1 = .ok y → x.code = y.code := by
  have h := bundle_agrees hP hself a b hentry s t
  exact ⟨h.exists_ok_iff, fun x y hx hy => (h.rel hx hy).2⟩

/-- The site of a project below a directory. -/
def ofRoot (P : Project) (root : Location) (hdown : ∀ part ∈ root, IsDown part) (hne : root ≠ [])
    (hpackages : P.settings.packageDirectory ∉ root) : Site P :=
  ⟨P.tree.moved root, root, FileTree.holds_moved P.tree root, hdown, hne, hpackages⟩

/-- A project of a file that imports its neighbour and a package with a manifest. -/
def packageProject : Project where
  tree := (((FileTree.empty.insertFile ["a.ts"]
      (.file "import './b'; import 'q'".toUTF8.toList)).insertFile ["b.ts"]
      (.file "b();".toUTF8.toList)).insertFile ["node_modules", "q", "package.json"]
      (.file "\x7b\"main\": \"lib/../m.js\"\x7d".toUTF8.toList)).insertFile
        ["node_modules", "q", "m.js"] (.file "q();".toUTF8.toList)
  settings := {}

/-- The project in the directory `/w/proj`. -/
def inProj : Site packageProject := ofRoot _ ["w", "proj"] (by decide) (by decide) (by decide)

/-- The project in the directory `/w/other`. -/
def inOther : Site packageProject := ofRoot _ ["w", "other"] (by decide) (by decide) (by decide)

theorem isPlain_packageProject : packageProject.IsPlain := Project.isPlain_of_default rfl

theorem selfContained_packageProject : packageProject.SelfContained := by
  refine .of_entries ?_ ?_ <;> decide +kernel

/-- In both directories the build from `a` gives a bundle of three modules, with one and the same text. -/
theorem bundle_relocates_packageProject :
    packageProject.IsPlain ∧ packageProject.SelfContained ∧ StaysInside [] "a" ∧
      ∃ x y, ((inProj.toolchain.bundle "a").run {}).1 = .ok x ∧
        ((inOther.toolchain.bundle "a").run {}).1 = .ok y ∧ x.modules.length = 3 ∧ x.code = y.code := by
  have hentry : StaysInside [] "a" := by decide
  obtain ⟨hiff, hcode⟩ := bundle_relocates isPlain_packageProject selfContained_packageProject inProj
    inOther hentry {} {}
  have h : ((inProj.toolchain.bundle "a").run {}).1.toOption.any (·.modules.length = 3) := by
    decide +kernel
  obtain ⟨x, hx, hlength⟩ := Except.exists_of_any_toOption h
  obtain ⟨y, hy⟩ := hiff.1 ⟨x, hx⟩
  exact ⟨isPlain_packageProject, selfContained_packageProject, hentry, x, y, hx, hy,
    of_decide_eq_true hlength, hcode x y hx hy⟩

/-- The condition on the entry cannot be left out. The entry `../proj/a` leads out of the project and
back through the name of its directory, so there is a bundle below `/w/proj`, and none below
`/w/other`. -/
theorem not_bundle_relocates_climbing_entry :
    packageProject.IsPlain ∧ packageProject.SelfContained ∧ rootOf "../proj/a" = .working ∧
      (∃ x, ((inProj.toolchain.bundle "../proj/a").run {}).1 = .ok x) ∧
      ¬∃ y, ((inOther.toolchain.bundle "../proj/a").run {}).1 = .ok y := by
  refine ⟨isPlain_packageProject, selfContained_packageProject, by decide, ?_, ?_⟩
  · have h : ((inProj.toolchain.bundle "../proj/a").run {}).1.toOption.any (fun _ => true) := by
      decide +kernel
    obtain ⟨x, hx, -⟩ := Except.exists_of_any_toOption h
    exact ⟨x, hx⟩
  · have h : ((inOther.toolchain.bundle "../proj/a").run {}).1.toOption.isNone := by decide +kernel
    rintro ⟨y, hy⟩
    rw [hy] at h
    cases h

end Site

end ScriptBundle
