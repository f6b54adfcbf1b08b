import Mathlib.Data.List.Forall2
import ScriptBundle.Bundle
import ScriptBundle.Proofs.Lowering.Prologue
import ScriptBundle.Proofs.ModuleGraph.Closure

/-!
# The modules that a bundled module runs

Discovery and lowering read a source independently of each other: one fills the table of the module,
the other writes the calls that look specifiers up in it. They agree. The calls of a body are those
of the statements that name a module and are not erased, in their order, and each finds its literal in
the table.

* `forall₂_of_run_mapM`, `modules_of_bundle`: the modules of a bundle are those of the graph, each with
  its lowered source as its body;
* `RunsItsEdges`: what is said about one module;
* `runsItsEdges_of_bundle`: all modules of a bundle satisfy it.
-/

namespace ScriptBundle

open Lowering

/-- What stands on the right of a pairwise relation has a partner at the same position on the left. -/
theorem exists_of_forall₂_of_getElem? {α β : Type} {R : α → β → Prop} {as : List α} {bs : List β}
    (h : List.Forall₂ R as bs) {i : Nat} {b : β} (hb : bs[i]? = some b) :
    ∃ a, as[i]? = some a ∧ R a b := by
  induction h generalizing i with
  | nil => cases hb
  | cons hab _ ih =>
    cases i with
    | zero =>
      cases hb
      exact ⟨_, rfl, hab⟩
    | succ i => exact ih hb

theorem exists_of_forall₂_of_mem {α β : Type} {R : α → β → Prop} {as : List α} {bs : List β}
    (h : List.Forall₂ R as bs) {b : β} (hb : b ∈ bs) : ∃ a ∈ as, R a b := by
  obtain ⟨i, hi⟩ := List.getElem?_of_mem hb
  obtain ⟨a, ha, hab⟩ := exists_of_forall₂_of_getElem? h hi
  exact ⟨a, List.mem_of_getElem? ha, hab⟩

namespace Build

/-- An action on each element of a list gives the result of each. -/
theorem forall₂_of_run_mapM {α β : Type} {f : α → Build β} {as : List α} {bs : List β}
    {s s' : Session} (h : (as.mapM f).run s = (.ok bs, s')) :
    List.Forall₂ (fun a b => ∃ t t', (f a).run t = (.ok b, t')) as bs := by
  induction as generalizing bs s s' with
  | nil =>
    rw [List.mapM_nil] at h
    rw [← eq_of_run_pure h]
    exact .nil
  | cons a as ih =>
    rw [List.mapM_cons] at h
    obtain ⟨b, t, hb, h⟩ := run_bind_eq_ok h
    obtain ⟨bs', t', hbs, h⟩ := run_bind_eq_ok h
    rw [← eq_of_run_pure h]
    exact .cons ⟨_, _, hb⟩ (ih hbs)

end Build

namespace Lowering

/-- What stands behind the prologue: the source without its module statements. -/
def remainder (source : Text) (statements : List Statement) : Text :=
  if statements.isEmpty then hideHashbang source
  else " " ++ applyEdits 0 (hideHashbang source) (statements.flatMap (·.edits (hideHashbang source)))

/-- The pieces of the prologue that a list of module statements has, if there is a statement. -/
def prologuePieces (statements : List Statement) : List Piece :=
  if statements.isEmpty then [] else pieces statements

theorem lower_eq (source : Text) (statements : List Statement) :
    lower source statements =
      Text.join " " ((prologuePieces statements).map Piece.text) ++ remainder source statements := by
  cases hs : statements.isEmpty with
  | true => simp [lower, prologuePieces, remainder, hs, Text.join]
  | false => simp [lower, prologuePieces, remainder, hs, map_text_pieces]

end Lowering

namespace Script

/-- The lines of the table of a module. -/
def tableLines (m : Module) : List Text := m.dependencies.map fun (s, i) => dependencyLine s i

/-- A list of lines as text. -/
def linesText (ls : List Text) : Text := ls.flatMap (· ++ Text.lineFeed)

/-- The body of a module and its table stand next to each other in the script. -/
theorem text_eq_append {cwd : Path} {root? : Option Path} {modules : List Module} {m : Module}
    (h : m ∈ modules) :
    ∃ front back, text cwd root? modules = front ++
      linesText ([m.body?.getD [], Text.ofString "\x7d, \x7b"] ++ tableLines m ++
        [Text.ofString "\x7d", Text.ofString "],"]) ++ back := by
  obtain ⟨before, after, rfl⟩ := List.append_of_mem h
  let root := root?.getD (((before ++ m :: after).head?.map (·.path.parent)).getD cwd)
  refine ⟨linesText (opening ++ before.flatMap (moduleLines cwd root) ++
      ["/* " ++ displayPath cwd root m.path ++ " */", Text.ofInt m.id ++ ": [", functionHead]),
    linesText (after.flatMap (moduleLines cwd root) ++ [closing]), ?_⟩
  simp only [text, lines, linesText, moduleLines, tableLines, List.flatMap_append,
    List.flatMap_cons, List.flatMap_nil, List.append_assoc, List.append_nil, List.nil_append,
    List.cons_append, root]

theorem generate_eq_ok {cwd : Path} {root? : Option Path} {modules : List Module} {code : Text}
    (h : (generate cwd root? modules).result = .ok code) : code = text cwd root? modules := by
  obtain ⟨_, _, h⟩ := Logged.result_bind_eq_ok_iff.1 h
  obtain ⟨_, _, h⟩ := Logged.result_bind_eq_ok_iff.1 h
  cases h
  rfl

end Script

namespace Toolchain

variable {tools : Toolchain} {entry : Text} {session session' : Session}

theorem transpileModule_eq_ok {m m' : Module} (ht : tools.transpiler = .lowering)
    (h : (tools.transpileModule m).run session = (.ok m', session')) :
    ∃ body, (Lowering.transpile m.path.text (m.source?.getD [])).result = .ok body ∧
      m' = { m with body? := some body } := by
  obtain ⟨_, _, _, h⟩ := Build.run_bind_eq_ok h
  obtain ⟨body, _, hbody, h⟩ := Build.run_bind_eq_ok h
  rw [ht] at hbody
  exact ⟨body, Build.result_of_run_ofLogged hbody, (Build.eq_of_run_pure h).symm⟩

/-- The modules of a bundle are those of the graph of its entry, with lowered sources. -/
theorem modules_of_bundle {b : Bundle} (ht : tools.transpiler = .lowering)
    (h : (tools.bundle entry).run session = (.ok b, session')) :
    ∃ path g, tools.resolver.resolveEntry entry = .ok path ∧
      (Discovery.graph tools.resolver path.text).result = .ok g ∧
      List.Forall₂ (fun m m' => ∃ body,
        (Lowering.transpile m.path.text (m.source?.getD [])).result = .ok body ∧
          m' = { m with body? := some body }) g.modules b.modules ∧
      b.code = Script.text tools.resolver.workspace.cwd none b.modules := by
  obtain ⟨_, _, _, h⟩ := Build.run_bind_eq_ok h
  obtain ⟨_, _, _, h⟩ := Build.run_bind_eq_ok h
  obtain ⟨path, _, hpath, h⟩ := Build.run_bind_eq_ok h
  obtain ⟨_, _, _, h⟩ := Build.run_bind_eq_ok h
  obtain ⟨_, _, _, h⟩ := Build.run_bind_eq_ok h
  obtain ⟨_, _, _, h⟩ := Build.run_bind_eq_ok h
  obtain ⟨_, _, _, h⟩ := Build.run_bind_eq_ok h
  obtain ⟨g, _, hg, h⟩ := Build.run_bind_eq_ok h
  obtain ⟨_, _, _, h⟩ := Build.run_bind_eq_ok h
  obtain ⟨_, _, _, h⟩ := Build.run_bind_eq_ok h
  obtain ⟨modules, _, hmodules, h⟩ := Build.run_bind_eq_ok h
  obtain ⟨_, _, _, h⟩ := Build.run_bind_eq_ok h
  obtain ⟨code, _, hcode, h⟩ := Build.run_bind_eq_ok h
  obtain ⟨_, _, _, h⟩ := Build.run_bind_eq_ok h
  obtain rfl := Build.eq_of_run_pure h
  refine ⟨path, g, Build.result_of_run_ofExcept hpath, Build.result_of_run_ofLogged hg, ?_,
    Script.generate_eq_ok (Build.result_of_run_ofLogged hcode)⟩
  refine (Build.forall₂_of_run_mapM hmodules).imp ?_
  rintro m m' ⟨t, t', hm⟩
  exact transpileModule_eq_ok ht hm

end Toolchain

/-- What the pieces in front of the body of a module have to do with its source and with its table in
the script `code`. -/
structure RunsItsEdges (code source : Text) (m : Module) (ps : List Piece) : Prop where
  /-- The modules that are run are those that the source names, without the erased statements. -/
  order : ∃ edges, moduleEdges source = .ok edges ∧
    ps.filterMap Piece.specifier? = (edges.filter (!·.isErased)).filterMap (·.specifier?)
  /-- No getter stands behind a call. -/
  gettersFirst : ps.Pairwise fun p q => p.specifier?.isSome → q.isGetter = false
  /-- The specifier of a call is in the table, where it has the literal that it has in the call. -/
  keyed : ∀ p ∈ ps, ∀ specifier, p.specifier? = some specifier →
    ∃ literal id front back, p.text = front ++ "require(" ++ literal ++ ")" ++ back ∧
      (specifier, id) ∈ m.dependencies ∧
      Script.dependencyLine specifier id = literal ++ ": " ++ Text.ofInt id ++ ","
  /-- The table stands in the script, behind the body. -/
  table : ∃ front back, code = front ++
    Script.linesText ([m.body?.getD [], Text.ofString "\x7d, \x7b"] ++ Script.tableLines m ++
      [Text.ofString "\x7d", Text.ofString "],"]) ++ back

/-- The edges of a source are those of its module statements that name a module. -/
theorem moduleEdges_of_moduleStatements {source : Text} {statements : List Statement}
    (h : moduleStatements source = .ok statements) :
    moduleEdges source = .ok (statements.filter (·.specifier?.isSome)) := by
  rw [moduleEdges, h, Except.map_ok]

theorem edgesOf_eq_ok {path : Path} {source : Text} {statements : List Statement}
    {edges : List Text} (hs : moduleEdges source = .ok statements)
    (h : Discovery.edgesOf path source = .ok edges) :
    edges = statements.filterMap (·.specifier?) := by
  rw [Discovery.edgesOf, hs] at h
  cases h
  rfl

/-- A statement that is erased or not, the modules that are left are among the edges. -/
theorem filterMap_specifier?_edges (statements : List Statement) :
    ((statements.filter (·.specifier?.isSome)).filter (!·.isErased)).filterMap (·.specifier?) =
      (statements.filter (!·.isErased)).filterMap (·.specifier?) := by
  induction statements with
  | nil => rfl
  | cons s ss ih =>
    cases he : s.isErased with
    | true => cases hs : s.specifier? <;> simpa [he, hs] using ih
    | false => cases hs : s.specifier? <;> simpa [he, hs] using ih

theorem filterMap_specifier?_prologuePieces (statements : List Statement) :
    (prologuePieces statements).filterMap Piece.specifier? =
      (statements.filter (!·.isErased)).filterMap (·.specifier?) := by
  cases statements with
  | nil => rfl
  | cons s ss => exact filterMap_specifier?_pieces (s :: ss)

theorem gettersFirst_prologuePieces (statements : List Statement) :
    (prologuePieces statements).Pairwise fun p q => p.specifier?.isSome → q.isGetter = false := by
  cases statements with
  | nil => exact .nil
  | cons s ss => exact gettersFirst_pieces (s :: ss)

/-- The body of every module of a bundle consists of its prologue and of its source without module
statements, and its calls run what its statements name. -/
theorem runsItsEdges_of_bundle {tools : Toolchain} {entry : Text} {session session' : Session}
    {b : Bundle} (ht : tools.transpiler = .lowering)
    (h : (tools.bundle entry).run session = (.ok b, session')) :
    ∀ m ∈ b.modules, ∃ source statements, m.source? = some source ∧
      moduleStatements source = .ok statements ∧
      m.body? = some (Text.join " " ((prologuePieces statements).map Piece.text) ++
        remainder source statements) ∧
      RunsItsEdges b.code source m (prologuePieces statements) := by
  obtain ⟨path, g, -, hg, hmodules, hcode⟩ := Toolchain.modules_of_bundle ht h
  obtain ⟨registry, hprogress, -⟩ := Discovery.progress_of_graph hg
  intro m' hm'
  obtain ⟨m, hm, body, hbody, rfl⟩ := exists_of_forall₂_of_mem hmodules hm'
  obtain ⟨source, edges, -, hsource, hedges, hkeys⟩ := (hprogress.tells m hm).source
  rw [hsource, Option.getD_some] at hbody
  obtain ⟨tokens, statements, hscan, rfl⟩ := transpile_eq_ok hbody
  have hstatements : moduleStatements source = .ok statements := by
    rw [moduleStatements, hscan, Except.map_ok]
  have hmoduleEdges := moduleEdges_of_moduleStatements hstatements
  refine ⟨source, statements, hsource, hstatements, congrArg some (lower_eq source statements),
    ⟨_, hmoduleEdges, ?_⟩, gettersFirst_prologuePieces statements, ?_, ?_⟩
  · rw [filterMap_specifier?_prologuePieces, filterMap_specifier?_edges]
  · intro p hp specifier hspecifier
    have hmem : specifier ∈ (prologuePieces statements).filterMap Piece.specifier? :=
      List.mem_filterMap.2 ⟨p, hp, hspecifier⟩
    have hedge : specifier ∈ edges := by
      rw [edgesOf_eq_ok hmoduleEdges hedges]
      rw [filterMap_specifier?_prologuePieces, ← filterMap_specifier?_edges] at hmem
      obtain ⟨s, hs, hspec⟩ := List.mem_filterMap.1 hmem
      exact List.mem_filterMap.2 ⟨s, (List.mem_filter.1 hs).1, hspec⟩
    have hkey : specifier ∈ m.dependencies.map (·.1) := hkeys ▸ List.mem_eraseDups.2 hedge
    obtain ⟨⟨key, id⟩, hd, hkey⟩ := List.mem_map.1 hkey
    obtain rfl : key = specifier := hkey
    obtain ⟨front, back, htext⟩ := Piece.text_of_specifier? hspecifier
    refine ⟨StringLiteral.encode key, id, front, back, ?_, hd, rfl⟩
    rw [htext, requireCall]
    simp only [List.append_assoc]
  · rw [hcode]
    exact Script.text_eq_append hm'

/-- A program whose first file imports, forwards and erases. -/
def forwardingProgram : Toolchain where
  resolver :=
    { workspace :=
        { tree := (FileTree.empty.insertFile ["p", "a.ts"]
              (.file (("import './b'; import type T from './a'; import {type U} from './b'\n" ++
                "export {x} from './\\x62'; export * from './a'").toUTF8.toList))).insertFile
              ["p", "b.ts"] (.file "export let x = 1; import './a'".toUTF8.toList)
          cwd := ⟨.top, ["p"]⟩ }
      settings := {}
      directory := ⟨.top, ["p"]⟩ }
  transpiler := .lowering
  checker := .none

theorem runsItsEdges_forwardingProgram :
    ∃ b session', (forwardingProgram.bundle "a").run {} = (.ok b, session') ∧
      b.modules.length = 2 ∧
      ∀ m ∈ b.modules, ∃ source statements, m.source? = some source ∧
        moduleStatements source = .ok statements ∧
        m.body? = some (Text.join " " ((prologuePieces statements).map Piece.text) ++
          remainder source statements) ∧
        RunsItsEdges b.code source m (prologuePieces statements) := by
  have h : ((forwardingProgram.bundle "a").run {}).1.toOption.map (·.modules.length) = some 2 := by
    decide +kernel
  cases hr : (forwardingProgram.bundle "a").run {} with
  | mk result session' =>
    rw [hr] at h
    cases result with
    | error e => cases h
    | ok b => exact ⟨b, session', rfl, Option.some.inj h, runsItsEdges_of_bundle rfl hr⟩

end ScriptBundle
