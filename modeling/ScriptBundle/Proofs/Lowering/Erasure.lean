import ScriptBundle.Proofs.Lowering.Lines
import ScriptBundle.Proofs.Statement.Contents

/-!
# Names of types

A name that a word `type` marks, by itself or with its whole statement, stands for nothing at run time.
So a prologue has getters and variables for the other bindings only. Which those are is said here of a
statement as a whole, without regard to its form, and the getters and the variables of a prologue are
compared with them one by one, in order. There is one exception: a list of local names that is marked as
a whole keeps its getters.

* `Statement.valueBindings`: the bindings without a mark;
* `Statement.valueExports`, `Statement.valueVariables`: what is given out and what is taken for them;
* `exported?_requirePieces`, `filterMap_exported?_getterPieces`, `filterMap_declared?_requirePieces`: the
  pieces of one statement;
* `erases_of_transpile`: those of a whole source;
* `getter_of_markedList`: the exception.
-/

namespace ScriptBundle

namespace Statement

/-- The bindings of a statement that stand for values: no word `type` marks them or the statement. -/
def valueBindings (s : Statement) : List Binding :=
  if s.typeOnly then [] else s.bindings.filter (!·.typeOnly)

/-- The names under which a statement gives out values, one by one. -/
def valueExports (s : Statement) : List Text :=
  match s.form with
  | .imports .. | .reexportAll .. | .default none => []
  | .reexports .. | .exportList .. | .declaration .. => s.valueBindings.map (·.outer)
  | .default (some _) => ["default"]

/-- The names by which a statement takes values. -/
def valueVariables (s : Statement) : List Text :=
  match s.form with
  | .imports .. => s.valueBindings.map (·.inner)
  | _ => []

/-- Whether the exports of the module that a statement names are kept in a variable of their own: the
variable of an import of everything does for them. -/
def keepsModule (s : Statement) : Bool :=
  match s.form with
  | .imports .. => !s.valueBindings.isEmpty && s.valueBindings.map (·.outer) ≠ ["*"]
  | .reexports _ _ typeOnly => !typeOnly
  | _ => false

/-- Whether a statement is a list of local names that is marked as a whole, and not name by name. -/
def isMarkedList (s : Statement) : Bool :=
  match s.form with
  | .exportList bindings typeOnly => typeOnly && !bindings.all (·.typeOnly)
  | _ => false

end Statement

namespace Lowering

namespace Piece

/-- The name of the export that a piece defines. -/
def exported? : Piece → Option Text
  | .getter exported _ => some exported
  | _ => none

/-- The variable that a piece declares. -/
def declared? : Piece → Option Text
  | .run _ (.bound name) | .binding name _ => some name
  | _ => none

end Piece

/-! ### The pieces of one statement -/

section Statement

open Statement

variable {object : Text} {s : Statement} {last : Token} {ts : List Token}

theorem exported?_requirePieces {p : Piece} (h : p ∈ s.requirePieces object) : p.exported? = none := by
  have hgetter := isGetter_of_mem_requirePieces h
  cases p with
  | getter => cases hgetter
  | mark | helper | run | binding => rfl

theorem declared?_getterPieces {p : Piece} (h : p ∈ s.getterPieces object) : p.declared? = none := by
  obtain ⟨exported, value, rfl, -⟩ := getterPieces_cases h
  rfl

theorem declared?_bindingPiece (object : Text) (b : Binding) :
    (bindingPiece object b).declared? = some b.inner := by
  unfold bindingPiece
  repeat' split
  all_goals rfl

/-- A declaration binds values, and none if it is one of a type. -/
theorem valueBindings_of_declares {bindings : List Binding} {typeOnly : Bool} {t? : Option Token}
    (h : SaidIn last ts s) (hform : s.form = .declaration bindings typeOnly t?) :
    s.valueBindings = bindings := by
  obtain ⟨-, word, us, -, -, hsays⟩ := h
  rw [hform] at hsays
  rw [valueBindings, Statement.typeOnly, Statement.bindings, hform]
  cases hsays with
  | @declares names _ _ _ _ hd =>
    cases typeOnly with
    | true =>
      cases hd
      rfl
    | false =>
      refine List.filter_eq_self.2 fun b hb => ?_
      obtain ⟨name, -, rfl⟩ := List.mem_map.1 hb
      rfl

/-- A statement puts getters on the exports for the values that it gives out. -/
theorem filterMap_exported?_getterPieces (h : SaidIn last ts s) (hlist : s.isMarkedList = false) :
    (s.getterPieces object).filterMap Piece.exported? = s.valueExports := by
  have hnames : ∀ (bs : List Binding) (value : Binding → Reading),
      (bs.map fun b => Piece.getter b.outer (value b)).filterMap Piece.exported? = bs.map (·.outer) := by
    intro bs value
    rw [List.filterMap_map, ← List.filterMap_eq_map]
    rfl
  cases hform : s.form with
  | imports | reexportAll => simp [getterPieces, valueExports, hform]
  | reexports specifier bindings typeOnly =>
    simp only [getterPieces, valueExports, valueBindings, Statement.typeOnly, Statement.bindings, hform]
    cases typeOnly with
    | true => rfl
    | false => exact hnames _ _
  | exportList bindings typeOnly =>
    simp only [isMarkedList, hform] at hlist
    simp only [getterPieces, valueExports, valueBindings, Statement.typeOnly, Statement.bindings, hform]
    cases typeOnly with
    | true =>
      have hall : bindings.filter (!·.typeOnly) = [] := by
        simpa [List.filter_eq_nil_iff] using hlist
      rw [hall]
      rfl
    | false => exact hnames _ _
  | declaration bindings typeOnly t? =>
    simp only [getterPieces, valueExports, hform, valueBindings_of_declares h hform]
    exact hnames _ _
  | default name => cases name <;> simp [getterPieces, valueExports, hform, Piece.exported?]

/-- An import binds the values that it takes, and the exports of their module if it has to. -/
theorem filterMap_declared?_importPieces (object specifier : Text) (bindings : List Binding)
    (typeOnly : Bool) :
    (importPieces object specifier bindings typeOnly).filterMap Piece.declared? =
      let kept := if typeOnly then [] else bindings.filter (!·.typeOnly)
      (if !kept.isEmpty && kept.map (·.outer) ≠ ["*"] then [object] else []) ++ kept.map (·.inner) := by
  have hbindings : ∀ bs : List Binding,
      (bs.map (bindingPiece object)).filterMap Piece.declared? = bs.map (·.inner) := by
    intro bs
    rw [List.filterMap_map, ← List.filterMap_eq_map]
    exact congrArg (List.filterMap · bs) (funext (declared?_bindingPiece object))
  unfold importPieces
  cases typeOnly with
  | true => rfl
  | false =>
    cases bindings with
    | nil => rfl
    | cons b bs =>
      simp only [Bool.false_eq_true, if_false]
      generalize (b :: bs).filter (!·.typeOnly) = kept
      match kept with
      | [] => rfl
      | [c] =>
        by_cases hc : c.outer = "*"
        · simp [hc, Piece.declared?]
        · simpa [hc, Piece.declared?] using hbindings [c]
      | c :: d :: kept =>
        rw [List.filterMap_cons_some (rfl : (Piece.run specifier (.bound object)).declared? = _), hbindings]
        simp

/-- A statement binds the values that it takes, and the exports of their module if it has to. -/
theorem filterMap_declared?_requirePieces (object : Text) (s : Statement) :
    (s.requirePieces object).filterMap Piece.declared? =
      (if s.keepsModule then [object] else []) ++ s.valueVariables := by
  cases hform : s.form with
  | imports specifier bindings typeOnly =>
    simp only [requirePieces, hform, filterMap_declared?_importPieces, keepsModule, valueVariables,
      valueBindings, Statement.typeOnly, Statement.bindings]
  | reexportAll specifier typeOnly =>
    cases typeOnly <;> simp [requirePieces, hform, keepsModule, valueVariables, Piece.declared?]
  | reexports specifier bindings typeOnly =>
    cases typeOnly <;> simp [requirePieces, hform, keepsModule, valueVariables, Piece.declared?]
  | exportList | declaration | default => simp [requirePieces, hform, keepsModule, valueVariables]

end Statement

/-! ### Prologues -/

section Prologue

variable {statements : List Statement} {last : Token} {ts : List Token}

/-- What is chosen from a prologue, other than its mark and its helper, is chosen from the pieces of its
statements. -/
theorem filterMap_pieces {f : Piece → Option Text} (hmark : f .mark = none) (hhelper : f .helper = none)
    (statements : List Statement) :
    (pieces statements).filterMap f =
      statements.zipIdx.flatMap (fun sn => (sn.1.getterPieces (moduleVariable sn.2)).filterMap f) ++
        statements.zipIdx.flatMap (fun sn => (sn.1.requirePieces (moduleVariable sn.2)).filterMap f) := by
  have hfront : ([Piece.mark] ++
      if statements.any (·.exportsAll) then [Piece.helper] else []).filterMap f = [] := by
    split <;> simp [hmark, hhelper]
  rw [pieces, List.filterMap_append, List.filterMap_append, hfront, List.nil_append,
    List.filterMap_flatMap, List.filterMap_flatMap]

/-- The getters of a prologue are those of the statements, in order. -/
theorem filterMap_exported?_pieces (h : ∀ s ∈ statements, Statement.SaidIn last ts s)
    (hlists : ∀ s ∈ statements, s.isMarkedList = false) :
    (pieces statements).filterMap Piece.exported? = statements.flatMap Statement.valueExports := by
  have hgetters : ∀ sn ∈ statements.zipIdx,
      (sn.1.getterPieces (moduleVariable sn.2)).filterMap Piece.exported? = sn.1.valueExports :=
    fun sn hsn => filterMap_exported?_getterPieces (h sn.1 (List.fst_mem_of_mem_zipIdx hsn))
      (hlists sn.1 (List.fst_mem_of_mem_zipIdx hsn))
  have hrequires : ∀ sn ∈ statements.zipIdx,
      (sn.1.requirePieces (moduleVariable sn.2)).filterMap Piece.exported? = [] :=
    fun _ _ => List.filterMap_eq_nil_iff.2 fun _ hp => exported?_requirePieces hp
  rw [filterMap_pieces rfl rfl, List.flatMap_congr hgetters, List.flatMap_eq_nil_iff.2 hrequires,
    List.append_nil]
  calc statements.zipIdx.flatMap (fun sn => sn.1.valueExports)
      = (statements.zipIdx.map Prod.fst).flatMap Statement.valueExports := by rw [List.flatMap_map]
    _ = statements.flatMap Statement.valueExports := by rw [List.zipIdx_map_fst]

/-- The variables of a prologue are those of the statements, in order. -/
theorem filterMap_declared?_pieces (statements : List Statement) :
    (pieces statements).filterMap Piece.declared? = statements.zipIdx.flatMap fun sn =>
      (if sn.1.keepsModule then [moduleVariable sn.2] else []) ++ sn.1.valueVariables := by
  have hgetters : ∀ sn ∈ statements.zipIdx,
      (sn.1.getterPieces (moduleVariable sn.2)).filterMap Piece.declared? = [] :=
    fun _ _ => List.filterMap_eq_nil_iff.2 fun _ hp => declared?_getterPieces hp
  rw [filterMap_pieces rfl rfl, List.flatMap_eq_nil_iff.2 hgetters, List.nil_append]
  exact List.flatMap_congr fun sn _ => filterMap_declared?_requirePieces _ sn.1

/-- The getters and the variables of a lowered source are those of the bindings that no word `type`
marks, unless a list of local names is marked as a whole. -/
theorem erases_of_transpile {file source out : Text} {tokens : TokenStream}
    (hscan : scanSource source = .ok (tokens, statements))
    (hlists : ∀ s ∈ statements, s.isMarkedList = false)
    (h : (Lowering.transpile file source).result = .ok out) :
    (∀ s ∈ statements, Statement.SaidIn tokens.last tokens.tokens s) ∧
      out = heading statements ++
        applyEdits 0 (hideHashbang source) (sourceEdits source statements) ∧
      prologue statements = (pieces statements).map Piece.text ∧
      (pieces statements).filterMap Piece.exported? = statements.flatMap Statement.valueExports ∧
      (pieces statements).filterMap Piece.declared? = statements.zipIdx.flatMap fun sn =>
        (if sn.1.keepsModule then [moduleVariable sn.2] else []) ++ sn.1.valueVariables := by
  obtain ⟨tokens', statements', hscan', rfl⟩ := transpile_eq_ok h
  obtain ⟨rfl, rfl⟩ := Prod.mk.inj (Except.ok.inj (hscan.symm.trans hscan'))
  have hsaid := Statement.saidIn_of_scanSource hscan
  exact ⟨hsaid, lower_eq_heading source statements, (map_text_pieces statements).symm,
    filterMap_exported?_pieces hsaid hlists, filterMap_declared?_pieces statements⟩

end Prologue

/-- A source with marks on names and on whole statements, among names of values. -/
def markedSource : Text :=
  "import type a from 'b'; import c, \x7b type d, e as f \x7d from 'g'; export type \x7b h \x7d from 'i';" ++
    "export \x7b type j, k as l \x7d from 'm'; export \x7b type n, f \x7d;"

/-- Of the names in this source, the ones of values have getters and variables. -/
theorem erases_markedSource : ∃ out tokens statements,
    scanSource markedSource = .ok (tokens, statements) ∧
      (∀ s ∈ statements, s.isMarkedList = false) ∧
      (Lowering.transpile "a.js" markedSource).result = .ok out ∧
      prologue statements = (pieces statements).map Piece.text ∧
      (pieces statements).filterMap Piece.exported? = [Text.ofString "l", Text.ofString "f"] ∧
      (pieces statements).filterMap Piece.declared? =
        [moduleVariable 1, Text.ofString "c", Text.ofString "f", moduleVariable 3] := by
  have hcheck : (scanSource markedSource).toOption.any fun (_, statements) =>
      statements.all (!·.isMarkedList) ∧
        statements.flatMap Statement.valueExports = [Text.ofString "l", Text.ofString "f"] ∧
        (statements.zipIdx.flatMap fun sn =>
          (if sn.1.keepsModule then [moduleVariable sn.2] else []) ++ sn.1.valueVariables) =
          [moduleVariable 1, Text.ofString "c", Text.ofString "f", moduleVariable 3] := by
    unfold markedSource
    repeat rw [Text.ofString_ofList]
    decide +kernel
  obtain ⟨⟨tokens, statements⟩, hscan, hcheck⟩ := Except.exists_of_any_toOption hcheck
  obtain ⟨hlists, hexports, hvariables⟩ := of_decide_eq_true hcheck
  have hlists : ∀ s ∈ statements, s.isMarkedList = false := by simpa using hlists
  have hfile : ¬ isTypedFile "a.js" := by decide
  have hout := result_transpile hscan fun htyped => absurd htyped hfile
  obtain ⟨-, -, hprologue, hgetters, hdeclared⟩ := erases_of_transpile hscan hlists hout
  exact ⟨_, tokens, statements, hscan, hlists, hout, hprologue, hgetters.trans hexports,
    hdeclared.trans hvariables⟩

/-- A list of local names that is marked as a whole. -/
def markedList : Text := "export type \x7b A \x7d;"

/-- The module statement of this source. -/
def markedStatements : List Statement :=
  [⟨⟨0, 1, 1⟩, 18, .exportList [⟨"A", "A", false⟩] true⟩]

/-- The mark of the list is seen, and its name has a getter all the same. -/
theorem getter_of_markedList : ∃ tokens s,
    scanSource markedList = .ok (tokens, [s]) ∧ s.typeOnly = true ∧ s.valueBindings = [] ∧
      (Lowering.transpile "a.ts" markedList).result =
        .ok (esModuleMark ++ " " ++ getter "A" "A" ++ " ") := by
  obtain ⟨⟨tokens, _⟩, hscan, hcheck⟩ := Except.exists_of_any_toOption (x := scanSource markedList)
    (p := fun (tokens, statements) => statements = markedStatements ∧
      findTypeSyntax tokens statements = none) (by decide +kernel)
  obtain ⟨rfl, hnone⟩ := of_decide_eq_true hcheck
  have hlower : lower markedList markedStatements = esModuleMark ++ " " ++ getter "A" "A" ++ " " := by
    have hprologue : prologue markedStatements = [esModuleMark, getter "A" "A"] := rfl
    have hbody : applyEdits 0 (hideHashbang markedList) (sourceEdits markedList markedStatements) = [] := by
      decide +kernel
    rw [lower_eq_join hprologue hbody rfl]
    simp [Text.join]
  exact ⟨tokens, _, hscan, rfl, rfl, hlower ▸ result_transpile hscan fun _ => hnone⟩

end Lowering

end ScriptBundle
