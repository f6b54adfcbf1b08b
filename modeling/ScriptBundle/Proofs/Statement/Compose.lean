import Mathlib.Data.List.Infix
import ScriptBundle.Proofs.Statement.Append
import ScriptBundle.Proofs.Statement.Shift
import ScriptBundle.Proofs.Token.Fragment

/-!
# Sources behind one another

A source may be put behind another one that ends in a semicolon, or behind such a source and a block: the
scanner finds the statements of the first source, nothing in the block, and the statements or the fault of
the last source, further down.

* `Block`: nothing, or a group in braces that has tokens of its own;
* `Shift.past`: how far down the lines of a text move what follows them;
* `recordedAnnotations`: the tokens that the scanner takes for the annotations of exported variables;
* `moduleStatements_behind`: the statements of sources behind one another;
* `import_lost_behind_comparison`: an annotation that a line break ends, and that takes more than itself.
-/

namespace ScriptBundle

open Lexer Statement

/-! ### Positions -/

/-- How far down a text that ends in a line feed moves what stands behind it. -/
def Shift.past (s : Text) : Shift := ⟨s.length, Text.lineFeeds s⟩

theorem Position.after_lines (s : Text) :
    Position.start.after (s ++ Text.lineFeed) = Position.start.shift (.past (s ++ Text.lineFeed)) := by
  have hcolumn : (Position.start.after (s ++ Text.lineFeed)).column = 1 := by
    rw [after_append]
    rfl
  have hline := line_after Position.start (s ++ Text.lineFeed)
  have hoffset := offset_after Position.start (s ++ Text.lineFeed)
  generalize Position.start.after (s ++ Text.lineFeed) = p at hcolumn hline hoffset
  obtain ⟨offset, line, column⟩ := p
  simp only at hcolumn hline hoffset
  subst hcolumn hline hoffset
  rfl

/-! ### Tokens in front of a line feed -/

theorem hashbang_append_lineFeed (s rest : Text) :
    hashbang (s ++ CodePoint.ofChar '\n' :: rest) = hashbang s := by
  have htake : (s ++ CodePoint.ofChar '\n' :: rest).takeWhile Lexeme.inLineComment =
      s.takeWhile Lexeme.inLineComment := by
    rw [List.takeWhile_append, List.takeWhile_cons_of_neg (by decide), List.append_nil]
    split
    · next heq => exact ((List.takeWhile_sublist _).eq_of_length heq).symm
    · rfl
  have hprefix : (Text.ofString "#!").isPrefixOf (s ++ CodePoint.ofChar '\n' :: rest) =
      (Text.ofString "#!").isPrefixOf s := by
    rcases s with _ | ⟨c, _ | ⟨e, s⟩⟩
    · rfl
    · have hmark : (CodePoint.ofChar '!' == CodePoint.ofChar '\n') = false := by decide
      simp [Text.ofString, List.isPrefixOf, hmark]
    · rfl
  rw [hashbang, hashbang, htake, hprefix]

/-- The tokens of a source are read in front of a line feed. -/
theorem reads_lineFeed {source : Text} {ts : TokenStream} (h : tokenize source = .ok ts) (rest : Text) :
    ∃ q, Reads (.first (source ++ CodePoint.ofChar '\n' :: rest)) ts.tokens
      (outside (operandBehind true ts.tokens) q (CodePoint.ofChar '\n' :: rest)) := by
  obtain ⟨operand, hr⟩ := tokenize_eq_ok_iff.1 h
  obtain ⟨items, g, hmap, hs, hlays, hplaced, hg⟩ := exists_lays_of_reads (p := Position.start.after
    (hashbang source)) (s := source.drop (hashbang source).length) hr rfl
  have hline : Lexeme.Stable [] (CodePoint.ofChar '\n' :: rest) := Lexeme.stable_nil rest
  have hitems := (hlays.stable (hline.append g)).reads (Position.start.after (hashbang source))
  have hgap := (hg.stable hline).reads (operandBehind true (items.map Item.token))
    ((Position.start.after (hashbang source)).after (textOf items))
  have hreads := hitems.trans hgap
  rw [tokensAt_of_placed hplaced, hmap, List.append_nil] at hreads
  have htext : (source ++ CodePoint.ofChar '\n' :: rest).drop (hashbang source).length =
      textOf items ++ (g ++ CodePoint.ofChar '\n' :: rest) := by
    rw [List.drop_append_of_le_length (length_hashbang_le source), hs, List.append_nil,
      List.append_assoc]
  rw [← htext] at hreads
  rw [Place.first, hashbang_append_lineFeed]
  exact ⟨_, hreads⟩

/-- Behind a semicolon an operand may follow. -/
theorem operandBehind_finished {ts : List Token}
    (h : ∀ t, ts.getLast? = some t → t.kind = .semicolon) : operandBehind true ts = true := by
  rcases List.eq_nil_or_concat' ts with rfl | ⟨before, t, rfl⟩
  · rfl
  · have ht : t.kind = .semicolon := h t List.getLast?_concat
    rw [operandBehind, List.foldl_concat, ht]
    rfl

/-! ### Blocks -/

/-- Nothing, or a group in braces with the tokens of a source of its own. -/
inductive Block : Text → Prop
  | none : Block []
  | braces {inner : Text} {ts : TokenStream} (h : tokenize inner = .ok ts) (hn : Nested ts.tokens)
      (hmark : (Text.ofString "#!").isPrefixOf inner = false) : Block ("\x7b" ++ inner ++ "\n\x7d")

/-- The tokens of a block: the scanner passes over them. -/
inductive Passed : List Token → Prop
  | none : Passed []
  | braces {opener close : Token} {ts : List Token} (ho : opener.kind.isOpener) (hn : Nested ts)
      (hc : close.kind.isCloser) (hclose : close.selectsMember = false) :
      Passed (opener :: (ts ++ [close]))

theorem Block.reads {x : Text} (h : Block x) (p : Position) (rest : Text) :
    ∃ us, Reads (outside true p (x ++ rest)) us (outside true (p.after x) rest) ∧ Passed us := by
  cases h with
  | none => exact ⟨[], .refl _, .none⟩
  | @braces inner ts htokens hn hmark =>
    have hopen := writes_mark (c := '\x7b') (by decide) true
    have hclose := writes_mark (c := '\x7d') (by decide) (operandBehind true ts.tokens)
    have hwrites := (hopen.append (writes_line htokens hmark)).append hclose
    obtain ⟨us, hus, hsigns⟩ := hwrites p rest
    have htext : Text.ofString "\x7b" ++ inner ++ Text.ofString "\n\x7d" =
        [CodePoint.ofChar '\x7b'] ++ (inner ++ Text.lineFeed) ++ [CodePoint.ofChar '\x7d'] := by
      simp only [List.append_assoc]
      rfl
    rw [htext]
    refine ⟨us, hus, ?_⟩
    obtain ⟨vs, ws, rfl, hvs, hws⟩ := List.map_eq_append_iff.1 hsigns
    obtain ⟨open', mid, rfl, hopen', hmid⟩ := List.map_eq_append_iff.1 hvs
    obtain ⟨opener, rfl, hopener⟩ := List.map_eq_singleton_iff.1 hopen'
    obtain ⟨close, rfl, hcloser⟩ := List.map_eq_singleton_iff.1 hws
    obtain ⟨hokind, -⟩ := Prod.mk.inj hopener
    obtain ⟨hckind, hctext⟩ := Prod.mk.inj hcloser
    have hmidnested : Nested mid := (openBehind_congr hmid []).trans hn
    refine .braces (by rw [hokind]; decide) hmidnested (by rw [hckind]; decide) ?_
    rw [Token.selectsMember, hckind, hctext]
    decide

/-- The scanner passes over the tokens of a block. -/
theorem scanFrom_passed {us : List Token} (h : Passed us) (last : Token) {prev : Option Token}
    (hprev : prev.any (·.selectsMember) = false) :
    ∃ prev', prev'.any (·.selectsMember) = false ∧ ∀ more,
      scanFrom last prev 0 (us ++ more) = scanFrom last prev' 0 more := by
  cases h with
  | none => exact ⟨prev, hprev, fun _ => rfl⟩
  | @braces opener close ts ho hn hc hclose =>
    refine ⟨some close, hclose, fun more => ?_⟩
    rw [List.cons_append, List.append_assoc]
    exact scanFrom_block ho hn hc more

/-! ### The sources -/

/-- The tokens that the scanner takes for the annotations of the exported variable declarations among
the statements `ss`. -/
def recordedAnnotations (ts : TokenStream) (ss : List Statement) : List Token :=
  ts.tokens.tails.flatMap fun
    | k :: us =>
      if k.kind = .exportWord ∧ ∃ s ∈ ss, s.start = k.start then exportedAnnotations ts.last us else []
    | [] => []

section Behind

variable {source block more : Text} {ts : TokenStream} {ss : List Statement}

/-- The source, the block and what follows them, each from a line of its own on. -/
def front (source block : Text) : Text := source ++ Text.lineFeed ++ block ++ Text.lineFeed

/-- The tokens of a source and of a block are read in front of any text. -/
theorem reads_front (h : tokenize source = .ok ts)
    (hlast : ∀ t, ts.tokens.getLast? = some t → t.kind = .semicolon) (hblock : Block block)
    (more : Text) :
    ∃ us, Reads (.first (front source block ++ more)) (ts.tokens ++ us)
      (outside true (Position.start.after (front source block)) more) ∧ Passed us := by
  have htext : front source block ++ more =
      source ++ CodePoint.ofChar '\n' :: (block ++ CodePoint.ofChar '\n' :: more) := by
    simp only [front, List.append_assoc]
    rfl
  obtain ⟨q, hq⟩ := reads_lineFeed h (block ++ CodePoint.ofChar '\n' :: more)
  rw [operandBehind_finished hlast] at hq
  obtain ⟨vs, hspace, hvs⟩ := writes_space (c := '\n') (by decide) true q
    (block ++ CodePoint.ofChar '\n' :: more)
  obtain rfl := List.map_eq_nil_iff.1 hvs
  obtain ⟨us, hus, hpassed⟩ := hblock.reads (q.after ['\n']) (CodePoint.ofChar '\n' :: more)
  obtain ⟨ws, hspace', hws⟩ := writes_space (c := '\n') (by decide) true
    ((q.after ['\n']).after block) more
  obtain rfl := List.map_eq_nil_iff.1 hws
  have hreads := hq.trans (hspace.trans (hus.trans hspace'))
  rw [List.nil_append, List.append_nil, ← htext] at hreads
  obtain ⟨text, hrest, hp⟩ := hreads.exists_text
  have hfront : hashbang (front source block ++ more) ++ text = front source block := by
    have := hashbang_append_drop (front source block ++ more)
    rw [show (front source block ++ more).drop (hashbang (front source block ++ more)).length =
      text ++ more from hrest, ← List.append_assoc] at this
    exact List.append_cancel_right this
  have hposition : ((q.after ['\n']).after block).after ['\n'] =
      Position.start.after (front source block) := by
    rw [← hfront, Position.after_append]
    exact hp
  rw [hposition] at hreads
  exact ⟨us, hreads, hpassed⟩

/-- The tokens behind a source and a block are those of their own source, further down. -/
theorem tokenize_behind (h : tokenize source = .ok ts)
    (hlast : ∀ t, ts.tokens.getLast? = some t → t.kind = .semicolon) (hblock : Block block)
    (hmark : (Text.ofString "#!").isPrefixOf more = false) :
    ∃ us, Passed us ∧ tokenize (front source block ++ more) =
      Except.bimap (LexicalFault.shift (.past (front source block)))
        (fun ms => ⟨ts.tokens ++ (us ++ ms.tokens.map (Token.shift (.past (front source block)))),
          ms.finish.shift (.past (front source block))⟩) (tokenize more) := by
  obtain ⟨us, hus, hpassed⟩ := reads_front h hlast hblock more
  refine ⟨us, hpassed, ?_⟩
  have hposition : Position.start.after (front source block) =
      Position.start.shift (.past (front source block)) := Position.after_lines _
  have hrun := run_of_reads hus
  simp only [hposition] at hrun
  have hmore : run ⟨true, []⟩ (Position.start.shift (.past (front source block))) more =
      Except.bimap (LexicalFault.shift (.past (front source block)))
        (TokenStream.shift (.past (front source block))) (tokenize more) := by
    have := run_shift (.past (front source block)) true .start more
    rw [tokenize, show hashbang more = [] from if_neg (by simp [hmark])]
    exact this
  rw [hmore] at hrun
  refine Eq.trans hrun ?_
  cases tokenize more with
  | error f => rfl
  | ok ms => simp [TokenStream.shift]

/-- The statements behind a source and a block are those of their own source, further down. -/
theorem scan_behind (htokens : tokenize source = .ok ts) (hscan : scan ts = .ok ss)
    (hn : Nested ts.tokens) (hlast : ∀ t, ts.tokens.getLast? = some t → t.kind = .semicolon)
    (hangle : ∀ t ∈ recordedAnnotations ts ss, t.isAngle = false) {us : List Token} (hus : Passed us)
    (d : Shift) (ms : TokenStream) :
    scan ⟨ts.tokens ++ (us ++ ms.tokens.map (Token.shift d)), ms.finish.shift d⟩ =
      Except.bimap (StatementFault.shift d) (fun more => ss ++ more.map (Statement.shift d)) (scan ms) := by
  have hprev : (ts.tokens.getLast?.or none).any (·.selectsMember) = false := by
    rw [Option.or_none]
    cases hlast' : ts.tokens.getLast? with
    | none => rfl
    | some t =>
      exact selectsMember_of_tokenize htokens (List.mem_of_getLast? hlast') (by simp [hlast t hlast'])
        (by simp [hlast t hlast'])
  have hangle' : ∀ k vs, k :: vs <:+ ts.tokens → k.kind = .exportWord →
      (∃ s ∈ ss, s.start = k.start) → ∀ t ∈ exportedAnnotations ts.last vs, t.isAngle = false := by
    intro k vs hvs hk hs t ht
    refine hangle t (List.mem_flatMap.2 ⟨k :: vs, (List.mem_tails _ _).2 hvs, ?_⟩)
    simpa [hk, hs] using ht
  obtain ⟨prev, hprev', hpassed⟩ := scanFrom_passed hus (ms.last.shift d) hprev
  have happend : scanFrom (ms.last.shift d) none 0 (ts.tokens ++ (us ++ ms.tokens.map (Token.shift d))) =
      (scanFrom (ms.last.shift d) (ts.tokens.getLast?.or none) 0
        (us ++ ms.tokens.map (Token.shift d))).map (ss ++ ·) :=
    scanFrom_append hscan (Nat.zero_le _) hn hlast hangle' _
  have hprevs : prev.any (·.selectsMember) = (none : Option Token).any (·.selectsMember) := hprev'
  rw [hpassed, scanFrom_shift d ms.last hprevs 0 ms.tokens] at happend
  refine Eq.trans happend ?_
  unfold scan
  cases scanFrom ms.last none 0 ms.tokens <;> rfl

/-- Let `source` be a nested source with module statements `ss` whose last token, if there is one, is a
semicolon, and that has no angle bracket in what is taken for the annotations of its exported variables.
Behind it and a block, a text has the module statements that it has by itself, or it has the same fault,
further down by the lines in front of it. -/
theorem moduleStatements_behind (h : scanSource source = .ok (ts, ss)) (hn : Nested ts.tokens)
    (hlast : ∀ t, ts.tokens.getLast? = some t → t.kind = .semicolon)
    (hangle : ∀ t ∈ recordedAnnotations ts ss, t.isAngle = false) (hblock : Block block)
    (hmark : (Text.ofString "#!").isPrefixOf more = false) :
    moduleStatements source = .ok ss ∧
    (∀ ms, moduleStatements more = .ok ms →
      moduleStatements (front source block ++ more) =
        .ok (ss ++ ms.map (Statement.shift (.past (front source block))))) ∧
    ∀ f, moduleStatements more = .error f →
      ∃ f', moduleStatements (front source block ++ more) = .error f' ∧ f'.message = f.message ∧
        f'.position = f.position.shift (.past (front source block)) := by
  obtain ⟨htokens, hscan⟩ := scanSource_eq_ok_iff.1 h
  obtain ⟨us, hus, hbehind⟩ := tokenize_behind htokens hlast hblock hmark
  generalize Shift.past (front source block) = d at hbehind ⊢
  have hwhole : moduleStatements (front source block ++ more) =
      Except.bimap (SyntaxFault.shift d) (fun ms => ss ++ ms.map (Statement.shift d))
        (moduleStatements more) := by
    unfold moduleStatements scanSource
    rw [hbehind]
    cases tokenize more with
    | error f => rfl
    | ok ms =>
      simp only [Except.bimap_ok, scan_behind htokens hscan hn hlast hangle hus d ms]
      cases scan ms <;> rfl
  refine ⟨by rw [moduleStatements, h]; rfl, fun ms hms => ?_, fun f hf => ?_⟩
  · rw [hwhole, hms]
    rfl
  · rw [hwhole, hf]
    exact ⟨f.shift d, rfl, f.message_shift d, f.position_shift d⟩

end Behind

/-- An exported variable with an annotation and with a comparison behind it. -/
def annotatedExport : Text := "export let n: Count = a < b;"

/-- A block with a call of `import` and with an import that would be malformed outside. -/
def importingBlock : Text := "\x7b" ++ Text.ofString "import(\"x\"); import 1; /\x7b/" ++ "\n\x7d"

/-- A file with an import. -/
def importedFile : Text := "import \"y\""

theorem block_importingBlock : Block importingBlock := by
  obtain ⟨us, htokens, hn⟩ := Except.exists_of_any_toOption
    (show (tokenize "import(\"x\"); import 1; /\x7b/").toOption.any (fun us => Nested us.tokens) from by
      decide +kernel)
  exact .braces htokens (of_decide_eq_true hn) (by decide)

theorem moduleStatements_behind_annotatedExport : ∃ ts ss ms,
    scanSource annotatedExport = .ok (ts, ss) ∧ Nested ts.tokens ∧
      (∀ t, ts.tokens.getLast? = some t → t.kind = .semicolon) ∧
      (∀ t ∈ recordedAnnotations ts ss, t.isAngle = false) ∧ Block importingBlock ∧
      (Text.ofString "#!").isPrefixOf importedFile = false ∧
      moduleStatements importedFile = .ok ms ∧ ms.length = 1 ∧
      moduleStatements (front annotatedExport importingBlock ++ importedFile) =
        .ok (ss ++ ms.map (Statement.shift (.past (front annotatedExport importingBlock)))) := by
  obtain ⟨⟨ts, ss⟩, hscan, hfacts⟩ := Except.exists_of_any_toOption
    (show (scanSource annotatedExport).toOption.any (fun r => Nested r.1.tokens &&
      r.1.tokens.getLast?.all (·.kind = .semicolon) &&
      (recordedAnnotations r.1 r.2).all (!·.isAngle)) from by decide +kernel)
  obtain ⟨ms, hms, hone⟩ := Except.exists_of_any_toOption
    (show (moduleStatements importedFile).toOption.any (·.length = 1) from by decide +kernel)
  simp only [Bool.and_eq_true, decide_eq_true_eq, Option.all_eq_true, List.all_eq_true,
    Bool.not_eq_true'] at hfacts hone
  obtain ⟨⟨hn, hlast⟩, hangle⟩ := hfacts
  have hmark : (Text.ofString "#!").isPrefixOf importedFile = false := by decide
  exact ⟨ts, ss, ms, hscan, hn, hlast, hangle, block_importingBlock, hmark, hms, hone,
    (moduleStatements_behind hscan hn hlast hangle block_importingBlock hmark).2.1 ms hms⟩

/-- The annotation `number` ends with its line. The comparison behind it is read as a part of it, with an
open angle bracket that nothing closes. -/
def comparisonLine : Text := "export let n: number" ++ "\nlog(1 < 2);"

/-- Behind a comparison that is taken for a type, an import is lost. -/
theorem import_lost_behind_comparison : ∃ ts s m,
    scanSource comparisonLine = .ok (ts, [s]) ∧ Nested ts.tokens ∧
      (∀ t, ts.tokens.getLast? = some t → t.kind = .semicolon) ∧
      moduleStatements importedFile = .ok [m] ∧
      moduleStatements (front comparisonLine [] ++ importedFile) = .ok [s] := by
  obtain ⟨⟨ts, ss⟩, hscan, hfacts⟩ := Except.exists_of_any_toOption
    (show (scanSource comparisonLine).toOption.any (fun r => Nested r.1.tokens &&
      r.1.tokens.getLast?.all (·.kind = .semicolon) && r.2.length = 1) from by decide +kernel)
  obtain ⟨ms, hms, hone⟩ := Except.exists_of_any_toOption
    (show (moduleStatements importedFile).toOption.any (·.length = 1) from by decide +kernel)
  simp only [Bool.and_eq_true, decide_eq_true_eq, Option.all_eq_true] at hfacts hone
  obtain ⟨⟨hn, hlast⟩, hss⟩ := hfacts
  obtain ⟨s, rfl⟩ := List.length_eq_one_iff.1 hss
  obtain ⟨m, rfl⟩ := List.length_eq_one_iff.1 hone
  have hsame : moduleStatements (front comparisonLine [] ++ importedFile) =
      moduleStatements comparisonLine := by decide +kernel
  refine ⟨ts, s, m, hscan, hn, hlast, hms, hsame.trans ?_⟩
  rw [moduleStatements, hscan]
  rfl

end ScriptBundle
