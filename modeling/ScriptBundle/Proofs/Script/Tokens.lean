import ScriptBundle.Proofs.Bundle.Requires
import ScriptBundle.Proofs.Script.Complete
import ScriptBundle.Proofs.Token.Fragment

/-!
# The tokens of a script

The script of a bundle is put together from texts that know nothing of each other: paths, bodies,
specifiers. None of them changes what the lexer makes of its neighbours. The tokens of the script are
those of the loader, and for each module those of its entry in the table, in their order.

* `uncommented_replace`: a path does not end the comment that shows it;
* `moduleSigns`: the tokens of the entry of a module;
* `writes_moduleLines`: the lines of a module give these tokens;
* `tokens_of_generate`: the tokens of a whole script.
-/

namespace ScriptBundle.Script

open Lexer (Writes writes_mark writes_space writes_number writes_encode writes_blockComment writes_line
  writes_flatMap Uncommented)

/-! ### Paths -/

/-- A slash at the head of a text with the ends of comments broken up stood there before. -/
theorem headIs_replace {s : Text} (h : Text.headIs (Text.replaceFrom "*/" "*\\/" 0 s) '/') :
    Text.headIs s '/' := by
  cases s with
  | nil => exact h
  | cons c s =>
    unfold Text.replaceFrom at h
    split at h
    · cases h
    · exact h

/-- No end of a comment is left in a text in which it is broken up. -/
theorem uncommented_replaceFrom (k : Nat) (s : Text) :
    Uncommented (Text.replaceFrom "*/" "*\\/" k s) := by
  induction s generalizing k with
  | nil => cases k <;> exact .nil
  | cons c s ih =>
    cases k with
    | succ k => exact ih k
    | zero =>
      unfold Text.replaceFrom
      split
      · have hnew : Text.ofString "*\\/" = [CodePoint.ofChar '*', '\\', '/'] := by decide
        rw [hnew]
        refine .cons_cons (by decide) (.cons_cons (by decide) (List.isChain_cons.2 ⟨fun d _ => ?_, ih _⟩))
        exact fun hslash => absurd hslash.1 (by decide)
      · next hnot =>
        refine List.isChain_cons.2 ⟨fun d hd => ?_, ih 0⟩
        rintro ⟨rfl, rfl⟩
        refine hnot ?_
        have hs : Text.headIs s '/' := headIs_replace (by rw [Text.headIs, Option.mem_def.1 hd]; simp)
        obtain ⟨r, rfl⟩ := Lexeme.eq_cons_of_headIs hs
        rfl

theorem uncommented_displayPath (cwd root path : Path) :
    Uncommented (" " ++ displayPath cwd root path ++ " " ++ [CodePoint.ofChar '*']) := by
  have hpath : Uncommented (displayPath cwd root path) := uncommented_replaceFrom 0 _
  have hblank : ∀ d : CodePoint, ¬ (CodePoint.ofChar ' ' = '*' ∧ d = '/') := fun d h =>
    absurd h.1 (by decide)
  have htail : Uncommented [CodePoint.ofChar ' ', CodePoint.ofChar '*'] :=
    .cons_cons (hblank _) (.singleton _)
  generalize displayPath cwd root path = shown at hpath
  have hshown : Uncommented (shown ++ [CodePoint.ofChar ' ', CodePoint.ofChar '*']) := by
    refine List.isChain_append.2 ⟨hpath, htail, ?_⟩
    rintro c - d hd ⟨-, rfl⟩
    exact absurd (Option.some.inj hd) (by decide)
  have htext : Text.ofString " " ++ shown ++ Text.ofString " " ++ [CodePoint.ofChar '*'] =
      CodePoint.ofChar ' ' :: (shown ++ [CodePoint.ofChar ' ', CodePoint.ofChar '*']) := by
    simp only [List.append_assoc]
    rfl
  rw [htext]
  exact List.isChain_cons.2 ⟨fun d _ => hblank d, hshown⟩

/-! ### The lines of a module -/

/-- The kinds and texts of tokens. -/
abbrev Signs := List (TokenKind × Text)

/-- The tokens in front of the function of a module. -/
def entrySigns (id : Int) : Signs :=
  [(.number, Text.ofInt id), (.colon, ":"), (.leftBracket, "[")]

/-- The tokens of the head of a function. -/
def headSigns : Signs :=
  [(.identifier, "function"), (.leftParen, "("), (.identifier, "require"), (.comma, ","),
    (.identifier, "module"), (.comma, ","), (.identifier, "exports"), (.rightParen, ")"),
    (.leftBrace, "\x7b")]

/-- The tokens of a source by itself. -/
def ownSigns (source : Text) : Signs :=
  match tokenize source with
  | .ok ts => ts.tokens.map Token.sign
  | .error _ => []

/-- The tokens of one dependency of a module. -/
def dependencySigns (specifier : Text) (id : Int) : Signs :=
  [(.string, StringLiteral.encode specifier), (.colon, ":"), (.number, Text.ofInt id), (.comma, ",")]

/-- The tokens between the body of a module and its dependencies. -/
def tableSigns : Signs := [(.rightBrace, "\x7d"), (.comma, ","), (.leftBrace, "\x7b")]

/-- The tokens behind the dependencies of a module. -/
def entryEndSigns : Signs := [(.rightBrace, "\x7d"), (.rightBracket, "]"), (.comma, ",")]

/-- The tokens of the entry of a module. -/
def moduleSigns (m : Module) : Signs :=
  entrySigns m.id ++ headSigns ++ ownSigns (m.body?.getD []) ++ tableSigns ++
    (m.dependencies.flatMap fun (s, i) => dependencySigns s i) ++ entryEndSigns

theorem ofInt_of_nonneg {i : Int} (h : 0 ≤ i) : Text.ofInt i = Text.ofNat i.natAbs :=
  if_neg (by omega)

theorem linesText_append (ls ls' : List Text) :
    linesText (ls ++ ls') = linesText ls ++ linesText ls' :=
  List.flatMap_append

theorem linesText_nil : linesText [] = [] := rfl

theorem linesText_cons (l : Text) (ls : List Text) :
    linesText (l :: ls) = l ++ Text.lineFeed ++ linesText ls :=
  List.flatMap_cons

theorem linesText_flatMap (f : Module → List Text) (ms : List Module) :
    linesText (ms.flatMap f) = ms.flatMap fun m => linesText (f m) :=
  List.flatMap_assoc

section Lines

variable {operand operand' : Bool} {w : Text} {signs : Signs}

/-- A fragment on a line of its own. -/
theorem writes_lineFeed (h : Writes operand w signs operand') :
    Writes operand (w ++ Text.lineFeed) signs operand' :=
  h.space (by decide)

theorem writes_comment (cwd root path : Path) (operand : Bool) :
    Writes operand ("/* " ++ displayPath cwd root path ++ " */") [] operand := by
  have hcomment := writes_blockComment (uncommented_displayPath cwd root path) operand
  have htext : "/*" ++ (" " ++ displayPath cwd root path ++ " ") ++ "*/" =
      "/* " ++ displayPath cwd root path ++ " */" := by
    simp only [List.append_assoc]
    rfl
  exact htext ▸ hcomment

theorem writes_entryHead {i : Int} (h : 0 ≤ i) (operand : Bool) :
    Writes operand (Text.ofInt i ++ ": [") (entrySigns i) true := by
  rw [entrySigns, ofInt_of_nonneg h]
  have hnumber := writes_number i.natAbs (d := ':') (by decide) operand
  have hbracket := writes_mark (c := '[') (by decide)
  have := (hnumber.space (c := ' ') (by decide)).append (hbracket _)
  rwa [List.append_assoc, List.append_assoc] at this

theorem writes_dependencyLine (specifier : Text) {i : Int} (h : 0 ≤ i) (operand : Bool) :
    Writes operand (dependencyLine specifier i) (dependencySigns specifier i) true := by
  rw [dependencyLine, dependencySigns, ofInt_of_nonneg h]
  have hliteral := writes_encode specifier operand
  have hcolon := (writes_mark (c := ':') (by decide) false).space (c := ' ') (by decide)
  have hnumber := writes_number i.natAbs (d := ',') (by decide)
  have := hliteral.append (hcolon.append (hnumber _))
  rw [List.append_assoc, List.append_assoc]
  exact this

theorem writes_functionHead : Writes true (functionHead ++ Text.lineFeed) headSigns true := by
  have hsigns : (tokenize functionHead).toOption.map (·.tokens.map Token.sign) = some headSigns := by
    decide +kernel
  cases h : tokenize functionHead with
  | error f =>
    rw [h] at hsigns
    cases hsigns
  | ok ts =>
    rw [h] at hsigns
    have hsigns : ts.tokens.map Token.sign = headSigns := Option.some.inj hsigns
    have hlast : headSigns = headSigns.dropLast ++ [(TokenKind.leftBrace, Text.ofString "\x7b")] := by
      decide
    have hbehind : Lexer.operandBehind true ts.tokens = true :=
      Lexer.operandBehind_of_sign (hsigns.trans hlast)
    have hline := writes_line h (by decide)
    rwa [hsigns, hbehind] at hline

theorem writes_body {body : Text} {ts : TokenStream} (h : tokenize body = .ok ts)
    (hbody : (Text.ofString "#!").isPrefixOf body = false) :
    ∃ operand, Writes true (body ++ Text.lineFeed) (ownSigns body) operand := by
  have hsigns : ownSigns body = ts.tokens.map Token.sign := by rw [ownSigns, h]
  exact ⟨_, hsigns ▸ writes_line h hbody⟩

theorem writes_tableHead (operand : Bool) :
    Writes operand ("\x7d, \x7b" : Text) tableSigns true := by
  have hclose := writes_mark (c := '}') (by decide) operand
  have hcomma := (writes_mark (c := ',') (by decide) true).space (c := ' ') (by decide)
  have hopen := writes_mark (c := '{') (by decide) true
  exact (hclose.append hcomma).append hopen

theorem writes_entryEnd : Writes true (linesText [Text.ofString "\x7d", Text.ofString "],"])
    entryEndSigns true := by
  have hclose := (writes_mark (c := '}') (by decide) true).space (c := '\n') (by decide)
  have hbracket := writes_mark (c := ']') (by decide) true
  have hcomma := (writes_mark (c := ',') (by decide) false).space (c := '\n') (by decide)
  exact (hclose.append (hbracket.append hcomma))

/-- The lines of a module give the tokens of its entry. -/
theorem writes_moduleLines (cwd root : Path) {m : Module} (hid : 0 ≤ m.id)
    (hdependencies : ∀ d ∈ m.dependencies, 0 ≤ d.2) {ts : TokenStream}
    (htokens : tokenize (m.body?.getD []) = .ok ts)
    (hbody : (Text.ofString "#!").isPrefixOf (m.body?.getD []) = false) :
    Writes true (linesText (moduleLines cwd root m)) (moduleSigns m) true := by
  obtain ⟨operand, hbody⟩ := writes_body htokens hbody
  have hcomment := writes_lineFeed (writes_comment cwd root m.path true)
  have hhead := writes_lineFeed (writes_entryHead hid true)
  have htable := writes_lineFeed (writes_tableHead operand)
  have hlines : Writes true (linesText (m.dependencies.map fun (s, i) => dependencyLine s i))
      (m.dependencies.flatMap fun (s, i) => dependencySigns s i) true := by
    rw [linesText, List.flatMap_map]
    exact writes_flatMap fun d hd => writes_lineFeed (writes_dependencyLine d.1 (hdependencies d hd) _)
  have hentry := ((((hcomment.append hhead).append writes_functionHead).append hbody).append
    htable).append (hlines.append writes_entryEnd)
  rw [moduleLines, moduleSigns]
  simp only [linesText_append, linesText_cons, linesText_nil, List.append_assoc, List.nil_append,
    List.append_nil] at hentry ⊢
  exact hentry

end Lines

/-! ### The whole script -/

/-- What stands in front of the brace that opens the table of modules. -/
def beforeTable : Text :=
  linesText ([Text.ofString ";(function (modules) \x7b"] ++ loader) ++ Text.ofString "\x7d)("

theorem linesText_opening : linesText opening = beforeTable ++ "\x7b" ++ Text.lineFeed := by
  rw [opening, linesText_append, beforeTable, linesText_cons, linesText_nil, List.append_nil]
  simp only [List.append_assoc]
  rfl

theorem writes_opening : ∃ signs, Writes true (linesText opening) signs true := by
  have hlast : (tokenize (beforeTable ++ "\x7b")).toOption.map (·.tokens.getLast?.map Token.sign) =
      some (some (TokenKind.leftBrace, Text.ofString "\x7b")) := by
    simp only [beforeTable, loader, List.map_cons, List.map_nil]
    repeat rw [Text.ofString_ofList]
    decide +kernel
  cases h : tokenize (beforeTable ++ "\x7b") with
  | error f =>
    rw [h] at hlast
    cases hlast
  | ok ts =>
    rw [h] at hlast
    have hlast : ts.tokens.getLast?.map Token.sign = _ := Option.some.inj hlast
    rw [← List.getLast?_map] at hlast
    obtain ⟨signs, hsigns⟩ := List.getLast?_eq_some_iff.1 hlast
    have hbehind : Lexer.operandBehind true ts.tokens = true := Lexer.operandBehind_of_sign hsigns
    have hline := writes_line h (by decide +kernel)
    rw [hbehind, ← linesText_opening] at hline
    exact ⟨_, hline⟩

/-- The tokens behind the last module. -/
def closingSigns : Signs := [(.rightBrace, "\x7d"), (.rightParen, ")")]

theorem writes_closing : Writes true (linesText [closing]) closingSigns false := by
  have hbrace := writes_mark (c := '}') (by decide) true
  have hparen := (writes_mark (c := ')') (by decide) true).space (c := '\n') (by decide)
  exact hbrace.append hparen

/-- What `check` makes sure of. -/
theorem checked_of_check {modules : List Module} (h : check modules = .ok ()) {m : Module}
    (hm : m ∈ modules) :
    0 ≤ m.id ∧ (∃ body, m.body? = some body) ∧ ∀ d ∈ m.dependencies, 0 ≤ d.2 := by
  have hcomplete := check_eq_ok_iff.1 h
  obtain ⟨n, hn⟩ := List.getElem?_of_mem hm
  have hid := hcomplete.id_eq hn
  refine ⟨by omega, Option.isSome_iff_exists.1 (hcomplete.body m hm), fun d hd => ?_⟩
  exact (hcomplete.dependencies m hm d hd).1

/-- The tokens of the script of modules whose bodies have tokens of their own: those of the loader,
then those of the entry of each module, in order, then those of the end. In the table of a module a
specifier stands as a literal that has it as its value. -/
theorem tokens_of_generate (cwd : Path) (root? : Option Path) {modules : List Module}
    (hcheck : check modules = .ok ())
    (hbodies : ∀ m ∈ modules, ∀ body, m.body? = some body →
      (∃ ts, tokenize body = .ok ts) ∧ (Text.ofString "#!").isPrefixOf body = false)
    (hspecifiers : ∀ m ∈ modules, ∀ d ∈ m.dependencies, StringLiteral.Paired d.1) :
    ∃ code prelude stream, (generate cwd root? modules).result = .ok code ∧
      tokenize (linesText opening) = .ok prelude ∧ tokenize code = .ok stream ∧
      stream.tokens.map Token.sign =
        prelude.tokens.map Token.sign ++ modules.flatMap moduleSigns ++ closingSigns ∧
      ∀ m ∈ modules, ∀ d ∈ m.dependencies,
        StringLiteral.decode (StringLiteral.encode d.1) = .ok d.1 := by
  obtain ⟨signs, hopening⟩ := writes_opening
  let root := root?.getD ((modules.head?.map (·.path.parent)).getD cwd)
  have hmodules : Writes true (modules.flatMap fun m => linesText (moduleLines cwd root m))
      (modules.flatMap moduleSigns) true := by
    refine writes_flatMap fun m hm => ?_
    obtain ⟨hid, ⟨body, hbody⟩, hdependencies⟩ := checked_of_check hcheck hm
    obtain ⟨⟨ts, htokens⟩, hhashbang⟩ := hbodies m hm body hbody
    rw [← Option.getD_some (a := body) (b := []), ← hbody] at htokens hhashbang
    exact writes_moduleLines cwd root hid hdependencies htokens hhashbang
  have hscript := (hopening.append hmodules).append writes_closing
  have htext : text cwd root? modules = linesText opening ++
      (modules.flatMap fun m => linesText (moduleLines cwd root m)) ++ linesText [closing] := by
    rw [← linesText_flatMap, ← linesText_append, ← linesText_append]
    rfl
  have hstart : ∀ w, (Text.ofString "#!").isPrefixOf (linesText opening ++ w) = false := by
    intro w
    obtain ⟨rest, hrest⟩ : ∃ rest, linesText opening = CodePoint.ofChar ';' :: rest := ⟨_, rfl⟩
    rw [hrest]
    rfl
  rw [← htext] at hscript
  obtain ⟨stream, hstream, htokens⟩ := Lexer.tokenize_of_writes hscript (by
    rw [htext, List.append_assoc]
    exact hstart _)
  obtain ⟨prelude, hprelude, hsigns⟩ := Lexer.tokenize_of_writes hopening (by
    rw [← List.append_nil (linesText opening)]
    exact hstart [])
  refine ⟨text cwd root? modules, prelude, stream, ?_, hprelude, hstream, hsigns.symm ▸ htokens,
    fun m hm d hd => StringLiteral.decode_encode (hspecifiers m hm d hd)⟩
  rw [generate, hcheck]
  rfl

/-- Two modules that name each other; a path and a specifier need care, and a body ends in a comment. -/
def awkwardModules : List Module :=
  [{ id := 0, path := ⟨.top, ["p*", "a.js"]⟩, dependencies := [("./b\"", 1)], body? := some "x = y / 2 //" },
    { id := 1, path := ⟨.top, ["p*", "b.js"]⟩, dependencies := [("./a", 0)], body? := some "/[/]/.z" }]

theorem tokens_of_awkwardModules : ∃ code prelude stream,
    (generate ⟨.top, []⟩ (some ⟨.top, []⟩) awkwardModules).result = .ok code ∧
      tokenize (linesText opening) = .ok prelude ∧ tokenize code = .ok stream ∧
      stream.tokens.map Token.sign =
        prelude.tokens.map Token.sign ++ awkwardModules.flatMap moduleSigns ++ closingSigns ∧
      ∀ m ∈ awkwardModules, ∀ d ∈ m.dependencies,
        StringLiteral.decode (StringLiteral.encode d.1) = .ok d.1 := by
  have hbodies : ∀ m ∈ awkwardModules, (tokenize (m.body?.getD [])).toOption.isSome ∧
      (Text.ofString "#!").isPrefixOf (m.body?.getD []) = false := by
    decide +kernel
  have hspecifiers : ∀ m ∈ awkwardModules, ∀ d ∈ m.dependencies, StringLiteral.Paired d.1 := by
    decide
  refine tokens_of_generate _ _ (by decide) (fun m hm body hbody => ?_) hspecifiers
  obtain ⟨hsome, hhashbang⟩ := hbodies m hm
  rw [hbody, Option.getD_some] at hsome hhashbang
  refine ⟨?_, hhashbang⟩
  cases h : tokenize body with
  | error f =>
    rw [h] at hsome
    cases hsome
  | ok ts => exact ⟨ts, rfl⟩

end ScriptBundle.Script
