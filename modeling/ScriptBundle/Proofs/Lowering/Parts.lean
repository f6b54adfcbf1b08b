import ScriptBundle.Proofs.Lowering.Edits
import ScriptBundle.Proofs.Lowering.Splice
import ScriptBundle.Proofs.Statement.Closed

/-!
# The parts of a lowered source

The edits of a lowered source divide its tokens into those that stay and runs that go. A run starts
with a keyword or with `let` or `const`, it ends with a word or as a statement does, and it closes the
brackets that it opens.

* `Goes`: what a run that goes looks like;
* `Divides`: the parts of a source, inside the brackets that are open in front of each;
* `Parted`, `exists_parted_of_scanFrom`: the edits of a scan divide the tokens.
-/

namespace ScriptBundle

open Statement
open Lexer (Item)

namespace Lowering

/-- The kinds of the tokens that end a run that goes. -/
def endsRun (k : TokenKind) : Bool := endsStatement k || k = .exportWord || k = .identifier

/-- The items from `first` on go, inside the brackets `st`, and `r` takes their place. -/
structure Goes (st : List TokenKind) (first : Item) (more : List Item) (r : Replacement) : Prop where
  starts : first.token.isKeyword ∨ first.token.isWord "let" ∨ first.token.isWord "const"
  ends : endsRun ((first :: more).getLast (List.cons_ne_nil _ _)).token.kind
  word : (∃ n, r = .breaks n) ∨
    ((first :: more).getLast (List.cons_ne_nil _ _)).token.kind = .identifier
  closes : openBehind st ((first :: more).map Item.token) = some st

/-- The parts stand inside the brackets `st`, and every bracket is closed behind them. -/
inductive Divides : List TokenKind → List Part → Prop
  | nil : Divides [] []
  | keep {st st' : List TokenKind} {item : Item} {parts : List Part}
      (hst : openedBy st item.token = some st') (h : Divides st' parts) : Divides st (.keep item :: parts)
  | swap {st : List TokenKind} {first : Item} {more : List Item} {r : Replacement} {parts : List Part}
      (hgoes : Goes st first more r) (h : Divides st parts) : Divides st (.swap first more r :: parts)

/-- The parts divide the items as the edits say. -/
structure Parted (st : List TokenKind) (edits : List Edit) (items : List Item) (parts : List Part) :
    Prop where
  items_eq : sourceItems parts = items
  edits_eq : parts.filterMap Part.edit? = edits
  divides : Divides st parts

section Runs

variable {st : List TokenKind} {i j : Item}

/-- The keyword of an export goes by itself. -/
theorem goes_exportWord (h : i.token.kind = .exportWord) : Goes st i [] (.breaks 0) where
  starts := .inl (by simp [Token.isKeyword, h])
  ends := by simp [endsRun, h]
  word := .inl ⟨0, rfl⟩
  closes := openBehind_plain (by simpa using isPlain_of_kind h (by decide)) st

/-- The word that makes a declaration block-scoped becomes another one. -/
theorem goes_blockScoped (h : i.token.isWord "let" ∨ i.token.isWord "const") :
    Goes st i [] .varWord where
  starts := .inr h
  ends := by simp [endsRun, h.elim kind_of_isWord kind_of_isWord]
  word := .inr (h.elim kind_of_isWord kind_of_isWord)
  closes := openBehind_plain (by simpa using h.elim isPlain_of_isWord isPlain_of_isWord) st

/-- The words `export default` go, or they become an assignment. -/
theorem goes_default (h : i.token.kind = .exportWord) (hj : j.token.isWord "default")
    (r : Replacement) : Goes st i [j] r where
  starts := .inl (by simp [Token.isKeyword, h])
  ends := by simp [endsRun, kind_of_isWord hj]
  word := .inr (by simp [kind_of_isWord hj])
  closes := openBehind_plain (by simpa using ⟨isPlain_of_kind h (by decide), isPlain_of_isWord hj⟩) st

/-- The last item of a run that ends as a statement does. -/
theorem getLast_of_ends {more : List Item} {stop : Nat} (h : Ends (more.map Item.token) stop) :
    ((i :: more).getLast (List.cons_ne_nil _ _)).token.stop = stop ∧
      endsStatement ((i :: more).getLast (List.cons_ne_nil _ _)).token.kind := by
  obtain ⟨front, t, hmore, hstop, ht⟩ := h
  obtain ⟨front, last, rfl, -, hlast⟩ := List.map_eq_append_iff.1 hmore
  obtain ⟨j, last, rfl, rfl, hnil⟩ := List.map_eq_cons_iff.1 hlast
  obtain rfl := List.map_eq_nil_iff.1 hnil
  have hgetLast : ((i :: (front ++ [j])).getLast (List.cons_ne_nil _ _)) = j := by simp
  rw [hgetLast]
  exact ⟨hstop, ht⟩

/-- A statement goes as a whole. -/
theorem goes_whole {more : List Item} {stop : Nat} (hword : i.token.isKeyword)
    (hends : Ends (more.map Item.token) stop) (hclosed : openBehind st (more.map Item.token) = some st)
    (n : Nat) :
    Goes st i more (.breaks n) ∧ ((i :: more).getLast (List.cons_ne_nil _ _)).token.stop = stop := by
  obtain ⟨hstop, hkind⟩ := getLast_of_ends (i := i) hends
  refine ⟨⟨.inl hword, ?_, .inl ⟨n, rfl⟩, ?_⟩, hstop⟩
  · rw [endsRun, hkind]
    rfl
  · rw [List.map_cons, openBehind_cons_of_plain (isPlain_of_isKeyword hword), hclosed]

end Runs

section Scan

variable {st st' : List TokenKind} {edits : List Edit} {items : List Item} {parts : List Part}
  {rest : List Token}

theorem Parted.keep {i : Item} (hst : openedBy st i.token = some st')
    (h : Parted st' edits items parts) : Parted st edits (i :: items) (.keep i :: parts) where
  items_eq := by rw [sourceItems_cons, h.items_eq]; rfl
  edits_eq := by rw [List.filterMap_cons_none (by rfl), h.edits_eq]
  divides := .keep hst h.divides

theorem Parted.swap {first : Item} {more : List Item} {r : Replacement} {e : Edit}
    (hgoes : Goes st first more r) (hedit : (Part.swap first more r).edit? = some e)
    (h : Parted st edits items parts) :
    Parted st (e :: edits) (first :: (more ++ items)) (.swap first more r :: parts) where
  items_eq := by rw [sourceItems_cons, h.items_eq]; rfl
  edits_eq := by rw [List.filterMap_cons_some hedit, h.edits_eq]
  divides := .swap hgoes h.divides

/-- Tokens can be divided if what stands behind some that stay can be. -/
theorem exists_parted_behind (front : List Token) (hitems : items.map Item.token = front ++ rest)
    (hn : openBehind st (front ++ rest) = some [])
    (hrest : ∀ st items, items.map Item.token = rest → openBehind st rest = some [] →
      ∃ parts, Parted st edits items parts) : ∃ parts, Parted st edits items parts := by
  induction front generalizing st items with
  | nil => exact hrest st items hitems hn
  | cons t front ih =>
    obtain ⟨i, items, rfl, rfl, htail⟩ := List.map_eq_cons_iff.1 hitems
    obtain ⟨mid, hmid, hn⟩ := exists_of_openBehind_cons hn
    obtain ⟨parts, hparts⟩ := ih htail hn
    exact ⟨_, hparts.keep hmid⟩

/-- The tokens of a statement are divided as its edits say. -/
theorem exists_parted_of_covers (source : Text) {word : Token} {us : List Token} {s : Statement}
    (hrecords : s.Records word) (hword : word.isKeyword) (hcovers : Covers word us s rest)
    (hcloses : s.isWhole → Closes st us rest) (hn : openBehind st us = some [])
    (hitems : items.map Item.token = word :: us)
    (hrest : ∀ st items, items.map Item.token = rest → openBehind st rest = some [] →
      ∃ parts, Parted st edits items parts) :
    ∃ parts, Parted st (s.edits source ++ edits) items parts := by
  obtain ⟨i, items, rfl, rfl, hus⟩ := List.map_eq_cons_iff.1 hitems
  have hstart : s.start = i.token.start := hrecords.1
  cases hcovers with
  | whole run hform hts hends =>
    -- What is covered and what closes the brackets are the same run: the same is left of both.
    obtain ⟨run', hrun', hclosed⟩ := hcloses hform
    obtain rfl : run = run' := List.append_cancel_right (hts.symm.trans hrun')
    subst hts
    obtain ⟨more, back, rfl, rfl, hback⟩ := List.map_eq_append_iff.1 hus
    rw [openBehind_append_of_eq hclosed] at hn
    obtain ⟨parts, hparts⟩ := hrest st back hback hn
    obtain ⟨hgoes, hstop⟩ := goes_whole hword hends hclosed
      (Text.lineFeeds (slice source s.start.offset s.stop))
    rw [edits_of_isWhole source hform]
    exact ⟨_, hparts.swap hgoes (by rw [Part.edit?, hstop, hstart]; rfl)⟩
  | declaration bindings typeOnly hform hstop hrest' =>
    have hkind := kind_of_records hrecords hword (by simp [isImport, hform])
    obtain ⟨front, rfl⟩ := hrest'
    obtain ⟨parts, hparts⟩ := exists_parted_behind front hus hn hrest
    have hedits : s.edits source = [⟨i.token.start.offset, i.token.stop, []⟩] := by
      simp [Statement.edits, hform, hstart, hstop]
    rw [hedits]
    exact ⟨_, hparts.swap (goes_exportWord hkind) rfl⟩
  | blockScoped bindings typeOnly front t behind hform hstop hts hfront ht hrest' =>
    have hkind := kind_of_records hrecords hword (by simp [isImport, hform])
    obtain ⟨front', rfl⟩ := hrest'
    subst hts
    have hedits : s.edits source =
        [⟨i.token.start.offset, i.token.stop, []⟩, ⟨t.start.offset, t.stop, "var"⟩] := by
      simp [Statement.edits, hform, hstart, hstop]
    -- Between `export` and the word that goes, and behind that word, tokens are kept.
    obtain ⟨parts, hparts⟩ :
        ∃ parts, Parted st (⟨t.start.offset, t.stop, "var"⟩ :: edits) items parts := by
      refine exists_parted_behind front hus hn fun st items hitems hn => ?_
      obtain ⟨j, items, rfl, rfl, htail⟩ := List.map_eq_cons_iff.1 hitems
      rw [openBehind_cons_of_plain (ht.elim isPlain_of_isWord isPlain_of_isWord)] at hn
      obtain ⟨parts, hparts⟩ := exists_parted_behind front' htail hn hrest
      exact ⟨_, hparts.swap (goes_blockScoped ht) rfl⟩
    rw [hedits]
    exact ⟨_, hparts.swap (goes_exportWord hkind) rfl⟩
  | default name t hform hts ht hstop hname =>
    have hkind := kind_of_records hrecords hword (by simp [isImport, hform])
    subst hts
    obtain ⟨j, items, rfl, rfl, htail⟩ := List.map_eq_cons_iff.1 hus
    rw [openBehind_cons_of_plain (isPlain_of_isWord ht)] at hn
    obtain ⟨parts, hparts⟩ := hrest st items htail hn
    cases name with
    | none =>
      have hedits : s.edits source = [⟨i.token.start.offset, j.token.stop, "exports.default ="⟩] := by
        simp [Statement.edits, hform, hstart, hstop]
      rw [hedits]
      exact ⟨_, hparts.swap (goes_default hkind ht .assignment) rfl⟩
    | some name =>
      have hedits : s.edits source = [⟨i.token.start.offset, j.token.stop, []⟩] := by
        simp [Statement.edits, hform, hstart, hstop]
      rw [hedits]
      exact ⟨_, hparts.swap (goes_default hkind ht (.breaks 0)) rfl⟩

/-- The edits of a scan divide the tokens. -/
theorem exists_parted_of_scanFrom (source : Text) {last : Token} {prev : Option Token} {depth : Nat}
    {ts : List Token} {ss : List Statement} (h : scanFrom last prev depth ts = .ok ss)
    (hitems : items.map Item.token = ts) (hn : openBehind st ts = some [])
    (hnames : ∀ s ∈ ss, s.isImport → ∀ b ∈ s.bindings, ∀ t ∈ ts, t.text = b.inner → t.isPlain) :
    ∃ parts, Parted st (ss.flatMap (·.edits source)) items parts := by
  fun_induction scanFrom last prev depth ts generalizing ss items st with
  | case1 =>
    cases h
    obtain rfl := List.map_eq_nil_iff.1 hitems
    obtain rfl : st = [] := Option.some.inj hn
    exact ⟨[], rfl, rfl, .nil⟩
  | case2 => cases h
  | case3 prev depth t us _ s rest hread ih =>
    obtain ⟨ss', hss', rfl⟩ := Except.map_eq_ok_iff.1 h
    obtain ⟨hrecords, hword⟩ := records_of_readStatement hread
    rw [openBehind_cons_of_plain (isPlain_of_isKeyword hword)] at hn
    have hcloses (hform : s.isWhole) : Closes st us rest :=
      closes_of_readStatement hread hform hn fun himport b hb u hu =>
        hnames s List.mem_cons_self himport b hb u (List.mem_cons_of_mem t hu)
    rw [List.flatMap_cons]
    refine exists_parted_of_covers source hrecords hword (covers_of_readStatement hread) hcloses hn hitems
      fun st' items' hitems' hn' => ih hss' hitems' hn' fun s' hs' himport b hb u hu => ?_
    exact hnames s' (List.mem_cons_of_mem s hs') himport b hb u
      (List.mem_cons_of_mem t ((readStatement_suffix hread).subset hu))
  | case4 prev depth t us _ _ ih =>
    obtain ⟨i, items, rfl, rfl, htail⟩ := List.map_eq_cons_iff.1 hitems
    obtain ⟨mid, hmid, hn⟩ := exists_of_openBehind_cons hn
    obtain ⟨parts, hparts⟩ := ih h htail hn fun s hs himport b hb u hu =>
      hnames s hs himport b hb u (List.mem_cons_of_mem _ hu)
    exact ⟨_, hparts.keep hmid⟩
  | case5 prev depth t us _ ih =>
    obtain ⟨i, items, rfl, rfl, htail⟩ := List.map_eq_cons_iff.1 hitems
    obtain ⟨mid, hmid, hn⟩ := exists_of_openBehind_cons hn
    obtain ⟨parts, hparts⟩ := ih h htail hn fun s hs himport b hb u hu =>
      hnames s hs himport b hb u (List.mem_cons_of_mem _ hu)
    exact ⟨_, hparts.keep hmid⟩

end Scan

end Lowering

end ScriptBundle
