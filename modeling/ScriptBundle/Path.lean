import ScriptBundle.Text.Quoted

/-!
# File paths

A path is a root and a sequence of parts. Empty parts and single dots are dropped when a path is
read; `..` is kept until the path is normalized. Exactly two slashes in front are a root of their
own, any other number is a single one.

* `Path.ofText`, `Path.text`: reading and writing;
* `Path.join`, `Path.parent`, `Path.ancestors`, `Path.withName`: paths near a path;
* `Path.normalize`: the absolute path without `..`;
* `Path.relativeTo`: how one path is reached from another.
-/

namespace ScriptBundle

/-- What a path starts from: the working directory, or the top of the file tree, which can be written
with one slash or with two. -/
inductive Path.Root
  | working
  | top
  | doubleTop
  deriving DecidableEq

/-- A path of a file or directory. -/
structure Path where
  root : Path.Root
  parts : List Text
  deriving DecidableEq

/-- Why a path cannot take a new name. -/
inductive NameFault
  /-- The path has no last part. -/
  | noName (path : Path)
  /-- The new name is not a single part. -/
  | invalidName (name : Text)
  deriving DecidableEq

namespace Path

/-- The slashes of a root. -/
def Root.text : Root → Text
  | .working => []
  | .top => "/"
  | .doubleTop => "//"

/-- The root of a path that is given as text. -/
def rootOf (s : Text) : Root :=
  match (s.takeWhile fun c => c = CodePoint.ofChar '/').length with
  | 0 => .working
  | 2 => .doubleTop
  | _ => .top

/-- The parts of a path that is given as text. -/
def partsOf (s : Text) : List Text :=
  (Text.splitAt '/' s).filter fun part => part ≠ [] && part ≠ "."

/-- The path that a text denotes. -/
def ofText (s : Text) : Path := ⟨rootOf s, partsOf s⟩

/-- A path as text; the empty path is a dot. -/
def text (p : Path) : Text :=
  if p.root = .working && p.parts.isEmpty then "." else p.root.text ++ Text.join "/" p.parts

/-- Whether a path does not depend on the working directory. -/
def isAbsolute (p : Path) : Bool := p.root ≠ .working

/-- The path `q` as seen from the directory `p`. -/
def append (p q : Path) : Path := if q.isAbsolute then q else { p with parts := p.parts ++ q.parts }

/-- The path that a text denotes as seen from the directory `p`. -/
def join (p : Path) (s : Text) : Path := p.append (ofText s)

/-- The directory of a path; a root is its own. -/
def parent (p : Path) : Path := { p with parts := p.parts.dropLast }

/-- The path itself and the directories above it, from the inside out. -/
def ancestors (p : Path) : List Path :=
  (List.range (p.parts.length + 1)).map fun n => { p with parts := p.parts.take (p.parts.length - n) }

/-- The last part of a path. -/
def name (p : Path) : Text := p.parts.getLast?.getD []

/-- Whether a text can stand as the last part of a path. -/
def isName (s : Text) : Bool :=
  !s.isEmpty && s.getLast? ≠ some (CodePoint.ofChar '/') && rootOf s = .working &&
    (partsOf s).length = 1

/-- The path with another last part. -/
def withName (p : Path) (s : Text) : Except NameFault Path :=
  if p.parts.isEmpty then .error (.noName p)
  else if isName s then .ok { p with parts := p.parts.dropLast ++ [s] }
  else .error (.invalidName s)

/-- One step from the place reached by `done` along a part; `..` goes up and stays at the top. -/
def foldPart (done : List Text) (part : Text) : List Text :=
  if part = ".." then done.dropLast else done ++ [part]

/-- The absolute path without `..` that a text denotes in the working directory `cwd`. -/
def normalize (cwd : Path) (s : Text) : Path :=
  let p := cwd.join s
  { p with parts := p.parts.foldl foldPart [] }

/-- The beginning that two lists share. -/
def shared {α : Type} [DecidableEq α] : List α → List α → List α
  | a :: as, b :: bs => if a = b then a :: shared as bs else []
  | _, _ => []

/-- How `p` is reached from the directory `base`, both seen from the working directory `cwd`. -/
def relativeTo (cwd p base : Path) : Text :=
  let origin := (normalize cwd base.text).parts
  let goal := (normalize cwd p.text).parts
  let common := (shared origin goal).length
  let steps := List.replicate (origin.length - common) (Text.ofString "..") ++ goal.drop common
  if steps.isEmpty then "." else Text.join "/" steps

end Path

namespace NameFault

/-- The message for a name fault. -/
def message : NameFault → Text
  | .noName p => "PosixPath(" ++ p.text.quoted ++ ") has an empty name"
  | .invalidName s => "Invalid name " ++ s.quoted

end NameFault

/-- Whether a specifier is path-like: it starts with a dot component or at the top of the tree. Any
other specifier names a package. -/
def isRelativeSpecifier (s : Text) : Bool :=
  s = "." || s = ".." || (Text.ofString "./").isPrefixOf s || (Text.ofString "../").isPrefixOf s ||
    Text.headIs s '/'

end ScriptBundle
