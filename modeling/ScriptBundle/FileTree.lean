import ScriptBundle.Path
import ScriptBundle.SystemError
import ScriptBundle.Text.Lines
import ScriptBundle.Text.Utf8

/-!
# The file tree

The files and directories that a build can see, as a finite table from locations to entries. A
location is the list of names from the top; there are no links, so each entry has one location. A
path is walked name by name: `..` goes up and stays at the top, and only a directory can be walked
through. Names have no greatest length, and every directory can be searched.

* `FileTree.locate`: the entry that a path leads to;
* `Path.fault?`: why no file can have a path;
* `FileTree.readBytes`, `FileTree.readText`: the content of a file;
* `FileTree.writable`, `FileTree.filesSince`: where a file can be written, and which were.
-/

namespace ScriptBundle

/-- Why the system cannot be asked for a path. -/
inductive PathFault
  /-- It holds a surrogate that stands for no byte. -/
  | unencodable (fault : Utf8.Unencodable)
  /-- It holds the null character, which ends a path. -/
  | embeddedNull
  deriving DecidableEq

namespace PathFault

/-- The message for a path that the system cannot be asked for. -/
def message : PathFault → Text
  | .unencodable f => f.message
  | .embeddedNull => "embedded null byte"

end PathFault

/-- Why the system cannot be asked for a path, if it cannot. -/
def Path.fault? (p : Path) : Option PathFault :=
  match Utf8.unencodableName? p.text with
  | some f => some (.unencodable f)
  | none => if p.text.contains (CodePoint.ofNat 0) then some .embeddedNull else none

/-- Why something cannot be done with the file of a path: the system cannot be asked for the path, or
what is done fails with an error. -/
inductive FileError (ε : Type)
  | path (fault : PathFault)
  | failed (error : ε)
  deriving DecidableEq

/-- What stands at a location of the tree. -/
inductive Entry
  | directory
  | file (bytes : List UInt8)
  /-- A file that exists but cannot be opened. -/
  | locked (error : SystemError)
  deriving DecidableEq

namespace Entry

/-- Whether the entry is a directory. -/
def isDirectory : Entry → Bool
  | .directory => true
  | _ => false

end Entry

/-- The names from the top of the tree down to an entry. -/
abbrev Location := List Text

/-- The files and directories that a build can see. -/
structure FileTree where
  entries : List (Location × Entry)

namespace FileTree

/-- The tree that holds nothing but its top. -/
def empty : FileTree := ⟨[]⟩

/-- The entry at a location; the top is always a directory. -/
def at? (t : FileTree) : Location → Option Entry
  | [] => some .directory
  | loc => t.entries.lookup loc

/-- The tree with the entry at one location replaced or added. -/
def insert (t : FileTree) (loc : Location) (e : Entry) : FileTree :=
  ⟨(loc, e) :: t.entries.filter (·.1 ≠ loc)⟩

theorem at?_insert_self (t : FileTree) {loc : Location} (h : loc ≠ []) (e : Entry) :
    (t.insert loc e).at? loc = some e := by
  cases loc with
  | nil => exact absurd rfl h
  | cons part loc => simp [at?, insert]

theorem at?_insert_of_ne (t : FileTree) {loc loc' : Location} (h : loc' ≠ loc) (e : Entry) :
    (t.insert loc e).at? loc' = t.at? loc' := by
  have other : (loc' == loc) = false := by simpa using h
  have remaining : ∀ es : List (Location × Entry),
      (es.filter fun x => x.1 ≠ loc).lookup loc' = es.lookup loc' := by
    intro es
    induction es with
    | nil => rfl
    | cons x es ih =>
      obtain ⟨k, v⟩ := x
      by_cases hk : k = loc
      · subst hk
        rw [List.filter_cons_of_neg (by simp), ih, List.lookup_cons, other]
      · rw [List.filter_cons_of_pos (by simpa using hk), List.lookup_cons, List.lookup_cons, ih]
  cases loc' with
  | nil => rfl
  | cons part loc' =>
    show ((loc, e) :: t.entries.filter fun x => x.1 ≠ loc).lookup (part :: loc') = _
    rw [List.lookup_cons, other, remaining]
    rfl

/-- What is put at a location replaces what was put there before. -/
theorem insert_insert (t : FileTree) (loc : Location) (e e' : Entry) :
    (t.insert loc e).insert loc e' = t.insert loc e' := by
  simp [insert, List.filter_filter]

/-- The tree without the entry at a location. -/
def remove (t : FileTree) (loc : Location) : FileTree := ⟨t.entries.filter (·.1 ≠ loc)⟩

/-- What is put at a free location and removed leaves nothing behind. -/
theorem remove_insert {t : FileTree} {loc : Location} (h : t.at? loc = none) (e : Entry) :
    (t.insert loc e).remove loc = t := by
  have hloc : ∀ x ∈ t.entries, x.1 ≠ loc := by
    rintro x hx rfl
    cases hx1 : x.1 with
    | nil =>
      rw [hx1] at h
      cases h
    | cons part parts =>
      rw [hx1] at h
      have h : t.entries.lookup (part :: parts) = none := h
      rw [List.lookup_eq_none_iff] at h
      simpa [hx1] using h x hx
  have hkept : t.entries.filter (·.1 ≠ loc) = t.entries :=
    List.filter_eq_self.2 fun x hx => by simpa using hloc x hx
  simp only [remove, insert, hkept]
  rw [List.filter_cons_of_neg (by simp), hkept]

/-- The tree in which a location and all above it are directories. -/
def insertDirectory (t : FileTree) (loc : Location) : FileTree :=
  (List.range loc.length).foldl (fun t n => t.insert (loc.take (n + 1)) .directory) t

/-- The tree with a file at a location, and with the directories above it. -/
def insertFile (t : FileTree) (loc : Location) (e : Entry) : FileTree :=
  (t.insertDirectory loc.dropLast).insert loc e

/-- Follows the names of a path from the entry `e` at `loc`. -/
def walk (t : FileTree) (loc : Location) (e : Entry) :
    List Text → Except SystemError (Location × Entry)
  | [] => .ok (loc, e)
  | part :: parts =>
    if !e.isDirectory then .error .notDirectory
    else if part = ".." then walk t loc.dropLast .directory parts
    else
      match t.at? (loc ++ [part]) with
      | none => .error .noEntry
      | some e => walk t (loc ++ [part]) e parts

/-- The entry that a path, seen from the working directory `cwd`, leads to. -/
def locate (t : FileTree) (cwd p : Path) : Except SystemError (Location × Entry) :=
  t.walk [] .directory (Path.partsOf (cwd.append p).text)

/-- Whether a path leads to a regular file. -/
def isFile (t : FileTree) (cwd p : Path) : Bool :=
  match t.locate cwd p with
  | .ok (_, e) => !e.isDirectory
  | .error _ => false

/-- Whether a path leads to a directory. -/
def isDirectory (t : FileTree) (cwd p : Path) : Bool :=
  match t.locate cwd p with
  | .ok (_, e) => e.isDirectory
  | .error _ => false

/-- Why a path that leads nowhere cannot be opened: because of its fault, before the system is asked for
it, or with the error of the system. A path that leads to an entry has no fault, since entries have names
that can be asked for. -/
def openError (p : Path) (e : SystemError) : FileError SystemError :=
  match p.fault? with
  | some f => .path f
  | none => .failed e

/-- The bytes of the file that a path leads to. -/
def readBytes (t : FileTree) (cwd p : Path) : Except (FileError SystemError) (List UInt8) :=
  match t.locate cwd p with
  | .error e => .error (openError p e)
  | .ok (_, .directory) => .error (.failed .isDirectory)
  | .ok (_, .locked e) => .error (.failed e)
  | .ok (_, .file bytes) => .ok bytes

/-- Where a file can be written under a path: over a file that can be opened, or as a new file in an
existing directory. -/
def writable (t : FileTree) (cwd p : Path) : Except (FileError SystemError) Location :=
  match t.locate cwd p with
  | .ok (_, .directory) => .error (.failed .isDirectory)
  | .ok (_, .locked e) => .error (.failed e)
  | .ok (loc, .file _) => .ok loc
  | .error e =>
    match openError p e, t.locate cwd p.parent with
    | .failed e, .ok (loc, .directory) =>
      if p.name = ".." then .error (.failed e) else .ok (loc ++ [p.name])
    | e, _ => .error e

/-- The files of `t` that are not in the tree `before` with the same bytes. -/
def filesSince (before t : FileTree) : List (Location × List UInt8) :=
  t.entries.filterMap fun (loc, e) =>
    match e with
    | .file bytes => if before.at? loc = some e then none else some (loc, bytes)
    | _ => none

end FileTree

/-- Why a file has no text: it cannot be read, or its bytes are no text. -/
inductive ReadError
  | system (error : SystemError)
  | encoding (fault : Utf8.Fault)
  deriving DecidableEq

namespace ReadError

/-- The message for a file that is shown as `path`. -/
def message (path : Text) : ReadError → Text
  | .system e => e.message path
  | .encoding f => f.message

end ReadError

/-- The text of the file that a path leads to, with line feeds for all its line ends. -/
def FileTree.readText (t : FileTree) (cwd p : Path) : Except (FileError ReadError) Text :=
  match t.readBytes cwd p with
  | .error (.path f) => .error (.path f)
  | .error (.failed e) => .error (.failed (.system e))
  | .ok bytes =>
    match Utf8.decode bytes with
    | .error f => .error (.failed (.encoding f))
    | .ok s => .ok (Text.unifyLineEnds s)

end ScriptBundle
