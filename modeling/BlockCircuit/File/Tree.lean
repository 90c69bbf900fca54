import BlockCircuit.Table
import BlockCircuit.Text.Bytes
import BlockCircuit.Text.Pieces

/-!
# File trees

A tree holds files and directories, each known by its place: the names that lead to it from the
root. A path is cut into names at its slashes. Its names are looked up one after another, from the
root if the path begins with a slash and otherwise from the directory in which the tree is used; each
name but the last must lead to a directory.

Reading yields the text of a file. Writing puts a text in place of a file or makes a new one in an
existing directory. The file is emptied or made before anything is written to it, and writing may
break off after some bytes, so a write that fails can leave the beginning of the text behind. What
goes wrong in this way is up to the device that holds the tree.
-/

namespace BlockCircuit.File

/-! ## Paths -/

/-- The names of a path, empty ones included. -/
def names (path : String) : List String :=
  (Text.pieces '/' path.toList).map String.ofList

/-- The names of a path from the back, from its file name on. Empty names and `.` do not count at
the end; a leading `.` is a name that counts, but no file name. -/
def dropTail : List (List Char) → List (List Char)
  | [] => []
  | [name] => if name = [] then [] else [name]
  | name :: rest => if name = [] ∨ name = ['.'] then dropTail rest else name :: rest

/-- A file name without its extension: what comes before its last dot, unless that is the first
character. -/
def stem (name : List Char) : List Char :=
  let before := (name.reverse.dropWhile (· ≠ '.')).drop 1
  if before = [] then name else before.reverse

/-- The path with another extension of its file name. A path without a file name stays as it is;
that is one that ends in `..`, or has no name at all. -/
def withExtension (path extension : String) : String :=
  match dropTail (Text.pieces '/' path.toList).reverse with
  | [] => path
  | name :: parents =>
      if name = ['.'] ∨ name = ['.', '.'] then path
      else
        String.ofList
          (Text.joinPieces '/' (parents.reverse ++ [stem name ++ '.' :: extension.toList]))

/-! ## Faults -/

/-- Why a path cannot be read or written. -/
inductive Fault where
  /-- A name leads nowhere. -/
  | notFound
  /-- A name before the last one leads to a file. -/
  | notADirectory
  /-- The path leads to a directory. -/
  | isADirectory
  /-- The bytes of the file are no text. -/
  | notText
  /-- What a device has to say, such as that it is full. -/
  | device (cause : String)
deriving DecidableEq, Repr

/-- The message of a fault. -/
def Fault.message : Fault → String
  | notFound => "No such file or directory (os error 2)"
  | notADirectory => "Not a directory (os error 20)"
  | isADirectory => "Is a directory (os error 21)"
  | notText => "stream did not contain valid UTF-8"
  | device cause => cause

/-! ## Trees -/

/-- What a place holds. -/
inductive Entry where
  | file (content : List UInt8)
  | directory
deriving DecidableEq

/-- Files and directories by their places. The root is always there. -/
abbrev Entries := List (List String × Entry)

/-- What is done to a file. -/
inductive Access where
  | reading
  | writing
deriving DecidableEq, Repr

/-- What holds a tree, by what it fails to do. It may do so depending on all that it holds. -/
structure Device where
  /-- Why it does not give access to a file. -/
  refuses : Entries → (place : List String) → Access → Option Fault := fun _ _ _ => none
  /-- After how many bytes it stops to take the content of a file, and why. -/
  breaksOff : Entries → (place : List String) → (content : List UInt8) → Option (Nat × Fault) :=
    fun _ _ _ => none

/-- The files and directories below a root, as they are seen from one of the directories. -/
structure Tree where
  entries : Entries := []
  /-- The place from which paths lead that do not begin at the root. -/
  start : List String := []
  device : Device := {}

namespace Tree

/-- What a place holds. -/
def entry? (t : Tree) : List String → Option Entry
  | [] => some .directory
  | place => t.entries.lookup place

/-- Puts an entry at a place: an existing one is replaced. -/
def put (t : Tree) (place : List String) (entry : Entry) : Tree :=
  { t with entries := insertEntry t.entries place entry }

/-! ## Looking up paths -/

/-- The place that further names lead to from a place. The last one need not exist. Above the root
is the root. -/
def walk (t : Tree) : (place : List String) → (further : List String) → Except Fault (List String)
  | place, [] => .ok place
  | place, name :: further =>
      match t.entry? place with
      | none => .error .notFound
      | some (.file _) => .error .notADirectory
      | some .directory =>
          if name = "" ∨ name = "." then walk t place further
          else if name = ".." then walk t place.dropLast further
          else walk t (place ++ [name]) further

/-- The place from which the names of a path lead: the root if the first name is empty. -/
def origin (t : Tree) (path : String) : List String :=
  if (names path).head? = some "" then [] else t.start

/-- The place that a path leads to. The empty path leads nowhere. -/
def resolve (t : Tree) (path : String) : Except Fault (List String) :=
  if path = "" then .error .notFound else t.walk (t.origin path) (names path)

/-! ## Reading and writing -/

/-- The bytes of a file. -/
def readBytes (t : Tree) (path : String) : Except Fault (List UInt8) := do
  let place ← t.resolve path
  match t.entry? place with
  | none => .error .notFound
  | some .directory => .error .isADirectory
  | some (.file content) =>
      match t.device.refuses t.entries place .reading with
      | some fault => .error fault
      | none => .ok content

/-- The text of a file. -/
def read (t : Tree) (path : String) : Except Fault String := do
  let content ← t.readBytes path
  match Text.ofBytes? content with
  | none => .error .notText
  | some text => .ok text

/-- The place of a file that is to be written. The directory that is to hold it must exist. -/
def filePlace (t : Tree) (path : String) : Except Fault (List String) := do
  if path = "" then .error .notFound
  else
    let all := names path
    let shown := (all.reverse.dropWhile (· = "")).reverse
    let parent ← t.walk (t.origin path) shown.dropLast
    match t.entry? parent, shown.getLast? with
    | none, _ => .error .notFound
    | some (.file _), _ => .error .notADirectory
    | some .directory, none => .error .isADirectory
    | some .directory, some name =>
        if shown.length < all.length ∨ name = "." ∨ name = ".." then .error .isADirectory
        else
          let place := parent ++ [name]
          match t.entry? place with
          | some .directory => .error .isADirectory
          | _ => .ok place

/-- Writes a file at a place, as far as the device goes along. -/
def store (t : Tree) (place : List String) (content : List UInt8) : Tree × Option Fault :=
  match t.device.refuses t.entries place .writing with
  | some fault => (t, some fault)
  | none =>
      match t.device.breaksOff t.entries place content with
      | none => (t.put place (.file content), none)
      | some (count, fault) =>
          -- There is nothing left to break off once all bytes are written.
          if count < content.length then (t.put place (.file (content.take count)), some fault)
          else (t.put place (.file content), none)

/-- Writes a text to a file: the tree afterwards, and what went wrong. -/
def write (t : Tree) (path text : String) : Tree × Option Fault :=
  match t.filePlace path with
  | .error fault => (t, some fault)
  | .ok place => t.store place (Text.toBytes text)

/-! ## Making and comparing trees

These are for programs that set up a tree, run on it, and look at what has changed. -/

/-- An empty directory, in which the tree is used. -/
def scratch : Tree where
  entries := [(["scratch"], .directory)]
  start := ["scratch"]

/-- Makes a directory and those that lead to it, as far as they do not exist. -/
def makeDirectories (t : Tree) : (place below : List String) → Tree
  | _, [] => t
  | place, name :: below =>
      let place := place ++ [name]
      let t := if (t.entry? place).isSome then t else t.put place .directory
      makeDirectories t place below

/-- Makes a file or a directory, and the directories that lead to it. -/
def make (t : Tree) (path : String) (entry : Entry) : Tree :=
  let origin := t.origin path
  let below := (names path).filter fun name => name ≠ "" ∧ name ≠ "."
  match entry with
  | .directory => t.makeDirectories origin below
  | .file _ => (t.makeDirectories origin below.dropLast).put (origin ++ below) entry

/-- The path of a place below the directory in which the tree is used. -/
def pathOf? (t : Tree) (place : List String) : Option String :=
  if t.start.isPrefixOf place then some ("/".intercalate (place.drop t.start.length)) else none

/-- The files below the directory in which the tree is used, by path in increasing order. -/
def files (t : Tree) : List (String × List UInt8) :=
  (t.entries.filterMap fun (place, entry) =>
    match entry with
    | .file content => (t.pathOf? place).map fun path => (path, content)
    | .directory => none).mergeSort fun a b => decide (a.1 ≤ b.1)

/-- The files that are new in the second tree or differ from those of the first. -/
def changes (before after : Tree) : List (String × List UInt8) :=
  after.files.filter fun (path, content) => (before.files.lookup path) ≠ some content

end Tree

end BlockCircuit.File
