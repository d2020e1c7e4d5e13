import Fettle.Text.Octets
import Fettle.Text.Rows

/-!
# File trees

A tree of directories and files, and the paths into it. A path is relative to the directory at the
root of the tree; a path that begins with a slash leads outside, where only some files are known and
none can be written.
-/

namespace Fettle.Files

open Text (Octets)

/-- Why a file cannot be used. -/
inductive FileError where
  /-- There is nothing under the path. -/
  | notFound
  /-- The file may not be used in this way. -/
  | forbidden
  /-- The file is no program. -/
  | notProgram
  /-- A file stands where the path needs a directory. -/
  | notDirectory
  /-- A directory stands where a file is needed. -/
  | isDirectory
  /-- The file spells no text. -/
  | notText
deriving DecidableEq, Inhabited, Repr

/-- What a file error is, in words. -/
def FileError.reason : FileError → String
  | notFound => "No such file or directory"
  | forbidden => "Permission denied"
  | notProgram => "Exec format error"
  | notDirectory => "Not a directory"
  | isDirectory => "Is a directory"
  | notText => "stream did not contain valid UTF-8"

/-- The number of a file error, where it has one. -/
def FileError.number? : FileError → Option Nat
  | notFound => some 2
  | forbidden => some 13
  | notProgram => some 8
  | notDirectory => some 20
  | isDirectory => some 21
  | notText => none

/-- The message of a file error: what it is, and its number. -/
def FileError.message (e : FileError) : String :=
  match e.number? with
  | some n => s!"{e.reason} (os error {n})"
  | none => e.reason

/-- A file or a directory. -/
inductive Node where
  /-- A file with its bytes, which may be a program. -/
  | file (content : Octets) (executable : Bool)
  /-- A directory with its entries. -/
  | directory (entries : List (String × Node))
deriving Inhabited

namespace Node

/-- The entry of a directory. -/
def entry? (name : String) : Node → Option Node
  | file .. => none
  | directory entries => entries.lookup name

/-- The node under a list of names. -/
def find? : List String → Node → Option Node
  | [], n => some n
  | name :: names, n => (n.entry? name).bind (find? names)

/-- Put an entry into a list of entries. -/
def setEntry (name : String) (n : Node) : List (String × Node) → List (String × Node)
  | [] => [(name, n)]
  | (other, m) :: entries =>
    if other = name then (name, n) :: entries else (other, m) :: setEntry name n entries

/-- Put a node under a list of names; directories on the way are made. -/
def put (new : Node) : List String → Node → Node
  | [], _ => new
  | name :: names, n =>
    let entries := match n with
      | directory entries => entries
      | file .. => []
    let child := (n.entry? name).getD (directory [])
    directory (setEntry name (put new names child) entries)

mutual

/-- The files below a node, with their paths and contents. -/
def files : Node → List (String × Octets)
  | file .. => []
  | directory entries => filesOf entries

/-- The files among entries and below them. -/
def filesOf : List (String × Node) → List (String × Octets)
  | [] => []
  | (name, file content _) :: entries => (name, content) :: filesOf entries
  | (name, directory inner) :: entries =>
    ((filesOf inner).map fun (path, content) => (name ++ "/" ++ path, content)) ++ filesOf entries

end

end Node

/-- A tree of files. -/
structure Tree where
  /-- The directory at the root. -/
  root : Node := .directory []
  /-- What is known outside the tree, by paths that begin with a slash. -/
  outside : List (String × Node) := []
deriving Inhabited

namespace Tree

/-- The pieces of a path between its slashes. -/
def pieces (path : String) : List String := (Text.cutAt '/' path.toList).map String.ofList

/-- Follow the pieces of a path. The names of the place reached so far come last first. -/
def follow (root : Node) : List String → List String → Except FileError (List String)
  | here, [] => .ok here.reverse
  | here, p :: ps =>
    match root.find? here.reverse with
    | none => .error .notFound
    | some (.file ..) => .error .notDirectory
    | some (.directory _) =>
      if p = "" ∨ p = "." then follow root here ps
      else if p = ".." then
        match here with
        | [] => .error .notFound
        | _ :: here => follow root here ps
      else follow root (p :: here) ps

/-- The names under which a path leads into the tree, if all but the last lead to directories. -/
def locate (t : Tree) (path : String) : Except FileError (List String) :=
  if path = "" ∨ path.toList.head? = some '/' then .error .notFound
  else follow t.root [] (pieces path)

/-- Directories outside the tree. -/
def outerDirectories : List String := ["/", "/bin", "/dev", "/etc", "/tmp", "/usr", "/usr/bin"]

/-- The node under a path. -/
def node (t : Tree) (path : String) : Except FileError Node :=
  if path = "/dev/null" then .ok (.file [] false)
  else if outerDirectories.contains path then .ok (.directory [])
  else if let some n := t.outside.lookup path then .ok n
  else do
    match t.root.find? (← t.locate path) with
    | some n => .ok n
    | none => .error .notFound

/-- Whether there is something under a path. -/
def contains (t : Tree) (path : String) : Bool :=
  match t.node path with
  | .ok _ => true
  | .error _ => false

/-- The bytes of a file. -/
def read (t : Tree) (path : String) : Except FileError Octets := do
  match ← t.node path with
  | .file content _ => .ok content
  | .directory _ => .error .isDirectory

/-- The text of a file. -/
def readText (t : Tree) (path : String) : Except FileError String := do
  match Text.decode (← t.read path) with
  | .ok text => .ok text
  | .error _ => .error .notText

/-- Put a node under a path; directories on the way are made. -/
def install (t : Tree) (path : String) (n : Node) : Tree :=
  let names := (pieces path).filter fun p => p ≠ "" ∧ p ≠ "."
  { t with root := Node.put n names t.root }

/-- Write a file into a directory that exists. A file that is there keeps its permission. -/
def write (t : Tree) (path : String) (content : Octets) : Except FileError Tree :=
  if path = "/dev/null" then .ok t
  else do
    let names ← t.locate path
    match t.root.find? names with
    | some (.directory _) => .error .isDirectory
    | some (.file _ executable) =>
      .ok { t with root := .put (.file content executable) names t.root }
    | none =>
      match t.root.find? names.dropLast with
      | some (.directory _) => .ok { t with root := .put (.file content false) names t.root }
      | some (.file ..) => .error .notDirectory
      | none => .error .notFound

/-- The files whose content differs from another tree, with their paths. -/
def changes (before after : Tree) : List (String × Octets) :=
  after.root.files.filter fun (path, content) =>
    match before.read path with
    | .ok old => old ≠ content
    | .error _ => true

end Tree

end Fettle.Files
