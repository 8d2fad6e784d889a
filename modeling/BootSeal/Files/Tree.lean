/-
  BootSeal — trees of files and directories, and what a path means in one.

  * `IoFault`: what can go wrong with a file, in the words of the operating system;
  * `FileTree.entry?` is the meaning of a tree: what stands at a location, which
    is the list of names from the root;
  * `FileTree.target` walks a path to the directory of its last part;
  * `FileTree.readBytes`, `FileTree.readText`: the content at a path;
  * `FileTree.createTemporary`, `FileTree.moveOnto`, `FileTree.erase`: the steps
    that outputs are written with.

  There are no links, and operations fail only for what stands where: a missing
  directory, a file in the place of one, or a directory in the place of a file.
-/
import BootSeal.Bytes
import BootSeal.Files.Path

namespace BootSeal

/-! ## Faults -/

/-- Why a file operation failed. -/
inductive IoFault where
  /-- Nothing stands at the path. -/
  | notFound
  /-- A directory was asked for where a file stands. -/
  | notDirectory
  /-- A file was asked for where a directory stands. -/
  | isDirectory
  /-- The path ends in a directory that cannot be replaced, such as `.` or `..`. -/
  | busy
  /-- The content is no UTF-8 text. -/
  | invalidText
  /-- No output was asked for at all. -/
  | noOutput
  deriving DecidableEq, Repr

/-- The wording of a fault. -/
def IoFault.message : IoFault → String
  | notFound => "No such file or directory (os error 2)"
  | notDirectory => "Not a directory (os error 20)"
  | isDirectory => "Is a directory (os error 21)"
  | busy => "Device or resource busy (os error 16)"
  | invalidText => "stream did not contain valid UTF-8"
  | noOutput => "no hex or binary output was requested"

/-! ## Trees -/

/-- The names from the root down to a place. -/
abbrev Location := List String

/-- What stands at a location. -/
inductive FileEntry where
  | file (content : Bytes)
  | directory
  deriving DecidableEq, Repr

/-- Files and directories, and the directory that relative paths start from. -/
structure FileTree where
  working : Location
  entries : List (Location × FileEntry)
  deriving DecidableEq, Repr

namespace FileTree

/-! ## Locations -/

/-- What stands at a location; the root is a directory. -/
def entry? (t : FileTree) (l : Location) : Option FileEntry :=
  if l.isEmpty then some .directory else t.entries.lookup l

/-- The tree without what stands at a location. -/
def erase (t : FileTree) (l : Location) : FileTree :=
  { t with entries := t.entries.filter (·.1 != l) }

/-- The tree with an entry at a location, in the place of any other. -/
def put (t : FileTree) (l : Location) (e : FileEntry) : FileTree :=
  { t with entries := (l, e) :: (t.erase l).entries }

/-- The tree with what stands at one location moved to another. -/
def move (t : FileTree) (source target : Location) : FileTree :=
  match t.entry? source with
  | some e => (t.erase source).put target e
  | none => t

/-- The tree with a directory at a location, and directories above it. -/
def makeDirectory (t : FileTree) (l : Location) : FileTree :=
  (List.range l.length).foldl (fun t n =>
    let above := l.take (n + 1)
    if (t.entry? above).isSome then t else t.put above .directory) t

/-- The tree with a file at a location, and directories above it. -/
def makeFile (t : FileTree) (l : Location) (content : Bytes) : FileTree :=
  (t.makeDirectory l.dropLast).put l (.file content)

/-! ## Paths -/

/-- One step from a directory. -/
def step (t : FileTree) (directory : Location) (name : String) : Except IoFault Location :=
  if name = "." then .ok directory
  else if name = ".." then .ok directory.dropLast
  else match t.entry? (directory ++ [name]) with
    | some .directory => .ok (directory ++ [name])
    | some (.file _) => .error .notDirectory
    | none => .error .notFound

/-- Where the last part of a path leads. -/
inductive Target where
  /-- A name in a directory; `asDirectory` if a slash follows it. -/
  | name (location : Location) (asDirectory : Bool)
  /-- A directory by a step, or the root. -/
  | step (location : Location)
  deriving DecidableEq, Repr

/-- Where a path leads. All of its parts but the last are directories. -/
def target (t : FileTree) (path : String) : Except IoFault Target := do
  if path.isEmpty then throw .notFound
  let start := if Path.isAbsolute path then [] else t.working
  let parts := Path.parts path
  let directory ← parts.dropLast.foldlM t.step start
  match parts.getLast? with
  | none => return .step directory
  | some "." => return .step directory
  | some ".." => return .step directory.dropLast
  | some name => return .name (directory ++ [name]) (Path.endsWithSlash path)

/-- The location of what stands at a path. -/
def find (t : FileTree) (path : String) : Except IoFault (Location × FileEntry) := do
  match ← t.target path with
  | .step l => return (l, .directory)
  | .name l asDirectory =>
    match t.entry? l with
    | none => throw .notFound
    | some .directory => return (l, .directory)
    | some (.file content) =>
      if asDirectory then throw .notDirectory else return (l, .file content)

/-- The location of the file at a path, if there is one. -/
def fileAt? (t : FileTree) (path : String) : Option Location :=
  match t.find path with
  | .ok (l, .file _) => some l
  | _ => none

/-- The content of the file at a path. -/
def readBytes (t : FileTree) (path : String) : Except IoFault Bytes := do
  match ← t.find path with
  | (_, .file content) => return content
  | (_, .directory) => throw .isDirectory

/-- The text of the file at a path. -/
def readText (t : FileTree) (path : String) : Except IoFault String := do
  let content ← t.readBytes path
  match String.fromUTF8? ⟨content.toArray⟩ with
  | some text => return text
  | none => throw .invalidText

/-! ## Changes -/

/-- The location of the directory at a path. -/
def findDirectory (t : FileTree) (path : String) : Except IoFault Location := do
  match ← t.find path with
  | (l, .directory) => return l
  | (_, .file _) => throw .notDirectory

/-- A name that is longer than every name in the tree and every text given, and so
    differs from all of them. -/
def freshName (t : FileTree) (avoid : List String) : String :=
  let names := t.entries.flatMap (·.1) ++ avoid
  String.ofList ('.' :: List.replicate (names.foldl (fun n s => max n s.length) 0) 't')

/-- A new file in the directory at a path, under a fresh name. -/
def createTemporary (t : FileTree) (avoid : List String) (directory : String) (content : Bytes) :
    Except IoFault (FileTree × Location) := do
  let l ← t.findDirectory directory
  let temporary := l ++ [t.freshName avoid]
  return (t.put temporary (.file content), temporary)

/-- The tree with a file moved onto a path. A file there is replaced; a directory
    is not. -/
def moveOnto (t : FileTree) (source : Location) (path : String) : Except IoFault FileTree := do
  match ← t.target path with
  | .step _ => throw .busy
  | .name l asDirectory =>
    if asDirectory then throw .notDirectory
    match t.entry? l with
    | some .directory => throw .isDirectory
    | _ => return t.move source l

end FileTree

end BootSeal
