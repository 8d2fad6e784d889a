/-
  BootSeal — paths as texts: parts between slashes.

  * `Path.parent`: the directory that a path's last part stands in;
  * `Path.extension?`: what stands after the last dot of a file's name;
  * `Path.isHex`: the file is an Intel Hex text, by its extension.
-/
import BootSeal.Text.Lines

namespace BootSeal.Path

/-- The nonempty parts between slashes. -/
def parts (path : String) : List String :=
  ((Text.pieces '/' path.toList).filter (!·.isEmpty)).map String.ofList

/-- The path starts at the root. -/
def isAbsolute (path : String) : Bool := path.toList.head? == some '/'

/-- The path ends with a slash. -/
def endsWithSlash (path : String) : Bool := path.toList.getLast? == some '/'

/-- The parts that say something: a dot only at the start of a relative path. -/
def components (path : String) : List String :=
  match parts path with
  | [] => []
  | first :: rest =>
    let rest := rest.filter (· != ".")
    if first = "." ∧ isAbsolute path then rest else first :: rest

/-- The directory of the last component; the working directory if the path has no
    other. -/
def parent (path : String) : String :=
  let root := if isAbsolute path then "/" else ""
  let directory := root ++ "/".intercalate (components path).dropLast
  if directory.isEmpty then "." else directory

/-- The name at the end of a path, unless that is a step. -/
def fileName? (path : String) : Option String :=
  (components path).getLast?.filter fun name => name != "." && name != ".."

/-- What stands after the last dot of the name, if something stands before it. -/
def extension? (path : String) : Option String := do
  let name ← fileName? path
  let reversed := name.toList.reverse
  let (after, before) ← Text.cutFirst? (· == '.') reversed
  if before.isEmpty then none else some (String.ofList after.reverse)

/-- The extensions of Intel Hex texts. -/
def hexExtensions : List String := ["hex", "ihex", "ihx"]

/-- The path has an extension of Intel Hex texts, in lower case. -/
def isHex (path : String) : Bool :=
  match extension? path with
  | some extension => hexExtensions.contains extension
  | none => false

end BootSeal.Path
