/-
  BootSeal — the command line.

  A run takes what stands at the paths that its arguments name, computes its
  outcome, and puts the files that changed in place.
-/
import BootSeal.Command.Arguments
import BootSeal.Command.Run

namespace BootSeal.Shell

/-- The path of a location from the root of the system. -/
def absolute (l : Location) : String := "/" ++ "/".intercalate l

/-- What stands at a location of the system. Reading a directory has an error code
    of its own. -/
def probe (l : Location) : IO (Option FileEntry) := do
  match ← (IO.FS.readBinFile (absolute l)).toBaseIO with
  | .ok content => return some (.file content.toList)
  | .error (.inappropriateType _ 21 _) => return some .directory
  | .error _ => return none

/-- The locations that a path passes on its way, the last one included. -/
def passed (working : Location) (path : String) : List Location :=
  let start := if Path.isAbsolute path then [] else working
  let walk := (Path.parts path).foldl (fun (at_, seen) part =>
    let next := if part = "." then at_ else if part = ".." then at_.dropLast else at_ ++ [part]
    (next, next :: seen)) (start, [])
  walk.2.reverse

/-- The texts of an argument that may be paths. -/
def candidates (argument : String) : List String :=
  match Text.cutFirst? (· == '=') argument.toList with
  | some (_, value) => [argument, String.ofList value]
  | none => [argument]

/-- The part of the system that the arguments of a run can reach. -/
def snapshot (working : Location) (arguments : List String) : IO FileTree := do
  let above := (List.range working.length).map fun n => working.take (n + 1)
  let named := (arguments.flatMap candidates).flatMap (passed working)
  let mut tree : FileTree := ⟨working, []⟩
  for l in (above ++ named).filter (!·.isEmpty) do
    if (tree.entry? l).isNone then
      if let some e ← probe l then tree := tree.put l e
  return tree

/-- Put the files in place that a run changed: first beside their destination,
    then all of them over it. -/
def commit (old new : FileTree) : IO Unit := do
  let changed := new.entries.filterMap fun (l, e) =>
    match e with
    | .file content => if old.entry? l = some e then none else some (absolute l, content)
    | .directory => none
  for (path, content) in changed do
    IO.FS.writeBinFile (path ++ ".new") ⟨content.toArray⟩
  for (path, _) in changed do
    IO.FS.rename (path ++ ".new") path

/-- Fresh values of the system, drawn again while one is out of range. -/
def entropy : (attempts : Nat) → IO Entropy
  | 0 => throw (IO.userError "no random scalar in range")
  | attempts + 1 => do
    let draw := do return (← IO.getRandomBytes 32).toList
    match Entropy.ofBytes? (← draw) (← draw) (← draw) with
    | some fresh => return fresh
    | none => entropy attempts

end BootSeal.Shell

open BootSeal in
def main (arguments : List String) : IO UInt32 := do
  let working := Path.parts (← IO.currentDir).toString
  let old ← Shell.snapshot working arguments
  let outcome := Outcome.ofArguments (← Shell.entropy 64) old arguments
  Shell.commit old outcome.tree
  match outcome.stop with
  | some .usage => (Command.Stop.usage.lines).forM fun line => IO.eprintln line
  | some stop => stop.lines.forM fun line => IO.println line
  | none => outcome.output.forM fun line => IO.println line
  outcome.report.forM fun line => IO.eprintln line
  return UInt32.ofNat outcome.status
