/-
  BootSeal — writing several files at once: all of them, or none.

  Each output is first written to a temporary file beside its destination. Then
  one after the other is moved into place, after a file that stands there was
  moved aside. When a step fails, the steps before it are undone, last first.

  * `FileTree.stage`: the temporary files;
  * `FileTree.place`: the moves;
  * `FileTree.persist`: both.
-/
import BootSeal.Error
import BootSeal.Files.Tree

namespace BootSeal

/-- What is to stand at a path. -/
structure Output where
  path : String
  content : Bytes
  deriving DecidableEq, Repr

/-- A temporary file that is to be moved to a path. -/
structure Staged where
  path : String
  temporary : Location
  deriving DecidableEq, Repr

namespace FileTree

/-- The tree without a number of temporary files. -/
def discard (t : FileTree) (staged : List Staged) : FileTree :=
  staged.foldl (fun t s => t.erase s.temporary) t

/-- Temporary files with the content of outputs, or none if one cannot be
    created. -/
def stage (t : FileTree) (avoid : List String) :
    List Output → FileTree × Except Error (List Staged)
  | [] => (t, .ok [])
  | o :: rest =>
    match t.createTemporary avoid (Path.parent o.path) o.content with
    | .error fault => (t, .error (.staging o.path fault))
    | .ok (t, temporary) =>
      match t.stage avoid rest with
      | (t, .ok staged) => (t, .ok (⟨o.path, temporary⟩ :: staged))
      | (t, .error e) => (t.erase temporary, .error e)

/-- The tree with the file at a path moved to a temporary one, if there is a
    file. -/
def setAside (t : FileTree) (avoid : List String) (path : String) :
    Except IoFault (FileTree × Option Location) :=
  match t.fileAt? path with
  | none => .ok (t, none)
  | some l => do
    let (t, backup) ← t.createTemporary avoid (Path.parent path) []
    return (t.move l backup, some backup)

/-- The tree with a backup moved back to its path. If that fails, the backup is
    gone. -/
def restore (t : FileTree) (backup : Location) (path : String) : FileTree :=
  match t.moveOnto backup path with
  | .ok t => t
  | .error _ => t.erase backup

/-- The tree without the file at a path, if there is one. -/
def removeFile (t : FileTree) (path : String) : FileTree :=
  match t.fileAt? path with
  | some l => t.erase l
  | none => t

/-- The tree as it was before a file came to a path: with what was set aside back
    in place, or without the file. -/
def undo (t : FileTree) (path : String) : (backup : Option Location) → FileTree
  | some backup => t.restore backup path
  | none => t.removeFile path

/-- Move temporary files into place. If one move fails, those before it are
    undone, and no temporary file is left. -/
def place (t : FileTree) (avoid : List String) : List Staged → FileTree × Except Error Unit
  | [] => (t, .ok ())
  | s :: rest =>
    match t.setAside avoid s.path with
    | .error fault => (t.discard (s :: rest), .error (.staging s.path fault))
    | .ok (t, backup) =>
      match t.moveOnto s.temporary s.path with
      | .error fault =>
        let t := backup.elim t (t.restore · s.path)
        (t.discard (s :: rest), .error (.io s.path fault))
      | .ok t =>
        match t.place avoid rest with
        | (t, .ok ()) => (backup.elim t t.erase, .ok ())
        | (t, .error e) => (t.undo s.path backup, .error e)

/-- Write outputs in order, all of them or none. -/
def persist (t : FileTree) (outputs : List Output) : FileTree × Except Error Unit :=
  let avoid := outputs.map (·.path)
  match t.stage avoid outputs with
  | (t, .ok staged) => t.place avoid staged
  | (t, .error e) => (t, .error e)

end FileTree

end BootSeal
