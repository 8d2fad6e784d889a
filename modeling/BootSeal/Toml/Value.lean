/-
  BootSeal — TOML values and the tables of a document under construction.

  * `Value`: what a key can hold;
  * `Origin`: how a table came to be, which decides what may still be added;
  * `Table.put?`: a key, plain or dotted, gets a value;
  * `Table.open?`, `Table.openElement?`: a header opens a table, or an element of
    an array of tables.

  A key is given once, and a table is opened once: whatever would define
  something again, or reach into a value, is refused.
-/

namespace BootSeal.Toml

/-- How a table came to be. -/
inductive Origin where
  /-- Opened by a header, or the document itself. -/
  | header
  /-- On the way to a table that a header opened. -/
  | implied
  /-- On the way to a value with a dotted key. -/
  | dotted
  /-- Written between braces; nothing can be added. -/
  | inline
  deriving DecidableEq, Repr

/-- A value. Floats and moments keep their spelling. -/
inductive Value where
  | string (s : String)
  | integer (n : Int)
  | float (text : String)
  | boolean (b : Bool)
  /-- A date, a time, or both. -/
  | moment (text : String)
  | array (items : List Value)
  | table (origin : Origin) (entries : List (String × Value))
  /-- An array of tables that headers opened. -/
  | tables (items : List (List (String × Value)))
  deriving Repr

/-- The keys of a table with their values, in the order of the text. -/
abbrev Table := List (String × Value)

namespace Table

/-- The table with the value of a key replaced, or added at the end. -/
def set (t : Table) (key : String) (v : Value) : Table :=
  if t.any (·.1 == key) then t.map fun e => if e.1 == key then (key, v) else e
  else t ++ [(key, v)]

/-- The table with `f` applied to the table at `path` below it. Tables that are
    missing on the way are added with the origin `made`. A dotted key does not
    enter a table that a header opened, and no path enters a value. -/
def modify? (made : Origin) (f : Origin → Table → Option Table) :
    (path : List String) → Origin → Table → Option Table
  | [], origin, t => f origin t
  | key :: path, _, t =>
    match t.lookup key with
    | none => do
      let new ← modify? made f path made []
      return t.set key (.table made new)
    | some (.table origin sub) =>
      if origin = .inline ∨ (made = .dotted ∧ origin = .header) then none
      else do
        let new ← modify? made f path origin sub
        return t.set key (.table origin new)
    | some (.tables items) => do
      let last ← items.getLast?
      let new ← modify? made f path .header last
      return t.set key (.tables (items.dropLast ++ [new]))
    | some _ => none

/-- A new key. After a dotted path it must stand in a table that dotted keys
    made, and a plain one must not. -/
def addKey? (isDotted : Bool) (key : String) (v : Value) (origin : Origin) (t : Table) :
    Option Table :=
  if isDotted = decide (origin = .dotted) ∧ (t.lookup key).isNone then some (t.set key v) else none

/-- The table with a value for a key, which is dotted if `path` is not empty. -/
def put? (path : List String) (key : String) (v : Value) (origin : Origin) (t : Table) :
    Option Table :=
  modify? .dotted (addKey? (!path.isEmpty) key v) path origin t

/-- The document with a table that a header opens. Only a table that a longer
    header implied may be there before. -/
def open? (path : List String) (key : String) (t : Table) : Option Table :=
  modify? .implied (fun _ t =>
    match t.lookup key with
    | none => some (t.set key (.table .header []))
    | some (.table .implied sub) => some (t.set key (.table .header sub))
    | some _ => none) path .header t

/-- The document with one more element of an array of tables. -/
def openElement? (path : List String) (key : String) (t : Table) : Option Table :=
  modify? .implied (fun _ t =>
    match t.lookup key with
    | none => some (t.set key (.tables [[]]))
    | some (.tables items) => some (t.set key (.tables (items ++ [[]])))
    | some _ => none) path .header t

end Table

end BootSeal.Toml
