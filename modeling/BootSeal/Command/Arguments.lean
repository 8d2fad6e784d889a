/-
  BootSeal — reading an argument list, word by word.

  * `Reading`: the options so far, and the latest one, which may still wait for
    its value;
  * `read`: the command of an argument list with the values of its options, or
    why there is none (`Stop`);
  * `Stop.lines`: what is printed then, the commands and their options as the
    grammar has them, or the version.

  A value is looked at when the next option begins, and the first thing that
  stops the reading decides: a mistake, or a request for help or the version.
-/
import BootSeal.Command.Grammar
import BootSeal.Text.Lines

namespace BootSeal.Command

/-- Why no command is carried out. -/
inductive Stop where
  /-- The argument list is not in the grammar. -/
  | usage
  | help
  | version
  deriving DecidableEq, Repr

/-- The options that were given, in order; a flag has an empty value. -/
abbrev Values := List (String × String)

/-- The options so far. -/
structure Reading where
  values : Values
  /-- The latest option that takes a value, and the value. -/
  latest : Option (OptionRule × Option String)
  deriving Repr

namespace Reading

def empty : Reading := ⟨[], none⟩

/-- The latest option has no value yet. -/
def isWaiting (r : Reading) : Bool :=
  match r.latest with
  | some (_, none) => true
  | _ => false

/-- An option with its value among the others. Only a repeated one is given more
    than once. -/
def add (r : Reading) (rule : OptionRule) (value : String) : Except Stop Reading :=
  let isRepeated := match rule.form with
    | .repeated _ => true
    | _ => false
  if !isRepeated && (r.values.lookup rule.name).isSome then .error .usage
  else .ok { r with values := r.values ++ [(rule.name, value)] }

/-- The reading with the latest option among the others. It needs a value of its
    kind. -/
def settle (r : Reading) : Except Stop Reading :=
  match r.latest with
  | none => .ok r
  | some (_, none) => .error .usage
  | some (rule, some value) =>
    if (rule.form.kind?.map (·.accepts value)).getD true then
      { r with latest := none }.add rule value
    else .error .usage

/-- An option begins, perhaps with a value after an equals sign. -/
def begin (r : Reading) (rule : OptionRule) (value : Option String) : Except Stop Reading := do
  let r ← r.settle
  match rule.form, value with
  | .flag, none => r.add rule ""
  | .flag, some _ => throw .usage
  | _, value => return { r with latest := some (rule, value) }

/-- A request stops the reading. -/
def interrupt (r : Reading) (stop : Stop) : Except Stop Reading := do
  let _ ← r.settle
  throw stop

/-- A word of two hyphens, a name, and perhaps an equals sign and a value. -/
def long (level : Level) (r : Reading) (word : String) : Except Stop Reading :=
  let text := word.toList.drop 2
  let (name, value) := match Text.cutFirst? (· == '=') text with
    | some (name, value) => (String.ofList name, some (String.ofList value))
    | none => (String.ofList text, none)
  match level.options.find? (·.name == name) with
  | some rule => r.begin rule value
  | none =>
    if name = "help" ∧ value.isNone then r.interrupt .help
    else if name = "version" ∧ value.isNone ∧ level.tellsVersion then r.interrupt .version
    else .error .usage

/-- A letter of a word of one hyphen. -/
def letter (level : Level) (r : Reading) (c : Char) : Except Stop Reading :=
  if c = Level.verboseLetter then r.begin Level.verboseRule none
  else if c = 'h' then r.interrupt .help
  else if c = 'V' ∧ level.tellsVersion then r.interrupt .version
  else .error .usage

/-- A word that is no member of the level. -/
def word (level : Level) (r : Reading) (w : String) : Except Stop Reading :=
  if "--".toList.isPrefixOf w.toList then long level r w
  else if w.toList.head? = some '-' ∧ 1 < w.length then w.toList.tail.foldlM (letter level) r
  else match r.latest with
    | some (rule, none) => .ok { r with latest := some (rule, some w) }
    | _ => .error .usage

/-- All options were given as the command asks for. -/
def finish (level : Level) (r : Reading) : Except Stop (Verb × Values) := do
  let r ← r.settle
  let isGiven (name : String) := (r.values.lookup name).isSome
  match level with
  | .verb v =>
    let isComplete := v.options.all fun rule => match rule.form with
      | .required _ => isGiven rule.name
      | _ => true
    if isComplete && v.exclusions.all fun e => !(isGiven e.1 && isGiven e.2) then
      return (v, r.values)
    else throw .usage
  | _ => throw .usage

end Reading

/-- What a request for help with the words after it comes to. -/
def helpFor (level : Level) : List String → Stop
  | [] => .help
  | w :: rest =>
    match level.members.lookup w with
    | some level => helpFor level rest
    | none =>
      if w = Level.helpWord ∧ !level.members.isEmpty ∧ rest.isEmpty then .help else .usage

/-- The command of the words that are left at a level. -/
def readAt (level : Level) (r : Reading) : List String → Except Stop (Verb × Values)
  | [] => r.finish level
  | w :: rest =>
    match if r.isWaiting then none else level.members.lookup w with
    | some next => readAt next .empty rest
    | none =>
      if !r.isWaiting ∧ w = Level.helpWord ∧ !level.members.isEmpty then .error (helpFor level rest)
      else if w = "--" then if rest.isEmpty then r.finish level else .error .usage
      else match r.word level w with
        | .ok r => readAt level r rest
        | .error stop => .error stop

/-- The command of an argument list. -/
def read (arguments : List String) : Except Stop (Verb × Values) :=
  readAt .root .empty arguments

/-! ## Help -/

def programName : String := "bootseal"

def programVersion : String := "0.1.0"

/-- An option as a line shows it: in brackets if it can be left out. -/
def OptionRule.usage (rule : OptionRule) : String :=
  let name := "--" ++ rule.name
  match rule.form with
  | .flag => "[" ++ name ++ "]"
  | .required _ => name ++ " <VALUE>"
  | .optional _ => "[" ++ name ++ " <VALUE>]"
  | .repeated _ => "[" ++ name ++ " <VALUE>]..."

/-- The words that lead to each command, with the options of the command. -/
def Level.usages : Level → List String
  | .root => members .root |>.flatMap fun (word, level) =>
    match level with
    | .verb v => [" ".intercalate (programName :: word :: v.options.map (·.usage))]
    | _ => level.members.map fun (inner, level) =>
      " ".intercalate (programName :: word :: inner :: level.options.tail.map (·.usage))
  | _ => []

/-- The lines for a stop. -/
def Stop.lines : Stop → List String
  | usage => "Mistake in the arguments. Usage:" :: Level.root.usages
  | help => "Usage:" :: Level.root.usages
  | version => [programName ++ " " ++ programVersion]

end BootSeal.Command
