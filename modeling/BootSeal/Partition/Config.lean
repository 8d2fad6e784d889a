/-
  BootSeal — build configurations: flat texts of definitions, either assignments
  of build options (`SB_CONFIG_FOO=0x1000`) or a generated header
  (`#define foo 0x1000`).

  * `ConfigError`: what can be wrong with a description of the partitions, be it a
    build configuration or a manifest;
  * `BuildConfig.ofText` reads the definitions of a text; the last one of a key
    counts, and the first malformed line is reported;
  * `BuildConfig.get?` looks a key up as it stands, then with the prefixes of
    build options;
  * `parseHex` reads a number as builds write it;
  * `PartitionLayout.ofConfig` resolves partitions by name, so that a missing or
    malformed value is reported before anything is written.
-/
import BootSeal.Files.Tree
import BootSeal.Partition.Layout
import BootSeal.Text.Lines
import BootSeal.Text.Quoted

namespace BootSeal

/-! ## Errors -/

/-- Why a description of the partitions was refused. -/
inductive ConfigError where
  | unreadable (path : String) (cause : IoFault)
  /-- A definition without a key or a value; lines count from 1. -/
  | malformedLine (path : String) (line : Nat) (text : String)
  | missingKey (key : String)
  | invalidHex (key value : String)
  /-- The region named by `key` leaves the address space. -/
  | regionOverflow (key : String) (start size : UInt32)
  /-- The manifest is no TOML, or not of the right shape. -/
  | manifest (path : String)
  deriving DecidableEq, Repr

/-- What a report says of a manifest; the place and the cause follow on lines of
    their own and are not part of it. -/
def manifestReason : String := "TOML parse error"

/-- The wording of an error. -/
def ConfigError.message : ConfigError → String
  | unreadable path cause => "Unable to read configuration file " ++ path ++ ": " ++ cause.message
  | malformedLine path line text =>
    "Malformed configuration line " ++ toString line ++ " in " ++ path ++ ": " ++ Text.quoted text
  | missingKey key => "Missing configuration key " ++ key
  | invalidHex key value =>
    "Invalid value " ++ Text.quoted value ++ " for " ++ key ++ ": expected a hexadecimal integer"
  | regionOverflow key start size =>
    "Region " ++ key ++ " at " ++ Text.marked start.toNat ++ " with size " ++
      Text.marked size.toNat ++ " exceeds the 32-bit address space"
  | manifest path => "Invalid partition manifest " ++ path ++ ": " ++ manifestReason

/-! ## Definitions -/

/-- The prefixes that build options carry. -/
def optionMarks : List String := ["CONFIG_", "SB_CONFIG_"]

/-- The word that opens a definition of a header. -/
def defineMark : String := "#define"

/-- What a line of a configuration is. -/
inductive ConfigLine where
  | definition (key value : String)
  /-- A line that defines nothing. -/
  | other
  | malformed
  deriving DecidableEq, Repr

/-- What a line is, once the blanks at its end are gone. A header definition needs
    a blank after its word, and its value may be empty; an option needs an equals
    sign. -/
def ConfigLine.ofText (line : List Char) : ConfigLine :=
  if defineMark.toList.isPrefixOf line then
    let rest := line.drop defineMark.length
    if (rest.head?.map Text.isBlank).getD false then
      let rest := Text.trim rest
      if rest.isEmpty then .malformed
      else
        let (key, value) := (Text.cutFirst? Text.isBlank rest).getD (rest, [])
        .definition (String.ofList key) (String.ofList (Text.trim value))
    else .other
  else if optionMarks.any (fun mark => mark.toList.isPrefixOf line) then
    match Text.cutFirst? (· == '=') line with
    | some (key, value) =>
      .definition (String.ofList (Text.trim key)) (String.ofList (Text.trim value))
    | none => .malformed
  else .other

/-! ## Configurations -/

/-- The definitions of a configuration: each key once, with its latest value. -/
structure BuildConfig where
  entries : List (String × String)
  deriving DecidableEq, Repr

namespace BuildConfig

/-- The configuration without definitions. -/
def empty : BuildConfig := ⟨[]⟩

/-- The configuration with one more definition, which replaces an earlier one of
    the same key. -/
def define (c : BuildConfig) (key value : String) : BuildConfig :=
  if c.entries.any (·.1 == key) then
    ⟨c.entries.map fun e => if e.1 == key then (key, value) else e⟩
  else ⟨c.entries ++ [(key, value)]⟩

/-- The value of a key as it stands. -/
def value? (c : BuildConfig) (key : String) : Option String := c.entries.lookup key

/-- The configuration with the definitions of lines, the first of which has the
    number `number`. -/
def readLines (path : String) (number : Nat) (c : BuildConfig) :
    List (List Char) → Except ConfigError BuildConfig
  | [] => .ok c
  | line :: rest =>
    let line := Text.trimRight line
    match ConfigLine.ofText line with
    | .definition key value => readLines path (number + 1) (c.define key value) rest
    | .other => readLines path (number + 1) c rest
    | .malformed => .error (.malformedLine path number (String.ofList line))

/-- The configuration in a text that stands at `path`. -/
def parse (path text : String) : Except ConfigError BuildConfig :=
  readLines path 1 empty (Text.lines text.toList)

/-- The name that stands for the path of a text without a file. -/
def memoryPath : String := "<memory>"

/-- The configuration in a text. -/
def ofText (text : String) : Except ConfigError BuildConfig := parse memoryPath text

/-- The value of a key, as it stands or with the prefix of a build option. -/
def get? (c : BuildConfig) (key : String) : Option String :=
  (key :: optionMarks.map (· ++ key)).findSome? c.value?

/-- The key is defined, whatever its value. -/
def isSet (c : BuildConfig) (key : String) : Bool := (c.get? key).isSome

/-- The number of keys. -/
def size (c : BuildConfig) : Nat := c.entries.length

end BuildConfig

/-! ## Numbers -/

/-- The letters of the integer suffixes of C. -/
def isSuffixLetter (c : Char) : Bool := c == 'u' || c == 'U' || c == 'l' || c == 'L'

/-- The digits of a number as builds write it: inside blanks and quotes, with an
    optional mark before and an optional suffix after them. -/
def hexDigits (value : List Char) : List Char :=
  let inner := Text.stripWhile (· == '"') (Text.trim value)
  let number := Text.dropRightWhile isSuffixLetter inner
  (Text.afterHexMark? number).getD number

/-- The hexadecimal number that `value` is. Its digits may not have a sign. -/
def parseHex (key value : String) : Except ConfigError UInt32 :=
  let digits := hexDigits value.toList
  let number :=
    if (digits.head?.map Text.isHexDigit).getD false then Text.word? 16 digits else none
  match number with
  | some n => .ok n
  | none => .error (.invalidHex key value)

namespace BuildConfig

/-- The number that a key is defined as, if it is defined. -/
def hex? (c : BuildConfig) (key : String) : Except ConfigError (Option UInt32) :=
  match c.get? key with
  | none => .ok none
  | some value => (parseHex key value).map some

/-- The number that a key is defined as. -/
def requireHex (c : BuildConfig) (key : String) : Except ConfigError UInt32 := do
  match ← c.hex? key with
  | some n => .ok n
  | none => .error (.missingKey key)

end BuildConfig

/-! ## Layouts -/

namespace PartitionLayout

/-- The key of a property of a partition. -/
def propertyKey (name property : String) : String := name ++ "_PARTITION_" ++ property

/-- The partition that the table follows unless it is placed elsewhere. -/
def installerName : String := "installer"

/-- The partitions that a table describes unless others are named. -/
def defaultNames : List String := ["firmware_loader", "softdevice"]

/-- The region of a partition, which must lie below the end of the address
    space. -/
def readRegion (c : BuildConfig) (name : String) : Except ConfigError Region := do
  let key := propertyKey name "START"
  let start ← c.requireHex key
  let size ← c.requireHex (propertyKey name "SIZE")
  let region : Region := ⟨start, size⟩
  if region.stop?.isNone then .error (.regionOverflow key start size) else .ok region

/-- A partition by name, absent unless its marker is set. -/
def readEntry (c : BuildConfig) (name : String) : Except ConfigError PartitionEntry := do
  if c.isSet (propertyKey name "PRESENT") then
    let region ← readRegion c name
    return .present name region.start region.size
  else
    return .absent name

/-- The layout of the named partitions, in the order given. -/
def ofConfig (c : BuildConfig) (names : List String) : Except ConfigError PartitionLayout := do
  let entries ← names.mapM (readEntry c)
  let installer ←
    if c.isSet (propertyKey installerName "START") then (readRegion c installerName).map some
    else .ok none
  return ⟨entries, installer⟩

end PartitionLayout

end BootSeal
