/-
  BootSeal — the texts in which definitions may stand.

  A `ConfigSource` is lines in any order: definitions, each in a form of its own
  (`DefinitionForm`) and with digits of its own (`HexNumber`), and lines that define
  nothing. `ConfigSource.ofText_text`: its configuration is its definitions.
-/
import BootSeal.Proofs.Partition.Config
import BootSeal.Proofs.Partition.HexLiteral
import BootSeal.Proofs.Text.Lines

namespace BootSeal

/-! ## Identifiers -/

namespace Text

/-- An ASCII letter or digit, or an underscore. -/
def isIdentifierChar (c : Char) : Bool := c.isAlphanum || c == '_'

/-- A text of one or more ASCII letters, digits and underscores. -/
def IsIdentifier (s : List Char) : Prop := s ≠ [] ∧ s.all isIdentifierChar = true

instance (s : List Char) : Decidable (IsIdentifier s) := inferInstanceAs (Decidable (_ ∧ _))

/-- What a character of an identifier is not. -/
theorem isBlank_of_isIdentifierChar {c : Char} (h : isIdentifierChar c = true) :
    isBlank c = false ∧ c ≠ '=' := by
  obtain h | h := (Bool.or_eq_true_iff ..).1 h
  · have hn : 48 ≤ c.toNat ∧ c.toNat ≤ 57 ∨ 65 ≤ c.toNat ∧ c.toNat ≤ 90 ∨
        97 ≤ c.toNat ∧ c.toNat ≤ 122 := by
      obtain h | hdigit := (Bool.or_eq_true_iff ..).1 h
      · obtain hupper | hlower := (Bool.or_eq_true_iff ..).1 h
        · obtain ⟨hlow, hhigh⟩ := of_decide_eq_true hupper
          exact Or.inr (Or.inl ⟨UInt32.le_iff_toNat_le.1 hlow, UInt32.le_iff_toNat_le.1 hhigh⟩)
        · obtain ⟨hlow, hhigh⟩ := (Bool.and_eq_true_iff ..).1 hlower
          exact Or.inr (Or.inr ⟨UInt32.le_iff_toNat_le.1 (of_decide_eq_true hlow),
            UInt32.le_iff_toNat_le.1 (of_decide_eq_true hhigh)⟩)
      · obtain ⟨hlow, hhigh⟩ := (Bool.and_eq_true_iff ..).1 hdigit
        exact Or.inl ⟨UInt32.le_iff_toNat_le.1 (of_decide_eq_true hlow),
          UInt32.le_iff_toNat_le.1 (of_decide_eq_true hhigh)⟩
    refine ⟨?_, ?_⟩
    · simp only [isBlank, Bool.or_eq_false_iff, Bool.and_eq_false_iff, decide_eq_false_iff_not,
        beq_eq_false_iff_ne]
      omega
    · rintro rfl
      simp at hn
  · rw [eq_of_beq h]
    exact ⟨by decide, by decide⟩

theorem IsIdentifier.isWord {s : List Char} (h : IsIdentifier s) : IsWord s :=
  ⟨h.1, fun c hc => (isBlank_of_isIdentifierChar (List.all_eq_true.1 h.2 c hc)).1⟩

theorem IsIdentifier.equals_not_mem {s : List Char} (h : IsIdentifier s) : '=' ∉ s :=
  fun hmem => (isBlank_of_isIdentifierChar (List.all_eq_true.1 h.2 _ hmem)).2 rfl

end Text

/-! ## Definitions -/

/-- A hexadecimal number as it is written, with leading zeros and letters of either case. -/
structure HexNumber where
  digits : List Char
  value : Nat
  denotes : Text.ofDigits? 16 digits = some value

namespace HexNumber

/-- The number with its mark. -/
def text (n : HexNumber) : List Char := '0' :: 'x' :: n.digits

theorem isWord (n : HexNumber) : Text.IsWord n.text :=
  isWord_marked (Text.isHexDigit_of_ofDigits? n.denotes).2

end HexNumber

/-- The forms of a definition: in a header, or as an option of a build. -/
inductive DefinitionForm where
  | header
  | option
  | sysbuildOption
  deriving DecidableEq, Repr

/-- What stands before the key. -/
def DefinitionForm.mark : DefinitionForm → String
  | header => ""
  | option => "CONFIG_"
  | sysbuildOption => "SB_CONFIG_"

/-- A number that is defined under a key. -/
structure Definition where
  form : DefinitionForm
  key : String
  number : HexNumber
  isIdentifier_key : Text.IsIdentifier key.toList

namespace Definition

/-- The key as a configuration has it. -/
def markedKey (d : Definition) : String := d.form.mark ++ d.key

/-- The key and the value as a configuration has them. -/
def entry (d : Definition) : String × String := (d.markedKey, String.ofList d.number.text)

/-- The line of the definition. -/
def text (d : Definition) : List Char :=
  match d.form with
  | .header => defineMark.toList ++ ' ' :: (d.markedKey.toList ++ [' '] ++ d.number.text)
  | .option | .sysbuildOption => d.markedKey.toList ++ '=' :: d.number.text

variable (d : Definition)

theorem isIdentifier_markedKey : Text.IsIdentifier d.markedKey.toList := by
  have hmark : d.form.mark.toList.all Text.isIdentifierChar = true := by
    cases d.form <;> decide
  rw [markedKey, String.toList_append]
  refine ⟨List.append_ne_nil_of_right_ne_nil _ d.isIdentifier_key.1, ?_⟩
  rw [List.all_append, hmark, d.isIdentifier_key.2]
  rfl

/-- A definition ends with a word. -/
theorem text_eq_append : ∃ start, d.text = start ++ d.number.text ∧ '\n' ∉ start := by
  have hkey : '\n' ∉ d.markedKey.toList := d.isIdentifier_markedKey.isWord.feed_not_mem
  rw [text]
  cases d.form with
  | header =>
    refine ⟨defineMark.toList ++ ' ' :: (d.markedKey.toList ++ [' ']), ?_, ?_⟩
    · simp only [List.append_assoc, List.cons_append]
    · simpa using ⟨by decide, hkey⟩
  | option | sysbuildOption =>
    refine ⟨d.markedKey.toList ++ ['='], ?_, ?_⟩
    · show d.markedKey.toList ++ '=' :: d.number.text = _
      rw [List.append_assoc, List.singleton_append]
    · simpa using hkey

theorem feed_not_mem_text : '\n' ∉ d.text := by
  obtain ⟨start, heq, hstart⟩ := d.text_eq_append
  rw [heq, List.mem_append, not_or]
  exact ⟨hstart, d.number.isWord.feed_not_mem⟩

/-- **A line of a definition defines its number**, under the key with the mark of its form. -/
theorem ofText_text : ConfigLine.ofText (Text.trimRight d.text) =
    .definition d.markedKey (String.ofList d.number.text) := by
  have hkey := d.isIdentifier_markedKey
  have hprefix : d.form.mark.toList <+: d.markedKey.toList := by
    rw [markedKey, String.toList_append]
    exact List.prefix_append ..
  have htrim : Text.trimRight d.text = d.text := by
    obtain ⟨start, heq, -⟩ := d.text_eq_append
    rw [heq, d.number.isWord.trimRight_append]
  have hkeyText : String.ofList d.markedKey.toList = d.markedKey := String.ofList_toList
  have hoption (hmark : d.form.mark ∈ optionMarks) :
      ConfigLine.ofText (d.markedKey.toList ++ '=' :: d.number.text) =
        .definition d.markedKey (String.ofList d.number.text) := by
    rw [ConfigLine.ofText_option hkey.isWord d.number.isWord hmark hprefix hkey.equals_not_mem,
      hkeyText]
  rw [htrim, text]
  split
  · rw [ConfigLine.ofText_header hkey.isWord d.number.isWord, hkeyText]
  · next hform => exact hoption (by rw [hform]; decide)
  · next hform => exact hoption (by rw [hform]; decide)

end Definition

/-! ## Sources -/

/-- What stands on a line: a definition, or anything that does not begin like one. -/
inductive SourceLine where
  | definition (d : Definition)
  | other (line : List Char) (feed_not_mem : '\n' ∉ line) (isOther : ConfigLine.IsOther line)

namespace SourceLine

/-- The characters of the line. -/
def text : SourceLine → List Char
  | definition d => d.text
  | other line _ _ => line

/-- The definition on the line. -/
def definition? : SourceLine → Option Definition
  | definition d => some d
  | other _ _ _ => none

theorem feed_not_mem_text (l : SourceLine) : '\n' ∉ l.text := by
  cases l with
  | definition d => exact d.feed_not_mem_text
  | other line h => exact h

/-- A line is what it stands for. -/
theorem ofText_text (l : SourceLine) :
    ConfigLine.ofText (Text.trimRight l.text) ≠ .malformed ∧
      (ConfigLine.ofText (Text.trimRight l.text)).definition? =
        l.definition?.map Definition.entry := by
  cases l with
  | definition d =>
    rw [text, d.ofText_text]
    exact ⟨nofun, rfl⟩
  | other line _ h =>
    rw [text, ConfigLine.ofText_other (h.of_prefix (Text.trimRight_prefix line))]
    exact ⟨nofun, rfl⟩

end SourceLine

/-- How a line ends. -/
inductive LineEnd where
  | feed
  | returnFeed
  deriving DecidableEq, Repr

/-- The characters before the line feed of a line end. -/
def LineEnd.beforeFeed : LineEnd → List Char
  | feed => []
  | returnFeed => ['\r']

/-- A text of lines with their ends, and of one more line without. -/
structure ConfigSource where
  lines : List (SourceLine × LineEnd)
  last : SourceLine

namespace ConfigSource

variable (source : ConfigSource)

/-- The text before each line feed. -/
def pieces : List (List Char) := source.lines.map fun l => l.1.text ++ l.2.beforeFeed

def text : String :=
  String.ofList ((source.pieces.flatMap fun p => p ++ ['\n']) ++ source.last.text)

/-- The definitions in their order. -/
def definitions : List Definition :=
  (source.lines.map (·.1) ++ [source.last]).filterMap SourceLine.definition?

theorem pieces_text : Text.pieces '\n' source.text.toList = source.pieces ++ [source.last.text] := by
  rw [text, String.toList_ofList]
  refine Text.pieces_flatMap_append (fun p hp => ?_) source.last.feed_not_mem_text
  obtain ⟨⟨l, e⟩, -, rfl⟩ := List.mem_map.1 hp
  have hend : '\n' ∉ e.beforeFeed := by cases e <;> decide
  rw [List.mem_append, not_or]
  exact ⟨l.feed_not_mem_text, hend⟩

theorem trimRight_append_beforeFeed (l : List Char) (e : LineEnd) :
    Text.trimRight (l ++ e.beforeFeed) = Text.trimRight l := by
  have hblank : e.beforeFeed.all Text.isBlank = true := by cases e <;> rfl
  exact Text.dropRightWhile_append (List.all_eq_true.1 hblank)

/-- **The configuration of a text is its definitions**, in whatever form and order they
    stand and whatever stands between them. -/
theorem ofText_text : BuildConfig.ofText source.text =
    .ok (BuildConfig.defineAll (source.definitions.map Definition.entry) .empty) := by
  let definitionOf (line : List Char) := (ConfigLine.ofText line).definition?
  have hwell : ∀ line ∈ Text.lines source.text.toList,
      ConfigLine.ofText (Text.trimRight line) ≠ .malformed := by
    intro line hline
    obtain ⟨p, hp, htrim⟩ := Text.exists_mem_pieces hline
    rw [pieces_text, List.mem_append, List.mem_singleton] at hp
    rw [htrim]
    obtain hp | rfl := hp
    · obtain ⟨⟨l, e⟩, -, rfl⟩ := List.mem_map.1 hp
      rw [trimRight_append_beforeFeed]
      exact l.ofText_text.1
    · exact source.last.ofText_text.1
  have hpieces : source.pieces.filterMap (fun p => definitionOf (Text.trimRight p)) =
      (source.lines.map (·.1)).filterMap fun l => l.definition?.map Definition.entry := by
    rw [pieces, List.filterMap_map, List.filterMap_map]
    exact List.filterMap_congr fun l _ =>
      (congrArg definitionOf (trimRight_append_beforeFeed ..)).trans l.1.ofText_text.2
  have hlast : [source.last.text].filterMap (fun p => definitionOf (Text.trimRight p)) =
      [source.last].filterMap fun l => l.definition?.map Definition.entry := by
    rw [List.filterMap_cons, List.filterMap_cons, ← source.last.ofText_text.2]
    rfl
  rw [BuildConfig.ofText, BuildConfig.parse, BuildConfig.readLines_eq_ok hwell,
    Text.filterMap_lines (f := definitionOf) rfl, pieces_text, List.filterMap_append, hpieces, hlast,
    definitions, List.map_filterMap, List.filterMap_append]

end ConfigSource

end BootSeal
