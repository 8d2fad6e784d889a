/-
  BootSeal — which lines a build configuration is refused for, and what texts that are put
  together give.

  * `ConfigLine.LacksEquals`, `ConfigLine.LacksKey`: an option without an equals sign, and a
    header directive without a key. The former are malformed (`ofText_eq_malformed_iff`), the
    latter define nothing (`ofText_of_lacksKey`), because the blanks that would make a
    directive of the bare word are gone before it is looked at;
  * `BuildConfig.readLines_eq_ok_iff`, `BuildConfig.readLines_eq_error_iff`: both outcomes of
    reading lines. The error is that of the first malformed line;
  * `BuildConfig.ofText_fails_exactly`: hence the texts that are refused, and
    `BuildConfig.bare_directive_passes`: a bare directive is none of them;
  * `BuildConfig.parse_eq_readLines_pieces`: lines can be taken for pieces, so that the lines
    of two texts stand one after the other (`BuildConfig.ofText_joined`).
-/
import BootSeal.Proofs.Partition.Config
import BootSeal.Proofs.Text.Lines
import Mathlib.Data.List.Nodup

namespace BootSeal

/-! ## Malformed lines -/

namespace ConfigLine

/-- An option of a build without an equals sign. -/
def LacksEquals (line : List Char) : Prop :=
  (∃ mark ∈ optionMarks, mark.toList <+: line) ∧ '=' ∉ line

instance (line : List Char) : Decidable (LacksEquals line) := inferInstanceAs (Decidable (_ ∧ _))

/-- The directive of a header without a key: nothing but blanks after its word. -/
def LacksKey (line : List Char) : Prop :=
  ∃ blanks : List Char, line = defineMark.toList ++ blanks ∧ blanks.all Text.isBlank = true

theorem mark_apart {mark : String} (h : mark ∈ optionMarks) {line : List Char}
    (hmark : mark.toList <+: line) : ¬ defineMark.toList <+: line := by
  intro hdefine
  simp only [optionMarks, List.mem_cons, List.not_mem_nil, or_false] at h
  obtain rfl | rfl := h <;>
    exact (List.prefix_or_prefix_of_prefix hmark hdefine).elim (by decide) (by decide)

/-- A directive that does not end with a blank has a key, if a blank follows its word. -/
theorem ofText_of_define {line : List Char} (h : defineMark.toList <+: line)
    (hlast : ∀ c, line.getLast? = some c → Text.isBlank c = false) :
    ofText line ≠ .malformed := by
  obtain ⟨rest, rfl⟩ := h
  have hdrop : (defineMark.toList ++ rest).drop defineMark.length = rest := List.drop_left' rfl
  rw [ofText, if_pos (List.isPrefixOf_iff_prefix.2 (List.prefix_append ..)), hdrop]
  dsimp only
  split
  · next hblank =>
    have hne : rest ≠ [] := by
      rintro rfl
      cases hblank
    have htrim : Text.trim rest ≠ [] := by
      refine Text.trim_ne_nil (List.getLast_mem hne) (hlast _ ?_)
      rw [List.getLast?_append, List.getLast?_eq_some_getLast hne, Option.some_or]
    rw [if_neg (mt List.isEmpty_iff.1 htrim)]
    rintro ⟨⟩
  · rintro ⟨⟩

/-- The blanks at the end of a line do not count. -/
theorem lacksEquals_trimRight {line : List Char} :
    LacksEquals (Text.trimRight line) ↔ LacksEquals line := by
  have hmark : ∀ mark ∈ optionMarks,
      (mark.toList <+: Text.trimRight line ↔ mark.toList <+: line) := by
    intro mark h
    simp only [optionMarks, List.mem_cons, List.not_mem_nil, or_false] at h
    obtain rfl | rfl := h <;>
      exact Text.prefix_trimRight_iff fun c hc => by cases hc; rfl
  have hequals : '=' ∈ Text.trimRight line ↔ '=' ∈ line := Text.mem_trimRight_iff (by decide)
  rw [LacksEquals, LacksEquals, hequals]
  refine and_congr_left fun _ => ⟨?_, ?_⟩
  · rintro ⟨mark, h, hprefix⟩
    exact ⟨mark, h, (hmark mark h).1 hprefix⟩
  · rintro ⟨mark, h, hprefix⟩
    exact ⟨mark, h, (hmark mark h).2 hprefix⟩

/-- Of the other lines, options need an equals sign. -/
theorem ofText_of_not_define {line : List Char} (h : ¬ defineMark.toList <+: line) :
    ofText line = .malformed ↔ LacksEquals line := by
  have hoption : optionMarks.any (fun mark => mark.toList.isPrefixOf line) = true ↔
      ∃ mark ∈ optionMarks, mark.toList <+: line := by
    simp only [List.any_eq_true, List.isPrefixOf_iff_prefix]
  have hequals : Text.cutFirst? (· == '=') line = none ↔ '=' ∉ line := by
    rw [Text.cutFirst?_eq_none_iff]
    exact ⟨fun hall hmem => absurd (hall _ hmem) (by decide),
      fun hnot c hc => beq_eq_false_iff_ne.2 fun heq => hnot (heq ▸ hc)⟩
  rw [ofText, if_neg (mt List.isPrefixOf_iff_prefix.1 h), LacksEquals, ← hoption, ← hequals]
  split
  · next hany => cases Text.cutFirst? (· == '=') line <;> simp [hany]
  · next hany => simp [hany]

/-- **A line is malformed if it is an option without an equals sign**, and not otherwise. -/
theorem ofText_eq_malformed_iff {line : List Char} :
    ofText (Text.trimRight line) = .malformed ↔ LacksEquals line := by
  rw [← lacksEquals_trimRight]
  by_cases hdefine : defineMark.toList <+: Text.trimRight line
  · refine iff_of_false (ofText_of_define hdefine fun c hc => Text.getLast?_dropRightWhile hc) ?_
    rintro ⟨⟨mark, h, hprefix⟩, -⟩
    exact mark_apart h hprefix hdefine
  · exact ofText_of_not_define hdefine

/-- **A directive without a key defines nothing**: without the blanks at its end there is none
    after its word. -/
theorem ofText_of_lacksKey {line : List Char} (h : LacksKey line) :
    ofText (Text.trimRight line) = .other := by
  obtain ⟨blanks, rfl, hblanks⟩ := h
  have htrim : Text.trimRight (defineMark.toList ++ blanks) = defineMark.toList :=
    (Text.dropRightWhile_append (List.all_eq_true.1 hblanks)).trans
      (Text.dropRightWhile_eq_self fun c hc => by cases hc; rfl)
  rw [htrim]
  rfl

end ConfigLine

/-! ## Outcomes -/

namespace BuildConfig

/-- What lines define, in order. -/
def definitionsOf (lines : List (List Char)) : List (String × String) :=
  lines.filterMap fun line => (ConfigLine.ofText (Text.trimRight line)).definition?

/-- The error of a line, with its number and its text without the blanks at its end. -/
def lineError (path : String) (number : Nat) (line : List Char) : ConfigError :=
  .malformedLine path number (String.ofList (Text.trimRight line))

section
variable {path : String} {number : Nat} {config : BuildConfig} {lines : List (List Char)}

/-- **Lines are read one after the other.** -/
theorem readLines_append (first rest : List (List Char)) (number : Nat) (config : BuildConfig) :
    readLines path number config (first ++ rest) = readLines path number config first >>=
      fun config => readLines path (number + first.length) config rest := by
  induction first generalizing number config with
  | nil => rfl
  | cons line first ih =>
    have hnumber : number + (line :: first).length = number + 1 + first.length := by
      rw [List.length_cons]
      omega
    rw [List.cons_append, readLines, readLines, hnumber]
    cases ConfigLine.ofText (Text.trimRight line) with
    | definition key value => exact ih _ _
    | other => exact ih _ _
    | malformed => rfl

theorem readLines_of_forall (h : ∀ line ∈ lines, ¬ ConfigLine.LacksEquals line) (number : Nat)
    (config : BuildConfig) :
    readLines path number config lines = .ok (defineAll (definitionsOf lines) config) :=
  readLines_eq_ok (fun line hline hmalformed =>
    h line hline (ConfigLine.ofText_eq_malformed_iff.1 hmalformed)) number config

/-- Reading ends at the first line that lacks its equals sign. -/
theorem readLines_of_first {before after : List (List Char)} {line : List Char}
    (hbefore : ∀ l ∈ before, ¬ ConfigLine.LacksEquals l) (h : ConfigLine.LacksEquals line)
    (number : Nat) (config : BuildConfig) :
    readLines path number config (before ++ line :: after) =
      .error (lineError path (number + before.length) line) := by
  rw [readLines_append, readLines_of_forall hbefore]
  show readLines path _ _ (line :: after) = _
  rw [readLines, ConfigLine.ofText_eq_malformed_iff.2 h]
  rfl

/-- Of lines that are not all fine one is the first that is not. -/
theorem exists_first_or_forall (lines : List (List Char)) :
    (∀ line ∈ lines, ¬ ConfigLine.LacksEquals line) ∨
    ∃ before line after, lines = before ++ line :: after ∧
      (∀ l ∈ before, ¬ ConfigLine.LacksEquals l) ∧ ConfigLine.LacksEquals line := by
  cases hfind : lines.find? (fun line => decide (ConfigLine.LacksEquals line)) with
  | none => exact Or.inl (by simpa using hfind)
  | some line =>
    obtain ⟨hline, before, after, hlines, hbefore⟩ := List.find?_eq_some_iff_append.1 hfind
    exact Or.inr ⟨before, line, after, hlines, by simpa using hbefore, of_decide_eq_true hline⟩

/-- **Lines are read if none of them lacks its equals sign**, and then give their definitions. -/
theorem readLines_eq_ok_iff {result : BuildConfig} :
    readLines path number config lines = .ok result ↔
      (∀ line ∈ lines, ¬ ConfigLine.LacksEquals line) ∧
      result = defineAll (definitionsOf lines) config := by
  constructor
  · intro h
    obtain hall | ⟨before, line, after, rfl, hbefore, hline⟩ := exists_first_or_forall lines
    · rw [readLines_of_forall hall, Except.ok.injEq] at h
      exact ⟨hall, h.symm⟩
    · rw [readLines_of_first hbefore hline] at h
      cases h
  · rintro ⟨hall, rfl⟩
    exact readLines_of_forall hall number config

/-- **The error is that of the first line that lacks its equals sign.** -/
theorem readLines_eq_error_iff {e : ConfigError} :
    readLines path number config lines = .error e ↔
      ∃ before line after, lines = before ++ line :: after ∧
        (∀ l ∈ before, ¬ ConfigLine.LacksEquals l) ∧ ConfigLine.LacksEquals line ∧
        e = lineError path (number + before.length) line := by
  constructor
  · intro h
    obtain hall | ⟨before, line, after, rfl, hbefore, hline⟩ := exists_first_or_forall lines
    · rw [readLines_of_forall hall] at h
      cases h
    · rw [readLines_of_first hbefore hline, Except.error.injEq] at h
      exact ⟨before, line, after, rfl, hbefore, hline, h.symm⟩
  · rintro ⟨before, line, after, rfl, hbefore, hline, rfl⟩
    exact readLines_of_first hbefore hline number config

/-! ## Texts -/

theorem readLines_map_dropReturn :
    readLines path number config (lines.map Text.dropReturn) =
      readLines path number config lines := by
  induction lines generalizing number config with
  | nil => rfl
  | cons line rest ih =>
    rw [List.map_cons, readLines, readLines, Text.trimRight_dropReturn]
    cases ConfigLine.ofText (Text.trimRight line) with
    | definition key value => exact ih
    | other => exact ih
    | malformed => rfl

/-- **The lines of a text are read like its pieces**: carriage returns are blanks, and an empty
    piece at the end defines nothing. -/
theorem readLines_lines (text : List Char) :
    readLines path number config (Text.lines text) =
      readLines path number config (Text.pieces '\n' text) := by
  obtain ⟨init, last, hpieces, hlines⟩ := Text.exists_pieces_eq text
  have hlast (number : Nat) (config : BuildConfig) :
      readLines path number config (if last.isEmpty then [] else [last]) =
        readLines path number config [last] := by
    cases last <;> rfl
  rw [hpieces, hlines, readLines_append, readLines_append, readLines_map_dropReturn,
    List.length_map]
  simp only [hlast]

end

/-- **A text is refused exactly for an option without an equals sign.** The error has the
    number of the first such line, counted from 1, and its text without the blanks at its
    end. A directive without a key is nothing to refuse: it defines nothing. -/
theorem ofText_fails_exactly (text : String) :
    ((∃ e, ofText text = .error e) ↔
      ∃ line ∈ Text.lines text.toList, ConfigLine.LacksEquals line) ∧
    (∀ e, ofText text = .error e ↔ ∃ before line after,
      Text.lines text.toList = before ++ line :: after ∧
      (∀ l ∈ before, ¬ ConfigLine.LacksEquals l) ∧ ConfigLine.LacksEquals line ∧
      e = .malformedLine memoryPath (before.length + 1) (String.ofList (Text.trimRight line))) ∧
    ∀ line ∈ Text.lines text.toList, ConfigLine.LacksKey line →
      ConfigLine.ofText (Text.trimRight line) = .other := by
  have herror (e : ConfigError) : ofText text = .error e ↔ _ := readLines_eq_error_iff
  refine ⟨⟨?_, ?_⟩, fun e => ?_, fun line _ h => ConfigLine.ofText_of_lacksKey h⟩
  · rintro ⟨e, he⟩
    obtain ⟨before, line, after, hlines, -, hlacks, -⟩ := (herror e).1 he
    exact ⟨line, hlines ▸ List.mem_append_right _ List.mem_cons_self, hlacks⟩
  · rintro ⟨line, hline, hlacks⟩
    cases hread : ofText text with
    | error e => exact ⟨e, rfl⟩
    | ok config => exact absurd hlacks ((readLines_eq_ok_iff.1 hread).1 line hline)
  · rw [herror]
    simp only [lineError, Nat.add_comm 1]

/-- The word of a directive alone is accepted, though a directive needs a key. -/
theorem bare_directive_passes : ¬ ∀ text : String, (∃ e, ofText text = .error e) ↔
    ∃ line ∈ Text.lines text.toList, ConfigLine.LacksEquals line ∨ ConfigLine.LacksKey line := by
  intro h
  have hread : ofText "#define" = .ok .empty := by decide
  have hline : "#define".toList ∈ Text.lines "#define".toList := by decide
  obtain ⟨e, he⟩ := (h "#define").2 ⟨_, hline, Or.inr ⟨[], rfl, rfl⟩⟩
  rw [hread] at he
  cases he

/-- A directive without a key, an option, and an option without an equals sign. -/
def threeLines : String := "#define \t\r\nCONFIG_A=1\nSB_CONFIG_B \n"

/-- The first line defines nothing, and the third one is refused. -/
theorem third_line_refused :
    (∃ line ∈ Text.lines threeLines.toList, ConfigLine.LacksKey line ∧
      ConfigLine.ofText (Text.trimRight line) = .other) ∧
    ofText threeLines = .error (.malformedLine "<memory>" 3 "SB_CONFIG_B") := by
  have hlines : Text.lines threeLines.toList =
      ["#define \t".toList, "CONFIG_A=1".toList, "SB_CONFIG_B ".toList] := by decide
  have hfirst : "#define \t".toList ∈ Text.lines threeLines.toList := by
    rw [hlines]
    exact List.mem_cons_self
  have hkey : ConfigLine.LacksKey "#define \t".toList := ⟨" \t".toList, rfl, by decide⟩
  obtain ⟨-, herror, hother⟩ := ofText_fails_exactly threeLines
  exact ⟨⟨_, hfirst, hkey, hother _ hfirst hkey⟩, (herror _).2
    ⟨["#define \t".toList, "CONFIG_A=1".toList], "SB_CONFIG_B ".toList, [], hlines, by decide,
      by decide, by decide⟩⟩

/-! ## Texts put together -/

theorem parse_eq_readLines_pieces (path text : String) :
    parse path text = readLines path 1 .empty (Text.pieces '\n' text.toList) :=
  readLines_lines text.toList

/-- **The later definitions count** for their keys, and the earlier ones for all others. -/
theorem value?_defineAll_or (defs : List (String × String)) (config : BuildConfig) (key : String) :
    (defineAll defs config).value? key =
      ((defineAll defs .empty).value? key).or (config.value? key) := by
  induction defs generalizing config with
  | nil => rfl
  | cons d defs ih =>
    have hcons (config : BuildConfig) :
        defineAll (d :: defs) config = defineAll defs (config.define d.1 d.2) := rfl
    rw [hcons, hcons, ih, ih (define .empty _ _), Option.or_assoc, value?_define, value?_define]
    split
    · rw [Option.some_or]
    · rfl

theorem nodup_keys_define {config : BuildConfig} (h : (config.entries.map (·.1)).Nodup)
    (key value : String) : ((config.define key value).entries.map (·.1)).Nodup := by
  rw [define]
  split
  · have hkeys : (config.entries.map fun e => if e.1 == key then (key, value) else e).map (·.1) =
        config.entries.map (·.1) := by
      rw [List.map_map]
      refine List.map_congr_left fun e _ => ?_
      show (if e.1 == key then (key, value) else e).1 = e.1
      split
      · next heq => exact (eq_of_beq heq).symm
      · rfl
    exact hkeys ▸ h
  · next hnew =>
    rw [List.map_append, List.map_singleton]
    refine List.nodup_append.2 ⟨h, List.nodup_singleton _, fun k hk k' hk' heq => hnew ?_⟩
    rw [List.mem_singleton] at hk'
    obtain ⟨e, he, rfl⟩ := List.mem_map.1 hk
    exact List.any_eq_true.2 ⟨e, he, beq_iff_eq.2 (heq.trans hk')⟩

theorem nodup_keys_defineAll (defs : List (String × String)) {config : BuildConfig}
    (h : (config.entries.map (·.1)).Nodup) : ((defineAll defs config).entries.map (·.1)).Nodup := by
  induction defs generalizing config with
  | nil => exact h
  | cons d defs ih => exact ih (nodup_keys_define h d.1 d.2)

/-- The lines of two texts with a line feed between them. -/
theorem pieces_joined (a b : String) : Text.pieces '\n' (a ++ "\n" ++ b).toList =
    Text.pieces '\n' a.toList ++ Text.pieces '\n' b.toList := by
  have htext : (a ++ "\n" ++ b).toList = a.toList ++ '\n' :: b.toList := by
    calc (a ++ "\n" ++ b).toList
        = a.toList ++ "\n".toList ++ b.toList := by
          rw [String.toList_append, String.toList_append]
      _ = a.toList ++ '\n' :: b.toList := by
          rw [List.append_assoc]
          rfl
  rw [htext, Text.pieces_append_cons]

section
variable {a b : String}

theorem ofText_eq_ok_iff {config : BuildConfig} : ofText a = .ok config ↔
    (∀ line ∈ Text.pieces '\n' a.toList, ¬ ConfigLine.LacksEquals line) ∧
    config = defineAll (definitionsOf (Text.pieces '\n' a.toList)) .empty := by
  rw [ofText, parse_eq_readLines_pieces, readLines_eq_ok_iff]

theorem ofText_eq_error_iff {e : ConfigError} : ofText a = .error e ↔
    ∃ before line after, Text.pieces '\n' a.toList = before ++ line :: after ∧
      (∀ l ∈ before, ¬ ConfigLine.LacksEquals l) ∧ ConfigLine.LacksEquals line ∧
      e = lineError memoryPath (1 + before.length) line := by
  rw [ofText, parse_eq_readLines_pieces, readLines_eq_error_iff]

theorem exists_ofText_joined_iff : (∃ z, ofText (a ++ "\n" ++ b) = .ok z) ↔
    (∃ x, ofText a = .ok x) ∧ ∃ y, ofText b = .ok y := by
  simp only [ofText_eq_ok_iff, pieces_joined, List.forall_mem_append, exists_and_left, exists_eq,
    and_true]

/-- The definitions of the second text come last. -/
theorem ofText_joined_eq_ok {x : BuildConfig} (ha : ofText a = .ok x)
    {z : BuildConfig} (h : ofText (a ++ "\n" ++ b) = .ok z) :
    z = defineAll (definitionsOf (Text.pieces '\n' b.toList)) x := by
  rw [(ofText_eq_ok_iff.1 h).2, (ofText_eq_ok_iff.1 ha).2, pieces_joined, definitionsOf,
    List.filterMap_append, defineAll, List.foldl_append]
  rfl

theorem ofText_joined_of_error {e : ConfigError} (ha : ofText a = .error e) :
    ofText (a ++ "\n" ++ b) = .error e := by
  obtain ⟨before, line, after, hpieces, hbefore, hline, he⟩ := ofText_eq_error_iff.1 ha
  refine ofText_eq_error_iff.2 ⟨before, line, after ++ Text.pieces '\n' b.toList, ?_, hbefore,
    hline, he⟩
  rw [pieces_joined, hpieces, List.append_assoc, List.cons_append]

/-- An error of the second text moves down by the lines of the first one. -/
theorem ofText_joined_of_error_right {x : BuildConfig} {e : ConfigError} (ha : ofText a = .ok x)
    (hb : ofText b = .error e) :
    ∃ line text, e = .malformedLine memoryPath line text ∧ ofText (a ++ "\n" ++ b) =
      .error (.malformedLine memoryPath (line + (1 + a.toList.count '\n')) text) := by
  obtain ⟨before, line, after, hpieces, hbefore, hline, he⟩ := ofText_eq_error_iff.1 hb
  refine ⟨1 + before.length, _, he, ofText_eq_error_iff.2
    ⟨Text.pieces '\n' a.toList ++ before, line, after, ?_, ?_, hline, ?_⟩⟩
  · rw [pieces_joined, hpieces, List.append_assoc]
  · exact List.forall_mem_append.2 ⟨(ofText_eq_ok_iff.1 ha).1, hbefore⟩
  · have hnumber : 1 + before.length + (1 + a.toList.count '\n') =
        1 + (Text.pieces '\n' a.toList ++ before).length := by
      rw [List.length_append, Text.length_pieces]
      omega
    rw [hnumber, lineError]

end

/-- **Configurations are put together text by text.** Two texts with a line feed between them
    are read if each of them is, and the definitions of the second one come last. An error of
    the first text stays as it is, and one of the second moves down by the lines before it. -/
theorem ofText_joined (a b : String) :
    ((∃ z, ofText (a ++ "\n" ++ b) = .ok z) ↔
      (∃ x, ofText a = .ok x) ∧ ∃ y, ofText b = .ok y) ∧
    (∀ x y z, ofText a = .ok x → ofText b = .ok y → ofText (a ++ "\n" ++ b) = .ok z →
      (z.entries.map (·.1)).Nodup ∧ ∀ key, z.value? key = (y.value? key).or (x.value? key)) ∧
    (∀ e, ofText a = .error e → ofText (a ++ "\n" ++ b) = .error e) ∧
    ∀ x e, ofText a = .ok x → ofText b = .error e →
      ∃ line text, e = .malformedLine memoryPath line text ∧ ofText (a ++ "\n" ++ b) =
        .error (.malformedLine memoryPath (line + (1 + a.toList.count '\n')) text) := by
  refine ⟨exists_ofText_joined_iff, fun x y z ha hb h => ⟨?_, fun key => ?_⟩,
    fun e => ofText_joined_of_error, fun x e => ofText_joined_of_error_right⟩
  · rw [(ofText_eq_ok_iff.1 h).2]
    exact nodup_keys_defineAll _ List.nodup_nil
  · rw [ofText_joined_eq_ok ha h, (ofText_eq_ok_iff.1 hb).2]
    exact value?_defineAll_or _ x key

/-- Definitions in both forms, without a line feed at the end. -/
def firstText : String := "CONFIG_A=1\n#define B 2\r"

/-- A text that defines one key of the first text again, and adds an option without an equals
    sign on its first line. -/
theorem ofText_joined_both_forms : ∃ x y z,
    ofText firstText = .ok x ∧ ofText "#define CONFIG_A 3" = .ok y ∧
    ofText (firstText ++ "\n" ++ "#define CONFIG_A 3") = .ok z ∧
    z.value? "CONFIG_A" = some "3" ∧ z.value? "B" = some "2" ∧
    ofText "CONFIG_C " = .error (.malformedLine memoryPath 1 "CONFIG_C") ∧
    ofText (firstText ++ "\n" ++ "CONFIG_C ") =
      .error (.malformedLine memoryPath 3 "CONFIG_C") := by
  have hx : ofText firstText = .ok ⟨[("CONFIG_A", "1"), ("B", "2")]⟩ := by decide
  have hy : ofText "#define CONFIG_A 3" = .ok ⟨[("CONFIG_A", "3")]⟩ := by decide
  have he : ofText "CONFIG_C " = .error (.malformedLine memoryPath 1 "CONFIG_C") := by decide
  obtain ⟨hok, hvalue, -, -⟩ := ofText_joined firstText "#define CONFIG_A 3"
  obtain ⟨-, -, -, herror⟩ := ofText_joined firstText "CONFIG_C "
  obtain ⟨z, hz⟩ := hok.2 ⟨⟨_, hx⟩, ⟨_, hy⟩⟩
  obtain ⟨-, hvalue⟩ := hvalue _ _ z hx hy hz
  obtain ⟨line, text, heq, hmoved⟩ := herror _ _ hx he
  cases heq
  exact ⟨_, _, z, hx, hy, hz, hvalue "CONFIG_A", hvalue "B", he, hmoved⟩

end BuildConfig

end BootSeal
