/-
  BootSeal — what the lines of a build configuration define.

  * `ConfigLine.ofText_header`, `ConfigLine.ofText_option`, `ConfigLine.ofText_other`: what
    a line is;
  * `BuildConfig.readLines_eq_ok`: lines without a malformed one give their definitions, in
    order; and `BuildConfig.value?_defineAll`: definitions of different keys are all there.
-/
import BootSeal.Partition.Config
import BootSeal.Proofs.Text.Blank
import BootSeal.Proofs.Text.Lines
import Mathlib.Tactic.SplitIfs

namespace BootSeal

/-! ## Lines -/

namespace ConfigLine

/-- The key and the value of a definition. -/
def definition? : ConfigLine → Option (String × String)
  | definition key value => some (key, value)
  | other | malformed => none

/-- A line that begins with none of the words of definitions. -/
def IsOther (line : List Char) : Prop :=
  ¬ defineMark.toList <+: line ∧ ∀ mark ∈ optionMarks, ¬ mark.toList <+: line

theorem IsOther.of_prefix {line start : List Char} (h : IsOther line) (hs : start <+: line) :
    IsOther start :=
  ⟨fun hd => h.1 (hd.trans hs), fun mark hm hd => h.2 mark hm (hd.trans hs)⟩

theorem ofText_other {line : List Char} (h : IsOther line) : ofText line = .other := by
  have hdefine : defineMark.toList.isPrefixOf line = false :=
    Bool.eq_false_iff.2 fun hd => h.1 (List.isPrefixOf_iff_prefix.1 hd)
  have hoption : optionMarks.any (fun mark => mark.toList.isPrefixOf line) = false :=
    List.any_eq_false.2 fun mark hm hd => h.2 mark hm (List.isPrefixOf_iff_prefix.1 hd)
  rw [ofText, hdefine, hoption]
  rfl

section
variable {key value : List Char} (hk : Text.IsWord key) (hv : Text.IsWord value)
include hk hv

theorem ofText_header : ofText (defineMark.toList ++ ' ' :: (key ++ [' '] ++ value)) =
    .definition (String.ofList key) (String.ofList value) := by
  have hdefine : defineMark.toList.isPrefixOf
      (defineMark.toList ++ ' ' :: (key ++ [' '] ++ value)) = true :=
    List.isPrefixOf_iff_prefix.2 (List.prefix_append ..)
  have hne : (key ++ [' '] ++ value).isEmpty = false := by
    simp
  have hcut : Text.cutFirst? Text.isBlank (key ++ [' '] ++ value) = some (key, value) := by
    rw [List.append_assoc]
    exact Text.cutFirst?_append hk.2 (by decide)
  rw [ofText, if_pos hdefine, List.drop_left' (by rfl)]
  dsimp only
  rw [hk.trim_cons_append hv, hne, hcut, List.head?_cons, Option.map_some, Option.getD_some,
    Option.getD_some, if_pos (by decide), if_neg Bool.false_ne_true]
  dsimp only
  rw [hv.trim]

theorem ofText_option {mark : String} (hm : mark ∈ optionMarks) (hmark : mark.toList <+: key)
    (heq : '=' ∉ key) :
    ofText (key ++ '=' :: value) = .definition (String.ofList key) (String.ofList value) := by
  have hdefine : defineMark.toList.isPrefixOf (key ++ '=' :: value) = false := by
    obtain ⟨name, rfl⟩ := hmark
    simp only [optionMarks, List.mem_cons, List.not_mem_nil, or_false] at hm
    obtain rfl | rfl := hm <;> rfl
  have hoption : optionMarks.any (fun mark => mark.toList.isPrefixOf (key ++ '=' :: value)) =
      true :=
    List.any_eq_true.2 ⟨mark, hm,
      List.isPrefixOf_iff_prefix.2 (hmark.trans (List.prefix_append ..))⟩
  have hcut : Text.cutFirst? (· == '=') (key ++ '=' :: value) = some (key, value) :=
    Text.cutFirst?_append (fun c hc => beq_eq_false_iff_ne.2 fun h => heq (h ▸ hc)) (by decide)
  rw [ofText, hdefine, hoption, if_neg Bool.false_ne_true, if_pos rfl, hcut]
  dsimp only
  rw [hk.trim, hv.trim]

end

end ConfigLine

/-! ## Definitions -/

namespace BuildConfig

/-- Definitions one after the other. -/
def defineAll (defs : List (String × String)) (config : BuildConfig) : BuildConfig :=
  defs.foldl (fun config d => config.define d.1 d.2) config

/-- **Lines give their definitions**, in order, if none of them is malformed. -/
theorem readLines_eq_ok {path : String} {lines : List (List Char)}
    (h : ∀ line ∈ lines, ConfigLine.ofText (Text.trimRight line) ≠ .malformed) (number : Nat)
    (config : BuildConfig) : readLines path number config lines = .ok (defineAll
      (lines.filterMap fun line => (ConfigLine.ofText (Text.trimRight line)).definition?)
      config) := by
  induction lines generalizing number config with
  | nil => rfl
  | cons line rest ih =>
    obtain ⟨hline, hrest⟩ := List.forall_mem_cons.1 h
    rw [readLines, List.filterMap_cons]
    cases hl : ConfigLine.ofText (Text.trimRight line) with
    | definition key value => exact ih hrest ..
    | other => exact ih hrest ..
    | malformed => exact absurd hl hline

theorem lookup_map_replace (key value x : String) (entries : List (String × String)) :
    (entries.map fun e => if e.1 == key then (key, value) else e).lookup x =
      if x = key then (entries.lookup x).map fun _ => value else entries.lookup x := by
  induction entries with
  | nil => simp
  | cons e entries ih =>
    obtain ⟨k, v⟩ := e
    rw [List.map_cons]
    by_cases hk : k = key
    · subst hk
      by_cases hx : x = k
      · simp [hx]
      · have hx' : (x == k) = false := beq_eq_false_iff_ne.2 hx
        rw [if_neg hx] at ih ⊢
        simp only [beq_self_eq_true, if_true, List.lookup_cons, hx', ih]
    · have hk' : (k == key) = false := beq_eq_false_iff_ne.2 hk
      simp only [hk', Bool.false_eq_true, if_false, List.lookup_cons, ih]
      by_cases hx : x = k
      · simp [hx, hk]
      · simp [beq_eq_false_iff_ne.2 hx]

/-- A definition counts for its key and for no other. -/
theorem value?_define (config : BuildConfig) (key value x : String) :
    (config.define key value).value? x = if x = key then some value else config.value? x := by
  rw [define, value?, value?]
  split
  · next h =>
    rw [lookup_map_replace]
    split_ifs with hx
    · obtain ⟨e, he, hkey⟩ := List.any_eq_true.1 h
      cases hl : config.entries.lookup x with
      | some => rfl
      | none =>
        have hne := List.lookup_eq_none_iff.1 hl e he
        rw [hx, eq_of_beq hkey] at hne
        simp at hne
    · rfl
  · next h =>
    have hnone : config.entries.lookup key = none := by
      refine List.lookup_eq_none_iff.2 fun e he => bne_iff_ne.2 fun hk => h ?_
      exact List.any_eq_true.2 ⟨e, he, beq_iff_eq.2 hk.symm⟩
    rw [List.lookup_append]
    split_ifs with hx
    · rw [hx, hnone, Option.none_or, List.lookup_cons_self]
    · simp [List.lookup_cons, beq_eq_false_iff_ne.2 hx]

theorem value?_defineAll_of_not_mem {defs : List (String × String)} {key : String}
    (h : key ∉ defs.map (·.1)) (config : BuildConfig) :
    (defineAll defs config).value? key = config.value? key := by
  induction defs generalizing config with
  | nil => rfl
  | cons d defs ih =>
    rw [List.map_cons, List.mem_cons, not_or] at h
    exact (ih h.2 _).trans ((value?_define ..).trans (if_neg h.1))

/-- **Definitions of different keys are all there.** -/
theorem value?_defineAll {defs : List (String × String)} (h : (defs.map (·.1)).Nodup)
    {d : String × String} (hd : d ∈ defs) (config : BuildConfig) :
    (defineAll defs config).value? d.1 = some d.2 := by
  induction defs generalizing config with
  | nil => cases hd
  | cons d' defs ih =>
    obtain ⟨hfirst, hrest⟩ := List.nodup_cons.1 h
    obtain rfl | hd := List.mem_cons.1 hd
    · exact (value?_defineAll_of_not_mem hfirst _).trans ((value?_define ..).trans (if_pos rfl))
    · exact ih hrest hd _

end BuildConfig

end BootSeal
