/-
  BootSeal — the search for a pattern, and what can come in its way.

  * `Magic.OccursAt`: the pattern stands at a position; `Magic.find?_eq_some_iff` and
    `Magic.find?_eq_none_iff`: the search gives the first such position, if any;
  * `Magic.Borderless` patterns do not overlap themselves, so that none begins before
    the one that follows a byte string without them (`Borderless.not_occursAt`);
  * `ValidationBlock.find_exact`: the search for a block finds the one at the first place of
    the pattern, and fails exactly if no place has a whole block;
  * `ValidationBlock.find_append_iff`: a block at the end of an image is found exactly
    if no pattern comes before it.
-/
import BootSeal.Proofs.Block.Codec
import Mathlib.Data.Nat.Find

namespace BootSeal

namespace Magic

variable {m : Magic} {b : Bytes}

/-- The pattern stands at position `i` of a byte string. -/
def OccursAt (m : Magic) (b : Bytes) (i : Nat) : Prop := m.toBytes <+: b.drop i

instance (m : Magic) (b : Bytes) (i : Nat) : Decidable (m.OccursAt b i) :=
  inferInstanceAs (Decidable (m.toBytes <+: b.drop i))

theorem toBytes_ne_nil : m.toBytes ≠ [] :=
  List.ne_nil_of_length_pos (by rw [length_toBytes, size]; omega)

theorem OccursAt.add_size_le {i : Nat} (h : m.OccursAt b i) : i + size ≤ b.length := by
  have hlen := h.length_le
  rw [length_toBytes, List.length_drop] at hlen
  have : 0 < size := by decide
  omega

/-! ## The first occurrence -/

theorem findFrom?_eq_some_iff {pattern : Bytes} (hp : pattern ≠ []) {offset p : Nat} :
    findFrom? pattern offset b = some p ↔
      ∃ i, p = offset + i ∧ pattern <+: b.drop i ∧ ∀ j < i, ¬ pattern <+: b.drop j := by
  induction b generalizing offset with
  | nil =>
    refine ⟨nofun, fun ⟨i, _, h, _⟩ => ?_⟩
    rw [List.drop_nil, List.prefix_nil] at h
    exact absurd h hp
  | cons x rest ih =>
    rw [findFrom?]
    split
    · next h =>
      rw [List.isPrefixOf_iff_prefix] at h
      rw [Option.some_inj]
      constructor
      · rintro rfl
        exact ⟨0, rfl, h, nofun⟩
      · rintro ⟨i, rfl, -, hfirst⟩
        cases i with
        | zero => rfl
        | succ i => exact absurd h (hfirst 0 i.succ_pos)
    · next h =>
      rw [List.isPrefixOf_iff_prefix] at h
      rw [ih]
      constructor
      · rintro ⟨i, rfl, hi, hfirst⟩
        refine ⟨i + 1, by omega, hi, fun j hj => ?_⟩
        cases j with
        | zero => exact h
        | succ j => exact hfirst j (by omega)
      · rintro ⟨i, rfl, hi, hfirst⟩
        cases i with
        | zero => exact absurd hi h
        | succ i => exact ⟨i, by omega, hi, fun j hj => hfirst (j + 1) (by omega)⟩

/-- **The search gives the first position of the pattern.** -/
theorem find?_eq_some_iff {p : Nat} :
    m.find? b = some p ↔ m.OccursAt b p ∧ ∀ i < p, ¬ m.OccursAt b i := by
  rw [find?, findFrom?_eq_some_iff toBytes_ne_nil]
  simp only [Nat.zero_add, OccursAt, exists_eq_left']

theorem exists_first {i : Nat} (h : m.OccursAt b i) :
    ∃ p, m.OccursAt b p ∧ ∀ j < p, ¬ m.OccursAt b j := by
  have hex : ∃ p, m.OccursAt b p := ⟨i, h⟩
  exact ⟨Nat.find hex, Nat.find_spec hex, fun j hj => Nat.find_min hex hj⟩

theorem find?_eq_none_iff : m.find? b = none ↔ ∀ i, ¬ m.OccursAt b i := by
  constructor
  · intro h i hi
    obtain ⟨p, hp⟩ := exists_first hi
    rw [find?_eq_some_iff.2 hp] at h
    cases h
  · intro h
    cases hf : m.find? b with
    | none => rfl
    | some p => exact absurd (find?_eq_some_iff.1 hf).1 (h p)

/-! ## Patterns that do not overlap themselves -/

/-- No proper, nonempty part at the front of the pattern is also its end. -/
def Borderless (m : Magic) : Prop :=
  ∀ part, part ≠ [] → part ≠ m.toBytes → part <+: m.toBytes → ¬ part <:+ m.toBytes

theorem borderless_iff : m.Borderless ↔
    ∀ n < size, 0 < n → m.toBytes.take n ≠ m.toBytes.drop (size - n) := by
  constructor
  · intro h n hn hpos heq
    have hlen : (m.toBytes.take n).length = n := by
      rw [List.length_take, length_toBytes]; omega
    refine h (m.toBytes.take n) (List.ne_nil_of_length_pos (by omega)) (fun hall => ?_)
      (List.take_prefix ..) (heq ▸ List.drop_suffix ..)
    rw [hall, length_toBytes] at hlen
    omega
  · intro h part hnil hall hpre hsuf
    have hle := hpre.length_le
    rw [length_toBytes] at hle
    have hne : part.length ≠ size := fun he => hall (hpre.eq_of_length (by rw [he, length_toBytes]))
    refine h part.length (by omega) (List.length_pos_iff.2 hnil) ?_
    rw [← List.prefix_iff_eq_take.1 hpre]
    have heq := List.suffix_iff_eq_drop.1 hsuf
    rwa [length_toBytes] at heq

instance (m : Magic) : Decidable m.Borderless := decidable_of_iff' _ borderless_iff

/-- A pattern that does not overlap itself begins nowhere in front of one that follows
    a byte string without it. -/
theorem Borderless.not_occursAt (hm : m.Borderless) {front tail : Bytes}
    (hfront : ∀ i, ¬ m.OccursAt front i) (htail : m.toBytes <+: tail) {i : Nat}
    (hi : i < front.length) : ¬ m.OccursAt (front ++ tail) i := by
  intro h
  rw [OccursAt, List.drop_append_of_le_length (Nat.le_of_lt hi)] at h
  -- A pattern that does not end in front of the tail reaches into it.
  rcases List.prefix_or_prefix_of_prefix h (List.prefix_append _ _) with hin | ⟨part, hpart⟩
  · exact hfront i hin
  · have hlen := congrArg List.length hpart
    rw [List.length_append, List.length_drop] at hlen
    have hrest : front.drop i ++ part <+: front.drop i ++ tail := by
      rw [hpart]; exact h
    have hpre : part <+: m.toBytes :=
      List.prefix_of_prefix_length_le ((List.prefix_append_right_inj _).1 hrest) htail (by omega)
    refine hm part (fun hnil => ?_) (fun hall => ?_) hpre ⟨_, hpart⟩
    · rw [hnil, List.append_nil] at hpart
      exact hfront i ⟨[], by rw [List.append_nil, hpart]⟩
    · rw [hall] at hlen
      omega

end Magic

namespace ValidationBlock

theorem magic_prefix (b : ValidationBlock) : b.magic.toBytes <+: b.toBytes := by
  rw [toBytes, List.append_assoc]
  exact List.prefix_append _ _

/-! ## What the search for a block gives -/

section
variable {image : Bytes} {magic : Magic} {algorithm : SignatureAlgorithm} {p : Nat}
  {block : ValidationBlock}

/-- All depends on what stands at the first place of the pattern. -/
theorem find_of_first (h : magic.OccursAt image p) (hfirst : ∀ i < p, ¬ magic.OccursAt image i) :
    find image magic algorithm =
      parse (image.drop p) algorithm >>= fun block => .ok (some (p, block)) := by
  rw [find, Magic.find?_eq_some_iff.2 ⟨h, hfirst⟩]
  rfl

/-- The pattern is nowhere, or it has a first place. -/
theorem find_cases (image : Bytes) (magic : Magic) (algorithm : SignatureAlgorithm) :
    (∀ i, ¬ magic.OccursAt image i) ∧ find image magic algorithm = .ok none ∨
      ∃ p, magic.OccursAt image p ∧ (∀ i < p, ¬ magic.OccursAt image i) ∧
        find image magic algorithm =
          parse (image.drop p) algorithm >>= fun block => .ok (some (p, block)) := by
  cases hf : magic.find? image with
  | none => exact Or.inl ⟨Magic.find?_eq_none_iff.1 hf, by rw [find, hf]⟩
  | some p =>
    obtain ⟨hp, hfirst⟩ := Magic.find?_eq_some_iff.1 hf
    exact Or.inr ⟨p, hp, hfirst, find_of_first hp hfirst⟩

theorem find_eq_none_iff :
    find image magic algorithm = .ok none ↔ ∀ i, ¬ magic.OccursAt image i := by
  constructor
  · intro h
    rcases find_cases image magic algorithm with ⟨hnone, -⟩ | ⟨p, -, -, hfind⟩
    · exact hnone
    · rw [hfind] at h
      obtain ⟨_, -, h⟩ := bind_eq_ok.1 h
      cases h
  · intro h
    rw [find, Magic.find?_eq_none_iff.2 h]

theorem find_eq_some_iff : find image magic algorithm = .ok (some (p, block)) ↔
    magic.OccursAt image p ∧ (∀ i < p, ¬ magic.OccursAt image i) ∧
      parse (image.drop p) algorithm = .ok block := by
  constructor
  · intro h
    rcases find_cases image magic algorithm with ⟨-, hfind⟩ | ⟨q, hq, hfirst, hfind⟩
    · rw [hfind] at h
      cases h
    · rw [hfind] at h
      obtain ⟨parsed, hparse, heq⟩ := bind_eq_ok.1 h
      cases heq
      exact ⟨hq, hfirst, hparse⟩
  · rintro ⟨hp, hfirst, hparse⟩
    rw [find_of_first hp hfirst, hparse]
    rfl

theorem find_fails_iff : (∃ e, find image magic algorithm = .error e) ↔
    ∃ p, magic.OccursAt image p ∧ (∀ i < p, ¬ magic.OccursAt image i) ∧
      ∃ e, parse (image.drop p) algorithm = .error e := by
  constructor
  · rintro ⟨e, h⟩
    rcases find_cases image magic algorithm with ⟨-, hfind⟩ | ⟨p, hp, hfirst, hfind⟩
    · rw [hfind] at h
      cases h
    · refine ⟨p, hp, hfirst, ?_⟩
      cases hparse : parse (image.drop p) algorithm with
      | error e' => exact ⟨e', rfl⟩
      | ok parsed => rw [hfind, hparse] at h; cases h
  · rintro ⟨p, hp, hfirst, e, he⟩
    refine ⟨e, ?_⟩
    rw [find_of_first hp hfirst, he]
    rfl

/-- **A block at the end of an image is found** exactly if no pattern comes before it. -/
theorem find_append_iff {b : ValidationBlock} (hp : parse b.toBytes algorithm = .ok b)
    (front : Bytes) :
    find (front ++ b.toBytes) b.magic algorithm = .ok (some (front.length, b)) ↔
      ∀ i < front.length, ¬ b.magic.OccursAt (front ++ b.toBytes) i := by
  have hdrop : (front ++ b.toBytes).drop front.length = b.toBytes := List.drop_left
  have hhere : b.magic.OccursAt (front ++ b.toBytes) front.length := by
    rw [Magic.OccursAt, hdrop]
    exact b.magic_prefix
  rw [find_eq_some_iff, hdrop]
  exact ⟨fun h => h.2.1, fun hfirst => ⟨hhere, hfirst, hp⟩⟩

/-- The parts behind a pattern are read if they are all there, at the widths of the algorithm. -/
theorem parse_eq_ok_iff_of_occursAt (h : magic.OccursAt image p) :
    parse (image.drop p) algorithm = .ok block ↔
      p + 12 + algorithm.publicKeySize + 64 ≤ image.length ∧
      block = ⟨magic, (image.drop (p + 12)).take algorithm.publicKeySize,
        (image.drop (p + 12 + algorithm.publicKeySize)).take 64⟩ := by
  have hmagic : Magic.ofBytes (image.drop p) = magic := by
    obtain ⟨rest, hrest⟩ := h
    rw [← hrest, Magic.ofBytes_toBytes_append]
  have hlong : p + 12 ≤ image.length := h.add_size_le
  simp only [parse, hmagic, algorithm.signatureSize_eq, List.drop_drop, List.length_drop, Magic.size]
  rw [if_neg (by omega)]
  split_ifs with hshort
  · exact iff_of_false (fun herror => by cases herror) fun hblock => by omega
  · rw [Except.ok.injEq, eq_comm]
    exact ⟨fun hblock => ⟨by omega, hblock⟩, fun hblock => hblock.2⟩

theorem parse_fails_of_occursAt_iff (h : magic.OccursAt image p) :
    (∃ e, parse (image.drop p) algorithm = .error e) ↔
      image.length < p + 12 + algorithm.publicKeySize + 64 := by
  have hlong : p + 12 ≤ image.length := h.add_size_le
  rw [parse_fails_iff, List.length_drop, algorithm.signatureSize_eq, Magic.size]
  omega

/-- **The search for a block is exact.** It finds none exactly if the pattern is nowhere, and the
    block at its first place exactly if that place has a key and a signature behind it. It fails
    exactly if there are places but none of them has, so that the first one, where it stops,
    never hides a block behind a later one. -/
theorem find_exact (image : Bytes) (magic : Magic) (algorithm : SignatureAlgorithm) :
    (find image magic algorithm = .ok none ↔ ∀ i, ¬ magic.OccursAt image i) ∧
    (∀ p block, find image magic algorithm = .ok (some (p, block)) ↔
      magic.OccursAt image p ∧ (∀ i < p, ¬ magic.OccursAt image i) ∧
      p + 12 + algorithm.publicKeySize + 64 ≤ image.length ∧
      block = ⟨magic, (image.drop (p + 12)).take algorithm.publicKeySize,
        (image.drop (p + 12 + algorithm.publicKeySize)).take 64⟩) ∧
    ((∃ e, find image magic algorithm = .error e) ↔ (∃ p, magic.OccursAt image p) ∧
      ∀ p, magic.OccursAt image p → image.length < p + 12 + algorithm.publicKeySize + 64) := by
  refine ⟨find_eq_none_iff, fun p block => ?_, find_fails_iff.trans ⟨?_, ?_⟩⟩
  · rw [find_eq_some_iff]
    constructor
    · rintro ⟨hp, hfirst, hparse⟩
      exact ⟨hp, hfirst, (parse_eq_ok_iff_of_occursAt hp).1 hparse⟩
    · rintro ⟨hp, hfirst, hblock⟩
      exact ⟨hp, hfirst, (parse_eq_ok_iff_of_occursAt hp).2 hblock⟩
  · rintro ⟨p, hp, hfirst, hfails⟩
    refine ⟨⟨p, hp⟩, fun q hq => ?_⟩
    -- A later place has even less behind it than the first one.
    have hle : p ≤ q := Nat.le_of_not_lt fun hlt => hfirst q hlt hq
    have hshort := (parse_fails_of_occursAt_iff hp).1 hfails
    omega
  · rintro ⟨⟨q, hq⟩, hshort⟩
    obtain ⟨p, hp, hfirst⟩ := Magic.exists_first hq
    exact ⟨p, hp, hfirst, (parse_fails_of_occursAt_iff hp).2 (hshort p hp)⟩

end

end ValidationBlock

/-! ## Places that overlap -/

namespace OneByteOver

def magic : Magic := ⟨0x01010101, 0x01010101, 0x01010101⟩

/-- The pattern stands at neighbouring bytes: too short behind all of them, behind the first
    one long enough, and not there at all. -/
theorem found_at_neighbours :
    (∃ e, ValidationBlock.find (List.replicate 14 1) magic .ed25519 = .error e) ∧
    ValidationBlock.find (0 :: List.replicate 110 1) magic .ed25519 =
      .ok (some (1, ⟨magic, List.replicate 32 1, List.replicate 64 1⟩)) ∧
    ValidationBlock.find (List.replicate 11 1) magic .ed25519 = .ok none := by
  refine ⟨?_, ?_, ?_⟩
  · refine (ValidationBlock.find_exact (List.replicate 14 1) magic .ed25519).2.2.2
      ⟨⟨0, by decide⟩, fun p _ => ?_⟩
    rw [List.length_replicate]
    omega
  · refine ((ValidationBlock.find_exact (0 :: List.replicate 110 1) magic .ed25519).2.1 1 _).2
      ⟨by decide, by decide, by decide, by decide⟩
  · refine (ValidationBlock.find_exact (List.replicate 11 1) magic .ed25519).1.2 fun i hi => ?_
    have hlen : i + 12 ≤ 11 := hi.add_size_le
    omega

end OneByteOver

end BootSeal
