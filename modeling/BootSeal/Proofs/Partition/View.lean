/-
  BootSeal — the parts of a partition table make up its bytes.

  * `TableView.Complete`: a table as long as its number of entries asks for. The reader
    finds such a table exactly where one starts a byte string (`TableView.parse?_eq_some_iff`);
  * `Complete.content_eq`, `Complete.bytes_eq`: it is its number of entries, its reserved
    bytes, its entries and its checksum, one after the other;
  * `Complete.parse_append`: whatever follows it, it is taken for `TableView.table` if it
    carries the checksum of its content, and refused with both checksums if it does not.
-/
import BootSeal.Partition.TableCodec
import BootSeal.Proofs.Bytes
import Mathlib.Tactic.SplitIfs

namespace BootSeal

/-! ## Entries -/

/-- The bytes of an entry. -/
def TableEntry.toBytes (e : TableEntry) : Bytes :=
  Bytes.ofWord e.address ++ Bytes.ofWord e.size ++ e.reserved

theorem TableEntry.toBytes_ofBytes {b : Bytes} (h : 8 ≤ b.length) : (ofBytes b).toBytes = b := by
  have haddress : Bytes.ofWord (Bytes.toWord b) = b.take 4 := Bytes.ofWord_toWord (by omega)
  have hsize : Bytes.ofWord (Bytes.toWord (b.drop 4)) = (b.drop 4).take 4 :=
    Bytes.ofWord_toWord (by rw [List.length_drop]; omega)
  have hreserved : b.drop 8 = (b.drop 4).drop 4 := by rw [List.drop_drop]
  rw [toBytes, ofBytes, haddress, hsize, hreserved, List.append_assoc, List.take_append_drop,
    List.take_append_drop]

namespace TableView

open PartitionTable

/-! ## Complete tables -/

/-- A table as long as its number of entries asks for. -/
def Complete (v : TableView) : Prop := v.bytes.length = encodedSize v.entryCount.toNat

theorem encodedSize_eq (count : Nat) : encodedSize count = 36 + 64 * count := by
  rw [encodedSize, headerSize, entrySize, trailerSize]
  omega

theorem headerSize_le_encodedSize (count : Nat) : headerSize ≤ encodedSize count := by
  rw [encodedSize]
  omega

theorem Complete.headerSize_le {v : TableView} (h : v.Complete) : headerSize ≤ v.bytes.length :=
  h ▸ headerSize_le_encodedSize _

/-- **A table is found where a complete one starts the byte string.** -/
theorem parse?_eq_some_iff {b : Bytes} {v : TableView} :
    parse? b = some v ↔ v.Complete ∧ v.bytes <+: b := by
  have hpos : 0 < headerSize := by decide
  constructor
  · intro h
    simp only [parse?, Option.bind_eq_bind, Option.bind_eq_some_iff, Bytes.slice?_eq_some_iff,
      Nat.zero_add, List.drop_zero] at h
    obtain ⟨_, ⟨-, rfl⟩, _, ⟨hlong, rfl⟩, hv⟩ := h
    cases hv
    rw [Bytes.headD_take hpos] at hlong ⊢
    refine ⟨?_, List.take_prefix ..⟩
    have hsize := Nat.lt_of_lt_of_le hpos (headerSize_le_encodedSize (b.headD 0).toNat)
    show (b.take _).length = encodedSize ((b.take _).headD 0).toNat
    rw [Bytes.headD_take hsize, List.length_take_of_le hlong]
  · rintro ⟨hcomplete, rest, rfl⟩
    have hlong := hcomplete.headerSize_le
    have hheader : (v.bytes ++ rest).slice? 0 headerSize = some (v.bytes.take headerSize) := by
      rw [Bytes.slice?_eq_some_iff, List.drop_zero, List.take_append_of_le_length hlong]
      exact ⟨by rw [List.length_append]; omega, rfl⟩
    have hbytes : (v.bytes ++ rest).slice? 0 (encodedSize v.entryCount.toNat) = some v.bytes := by
      rw [← hcomplete, Bytes.slice?_zero_append]
    rw [entryCount] at hbytes
    rw [parse?, hheader, Option.bind_eq_bind, Option.bind_some, Bytes.headD_take hpos, hbytes]
    rfl

theorem length_entries (v : TableView) : v.entries.length = v.entryCount.toNat := by
  rw [entries, List.length_map, Bytes.length_chunks]

namespace Complete

variable {v : TableView} (h : v.Complete)
include h

theorem length_content : v.content.length = headerSize + entrySize * v.entryCount.toNat := by
  rw [content, List.length_take_of_le (Nat.sub_le ..), h, encodedSize, Nat.add_sub_cancel]

/-- A table is its content and its checksum. -/
theorem bytes_eq : v.bytes = v.content ++ Bytes.ofWord v.checksum := by
  have hlast : (v.bytes.drop (v.bytes.length - trailerSize)).length = 4 := by
    rw [List.length_drop, h, encodedSize, trailerSize]
    omega
  rw [TableView.checksum, Bytes.ofWord_toWord (Nat.le_of_eq hlast.symm),
    List.take_of_length_le (Nat.le_of_eq hlast), content, List.take_append_drop]

theorem header_eq : v.bytes.take headerSize = v.entryCount :: v.reserved := by
  have hhead : (v.bytes.take headerSize).headD 0 = v.entryCount := Bytes.headD_take (by decide)
  have hlong : (v.bytes.take headerSize).length = headerSize :=
    List.length_take_of_le h.headerSize_le
  rw [reserved]
  cases hcons : v.bytes.take headerSize with
  | nil =>
    rw [hcons] at hlong
    cases hlong
  | cons x rest =>
    rw [hcons] at hhead
    rw [← hhead]
    rfl

theorem flatMap_entries : v.entries.flatMap TableEntry.toBytes =
    (v.bytes.drop headerSize).take (entrySize * v.entryCount.toNat) := by
  have hbody : entrySize * v.entryCount.toNat ≤ (v.bytes.drop headerSize).length := by
    rw [List.length_drop, h, encodedSize]
    omega
  have hpieces : ∀ piece ∈ Bytes.chunks entrySize v.entryCount.toNat (v.bytes.drop headerSize),
      (TableEntry.ofBytes piece).toBytes = piece := by
    intro piece hpiece
    refine TableEntry.toBytes_ofBytes ?_
    rw [Bytes.length_of_mem_chunks hbody hpiece]
    decide
  rw [entries, List.flatMap_map, List.flatMap_def, List.map_congr_left hpieces, List.map_id',
    Bytes.flatten_chunks]

/-- **The content of a table** is its number of entries, its reserved bytes and its entries. -/
theorem content_eq :
    v.content = v.entryCount :: v.reserved ++ v.entries.flatMap TableEntry.toBytes := by
  rw [content, h, encodedSize, Nat.add_sub_cancel, List.take_add, h.header_eq, h.flatMap_entries]

end Complete

/-! ## Tables -/

/-- The table of a view, as it is read. -/
def table (v : TableView) : PartitionTable :=
  ⟨v.entries.map fun e => .present "" e.address e.size, v.checksum, v.bytes⟩

/-- **A complete table is accepted if it carries the checksum of its content**, whatever
    follows it. -/
theorem Complete.parse_append {v : TableView} (h : v.Complete) (rest : Bytes) :
    PartitionTable.parse (v.bytes ++ rest) =
      if v.checksum = crc32 v.content then .ok v.table
      else .error (.checksumMismatch v.checksum (crc32 v.content)) := by
  rw [PartitionTable.parse, parse?_eq_some_iff.2 ⟨h, List.prefix_append ..⟩]
  dsimp only
  by_cases hsum : v.checksum = crc32 v.content
  · rw [if_neg (not_not_intro hsum), if_pos hsum, table, hsum]
  · rw [if_pos hsum, if_neg hsum]

/-- A complete table with nothing behind it. -/
theorem Complete.parse_bytes {v : TableView} (h : v.Complete) :
    PartitionTable.parse v.bytes =
      if v.checksum = crc32 v.content then .ok v.table
      else .error (.checksumMismatch v.checksum (crc32 v.content)) := by
  have halone := h.parse_append []
  rwa [List.append_nil] at halone

end TableView

/-- **What is accepted** is a complete table that carries the checksum of its content. -/
theorem PartitionTable.parse_eq_ok_iff {b : Bytes} {t : PartitionTable} :
    parse b = .ok t ↔ ∃ v : TableView, v.Complete ∧ v.bytes <+: b ∧
      v.checksum = crc32 v.content ∧ t = v.table := by
  constructor
  · intro h
    cases hview : TableView.parse? b with
    | none =>
      rw [parse, hview] at h
      cases h
    | some v =>
      obtain ⟨hcomplete, rest, rfl⟩ := TableView.parse?_eq_some_iff.1 hview
      rw [hcomplete.parse_append] at h
      split_ifs at h with hsum
      cases h
      exact ⟨v, hcomplete, List.prefix_append .., hsum, rfl⟩
  · rintro ⟨v, hcomplete, ⟨rest, rfl⟩, hsum, rfl⟩
    rw [hcomplete.parse_append, if_pos hsum]

end BootSeal
