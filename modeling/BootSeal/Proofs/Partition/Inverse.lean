/-
  BootSeal — tables are written and read back, and read and written again.

  * `TableView.Blank`: a table whose reserved fields are zero. Only such tables are
    written (`blank_ofContent`), and they are what their entries say
    (`Complete.contentOf_eq_iff`);
  * `PartitionTable.build_parse_inverse`: what is built is parsed with the same bytes,
    checksum and entries, whatever follows it; what is parsed is the start of its byte
    string, parsed alone with the same result, and built again of its entries exactly if
    it is blank.
-/
import BootSeal.Proofs.Partition.Table
import Mathlib.Data.List.Basic

namespace BootSeal

/-! ## Blank tables -/

namespace TableView

open PartitionTable

/-- The reserved fields of the header and of all entries are zero. -/
def Blank (v : TableView) : Prop :=
  v.reserved = List.replicate 31 0 ∧ ∀ e ∈ v.entries, e.reserved = List.replicate 56 0

theorem blank_ofContent {entries : List PartitionEntry} (h : entries.length ≤ maxEntries)
    (checksum : UInt32) : (ofContent entries checksum).Blank := by
  constructor
  · rw [reserved, ofContent, contentOf, List.append_assoc, List.take_left' (length_header _)]
    rfl
  · rw [entries_ofContent h]
    intro e he
    obtain ⟨_, -, rfl⟩ := List.mem_map.1 he
    rfl

theorem length_table_entries (v : TableView) : v.table.entries.length = v.entryCount.toNat := by
  rw [table, List.length_map, v.length_entries]

theorem length_table_entries_le (v : TableView) : v.table.entries.length ≤ maxEntries := by
  rw [v.length_table_entries]
  exact Nat.le_of_lt_succ v.entryCount.toNat_lt

/-- **A table is what its entries say** exactly if it is blank. -/
theorem Complete.contentOf_eq_iff {v : TableView} (h : v.Complete) :
    contentOf v.table.entries = v.content ↔ v.Blank := by
  constructor
  · intro heq
    -- With that content it is the very table that is written of its entries.
    have hv : v = ofContent v.table.entries v.checksum :=
      congrArg TableView.mk (by rw [heq, ← h.bytes_eq])
    rw [hv]
    exact blank_ofContent v.length_table_entries_le _
  · rintro ⟨hreserved, hentries⟩
    have hcount : UInt8.ofNat v.table.entries.length = v.entryCount := by
      rw [v.length_table_entries, UInt8.ofNat_toNat]
    have hbody : v.table.entries.flatMap (fun e => entryBytes e.address e.size) =
        v.entries.flatMap TableEntry.toBytes := by
      rw [table, List.flatMap_map]
      refine List.flatMap_congr ?_
      intro e he
      rw [TableEntry.toBytes, hentries e he]
      rfl
    rw [contentOf, hcount, hbody, h.content_eq, hreserved, header]

end TableView

/-! ## Writing and reading -/

namespace PartitionTable

/-- **A table that was read is built again** of its entries, into the bytes it was read from
    exactly if it is blank. -/
theorem exists_build_table {v : TableView} (h : v.Complete) (hsum : v.checksum = crc32 v.content) :
    ∃ t, build v.table.entries = .ok t ∧ (t.bytes = v.bytes ↔ v.Blank) := by
  have hpresent : v.table.entries.filter (·.isPresent) = v.table.entries := by
    rw [TableView.table, List.filter_eq_self]
    intro e he
    obtain ⟨_, -, rfl⟩ := List.mem_map.1 he
    rfl
  have hlen := v.length_table_entries_le
  rw [← hpresent] at hlen
  obtain ⟨t, ht⟩ := exists_build_iff.2 hlen
  obtain ⟨hentries, -, hcrc, hbytes⟩ := build_eq_ok ht
  rw [hpresent] at hentries
  refine ⟨t, ht, ?_⟩
  rw [← h.contentOf_eq_iff, hbytes, TableView.ofContent, h.bytes_eq, hcrc, hsum, hentries]
  constructor
  · intro heq
    -- The contents are of one length, so they end at the same place.
    refine (List.append_inj heq ?_).1
    have hcontent := length_contentOf v.table.entries
    rw [v.length_table_entries] at hcontent
    rw [h.length_content]
    exact Nat.add_right_cancel hcontent
  · intro heq
    rw [heq]

/-- **Writing and reading a table are inverse.** A table is built unless more than 255
    partitions are present, and is then parsed with its bytes, its checksum and its entries,
    whatever follows it. What is parsed is as long as the first byte asks for and carries the
    checksum of all but its last four bytes; alone it is parsed with the same result, and its
    entries are built into the same bytes exactly if the reserved ones are zero. -/
theorem build_parse_inverse (entries : List PartitionEntry) (b suffix : Bytes) :
    ((∃ e, build entries = .error e) ↔ 255 < (entries.filter (·.isPresent)).length) ∧
    (∀ t, build entries = .ok t → ∃ t', parse (t.bytes ++ suffix) = .ok t' ∧
      t'.bytes = t.bytes ∧ t'.checksum = t.checksum ∧
      t'.entries.map (fun e => (e.address, e.size)) =
        (entries.filter (·.isPresent)).map fun e => (e.address, e.size)) ∧
    (∀ t, parse b = .ok t → ∃ count, b.head? = some count ∧
      t.bytes = b.take (36 + 64 * count.toNat) ∧ t.bytes.length = 36 + 64 * count.toNat ∧
      t.entries.length = count.toNat ∧
      t.checksum = crc32 (t.bytes.take (t.bytes.length - 4)) ∧
      t.checksum = Bytes.toWord (t.bytes.drop (t.bytes.length - 4)) ∧
      parse t.bytes = .ok t ∧
      ∃ t', build t.entries = .ok t' ∧ (t'.bytes = t.bytes ↔ (TableView.mk t.bytes).Blank)) := by
  refine ⟨build_fails_iff, ?_, ?_⟩
  · intro t ht
    obtain ⟨hentries, -⟩ := build_eq_ok ht
    refine ⟨t.unnamed, parse_build_append ht suffix, rfl, rfl, ?_⟩
    rw [unnamed, List.map_map, hentries]
    rfl
  · intro t ht
    obtain ⟨v, hcomplete, ⟨rest, rfl⟩, hsum, rfl⟩ := parse_eq_ok_iff.1 ht
    have hlen : v.bytes.length = 36 + 64 * v.entryCount.toNat := by
      rw [hcomplete, TableView.encodedSize_eq]
    have halone := hcomplete.parse_append []
    rw [List.append_nil, if_pos hsum] at halone
    refine ⟨v.entryCount, ?_, ?_, hlen, v.length_table_entries, hsum, rfl, halone,
      exists_build_table hcomplete hsum⟩
    · rw [hcomplete.bytes_eq, hcomplete.content_eq]
      rfl
    · rw [← hlen, List.take_left]
      rfl

end PartitionTable

namespace MarkedTable

/-- A layout with one present partition. -/
def entries : List PartitionEntry :=
  [.absent "softdevice", .present "firmware_loader" 0x1000 0x2000]

/-- The content of the table of that partition, but for a reserved byte of its entry. -/
def content : Bytes :=
  PartitionTable.header 1 ++ Bytes.ofWord 0x1000 ++ Bytes.ofWord 0x2000 ++ 7 :: List.replicate 55 0

/-- The marked table with its checksum. -/
def view : TableView := ⟨content ++ Bytes.ofWord (crc32 content)⟩

/-- The partition is read back from its table. The marked table is read as well, but what
    is built of its entries is another one. -/
theorem built_otherwise :
    (∃ t t', PartitionTable.build entries = .ok t ∧
      PartitionTable.parse (t.bytes ++ [0xff]) = .ok t' ∧ t'.bytes = t.bytes ∧
      t'.entries.map (fun e => (e.address, e.size)) = [(0x1000, 0x2000)]) ∧
    ∃ t t', PartitionTable.parse (view.bytes ++ [0xff]) = .ok t ∧ t.bytes = view.bytes ∧
      PartitionTable.build t.entries = .ok t' ∧ t'.bytes ≠ t.bytes := by
  obtain ⟨-, hbuilt, hread⟩ :=
    PartitionTable.build_parse_inverse entries (view.bytes ++ [0xff]) [0xff]
  constructor
  · have hmax : (entries.filter (·.isPresent)).length ≤ PartitionTable.maxEntries := by decide
    obtain ⟨t, ht⟩ := PartitionTable.exists_build_iff.2 hmax
    obtain ⟨t', hparse, hsame, -, hentries⟩ := hbuilt t ht
    exact ⟨t, t', ht, hparse, hsame, hentries⟩
  · have hcomplete : view.Complete := rfl
    have hsum : view.checksum = crc32 view.content := Bytes.toWord_ofWord (crc32 content)
    have hparse := hcomplete.parse_append [0xff]
    rw [if_pos hsum] at hparse
    obtain ⟨-, -, -, -, -, -, -, -, t', ht', hsame⟩ := hread view.table hparse
    refine ⟨view.table, t', hparse, rfl, ht', mt hsame.1 ?_⟩
    rintro ⟨-, hentries⟩
    have hmarked := hentries ⟨0x1000, 0x2000, 7 :: List.replicate 55 0⟩ List.mem_cons_self
    exact absurd hmarked (by decide)

end MarkedTable

end BootSeal
