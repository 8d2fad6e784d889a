/-
  BootSeal — a partition table is read back from its bytes.

  * `TableView.ofContent` is a table with any checksum; it is complete
    (`TableView.complete_ofContent`), and its content, its checksum and its entries are those
    it is made of;
  * `PartitionTable.build_eq_ok`: what a table that could be built holds, which is one of up
    to 255 present partitions (`PartitionTable.exists_build_iff`);
  * `PartitionTable.parse_build_append`: it is parsed with its own bytes and checksum,
    and with the addresses and sizes of its entries;
  * `Image.Canonical.partitionTable_of_build`: and so it is where an image holds its
    bytes.
-/
import BootSeal.Proofs.Image.Read
import BootSeal.Proofs.Partition.View
import BootSeal.Proofs.Result

namespace BootSeal

/-! ## Parts -/

theorem TableEntry.ofBytes_entryBytes (address size : UInt32) :
    TableEntry.ofBytes (PartitionTable.entryBytes address size) =
      ⟨address, size, List.replicate 56 0⟩ := by
  have hlen : ∀ w, (Bytes.ofWord w).length = 4 := Bytes.length_ofWord
  rw [TableEntry.ofBytes, PartitionTable.entryBytes, List.append_assoc,
    Bytes.toWord_ofWord_append, List.drop_left' (hlen _), Bytes.toWord_ofWord_append,
    ← List.append_assoc, List.drop_left' (by rw [List.length_append, hlen, hlen])]

namespace PartitionTable

theorem length_entryBytes (address size : UInt32) :
    (entryBytes address size).length = entrySize := by
  simp [entryBytes, entrySize]

theorem length_header (count : UInt8) : (header count).length = headerSize := by
  simp [header, headerSize]

theorem length_contentOf (entries : List PartitionEntry) :
    (contentOf entries).length + trailerSize = encodedSize entries.length := by
  rw [contentOf, List.length_append, length_header,
    Bytes.length_flatMap fun e : PartitionEntry => length_entryBytes e.address e.size, encodedSize]

end PartitionTable

namespace TableView

open PartitionTable

variable {entries : List PartitionEntry} (h : entries.length ≤ maxEntries) (checksum : UInt32)

/-- The table of some entries, with any checksum. -/
def ofContent (entries : List PartitionEntry) (checksum : UInt32) : TableView :=
  ⟨contentOf entries ++ Bytes.ofWord checksum⟩

theorem length_ofContent :
    (ofContent entries checksum).bytes.length = encodedSize entries.length := by
  rw [ofContent, List.length_append, Bytes.length_ofWord, ← length_contentOf, trailerSize]

theorem content_ofContent : (ofContent entries checksum).content = contentOf entries := by
  rw [content, length_ofContent, ← length_contentOf, Nat.add_sub_cancel, ofContent, List.take_left]

theorem checksum_ofContent : (ofContent entries checksum).checksum = checksum := by
  rw [TableView.checksum, length_ofContent, ← length_contentOf, Nat.add_sub_cancel, ofContent,
    List.drop_left, Bytes.toWord_ofWord]

include h in
theorem entryCount_ofContent : (ofContent entries checksum).entryCount.toNat = entries.length := by
  show (UInt8.ofNat entries.length).toNat = entries.length
  exact UInt8.toNat_ofNat_of_lt' (Nat.lt_succ_of_le h)

include h in
theorem entries_ofContent : (ofContent entries checksum).entries =
    entries.map fun e => ⟨e.address, e.size, List.replicate 56 0⟩ := by
  have hbody : (ofContent entries checksum).bytes.drop headerSize =
      (entries.flatMap fun e => entryBytes e.address e.size) ++ Bytes.ofWord checksum := by
    rw [ofContent, contentOf, List.append_assoc, List.drop_left' (length_header _)]
  rw [TableView.entries, entryCount_ofContent h, hbody,
    Bytes.chunks_flatMap fun e : PartitionEntry => length_entryBytes e.address e.size, List.map_map]
  simp only [Function.comp_def, TableEntry.ofBytes_entryBytes]

include h in
/-- **The table of some entries is complete**, so that it is found whatever follows it. -/
theorem complete_ofContent : (ofContent entries checksum).Complete := by
  rw [Complete, length_ofContent, entryCount_ofContent h]

include h in
theorem table_ofContent : (ofContent entries checksum).table =
    ⟨entries.map fun e => .present "" e.address e.size, checksum,
      (ofContent entries checksum).bytes⟩ := by
  rw [table, entries_ofContent h, checksum_ofContent, List.map_map]
  rfl

end TableView

/-! ## Tables -/

namespace PartitionTable

variable {entries : List PartitionEntry} {table : PartitionTable}

/-- What a table that could be built holds. -/
theorem build_eq_ok (h : build entries = .ok table) :
    table.entries = entries.filter (·.isPresent) ∧ table.entries.length ≤ maxEntries ∧
      table.checksum = crc32 (contentOf table.entries) ∧
      table.bytes = (TableView.ofContent table.entries table.checksum).bytes := by
  rw [build] at h
  split_ifs at h with hmax
  cases h
  exact ⟨rfl, Nat.le_of_not_lt hmax, rfl, rfl⟩

/-- A table can be built of up to 255 present partitions. -/
theorem exists_build_iff :
    (∃ t, build entries = .ok t) ↔ (entries.filter (·.isPresent)).length ≤ maxEntries := by
  constructor
  · rintro ⟨t, ht⟩
    obtain ⟨hentries, hmax, -⟩ := build_eq_ok ht
    exact hentries ▸ hmax
  · intro hmax
    rw [build, if_neg (Nat.not_lt_of_le hmax)]
    exact ⟨_, rfl⟩

theorem build_fails_iff :
    (∃ e, build entries = .error e) ↔ maxEntries < (entries.filter (·.isPresent)).length := by
  rw [← Nat.not_le, ← exists_build_iff]
  cases build entries with
  | ok t => exact ⟨nofun, fun h => absurd ⟨t, rfl⟩ h⟩
  | error e => exact ⟨fun _ => nofun, fun _ => ⟨e, rfl⟩⟩

/-- A table as it is read: entries have no names. -/
def unnamed (table : PartitionTable) : PartitionTable :=
  { table with entries := table.entries.map fun e => .present "" e.address e.size }

/-- **A table is parsed back from its bytes**, whatever follows them. -/
theorem parse_build_append (h : build entries = .ok table) (rest : Bytes) :
    parse (table.bytes ++ rest) = .ok table.unnamed := by
  obtain ⟨-, hmax, hsum, hbytes⟩ := build_eq_ok h
  rw [hbytes, (TableView.complete_ofContent hmax _).parse_append, TableView.checksum_ofContent,
    TableView.content_ofContent, if_pos hsum, TableView.table_ofContent hmax, ← hbytes]
  rfl

theorem complete_of_build (h : build entries = .ok table) :
    (TableView.mk table.bytes).Complete := by
  obtain ⟨-, hmax, -, hbytes⟩ := build_eq_ok h
  rw [hbytes]
  exact TableView.complete_ofContent hmax _

theorem length_bytes_of_build (h : build entries = .ok table) :
    table.bytes.length = encodedSize (table.bytes.headD 0).toNat ∧
      headerSize ≤ table.bytes.length :=
  ⟨complete_of_build h, (complete_of_build h).headerSize_le⟩

end PartitionTable

/-- **A table is read where an image holds its bytes.** -/
theorem Image.Canonical.partitionTable_of_build {img : Image} (h : img.Canonical)
    {entries : List PartitionEntry} {table : PartitionTable}
    (hb : PartitionTable.build entries = .ok table) {a : UInt32}
    (hm : ∀ i < table.bytes.length, img.byteAt? (a.toNat + i) = table.bytes[i]?) :
    img.partitionTable a = .ok table.unnamed := by
  obtain ⟨hsize, hlong⟩ := PartitionTable.length_bytes_of_build hb
  have hpos : 0 < PartitionTable.headerSize := by decide
  have hhead : (table.bytes.take PartitionTable.headerSize).headD 0 = table.bytes.headD 0 :=
    Bytes.headD_take hpos
  have hheader := h.read?_take hpos hlong hm
  have hbytes := h.read?_take (Nat.lt_of_lt_of_le hpos hlong) (Nat.le_refl _) hm
  have hparse := PartitionTable.parse_build_append hb []
  rw [List.take_length] at hbytes
  rw [List.append_nil] at hparse
  simp only [partitionTable, hheader, hhead, ← hsize, hbytes, hparse]

end BootSeal
