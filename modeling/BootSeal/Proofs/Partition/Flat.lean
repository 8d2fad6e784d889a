/-
  BootSeal — a partition table in an image and in the flat bytes of that image.

  * `Image.HoldsTable`: the image occupies the header of a table and as many bytes as the
    number of entries in it asks for;
  * `TableView.Complete.parse_prefix`: a table is parsed alike whatever follows it;
  * `Image.partitionTable_flat`: so the table of an address is the one of the flat bytes
    from there on, though the one is read in two ranges and the other is told by its start
    alone.
-/
import BootSeal.Proofs.Image.Exact
import BootSeal.Proofs.Partition.Table

namespace BootSeal

namespace TableView.Complete

variable {v : TableView} (h : v.Complete)
include h

theorem parse_prefix {b : Bytes} (hb : v.bytes <+: b) :
    PartitionTable.parse b = PartitionTable.parse v.bytes := by
  obtain ⟨rest, rfl⟩ := hb
  rw [h.parse_append, h.parse_bytes]

/-- A table of full length is accepted, or refused for its checksum. -/
theorem parse_cases : (∃ t, PartitionTable.parse v.bytes = .ok t) ∨
    ∃ stored computed, PartitionTable.parse v.bytes = .error (.checksumMismatch stored computed) := by
  rw [h.parse_bytes]
  split_ifs
  · exact Or.inl ⟨_, rfl⟩
  · exact Or.inr ⟨_, _, rfl⟩

end TableView.Complete

namespace Image

/-- The image occupies the header of a table, and as many bytes as a table has whose number
    of entries is the first one. -/
def HoldsTable (img : Image) (a : UInt32) : Prop :=
  (∀ i < 32, img.Occupied (a.toNat + i)) ∧
    ∀ count, img.byteAt? a.toNat = some count →
      ∀ i < 36 + 64 * count.toNat, img.Occupied (a.toNat + i)

namespace Canonical

variable {img : Image} (h : img.Canonical)
include h

/-- What is read begins with the byte of its address. -/
theorem byteAt?_of_read?_head {a : UInt32} {n : Nat} (hn : 0 < n) {bytes : Bytes}
    (hr : img.read? a n = some bytes) : img.byteAt? a.toNat = some (bytes.headD 0) := by
  obtain ⟨rfl, hbytes⟩ := h.byteAt?_of_read? hr
  have hfirst := hbytes 0 hn
  rw [Nat.add_zero, List.getElem?_eq_getElem hn] at hfirst
  rw [hfirst, List.headD_eq_head?_getD, List.head?_eq_getElem?, List.getElem?_eq_getElem hn,
    Option.getD_some]

section
variable {a : UInt32} {header : Bytes}
  (hheader : img.read? a PartitionTable.headerSize = some header)
include hheader

/-- The table of a header is as long as its first byte asks for. -/
theorem complete_of_read? {bytes : Bytes}
    (hbytes : img.read? a (PartitionTable.encodedSize (header.headD 0).toNat) = some bytes) :
    (TableView.mk bytes).Complete := by
  have hpos : 0 < PartitionTable.encodedSize (header.headD 0).toNat :=
    Nat.lt_of_lt_of_le (by decide) (TableView.headerSize_le_encodedSize _)
  have hfirst := h.byteAt?_of_read?_head (by decide) hheader
  have hsame := h.byteAt?_of_read?_head hpos hbytes
  rw [hfirst, Option.some_inj] at hsame
  rw [TableView.Complete, TableView.entryCount, ← hsame, (h.byteAt?_of_read? hbytes).1]

theorem holdsTable_iff : img.HoldsTable a ↔
    ∃ bytes, img.read? a (PartitionTable.encodedSize (header.headD 0).toNat) = some bytes := by
  have hfirst := h.byteAt?_of_read?_head (by decide) hheader
  rw [TableView.encodedSize_eq, h.exists_read?_iff (by omega), HoldsTable, hfirst]
  constructor
  · rintro ⟨-, ht⟩
    exact ht _ rfl
  · rintro ht
    refine ⟨h.occupied_of_read? hheader, ?_⟩
    rintro count ⟨⟩
    exact ht

end

/-- A table that is there is read whole, as its header tells. -/
theorem read?_table {a : UInt32} (ht : img.HoldsTable a) : ∃ v : TableView, v.Complete ∧
    img.read? a v.bytes.length = some v.bytes ∧
    img.partitionTable a = PartitionTable.parse v.bytes := by
  obtain ⟨header, hheader⟩ := (h.exists_read?_iff (n := PartitionTable.headerSize) (by decide)).2 ht.1
  obtain ⟨bytes, hbytes⟩ := (h.holdsTable_iff hheader).1 ht
  refine ⟨⟨bytes⟩, h.complete_of_read? hheader hbytes, ?_, ?_⟩
  · rwa [(h.byteAt?_of_read? hbytes).1]
  · simp only [partitionTable, hheader, hbytes]

/-- Of a table that is not there, either the header or the rest is missed. -/
theorem partitionTable_of_not_holdsTable {a : UInt32} (ht : ¬ img.HoldsTable a) :
    img.partitionTable a = .error (.parse PartitionTable.source (.noTableHeader a)) ∨
      ∃ size, img.partitionTable a =
        .error (.parse PartitionTable.source (.truncatedTable a size)) := by
  cases hheader : img.read? a PartitionTable.headerSize with
  | none =>
    left
    simp only [partitionTable, hheader]
  | some header =>
    right
    rw [h.holdsTable_iff hheader, ← Option.ne_none_iff_exists', not_not] at ht
    refine ⟨PartitionTable.encodedSize (header.headD 0).toNat, ?_⟩
    simp only [partitionTable, hheader, ht]

/-- **A table that is there is parsed from the flat bytes** from its address on, and is
    accepted or refused for its checksum. -/
theorem partitionTable_of_holdsTable {a : UInt32} (ht : img.HoldsTable a) :
    ∃ base, img.minAddress? = some base ∧ base.toNat ≤ a.toNat ∧
      img.partitionTable a = PartitionTable.parse (img.flatten.drop (a.toNat - base.toNat)) ∧
      ((∃ t, img.partitionTable a = .ok t) ∨ ∃ stored computed,
        img.partitionTable a = .error (.checksumMismatch stored computed)) := by
  obtain ⟨v, hcomplete, hread, hparse⟩ := h.read?_table ht
  have hpos : 0 < v.bytes.length := Nat.lt_of_lt_of_le (by decide) hcomplete.headerSize_le
  obtain ⟨base, hbase, hle, hprefix⟩ := h.prefix_flatten_of_read? hpos hread
  rw [hparse]
  exact ⟨base, hbase, hle, (hcomplete.parse_prefix hprefix).symm, hcomplete.parse_cases⟩

end Canonical

/-- **The table of an address is that of the flat bytes from there on.** Reading it at an
    address of an image fails to find one exactly if the image does not occupy all of its
    header, or not all of the bytes that its first one asks for. Otherwise it gives what the
    flat bytes give from the distance to the lowest address on, whatever follows the table in
    them: the table, or the two checksums. So the parser is never given too few bytes. -/
theorem partitionTable_flat {img : Image} (h : img.Reachable) (a : UInt32) :
    ((∃ source cause, img.partitionTable a = .error (.parse source cause)) ↔
      ¬ img.HoldsTable a) ∧
    (img.HoldsTable a → ∃ base, img.minAddress? = some base ∧ base.toNat ≤ a.toNat ∧
      img.partitionTable a = PartitionTable.parse (img.flatten.drop (a.toNat - base.toNat)) ∧
      ((∃ t, img.partitionTable a = .ok t) ∨ ∃ stored computed,
        img.partitionTable a = .error (.checksumMismatch stored computed))) ∧
    ∀ source n, img.partitionTable a ≠ .error (.parse source (.shortTable n)) := by
  have hc := h.canonical
  by_cases ht : img.HoldsTable a
  · obtain ⟨base, hbase, hle, hflat, hcases⟩ := hc.partitionTable_of_holdsTable ht
    have hfound : ∀ source cause, img.partitionTable a ≠ .error (.parse source cause) := by
      intro source cause herror
      rw [herror] at hcases
      rcases hcases with ⟨t, ⟨⟩⟩ | ⟨stored, computed, ⟨⟩⟩
    refine ⟨⟨?_, fun hno => absurd ht hno⟩, fun _ => ⟨base, hbase, hle, hflat, hcases⟩, ?_⟩
    · rintro ⟨source, cause, herror⟩
      exact absurd herror (hfound source cause)
    · exact fun source n => hfound source _
  · refine ⟨⟨fun _ => ht, fun _ => ?_⟩, fun hyes => absurd hyes ht, ?_⟩
    · rcases hc.partitionTable_of_not_holdsTable ht with herror | ⟨size, herror⟩
      · exact ⟨_, _, herror⟩
      · exact ⟨_, _, herror⟩
    · rintro source n hshort
      rcases hc.partitionTable_of_not_holdsTable ht with herror | ⟨size, herror⟩
      · rw [herror] at hshort
        cases hshort
      · rw [herror] at hshort
        cases hshort

/-- A table that came last and joins two runs, above another run. From the byte before it on
    there are too few bytes for the table that this one asks for. -/
theorem partitionTable_flat_joined :
    let entry := PartitionEntry.present "app" 0x8000 0x1000
    let content := PartitionTable.contentOf [entry]
    let table : PartitionTable := ⟨[entry], crc32 content, content ++ Bytes.ofWord (crc32 content)⟩
    let img := empty.after
      [.insert 0x10 [5], .insert 0x3e [1, 2], .insert 0xa4 [6], .insert 0x40 table.bytes]
    img.Reachable ∧ img.HoldsTable 0x40 ∧
      PartitionTable.parse (img.flatten.drop 0x30) = .ok table.unnamed ∧
      ¬ img.HoldsTable 0x3f ∧ ∃ source cause, img.partitionTable 0x3f = .error (.parse source cause) := by
  intro entry content table img
  have h : img.Reachable := ⟨_, rfl⟩
  have hbuild : PartitionTable.build [entry] = .ok table := rfl
  have hinsert : (empty.after [.insert 0x10 [5], .insert 0x3e [1, 2], .insert 0xa4 [6]]).insert 0x40
      table.bytes = .ok img := rfl
  have ht : img.partitionTable 0x40 = .ok table.unnamed := by
    refine h.canonical.partitionTable_of_build hbuild ?_
    intro i hi
    rw [byteAt?_insert hinsert, if_pos (by omega), Nat.add_sub_cancel_left]
  obtain ⟨hfound, hflat, -⟩ := partitionTable_flat h 0x40
  have hholds : img.HoldsTable 0x40 := by
    by_contra hno
    obtain ⟨source, cause, herror⟩ := hfound.2 hno
    rw [ht] at herror
    cases herror
  obtain ⟨base, hbase, -, hparse, -⟩ := hflat hholds
  have hlow : img.minAddress? = some 0x10 := rfl
  rw [hlow, Option.some_inj] at hbase
  subst hbase
  have hshort : ¬ img.HoldsTable 0x3f := by
    rintro ⟨-, hall⟩
    have hlen : table.bytes.length = 0x64 := rfl
    have hcount : img.byteAt? 0x3f = some 2 := by
      rw [byteAt?_insert hinsert, hlen, if_neg (by decide)]
      rfl
    have hend : img.byteAt? 0xa5 = none := by
      rw [byteAt?_insert hinsert, hlen, if_neg (by decide)]
      rfl
    have hlast : img.Occupied 0xa5 := hall 2 hcount 0x66 (by decide)
    rw [Occupied, hend] at hlast
    cases hlast
  exact ⟨h, hholds, hparse.symm.trans ht, hshort, (partitionTable_flat h 0x3f).1.2 hshort⟩

end Image

end BootSeal
