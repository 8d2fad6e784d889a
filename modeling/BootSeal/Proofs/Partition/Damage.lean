/-
  BootSeal — a damaged partition table is refused.

  * `TableView.Complete.parse_burst`: a table that carries the checksum of its content is
    damaged by a burst that leaves its number of entries alone. It keeps its length, so that
    it is found again, and is refused with the two checksums;
  * `PartitionTable.burst_detected`: so is every table that was built.
-/
import BootSeal.Proofs.Hash.Crc32
import BootSeal.Proofs.Partition.Table

namespace BootSeal

open PartitionTable

/-- **A burst is noticed** in any table that was good, be it in the reserved bytes, the
    entries or the checksum itself. -/
theorem TableView.Complete.parse_burst {v : TableView} (h : v.Complete)
    (hsum : v.checksum = crc32 v.content) {damaged : TableView} {first : Nat}
    (hburst : Bytes.Burst damaged.bytes v.bytes first)
    (hcount : damaged.entryCount = v.entryCount) (rest : Bytes) :
    parse (damaged.bytes ++ rest) =
      .error (.checksumMismatch damaged.checksum (crc32 damaged.content)) := by
  have hcomplete : damaged.Complete := by
    rw [Complete, hburst.length_eq, h, hcount]
  have hne : crc32 damaged.content ≠ damaged.checksum := by
    rw [hcomplete.bytes_eq, h.bytes_eq, hsum] at hburst
    exact crc32_ne_of_burst hburst
  rw [hcomplete.parse_append, if_neg hne.symm]

/-- **Every short burst of damage is detected.** A table can be built of up to 255 present
    partitions. Bytes of its length with the same first byte, whose other bits differ from its
    own in at least one place and only within 32 in a row, are refused with the checksum they
    end in and the one of what stands before it, whatever follows them. -/
theorem PartitionTable.burst_detected {entries : List PartitionEntry}
    (hmax : (entries.filter (·.isPresent)).length ≤ 255) :
    ∃ table, build entries = .ok table ∧ ∀ (damaged : Bytes) (first : Nat) (suffix : Bytes),
      Bytes.Burst damaged table.bytes first → damaged.head? = table.bytes.head? →
        parse (damaged ++ suffix) = .error (.checksumMismatch
          (Bytes.toWord (damaged.drop (damaged.length - 4)))
          (crc32 (damaged.take (damaged.length - 4)))) := by
  obtain ⟨table, htable⟩ := exists_build_iff.2 hmax
  -- What was built is read, and so it is a good table.
  obtain ⟨v, hcomplete, -, hsum, hread⟩ := parse_eq_ok_iff.1 (parse_build_append htable [])
  have hbytes : table.bytes = v.bytes := congrArg PartitionTable.bytes hread
  refine ⟨table, htable, ?_⟩
  intro damaged first suffix hburst hhead
  rw [hbytes] at hburst hhead
  have hcount : (TableView.mk damaged).entryCount = v.entryCount := by
    rw [TableView.entryCount, TableView.entryCount, List.headD_eq_head?_getD, hhead,
      List.headD_eq_head?_getD]
  exact hcomplete.parse_burst hsum hburst hcount suffix

namespace TornTable

/-- A layout with one partition. -/
def entries : List PartitionEntry := [.present "firmware_loader" 0x1000 0x2000]

/-- The bytes of its table up to the last one of the entry. -/
def start : Bytes :=
  header 1 ++ (Bytes.ofWord 0x1000 ++ (Bytes.ofWord 0x2000 ++ List.replicate 55 0))

/-- The rest of it: the last byte of the entry, and the checksum. -/
def tail : Bytes := 0 :: Bytes.ofWord 0x2a79d6c1

/-- The rest with the last bit of the entry and the last but one of the checksum flipped,
    which are 32 bits apart. -/
def torn : Bytes := 0x80 :: Bytes.ofWord 0x6a79d6c1

theorem crc32_content : crc32 (contentOf entries) = 0x2a79d6c1 := by
  -- In three parts, as the register of a long byte string is too deep a term to evaluate.
  have hparts : contentOf entries =
      header 1 ++ ((entryBytes 0x1000 0x2000).take 32 ++ List.replicate 32 0) := rfl
  have hheader : Crc32.run 0xffffffff (header 1) = 0x172faff8 := by decide +kernel
  have hmiddle : Crc32.run 0x172faff8 ((entryBytes 0x1000 0x2000).take 32) = 0x57d06ae6 := by
    decide +kernel
  have hlast : Crc32.run 0x57d06ae6 (List.replicate 32 0) = ~~~0x2a79d6c1 := by decide +kernel
  rw [crc32, hparts, Crc32.run_append, Crc32.run_append, hheader, hmiddle, hlast, UInt32.not_not]

theorem burst : Bytes.Burst torn tail 7 := by
  refine ⟨rfl, by decide, ?_⟩
  intro i hi
  by_cases hlong : i < 40
  · have hbits : ∀ i < 40, torn.bits[i]? ≠ tail.bits[i]? → 7 ≤ i ∧ i < 7 + 32 := by decide
    exact hbits i hlong hi
  · have hlen : torn.bits.length = 40 ∧ tail.bits.length = 40 := ⟨rfl, rfl⟩
    rw [List.getElem?_eq_none (by omega), List.getElem?_eq_none (by omega)] at hi
    exact absurd rfl hi

/-- The table is refused when the end of its entry and its checksum are damaged at once. -/
theorem torn_refused :
    ∃ table computed, build entries = .ok table ∧ table.bytes = start ++ tail ∧
      parse (start ++ torn ++ [0xff]) = .error (.checksumMismatch 0x6a79d6c1 computed) := by
  have hmax : (entries.filter (·.isPresent)).length ≤ 255 := by decide
  obtain ⟨table, htable, hdetected⟩ := burst_detected hmax
  obtain ⟨hentries, -, hsum, hbytes⟩ := build_eq_ok htable
  have hcontent : contentOf table.entries = contentOf entries := by rw [hentries]; rfl
  have hparts : table.bytes = start ++ tail := by
    rw [hbytes, TableView.ofContent, hsum, hcontent, crc32_content]
    rfl
  have hburst := burst.append_left start
  rw [← hparts] at hburst
  refine ⟨table, _, htable, hparts, hdetected _ _ [0xff] hburst ?_⟩
  rw [hparts]
  rfl

end TornTable

end BootSeal
