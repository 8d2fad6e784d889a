/-
  BootSeal — a partition table that was written to a file is valid there.

  * `PlacedTable.ofLayout_eq_ok`: the image of a placed table is its bytes at its
    address and nothing else;
  * `FileTree.writeTable_verifies`: the file holds that image, in which the table is
    read with the entries of the layout; and where no table is written, no file is
    touched.
-/
import BootSeal.Files.Artifacts
import BootSeal.Proofs.Files.Artifacts
import BootSeal.Proofs.Partition.Table

namespace BootSeal

variable {layout : PartitionLayout} {placement : TablePlacement} {placed : PlacedTable}

theorem PlacedTable.ofLayout_eq_ok (h : PlacedTable.ofLayout layout placement = .ok placed) :
    placement.resolve layout = .ok placed.address ∧
      PartitionTable.build layout.entries = .ok placed.table ∧
      Image.empty.insert placed.address placed.table.bytes = .ok placed.image := by
  obtain ⟨address, hplace, h⟩ := bind_eq_ok.1 h
  obtain ⟨table, hbuild, h⟩ := bind_eq_ok.1 h
  obtain ⟨image, himage, h⟩ := bind_eq_ok.1 h
  cases h
  refine ⟨hplace, hbuild, ?_⟩
  rw [Image.ofBytes] at himage
  cases hi : Image.empty.insert address table.bytes with
  | ok img => rw [hi] at himage; cases himage; rfl
  | error => rw [hi] at himage; cases himage

theorem Image.segments_of_insert_empty {img : Image} {a : UInt32} {d : Bytes} (hd : d ≠ [])
    (h : Image.empty.insert a d = .ok img) : img.segments = [.ofBytes a d] := by
  have hi := insert_insertion empty a d
  rw [h] at hi
  cases hi with
  | nothing hnil => exact absurd hnil hd
  | placed => rfl

namespace FileTree

variable {t t' : FileTree} {path : String}

theorem writeTable_eq_ok (h : t.writeTable layout placement path = (t', .ok placed)) :
    PlacedTable.ofLayout layout placement = .ok placed ∧
      t.writeHex path placed.image = (t', .ok ()) := by
  rw [writeTable] at h
  split at h
  · cases h
  · next placed' hplaced =>
    split at h
    · next t₁ hwrite =>
      cases h
      exact ⟨hplaced, hwrite⟩
    · cases h

theorem writeTable_eq_error {e : Error}
    (h : t.writeTable layout placement path = (t', .error e)) : t'.Same t := by
  rw [writeTable] at h
  split at h
  · cases h
    exact Same.refl _
  · split at h
    · cases h
    · next hwrite =>
      cases h
      exact writeHex_eq_error hwrite

/-- **A table is valid where it was written.** It stands at its place in the layout: the
    text of the file gives an image that holds the bytes of the table there and nothing
    else. The table that is read there has these bytes and this checksum, and its entries
    are those of the layout that are present, in order. If no table is written, all files
    are as they were. -/
theorem writeTable_verifies (t : FileTree) (layout : PartitionLayout) (placement : TablePlacement)
    (path : String) :
    (∀ t' placed, t.writeTable layout placement path = (t', .ok placed) →
      placement.resolve layout = .ok placed.address ∧
      ∃ text img table, t'.readText path = .ok text ∧ IntelHex.read text = .ok img ∧
        img.segments = [.ofBytes placed.address placed.table.bytes] ∧
        img.partitionTable placed.address = .ok table ∧
        table.bytes = placed.table.bytes ∧ table.checksum = placed.table.checksum ∧
        table.entries.map (fun e => (e.address, e.size)) =
          layout.presentEntries.map fun e => (e.address, e.size)) ∧
    ∀ t' e, t.writeTable layout placement path = (t', .error e) →
      (∀ l, t'.entry? l = t.entry? l) ∧ t'.working = t.working := by
  refine ⟨fun t' placed h => ?_, fun t' e h => ?_⟩
  · obtain ⟨hplaced, hwrite⟩ := writeTable_eq_ok h
    obtain ⟨hplace, hbuild, hinsert⟩ := PlacedTable.ofLayout_eq_ok hplaced
    obtain ⟨hentries, -⟩ := PartitionTable.build_eq_ok hbuild
    have hc := Image.canonical_empty.insert hinsert
    obtain ⟨text, htext, hread⟩ := writeHex_eq_ok hc hwrite
    have hlong := (PartitionTable.length_bytes_of_build hbuild).2
    have hd : placed.table.bytes ≠ [] := List.ne_nil_of_length_pos
      (Nat.lt_of_lt_of_le (by decide) hlong)
    have htable := hc.partitionTable_of_build hbuild (a := placed.address) fun i hi => by
      rw [Image.byteAt?_insert hinsert, if_pos (by omega), Nat.add_sub_cancel_left]
    refine ⟨hplace, text, placed.image, _, htext, hread, Image.segments_of_insert_empty hd hinsert,
      htable, rfl, rfl, ?_⟩
    rw [PartitionTable.unnamed, List.map_map, hentries]
    rfl
  · have hs := writeTable_eq_error h
    exact ⟨hs.entry?, hs.working⟩

/-- A table across a page boundary, without the partition that is absent, and none where
    the place after the installer is not known. -/
theorem writeTable_across_pages :
    let t : FileTree := ⟨[], [(["table.hex"], .file [0])]⟩
    let layout : PartitionLayout :=
      ⟨[.present "a" 0x8f000 0x8000, .absent "b", .present "c" 0xfc000 0x3000], none⟩
    (∃ t' text img table, t'.readText "table.hex" = .ok text ∧ IntelHex.read text = .ok img ∧
      img.partitionTable 0xfff0 = .ok table ∧ table.entries.map (fun e => (e.address, e.size)) =
        [(0x8f000, 0x8000), (0xfc000, 0x3000)] ∧
      ∃ placed, t.writeTable layout (.fixed 0xfff0) "table.hex" = (t', .ok placed)) ∧
    ∃ t' e, t.writeTable layout .afterInstaller "table.hex" = (t', .error e) ∧
      t'.entry? ["table.hex"] = some (.file [0]) := by
  intro t layout
  have hok : (t.writeTable layout (.fixed 0xfff0) "table.hex").2.toBool = true := by
    decide +kernel
  have herror : (t.writeTable layout .afterInstaller "table.hex").2.toBool = false := by
    decide +kernel
  obtain ⟨t₁, placed, hgood⟩ := exists_eq_mk_ok_of_toBool hok
  obtain ⟨t₂, e, hbad⟩ := exists_eq_mk_error_of_toBool herror
  obtain ⟨hplace, text, img, table, htext, hread, -, htable, -, -, hentries⟩ :=
    (writeTable_verifies t layout (.fixed 0xfff0) "table.hex").1 t₁ placed hgood
  obtain ⟨hsame, -⟩ := (writeTable_verifies t layout .afterInstaller "table.hex").2 t₂ e hbad
  rw [← Except.ok.inj hplace] at htable
  exact ⟨⟨t₁, text, img, table, htext, hread, htable, hentries, placed, hgood⟩,
    t₂, e, hbad, hsame _⟩

end FileTree

end BootSeal
