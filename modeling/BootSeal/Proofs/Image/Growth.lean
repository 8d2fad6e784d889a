/-
  BootSeal — what an image holds stays there while runs are added to it.

  * `Image.Within`: every byte of one image stands at its address in another;
  * `Change.Adds`: the changes that put no new image in the place of the old one. They
    only add bytes, one by one (`within_apply`) and in any number (`within_after`),
    whether they fail or not, and so does a merge that fails midway;
  * `Canonical.read?_within`: so what was read is read again, though the segment that
    holds it may start elsewhere;
  * `partitionTable_after`: a partition table that is valid stays valid.
-/
import BootSeal.Proofs.Image.Change
import BootSeal.Proofs.Partition.Table

namespace BootSeal

/-- The change puts no new image in the place of the old one. -/
def Change.Adds : Change → Prop
  | .insert .. | .merge .. | .embed .. => True
  | .ofBytes .. | .ofHex .. => False

namespace Image

/-! ## Images within each other -/

/-- Every byte of `img` stands at its address in `img'`. -/
def Within (img img' : Image) : Prop :=
  ∀ a b, img.byteAt? a = some b → img'.byteAt? a = some b

theorem Within.refl (img : Image) : img.Within img := fun _ _ h => h

theorem Within.trans {img₁ img₂ img₃ : Image} (h₁ : img₁.Within img₂) (h₂ : img₂.Within img₃) :
    img₁.Within img₃ := fun a b h => h₂ a b (h₁ a b h)

theorem within_insert {img img' : Image} {a : UInt32} {d : Bytes} (h : img.insert a d = .ok img') :
    img.Within img' := fun _ _ => byteAt?_insert_of_some h

/-- What a merge has inserted before it fails stays, and so does what was there. -/
theorem within_insertAll (img : Image) (l : List Segment) : img.Within (img.insertAll l).1 := by
  induction l generalizing img with
  | nil => exact Within.refl img
  | cons s rest ih =>
    rw [insertAll]
    split
    · next img' hi => exact (within_insert hi).trans (ih img')
    · exact Within.refl img

/-- **A change that only adds leaves every byte where it is**, whether it fails or not. -/
theorem within_apply (img : Image) {c : Change} (hc : c.Adds) : img.Within (img.apply c).1 := by
  cases c with
  | insert a d =>
    rw [apply]
    cases hi : img.insert a d with
    | ok img' => exact within_insert hi
    | error => exact Within.refl img
  | merge other => exact within_insertAll img other.segments
  | embed offset bytes =>
    rw [apply]
    cases he : img.embed offset bytes with
    | ok out => exact within_insert (embed_eq_ok he).2
    | error => exact Within.refl img
  | ofBytes | ofHex => cases hc

theorem within_after (img : Image) {changes : List Change} (hc : ∀ c ∈ changes, c.Adds) :
    img.Within (img.after changes) := by
  induction changes generalizing img with
  | nil => exact Within.refl img
  | cons c rest ih =>
    obtain ⟨hc, hrest⟩ := List.forall_mem_cons.1 hc
    exact (img.within_apply hc).trans (ih _ hrest)

/-! ## Reading again -/

/-- **What was read is read again** in an image that has grown, whichever segments have
    been joined since. -/
theorem Canonical.read?_within {img img' : Image} (h : img.Canonical) (h' : img'.Canonical)
    (hw : img.Within img') {a : UInt32} {n : Nat} (hn : 0 < n) {bytes : Bytes}
    (hr : img.read? a n = some bytes) : img'.read? a n = some bytes := by
  obtain ⟨hlen, hbytes⟩ := h.byteAt?_of_read? hr
  subst hlen
  refine h'.read?_eq_some (List.ne_nil_of_length_pos hn) ?_
  intro i hi
  have hi' : bytes[i]? = some bytes[i] := List.getElem?_eq_getElem hi
  rw [hi']
  exact hw _ _ (by rw [hbytes i hi, hi'])

/-- A table is found through two ranges: its header, which tells its size, and all of
    its bytes. -/
theorem partitionTable_eq_ok_iff {img : Image} {a : UInt32} {t : PartitionTable} :
    img.partitionTable a = .ok t ↔ ∃ header bytes,
      img.read? a PartitionTable.headerSize = some header ∧
      img.read? a (PartitionTable.encodedSize (header.headD 0).toNat) = some bytes ∧
      PartitionTable.parse bytes = .ok t := by
  constructor
  · intro ht
    rw [partitionTable] at ht
    split at ht
    · next header hheader =>
      dsimp only at ht
      split at ht
      · next bytes hbytes => exact ⟨header, bytes, hheader, hbytes, ht⟩
      · cases ht
    · cases ht
  · rintro ⟨header, bytes, hheader, hbytes, hparse⟩
    simp only [partitionTable, hheader, hbytes, hparse]

/-- **A valid table stays valid.** Whatever is inserted, merged or embedded afterwards,
    in any number of steps and whether these fail or not, the same table is read at its
    address. -/
theorem partitionTable_after {img : Image} (h : img.Reachable) {a : UInt32} {t : PartitionTable}
    (ht : img.partitionTable a = .ok t) {changes : List Change} (hc : ∀ c ∈ changes, c.Adds) :
    (img.after changes).partitionTable a = .ok t := by
  have hcanonical := h.canonical
  have hafter := hcanonical.after changes
  have hwithin := img.within_after hc
  obtain ⟨header, bytes, hheader, hbytes, hparse⟩ := partitionTable_eq_ok_iff.1 ht
  have hpos : 0 < PartitionTable.encodedSize (header.headD 0).toNat :=
    Nat.lt_of_lt_of_le (by decide) (Nat.le_add_left PartitionTable.trailerSize _)
  exact partitionTable_eq_ok_iff.2 ⟨header, bytes,
    hcanonical.read?_within hafter hwithin (by decide) hheader,
    hcanonical.read?_within hafter hwithin hpos hbytes, hparse⟩

/-- A table that gets neighbours on both sides, the right one by a merge that fails at its
    second segment, so that it stands in the middle of a longer segment. -/
theorem partitionTable_after_joined :
    let entry := PartitionEntry.present "app" 0x8000 0x1000
    let content := PartitionTable.contentOf [entry]
    let table : PartitionTable := ⟨[entry], crc32 content, content ++ Bytes.ofWord (crc32 content)⟩
    let img := empty.after [.insert 0x40 table.bytes]
    let changes : List Change := [.insert 0x3c [1, 2, 3, 4], .insert 0x60 [5],
      .merge ⟨[.ofBytes 0xa4 [6, 7], .ofBytes 0xa5 [8]]⟩, .embed none [9]]
    img.Reachable ∧ (∀ c ∈ changes, c.Adds) ∧ img.partitionTable 0x40 = .ok table.unnamed ∧
      (img.after changes).segments.map (fun s => (s.start, s.stop)) =
        [(0x3c, 0xa6), (0xa8, 0xa9)] ∧
      (img.after changes).partitionTable 0x40 = .ok table.unnamed := by
  intro entry content table img changes
  have h : img.Reachable := ⟨_, rfl⟩
  have hc : ∀ c ∈ changes, c.Adds := by simp [changes, Change.Adds]
  have hbuild : PartitionTable.build [entry] = .ok table := rfl
  have hinsert : empty.insert 0x40 table.bytes = .ok img := rfl
  have ht : img.partitionTable 0x40 = .ok table.unnamed := by
    refine h.canonical.partitionTable_of_build hbuild ?_
    intro i hi
    rw [byteAt?_insert hinsert, if_pos (by omega), Nat.add_sub_cancel_left]
  exact ⟨h, hc, ht, by decide +kernel, partitionTable_after h ht hc⟩

end Image

end BootSeal
