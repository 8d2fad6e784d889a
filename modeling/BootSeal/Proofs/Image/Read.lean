/-
  BootSeal — the bytes of a range of an image.

  * `Canonical.read?_eq_some`: a range of which the image holds every byte is read,
    since segments stand apart and so a single one holds it;
  * `Canonical.byteAt?_of_read?`: what is read are the bytes that the image holds there.
-/
import BootSeal.Proofs.Bytes
import BootSeal.Proofs.Image.Insert

namespace BootSeal.Image.Canonical

variable {img : Image} (h : img.Canonical)
include h

/-- The segment of an address is the last one that starts at it or below it. -/
theorem getLast?_filter {s : Segment} (hs : s ∈ img.segments) {a : UInt32}
    (h1 : s.start.toNat ≤ a.toNat) (h2 : a.toNat < s.stop) :
    (img.segments.filter (·.start ≤ a)).getLast? = some s := by
  obtain ⟨segments⟩ := img
  have hl := h.separated
  clear h
  induction segments with
  | nil => cases hs
  | cons t rest ih =>
    obtain ⟨ht, hrest⟩ := List.pairwise_cons.1 hl
    rcases List.mem_cons.1 hs with rfl | hs
    · have hnil : rest.filter (·.start ≤ a) = [] := by
        refine List.filter_eq_nil_iff.2 fun u hu => ?_
        have := ht u hu
        rw [decide_eq_true_eq, UInt32.le_iff_toNat_le]
        omega
      rw [List.filter_cons_of_pos (by rwa [decide_eq_true_eq, UInt32.le_iff_toNat_le]), hnil]
      rfl
    · have hlast := ih hs hrest
      rw [List.filter_cons]
      split
      · rw [List.getLast?_cons, hlast]; rfl
      · exact hlast

/-- Occupied addresses in a row lie in the segment of the first one. -/
theorem le_stop {s : Segment} (hs : s ∈ img.segments) {a n : Nat} (ha : a < s.stop)
    (ho : ∀ i < n, img.Occupied (a + i)) : a + n ≤ s.stop := by
  refine Nat.le_of_not_lt fun hlt => h.not_occupied_stop hs ?_
  have hstop := ho (s.stop - a) (by omega)
  rwa [Nat.add_sub_cancel' (Nat.le_of_lt ha)] at hstop

/-- **A range whose bytes are all there is read.** -/
theorem read?_eq_some {a : UInt32} {bytes : Bytes} (hb : bytes ≠ [])
    (hm : ∀ i < bytes.length, img.byteAt? (a.toNat + i) = bytes[i]?) :
    img.read? a bytes.length = some bytes := by
  have ho : ∀ i < bytes.length, img.Occupied (a.toNat + i) := fun i hi => by
    rw [Occupied, hm i hi, isSome_getElem?]; exact hi
  obtain ⟨s, hs, h1, h2⟩ := occupied_iff.1 (ho 0 (List.length_pos_iff.2 hb))
  have hstop := h.le_stop hs h2 ho
  have hsub : (a - s.start).toNat = a.toNat - s.start.toNat :=
    UInt32.toNat_sub_of_le a s.start (UInt32.le_iff_toNat_le.2 h1)
  rw [read?, h.getLast?_filter hs h1 h2]
  show s.data.slice? (a - s.start).toNat bytes.length = some bytes
  rw [s.stop_eq] at hstop
  refine Bytes.slice?_eq_some (by omega) fun i hi => ?_
  have hmi := hm i hi
  rw [h.byteAt?_of_mem hs (by omega) (by rw [s.stop_eq]; omega), Segment.byteAt?,
    if_pos (by omega)] at hmi
  rw [← hmi, hsub]
  congr 1; omega

/-- So is any part of it from its start on. -/
theorem read?_take {a : UInt32} {bytes : Bytes} {n : Nat} (hn : 0 < n) (hle : n ≤ bytes.length)
    (hm : ∀ i < bytes.length, img.byteAt? (a.toNat + i) = bytes[i]?) :
    img.read? a n = some (bytes.take n) := by
  have hlen : (bytes.take n).length = n := by rw [List.length_take]; omega
  have hread := h.read?_eq_some (List.ne_nil_of_length_pos (hlen.symm ▸ hn)) fun i hi => by
    rw [hlen] at hi
    rw [hm i (Nat.lt_of_lt_of_le hi hle), List.getElem?_take_of_lt hi]
  rwa [hlen] at hread

/-- A run is read where it was inserted. -/
theorem read?_insert {img' : Image} {a : UInt32} {bytes : Bytes} (hb : bytes ≠ [])
    (hi : img.insert a bytes = .ok img') : img'.read? a bytes.length = some bytes := by
  refine (h.insert hi).read?_eq_some hb ?_
  intro i hlt
  rw [byteAt?_insert hi, if_pos (by omega), Nat.add_sub_cancel_left]

/-- **What is read are the bytes of the range.** -/
theorem byteAt?_of_read? {a : UInt32} {n : Nat} {bytes : Bytes} (hr : img.read? a n = some bytes) :
    bytes.length = n ∧ ∀ i < n, img.byteAt? (a.toNat + i) = bytes[i]? := by
  obtain ⟨s, hlast, hslice⟩ := Option.bind_eq_some_iff.1 hr
  obtain ⟨hs, hle⟩ := List.mem_filter.1 (List.mem_of_getLast? hlast)
  have hle : s.start ≤ a := of_decide_eq_true hle
  have hsub := UInt32.toNat_sub_of_le a s.start hle
  rw [UInt32.le_iff_toNat_le] at hle
  obtain ⟨hfit, rfl⟩ := Bytes.slice?_eq_some_iff.1 hslice
  have hstop := s.stop_eq
  refine ⟨by rw [List.length_take, List.length_drop]; omega, fun i hi => ?_⟩
  rw [h.byteAt?_of_mem hs (by omega) (by omega), Segment.byteAt?, if_pos (by omega),
    List.getElem?_take_of_lt hi, List.getElem?_drop, hsub]
  congr 1; omega

end BootSeal.Image.Canonical
