/-
  BootSeal — the bytes that leave an image: all of them in a row, or those of a range.

  * `Image.Spans`: the lowest and the highest occupied address;
  * `Image.fill`: flat bytes made segment by segment, by a step that brings what is there
    to a length first, and so could cut it. It never does (`Canonical.foldl_fill`);
  * `flatten_exact`: the flat bytes are exactly those from the lowest address to the
    highest one, with erased flash at the free ones, and with them every digest;
  * `read?_exact`: a range is read exactly if all of it is occupied, whichever segments
    the bytes came in; and what is read is a part of the flat bytes
    (`Canonical.prefix_flatten_of_read?`).
-/
import BootSeal.Hash.Sha2
import BootSeal.Proofs.Image.Flat
import BootSeal.Proofs.Image.Read
import Mathlib.Order.Bounds.Basic

namespace BootSeal.Image

/-! ## The occupied part -/

/-- The occupied addresses reach from `lowest` to `highest`, both included. -/
structure Spans (img : Image) (lowest highest : Nat) : Prop where
  least : IsLeast {a | img.Occupied a} lowest
  greatest : IsGreatest {a | img.Occupied a} highest

/-- The byte at an address, that of erased flash if the address is free. -/
def filledAt (img : Image) (a : Nat) : UInt8 := (img.byteAt? a).getD 0xff

theorem Spans.le {img : Image} {lowest highest : Nat} (hs : img.Spans lowest highest) :
    lowest ≤ highest := hs.least.2 hs.greatest.1

theorem Spans.unique {img : Image} {lowest highest lowest' highest' : Nat}
    (hs : img.Spans lowest highest) (hs' : img.Spans lowest' highest') :
    lowest = lowest' ∧ highest = highest' :=
  ⟨hs.least.unique hs'.least, hs.greatest.unique hs'.greatest⟩

/-! ## Flat bytes segment by segment -/

/-- A byte string brought to a length: cut, or filled up with erased flash. -/
def resize (b : Bytes) (n : Nat) : Bytes := b.take n ++ List.replicate (n - b.length) erased

/-- The bytes of a segment behind others, which are brought to the length of its distance
    from `base` before. -/
def fill (base : UInt32) (b : Bytes) (s : Segment) : Bytes :=
  resize b (s.start - base).toNat ++ s.data

theorem resize_of_le {b : Bytes} {n : Nat} (h : b.length ≤ n) :
    resize b n = b ++ List.replicate (n - b.length) erased := by
  rw [resize, List.take_of_length_le h]

/-- Bytes that do not reach past the segments are only filled up, and never cut. -/
theorem foldl_fill_of_le {base : UInt32} {l : List Segment}
    (hl : l.Pairwise fun s t => s.stop < t.start.toNat) {b : Bytes}
    (hb : ∀ s ∈ l, base.toNat + b.length ≤ s.start.toNat) :
    l.foldl (fill base) b = b ++ flattenFrom base b.length l := by
  induction l generalizing b with
  | nil => rw [List.foldl_nil, flattenFrom, List.append_nil]
  | cons s rest ih =>
    obtain ⟨hs, hrest⟩ := List.pairwise_cons.1 hl
    have hle := hb s List.mem_cons_self
    have hstop := s.stop_eq
    have hoffset : (s.start - base).toNat = s.start.toNat - base.toNat :=
      UInt32.toNat_sub_of_le _ _ (UInt32.le_iff_toNat_le.2 (by omega))
    have hfill : fill base b s =
        b ++ List.replicate ((s.start - base).toNat - b.length) erased ++ s.data := by
      rw [fill, resize_of_le (by omega)]
    have hlen : (fill base b s).length = (s.start - base).toNat + s.data.length := by
      rw [hfill, List.length_append, List.length_append, List.length_replicate]
      omega
    have hafter : ∀ t ∈ rest, base.toNat + (fill base b s).length ≤ t.start.toNat := by
      intro t ht
      have := hs t ht
      omega
    rw [List.foldl_cons, ih hrest hafter, hlen, hfill, flattenFrom]
    simp only [List.append_assoc]

namespace Canonical

variable {img : Image} (h : img.Canonical)
include h

theorem foldl_fill {base : UInt32} (hbase : img.minAddress? = some base) :
    img.segments.foldl (fill base) [] = img.flatten := by
  have hle : ∀ s ∈ img.segments, base.toNat + ([] : Bytes).length ≤ s.start.toNat := by
    intro s hs
    exact (h.minAddress?_eq_some_iff.1 hbase).2 _ (h.occupied_start hs)
  rw [foldl_fill_of_le h.separated hle, flatten, hbase]
  rfl

/-- The occupied part begins with the lowest address and ends before the stop. -/
theorem spans {base : UInt32} (hbase : img.minAddress? = some base) :
    img.Spans base.toNat (img.stop - 1) := by
  obtain ⟨hlow, hleast⟩ := h.minAddress?_eq_some_iff.1 hbase
  have hne : img.segments ≠ [] := by
    intro hnil
    rw [minAddress?_eq_none_iff.2 hnil] at hbase
    cases hbase
  obtain ⟨s, hs, hstop⟩ := stop_mem hne
  have hlt := h.start_lt_stop hs
  refine ⟨⟨hlow, hleast⟩, occupied_iff.2 ⟨s, hs, by omega, by omega⟩, ?_⟩
  intro a ha
  have := lt_stop ha
  omega

/-- The ends of the occupied part in terms of the image. -/
theorem ends_of_spans {lowest highest : Nat} (hs : img.Spans lowest highest) :
    ∃ base, img.minAddress? = some base ∧ base.toNat = lowest ∧ img.stop = highest + 1 := by
  cases hbase : img.minAddress? with
  | none =>
    obtain ⟨s, hmem, -⟩ := occupied_iff.1 hs.least.1
    rw [minAddress?_eq_none_iff.1 hbase] at hmem
    cases hmem
  | some base =>
    obtain ⟨hlow, hhigh⟩ := (h.spans hbase).unique hs
    have := lt_stop hs.greatest.1
    exact ⟨base, rfl, hlow, by omega⟩

section
variable {lowest highest : Nat} (hs : img.Spans lowest highest)
include hs

theorem length_flatten : img.flatten.length = highest - lowest + 1 := by
  obtain ⟨base, hbase, hlow, hstop⟩ := h.ends_of_spans hs
  have hlen := h.add_length_flatten hbase
  have := hs.le
  omega

theorem getElem?_flatten_of_le {i : Nat} (hi : i ≤ highest - lowest) :
    img.flatten[i]? = some (img.filledAt (lowest + i)) := by
  obtain ⟨base, hbase, hlow, hstop⟩ := h.ends_of_spans hs
  have := hs.le
  rw [h.getElem?_flatten hbase, if_pos (by omega), hlow]
  rfl

/-- **Flat bytes are relative to the lowest address**: images whose occupied parts are
    equally long and hold the same bytes, free addresses counted as erased flash, have the
    same flat bytes. -/
theorem flatten_eq {img' : Image} (h' : img'.Canonical) {lowest' highest' : Nat}
    (hs' : img'.Spans lowest' highest') (hlen : highest' - lowest' = highest - lowest)
    (hbytes : ∀ i ≤ highest - lowest, img'.filledAt (lowest' + i) = img.filledAt (lowest + i)) :
    img'.flatten = img.flatten := by
  refine List.ext_getElem? fun i => ?_
  rcases Nat.lt_or_ge (highest - lowest) i with hi | hi
  · rw [List.getElem?_eq_none (by rw [h'.length_flatten hs']; omega),
      List.getElem?_eq_none (by rw [h.length_flatten hs]; omega)]
  · rw [h'.getElem?_flatten_of_le hs' (by omega), h.getElem?_flatten_of_le hs hi, hbytes i hi]

end

theorem exists_spans (hne : img.isEmpty = false) : ∃ lowest highest, img.Spans lowest highest := by
  cases hbase : img.minAddress? with
  | none =>
    rw [isEmpty, minAddress?_eq_none_iff.1 hbase] at hne
    cases hne
  | some base => exact ⟨_, _, h.spans hbase⟩

end Canonical

theorem flatten_of_isEmpty {img : Image} (he : img.isEmpty = true) : img.flatten = [] := by
  rw [flatten, minAddress?_eq_none_iff.2 (List.isEmpty_iff.1 he)]

/-- **Flattening is exact.** An image without content has no flat bytes. Any other has one
    for each address from the lowest occupied one to the highest: the byte of the image
    where the address is occupied, and erased flash where it is free. Writing segment after
    segment, each behind what is there brought to its offset, cuts nothing and gives the
    same bytes. So images of the same bytes relative to their lowest addresses have the
    same digests. -/
theorem flatten_exact {img : Image} (h : img.Reachable) :
    (img.isEmpty = true → img.flatten = []) ∧
    (img.isEmpty = false → ∃ lowest highest, img.Spans lowest highest) ∧
    (∀ base, img.minAddress? = some base → img.segments.foldl (fill base) [] = img.flatten) ∧
    ∀ lowest highest, img.Spans lowest highest →
      img.flatten.length = highest - lowest + 1 ∧
      (∀ i ≤ highest - lowest,
        (∀ b, img.byteAt? (lowest + i) = some b → img.flatten[i]? = some b) ∧
        (¬ img.Occupied (lowest + i) → img.flatten[i]? = some 0xff)) ∧
      ∀ (img' : Image) (lowest' highest' : Nat), img'.Reachable → img'.Spans lowest' highest' →
        highest' - lowest' = highest - lowest →
        (∀ i ≤ highest - lowest, img'.filledAt (lowest' + i) = img.filledAt (lowest + i)) →
        ∀ algorithm : HashAlgorithm,
          algorithm.digest img'.flatten = algorithm.digest img.flatten := by
  have hc := h.canonical
  refine ⟨flatten_of_isEmpty, hc.exists_spans, fun base => hc.foldl_fill, ?_⟩
  intro lowest highest hs
  refine ⟨hc.length_flatten hs, fun i hi => ⟨fun b hb => ?_, fun hfree => ?_⟩, ?_⟩
  · rw [hc.getElem?_flatten_of_le hs hi, filledAt, hb, Option.getD_some]
  · rw [hc.getElem?_flatten_of_le hs hi, filledAt, Option.not_isSome_iff_eq_none.1 hfree,
      Option.getD_none]
  · intro img' lowest' highest' h' hs' hlen hbytes algorithm
    rw [hc.flatten_eq hs h'.canonical hs' hlen hbytes]

/-- Runs that come in the wrong order and touch each other, and the same bytes at other
    addresses with the gap written out. -/
theorem flatten_exact_gap :
    let img := empty.after [.insert 0x1008 [9], .insert 0x1002 [3], .insert 0x1000 [1, 2]]
    let img' := empty.after [.ofBytes [1, 2, 3, 0xff, 0xff, 0xff, 0xff, 0xff, 9] 0xfffffff7]
    img.Reachable ∧ img'.Reachable ∧ img.Spans 0x1000 0x1008 ∧ img'.Spans 0xfffffff7 0xffffffff ∧
      img.flatten.length = 0x1008 - 0x1000 + 1 ∧ img.flatten[2]? = some 3 ∧
      img.flatten[3]? = some 0xff ∧
      ∀ algorithm : HashAlgorithm, algorithm.digest img'.flatten = algorithm.digest img.flatten := by
  intro img img'
  have h : img.Reachable := ⟨_, rfl⟩
  have h' : img'.Reachable := ⟨_, rfl⟩
  have hs : img.Spans 0x1000 0x1008 := h.canonical.spans rfl
  have hs' : img'.Spans 0xfffffff7 0xffffffff := h'.canonical.spans rfl
  obtain ⟨hlen, hbytes, hdigest⟩ := (flatten_exact h).2.2.2 _ _ hs
  have hsame : ∀ i ≤ 0x1008 - 0x1000, img'.filledAt (0xfffffff7 + i) = img.filledAt (0x1000 + i) := by
    decide
  exact ⟨h, h', hs, hs', hlen, (hbytes 2 (by decide)).1 3 rfl, (hbytes 3 (by decide)).2 nofun,
    hdigest img' _ _ h' hs' rfl hsame⟩

/-! ## Ranges -/

namespace Canonical

variable {img : Image} (h : img.Canonical)
include h

/-- A range of occupied addresses is read, and what is read are its bytes. -/
theorem read?_of_occupied {a : UInt32} {n : Nat} (hn : 0 < n)
    (ho : ∀ i < n, img.Occupied (a.toNat + i)) :
    img.read? a n = some ((List.range n).map fun i => img.filledAt (a.toNat + i)) := by
  have hlen : ((List.range n).map fun i => img.filledAt (a.toNat + i)).length = n := by
    rw [List.length_map, List.length_range]
  have hread := h.read?_eq_some (a := a) (List.ne_nil_of_length_pos (hlen.symm ▸ hn)) fun i hi => by
    rw [hlen] at hi
    obtain ⟨b, hb⟩ := Option.isSome_iff_exists.1 (ho i hi)
    rw [List.getElem?_map, List.getElem?_range hi, Option.map_some, filledAt, hb, Option.getD_some]
  rwa [hlen] at hread

theorem occupied_of_read? {a : UInt32} {n : Nat} {bytes : Bytes}
    (hr : img.read? a n = some bytes) : ∀ i < n, img.Occupied (a.toNat + i) := by
  obtain ⟨hlen, hbytes⟩ := h.byteAt?_of_read? hr
  intro i hi
  rw [Occupied, hbytes i hi, isSome_getElem?]
  omega

theorem read?_eq_some_iff {a : UInt32} {n : Nat} (hn : 0 < n) {bytes : Bytes} :
    img.read? a n = some bytes ↔
      bytes.length = n ∧ ∀ i < n, img.byteAt? (a.toNat + i) = bytes[i]? := by
  constructor
  · exact h.byteAt?_of_read?
  · rintro ⟨rfl, hbytes⟩
    exact h.read?_eq_some (List.ne_nil_of_length_pos hn) hbytes

theorem exists_read?_iff {a : UInt32} {n : Nat} (hn : 0 < n) :
    (∃ bytes, img.read? a n = some bytes) ↔ ∀ i < n, img.Occupied (a.toNat + i) := by
  constructor
  · rintro ⟨bytes, hr⟩
    exact h.occupied_of_read? hr
  · intro ho
    exact ⟨_, h.read?_of_occupied hn ho⟩

/-- **What is read stands in the flat bytes**, as far behind their first byte as its address
    is above the lowest one. -/
theorem prefix_flatten_of_read? {a : UInt32} {n : Nat} (hn : 0 < n) {bytes : Bytes}
    (hr : img.read? a n = some bytes) :
    ∃ base, img.minAddress? = some base ∧ base.toNat ≤ a.toNat ∧
      bytes <+: img.flatten.drop (a.toNat - base.toNat) := by
  obtain ⟨rfl, hbytes⟩ := h.byteAt?_of_read? hr
  have ho : img.Occupied a.toNat := h.occupied_of_read? hr 0 hn
  cases hbase : img.minAddress? with
  | none =>
    obtain ⟨s, hs, -⟩ := occupied_iff.1 ho
    rw [minAddress?_eq_none_iff.1 hbase] at hs
    cases hs
  | some base =>
    have hle := (h.minAddress?_eq_some_iff.1 hbase).2 _ ho
    refine ⟨base, rfl, hle, List.prefix_iff_getElem?.2 fun i hi => ?_⟩
    have haddress : base.toNat + (a.toNat - base.toNat + i) = a.toNat + i := by omega
    have hbyte : img.byteAt? (a.toNat + i) = some bytes[i] := by
      rw [hbytes i hi, List.getElem?_eq_getElem hi]
    have hlt : a.toNat + i < img.stop := lt_stop (Option.isSome_of_eq_some hbyte)
    rw [List.getElem?_drop, h.getElem?_flatten hbase, haddress, if_pos hlt, hbyte,
      Option.getD_some]

end Canonical

/-- **Reading sees every range that is there**, however many segments its bytes came in
    and in whatever order. A range is read exactly if all of its addresses are occupied,
    and then as the bytes at these addresses; if one is free, nothing is read. So two images
    that agree on a range are read alike there. -/
theorem read?_exact {img : Image} (h : img.Reachable) (a : UInt32) {n : Nat} (hn : 0 < n) :
    ((∃ bytes, img.read? a n = some bytes) ↔ ∀ i < n, img.Occupied (a.toNat + i)) ∧
    (∀ bytes, img.read? a n = some bytes ↔
      bytes.length = n ∧ ∀ i < n, img.byteAt? (a.toNat + i) = bytes[i]?) ∧
    (img.read? a n = none ↔ ∃ i < n, ¬ img.Occupied (a.toNat + i)) ∧
    ∀ img' : Image, img'.Reachable →
      (∀ i < n, img'.byteAt? (a.toNat + i) = img.byteAt? (a.toNat + i)) →
      img'.read? a n = img.read? a n := by
  have hc := h.canonical
  refine ⟨hc.exists_read?_iff hn, fun bytes => hc.read?_eq_some_iff hn, ?_, ?_⟩
  · rw [← not_iff_not, ← ne_eq, Option.ne_none_iff_exists', hc.exists_read?_iff hn]
    push Not
    rfl
  · intro img' h' hsame
    refine Option.ext fun bytes => ?_
    rw [hc.read?_eq_some_iff hn, h'.canonical.read?_eq_some_iff hn]
    refine and_congr_right fun _ => forall₂_congr fun i hi => ?_
    rw [hsame i hi]

/-- A range over three runs of which the middle one came last, and ranges that leave what
    is there by one address or by far. -/
theorem read?_exact_joined :
    let img := empty.after
      [.insert 0x10 [1, 2], .insert 0x14 [5], .insert 0x12 [3, 4], .insert 0xfffffffe [8, 9]]
    img.Reachable ∧ (∀ i < 5, img.Occupied (0x10 + i)) ∧
      img.read? 0x10 5 = some [1, 2, 3, 4, 5] ∧ img.read? 0x13 3 = none ∧
      img.read? 0xffffffff 0xffffffffffffffff = none := by
  intro img
  have h : img.Reachable := ⟨_, rfl⟩
  have hread := ((read?_exact h 0x10 (n := 5) (by decide)).2.1 [1, 2, 3, 4, 5]).2 ⟨rfl, by decide⟩
  have hpast := (read?_exact h 0x13 (n := 3) (by decide)).2.2.1.2 ⟨2, by decide, nofun⟩
  have hfar := (read?_exact h 0xffffffff (n := 0xffffffffffffffff) (by decide)).2.2.1.2
    ⟨1, by decide, nofun⟩
  exact ⟨h, (read?_exact h 0x10 (by decide)).1.1 ⟨_, hread⟩, hread, hpast, hfar⟩

end BootSeal.Image
