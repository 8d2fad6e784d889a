/-
  BootSeal — merging as the partial sum of images.

  * `Image.Apart`: images without an address in common; `Merges x y w`: the merge of `y`
    into `x` succeeds with `w`;
  * `Canonical.exists_merges_iff`, `Canonical.byteAt?_merges`: images that are apart have a
    merge, which holds the bytes of both;
  * `Merges.symm`, `Merges.assoc`: so it depends neither on the order nor on the grouping;
  * `StopsAt`: what a merge that fails leaves behind, and at which segment it stops;
  * `merge_refines_sum`: all of this for reachable images, with the error.
-/
import BootSeal.Proofs.Image.Order

namespace BootSeal.Image

/-- The images have no address in common. -/
def Apart (x y : Image) : Prop := ∀ a, x.Occupied a → ¬ y.Occupied a

/-- The merge of `y` into `x` succeeds, and the result is `w`. -/
def Merges (x y w : Image) : Prop := x.apply (.merge y) = (w, .ok ())

/-- The merge of `y` into `x` stops at the segment `s` with the image `x'`: `s` is the lowest
    segment of `y` that meets an occupied address of `x`, and `x'` holds the bytes of `x` and
    of the segments of `y` below `s`. -/
structure StopsAt (x y x' : Image) (s : Segment) : Prop where
  mem : s ∈ y.segments
  meets : ∃ a, s.Holds a ∧ x.Occupied a
  lowest : ∀ t ∈ y.segments, t.start < s.start → ∀ a, t.Holds a → ¬ x.Occupied a
  bytes : ∀ a b, x'.byteAt? a = some b ↔
    x.byteAt? a = some b ∨ ∃ t ∈ y.segments, t.start < s.start ∧ t.byteAt? a = some b

theorem Apart.symm {x y : Image} (h : x.Apart y) : y.Apart x := fun a hy hx => h a hx hy

/-! ## Insertions one after the other -/

/-- Insertions that fail have succeeded up to the first segment that has no place. -/
theorem insertAll_eq_error {img img' : Image} {l : List Segment} {f : PlacementFault}
    (h : img.insertAll l = (img', .error f)) : ∃ below s above, l = below ++ s :: above ∧
      img.insertAll below = (img', .ok ()) ∧ img'.insert s.start s.data = .error f := by
  induction l generalizing img with
  | nil => cases h
  | cons s rest ih =>
    rw [insertAll] at h
    cases hi : img.insert s.start s.data with
    | error f' =>
      rw [hi] at h
      cases h
      exact ⟨[], s, rest, rfl, rfl, hi⟩
    | ok img₁ =>
      rw [hi] at h
      obtain ⟨below, t, above, hl, hbelow, ht⟩ := ih h
      refine ⟨s :: below, t, above, by rw [hl, List.cons_append], ?_, ht⟩
      exact insertAll_cons_eq_ok.2 ⟨img₁, hi, hbelow⟩

theorem occupied_insertAll {img img' : Image} {l : List Segment}
    (h : img.insertAll l = (img', .ok ())) {a : Nat} :
    img'.Occupied a ↔ img.Occupied a ∨ ∃ s ∈ l, s.Holds a := by
  simp only [Occupied, Option.isSome_iff_exists, byteAt?_insertAll_iff h, exists_or, Segment.Holds,
    ← Segment.isSome_byteAt?]
  rw [exists_comm]
  simp only [exists_and_left]

theorem merges_iff {x y w : Image} : Merges x y w ↔ x.insertAll y.segments = (w, .ok ()) := by
  rw [Merges, apply, merge, Prod.ext_iff, Prod.ext_iff]
  refine and_congr_right fun _ => ?_
  cases (x.insertAll y.segments).2 with
  | ok => exact iff_of_true rfl rfl
  | error f => exact iff_of_false (by rintro ⟨⟩) (by rintro ⟨⟩)

theorem apply_merge_eq_error {x y x' : Image} {e : Error}
    (h : x.apply (.merge y) = (x', .error e)) :
    ∃ f, x.insertAll y.segments = (x', .error f) ∧ e = f.toError := by
  rw [apply, merge] at h
  obtain ⟨rfl, he⟩ := Prod.ext_iff.1 h
  cases hr : (x.insertAll y.segments).2 with
  | ok =>
    rw [hr] at he
    cases he
  | error f =>
    rw [hr] at he
    cases he
    exact ⟨f, Prod.ext rfl hr, rfl⟩

/-! ## Canonical images -/

namespace Canonical

variable {x : Image} (hx : x.Canonical)
include hx

/-- A byte of the image is that of one of its segments. -/
theorem byteAt?_eq_some_iff {a : Nat} {b : UInt8} :
    x.byteAt? a = some b ↔ ∃ s ∈ x.segments, s.byteAt? a = some b := by
  constructor
  · exact List.exists_of_findSome?_eq_some
  · rintro ⟨s, hs, hb⟩
    obtain ⟨h1, h2⟩ := Segment.isSome_byteAt?.1 (Option.isSome_of_mem hb)
    rw [hx.byteAt?_of_mem hs h1 h2, hb]

theorem pairwise_apart : x.segments.Pairwise Segment.Apart := by
  refine hx.separated.imp ?_
  intro s t hst a hs ht
  have := hs.2
  have := ht.1
  omega

/-- The segments below a segment are those in front of it. -/
theorem mem_below_iff {below above : List Segment} {s t : Segment}
    (he : x.segments = below ++ s :: above) :
    t ∈ below ↔ t ∈ x.segments ∧ t.start < s.start := by
  have hsep := hx.separated
  rw [he] at hsep ⊢
  obtain ⟨-, habove, hbelow⟩ := List.pairwise_append.1 hsep
  rw [UInt32.lt_iff_toNat_lt]
  constructor
  · intro ht
    have := hbelow t ht s List.mem_cons_self
    have := t.start_le_stop
    exact ⟨List.mem_append_left _ ht, by omega⟩
  · rintro ⟨ht, hlt⟩
    rcases List.mem_append.1 ht with ht | ht
    · exact ht
    · rcases List.mem_cons.1 ht with rfl | ht
      · omega
      · have := (List.pairwise_cons.1 habove).1 t ht
        have := s.start_le_stop
        omega

theorem merges {y w : Image} (h : Merges x y w) : w.Canonical := by
  have hall := hx.insertAll y.segments
  rw [merges_iff.1 h] at hall
  exact hall

variable {y : Image} (hy : y.Canonical)
include hy

/-- **Images have a merge exactly if they are apart.** What was inserted before is of the
    same image as a segment that comes later, and so never in its way. -/
theorem exists_merges_iff : (∃ w, Merges x y w) ↔ x.Apart y := by
  simp only [merges_iff, hx.insertAll_eq_ok_iff]
  constructor
  · rintro ⟨-, -, hfree⟩ a ha ho
    obtain ⟨s, hs, hsa⟩ := occupied_iff.1 ho
    exact hfree s hs a hsa ha
  · intro hapart
    refine ⟨hy.inSpace, hy.pairwise_apart, ?_⟩
    intro s hs a hsa ha
    exact hapart a ha (occupied_iff.2 ⟨s, hs, hsa⟩)

omit hx in
/-- **The merge holds the bytes of both.** -/
theorem byteAt?_merges {w : Image} (h : Merges x y w) {a : Nat} {b : UInt8} :
    w.byteAt? a = some b ↔ x.byteAt? a = some b ∨ y.byteAt? a = some b := by
  rw [byteAt?_insertAll_iff (merges_iff.1 h), hy.byteAt?_eq_some_iff]

omit hx in
theorem occupied_merges {w : Image} (h : Merges x y w) {a : Nat} :
    w.Occupied a ↔ x.Occupied a ∨ y.Occupied a := by
  simp only [Occupied, Option.isSome_iff_exists, hy.byteAt?_merges h, exists_or]

/-- **A merge that fails** stops at the lowest segment that meets the image, and names it. -/
theorem stopsAt_of_error {x' : Image} {e : Error} (h : x.apply (.merge y) = (x', .error e)) :
    ∃ s, StopsAt x y x' s ∧ ∃ first last, LowestMet x' s.start.toNat s.stop first last ∧
      e = .overlap s.start s.data.length first last := by
  obtain ⟨f, hall, rfl⟩ := apply_merge_eq_error h
  obtain ⟨below, s, above, he, hbelow, hs⟩ := insertAll_eq_error hall
  have hmem : s ∈ y.segments := by
    rw [he]
    exact List.mem_append_right _ List.mem_cons_self
  have hx' : x'.Canonical := by
    have hall := hx.insertAll below
    rwa [hbelow] at hall
  obtain ⟨-, -, hfree⟩ := hx.insertAll_eq_ok_iff.1 ⟨x', hbelow⟩
  refine ⟨s, ⟨hmem, ?_, ?_, ?_⟩, ?_⟩
  · -- The segments below do not meet `s`, and so it meets `x` itself.
    have hmeets : ∃ a, s.Holds a ∧ x'.Occupied a := by
      by_contra hnone
      push Not at hnone
      obtain ⟨x'', hok⟩ := (hx'.insert_segment_iff s).2 ⟨hy.inSpace s hmem, hnone⟩
      rw [hs] at hok
      cases hok
    obtain ⟨a, hsa, ha⟩ := hmeets
    rcases (occupied_insertAll hbelow).1 ha with ha | ⟨t, ht, hta⟩
    · exact ⟨a, hsa, ha⟩
    · have hsep := hy.pairwise_apart
      rw [he] at hsep
      exact absurd hsa ((List.pairwise_append.1 hsep).2.2 t ht s List.mem_cons_self a hta)
  · intro t ht hlt
    exact hfree t ((hy.mem_below_iff he).2 ⟨ht, hlt⟩)
  · intro a b
    rw [byteAt?_insertAll_iff hbelow]
    simp only [hy.mem_below_iff he, and_assoc]
  · have hfits : s.start.toNat + s.data.length ≤ addressSpace := by
      rw [← s.stop_eq]
      exact hy.inSpace s hmem
    obtain ⟨first, last, hmet, rfl⟩ := hx'.insert_eq_error hs hfits
    rw [← s.stop_eq] at hmet
    exact ⟨first, last, hmet, rfl⟩

end Canonical

/-! ## Order and grouping -/

namespace Merges

variable {x y z w : Image} (hx : x.Canonical) (hy : y.Canonical)
include hx hy

/-- **Either image may be merged into the other.** -/
theorem symm (h : Merges x y w) : Merges y x w := by
  have hapart := (hx.exists_merges_iff hy).1 ⟨w, h⟩
  obtain ⟨w', h'⟩ := (hy.exists_merges_iff hx).2 hapart.symm
  have hsame : w' = w := by
    refine (hy.merges h').ext (hx.merges h) fun a => Option.ext fun b => ?_
    rw [hx.byteAt?_merges h', hy.byteAt?_merges h, or_comm]
  rwa [← hsame]

/-- **A third image may be merged into the second one first.** -/
theorem assoc (hz : z.Canonical) {xy : Image} (h : Merges x y xy) (hw : Merges xy z w) :
    ∃ yz, Merges y z yz ∧ Merges x yz w := by
  have hxy := hx.merges h
  have hapart := (hx.exists_merges_iff hy).1 ⟨xy, h⟩
  have hrest := (hxy.exists_merges_iff hz).1 ⟨w, hw⟩
  simp only [Apart, hy.occupied_merges h] at hrest
  obtain ⟨yz, hyz⟩ := (hy.exists_merges_iff hz).2 fun a ha => hrest a (Or.inr ha)
  obtain ⟨w', hw'⟩ := (hx.exists_merges_iff (hy.merges hyz)).2 fun a ha ho => by
    rcases (hz.occupied_merges hyz).1 ho with ho | ho
    · exact hapart a ha ho
    · exact hrest a (Or.inl ha) ho
  have hsame : w' = w := by
    refine (hx.merges hw').ext (hxy.merges hw) fun a => Option.ext fun b => ?_
    rw [(hy.merges hyz).byteAt?_merges hw', hz.byteAt?_merges hyz, hz.byteAt?_merges hw,
      hy.byteAt?_merges h, or_assoc]
  exact ⟨yz, hyz, hsame ▸ hw'⟩

end Merges

/-- Images that are apart in pairs have a merge in every grouping, and it is the same. -/
theorem Canonical.exists_merges_three {x y z : Image} (hx : x.Canonical) (hy : y.Canonical)
    (hz : z.Canonical) (hxy : x.Apart y) (hxz : x.Apart z) (hyz : y.Apart z) :
    ∃ w, (∃ xy, Merges x y xy ∧ Merges xy z w) ∧ (∃ yz, Merges y z yz ∧ Merges x yz w) ∧
      ∃ xz, Merges x z xz ∧ Merges xz y w := by
  obtain ⟨xy, h⟩ := (hx.exists_merges_iff hy).2 hxy
  obtain ⟨w, hw⟩ := ((hx.merges h).exists_merges_iff hz).2 fun a ha => by
    rcases (hy.occupied_merges h).1 ha with ha | ha
    · exact hxz a ha
    · exact hyz a ha
  obtain ⟨yz, hyz, hgrouped⟩ := h.assoc hx hy hz hw
  -- The third grouping is the second one with `y` and `z` exchanged.
  have hw' := (h.symm hx hy)
  obtain ⟨xz, hxz, hlast⟩ := hw'.assoc hy hx hz hw
  exact ⟨w, ⟨xy, h, hw⟩, ⟨yz, hyz, hgrouped⟩, xz, hxz, hlast.symm hy (hx.merges hxz)⟩

/-- **Merging is a partial sum.** It succeeds exactly if no address is occupied in both
    images, and then gives the union of their bytes; either image may be merged into the
    other, and of three that are apart in pairs any two may be merged first. A merge that
    fails has inserted the segments below the first one that meets the image it is merged
    into, and no other, and names that segment. -/
theorem merge_refines_sum {x y : Image} (hx : x.Reachable) (hy : y.Reachable) :
    ((∃ w, Merges x y w) ↔ ∀ a, ¬ (x.Occupied a ∧ y.Occupied a)) ∧
    (∀ w, Merges x y w →
      ∀ a b, w.byteAt? a = some b ↔ x.byteAt? a = some b ∨ y.byteAt? a = some b) ∧
    (∀ w, Merges x y w ↔ Merges y x w) ∧
    (∀ z : Image, z.Reachable → x.Apart y → x.Apart z → y.Apart z →
      ∃ w, (∃ xy, Merges x y xy ∧ Merges xy z w) ∧ (∃ yz, Merges y z yz ∧ Merges x yz w) ∧
        ∃ xz, Merges x z xz ∧ Merges xz y w) ∧
    ∀ x' e, x.apply (.merge y) = (x', .error e) →
      ∃ s, StopsAt x y x' s ∧ ∃ first last, LowestMet x' s.start.toNat s.stop first last ∧
        e = .overlap s.start s.data.length first last := by
  have hcx := hx.canonical
  have hcy := hy.canonical
  refine ⟨?_, fun w h a b => hcy.byteAt?_merges h, ?_, ?_, ?_⟩
  · rw [hcx.exists_merges_iff hcy]
    simp only [Apart, not_and]
  · intro w
    exact ⟨fun h => h.symm hcx hcy, fun h => h.symm hcy hcx⟩
  · intro z hz
    exact hcx.exists_merges_three hcy hz.canonical
  · intro x' e
    exact hcx.stopsAt_of_error hcy

/-- A merge that joins one segment, adds another and stops at the third, and a merge of
    images that touch each other. -/
theorem merge_refines_sum_stops :
    let x := empty.after [.insert 0x10 [1, 2], .insert 0x20 [9]]
    let y := empty.after [.insert 0x12 [3], .insert 0x18 [4], .insert 0x1f [5, 6]]
    let z := empty.after [.insert 0x12 [3, 4], .insert 0x30 [7]]
    x.Reachable ∧ y.Reachable ∧ z.Reachable ∧
      (∃ x', x.apply (.merge y) = (x', .error (.overlap 0x1f 2 0x20 0x21)) ∧
        x'.ranges = [(0x10, 0x13), (0x18, 0x19), (0x20, 0x21)] ∧
        ∃ s, s.start = 0x1f ∧ StopsAt x y x' s) ∧
      (¬ ∃ w, Merges y x w) ∧
      ∃ w, Merges x z w ∧ Merges z x w ∧ w.ranges = [(0x10, 0x14), (0x20, 0x21), (0x30, 0x31)] := by
  intro x y z
  have hx : x.Reachable := ⟨_, rfl⟩
  have hy : y.Reachable := ⟨_, rfl⟩
  have hz : z.Reachable := ⟨_, rfl⟩
  have hfails : x.apply (.merge y) =
      ((x.apply (.merge y)).1, .error (.overlap 0x1f 2 0x20 0x21)) := rfl
  have hmerges : Merges x z (x.apply (.merge z)).1 := rfl
  obtain ⟨s, hs, first, last, -, he⟩ := (merge_refines_sum hx hy).2.2.2.2 _ _ hfails
  have hstart : s.start = 0x1f := by
    injection he with hstart
    exact hstart.symm
  have hmeet : ¬ ∃ w, Merges y x w := fun hw =>
    (merge_refines_sum hy hx).1.1 hw 0x20 ⟨rfl, rfl⟩
  exact ⟨hx, hy, hz, ⟨_, hfails, rfl, s, hstart, hs⟩, hmeet,
    _, hmerges, ((merge_refines_sum hx hz).2.2.1 _).1 hmerges, rfl⟩

end BootSeal.Image
