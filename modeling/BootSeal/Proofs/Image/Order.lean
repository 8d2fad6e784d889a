/-
  BootSeal — one image for each byte map, whatever the order in which it was filled.

  * `Segment.IsRun`: a longest run of bytes in a byte map;
  * `Canonical.mem_segments_iff`: the segments of a canonical image are exactly the
    longest runs of its byte map, so that the map has one canonical image
    (`Canonical.ext`);
  * `Image.Succeeds`: each change of a run succeeds;
  * `insertions_perm`: runs are inserted in any order with the same result, or fail in
    every order.
-/
import BootSeal.Proofs.Image.Union
import Mathlib.Data.List.Sort

namespace BootSeal

/-! ## Longest runs -/

/-- A nonempty run of bytes that a byte map has, with nothing right before it and nothing
    right behind it. -/
structure Segment.IsRun (m : Nat → Option UInt8) (s : Segment) : Prop where
  nonempty : s.data ≠ []
  bytes : ∀ a, s.Holds a → m a = s.byteAt? a
  below : ∀ a, a + 1 = s.start.toNat → m a = none
  above : m s.stop = none

namespace Segment.IsRun

variable {m : Nat → Option UInt8} {s t : Segment}

theorem holds_start (hs : s.IsRun m) : s.Holds s.start.toNat := by
  have := List.length_pos_iff.2 hs.nonempty
  have := s.stop_eq
  exact ⟨Nat.le_refl _, by omega⟩

theorem ne_none (hs : s.IsRun m) {a : Nat} (ha : s.Holds a) : m a ≠ none := by
  rw [hs.bytes a ha, ← Option.isSome_iff_ne_none]
  exact isSome_byteAt?.2 ha

/-- A run that shares an address with another does not start above it. -/
theorem start_le (hs : s.IsRun m) (ht : t.IsRun m) {a : Nat} (hsa : s.Holds a) (hta : t.Holds a) :
    t.start.toNat ≤ s.start.toNat := by
  refine Nat.le_of_not_lt fun hlt => hs.ne_none (a := t.start.toNat - 1) ?_ (ht.below _ ?_)
  · have := hta.1
    have := hsa.2
    exact ⟨by omega, by omega⟩
  · omega

/-- Nor does it stop below it. -/
theorem stop_le (hs : s.IsRun m) (ht : t.IsRun m) {a : Nat} (hsa : s.Holds a) (hta : t.Holds a) :
    s.stop ≤ t.stop := by
  refine Nat.le_of_not_lt fun hlt => hs.ne_none (a := t.stop) ⟨?_, hlt⟩ ht.above
  have := hta.2
  have := hsa.1
  omega

/-- **Longest runs that share an address are the same.** -/
theorem eq (hs : s.IsRun m) (ht : t.IsRun m) {a : Nat} (hsa : s.Holds a) (hta : t.Holds a) :
    s = t := by
  have hstart : s.start.toNat = t.start.toNat :=
    Nat.le_antisymm (ht.start_le hs hta hsa) (hs.start_le ht hsa hta)
  have hstop : s.stop = t.stop := Nat.le_antisymm (hs.stop_le ht hsa hta) (ht.stop_le hs hta hsa)
  refine Segment.ext (UInt32.toNat_inj.1 hstart) (List.ext_getElem? fun i => ?_)
  have hbyte : ∀ u : Segment, u.byteAt? (u.start.toNat + i) = u.data[i]? := fun u => by
    rw [byteAt?, if_pos (Nat.le_add_right ..), Nat.add_sub_cancel_left]
  rw [← hbyte s, ← hbyte t, ← hstart]
  by_cases hi : s.start.toNat + i < s.stop
  · rw [← hs.bytes _ ⟨Nat.le_add_right .., hi⟩, ht.bytes _ ⟨by omega, hstop ▸ hi⟩]
  · rw [byteAt?_eq_none (Or.inr (by omega)), byteAt?_eq_none (Or.inr (by omega))]

end Segment.IsRun

namespace Image

namespace Canonical

variable {img img' : Image} (h : img.Canonical)
include h

theorem isRun_of_mem {s : Segment} (hs : s ∈ img.segments) : s.IsRun img.byteAt? := by
  refine ⟨h.nonempty s hs, fun a ha => h.byteAt?_of_mem hs ha.1 ha.2, fun a ha => ?_, ?_⟩
  · -- An address right below the start would lie in a segment that touches this one.
    refine Option.not_isSome_iff_eq_none.1 fun ho => ?_
    obtain ⟨t, ht, hle, hlt⟩ := occupied_iff.1 ho
    have := s.start_le_stop
    rcases h.apart hs ht with rfl | hst | hts <;> omega
  · exact Option.not_isSome_iff_eq_none.1 (h.not_occupied_stop hs)

/-- **The segments are the longest runs.** -/
theorem mem_segments_iff {s : Segment} : s ∈ img.segments ↔ s.IsRun img.byteAt? := by
  refine ⟨h.isRun_of_mem, fun hs => ?_⟩
  have ho : img.Occupied s.start.toNat := Option.isSome_iff_ne_none.2 (hs.ne_none hs.holds_start)
  obtain ⟨t, ht, hta⟩ := occupied_iff.1 ho
  exact hs.eq (h.isRun_of_mem ht) hs.holds_start hta ▸ ht

/-- **A byte map has one canonical image.** -/
theorem ext (h' : img'.Canonical) (hb : ∀ a, img.byteAt? a = img'.byteAt? a) : img = img' := by
  have hmap : img.byteAt? = img'.byteAt? := funext hb
  have hirrefl : Std.Irrefl fun s t : Segment => s.stop < t.start.toNat :=
    ⟨fun s => Nat.not_lt.2 s.start_le_stop⟩
  have hantisymm : Std.Antisymm fun s t : Segment => s.stop < t.start.toNat :=
    ⟨fun s t hst hts => by
      have := s.start_le_stop
      have := t.start_le_stop
      omega⟩
  have hsegments : img.segments = img'.segments :=
    h.separated.eq_of_mem_iff h'.separated fun s => by
      rw [h.mem_segments_iff, h'.mem_segments_iff, hmap]
  cases img
  cases img'
  exact congrArg Image.mk hsegments

end Canonical

/-! ## Insertions in any order -/

/-- Each change of a run succeeds. -/
def Succeeds (img : Image) : List Change → Prop
  | [] => True
  | c :: rest => (img.apply c).2 = .ok () ∧ Succeeds (img.apply c).1 rest

/-- Insertions of bytes at addresses, one after the other. -/
def insertions (blocks : List (UInt32 × Bytes)) : List Change :=
  blocks.map fun block => .insert block.1 block.2

/-- The runs that are inserted, as segments. -/
def segmentsOf (blocks : List (UInt32 × Bytes)) : List Segment :=
  blocks.map fun block => .ofBytes block.1 block.2

theorem succeeds_insertions_iff {img img' : Image} {blocks : List (UInt32 × Bytes)} :
    img.Succeeds (insertions blocks) ∧ img.after (insertions blocks) = img' ↔
      img.insertAll (segmentsOf blocks) = (img', .ok ()) := by
  induction blocks generalizing img with
  | nil => simp [insertions, segmentsOf, Succeeds, after, insertAll]
  | cons block rest ih =>
    rw [segmentsOf, List.map_cons, insertAll_cons_eq_ok, ← segmentsOf, insertions, List.map_cons,
      ← insertions, Succeeds, after, List.foldl_cons, ← after, Segment.start_ofBytes,
      Segment.data_ofBytes]
    cases hi : img.insert block.1 block.2 with
    | ok img₁ =>
      rw [apply_insert_of_ok hi]
      simp only [true_and, Except.ok.injEq, exists_eq_left', ih]
    | error f =>
      rw [apply_insert_of_error hi]
      simp

variable {img : Image}

/-- Insertions succeed in one order if they do in another, and the results are equal. -/
theorem Canonical.succeeds_perm (h : img.Canonical) {blocks blocks' : List (UInt32 × Bytes)}
    (hp : blocks.Perm blocks') (hs : img.Succeeds (insertions blocks)) :
    img.Succeeds (insertions blocks') ∧
      img.after (insertions blocks) = img.after (insertions blocks') := by
  have hsegments : (segmentsOf blocks).Perm (segmentsOf blocks') := hp.map _
  have hall := succeeds_insertions_iff.1 ⟨hs, rfl⟩
  obtain ⟨hspace, hapart, hfree⟩ := h.insertAll_eq_ok_iff.1 ⟨_, hall⟩
  have hapart' : (segmentsOf blocks').Pairwise Segment.Apart :=
    (hsegments.pairwise_iff fun hst a ht hs => hst a hs ht).1 hapart
  obtain ⟨img', hall'⟩ := h.insertAll_eq_ok_iff.2
    ⟨fun s hs => hspace s (hsegments.mem_iff.2 hs), hapart',
      fun s hs => hfree s (hsegments.mem_iff.2 hs)⟩
  obtain ⟨hs', hafter⟩ := succeeds_insertions_iff.2 hall'
  refine ⟨hs', (h.after _).ext (h.after _) fun a => Option.ext fun b => ?_⟩
  rw [hafter, byteAt?_insertAll_iff hall, byteAt?_insertAll_iff hall']
  simp only [hsegments.mem_iff]

/-- **Images do not remember how they were made.** Two images with the same byte map are
    equal. So runs that are inserted into an image give the same image in every order, and
    if one of them fails in one order, one of them fails in every order. -/
theorem insertions_perm :
    (∀ img img' : Image, img.Reachable → img'.Reachable →
      (∀ a, img.byteAt? a = img'.byteAt? a) → img = img') ∧
    ∀ (img : Image) (blocks blocks' : List (UInt32 × Bytes)), img.Reachable →
      blocks.Perm blocks' →
      (img.Succeeds (insertions blocks) ↔ img.Succeeds (insertions blocks')) ∧
      (img.Succeeds (insertions blocks) →
        img.after (insertions blocks) = img.after (insertions blocks')) := by
  refine ⟨fun img img' h h' => h.canonical.ext h'.canonical, fun img blocks blocks' h hp => ?_⟩
  have hc := h.canonical
  exact ⟨⟨fun hs => (hc.succeeds_perm hp hs).1, fun hs => (hc.succeeds_perm hp.symm hs).1⟩,
    fun hs => (hc.succeeds_perm hp hs).2⟩

/-- Three runs of which the last joins the two others, and runs that meet each other. -/
theorem insertions_perm_joined :
    let img := empty.after [.insert 0 [9]]
    let blocks : List (UInt32 × Bytes) := [(0x10, [1, 2]), (0x14, [5]), (0x12, [3, 4])]
    let blocks' : List (UInt32 × Bytes) := [(0x12, [3, 4]), (0x14, [5]), (0x10, [1, 2])]
    let meeting : List (UInt32 × Bytes) := [(0x10, [1, 2]), (0x11, [3])]
    (∀ a, img.byteAt? a = (empty.after [.ofBytes [9] 0]).byteAt? a) ∧
      img = empty.after [.ofBytes [9] 0] ∧
      img.Reachable ∧ blocks.Perm blocks' ∧ img.Succeeds (insertions blocks) ∧
      img.after (insertions blocks') = img.after (insertions blocks) ∧
      (img.after (insertions blocks)).ranges = [(0, 1), (0x10, 0x15)] ∧
      ¬ img.Succeeds (insertions meeting) ∧ ¬ img.Succeeds (insertions meeting.reverse) := by
  intro img blocks blocks' meeting
  have h : img.Reachable := ⟨_, rfl⟩
  have hp : blocks.Perm blocks' := by decide
  have hs : img.Succeeds (insertions blocks) := ⟨rfl, rfl, rfl, trivial⟩
  have hfails : ¬ img.Succeeds (insertions meeting) := fun hs => by cases hs.2.1
  have horder := (insertions_perm.2 img meeting meeting.reverse h (List.reverse_perm _).symm).1
  exact ⟨fun _ => rfl, insertions_perm.1 _ _ h ⟨_, rfl⟩ fun _ => rfl, h, hp, hs,
    ((insertions_perm.2 img blocks blocks' h hp).2 hs).symm, rfl, hfails, mt horder.2 hfails⟩

end Image

end BootSeal
