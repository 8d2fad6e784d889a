/-
  BootSeal — insertion into an image as the union of partial byte maps.

  * `Insertion img a d r` lists what the insertion of `d` at `a` can do
    (`insert_insertion`): nothing, refuse a run past the last address, refuse one
    that meets a segment, or place it;
  * `byteAt?_place`: a placed segment adds its bytes and leaves the others, whichever
    neighbours it is joined with;
  * `Canonical.insert`: insertion keeps segments nonempty, in the address space and
    apart;
  * `insert_above`: a run above the content becomes the last segment, or continues it.
-/
import BootSeal.Image.Basic
import Mathlib.Tactic.SplitIfs

namespace BootSeal

/-! ## Segments -/

namespace Segment

theorem start_le_stop (s : Segment) : s.start.toNat ≤ s.stop := Nat.le_add_right ..

@[simp] theorem stop_ofBytes (a : UInt32) (d : Bytes) :
    (ofBytes a d).stop = a.toNat + d.length := by
  rw [stop_eq, start_ofBytes, data_ofBytes]

theorem stop_append {s t : Segment} (h : s.stop = t.start.toNat) : (s.append t).stop = t.stop := by
  have hs := s.stop_eq
  rw [stop_eq, data_append, start_append, List.length_append, t.stop_eq]
  omega

theorem meets_iff {s : Segment} {lo hi : Nat} :
    s.meets lo hi = true ↔ s.start.toNat < hi ∧ lo < s.stop := by
  simp [meets]

theorem isSome_byteAt? {s : Segment} {a : Nat} :
    (s.byteAt? a).isSome ↔ s.start.toNat ≤ a ∧ a < s.stop := by
  rw [byteAt?, stop_eq]
  split
  · simp only [isSome_getElem?]; omega
  · simp only [Option.isSome_none, Bool.false_eq_true, false_iff]; omega

theorem byteAt?_eq_none {s : Segment} {a : Nat} (h : a < s.start.toNat ∨ s.stop ≤ a) :
    s.byteAt? a = none := by
  rw [← Option.not_isSome_iff_eq_none, isSome_byteAt?]; omega

theorem byteAt?_append {s t : Segment} (h : s.stop = t.start.toNat) (a : Nat) :
    (s.append t).byteAt? a = (s.byteAt? a).or (t.byteAt? a) := by
  rw [stop_eq] at h
  simp only [byteAt?, start_append, data_append, List.getElem?_append]
  by_cases hs : s.start.toNat ≤ a
  · by_cases ht : t.start.toNat ≤ a
    · have hn : s.data[a - s.start.toNat]? = none := List.getElem?_eq_none (by omega)
      rw [if_pos hs, if_pos hs, if_pos ht, if_neg (by omega), hn, Option.none_or]
      congr 1; omega
    · rw [if_pos hs, if_pos hs, if_neg ht, if_pos (by omega), Option.or_none]
  · rw [if_neg hs, if_neg hs, if_neg (by omega), Option.none_or]

/-- The bytes of a segment and of one above it do not get into each other's way. -/
theorem byteAt?_or_comm {s t : Segment} (h : t.stop ≤ s.start.toNat) (a : Nat) (o : Option UInt8) :
    (t.byteAt? a).or ((s.byteAt? a).or o) = (s.byteAt? a).or ((t.byteAt? a).or o) := by
  by_cases ha : a < s.start.toNat
  · rw [byteAt?_eq_none (Or.inl ha), Option.none_or, Option.none_or]
  · rw [byteAt?_eq_none (s := t) (Or.inr (by omega)), Option.none_or, Option.none_or]

end Segment

namespace Image

/-! ## Byte maps -/

theorem byteAt?_cons (s : Segment) (l : List Segment) (a : Nat) :
    byteAt? ⟨s :: l⟩ a = (s.byteAt? a).or (byteAt? ⟨l⟩ a) := by
  simp only [byteAt?, List.findSome?_cons]
  cases s.byteAt? a <;> rfl

theorem byteAt?_joinRight (s : Segment) (l : List Segment) (a : Nat) :
    byteAt? ⟨joinRight s l⟩ a = (s.byteAt? a).or (byteAt? ⟨l⟩ a) := by
  cases l with
  | nil => rw [joinRight, byteAt?_cons]
  | cons t rest =>
    rw [joinRight]
    split_ifs with h
    · rw [byteAt?_cons, byteAt?_cons, Segment.byteAt?_append h, Option.or_assoc]
    · rw [byteAt?_cons]

/-- **A placed segment adds its bytes to those of the others.** -/
theorem byteAt?_place (s : Segment) (l : List Segment) (a : Nat) :
    byteAt? ⟨place s l⟩ a = (s.byteAt? a).or (byteAt? ⟨l⟩ a) := by
  induction l with
  | nil => rw [place, byteAt?_cons]
  | cons t rest ih =>
    rw [place]
    split_ifs with h1 h2
    · rw [byteAt?_cons, byteAt?_cons, ih, Segment.byteAt?_or_comm (Nat.le_of_lt h1)]
    · rw [byteAt?_joinRight, byteAt?_cons, Segment.byteAt?_append h2, Option.or_assoc,
        Segment.byteAt?_or_comm (Nat.le_of_eq h2)]
    · rw [byteAt?_joinRight]

theorem occupied_iff {img : Image} {a : Nat} :
    img.Occupied a ↔ ∃ s ∈ img.segments, s.start.toNat ≤ a ∧ a < s.stop := by
  simp only [Occupied, byteAt?, List.findSome?_isSome_iff, Segment.isSome_byteAt?]

/-! ## Placing keeps the form -/

/-- What holds of a segment and of others, and is kept by joining, holds of all of
    them after the segment is placed. -/
theorem forall_mem_joinRight {P : Segment → Prop}
    (hP : ∀ {s t : Segment}, s.stop = t.start.toNat → P s → P t → P (s.append t))
    {s : Segment} (hs : P s) : ∀ {l : List Segment}, (∀ t ∈ l, P t) → ∀ u ∈ joinRight s l, P u
  | [], _ => by simpa [joinRight] using hs
  | t :: rest, hl => by
    obtain ⟨ht, hrest⟩ := List.forall_mem_cons.1 hl
    rw [joinRight]
    split_ifs with h
    · exact List.forall_mem_cons.2 ⟨hP h hs ht, hrest⟩
    · exact List.forall_mem_cons.2 ⟨hs, hl⟩

@[inherit_doc forall_mem_joinRight]
theorem forall_mem_place {P : Segment → Prop}
    (hP : ∀ {s t : Segment}, s.stop = t.start.toNat → P s → P t → P (s.append t))
    {s : Segment} (hs : P s) : ∀ {l : List Segment}, (∀ t ∈ l, P t) → ∀ u ∈ place s l, P u
  | [], _ => by simpa [place] using hs
  | t :: rest, hl => by
    obtain ⟨ht, hrest⟩ := List.forall_mem_cons.1 hl
    rw [place]
    split_ifs with h1 h2
    · exact List.forall_mem_cons.2 ⟨ht, forall_mem_place hP hs hrest⟩
    · exact forall_mem_joinRight hP (hP h2 ht hs) hrest
    · exact forall_mem_joinRight hP hs hl

theorem pairwise_joinRight {s : Segment} {l : List Segment} (hs : ∀ t ∈ l, s.stop ≤ t.start.toNat)
    (hl : l.Pairwise fun s t => s.stop < t.start.toNat) :
    (joinRight s l).Pairwise fun s t => s.stop < t.start.toNat := by
  cases l with
  | nil => simp [joinRight]
  | cons t rest =>
    obtain ⟨ht, hrest⟩ := List.pairwise_cons.1 hl
    rw [joinRight]
    split_ifs with h
    · exact List.pairwise_cons.2 ⟨fun u hu => Segment.stop_append h ▸ ht u hu, hrest⟩
    · have hst : s.stop < t.start.toNat := Nat.lt_of_le_of_ne (hs t (by simp)) h
      refine List.pairwise_cons.2 ⟨List.forall_mem_cons.2 ⟨hst, fun u hu => ?_⟩, hl⟩
      have := t.start_le_stop
      have := ht u hu
      omega

/-- A segment that meets none of the others stands apart from all it is not joined
    with. -/
theorem pairwise_place {s : Segment} {l : List Segment}
    (hs : ∀ t ∈ l, t.stop ≤ s.start.toNat ∨ s.stop ≤ t.start.toNat)
    (hl : l.Pairwise fun s t => s.stop < t.start.toNat) :
    (place s l).Pairwise fun s t => s.stop < t.start.toNat := by
  induction l with
  | nil => simp [place]
  | cons t rest ih =>
    obtain ⟨ht, hrest⟩ := List.pairwise_cons.1 hl
    obtain ⟨hst, hsrest⟩ := List.forall_mem_cons.1 hs
    have htt := t.start_le_stop
    rw [place]
    split_ifs with h1 h2
    · refine List.pairwise_cons.2 ⟨?_, ih hsrest hrest⟩
      exact forall_mem_place (P := fun u => t.stop < u.start.toNat) (fun _ hu _ => hu) h1 ht
    · refine pairwise_joinRight (fun u hu => ?_) hrest
      have := ht u hu
      have := u.start_le_stop
      rw [Segment.stop_append h2]
      rcases hsrest u hu with h | h <;> omega
    · refine pairwise_joinRight (fun u hu => ?_) hl
      rcases List.mem_cons.1 hu with rfl | hu
      · omega
      · have := ht u hu
        omega

/-! ## What an insertion does -/

/-- The outcomes of the insertion of `d` at `a`. -/
inductive Insertion (img : Image) (a : UInt32) (d : Bytes) : Except PlacementFault Image → Prop
  | nothing : d = [] → Insertion img a d (.ok img)
  | past : d ≠ [] → addressSpace < a.toNat + d.length →
      Insertion img a d (.error (.pastAddressSpace a d.length))
  | overlap {below above : List Segment} {t : Segment} : d ≠ [] →
      a.toNat + d.length ≤ addressSpace → img.segments = below ++ t :: above →
      (∀ s ∈ below, ¬ s.meets a.toNat (a.toNat + d.length)) →
      t.meets a.toNat (a.toNat + d.length) →
      Insertion img a d (.error (.overlap a d.length t.start.toNat t.stop))
  | placed : d ≠ [] → a.toNat + d.length ≤ addressSpace →
      (∀ s ∈ img.segments, ¬ s.meets a.toNat (a.toNat + d.length)) →
      Insertion img a d (.ok ⟨place (.ofBytes a d) img.segments⟩)

theorem insert_insertion (img : Image) (a : UInt32) (d : Bytes) :
    Insertion img a d (img.insert a d) := by
  rw [insert_eq]
  split_ifs with hd hs
  · exact .nothing (List.isEmpty_iff.1 hd)
  · exact .past (mt List.isEmpty_iff.2 hd) hs
  · split
    · next t ht =>
      obtain ⟨hm, below, above, he, hb⟩ := List.find?_eq_some_iff_append.1 ht
      exact .overlap (mt List.isEmpty_iff.2 hd) (Nat.le_of_not_lt hs) he
        (fun s hs => by simpa using hb s hs) hm
    · next hn =>
      exact .placed (mt List.isEmpty_iff.2 hd) (Nat.le_of_not_lt hs) (List.find?_eq_none.1 hn)

theorem insert_placed {img : Image} {a : UInt32} {d : Bytes} (hd : d ≠ [])
    (hs : a.toNat + d.length ≤ addressSpace)
    (hm : ∀ s ∈ img.segments, ¬ s.meets a.toNat (a.toNat + d.length)) :
    img.insert a d = .ok ⟨place (.ofBytes a d) img.segments⟩ := by
  rw [insert_eq, if_neg (mt List.isEmpty_iff.1 hd), if_neg (Nat.not_lt.2 hs), List.find?_eq_none.2 hm]

/-- **Insertion is the union of byte maps.** -/
theorem byteAt?_insert {img img' : Image} {a : UInt32} {d : Bytes} (h : img.insert a d = .ok img')
    (x : Nat) :
    img'.byteAt? x =
      if a.toNat ≤ x ∧ x < a.toNat + d.length then d[x - a.toNat]? else img.byteAt? x := by
  have hi := insert_insertion img a d
  rw [h] at hi
  cases hi with
  | nothing hd => subst hd; rw [if_neg (by simp)]
  | placed hd hs hm =>
    rw [byteAt?_place, Segment.byteAt?, Segment.start_ofBytes, Segment.data_ofBytes]
    split_ifs with h1 h2 h2
    · rw [List.getElem?_eq_getElem (by omega), Option.some_or]
    · rw [List.getElem?_eq_none (by omega), Option.none_or]
    · omega
    · rw [Option.none_or]

/-- An insertion changes no byte that is there. -/
theorem byteAt?_insert_of_some {img img' : Image} {a : UInt32} {d : Bytes}
    (h : img.insert a d = .ok img') {x : Nat} {b : UInt8} (hx : img.byteAt? x = some b) :
    img'.byteAt? x = some b := by
  have hi := insert_insertion img a d
  rw [h] at hi
  cases hi with
  | nothing => exact hx
  | placed hd hs hm =>
    have ho : img.Occupied x := by rw [Occupied, hx]; rfl
    obtain ⟨s, hs, h1, h2⟩ := occupied_iff.1 ho
    have hmeets := hm s hs
    rw [Segment.meets_iff] at hmeets
    rw [byteAt?_insert h, if_neg (by omega), hx]

/-- Insertions that succeed are followed by the next ones. -/
theorem insertAll_append {img img' : Image} {l l' : List Segment}
    (h : img.insertAll l = (img', .ok ())) : img.insertAll (l ++ l') = img'.insertAll l' := by
  induction l generalizing img with
  | nil => cases h; rfl
  | cons s rest ih =>
    rw [insertAll] at h
    rw [List.cons_append, insertAll]
    cases hi : img.insert s.start s.data with
    | ok img₁ => rw [hi] at h; exact ih h
    | error => rw [hi] at h; cases h

/-! ## Canonical images -/

namespace Canonical

variable {img : Image} (h : img.Canonical)
include h

theorem start_lt_stop {s : Segment} (hs : s ∈ img.segments) : s.start.toNat < s.stop := by
  have := List.length_pos_iff.2 (h.nonempty s hs)
  rw [s.stop_eq]; omega

/-- An address lies in one segment at most. -/
theorem byteAt?_of_mem {s : Segment} (hs : s ∈ img.segments) {a : Nat} (h1 : s.start.toNat ≤ a)
    (h2 : a < s.stop) : img.byteAt? a = s.byteAt? a := by
  obtain ⟨segments⟩ := img
  have hl := h.separated
  clear h
  induction segments with
  | nil => cases hs
  | cons t rest ih =>
    obtain ⟨ht, hrest⟩ := List.pairwise_cons.1 hl
    rw [byteAt?_cons]
    rcases List.mem_cons.1 hs with rfl | hs
    · obtain ⟨b, hb⟩ := Option.isSome_iff_exists.1 (Segment.isSome_byteAt?.2 ⟨h1, h2⟩)
      rw [hb, Option.some_or]
    · have := ht s hs
      rw [Segment.byteAt?_eq_none (s := t) (Or.inr (by omega)), Option.none_or, ih hs hrest]

theorem apart {s t : Segment} (hs : s ∈ img.segments) (ht : t ∈ img.segments) :
    s = t ∨ s.stop < t.start.toNat ∨ t.stop < s.start.toNat :=
  List.Pairwise.forall_of_forall_of_flip
    (R := fun s t => s = t ∨ s.stop < t.start.toNat ∨ t.stop < s.start.toNat)
    (fun _ _ => Or.inl rfl) (h.separated.imp fun hst => Or.inr (Or.inl hst))
    (h.separated.imp fun hst => Or.inr (Or.inr hst)) hs ht

/-- The address at which a segment stops is not occupied. -/
theorem not_occupied_stop {s : Segment} (hs : s ∈ img.segments) : ¬ img.Occupied s.stop := by
  rw [occupied_iff]
  rintro ⟨t, ht, h1, h2⟩
  have := s.start_le_stop
  rcases h.apart hs ht with rfl | hst | hst <;> omega

theorem insert {img' : Image} {a : UInt32} {d : Bytes} (hi : img.insert a d = .ok img') :
    img'.Canonical := by
  have hc := insert_insertion img a d
  rw [hi] at hc
  cases hc with
  | nothing => exact h
  | placed hd hs hm =>
    refine ⟨?_, ?_, pairwise_place (fun t ht => ?_) h.separated⟩
    · refine forall_mem_place (P := fun s => s.data ≠ []) (fun _ hs _ => ?_)
        (s := .ofBytes a d) hd h.nonempty
      rw [Segment.data_append]
      exact List.append_ne_nil_of_left_ne_nil hs _
    · refine forall_mem_place (P := fun s => s.stop ≤ addressSpace) (fun hst _ ht => ?_)
        (s := .ofBytes a d) (by rwa [Segment.stop_ofBytes]) h.inSpace
      rwa [Segment.stop_append hst]
    · have := hm t ht
      rw [Segment.meets_iff] at this
      rw [Segment.stop_ofBytes, Segment.start_ofBytes]
      omega

end Canonical

/-! ## Runs above the content -/

theorem place_above {s : Segment} {l : List Segment} (hl : ∀ t ∈ l, t.stop < s.start.toNat) :
    place s l = l ++ [s] := by
  induction l with
  | nil => rfl
  | cons t rest ih =>
    obtain ⟨ht, hrest⟩ := List.forall_mem_cons.1 hl
    rw [place, if_pos ht, ih hrest, List.cons_append]

theorem place_continue {s t : Segment} {l : List Segment} (hl : ∀ u ∈ l, u.stop < s.start.toNat)
    (ht : t.stop = s.start.toNat) : place s (l ++ [t]) = l ++ [t.append s] := by
  induction l with
  | nil => rw [List.nil_append, place, if_neg (by omega), if_pos ht, joinRight, List.nil_append]
  | cons u rest ih =>
    obtain ⟨hu, hrest⟩ := List.forall_mem_cons.1 hl
    rw [List.cons_append, place, if_pos hu, ih hrest, List.cons_append]

/-- A run that no segment reaches becomes the last segment. -/
theorem insert_above {l : List Segment} {a : UInt32} {d : Bytes} (hd : d ≠ [])
    (hs : a.toNat + d.length ≤ addressSpace) (hl : ∀ t ∈ l, t.stop < a.toNat) :
    insert ⟨l⟩ a d = .ok ⟨l ++ [.ofBytes a d]⟩ := by
  rw [insert_placed hd hs fun t ht => ?_, place_above hl]
  have := hl t ht
  rw [Segment.meets_iff]; omega

/-- A run that begins where the last segment stops continues it. -/
theorem insert_continue {l : List Segment} {t : Segment} {a : UInt32} {d : Bytes} (hd : d ≠ [])
    (hs : a.toNat + d.length ≤ addressSpace) (hl : ∀ u ∈ l, u.stop < a.toNat)
    (ht : t.stop = a.toNat) :
    insert ⟨l ++ [t]⟩ a d = .ok ⟨l ++ [t.append (.ofBytes a d)]⟩ := by
  rw [insert_placed hd hs fun u hu => ?_, place_continue hl ht]
  rw [Segment.meets_iff]
  rcases List.mem_append.1 hu with hu | hu
  · have := hl u hu
    omega
  · rw [List.mem_singleton.1 hu]; omega

end Image

end BootSeal
