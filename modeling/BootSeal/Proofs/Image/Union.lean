/-
  BootSeal — segments inserted one after the other are the union of their byte maps.

  * `Segment.Holds`: the addresses of a segment; `Segment.Apart`: two segments have none
    in common;
  * `occupied_insert`, `byteAt?_insert_iff`: one insertion adds the addresses and the
    bytes of its run;
  * `Canonical.insertAll_eq_ok_iff`: all segments of a list find their place exactly if
    each ends within the address space, and neither two of them nor one of them and the
    image have an address in common;
  * `byteAt?_insertAll_iff`: then the image holds its own bytes and theirs.
-/
import BootSeal.Proofs.Image.Change

namespace BootSeal

/-! ## Addresses of segments -/

namespace Segment

/-- The address lies in the segment. -/
def Holds (s : Segment) (a : Nat) : Prop := s.start.toNat ≤ a ∧ a < s.stop

/-- The segments have no address in common. -/
def Apart (s t : Segment) : Prop := ∀ a, s.Holds a → ¬ t.Holds a

theorem ofBytes_data (s : Segment) : ofBytes s.start s.data = s := Segment.ext rfl rfl

theorem holds_ofBytes {a : UInt32} {d : Bytes} {x : Nat} :
    (ofBytes a d).Holds x ↔ a.toNat ≤ x ∧ x < a.toNat + d.length := by
  simp only [Holds, start_ofBytes, stop_ofBytes]

theorem stop_le_of_data_eq_nil {s : Segment} (hd : s.data = []) : s.stop ≤ addressSpace := by
  have := s.start.toNat_lt
  rw [stop_eq, hd]
  unfold addressSpace
  simp only [List.length_nil]
  omega

end Segment

namespace Image

/-! ## One insertion -/

section
variable {img img' : Image} {a : UInt32} {d : Bytes} (hi : img.insert a d = .ok img')
include hi

theorem occupied_insert (x : Nat) :
    img'.Occupied x ↔ img.Occupied x ∨ (Segment.ofBytes a d).Holds x := by
  rw [Segment.holds_ofBytes, Occupied, byteAt?_insert hi]
  split_ifs with hin
  · refine iff_of_true ?_ (Or.inr hin)
    rw [isSome_getElem?]
    omega
  · exact (or_iff_left hin).symm

theorem byteAt?_insert_iff {x : Nat} {b : UInt8} :
    img'.byteAt? x = some b ↔
      img.byteAt? x = some b ∨ (Segment.ofBytes a d).byteAt? x = some b := by
  constructor
  · intro hx
    rw [byteAt?_insert hi] at hx
    split_ifs at hx with hin
    · right
      rwa [Segment.byteAt?, Segment.start_ofBytes, Segment.data_ofBytes, if_pos hin.1]
    · exact Or.inl hx
  · rintro (hx | hx)
    · exact byteAt?_insert_of_some hi hx
    · have hin := Segment.isSome_byteAt?.1 (Option.isSome_of_mem hx)
      rw [Segment.byteAt?, if_pos hin.1] at hx
      rw [Segment.start_ofBytes, Segment.stop_ofBytes] at hin
      rwa [byteAt?_insert hi, if_pos hin]

end

/-- A segment has a place exactly if it ends within the address space and none of its
    addresses is occupied. -/
theorem Canonical.insert_segment_iff {img : Image} (h : img.Canonical) (s : Segment) :
    (∃ img', img.insert s.start s.data = .ok img') ↔
      s.stop ≤ addressSpace ∧ ∀ a, s.Holds a → ¬ img.Occupied a := by
  rw [h.insert_eq_ok_iff, ← s.stop_eq]
  constructor
  · rintro (hd | ⟨hs, hfree⟩)
    · refine ⟨Segment.stop_le_of_data_eq_nil hd, ?_⟩
      rintro a ⟨hle, hlt⟩
      rw [s.stop_eq, hd, List.length_nil] at hlt
      omega
    · exact ⟨hs, fun a ha => hfree a ha.1 ha.2⟩
  · rintro ⟨hs, hfree⟩
    exact Or.inr ⟨hs, fun a h1 h2 => hfree a ⟨h1, h2⟩⟩

/-! ## Insertions one after the other -/

theorem insertAll_cons_eq_ok {img img' : Image} {s : Segment} {rest : List Segment} :
    img.insertAll (s :: rest) = (img', .ok ()) ↔
      ∃ img₁, img.insert s.start s.data = .ok img₁ ∧ img₁.insertAll rest = (img', .ok ()) := by
  rw [insertAll]
  cases img.insert s.start s.data with
  | ok img₁ => simp
  | error => simp

/-- **A list of segments finds its place** exactly if each of them ends within the address
    space, and no address is asked for twice or occupied already. -/
theorem Canonical.insertAll_eq_ok_iff {img : Image} (h : img.Canonical) {l : List Segment} :
    (∃ img', img.insertAll l = (img', .ok ())) ↔
      (∀ s ∈ l, s.stop ≤ addressSpace) ∧ l.Pairwise Segment.Apart ∧
        ∀ s ∈ l, ∀ a, s.Holds a → ¬ img.Occupied a := by
  induction l generalizing img with
  | nil => simp [Image.insertAll]
  | cons s rest ih =>
    simp only [insertAll_cons_eq_ok, List.forall_mem_cons, List.pairwise_cons]
    constructor
    · rintro ⟨img', img₁, hi, hrest⟩
      obtain ⟨hs, hfree⟩ := (h.insert_segment_iff s).1 ⟨img₁, hi⟩
      obtain ⟨hstops, hapart, hfrees⟩ := (ih (h.insert hi)).1 ⟨img', hrest⟩
      simp only [occupied_insert hi, Segment.ofBytes_data, not_or] at hfrees
      exact ⟨⟨hs, hstops⟩, ⟨fun t ht a hsa hta => (hfrees t ht a hta).2 hsa, hapart⟩, hfree,
        fun t ht a hta => (hfrees t ht a hta).1⟩
    · rintro ⟨⟨hs, hstops⟩, ⟨haparts, hapart⟩, hfree, hfrees⟩
      obtain ⟨img₁, hi⟩ := (h.insert_segment_iff s).2 ⟨hs, hfree⟩
      obtain ⟨img', hrest⟩ := (ih (h.insert hi)).2 ⟨hstops, hapart, fun t ht a hta => by
        rw [occupied_insert hi, Segment.ofBytes_data]
        rintro (ho | hsa)
        · exact hfrees t ht a hta ho
        · exact haparts t ht a hsa hta⟩
      exact ⟨img', img₁, hi, hrest⟩

/-- **The image holds its own bytes and those of the segments.** -/
theorem byteAt?_insertAll_iff {img img' : Image} {l : List Segment}
    (hall : img.insertAll l = (img', .ok ())) {x : Nat} {b : UInt8} :
    img'.byteAt? x = some b ↔ img.byteAt? x = some b ∨ ∃ s ∈ l, s.byteAt? x = some b := by
  induction l generalizing img with
  | nil =>
    cases hall
    simp
  | cons s rest ih =>
    obtain ⟨img₁, hi, hrest⟩ := insertAll_cons_eq_ok.1 hall
    rw [ih hrest, byteAt?_insert_iff hi, Segment.ofBytes_data, or_assoc]
    simp

end Image

end BootSeal
