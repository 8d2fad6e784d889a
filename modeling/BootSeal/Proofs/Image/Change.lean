/-
  BootSeal — images as runs of changes make them.

  * `Image.apply` is one change, which may fail: what the image is afterwards, and
    the error; `Image.after` is a run of them, failed ones included;
  * `Reachable` images are those that a run makes of the empty one;
  * `Canonical.apply`, `Canonical.after`: a change, and so a run, keeps the
    canonical form, hence every reachable image has it (`after_empty_separated`);
  * `insert_refines_union`: on reachable images insertion is exactly the union of
    partial byte maps, with exactly the errors that it should have.
-/
import BootSeal.Block.Basic
import BootSeal.Proofs.Image.Insert
import BootSeal.Proofs.Result

namespace BootSeal

/-- A change to an image. `ofBytes` and `ofHex` put a new image in its place. -/
inductive Change where
  | insert (address : UInt32) (data : Bytes)
  | merge (other : Image)
  | ofBytes (data : Bytes) (address : UInt32)
  | ofHex (text : String)
  | embed (offset : Option UInt32) (bytes : Bytes)
  deriving DecidableEq, Repr

namespace Image

/-- An image with another in its place, unless there is none. -/
def replaced (img : Image) : Except Error Image → Image × Except Error Unit
  | .ok img' => (img', .ok ())
  | .error e => (img, .error e)

/-- The image after a change, and why the change failed if it did. What a failed
    merge has inserted stays. -/
def apply (img : Image) : Change → Image × Except Error Unit
  | .insert address data => img.replaced ((img.insert address data).mapError (·.toError))
  | .merge other => ((img.merge other).1, (img.merge other).2.mapError (·.toError))
  | .ofBytes data address => img.replaced ((Image.ofBytes data address).mapError (·.toError))
  | .ofHex text => img.replaced ((IntelHex.read text).mapError (·.toError hexSource))
  | .embed offset bytes => img.replaced ((·.1) <$> img.embed offset bytes)

/-- The image after a run of changes, whether they fail or not. -/
def after (img : Image) (changes : List Change) : Image :=
  changes.foldl (fun img c => (img.apply c).1) img

/-- The images that a run of changes makes of the empty one. -/
def Reachable (img : Image) : Prop := ∃ changes, empty.after changes = img

/-! ## The canonical form is kept -/

/-- What an embedding that succeeds has done. -/
theorem embed_eq_ok {img img' : Image} {offset : Option UInt32} {bytes : Bytes} {a : UInt32}
    (h : img.embed offset bytes = .ok (img', a)) :
    (offset = some a ∨ offset = none ∧ img.nextAligned = .ok a) ∧
      img.insert a bytes = .ok img' := by
  have hplace : ∀ o, img.embed (some o) bytes = .ok (img', a) →
      o = a ∧ img.insert a bytes = .ok img' := by
    intro o ho
    obtain ⟨_, ho', ho⟩ := bind_eq_ok.1 ho
    cases ho'
    dsimp only at ho
    split at ho
    · next hi => cases ho; exact ⟨rfl, hi⟩
    · cases ho
  cases offset with
  | some o =>
    obtain ⟨rfl, hi⟩ := hplace o h
    exact ⟨Or.inl rfl, hi⟩
  | none =>
    obtain ⟨o, hn, h⟩ := bind_eq_ok.1 h
    obtain ⟨rfl, hi⟩ := hplace o h
    exact ⟨Or.inr ⟨rfl, hn⟩, hi⟩

namespace Canonical

variable {img : Image} (h : img.Canonical)
include h

theorem insertAll (l : List Segment) : (img.insertAll l).1.Canonical := by
  induction l generalizing img with
  | nil => exact h
  | cons s rest ih =>
    rw [Image.insertAll]
    split
    · next hi => exact ih (h.insert hi)
    · exact h

theorem readLines {base : UInt32} {lines : List (List Char)} {img' : Image}
    (hr : IntelHex.readLines base img lines = .ok img') : img'.Canonical := by
  induction lines generalizing base img with
  | nil => cases hr; exact h
  | cons line rest ih =>
    rw [IntelHex.readLines] at hr
    split at hr
    · exact ih h hr
    · split at hr
      · cases hr
      · cases hr; exact h
      · split at hr
        · next hi => exact ih (h.insert hi) hr
        · cases hr
      all_goals exact ih h hr

/-- **A change keeps the canonical form**, whether it fails or not. -/
theorem apply (c : Change) : (img.apply c).1.Canonical := by
  cases c with
  | insert a d =>
    rw [Image.apply]
    cases hi : img.insert a d with
    | ok img' => exact h.insert hi
    | error => exact h
  | merge other => exact h.insertAll other.segments
  | ofBytes d a =>
    rw [Image.apply]
    cases hi : Image.ofBytes d a with
    | ok img' => exact canonical_empty.insert hi
    | error => exact h
  | ofHex text =>
    rw [Image.apply]
    cases hr : IntelHex.read text with
    | ok img' => exact canonical_empty.readLines hr
    | error => exact h
  | embed offset bytes =>
    rw [Image.apply]
    cases he : img.embed offset bytes with
    | ok out => exact h.insert (embed_eq_ok he).2
    | error => exact h

theorem after (changes : List Change) : (img.after changes).Canonical := by
  induction changes generalizing img with
  | nil => exact h
  | cons c rest ih => exact ih (h.apply c)

end Canonical

theorem Reachable.canonical {img : Image} : img.Reachable → img.Canonical := by
  rintro ⟨changes, rfl⟩; exact canonical_empty.after changes

/-- **The representation invariant.** After any run of changes, failed ones
    included, segments are nonempty, end within the address space, and each stops
    before the next one starts. -/
theorem after_empty_separated (changes : List Change) :
    let segments := (empty.after changes).segments
    (∀ s ∈ segments, s.data ≠ []) ∧
      (∀ s ∈ segments, s.start.toNat + s.data.length ≤ addressSpace) ∧
      ∀ i (hi : i + 1 < segments.length),
        segments[i].start.toNat + segments[i].data.length < segments[i + 1].start.toNat := by
  have h := canonical_empty.after changes
  refine ⟨h.nonempty, fun s hs => ?_, fun i hi => ?_⟩
  · rw [← s.stop_eq]; exact h.inSpace s hs
  · rw [← Segment.stop_eq]
    exact List.pairwise_iff_getElem.1 h.separated i (i + 1) (by omega) hi (by omega)

/-! ## Insertion refines the union of byte maps -/

/-- The range from `start` to `stop` is the lowest of the image that meets the one
    from `lo` to `hi`. -/
structure LowestMet (img : Image) (lo hi start stop : Nat) : Prop where
  mem : (start, stop) ∈ img.ranges
  meets : start < hi ∧ lo < stop
  lowest : ∀ r ∈ img.ranges, r.1 < hi ∧ lo < r.2 → start ≤ r.1

/-- A segment that meets a nonempty range has an address in it. -/
theorem Canonical.occupied_of_meets {img : Image} (h : img.Canonical) {s : Segment}
    (hs : s ∈ img.segments) {lo hi : Nat} (hlt : lo < hi) (hm : s.meets lo hi) :
    ∃ x, lo ≤ x ∧ x < hi ∧ img.Occupied x := by
  have := h.start_lt_stop hs
  rw [Segment.meets_iff] at hm
  exact ⟨max lo s.start.toNat, by omega, by omega, occupied_iff.2 ⟨s, hs, by omega, by omega⟩⟩

theorem Canonical.lowestMet {img : Image} (h : img.Canonical) {below above : List Segment}
    {t : Segment} {lo hi : Nat} (he : img.segments = below ++ t :: above)
    (hb : ∀ s ∈ below, ¬ s.meets lo hi) (hm : t.meets lo hi) :
    LowestMet img lo hi t.start.toNat t.stop := by
  have hsep := h.separated
  rw [he] at hsep
  obtain ⟨-, hsep, -⟩ := List.pairwise_append.1 hsep
  refine ⟨List.mem_map.2 ⟨t, by simp [he], rfl⟩, Segment.meets_iff.1 hm, ?_⟩
  rintro r hr hrm
  obtain ⟨s, hs, rfl⟩ := List.mem_map.1 hr
  rw [he] at hs
  rcases List.mem_append.1 hs with hs | hs
  · exact absurd (Segment.meets_iff.2 hrm) (hb s hs)
  · rcases List.mem_cons.1 hs with rfl | hs
    · exact Nat.le_refl _
    · have := t.start_le_stop
      have := (List.pairwise_cons.1 hsep).1 s hs
      omega

/-- Insertion succeeds exactly if there is nothing to insert, or the run fits and no
    address of it is occupied. -/
theorem Canonical.insert_eq_ok_iff {img : Image} (h : img.Canonical) {a : UInt32} {d : Bytes} :
    (∃ img', img.insert a d = .ok img') ↔ d = [] ∨ a.toNat + d.length ≤ addressSpace ∧
      ∀ x, a.toNat ≤ x → x < a.toNat + d.length → ¬ img.Occupied x := by
  constructor
  · rintro ⟨img', hr⟩
    have hi := insert_insertion img a d
    rw [hr] at hi
    cases hi with
    | nothing hd => exact Or.inl hd
    | placed hd hs hm =>
      refine Or.inr ⟨hs, fun x h1 h2 hx => ?_⟩
      obtain ⟨s, hs, h3, h4⟩ := occupied_iff.1 hx
      exact hm s hs (Segment.meets_iff.2 ⟨by omega, by omega⟩)
  · intro hfree
    by_cases hd : d = []
    · subst hd
      exact ⟨img, rfl⟩
    · obtain ⟨hs, hfree⟩ := hfree.resolve_left hd
      refine ⟨_, insert_placed hd hs fun s hs hm => ?_⟩
      have := List.length_pos_iff.2 hd
      obtain ⟨x, h1, h2, hx⟩ := h.occupied_of_meets hs (Nat.lt_add_of_pos_right this) hm
      exact hfree x h1 h2 hx

theorem insert_past {img : Image} {a : UInt32} {d : Bytes} (hd : d ≠ [])
    (hs : addressSpace < a.toNat + d.length) :
    img.insert a d = .error (.pastAddressSpace a d.length) := by
  rw [insert_eq, if_neg (mt List.isEmpty_iff.1 hd), if_pos hs]

/-- A run that fits is refused only for the lowest range that it meets. -/
theorem Canonical.insert_eq_error {img : Image} (h : img.Canonical) {a : UInt32} {d : Bytes}
    {f : PlacementFault} (hf : img.insert a d = .error f)
    (hs : a.toNat + d.length ≤ addressSpace) : ∃ first last,
      LowestMet img a.toNat (a.toNat + d.length) first last ∧
        f = .overlap a d.length first last := by
  have hi := insert_insertion img a d
  rw [hf] at hi
  cases hi with
  | past _ hlt => exact absurd hs (Nat.not_le.2 hlt)
  | overlap _ _ he hb hm => exact ⟨_, _, h.lowestMet he hb hm, rfl⟩

theorem apply_insert_of_ok {img img' : Image} {a : UInt32} {d : Bytes}
    (h : img.insert a d = .ok img') : img.apply (.insert a d) = (img', .ok ()) := by
  rw [apply, h]; rfl

theorem apply_insert_of_error {img : Image} {a : UInt32} {d : Bytes} {f : PlacementFault}
    (h : img.insert a d = .error f) : img.apply (.insert a d) = (img, .error f.toError) := by
  rw [apply, h]; rfl

/-- **Insertion is the union of partial byte maps.** It succeeds exactly if there is
    nothing to insert, or the run fits and meets no occupied address; then it adds
    the bytes of the run and nothing else. A run past the last address is refused as
    such first, any other for the lowest range that it meets, and a refused run
    leaves the image as it was. -/
theorem insert_refines_union {img : Image} (h : img.Reachable) (a : UInt32) (d : Bytes) :
    let img' := (img.apply (.insert a d)).1
    let result := (img.apply (.insert a d)).2
    let stop := a.toNat + d.length
    (result = .ok () ↔
      d = [] ∨ stop ≤ addressSpace ∧ ∀ x, a.toNat ≤ x → x < stop → ¬ img.Occupied x) ∧
    (result = .ok () → ∀ x, img'.byteAt? x =
      if a.toNat ≤ x ∧ x < stop then d[x - a.toNat]? else img.byteAt? x) ∧
    (d ≠ [] → addressSpace < stop →
      result = .error (.configuration (.pastAddressSpace a d.length))) ∧
    (∀ e, result = .error e → stop ≤ addressSpace → ∃ first last,
      LowestMet img a.toNat stop first last ∧ e = .overlap a d.length first last) ∧
    (∀ e, result = .error e → img' = img) := by
  have hc := h.canonical
  cases hr : img.insert a d with
  | ok img' =>
    rw [apply_insert_of_ok hr]
    refine ⟨⟨fun _ => hc.insert_eq_ok_iff.1 ⟨img', hr⟩, fun _ => rfl⟩,
      fun _ => byteAt?_insert hr, fun hd hlt => ?_, nofun, nofun⟩
    rw [insert_past hd hlt] at hr
    cases hr
  | error f =>
    rw [apply_insert_of_error hr]
    refine ⟨⟨nofun, fun hfree => ?_⟩, nofun, fun hd hlt => ?_, fun e he hle => ?_, fun _ _ => rfl⟩
    · obtain ⟨img', hok⟩ := hc.insert_eq_ok_iff.2 hfree
      rw [hr] at hok
      cases hok
    · rw [insert_past hd hlt] at hr
      cases hr; rfl
    · obtain ⟨first, last, hm, rfl⟩ := hc.insert_eq_error hr hle
      cases he
      exact ⟨first, last, hm, rfl⟩

/-- A run between two segments joins them: every byte of the three is in place. -/
theorem insert_refines_union_bridge :
    let img := empty.after [.insert 0x10 [1, 2], .insert 0x14 [5]]
    img.Reachable ∧ (img.apply (.insert 0x12 [3, 4])).2 = .ok () ∧
      ∀ x, (img.apply (.insert 0x12 [3, 4])).1.byteAt? x =
        if 0x12 ≤ x ∧ x < 0x14 then [3, 4][x - 0x12]? else img.byteAt? x := by
  intro img
  have h : img.Reachable := ⟨_, rfl⟩
  exact ⟨h, rfl, (insert_refines_union h 0x12 [3, 4]).2.1 rfl⟩

end Image

end BootSeal
