/-
  BootSeal — where bytes are embedded in an image.

  * `Image.alignedStop` is the least multiple of the word size above every occupied
    address (`Canonical.isLeast_alignedStop`); it may be the end of the address space;
  * `DefaultPlacement img bytes r` lists what an embedding without a given address can do
    (`Canonical.defaultPlacement`): it goes to that multiple, or there is no room;
  * `embed_some_eq_ok_iff`: with an address it is an insertion there;
  * `embed_placement`: hence exactly which embeddings succeed, and with which image.
-/
import BootSeal.Proofs.Image.Flat
import BootSeal.Proofs.Image.Growth
import Mathlib.Order.Bounds.Basic

namespace BootSeal.Image

/-- The first aligned address past the content, as a number. -/
def alignedStop (img : Image) : Nat := (img.stop + 3) / 4 * 4

/-! ## A given address -/

theorem embed_some_eq_ok_iff {img img' : Image} {o a : UInt32} {bytes : Bytes} :
    img.embed (some o) bytes = .ok (img', a) ↔ a = o ∧ img.insert o bytes = .ok img' := by
  constructor
  · intro h
    obtain ⟨ho, hi⟩ := embed_eq_ok h
    rcases ho with ho | ⟨ho, -⟩
    · cases ho
      exact ⟨rfl, hi⟩
    · cases ho
  · rintro ⟨rfl, hi⟩
    rw [embed]
    refine bind_of_eq_ok rfl ?_
    dsimp only
    rw [hi]
    rfl

theorem embed_some_of_error {img : Image} {o : UInt32} {bytes : Bytes} {f : PlacementFault}
    (h : img.insert o bytes = .error f) : img.embed (some o) bytes = .error f.toError := by
  rw [embed]
  refine bind_of_eq_ok rfl ?_
  dsimp only
  rw [h]
  rfl

/-! ## The default address -/

/-- The outcomes of an embedding of `bytes` without a given address. -/
inductive DefaultPlacement (img : Image) (bytes : Bytes) : Except Error (Image × UInt32) → Prop
  | noAddress : img.alignedStop = addressSpace →
      DefaultPlacement img bytes (.error (.configuration .noOffset))
  | past {a : UInt32} : a.toNat = img.alignedStop → addressSpace < a.toNat + bytes.length →
      DefaultPlacement img bytes (.error (.configuration (.pastAddressSpace a bytes.length)))
  | placed {a : UInt32} {img' : Image} : a.toNat = img.alignedStop →
      a.toNat + bytes.length ≤ addressSpace → img.insert a bytes = .ok img' →
      DefaultPlacement img bytes (.ok (img', a))

namespace DefaultPlacement

variable {img : Image} {bytes : Bytes} {r : Except Error (Image × UInt32)}

theorem fails_iff (hp : DefaultPlacement img bytes r) (hb : bytes ≠ []) :
    (∃ e, r = .error e) ↔
      img.alignedStop = addressSpace ∨ addressSpace < img.alignedStop + bytes.length := by
  have hpos := List.length_pos_iff.2 hb
  cases hp with
  | noAddress htop => exact iff_of_true ⟨_, rfl⟩ (Or.inl htop)
  | past ha hlt => exact iff_of_true ⟨_, rfl⟩ (Or.inr (ha ▸ hlt))
  | placed ha hfit =>
    refine iff_of_false (by rintro ⟨e, ⟨⟩⟩) ?_
    omega

theorem configuration (hp : DefaultPlacement img bytes r) {e : Error} (he : r = .error e) :
    ∃ cause, e = .configuration cause := by
  cases hp with
  | noAddress => cases he; exact ⟨_, rfl⟩
  | past => cases he; exact ⟨_, rfl⟩
  | placed => cases he

theorem address (hp : DefaultPlacement img bytes r) {img' : Image} {a : UInt32}
    (hr : r = .ok (img', a)) : a.toNat = img.alignedStop := by
  cases hp with
  | noAddress | past => cases hr
  | placed ha => cases hr; exact ha

end DefaultPlacement

namespace Canonical

variable {img : Image} (h : img.Canonical)
include h

theorem stop_le_addressSpace : img.stop ≤ addressSpace := by
  rw [h.stop_le_iff]
  intro a ha
  obtain ⟨s, hs, -, hlt⟩ := occupied_iff.1 ha
  exact Nat.lt_of_lt_of_le hlt (h.inSpace s hs)

/-- **The default place is the least aligned one above the content.** -/
theorem isLeast_alignedStop :
    IsLeast {n | 4 ∣ n ∧ ∀ a, img.Occupied a → a < n} img.alignedStop := by
  constructor
  · refine ⟨Nat.dvd_mul_left 4 _, h.stop_le_iff.1 ?_⟩
    rw [alignedStop]
    omega
  · rintro n ⟨hdvd, hn⟩
    have := h.stop_le_iff.2 hn
    rw [alignedStop]
    omega

theorem alignedStop_le : img.alignedStop ≤ addressSpace := by
  have := h.stop_le_addressSpace
  rw [alignedStop]
  simp only [addressSpace] at *
  omega

/-- **What an embedding at the default place does**: nothing is in the way there but the
    end of the address space. -/
theorem defaultPlacement (hfree : ¬ img.Full) {bytes : Bytes} (hb : bytes ≠ []) :
    DefaultPlacement img bytes (img.embed none bytes) := by
  cases hn : img.nextAligned with
  | error e =>
    have hembed : img.embed none bytes = .error e := by
      rw [embed, hn]
      rfl
    rw [hembed, h.nextAligned_eq_error hfree hn]
    refine .noAddress (Nat.le_antisymm h.alignedStop_le (Nat.le_of_not_lt fun hlt => ?_))
    -- A multiple below the end has a word, and so it would be the answer.
    have hword : (UInt32.ofNat img.alignedStop).toNat = img.alignedStop :=
      UInt32.toNat_ofNat_of_lt' hlt
    rw [h.nextAligned_eq_ok_iff.2 hword] at hn
    cases hn
  | ok a =>
    have ha : a.toNat = img.alignedStop := h.nextAligned_eq_ok_iff.1 hn
    have hembed : img.embed none bytes = img.embed (some a) bytes := by
      rw [embed, embed, hn]
    rw [hembed]
    by_cases hfit : a.toNat + bytes.length ≤ addressSpace
    · have habove := h.isLeast_alignedStop.1.2
      obtain ⟨img', hi⟩ := h.insert_eq_ok_iff.2 <| Or.inr ⟨hfit, fun x hx _ ho => by
        have := habove x ho
        omega⟩
      rw [embed_some_eq_ok_iff.2 ⟨rfl, hi⟩]
      exact .placed ha hfit hi
    · have hlt := Nat.lt_of_not_le hfit
      rw [embed_some_of_error (insert_past hb hlt)]
      exact .past ha hlt

/-- Bytes go to a given address exactly if they stay within the address space and meet no
    occupied address. -/
theorem exists_embed_some_iff {bytes : Bytes} (hb : bytes ≠ []) (o : UInt32) :
    (∃ out, img.embed (some o) bytes = .ok out) ↔ o.toNat + bytes.length ≤ addressSpace ∧
      ∀ a, o.toNat ≤ a → a < o.toNat + bytes.length → ¬ img.Occupied a := by
  have hinsert := h.insert_eq_ok_iff (a := o) (d := bytes)
  rw [or_iff_right hb] at hinsert
  rw [← hinsert]
  constructor
  · rintro ⟨⟨img', a⟩, he⟩
    exact ⟨img', (embed_some_eq_ok_iff.1 he).2⟩
  · rintro ⟨img', hi⟩
    exact ⟨(img', o), embed_some_eq_ok_iff.2 ⟨rfl, hi⟩⟩

end Canonical

/-! ## Either -/

/-- **Where bytes go.** Without a given address they go to the least multiple of 4 above
    every occupied address, zero in an empty image, and follow the flat bytes after less
    than a word of erased flash; this fails only if that multiple or the end of the bytes
    is past the address space, and never for an overlap. At a given address they go
    exactly if they stay within the address space and meet no occupied address. Wherever
    they go, they are read there, and the image keeps every byte. -/
theorem embed_placement {img : Image} (hr : img.Reachable) (hfree : ¬ img.Full) {bytes : Bytes}
    (hb : bytes ≠ []) :
    (∃ place, IsLeast {n | 4 ∣ n ∧ ∀ a, img.Occupied a → a < n} place ∧
      (img.isEmpty = true → place = 0) ∧
      ((∃ e, img.embed none bytes = .error e) ↔
        place = addressSpace ∨ addressSpace < place + bytes.length) ∧
      (∀ e, img.embed none bytes = .error e → ∃ cause, e = .configuration cause) ∧
      ∀ img' a, img.embed none bytes = .ok (img', a) → a.toNat = place ∧
        ∃ k < 4, img'.flatten = img.flatten ++ List.replicate k 0xff ++ bytes) ∧
    (∀ o, (∃ out, img.embed (some o) bytes = .ok out) ↔
      o.toNat + bytes.length ≤ addressSpace ∧
        ∀ a, o.toNat ≤ a → a < o.toNat + bytes.length → ¬ img.Occupied a) ∧
    ∀ offset img' a, img.embed offset bytes = .ok (img', a) →
      (∀ o, offset = some o → a = o) ∧ img'.read? a bytes.length = some bytes ∧
        img.Within img' := by
  have h := hr.canonical
  have hplaced := h.defaultPlacement hfree hb
  refine ⟨⟨img.alignedStop, h.isLeast_alignedStop, ?_, hplaced.fails_iff hb, ?_, ?_⟩, ?_, ?_⟩
  · intro hempty
    obtain ⟨segments⟩ := img
    cases List.isEmpty_iff.1 hempty
    rfl
  · intro e he
    exact hplaced.configuration he
  · intro img' a he
    obtain ⟨-, k, -, hk, -, hflat⟩ := h.flatten_embed hb he
    exact ⟨hplaced.address he, k, hk, hflat⟩
  · exact h.exists_embed_some_iff hb
  · intro offset img' a he
    obtain ⟨ho, hi⟩ := embed_eq_ok he
    refine ⟨?_, h.read?_insert hb hi, within_insert hi⟩
    rintro o rfl
    rcases ho with ho | ⟨ho, -⟩
    · cases ho
      rfl
    · cases ho

/-- Twelve bytes fill the last three words behind an image that ends in the word before,
    and thirteen have no place. -/
theorem embed_placement_last_words :
    let img := empty.after [.insert 0x1000 [7], .insert 0xfffffff0 [1]]
    let bytes : Bytes := List.replicate 12 9
    img.Reachable ∧ ¬ img.Full ∧ bytes ≠ [] ∧
      (∃ img', img.embed none bytes = .ok (img', 0xfffffff4) ∧
        (∃ k < 4, img'.flatten = img.flatten ++ List.replicate k 0xff ++ bytes) ∧
        img'.read? 0xfffffff4 12 = some bytes ∧ img.Within img') ∧
      ∃ e, img.embed none (9 :: bytes) = .error e := by
  intro img bytes
  have hr : img.Reachable := ⟨_, rfl⟩
  have hfree : ¬ img.Full := by
    intro hfull
    have hzero : (img.byteAt? 0).isSome = true := hfull 0 (by decide)
    exact absurd hzero (by decide)
  have hb : bytes ≠ [] := by decide
  obtain ⟨img', he⟩ : ∃ img', img.embed none bytes = .ok (img', 0xfffffff4) := ⟨_, rfl⟩
  obtain ⟨⟨place, hleast, -, -, -, hplace⟩, -, hread⟩ := embed_placement hr hfree hb
  obtain ⟨hat, hflat⟩ := hplace img' _ he
  obtain ⟨-, hbytes, hkept⟩ := hread none img' _ he
  obtain ⟨⟨place', hleast', -, hfails, -⟩, -⟩ :=
    embed_placement hr hfree (List.cons_ne_nil 9 bytes)
  have hsame : place' = 0xfffffff4 := (hleast'.unique hleast).trans hat.symm
  have hlong := hfails.2 (Or.inr (by rw [hsame]; decide))
  exact ⟨hr, hfree, hb, ⟨img', he, hflat, hbytes, hkept⟩, hlong⟩

end BootSeal.Image
