/-
  BootSeal — how far an image reaches, and its flat bytes in these terms.

  * `Image.stop` is one past the highest occupied address, zero for an empty image;
    `Canonical.stop_le_iff`, `Canonical.minAddress?_eq_some_iff` and
    `Canonical.maxAddress_eq` say so, `Canonical.nextAligned_eq_ok_iff` rounds it up;
  * `Image.Full` images occupy every address, and have no default place for a block;
  * `Canonical.getElem?_flatten`: the flat bytes are those from the lowest address on,
    with erased flash where the image has none;
  * `Canonical.flatten_insert_above`: a run above the content comes after the flat
    bytes and a gap, which `Canonical.flatten_embed` bounds for the default place.
-/
import BootSeal.Proofs.Image.Union

namespace BootSeal.Image

/-- The image occupies every address. -/
def Full (img : Image) : Prop := ∀ a < addressSpace, img.Occupied a

/-- One past the highest occupied address. -/
def stop (img : Image) : Nat := img.segments.foldr (fun s n => max s.stop n) 0

theorem stop_cons (s : Segment) (l : List Segment) : stop ⟨s :: l⟩ = max s.stop (stop ⟨l⟩) := rfl

theorem stop_le_stop {img : Image} {s : Segment} (hs : s ∈ img.segments) : s.stop ≤ img.stop := by
  obtain ⟨segments⟩ := img
  induction segments with
  | nil => cases hs
  | cons t rest ih =>
    rw [stop_cons]
    rcases List.mem_cons.1 hs with rfl | hs
    · exact Nat.le_max_left ..
    · exact Nat.le_trans (ih hs) (Nat.le_max_right ..)

theorem lt_stop {img : Image} {a : Nat} (ha : img.Occupied a) : a < img.stop := by
  obtain ⟨s, hs, -, hlt⟩ := occupied_iff.1 ha
  exact Nat.lt_of_lt_of_le hlt (stop_le_stop hs)

theorem byteAt?_eq_none_of_stop_le {img : Image} {a : Nat} (ha : img.stop ≤ a) :
    img.byteAt? a = none :=
  Option.not_isSome_iff_eq_none.1 fun h => Nat.not_le.2 (lt_stop h) ha

theorem stop_mem {img : Image} (h : img.segments ≠ []) : ∃ s ∈ img.segments, s.stop = img.stop := by
  obtain ⟨segments⟩ := img
  induction segments with
  | nil => exact absurd rfl h
  | cons s rest ih =>
    rw [stop_cons]
    by_cases hrest : rest = []
    · exact ⟨s, List.mem_cons_self, by rw [hrest]; exact (Nat.max_zero _).symm⟩
    · obtain ⟨t, ht, htop⟩ := ih hrest
      rcases Nat.le_total s.stop (stop ⟨rest⟩) with hle | hle
      · exact ⟨t, List.mem_cons_of_mem _ ht, htop.trans (Nat.max_eq_right hle).symm⟩
      · exact ⟨s, List.mem_cons_self, (Nat.max_eq_left hle).symm⟩

theorem minAddress?_eq_none_iff {img : Image} : img.minAddress? = none ↔ img.segments = [] := by
  rw [minAddress?, Option.map_eq_none_iff, List.head?_eq_none_iff]

/-- The first aligned address past an address, unless it is the end of the address
    space. -/
theorem wordPast_eq_some_iff {last a : UInt32} :
    (Address.add? (last / wordSize) 1).bind (Address.mul? wordSize) = some a ↔
      a.toNat = (last.toNat / 4 + 1) * 4 := by
  have hl := last.toNat_lt
  have h32 : UInt32.size = 4294967296 := rfl
  have hwords : Address.add? (last / wordSize) 1 =
      some (UInt32.ofNat (last.toNat / 4 + 1)) := by
    rw [Address.add?_eq_some_iff, UInt32.toNat_ofNat_of_lt' (by omega), UInt32.toNat_div]
    rfl
  rw [hwords, Option.bind_some, Address.mul?_eq_some_iff, UInt32.toNat_ofNat_of_lt' (by omega),
    Nat.mul_comm]
  rfl

namespace Canonical

variable {img : Image} (h : img.Canonical)
include h

/-! ## The ends -/

theorem occupied_start {s : Segment} (hs : s ∈ img.segments) : img.Occupied s.start.toNat :=
  occupied_iff.2 ⟨s, hs, Nat.le_refl _, h.start_lt_stop hs⟩

theorem stop_le_iff {n : Nat} : img.stop ≤ n ↔ ∀ a, img.Occupied a → a < n := by
  constructor
  · exact fun hle a ha => Nat.lt_of_lt_of_le (lt_stop ha) hle
  · intro hn
    by_cases hnil : img.segments = []
    · simp [stop, hnil]
    · obtain ⟨s, hs, htop⟩ := stop_mem hnil
      have hlt := h.start_lt_stop hs
      have hlast := hn (s.stop - 1) (occupied_iff.2 ⟨s, hs, by omega, by omega⟩)
      omega

theorem stop_of_getLast? {s : Segment} (hs : img.segments.getLast? = some s) :
    s.stop = img.stop := by
  obtain ⟨l, hl⟩ := List.getLast?_eq_some_iff.1 hs
  have hsep := h.separated
  rw [hl] at hsep
  refine Nat.le_antisymm (stop_le_stop (List.mem_of_getLast? hs)) (h.stop_le_iff.2 fun a ha => ?_)
  obtain ⟨t, ht, -, hlt⟩ := occupied_iff.1 ha
  rw [hl] at ht
  rcases List.mem_append.1 ht with ht | ht
  · have := (List.pairwise_append.1 hsep).2.2 t ht s (by simp)
    have := s.start_le_stop
    omega
  · exact List.mem_singleton.1 ht ▸ hlt

/-- The lowest address of the image is occupied, and none below it is. -/
theorem minAddress?_eq_some_iff {a : UInt32} :
    img.minAddress? = some a ↔ img.Occupied a.toNat ∧ ∀ x, img.Occupied x → a.toNat ≤ x := by
  have hfirst : ∀ {s rest}, img.segments = s :: rest →
      img.Occupied s.start.toNat ∧ ∀ x, img.Occupied x → s.start.toNat ≤ x := by
    intro s rest he
    refine ⟨h.occupied_start (by simp [he]), fun x hx => ?_⟩
    have hsep := h.separated
    obtain ⟨t, ht, hle, -⟩ := occupied_iff.1 hx
    rw [he] at ht hsep
    rcases List.mem_cons.1 ht with rfl | ht
    · exact hle
    · have := s.start_le_stop
      have := (List.pairwise_cons.1 hsep).1 t ht
      omega
  rw [minAddress?]
  cases he : img.segments with
  | nil =>
    refine ⟨nofun, fun ⟨ho, _⟩ => ?_⟩
    obtain ⟨s, hs, -⟩ := occupied_iff.1 ho
    rw [he] at hs
    cases hs
  | cons s rest =>
    obtain ⟨ho, hleast⟩ := hfirst he
    rw [List.head?_cons, Option.map_some, Option.some_inj]
    constructor
    · rintro rfl
      exact ⟨ho, hleast⟩
    · rintro ⟨ha, hleast'⟩
      exact UInt32.toNat_inj.1 (Nat.le_antisymm (hleast _ ha) (hleast' _ ho))

/-- The highest address of the image. There is no word for the length of an image that
    occupies every address, and so no answer. -/
theorem maxAddress_eq {s : Segment} (hs : img.segments.getLast? = some s) :
    if s.content.size = addressSpace then img.maxAddress = .error .overflow
    else ∃ a, img.maxAddress = .ok (some a) ∧ a.toNat + 1 = img.stop := by
  have htop := h.stop_of_getLast? hs
  have hspace := h.inSpace s (List.mem_of_getLast? hs)
  have hpos := h.start_lt_stop (List.mem_of_getLast? hs)
  have hstop : s.stop = s.start.toNat + s.content.size := rfl
  have h32 : addressSpace = UInt32.size := rfl
  rw [maxAddress, hs]
  dsimp only
  split_ifs with hfull
  · rw [hfull]; rfl
  · have hsize : Address.sub? (UInt32.ofNat s.content.size) 1 =
        some (UInt32.ofNat (s.content.size - 1)) := by
      rw [Address.sub?_eq_some_iff, UInt32.toNat_ofNat_of_lt' (by omega),
        UInt32.toNat_ofNat_of_lt' (by omega)]
      exact Nat.sub_add_cancel (by omega)
    have hlast : Address.add? s.start (UInt32.ofNat (s.content.size - 1)) =
        some (UInt32.ofNat (img.stop - 1)) := by
      rw [Address.add?_eq_some_iff, UInt32.toNat_ofNat_of_lt' (by omega),
        UInt32.toNat_ofNat_of_lt' (by omega)]
      omega
    rw [hsize, Option.bind_some, hlast]
    exact ⟨_, rfl, by rw [UInt32.toNat_ofNat_of_lt' (by omega)]; omega⟩

/-- **The default place of a block** is the first aligned address past the content. -/
theorem nextAligned_eq_ok_iff {a : UInt32} :
    img.nextAligned = .ok a ↔ a.toNat = (img.stop + 3) / 4 * 4 := by
  have ha := a.toNat_lt
  rw [nextAligned]
  cases hs : img.segments.getLast? with
  | none =>
    have hnil := List.getLast?_eq_none_iff.1 hs
    have hstop : img.stop = 0 := by simp [stop, hnil]
    rw [maxAddress, hs, hstop]
    dsimp only
    rw [Except.ok.injEq, eq_comm, ← UInt32.toNat_inj]
    rfl
  | some s =>
    have hmax := h.maxAddress_eq hs
    have hspace := h.inSpace s (List.mem_of_getLast? hs)
    have htop := h.stop_of_getLast? hs
    have hstop : s.stop = s.start.toNat + s.content.size := rfl
    split_ifs at hmax with hfull
    · rw [hmax]
      simp only [addressSpace] at *
      refine ⟨nofun, fun h => ?_⟩
      omega
    · obtain ⟨last, hlast, hnext⟩ := hmax
      have hround : (img.stop + 3) / 4 * 4 = (last.toNat / 4 + 1) * 4 := by omega
      rw [hlast, hround, ← wordPast_eq_some_iff]
      dsimp only
      cases (Address.add? (last / wordSize) 1).bind (Address.mul? wordSize) with
      | none => exact ⟨nofun, nofun⟩
      | some b => rw [Except.ok.injEq, Option.some_inj]

/-- A segment as long as the address space is the only one, and begins at zero. -/
theorem full_iff {s : Segment} (hs : s ∈ img.segments) :
    img.Full ↔ s.content.size = addressSpace := by
  have hstop : s.stop = s.start.toNat + s.content.size := rfl
  have hspace := h.inSpace s hs
  constructor
  · intro hfull
    obtain ⟨t, ht, hle, hlt⟩ := occupied_iff.1 (hfull 0 (by decide))
    -- The segment at address zero cannot stop before the end of the address space.
    have htop : t.stop = addressSpace := Nat.le_antisymm (h.inSpace t ht) <| Nat.not_lt.1
      fun hlow => h.not_occupied_stop ht (hfull _ hlow)
    have := s.start.toNat_lt
    have h32 : addressSpace = 4294967296 := rfl
    rcases h.apart hs ht with rfl | hbelow | habove <;> omega
  · intro hsize a ha
    exact occupied_iff.2 ⟨s, hs, by omega, by omega⟩

theorem maxAddress_of_full (hfull : img.Full) : img.maxAddress = .error .overflow := by
  obtain ⟨t, ht, -⟩ := occupied_iff.1 (hfull 0 (by decide))
  cases hs : img.segments.getLast? with
  | none => rw [List.getLast?_eq_none_iff.1 hs] at ht; cases ht
  | some s =>
    have hmax := h.maxAddress_eq hs
    rwa [if_pos ((h.full_iff (List.mem_of_getLast? hs)).1 hfull)] at hmax

theorem nextAligned_of_full (hfull : img.Full) : img.nextAligned = .error .arithmetic := by
  rw [nextAligned, h.maxAddress_of_full hfull]

/-- Unless the image is full, there is a default place, or the content reaches into the
    last word of the address space. -/
theorem nextAligned_eq_error (hfree : ¬ img.Full) {e : Error} (he : img.nextAligned = .error e) :
    e = .configuration .noOffset := by
  rw [nextAligned] at he
  cases hs : img.segments.getLast? with
  | none =>
    rw [maxAddress, hs] at he
    cases he
  | some s =>
    have hmax := h.maxAddress_eq hs
    rw [if_neg (mt (h.full_iff (List.mem_of_getLast? hs)).2 hfree)] at hmax
    obtain ⟨last, hlast, -⟩ := hmax
    rw [hlast] at he
    dsimp only at he
    split at he
    · cases he
    · cases he
      rfl

end Canonical

/-! ## Flat bytes -/

/-- From an address that no segment lies below, the bytes of segments stand one after
    the other, with erased flash in between. -/
theorem getElem?_flattenFrom {base : UInt32} {filled : Nat} {l : List Segment}
    (hl : l.Pairwise fun s t => s.stop < t.start.toNat)
    (hb : ∀ s ∈ l, base.toNat + filled ≤ s.start.toNat) (i : Nat) :
    (flattenFrom base filled l)[i]? = if base.toNat + filled + i < stop ⟨l⟩ then
      some ((byteAt? ⟨l⟩ (base.toNat + filled + i)).getD erased) else none := by
  induction l generalizing filled i with
  | nil => rfl
  | cons s rest ih =>
    obtain ⟨hs, hrest⟩ := List.pairwise_cons.1 hl
    have hle := hb s List.mem_cons_self
    have hstop := s.stop_eq
    have hoffset : (s.start - base).toNat = s.start.toNat - base.toNat :=
      UInt32.toNat_sub_of_le _ _ (UInt32.le_iff_toNat_le.2 (by omega))
    have hafter : ∀ t ∈ rest,
        base.toNat + ((s.start - base).toNat + s.data.length) ≤ t.start.toNat := fun t ht => by
      have := hs t ht
      omega
    have hnone : ∀ a < s.stop, byteAt? ⟨rest⟩ a = none := fun a ha =>
      Option.not_isSome_iff_eq_none.1 fun ho => by
        obtain ⟨t, ht, hta, -⟩ := occupied_iff.1 ho
        have := hs t ht
        omega
    rw [flattenFrom, stop_cons, byteAt?_cons, List.append_assoc]
    -- In the gap, in the segment, or after it.
    rcases Nat.lt_or_ge i ((s.start - base).toNat - filled) with hgap | hgap
    · rw [List.getElem?_append_left (by rwa [List.length_replicate]), List.getElem?_replicate,
        if_pos hgap, if_pos (by omega), Segment.byteAt?_eq_none (Or.inl (by omega)),
        hnone _ (by omega)]
      rfl
    · rw [List.getElem?_append_right (by rwa [List.length_replicate]), List.length_replicate]
      rcases Nat.lt_or_ge (i - ((s.start - base).toNat - filled)) s.data.length with hin | hin
      · rw [List.getElem?_append_left hin, if_pos (by omega), Segment.byteAt?, if_pos (by omega),
          hnone _ (by omega), Option.or_none, List.getElem?_eq_getElem hin,
          List.getElem?_eq_getElem (by omega), Option.getD_some]
        congr 2; omega
      · rw [List.getElem?_append_right hin, ih hrest hafter,
          Segment.byteAt?_eq_none (s := s) (Or.inr (by omega)),
          Option.none_or]
        have hsame : base.toNat + ((s.start - base).toNat + s.data.length) +
            (i - ((s.start - base).toNat - filled) - s.data.length) = base.toNat + filled + i := by
          omega
        have hmax : base.toNat + filled + i < max s.stop (stop ⟨rest⟩) ↔
            base.toNat + filled + i < stop ⟨rest⟩ := by omega
        simp only [hsame, hmax]

namespace Canonical

variable {img : Image} (h : img.Canonical)
include h

/-- **Flat bytes are exact**: they begin with the lowest address, end with the highest
    one, and are the bytes of the image, with erased flash where it has none. -/
theorem getElem?_flatten {base : UInt32} (hbase : img.minAddress? = some base) (i : Nat) :
    img.flatten[i]? = if base.toNat + i < img.stop then
      some ((img.byteAt? (base.toNat + i)).getD erased) else none := by
  have hle : ∀ s ∈ img.segments, base.toNat + 0 ≤ s.start.toNat := fun s hs =>
    (h.minAddress?_eq_some_iff.1 hbase).2 _ (h.occupied_start hs)
  rw [flatten, hbase]
  exact getElem?_flattenFrom h.separated hle i

theorem add_length_flatten {base : UInt32} (hbase : img.minAddress? = some base) :
    base.toNat + img.flatten.length = img.stop := by
  have hle : ∀ i, img.flatten.length ≤ i ↔ img.stop ≤ base.toNat + i := fun i => by
    rw [← List.getElem?_eq_none_iff, h.getElem?_flatten hbase, ← Nat.not_lt]
    split_ifs with hi <;> simp [hi]
  have hpos := lt_stop (h.minAddress?_eq_some_iff.1 hbase).1
  have hend := hle img.flatten.length
  have hlast := hle (img.stop - base.toNat)
  have hbefore := hle (img.stop - base.toNat - 1)
  omega

theorem length_flatten_le : img.flatten.length ≤ addressSpace := by
  cases hbase : img.minAddress? with
  | none =>
    rw [flatten, hbase]
    exact Nat.zero_le _
  | some base =>
    have hlen := h.add_length_flatten hbase
    have hne : img.segments ≠ [] := fun hnil => by
      rw [minAddress?_eq_none_iff.2 hnil] at hbase
      cases hbase
    obtain ⟨s, hs, hstop⟩ := stop_mem hne
    have hspace := h.inSpace s hs
    omega

/-! ## Runs above the content -/

/-- The flat bytes end where the content does, and those of an empty image wherever a
    run begins. -/
theorem end_flatten {a : UInt32} (ha : img.stop ≤ a.toNat) :
    img.stop ≤ (img.minAddress?.getD a).toNat + img.flatten.length ∧
      (img.minAddress?.getD a).toNat + img.flatten.length ≤ a.toNat := by
  cases hm : img.minAddress? with
  | none => simpa [flatten, hm] using ha
  | some base =>
    rw [Option.getD_some, h.add_length_flatten hm]
    exact ⟨Nat.le_refl _, ha⟩

section
variable {img' : Image} {a : UInt32} {d : Bytes} (hi : img.insert a d = .ok img') (hd : d ≠ [])
  (ha : img.stop ≤ a.toNat)
include hi hd ha

theorem stop_insert_above : img'.stop = a.toNat + d.length := by
  have hpos := List.length_pos_iff.2 hd
  refine Nat.le_antisymm ((h.insert hi).stop_le_iff.2 fun x hx => ?_) ?_
  · rcases (occupied_insert hi x).1 hx with hx | hx
    · exact Nat.lt_of_lt_of_le (lt_stop hx) (by omega)
    · exact (Segment.holds_ofBytes.1 hx).2
  · have hlast : img'.Occupied (a.toNat + d.length - 1) :=
      (occupied_insert hi _).2 (Or.inr (Segment.holds_ofBytes.2 (by omega)))
    have := lt_stop hlast
    omega

theorem minAddress?_insert_above : img'.minAddress? = some (img.minAddress?.getD a) := by
  have hpos := List.length_pos_iff.2 hd
  rw [(h.insert hi).minAddress?_eq_some_iff]
  simp only [occupied_insert hi, Segment.holds_ofBytes]
  cases hb : img.minAddress? with
  | none =>
    have hnil : ∀ x, ¬ img.Occupied x := fun x hx => by
      obtain ⟨s, hs, -⟩ := occupied_iff.1 hx
      rw [minAddress?_eq_none_iff.1 hb] at hs
      cases hs
    rw [Option.getD_none]
    exact ⟨Or.inr ⟨Nat.le_refl _, by omega⟩, fun x hx => (hx.resolve_left (hnil x)).1⟩
  | some base =>
    obtain ⟨ho, hleast⟩ := h.minAddress?_eq_some_iff.1 hb
    have := lt_stop ho
    refine ⟨Or.inl ho, fun x hx => hx.elim (hleast x) fun hx => ?_⟩
    rw [Option.getD_some]
    omega

/-- **A run above the content** comes after the flat bytes, with erased flash between
    the two. -/
theorem flatten_insert_above : img'.flatten = img.flatten ++
    List.replicate (a.toNat - ((img.minAddress?.getD a).toNat + img.flatten.length)) erased ++
      d := by
  have hc := h.insert hi
  have hbase := h.minAddress?_insert_above hi hd ha
  have hstop := h.stop_insert_above hi hd ha
  obtain ⟨htop, hle⟩ := h.end_flatten ha
  generalize hb : img.minAddress?.getD a = base at hbase htop hle ⊢
  have hfront : ∀ i < img.flatten.length,
      img.flatten[i]? = some ((img.byteAt? (base.toNat + i)).getD erased) := fun i hlt => by
    cases hm : img.minAddress? with
    | none => simp [flatten, hm] at hlt
    | some b =>
      rw [hm, Option.getD_some] at hb
      have hlen := h.add_length_flatten hm
      rw [h.getElem?_flatten hm, hb, if_pos (by rw [← hb]; omega)]
  refine List.ext_getElem? fun i => ?_
  rw [hc.getElem?_flatten hbase, hstop, byteAt?_insert hi, List.append_assoc]
  -- Among the old flat bytes, in the gap, or in the run.
  rcases Nat.lt_or_ge i img.flatten.length with hin | hin
  · rw [List.getElem?_append_left hin, hfront i hin, if_pos (by omega), if_neg (by omega)]
  · rw [List.getElem?_append_right hin]
    rcases Nat.lt_or_ge (base.toNat + i) a.toNat with hgap | hrun
    · rw [List.getElem?_append_left (by rw [List.length_replicate]; omega),
        if_pos (by omega), if_neg (by omega), byteAt?_eq_none_of_stop_le (by omega),
        List.getElem?_replicate, if_pos (by omega), Option.getD_none]
    · rw [List.getElem?_append_right (by rw [List.length_replicate]; omega), List.length_replicate]
      have hsame : i - img.flatten.length - (a.toNat - (base.toNat + img.flatten.length)) =
          base.toNat + i - a.toNat := by omega
      rw [hsame]
      split_ifs with h1 h2
      · rw [List.getElem?_eq_getElem (by omega), Option.getD_some]
      · omega
      · rw [List.getElem?_eq_none (by omega)]

end

/-- A run above the content, or none at all, only extends the flat bytes. -/
theorem flatten_prefix_insert {img' : Image} {a : UInt32} {d : Bytes}
    (hi : img.insert a d = .ok img') (ha : ∀ x, img.Occupied x → x < a.toNat) :
    img.flatten <+: img'.flatten := by
  by_cases hd : d = []
  · subst hd
    cases hi
    exact List.prefix_refl _
  · rw [h.flatten_insert_above hi hd (h.stop_le_iff.2 ha), List.append_assoc]
    exact List.prefix_append _ _

/-- **Bytes embedded at the default place** come after the flat bytes and less than a
    word of erased flash. -/
theorem flatten_embed {img' : Image} {a : UInt32} {bytes : Bytes} (hb : bytes ≠ [])
    (he : img.embed none bytes = .ok (img', a)) : ∃ base k, img'.minAddress? = some base ∧
      k < 4 ∧ a.toNat = base.toNat + (img.flatten.length + k) ∧
      img'.flatten = img.flatten ++ List.replicate k erased ++ bytes := by
  obtain ⟨ho, hi⟩ := embed_eq_ok he
  have hnext := h.nextAligned_eq_ok_iff.1 (ho.resolve_left nofun).2
  have ha : img.stop ≤ a.toNat := by omega
  obtain ⟨htop, hle⟩ := h.end_flatten ha
  exact ⟨_, _, h.minAddress?_insert_above hi hb ha, by omega, by omega,
    h.flatten_insert_above hi hb ha⟩

end Canonical

/-- The flat bytes of a single run are its bytes, wherever it stands. -/
theorem flatten_of_ofBytes {data : Bytes} {a : UInt32} {img : Image}
    (h : Image.ofBytes data a = .ok img) : img.flatten = data := by
  by_cases hd : data = []
  · subst hd
    cases h
    rfl
  · have habove := canonical_empty.flatten_insert_above h hd (Nat.zero_le _)
    have hgap : a.toNat - ((empty.minAddress?.getD a).toNat + empty.flatten.length) = 0 :=
      Nat.sub_eq_zero_of_le (Nat.le_add_right _ 0)
    rw [habove, hgap]
    rfl

end BootSeal.Image
