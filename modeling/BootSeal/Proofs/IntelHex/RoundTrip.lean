/-
  BootSeal — an image that is written as Intel Hex is read back as itself.

  * `readRecords` is the meaning of a sequence of records; a text of records has
    that meaning (`read_render`);
  * `readRecords_recordsFrom`: the base that the reader keeps and the page that the
    writer keeps stay in step, so that the reader inserts the runs of the writer one
    after the other, each at its own address;
  * `insertAll_segmentChunks`: the runs of a segment above all others grow back into
    that segment;
  * `read_toHex`: so every reachable image is read back from its text.
-/
import BootSeal.Files.Artifacts
import BootSeal.Proofs.Image.Change
import BootSeal.Proofs.IntelHex.Record
import BootSeal.Proofs.Text.Lines

namespace BootSeal.IntelHex

/-! ## Texts of records -/

/-- The image that a sequence of records describes, read onto `img` from the base
    `base`. -/
def readRecords (base : UInt32) (img : Image) : List Record → Except Fault Image
  | [] | .endOfFile :: _ => .ok img
  | .data offset payload :: rest =>
    match img.insert (base + offset.toUInt32) payload with
    | .ok img => readRecords base img rest
    | .error fault => .error (.placement fault)
  | .extendedLinear upper :: rest => readRecords (upper.toUInt32 <<< 16) img rest
  | .extendedSegment segment :: rest => readRecords (segment.toUInt32 <<< 4) img rest
  | .startSegment _ :: rest | .startLinear _ :: rest => readRecords base img rest

theorem readLines_render {rs : List Record} (h : ∀ r ∈ rs, r.Writable) (base : UInt32)
    (img : Image) : readLines base img (rs.map Record.render) = readRecords base img rs := by
  induction rs generalizing base img with
  | nil => rfl
  | cons r rest ih =>
    obtain ⟨hr, hrest⟩ := List.forall_mem_cons.1 h
    have he : r.render.isEmpty = false := rfl
    rw [List.map_cons, readLines, he, Record.parse_render hr, if_neg Bool.false_ne_true]
    cases r with
    | endOfFile => rfl
    | data offset payload =>
      simp only [readRecords]
      cases img.insert (base + offset.toUInt32) payload with
      | ok img' => exact ih hrest base img'
      | error => rfl
    | extendedLinear | extendedSegment | startLinear | startSegment =>
      simp only [readRecords, ih hrest]

theorem lines_records {rs : List Record} :
    Text.lines (rs.flatMap fun r => r.render ++ ['\n']) = rs.map Record.render := by
  have hn : ∀ c, ¬ Text.isHexDigit c → c ≠ ':' → ∀ l ∈ rs.map Record.render, c ∉ l := by
    intro c hc hne l hl hcl
    obtain ⟨r, -, rfl⟩ := List.mem_map.1 hl
    exact (Record.mem_render hcl).elim hne hc
  rw [← Text.lines_flatMap (hn '\n' (by decide) (by decide)) (hn '\r' (by decide) (by decide)),
    List.flatMap_map]

/-- Records that end with the only end-of-file record have a text. -/
theorem render_eq_ok {rs : List Record} (h : ∀ r ∈ rs, r.Writable) (he : Record.endOfFile ∉ rs) :
    render (rs ++ [Record.endOfFile]) =
      .ok (String.ofList ((rs ++ [Record.endOfFile]).flatMap fun r => r.render ++ ['\n'])) := by
  have hfind : (rs ++ [Record.endOfFile]).find? (fun r => 255 < r.fields.2.2.length) = none := by
    refine List.find?_eq_none.2 fun r hr => ?_
    have hr : r.Writable := by
      rcases List.mem_append.1 hr with hr | hr
      · exact h r hr
      · rw [List.mem_singleton.1 hr]; trivial
    have := r.length_payload_lt hr
    simp only [decide_eq_true_eq]; omega
  have hcount : (rs ++ [Record.endOfFile]).countP (· == .endOfFile) = 1 := by
    rw [List.countP_append, List.countP_eq_zero.2 fun r hr hre => ?_]
    · rfl
    · exact he (beq_iff_eq.1 hre ▸ hr)
  rw [render, hfind]
  simp only [List.getLast?_concat, ne_eq, not_true_eq_false, if_false, hcount, Nat.lt_irrefl]

theorem read_render {rs : List Record} (h : ∀ r ∈ rs, r.Writable) :
    read (String.ofList (rs.flatMap fun r => r.render ++ ['\n'])) = readRecords 0 .empty rs := by
  rw [read, String.toList_ofList, lines_records, readLines_render h]

/-! ## The records of runs -/

/-- The segment of a run. -/
def segmentOf (c : Nat × Bytes) : Segment := .ofBytes (UInt32.ofNat c.1) c.2

/-- The base that the address record of a page sets. -/
def pageBase (page : UInt16) : UInt32 := page.toUInt32 <<< 16

theorem readRecords_extendedLinear (base : UInt32) (img : Image) (page : UInt16)
    (rest : List Record) : readRecords base img (.extendedLinear page :: rest) =
      readRecords (pageBase page) img rest := by
  rw [readRecords, pageBase]

/-- The offset within a page, from the base of the page, is the address. -/
theorem pageBase_add_offset {n : Nat} (h : n < addressSpace) :
    pageBase (UInt16.ofNat (n / pageBytes)) + (UInt16.ofNat (n % pageBytes)).toUInt32 =
      UInt32.ofNat n := by
  unfold addressSpace at h
  rw [← UInt32.toNat_inj, pageBase, UInt32.toNat_add, UInt32.toNat_shiftLeft, UInt16.toNat_toUInt32,
    UInt16.toNat_toUInt32, UInt32.toNat_ofNat_of_lt' h]
  simp only [pageBytes, UInt16.toNat_ofNat', UInt32.toNat_ofNat, Nat.shiftLeft_eq, Nat.reducePow,
    Nat.reduceMod]
  omega

/-- The kinds of record that carry content. -/
def Record.IsContent : Record → Prop
  | .data .. | .extendedLinear _ => True
  | _ => False

/-- The end-of-file record comes last, and only records of content before it. -/
theorem recordsFrom_eq (page : Option UInt16) (cs : List (Nat × Bytes)) :
    ∃ rs, recordsFrom page cs = rs ++ [.endOfFile] ∧ ∀ r ∈ rs, r.IsContent := by
  induction cs generalizing page with
  | nil => exact ⟨[], rfl, by simp⟩
  | cons c rest ih =>
    rw [recordsFrom]
    split_ifs with hp
    · obtain ⟨rs, hrs, hcontent⟩ := ih page
      exact ⟨.data _ _ :: rs, by rw [hrs]; rfl, List.forall_mem_cons.2 ⟨trivial, hcontent⟩⟩
    · obtain ⟨rs, hrs, hcontent⟩ := ih (some (UInt16.ofNat (c.1 / pageBytes)))
      exact ⟨.extendedLinear _ :: .data _ _ :: rs, by rw [hrs]; rfl,
        List.forall_mem_cons.2 ⟨trivial, List.forall_mem_cons.2 ⟨trivial, hcontent⟩⟩⟩

theorem writable_of_mem_recordsFrom {cs : List (Nat × Bytes)} (h : ∀ c ∈ cs, c.2.length < 256)
    (page : Option UInt16) : ∀ r ∈ recordsFrom page cs, r.Writable := by
  induction cs generalizing page with
  | nil => simp [recordsFrom, Record.Writable]
  | cons c rest ih =>
    obtain ⟨hc, hrest⟩ := List.forall_mem_cons.1 h
    rw [recordsFrom]
    split_ifs
    · exact List.forall_mem_cons.2 ⟨hc, ih hrest _⟩
    · exact List.forall_mem_cons.2 ⟨trivial, List.forall_mem_cons.2 ⟨hc, ih hrest _⟩⟩

/-- **Reader and writer stay in step**: as long as the base of the one is the page of
    the other, the records of runs insert these runs. -/
theorem readRecords_recordsFrom {cs : List (Nat × Bytes)} (hc : ∀ c ∈ cs, c.1 < addressSpace)
    {base : UInt32} {page : Option UInt16} (hp : ∀ u, page = some u → base = pageBase u)
    {img img' : Image} (h : img.insertAll (cs.map segmentOf) = (img', .ok ())) :
    readRecords base img (recordsFrom page cs) = .ok img' := by
  induction cs generalizing base page img with
  | nil => cases h; rfl
  | cons c rest ih =>
    obtain ⟨hc, hrest⟩ := List.forall_mem_cons.1 hc
    rw [List.map_cons, Image.insertAll] at h
    simp only [segmentOf, Segment.start_ofBytes, Segment.data_ofBytes] at h
    cases hi : img.insert (UInt32.ofNat c.1) c.2 with
    | error f => rw [hi] at h; cases h
    | ok img₁ =>
      rw [hi] at h
      have hdata : ∀ p, (∀ u, p = some u → pageBase (UInt16.ofNat (c.1 / pageBytes)) = pageBase u) →
          readRecords (pageBase (UInt16.ofNat (c.1 / pageBytes))) img
            (.data (UInt16.ofNat (c.1 % pageBytes)) c.2 :: recordsFrom p rest) = .ok img' := by
        intro p hp
        rw [readRecords, pageBase_add_offset hc, hi]
        exact ih hrest hp h
      rw [recordsFrom]
      split_ifs with hpage
      · rw [hp _ hpage]
        exact hdata page fun u hu => (hp _ hpage).symm.trans (hp u hu)
      · rw [readRecords_extendedLinear]
        exact hdata _ fun u hu => congrArg pageBase (Option.some.inj hu)

/-! ## The runs of a segment -/

/-- A run that one data record carries: not empty, at most 16 bytes long, and in one page. -/
structure FitsRecord (c : Nat × Bytes) : Prop where
  nonempty : 0 < c.2.length
  short : c.2.length ≤ 16
  inPage : c.1 % 0x10000 + c.2.length ≤ 0x10000

/-- The first run of data fits a record; the other runs are those of the rest. -/
theorem go_cons (fuel address : Nat) {data : Bytes} (h : data ≠ []) :
    ∃ n, 0 < n ∧ n ≤ data.length ∧ FitsRecord (address, data.take n) ∧
      segmentChunks.go (fuel + 1) address data =
        (address, data.take n) :: segmentChunks.go fuel (address + n) (data.drop n) := by
  have := List.length_pos_iff.2 h
  refine ⟨runLength address (data.take recordBytes).length, ?_, ?_, ⟨?_, ?_, ?_⟩, ?_⟩
  · rw [List.length_take]; unfold runLength recordBytes pageBytes; omega
  · rw [List.length_take]; unfold runLength recordBytes pageBytes; omega
  · simp only [List.length_take]; unfold runLength recordBytes pageBytes; omega
  · simp only [List.length_take]; unfold runLength recordBytes pageBytes; omega
  · simp only [List.length_take]; unfold runLength recordBytes pageBytes; omega
  · rw [segmentChunks.go, if_neg (mt List.isEmpty_iff.1 h)]

theorem go_nil (fuel address : Nat) : segmentChunks.go fuel address [] = [] := by
  cases fuel <;> rfl

/-- The runs of data fit records, and lie where the data do. -/
theorem fitsRecord_of_mem_go {fuel address : Nat} {data : Bytes} {c : Nat × Bytes}
    (hc : c ∈ segmentChunks.go fuel address data) :
    FitsRecord c ∧ address ≤ c.1 ∧ c.1 + c.2.length ≤ address + data.length := by
  induction fuel generalizing address data with
  | zero => cases hc
  | succ fuel ih =>
    by_cases hd : data = []
    · rw [hd, go_nil] at hc; cases hc
    obtain ⟨n, h0, hn, hfits, hgo⟩ := go_cons fuel address hd
    rw [hgo] at hc
    rcases List.mem_cons.1 hc with rfl | hc
    · exact ⟨hfits, Nat.le_refl _, by rw [List.length_take]; omega⟩
    · obtain ⟨hrest, hle, hstop⟩ := ih hc
      rw [List.length_drop] at hstop
      exact ⟨hrest, by omega, by omega⟩

/-- Runs that begin where the last segment stops continue it with all their bytes. -/
theorem insertAll_go {fuel address : Nat} {data : Bytes} (hf : data.length ≤ fuel)
    (hs : address + data.length ≤ addressSpace) {l : List Segment} {t : Segment}
    (hl : ∀ u ∈ l, u.stop < address) (ht : t.stop = address) :
    Image.insertAll ⟨l ++ [t]⟩ ((segmentChunks.go fuel address data).map segmentOf) =
      (⟨l ++ [t.append (.ofBytes 0 data)]⟩, .ok ()) := by
  induction fuel generalizing address data t with
  | zero =>
    have hd : data = [] := List.length_eq_zero_iff.1 (by omega)
    subst hd
    have he : t.append (.ofBytes 0 []) = t := by ext1 <;> simp
    rw [he]; rfl
  | succ fuel ih =>
    by_cases hd : data = []
    · subst hd
      have he : t.append (.ofBytes 0 []) = t := by ext1 <;> simp
      rw [go_nil, he]; rfl
    obtain ⟨n, h0, hn, -, hgo⟩ := go_cons fuel address hd
    have ha : (UInt32.ofNat address).toNat = address :=
      UInt32.toNat_ofNat_of_lt' (show address < addressSpace by omega)
    have hlen : (data.take n).length = n := by rw [List.length_take]; omega
    have hi : Image.insert ⟨l ++ [t]⟩ (UInt32.ofNat address) (data.take n) =
        .ok ⟨l ++ [t.append (.ofBytes (UInt32.ofNat address) (data.take n))]⟩ := by
      refine Image.insert_continue (List.ne_nil_of_length_pos (by omega)) (by omega) ?_ (by omega)
      rwa [ha]
    have hstop : (t.append (.ofBytes (UInt32.ofNat address) (data.take n))).stop = address + n := by
      rw [Segment.stop_append (by rw [Segment.start_ofBytes, ha, ht]), Segment.stop_ofBytes, ha,
        hlen]
    have hjoin : (t.append (.ofBytes (UInt32.ofNat address) (data.take n))).append
        (.ofBytes 0 (data.drop n)) = t.append (.ofBytes 0 data) := by
      ext1 <;> simp
    have hf' : (data.drop n).length ≤ fuel := by rw [List.length_drop]; omega
    have hs' : address + n + (data.drop n).length ≤ addressSpace := by rw [List.length_drop]; omega
    rw [hgo, List.map_cons, Image.insertAll, segmentOf, Segment.start_ofBytes, Segment.data_ofBytes,
      hi, ← hjoin]
    exact ih hf' hs' (fun u hu => Nat.lt_add_right n (hl u hu)) hstop

/-- **The runs of a segment above all others grow back into that segment.** -/
theorem insertAll_segmentChunks {s : Segment} {l : List Segment} (hd : s.data ≠ [])
    (hs : s.stop ≤ addressSpace) (hl : ∀ t ∈ l, t.stop < s.start.toNat) :
    Image.insertAll ⟨l⟩ ((segmentChunks s.start.toNat s.data).map segmentOf) =
      (⟨l ++ [s]⟩, .ok ()) := by
  rw [s.stop_eq] at hs
  obtain ⟨fuel, hfuel⟩ := Nat.exists_eq_add_one.2 (List.length_pos_iff.2 hd)
  obtain ⟨n, h0, hn, -, hgo⟩ := go_cons fuel s.start.toNat hd
  have hlen : (s.data.take n).length = n := by rw [List.length_take]; omega
  have hi : Image.insert ⟨l⟩ s.start (s.data.take n) =
      .ok ⟨l ++ [.ofBytes s.start (s.data.take n)]⟩ :=
    Image.insert_above (List.ne_nil_of_length_pos (by omega)) (by omega) hl
  have hstop : (Segment.ofBytes s.start (s.data.take n)).stop = s.start.toNat + n := by
    rw [Segment.stop_ofBytes, hlen]
  have hjoin :
      (Segment.ofBytes s.start (s.data.take n)).append (.ofBytes 0 (s.data.drop n)) = s := by
    ext1 <;> simp
  have hf' : (s.data.drop n).length ≤ fuel := by rw [List.length_drop]; omega
  have hs' : s.start.toNat + n + (s.data.drop n).length ≤ addressSpace := by
    rw [List.length_drop]; omega
  have hrest := insertAll_go hf' hs' (fun u hu => Nat.lt_add_right n (hl u hu)) hstop
  rw [hjoin] at hrest
  rw [segmentChunks, hfuel, hgo, List.map_cons, Image.insertAll, segmentOf, UInt32.ofNat_toNat,
    Segment.start_ofBytes, Segment.data_ofBytes, hi]
  exact hrest

/-! ## The runs of an image -/

/-- The runs of the segments after `l` bring these segments back. -/
theorem insertAll_flatMap {l rest : List Segment} (h : Image.Canonical ⟨l ++ rest⟩) :
    Image.insertAll ⟨l⟩
        ((rest.flatMap fun s => segmentChunks s.start.toNat s.data).map segmentOf) =
      (⟨l ++ rest⟩, .ok ()) := by
  induction rest generalizing l with
  | nil => rw [List.append_nil]; rfl
  | cons s rest ih =>
    have hs := insertAll_segmentChunks (h.nonempty s (by simp)) (h.inSpace s (by simp))
      fun t ht => (List.pairwise_append.1 h.separated).2.2 t ht s (by simp)
    rw [List.append_cons] at h ⊢
    rw [List.flatMap_cons, List.map_append, Image.insertAll_append hs, ih h]

theorem fitsRecord_of_mem_chunks {img : Image} {c : Nat × Bytes} (hc : c ∈ chunks img) :
    FitsRecord c := by
  obtain ⟨s, hs, hc⟩ := List.mem_flatMap.1 hc
  exact (fitsRecord_of_mem_go hc).1

theorem lt_of_mem_chunks {img : Image} (h : img.Canonical) {c : Nat × Bytes}
    (hc : c ∈ chunks img) : c.1 < addressSpace := by
  have hpos := (fitsRecord_of_mem_chunks hc).nonempty
  obtain ⟨s, hs, hc⟩ := List.mem_flatMap.1 hc
  have hstop := (fitsRecord_of_mem_go hc).2.2
  have hspace := h.inSpace s hs
  rw [s.stop_eq] at hspace
  omega

theorem writable_records (img : Image) : ∀ r ∈ records img, r.Writable := by
  refine writable_of_mem_recordsFrom (fun c hc => ?_) none
  have := (fitsRecord_of_mem_chunks hc).short
  omega

/-- The text of an image is that of its records, line by line. -/
theorem write_eq_ok (img : Image) :
    write img = .ok (String.ofList ((records img).flatMap fun r => r.render ++ ['\n'])) := by
  have hw := writable_records img
  obtain ⟨rs, hrs, hcontent⟩ := recordsFrom_eq none (chunks img)
  rw [records, hrs] at hw
  rw [write, records, hrs, render_eq_ok (fun r hr => hw r (List.mem_append_left _ hr))
    fun he => hcontent _ he]

/-- A canonical image has a text, which is read back as that image. -/
theorem read_write {img : Image} (h : img.Canonical) :
    ∃ text, write img = .ok text ∧ read text = .ok img := by
  refine ⟨_, write_eq_ok img, ?_⟩
  rw [read_render (writable_records img), records]
  have hbase : ∀ u, none = some u → (0 : UInt32) = pageBase u := nofun
  exact readRecords_recordsFrom (fun c hc => lt_of_mem_chunks h hc) hbase (insertAll_flatMap h)

/-- **Intel Hex round trip.** Every reachable image has a text, and reading the text
    gives the image back, segment for segment. -/
theorem read_toHex {img : Image} (h : img.Reachable) :
    ∃ text, img.toHex = .ok text ∧ read text = .ok img := by
  obtain ⟨text, hw, hr⟩ := read_write h.canonical
  exact ⟨text, by rw [Image.toHex, hw]; rfl, hr⟩

/-- A segment across a page boundary, one that ends at it and one at the top of the
    address space. -/
theorem read_toHex_pages :
    let img := Image.empty.after [.insert 0xffff8 (List.replicate 20 7), .insert 0x1fff0 [1, 2, 3],
      .insert 0xfffffffe [8, 9], .insert 0x1fff3 (List.replicate 13 4)]
    img.Reachable ∧ ∃ text, img.toHex = .ok text ∧ read text = .ok img := by
  intro img
  have h : img.Reachable := ⟨_, rfl⟩
  exact ⟨h, read_toHex h⟩

end BootSeal.IntelHex
