/-
  BootSeal — what an Intel Hex text means: the union of the runs of its data records.

  * `Transcript`: the records of lines, one a line, up to the first end-of-file record;
  * `baseAfter`: the base that the latest address record has set; `runs`: the payloads of
    data records, each at its offset from the base at that place;
  * `Fits`: runs that end within the address space and have no address in common;
  * `Transcript.readLines_iff`: reading lines is inserting these runs one after the other;
  * `read_eq_union`: so a text is an image exactly if its lines are records and their runs
    fit, whatever the order they come in, and the image is then the union of the runs.
-/
import BootSeal.Proofs.IntelHex.Line
import BootSeal.Proofs.IntelHex.RoundTrip
import BootSeal.Proofs.Image.Union

namespace BootSeal.IntelHex

/-! ## Records and their runs -/

/-- The records of lines, up to the first end-of-file record. Lines without characters are
    none, and what follows that record may be anything. -/
inductive Transcript : List (List Char) → List Record → Prop
  | done : Transcript [] []
  | blank {rest : List (List Char)} {rs : List Record} :
      Transcript rest rs → Transcript ([] :: rest) rs
  | stop {line : List Char} {rest : List (List Char)} :
      Record.OnLine line .endOfFile → Transcript (line :: rest) [.endOfFile]
  | next {line : List Char} {rest : List (List Char)} {r : Record} {rs : List Record} :
      Record.OnLine line r → r ≠ .endOfFile → Transcript rest rs →
      Transcript (line :: rest) (r :: rs)

/-- The base that an address record sets. -/
def Record.base? : Record → Option Nat
  | .extendedLinear upper => some (upper.toNat * 0x10000)
  | .extendedSegment segment => some (segment.toNat * 0x10)
  | _ => none

/-- The base after records: that of the latest address record, zero before any. -/
def baseAfter (rs : List Record) : Nat := (rs.filterMap Record.base?).getLast?.getD 0

/-- The runs of the data records that come after others, each with its address. -/
def runsAfter (before : List Record) : List Record → List (Nat × Bytes)
  | [] => []
  | .data offset payload :: rest =>
    (baseAfter before + offset.toNat, payload) :: runsAfter (before ++ [.data offset payload]) rest
  | r :: rest => runsAfter (before ++ [r]) rest

/-- The runs of records. -/
def runs (rs : List Record) : List (Nat × Bytes) := runsAfter [] rs

/-- The address lies in the run. -/
def Covers (c : Nat × Bytes) (a : Nat) : Prop := c.1 ≤ a ∧ a < c.1 + c.2.length

/-- Runs that end within the address space, no two of which have an address in common. -/
structure Fits (cs : List (Nat × Bytes)) : Prop where
  inSpace : ∀ c ∈ cs, c.1 + c.2.length ≤ addressSpace
  disjoint : cs.Pairwise fun c d => ∀ a, Covers c a → ¬ Covers d a

/-- Whether runs fit does not depend on their order. -/
theorem Fits.perm {cs ds : List (Nat × Bytes)} (h : Fits cs) (hp : ds.Perm cs) : Fits ds := by
  refine ⟨fun c hc => h.inSpace c (hp.mem_iff.1 hc), (hp.pairwise_iff ?_).2 h.disjoint⟩
  exact fun hcd a hd hc => hcd a hc hd

/-! ## Bases -/

theorem baseAfter_concat (rs : List Record) (r : Record) :
    baseAfter (rs ++ [r]) = r.base?.getD (baseAfter rs) := by
  rw [baseAfter, List.filterMap_append]
  cases hr : r.base? with
  | none => simp [hr, baseAfter]
  | some base => simp [hr]

theorem Record.base?_le {r : Record} {base : Nat} (h : r.base? = some base) :
    base ≤ 0xffff0000 := by
  cases r with
  | extendedLinear upper =>
    have := upper.toNat_lt
    simp only [Record.base?, Option.some.injEq] at h
    omega
  | extendedSegment segment =>
    have := segment.toNat_lt
    simp only [Record.base?, Option.some.injEq] at h
    omega
  | data | endOfFile | startSegment | startLinear => cases h

/-- An offset from a base is always an address, so that nothing wraps around. -/
theorem baseAfter_add_lt (rs : List Record) (offset : UInt16) :
    baseAfter rs + offset.toNat < addressSpace := by
  have hoffset := offset.toNat_lt
  have hbase : baseAfter rs ≤ 0xffff0000 := by
    rw [baseAfter]
    cases hlast : (rs.filterMap Record.base?).getLast? with
    | none => simp
    | some base =>
      obtain ⟨r, -, hr⟩ := List.mem_filterMap.1 (List.mem_of_getLast? hlast)
      exact r.base?_le hr
  unfold addressSpace
  omega

theorem toNat_linearBase (upper : UInt16) :
    (upper.toUInt32 <<< 16).toNat = upper.toNat * 0x10000 := by
  have := upper.toNat_lt
  simp only [UInt32.toNat_shiftLeft, UInt16.toNat_toUInt32, Nat.shiftLeft_eq, UInt32.toNat_ofNat,
    Nat.reducePow, Nat.reduceMod]
  omega

theorem toNat_segmentBase (segment : UInt16) :
    (segment.toUInt32 <<< 4).toNat = segment.toNat * 0x10 := by
  have := segment.toNat_lt
  simp only [UInt32.toNat_shiftLeft, UInt16.toNat_toUInt32, Nat.shiftLeft_eq, UInt32.toNat_ofNat,
    Nat.reducePow, Nat.reduceMod]
  omega

/-- The address of a data record as a word. -/
theorem add_offset {base : UInt32} {rs : List Record} (hb : base.toNat = baseAfter rs)
    (offset : UInt16) :
    base + offset.toUInt32 = UInt32.ofNat (baseAfter rs + offset.toNat) := by
  have := baseAfter_add_lt rs offset
  unfold addressSpace at this
  rw [← UInt32.toNat_inj, UInt32.toNat_add, UInt16.toNat_toUInt32, hb,
    UInt32.toNat_ofNat_of_lt' this]
  omega

/-! ## Reading -/

/-- Lines that were read had records. -/
theorem exists_transcript {lines : List (List Char)} {base : UInt32} {img img' : Image}
    (h : readLines base img lines = .ok img') : ∃ rs, Transcript lines rs := by
  induction lines generalizing base img with
  | nil => exact ⟨[], .done⟩
  | cons line rest ih =>
    rw [readLines] at h
    split at h
    · next hempty =>
      rw [List.isEmpty_iff.1 hempty]
      obtain ⟨rs, hrs⟩ := ih h
      exact ⟨rs, .blank hrs⟩
    · split at h
      · cases h
      · next hparse => exact ⟨_, .stop (Record.parse_eq_ok_iff.1 hparse)⟩
      · next hparse =>
        split at h
        · obtain ⟨rs, hrs⟩ := ih h
          exact ⟨_, .next (Record.parse_eq_ok_iff.1 hparse) (by rintro ⟨⟩) hrs⟩
        · cases h
      all_goals
        next hparse =>
        obtain ⟨rs, hrs⟩ := ih h
        exact ⟨_, .next (Record.parse_eq_ok_iff.1 hparse) (by rintro ⟨⟩) hrs⟩

/-- **Reading lines is inserting the runs of their records** one after the other: the base
    that the reader keeps is that of the latest address record. -/
theorem Transcript.readLines_iff {lines : List (List Char)} {rs : List Record}
    (h : Transcript lines rs) {before : List Record} {base : UInt32}
    (hb : base.toNat = baseAfter before) {img img' : Image} :
    readLines base img lines = .ok img' ↔
      img.insertAll ((runsAfter before rs).map segmentOf) = (img', .ok ()) := by
  induction h generalizing before base img with
  | done => simp [readLines, runsAfter, Image.insertAll]
  | blank _ ih => exact ih hb
  | stop hline => simp [readLines, hline.isEmpty_eq, hline.parse, runsAfter, Image.insertAll]
  | @next line rest r rs hline hr _ ih =>
    have hbase := baseAfter_concat before r
    rw [readLines, hline.isEmpty_eq, if_neg Bool.false_ne_true, hline.parse]
    cases r with
    | endOfFile => exact absurd rfl hr
    | data offset payload =>
      rw [runsAfter, List.map_cons, Image.insertAll_cons_eq_ok]
      simp only [segmentOf, Segment.start_ofBytes, Segment.data_ofBytes, add_offset hb]
      cases hi : img.insert (UInt32.ofNat (baseAfter before + offset.toNat)) payload with
      | ok img₁ => simp [ih (hb.trans hbase.symm)]
      | error => simp
    | extendedLinear upper => exact ih ((toNat_linearBase upper).trans hbase.symm)
    | extendedSegment segment => exact ih ((toNat_segmentBase segment).trans hbase.symm)
    | startSegment | startLinear => exact ih (hb.trans hbase.symm)

/-! ## Runs as segments -/

theorem lt_of_mem_runsAfter {before rs : List Record} {c : Nat × Bytes}
    (hc : c ∈ runsAfter before rs) : c.1 < addressSpace := by
  induction rs generalizing before with
  | nil => cases hc
  | cons r rest ih =>
    cases r with
    | data offset payload =>
      rcases List.mem_cons.1 hc with rfl | hc
      · exact baseAfter_add_lt before offset
      · exact ih hc
    | endOfFile | extendedSegment | startSegment | extendedLinear | startLinear => exact ih hc

section
variable {c : Nat × Bytes} (hc : c.1 < addressSpace)
include hc

theorem toNat_start_segmentOf : (segmentOf c).start.toNat = c.1 := UInt32.toNat_ofNat_of_lt' hc

theorem stop_segmentOf : (segmentOf c).stop = c.1 + c.2.length := by
  rw [Segment.stop_eq, toNat_start_segmentOf hc]
  rfl

theorem holds_segmentOf {a : Nat} : (segmentOf c).Holds a ↔ Covers c a := by
  rw [Segment.Holds, toNat_start_segmentOf hc, stop_segmentOf hc, Covers]

theorem byteAt?_segmentOf {a : Nat} {b : UInt8} :
    (segmentOf c).byteAt? a = some b ↔ c.1 ≤ a ∧ c.2[a - c.1]? = some b := by
  rw [Segment.byteAt?, toNat_start_segmentOf hc]
  show (if c.1 ≤ a then c.2[a - c.1]? else none) = some b ↔ _
  split_ifs with ha <;> simp [ha]

end

/-- Runs have a place in the empty image exactly if they fit. -/
theorem fits_iff {cs : List (Nat × Bytes)} (hcs : ∀ c ∈ cs, c.1 < addressSpace) :
    (∃ img, Image.empty.insertAll (cs.map segmentOf) = (img, .ok ())) ↔ Fits cs := by
  have hapart : ∀ c ∈ cs, ∀ d ∈ cs, (segmentOf c).Apart (segmentOf d) ↔
      ∀ a, Covers c a → ¬ Covers d a := by
    intro c hc d hd
    simp only [Segment.Apart, holds_segmentOf (hcs c hc), holds_segmentOf (hcs d hd)]
  have hfree : ∀ a, ¬ Image.empty.Occupied a := fun a => Bool.false_ne_true
  rw [Image.canonical_empty.insertAll_eq_ok_iff, List.pairwise_map]
  constructor
  · rintro ⟨hstop, hpair, -⟩
    refine ⟨fun c hc => ?_, hpair.imp_of_mem fun hc hd => (hapart _ hc _ hd).1⟩
    rw [← stop_segmentOf (hcs c hc)]
    exact hstop _ (List.mem_map_of_mem hc)
  · rintro ⟨hspace, hpair⟩
    refine ⟨?_, hpair.imp_of_mem fun hc hd => (hapart _ hc _ hd).2, fun _ _ a _ => hfree a⟩
    intro s hs
    obtain ⟨c, hc, rfl⟩ := List.mem_map.1 hs
    rw [stop_segmentOf (hcs c hc)]
    exact hspace c hc

/-! ## Texts -/

variable {text : String} {rs : List Record}

/-- A text whose records are known is an image exactly if their runs fit. -/
theorem Transcript.read_iff (h : Transcript (Text.lines text.toList) rs) {img : Image} :
    read text = .ok img ↔ Image.empty.insertAll ((runs rs).map segmentOf) = (img, .ok ()) :=
  h.readLines_iff rfl

theorem Transcript.exists_read_iff (h : Transcript (Text.lines text.toList) rs) :
    (∃ img, read text = .ok img) ↔ Fits (runs rs) := by
  simp only [h.read_iff]
  exact fits_iff fun c hc => lt_of_mem_runsAfter hc

/-- The image holds the bytes of the runs and no others. -/
theorem Transcript.byteAt?_read (h : Transcript (Text.lines text.toList) rs) {img : Image}
    (hread : read text = .ok img) (a : Nat) (b : UInt8) :
    img.byteAt? a = some b ↔ ∃ c ∈ runs rs, c.1 ≤ a ∧ c.2[a - c.1]? = some b := by
  have hnone : Image.empty.byteAt? a ≠ some b := nofun
  rw [Image.byteAt?_insertAll_iff (h.read_iff.1 hread), or_iff_right hnone]
  constructor
  · rintro ⟨s, hs, hbyte⟩
    obtain ⟨c, hc, rfl⟩ := List.mem_map.1 hs
    exact ⟨c, hc, (byteAt?_segmentOf (lt_of_mem_runsAfter hc)).1 hbyte⟩
  · rintro ⟨c, hc, hbyte⟩
    exact ⟨_, List.mem_map_of_mem hc, (byteAt?_segmentOf (lt_of_mem_runsAfter hc)).2 hbyte⟩

/-- **A text means the union of the runs of its records.** It is an image exactly if every
    line that is not empty, up to the first end-of-file record, is a well-formed record, and
    the runs of the data records end within the address space and do not overlap. The image
    then holds the bytes of the runs and no others, and so does that of any other text whose
    records have the same runs in any order. -/
theorem read_eq_union (text : String) :
    ((∃ img, read text = .ok img) ↔
      ∃ rs, Transcript (Text.lines text.toList) rs ∧ Fits (runs rs)) ∧
    ∀ img rs, read text = .ok img → Transcript (Text.lines text.toList) rs →
      (∀ a b, img.byteAt? a = some b ↔ ∃ c ∈ runs rs, c.1 ≤ a ∧ c.2[a - c.1]? = some b) ∧
      ∀ text' rs', Transcript (Text.lines text'.toList) rs' → (runs rs').Perm (runs rs) →
        ∃ img', read text' = .ok img' ∧ ∀ a, img'.byteAt? a = img.byteAt? a := by
  refine ⟨⟨?_, ?_⟩, ?_⟩
  · rintro ⟨img, hread⟩
    obtain ⟨rs, h⟩ := exists_transcript hread
    exact ⟨rs, h, h.exists_read_iff.1 ⟨img, hread⟩⟩
  · rintro ⟨rs, h, hfits⟩
    exact h.exists_read_iff.2 hfits
  · intro img rs hread h
    refine ⟨h.byteAt?_read hread, ?_⟩
    intro text' rs' h' hperm
    have hfits := (h.exists_read_iff.1 ⟨img, hread⟩).perm hperm
    obtain ⟨img', hread'⟩ := h'.exists_read_iff.2 hfits
    refine ⟨img', hread', fun a => Option.ext fun b => ?_⟩
    simp only [h'.byteAt?_read hread', h.byteAt?_read hread, hperm.mem_iff]

/-- Bases of both kinds, the higher run first, an entry point in between, and something else
    after the end. -/
theorem read_eq_union_both_bases :
    let text := ":020000021000EC\r\n:0400000001020304F2\n\n:0400000500000000F7\n" ++
      ":020000040000FA\n:02FFFE000506F6\n:00000001FF\nend"
    let rs : List Record := [.extendedSegment 0x1000, .data 0 [1, 2, 3, 4],
      .startLinear [0, 0, 0, 0], .extendedLinear 0, .data 0xfffe [5, 6], .endOfFile]
    Transcript (Text.lines text.toList) rs ∧ runs rs = [(0x10000, [1, 2, 3, 4]), (0xfffe, [5, 6])] ∧
      ∃ img, read text = .ok img ∧
        ∀ a b, img.byteAt? a = some b ↔ ∃ c ∈ runs rs, c.1 ≤ a ∧ c.2[a - c.1]? = some b := by
  intro text rs
  have hlines : Text.lines text.toList = [":020000021000EC".toList, ":0400000001020304F2".toList, [],
      ":0400000500000000F7".toList, ":020000040000FA".toList, ":02FFFE000506F6".toList,
      ":00000001FF".toList, "end".toList] := by decide +kernel
  have hline : ∀ {line : List Char} {r : Record},
      (Record.parse line).toOption = some r → Record.OnLine line r :=
    fun h => Record.parse_eq_ok_iff.1 (eq_ok_of_toOption h)
  have h : Transcript (Text.lines text.toList) rs := by
    rw [hlines]
    exact .next (hline (by decide +kernel)) nofun <| .next (hline (by decide +kernel)) nofun <|
      .blank <| .next (hline (by decide +kernel)) nofun <| .next (hline (by decide +kernel)) nofun <|
      .next (hline (by decide +kernel)) nofun <| .stop (hline (by decide +kernel))
  have hok : (read text).toBool = true := by decide +kernel
  obtain ⟨img, hread⟩ := exists_eq_ok_of_toBool hok
  exact ⟨h, by decide +kernel, img, hread, ((read_eq_union text).2 img rs hread h).1⟩

end BootSeal.IntelHex
