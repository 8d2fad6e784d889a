/-
  BootSeal — the records of an image suit any loader.

  An extended linear address record is called a page record here: it says in which page of
  64 KiB the data records after it lie.

  * `WellFormed`: records that end with the only end-of-file record, carry short payloads
    within pages at ascending addresses, and announce each page once, right before its first
    payload;
  * `pairwise_chunks`: the runs of an image ascend;
  * `runsAfter_recordsFrom`: a loader finds these runs in the records;
  * `exists_chunk_of_data`: what stands before a data record: the runs below its own, and
    its page record if the last of them lies in another page;
  * `records_wellFormed`: so the records of an image are well formed, and the bytes that
    they place are exactly those of the image.
-/
import BootSeal.Proofs.IntelHex.Meaning
import Mathlib.Data.List.Sort

namespace BootSeal

/-- The occupied addresses in ascending order, each with its byte. -/
def Image.occupiedBytes (img : Image) : List (Nat × UInt8) :=
  (List.range addressSpace).filterMap fun a => (img.byteAt? a).map fun b => (a, b)

namespace IntelHex

/-! ## Well-formed records -/

/-- The bytes of a run, each with its address. -/
def addressed (c : Nat × Bytes) : List (Nat × UInt8) := c.2.mapIdx fun i b => (c.1 + i, b)

/-- The last of the records is a page record. -/
def EndsWithPage (rs : List Record) : Prop := ∃ upper, rs.getLast? = some (.extendedLinear upper)

/-- Records that suit any loader. -/
structure WellFormed (rs : List Record) : Prop where
  /-- The end-of-file record comes last, and only then. -/
  ended : ∃ body, rs = body ++ [.endOfFile] ∧ ∀ r ∈ body, r.IsContent
  /-- A data record has 1 to 16 bytes in one page of 64 KiB. -/
  short : ∀ before offset payload rest, rs = before ++ .data offset payload :: rest →
    1 ≤ payload.length ∧ payload.length ≤ 16 ∧
      (baseAfter before + offset.toNat) % 0x10000 + payload.length ≤ 0x10000
  /-- Data records ascend and do not overlap. -/
  ascending : (runs rs).Pairwise fun c d => c.1 < d.1 ∧ c.1 + c.2.length ≤ d.1
  /-- A page record stands right before the first data record of each page … -/
  announced : ∀ before offset payload rest, rs = before ++ .data offset payload :: rest →
    (EndsWithPage before ↔
      ∀ c ∈ runs before, c.1 / 0x10000 ≠ (baseAfter before + offset.toNat) / 0x10000)
  /-- … and nowhere else. -/
  announces : ∀ before upper rest, rs = before ++ .extendedLinear upper :: rest →
    ∃ offset payload rest', rest = .data offset payload :: rest'

/-! ## The runs of an image -/

/-- The first run ends before the second one begins. -/
def Below (c d : Nat × Bytes) : Prop := c.1 + c.2.length ≤ d.1

theorem pairwise_go (fuel address : Nat) (data : Bytes) :
    (segmentChunks.go fuel address data).Pairwise Below := by
  induction fuel generalizing address data with
  | zero => exact .nil
  | succ fuel ih =>
    by_cases hd : data = []
    · rw [hd, go_nil]
      exact .nil
    · obtain ⟨n, h0, hn, -, hgo⟩ := go_cons fuel address hd
      rw [hgo, List.pairwise_cons]
      refine ⟨fun d hd => ?_, ih (address + n) (data.drop n)⟩
      have := (fitsRecord_of_mem_go hd).2.1
      rw [Below, List.length_take]
      omega

/-- **The runs of an image ascend**, within a segment and from one to the next. -/
theorem pairwise_chunks {img : Image} (h : img.Canonical) : (chunks img).Pairwise Below := by
  rw [chunks, List.pairwise_flatMap]
  refine ⟨fun s _ => pairwise_go _ _ _, h.separated.imp ?_⟩
  intro s t hst c hc d hd
  have hstop := (fitsRecord_of_mem_go hc).2.2
  have hstart := (fitsRecord_of_mem_go hd).2.1
  rw [s.stop_eq] at hst
  rw [Below]
  omega

/-- The image holds the bytes of its runs and no others. -/
theorem byteAt?_eq_some_iff_chunks {img : Image} (h : img.Canonical) {a : Nat} {b : UInt8} :
    img.byteAt? a = some b ↔ ∃ c ∈ chunks img, c.1 ≤ a ∧ c.2[a - c.1]? = some b := by
  have hall : Image.empty.insertAll ((chunks img).map segmentOf) = (img, .ok ()) :=
    insertAll_flatMap (l := []) h
  have hnone : Image.empty.byteAt? a ≠ some b := nofun
  rw [Image.byteAt?_insertAll_iff hall, or_iff_right hnone]
  simp only [List.mem_map, exists_exists_and_eq_and]
  refine exists_congr fun c => and_congr_right fun hc => ?_
  exact byteAt?_segmentOf (lt_of_mem_chunks h hc)

/-! ## Records of runs -/

/-- The page of a run. -/
def pageOf (c : Nat × Bytes) : UInt16 := UInt16.ofNat (c.1 / pageBytes)

/-- The data record of a run. -/
def dataOf (c : Nat × Bytes) : Record := .data (UInt16.ofNat (c.1 % pageBytes)) c.2

/-- The page record of a run, unless its page is the latest one. -/
def heading (page : Option UInt16) (c : Nat × Bytes) : List Record :=
  if page = some (pageOf c) then [] else [.extendedLinear (pageOf c)]

theorem recordsFrom_cons (page : Option UInt16) (c : Nat × Bytes) (rest : List (Nat × Bytes)) :
    recordsFrom page (c :: rest) =
      heading page c ++ dataOf c :: recordsFrom (some (pageOf c)) rest := by
  show (if page = some (pageOf c) then dataOf c :: recordsFrom page rest
    else .extendedLinear (pageOf c) :: dataOf c :: recordsFrom (some (pageOf c)) rest) = _
  rw [heading]
  split_ifs with hpage
  · rw [hpage]
    rfl
  · rfl

section
variable {c : Nat × Bytes} (hc : c.1 < addressSpace)
include hc

theorem toNat_pageOf : (pageOf c).toNat = c.1 / 0x10000 := by
  unfold addressSpace at hc
  exact UInt16.toNat_ofNat_of_lt' (show c.1 / 0x10000 < 0x10000 by omega)

theorem pageOf_add_offset :
    (pageOf c).toNat * 0x10000 + (UInt16.ofNat (c.1 % pageBytes)).toNat = c.1 := by
  have hoffset : (UInt16.ofNat (c.1 % pageBytes)).toNat = c.1 % 0x10000 :=
    UInt16.toNat_ofNat_of_lt' (Nat.mod_lt _ (by decide))
  rw [toNat_pageOf hc, hoffset]
  omega

end

theorem runsAfter_append (before rs rs' : List Record) :
    runsAfter before (rs ++ rs') = runsAfter before rs ++ runsAfter (before ++ rs) rs' := by
  induction rs generalizing before with
  | nil => rw [List.nil_append, runsAfter, List.nil_append, List.append_nil]
  | cons r rest ih =>
    have hassoc : before ++ r :: rest = before ++ [r] ++ rest := by simp
    cases r with
    | data offset payload =>
      rw [List.cons_append, runsAfter, runsAfter, ih, hassoc, List.cons_append]
    | endOfFile | extendedSegment | startSegment | extendedLinear | startLinear =>
      rw [List.cons_append, runsAfter, runsAfter, ih, hassoc] <;> rintro _ _ ⟨⟩

/-- A loader behind the records is on the page that the writer keeps. -/
def OnPage (before : List Record) (page : Option UInt16) : Prop :=
  ∀ upper, page = some upper → baseAfter before = upper.toNat * 0x10000

theorem baseAfter_heading {before : List Record} {page : Option UInt16} (hp : OnPage before page)
    (c : Nat × Bytes) : baseAfter (before ++ heading page c) = (pageOf c).toNat * 0x10000 := by
  rw [heading]
  split_ifs with hpage
  · rw [List.append_nil, hp _ hpage]
  · rw [baseAfter_concat]
    rfl

theorem onPage_dataOf {before : List Record} {page : Option UInt16} (hp : OnPage before page)
    (c : Nat × Bytes) : OnPage (before ++ heading page c ++ [dataOf c]) (some (pageOf c)) := by
  rintro upper ⟨⟩
  rw [baseAfter_concat, baseAfter_heading hp]
  rfl

/-- A heading places nothing. -/
theorem runsAfter_heading (before : List Record) (page : Option UInt16) (c : Nat × Bytes) :
    runsAfter before (heading page c) = [] := by
  rw [heading]
  split_ifs <;> rfl

/-- The data record after it places the run. -/
theorem runsAfter_heading_dataOf {before : List Record} {page : Option UInt16}
    (hp : OnPage before page) {c : Nat × Bytes} (hc : c.1 < addressSpace) (rest : List Record) :
    runsAfter before (heading page c ++ dataOf c :: rest) =
      c :: runsAfter (before ++ heading page c ++ [dataOf c]) rest := by
  rw [runsAfter_append, runsAfter_heading, List.nil_append, dataOf, runsAfter, baseAfter_heading hp,
    pageOf_add_offset hc]

/-- **A loader finds the runs** in their records, each at its address. -/
theorem runsAfter_recordsFrom {cs : List (Nat × Bytes)} (hcs : ∀ c ∈ cs, c.1 < addressSpace)
    {before : List Record} {page : Option UInt16} (hp : OnPage before page) :
    runsAfter before (recordsFrom page cs) = cs := by
  induction cs generalizing before page with
  | nil => rfl
  | cons c rest ih =>
    obtain ⟨hc, hrest⟩ := List.forall_mem_cons.1 hcs
    rw [recordsFrom_cons, runsAfter_heading_dataOf hp hc, ih hrest (onPage_dataOf hp c)]

theorem runs_records {img : Image} (h : img.Canonical) : runs (records img) = chunks img :=
  runsAfter_recordsFrom (fun _ hc => lt_of_mem_chunks h hc) nofun

/-! ## What stands before a record -/

/-- Behind all runs there is only the end-of-file record. -/
theorem eq_endOfFile_of_append {before rest : List Record} {r : Record}
    (h : [Record.endOfFile] = before ++ r :: rest) : r = .endOfFile := by
  have hr : r ∈ [Record.endOfFile] := by
    rw [h]
    exact List.mem_append_right _ List.mem_cons_self
  exact List.mem_singleton.1 hr

/-- A record among those of a run and of others is the page record of the run, its data
    record, or one of the others. -/
theorem split_heading {page : Option UInt16} {c : Nat × Bytes} {rs before rest : List Record}
    {r : Record} (h : heading page c ++ dataOf c :: rs = before ++ r :: rest) :
    (∃ upper, r = .extendedLinear upper ∧ rest = dataOf c :: rs) ∨
      (before = heading page c ∧ r = dataOf c) ∨
      ∃ before', before = heading page c ++ dataOf c :: before' ∧ rs = before' ++ r :: rest := by
  have hdata : ∀ before, dataOf c :: rs = before ++ r :: rest →
      (before = [] ∧ r = dataOf c) ∨
        ∃ before', before = dataOf c :: before' ∧ rs = before' ++ r :: rest := by
    intro before h
    rcases List.cons_eq_append_iff.1 h with ⟨hnil, h⟩ | h
    · exact Or.inl ⟨hnil, (List.cons.inj h).1⟩
    · exact Or.inr h
  rw [heading] at h ⊢
  split_ifs at h ⊢ with hpage
  · exact Or.inr (hdata before h)
  · rcases List.cons_eq_append_iff.1 h with ⟨-, hfirst⟩ | ⟨before, rfl, htail⟩
    · exact Or.inl ⟨_, List.cons.inj hfirst⟩
    · refine Or.inr ?_
      rcases hdata before htail with ⟨rfl, hc⟩ | ⟨before', rfl, hrs⟩
      · exact Or.inl ⟨rfl, hc⟩
      · exact Or.inr ⟨before', rfl, hrs⟩

/-- The page of the last of the runs, or the one before any. -/
def lastPage (page : Option UInt16) (cs : List (Nat × Bytes)) : Option UInt16 :=
  (cs.getLast?.map pageOf).or page

theorem lastPage_cons (page : Option UInt16) (c : Nat × Bytes) (cs : List (Nat × Bytes)) :
    lastPage page (c :: cs) = lastPage (some (pageOf c)) cs := by
  rw [lastPage, lastPage, List.getLast?_cons]
  cases cs.getLast? <;> rfl

theorem endsWithPage_heading {page : Option UInt16} {c : Nat × Bytes} :
    EndsWithPage (heading page c) ↔ page ≠ some (pageOf c) := by
  rw [heading, EndsWithPage]
  split_ifs with hpage
  · exact iff_of_false (by rintro ⟨upper, ⟨⟩⟩) (not_not.2 hpage)
  · exact iff_of_true ⟨_, rfl⟩ hpage

theorem endsWithPage_append_dataOf (before rs : List Record) (c : Nat × Bytes) :
    EndsWithPage (before ++ dataOf c :: rs) ↔ EndsWithPage rs := by
  rw [EndsWithPage, EndsWithPage, List.getLast?_append_cons, List.getLast?_cons]
  cases rs.getLast? with
  | none => exact iff_of_false (by rintro ⟨upper, ⟨⟩⟩) (by rintro ⟨upper, ⟨⟩⟩)
  | some r => exact Iff.rfl

/-- **What stands before a data record**: the records of the runs below its own, and its page
    record if the last of these runs lies in another page. -/
theorem exists_chunk_of_data {cs : List (Nat × Bytes)} (hcs : ∀ c ∈ cs, c.1 < addressSpace)
    {done : List Record} {page : Option UInt16} (hp : OnPage done page) {before rest : List Record}
    {offset : UInt16} {payload : Bytes}
    (h : recordsFrom page cs = before ++ .data offset payload :: rest) :
    ∃ below c above, cs = below ++ c :: above ∧ runsAfter done before = below ∧
      baseAfter (done ++ before) + offset.toNat = c.1 ∧ payload = c.2 ∧
      (EndsWithPage before ↔ lastPage page below ≠ some (pageOf c)) := by
  induction cs generalizing done page before with
  | nil => cases eq_endOfFile_of_append h
  | cons c rest ih =>
    obtain ⟨hc, hrest⟩ := List.forall_mem_cons.1 hcs
    rw [recordsFrom_cons] at h
    rcases split_heading h with ⟨upper, hdata, -⟩ | ⟨rfl, hdata⟩ | ⟨before', rfl, hrs⟩
    · cases hdata
    · obtain ⟨rfl, rfl⟩ := Record.data.inj hdata
      refine ⟨[], c, rest, rfl, runsAfter_heading _ _ _, ?_, rfl, endsWithPage_heading⟩
      rw [baseAfter_heading hp, pageOf_add_offset hc]
    · obtain ⟨below, d, above, rfl, hruns, hbase, hpayload, hlast⟩ :=
        ih hrest (onPage_dataOf hp c) hrs
      refine ⟨c :: below, d, above, rfl, ?_, ?_, hpayload, ?_⟩
      · rw [runsAfter_heading_dataOf hp hc, hruns]
      · rw [← hbase]
        simp
      · rw [endsWithPage_append_dataOf, lastPage_cons, hlast]

/-- Among ascending runs, no run below lies in the page of a run exactly if the last one
    does not. -/
theorem lastPage_ne_iff {below above : List (Nat × Bytes)} {c : Nat × Bytes}
    (hcs : ∀ d ∈ below ++ c :: above, d.1 < addressSpace)
    (hsorted : (below ++ c :: above).Pairwise Below) :
    lastPage none below ≠ some (pageOf c) ↔ ∀ d ∈ below, d.1 / 0x10000 ≠ c.1 / 0x10000 := by
  have hc := hcs c (List.mem_append_right _ List.mem_cons_self)
  cases hlast : below.getLast? with
  | none =>
    rw [List.getLast?_eq_none_iff.1 hlast]
    exact iff_of_true nofun nofun
  | some l =>
    obtain ⟨front, rfl⟩ := List.getLast?_eq_some_iff.1 hlast
    have hl : l.1 < addressSpace := hcs l (by simp)
    obtain ⟨hbelow, -, hbefore⟩ := List.pairwise_append.1 hsorted
    obtain ⟨-, -, hfront⟩ := List.pairwise_append.1 hbelow
    have hlc : Below l c := hbefore l (by simp) c List.mem_cons_self
    rw [lastPage, hlast, Option.map_some, Option.some_or, ne_eq, Option.some_inj, ← UInt16.toNat_inj,
      toNat_pageOf hl, toNat_pageOf hc]
    constructor
    · intro hne d hd
      rcases List.mem_append.1 hd with hd | hd
      · -- The page of `l` is between those of `d` and `c`.
        have hdl := hfront d hd l (by simp)
        unfold Below at hdl hlc
        omega
      · rwa [List.mem_singleton.1 hd]
    · intro hnone
      exact hnone l (by simp)

/-- **A page record is followed by a data record.** -/
theorem data_of_extendedLinear {cs : List (Nat × Bytes)} {page : Option UInt16} {upper : UInt16}
    {before rest : List Record} (h : recordsFrom page cs = before ++ .extendedLinear upper :: rest) :
    ∃ offset payload rest', rest = .data offset payload :: rest' := by
  induction cs generalizing page before with
  | nil => cases eq_endOfFile_of_append h
  | cons c cs ih =>
    rw [recordsFrom_cons] at h
    rcases split_heading h with ⟨-, -, hrest⟩ | ⟨-, hdata⟩ | ⟨before', -, hrs⟩
    · exact ⟨_, _, _, hrest⟩
    · cases hdata
    · exact ih hrs

/-! ## Bytes with their addresses -/

theorem mem_addressed {c : Nat × Bytes} {a : Nat} {b : UInt8} :
    (a, b) ∈ addressed c ↔ c.1 ≤ a ∧ c.2[a - c.1]? = some b := by
  rw [addressed, List.mem_mapIdx]
  constructor
  · rintro ⟨i, hi, ⟨⟩⟩
    rw [Nat.add_sub_cancel_left, List.getElem?_eq_getElem hi]
    exact ⟨Nat.le_add_right .., rfl⟩
  · rintro ⟨hle, hb⟩
    obtain ⟨hi, rfl⟩ := List.getElem?_eq_some_iff.1 hb
    exact ⟨a - c.1, hi, by rw [Nat.add_sub_cancel' hle]⟩

theorem pairwise_addressed (c : Nat × Bytes) : (addressed c).Pairwise fun p q => p.1 < q.1 := by
  rw [addressed, List.pairwise_iff_getElem]
  intro i j hi hj hij
  rw [List.getElem_mapIdx, List.getElem_mapIdx]
  exact Nat.add_lt_add_left hij _

theorem mem_occupiedBytes {img : Image} (h : img.Canonical) {a : Nat} {b : UInt8} :
    (a, b) ∈ img.occupiedBytes ↔ img.byteAt? a = some b := by
  simp only [Image.occupiedBytes, List.mem_filterMap, List.mem_range, Option.map_eq_some_iff,
    Prod.mk.injEq]
  constructor
  · rintro ⟨a', -, b', hb, rfl, rfl⟩
    exact hb
  · intro hb
    obtain ⟨s, hs, -, hlt⟩ := Image.occupied_iff.1 (Option.isSome_of_mem hb)
    exact ⟨a, Nat.lt_of_lt_of_le hlt (h.inSpace s hs), b, hb, rfl, rfl⟩

theorem pairwise_occupiedBytes (img : Image) :
    img.occupiedBytes.Pairwise fun p q => p.1 < q.1 := by
  rw [Image.occupiedBytes, List.pairwise_filterMap]
  refine List.pairwise_lt_range.imp ?_
  intro a a' hlt p hp q hq
  obtain ⟨b, -, rfl⟩ := Option.map_eq_some_iff.1 hp
  obtain ⟨b', -, rfl⟩ := Option.map_eq_some_iff.1 hq
  exact hlt

/-- **The runs hold exactly the bytes of the image**, in the order of their addresses. -/
theorem flatMap_addressed_chunks {img : Image} (h : img.Canonical) :
    (chunks img).flatMap addressed = img.occupiedBytes := by
  have hirrefl : Std.Irrefl fun p q : Nat × UInt8 => p.1 < q.1 := ⟨fun p => Nat.lt_irrefl p.1⟩
  have hantisymm : Std.Antisymm fun p q : Nat × UInt8 => p.1 < q.1 :=
    ⟨fun p q hpq hqp => absurd hpq (Nat.lt_asymm hqp)⟩
  have hsorted : ((chunks img).flatMap addressed).Pairwise fun p q => p.1 < q.1 := by
    rw [List.pairwise_flatMap]
    refine ⟨fun c _ => pairwise_addressed c, (pairwise_chunks h).imp ?_⟩
    rintro c d hcd ⟨a, b⟩ hp ⟨a', b'⟩ hq
    obtain ⟨-, hb⟩ := mem_addressed.1 hp
    obtain ⟨hle, -⟩ := mem_addressed.1 hq
    obtain ⟨hlt, -⟩ := List.getElem?_eq_some_iff.1 hb
    unfold Below at hcd
    show a < a'
    omega
  refine hsorted.eq_of_mem_iff (pairwise_occupiedBytes img) ?_
  rintro ⟨a, b⟩
  rw [mem_occupiedBytes h, byteAt?_eq_some_iff_chunks h]
  simp only [List.mem_flatMap, mem_addressed]

/-! ## The records of an image -/

theorem wellFormed_records {img : Image} (h : img.Canonical) : WellFormed (records img) := by
  have hcs : ∀ c ∈ chunks img, c.1 < addressSpace := fun c hc => lt_of_mem_chunks h hc
  have hsorted := pairwise_chunks h
  have hstart : OnPage [] none := nofun
  refine ⟨recordsFrom_eq none (chunks img), ?_, ?_, ?_, ?_⟩
  · intro before offset payload rest hrs
    obtain ⟨below, c, above, hsplit, -, hbase, rfl, -⟩ := exists_chunk_of_data hcs hstart hrs
    have hc : c ∈ chunks img := by
      rw [hsplit]
      exact List.mem_append_right _ List.mem_cons_self
    obtain ⟨hpos, hshort, hpage⟩ := fitsRecord_of_mem_chunks hc
    rw [List.nil_append] at hbase
    rw [hbase]
    exact ⟨hpos, hshort, hpage⟩
  · rw [runs_records h]
    refine hsorted.imp_of_mem ?_
    intro c d hc hd hcd
    have := (fitsRecord_of_mem_chunks hc).nonempty
    unfold Below at hcd
    exact ⟨by omega, hcd⟩
  · intro before offset payload rest hrs
    obtain ⟨below, c, above, hsplit, hruns, hbase, -, hlast⟩ := exists_chunk_of_data hcs hstart hrs
    rw [hsplit] at hcs hsorted
    rw [List.nil_append] at hbase
    rw [hlast, lastPage_ne_iff hcs hsorted, runs, hruns, hbase]
  · intro before upper rest hrs
    exact data_of_extendedLinear hrs

/-- **The records of an image suit any loader.** The text of an image is that of its records,
    line by line: data records and page records, and one end-of-file record behind them. A
    data record has 1 to 16 bytes of one page, data records ascend without overlaps, and a
    page record stands before the first data record of each page and nowhere else. The bytes
    that they place are those of the image in the order of their addresses. -/
theorem records_wellFormed {img : Image} (h : img.Reachable) :
    img.toHex = .ok (String.ofList ((records img).flatMap fun r => r.render ++ ['\n'])) ∧
    WellFormed (records img) ∧
    (runs (records img)).flatMap addressed = img.occupiedBytes := by
  have hc := h.canonical
  refine ⟨?_, wellFormed_records hc, ?_⟩
  · rw [Image.toHex, write_eq_ok img]
    rfl
  · rw [runs_records hc, flatMap_addressed_chunks hc]

/-- A segment across a page boundary and one that shares a page with its end, which needs two
    records, and the last address of all. -/
theorem records_wellFormed_pages :
    let img := Image.empty.after [.insert 0xfffe [1, 2, 3], .insert 0x10010 (List.replicate 17 4),
      .insert 0xffffffff [9]]
    img.Reachable ∧
      records img = [.extendedLinear 0, .data 0xfffe [1, 2], .extendedLinear 1, .data 0 [3],
        .data 0x10 (List.replicate 16 4), .data 0x20 [4], .extendedLinear 0xffff,
        .data 0xffff [9], .endOfFile] ∧
      WellFormed (records img) ∧ (runs (records img)).flatMap addressed = img.occupiedBytes := by
  intro img
  have h : img.Reachable := ⟨_, rfl⟩
  obtain ⟨-, hwell, hbytes⟩ := records_wellFormed h
  exact ⟨h, by decide, hwell, hbytes⟩

end IntelHex

end BootSeal
