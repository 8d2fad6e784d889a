/-
  BootSeal — where the address space ends for a region.

  * `Region.Exceeds`: an address of the region is past the last one; `Region.EndsSpace`: the
    region ends with the last one. Only what is neither has an end (`Region.InSpace`);
  * `PartitionLayout.mapM_readRegion`: a configuration gives a layout exactly if the regions
    that it asks for can be read one after the other, and these are the regions of the layout;
  * `limit_exact`: so configurations and manifests refuse the same regions, which are those
    that have no place in an image and, besides, those that end with the last address.
-/
import BootSeal.Proofs.Image.Union
import BootSeal.Proofs.Partition.Forms

namespace BootSeal

/-! ## Regions -/

namespace Region

/-- The address lies in the region. -/
def Holds (r : Region) (a : Nat) : Prop := r.start.toNat ≤ a ∧ a < r.start.toNat + r.size.toNat

/-- The region holds something past the last address. -/
def Exceeds (r : Region) : Prop := ∃ a, r.Holds a ∧ addressSpace ≤ a

/-- The first address past the region is the end of the address space. -/
def EndsSpace (r : Region) : Prop := r.start.toNat + r.size.toNat = addressSpace

variable {r : Region}

theorem exceeds_iff : r.Exceeds ↔ addressSpace < r.start.toNat + r.size.toNat := by
  have hstart : r.start.toNat < addressSpace := r.start.toNat_lt
  constructor
  · rintro ⟨a, ⟨-, hlt⟩, hspace⟩
    exact Nat.lt_of_le_of_lt hspace hlt
  · intro hlt
    exact ⟨addressSpace, ⟨Nat.le_of_lt hstart, hlt⟩, Nat.le_refl _⟩

theorem not_inSpace_iff : ¬ r.InSpace ↔ r.Exceeds ∨ r.EndsSpace := by
  rw [exceeds_iff, InSpace, EndsSpace]
  omega

theorem isNone_stop?_iff : r.stop?.isNone = true ↔ ¬ r.InSpace := by
  rw [stop?, Address.add?, Address.ofNat?, InSpace]
  split_ifs with h
  · exact iff_of_false Bool.false_ne_true (not_not_intro h)
  · exact iff_of_true rfl h

theorem stop?_eq_some_iff {stop : UInt32} :
    r.stop? = some stop ↔ stop.toNat = r.start.toNat + r.size.toNat :=
  Address.add?_eq_some_iff

end Region

/-- In an image without content nothing is in the way but the end of the address space. -/
theorem Image.ofBytes_eq_error_iff {a : UInt32} {d : Bytes} {f : PlacementFault} :
    ofBytes d a = .error f ↔
      addressSpace < a.toNat + d.length ∧ f = .pastAddressSpace a d.length := by
  have ha : a.toNat < addressSpace := a.toNat_lt
  rw [ofBytes, insert_eq]
  split_ifs with hd hs
  · refine iff_of_false (by rintro ⟨⟩) fun h => ?_
    rw [List.isEmpty_iff.1 hd, List.length_nil] at h
    omega
  · rw [Except.error.injEq, eq_comm]
    exact (and_iff_right hs).symm
  · exact iff_of_false (by rintro ⟨⟩) fun h => hs h.1

/-! ## Configurations -/

namespace PartitionLayout

/-- The regions of the partitions that are there, and of the installer. -/
def regions (l : PartitionLayout) : List Region :=
  l.presentEntries.map (·.region) ++ l.installer.toList

/-- The names whose regions a configuration has to define: those with a marker, in the order
    given, and the installer if there is a start for it. -/
def readNames (c : BuildConfig) (names : List String) : List String :=
  (names.filter fun name => c.isSet (propertyKey name "PRESENT")) ++
    if c.isSet (propertyKey installerName "START") then [installerName] else []

variable {c : BuildConfig} {names : List String}

/-- The regions of the partitions with a marker, one after the other. -/
theorem mapM_readRegion_filter (c : BuildConfig) (names : List String) :
    (names.filter fun name => c.isSet (propertyKey name "PRESENT")).mapM (readRegion c) =
      (names.mapM (readEntry c)).map fun entries =>
        (entries.filter (·.isPresent)).map (·.region) := by
  induction names with
  | nil => rfl
  | cons name names ih =>
    rw [List.filter_cons, List.mapM_cons, readEntry]
    split
    · rw [List.mapM_cons, ih]
      cases readRegion c name with
      | error e => rfl
      | ok r => cases names.mapM (readEntry c) <;> rfl
    · rw [ih]
      cases names.mapM (readEntry c) <;> rfl

/-- **A layout is its regions.** A configuration gives one exactly if the regions that it
    has to define can be read, and fails like the first one that cannot. -/
theorem mapM_readRegion (c : BuildConfig) (names : List String) :
    (readNames c names).mapM (readRegion c) = (ofConfig c names).map regions := by
  rw [readNames, List.mapM_append, mapM_readRegion_filter, ofConfig]
  cases names.mapM (readEntry c) with
  | error e => rfl
  | ok entries =>
    split
    · rw [List.mapM_cons]
      cases readRegion c installerName <;> rfl
    · show Except.ok _ = Except.ok _
      simp [regions, presentEntries]

theorem readRegion_eq_ok_iff {name : String} {r : Region} :
    readRegion c name = .ok r ↔ c.requireHex (propertyKey name "START") = .ok r.start ∧
      c.requireHex (propertyKey name "SIZE") = .ok r.size ∧ r.InSpace := by
  rw [readRegion, bind_eq_ok]
  constructor
  · rintro ⟨start, hstart, h⟩
    obtain ⟨size, hsize, h⟩ := bind_eq_ok.1 h
    dsimp only at h
    split at h
    · cases h
    · next hstop =>
      cases h
      rw [Region.isNone_stop?_iff, not_not] at hstop
      exact ⟨hstart, hsize, hstop⟩
  · rintro ⟨hstart, hsize, hr⟩
    refine ⟨r.start, hstart, bind_of_eq_ok hsize (if_neg ?_)⟩
    rw [Region.isNone_stop?_iff, not_not]
    exact hr

/-- A number that cannot be read is no region yet. -/
theorem requireHex_ne_regionOverflow {key key' : String} {a n : UInt32} :
    c.requireHex key ≠ .error (.regionOverflow key' a n) := by
  unfold BuildConfig.requireHex BuildConfig.hex? parseHex
  intro h
  rcases bind_eq_error.1 h with h | ⟨number, -, h⟩
  · split at h
    · cases h
    · dsimp only at h
      split at h <;> cases h
  · cases number <;> cases h

/-- **A region is refused** exactly if its numbers can be read and there is no address after
    it. -/
theorem readRegion_overflow_iff {name key : String} {a n : UInt32} :
    readRegion c name = .error (.regionOverflow key a n) ↔ key = propertyKey name "START" ∧
      c.requireHex key = .ok a ∧ c.requireHex (propertyKey name "SIZE") = .ok n ∧
      ¬ (Region.mk a n).InSpace := by
  rw [readRegion, bind_eq_error, or_iff_right requireHex_ne_regionOverflow]
  constructor
  · rintro ⟨start, hstart, h⟩
    obtain ⟨size, hsize, h⟩ := (bind_eq_error.1 h).resolve_left requireHex_ne_regionOverflow
    dsimp only at h
    split at h
    · next hstop =>
      cases h
      exact ⟨rfl, hstart, hsize, Region.isNone_stop?_iff.1 hstop⟩
    · cases h
  · rintro ⟨rfl, hstart, hsize, hr⟩
    refine ⟨a, hstart, bind_eq_error.2 (Or.inr ⟨n, hsize, if_pos ?_⟩)⟩
    exact Region.isNone_stop?_iff.2 hr

/-- **The first region that is refused** is the one that a configuration fails with. -/
theorem ofConfig_overflow_iff {key : String} {a n : UInt32} :
    ofConfig c names = .error (.regionOverflow key a n) ↔
      ∃ before name after, readNames c names = before ++ name :: after ∧
        (∀ x ∈ before, ∃ r, readRegion c x = .ok r) ∧
        readRegion c name = .error (.regionOverflow key a n) := by
  rw [← mapM_eq_error_iff, mapM_readRegion]
  cases ofConfig c names with
  | error e => rw [Except.map, Except.error.injEq, Except.error.injEq]
  | ok l => exact ⟨nofun, nofun⟩

end PartitionLayout

/-! ## Manifests -/

/-- **The first partition that is refused** is the one that a manifest fails with, and it
    fails with nothing else. -/
theorem PartitionManifest.check_eq_error_iff {m : PartitionManifest} {f : ConfigError} :
    m.check = .error f ↔ ∃ before e after, m.entries = before ++ e :: after ∧
      (∀ x ∈ before, x.isPresent = true → x.region.InSpace) ∧
      e.isPresent = true ∧ ¬ e.region.InSpace ∧ f = .regionOverflow e.name e.address e.size := by
  have hiff (x : PartitionEntry) : (x.isPresent && x.region.stop?.isNone) = true ↔
      x.isPresent = true ∧ ¬ x.region.InSpace := by
    rw [Bool.and_eq_true, Region.isNone_stop?_iff]
  rw [check]
  constructor
  · intro h
    split at h
    · next e he =>
      cases h
      obtain ⟨hbad, before, after, hentries, hbefore⟩ := List.find?_eq_some_iff_append.1 he
      refine ⟨before, e, after, hentries, fun x hx hpresent => ?_, ((hiff e).1 hbad).1,
        ((hiff e).1 hbad).2, rfl⟩
      by_contra hspace
      exact absurd (hbefore x hx) (by rw [(hiff x).2 ⟨hpresent, hspace⟩]; exact nofun)
    · cases h
  · rintro ⟨before, e, after, hentries, hbefore, hpresent, hspace, rfl⟩
    have hfind : (m.entries.find? fun e => e.isPresent && e.region.stop?.isNone) = some e := by
      refine List.find?_eq_some_iff_append.2 ⟨(hiff e).2 ⟨hpresent, hspace⟩, before, after,
        hentries, fun x hx => ?_⟩
      rw [Bool.not_eq_true', Bool.eq_false_iff]
      exact fun hbad => ((hiff x).1 hbad).2 (hbefore x hx ((hiff x).1 hbad).1)
    rw [hfind]

theorem PartitionManifest.parse_of_read {path text : String} {m : PartitionManifest}
    (h : (Toml.parse? text.toList >>= ofTable?) = some m) : parse path text = m.check := by
  unfold parse
  rw [h]

/-! ## The limit -/

namespace Region

/-- **What has no place in an image is refused**, by configurations and by manifests, which
    fail with the first such region. They refuse besides what ends with the last address,
    though it has its place in an image, and no other region. -/
theorem limit_exact (r : Region) :
    (∀ (c : BuildConfig) (names : List String) (key : String),
      PartitionLayout.ofConfig c names = .error (.regionOverflow key r.start r.size) ↔
        ∃ before name after, PartitionLayout.readNames c names = before ++ name :: after ∧
          (∀ x ∈ before, ∃ region, PartitionLayout.readRegion c x = .ok region) ∧
          key = PartitionLayout.propertyKey name "START" ∧ c.requireHex key = .ok r.start ∧
          c.requireHex (PartitionLayout.propertyKey name "SIZE") = .ok r.size ∧
          (r.Exceeds ∨ r.EndsSpace)) ∧
    (∀ (path text : String) (m : PartitionManifest),
      (Toml.parse? text.toList >>= PartitionManifest.ofTable?) = some m → ∀ name : String,
        PartitionManifest.parse path text = .error (.regionOverflow name r.start r.size) ↔
          ∃ before e after, m.entries = before ++ e :: after ∧
            (∀ x ∈ before, x.isPresent = true → ¬ (x.region.Exceeds ∨ x.region.EndsSpace)) ∧
            e.isPresent = true ∧ e.name = name ∧ e.region = r ∧ (r.Exceeds ∨ r.EndsSpace)) ∧
    ∀ d : Bytes, d.length = r.size.toNat → ∀ f : PlacementFault,
      Image.ofBytes d r.start = .error f ↔ r.Exceeds ∧ f = .pastAddressSpace r.start d.length := by
  refine ⟨fun c names key => ?_, fun path text m hm name => ?_, fun d hd f => ?_⟩
  · simp only [PartitionLayout.ofConfig_overflow_iff, PartitionLayout.readRegion_overflow_iff,
      not_inSpace_iff]
  · rw [PartitionManifest.parse_of_read hm, PartitionManifest.check_eq_error_iff]
    constructor
    · rintro ⟨before, e, after, hentries, hbefore, hpresent, hspace, hfault⟩
      obtain ⟨a, n⟩ := r
      cases hfault
      refine ⟨before, e, after, hentries, fun x hx hx' => ?_, hpresent, rfl, rfl,
        not_inSpace_iff.1 hspace⟩
      exact fun h => not_inSpace_iff.2 h (hbefore x hx hx')
    · rintro ⟨before, e, after, hentries, hbefore, hpresent, rfl, rfl, hspace⟩
      refine ⟨before, e, after, hentries, fun x hx hx' => ?_, hpresent,
        not_inSpace_iff.2 hspace, rfl⟩
      by_contra h
      exact hbefore x hx hx' (not_inSpace_iff.1 h)
  · rw [Image.ofBytes_eq_error_iff, exceeds_iff, hd]

/-! Two bytes at the last address, in a partition that is not there and in one that is. -/

namespace OneAbsent

def text : String := "[[partition]]
name=\"spare\"
address=0xffffffff
size=2
present=false
[[partition]]
name=\"app\"
address=0xffffffff
size=2"

def manifest : PartitionManifest :=
  ⟨none, [⟨"spare", 0xffffffff, 2, false⟩, .present "app" 0xffffffff 2]⟩

theorem ofTable?_parse? :
    (Toml.parse? text.toList >>= PartitionManifest.ofTable?) = some manifest := by
  decide +kernel

end OneAbsent

theorem limit_exact_one_absent :
    PartitionManifest.parse "partitions.toml" OneAbsent.text =
      .error (.regionOverflow "app" 0xffffffff 2) ∧
    Image.ofBytes [0, 0] 0xffffffff = .error (.pastAddressSpace 0xffffffff 2) := by
  have hexceeds : (Region.mk 0xffffffff 2).Exceeds := exceeds_iff.2 (by decide)
  obtain ⟨-, hmanifest, himage⟩ := limit_exact (Region.mk 0xffffffff 2)
  constructor
  · refine (hmanifest _ _ _ OneAbsent.ofTable?_parse? _).2
      ⟨[_], _, [], rfl, ?_, rfl, rfl, rfl, Or.inl hexceeds⟩
    exact List.forall_mem_singleton.2 nofun
  · exact (himage [0, 0] rfl _).2 ⟨hexceeds, rfl⟩

/-! One byte at the last address. -/

namespace LastByte

def header : String := "#define app_PARTITION_PRESENT 1
#define app_PARTITION_START 0xffffffff
#define app_PARTITION_SIZE 0x1
"

def config : BuildConfig := ⟨[("app_PARTITION_PRESENT", "1"),
  ("app_PARTITION_START", "0xffffffff"), ("app_PARTITION_SIZE", "0x1")]⟩

def text : String := "[[partition]]
name = \"app\"
address = 0xffffffff
size = 0x1
"

def manifest : PartitionManifest := ⟨none, [.present "app" 0xffffffff 1]⟩

end LastByte

/-- **The last address is out of reach**: configurations and manifests refuse a partition
    there as if it exceeded the address space, though an image may hold its byte. -/
theorem last_byte_refused :
    ¬ (Region.mk 0xffffffff 1).Exceeds ∧ (Image.ofBytes [0] 0xffffffff).isOk = true ∧
    BuildConfig.ofText LastByte.header = .ok LastByte.config ∧
    PartitionLayout.ofConfig LastByte.config ["app"] =
      .error (.regionOverflow "app_PARTITION_START" 0xffffffff 1) ∧
    (Toml.parse? LastByte.text.toList >>= PartitionManifest.ofTable?) = some LastByte.manifest ∧
    LastByte.manifest.check = .error (.regionOverflow "app" 0xffffffff 1) := by
  have hfits : ¬ (Region.mk 0xffffffff 1).Exceeds := fun h =>
    absurd (exceeds_iff.1 h) (by decide)
  have htext : BuildConfig.ofText LastByte.header = .ok LastByte.config :=
    eq_ok_of_toOption (by decide +kernel)
  exact ⟨hfits, rfl, htext, rfl, by decide +kernel, rfl⟩

end Region

end BootSeal
