/-
  BootSeal — what can still fail when the table of a configuration is written.

  * `PartitionLayout.ofConfig_eq_ok_iff`: a layout that was read has the regions that its
    configuration defines, and all of them have an end;
  * `TablePlacement.resolve_of_ofConfig`: so a place in it has an address, or is the one after
    an installer that the configuration does not know;
  * `LateFault`: the faults that are left, in terms of the configuration;
  * `FileTree.writeTable_late`: each of them is found before a file is touched, and besides
    them only files fail.
-/
import BootSeal.Proofs.Files.Metadata
import BootSeal.Proofs.Partition.Limit

namespace BootSeal

open PartitionLayout (propertyKey installerName)

variable {c : BuildConfig} {names : List String} {l : PartitionLayout}
  {placement : TablePlacement}

/-! ## Layouts -/

namespace BuildConfig

theorem isSet_of_requireHex {key : String} {n : UInt32} (h : c.requireHex key = .ok n) :
    c.isSet key = true := by
  obtain ⟨number, hhex, h⟩ := bind_eq_ok.1 h
  rw [isSet]
  cases hget : c.get? key with
  | none =>
    rw [hex?, hget] at hhex
    cases hhex
    cases h
  | some value => rfl

end BuildConfig

namespace PartitionLayout

/-- How many of the names have a marker. -/
def presentCount (c : BuildConfig) (names : List String) : Nat :=
  (names.filter fun name => c.isSet (propertyKey name "PRESENT")).length

theorem ofConfig_eq_ok_iff : ofConfig c names = .ok l ↔
    names.mapM (readEntry c) = .ok l.entries ∧
      if c.isSet (propertyKey installerName "START") = true then
        ∃ r, readRegion c installerName = .ok r ∧ l.installer = some r
      else l.installer = none := by
  rw [ofConfig, bind_eq_ok]
  constructor
  · rintro ⟨entries, hentries, h⟩
    split at h
    · next hset =>
      cases hr : readRegion c installerName with
      | error e => rw [hr] at h; cases h
      | ok r =>
        rw [hr] at h
        cases h
        exact ⟨hentries, by rw [if_pos hset]; exact ⟨r, rfl, rfl⟩⟩
    · next hset =>
      cases h
      exact ⟨hentries, by rw [if_neg hset]⟩
  · rintro ⟨hentries, h⟩
    refine ⟨l.entries, hentries, ?_⟩
    split at h
    · next hset =>
      obtain ⟨r, hr, hinstaller⟩ := h
      rw [if_pos hset, hr]
      exact congrArg Except.ok (congrArg _ hinstaller.symm)
    · next hset =>
      rw [if_neg hset]
      exact congrArg Except.ok (congrArg _ h.symm)

theorem length_presentEntries (h : ofConfig c names = .ok l) :
    l.presentEntries.length = presentCount c names := by
  have hregions := mapM_readRegion_filter c names
  rw [(ofConfig_eq_ok_iff.1 h).1] at hregions
  have hlength := (mapM_eq_ok_iff.1 hregions).length_eq
  rw [List.length_map] at hlength
  exact hlength.symm

end PartitionLayout

/-! ## Places -/

namespace TablePlacement

/-- The place is the number: a fixed address, or the sum of the two numbers that the
    configuration defines for the installer. -/
inductive IsAt (c : BuildConfig) : TablePlacement → Nat → Prop where
  | fixed (a : UInt32) : IsAt c (.fixed a) a.toNat
  | afterInstaller {start size : UInt32} :
    c.requireHex (propertyKey installerName "START") = .ok start →
    c.requireHex (propertyKey installerName "SIZE") = .ok size →
    IsAt c .afterInstaller (start.toNat + size.toNat)

theorem IsAt.unique {m n : Nat} (hm : placement.IsAt c m) (hn : placement.IsAt c n) : m = n := by
  cases hm with
  | fixed a =>
    cases hn
    rfl
  | afterInstaller hstart hsize =>
    cases hn with
    | afterInstaller hstart' hsize' =>
      rw [hstart] at hstart'
      rw [hsize] at hsize'
      cases hstart'
      cases hsize'
      rfl

/-- The place is the one after an installer that the configuration does not know. -/
def NoInstaller (c : BuildConfig) (p : TablePlacement) : Prop :=
  p = .afterInstaller ∧ c.isSet (propertyKey installerName "START") = false

theorem IsAt.not_noInstaller {n : Nat} (h : placement.IsAt c n) : ¬ placement.NoInstaller c := by
  rintro ⟨rfl, hset⟩
  cases h with
  | afterInstaller hstart _ =>
    rw [BuildConfig.isSet_of_requireHex hstart] at hset
    cases hset

/-- **A place in a layout that was read** has its address, unless the installer is missing:
    that the installer has an end was found out when it was read. -/
theorem resolve_of_ofConfig (h : PartitionLayout.ofConfig c names = .ok l)
    (placement : TablePlacement) :
    (∃ a, placement.resolve l = .ok a ∧ placement.IsAt c a.toNat) ∨
      placement.NoInstaller c ∧
        placement.resolve l = .error (.configuration .installerMissing) := by
  cases placement with
  | fixed a => exact Or.inl ⟨a, rfl, .fixed a⟩
  | afterInstaller =>
    obtain ⟨-, hinstaller⟩ := PartitionLayout.ofConfig_eq_ok_iff.1 h
    split at hinstaller
    · obtain ⟨r, hr, hinstaller⟩ := hinstaller
      obtain ⟨hstart, hsize, hspace⟩ := PartitionLayout.readRegion_eq_ok_iff.1 hr
      obtain ⟨stop, hstop⟩ := hspace.exists_stop?
      refine Or.inl ⟨stop, ?_, ?_⟩
      · simp only [resolve, hinstaller, hstop]
      · rw [Region.stop?_eq_some_iff.1 hstop]
        exact .afterInstaller hstart hsize
    · next hset =>
      refine Or.inr ⟨⟨rfl, Bool.eq_false_iff.2 hset⟩, ?_⟩
      simp only [resolve, hinstaller]

/-- The end of an installer was found out before. -/
theorem resolve_ne_installerPastAddressSpace (h : PartitionLayout.ofConfig c names = .ok l)
    (placement : TablePlacement) :
    placement.resolve l ≠ .error (.configuration .installerPastAddressSpace) := by
  intro hplace
  rcases resolve_of_ofConfig h placement with ⟨a, hok, -⟩ | ⟨-, hmissing⟩
  · rw [hok] at hplace
    cases hplace
  · rw [hmissing] at hplace
    cases hplace

end TablePlacement

/-! ## Tables -/

theorem PartitionTable.build_cases (entries : List PartitionEntry) :
    (∃ table, build entries = .ok table ∧
      (entries.filter (·.isPresent)).length ≤ 255 ∧
      table.bytes.length = 36 + 64 * (entries.filter (·.isPresent)).length) ∨
    255 < (entries.filter (·.isPresent)).length ∧ build entries =
      .error (.configuration (.tooManyPartitions (entries.filter (·.isPresent)).length)) := by
  by_cases hmany : 255 < (entries.filter (·.isPresent)).length
  · exact Or.inr ⟨hmany, if_pos hmany⟩
  · obtain ⟨table, htable⟩ := exists_build_iff.2 (Nat.le_of_not_lt hmany)
    obtain ⟨hentries, -, -, hbytes⟩ := build_eq_ok htable
    refine Or.inl ⟨table, htable, Nat.le_of_not_lt hmany, ?_⟩
    rw [hbytes, TableView.length_ofContent, TableView.encodedSize_eq, hentries]

theorem Image.ofBytes_cases (d : Bytes) (a : UInt32) :
    (∃ img, ofBytes d a = .ok img ∧ a.toNat + d.length ≤ addressSpace) ∨
    addressSpace < a.toNat + d.length ∧ ofBytes d a = .error (.pastAddressSpace a d.length) := by
  cases h : ofBytes d a with
  | ok img =>
    refine Or.inl ⟨img, rfl, Nat.le_of_not_lt fun hpast => ?_⟩
    rw [ofBytes_eq_error_iff.2 ⟨hpast, rfl⟩] at h
    cases h
  | error f =>
    obtain ⟨hpast, rfl⟩ := ofBytes_eq_error_iff.1 h
    exact Or.inr ⟨hpast, rfl⟩

theorem Image.exists_toHex (img : Image) : ∃ hex, img.toHex = .ok hex := by
  rw [toHex, IntelHex.write_eq_ok]
  exact ⟨_, rfl⟩

/-- What is still to be found out about the table of a layout that was read. -/
inductive LateFault (c : BuildConfig) (names : List String) (placement : TablePlacement) :
    ConfigurationFault → Prop where
  /-- The table is to follow an installer that has no start. -/
  | noInstaller : placement.NoInstaller c → LateFault c names placement .installerMissing
  | tooMany : 255 < PartitionLayout.presentCount c names →
    LateFault c names placement (.tooManyPartitions (PartitionLayout.presentCount c names))
  /-- The table does not end within the address space. -/
  | pastEnd {a : UInt32} : placement.IsAt c a.toNat →
    addressSpace < a.toNat + 36 + 64 * PartitionLayout.presentCount c names →
    LateFault c names placement
      (.pastAddressSpace a (36 + 64 * PartitionLayout.presentCount c names))

/-- **The table of a layout that was read** is placed, or there is a late fault; not both. -/
theorem PlacedTable.ofLayout_of_ofConfig (h : PartitionLayout.ofConfig c names = .ok l)
    (placement : TablePlacement) :
    (∃ placed, ofLayout l placement = .ok placed ∧
      ∀ cause, ¬ LateFault c names placement cause) ∨
    ∃ cause, LateFault c names placement cause ∧
      ofLayout l placement = .error (.configuration cause) := by
  have hcount : (l.entries.filter (·.isPresent)).length = PartitionLayout.presentCount c names :=
    PartitionLayout.length_presentEntries h
  rcases TablePlacement.resolve_of_ofConfig h placement with ⟨a, hplace, hat⟩ | ⟨hno, hplace⟩
  · rcases PartitionTable.build_cases l.entries with ⟨table, htable, hmax, hlength⟩ | ⟨hmany, htable⟩
    · rw [hcount] at hmax hlength
      rcases Image.ofBytes_cases table.bytes a with ⟨img, himage, hfits⟩ | ⟨hpast, himage⟩
      · refine Or.inl ⟨⟨table, a, img⟩, ?_, ?_⟩
        · exact bind_of_eq_ok hplace (bind_of_eq_ok htable (by rw [himage]; rfl))
        · rintro cause (hno | hmany | ⟨hat', hpast⟩)
          · exact hat.not_noInstaller hno
          · omega
          · have := hat.unique hat'
            omega
      · refine Or.inr ⟨_, .pastEnd hat (by omega), ?_⟩
        rw [hlength] at himage
        exact bind_of_eq_ok hplace (bind_of_eq_ok htable (by rw [himage]; rfl))
    · rw [hcount] at hmany htable
      refine Or.inr ⟨_, .tooMany hmany, bind_of_eq_ok hplace ?_⟩
      rw [htable]
      rfl
  · refine Or.inr ⟨_, .noInstaller hno, ?_⟩
    rw [ofLayout, hplace]
    rfl

/-! ## Files -/

namespace FileTree

theorem writeHex_fails (t : FileTree) (path : String) (img : Image) :
    FailsWith (Error.IsFileFault [path]) (t.writeHex path img).2 := by
  obtain ⟨hex, hhex⟩ := img.exists_toHex
  rw [writeHex, hhex]
  exact persist_fails t _

/-- A table that has its place fails only with its file. -/
theorem writeTable_fails {placed : PlacedTable} (h : PlacedTable.ofLayout l placement = .ok placed)
    (t : FileTree) (path : String) :
    FailsWith (Error.IsFileFault [path]) (t.writeTable l placement path).2 := by
  rw [writeTable, h]
  dsimp only
  split
  · exact .ok _
  · next hwrite => exact (t.writeHex_fails path placed.image).of_eq (congrArg Prod.snd hwrite)

theorem writeTable_of_ofLayout {e : Error} (h : PlacedTable.ofLayout l placement = .error e)
    (t : FileTree) (path : String) : t.writeTable l placement path = (t, .error e) := by
  rw [writeTable, h]

/-- **Little is left to fail** once a layout was read from a configuration. Writing its table
    fails with a fault of the layout only if the table is to follow an installer that the
    configuration has no start of, if more than 255 of the names have markers, or if the
    table would end past the address space; each of them makes it fail before a file is
    touched. It fails besides only with errors of the file at the path. So an installer
    without an end, content in the way and a text that cannot be written do not occur. -/
theorem writeTable_late (h : PartitionLayout.ofConfig c names = .ok l) (t : FileTree)
    (placement : TablePlacement) (path : String) :
    (∀ t' e, t.writeTable l placement path = (t', .error e) →
      (∃ cause, LateFault c names placement cause ∧ e = .configuration cause) ∨
        e.IsFileFault [path]) ∧
    (∀ cause, LateFault c names placement cause → ∃ cause', LateFault c names placement cause' ∧
      t.writeTable l placement path = (t, .error (.configuration cause'))) ∧
    placement.resolve l ≠ .error (.configuration .installerPastAddressSpace) ∧
    (∀ (d : Bytes) (a : UInt32) (f : PlacementFault), Image.ofBytes d a = .error f →
      f = .pastAddressSpace a d.length) ∧
    ∀ img : Image, ∃ hex, img.toHex = .ok hex := by
  refine ⟨fun t' e hwrite => ?_, fun cause hcause => ?_,
    TablePlacement.resolve_ne_installerPastAddressSpace h placement,
    fun d a f hf => (Image.ofBytes_eq_error_iff.1 hf).2, Image.exists_toHex⟩
  · rcases PlacedTable.ofLayout_of_ofConfig h placement with
      ⟨placed, hplaced, -⟩ | ⟨cause, hcause, hplaced⟩
    · exact Or.inr ((writeTable_fails hplaced t path).of_eq (congrArg Prod.snd hwrite))
    · rw [writeTable_of_ofLayout hplaced] at hwrite
      cases hwrite
      exact Or.inl ⟨cause, hcause, rfl⟩
  · rcases PlacedTable.ofLayout_of_ofConfig h placement with
      ⟨placed, -, hnone⟩ | ⟨cause', hcause', hplaced⟩
    · exact absurd hcause (hnone cause)
    · exact ⟨cause', hcause', writeTable_of_ofLayout hplaced t path⟩

/-! An empty partition at the last address, named twice, and a name without a marker. -/

namespace EmptyAtLast

def text : String := "#define app_PARTITION_PRESENT 1
#define app_PARTITION_START 0xffffffff
#define app_PARTITION_SIZE 0x0
"

def config : BuildConfig := ⟨[("app_PARTITION_PRESENT", "1"),
  ("app_PARTITION_START", "0xffffffff"), ("app_PARTITION_SIZE", "0x0")]⟩

def listed : List String := ["app", "spare", "app"]

def layout : PartitionLayout :=
  ⟨[.present "app" 0xffffffff 0, .absent "spare", .present "app" 0xffffffff 0], none⟩

theorem ofText_text : BuildConfig.ofText text = .ok config :=
  eq_ok_of_toOption (by decide +kernel)

theorem ofConfig_listed : PartitionLayout.ofConfig config listed = .ok layout :=
  eq_ok_of_toOption (by decide +kernel)

end EmptyAtLast

/-- The table is one byte too long for the rest of the address space, or is to follow an
    installer that is not there. -/
theorem writeTable_late_empty_at_last :
    BuildConfig.ofText EmptyAtLast.text = .ok EmptyAtLast.config ∧
    PartitionLayout.ofConfig EmptyAtLast.config EmptyAtLast.listed = .ok EmptyAtLast.layout ∧
    ∀ t : FileTree,
      (∃ cause, t.writeTable EmptyAtLast.layout (.fixed 0xffffff5d) "t.hex" =
        (t, .error (.configuration cause))) ∧
      ∃ cause, t.writeTable EmptyAtLast.layout .afterInstaller "t.hex" =
        (t, .error (.configuration cause)) := by
  refine ⟨EmptyAtLast.ofText_text, EmptyAtLast.ofConfig_listed, fun t => ⟨?_, ?_⟩⟩
  · have hpast : LateFault EmptyAtLast.config EmptyAtLast.listed (.fixed 0xffffff5d)
        (.pastAddressSpace 0xffffff5d 164) := .pastEnd (.fixed _) (by decide +kernel)
    obtain ⟨cause, -, hwrite⟩ := (writeTable_late EmptyAtLast.ofConfig_listed t _ "t.hex").2.1 _ hpast
    exact ⟨cause, hwrite⟩
  · have hno : LateFault EmptyAtLast.config EmptyAtLast.listed .afterInstaller .installerMissing :=
      .noInstaller ⟨rfl, by decide +kernel⟩
    obtain ⟨cause, -, hwrite⟩ := (writeTable_late EmptyAtLast.ofConfig_listed t _ "t.hex").2.1 _ hno
    exact ⟨cause, hwrite⟩

end FileTree

end BootSeal
