/-
  BootSeal — a layout survives its textual forms.

  * `PartitionLayout.markedKey_inj`: no key of a property is that of another one, whatever
    marks stand before them;
  * `BuildConfig.Defines`: what a configuration says of a list of properties, and what can
    be read from one that says it;
  * `PartitionLayout.ofConfig_source`: a layout is read back from any text that describes
    it, and its table after the installer is the one that a manifest places there.
-/
import BootSeal.Files.Artifacts
import BootSeal.Partition.Manifest
import BootSeal.Proofs.Partition.Source
import BootSeal.Proofs.Result
import Mathlib.Data.List.Nodup

namespace BootSeal

/-! ## Keys -/

/-- A name that does not begin like an option of a build. -/
def IsUnmarked (name : String) : Prop := ∀ mark ∈ optionMarks, ¬ mark.toList <+: name.toList

instance (name : String) : Decidable (IsUnmarked name) :=
  inferInstanceAs (Decidable (∀ mark ∈ optionMarks, _))

/-- Marks are told from the names that follow them. -/
theorem DefinitionForm.mark_append_inj {f f' : DefinitionForm} {n m : String}
    (hn : IsUnmarked n) (hm : IsUnmarked m)
    (h : f.mark.toList ++ n.toList = f'.mark.toList ++ m.toList) : f = f' ∧ n = m := by
  have hsame (mark : String) (h : mark.toList ++ n.toList = mark.toList ++ m.toList) : n = m :=
    String.toList_inj.1 (List.append_cancel_left h)
  have hheads (s s' : List Char) : "CONFIG_".toList ++ s ≠ "SB_CONFIG_".toList ++ s' :=
    fun h => nomatch congrArg List.head? h
  cases f with
  | header =>
    cases f' with
    | header => exact ⟨rfl, hsame _ h⟩
    | option => exact absurd ⟨_, h.symm⟩ (hn "CONFIG_" (by decide))
    | sysbuildOption => exact absurd ⟨_, h.symm⟩ (hn "SB_CONFIG_" (by decide))
  | option =>
    cases f' with
    | header => exact absurd ⟨_, h⟩ (hm "CONFIG_" (by decide))
    | option => exact ⟨rfl, hsame _ h⟩
    | sysbuildOption => exact absurd h (hheads _ _)
  | sysbuildOption =>
    cases f' with
    | header => exact absurd ⟨_, h⟩ (hm "SB_CONFIG_" (by decide))
    | option => exact absurd h.symm (hheads _ _)
    | sysbuildOption => exact ⟨rfl, hsame _ h⟩

namespace PartitionLayout

/-- The properties that a configuration defines of a partition. -/
def propertyNames : List String := ["START", "SIZE", "PRESENT"]

/-- What stands after the name in the key of a property. -/
def keyEnd (property : String) : List Char := "_PARTITION_".toList ++ property.toList

theorem toList_propertyKey (name property : String) :
    (propertyKey name property).toList = name.toList ++ keyEnd property :=
  calc (propertyKey name property).toList
      = (name ++ "_PARTITION_").toList ++ property.toList := String.toList_append
    _ = name.toList ++ "_PARTITION_".toList ++ property.toList := by rw [String.toList_append]
    _ = name.toList ++ keyEnd property := List.append_assoc ..

/-- No end of a key is at the end of another one. -/
theorem keyEnd_suffix : ∀ property ∈ propertyNames, ∀ property' ∈ propertyNames,
    keyEnd property <:+ keyEnd property' → property = property' := by
  decide

section
variable {name name' property property' : String} (hn : IsUnmarked name)
  (hn' : IsUnmarked name') (hp : property ∈ propertyNames) (hp' : property' ∈ propertyNames)
include hn hn' hp hp'

/-- **Keys of properties are apart**, whatever marks stand before them. -/
theorem markedKey_inj {f f' : DefinitionForm}
    (h : f.mark ++ propertyKey name property = f'.mark ++ propertyKey name' property') :
    f = f' ∧ name = name' ∧ property = property' := by
  have hlists := congrArg String.toList h
  rw [String.toList_append, String.toList_append, toList_propertyKey, toList_propertyKey,
    ← List.append_assoc, ← List.append_assoc] at hlists
  have hend : keyEnd property <:+ (f'.mark.toList ++ name'.toList) ++ keyEnd property' :=
    ⟨_, hlists⟩
  have hend' := List.suffix_append (f'.mark.toList ++ name'.toList) (keyEnd property')
  have hproperty : property = property' := by
    obtain hle | hle := Nat.le_total (keyEnd property).length (keyEnd property').length
    · exact keyEnd_suffix _ hp _ hp' (List.suffix_of_suffix_length_le hend hend' hle)
    · exact (keyEnd_suffix _ hp' _ hp (List.suffix_of_suffix_length_le hend' hend hle)).symm
  subst hproperty
  obtain ⟨hform, hname⟩ := DefinitionForm.mark_append_inj hn hn' (List.append_cancel_right hlists)
  exact ⟨hform, hname, rfl⟩

theorem propertyKey_inj (h : propertyKey name property = propertyKey name' property') :
    name = name' ∧ property = property' := by
  have hmarked : DefinitionForm.header.mark ++ propertyKey name property =
      DefinitionForm.header.mark ++ propertyKey name' property' := by rw [h]
  exact (markedKey_inj hn hn' hp hp' hmarked).2

end

end PartitionLayout

/-! ## Configurations -/

open PartitionLayout

/-- A key of a property of an unmarked name. -/
def IsPropertyKey (key : String) : Prop :=
  ∃ name property, IsUnmarked name ∧ property ∈ propertyNames ∧ key = propertyKey name property

theorem IsPropertyKey.marked_inj {key key' : String} (h : IsPropertyKey key)
    (h' : IsPropertyKey key') {f f' : DefinitionForm} (heq : f.mark ++ key = f'.mark ++ key') :
    f = f' ∧ key = key' := by
  obtain ⟨name, property, hn, hp, rfl⟩ := h
  obtain ⟨name', property', hn', hp', rfl⟩ := h'
  obtain ⟨hform, hname, hproperty⟩ := markedKey_inj hn hn' hp hp' heq
  exact ⟨hform, by rw [hname, hproperty]⟩

namespace BuildConfig

section
variable {config : BuildConfig} {key : String}

theorem get?_eq_findSome? : config.get? key = [DefinitionForm.header, .option,
    .sysbuildOption].findSome? fun f => config.value? (f.mark ++ key) := by
  have hverbatim : DefinitionForm.header.mark ++ key = key := String.empty_append
  rw [get?, optionMarks, List.findSome?_cons, List.findSome?_cons, hverbatim]
  rfl

theorem get?_eq_none (h : ∀ f : DefinitionForm, config.value? (f.mark ++ key) = none) :
    config.get? key = none := by
  rw [get?_eq_findSome?]
  exact List.findSome?_eq_none_iff.2 fun f _ => h f

/-- A key is found under the only form in which it is defined. -/
theorem get?_eq_some {value : String} {f : DefinitionForm}
    (h : config.value? (f.mark ++ key) = some value)
    (hnone : ∀ f', f' ≠ f → config.value? (f'.mark ++ key) = none) :
    config.get? key = some value := by
  rw [get?_eq_findSome?]
  cases f with
  | header => simp [h]
  | option => simp [h, hnone .header nofun]
  | sysbuildOption => simp [h, hnone .header nofun, hnone .option nofun]

end

/-- A configuration in which the properties have these values, and no others are defined. -/
structure Defines (config : BuildConfig) (values : List (String × Nat)) : Prop where
  get?_of_mem : ∀ v ∈ values,
    ∃ n : HexNumber, n.value = v.2 ∧ config.get? v.1 = some (String.ofList n.text)
  get?_of_not_mem : ∀ key, IsPropertyKey key → key ∉ values.map (·.1) → config.get? key = none

/-- **Definitions define what is in them**, if their keys are different ones of properties:
    no definition is found under the key of another one. -/
theorem defines_defineAll {defs : List Definition} (hd : (defs.map (·.key)).Nodup)
    (hkeys : ∀ d ∈ defs, IsPropertyKey d.key) :
    (defineAll (defs.map Definition.entry) .empty).Defines
      (defs.map fun d => (d.key, d.number.value)) := by
  have hentries : ((defs.map Definition.entry).map (·.1)) = defs.map Definition.markedKey :=
    List.map_map ..
  have hnodup : ((defs.map Definition.entry).map (·.1)).Nodup := by
    rw [hentries]
    refine List.pairwise_map.2 ((List.pairwise_map.1 hd).imp_of_mem fun ha hb hne heq => hne ?_)
    exact ((hkeys _ ha).marked_inj (hkeys _ hb) heq).2
  have hnone {key : String} {f : DefinitionForm} (hkey : IsPropertyKey key)
      (h : ∀ d ∈ defs, d.key = key → d.form ≠ f) :
      (defineAll (defs.map Definition.entry) .empty).value? (f.mark ++ key) = none := by
    refine (value?_defineAll_of_not_mem (fun hmem => ?_) _).trans rfl
    rw [hentries, List.mem_map] at hmem
    obtain ⟨d, hmem, heq⟩ := hmem
    obtain ⟨hform, hsame⟩ := (hkeys d hmem).marked_inj hkey heq
    exact h d hmem hsame hform
  refine ⟨fun v hv => ?_, fun key hkey hmem => get?_eq_none fun f => hnone hkey fun d hdef hsame _ =>
    hmem ?_⟩
  · obtain ⟨d, hmem, rfl⟩ := List.mem_map.1 hv
    refine ⟨d.number, rfl, get?_eq_some
      (value?_defineAll hnodup (List.mem_map_of_mem hmem) _) fun f hf => hnone (hkeys d hmem) ?_⟩
    intro d' hmem' hsame
    obtain rfl := List.inj_on_of_nodup_map hd hmem' hmem hsame
    exact Ne.symm hf
  · rw [List.map_map]
    exact List.mem_map.2 ⟨d, hdef, hsame⟩

namespace Defines

variable {config : BuildConfig} {values values' : List (String × Nat)} (h : config.Defines values)
include h

theorem of_perm (hperm : values.Perm values') : config.Defines values' :=
  ⟨fun v hv => h.get?_of_mem v (hperm.mem_iff.2 hv), fun key hkey hmem =>
    h.get?_of_not_mem key hkey fun hv => hmem ((hperm.map _).mem_iff.1 hv)⟩

theorem isSet_of_mem {key : String} {value : Nat} (hv : (key, value) ∈ values) :
    config.isSet key = true := by
  obtain ⟨n, -, hget⟩ := h.get?_of_mem _ hv
  rw [isSet, hget]
  rfl

theorem isSet_of_not_mem {key : String} (hkey : IsPropertyKey key)
    (hv : key ∉ values.map (·.1)) : config.isSet key = false := by
  rw [isSet, h.get?_of_not_mem key hkey hv]
  rfl

theorem requireHex_of_mem {key : String} {w : UInt32} (hv : (key, w.toNat) ∈ values) :
    config.requireHex key = .ok w := by
  obtain ⟨n, hn, hget⟩ := h.get?_of_mem _ hv
  have hparse : parseHex key (String.ofList n.text) = .ok w :=
    parseHex_marked (n.denotes.trans (congrArg some hn)) key
  rw [requireHex, hex?, hget]
  dsimp only
  rw [hparse]
  rfl

end Defines

end BuildConfig

/-! ## Layouts -/

/-- The end of the region is an address. -/
def Region.InSpace (r : Region) : Prop := r.start.toNat + r.size.toNat < addressSpace

instance (r : Region) : Decidable r.InSpace := inferInstanceAs (Decidable (_ < _))

theorem Region.InSpace.exists_stop? {r : Region} (h : r.InSpace) : ∃ stop, r.stop? = some stop :=
  ⟨_, if_pos h⟩

/-- The name of a partition, which is told from an option of a build and from the
    installer. Its keys are identifiers wherever a text defines them. -/
structure IsPartitionName (name : String) : Prop where
  isUnmarked : IsUnmarked name
  ne_installer : name ≠ installerName

/-- The properties of a region. -/
def Region.properties (name : String) (r : Region) : List (String × Nat) :=
  [(propertyKey name "START", r.start.toNat), (propertyKey name "SIZE", r.size.toNat)]

/-- The properties of a partition, with any number as its marker. None are those of a
    partition that is absent. -/
def PartitionEntry.properties (marker : Nat) (e : PartitionEntry) : List (String × Nat) :=
  if e.isPresent then (propertyKey e.name "PRESENT", marker) :: e.region.properties e.name else []

namespace PartitionLayout

/-- The properties of a layout. -/
def properties (marker : String → Nat) (l : PartitionLayout) : List (String × Nat) :=
  (l.entries.flatMap fun e => e.properties (marker e.name)) ++
    l.installer.elim [] (Region.properties installerName)

/-- A layout that configurations can describe. -/
structure Describable (l : PartitionLayout) : Prop where
  nodup : (l.entries.map (·.name)).Nodup
  isPartitionName : ∀ e ∈ l.entries, IsPartitionName e.name
  absent : ∀ e ∈ l.entries, e.isPresent = false → e = .absent e.name
  inSpace : ∀ e ∈ l.entries, e.isPresent = true → e.region.InSpace
  inSpace_installer : ∀ installer, l.installer = some installer → installer.InSpace

theorem isUnmarked_installerName : IsUnmarked installerName := by decide

end PartitionLayout

theorem Region.exists_property {name : String} {r : Region} {key : String}
    (h : key ∈ (r.properties name).map (·.1)) :
    ∃ property ∈ propertyNames, key = propertyKey name property := by
  simp only [properties, List.map_cons, List.map_nil, List.mem_cons, List.not_mem_nil,
    or_false] at h
  obtain rfl | rfl := h
  · exact ⟨"START", by decide, rfl⟩
  · exact ⟨"SIZE", by decide, rfl⟩

theorem PartitionEntry.exists_property {marker : Nat} {e : PartitionEntry} {key : String}
    (h : key ∈ (e.properties marker).map (·.1)) :
    e.isPresent = true ∧ ∃ property ∈ propertyNames, key = propertyKey e.name property := by
  rw [properties] at h
  split at h
  · next hpresent =>
    refine ⟨hpresent, ?_⟩
    rw [List.map_cons, List.mem_cons] at h
    obtain rfl | h := h
    · exact ⟨"PRESENT", by decide, rfl⟩
    · exact Region.exists_property h
  · cases h

namespace PartitionLayout

theorem nodup_propertyKeys {name : String} (hn : IsUnmarked name) (properties : List String)
    (hsub : ∀ property ∈ properties, property ∈ propertyNames) (h : properties.Nodup) :
    (properties.map (propertyKey name)).Nodup :=
  h.map_on fun _ hp _ hp' heq => (propertyKey_inj hn hn (hsub _ hp) (hsub _ hp') heq).2

section
variable {l : PartitionLayout} (hl : l.Describable) (marker : String → Nat)

/-- A key of a layout is one of a present partition or of the installer. -/
theorem exists_property {key : String} (h : key ∈ (l.properties marker).map (·.1)) :
    (∃ e ∈ l.entries, e.isPresent = true ∧
      ∃ property ∈ propertyNames, key = propertyKey e.name property) ∨
    (l.installer.isSome ∧
      ∃ property ∈ propertyNames, key = propertyKey installerName property) := by
  rw [properties, List.map_append, List.mem_append] at h
  obtain h | h := h
  · rw [List.map_flatMap, List.mem_flatMap] at h
    obtain ⟨e, he, hkey⟩ := h
    exact .inl ⟨e, he, PartitionEntry.exists_property hkey⟩
  · cases hi : l.installer with
    | none => rw [hi] at h; cases h
    | some installer =>
      rw [hi] at h
      exact .inr ⟨rfl, Region.exists_property h⟩

include hl

theorem Describable.isPropertyKey {key : String} (h : key ∈ (l.properties marker).map (·.1)) :
    IsPropertyKey key := by
  obtain ⟨e, he, -, property, hp, rfl⟩ | ⟨-, property, hp, rfl⟩ := exists_property marker h
  · exact ⟨_, _, (hl.isPartitionName e he).isUnmarked, hp, rfl⟩
  · exact ⟨_, _, isUnmarked_installerName, hp, rfl⟩

/-- **No two properties of a layout have one key.** -/
theorem Describable.nodup_keys : ((l.properties marker).map (·.1)).Nodup := by
  have hunmarked : ∀ e ∈ l.entries, IsUnmarked e.name :=
    fun e he => (hl.isPartitionName e he).isUnmarked
  have hentry : ∀ e ∈ l.entries, ((e.properties (marker e.name)).map (·.1)).Nodup := by
    intro e he
    rw [PartitionEntry.properties]
    split
    · exact nodup_propertyKeys (hunmarked e he) ["PRESENT", "START", "SIZE"] (by decide)
        (by decide)
    · exact List.nodup_nil
  have hinstaller : ((l.installer.elim [] (Region.properties installerName)).map (·.1)).Nodup := by
    cases l.installer with
    | none => exact List.nodup_nil
    | some installer =>
      exact nodup_propertyKeys isUnmarked_installerName ["START", "SIZE"] (by decide)
        (by decide)
  rw [properties, List.map_append, List.map_flatMap, List.nodup_append]
  refine ⟨List.pairwise_flatMap.2 ⟨hentry, ?_⟩, hinstaller, ?_⟩
  · refine (List.pairwise_map.1 hl.nodup).imp_of_mem fun he he' hne key hkey key' hkey' heq => hne ?_
    obtain ⟨-, property, hp, rfl⟩ := PartitionEntry.exists_property hkey
    obtain ⟨-, property', hp', rfl⟩ := PartitionEntry.exists_property hkey'
    exact (propertyKey_inj (hunmarked _ he) (hunmarked _ he') hp hp' heq).1
  · intro key hkey key' hkey' heq
    obtain ⟨e, he, hkey⟩ := List.mem_flatMap.1 hkey
    obtain ⟨-, property, hp, rfl⟩ := PartitionEntry.exists_property hkey
    cases hi : l.installer with
    | none => rw [hi] at hkey'; cases hkey'
    | some installer =>
      rw [hi] at hkey'
      obtain ⟨property', hp', rfl⟩ := Region.exists_property hkey'
      exact (hl.isPartitionName e he).ne_installer
        (propertyKey_inj (hunmarked e he) isUnmarked_installerName hp hp' heq).1

end

end PartitionLayout

/-! ## Reading -/

namespace PartitionLayout

section
variable {config : BuildConfig} {values : List (String × Nat)} (hc : config.Defines values)
include hc

theorem readRegion_eq_ok {name : String} {r : Region} (hr : r.InSpace)
    (hsub : ∀ v ∈ r.properties name, v ∈ values) : readRegion config name = .ok r := by
  have hstart : config.requireHex (propertyKey name "START") = .ok r.start :=
    hc.requireHex_of_mem (hsub _ List.mem_cons_self)
  have hsize : config.requireHex (propertyKey name "SIZE") = .ok r.size :=
    hc.requireHex_of_mem (hsub _ (List.mem_cons_of_mem _ List.mem_cons_self))
  obtain ⟨stop, hstop⟩ := hr.exists_stop?
  have hin : r.stop?.isNone = false := by rw [hstop]; rfl
  exact bind_of_eq_ok hstart (bind_of_eq_ok hsize (if_neg (Bool.eq_false_iff.1 hin)))

end

section
variable {l : PartitionLayout} (hl : l.Describable) {marker : String → Nat}
  {config : BuildConfig} (hc : config.Defines (l.properties marker))
include hl hc

theorem readEntry_eq_ok {e : PartitionEntry} (he : e ∈ l.entries) :
    readEntry config e.name = .ok e := by
  have hunmarked := (hl.isPartitionName e he).isUnmarked
  have hp : "PRESENT" ∈ propertyNames := by decide
  rw [readEntry]
  cases hpresent : e.isPresent with
  | true =>
    have hproperties : e.properties (marker e.name) =
        (propertyKey e.name "PRESENT", marker e.name) :: e.region.properties e.name :=
      if_pos hpresent
    have hsub : ∀ v ∈ e.properties (marker e.name), v ∈ l.properties marker := fun v hv =>
      List.mem_append_left _ (List.mem_flatMap.2 ⟨e, he, hv⟩)
    rw [hproperties] at hsub
    rw [hc.isSet_of_mem (hsub _ List.mem_cons_self), if_pos rfl]
    refine bind_of_eq_ok (readRegion_eq_ok hc (hl.inSpace e he hpresent) fun v hv =>
      hsub v (List.mem_cons_of_mem _ hv)) ?_
    rw [PartitionEntry.present, PartitionEntry.region, ← hpresent]
    rfl
  | false =>
    have hnot : propertyKey e.name "PRESENT" ∉ (l.properties marker).map (·.1) := by
      intro hmem
      obtain ⟨e', he', hpresent', property, hp', heq⟩ | ⟨-, property, hp', heq⟩ :=
        exists_property marker hmem
      · have hname := (propertyKey_inj hunmarked (hl.isPartitionName e' he').isUnmarked hp hp' heq).1
        obtain rfl := List.inj_on_of_nodup_map hl.nodup he he' hname
        exact Bool.false_ne_true (hpresent.symm.trans hpresent')
      · exact (hl.isPartitionName e he).ne_installer
          (propertyKey_inj hunmarked isUnmarked_installerName hp hp' heq).1
    rw [hc.isSet_of_not_mem ⟨_, _, hunmarked, hp, rfl⟩ hnot, if_neg Bool.false_ne_true]
    exact congrArg Except.ok (hl.absent e he hpresent).symm

theorem readInstaller_of_some {installer : Region} (hi : l.installer = some installer) :
    config.isSet (propertyKey installerName "START") = true ∧
      readRegion config installerName = .ok installer := by
  have hsub : ∀ v ∈ installer.properties installerName, v ∈ l.properties marker := fun v hv =>
    List.mem_append_right _ (by rw [hi]; exact hv)
  exact ⟨hc.isSet_of_mem (hsub _ List.mem_cons_self),
    readRegion_eq_ok hc (hl.inSpace_installer _ hi) hsub⟩

theorem readInstaller_of_none (hi : l.installer = none) :
    config.isSet (propertyKey installerName "START") = false := by
  have hp : "START" ∈ propertyNames := by decide
  refine hc.isSet_of_not_mem ⟨_, _, isUnmarked_installerName, hp, rfl⟩ fun hmem => ?_
  obtain ⟨e, he, -, property, hp', heq⟩ | ⟨hsome, -⟩ := exists_property marker hmem
  · exact (hl.isPartitionName e he).ne_installer (propertyKey_inj isUnmarked_installerName
      (hl.isPartitionName e he).isUnmarked hp hp' heq).1.symm
  · rw [hi] at hsome
    cases hsome

/-- **A configuration that defines a layout gives it back.** -/
theorem ofConfig_eq_ok : ofConfig config (l.entries.map (·.name)) = .ok l := by
  have hentries : (l.entries.map (·.name)).mapM (readEntry config) = .ok l.entries :=
    mapM_map_eq_ok fun e he => readEntry_eq_ok hl hc he
  have hlayout {installer : Option Region} (hi : l.installer = installer) :
      ⟨l.entries, installer⟩ = l := by rw [← hi]
  refine bind_of_eq_ok hentries ?_
  dsimp only
  cases hi : l.installer with
  | some installer =>
    obtain ⟨hset, hregion⟩ := readInstaller_of_some hl hc hi
    rw [hset, if_pos rfl, hregion]
    exact congrArg Except.ok (hlayout hi)
  | none =>
    rw [readInstaller_of_none hl hc hi, if_neg Bool.false_ne_true]
    exact congrArg Except.ok (hlayout hi)

end

end PartitionLayout

/-! ## Tables -/

/-- Tables of layouts with the same partitions in the same place. -/
theorem PlacedTable.ofLayout_congr {l l' : PartitionLayout} {place place' : TablePlacement}
    (hplace : place.resolve l = place'.resolve l') (hpresent : l.presentEntries = l'.presentEntries) :
    PlacedTable.ofLayout l place = PlacedTable.ofLayout l' place' := by
  have hbuild : PartitionTable.build l.entries = PartitionTable.build l'.entries := by
    rw [PartitionLayout.presentEntries, PartitionLayout.presentEntries] at hpresent
    rw [PartitionTable.build, PartitionTable.build, hpresent]
  rw [PlacedTable.ofLayout, PlacedTable.ofLayout, hplace, hbuild]

/-! ## Texts -/

/-- The definitions of a text are the properties of a layout, in any order and with any
    markers. -/
def ConfigSource.Describes (source : ConfigSource) (l : PartitionLayout) : Prop :=
  ∃ marker, (source.definitions.map fun d => (d.key, d.number.value)).Perm (l.properties marker)

theorem ConfigSource.Describes.defines {source : ConfigSource} {l : PartitionLayout}
    (hl : l.Describable) (h : source.Describes l) : ∃ config marker,
      BuildConfig.ofText source.text = .ok config ∧ config.Defines (l.properties marker) := by
  obtain ⟨marker, hperm⟩ := h
  have hkeys : (source.definitions.map (·.key)).Perm ((l.properties marker).map (·.1)) := by
    have hfirst := hperm.map (·.1)
    rwa [List.map_map] at hfirst
  have hdefines := BuildConfig.defines_defineAll (hkeys.nodup_iff.2 (hl.nodup_keys marker))
    fun d hd => hl.isPropertyKey marker (hkeys.mem_iff.1 (List.mem_map_of_mem hd))
  exact ⟨_, marker, source.ofText_text, hdefines.of_perm hperm⟩

namespace PartitionLayout

/-- **A layout survives its textual forms.** Any text that describes it, its definitions in
    any order and each in any form, with other lines between them, gives it back; and the
    table after its installer is written as a manifest with the same partitions has it
    written to the end of the installer. -/
theorem ofConfig_source {l : PartitionLayout} (hl : l.Describable) {source : ConfigSource}
    (hs : source.Describes l) :
    (BuildConfig.ofText source.text >>= fun config =>
      ofConfig config (l.entries.map (·.name))) = .ok l ∧
    ∀ installer, l.installer = some installer → ∃ stop, installer.stop? = some stop ∧
      ∀ m : PartitionManifest, m.layout.presentEntries = l.presentEntries →
        ∀ (t : FileTree) (path : String),
          t.writeTable l .afterInstaller path = t.writeTable m.layout (.fixed stop) path := by
  refine ⟨?_, fun installer hi => ?_⟩
  · obtain ⟨config, marker, htext, hc⟩ := hs.defines hl
    exact bind_of_eq_ok htext (ofConfig_eq_ok hl hc)
  · obtain ⟨stop, hstop⟩ := (hl.inSpace_installer installer hi).exists_stop?
    refine ⟨stop, hstop, fun m hm t path => ?_⟩
    have hplace : TablePlacement.afterInstaller.resolve l =
        (TablePlacement.fixed stop).resolve m.layout := by
      simp only [TablePlacement.resolve, hi, hstop]
    rw [FileTree.writeTable, FileTree.writeTable, PlacedTable.ofLayout_congr hplace hm.symm]

/-! A layout in a text with every form and both line ends. -/

namespace MixedForms

def layout : PartitionLayout :=
  ⟨[.present "firmware_loader" 0xfc000 0x4000, .absent "softdevice"], some ⟨0xf0000, 0x8000⟩⟩

def source : ConfigSource where
  lines := [
    (.other "# generated".toList (by decide) ⟨by decide, by decide⟩, .feed),
    (.definition ⟨.option, "firmware_loader_PARTITION_SIZE", ⟨"4000".toList, 0x4000, by decide⟩,
      by decide⟩, .returnFeed),
    (.definition ⟨.header, "installer_PARTITION_START", ⟨"000F0000".toList, 0xf0000, by decide⟩,
      by decide⟩, .feed),
    (.definition ⟨.sysbuildOption, "firmware_loader_PARTITION_PRESENT", ⟨['1'], 1, by decide⟩,
      by decide⟩, .feed),
    (.other [] (by decide) ⟨by decide, by decide⟩, .returnFeed),
    (.definition ⟨.header, "firmware_loader_PARTITION_START", ⟨"fc000".toList, 0xfc000, by decide⟩,
      by decide⟩, .feed)]
  last := .definition ⟨.option, "installer_PARTITION_SIZE", ⟨"8000".toList, 0x8000, by decide⟩,
    by decide⟩

theorem describable_layout : layout.Describable where
  nodup := by decide
  isPartitionName := List.forall_mem_cons.2 ⟨⟨by decide, by decide⟩,
    List.forall_mem_singleton.2 ⟨by decide, by decide⟩⟩
  absent := by decide
  inSpace := by decide
  inSpace_installer := by
    rintro _ ⟨⟩
    decide

theorem describes_layout : source.Describes layout := ⟨fun _ => 1, by decide⟩

end MixedForms

theorem ofConfig_source_mixed :
    MixedForms.layout.Describable ∧ MixedForms.source.Describes MixedForms.layout ∧
    (BuildConfig.ofText MixedForms.source.text >>= fun config =>
      ofConfig config (MixedForms.layout.entries.map (·.name))) = .ok MixedForms.layout ∧
    ∀ installer, MixedForms.layout.installer = some installer →
      ∃ stop, installer.stop? = some stop ∧
        ∀ m : PartitionManifest, m.layout.presentEntries = MixedForms.layout.presentEntries →
          ∀ (t : FileTree) (path : String), t.writeTable MixedForms.layout .afterInstaller path =
            t.writeTable m.layout (.fixed stop) path :=
  ⟨MixedForms.describable_layout, MixedForms.describes_layout,
    ofConfig_source MixedForms.describable_layout MixedForms.describes_layout⟩

end PartitionLayout

end BootSeal
