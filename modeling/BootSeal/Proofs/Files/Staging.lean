/-
  BootSeal — the temporary files that outputs are first written to.

  * `FileTree.outcome` is what should stand at a location when outputs have been
    written: the content of the last one whose path leads there, and otherwise what
    stood there before;
  * `Written` says that this is so, and that every path could take a file;
  * `Waiting` relates temporary files to the outputs that they hold;
  * `stage_spec`: staging creates such files and changes nothing else, and leaves none
    of them when it fails;
  * `stage_fails`: all of its errors are about the path of an output (`Error.IsFileFault`).
-/
import BootSeal.Files.Persist
import BootSeal.Proofs.Files.Tree

namespace BootSeal

/-- An error of a file at one of the paths. -/
inductive Error.IsFileFault (paths : List String) : Error → Prop where
  | io {path : String} (fault : IoFault) : path ∈ paths → IsFileFault paths (.io path fault)
  | staging {path : String} (fault : IoFault) :
    path ∈ paths → IsFileFault paths (.staging path fault)

theorem Error.IsFileFault.subset {paths paths' : List String} {e : Error}
    (h : e.IsFileFault paths) (hs : paths ⊆ paths') : e.IsFileFault paths' := by
  cases h with
  | io fault hp => exact .io fault (hs hp)
  | staging fault hp => exact .staging fault (hs hp)

end BootSeal

namespace BootSeal.FileTree

variable {t t₁ : FileTree} {avoid : List String}

/-! ## Outcomes -/

/-- What stands at a location after one output, if `e` stood there before. -/
def afterOutput (t : FileTree) (l : Location) (e : Option FileEntry) (o : Output) :
    Option FileEntry :=
  if t.fileLocation? o.path = some l then some (.file o.content) else e

/-- What stands at a location after outputs were written one after the other. -/
def outcome (t : FileTree) (outputs : List Output) (l : Location) : Option FileEntry :=
  outputs.foldl (t.afterOutput l) (t.entry? l)

theorem foldl_afterOutput_of_ne {l : Location} {outputs : List Output}
    (h : ∀ o ∈ outputs, t.fileLocation? o.path ≠ some l) (e : Option FileEntry) :
    outputs.foldl (t.afterOutput l) e = e := by
  induction outputs with
  | nil => rfl
  | cons o rest ih =>
    obtain ⟨ho, hrest⟩ := List.forall_mem_cons.1 h
    rw [List.foldl_cons, afterOutput, if_neg ho, ih hrest]

/-- Where no output leads, all is as it was. -/
theorem outcome_of_ne {l : Location} {outputs : List Output}
    (h : ∀ o ∈ outputs, t.fileLocation? o.path ≠ some l) : t.outcome outputs l = t.entry? l :=
  foldl_afterOutput_of_ne h _

/-- The last output that leads to a location is what stands there. -/
theorem outcome_of_last {l : Location} {before after : List Output} {o : Output}
    (ho : t.fileLocation? o.path = some l)
    (hafter : ∀ o' ∈ after, t.fileLocation? o'.path ≠ some l) :
    t.outcome (before ++ o :: after) l = some (.file o.content) := by
  rw [outcome, List.foldl_append, List.foldl_cons, foldl_afterOutput_of_ne hafter, afterOutput,
    if_pos ho]

theorem SameDirectories.afterOutput (h : t₁.SameDirectories t) :
    t₁.afterOutput = t.afterOutput := by
  funext l e o
  rw [FileTree.afterOutput, h.fileLocation?, ← FileTree.afterOutput]

/-- The outputs have come to their paths in a tree, all of which can take a file. -/
structure Written (t : FileTree) (outputs : List Output) (t' : FileTree) : Prop where
  working : t'.working = t.working
  takes : ∀ o ∈ outputs, ∃ l, t.fileLocation? o.path = some l ∧ t.entry? l ≠ some .directory
  entry? : ∀ l, t'.entry? l = t.outcome outputs l

/-- Outputs make no directory and take none away. -/
theorem Written.sameDirectories {outputs : List Output} {t' : FileTree}
    (h : Written t outputs t') : t'.SameDirectories t := by
  refine ⟨h.working, fun l => ?_⟩
  rw [h.entry?, outcome]
  have htakes := h.takes
  clear h
  generalize hd : t.entry? l = e
  have hfold : ∀ e', (e' = some .directory ↔ e = some .directory) →
      (outputs.foldl (t.afterOutput l) e' = some .directory ↔ e = some .directory) := by
    induction outputs with
    | nil => exact fun e' he => he
    | cons o rest ih =>
      obtain ⟨⟨l', hl', hne⟩, hrest⟩ := List.forall_mem_cons.1 htakes
      refine fun e' he => ih hrest _ ?_
      rw [afterOutput]
      split_ifs with hl
      · rw [hl', Option.some_inj] at hl
        exact ⟨nofun, fun hdir => absurd (hl ▸ hd.trans hdir) hne⟩
      · exact he
  exact hfold e Iff.rfl

/-- The last output that leads to a location is there, and is read at its path. -/
theorem Written.last {before after : List Output} {o : Output} {t' : FileTree} {l : Location}
    (h : Written t (before ++ o :: after) t') (hl : t.fileLocation? o.path = some l)
    (hafter : ∀ o' ∈ after, t.fileLocation? o'.path ≠ some l) :
    t'.entry? l = some (.file o.content) ∧ t'.readBytes o.path = .ok o.content := by
  have hentry : t'.entry? l = some (.file o.content) :=
    (h.entry? l).trans (outcome_of_last hl hafter)
  exact ⟨hentry, readBytes_eq_ok.2
    ⟨l, (h.sameDirectories.fileLocation? o.path).trans hl, hentry⟩⟩

/-! ## Staging -/

section
-- A path is not evaluated while the equations of `stage` are checked.
attribute [local irreducible] createTemporary

theorem stage_nil : t.stage avoid [] = (t, .ok []) := rfl

theorem stage_cons (o : Output) (rest : List Output) : t.stage avoid (o :: rest) =
    match t.createTemporary avoid (Path.parent o.path) o.content with
    | .error fault => (t, .error (.staging o.path fault))
    | .ok (t, temporary) =>
      match t.stage avoid rest with
      | (t, .ok staged) => (t, .ok (⟨o.path, temporary⟩ :: staged))
      | (t, .error e) => (t.erase temporary, .error e) := rfl

end

/-- Temporary files that hold outputs, each aside and at a location of its own. -/
inductive Waiting (t : FileTree) (avoid : List String) : List Staged → List Output → Prop where
  | nil : Waiting t avoid [] []
  | cons {temporary : Location} {o : Output} {staged : List Staged} {outputs : List Output} :
    t.entry? temporary = some (.file o.content) → Aside avoid temporary → o.path ∈ avoid →
    (∀ s ∈ staged, s.temporary ≠ temporary) → Waiting t avoid staged outputs →
    Waiting t avoid (⟨o.path, temporary⟩ :: staged) (o :: outputs)

theorem Waiting.aside {staged : List Staged} {outputs : List Output}
    (h : Waiting t avoid staged outputs) : ∀ s ∈ staged, Aside avoid s.temporary := by
  induction h with
  | nil => simp
  | cons _ ha _ _ _ ih => exact List.forall_mem_cons.2 ⟨ha, ih⟩

theorem Waiting.ne_nil {staged : List Staged} {outputs : List Output}
    (h : Waiting t avoid staged outputs) : ∀ s ∈ staged, s.temporary ≠ [] :=
  fun s hs => (h.aside s hs).ne_nil

theorem Waiting.path_mem {staged : List Staged} {outputs : List Output}
    (h : Waiting t avoid staged outputs) : ∀ o ∈ outputs, o.path ∈ avoid := by
  induction h with
  | nil => simp
  | cons _ _ hp _ _ ih => exact List.forall_mem_cons.2 ⟨hp, ih⟩

theorem Waiting.isSome {staged : List Staged} {outputs : List Output}
    (h : Waiting t avoid staged outputs) :
    ∀ s ∈ staged, ∃ content, t.entry? s.temporary = some (.file content) := by
  induction h with
  | nil => simp
  | cons he _ _ _ _ ih => exact List.forall_mem_cons.2 ⟨⟨_, he⟩, ih⟩

/-- No path leads to a temporary file. -/
theorem Waiting.not_mem_of_fileLocation? {staged : List Staged} {outputs : List Output}
    (h : Waiting t avoid staged outputs) {path : String} {l : Location} (hp : path ∈ avoid)
    (hl : t₁.fileLocation? path = some l) : l ∉ staged.map (·.temporary) := fun hmem => by
  obtain ⟨s, hs, rfl⟩ := List.mem_map.1 hmem
  exact (h.aside s hs).ne_of_fileLocation? hp hl rfl

theorem Waiting.not_mem_of_none {staged : List Staged} {outputs : List Output}
    (h : Waiting t avoid staged outputs) {l : Location} (hl : t.entry? l = none) :
    l ∉ staged.map (·.temporary) := fun hmem => by
  obtain ⟨s, hs, rfl⟩ := List.mem_map.1 hmem
  obtain ⟨content, he⟩ := h.isSome s hs
  rw [hl] at he
  cases he

theorem Waiting.congr {staged : List Staged} {outputs : List Output}
    (h : Waiting t avoid staged outputs)
    (he : ∀ s ∈ staged, t₁.entry? s.temporary = t.entry? s.temporary) :
    Waiting t₁ avoid staged outputs := by
  induction h with
  | nil => exact .nil
  | cons hc ha hp hne _ ih =>
    obtain ⟨he, hrest⟩ := List.forall_mem_cons.1 he
    exact .cons (he.trans hc) ha hp hne (ih hrest)

theorem working_discard (staged : List Staged) : (t.discard staged).working = t.working := by
  induction staged generalizing t with
  | nil => rfl
  | cons s rest ih => exact ih

theorem entry?_discard {staged : List Staged} (h : ∀ s ∈ staged, s.temporary ≠ []) (l : Location) :
    entry? (t.discard staged) l =
      if l ∈ staged.map (·.temporary) then none else t.entry? l := by
  induction staged generalizing t with
  | nil => simp [discard]
  | cons s rest ih =>
    obtain ⟨hs, hrest⟩ := List.forall_mem_cons.1 h
    rw [discard, List.foldl_cons, ← discard, ih hrest, entry?_erase hs]
    by_cases hl : l = s.temporary
    · simp only [hl, List.map_cons, List.mem_cons, true_or, if_true, ite_self]
    · simp only [hl, List.map_cons, List.mem_cons, false_or, if_false]

/-- Without its temporary files a tree has the same directories. -/
theorem Waiting.sameDirectories {staged : List Staged} {outputs : List Output}
    (h : Waiting t avoid staged outputs) : (t.discard staged).SameDirectories t := by
  refine ⟨working_discard staged, fun l => ?_⟩
  rw [entry?_discard h.ne_nil]
  split_ifs with hl
  · obtain ⟨s, hs, rfl⟩ := List.mem_map.1 hl
    obtain ⟨content, he⟩ := h.isSome s hs
    rw [he]
    exact ⟨nofun, nofun⟩
  · exact Iff.rfl

/-- A temporary file more is a file that can be discarded with the others. -/
theorem discard_put {temporary : Location} {staged : List Staged} {path : String}
    {content : Bytes} (ha : Aside avoid temporary) (hn : t.entry? temporary = none)
    (hs : ∀ s ∈ staged, s.temporary ≠ [])
    (h : (t₁.discard staged).Same (t.put temporary (.file content))) :
    (t₁.discard (⟨path, temporary⟩ :: staged)).Same t := by
  have hs' : ∀ s ∈ (⟨path, temporary⟩ :: staged : List Staged), s.temporary ≠ [] :=
    List.forall_mem_cons.2 ⟨ha.ne_nil, hs⟩
  refine ⟨(working_discard _).trans ((working_discard staged).symm.trans h.working), fun l => ?_⟩
  have he := h.entry? l
  rw [entry?_discard hs, entry?_put ha.ne_nil] at he
  rw [entry?_discard hs']
  by_cases hl : l = temporary
  · simp only [hl, List.map_cons, List.mem_cons, true_or, if_true, hn]
  · rw [if_neg hl] at he
    simpa only [List.map_cons, List.mem_cons, hl, false_or] using he

/-- **Staging creates temporary files**, or leaves the tree as it was. -/
theorem stage_spec {outputs : List Output} (hp : ∀ o ∈ outputs, o.path ∈ avoid) :
    (∀ t₁ staged, t.stage avoid outputs = (t₁, .ok staged) →
      Waiting t₁ avoid staged outputs ∧ (t₁.discard staged).Same t) ∧
    ∀ t₁ e, t.stage avoid outputs = (t₁, .error e) → t₁.Same t := by
  induction outputs generalizing t with
  | nil =>
    rw [stage_nil]
    refine ⟨fun t₁ staged h => ?_, nofun⟩
    cases h
    exact ⟨.nil, Same.refl t⟩
  | cons o rest ih =>
    obtain ⟨ho, hrest⟩ := List.forall_mem_cons.1 hp
    rw [stage_cons]
    cases hc : t.createTemporary avoid (Path.parent o.path) o.content with
    | error fault =>
      refine ⟨fun t₁ staged h => ?_, fun t₁ e h => ?_⟩
      · cases h
      · cases h; exact Same.refl t
    | ok created =>
      obtain ⟨t', temporary⟩ := created
      obtain ⟨rfl, hn, ha⟩ := createTemporary_eq_ok hc
      obtain ⟨hok, herror⟩ := ih (t := t.put temporary (.file o.content)) hrest
      dsimp only
      cases hr : (t.put temporary (.file o.content)).stage avoid rest with
      | mk t₂ result =>
      cases result with
      | ok staged =>
        refine ⟨fun t₁ staged' h => ?_, fun t₁ e h => ?_⟩
        · cases h
          obtain ⟨hw, hs⟩ := hok _ _ hr
          refine ⟨?_, discard_put ha hn hw.ne_nil hs⟩
          have he := hs.entry? temporary
          rw [entry?_discard hw.ne_nil, entry?_put ha.ne_nil, if_pos rfl] at he
          split_ifs at he with hmem
          exact .cons he ha ho (fun s hs heq => hmem (List.mem_map.2 ⟨s, hs, heq⟩)) hw
        · cases h
      | error e' =>
        refine ⟨fun t₁ staged h => ?_, fun t₁ e h => ?_⟩
        · cases h
        · cases h
          have hs := herror _ _ hr
          refine ⟨hs.working, fun l => ?_⟩
          rw [entry?_erase ha.ne_nil, hs.entry?, entry?_put ha.ne_nil]
          split_ifs with hl
          · rw [hl, hn]
          · rfl

theorem stage_fails (avoid : List String) (outputs : List Output) :
    FailsWith (Error.IsFileFault (outputs.map (·.path))) (t.stage avoid outputs).2 := by
  induction outputs generalizing t with
  | nil => exact .ok _
  | cons o rest ih =>
    rw [stage_cons]
    split
    · next fault _ => exact Error.IsFileFault.staging fault List.mem_cons_self
    · split
      · exact .ok _
      · next hstage =>
        exact ((ih.of_eq (congrArg Prod.snd hstage)).subset (List.subset_cons_self _ _))

theorem Waiting.map_path {staged : List Staged} {outputs : List Output}
    (h : Waiting t avoid staged outputs) : staged.map (·.path) = outputs.map (·.path) := by
  induction h with
  | nil => rfl
  | cons _ _ _ _ _ ih => rw [List.map_cons, List.map_cons, ih]

end BootSeal.FileTree
