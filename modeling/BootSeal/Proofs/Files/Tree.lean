/-
  BootSeal — trees of files through what stands at each location.

  * `entry?_erase`, `entry?_put`, `entry?_move`: the effect of each change on one
    location;
  * `FileTree.Same`: two trees of which nothing tells that they differ, and
    `FileTree.SameDirectories`: two trees in which the same locations are directories;
  * `fileLocation?` is where the file of a path stands or would stand. It depends on
    directories only (`SameDirectories.fileLocation?`), and its name is no longer than
    the path (`length_of_fileLocation?`);
  * `Aside` are the locations of temporary files, with a name that is too long for a
    path to lead there (`Aside.ne_of_fileLocation?`).
-/
import BootSeal.Files.Tree
import BootSeal.Proofs.Result
import Mathlib.Tactic.SplitIfs

namespace BootSeal

/-! ## Names in paths -/

theorem Text.length_le_of_mem_pieces {sep : Char} {s piece : List Char}
    (h : piece ∈ pieces sep s) : piece.length ≤ s.length := by
  induction s generalizing piece with
  | nil =>
    rw [pieces, List.foldr_nil, List.mem_singleton] at h
    exact Nat.le_of_eq (congrArg List.length h)
  | cons c s ih =>
    rw [pieces, List.foldr_cons, ← pieces] at h
    split_ifs at h with hc
    · rcases List.mem_cons.1 h with rfl | h
      · exact Nat.zero_le _
      · exact Nat.le_succ_of_le (ih h)
    · obtain ⟨first, rest, hp⟩ := List.exists_cons_of_ne_nil (pieces_ne_nil sep s)
      rw [hp, List.modifyHead_cons] at h
      rcases List.mem_cons.1 h with rfl | h
      · exact Nat.succ_le_succ (ih (by rw [hp]; exact List.mem_cons_self))
      · exact Nat.le_succ_of_le (ih (by rw [hp]; exact List.mem_cons_of_mem _ h))

theorem Path.length_le_of_mem_parts {path part : String} (h : part ∈ parts path) :
    part.length ≤ path.length := by
  obtain ⟨piece, hp, rfl⟩ := List.mem_map.1 h
  rw [String.length_ofList]
  exact Text.length_le_of_mem_pieces (List.mem_filter.1 hp).1

namespace FileTree

variable {t t' u : FileTree}

/-! ## One location -/

theorem entry?_of_ne_nil {l : Location} (h : l ≠ []) : t.entry? l = t.entries.lookup l :=
  if_neg (mt List.isEmpty_iff.1 h)

theorem entry?_nil : t.entry? [] = some .directory := rfl

theorem lookup_cons_eq (e : Location × FileEntry) (es : List (Location × FileEntry))
    (x : Location) : (e :: es).lookup x = if x = e.1 then some e.2 else es.lookup x := by
  by_cases hx : x = e.1
  · rw [List.lookup_cons, beq_iff_eq.2 hx, if_pos hx]
  · rw [List.lookup_cons, beq_false_of_ne hx, if_neg hx]

theorem lookup_filter_ne (l x : Location) (es : List (Location × FileEntry)) :
    (es.filter (·.1 != l)).lookup x = if x = l then none else es.lookup x := by
  induction es with
  | nil => simp
  | cons e rest ih =>
    by_cases he : e.1 = l
    · rw [List.filter_cons_of_neg (by simpa using he), ih, lookup_cons_eq, he]
      split_ifs <;> rfl
    · rw [List.filter_cons_of_pos (by simpa using he), lookup_cons_eq, ih, lookup_cons_eq]
      by_cases hx : x = e.1
      · rw [if_pos hx, if_pos hx, if_neg (hx ▸ he)]
      · rw [if_neg hx, if_neg hx]

theorem entry?_erase {l : Location} (hl : l ≠ []) (x : Location) :
    entry? (t.erase l) x = if x = l then none else t.entry? x := by
  by_cases hx : x = []
  · rw [hx, if_neg hl.symm, entry?_nil, entry?_nil]
  · rw [entry?_of_ne_nil hx, entry?_of_ne_nil hx, erase, lookup_filter_ne]

theorem entry?_put {l : Location} (hl : l ≠ []) (e : FileEntry) (x : Location) :
    entry? (t.put l e) x = if x = l then some e else t.entry? x := by
  by_cases hx : x = []
  · rw [hx, if_neg hl.symm, entry?_nil, entry?_nil]
  · rw [entry?_of_ne_nil hx, put, lookup_cons_eq, ← entry?_of_ne_nil hx, entry?_erase hl]
    split_ifs <;> rfl

theorem entry?_move {source target : Location} {e : FileEntry} (hs : source ≠ [])
    (ht : target ≠ []) (h : t.entry? source = some e) (x : Location) :
    entry? (t.move source target) x =
      if x = target then some e else if x = source then none else t.entry? x := by
  rw [move, h, entry?_put ht, entry?_erase hs]

theorem working_move (t : FileTree) (source target : Location) :
    (t.move source target).working = t.working := by
  rw [move]; split <;> rfl

/-! ## Trees that agree -/

/-- Nothing tells that two trees differ: the same stands at every location. -/
structure Same (t t' : FileTree) : Prop where
  working : t.working = t'.working
  entry? : ∀ l, t.entry? l = t'.entry? l

/-- The same locations are directories, so paths lead to the same places. -/
structure SameDirectories (t t' : FileTree) : Prop where
  working : t.working = t'.working
  directory : ∀ l, t.entry? l = some .directory ↔ t'.entry? l = some .directory

theorem Same.refl (t : FileTree) : t.Same t := ⟨rfl, fun _ => rfl⟩

theorem Same.trans (h : t.Same t') (h' : t'.Same u) : t.Same u :=
  ⟨h.working.trans h'.working, fun l => (h.entry? l).trans (h'.entry? l)⟩

theorem Same.sameDirectories (h : t.Same t') : t.SameDirectories t' :=
  ⟨h.working, fun l => by rw [h.entry? l]⟩

theorem SameDirectories.symm (h : t.SameDirectories t') : t'.SameDirectories t :=
  ⟨h.working.symm, fun l => (h.directory l).symm⟩

theorem SameDirectories.trans (h : t.SameDirectories t') (h' : t'.SameDirectories u) :
    t.SameDirectories u :=
  ⟨h.working.trans h'.working, fun l => (h.directory l).trans (h'.directory l)⟩

/-! ## Where paths lead -/

theorem step_eq_ok {directory l : Location} {name : String} :
    t.step directory name = .ok l ↔
      if name = "." then l = directory
      else if name = ".." then l = directory.dropLast
      else t.entry? (directory ++ [name]) = some .directory ∧ l = directory ++ [name] := by
  rw [step]
  split_ifs
  · rw [Except.ok.injEq, eq_comm]
  · rw [Except.ok.injEq, eq_comm]
  · split
    · next h => rw [Except.ok.injEq, h, eq_comm, eq_self, true_and]
    · next h => rw [h]; exact ⟨nofun, nofun⟩
    · next h => rw [h]; exact ⟨nofun, nofun⟩

theorem foldlM_step_of_sameDirectories (h : t.SameDirectories t') {names : List String}
    {directory l : Location} (hl : names.foldlM t.step directory = .ok l) :
    names.foldlM t'.step directory = .ok l := by
  induction names generalizing directory with
  | nil => exact hl
  | cons name rest ih =>
    rw [List.foldlM_cons] at hl ⊢
    obtain ⟨next, hn, hl⟩ := bind_eq_ok.1 hl
    refine bind_eq_ok.2 ⟨next, ?_, ih hl⟩
    rw [step_eq_ok] at hn ⊢
    rwa [← h.directory]

/-- A path leads to the same place as long as the directories are the same. -/
theorem SameDirectories.target (h : t.SameDirectories t') {path : String} {x : Target}
    (hx : t.target path = .ok x) : t'.target path = .ok x := by
  rw [FileTree.target] at hx ⊢
  cases hpath : path.isEmpty with
  | true => rw [hpath] at hx; cases hx
  | false =>
    simp only [hpath, Bool.false_eq_true, if_false, bind_eq_ok] at hx ⊢
    obtain ⟨directory, hd, hlast⟩ := hx
    exact ⟨directory, foldlM_step_of_sameDirectories h (h.working ▸ hd), hlast⟩

/-- The location at which the file of a path stands, or would stand. -/
def fileLocation? (t : FileTree) (path : String) : Option Location :=
  match t.target path with
  | .ok (.name l false) => some l
  | _ => none

theorem fileLocation?_eq_some {path : String} {l : Location} :
    t.fileLocation? path = some l ↔ t.target path = .ok (.name l false) := by
  rw [fileLocation?]
  split
  · next h => rw [h]; simp
  · next h => exact ⟨nofun, fun hl => (h l hl).elim⟩

theorem SameDirectories.fileLocation? (h : t.SameDirectories t') (path : String) :
    t.fileLocation? path = t'.fileLocation? path := by
  refine Option.ext fun l => ?_
  rw [fileLocation?_eq_some, fileLocation?_eq_some]
  exact ⟨h.target, h.symm.target⟩

/-- The name of the file of a path is a part of the path. -/
theorem length_of_fileLocation? {path : String} {l : Location}
    (h : t.fileLocation? path = some l) :
    ∃ directory name, l = directory ++ [name] ∧ name.length ≤ path.length := by
  rw [fileLocation?_eq_some, target] at h
  cases hpath : path.isEmpty with
  | true => rw [hpath] at h; cases h
  | false =>
    simp only [hpath, Bool.false_eq_true, if_false, bind_eq_ok] at h
    obtain ⟨directory, -, h⟩ := h
    split at h
    · cases h
    · cases h
    · cases h
    · next name _ _ hlast =>
      obtain ⟨rfl, -⟩ := Target.name.inj (Except.ok.inj h)
      exact ⟨directory, name, rfl, Path.length_le_of_mem_parts (List.mem_of_getLast? hlast)⟩

theorem ne_nil_of_fileLocation? {path : String} {l : Location}
    (h : t.fileLocation? path = some l) : l ≠ [] := by
  obtain ⟨directory, name, rfl, -⟩ := length_of_fileLocation? h
  exact List.append_ne_nil_of_right_ne_nil _ (List.cons_ne_nil _ _)

/-! ## Files at paths -/

theorem find_eq_ok_file {path : String} {l : Location} {content : Bytes} :
    t.find path = .ok (l, .file content) ↔
      t.fileLocation? path = some l ∧ t.entry? l = some (.file content) := by
  rw [find, bind_eq_ok, fileLocation?_eq_some]
  constructor
  · rintro ⟨target, ht, h⟩
    split at h
    · cases h
    · next l' asDirectory =>
      split at h
      · cases h
      · cases h
      · next he =>
        cases asDirectory with
        | true => cases h
        | false => cases h; exact ⟨ht, he⟩
  · rintro ⟨ht, he⟩
    refine ⟨_, ht, ?_⟩
    simp only [he]
    rfl

theorem fileAt?_eq_some {path : String} {l : Location} :
    t.fileAt? path = some l ↔
      t.fileLocation? path = some l ∧ ∃ content, t.entry? l = some (.file content) := by
  rw [fileAt?]
  split
  · next l' content h =>
    obtain ⟨hl', he⟩ := find_eq_ok_file.1 h
    rw [Option.some_inj, hl', Option.some_inj]
    exact ⟨fun hl => ⟨hl, content, hl ▸ he⟩, fun hl => hl.1⟩
  · next hnot =>
    refine ⟨nofun, fun ⟨hl, content, he⟩ => ?_⟩
    exact (hnot l content (find_eq_ok_file.2 ⟨hl, he⟩)).elim

theorem readBytes_eq_ok {path : String} {content : Bytes} :
    t.readBytes path = .ok content ↔
      ∃ l, t.fileLocation? path = some l ∧ t.entry? l = some (.file content) := by
  rw [readBytes, bind_eq_ok]
  constructor
  · rintro ⟨⟨l, e⟩, hf, h⟩
    cases e with
    | file => cases h; exact ⟨l, find_eq_ok_file.1 hf⟩
    | directory => cases h
  · rintro ⟨l, hl⟩
    exact ⟨_, find_eq_ok_file.2 hl, rfl⟩

theorem moveOnto_eq_ok {source : Location} {path : String} :
    t.moveOnto source path = .ok t' ↔ ∃ l, t.fileLocation? path = some l ∧
      t.entry? l ≠ some .directory ∧ t' = t.move source l := by
  rw [moveOnto, bind_eq_ok]
  constructor
  · rintro ⟨target, ht, h⟩
    split at h
    · cases h
    · next l asDirectory =>
      cases asDirectory with
      | true => cases h
      | false =>
        refine ⟨l, fileLocation?_eq_some.2 ht, ?_⟩
        simp only [Bool.false_eq_true, if_false] at h
        split at h
        · cases h
        · next hd => cases h; exact ⟨hd, rfl⟩
  · rintro ⟨l, hl, hd, rfl⟩
    refine ⟨_, fileLocation?_eq_some.1 hl, ?_⟩
    cases he : t.entry? l with
    | none => simp only [he]; rfl
    | some e =>
      cases e with
      | file => simp only [he]; rfl
      | directory => exact absurd he hd

/-! ## Temporary files -/

/-- A location whose name is longer than each of some paths. -/
def Aside (avoid : List String) (l : Location) : Prop :=
  ∃ directory name, l = directory ++ [name] ∧ ∀ path ∈ avoid, path.length < name.length

theorem Aside.ne_nil {avoid : List String} {l : Location} (h : Aside avoid l) : l ≠ [] := by
  obtain ⟨directory, name, rfl, -⟩ := h
  exact List.append_ne_nil_of_right_ne_nil _ (List.cons_ne_nil _ _)

/-- None of the paths leads aside. -/
theorem Aside.ne_of_fileLocation? {avoid : List String} {l l' : Location} (h : Aside avoid l)
    {path : String} (hp : path ∈ avoid) (hl : t.fileLocation? path = some l') : l' ≠ l := by
  obtain ⟨directory, name, rfl, hlong⟩ := h
  obtain ⟨directory', name', rfl, hshort⟩ := length_of_fileLocation? hl
  intro he
  have hname : name' = name := by simpa using congrArg List.getLast? he
  exact absurd (hlong path hp) (Nat.not_lt.2 (hname ▸ hshort))

theorem le_foldl_max {names : List String} (n : Nat) :
    n ≤ names.foldl (fun n s => max n s.length) n ∧
      ∀ s ∈ names, s.length ≤ names.foldl (fun n s => max n s.length) n := by
  induction names generalizing n with
  | nil => exact ⟨Nat.le_refl n, by simp⟩
  | cons s rest ih =>
    obtain ⟨hn, hrest⟩ := ih (max n s.length)
    refine ⟨Nat.le_trans (Nat.le_max_left ..) hn, List.forall_mem_cons.2 ⟨?_, hrest⟩⟩
    exact Nat.le_trans (Nat.le_max_right ..) hn

/-- A fresh name is longer than the names of the tree and the texts to avoid. -/
theorem length_lt_freshName {avoid : List String} {s : String}
    (h : s ∈ t.entries.flatMap (·.1) ++ avoid) : s.length < (t.freshName avoid).length := by
  rw [freshName, String.length_ofList, List.length_cons, List.length_replicate]
  exact Nat.lt_succ_of_le ((le_foldl_max 0).2 s h)

/-- Nothing stands under a fresh name. -/
theorem entry?_freshName (avoid : List String) (directory : Location) :
    t.entry? (directory ++ [t.freshName avoid]) = none := by
  rw [entry?_of_ne_nil (List.append_ne_nil_of_right_ne_nil _ (List.cons_ne_nil _ _)),
    ← Option.not_isSome_iff_eq_none]
  intro hsome
  obtain ⟨e, he⟩ := Option.isSome_iff_exists.1 hsome
  obtain ⟨before, after, hentries, -⟩ := List.lookup_eq_some_iff.1 he
  have hmem : (directory ++ [t.freshName avoid], e) ∈ t.entries := by rw [hentries]; simp
  refine Nat.lt_irrefl (t.freshName avoid).length
    (length_lt_freshName (List.mem_append_left avoid ?_))
  exact List.mem_flatMap.2 ⟨_, hmem, List.mem_append_right directory (List.mem_singleton_self _)⟩

/-- A temporary file is new, and no path to avoid leads to it. -/
theorem createTemporary_eq_ok {avoid : List String} {directory : String} {content : Bytes}
    {temporary : Location} (h : t.createTemporary avoid directory content = .ok (t', temporary)) :
    t' = t.put temporary (.file content) ∧ t.entry? temporary = none ∧ Aside avoid temporary := by
  obtain ⟨l, -, h⟩ := bind_eq_ok.1 h
  cases h
  exact ⟨rfl, entry?_freshName avoid l, l, _, rfl,
    fun path hp => length_lt_freshName (List.mem_append_right _ hp)⟩

end FileTree

end BootSeal
