/-
  BootSeal — several outputs are written all together or not at all.

  * `Placed` is one output moved into place, over nothing or over a file that was set
    aside (`placed_of_moveOnto`), and `Placed.undo` takes it back;
  * `place_spec`: by induction on the temporary files, a run of such moves puts every
    output in place, or takes everything back, last move first;
  * `persist_all_or_nothing`: so does the whole of it, for any tree and any outputs,
    with repeated paths;
  * `persist_fails`: all errors are about the path of an output.
-/
import BootSeal.Proofs.Files.Staging

namespace BootSeal.FileTree

variable {t t₁ t₂ : FileTree} {avoid : List String}

/-! ## One move -/

/-- `w'` is `w` after content has come to a path. What stood there, if anything, is a
    backup aside. -/
inductive Placed (w w' : FileTree) (avoid : List String) (path : String) (content : Bytes) :
    Option Location → Prop where
  | fresh {l : Location} : w'.working = w.working → w.fileLocation? path = some l →
    w.entry? l = none →
    (∀ x, w'.entry? x = if x = l then some (.file content) else w.entry? x) →
    Placed w w' avoid path content none
  | replacing {l backup : Location} {old : Bytes} : w'.working = w.working →
    w.fileLocation? path = some l → w.entry? l = some (.file old) →
    Aside avoid backup → w.entry? backup = none →
    (∀ x, w'.entry? x = if x = backup then some (.file old)
      else if x = l then some (.file content) else w.entry? x) →
    Placed w w' avoid path content (some backup)

section
variable {w w' : FileTree} {path : String} {content : Bytes} {backup : Option Location}

theorem Placed.sameDirectories (h : Placed w w' avoid path content backup) :
    w'.SameDirectories w := by
  cases h with
  | fresh hworking _ hl he =>
    refine ⟨hworking, fun x => ?_⟩
    rw [he]
    split_ifs with hx
    · rw [hx, hl]; exact ⟨nofun, nofun⟩
    · exact Iff.rfl
  | replacing hworking _ hl _ hb he =>
    refine ⟨hworking, fun x => ?_⟩
    rw [he]
    split_ifs with hx hx
    · rw [hx, hb]; exact ⟨nofun, nofun⟩
    · rw [hx, hl]; exact ⟨nofun, fun h => nomatch h⟩
    · exact Iff.rfl

/-- **A move is undone**: the path holds what it held before, and the backup is gone. -/
theorem Placed.undo (h : Placed w w' avoid path content backup) (hs : t.Same w') :
    (t.undo path backup).Same w := by
  have hd := hs.sameDirectories.trans h.sameDirectories
  cases h with
  | @fresh l hworking hpath hl he =>
    have hat : t.fileAt? path = some l := by
      refine fileAt?_eq_some.2 ⟨(hd.fileLocation? path).trans hpath, content, ?_⟩
      rw [hs.entry?, he, if_pos rfl]
    rw [FileTree.undo, removeFile, hat]
    refine ⟨hs.working.trans hworking, fun x => ?_⟩
    rw [entry?_erase (ne_nil_of_fileLocation? hpath), hs.entry?, he]
    split_ifs with hx
    · rw [hx, hl]
    · rfl
  | @replacing l backup old hworking hpath hl ha hb he =>
    have hlb : l ≠ backup := fun h => by rw [h, hb] at hl; cases hl
    have hmove : t.moveOnto backup path = .ok (t.move backup l) := by
      refine moveOnto_eq_ok.2 ⟨l, (hd.fileLocation? path).trans hpath, ?_, rfl⟩
      rw [hs.entry?, he, if_neg hlb, if_pos rfl]
      nofun
    have hold : t.entry? backup = some (.file old) := by rw [hs.entry?, he, if_pos rfl]
    rw [FileTree.undo, restore, hmove]
    refine ⟨(working_move ..).trans (hs.working.trans hworking), fun x => ?_⟩
    rw [entry?_move ha.ne_nil (ne_nil_of_fileLocation? hpath) hold, hs.entry?, he]
    split_ifs with hx hx
    · rw [hx, hl]
    · rw [hx, hb]
    · rfl

/-- A move that the other outputs follow. The backup has served its purpose then. -/
theorem Placed.written {o : Output} {outputs : List Output}
    (h : Placed w w' avoid o.path o.content backup) (ho : o.path ∈ avoid)
    (hp : ∀ o' ∈ outputs, o'.path ∈ avoid) (hw : Written w' outputs t) :
    Written w (o :: outputs) (backup.elim t t.erase) := by
  have hd := h.sameDirectories
  have htakes : ∀ o' ∈ outputs, ∃ l, w.fileLocation? o'.path = some l ∧
      w.entry? l ≠ some .directory := by
    intro o' ho'
    obtain ⟨l, hl, hne⟩ := hw.takes o' ho'
    exact ⟨l, (hd.fileLocation? _).symm.trans hl, mt (hd.directory l).2 hne⟩
  have hentry : ∀ x, t.entry? x = outputs.foldl (w.afterOutput x) (w'.entry? x) := by
    intro x
    rw [hw.entry?, outcome, hd.afterOutput]
  cases h with
  | @fresh l hworking hpath hl he =>
    refine ⟨hw.working.trans hworking, List.forall_mem_cons.2 ⟨⟨l, hpath, ?_⟩, htakes⟩,
      fun x => ?_⟩
    · simp [hl]
    · rw [outcome, List.foldl_cons, afterOutput, Option.elim_none, hentry, he, hpath]
      simp only [Option.some_inj, eq_comm]
  | @replacing l backup old hworking hpath hl ha hb he =>
    refine ⟨hw.working.trans hworking, List.forall_mem_cons.2 ⟨⟨l, hpath, ?_⟩, htakes⟩,
      fun x => ?_⟩
    · simp [hl]
    · rw [Option.elim_some, entry?_erase ha.ne_nil]
      split_ifs with hx
      · refine Eq.symm ((outcome_of_ne (List.forall_mem_cons.2 ⟨?_, fun o' ho' => ?_⟩)).trans ?_)
        · rw [hpath, hx, ne_eq, Option.some_inj]
          exact ha.ne_of_fileLocation? ho hpath
        · exact fun hb' => ha.ne_of_fileLocation? (hp o' ho') hb' hx
        · rw [hx, hb]
      · rw [outcome, List.foldl_cons, afterOutput, hentry, he, hpath, if_neg hx]
        simp only [Option.some_inj, eq_comm]

end

/-- A temporary file is moved to the location of its path, and the others still wait. -/
theorem Waiting.move {s : Staged} {o : Output} {l : Location} {staged : List Staged}
    {outputs : List Output} (hw : Waiting t avoid (s :: staged) (o :: outputs))
    (hl : t.fileLocation? s.path = some l) :
    Waiting (t.move s.temporary l) avoid staged outputs ∧
      ∀ x, entry? ((t.move s.temporary l).discard staged) x =
        if x = l then some (.file o.content) else entry? (t.discard (s :: staged)) x := by
  have hnil := hw.ne_nil
  cases hw with
  | @cons temporary _ _ _ he ha hp hne hw =>
    have hnot := hw.not_mem_of_fileLocation? hp hl
    have hmove := entry?_move ha.ne_nil (ne_nil_of_fileLocation? hl) he
    refine ⟨hw.congr fun s hs => ?_, fun x => ?_⟩
    · have hsl : s.temporary ≠ l := fun h => hnot (h ▸ List.mem_map_of_mem hs)
      rw [hmove, if_neg hsl, if_neg (hne s hs)]
    · rw [entry?_discard hw.ne_nil, entry?_discard hnil, hmove]
      by_cases hx : x = l
      · rw [hx, if_neg hnot, if_pos rfl, if_pos rfl]
      · rw [if_neg hx, if_neg hx]
        by_cases hxt : x = temporary
        · simp only [hxt, List.map_cons, List.mem_cons, true_or, if_true, ite_self]
        · simp only [hxt, List.map_cons, List.mem_cons, false_or, if_false]

/-- Setting aside moves the file at a path, if there is one, to a new location. -/
theorem setAside_eq_ok {path : String} {backup : Option Location}
    (h : t.setAside avoid path = .ok (t₁, backup)) :
    (backup = none ∧ t₁ = t ∧ t.fileAt? path = none) ∨
      ∃ l b old, backup = some b ∧ t.fileLocation? path = some l ∧
        t.entry? l = some (.file old) ∧ Aside avoid b ∧ t.entry? b = none ∧
        t₁.working = t.working ∧ ∀ x, t₁.entry? x = if x = b then some (.file old)
          else if x = l then none else t.entry? x := by
  rw [setAside] at h
  split at h
  · next hnone => cases h; exact Or.inl ⟨rfl, rfl, hnone⟩
  · next l hsome =>
    obtain ⟨hl, old, hold⟩ := fileAt?_eq_some.1 hsome
    obtain ⟨⟨t', b⟩, hc, h⟩ := bind_eq_ok.1 h
    obtain ⟨rfl, hb, ha⟩ := createTemporary_eq_ok hc
    cases h
    have hlb : l ≠ b := fun h => by rw [h, hb] at hold; cases hold
    have hput : entry? (t.put b (.file [])) l = some (.file old) := by
      rw [entry?_put ha.ne_nil, if_neg hlb, hold]
    refine Or.inr ⟨l, b, old, rfl, hl, hold, ha, hb, working_move .., fun x => ?_⟩
    rw [entry?_move (ne_nil_of_fileLocation? hl) ha.ne_nil hput, entry?_put ha.ne_nil]
    split_ifs <;> rfl

/-- What was set aside is still in the tree, and temporary files wait as before. -/
theorem Waiting.setAside {path : String} {backup : Location} {staged : List Staged}
    {outputs : List Output} (hw : Waiting t avoid staged outputs) (hp : path ∈ avoid)
    (h : t.setAside avoid path = .ok (t₁, some backup)) :
    ∃ l old, Aside avoid backup ∧ t₁.SameDirectories t ∧ t.fileLocation? path = some l ∧
      t₁.entry? l = none ∧ entry? (t.discard staged) l = some (.file old) ∧
      entry? (t.discard staged) backup = none ∧ Waiting t₁ avoid staged outputs ∧
      ∀ x, entry? (t₁.discard staged) x = if x = backup then some (.file old)
        else if x = l then none else entry? (t.discard staged) x := by
  obtain ⟨h, -⟩ | ⟨l, b, old, h, hl, hold, ha, hb, hworking, he⟩ := setAside_eq_ok h
  · cases h
  cases h
  have hlb : l ≠ backup := fun h => by rw [h, hb] at hold; cases hold
  have hlt := hw.not_mem_of_fileLocation? hp hl
  have hbt := hw.not_mem_of_none hb
  have hapart : ∀ s ∈ staged, s.temporary ≠ backup ∧ s.temporary ≠ l := fun s hs =>
    ⟨fun h => hbt (h ▸ List.mem_map_of_mem hs), fun h => hlt (h ▸ List.mem_map_of_mem hs)⟩
  refine ⟨l, old, ha, ⟨hworking, fun x => ?_⟩, hl, ?_, ?_, ?_, hw.congr fun s hs => ?_, fun x => ?_⟩
  · rw [he]
    split_ifs with hx hx
    · rw [hx, hb]; exact ⟨nofun, nofun⟩
    · rw [hx, hold]; exact ⟨nofun, nofun⟩
    · exact Iff.rfl
  · rw [he, if_neg hlb, if_pos rfl]
  · rw [entry?_discard hw.ne_nil, if_neg hlt, hold]
  · rw [entry?_discard hw.ne_nil, if_neg hbt, hb]
  · rw [he, if_neg (hapart s hs).1, if_neg (hapart s hs).2]
  · rw [entry?_discard hw.ne_nil, entry?_discard hw.ne_nil, he]
    by_cases hx : x ∈ staged.map (·.temporary)
    · obtain ⟨s, hs, rfl⟩ := List.mem_map.1 hx
      rw [if_pos hx, if_pos hx, if_neg (hapart s hs).1, if_neg (hapart s hs).2]
    · rw [if_neg hx, if_neg hx]

/-- One step of the moves that succeeds. -/
theorem placed_of_moveOnto {s : Staged} {o : Output} {staged : List Staged}
    {outputs : List Output} {backup : Option Location}
    (hw : Waiting t avoid (s :: staged) (o :: outputs))
    (hset : t.setAside avoid s.path = .ok (t₁, backup))
    (hmove : t₁.moveOnto s.temporary s.path = .ok t₂) :
    Placed (t.discard (s :: staged)) (t₂.discard staged) avoid s.path o.content backup ∧
      Waiting t₂ avoid staged outputs := by
  have hp : s.path ∈ avoid := by cases hw with | cons _ _ hp => exact hp
  have hd := hw.sameDirectories
  obtain ⟨l, hl, hne, rfl⟩ := moveOnto_eq_ok.1 hmove
  cases backup with
  | none =>
    obtain ⟨-, rfl, hnone⟩ | ⟨_, _, _, h, -⟩ := setAside_eq_ok hset
    · obtain ⟨hw', he⟩ := hw.move hl
      refine ⟨.fresh ?_ ((hd.fileLocation? _).trans hl) ?_ he, hw'⟩
      · rw [working_discard, working_discard, working_move]
      · rw [entry?_discard hw.ne_nil]
        split_ifs
        · rfl
        · cases hentry : t₁.entry? l with
          | none => rfl
          | some e =>
            cases e with
            | directory => exact absurd hentry hne
            | file content =>
              rw [fileAt?_eq_some.2 ⟨hl, content, hentry⟩] at hnone
              cases hnone
    · cases h
  | some b =>
    obtain ⟨l', old, ha, hd₁, hl', -, hold, hb, hw₁, he₁⟩ := hw.setAside hp hset
    obtain rfl : l' = l := Option.some.inj (hl'.symm.trans ((hd₁.fileLocation? _).symm.trans hl))
    obtain ⟨hw', he⟩ := hw₁.move hl
    have hlb : l' ≠ b := fun h => by rw [h, hb] at hold; cases hold
    refine ⟨.replacing ?_ ((hd.fileLocation? _).trans hl') hold ha hb fun x => ?_, hw'⟩
    · rw [working_discard, working_discard, working_move, hd₁.working]
    · rw [he, he₁]
      split_ifs with hx hxb
      · exact absurd (hx.symm.trans hxb) hlb
      all_goals rfl

/-- Where a file was set aside, another one can take its place. -/
theorem moveOnto_of_setAside {s : Staged} {o : Output} {staged : List Staged}
    {outputs : List Output} {backup : Location} (source : Location)
    (hw : Waiting t avoid (s :: staged) (o :: outputs))
    (hset : t.setAside avoid s.path = .ok (t₁, some backup)) :
    ∃ t₂, t₁.moveOnto source s.path = .ok t₂ := by
  have hp : s.path ∈ avoid := by cases hw with | cons _ _ hp => exact hp
  obtain ⟨l, -, -, hd, hl, hnone, -⟩ := hw.setAside hp hset
  exact ⟨_, moveOnto_eq_ok.2 ⟨l, (hd.fileLocation? _).trans hl, by rw [hnone]; nofun, rfl⟩⟩

/-! ## Runs of moves -/

/-- **A run of moves puts every output in place**, or leaves the tree as it was, and no
    temporary file in either case. -/
theorem place_spec {staged : List Staged} {outputs : List Output}
    (hw : Waiting t avoid staged outputs) :
    (∀ t', t.place avoid staged = (t', .ok ()) → Written (t.discard staged) outputs t') ∧
      ∀ t' e, t.place avoid staged = (t', .error e) → t'.Same (t.discard staged) := by
  induction staged generalizing t outputs with
  | nil =>
    cases hw
    rw [place]
    refine ⟨fun t' h => ?_, fun t' e h => by cases h⟩
    cases h
    exact ⟨rfl, by simp, fun _ => rfl⟩
  | cons s staged ih =>
    cases outputs with
    | nil => cases hw
    | cons o outputs =>
    have hpaths := hw.path_mem
    rw [place]
    cases hset : t.setAside avoid s.path with
    | error fault =>
      refine ⟨(fun t' h => by cases h), fun t' e h => ?_⟩
      cases h
      exact Same.refl _
    | ok aside =>
    obtain ⟨t₁, backup⟩ := aside
    dsimp only
    cases hmove : t₁.moveOnto s.temporary s.path with
    | error fault =>
      cases backup with
      | some b =>
        obtain ⟨t₂, h⟩ := moveOnto_of_setAside s.temporary hw hset
        rw [hmove] at h
        cases h
      | none =>
        obtain ⟨-, rfl, -⟩ | ⟨_, _, _, h, -⟩ := setAside_eq_ok hset
        · refine ⟨(fun t' h => by cases h), fun t' e h => ?_⟩
          cases h
          exact Same.refl _
        · cases h
    | ok t₂ =>
      obtain ⟨hplaced, hw₂⟩ := placed_of_moveOnto hw hset hmove
      obtain ⟨hok, herror⟩ := ih hw₂
      have hpath : s.path = o.path := by cases hw with | cons => rfl
      dsimp only
      cases hrest : t₂.place avoid staged with
      | mk t₃ result =>
      cases result with
      | ok =>
        refine ⟨fun t' h => ?_, fun t' e h => by cases h⟩
        cases h
        rw [hpath] at hplaced
        exact hplaced.written (hpaths o List.mem_cons_self)
          (fun o' ho => hpaths o' (List.mem_cons_of_mem _ ho)) (hok _ hrest)
      | error e =>
        refine ⟨(fun t' h => by cases h), fun t' e h => ?_⟩
        cases h
        exact hplaced.undo (herror _ _ hrest)

theorem place_fails (avoid : List String) (staged : List Staged) :
    FailsWith (Error.IsFileFault (staged.map (·.path))) (t.place avoid staged).2 := by
  induction staged generalizing t with
  | nil => exact .ok _
  | cons s rest ih =>
    rw [place]
    split
    · next fault _ => exact Error.IsFileFault.staging fault List.mem_cons_self
    · split
      · next fault _ => exact Error.IsFileFault.io fault List.mem_cons_self
      · split
        · exact .ok _
        · next hplace =>
          exact (ih.of_eq (congrArg Prod.snd hplace)).subset (List.subset_cons_self _ _)

/-! ## Outputs -/

theorem persist_fails (t : FileTree) (outputs : List Output) :
    FailsWith (Error.IsFileFault (outputs.map (·.path))) (t.persist outputs).2 := by
  have hp : ∀ o ∈ outputs, o.path ∈ outputs.map (·.path) := fun o ho => List.mem_map_of_mem ho
  rw [persist]
  split
  · next hstage =>
    rw [← ((stage_spec hp).1 _ _ hstage).1.map_path]
    exact place_fails ..
  · next hstage => exact (stage_fails ..).of_eq (congrArg Prod.snd hstage)

theorem persist_eq_ok {outputs : List Output} {t' : FileTree}
    (h : t.persist outputs = (t', .ok ())) : Written t outputs t' := by
  have hp : ∀ o ∈ outputs, o.path ∈ outputs.map (·.path) := fun o ho => List.mem_map_of_mem ho
  rw [persist] at h
  cases hstage : t.stage (outputs.map (·.path)) outputs with
  | mk t₁ result =>
  simp only [hstage] at h
  cases result with
  | error => cases h
  | ok staged =>
    obtain ⟨hw, hs⟩ := (stage_spec hp).1 _ _ hstage
    have hwritten := (place_spec hw).1 _ h
    have hd := hs.sameDirectories
    refine ⟨hwritten.working.trans hs.working, fun o ho => ?_, fun l => ?_⟩
    · obtain ⟨l, hl, hne⟩ := hwritten.takes o ho
      exact ⟨l, (hd.fileLocation? _).symm.trans hl, hs.entry? l ▸ hne⟩
    · rw [hwritten.entry?, outcome, outcome, hd.afterOutput, hs.entry?]

theorem persist_eq_error {outputs : List Output} {t' : FileTree} {e : Error}
    (h : t.persist outputs = (t', .error e)) : t'.Same t := by
  have hp : ∀ o ∈ outputs, o.path ∈ outputs.map (·.path) := fun o ho => List.mem_map_of_mem ho
  rw [persist] at h
  cases hstage : t.stage (outputs.map (·.path)) outputs with
  | mk t₁ result =>
  simp only [hstage] at h
  cases result with
  | error =>
    cases h
    exact (stage_spec hp).2 _ _ hstage
  | ok staged =>
    obtain ⟨hw, hs⟩ := (stage_spec hp).1 _ _ hstage
    exact ((place_spec hw).2 _ _ h).trans hs

/-- **Outputs are written all together or not at all.** If writing succeeds, every path
    leads to a location that holds the content of the last output that leads there, and
    all other locations are as they were. If it fails, all locations are. So no temporary
    file and no backup is left in either case. -/
theorem persist_all_or_nothing (t : FileTree) (outputs : List Output) :
    (∀ t', t.persist outputs = (t', .ok ()) →
      (∀ before o after, outputs = before ++ o :: after →
        ∃ l, t.fileLocation? o.path = some l ∧
          ((∀ o' ∈ after, t.fileLocation? o'.path ≠ some l) →
            t'.entry? l = some (.file o.content) ∧ t'.readBytes o.path = .ok o.content)) ∧
      (∀ l, (∀ o ∈ outputs, t.fileLocation? o.path ≠ some l) → t'.entry? l = t.entry? l) ∧
      t'.working = t.working) ∧
    ∀ t' e, t.persist outputs = (t', .error e) →
      (∀ l, t'.entry? l = t.entry? l) ∧ t'.working = t.working := by
  refine ⟨fun t' h => ?_, fun t' e h => ?_⟩
  · have hw := persist_eq_ok h
    refine ⟨?_, fun l hl => (hw.entry? l).trans (outcome_of_ne hl), hw.working⟩
    rintro before o after rfl
    obtain ⟨l, hl, -⟩ := hw.takes o (by simp)
    exact ⟨l, hl, hw.last hl⟩
  · have hs := persist_eq_error h
    exact ⟨hs.entry?, hs.working⟩

/-- Outputs that name one file twice, once in another spelling: a success over an older
    file, and a failure at a directory after both have been moved into place. -/
theorem persist_repeated_path :
    let t : FileTree := ⟨[], [(["a"], .file [0]), (["d"], .directory)]⟩
    let outputs : List Output := [⟨"a", [1]⟩, ⟨"b", [2]⟩, ⟨"./a", [3]⟩]
    (∃ t', t.persist outputs = (t', .ok ()) ∧ t'.entry? ["a"] = some (.file [3]) ∧
      t'.readBytes "b" = .ok [2] ∧ t'.entry? ["d"] = some .directory) ∧
    ∃ t' e, t.persist (outputs ++ [⟨"d", [4]⟩]) = (t', .error e) ∧
      t'.entry? ["a"] = some (.file [0]) ∧ t'.entry? ["b"] = none := by
  intro t outputs
  have hok : (t.persist outputs).2.toBool = true := by decide +kernel
  have herror : (t.persist (outputs ++ [⟨"d", [4]⟩])).2.toBool = false := by decide +kernel
  obtain ⟨t₁, _, hgood⟩ := exists_eq_mk_ok_of_toBool hok
  obtain ⟨t₂, e, hbad⟩ := exists_eq_mk_error_of_toBool herror
  have ha : t.fileLocation? "./a" = some ["a"] := by decide +kernel
  have hb : t.fileLocation? "b" = some ["b"] := by decide +kernel
  have hall : ∀ o ∈ outputs, t.fileLocation? o.path ≠ some ["d"] := by decide +kernel
  obtain ⟨hlast, hother, -⟩ := (persist_all_or_nothing t outputs).1 t₁ hgood
  obtain ⟨hsame, -⟩ := (persist_all_or_nothing t _).2 t₂ e hbad
  obtain ⟨l, hl, hthird⟩ := hlast [⟨"a", [1]⟩, ⟨"b", [2]⟩] ⟨"./a", [3]⟩ [] rfl
  obtain ⟨l', hl', hsecond⟩ := hlast [⟨"a", [1]⟩] ⟨"b", [2]⟩ [⟨"./a", [3]⟩] rfl
  obtain rfl : l = ["a"] := Option.some.inj (hl.symm.trans ha)
  obtain rfl : l' = ["b"] := Option.some.inj (hl'.symm.trans hb)
  refine ⟨⟨t₁, hgood, (hthird (by simp)).1, (hsecond ?_).2, hother _ hall⟩,
    t₂, e, hbad, hsame _, hsame _⟩
  simp [ha]

end BootSeal.FileTree
