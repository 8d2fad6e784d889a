/-
  BootSeal — what runs leave behind: the whole of their outputs, or nothing.

  * `Command.Writes`: the outputs of a command with all of their content;
  * `FileTree.Leaves`: a result leaves outputs behind if it is a success, and the tree as
    it was if not. So does every command (`Command.run_leaves`), and so does every run
    (`Invocation.outcome_leaves`);
  * `Command.givenOutputs`: the paths that an argument list gives for outputs, and no run
    writes elsewhere (`Invocation.Writes.path_mem`);
  * `runs_leave_whole_files`: after any number of runs, by induction on them, a location is
    as it was, or holds all of what a successful run has written there.
-/
import BootSeal.Proofs.Command.Status
import BootSeal.Proofs.Files.Metadata

namespace BootSeal

/-! ## Whole outputs or nothing -/

namespace FileTree

/-- A success leaves some outputs behind, and a failure leaves the tree as it was. -/
def Leaves {ε α : Type} (t : FileTree) (P : List Output → Prop) (r : FileTree × Except ε α) :
    Prop :=
  match r.2 with
  | .ok _ => ∃ outputs, P outputs ∧ Written t outputs r.1
  | .error _ => r.1.Same t

theorem written_nil {t t' : FileTree} : Written t [] t' ↔ t'.Same t :=
  ⟨fun h => ⟨h.working, h.entry?⟩, fun h => ⟨h.working, by simp, h.entry?⟩⟩

/-- After outputs were written, a location is as it was or holds one of them. -/
theorem Written.entry?_cases {t t' : FileTree} {outputs : List Output}
    (h : Written t outputs t') (l : Location) :
    t'.entry? l = t.entry? l ∨ ∃ o ∈ outputs, t.fileLocation? o.path = some l ∧
      t.entry? l ≠ some .directory ∧ t'.entry? l = some (.file o.content) := by
  by_cases hl : ∀ o ∈ outputs, t.fileLocation? o.path ≠ some l
  · exact Or.inl ((h.entry? l).trans (outcome_of_ne hl))
  · -- The last output that leads here is the one that counts.
    have hlast : ∃ before o after, outputs = before ++ o :: after ∧
        t.fileLocation? o.path = some l ∧ ∀ o' ∈ after, t.fileLocation? o'.path ≠ some l := by
      clear h
      induction outputs with
      | nil => exact absurd (by simp) hl
      | cons o rest ih =>
        by_cases hrest : ∀ o' ∈ rest, t.fileLocation? o'.path ≠ some l
        · exact ⟨[], o, rest, rfl,
            Decidable.not_not.1 fun ho => hl (List.forall_mem_cons.2 ⟨ho, hrest⟩), hrest⟩
        · obtain ⟨before, o', after, rfl, ho', hafter⟩ := ih hrest
          exact ⟨o :: before, o', after, rfl, ho', hafter⟩
    obtain ⟨before, o, after, rfl, ho, hafter⟩ := hlast
    have hmem : o ∈ before ++ o :: after := by simp
    obtain ⟨l', hl', hne⟩ := h.takes o hmem
    obtain rfl : l' = l := Option.some.inj (hl'.symm.trans ho)
    exact Or.inr ⟨o, hmem, ho, hne, (h.last ho hafter).1⟩

variable {ε α : Type} {t : FileTree} {P : List Output → Prop}

theorem leaves_error (e : ε) : t.Leaves P ((t, .error e) : FileTree × Except ε α) := Same.refl t

/-- A result that nothing is written for. -/
theorem leaves_nothing (h : P []) (x : Except ε α) : t.Leaves P (t, x) := by
  cases x with
  | ok a => exact ⟨[], h, written_nil.2 (Same.refl t)⟩
  | error e => exact leaves_error e

theorem persist_leaves {outputs : List Output} (h : P outputs) :
    t.Leaves P (t.persist outputs) := by
  cases hp : t.persist outputs with
  | mk t' result =>
    cases result with
    | ok => exact ⟨outputs, h, persist_eq_ok hp⟩
    | error e => exact persist_eq_error hp

/-- It does not matter what is told of the result. -/
theorem Leaves.congr {ε' β : Type} {r : FileTree × Except ε α} {x : Except ε' β}
    (h : t.Leaves P r) (hx : x.toBool = r.2.toBool) : t.Leaves P (r.1, x) := by
  obtain ⟨t', result⟩ := r
  cases x with
  | ok =>
    cases result with
    | ok => exact h
    | error => cases hx
  | error =>
    cases result with
    | ok => cases hx
    | error => exact h

theorem writeHex_leaves {path : String} {img : Image}
    (h : ∀ text, img.toHex = .ok text → P [⟨path, textContent text⟩]) :
    t.Leaves P (t.writeHex path img) := by
  rw [writeHex]
  split
  · next text htext => exact persist_leaves (h text htext)
  · exact leaves_error _

theorem writeTable_leaves {layout : PartitionLayout} {placement : TablePlacement} {path : String}
    (h : ∀ placed text, PlacedTable.ofLayout layout placement = .ok placed →
      placed.image.toHex = .ok text → P [⟨path, textContent text⟩]) :
    t.Leaves P (t.writeTable layout placement path) := by
  rw [writeTable]
  split
  · exact leaves_error _
  · next placed hplaced =>
    have hwrite := writeHex_leaves (t := t) fun text => h placed text hplaced
    split
    · next hw => exact (hw ▸ hwrite).congr rfl
    · next hw => exact (hw ▸ hwrite).congr rfl

theorem writeSealed_leaves {r : SealRequest}
    (h : ∀ s outputs, r.run = .ok s → r.outputs s.image = .ok outputs → P outputs) :
    t.Leaves P (t.writeSealed r) := by
  rw [writeSealed]
  split
  · exact leaves_error _
  · next hall =>
    obtain ⟨_, hs, hall⟩ := bind_eq_ok.1 hall
    obtain ⟨_, houtputs, hall⟩ := bind_eq_ok.1 hall
    cases hall
    have hpersist := persist_leaves (t := t) (h _ _ hs houtputs)
    split
    · next hp => exact (hp ▸ hpersist).congr rfl
    · next hp => exact (hp ▸ hpersist).congr rfl

end FileTree

/-! ## Commands -/

theorem toBool_during {ε α : Type} (cause : ε → Cause) (doing : List String) (x : Except ε α) :
    (during cause doing x).toBool = x.toBool := by
  cases x <;> rfl

theorem toBool_map {ε α β : Type} (f : α → β) (x : Except ε α) :
    (x.map f).toBool = x.toBool := by
  cases x <;> rfl

namespace Command

/-- The files that a command writes when it succeeds, with all of their content. -/
inductive Writes (fresh : Entropy) (t : FileTree) : Command → List Output → Prop where
  | table {configPath manifestPath : Option String} {partitions : List String}
    {address : Option UInt32} {outputPath text : String}
    {described : PartitionLayout × Option UInt32} {placed : PlacedTable} :
    loadLayout t configPath partitions manifestPath = .ok described →
    PlacedTable.ofLayout described.1
      (((address <|> described.2).map .fixed).getD .afterInstaller) = .ok placed →
    placed.image.toHex = .ok text →
    Writes fresh t (.generateTable configPath partitions manifestPath address outputPath)
      [⟨outputPath, textContent text⟩]
  | verifiedTable {inputPath : String} {address : UInt32} :
    Writes fresh t (.verifyTable inputPath address) []
  | keys {algorithm : SignatureAlgorithm} {privatePath : String} {publicPath : Option String}
    {format : PublicKeyFormat} {key : PrivateKey} :
    key = .generate algorithm fresh →
    Writes fresh t (.keygen algorithm privatePath publicPath format)
      (⟨privatePath, textContent key.toPem⟩ ::
        (publicPath.map fun path => ⟨path, key.publicKey.toFile format⟩).toList)
  | digest {algorithm : HashAlgorithm} {inputPath outputPath : String} {image : Image} :
    Image.load t inputPath = .ok image →
    Writes fresh t (.hash algorithm inputPath outputPath)
      [⟨outputPath, algorithm.digest image.flatten⟩]
  | signature {algorithm : SignatureAlgorithm} {keyPath inputPath outputPath : String}
    {isImage : Bool} {key : PrivateKey} {image : Image} {record : SignatureRecord} :
    PrivateKey.load t keyPath algorithm = .ok key → Image.load t inputPath = .ok image →
    (if isImage then SignatureRecord.ofContent key algorithm fresh.nonce image.flatten
      else SignatureRecord.ofInput key algorithm fresh.nonce image.flatten) = .ok record →
    Writes fresh t (.sign algorithm keyPath inputPath outputPath isImage)
      [⟨outputPath, record.signature⟩]
  | verified {algorithm : SignatureAlgorithm} {keyPath inputPath signaturePath : String} :
    Writes fresh t (.verify algorithm keyPath inputPath signaturePath) []
  | sealed {c : Command} {r : SealRequest} {s : SealedImage} {outputs : List Output} :
    c.Seals t r → r.run = .ok s → r.outputs s.image = .ok outputs → Writes fresh t c outputs

variable {fresh : Entropy} {t : FileTree}

theorem write_leaves {P : List Output → Prop} {x : Except Failure (List Output × List String)}
    (h : ∀ result, x = .ok result → P result.1) : t.Leaves P (write t x) := by
  cases x with
  | error f => exact FileTree.leaves_error f
  | ok result =>
    exact (FileTree.persist_leaves (h result rfl)).congr
      ((toBool_during ..).trans (toBool_map ..))

/-- **A command leaves the whole of its outputs behind, or nothing.** -/
theorem run_leaves (fresh : Entropy) (t : FileTree) (c : Command) :
    t.Leaves (c.Writes fresh t) (c.run fresh t) := by
  cases c with
  | generateTable configPath partitions manifestPath address outputPath =>
    rw [run]
    split
    · exact FileTree.leaves_error _
    · next hlayout =>
      exact (FileTree.writeTable_leaves fun placed text hplaced htext =>
        Writes.table hlayout hplaced htext).congr ((toBool_during ..).trans (toBool_map ..))
  | verifyTable inputPath address => exact FileTree.leaves_nothing .verifiedTable _
  | keygen algorithm privatePath publicPath format =>
    have hwrite : t.Leaves (Writes fresh t (.keygen algorithm privatePath publicPath format))
        (t.writeKeys (.generate algorithm fresh) privatePath publicPath format) :=
      FileTree.persist_leaves (.keys rfl)
    rw [run]
    -- The files of the keys are not evaluated.
    generalize t.writeKeys (.generate algorithm fresh) privatePath publicPath format = result
      at hwrite ⊢
    exact hwrite.congr ((toBool_during ..).trans (toBool_map ..))
  | hash algorithm inputPath outputPath =>
    rw [run]
    refine write_leaves fun result h => ?_
    obtain ⟨image, himage, h⟩ := bind_eq_ok.1 h
    cases h
    exact .digest (during_eq_ok.1 himage)
  | sign algorithm keyPath inputPath outputPath isImage =>
    rw [run]
    refine write_leaves fun result h => ?_
    obtain ⟨key, hkey, h⟩ := bind_eq_ok.1 h
    obtain ⟨message, hmessage, h⟩ := bind_eq_ok.1 h
    obtain ⟨record, hrecord, hresult⟩ := bind_eq_ok.1 h
    obtain ⟨image, himage, rfl⟩ := loadMessage_eq_ok.1 hmessage
    cases hresult
    exact .signature (during_eq_ok.1 hkey) himage (during_eq_ok.1 hrecord)
  | verify algorithm keyPath inputPath signaturePath => exact FileTree.leaves_nothing .verified _
  | validationData algorithm signaturePath inputPath keyPath magicText offset hexPath flatPath
      isChecked =>
    rw [run]
    split
    · exact FileTree.leaves_error _
    · next hrequest =>
      have hseals := (sealRequest_eq_ok_iff ..).1 hrequest
      exact (FileTree.writeSealed_leaves fun s outputs hs houtputs =>
        Writes.sealed hseals hs houtputs).congr ((toBool_during ..).trans (toBool_map ..))

/-! ### Paths of outputs -/

/-- The options that name outputs. -/
def outputOptions : List String := ["output", "private", "public", "output-hex", "output-bin"]

/-- The paths that an argument list gives for outputs. -/
def givenOutputs (arguments : List String) : List String :=
  match read arguments with
  | .ok (_, values) => outputOptions.filterMap fun name => values.lookup name
  | .error _ => []

/-- The paths of the outputs of a command. -/
def outputPaths : Command → List String
  | generateTable _ _ _ _ outputPath | hash _ _ outputPath | sign _ _ _ outputPath _ => [outputPath]
  | keygen _ privatePath publicPath _ => privatePath :: publicPath.toList
  | validationData _ _ _ _ _ _ hexPath flatPath _ => hexPath.toList ++ flatPath.toList
  | verifyTable _ _ | verify _ _ _ _ => []

theorem paths_of_outputs {r : SealRequest} {image : Image} {outputs : List Output}
    (h : r.outputs image = .ok outputs) :
    outputs.map (·.path) = r.hexPath.toList ++ r.flatPath.toList := by
  obtain ⟨text, -, rfl⟩ := SealRequest.outputs_eq_ok h
  cases r.hexPath <;> cases r.flatPath <;> rfl

theorem Writes.paths {c : Command} {outputs : List Output} (h : c.Writes fresh t outputs) :
    outputs.map (·.path) = c.outputPaths := by
  cases h with
  | keys => cases ‹Option String› <;> rfl
  | sealed hseals hrun houtputs =>
    cases hseals with
    | intro => exact paths_of_outputs houtputs
  | _ => rfl

theorem ofArguments_eq_ok {arguments : List String} {c : Command}
    (h : ofArguments arguments = .ok c) :
    ∃ verb values, read arguments = .ok (verb, values) ∧ ofValues? verb values = some c := by
  obtain ⟨found, hread, hc⟩ := bind_eq_ok.1 h
  refine ⟨found.1, found.2, hread, ?_⟩
  dsimp only at hc
  split at hc
  · next hvalues => cases hc; exact hvalues
  · cases hc

theorem outputPaths_of_verifies {verb : Verb} {values : Values} {c : Command}
    (hverb : verb = .verify ∨ verb = .verifyTable) (h : ofValues? verb values = some c) :
    c.outputPaths = [] := by
  obtain rfl | rfl := hverb <;> simp only [ofValues?, bind, Option.bind_eq_some_iff] at h
  · obtain ⟨_, -, _, -, _, -, _, -, h⟩ := h
    cases h
    rfl
  · obtain ⟨_, -, _, -, h⟩ := h
    cases h
    rfl

/-- The outputs of a command are those that its options name. -/
theorem outputPaths_subset {verb : Verb} {values : Values} {c : Command}
    (h : ofValues? verb values = some c) :
    ∀ path ∈ c.outputPaths, path ∈ outputOptions.filterMap fun name => values.lookup name := by
  have hgiven {name path : String} (hn : name ∈ outputOptions)
      (hp : values.lookup name = some path) :
      path ∈ outputOptions.filterMap fun name => values.lookup name :=
    List.mem_filterMap.2 ⟨name, hn, hp⟩
  cases verb with
  | generateTable =>
    simp only [ofValues?, bind, Option.bind_eq_some_iff] at h
    obtain ⟨path, hpath, h⟩ := h
    cases h
    exact List.forall_mem_singleton.2 (hgiven (by decide) hpath)
  | hash =>
    simp only [ofValues?, bind, Option.bind_eq_some_iff] at h
    obtain ⟨_, -, _, -, _, -, path, hpath, h⟩ := h
    cases h
    exact List.forall_mem_singleton.2 (hgiven (by decide) hpath)
  | keygen =>
    simp only [ofValues?, bind, Option.bind_eq_some_iff] at h
    obtain ⟨_, -, _, -, path, hpath, h⟩ := h
    cases h
    refine List.forall_mem_cons.2 ⟨hgiven (by decide) hpath, fun path hpublic => ?_⟩
    exact hgiven (by decide) (Option.mem_toList.1 hpublic)
  | sign =>
    simp only [ofValues?, bind, Option.bind_eq_some_iff] at h
    obtain ⟨_, -, _, -, _, -, path, hpath, h⟩ := h
    cases h
    exact List.forall_mem_singleton.2 (hgiven (by decide) hpath)
  | validationData =>
    simp only [ofValues?, bind, Option.bind_eq_some_iff] at h
    obtain ⟨_, -, _, -, _, -, _, -, _, -, h⟩ := h
    cases h
    refine List.forall_mem_append.2 ⟨fun path hhex => ?_, fun path hflat => ?_⟩
    · exact hgiven (by decide) (Option.mem_toList.1 hhex)
    · exact hgiven (by decide) (Option.mem_toList.1 hflat)
  | verify =>
    rw [outputPaths_of_verifies (Or.inl rfl) h]
    exact fun path hpath => by cases hpath
  | verifyTable =>
    rw [outputPaths_of_verifies (Or.inr rfl) h]
    exact fun path hpath => by cases hpath

end Command

/-! ## Runs -/

/-- An argument list with the fresh values of its run. -/
structure Invocation where
  fresh : Entropy
  arguments : List String

namespace Invocation

def outcome (r : Invocation) (t : FileTree) : Outcome := .ofArguments r.fresh t r.arguments

/-- The files that a run writes when it succeeds, with all of their content. -/
def Writes (r : Invocation) (t : FileTree) (outputs : List Output) : Prop :=
  ∃ c, Command.ofArguments r.arguments = .ok c ∧ c.Writes r.fresh t outputs

/-- What a run writes stands at paths that its arguments give. -/
theorem Writes.path_mem {r : Invocation} {t : FileTree} {outputs : List Output}
    (h : r.Writes t outputs) :
    ∀ o ∈ outputs, o.path ∈ Command.givenOutputs r.arguments := by
  obtain ⟨c, hc, hw⟩ := h
  obtain ⟨verb, values, hread, hvalues⟩ := Command.ofArguments_eq_ok hc
  intro o ho
  have hpath : o.path ∈ c.outputPaths := hw.paths ▸ List.mem_map_of_mem ho
  rw [Command.givenOutputs, hread]
  exact Command.outputPaths_subset hvalues _ hpath

/-- A run that verifies writes nothing. -/
theorem Writes.eq_nil {r : Invocation} {t : FileTree} {outputs : List Output}
    {verb : Command.Verb} {values : Command.Values} (h : r.Writes t outputs)
    (hread : Command.read r.arguments = .ok (verb, values))
    (hverb : verb = .verify ∨ verb = .verifyTable) : outputs = [] := by
  obtain ⟨c, hc, hw⟩ := h
  obtain ⟨verb', values', hread', hvalues⟩ := Command.ofArguments_eq_ok hc
  cases hread.symm.trans hread'
  exact List.map_eq_nil_iff.1 (hw.paths.trans (Command.outputPaths_of_verifies hverb hvalues))

/-- **A run leaves the whole of its outputs behind**, and nothing if it fails. -/
theorem outcome_leaves (r : Invocation) (t : FileTree) :
    (r.outcome t).tree.Same t ∨
      (r.outcome t).status = 0 ∧
        ∃ outputs, r.Writes t outputs ∧ FileTree.Written t outputs (r.outcome t).tree := by
  rw [outcome, Outcome.ofArguments]
  cases hc : Command.ofArguments r.arguments with
  | error stop => exact Or.inl (FileTree.Same.refl t)
  | ok c =>
    have hleaves := c.run_leaves r.fresh t
    dsimp only
    split
    · next hrun =>
      rw [hrun] at hleaves
      obtain ⟨outputs, hwrites, hwritten⟩ := hleaves
      exact Or.inr ⟨rfl, outputs, ⟨c, hc, hwrites⟩, hwritten⟩
    · next hrun =>
      rw [hrun] at hleaves
      exact Or.inl hleaves

end Invocation

/-! ### Sequences -/

namespace FileTree

/-- The tree after a number of runs. -/
def afterRuns (t : FileTree) (runs : List Invocation) : FileTree :=
  runs.foldl (fun t r => (r.outcome t).tree) t

/-- One of a number of runs succeeds and writes a whole file to a location, which its
    arguments name as an output. -/
inductive WrittenBy (t : FileTree) (l : Location) (content : Bytes) : List Invocation → Prop where
  | intro {before after : List Invocation} {r : Invocation} {outputs : List Output}
    {path : String} :
    (r.outcome (t.afterRuns before)).status = 0 → r.Writes (t.afterRuns before) outputs →
    ⟨path, content⟩ ∈ outputs → path ∈ Command.givenOutputs r.arguments →
    (t.afterRuns before).fileLocation? path = some l →
    entry? (r.outcome (t.afterRuns before)).tree l = some (.file content) →
    WrittenBy t l content (before ++ r :: after)

variable {t : FileTree} {l : Location}

theorem WrittenBy.cons {r : Invocation} {runs : List Invocation} {content : Bytes}
    (h : WrittenBy (r.outcome t).tree l content runs) : WrittenBy t l content (r :: runs) := by
  cases h with
  | @intro before after r' _ _ hstatus hwrites ho hgiven hpath hentry =>
    show WrittenBy t l content ((r :: before) ++ r' :: after)
    exact .intro hstatus hwrites ho hgiven hpath hentry

theorem WrittenBy.append {runs : List Invocation} {content : Bytes}
    (h : WrittenBy t l content runs) (later : List Invocation) :
    WrittenBy t l content (runs ++ later) := by
  cases h with
  | intro hstatus hwrites ho hgiven hpath hentry =>
    rw [List.append_assoc, List.cons_append]
    exact .intro hstatus hwrites ho hgiven hpath hentry

/-- What one run does at a location. -/
theorem entry?_outcome (t : FileTree) (r : Invocation) (l : Location) :
    entry? (r.outcome t).tree l = t.entry? l ∨
      t.entry? l ≠ some .directory ∧
      (∃ path ∈ Command.givenOutputs r.arguments, t.fileLocation? path = some l) ∧
      ∃ content, WrittenBy t l content [r] ∧
        entry? (r.outcome t).tree l = some (.file content) := by
  obtain hsame | ⟨hstatus, outputs, hwrites, hwritten⟩ := r.outcome_leaves t
  · exact Or.inl (hsame.entry? l)
  · obtain hl | ⟨o, ho, hpath, hne, hentry⟩ := hwritten.entry?_cases l
    · exact Or.inl hl
    · have hgiven := hwrites.path_mem o ho
      have hby : WrittenBy t l o.content ([] ++ [r]) :=
        .intro hstatus hwrites ho hgiven hpath hentry
      exact Or.inr ⟨hne, ⟨o.path, hgiven, hpath⟩, o.content, hby, hentry⟩

/-- What a number of runs does at a location, by induction on them: the last one that
    changes it has written a whole file there. -/
theorem entry?_afterRuns (t : FileTree) (runs : List Invocation) (l : Location) :
    entry? (t.afterRuns runs) l = t.entry? l ∨
      ∃ content, WrittenBy t l content runs ∧
        entry? (t.afterRuns runs) l = some (.file content) := by
  induction runs generalizing t with
  | nil => exact Or.inl rfl
  | cons r runs ih =>
    obtain hlater | ⟨content, hwritten, hentry⟩ := ih (r.outcome t).tree
    · obtain hfirst | ⟨-, -, content, hwritten, hentry⟩ := entry?_outcome t r l
      · exact Or.inl (hlater.trans hfirst)
      · exact Or.inr ⟨content, hwritten.append runs, hlater.trans hentry⟩
    · exact Or.inr ⟨content, hwritten.cons, hentry⟩

end FileTree

/-- **Runs leave whole files or nothing.** A run that fails leaves every location as it was,
    and so does any run of the two commands that verify. A run that succeeds leaves every
    location as it was but those that its own outputs lead to, and there is a file at
    these. So after any number of runs a location is as it was at first, or holds the whole
    content that one successful run has written to it. -/
theorem runs_leave_whole_files :
    (∀ (t : FileTree) (r : Invocation),
      ((r.outcome t).status ≠ 0 → (r.outcome t).tree.Same t) ∧
      (∀ verb values, Command.read r.arguments = .ok (verb, values) →
        verb = .verify ∨ verb = .verifyTable → (r.outcome t).tree.Same t) ∧
      ((r.outcome t).status = 0 → (r.outcome t).tree.working = t.working ∧
        ∀ l, FileTree.entry? (r.outcome t).tree l = t.entry? l ∨
          t.entry? l ≠ some .directory ∧
          (∃ path ∈ Command.givenOutputs r.arguments, t.fileLocation? path = some l) ∧
          ∃ content, FileTree.entry? (r.outcome t).tree l = some (.file content))) ∧
    ∀ (t : FileTree) (runs : List Invocation) (l : Location),
      FileTree.entry? (t.afterRuns runs) l = t.entry? l ∨
        ∃ content, t.WrittenBy l content runs ∧
          FileTree.entry? (t.afterRuns runs) l = some (.file content) := by
  refine ⟨fun t r => ⟨fun hstatus => ?_, fun verb values hread hverb => ?_, fun hstatus => ?_⟩,
    FileTree.entry?_afterRuns⟩
  · obtain hsame | ⟨hzero, -⟩ := r.outcome_leaves t
    · exact hsame
    · exact absurd hzero hstatus
  · obtain hsame | ⟨-, outputs, hwrites, hwritten⟩ := r.outcome_leaves t
    · exact hsame
    · rw [hwrites.eq_nil hread hverb] at hwritten
      exact FileTree.written_nil.1 hwritten
  · refine ⟨?_, fun l => ?_⟩
    · obtain hsame | ⟨-, outputs, -, hwritten⟩ := r.outcome_leaves t
      · exact hsame.working
      · exact hwritten.working
    · obtain hl | ⟨hne, hpath, content, -, hentry⟩ := FileTree.entry?_outcome t r l
      · exact Or.inl hl
      · exact Or.inr ⟨hne, hpath, content, hentry⟩

/-! ## A digest, and a check that fails -/

namespace ZeroSignature

/-- A digest of the image that the signature is for. -/
def digestRun : Invocation :=
  ⟨fresh, ["hash", "--algorithm", "sha256", "--input", "i", "--output", "o"]⟩

/-- A digest that cannot be written, as there is no such directory. -/
def misplacedRun : Invocation :=
  ⟨fresh, ["hash", "--algorithm", "sha256", "--input", "i", "--output", "d/o"]⟩

/-- The check of the signature. -/
def checkRun : Invocation := ⟨fresh, arguments⟩

/-- The digest comes to its place and stays there, and all else stays as it was. -/
theorem digest_stays :
    (digestRun.outcome tree).status = 0 ∧ (misplacedRun.outcome tree).status ≠ 0 ∧
    FileTree.entry? (digestRun.outcome tree).tree ["i"] = some (.file [1, 2, 3]) ∧
    (misplacedRun.outcome tree).tree.Same tree ∧ (checkRun.outcome tree).tree.Same tree ∧
    ∃ content, tree.WrittenBy ["o"] content [digestRun, checkRun, misplacedRun] ∧
      FileTree.entry? (tree.afterRuns [digestRun, checkRun, misplacedRun]) ["o"] =
        some (.file content) := by
  have hdigest : (digestRun.outcome tree).status = 0 := by decide +kernel
  have hmisplaced : (misplacedRun.outcome tree).status ≠ 0 := by decide +kernel
  have hread : Command.read checkRun.arguments = .ok (.verify, [("algorithm", "p256"),
      ("public-key", "k"), ("input", "i"), ("signature", "s")]) :=
    eq_ok_of_toOption (by decide +kernel)
  have hgiven : Command.givenOutputs digestRun.arguments = ["o"] := by decide +kernel
  have hpath : tree.fileLocation? "o" = some ["o"] := by decide +kernel
  have hwritten : Option.isSome
      (FileTree.entry? (tree.afterRuns [digestRun, checkRun, misplacedRun]) ["o"]) = true := by
    decide +kernel
  obtain ⟨hrun, hruns⟩ := runs_leave_whole_files
  refine ⟨hdigest, hmisplaced, ?_, (hrun tree misplacedRun).1 hmisplaced,
    (hrun tree checkRun).2.1 _ _ hread (Or.inl rfl), ?_⟩
  · obtain ⟨-, hentry⟩ := (hrun tree digestRun).2.2 hdigest
    obtain hsame | ⟨-, ⟨path, hmem, hl⟩, -⟩ := hentry ["i"]
    · exact hsame
    · rw [hgiven, List.mem_singleton] at hmem
      rw [hmem, hpath] at hl
      exact absurd hl (by decide)
  · obtain hsame | hwhole := hruns tree [digestRun, checkRun, misplacedRun] ["o"]
    · rw [hsame] at hwritten
      cases hwritten
    · exact hwhole

end ZeroSignature

end BootSeal
