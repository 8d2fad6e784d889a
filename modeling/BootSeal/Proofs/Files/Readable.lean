/-
  BootSeal — what was written is read again: keys, and images with their blocks.

  * `FileTree.Written.readBytes_two`: of two outputs the later one is at its path, and so
    is the earlier one unless both paths lead to one file;
  * `FileTree.artifacts_readable`: hence the later artifact of a call, the public key or
    the flat bytes, is always there, and the earlier one, the private key or the Intel Hex
    text, unless it shares its file (`FileTree.private_key_lost`).
-/
import BootSeal.Proofs.Files.Artifacts
import BootSeal.Proofs.Files.Sealing
import BootSeal.Proofs.Key.Pem

namespace BootSeal

namespace FileTree

variable {t t' : FileTree}

/-! ## Two outputs -/

/-- **The later of two outputs is at its path**, and the earlier one too, unless both paths
    lead to one file. -/
theorem Written.readBytes_two {first second : Option Output}
    (h : Written t (first.toList ++ second.toList) t') :
    (∀ o ∈ second, t'.readBytes o.path = .ok o.content) ∧
    ∀ o ∈ first,
      (∀ o' ∈ second, t.fileLocation? o'.path = t.fileLocation? o.path →
        t'.readBytes o.path = .ok o'.content) ∧
      ((∀ o' ∈ second, t.fileLocation? o'.path ≠ t.fileLocation? o.path) →
        t'.readBytes o.path = .ok o.content) := by
  have hlocation := h.sameDirectories.fileLocation?
  have hsecond : ∀ o ∈ second, ∃ l, t.fileLocation? o.path = some l ∧
      t'.entry? l = some (.file o.content) := by
    rintro o rfl
    obtain ⟨l, hl, -⟩ := h.takes o (by simp)
    exact ⟨l, hl, (h.last hl (fun o' ho' => by cases ho')).1⟩
  refine ⟨fun o ho => ?_, fun o ho => ⟨fun o' ho' hsame => ?_, fun hother => ?_⟩⟩
  · obtain ⟨l, hl, hentry⟩ := hsecond o ho
    exact readBytes_eq_ok.2 ⟨l, (hlocation _).trans hl, hentry⟩
  · obtain ⟨l, hl, hentry⟩ := hsecond o' ho'
    exact readBytes_eq_ok.2 ⟨l, (hlocation _).trans (hsame.symm.trans hl), hentry⟩
  · cases ho
    obtain ⟨l, hl, -⟩ := h.takes o (by simp)
    have h' : Written t ([] ++ o :: second.toList) t' := h
    refine (h'.last hl fun o' ho' => ?_).2
    exact hl ▸ hother o' (Option.mem_toList.1 ho')

/-! ## Artifacts -/

section
variable {key : PrivateKey} {path : String} {publicPath : Option String}
  {format : PublicKeyFormat}

theorem writeKeys_eq_ok (h : t.writeKeys key path publicPath format = (t', .ok ())) :
    (∀ p ∈ publicPath, t'.readBytes p = .ok (key.publicKey.toFile format)) ∧
    (∀ p ∈ publicPath, t.fileLocation? p = t.fileLocation? path →
      t'.readBytes path = .ok (key.publicKey.toFile format)) ∧
    ((∀ p ∈ publicPath, t.fileLocation? p ≠ t.fileLocation? path) →
      t'.readText path = .ok key.toPem) := by
  have hwritten : Written t ((some ⟨path, textContent key.toPem⟩ : Option Output).toList ++
      (publicPath.map fun p => ⟨p, key.publicKey.toFile format⟩).toList) t' := persist_eq_ok h
  obtain ⟨hpublic, hprivate⟩ := hwritten.readBytes_two
  obtain ⟨hsame, hother⟩ := hprivate _ rfl
  simp only [Option.mem_def, Option.map_eq_some_iff, forall_exists_index, and_imp,
    forall_apply_eq_imp_iff₂] at hpublic hsame hother
  exact ⟨hpublic, hsame, fun hne => readText_of_readBytes (hother hne)⟩

end

theorem readable_of_writeSealed {r : SealRequest} {s : SealedImage} (hr : r.image.Canonical)
    (h : t.writeSealed r = (t', .ok s)) :
    (∀ p ∈ r.flatPath, t'.readBytes p = .ok s.image.flatten) ∧
    ∀ path ∈ r.hexPath,
      (∀ p ∈ r.flatPath, t.fileLocation? p = t.fileLocation? path →
        t'.readBytes path = .ok s.image.flatten) ∧
      ((∀ p ∈ r.flatPath, t.fileLocation? p ≠ t.fileLocation? path) →
        ∃ text, t'.readText path = .ok text ∧ IntelHex.read text = .ok s.image) := by
  obtain ⟨outputs, hrun, houtputs, hpersist⟩ := writeSealed_eq_ok h
  obtain ⟨text, htext, rfl⟩ := SealRequest.outputs_eq_ok houtputs
  obtain ⟨-, -, hembed⟩ := SealRequest.run_eq_ok hrun
  have hcanonical : s.image.Canonical := hr.insert (Image.embed_eq_ok hembed).2
  obtain ⟨hflat, hhex⟩ := (persist_eq_ok hpersist).readBytes_two
  simp only [Option.mem_def, Option.map_eq_some_iff, forall_exists_index, and_imp,
    forall_apply_eq_imp_iff₂] at hflat hhex
  refine ⟨hflat, fun path hpath => ?_⟩
  obtain ⟨hsame, hother⟩ := hhex path hpath
  refine ⟨hsame, fun hne => ⟨text, readText_of_readBytes (hother hne), ?_⟩⟩
  exact IntelHex.read_of_toHex hcanonical (htext (Option.isSome_iff_exists.2 ⟨path, hpath⟩))

/-- **Artifacts are readable.** If keys are written, the public key is in its file, and the
    private key is read from its own. If an image is sealed, its flat bytes are in their
    file, and the image is read from its Intel Hex file. The exception is a call whose two
    paths lead to one file: that file holds the later artifact only. -/
theorem artifacts_readable (t t' : FileTree) :
    (∀ (key : PrivateKey) (path : String) (publicPath : Option String) (format : PublicKeyFormat),
      t.writeKeys key path publicPath format = (t', .ok ()) →
      (∀ p ∈ publicPath, t'.readBytes p = .ok (key.publicKey.toFile format)) ∧
      (∀ p ∈ publicPath, t.fileLocation? p = t.fileLocation? path →
        t'.readBytes path = .ok (key.publicKey.toFile format)) ∧
      ((∀ p ∈ publicPath, t.fileLocation? p ≠ t.fileLocation? path) →
        ∃ text, t'.readText path = .ok text ∧ PrivateKey.ofPem text = .ok key)) ∧
    ∀ (r : SealRequest) (s : SealedImage), r.image.Reachable → t.writeSealed r = (t', .ok s) →
      (∀ p ∈ r.flatPath, t'.readBytes p = .ok s.image.flatten) ∧
      ∀ path ∈ r.hexPath,
        (∀ p ∈ r.flatPath, t.fileLocation? p = t.fileLocation? path →
          t'.readBytes path = .ok s.image.flatten) ∧
        ((∀ p ∈ r.flatPath, t.fileLocation? p ≠ t.fileLocation? path) →
          ∃ text, t'.readText path = .ok text ∧ IntelHex.read text = .ok s.image) := by
  refine ⟨fun key path publicPath format h => ?_, fun r s hr h =>
    readable_of_writeSealed hr.canonical h⟩
  obtain ⟨hpublic, hsame, hother⟩ := writeKeys_eq_ok h
  exact ⟨hpublic, hsame, fun hne => ⟨key.toPem, hother hne, key.ofPem_toPem⟩⟩

/-! ## Two files, and one for both -/

/-- The request to write three bytes with a block in both forms. -/
def bothForms : SealRequest :=
  ⟨ThreeBytes.image, ThreeBytes.key, List.replicate 64 0, ⟨1, 2, 3⟩, none, some "h", some "f", false⟩

/-- A key and an image, each of them in two files. -/
theorem artifacts_readable_apart : ∃ t₁ t₂ s,
    writeKeys ⟨[], []⟩ (.ed25519 ThreeBytes.seed) "k" (some "p") .raw = (t₁, .ok ()) ∧
    t₁.readBytes "p" = .ok (PrivateKey.ed25519 ThreeBytes.seed).publicKey.toRaw ∧
    (∃ text, t₁.readText "k" = .ok text ∧
      PrivateKey.ofPem text = .ok (.ed25519 ThreeBytes.seed)) ∧
    writeSealed ⟨[], []⟩ bothForms = (t₂, .ok s) ∧
    t₂.readBytes "f" = .ok s.image.flatten ∧
    ∃ text, t₂.readText "h" = .ok text ∧ IntelHex.read text = .ok s.image := by
  have hkeys : (writeKeys ⟨[], []⟩ (.ed25519 ThreeBytes.seed) "k" (some "p") .raw).2.toBool =
      true := by decide +kernel
  have hsealed : (writeSealed ⟨[], []⟩ bothForms).2.toBool = true := by decide +kernel
  obtain ⟨t₁, _, hkeys⟩ := exists_eq_mk_ok_of_toBool hkeys
  obtain ⟨t₂, s, hsealed⟩ := exists_eq_mk_ok_of_toBool hsealed
  obtain ⟨hpublic, -, hprivate⟩ := (artifacts_readable _ _).1 _ _ _ _ hkeys
  obtain ⟨hflat, hhex⟩ := (artifacts_readable _ _).2 _ _ ⟨_, rfl⟩ hsealed
  have hapart : ∀ p ∈ some "p", fileLocation? ⟨[], []⟩ p ≠ fileLocation? ⟨[], []⟩ "k" := by
    decide +kernel
  have hapart' : ∀ p ∈ some "f", fileLocation? ⟨[], []⟩ p ≠ fileLocation? ⟨[], []⟩ "h" := by
    decide +kernel
  exact ⟨t₁, t₂, s, hkeys, hpublic "p" rfl, hprivate hapart, hsealed, hflat "f" rfl,
    (hhex "h" rfl).2 hapart'⟩

/-- With one file for both halves, a private key is lost in a call that succeeds. -/
theorem private_key_lost : ¬ ∀ (t t' : FileTree) (key : PrivateKey) (path : String)
    (publicPath : Option String) (format : PublicKeyFormat),
    t.writeKeys key path publicPath format = (t', .ok ()) →
    (∃ text, t'.readText path = .ok text ∧ PrivateKey.ofPem text = .ok key) ∧
      ∀ p ∈ publicPath, t'.readBytes p = .ok (key.publicKey.toFile format) := by
  intro h
  have hwrite : (writeKeys ⟨[], []⟩ (.ed25519 ThreeBytes.seed) "k" (some "k") .pem).2.toBool =
      true := by decide +kernel
  obtain ⟨t', _, hwrite⟩ := exists_eq_mk_ok_of_toBool hwrite
  -- Any key would do.
  generalize PrivateKey.ed25519 ThreeBytes.seed = key at hwrite
  obtain ⟨⟨text, hread, hkey⟩, -⟩ := h _ _ _ _ _ _ hwrite
  have hbytes : t'.readBytes "k" = .ok (textContent key.publicKey.toPem) :=
    (writeKeys_eq_ok hwrite).2.1 "k" rfl rfl
  rw [readText_of_readBytes hbytes] at hread
  cases hread
  rw [PrivateKey.ofPem_publicKey] at hkey
  cases hkey

end FileTree

end BootSeal
