/-
  BootSeal — a text that was written to a file is read from it.

  * `FileTree.readText_of_readBytes`: the content of a text is read as that text;
  * `FileTree.writeHex_eq_ok`: an Intel Hex file that was written is there, and its text
    gives the image back.
-/
import BootSeal.Proofs.Files.Persist
import BootSeal.Proofs.IntelHex.RoundTrip
import BootSeal.Proofs.Text.Utf8

namespace BootSeal

/-! ## Texts -/

namespace FileTree

variable {t t' : FileTree} {path : String}

theorem readText_of_readBytes {text : String} (h : t.readBytes path = .ok (textContent text)) :
    t.readText path = .ok text := by
  refine bind_eq_ok.2 ⟨textContent text, h, ?_⟩
  rw [textContent, Text.fromUTF8?_toList_toUTF8]
  rfl

end FileTree

/-! ## Images -/

theorem IntelHex.read_of_toHex {img : Image} (h : img.Canonical) {text : String}
    (ht : img.toHex = .ok text) : read text = .ok img := by
  obtain ⟨written, hwrite, hread⟩ := read_write h
  rw [Image.toHex, hwrite] at ht
  cases ht
  exact hread

namespace FileTree

variable {t t' : FileTree} {path : String}

/-- **An image that was written as Intel Hex is read back.** -/
theorem writeHex_eq_ok {img : Image} (h : img.Canonical)
    (hw : t.writeHex path img = (t', .ok ())) :
    ∃ text, t'.readText path = .ok text ∧ IntelHex.read text = .ok img := by
  rw [writeHex] at hw
  split at hw
  · next text htext =>
    have hwritten : Written t ([] ++ [⟨path, textContent text⟩]) t' := persist_eq_ok hw
    obtain ⟨l, hl, -⟩ := hwritten.takes _ List.mem_cons_self
    exact ⟨text, readText_of_readBytes (hwritten.last hl fun o ho => by cases ho).2,
      IntelHex.read_of_toHex h htext⟩
  · cases hw

theorem writeHex_eq_error {img : Image} {e : Error} (h : t.writeHex path img = (t', .error e)) :
    t'.Same t := by
  rw [writeHex] at h
  split at h
  · exact persist_eq_error h
  · cases h
    exact Same.refl _

end FileTree

end BootSeal
