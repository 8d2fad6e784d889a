/-
  BootSeal — repeated addition: the sum of `n` copies of an element, by doubling
  and adding along the bits of `n`. Written for a product, it is a power.

  * `multiple`: the sum;
  * `Residue.power`, `Residue.inverse`: powers of residues, and the inverse
    modulo a prime as a power.
-/

namespace BootSeal

/-- The bits of a number, most significant first. -/
def bitsOf (n : Nat) : List Bool := (List.range (n.log2 + 1)).reverse.map n.testBit

/-- The sum of `n` copies of `x`, for an addition with the neutral element
    `zero`. -/
def multiple {α : Type} (add : α → α → α) (zero : α) (n : Nat) (x : α) : α :=
  (bitsOf n).foldl
    (fun sum bit => let double := add sum sum; if bit then add double x else double) zero

namespace Residue

variable {m : Nat}

/-- The power of a residue. -/
def power (x : Fin m) (n : Nat) : Fin m := multiple (· * ·) ⟨1 % m, Nat.mod_lt 1 x.pos⟩ n x

/-- The inverse of a residue other than zero, modulo a prime: by Fermat's little
    theorem the product with the element is its power `m - 1`, which is one. -/
def inverse (x : Fin m) : Fin m := power x (m - 2)

end Residue

end BootSeal
