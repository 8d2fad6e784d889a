/-
  BootSeal — numbers in text: digits in a radix, 32-bit words with an optional
  sign or radix mark, and fixed-width hexadecimal.
-/

namespace BootSeal.Text

/-! ## Reading -/

/-- The value of an ASCII digit or letter as a digit in `radix`. -/
def digit? (radix : Nat) (c : Char) : Option Nat :=
  let value :=
    if '0' ≤ c ∧ c ≤ '9' then some (c.toNat - '0'.toNat)
    else if 'a' ≤ c ∧ c ≤ 'z' then some (c.toNat - 'a'.toNat + 10)
    else if 'A' ≤ c ∧ c ≤ 'Z' then some (c.toNat - 'A'.toNat + 10)
    else none
  value.filter (· < radix)

/-- An ASCII hexadecimal digit. -/
def isHexDigit (c : Char) : Bool := (digit? 16 c).isSome

/-- The number that a nonempty run of digits denotes, of any length. -/
def ofDigits? (radix : Nat) (digits : List Char) : Option Nat :=
  if digits.isEmpty then none
  else digits.foldlM (fun n c => (digit? radix c).map (radix * n + ·)) 0

/-- A number below `2 ^ 32` in `radix`, with an optional plus sign. -/
def word? (radix : Nat) (s : List Char) : Option UInt32 :=
  let digits := if s.head? = some '+' then s.tail else s
  ((ofDigits? radix digits).filter (· < 0x100000000)).map UInt32.ofNat

/-- The text after a hexadecimal mark, `0x` or `0X`. -/
def afterHexMark? : List Char → Option (List Char)
  | '0' :: 'x' :: rest => some rest
  | '0' :: 'X' :: rest => some rest
  | _ => none

/-- A 32-bit word: hexadecimal after a mark, decimal without one. -/
def markedWord? (s : List Char) : Option UInt32 :=
  match afterHexMark? s with
  | some digits => word? 16 digits
  | none => word? 10 s

/-! ## Writing -/

/-- Lower-case hexadecimal, filled with zeros on the left up to `width` digits. -/
def hexPadded (width n : Nat) : String :=
  let digits := Nat.toDigits 16 n
  String.ofList (List.replicate (width - digits.length) '0' ++ digits)

/-- An address as it stands in messages: a mark and at least eight digits. -/
def address (n : Nat) : String := "0x" ++ hexPadded 8 n

/-- A number as it stands in messages: a mark and as many digits as it needs. -/
def marked (n : Nat) : String := "0x" ++ hexPadded 1 n

/-- The upper-case digit of a value below 16. -/
def upperDigit (n : Nat) : Char := (Nat.digitChar n).toUpper

end BootSeal.Text
