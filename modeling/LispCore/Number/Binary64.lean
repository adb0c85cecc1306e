/-!
# Binary64 words

A floating-point number is kept as its 64-bit word. Everything said about it here is computed in
exact natural-number arithmetic from the number the word denotes, `± mantissa * 2 ^ exponent` for a
finite word, so no floating-point operation is ever run.
-/

namespace LispCore

/-- The quotient `num / den` rounded to a whole number, a half going to the even neighbour. -/
def roundHalfEven (num den : Nat) : Nat :=
  let below := num / den
  let twice := 2 * (num % den)
  if twice < den then below
  else if den < twice then below + 1
  else below + below % 2

/-- A number in the binary64 interchange format, as its bits. -/
structure Binary64 where
  bits : UInt64
  deriving DecidableEq

namespace Binary64

def negative (x : Binary64) : Bool := Nat.pow 2 63 ≤ x.bits.toNat

/-- The biased exponent, the eleven bits below the sign. -/
def field (x : Binary64) : Nat := x.bits.toNat / Nat.pow 2 52 % Nat.pow 2 11

/-- The lowest fifty-two bits. -/
def fraction (x : Binary64) : Nat := x.bits.toNat % Nat.pow 2 52

def isNaN (x : Binary64) : Bool := x.field == 2047 && x.fraction != 0

def isInfinite (x : Binary64) : Bool := x.field == 2047 && x.fraction == 0

def mantissa (x : Binary64) : Nat :=
  if x.field = 0 then x.fraction else x.fraction + Nat.pow 2 52

/-- The power of two that a finite word's mantissa is multiplied by. -/
def exponent (x : Binary64) : Int := (max x.field 1 : Nat) - 1075

def isZero (x : Binary64) : Bool := x.field == 0 && x.fraction == 0

/-- Numerical equality of words that are not NaN: the two zeros agree, else the bits decide. -/
def sameNumber (x y : Binary64) : Bool := x.bits == y.bits || (x.isZero && y.isZero)

/-- The whole number nearest words denote, ties to even; none when it is out of range.

With `size` between `2 ^ top` and `2 ^ (top + 1)` the mantissa counts units of `2 ^ (top - 52)`.
A mantissa rounded up to `2 ^ 53` carries into the exponent field by itself. -/
def ofInt? (n : Int) : Option Binary64 :=
  let size := n.natAbs
  let sign := if n < 0 then Nat.pow 2 63 else 0
  if size = 0 then some ⟨0⟩
  else
    let top := size.log2
    let mantissa :=
      if top ≤ 52 then size * Nat.pow 2 (52 - top) else roundHalfEven size (Nat.pow 2 (top - 52))
    let word := (top + 1023) * Nat.pow 2 52 + (mantissa - Nat.pow 2 52)
    if word < 2047 * Nat.pow 2 52 then some ⟨UInt64.ofNat (sign + word)⟩ else none

end Binary64

end LispCore
