/-!
# Decimal text of integers

Integers have any size, but only so many digits are written or read. A text that would need more is
refused, and so is a text that would open too many parts inside one another; these are the two
reasons for which a value has no text.
-/

namespace LispCore

/-- Why something has no text. -/
inductive Unwritable where
  /-- Too many parts of it lie inside one another. -/
  | tooDeep
  /-- An integer in it has too many digits. -/
  | tooManyDigits
  deriving DecidableEq

/-- What writing a text gives: the text, or the first reason met for having none. -/
abbrev Written (α : Type) := Except Unwritable α

/-- The most digits that an integer may be written or read with, leading zeros included. -/
def digitLimit : Nat := 4300

/-- The least number with more digits than the limit. The exponents are small, so that proofs can
compute it. -/
def digitBound : Nat := Nat.pow (Nat.pow 10 100) 43

/-- The digits of an integer, after a minus sign if it is negative; the sign is not counted. -/
def integerText (n : Int) : Written String :=
  if n.natAbs < digitBound then .ok (toString n) else .error .tooManyDigits

end LispCore
