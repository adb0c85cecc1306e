import LispCore.Number.Binary64

/-!
# Decimal text of binary64 numbers

Two texts of a finite number: a fixed count of decimal places, rounded from the exact value, and the
fewest significant digits that still round back to the same word. For the second, a number is
compared with the two points beside it on each decimal grid, coarsest first. The real numbers that
round to the word lie between the midpoints towards its neighbours, and the midpoints themselves
belong to it when its mantissa is even.
-/

namespace LispCore

/-- The text of `n` in at least `width` decimal digits. -/
def paddedDigits (width n : Nat) : String :=
  let digits := toString n
  "".pushn '0' (width - digits.length) ++ digits

/-- The number `digits * 10 ^ exponent`. -/
structure Decimal where
  digits : Nat
  exponent : Int
  deriving DecidableEq

/-- The whole number `d` with `10 ^ d ≤ num / den < 10 ^ (d + 1)`, for positive `num` and `den`. -/
def decimalOrder (num den : Nat) : Int :=
  if den ≤ num then ((toString (num / den)).length : Int) - 1
  else
    let gap := (toString den).length - (toString num).length
    if den ≤ num * Nat.pow 10 gap then -(gap : Int) else -(gap : Int) - 1

namespace Binary64

/-- The absolute value of a finite word as a fraction of quarter units in the last place:
four times the mantissa, over a common denominator. -/
structure Quarters where
  /-- Quarters of the unit in the last place. -/
  count : Nat
  /-- A quarter is `num / den`. -/
  num : Nat
  den : Nat

def quarters (x : Binary64) : Quarters where
  count := 4 * x.mantissa
  num := Nat.pow 2 (x.exponent - 2).toNat
  den := Nat.pow 2 (2 - x.exponent).toNat

/-- The distance in quarters from a word down to the midpoint towards its lower neighbour. Below a
power of two the neighbours lie twice as dense. -/
def lowerGap (x : Binary64) : Nat := if x.fraction = 0 ∧ 1 < x.field then 1 else 2

/-- The point nearest to a positive finite word on the grid of multiples of `10 ^ place`, if it
rounds to that word. Of two such points at equal distance the even one is taken. -/
def gridPoint? (x : Binary64) (place : Int) : Option Nat :=
  let q := x.quarters
  let up := q.num * Nat.pow 10 (-place).toNat
  let down := q.den * Nat.pow 10 place.toNat
  let rounds (n : Nat) : Bool :=
    let low := (q.count - x.lowerGap) * up
    let high := (q.count + 2) * up
    if x.mantissa % 2 = 0 then low ≤ n * down && n * down ≤ high
    else low < n * down && n * down < high
  let below := q.count * up / down
  let nearest := roundHalfEven (q.count * up) down
  if rounds nearest then some nearest
  else if rounds below then some below
  else if rounds (below + 1) then some (below + 1)
  else none

/-- The digits of the coarsest grid that has a point for the word: `count` digits at first, one
more at each step. Seventeen always suffice. -/
def shortestFrom (x : Binary64) (order : Int) : (steps count : Nat) → Decimal
  | 0, count => ⟨(x.gridPoint? (order - count)).getD 0, order - count⟩
  | steps + 1, count =>
    match x.gridPoint? (order - count) with
    | some digits => ⟨digits, order - count⟩
    | none => x.shortestFrom order steps (count + 1)

/-- The decimal with the fewest digits that rounds to a positive finite word; of those the nearest. -/
def shortest (x : Binary64) : Decimal :=
  let q := x.quarters
  x.shortestFrom (decimalOrder (q.count * q.num) q.den) 17 0

/-- The text of a finite word with `places` decimals, rounded half to even on the exact value. -/
def fixed (places : Nat) (x : Binary64) : String :=
  let q := x.quarters
  let scaled := roundHalfEven (q.count * q.num * Nat.pow 10 places) q.den
  (if x.negative then "-" else "") ++ toString (scaled / Nat.pow 10 places) ++ "." ++
    paddedDigits places (scaled % Nat.pow 10 places)

end Binary64

namespace Decimal

/-- Removes the zeros that end the digits, at most `steps` of them. -/
def trim : (steps : Nat) → Decimal → Decimal
  | 0, d => d
  | steps + 1, d =>
    if d.digits ≠ 0 ∧ d.digits % 10 = 0 then trim steps ⟨d.digits / 10, d.exponent + 1⟩ else d

/-- Digits around a decimal point while the first digit stands for at least `10 ^ -4` and less than
`10 ^ 16`, with at least one digit on each side; otherwise one digit, the others behind a point, and
an exponent of at least two digits with its sign. -/
def text (d : Decimal) : String :=
  let d := d.trim 20
  let digits := toString d.digits
  let point := (digits.length : Int) + d.exponent
  if -4 < point ∧ point ≤ 16 then
    if point ≤ 0 then "0." ++ "".pushn '0' (-point).toNat ++ digits
    else if (digits.length : Int) ≤ point then
      digits ++ "".pushn '0' (point - digits.length).toNat ++ ".0"
    else
      String.ofList (digits.toList.take point.toNat) ++ "." ++
        String.ofList (digits.toList.drop point.toNat)
  else
    let power := point - 1
    let lead := String.ofList (digits.toList.take 1)
    let others := String.ofList (digits.toList.drop 1)
    lead ++ (if others.isEmpty then "" else "." ++ others) ++ "e" ++
      (if power < 0 then "-" else "+") ++ paddedDigits 2 power.natAbs

end Decimal

namespace Binary64

/-- The shortest text that reads back as the same finite word. -/
def shortestText (x : Binary64) : String :=
  (if x.negative then "-" else "") ++ (if x.isZero then "0.0" else x.shortest.text)

end Binary64

end LispCore
