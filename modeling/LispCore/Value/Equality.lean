import LispCore.Value.Basic

/-!
# Equality of values

Values of different kinds differ. Numbers, texts and symbols compare by content, pairs and arrays by
their components whatever their marks, everything with an identity by that identity. Floats compare
as numbers, so the two zeros agree, and a float that is not a number equals only the one of the same
mark.
-/

namespace LispCore

def Flonum.equal : Flonum → Flonum → Bool
  | .number x, .number y => x.sameNumber y
  | .nan m, .nan n => m == n
  | _, _ => false

namespace Value

mutual

def equal : Value → Value → Bool
  | .nil, .nil => true
  | .integer m, .integer n => m == n
  | .float x, .float y => x.equal y
  | .string s, .string t => s == t
  | .symbol s, .symbol t => s == t
  | .pair _ a b, .pair _ c d => a.equal c && b.equal d
  | .mapping i, .mapping j => i == j
  | .array _ xs, .array _ ys => equalItems xs ys
  | .closure m .., .closure n .. => m == n
  | .native p, .native q => p.mark == q.mark
  | .promise i, .promise j => i == j
  | _, _ => false

def equalItems : List Value → List Value → Bool
  | [], [] => true
  | x :: xs, y :: ys => x.equal y && equalItems xs ys
  | _, _ => false

end

end Value

end LispCore
