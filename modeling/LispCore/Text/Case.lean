/-!
# Letter case

Settings are compared without regard to case, against words in plain ASCII letters. For that it is
enough to know the characters whose small or capital form is made of ASCII letters: the ASCII letters
themselves, the Kelvin sign, the dotless i, the long s, the sharp s and the ligatures of f and s. All
others are left as they are and match no such word.
-/

namespace LispCore

def smallForm (c : Char) : Char := if c.toNat = 0x212a then 'k' else c.toLower

/-- The code points outside ASCII whose capital form lies within it. -/
def capitalForms : List (Nat × String) :=
  [(0xdf, "SS"), (0x131, "I"), (0x17f, "S"), (0xfb00, "FF"), (0xfb01, "FI"), (0xfb02, "FL"),
    (0xfb03, "FFI"), (0xfb04, "FFL"), (0xfb05, "ST"), (0xfb06, "ST")]

def capitalForm (c : Char) : List Char :=
  match capitalForms.find? (·.1 == c.toNat) with
  | some (_, capitals) => capitals.toList
  | none => [c.toUpper]

end LispCore
