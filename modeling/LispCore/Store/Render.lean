import LispCore.Number.Decimal
import LispCore.Store.Basic
import LispCore.Text.Integer

/-!
# Rendering

The short text of a value that journal records quote. Lists are flat, nil inside them is an
underscore, strings stand between plain double quotes, floats have six decimals, a promise shows its
result or else its expression, and everything without a written form is `???`.

Rendering opens pairs and promises inside one another, each element of a list inside the one before
it, only to a given depth, and has no text when that does not suffice. So a long list has none where
little depth is left, and a promise that reaches itself through its own result has none at all. What
has no text is met from left to right, and the first reason counts.
-/

namespace LispCore

/-- Six decimals, or a word for what has none. -/
def Flonum.fixedText : Flonum → String
  | .nan _ => "nan"
  | .number x => if x.isInfinite then (if x.negative then "-inf" else "inf") else x.fixed 6

namespace Value

/-- Where a value stands: on its own, or behind the elements of a list. -/
inductive Position where
  | alone | tail

/-- The text of a value that is neither nil nor a pair, behind a dot if it ends a list. -/
def Position.place : Position → String → String
  | .alone, text => text
  | .tail, text => ". " ++ text ++ ")"

/-- The text of a value, given the texts of the parts of a pair and of what each promise shows. -/
def renderWith (inside : Position → Value → Written String)
    (opened : PromiseId → Written String) : Position → Value → Written String
  | .alone, .nil => .ok "(_)"
  | .tail, .nil => .ok "_)"
  | .alone, .pair _ first rest => do
    let head ← inside .alone first
    let tail ← inside .tail rest
    .ok ("(" ++ head ++ " " ++ tail)
  | .tail, .pair _ first rest => do
    let head ← inside .alone first
    let tail ← inside .tail rest
    .ok (head ++ " " ++ tail)
  | pos, .symbol name => .ok (pos.place name)
  | pos, .string text => .ok (pos.place ("\"" ++ text ++ "\""))
  | pos, .integer n => (integerText n).map pos.place
  | pos, .float x => .ok (pos.place x.fixedText)
  | pos, .promise id => (opened id).map fun text => pos.place ("(lazy: " ++ text ++ ")")
  | pos, _ => .ok (pos.place "???")

end Value

namespace Store

/-- The text of a value where it stands, with at most `depth` pairs and promises open inside one
another. -/
def renderAt (s : Store) : (depth : Nat) → Value.Position → Value → Written String
  | 0 => Value.renderWith (fun _ _ => .error .tooDeep) fun _ => .error .tooDeep
  | depth + 1 =>
    Value.renderWith (s.renderAt depth) fun id => s.renderAt depth .alone (s.promise id).shown

/-- The text of a value on its own. -/
def render (s : Store) (depth : Nat) (v : Value) : Written String := s.renderAt depth .alone v

end Store

end LispCore
