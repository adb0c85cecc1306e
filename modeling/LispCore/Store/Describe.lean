import LispCore.Number.Decimal
import LispCore.Store.Basic
import LispCore.Text.Integer
import LispCore.Text.Quoted

/-!
# Descriptions

The full text of a value that error messages quote: its kind and its parts. A mapping lists its
entries in order. A pair, an array or a mapping that occurs inside its own description is three dots
there; what counts is that it is the same object, not that it has the same contents. A promise may
still reach itself through its result alone, and a list may be long, each pair of it a part of the
one before, so parts are described inside one another only to a given depth, and a value for which
that does not suffice has no description.
-/

namespace LispCore

/-- The fewest digits that read back, or a word for what has none. -/
def Flonum.shortestText : Flonum → String
  | .nan _ => "nan"
  | .number x => if x.isInfinite then (if x.negative then "-inf" else "inf") else x.shortestText

def Closure.describe (c : Closure) : String :=
  (if c.isLazy then "<lazy closure (" else "<closure (") ++ " ".intercalate c.params ++ ")>"

def Native.describe (p : Native) : String :=
  "<native " ++ p.name ++ (if p.isLazy then " lazy" else "") ++ ">"

/-- Items between round brackets; a single item is followed by a comma. -/
def itemsText : List String → String
  | [item] => "(" ++ item ++ ",)"
  | items => "(" ++ ", ".intercalate items ++ ")"

/-- What makes a pair, an array or a mapping the object it is. -/
inductive Identity where
  | mark (m : Mark)
  | mapping (id : MappingId)
  deriving DecidableEq

/-- Describes an object inside the descriptions of others, `busy`: one of these is three dots. -/
def guarded (busy : List Identity) (object : Identity)
    (describe : List Identity → Written String) : Written String :=
  if busy.contains object then .ok "..." else describe (object :: busy)

/-- The entries of a mapping between braces, each name written by `key`. -/
def entriesText (key : String → String) (value : Value → Written String) (b : Bindings Value) :
    Written String :=
  (b.entries.mapM fun e => (value e.2).map fun text => key e.1 ++ ": " ++ text).map fun texts =>
    "\x7b" ++ ", ".intercalate texts ++ "\x7d"

namespace Store

/-- The description of a value inside those of the objects `busy`, given the descriptions of its
parts. -/
def describeWith (s : Store) (inside : List Identity → Value → Written String)
    (busy : List Identity) : Value → Written String
  | .nil => .ok "Nil"
  | .integer n => (integerText n).map fun text => "Integer(value=" ++ text ++ ")"
  | .float x => .ok ("Float(value=" ++ x.shortestText ++ ")")
  | .string text => .ok ("String(value=" ++ quoted text ++ ")")
  | .symbol name => .ok ("Symbol(" ++ quoted name ++ ")")
  | .pair mark first rest =>
    guarded busy (.mark mark) fun busy => do
      let head ← inside busy first
      let tail ← inside busy rest
      .ok ("Pair(first=" ++ head ++ ", rest=" ++ tail ++ ")")
  | .mapping id =>
    guarded busy (.mapping id) fun busy =>
      (entriesText quoted (inside busy) (s.mapping id)).map fun text =>
        "Mapping(entries=" ++ text ++ ")"
  | .array mark items =>
    guarded busy (.mark mark) fun busy =>
      (items.mapM (inside busy)).map fun texts => "Array(items=" ++ itemsText texts ++ ")"
  | .closure mark params body env isLazy => .ok (Closure.mk mark params body env isLazy).describe
  | .native proc => .ok proc.describe
  | .promise id =>
    let p := s.promise id
    (inside busy p.shown).map fun text =>
      (if p.forced then "<lazy forced=" else "<lazy pending=") ++ text ++ ">"

/-- The description of a value inside the descriptions of the objects `busy`. -/
def describeIn (s : Store) : (depth : Nat) → (busy : List Identity) → Value → Written String
  | 0 => s.describeWith fun _ _ => .error .tooDeep
  | depth + 1 => s.describeWith (s.describeIn depth)

/-- The description of a value, with parts of parts described to at most the given depth. -/
def describe (s : Store) (depth : Nat) (v : Value) : Written String := s.describeIn depth [] v

/-- The text of a value for a reader: a symbol is its name. -/
def display (s : Store) (depth : Nat) : Value → Written String
  | .symbol name => .ok name
  | v => s.describe depth v

/-- The bindings of one frame, names unquoted. -/
def frameText (s : Store) (depth : Nat) (env : EnvId) : Written String :=
  entriesText id (s.describe depth) (s.frame env)

/-- The frame of an environment, and whether there are more around it. -/
def envText (s : Store) (depth : Nat) (env : EnvId) : Written String :=
  (s.frameText depth env).map fun text =>
    if (s.parent? env).isSome then text ++ " -> ..." else text

/-- All frames along the chain of an environment, innermost first. -/
def chainText (s : Store) (depth : Nat) (env : EnvId) : Written String :=
  ((s.chain env).mapM (s.frameText depth)).map fun texts =>
    "<Environment chain: " ++ " -> ".intercalate texts ++ ">"

end Store

end LispCore
