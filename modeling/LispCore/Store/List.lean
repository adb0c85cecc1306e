import LispCore.Store.Basic
import LispCore.Value.List

/-!
# Making pairs, lists and arrays

Each pair and each array gets a mark of its own from the store. A list is made from its end, so its
last pair has the oldest mark. Nothing else in the store changes.
-/

namespace LispCore.Store

def newPair (s : Store) (first rest : Value) : Value × Store :=
  let (mark, s) := s.newMark
  (.pair mark first rest, s)

def newArray (s : Store) (items : List Value) : Value × Store :=
  let (mark, s) := s.newMark
  (.array mark items, s)

/-- Makes a chain of pairs with the given elements and ending. -/
def newChain (s : Store) : List Value → (tail : Value) → Value × Store
  | [], tail => (tail, s)
  | v :: vs, tail =>
    let (rest, s) := s.newChain vs tail
    s.newPair v rest

/-- Makes a proper list. -/
def newList (s : Store) (vs : List Value) : Value × Store := s.newChain vs .nil

theorem newChain_cons (s : Store) (v : Value) (vs : List Value) (tail : Value) :
    s.newChain (v :: vs) tail = (s.newChain vs tail).2.newPair v (s.newChain vs tail).1 := rfl

theorem elements_newChain (s : Store) (vs : List Value) (tail : Value) :
    (s.newChain vs tail).1.elements = vs ++ tail.elements := by
  induction vs with
  | nil => rfl
  | cons v vs ih => simp [newChain_cons, newPair, newMark, ih]

theorem ending_newChain (s : Store) (vs : List Value) (tail : Value) :
    (s.newChain vs tail).1.ending = tail.ending := by
  induction vs with
  | nil => rfl
  | cons v vs ih => simp [newChain_cons, newPair, newMark, ih]

theorem properElements_newList (s : Store) (vs : List Value) :
    (s.newList vs).1.properElements = .ok vs := by
  simp [Value.properElements_eq_ok_iff, newList, elements_newChain, ending_newChain,
    Value.elements, Value.ending]

/-- One mark is given out for each element. -/
theorem newChain_snd (s : Store) (vs : List Value) (tail : Value) :
    (s.newChain vs tail).2 = { s with marks := s.marks + vs.length } := by
  induction vs with
  | nil => rfl
  | cons v vs ih => simp [newChain_cons, newPair, newMark, ih, Nat.add_assoc]

end LispCore.Store
