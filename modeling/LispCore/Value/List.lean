import LispCore.Value.Basic

/-!
# Lists

A list is a chain of pairs; it is proper when the chain ends in nil. Every value is such a chain, of
no pairs at the least, so `elements` and `ending` are defined on all of them.
-/

namespace LispCore.Value

/-- The firsts of the chain of pairs. -/
def elements : Value → List Value
  | .pair _ first rest => first :: rest.elements
  | _ => []

/-- The value after the last pair of the chain. -/
def ending : Value → Value
  | .pair _ _ rest => rest.ending
  | v => v

/-- The elements of a proper list, or the ending that makes it improper. -/
def properElements (v : Value) : Except Value (List Value) :=
  match v.ending with
  | .nil => .ok v.elements
  | tail => .error tail

@[simp] theorem elements_pair (mark : Mark) (first rest : Value) :
    (pair mark first rest).elements = first :: rest.elements := rfl

@[simp] theorem ending_pair (mark : Mark) (first rest : Value) :
    (pair mark first rest).ending = rest.ending := rfl

/-- A chain never ends in a pair. -/
theorem ending_ne_pair (v : Value) (mark : Mark) (first rest : Value) :
    v.ending ≠ .pair mark first rest := by
  induction v using Value.ending.induct with
  | case1 _ _ _ ih => exact ih
  | case2 v h =>
    cases v <;> first | (intro e; cases e) | exact absurd rfl (h _ _ _)

theorem tag_ne_pair {v : Value} (hv : ∀ mark first rest, v = .pair mark first rest → False) :
    v.tag ≠ .pair := by
  cases v with
  | pair mark first rest => exact (hv mark first rest rfl).elim
  | _ => intro e; cases e

theorem tag_of_elements {v : Value} (hv : v.elements ≠ []) : v.tag = .pair := by
  cases v with
  | pair => rfl
  | _ => exact absurd rfl hv

theorem chain_of_not_pair {v : Value} (hv : v.tag ≠ .pair) : v.elements = [] ∧ v.ending = v := by
  cases v with
  | pair => exact absurd rfl hv
  | _ => exact ⟨rfl, rfl⟩

theorem properElements_eq_ok_iff {v : Value} {vs : List Value} :
    v.properElements = .ok vs ↔ v.ending = .nil ∧ v.elements = vs := by
  unfold properElements
  split
  · next h => simp [h]
  · next h => exact ⟨(nomatch ·), fun e => (h e.1).elim⟩

end LispCore.Value
