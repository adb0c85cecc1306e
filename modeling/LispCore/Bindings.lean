/-!
# Ordered bindings

A table from names to values that remembers the order in which names were first bound. Binding a
name again replaces its value and keeps its place.
-/

namespace LispCore

structure Bindings (α : Type) where
  entries : List (String × α)

namespace Bindings

variable {α : Type}

def empty : Bindings α := ⟨[]⟩

instance : EmptyCollection (Bindings α) := ⟨empty⟩

instance : Inhabited (Bindings α) := ⟨empty⟩

def findIn (name : String) : List (String × α) → Option α
  | [] => none
  | (key, value) :: others => if key = name then some value else findIn name others

def insertIn (name : String) (value : α) : List (String × α) → List (String × α)
  | [] => [(name, value)]
  | (key, old) :: others =>
    if key = name then (key, value) :: others else (key, old) :: insertIn name value others

def find? (b : Bindings α) (name : String) : Option α := findIn name b.entries

def insert (b : Bindings α) (name : String) (value : α) : Bindings α :=
  ⟨insertIn name value b.entries⟩

def contains (b : Bindings α) (name : String) : Bool := (b.find? name).isSome

def names (b : Bindings α) : List String := b.entries.map Prod.fst

def size (b : Bindings α) : Nat := b.entries.length

/-- The bindings made by inserting the entries of a list from left to right. -/
def ofList (entries : List (String × α)) : Bindings α :=
  entries.foldl (fun b e => b.insert e.1 e.2) ∅

theorem findIn_insertIn (name key : String) (value : α) (entries : List (String × α)) :
    findIn key (insertIn name value entries) =
      if name = key then some value else findIn key entries := by
  induction entries with
  | nil => simp [insertIn, findIn]
  | cons e others ih =>
    obtain ⟨k, v⟩ := e
    by_cases hk : k = name
    · subst hk; by_cases h : k = key <;> simp [insertIn, findIn, h]
    · by_cases h : k = key
      · subst h; simp [insertIn, findIn, hk, Ne.symm hk]
      · simp [insertIn, findIn, hk, h, ih]

@[simp] theorem find?_empty (name : String) : (∅ : Bindings α).find? name = none := rfl

@[simp] theorem find?_insert (b : Bindings α) (name key : String) (value : α) :
    (b.insert name value).find? key = if name = key then some value else b.find? key :=
  findIn_insertIn name key value b.entries

theorem names_insertIn (name : String) (value : α) (entries : List (String × α)) :
    (insertIn name value entries).map Prod.fst =
      if name ∈ entries.map Prod.fst then entries.map Prod.fst
      else entries.map Prod.fst ++ [name] := by
  induction entries with
  | nil => simp [insertIn]
  | cons e others ih =>
    obtain ⟨k, v⟩ := e
    by_cases hk : k = name
    · subst hk; simp [insertIn]
    · simp only [insertIn, hk, if_false, List.map_cons, ih, List.mem_cons, Ne.symm hk, false_or]
      split <;> simp

/-- A new name goes to the end and a known one keeps its place. -/
theorem names_insert (b : Bindings α) (name : String) (value : α) :
    (b.insert name value).names = if name ∈ b.names then b.names else b.names ++ [name] :=
  names_insertIn name value b.entries

theorem contains_eq_true_iff (b : Bindings α) (name : String) :
    b.contains name = true ↔ name ∈ b.names := by
  obtain ⟨entries⟩ := b
  simp only [contains, find?, names]
  induction entries with
  | nil => simp [findIn]
  | cons e others ih =>
    obtain ⟨k, v⟩ := e
    by_cases hk : k = name
    · simp [findIn, hk]
    · simp only [findIn, hk, if_false, ih, List.map_cons, List.mem_cons, Ne.symm hk, false_or]

end Bindings

end LispCore
