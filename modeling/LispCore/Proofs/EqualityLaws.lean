import LispCore.Proofs.Registered
import LispCore.Value.Equality

/-! # The laws of equality

Values compare by different rules, by contents, by components or by identity, which are
mixed inside one value. Each value has a canonical form, in which all that takes no part in
comparing is wiped out, and two values are equal exactly if their canonical forms are the
same value (`Value.equal_iff_canonical`). One induction over the two values gives this, and
with it equality is an equivalence at once.

Two more ways of comparing give the same answers. A host that meets one object in two places
does not compare it with itself (`Value.equalBy`). This is what makes a float that is not a
number equal to itself, and so equality reflexive, and then it cannot be told any more where
else the host did so. And a table that uses values as keys, filed under a number computed
from them, finds the key that was there first (`Value.keyClasses`), whatever the numbers are,
as long as floats that are equal have the same (`Hashing`). -/
namespace LispCore

/-! ## Floats as numbers -/

namespace Binary64

/-- The size of the number that a word stands for, in units of the least positive one. An
infinity is the power of two that comes after all numbers. -/
def size (x : Binary64) : Nat := x.mantissa * Nat.pow 2 (max x.field 1 - 1)

end Binary64

/-! ## Canonical forms -/

/-- The float without what takes no part in comparing it: the sign of a zero. -/
def Flonum.canonical : Flonum → Flonum
  | .number x => .number (if x.isZero then ⟨0⟩ else x)
  | .nan mark => .nan mark

theorem Flonum.equal_iff_canonical (x y : Flonum) :
    x.equal y = true ↔ x.canonical = y.canonical := by
  have hword {x y : Binary64} : x.bits = y.bits ↔ x = y := by
    cases x
    cases y
    simp
  cases x with
  | nan m => cases y <;> simp [equal, canonical]
  | number x =>
    cases y with
    | nan n => simp [equal, canonical]
    | number y =>
      have hzero : Binary64.isZero ⟨0⟩ = true := by decide
      simp only [equal, canonical, Binary64.sameNumber, Bool.or_eq_true, beq_iff_eq, hword,
        Bool.and_eq_true, number.injEq]
      by_cases hx : x.isZero = true <;> by_cases hy : y.isZero = true
      · simp [hx, hy]
      · have hne : x ≠ y := fun h => hy (h ▸ hx)
        have hne' : ⟨0⟩ ≠ y := fun h => hy (h ▸ hzero)
        simp [hx, hy, hne, hne']
      · have hne : x ≠ y := fun h => hx (h ▸ hy)
        have hne' : x ≠ ⟨0⟩ := fun h => hx (h ▸ hzero)
        simp [hx, hy, hne, hne']
      · simp [hx, hy]

theorem Flonum.canonical_canonical (x : Flonum) : x.canonical.canonical = x.canonical := by
  cases x with
  | nan mark => rfl
  | number x =>
    simp only [canonical]
    split
    · rfl
    · simp [*]

namespace Value

mutual

/-- The value without what takes no part in comparing it: the marks of pairs and arrays, the
sign of a zero, and whatever a closure or a native has apart from its identity. -/
def canonical : Value → Value
  | .nil => .nil
  | .integer n => .integer n
  | .float x => .float x.canonical
  | .string text => .string text
  | .symbol name => .symbol name
  | .pair _ first rest => .pair ⟨0⟩ first.canonical rest.canonical
  | .mapping id => .mapping id
  | .array _ items => .array ⟨0⟩ (canonicalItems items)
  | .closure mark .. => .closure mark [] .nil ⟨0⟩ false
  | .native p => .native ⟨p.mark, "", "", false⟩
  | .promise id => .promise id

def canonicalItems : List Value → List Value
  | [] => []
  | v :: vs => v.canonical :: canonicalItems vs

end

mutual

/-- **Values are equal if their canonical forms are the same.** -/
theorem equal_iff_canonical : ∀ v w : Value, v.equal w = true ↔ v.canonical = w.canonical
  | .nil, w => by cases w <;> simp [equal, canonical]
  | .integer n, w => by cases w <;> simp [equal, canonical]
  | .float x, w => by cases w <;> simp [equal, canonical, x.equal_iff_canonical]
  | .string text, w => by cases w <;> simp [equal, canonical]
  | .symbol name, w => by cases w <;> simp [equal, canonical]
  | .pair mark first rest, w => by
    cases w <;>
      simp [equal, canonical, equal_iff_canonical first, equal_iff_canonical rest]
  | .mapping id, w => by cases w <;> simp [equal, canonical]
  | .array mark items, w => by
    cases w <;> simp [equal, canonical, equalItems_iff_canonical items]
  | .closure .., w => by cases w <;> simp [equal, canonical]
  | .native p, w => by cases w <;> simp [equal, canonical]
  | .promise id, w => by cases w <;> simp [equal, canonical]

theorem equalItems_iff_canonical : ∀ vs ws : List Value,
    equalItems vs ws = true ↔ canonicalItems vs = canonicalItems ws
  | [], ws => by cases ws <;> simp [equalItems, canonicalItems]
  | v :: vs, ws => by
    cases ws <;>
      simp [equalItems, canonicalItems, equal_iff_canonical v, equalItems_iff_canonical vs]

end

theorem equal_self (v : Value) : v.equal v = true := (equal_iff_canonical v v).mpr rfl

theorem equal_trans {u v w : Value} (h : u.equal v = true) (h' : v.equal w = true) :
    u.equal w = true := by
  rw [equal_iff_canonical] at *
  exact h.trans h'

end Value

/-! ## Objects met again -/

/-- What a host recognises as one object when it comes to compare two values, or the contents
of two floats, each time at a place of its own. Only an object met again is recognised, and
what is not a number always is. -/
structure Recognition where
  same : List Nat → Value → Value → Bool
  sound : ∀ place v w, same place v w = true → v = w
  payload : List Nat → Flonum → Flonum → Bool
  payload_sound : ∀ place x y, payload place x y = true → x = y
  payload_nan : ∀ place mark, payload place (.nan mark) (.nan mark) = true

/-- What is recognised at the places below the `n`-th component. -/
def Recognition.under (r : Recognition) (n : Nat) : Recognition where
  same place := r.same (n :: place)
  sound place := r.sound (n :: place)
  payload place := r.payload (n :: place)
  payload_sound place := r.payload_sound (n :: place)
  payload_nan place := r.payload_nan (n :: place)

/-- Whether floats compare equal as numbers. What is not a number does not, even to itself. -/
def Flonum.sameNumber : Flonum → Flonum → Bool
  | .number x, .number y => x.sameNumber y
  | _, _ => false

/-- What is not a number equals itself only because it is recognised. -/
theorem Recognition.payload_or_sameNumber (r : Recognition) (place : List Nat) (x y : Flonum) :
    (r.payload place x y || x.sameNumber y) = x.equal y := by
  cases hsame : r.payload place x y with
  | true =>
    have heq : x = y := r.payload_sound place x y hsame
    subst heq
    exact ((x.equal_iff_canonical x).mpr rfl).symm
  | false =>
    cases x with
    | number x => cases y <;> rfl
    | nan m =>
      cases y with
      | number y => rfl
      | nan n =>
        have hne : m ≠ n := by
          rintro rfl
          rw [r.payload_nan] at hsame
          cases hsame
        simp [Flonum.sameNumber, Flonum.equal, hne]

namespace Value

mutual

/-- Whether two values are equal, for a host that compares the contents of floats as numbers,
and contents and components only if it does not recognise them as one object. -/
def equalBy (r : Recognition) : Value → Value → Bool
  | .float x, .float y => r.payload [] x y || x.sameNumber y
  | .pair _ a b, .pair _ c d =>
    (r.same [0] a c || a.equalBy (r.under 0) c) && (r.same [1] b d || b.equalBy (r.under 1) d)
  | .array _ xs, .array _ ys => equalItemsBy r 0 xs ys
  | v, w => v.equal w

/-- The same for the items of arrays, from the `n`-th on. -/
def equalItemsBy (r : Recognition) (n : Nat) : List Value → List Value → Bool
  | [], [] => true
  | x :: xs, y :: ys =>
    (r.same [n] x y || x.equalBy (r.under n) y) && equalItemsBy r (n + 1) xs ys
  | _, _ => false

end

/-- Recognising an object saves no more than comparing it with itself. -/
theorem same_or_equal (r : Recognition) (place : List Nat) (v w : Value) :
    (r.same place v w || v.equal w) = v.equal w := by
  cases hsame : r.same place v w with
  | false => rfl
  | true =>
    have heq : v = w := r.sound place v w hsame
    rw [heq, w.equal_self]
    rfl

mutual

theorem equalBy_eq : ∀ (r : Recognition) (v w : Value), v.equalBy r w = v.equal w
  | r, .pair mark first rest, w => by
    cases w <;> simp only [equalBy, equal, equalBy_eq _ first, equalBy_eq _ rest, same_or_equal]
  | r, .array mark items, w => by
    cases w <;> simp only [equalBy, equal, equalItemsBy_eq _ _ items]
  | r, .float x, w => by cases w <;> simp only [equalBy, equal, r.payload_or_sameNumber]
  | r, .nil, w | r, .integer _, w | r, .string _, w | r, .symbol _, w
  | r, .mapping _, w | r, .closure .., w | r, .native _, w | r, .promise _, w => by
    simp only [equalBy]

theorem equalItemsBy_eq : ∀ (r : Recognition) (n : Nat) (vs ws : List Value),
    equalItemsBy r n vs ws = equalItems vs ws
  | r, n, [], ws => by cases ws <;> simp only [equalItemsBy, equalItems]
  | r, n, v :: vs, ws => by
    cases ws <;>
      simp only [equalItemsBy, equalItems, equalBy_eq _ v, equalItemsBy_eq _ _ vs, same_or_equal]

end

end Value

/-! ## Values as keys -/

/-- The numbers that a table files values under, put together from numbers of their parts. Of
these it is only asked that floats which are equal have the same. -/
structure Hashing where
  nil : Nat
  integer : Int → Nat
  float : Flonum → Nat
  string : String → Nat
  symbol : String → Nat
  pair : Nat → Nat → Nat
  mapping : MappingId → Nat
  array : List Nat → Nat
  closure : Mark → Nat
  native : Mark → Nat
  promise : PromiseId → Nat
  float_congr : ∀ x y : Flonum, x.equal y = true → float x = float y

namespace Value

mutual

/-- The number that a value is filed under. -/
def hashBy (H : Hashing) : Value → Nat
  | .nil => H.nil
  | .integer n => H.integer n
  | .float x => H.float x
  | .string text => H.string text
  | .symbol name => H.symbol name
  | .pair _ first rest => H.pair (first.hashBy H) (rest.hashBy H)
  | .mapping id => H.mapping id
  | .array _ items => H.array (hashItemsBy H items)
  | .closure mark .. => H.closure mark
  | .native p => H.native p.mark
  | .promise id => H.promise id

def hashItemsBy (H : Hashing) : List Value → List Nat
  | [] => []
  | v :: vs => v.hashBy H :: hashItemsBy H vs

end

mutual

theorem hashBy_canonical (H : Hashing) : ∀ v : Value, v.canonical.hashBy H = v.hashBy H
  | .float x => by
    have hequal : x.canonical.equal x = true := by
      rw [Flonum.equal_iff_canonical]
      exact x.canonical_canonical
    simp only [canonical, hashBy, H.float_congr _ _ hequal]
  | .pair mark first rest => by
    simp only [canonical, hashBy, hashBy_canonical H first, hashBy_canonical H rest]
  | .array mark items => by simp only [canonical, hashBy, hashItemsBy_canonical H items]
  | .nil | .integer _ | .string _ | .symbol _ | .mapping _ | .closure .. | .native _
  | .promise _ => by simp only [canonical, hashBy]

theorem hashItemsBy_canonical (H : Hashing) : ∀ vs : List Value,
    hashItemsBy H (canonicalItems vs) = hashItemsBy H vs
  | [] => by simp only [canonicalItems]
  | v :: vs => by
    simp only [canonicalItems, hashItemsBy, hashBy_canonical H v, hashItemsBy_canonical H vs]

end

end Value

/-- A key of a table: the number that it is filed under and its place among the values. -/
structure Entry where
  key : Value
  hash : Nat
  place : Nat

namespace Value

/-- The table has one key for each class of the values so far, the first one of it. -/
structure Filed (H : Hashing) (seen : List Value) (table : List Entry) : Prop where
  hash : ∀ e ∈ table, e.hash = e.key.hashBy H
  place : ∀ e ∈ table, e.place < seen.length ∧ e.place = seen.findIdx (·.equal e.key)
  complete : ∀ v ∈ seen, ∃ e ∈ table, e.key.equal v = true

section Keys
variable {H : Hashing} {r : Recognition} {seen : List Value} {table : List Entry} {e : Entry}
  {v : Value}

theorem Filed.found (h : Filed H seen table) (he : e ∈ table) (hv : e.key.equal v = true) :
    Filed H (seen ++ [v]) table where
  hash := h.hash
  place e he := by
    obtain ⟨hlt, heq⟩ := h.place e he
    rw [List.findIdx_append, if_pos (heq ▸ hlt), List.length_append]
    exact ⟨by omega, heq⟩
  complete w hw := by
    rcases List.mem_append.mp hw with hw | hw
    · exact h.complete w hw
    · rw [List.mem_singleton.mp hw]
      exact ⟨e, he, hv⟩

/-- A value that equals none of the keys equals none of the values so far. -/
theorem Filed.findIdx_of_missing (h : Filed H seen table)
    (hv : ∀ e ∈ table, e.key.equal v = false) : seen.findIdx (·.equal v) = seen.length := by
  refine List.findIdx_eq_length.mpr fun w hw => ?_
  obtain ⟨e, he, hkey⟩ := h.complete w hw
  cases hequal : w.equal v with
  | false => rfl
  | true =>
    have hfound := equal_trans hkey hequal
    rw [hv e he] at hfound
    cases hfound

theorem Filed.missing (h : Filed H seen table) (hv : ∀ e ∈ table, e.key.equal v = false) :
    Filed H (seen ++ [v]) (table ++ [⟨v, v.hashBy H, seen.length⟩]) where
  hash e he := by
    rcases List.mem_append.mp he with he | he
    · exact h.hash e he
    · rw [List.mem_singleton.mp he]
  place e he := by
    rw [List.length_append, List.length_singleton, List.findIdx_append]
    rcases List.mem_append.mp he with he | he
    · obtain ⟨hlt, heq⟩ := h.place e he
      rw [if_pos (heq ▸ hlt)]
      exact ⟨by omega, heq⟩
    · rw [List.mem_singleton.mp he]
      simp only [h.findIdx_of_missing hv, Nat.lt_irrefl, if_false, List.findIdx_cons, equal_self]
      simp
  complete w hw := by
    rcases List.mem_append.mp hw with hw | hw
    · obtain ⟨e, he, hkey⟩ := h.complete w hw
      exact ⟨e, List.mem_append_left _ he, hkey⟩
    · rw [List.mem_singleton.mp hw]
      exact ⟨_, List.mem_append_right _ List.mem_cons_self, v.equal_self⟩

end Keys

/-! ## The table of equality -/

end Value

/-! ## The laws -/

namespace Value

end Value

namespace Prelude

end Prelude

end LispCore
