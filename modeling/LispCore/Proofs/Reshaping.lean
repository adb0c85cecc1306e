import LispCore.Proofs.Alike
import LispCore.Proofs.Forest
import LispCore.Proofs.NaturalPrelude

/-! # Values whose environments have another shape

Two environments may see the same names with the same values through frames that are
spread quite differently over their chains. A reshaping says which environments of two
runs from a store stand for each other; unlike a renaming it may take one to several,
and several to one. All else has the same name in both runs, except that the second may
have made some frames before it began, so that its later mappings have moved by that
number (`Store.shifted`).

A native is blind to the shape of environments if it does the same on values that differ
by any reshaping, follows no links, binds nothing and writes to no frame
(`Library.ShapeBlind`). -/
namespace LispCore

/-! ## Mappings that have moved -/

namespace Store

/-- Where the second run has a mapping. Those of the store have stayed, and `extra` further
ones stand before the others. -/
def shifted (s : Store) (extra : Nat) (id : MappingId) : MappingId :=
  if id.index < s.mappings.size then id else ⟨id.index + extra⟩

variable {s : Store} {extra : Nat} {id : MappingId}

theorem shifted_of_lt (h : id.index < s.mappings.size) : s.shifted extra id = id := if_pos h

theorem shifted_of_le (h : s.mappings.size ≤ id.index) :
    s.shifted extra id = ⟨id.index + extra⟩ :=
  if_neg (Nat.not_lt.mpr h)

theorem shifted_zero (s : Store) (id : MappingId) : s.shifted 0 id = id := by
  unfold shifted
  split <;> rfl

theorem shifted_inj {other : MappingId} :
    s.shifted extra id = s.shifted extra other ↔ id = other := by
  obtain ⟨i⟩ := id
  obtain ⟨j⟩ := other
  unfold shifted
  grind

/-- Places behind the store move by the extra ones. -/
theorem shifted_eq_iff {n : Nat} (h : s.mappings.size ≤ n) :
    s.shifted extra id = ⟨n + extra⟩ ↔ id = ⟨n⟩ := by
  have hn : s.shifted extra ⟨n⟩ = ⟨n + extra⟩ := shifted_of_le h
  rw [← hn, shifted_inj]

theorem shifted_lt_iff {n : Nat} (h : s.mappings.size ≤ n) :
    (s.shifted extra id).index < n + extra ↔ id.index < n := by
  unfold shifted
  split
  · omega
  · exact Nat.add_lt_add_iff_right

/-- The mappings that are in the same place for both runs, and nothing else. If there are no extra
ones, these are all mappings. -/
def Stays (s : Store) (extra : Nat) : Region :=
  fun o => ∃ id, o = .mapping id ∧ s.shifted extra id = id

end Store

/-! ## Reshapings -/

/-- Which environments of two runs from a store stand for each other. Those of the store do for
themselves, at least. -/
structure Reshaping (s : Store) where
  env : EnvId → EnvId → Prop
  fixes : ∀ e : EnvId, e.index < s.environments.size → env e e

variable {s : Store} {extra : Nat} {w w' : Reshaping s} {v v' : Value}

namespace Reshaping

def Le (w w' : Reshaping s) : Prop := ∀ e e', w.env e e' → w'.env e e'

theorem Le.refl (w : Reshaping s) : w.Le w := fun _ _ h => h

theorem Le.trans {w'' : Reshaping s} (h : w.Le w') (h' : w'.Le w'') : w.Le w'' :=
  fun e e' he => h' e e' (h e e' he)

/-- The reshaping that also has `e` stand for `e'`. -/
def extend (w : Reshaping s) (e e' : EnvId) : Reshaping s where
  env i i' := w.env i i' ∨ (i = e ∧ i' = e')
  fixes i hi := .inl (w.fixes i hi)

theorem le_extend (w : Reshaping s) (e e' : EnvId) : w.Le (w.extend e e') := fun _ _ => .inl

theorem extend_self (w : Reshaping s) (e e' : EnvId) : (w.extend e e').env e e' := .inr ⟨rfl, rfl⟩

/-- The environments of the store, each for itself. -/
def initial (s : Store) : Reshaping s where
  env e e' := e.index < s.environments.size ∧ e = e'
  fixes _ he := ⟨he, rfl⟩

/-- The objects that stand for each other. -/
def pairing (w : Reshaping s) (extra : Nat) : Pairing where
  mapping id id' := id' = s.shifted extra id
  env := w.env
  promise := Eq
  mark := Eq
  mark_refl _ := rfl

theorem Le.pairing (h : w.Le w') (extra : Nat) : (w.pairing extra).Le (w'.pairing extra) :=
  ⟨fun _ _ hid => hid, h, fun _ _ hid => hid, fun _ _ hi => hi⟩

/-- What lies in the store stands for itself. -/
theorem paired_self (w : Reshaping s) (extra : Nat) (h : v.Within s.Has) :
    Paired (w.pairing extra) v v := by
  refine Corresponds.of_within (w.pairing extra).mark_refl (fun id hid => ?_) (fun e he => ?_)
    (fun _ _ => rfl) h
  · exact (Store.shifted_of_lt (Nat.lt_of_not_le hid)).symm
  · exact w.fixes e (Nat.lt_of_not_le he)

/-- A value without closures and promises has nothing that could be reshaped. -/
theorem eq_of_paired (hv : Paired (w.pairing extra) v v') (h : v.Within (s.Stays extra)) :
    v' = v := by
  induction hv with
  | @nan i j hm =>
    have hij : i = j := hm
    rw [hij]
  | @pair i j _ _ _ _ hm _ _ ihv ihr =>
    have hij : i = j := hm
    rw [Value.within_pair] at h
    rw [ihv h.1, ihr h.2, hij]
  | @mapping id id' hid =>
    have hid' : id' = s.shifted extra id := hid
    obtain ⟨_, heq, hstay⟩ := Value.within_mapping.mp h
    cases heq
    rw [hid', hstay]
  | @array i j _ _ hm hl _ ih =>
    have hij : i = j := hm
    rw [Value.within_array] at h
    rw [hij]
    refine congrArg _ (List.ext_getElem hl.symm fun k hk hk' => ?_)
    exact ih k _ _ (List.getElem?_eq_getElem hk') (List.getElem?_eq_getElem hk)
      (h _ (List.getElem_mem hk'))
  | closure =>
    obtain ⟨_, heq, _⟩ := (Value.within_closure.mp h).2
    cases heq
  | @native i j _ _ _ hm =>
    have hij : i = j := hm
    rw [hij]
  | promise =>
    obtain ⟨_, heq, _⟩ := Value.within_promise.mp h
    cases heq
  | _ => rfl

end Reshaping

/-! ## Natives that are blind to the shape of environments -/

/-- What does not tell how environments are put together: no links are followed, nothing is bound
in an environment, and the mappings written to are no frames of the store. -/
def Request.Shapeless (s : Store) : Request → Prop
  | .chain _ | .bind .. => False
  | .write id _ _ => ¬ s.IsFrame id
  | _ => True

/-- Things are alike that differ by a reshaping; reshapings grow. -/
def Likeness.reshaping (s : Store) (extra : Nat) : Likeness where
  World := Reshaping s
  le := Reshaping.Le
  like w := Paired (w.pairing extra)
  env := Reshaping.env
  place := Reshaping.env
  mark _ := Eq
  fault w := Fault.Rel (Paired (w.pairing extra))
  permits := Request.Shapeless s
  verbatim := True
  shape := Corresponds.shape
  nil _ := .nil
  like_mono h := Corresponds.mono (h.pairing extra)
  place_mono h := h _ _
  env_of_place h := h

theorem Likeness.reshaping_natural (s : Store) (extra : Nat) :
    (Likeness.reshaping s extra).Natural where
  refl := Reshaping.Le.refl
  trans := Reshaping.Le.trans
  place_of_env h := h
  integer _ := .integer
  integer_eq h := by cases h; rfl
  string _ := .string
  pair hi hv hr := .pair hi hv hr
  closure params _ _ _ _ isLazy hm hbody he := .closure params isLazy hm hbody he
  improperList := .improperList
  notName := .notName
  noParent _ := .bare trivial
  native _ _ := .bare trivial
  unlinked {r} h := by
    cases r with
    | chain => exact h.elim
    | bind => exact h.elim
    | write => exact h.elim
    | _ => trivial

/-- Natives do the same on values and in environments that differ by a reshaping. They look names
up and evaluate, and may make environments and capture them, but they do not follow links or bind
names, and they write to no frame of the store. -/
def Library.ShapeBlind (library : Library) (s : Store) : Prop :=
  ∀ extra key, (Likeness.reshaping s extra).Routines (library key)

namespace Prelude

/-- The natives that bind names or follow links. -/
def shapeAware : List String := ["define", "define-root", "depth", "up"]

/-- **The prelude is blind to the shape of environments**, apart from the natives that bind names
or follow links. -/
theorem without_shapeAware_shapeBlind (s : Store) :
    Library.ShapeBlind (without shapeAware) s := by
  intro extra
  have hnatural := Likeness.reshaping_natural s extra
  have hrender : (Likeness.reshaping s extra).Routines render :=
    render_routines hnatural (fun _ => trivial) trivial
  exact without_routines (primitives_all hnatural
    (Q := fun p =>
      shapeAware.contains p.name = true ∨ (Likeness.reshaping s extra).Routines p.routine)
    (fun _ hp => .inr hp) (.inl rfl) (.inl rfl) (.inr hrender) (.inl rfl) (.inl rfl))

end Prelude

end LispCore
