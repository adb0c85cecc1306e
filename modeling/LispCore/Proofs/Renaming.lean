import LispCore.Proofs.Correspondence

/-! # Values up to the naming of references

Which number an object or a mark gets depends on what else has been made before. Two
runs that make the same things among different others give them different numbers, and
a renaming says which number of the one run is which of the other. It is one-to-one on
what it renames, so a program that compares references finds the same in both
(`Renaming`).

Values are renamed if they are built alike from references that are (`Renamed`). A native
is nominal if it does the same on renamed parameters, whatever the renaming
(`Library.Nominal`). -/
namespace LispCore

/-- Which objects and marks of one store are which of another. The marks in `fixed` are
the same in both. -/
structure Renaming (fixed : Mark → Prop) where
  object : Object → Object → Prop
  mark : Mark → Mark → Prop
  object_iff {o p o' p' : Object} : object o o' → object p p' → (o = p ↔ o' = p')
  mark_iff {i k i' k' : Mark} : mark i i' → mark k k' → (i = k ↔ i' = k')
  fixes {i : Mark} : fixed i → mark i i

variable {fixed : Mark → Prop}

namespace Renaming

/-- All that one renaming renames, the other does in the same way. -/
structure Le (ρ σ : Renaming fixed) : Prop where
  object {o o' : Object} : ρ.object o o' → σ.object o o'
  mark {i i' : Mark} : ρ.mark i i' → σ.mark i i'

theorem Le.refl (ρ : Renaming fixed) : ρ.Le ρ := ⟨fun h => h, fun h => h⟩

theorem Le.trans {ρ σ τ : Renaming fixed} (h : ρ.Le σ) (h' : σ.Le τ) : ρ.Le τ :=
  ⟨fun ho => h'.object (h.object ho), fun hm => h'.mark (h.mark hm)⟩

/-- The renaming of nothing but the fixed marks, which are their own names. -/
def initial (fixed : Mark → Prop) : Renaming fixed where
  object _ _ := False
  mark i i' := fixed i ∧ i = i'
  object_iff h := h.elim
  mark_iff hi hk := by rw [hi.2, hk.2]
  fixes hi := ⟨hi, rfl⟩

/-- The renaming that also takes `o` to `o'`. -/
def extend (ρ : Renaming fixed) (o o' : Object)
    (h : ∀ p p', ρ.object p p' → (p = o ↔ p' = o')) : Renaming fixed where
  object p p' := ρ.object p p' ∨ (p = o ∧ p' = o')
  mark := ρ.mark
  object_iff hp hq := by
    rcases hp with hp | ⟨rfl, rfl⟩ <;> rcases hq with hq | ⟨rfl, rfl⟩
    · exact ρ.object_iff hp hq
    · exact h _ _ hp
    · rw [eq_comm, h _ _ hq, eq_comm]
    · simp
  mark_iff := ρ.mark_iff
  fixes := ρ.fixes

theorem le_extend (ρ : Renaming fixed) {o o' : Object}
    (h : ∀ p p', ρ.object p p' → (p = o ↔ p' = o')) : ρ.Le (ρ.extend o o' h) :=
  ⟨.inl, fun hm => hm⟩

theorem extend_self (ρ : Renaming fixed) {o o' : Object}
    (h : ∀ p p', ρ.object p p' → (p = o ↔ p' = o')) : (ρ.extend o o' h).object o o' :=
  .inr ⟨rfl, rfl⟩

/-- The renaming that also takes the mark `i` to `i'`. -/
def extendMark (ρ : Renaming fixed) (i i' : Mark) (h : ∀ k k', ρ.mark k k' → (k = i ↔ k' = i')) :
    Renaming fixed where
  object := ρ.object
  mark k k' := ρ.mark k k' ∨ (k = i ∧ k' = i')
  object_iff := ρ.object_iff
  mark_iff hk hl := by
    rcases hk with hk | ⟨rfl, rfl⟩ <;> rcases hl with hl | ⟨rfl, rfl⟩
    · exact ρ.mark_iff hk hl
    · exact h _ _ hk
    · rw [eq_comm, h _ _ hl, eq_comm]
    · simp
  fixes hi := .inl (ρ.fixes hi)

end Renaming

/-! ## Values -/

namespace Renaming
variable {ρ σ : Renaming fixed}

/-- What is renamed to each other corresponds. -/
abbrev correspondence (ρ : Renaming fixed) : Correspondence where
  mapping id id' := ρ.object (.mapping id) (.mapping id')
  env env env' := ρ.object (.env env) (.env env')
  promise id id' := ρ.object (.promise id) (.promise id')
  mark := ρ.mark

theorem Le.correspondence (h : ρ.Le σ) : ρ.correspondence.Le σ.correspondence where
  mapping _ _ := h.object
  env _ _ := h.object
  promise _ _ := h.object
  mark _ _ := h.mark

end Renaming

/-- Values that are built alike from references that are renamed. -/
abbrev Renamed (ρ : Renaming fixed) : Value → Value → Prop := Corresponds ρ.correspondence

theorem Renamed.mono {ρ σ : Renaming fixed} {v v' : Value} (h : ρ.Le σ) (hv : Renamed ρ v v') :
    Renamed σ v v' :=
  Corresponds.mono h.correspondence hv

/-! ## Nominal natives -/

/-- Things are alike that a renaming renames; renamings grow. All that natives may not ask
for is what has been made visible outside so far. -/
def Likeness.renaming (fixed : Mark → Prop) : Likeness where
  World := Renaming fixed
  le := Renaming.Le
  like := Renamed
  env ρ env env' := ρ.object (.env env) (.env env')
  place ρ env env' := ρ.object (.env env) (.env env')
  mark := Renaming.mark
  fault ρ := Fault.Rel (Renamed ρ)
  permits r := r ≠ .effects
  verbatim := True
  shape := Corresponds.shape
  nil _ := .nil
  like_mono := Renamed.mono
  place_mono h ho := h.object ho
  env_of_place h := h

/-- A native does the same on renamed parameters, whatever the renaming: it keeps nothing to
itself, and of its references it sees only which are the same. -/
def Routine.Nominal (fixed : Mark → Prop) (f : Routine) : Prop :=
  ∀ (ρ : Renaming fixed) params params' env env', Renamed ρ params params' →
    ρ.object (.env env) (.env env') →
    (Likeness.renaming fixed).Scripts (Likeness.renaming fixed).Answers ρ (f params env)
      (f params' env')

def Library.Nominal (fixed : Mark → Prop) (library : Library) : Prop :=
  ∀ key, Routine.Nominal fixed (library key)

end LispCore
