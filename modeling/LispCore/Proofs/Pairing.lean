import LispCore.Proofs.Correspondence

/-! # Pairings

A pairing is a correspondence in which a mark may correspond to others, but does to itself.
Values that it has correspond are paired (`Paired`).

A native is uniform if it cannot tell what its values are made of: it does the same on
paired parameters, whatever the pairing (`Library.Uniform`). It then compares nothing by
identity and keeps nothing to itself. -/
namespace LispCore

/-- Which places and marks of two stores correspond. A mark may correspond to others, but
it does to itself. -/
structure Pairing extends Correspondence where
  mark_refl : ∀ i, mark i i

namespace Pairing

/-- All that corresponds in one pairing corresponds in the other. -/
abbrev Le (ρ σ : Pairing) : Prop := ρ.toCorrespondence.Le σ.toCorrespondence

/-- The pairing seen from the other side. -/
def flip (ρ : Pairing) : Pairing where
  toCorrespondence := ρ.toCorrespondence.flip
  mark_refl := ρ.mark_refl

/-- One pairing after another. -/
def comp (ρ σ : Pairing) : Pairing where
  toCorrespondence := ρ.toCorrespondence.comp σ.toCorrespondence
  mark_refl i := ⟨i, ρ.mark_refl i, σ.mark_refl i⟩

/-- No objects correspond, and of the marks those that are the same or that are both from
`n` on. -/
def marks (n : Nat) : Pairing where
  mapping _ _ := False
  env _ _ := False
  promise _ _ := False
  mark i j := i = j ∨ (n ≤ i.index ∧ n ≤ j.index)
  mark_refl _ := .inl rfl

theorem marks_flip (n : Nat) : (marks n).flip.Le (marks n) where
  mapping _ _ h := h
  env _ _ h := h
  promise _ _ h := h
  mark _ _ h := h.imp Eq.symm And.symm

end Pairing

/-- Values that are built alike from objects that a pairing has correspond. -/
abbrev Paired (ρ : Pairing) : Value → Value → Prop := Corresponds ρ.toCorrespondence

/-! ## Uniform natives -/

/-- What a native may ask for that writes nothing and does not look at the state of
promises or at the effects so far. -/
def Request.Plain : Request → Prop
  | .bind .. | .write .. | .effects | .render _ => False
  | _ => True

/-- Things are alike that a pairing pairs; pairings grow. Which fault is raised does not
matter. -/
def Likeness.uniform : Likeness where
  World := Pairing
  le := Pairing.Le
  like := Paired
  env ρ := ρ.env
  place ρ := ρ.env
  mark ρ := ρ.mark
  fault _ _ _ := True
  permits := Request.Plain
  verbatim := False
  shape := Corresponds.shape
  nil _ := .nil
  like_mono := Corresponds.mono
  place_mono h := h.env _ _
  env_of_place h := h

/-- A native does the same on paired parameters, whatever the pairing: it writes nothing,
keeps nothing to itself, compares nothing by identity and does not look at the state of
promises. If it raises, it does so on both sides. -/
def Routine.Uniform (f : Routine) : Prop :=
  ∀ (ρ : Pairing) params params' env env', Paired ρ params params' → ρ.env env env' →
    Likeness.uniform.Scripts Likeness.uniform.Answers ρ (f params env) (f params' env')

def Library.Uniform (library : Library) : Prop := ∀ key, Routine.Uniform (library key)

end LispCore
