import LispCore.Proofs.Lifecycle

/-! # The recursion limit only grows

The limit of a host is raised when an interpreter is made, to the configured one if that is
higher, and by nothing else. So in the end it is the highest of the limit at the start and
the limits that were configured for the interpreters made (`HostSession.limit_after`).

A limit beyond the largest that can be set is refused before anything is done for the
interpreter but setting the level, so that level is all that a refusal changes. -/
namespace LispCore

/-! ## Making an interpreter -/

/-- What comes of making an interpreter in a host: the limit is raised to the configured one,
unless that is higher than the present one and than all that can be set. Only then the
interpreter is refused, and nothing in the host changes but the level of the journal. -/
structure Host.Making (h : Host) (registry : Option RegistryId) : Prop where
  raised : ∀ i h', Interpreter.new registry h = .ok i h' →
    h'.recursionLimit = max h.recursionLimit h.settings.limit
  refused_iff : (∃ stop h', Interpreter.new registry h = .error stop h') ↔
    h.recursionLimit < h.settings.limit ∧ Host.largestLimit < h.settings.limit
  refused : ∀ stop h', Interpreter.new registry h = .error stop h' →
    (∃ text, Fault.limitRange.message h.store h.recursionLimit = .ok text ∧
      stop = .raised .limitRange text) ∧
    h' = { h with level := h.settings.level?.getD h.level }

theorem HostM.bind_error {α β : Type} {x : HostM α} {f : α → HostM β} {h h' : Host} {stop : Stop}
    (hx : x h = .error stop h') : (x >>= f) h = .error stop h' := by
  change EStateM.bind x f h = .error stop h'
  simp only [EStateM.bind, hx]

namespace Interpreter
variable {h : Host} {registry : Option RegistryId}

theorem new_eq (registry : Option RegistryId) (h : Host) :
    Interpreter.new registry h = (raiseLimit >>= fun _ => chooseRegistry registry >>= fun r =>
      HostM.populatedRoot r >>= fun env => pure ⟨r, env⟩)
        { h with level := h.settings.level?.getD h.level } := rfl

theorem raiseLimit_of_largest (hlow : h.recursionLimit < h.settings.limit)
    (hhigh : Host.largestLimit < h.settings.limit) :
    ∃ text, Fault.limitRange.message h.store h.recursionLimit = .ok text ∧
      raiseLimit h = .error (.raised .limitRange text) h := by
  refine ⟨_, rfl, ?_⟩
  rw [raiseLimit, HostM.get_bind, if_neg (Nat.not_le_of_lt hlow), if_neg (Nat.not_le_of_lt hhigh)]
  rfl

theorem raiseLimit_of_fits
    (hfits : h.settings.limit ≤ h.recursionLimit ∨ h.settings.limit ≤ Host.largestLimit) :
    ∃ h', raiseLimit h = .ok () h' := by
  rw [raiseLimit, HostM.get_bind]
  split
  · exact ⟨h, rfl⟩
  · next hlow =>
    rw [if_pos (hfits.resolve_left hlow)]
    exact ⟨_, rfl⟩

theorem chooseRegistry_ok (registry : Option RegistryId) (h : Host) :
    ∃ r h', chooseRegistry registry h = .ok r h' := by
  cases registry with
  | some r => exact ⟨r, h, rfl⟩
  | none =>
    cases hshared : h.shared with
    | some r =>
      refine ⟨r, h, ?_⟩
      rw [chooseRegistry, HostM.sharedRegistry, HostM.get_bind, hshared]
      rfl
    | none =>
      obtain ⟨h', hmade, -⟩ := HostM.sharedRegistry_made hshared
      exact ⟨_, h', hmade⟩

theorem new_of_largest (registry : Option RegistryId) (hlow : h.recursionLimit < h.settings.limit)
    (hhigh : Host.largestLimit < h.settings.limit) :
    ∃ text, Fault.limitRange.message h.store h.recursionLimit = .ok text ∧
      Interpreter.new registry h = .error (.raised .limitRange text)
        { h with level := h.settings.level?.getD h.level } := by
  obtain ⟨text, htext, hraise⟩ := raiseLimit_of_largest
    (h := { h with level := h.settings.level?.getD h.level }) hlow hhigh
  refine ⟨text, htext, ?_⟩
  rw [new_eq]
  exact HostM.bind_error hraise

theorem new_of_fits (registry : Option RegistryId)
    (hfits : h.settings.limit ≤ h.recursionLimit ∨ h.settings.limit ≤ Host.largestLimit) :
    ∃ i h', Interpreter.new registry h = .ok i h' := by
  obtain ⟨h₁, hraise⟩ := raiseLimit_of_fits
    (h := { h with level := h.settings.level?.getD h.level }) hfits
  obtain ⟨r, h₂, hchoose⟩ := chooseRegistry_ok registry h₁
  obtain ⟨env, h₃, hroot⟩ := HostM.populatedRoot_ok r h₂
  refine ⟨⟨r, env⟩, h₃, ?_⟩
  rw [new_eq, HostM.bind_ok hraise, HostM.bind_ok hchoose, HostM.bind_ok hroot]
  rfl

theorem limit_of_new {i : Interpreter} {h' : Host} (hnew : Interpreter.new registry h = .ok i h') :
    h'.recursionLimit = max h.recursionLimit h.settings.limit := by
  obtain ⟨h₀, hchoose, hfounded⟩ := new_ok hnew
  have hrules := chooseRegistry_rules registry h.settled
  rw [hchoose] at hrules
  rw [(hrules.trans hfounded.rules).limit, Nat.max_comm]
  rfl

end Interpreter

/-- **What comes of making an interpreter.** -/
theorem Host.making (h : Host) (registry : Option RegistryId) : h.Making registry := by
  by_cases hlarge : h.recursionLimit < h.settings.limit ∧ Host.largestLimit < h.settings.limit
  · obtain ⟨text, htext, hnew⟩ := Interpreter.new_of_largest registry hlarge.1 hlarge.2
    refine ⟨fun i h' => Interpreter.limit_of_new, iff_of_true ⟨_, _, hnew⟩ hlarge, ?_⟩
    intro stop h' hstop
    rw [hnew] at hstop
    cases hstop
    exact ⟨⟨text, htext, rfl⟩, rfl⟩
  · obtain ⟨i, h₁, hnew⟩ := Interpreter.new_of_fits (h := h) registry (by omega)
    have hmade : ∀ stop h', Interpreter.new registry h ≠ .error stop h' := by
      intro stop h' hstop
      rw [hnew] at hstop
      cases hstop
    refine ⟨fun i h' => Interpreter.limit_of_new, iff_of_false ?_ hlarge, fun stop h' hstop => ?_⟩
    · rintro ⟨stop, h', hstop⟩
      exact hmade stop h' hstop
    · exact absurd hstop (hmade stop h')

/-! ## Other operations -/

namespace KeepsRules

theorem noteSealed (r : Registry) : KeepsRules (HostM.noteSealed r) := by
  unfold HostM.noteSealed
  split
  · exact .pure ()
  · exact note _ _ _

theorem sealRegistry (id : RegistryId) : KeepsRules (HostM.sealRegistry id) :=
  bind get fun _ => bind (noteSealed _) fun _ => setRegistry _ _

theorem bindAll (id : RegistryId) (env : EnvId) : KeepsRules (HostM.bindAll id env) :=
  .modify fun _ => ⟨rfl, rfl, rfl, rfl, rfl⟩

theorem populatedRoot (id : RegistryId) : KeepsRules (HostM.populatedRoot id) :=
  bind (sealRegistry id) fun _ => bind (act _) fun env => bind (bindAll id env) fun _ => .pure env

theorem parent (env : EnvId) : KeepsRules (HostM.parent env) := by
  refine bind get fun h => ?_
  split
  · exact .pure _
  · exact eval _

theorem newRegistry : KeepsRules HostM.newRegistry := fun _ => ⟨rfl, rfl, rfl, rfl, rfl⟩

end KeepsRules

namespace HostOperation

/-- The limit configured for the interpreter that an operation makes, if it makes one. -/
def madeLimit? (o : HostOperation) (h : Host) : Option Nat :=
  match o with
  | .newInterpreter registry =>
    match Interpreter.new registry h with
    | .ok _ _ => some h.settings.limit
    | .error _ _ => none
  | _ => none

/-- **What an operation does to the limit.** -/
theorem limit_after (o : HostOperation) (h : Host) :
    (o.after h).recursionLimit = (o.madeLimit? h).toList.foldl max h.recursionLimit := by
  have hkeeps : ∀ {x : HostM Unit}, KeepsRules x →
      (endHost (x h)).recursionLimit = h.recursionLimit := fun hx => (hx h).limit
  unfold after
  cases o with
  | newInterpreter registry =>
    rw [perform, endHost_drop, madeLimit?]
    cases hnew : Interpreter.new registry h with
    | ok i h' => exact (h.making registry).raised i h' hnew
    | error stop h' =>
      rw [((h.making registry).refused stop h' hnew).2]
      rfl
  | configure settings => rfl
  | evaluator o =>
    rw [perform]
    exact hkeeps (.eval _)
  | forcedValue v => exact hkeeps (.bind (.eval _) fun _ => .pure ())
  | parent env => exact hkeeps (.bind (.parent env) fun _ => .pure ())
  | newRegistry => exact hkeeps (.bind .newRegistry fun _ => .pure ())
  | register => exact hkeeps (.bind (.register _ _ _ _) fun _ => .pure ())
  | sharedRegistry => exact hkeeps (.bind .sharedRegistry fun _ => .pure ())
  | sealRegistry id => exact hkeeps (.sealRegistry id)
  | bindAll id env => exact hkeeps (.bindAll id env)
  | populatedRoot id => exact hkeeps (.bind (.populatedRoot id) fun _ => .pure ())
  | define i name v =>
    rw [perform, Interpreter.define]
    exact hkeeps (.act _)
  | interpret i e => exact hkeeps (.bind (.eval _) fun _ => .pure ())
  | run i e =>
    refine hkeeps (.bind ?_ fun _ => .pure ())
    rw [Interpreter.run_eq]
    exact .eval _

end HostOperation

/-! ## Sessions -/

namespace HostSession

/-- The limits configured for the interpreters that a session makes. -/
def madeLimits : List HostOperation → Host → List Nat
  | [], _ => []
  | o :: session, h => (o.madeLimit? h).toList ++ madeLimits session (o.after h)

/-- **The limit at the end of a session.** -/
theorem limit_after (session : List HostOperation) (h : Host) :
    (after session h).recursionLimit = (madeLimits session h).foldl max h.recursionLimit := by
  induction session generalizing h with
  | nil => rfl
  | cons o session ih =>
    change (after session (o.after h)).recursionLimit = _
    rw [ih, o.limit_after, madeLimits, List.foldl_append]

theorem le_foldl_max (limits : List Nat) (limit : Nat) : limit ≤ limits.foldl max limit := by
  induction limits generalizing limit with
  | nil => exact Nat.le_refl _
  | cons l limits ih => exact Nat.le_trans (Nat.le_max_left limit l) (ih _)

end HostSession

/-- **The recursion limit only grows.** Take any host and any session of it, in which the
settings may change and interpreters be made on any registries as often as one likes. Whenever
an interpreter is made after it, the limit is the higher one of the limit before and the
configured limit; the interpreter is refused exactly when the configured limit is higher than
the present one and than the largest that can be set, and then all registries, which of them is
shared, and the whole store are as before. Whatever else comes after the session, the limit
never falls. At the end it is the highest of the limit at the start and of the limits configured
for the interpreters made. -/
theorem limit_only_grows (h : Host) (session : List HostOperation) :
    (∀ registry, (HostSession.after session h).Making registry) ∧
      (∀ later, (HostSession.after session h).recursionLimit ≤
        (HostSession.after (session ++ later) h).recursionLimit) ∧
      (HostSession.after session h).recursionLimit =
        (HostSession.madeLimits session h).foldl max h.recursionLimit := by
  refine ⟨(HostSession.after session h).making, fun later => ?_, HostSession.limit_after session h⟩
  rw [HostSession.after_append, HostSession.limit_after later]
  exact HostSession.le_foldl_max _ _

/-- A text that is no number counts as the default, and a limit that is too large is passed over. -/
example :
    let session := ["500", "lots", "99999999999", "20_000", "7"].flatMap fun raw =>
      [.configure { recursionLimit := some raw }, .newInterpreter none]
    HostSession.madeLimits session Prelude.freshHost = [500, 10000, 20000, 7] ∧
      (HostSession.after session Prelude.freshHost).recursionLimit = 20000 := by
  decide +kernel

end LispCore
