import LispCore.Proofs.HostSession
import LispCore.Proofs.Reach

/-! # The marks of registered natives

A native gets its mark when it is registered, from the store, which gives out every
mark once. So the marks of all registered natives have been given out, and nothing that
is made later has one of them. That holds of every host that a session leads to from one
without registries (`HostSession.registered`).

Operations of hosts either leave the registries as they are or go through one of three
changes, a new registry, a seal and a new native, and none of them takes marks back
(`Host.Grown`). -/
namespace LispCore

open Store (Touched)

/-- The marks of the natives of a registry. -/
def Registry.Marks (r : Registry) (mark : Mark) : Prop := ∃ e ∈ r.table.entries, e.2.mark = mark

theorem Registry.marks_register {r : Registry} {p : Native} {mark : Mark}
    (h : (r.register p).Marks mark) : mark = p.mark ∨ r.Marks mark := by
  obtain ⟨⟨name, q⟩, hq, rfl⟩ := h
  rcases Bindings.mem_insertIn hq with rfl | hq
  · exact .inl rfl
  · exact .inr ⟨(name, q), hq, rfl⟩

/-- The marks of all registered natives have been given out. -/
def Host.Registered (h : Host) : Prop :=
  ∀ r mark, (h.registry r).Marks mark → mark.index < h.store.marks

theorem Host.registered_of_empty {h : Host} (hempty : h.registries = #[]) : h.Registered := by
  intro r mark hm
  rw [Host.registry, hempty] at hm
  obtain ⟨e, he, -⟩ := hm
  cases he

theorem Host.registry_setRegistry (h : Host) (id other : RegistryId) (r : Registry) :
    (h.setRegistry id r).registry other =
      if id = other ∧ id.index < h.registries.size then r else h.registry other := by
  obtain ⟨i⟩ := id
  obtain ⟨k⟩ := other
  simp only [Host.registry, Host.setRegistry, Array.getD_eq_getD_getElem?,
    Array.getElem?_setIfInBounds, RegistryId.mk.injEq]
  by_cases hik : i = k
  · by_cases hk : k < h.registries.size <;> simp [hik, hk]
  · simp [hik]

/-! ## Marks are not taken back -/

theorem Store.Touched.marks_le {s t : Store} (h : Touched s t) : s.marks ≤ t.marks := by
  induction h with
  | trans _ _ ih ih' => exact Nat.le_trans ih ih'
  | mark s => exact Nat.le_succ _
  | note s level r =>
    unfold Store.note
    split <;> exact Nat.le_refl _
  | child s env contents =>
    unfold Store.newChild
    split <;> exact Nat.le_refl _
  | bind s env name v =>
    unfold Store.bind
    split <;> exact Nat.le_refl _
  | _ => exact Nat.le_refl _

theorem marks_law : TraceLaw fun s _ t => s.marks ≤ t.marks where
  touched h := h.marks_le
  append := Nat.le_trans
  stopped _ _ h := h
  returned _ _ _ h := h
  cached _ := Nat.le_refl _
  answered _ _ h := h

/-- Marks have not been taken back, and those of new natives have been given out. -/
structure Host.Grown (h h' : Host) : Prop where
  marks : h.store.marks ≤ h'.store.marks
  natives : ∀ r mark, (h'.registry r).Marks mark →
    (h.registry r).Marks mark ∨ mark.index < h'.store.marks

namespace Host.Grown
variable {h h' h'' : Host}

theorem trans (hg : h.Grown h') (hg' : h'.Grown h'') : h.Grown h'' where
  marks := Nat.le_trans hg.marks hg'.marks
  natives r mark hm := by
    rcases hg'.natives r mark hm with hm | hlt
    · rcases hg.natives r mark hm with hm | hlt
      · exact .inl hm
      · exact .inr (Nat.lt_of_lt_of_le hlt hg'.marks)
    · exact .inr hlt

theorem of_same (hmarks : h.store.marks ≤ h'.store.marks) (hr : h'.registries = h.registries) :
    h.Grown h' :=
  ⟨hmarks, fun r mark hm => .inl (by rwa [Host.registry, hr] at hm)⟩

/-- One registry has been changed. -/
theorem of_set (id : RegistryId) (r : Registry) (hmarks : h.store.marks ≤ h'.store.marks)
    (hr : h'.registries = (h.setRegistry id r).registries)
    (hnew : ∀ mark, r.Marks mark → (h.registry id).Marks mark ∨ mark.index < h'.store.marks) :
    h.Grown h' := by
  refine ⟨hmarks, fun other mark hm => ?_⟩
  rw [Host.registry, hr, ← Host.registry, Host.registry_setRegistry] at hm
  split at hm
  · next ho => exact ho.1 ▸ hnew mark hm
  · exact .inl hm

theorem registered (hg : h.Grown h') (hr : h.Registered) : h'.Registered := by
  intro r mark hm
  rcases hg.natives r mark hm with hm | hlt
  · exact Nat.lt_of_lt_of_le (hr r mark hm) hg.marks
  · exact hlt

end Host.Grown

/-! ## Operations -/

theorem endHost_eval_registries {α : Type} (f : Machine → Nat → EvalM α) (h : Host) :
    (endHost (HostM.eval f h)).registries = h.registries := by
  unfold HostM.eval
  split <;> rfl

theorem HostM.register_eq (id : RegistryId) (name routine : String) (isLazy : Bool) (h : Host) :
    HostM.register id name routine isLazy h =
      (if (h.registry id).isSealed then HostM.raise (.registrySealed name)
      else do
        HostM.noteReplaced (h.registry id) name
        let mark ← HostM.act Store.newMark
        let p : Native := ⟨mark, routine, name, isLazy⟩
        modify (·.setRegistry id ((h.registry id).register p))
        pure p : HostM Native) h := rfl

theorem endHost_raiseLimit_registries (h : Host) :
    (endHost (Interpreter.raiseLimit h)).registries = h.registries := by
  unfold Interpreter.raiseLimit
  change (endHost ((if h.settings.limit ≤ h.recursionLimit then _
    else if h.settings.limit ≤ Host.largestLimit then _ else _ : HostM Unit) h)).registries = _
  split
  · rfl
  · split <;> rfl

/-- Whether an operation has to do with registries. -/
def HostOperation.isRegistering : HostOperation → Bool
  | .newRegistry | .register .. | .sharedRegistry | .sealRegistry _ | .populatedRoot _ => true
  | .newInterpreter _ => true
  | _ => false

/-- All other operations leave the registries alone. -/
theorem HostOperation.registries_after {o : HostOperation} (ho : o.isRegistering = false) (h : Host) :
    (o.after h).registries = h.registries := by
  unfold HostOperation.after
  cases o with
  | newRegistry | register | sharedRegistry | sealRegistry | populatedRoot | newInterpreter => cases ho
  | evaluator o => exact endHost_eval_registries (fun m d => o.run m d (m.perform d)) h
  | configure | bindAll | define => rfl
  | forcedValue v =>
    rw [HostOperation.perform, endHost_drop]
    exact endHost_eval_registries _ h
  | parent env =>
    rw [HostOperation.perform, endHost_drop]
    cases hp : h.store.parent? env with
    | some outer => rw [HostM.parent_of_some hp, endHost]
    | none => rw [HostM.parent_of_none hp, endHost]
  | interpret i e =>
    rw [HostOperation.perform, endHost_drop]
    exact endHost_eval_registries _ h
  | run i e =>
    rw [HostOperation.perform, endHost_drop, Interpreter.run_eq]
    exact endHost_eval_registries _ h

/-- The computation lets the host grow. -/
def Grows {α : Type} (x : HostM α) : Prop := ∀ h : Host, h.Grown (endHost (x h))

namespace Grows
variable {α β : Type}

theorem bind {x : HostM α} {f : α → HostM β} (hx : Grows x) (hf : ∀ a, Grows (f a)) :
    Grows (x >>= f) :=
  endHost_bind .trans hx hf

/-- Computations that have nothing to do with registries. -/
theorem of_touched {x : HostM α} (hx : StoreTouched x)
    (hr : ∀ h, (endHost (x h)).registries = h.registries) : Grows x :=
  fun h => .of_same (hx h).marks_le (hr h)

protected theorem pure (a : α) : Grows (pure a : HostM α) := of_touched (.pure a) fun _ => rfl

theorem get : Grows (get : HostM Host) := of_touched .get fun _ => rfl

theorem raise (fault : Fault) : Grows (HostM.raise fault : HostM α) :=
  of_touched (.raise fault) fun h => endHost_eval_registries _ h

theorem newRegistry : Grows HostM.newRegistry := by
  refine fun h => ⟨Nat.le_refl _, fun r mark hm => .inl ?_⟩
  have hsame : (endHost (HostM.newRegistry h)).registry r = h.registry r := by
    simp only [HostM.newRegistry, endHost, Host.registry, Array.getD_eq_getD_getElem?,
      Array.getElem?_push]
    split <;> simp [*]
  rwa [hsame] at hm

theorem sealRegistry (id : RegistryId) : Grows (HostM.sealRegistry id) := by
  intro h
  refine .of_set id (h.registry id).sealed (StoreTouched.sealRegistry id h).marks_le ?_
    fun mark hm => .inl hm
  change (endHost ((HostM.noteSealed (h.registry id) >>= fun _ =>
    modify (·.setRegistry id (h.registry id).sealed)) h)).registries = _
  unfold HostM.noteSealed
  split <;> rfl

theorem register (id : RegistryId) (name routine : String) (isLazy : Bool) :
    Grows (HostM.register id name routine isLazy) := by
  intro h
  have hmarks := (StoreTouched.register id name routine isLazy h).marks_le
  revert hmarks
  rw [HostM.register_eq]
  split
  · exact fun _ => raise _ h
  · -- the new native has the mark that the store gives out next, whether or not it replaces another
    unfold HostM.noteReplaced
    split
    all_goals
      intro hmarks
      refine .of_set id _ hmarks rfl fun mark hm => ?_
      rcases Registry.marks_register hm with rfl | hm
      · exact .inr (Nat.lt_succ_self _)
      · exact .inl hm

theorem sharedRegistry : Grows HostM.sharedRegistry := by
  refine bind get fun h => ?_
  split
  · exact .pure _
  · refine bind newRegistry fun id => ?_
    refine bind (of_touched (.modify fun _ => rfl) fun _ => rfl) fun _ => ?_
    exact bind (bind (register _ _ _ _) fun _ => .pure ()) fun _ => .pure _

theorem populatedRoot (id : RegistryId) : Grows (HostM.populatedRoot id) := by
  refine bind (sealRegistry id) fun _ => bind (of_touched (.act .root) fun _ => rfl) fun env => ?_
  exact bind (of_touched (.bindAll id env) fun _ => rfl) fun _ => .pure env

theorem raiseLimit : Grows Interpreter.raiseLimit :=
  of_touched .raiseLimit endHost_raiseLimit_registries

theorem newInterpreter (registry : Option RegistryId) : Grows (Interpreter.new registry) := by
  refine bind (of_touched (.modify fun _ => rfl) fun _ => rfl) fun _ => bind raiseLimit fun _ =>
    bind ?_ fun id => ?_
  · cases registry with
    | none => exact sharedRegistry
    | some id => exact .pure id
  · exact bind (populatedRoot id) fun env => .pure _

end Grows

/-! ## Sessions -/

/-- **Every operation of a host lets it grow.** -/
theorem HostOperation.grown (o : HostOperation) (h : Host) : h.Grown (o.after h) := by
  have hmarks : h.store.marks ≤ (o.after h).store.marks := marks_law.hostOperation o h
  have hsame : (o.after h).registries = h.registries → h.Grown (o.after h) := .of_same hmarks
  cases o with
  | newRegistry => exact Grows.bind .newRegistry (fun _ => .pure ()) h
  | register => exact Grows.bind (.register _ _ _ _) (fun _ => .pure ()) h
  | sharedRegistry => exact Grows.bind .sharedRegistry (fun _ => .pure ()) h
  | sealRegistry id => exact Grows.sealRegistry id h
  | populatedRoot id => exact Grows.bind (.populatedRoot id) (fun _ => .pure ()) h
  | newInterpreter r => exact Grows.bind (.newInterpreter r) (fun _ => .pure ()) h
  | _ => exact hsame (HostOperation.registries_after rfl h)

/-- **The marks of registered natives have been given out**, after every session of a host. -/
theorem HostSession.registered (session : List HostOperation) {h : Host} (hr : h.Registered) :
    (HostSession.after session h).Registered := by
  induction session generalizing h with
  | nil => exact hr
  | cons o session ih => exact ih ((o.grown h).registered hr)

end LispCore
