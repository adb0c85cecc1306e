import LispCore.Proofs.Tandem
import LispCore.Proofs.Registered

/-! # Making interpreters

An interpreter is an outermost environment with the natives of a registry in its frame.
Before it is made the level of the journal and the recursion limit are set, and its registry is
chosen; the first interpreter on the shared registry makes that as well. All this has an
effect once: a second interpreter on the same registry finds what the first one set, and
making it does no more than make its environment (`Founded`, `Interpreter.founded_again`).

Two interpreters on one registry are therefore made in tandem, each in a store of its own,
and a renaming of the stores grows by their environments and frames (`Founded.further`). -/
namespace LispCore

variable {fixed : Mark → Prop} {ρ : Renaming fixed} {s s' : Store}

/-! ## Rules -/

/-- The hosts evaluate by the same rules: with the same natives, settings and limits. -/
structure Host.SameRules (h h' : Host) : Prop where
  library : h'.library = h.library
  settings : h'.settings = h.settings
  level : h'.level = h.level
  limit : h'.recursionLimit = h.recursionLimit
  links : h'.links = h.links

namespace Host.SameRules
variable {h h' h'' : Host}

theorem refl (h : Host) : h.SameRules h := ⟨rfl, rfl, rfl, rfl, rfl⟩

theorem trans (hr : h.SameRules h') (hr' : h'.SameRules h'') : h.SameRules h'' where
  library := hr'.library.trans hr.library
  settings := hr'.settings.trans hr.settings
  level := hr'.level.trans hr.level
  limit := hr'.limit.trans hr.limit
  links := hr'.links.trans hr.links

theorem machine (hr : h.SameRules h') : h'.machine = h.machine := by
  simp only [Host.machine, hr.library, hr.settings, hr.level, hr.links]

end Host.SameRules

/-- The computation does not change the rules. -/
def KeepsRules {α : Type} (x : HostM α) : Prop := ∀ h : Host, h.SameRules (endHost (x h))

namespace KeepsRules
variable {α β : Type}

protected theorem pure (a : α) : KeepsRules (pure a : HostM α) := fun h => .refl h

theorem bind {x : HostM α} {f : α → HostM β} (hx : KeepsRules x) (hf : ∀ a, KeepsRules (f a)) :
    KeepsRules (x >>= f) :=
  endHost_bind .trans hx hf

theorem get : KeepsRules (get : HostM Host) := fun h => .refl h

protected theorem modify {f : Host → Host} (hf : ∀ h : Host, h.SameRules (f h)) :
    KeepsRules (modify f : HostM Unit) := hf

theorem eval (f : Machine → Nat → EvalM α) : KeepsRules (HostM.eval f) := by
  intro h
  unfold HostM.eval
  split <;> exact ⟨rfl, rfl, rfl, rfl, rfl⟩

theorem act (f : Store → α × Store) : KeepsRules (HostM.act f) := by
  rw [HostM.act_eq_eval]
  exact eval _

theorem note (source : Source) (severity : Severity) (text : String) :
    KeepsRules (HostM.note source severity text) := .modify fun _ => ⟨rfl, rfl, rfl, rfl, rfl⟩

theorem setRegistry (id : RegistryId) (r : Registry) :
    KeepsRules (modify (·.setRegistry id r) : HostM Unit) :=
  .modify fun _ => ⟨rfl, rfl, rfl, rfl, rfl⟩

theorem register (id : RegistryId) (name routine : String) (isLazy : Bool) :
    KeepsRules (HostM.register id name routine isLazy) := by
  refine bind get fun h => ?_
  dsimp only
  split
  · exact eval _
  · refine bind ?_ fun _ => bind (act _) fun mark => bind (setRegistry _ _) fun _ => .pure _
    unfold HostM.noteReplaced
    split
    · exact note _ _ _
    · exact .pure ()

theorem sharedRegistry : KeepsRules HostM.sharedRegistry := by
  refine bind get fun h => ?_
  split
  · exact .pure _
  · refine bind (fun h => ⟨rfl, rfl, rfl, rfl, rfl⟩) fun id => ?_
    refine bind (.modify fun _ => ⟨rfl, rfl, rfl, rfl, rfl⟩) fun _ => ?_
    exact bind (bind (register _ _ _ _) fun _ => .pure ()) fun _ => .pure _

end KeepsRules

/-! ## What making an interpreter does to the host -/

/-- The interpreter `i` has been made on the registry `r` in the host `h`, which is `h'` now. -/
structure Founded (r : RegistryId) (h : Host) (i : Interpreter) (h' : Host) : Prop where
  store : ∃ s, h.store.SameObjects s ∧ i.env = s.newRoot.1 ∧
    h'.store = (h.registry r).bindAll s.newRoot.1 s.newRoot.2
  table : (h'.registry r).table = (h.registry r).table
  rules : h.SameRules h'

theorem Host.table_sealed (h : Host) (r : RegistryId) :
    ((h.setRegistry r (h.registry r).sealed).registry r).table = (h.registry r).table := by
  rw [Host.registry_setRegistry]
  split <;> rfl

namespace HostM

theorem bind_ok {α β : Type} {x : HostM α} {f : α → HostM β} {h h' : Host} {a : α}
    (hx : x h = .ok a h') : (x >>= f) h = f a h' := by
  change EStateM.bind x f h = f a h'
  simp only [EStateM.bind, hx]

theorem of_bind_ok {α β : Type} {x : HostM α} {f : α → HostM β} {h h' : Host} {b : β}
    (hxf : (x >>= f) h = .ok b h') : ∃ a h₁, x h = .ok a h₁ ∧ f a h₁ = .ok b h' := by
  change EStateM.bind x f h = .ok b h' at hxf
  unfold EStateM.bind at hxf
  split at hxf
  · exact ⟨_, _, ‹_›, hxf⟩
  · cases hxf

/-- That a registry is sealed is noted the first time. -/
theorem sealRegistry_ok (r : RegistryId) (h : Host) :
    ∃ s, h.store.SameObjects s ∧ HostM.sealRegistry r h =
      .ok () { h.setRegistry r (h.registry r).sealed with store := s } := by
  have heq : HostM.sealRegistry r h = (HostM.noteSealed (h.registry r) >>= fun _ =>
      modify (·.setRegistry r (h.registry r).sealed)) h := rfl
  rw [heq, HostM.noteSealed]
  split
  · exact ⟨h.store, .refl h.store, rfl⟩
  · exact ⟨_, h.store.sameObjects_note _ _, rfl⟩

theorem populatedRoot_founded {r : RegistryId} {h h' : Host} {env : EnvId}
    (hroot : HostM.populatedRoot r h = .ok env h') : Founded r h ⟨r, env⟩ h' := by
  obtain ⟨s, hs, hseal⟩ := sealRegistry_ok r h
  rw [HostM.populatedRoot, bind_ok hseal] at hroot
  cases hroot
  refine ⟨⟨s, hs, rfl, ?_⟩, h.table_sealed r, ⟨rfl, rfl, rfl, rfl, rfl⟩⟩
  change ((h.setRegistry r (h.registry r).sealed).registry r).bindAll s.newRoot.1 s.newRoot.2 = _
  simp only [Registry.bindAll, h.table_sealed r]

/-- The shared registry is there already, or it is the next one. -/
theorem sharedRegistry_ok {r : RegistryId} {h h' : Host}
    (hr : HostM.sharedRegistry h = .ok r h') : h' = h ∨ r.index = h.registries.size := by
  obtain ⟨now, h₀, hget, hr⟩ := of_bind_ok hr
  cases hget
  cases hshared : h.shared with
  | some id =>
    rw [hshared] at hr
    cases hr
    exact .inl rfl
  | none =>
    rw [hshared] at hr
    obtain ⟨id, h₁, hid, hrest⟩ := of_bind_ok hr
    obtain ⟨_, h₂, _, hrest⟩ := of_bind_ok hrest
    obtain ⟨_, h₃, _, hpure⟩ := of_bind_ok hrest
    cases hpure
    cases hid
    exact .inr rfl

end HostM

/-! ## Two interpreters on one registry -/

/-- The host with level and limit as they are set before an interpreter is made. -/
def Host.settled (h : Host) : Host :=
  { h with
    level := h.settings.level?.getD h.level
    recursionLimit := max h.settings.limit h.recursionLimit }

theorem Host.settled_settled (h : Host) : h.settled.settled = h.settled := by
  have hlevel : h.settings.level?.getD (h.settings.level?.getD h.level) =
      h.settings.level?.getD h.level := by
    cases h.settings.level? <;> rfl
  simp only [Host.settled, hlevel, ← Nat.max_assoc, Nat.max_self]

theorem Host.SameRules.settled {h h' : Host} (hr : h.settled.SameRules h') : h'.settled = h' := by
  have hlevel : h'.settings.level?.getD h'.level = h'.level := by
    rw [hr.settings, hr.level]
    exact congrArg Host.level h.settled_settled
  have hlimit : max h'.settings.limit h'.recursionLimit = h'.recursionLimit := by
    rw [hr.settings, hr.limit]
    exact congrArg Host.recursionLimit h.settled_settled
  rw [Host.settled, hlevel, hlimit]

theorem Interpreter.raiseLimit_ok {h h' : Host} (hraise : Interpreter.raiseLimit h = .ok () h') :
    h' = { h with recursionLimit := max h.settings.limit h.recursionLimit } := by
  change (if h.settings.limit ≤ h.recursionLimit then pure ()
    else if h.settings.limit ≤ Host.largestLimit then
      set { h with recursionLimit := h.settings.limit }
    else HostM.raise .limitRange : HostM Unit) h = .ok () h' at hraise
  split at hraise
  · next hle =>
    cases hraise
    rw [Nat.max_eq_right hle]
  · next hlt =>
    split at hraise
    · cases hraise
      rw [Nat.max_eq_left (Nat.le_of_not_le hlt)]
    · cases hraise

namespace Interpreter
variable {o o' : Option RegistryId} {h h₁ h₂ : Host} {i j : Interpreter}

/-- An interpreter is made by making its environment, in the host in which its registry has
been chosen. -/
theorem new_root (hnew : Interpreter.new o h = .ok i h₁) :
    ∃ h₀, Interpreter.chooseRegistry o h.settled = .ok i.registry h₀ ∧
      HostM.populatedRoot i.registry h₀ = .ok i.env h₁ := by
  have heq : Interpreter.new o h = (Interpreter.raiseLimit >>= fun _ =>
      Interpreter.chooseRegistry o >>= fun r => HostM.populatedRoot r >>= fun env => pure ⟨r, env⟩)
        { h with level := h.settings.level?.getD h.level } := rfl
  rw [heq] at hnew
  obtain ⟨⟨⟩, h', hraise, hnew⟩ := HostM.of_bind_ok hnew
  obtain rfl := Interpreter.raiseLimit_ok hraise
  obtain ⟨r, h₀, hchoose, hnew⟩ := HostM.of_bind_ok hnew
  obtain ⟨env, h', hroot, hnew⟩ := HostM.of_bind_ok hnew
  cases hnew
  exact ⟨h₀, hchoose, hroot⟩

theorem new_ok (hnew : Interpreter.new o h = .ok i h₁) :
    ∃ h₀, Interpreter.chooseRegistry o h.settled = .ok i.registry h₀ ∧
      Founded i.registry h₀ i h₁ := by
  obtain ⟨h₀, hchoose, hroot⟩ := new_root hnew
  exact ⟨h₀, hchoose, HostM.populatedRoot_founded hroot⟩

theorem chooseRegistry_rules (o : Option RegistryId) : KeepsRules (chooseRegistry o) := by
  cases o with
  | none => exact .sharedRegistry
  | some r => exact .pure r

theorem chooseRegistry_grows (o : Option RegistryId) : Grows (chooseRegistry o) := by
  cases o with
  | none => exact .sharedRegistry
  | some r => exact .pure r

/-- The host that an interpreter is made in. -/
theorem founded (hnew : Interpreter.new o h = .ok i h₁) (hmarks : h.Registered) :
    ∃ h₀, Founded i.registry h₀ i h₁ ∧ h.settled.SameRules h₀ ∧ h₀.Registered := by
  obtain ⟨h₀, hchoose, hfounded⟩ := new_ok hnew
  have hrules := chooseRegistry_rules o h.settled
  have hgrown := chooseRegistry_grows o h.settled
  rw [hchoose] at hrules hgrown
  exact ⟨h₀, hfounded, hrules, hgrown.registered hmarks⟩

theorem registered (hnew : Interpreter.new o h = .ok i h₁) (hmarks : h.Registered) :
    h₁.Registered := by
  have hgrown := Grows.newInterpreter o h
  rw [hnew] at hgrown
  exact hgrown.registered hmarks

/-- A second interpreter on the same registry is made in the host as the first one left it. -/
theorem founded_again (hi : Interpreter.new o h = .ok i h₁) (hj : Interpreter.new o' h₁ = .ok j h₂)
    (hr : j.registry = i.registry) (hin : i.registry.index < h₁.registries.size) :
    Founded i.registry h₁ j h₂ := by
  obtain ⟨h₀, hchoose, hfounded⟩ := new_ok hi
  have hrules := chooseRegistry_rules o h.settled
  rw [hchoose] at hrules
  obtain ⟨h₀', hchoose', hfounded'⟩ := new_ok hj
  rw [(hrules.trans hfounded.rules).settled] at hchoose'
  have hsame : h₀' = h₁ := by
    cases o' with
    | some r =>
      cases hchoose'
      rfl
    | none =>
      rcases HostM.sharedRegistry_ok hchoose' with hsame | hnext
      · exact hsame
      · rw [hr] at hnext
        omega
  rw [hr, hsame] at hfounded'
  exact hfounded'

end Interpreter

/-! ## Making interpreters in tandem -/

theorem Coincide.bindAll (hm : Coincide ρ s s') {env env' : EnvId}
    (he : ρ.object (.env env) (.env env')) (r : Registry) (hr : ∀ mark, r.Marks mark → fixed mark) :
    ∃ σ, Further ρ s' σ (r.bindAll env s) (r.bindAll env' s') := by
  have hall : ∀ e ∈ r.table.entries, fixed e.2.mark := fun e he => hr _ ⟨e, he, rfl⟩
  unfold Registry.bindAll
  generalize r.table.entries = entries at hall ⊢
  induction entries generalizing ρ s s' with
  | nil => exact ⟨ρ, hm.refl⟩
  | cons e entries ih =>
    obtain ⟨name, mark, routine, title, isLazy⟩ := e
    have hmark : ρ.mark mark mark :=
      ρ.fixes (hall (name, ⟨mark, routine, title, isLazy⟩) (List.mem_cons_self ..))
    obtain ⟨σ, hon⟩ := hm.bind he name (.native routine title isLazy hmark)
    obtain ⟨τ, hon'⟩ := ih hon.coincide (hon.le.object he)
      fun e he => hall e (List.mem_cons_of_mem _ he)
    exact ⟨τ, hon.trans hon'⟩

theorem Founded.marks_eq {r : RegistryId} {h h' : Host} {i : Interpreter} (hi : Founded r h i h') :
    (h'.registry r).Marks = (h.registry r).Marks := by
  funext mark
  simp only [Registry.Marks, hi.table]

/-- **Two interpreters on registries with the same natives are made in tandem.** -/
theorem Founded.further {r : RegistryId} {h h₁ h' h₁' : Host} {i i' : Interpreter}
    (hi : Founded r h i h₁) (hi' : Founded r h' i' h₁')
    (htable : (h'.registry r).table = (h.registry r).table)
    (hmarks : ∀ mark, (h.registry r).Marks mark → fixed mark)
    (hm : Coincide ρ h.store h'.store) :
    ∃ σ, Further ρ h'.store σ h₁.store h₁'.store ∧ σ.object (.env i.env) (.env i'.env) := by
  obtain ⟨s, hs, henv, hstore⟩ := hi.store
  obtain ⟨s', hs', henv', hstore'⟩ := hi'.store
  have hstay := hm.stay hs hs'
  obtain ⟨σ, hroot, hobject⟩ := hstay.coincide.newEnvironment .none .empty
  obtain ⟨τ, hbound⟩ := hroot.coincide.bindAll hobject (h.registry r) hmarks
  have hsame : (h'.registry r).bindAll s'.newRoot.1 s'.newRoot.2 =
      (h.registry r).bindAll s'.newRoot.1 s'.newRoot.2 := by
    simp only [Registry.bindAll, htable]
  rw [hstore, hstore', henv, henv', hsame]
  exact ⟨τ, (hstay.trans hroot).trans hbound, hbound.le.object hobject⟩

/-- At the beginning nothing is renamed but the natives of the registry. -/
theorem Founded.start {r : RegistryId} {h h₁ h' h₁' : Host} {i i' : Interpreter}
    (hi : Founded r h i h₁) (hi' : Founded r h' i' h₁') (hfixed : (h.registry r).Marks = fixed)
    (htable : (h'.registry r).table = (h.registry r).table) (hmarks : h.Registered)
    (hmarks' : h'.Registered) :
    ∃ σ : Renaming fixed, Further (.initial fixed) h'.store σ h₁.store h₁'.store ∧
      σ.object (.env i.env) (.env i'.env) := by
  subst hfixed
  have hnatives : ∀ mark, (h.registry r).Marks mark → mark.index < h'.store.marks := by
    intro mark hm
    exact hmarks' r mark (by rwa [Registry.Marks, htable])
  exact hi.further hi' htable (fun _ hm => hm) (.initial (hmarks r) hnatives)

/-! ## Nominal machines -/

theorem Bootstrap.extend_nominal {library : Library} (h : library.Nominal fixed) :
    (Bootstrap.extend library).Nominal fixed := by
  intro key ρ params params' env env' hp he
  unfold Bootstrap.extend
  split
  · cases hp with
    | pair _ hv _ => exact .ask nofun (.evaluate hv he) fun _ _ _ _ ha => .done ha
    | _ => exact .done ⟨rfl, .nil⟩
  · exact h key ρ params params' env env' hp he

end LispCore
