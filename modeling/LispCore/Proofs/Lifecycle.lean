import LispCore.Proofs.Installing

/-! # The life of a registry

A registry takes natives until it is sealed, and making an outermost environment from
it seals it. What one operation of a host does to a registry is one of three things:
nothing, sealing it, or putting a native into it that is open (`Registry.Becomes`,
`HostOperation.becomes`). Everything else follows from that by going along a session.
The table is what came of the registrations (`HostSession.recorded`), a sealed registry
is never changed (`HostSession.registry_of_sealed`), and so all environments made from a
registry hold the same natives when they are made, whatever has been bound in the others
in the meantime (`HostSession.roots_hold`). -/
namespace LispCore

open Store (Touched)

/-! ## Registering -/

/-- A registration that was accepted: what was asked for, and the native it gave. -/
structure Registration where
  name : String
  routine : String
  isLazy : Bool
  native : Native

namespace Registration

/-- What the registry is to hold for it. -/
def entry (g : Registration) : String × Native := (g.name, g.native)

/-- The native has the name, the routine and the laziness that were asked for. -/
structure Faithful (g : Registration) : Prop where
  name : g.native.name = g.name
  routine : g.native.routine = g.routine
  isLazy : g.native.isLazy = g.isLazy

end Registration

namespace HostM
variable {h : Host} {id : RegistryId}

/-- A sealed registry takes nothing, and nothing changes. -/
theorem register_of_sealed (hs : (h.registry id).isSealed = true) (name routine : String)
    (isLazy : Bool) : register id name routine isLazy h =
      .error (.raised (.registrySealed name)
        ("Cannot register '" ++ name ++ "' after start-up")) h := by
  rw [register_eq, if_pos hs]
  rfl

/-- An open registry takes a native with the next mark. -/
theorem register_of_open (hs : (h.registry id).isSealed = false) (name routine : String)
    (isLazy : Bool) :
    ∃ h', register id name routine isLazy h = .ok ⟨⟨h.store.marks⟩, routine, name, isLazy⟩ h' ∧
      h'.registries = (h.setRegistry id ((h.registry id).register
        ⟨⟨h.store.marks⟩, routine, name, isLazy⟩)).registries := by
  rw [register_eq, if_neg (by simp [hs])]
  unfold noteReplaced
  split
  · -- the note is in the store when the mark is taken, but it takes none itself
    have hmarks := (Store.sameObjects_note h.store h.level
      ⟨.registry, .debug, "Replacing native procedure '" ++ name ++ "'"⟩).marks
    rw [← hmarks]
    exact ⟨_, rfl, rfl⟩
  · exact ⟨_, rfl, rfl⟩

end HostM

/-! ## What an operation does to a registry -/

/-- What one operation can do to a registry, with the registration that it made. -/
inductive Registry.Becomes (reg : Registry) : Option Registration → Registry → Prop
  | same : Becomes reg none reg
  | sealed : Becomes reg none reg.sealed
  | registered {g : Registration} : reg.isSealed = false → g.Faithful →
      Becomes reg (some g) (reg.register g.native)

namespace Registry.Becomes
variable {reg reg' reg'' : Registry}

theorem trans (h : reg.Becomes none reg') (h' : reg'.Becomes none reg'') :
    reg.Becomes none reg'' := by
  cases h with
  | same => exact h'
  | sealed =>
    cases h' with
    | same => exact .sealed
    | sealed => exact .sealed

/-- A sealed registry is never changed. -/
theorem eq_of_sealed {g : Option Registration} (h : reg.Becomes g reg')
    (hs : reg.isSealed = true) : reg' = reg := by
  cases h with
  | same => rfl
  | sealed =>
    obtain ⟨table, isSealed⟩ := reg
    cases hs
    rfl
  | registered hopen => simp [hs] at hopen

end Registry.Becomes

/-- The registry is there before and after, and at most it has been sealed. -/
def Host.AtMostSealed (r : RegistryId) (h h' : Host) : Prop :=
  r.index < h.registries.size →
    r.index < h'.registries.size ∧ (h.registry r).Becomes none (h'.registry r)

/-- The computation does no more to the registry than to seal it. -/
def SealsAtMost {α : Type} (r : RegistryId) (x : HostM α) : Prop :=
  ∀ h : Host, h.AtMostSealed r (endHost (x h))

theorem Host.registry_push (h : Host) (reg : Registry) (r : RegistryId) :
    ({ h with registries := h.registries.push reg } : Host).registry r =
      if r.index = h.registries.size then reg else h.registry r := by
  simp only [Host.registry, Array.getD_eq_getD_getElem?, Array.getElem?_push]
  split <;> rfl

/-- The shared registry is made with one native in it, and the others stay as they are. -/
theorem HostM.sharedRegistry_made {h : Host} (hnone : h.shared = none) :
    ∃ h', sharedRegistry h = .ok ⟨h.registries.size⟩ h' ∧
      h'.registries.size = h.registries.size + 1 ∧ ∀ r : RegistryId, h'.registry r =
        if r.index = h.registries.size then
          ({} : Registry).register ⟨⟨h.store.marks⟩, Bootstrap.key, Bootstrap.key, true⟩
        else h.registry r := by
  let made : Host := { h with
    registries := h.registries.push {}, shared := some ⟨h.registries.size⟩ }
  have hmade : ∀ r : RegistryId, made.registry r =
      if r.index = h.registries.size then {} else h.registry r := h.registry_push {}
  have hempty : made.registry ⟨h.registries.size⟩ = {} := by simp [hmade]
  have hopen : (made.registry ⟨h.registries.size⟩).isSealed = false := by rw [hempty]
  obtain ⟨h', hregister, hset⟩ := register_of_open hopen Bootstrap.key Bootstrap.key true
  have heval : registerEval ⟨h.registries.size⟩ made = .ok () h' := bind_ok hregister
  have heq : sharedRegistry h =
      (registerEval ⟨h.registries.size⟩ >>= fun _ => pure ⟨h.registries.size⟩ : HostM _) made := by
    rw [sharedRegistry, get_bind, hnone]
    rfl
  refine ⟨h', heq.trans (bind_ok heval), ?_, fun r => ?_⟩
  · simp [hset, Host.setRegistry, made]
  · rw [Host.registry, hset, ← Host.registry, Host.registry_setRegistry, hempty, hmade]
    by_cases hr : r.index = h.registries.size
    · have hid : (⟨h.registries.size⟩ : RegistryId) = r := by rw [← hr]
      rw [if_pos ⟨hid, by simp [made]⟩, if_pos hr]
    · have hid : (⟨h.registries.size⟩ : RegistryId) ≠ r := by
        intro heq
        rw [← heq] at hr
        exact hr rfl
      rw [if_neg fun h => hid h.1, if_neg hr, if_neg hr]

namespace SealsAtMost
variable {α β : Type} {r : RegistryId}

theorem bind {x : HostM α} {f : α → HostM β} (hx : SealsAtMost r x)
    (hf : ∀ a, SealsAtMost r (f a)) : SealsAtMost r (x >>= f) := by
  refine endHost_bind (R := Host.AtMostSealed r) (fun h₁ h₂ hr => ?_) hx hf
  obtain ⟨hr', hbecomes⟩ := h₁ hr
  obtain ⟨hr'', hbecomes'⟩ := h₂ hr'
  exact ⟨hr'', hbecomes.trans hbecomes'⟩

/-- Computations that have nothing to do with registries. -/
theorem of_registries {x : HostM α} (hx : ∀ h, (endHost (x h)).registries = h.registries) :
    SealsAtMost r x := by
  intro h hr
  rw [Host.registry, Host.registry, hx]
  exact ⟨hr, .same⟩

protected theorem pure (a : α) : SealsAtMost r (pure a : HostM α) := of_registries fun _ => rfl

theorem newRegistry : SealsAtMost r HostM.newRegistry := by
  intro h hr
  have hsame := h.registry_push {} r
  rw [if_neg (Nat.ne_of_lt hr)] at hsame
  refine ⟨?_, ?_⟩
  · simp only [HostM.newRegistry, endHost, Array.size_push]
    omega
  · rw [HostM.newRegistry, endHost, hsame]
    exact .same

theorem sealRegistry (id : RegistryId) : SealsAtMost r (HostM.sealRegistry id) := by
  intro h hr
  obtain ⟨s, -, hseal⟩ := HostM.sealRegistry_ok id h
  have hset := Host.registry_setRegistry h id r (h.registry id).sealed
  rw [hseal]
  refine ⟨by simpa [endHost, Host.setRegistry] using hr, ?_⟩
  change (h.registry r).Becomes none ((h.setRegistry id (h.registry id).sealed).registry r)
  rw [hset]
  split
  · next hid =>
    rw [hid.1]
    exact .sealed
  · exact .same

theorem populatedRoot (id : RegistryId) : SealsAtMost r (HostM.populatedRoot id) :=
  bind (sealRegistry id) fun _ => bind (of_registries fun _ => rfl) fun _ =>
    bind (of_registries fun _ => rfl) fun env => .pure env

theorem sharedRegistry : SealsAtMost r HostM.sharedRegistry := by
  intro h hr
  cases hshared : h.shared with
  | some id =>
    have hsame : HostM.sharedRegistry h = .ok id h := by
      rw [HostM.sharedRegistry, HostM.get_bind, hshared]
      rfl
    rw [hsame]
    exact ⟨hr, .same⟩
  | none =>
    obtain ⟨h', hmade, hsize, hregistry⟩ := HostM.sharedRegistry_made hshared
    rw [hmade, endHost, hregistry, if_neg (Nat.ne_of_lt hr)]
    exact ⟨by omega, .same⟩

theorem chooseRegistry (o : Option RegistryId) : SealsAtMost r (Interpreter.chooseRegistry o) := by
  cases o with
  | none => exact sharedRegistry
  | some id => exact .pure id

theorem newInterpreter (o : Option RegistryId) : SealsAtMost r (Interpreter.new o) :=
  bind (of_registries fun _ => rfl) fun _ => bind (of_registries endHost_raiseLimit_registries)
    fun _ => bind (chooseRegistry o) fun id => bind (populatedRoot id) fun _ => .pure _

/-- Registering in another registry. -/
theorem register {id : RegistryId} (hid : id ≠ r) (name routine : String) (isLazy : Bool) :
    SealsAtMost r (HostM.register id name routine isLazy) := by
  intro h hr
  cases hs : (h.registry id).isSealed with
  | true =>
    rw [HostM.register_of_sealed hs]
    exact ⟨hr, .same⟩
  | false =>
    obtain ⟨h', hregister, hset⟩ := HostM.register_of_open hs name routine isLazy
    rw [hregister, endHost, Host.registry, Host.registry, hset, ← Host.registry, ← Host.registry,
      Host.registry_setRegistry, if_neg fun h => hid h.1]
    exact ⟨by simpa [Host.setRegistry] using hr, .same⟩

end SealsAtMost

/-- The registration that an operation makes in a registry, if it makes one. -/
def HostOperation.registration? (r : RegistryId) (o : HostOperation) (h : Host) :
    Option Registration :=
  match o with
  | .register id name routine isLazy =>
    if id = r then
      match HostM.register id name routine isLazy h with
      | .ok p _ => some ⟨name, routine, isLazy, p⟩
      | .error _ _ => none
    else none
  | _ => none

/-- The registrations made in a registry in the course of a session. -/
def HostSession.registrations (r : RegistryId) : List HostOperation → Host → List Registration
  | [], _ => []
  | o :: session, h => (o.registration? r h).toList ++ registrations r session (o.after h)

/-- **What an operation does to a registry.** -/
theorem HostOperation.becomes (o : HostOperation) {r : RegistryId} {h : Host}
    (hr : r.index < h.registries.size) : r.index < (o.after h).registries.size ∧
      (h.registry r).Becomes (o.registration? r h) ((o.after h).registry r) := by
  have hother : o.isRegistering = false → r.index < (o.after h).registries.size ∧
      (h.registry r).Becomes none ((o.after h).registry r) := by
    intro ho
    rw [Host.registry, Host.registry, HostOperation.registries_after ho]
    exact ⟨hr, .same⟩
  cases o with
  | register id name routine isLazy =>
    rw [HostOperation.after, HostOperation.perform, endHost_drop]
    by_cases hid : id = r
    · subst hid
      cases hs : (h.registry id).isSealed with
      | true =>
        simp only [HostOperation.registration?, HostM.register_of_sealed hs]
        exact ⟨hr, .same⟩
      | false =>
        obtain ⟨h', hregister, hset⟩ := HostM.register_of_open hs name routine isLazy
        have hregistry := Host.registry_setRegistry h id id
          ((h.registry id).register ⟨⟨h.store.marks⟩, routine, name, isLazy⟩)
        rw [if_pos ⟨rfl, hr⟩] at hregistry
        simp only [HostOperation.registration?, hregister, endHost, if_pos]
        rw [Host.registry, Host.registry, hset, ← Host.registry, ← Host.registry, hregistry]
        refine ⟨by simpa [Host.setRegistry] using hr, ?_⟩
        exact .registered (g := ⟨name, routine, isLazy, _⟩) hs ⟨rfl, rfl, rfl⟩
    · rw [HostOperation.registration?, if_neg hid]
      exact SealsAtMost.register hid name routine isLazy h hr
  | newRegistry => exact SealsAtMost.bind .newRegistry (fun _ => .pure ()) h hr
  | sharedRegistry => exact SealsAtMost.bind .sharedRegistry (fun _ => .pure ()) h hr
  | sealRegistry id => exact SealsAtMost.sealRegistry id h hr
  | populatedRoot id => exact SealsAtMost.bind (.populatedRoot id) (fun _ => .pure ()) h hr
  | newInterpreter o => exact SealsAtMost.bind (.newInterpreter o) (fun _ => .pure ()) h hr
  | _ => exact hother rfl

/-! ## Registries in the course of a session -/

/-- The table is what came of the registrations, and they gave what was asked for. -/
structure Registry.Recorded (reg : Registry) (gs : List Registration) : Prop where
  table : reg.table = .ofList (gs.map Registration.entry)
  faithful : ∀ g ∈ gs, g.Faithful

/-- The registry holds the last native registered under each name, finds it by that name and
lists the names in their order, and every native has the name it is found by. -/
structure Registry.Reflects (reg : Registry) (gs : List Registration) : Prop where
  table : reg.table = .ofList (gs.map Registration.entry)
  find? : ∀ name, reg.find? name = (gs.reverse.find? (·.name = name)).map (·.native)
  sorted : reg.names.Pairwise (· ≤ ·)
  nodup : reg.names.Nodup
  mem_names : ∀ name, name ∈ reg.names ↔ (reg.find? name).isSome
  entries : ∀ e ∈ reg.table.entries, ∃ g ∈ gs, g.Faithful ∧ e = g.entry

namespace Registry
variable {reg reg' : Registry} {gs : List Registration}

theorem Recorded.becomes (h : reg.Recorded gs) {g : Option Registration}
    (hb : reg.Becomes g reg') : reg'.Recorded (gs ++ g.toList) := by
  cases hb with
  | same | sealed =>
    rw [Option.toList_none, List.append_nil]
    exact ⟨h.table, h.faithful⟩
  | @registered g _ hg =>
    refine ⟨?_, fun g' hg' => ?_⟩
    · rw [Option.toList_some, List.map_append, List.map_singleton, Registration.entry,
        Bindings.ofList_append, ← h.table, register, hg.name]
    · rcases List.mem_append.mp hg' with hg' | hg'
      · exact h.faithful g' hg'
      · rw [List.mem_singleton.mp hg']
        exact hg

theorem Recorded.nodup (h : reg.Recorded gs) : reg.table.names.Nodup := by
  rw [h.table]
  exact Bindings.nodup_override (b := ∅) List.nodup_nil _

theorem Recorded.find?_eq (h : reg.Recorded gs) (name : String) :
    reg.find? name = (gs.reverse.find? (·.name = name)).map (·.native) := by
  have hlast := Bindings.find?_override ∅ (gs.map Registration.entry) name
  rw [Bindings.find?_empty, Option.or_none, ← List.map_reverse, List.find?_map, Option.map_map]
    at hlast
  rw [Registry.find?, h.table]
  exact hlast

theorem Recorded.reflects (h : reg.Recorded gs) : reg.Reflects gs where
  table := h.table
  find? := h.find?_eq
  sorted := by
    have hsorted : reg.names.Pairwise fun a b => decide (a ≤ b) = true := by
      refine List.pairwise_mergeSort (fun a b c hab hbc => ?_) (fun a b => ?_) reg.table.names
      · exact decide_eq_true (String.le_trans (of_decide_eq_true hab) (of_decide_eq_true hbc))
      · simpa using String.le_total a b
    simpa using hsorted
  nodup := (List.mergeSort_perm _ _).nodup_iff.mpr h.nodup
  mem_names name := by
    rw [names, List.mem_mergeSort, ← Bindings.contains_eq_true_iff]
    rfl
  entries e he := by
    have hfound : reg.find? e.1 = some e.2 := Bindings.findIn_of_mem h.nodup he
    rw [h.find?_eq, Option.map_eq_some_iff] at hfound
    obtain ⟨g, hg, hnative⟩ := hfound
    have hmem : g ∈ gs := List.mem_reverse.mp (List.mem_of_find?_eq_some hg)
    have hname : g.name = e.1 := by simpa using List.find?_some hg
    refine ⟨g, hmem, h.faithful g hmem, ?_⟩
    rw [Registration.entry, hname, hnative]

end Registry

namespace HostSession
variable {r : RegistryId} {h : Host} {given : List Registration}

theorem after_append (session later : List HostOperation) (h : Host) :
    after (session ++ later) h = after later (after session h) :=
  List.foldl_append

theorem registry_made (hr : r.index < h.registries.size) (session : List HostOperation) :
    r.index < (after session h).registries.size := by
  induction session generalizing h with
  | nil => exact hr
  | cons o session ih => exact ih (o.becomes hr).1

/-- A sealed registry stays as it is. -/
theorem registry_of_sealed (hr : r.index < h.registries.size)
    (hs : (h.registry r).isSealed = true) (session : List HostOperation) :
    (after session h).registry r = h.registry r := by
  induction session generalizing h with
  | nil => rfl
  | cons o session ih =>
    obtain ⟨hr', hbecomes⟩ := o.becomes hr
    have hsame := hbecomes.eq_of_sealed hs
    exact (ih hr' (hsame ▸ hs)).trans hsame

/-- **A registry holds what was registered in it.** -/
theorem recorded (hr : r.index < h.registries.size) (hgiven : (h.registry r).Recorded given)
    (session : List HostOperation) :
    ((after session h).registry r).Recorded (given ++ registrations r session h) := by
  induction session generalizing h given with
  | nil =>
    rw [registrations, List.append_nil]
    exact hgiven
  | cons o session ih =>
    obtain ⟨hr', hbecomes⟩ := o.becomes hr
    have hrest := ih hr' (hgiven.becomes hbecomes)
    rwa [List.append_assoc] at hrest

end HostSession

/-- A new registry holds nothing. -/
theorem HostM.newRegistry_recorded {h h' : Host} {r : RegistryId}
    (hnew : HostM.newRegistry h = .ok r h') :
    r.index < h'.registries.size ∧ (h'.registry r).Recorded [] := by
  cases hnew
  refine ⟨by simp, ?_, fun g hg => by cases hg⟩
  rw [Host.registry_push, if_pos rfl]
  rfl

/-- The shared registry holds the evaluator when it is made. -/
theorem HostM.sharedRegistry_recorded {h h' : Host} {r : RegistryId} (hnone : h.shared = none)
    (hmade : HostM.sharedRegistry h = .ok r h') : ∃ g : Registration,
      g.name = Bootstrap.key ∧ g.isLazy = true ∧ r.index < h'.registries.size ∧
        (h'.registry r).Recorded [g] := by
  obtain ⟨h'', hmade', hsize, hregistry⟩ := HostM.sharedRegistry_made hnone
  rw [hmade] at hmade'
  cases hmade'
  have hempty : ({} : Registry).Recorded [] := ⟨rfl, fun g hg => by cases hg⟩
  let g : Registration :=
    ⟨Bootstrap.key, Bootstrap.key, true, ⟨⟨h.store.marks⟩, Bootstrap.key, Bootstrap.key, true⟩⟩
  have hg : g.Faithful := ⟨rfl, rfl, rfl⟩
  refine ⟨g, rfl, rfl, by simp [hsize], ?_⟩
  rw [hregistry, if_pos rfl]
  exact hempty.becomes (.registered rfl hg)

/-! ## Environments in the course of a session -/

/-- The outermost environment that an operation makes with the natives of a registry. -/
def HostOperation.root? (r : RegistryId) (o : HostOperation) (h : Host) : Option BuiltRoot :=
  match o with
  | .populatedRoot id =>
    if id = r then
      match HostM.populatedRoot id h with
      | .ok env h' => some ⟨env, h'.store⟩
      | .error _ _ => none
    else none
  | .newInterpreter registry =>
    match Interpreter.new registry h with
    | .ok i h' => if i.registry = r then some ⟨i.env, h'.store⟩ else none
    | .error _ _ => none
  | _ => none

/-- The outermost environments made with the natives of a registry in a session. -/
def HostSession.roots (r : RegistryId) : List HostOperation → Host → List BuiltRoot
  | [], _ => []
  | o :: session, h => (o.root? r h).toList ++ roots r session (o.after h)

/-- An environment of a registry is made in a host that differs from the one at hand in
what was set up before, the registry at most being sealed. -/
theorem HostOperation.root?_eq_some {o : HostOperation} {r : RegistryId} {h : Host} {b : BuiltRoot}
    (hb : o.root? r h = some b) :
    ∃ h₀, h.AtMostSealed r h₀ ∧ Touched h.store h₀.store ∧
      HostM.populatedRoot r h₀ = .ok b.env (o.after h) ∧ b.store = (o.after h).store := by
  cases o with
  | populatedRoot id =>
    simp only [HostOperation.root?] at hb
    split at hb
    · next hid =>
      subst hid
      obtain ⟨env, h', hroot⟩ := HostM.populatedRoot_ok id h
      rw [hroot] at hb
      cases hb
      have hafter : HostOperation.after (.populatedRoot id) h = h' := by
        rw [HostOperation.after, HostOperation.perform, endHost_drop, hroot, endHost]
      rw [hafter]
      exact ⟨h, fun hr => ⟨hr, .same⟩, .refl _, hroot, rfl⟩
    · cases hb
  | newInterpreter registry =>
    simp only [HostOperation.root?] at hb
    cases hnew : Interpreter.new registry h with
    | error stop h' => simp [hnew] at hb
    | ok i h' =>
      simp only [hnew] at hb
      split at hb
      · next hid =>
        subst hid
        cases hb
        obtain ⟨h₀, hchoose, hroot⟩ := Interpreter.new_root hnew
        have hafter : HostOperation.after (.newInterpreter registry) h = h' := by
          rw [HostOperation.after, HostOperation.perform, endHost_drop, hnew, endHost]
        have hseals := SealsAtMost.chooseRegistry (r := i.registry) registry h.settled
        have htouched : StoreTouched (Interpreter.chooseRegistry registry) := by
          cases registry with
          | none => exact .sharedRegistry
          | some id => exact .pure id
        have htouched := htouched h.settled
        rw [hchoose] at hseals htouched
        rw [hafter]
        exact ⟨h₀, hseals, htouched, hroot, rfl⟩
      · cases hb
  | _ => cases hb

namespace HostSession
variable {r : RegistryId} {h : Host} {given : List Registration}

/-- **What a registry's environment is when it has been made**: its registry is sealed, it
holds the natives of that, and it was not there before. -/
theorem root_built (hr : r.index < h.registries.size) (hgiven : (h.registry r).Recorded given)
    {o : HostOperation} {b : BuiltRoot} (hb : o.root? r h = some b) :
    ((o.after h).registry r).isSealed = true ∧ b.Holds ((o.after h).registry r) ∧
      b.Between h.store (o.after h).store := by
  obtain ⟨h₀, hseals, htouched, hroot, hstore⟩ := HostOperation.root?_eq_some hb
  obtain ⟨hr₀, hbecomes⟩ := hseals hr
  have hnodup := (hgiven.becomes hbecomes).nodup
  obtain ⟨hholds, hbetween⟩ := HostM.populatedRoot_root hnodup hroot
  obtain ⟨env, store⟩ := b
  subst hstore
  exact ⟨HostM.populatedRoot_sealed hr₀ hroot, hholds,
    hbetween.widen htouched.wider ⟨Nat.le_refl _, Nat.le_refl _⟩⟩

/-- **The environments made from a registry hold what it holds in the end.** -/
theorem roots_hold (hr : r.index < h.registries.size) (hgiven : (h.registry r).Recorded given)
    (session : List HostOperation) :
    ∀ b ∈ roots r session h, b.Holds ((after session h).registry r) := by
  induction session generalizing h given with
  | nil =>
    intro b hb
    cases hb
  | cons o session ih =>
    intro b hb
    obtain ⟨hr', hbecomes⟩ := o.becomes hr
    rcases List.mem_append.mp hb with hb | hb
    · obtain ⟨hs, hholds, -⟩ := root_built hr hgiven (Option.mem_toList.mp hb)
      have hsame : (after (o :: session) h).registry r = (o.after h).registry r :=
        registry_of_sealed hr' hs session
      rwa [hsame]
    · exact ih hr' (hgiven.becomes hbecomes) b hb

theorem sealed_of_roots (hr : r.index < h.registries.size) (hgiven : (h.registry r).Recorded given)
    (session : List HostOperation) (hroots : roots r session h ≠ []) :
    ((after session h).registry r).isSealed = true := by
  induction session generalizing h given with
  | nil => exact absurd rfl hroots
  | cons o session ih =>
    obtain ⟨hr', hbecomes⟩ := o.becomes hr
    cases hb : o.root? r h with
    | none =>
      rw [roots, hb, Option.toList_none, List.nil_append] at hroots
      exact ih hr' (hgiven.becomes hbecomes) hroots
    | some b =>
      have hs := (root_built hr hgiven hb).1
      have hsame : (after (o :: session) h).registry r = (o.after h).registry r :=
        registry_of_sealed hr' hs session
      rwa [hsame]

theorem roots_between (hr : r.index < h.registries.size) (hgiven : (h.registry r).Recorded given)
    (session : List HostOperation) :
    ∀ b ∈ roots r session h, b.Between h.store (after session h).store := by
  induction session generalizing h given with
  | nil =>
    intro b hb
    cases hb
  | cons o session ih =>
    intro b hb
    have hnarrow : h.store.Wider (o.after h).store := Store.wider_law.hostOperation o h
    have hwide := Store.wider_law.hostSession session (o.after h)
    obtain ⟨hr', hbecomes⟩ := o.becomes hr
    rcases List.mem_append.mp hb with hb | hb
    · obtain ⟨-, -, hbetween⟩ := root_built hr hgiven (Option.mem_toList.mp hb)
      exact hbetween.widen ⟨Nat.le_refl _, Nat.le_refl _⟩ hwide
    · have hrest := ih hr' (hgiven.becomes hbecomes) b hb
      exact hrest.widen hnarrow ⟨Nat.le_refl _, Nat.le_refl _⟩

/-- **The environments made from a registry are different ones with different frames.** -/
theorem roots_apart (hr : r.index < h.registries.size) (hgiven : (h.registry r).Recorded given)
    (session : List HostOperation) : (roots r session h).Pairwise BuiltRoot.Apart := by
  induction session generalizing h given with
  | nil => exact .nil
  | cons o session ih =>
    obtain ⟨hr', hbecomes⟩ := o.becomes hr
    have hrecorded := hgiven.becomes hbecomes
    refine List.pairwise_append.mpr ⟨?_, ih hr' hrecorded, fun b hb b' hb' => ?_⟩
    · cases o.root? r h with
      | none => exact .nil
      | some b => exact List.pairwise_singleton _ b
    · obtain ⟨-, -, hbetween⟩ := root_built hr hgiven (Option.mem_toList.mp hb)
      exact hbetween.apart (roots_between hr' hrecorded session b' hb')

end HostSession

/-! ## Main result -/

/-- What comes of registering: a sealed registry refuses and nothing changes, and an open
one takes a native as it was asked for. -/
structure Host.Registers (h : Host) (r : RegistryId) : Prop where
  refused : (h.registry r).isSealed = true → ∀ name routine isLazy,
    HostM.register r name routine isLazy h =
      .error (.raised (.registrySealed name) ("Cannot register '" ++ name ++ "' after start-up")) h
  taken : (h.registry r).isSealed = false → ∀ name routine isLazy, ∃ p h',
    HostM.register r name routine isLazy h = .ok p h' ∧
      Registration.Faithful ⟨name, routine, isLazy, p⟩ ∧
      h'.registry r = (h.registry r).register p

/-- What comes of binding the natives of a registry in an environment: its own frame is
overridden by them, other names of it and all else in the host stay as they are. -/
structure Host.Installs (h : Host) (r : RegistryId) (env : EnvId) (e : Environment) (h' : Host) :
    Prop where
  returns : HostM.bindAll r env h = .ok () h'
  overrides : ∀ name, (h'.store.mapping e.frame).find? name =
    (((h.registry r).find? name).map .native).or ((h.store.mapping e.frame).find? name)
  mapping : ∀ id, id ≠ e.frame → h'.store.mapping id = h.store.mapping id
  rest : h' = { h with store := { h.store with mappings := h'.store.mappings } }

theorem Host.registers {h : Host} {r : RegistryId} (hr : r.index < h.registries.size) :
    h.Registers r where
  refused hs name routine isLazy := HostM.register_of_sealed hs name routine isLazy
  taken hs name routine isLazy := by
    obtain ⟨h', hregister, hset⟩ := HostM.register_of_open hs name routine isLazy
    refine ⟨_, h', hregister, ⟨rfl, rfl, rfl⟩, ?_⟩
    rw [Host.registry, hset, ← Host.registry, Host.registry_setRegistry, if_pos ⟨rfl, hr⟩]

theorem Host.installs {h : Host} {r : RegistryId} {env : EnvId} {e : Environment}
    (hnodup : (h.registry r).table.names.Nodup) (hframes : h.store.FramesApart)
    (he : h.store.environment? env = some e) : ∃ h', h.Installs r env e h' := by
  have hmapping := (h.registry r).mapping_bindAll he (hframes.inside env e he)
  refine ⟨{ h with store := (h.registry r).bindAll env h.store }, rfl, fun name => ?_,
    fun id hid => ?_, ?_⟩
  · have hnames : ((h.registry r).natives.map Prod.fst).Nodup := by
      rwa [Registry.names_natives]
    rw [hmapping, if_pos rfl, Bindings.find?_override_of_nodup _ hnames, Registry.findIn_natives]
  · rw [hmapping, if_neg hid]
  · exact congrArg (fun s => { h with store := s }) ((h.registry r).bindAll_eq_mappings env h.store)

/-- **The life of a registry.** Take a host with a registry in which `given` has been
registered, and any session of it.
Once sealed the registry stays sealed, and it is sealed as soon as an environment has been
made from it, which can always be done. Registering is refused exactly when it is sealed,
and then changes nothing. It holds the last native of each name of all that were registered,
in `given` and in the session, and finds and lists them so. The environments made from it are
outermost, different, with different frames, and when made they hold the natives that the
registry holds at every moment when it is sealed, from the first on. And binding its natives
in any environment overrides the frame of that and does no more. -/
theorem registry_lifecycle (h : Host) (r : RegistryId) (given : List Registration)
    (hmade : r.index < h.registries.size) (hgiven : (h.registry r).Recorded given)
    (hframes : h.store.FramesApart) (session later : List HostOperation) :
    ((((HostSession.after session h).registry r).isSealed = true →
          ((HostSession.after later (HostSession.after session h)).registry r).isSealed = true) ∧
        (HostSession.roots r session h ≠ [] →
          ((HostSession.after session h).registry r).isSealed = true) ∧
        ∃ env h', HostM.populatedRoot r (HostSession.after session h) = .ok env h' ∧
          (h'.registry r).isSealed = true) ∧
      (HostSession.after session h).Registers r ∧
      ((HostSession.after session h).registry r).Reflects
        (given ++ HostSession.registrations r session h) ∧
      ((HostSession.roots r session h).Pairwise BuiltRoot.Apart ∧
        ∀ k, ((HostSession.after (session.take k) h).registry r).isSealed = true →
          ∀ b ∈ HostSession.roots r session h,
            b.Holds ((HostSession.after (session.take k) h).registry r)) ∧
      ∀ env e, (HostSession.after session h).store.environment? env = some e →
        ∃ h', (HostSession.after session h).Installs r env e h' := by
  have hr := HostSession.registry_made hmade session
  have hrecorded := HostSession.recorded hmade hgiven session
  refine ⟨⟨fun hs => ?_, fun hroots => ?_, ?_⟩, Host.registers hr, hrecorded.reflects,
    ⟨HostSession.roots_apart hmade hgiven session, fun k hs b hb => ?_⟩, fun env e he => ?_⟩
  · rw [HostSession.registry_of_sealed hr hs later]
    exact hs
  · exact HostSession.sealed_of_roots hmade hgiven session hroots
  · obtain ⟨env, h', hroot⟩ := HostM.populatedRoot_ok r (HostSession.after session h)
    exact ⟨env, h', hroot, HostM.populatedRoot_sealed hr hroot⟩
  · -- from the moment on the registry is the same up to the end of the session
    have hsame := HostSession.registry_of_sealed (HostSession.registry_made hmade _) hs
      (session.drop k)
    rw [← HostSession.after_append, List.take_append_drop] at hsame
    rw [← hsame]
    exact HostSession.roots_hold hmade hgiven session b hb
  · have hapart := Store.FramesApart.law.hostSession session h hframes
    exact Host.installs hrecorded.nodup hapart he

namespace Prelude

/-- Registers a native and another one in its place, makes an environment, rebinds the name
there, registers in vain, and makes an interpreter. -/
def lateRegistration : List HostOperation :=
  [.register ⟨0⟩ "f" "add" false, .register ⟨0⟩ "f" "raw" true, .populatedRoot ⟨0⟩,
    .evaluator (.request (.bind ⟨0⟩ "f" .nil)), .register ⟨0⟩ "g" "mul" false,
    .newInterpreter (some ⟨0⟩)]

end Prelude

/-- Two registrations under one name and two environments come of it, and the second
environment holds the native that the registry had when it was sealed by the first. -/
theorem lateRegistration_lifecycle :
    let h := HostSession.after [.newRegistry] Prelude.freshHost
    (0 < h.registries.size ∧ (h.registry ⟨0⟩).Recorded [] ∧ h.store.FramesApart) ∧
      (HostSession.registrations ⟨0⟩ Prelude.lateRegistration h).map (·.native.routine) =
        ["add", "raw"] ∧
      (HostSession.roots ⟨0⟩ Prelude.lateRegistration h).map (·.env) = [⟨0⟩, ⟨1⟩] ∧
      ∀ b ∈ HostSession.roots ⟨0⟩ Prelude.lateRegistration h,
        b.Holds ((HostSession.after (Prelude.lateRegistration.take 3) h).registry ⟨0⟩) := by
  obtain ⟨hmade, hgiven⟩ := HostM.newRegistry_recorded (h := Prelude.freshHost) rfl
  have hframes : (HostSession.after [.newRegistry] Prelude.freshHost).store.FramesApart := .empty
  obtain ⟨-, -, -, ⟨-, hhold⟩, -⟩ := registry_lifecycle
    (HostSession.after [.newRegistry] Prelude.freshHost) ⟨0⟩ [] hmade hgiven hframes
    Prelude.lateRegistration []
  have hsealed : ((HostSession.after (Prelude.lateRegistration.take 3)
      (HostSession.after [.newRegistry] Prelude.freshHost)).registry ⟨0⟩).isSealed = true := by
    decide +kernel
  exact ⟨⟨hmade, hgiven, hframes⟩, by decide +kernel, by decide +kernel, hhold 3 hsealed⟩

end LispCore
