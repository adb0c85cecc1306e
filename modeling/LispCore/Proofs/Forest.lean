import LispCore.Proofs.WriteFootprint

/-! # Environments form a forest

From an empty store on, whatever a host does, following the links from an
environment to its parent ends at one without a parent, no two environments share a
frame, and what is around an environment never changes. That holds after each
operation and in every store that a call made on the way starts from or leaves
(`HostSession.Visits`), for runs that fail or stop as well.

The reason is one step: an environment is only ever added, and its parent, if it has
one, was there before (`Store.Matured`). So parents are older, a path upwards is
unique and ends (`Ascent`), and it stays what it is as the store goes on
(`Ascent.kept`). The chain of an environment is that path, and depth, root and lookup
are read off the chain. -/
namespace LispCore

open Store (Touched)

namespace Store

/-! ## Following the links -/

/-- The environments met on the way from one up to an outermost one. -/
inductive Ascent (s : Store) : EnvId → List EnvId → Prop
  | outermost {env : EnvId} {e : Environment} : s.environment? env = some e → e.parent = none →
      Ascent s env [env]
  | inner {env outer : EnvId} {e : Environment} {path : List EnvId} :
      s.environment? env = some e → e.parent = some outer → Ascent s outer path →
      Ascent s env (env :: path)

/-- Every environment of the first store is in the second, with its frame and its parent. -/
def EnvironmentsKept (s t : Store) : Prop :=
  ∀ env e, s.environment? env = some e → t.environment? env = some e

/-- Parents are older than what is inside them. -/
def ParentsOlder (s : Store) : Prop :=
  ∀ env outer, s.parent? env = some outer → outer.index < env.index

namespace Ascent
variable {s t : Store} {env : EnvId} {path path' : List EnvId}

theorem unique (h : s.Ascent env path) (h' : s.Ascent env path') : path = path' := by
  induction h generalizing path' with
  | outermost he hp =>
    cases h' with
    | outermost => rfl
    | inner he' hp' =>
      rw [he] at he'
      cases he'
      rw [hp] at hp'
      cases hp'
  | inner he hp _ ih =>
    cases h' with
    | outermost he' hp' =>
      rw [he] at he'
      cases he'
      rw [hp] at hp'
      cases hp'
    | inner he' hp' rest =>
      rw [he] at he'
      cases he'
      rw [hp] at hp'
      cases hp'
      rw [ih rest]

theorem kept (h : s.Ascent env path) (hk : s.EnvironmentsKept t) : t.Ascent env path := by
  induction h with
  | outermost he hp => exact .outermost (hk _ _ he) hp
  | inner he hp _ ih => exact .inner (hk _ _ he) hp ih

theorem inside (h : s.Ascent env path) : env.index < s.environments.size := by
  cases h with
  | outermost he => exact lt_of_environment? he
  | inner he => exact lt_of_environment? he

theorem ne_nil (h : s.Ascent env path) : path ≠ [] := by
  cases h <;> simp

theorem getLastD_eq (h : s.Ascent env path) (d d' : EnvId) :
    path.getLastD d = path.getLastD d' := by
  cases h <;> rfl

/-- The way up ends at an environment without a parent. -/
theorem parent?_getLastD (h : s.Ascent env path) (d : EnvId) :
    s.parent? (path.getLastD d) = none := by
  induction h generalizing d with
  | outermost he hp => simp [parent?, he, hp]
  | inner _ _ _ ih =>
    rw [List.getLastD_cons]
    exact ih _

/-- One environment is met exactly if it has no parent. -/
theorem length_eq_one_iff (h : s.Ascent env path) : path.length = 1 ↔ s.parent? env = none := by
  cases h with
  | outermost he hp => simp [parent?, he, hp]
  | inner he hp rest => simp [parent?, he, hp, rest.ne_nil]

end Ascent

/-- Where parents are older, as many steps as the environment has years reach the top. -/
theorem ascent_chainWithin {s : Store} (h : s.ParentsOlder) {steps : Nat} {env : EnvId}
    (henv : env.index < s.environments.size) (hsteps : env.index < steps) :
    s.Ascent env (s.chainWithin steps env) := by
  induction steps generalizing env with
  | zero => exact absurd hsteps (Nat.not_lt_zero _)
  | succ steps ih =>
    have he : s.environment? env = some s.environments[env.index] := Array.getElem?_eq_getElem henv
    simp only [chainWithin, he]
    cases hp : s.environments[env.index].parent with
    | none => exact .outermost he hp
    | some outer =>
      have holder : outer.index < env.index := h env outer (by simp [parent?, he, hp])
      exact .inner he hp (ih (by omega) (by omega))

theorem ParentsOlder.ascent_chain {s : Store} {env : EnvId} (h : s.ParentsOlder)
    (henv : env.index < s.environments.size) : s.Ascent env (s.chain env) :=
  ascent_chainWithin h henv (Nat.lt_succ_self _)

/-- An outermost environment sees its frame. -/
theorem ParentsOlder.lookup_outermost {t : Store} (h : t.ParentsOlder) {env : EnvId}
    {e : Environment} (he : t.environment? env = some e) (hp : e.parent = none) (name : String) :
    t.lookup env name = (t.frame env).find? name := by
  have hpath : t.Ascent env [env] := .outermost he hp
  rw [lookup, (h.ascent_chain hpath.inside).unique hpath, List.findSome?_singleton]

/-- An environment sees its frame, and then what is seen around it. -/
theorem ParentsOlder.lookup_inner {t : Store} (h : t.ParentsOlder) {env outer : EnvId}
    {e : Environment} (he : t.environment? env = some e) (hp : e.parent = some outer)
    (name : String) : t.lookup env name = ((t.frame env).find? name).or (t.lookup outer name) := by
  have hin := lt_of_environment? he
  have hlt : outer.index < env.index := h env outer (by simp [parent?, he, hp])
  have hpath : t.Ascent env (env :: t.chain outer) := .inner he hp (h.ascent_chain (by omega))
  rw [lookup, (h.ascent_chain hin).unique hpath, List.findSome?_cons]
  cases (t.frame env).find? name <;> rfl

/-! ## What the store's changes do to environments -/

theorem EnvironmentsKept.trans {s t u : Store} (h : s.EnvironmentsKept t)
    (h' : t.EnvironmentsKept u) : s.EnvironmentsKept u :=
  fun env e he => h' env e (h env e he)

/-- The second store has the environments of the first, and if parents are older in the
first they are in the second. -/
structure Matured (s t : Store) : Prop where
  kept : s.EnvironmentsKept t
  older : s.ParentsOlder → t.ParentsOlder

namespace Matured
variable {s t u : Store}

theorem of_environments (h : t.environments = s.environments) : s.Matured t where
  kept env e he := by rwa [environment?, h]
  older ho env outer hp := by
    rw [parent?, environment?, h] at hp
    exact ho env outer hp

theorem trans (h : s.Matured t) (h' : t.Matured u) : s.Matured u :=
  ⟨h.kept.trans h'.kept, fun ho => h'.older (h.older ho)⟩

/-- A new environment is added behind the others, so a parent among them is older. -/
theorem newEnvironment (s : Store) (parent : Option EnvId) (contents : Bindings Value)
    (hp : ∀ outer, parent = some outer → outer.index < s.environments.size) :
    s.Matured (s.newEnvironment parent contents).2 where
  kept env e he := by
    have hne : env ≠ (s.newEnvironment parent contents).1 := by
      intro h
      rw [h] at he
      exact Nat.lt_irrefl _ (lt_of_environment? he)
    rw [environment?_newEnvironment, if_neg hne, he]
  older ho env outer h := by
    rw [parent?, environment?_newEnvironment] at h
    split at h
    · next heq =>
      rw [heq]
      exact hp outer h
    · exact ho env outer h

theorem newChild (s : Store) (env : EnvId) (contents : Bindings Value) :
    s.Matured (s.newChild env contents).2 := by
  refine newEnvironment s _ contents fun outer h => ?_
  split at h
  · next hin =>
    cases h
    exact hin
  · cases h

theorem of_touched (h : Touched s t) : s.Matured t := by
  induction h with
  | refl | mark | promise | mapping | write | emit => exact of_environments rfl
  | trans _ _ ih ih' => exact ih.trans ih'
  | note s level r =>
    unfold Store.note
    split <;> exact of_environments rfl
  | root s => exact newEnvironment s none ∅ fun _ h => by cases h
  | child s env contents => exact newChild s env contents
  | bind s env name v => exact of_environments (environments_bind s env name v)

end Matured

/-! ## A new environment -/

section Child
variable {s : Store} {env : EnvId}

theorem environment?_newChild (henv : env.index < s.environments.size)
    (contents : Bindings Value) :
    (s.newChild env contents).2.environment? (s.newChild env contents).1 =
      some ⟨⟨s.mappings.size⟩, some env⟩ := by
  have hnew := environment?_newEnvironment s (some env) contents
    (s.newEnvironment (some env) contents).1
  rw [if_pos rfl] at hnew
  simpa only [newChild, if_pos henv] using hnew

/-- Above a new environment are those that it was made inside of. -/
theorem ParentsOlder.chain_newChild (h : s.ParentsOlder) (henv : env.index < s.environments.size)
    (contents : Bindings Value) :
    (s.newChild env contents).2.chain (s.newChild env contents).1 =
      (s.newChild env contents).1 :: s.chain env := by
  have hmatured := Matured.newChild s env contents
  have hnew := environment?_newChild henv contents
  have hpath : (s.newChild env contents).2.Ascent (s.newChild env contents).1
      ((s.newChild env contents).1 :: s.chain env) :=
    .inner hnew rfl ((h.ascent_chain henv).kept hmatured.kept)
  exact ((hmatured.older h).ascent_chain hpath.inside).unique hpath

end Child

/-! ## The invariant of runs -/

/-- A store that has come out of `s`: the environments of `s` are there as they were,
parents are older, and every environment has a frame of its own. -/
structure Forest (s t : Store) : Prop where
  kept : s.EnvironmentsKept t
  older : t.ParentsOlder
  apart : t.FramesApart

namespace Forest
variable {s t u : Store} {env : EnvId}

theorem refl (ho : s.ParentsOlder) (ha : s.FramesApart) : s.Forest s := ⟨fun _ _ h => h, ho, ha⟩

theorem touched (h : s.Forest t) (ht : Touched t u) : s.Forest u :=
  have hm := Matured.of_touched ht
  ⟨h.kept.trans hm.kept, hm.older h.older, FramesApart.touched ht h.apart⟩

theorem memoise (h : s.Forest t) (id : PromiseId) (a : Answer) : s.Forest (t.memoise id a) :=
  ⟨h.kept, h.older, h.apart.of_environments rfl (Nat.le_refl _)⟩

theorem law (s : Store) : TraceLaw fun t _ u => s.Forest t → s.Forest u where
  touched ht h := h.touched ht
  append h h' ht := h' (h ht)
  stopped _ _ h := h
  returned _ _ _ h := h
  cached _ h := h
  answered a _ h ht := (h ht).memoise _ a

/-- What is around an environment stays as it was. -/
theorem chain_eq (h : s.Forest t) (hs : s.ParentsOlder) (henv : env.index < s.environments.size) :
    t.chain env = s.chain env := by
  have hpath := (hs.ascent_chain henv).kept h.kept
  exact (h.older.ascent_chain hpath.inside).unique hpath

end Forest

end Store

/-! ## Stores on the way -/

/-- The store is the one that the session leaves, or one in which a call made in the
session starts or ends. -/
def HostSession.Visits (session : List HostOperation) (h : Host) (t : Store) : Prop :=
  t = (HostSession.after session h).store ∨
    ∃ c ∈ HostSession.calls session h, t = c.start ∨ t = c.after

namespace TraceLaw
variable {P : Store → Prop}

/-- An invariant of runs holds in the stores that their calls start from and leave. -/
theorem throughout (h : TraceLaw fun s _ t => P s → P t) :
    TraceLaw fun s l t => P s → P t ∧ ∀ c ∈ l, P c.start ∧ P c.after where
  touched ht hs := ⟨h.touched ht hs, fun _ hc => by cases hc⟩
  append hl hl' hs := by
    obtain ⟨ht, hcalls⟩ := hl hs
    obtain ⟨hu, hcalls'⟩ := hl' ht
    exact ⟨hu, fun c hc => (List.mem_append.mp hc).elim (hcalls c) (hcalls' c)⟩
  stopped c e hl hs := by
    obtain ⟨ht, hcalls⟩ := hl hs
    exact ⟨ht, List.forall_mem_append.mpr ⟨hcalls, List.forall_mem_singleton.mpr ⟨hs, ht⟩⟩⟩
  returned c a _ hl hs := by
    obtain ⟨ht, hcalls⟩ := hl hs
    exact ⟨ht, List.forall_mem_append.mpr ⟨hcalls, List.forall_mem_singleton.mpr ⟨hs, ht⟩⟩⟩
  cached _ hs := ⟨hs, List.forall_mem_singleton.mpr ⟨hs, hs⟩⟩
  answered {_ _ l _} a hm hl hs := by
    obtain ⟨ht, hcalls⟩ := hl hs
    have hu := h.answered (l := l) a hm (fun _ => ht) hs
    exact ⟨hu, List.forall_mem_append.mpr ⟨hcalls, List.forall_mem_singleton.mpr ⟨hs, hu⟩⟩⟩

theorem visits (h : TraceLaw fun s _ t => P s → P t) {session : List HostOperation} {host : Host}
    {t : Store} (ht : HostSession.Visits session host t) (hs : P host.store) : P t := by
  obtain ⟨hafter, hcalls⟩ := h.throughout.hostSession session host hs
  rcases ht with rfl | ⟨c, hc, rfl | rfl⟩
  · exact hafter
  · exact (hcalls c hc).1
  · exact (hcalls c hc).2

end TraceLaw

/-! ## Main result -/

/-- How a host goes from an environment into a new one inside it, and out to the parent. -/
structure Host.Climbs (h : Host) (env : EnvId) : Prop where
  depth_child : ∀ contents, (h.store.newChild env contents).2.depth
    (h.store.newChild env contents).1 = h.store.depth env + 1
  root_child : ∀ contents, (h.store.newChild env contents).2.root
    (h.store.newChild env contents).1 = h.store.root env
  parent_child : ∀ contents, HostM.parent (h.store.newChild env contents).1
      { h with store := (h.store.newChild env contents).2 } =
    .ok env { h with store := (h.store.newChild env contents).2 }
  outermost : h.store.depth env = 1 →
    HostM.parent env h = .error (.raised .noParent "Cannot pop past the root environment") h
  inner : h.store.depth env ≠ 1 →
    ∃ outer, h.store.parent? env = some outer ∧ HostM.parent env h = .ok outer h

theorem Host.climbs {h : Host} {env : EnvId} (ho : h.store.ParentsOlder)
    (henv : env.index < h.store.environments.size) : h.Climbs env := by
  have hpath := ho.ascent_chain henv
  refine ⟨fun contents => ?_, fun contents => ?_, fun contents => ?_, fun hone => ?_,
    fun hmany => ?_⟩
  · rw [Store.depth, ho.chain_newChild henv contents]
    rfl
  · rw [Store.root, ho.chain_newChild henv contents, List.getLastD_cons]
    exact hpath.getLastD_eq _ _
  · refine HostM.parent_of_some ?_
    simp [Store.parent?, Store.environment?_newChild henv contents]
  · exact HostM.parent_of_none (hpath.length_eq_one_iff.mp hone)
  · cases hp : h.store.parent? env with
    | none => exact absurd (hpath.length_eq_one_iff.mpr hp) hmany
    | some outer => exact ⟨outer, rfl, HostM.parent_of_some hp⟩

/-- **Environments form a forest.** Take a session of a host from an empty store on, and a
later session of it. In every store that the later one visits, the links lead from each
environment to one without a parent, along its chain, so that lookup, root and depth have
all there is to go along; frames are not shared; and the environments of the earlier
session have kept their frame, parent, depth and root. From an environment the host gets
into a new one, one deeper and with the same root, and back out of it; and it gets out of
an environment exactly if that is deeper than 1, being told otherwise that it cannot, with
nothing changed. -/
theorem environments_form_forest (host : Host) (hempty : host.store = .empty)
    (session later : List HostOperation) (t : Store)
    (ht : HostSession.Visits later (HostSession.after session host) t) :
    (∀ env : EnvId, env.index < t.environments.size →
        t.Ascent env (t.chain env) ∧ t.parent? (t.root env) = none) ∧
      (∀ env env' e e', t.environment? env = some e → t.environment? env' = some e' →
        e.frame = e'.frame → env = env') ∧
      ∀ env : EnvId, env.index < (HostSession.after session host).store.environments.size →
        t.environment? env = (HostSession.after session host).store.environment? env ∧
          t.depth env = (HostSession.after session host).store.depth env ∧
          t.root env = (HostSession.after session host).store.root env ∧
          (HostSession.after session host).Climbs env := by
  have hstart : (HostSession.after session host).store.ParentsOlder ∧
      (HostSession.after session host).store.FramesApart := by
    have hnone : host.store.ParentsOlder := by
      intro env outer h
      simp [hempty, Store.parent?, Store.environment?, Store.empty] at h
    have hforest := (Store.Forest.law host.store).hostSession session host
      (.refl hnone (hempty ▸ .empty))
    exact ⟨hforest.older, hforest.apart⟩
  obtain ⟨holder, hframes⟩ := hstart
  have hforest := (Store.Forest.law _).visits ht (.refl holder hframes)
  refine ⟨fun env henv => ?_, hforest.apart.apart, fun env henv => ?_⟩
  · have hpath := hforest.older.ascent_chain henv
    exact ⟨hpath, hpath.parent?_getLastD env⟩
  · have hchain := hforest.chain_eq holder henv
    have hthere := Array.getElem?_eq_getElem henv
    refine ⟨?_, ?_, ?_, Host.climbs holder henv⟩
    · exact (hforest.kept env _ hthere).trans hthere.symm
    · rw [Store.depth, hchain, Store.depth]
    · rw [Store.root, hchain, Store.root]

namespace Prelude

/-- Makes an environment and one inside it. -/
def nesting : List HostOperation := [.evaluator .newRoot, .evaluator (.request (.newChild ⟨0⟩))]

/-- Calls a closure over the inner environment, which fails, and asks for the parent of the
outer one, which it does not have. -/
def failing : List HostOperation :=
  [.evaluator (.call (.closure ⟨⟨0⟩, [], .symbol "x", ⟨1⟩, false⟩ .nil)), .parent ⟨0⟩]

end Prelude

/-- The failing call has left an environment behind, three deep. -/
theorem failing_call_in_forest :
    let h := HostSession.after Prelude.nesting Prelude.freshHost
    let t := (HostSession.after Prelude.failing h).store
    (Prelude.freshHost.store = .empty ∧ HostSession.Visits Prelude.failing h t) ∧
      t.Ascent ⟨2⟩ [⟨2⟩, ⟨1⟩, ⟨0⟩] ∧ t.depth ⟨1⟩ = 2 ∧ h.Climbs ⟨1⟩ := by
  have hvisits : HostSession.Visits Prelude.failing
      (HostSession.after Prelude.nesting Prelude.freshHost)
      (HostSession.after Prelude.failing
        (HostSession.after Prelude.nesting Prelude.freshHost)).store := .inl rfl
  obtain ⟨hascends, -, hkept⟩ :=
    environments_form_forest Prelude.freshHost rfl Prelude.nesting Prelude.failing _ hvisits
  obtain ⟨-, hdepth, -, hclimbs⟩ := hkept ⟨1⟩ (by decide +kernel)
  have hpath := (hascends ⟨2⟩ (by decide +kernel)).1
  exact ⟨⟨rfl, hvisits⟩, hpath, hdepth, hclimbs⟩

end LispCore
