import LispCore.Store.Basic

/-! # Looking up in a new environment

In a store whose environments have their frames in the store and parents that are older,
a new environment sees its own frame and then what its parent sees, and all others see what
they saw. -/
namespace LispCore.Store

/-- Environments have frames in the store and parents that are older. -/
structure Scoped (s : Store) : Prop where
  frame : ∀ env e, s.environment? env = some e → e.frame.index < s.mappings.size
  parent : ∀ env outer, s.parent? env = some outer → outer.index < env.index

/-- A place in the list of environments that is taken lies inside it. -/
theorem lt_of_environment? {s : Store} {env : EnvId} {e : Environment}
    (h : s.environment? env = some e) : env.index < s.environments.size := by
  obtain ⟨hlt, -⟩ := Array.getElem?_eq_some_iff.mp h
  exact hlt

theorem environment?_of_size_le {s : Store} {env : EnvId}
    (h : s.environments.size ≤ env.index) : s.environment? env = none :=
  Array.getElem?_eq_none h

/-! ## What lookups depend on -/

section Congruence
variable {s t : Store}

theorem chain_congr (h : t.environments = s.environments) (env : EnvId) :
    t.chain env = s.chain env := by
  have hwithin : ∀ steps env, t.chainWithin steps env = s.chainWithin steps env := by
    intro steps
    induction steps with
    | zero => intro env; rfl
    | succ steps ih =>
      intro env
      simp only [chainWithin, environment?, h, ih]
  exact hwithin _ env

theorem lookup_congr (hm : t.mappings = s.mappings) (he : t.environments = s.environments)
    (env : EnvId) (name : String) : t.lookup env name = s.lookup env name := by
  have hframe : t.frame = s.frame := by
    funext env
    simp only [frame, environment?, mapping, hm, he]
  simp only [lookup, chain_congr he, hframe]

end Congruence

/-! ## A new environment -/

variable {s : Store}

/-- Parents are older, so any number of steps beyond the age of an environment follows all
its links. -/
theorem Scoped.chainWithin_eq (h : s.Scoped) {steps steps' : Nat} {env : EnvId}
    (hs : env.index < steps) (hs' : env.index < steps') :
    s.chainWithin steps env = s.chainWithin steps' env := by
  induction steps generalizing steps' env with
  | zero => exact absurd hs (Nat.not_lt_zero _)
  | succ steps ih =>
    obtain ⟨steps', rfl⟩ : ∃ n, steps' = n + 1 := ⟨steps' - 1, by omega⟩
    simp only [chainWithin]
    cases he : s.environment? env with
    | none => rfl
    | some e =>
      cases hp : e.parent with
      | none => simp [hp]
      | some outer =>
        have hlt : outer.index < env.index := by
          refine h.parent env outer ?_
          simp [parent?, he, hp]
        have hchain : s.chainWithin steps outer = s.chainWithin steps' outer :=
          ih (by omega) (by omega)
        simp only [hp, hchain]

section Child
variable (home : EnvId) (contents : Bindings Value)

theorem environment?_newChild_of_lt {env : EnvId} (henv : env.index < s.environments.size) :
    (s.newChild home contents).2.environment? env = s.environment? env := by
  have hne : env ≠ (s.newChild home contents).1 := by
    intro h
    rw [h] at henv
    exact Nat.lt_irrefl _ henv
  exact (environment?_newEnvironment s _ contents env).trans (if_neg hne)

theorem chainWithin_newChild_of_lt (h : s.Scoped) {env : EnvId}
    (henv : env.index < s.environments.size) (steps : Nat) :
    (s.newChild home contents).2.chainWithin steps env = s.chainWithin steps env := by
  induction steps generalizing env with
  | zero => rfl
  | succ steps ih =>
    simp only [chainWithin, environment?_newChild_of_lt home contents henv]
    cases he : s.environment? env with
    | none => rfl
    | some e =>
      cases hp : e.parent with
      | none => simp [hp]
      | some outer =>
        have hlt : outer.index < env.index := by
          refine h.parent env outer ?_
          simp [parent?, he, hp]
        simp only [hp, ih (Nat.lt_trans hlt henv)]

theorem frame_newChild_of_lt (h : s.Scoped) {env : EnvId}
    (henv : env.index < s.environments.size) :
    (s.newChild home contents).2.frame env = s.frame env := by
  unfold frame
  rw [environment?_newChild_of_lt home contents henv]
  cases he : s.environment? env with
  | none => rfl
  | some e =>
    have hlt := h.frame env e he
    have hne : e.frame ≠ (s.newMapping contents).1 := by
      intro heq
      rw [heq] at hlt
      exact Nat.lt_irrefl _ hlt
    exact (mapping_newMapping s contents e.frame).trans (if_neg hne)

theorem mem_chainWithin_lt {steps : Nat} {env env' : EnvId}
    (hmem : env' ∈ s.chainWithin steps env) : env'.index < s.environments.size := by
  induction steps generalizing env with
  | zero => cases hmem
  | succ steps ih =>
    simp only [chainWithin] at hmem
    cases he : s.environment? env with
    | none => simp [he] at hmem
    | some e =>
      have hlt := lt_of_environment? he
      cases hp : e.parent with
      | none =>
        simp only [he, hp, List.mem_singleton] at hmem
        rwa [hmem]
      | some outer =>
        simp only [he, hp, List.mem_cons] at hmem
        rcases hmem with rfl | hmem
        · exact hlt
        · exact ih hmem

/-- Frames along a chain of the old store are what they were. -/
theorem findSome?_chain_newChild (h : s.Scoped) (env : EnvId) (name : String) :
    ((s.chain env).findSome? fun e => ((s.newChild home contents).2.frame e).find? name) =
      s.lookup env name := by
  have hsame : ∀ e ∈ s.chain env, (s.newChild home contents).2.frame e = s.frame e :=
    fun e he => frame_newChild_of_lt home contents h (mem_chainWithin_lt he)
  unfold lookup
  generalize s.chain env = envs at hsame
  induction envs with
  | nil => rfl
  | cons e envs ih =>
    rw [List.findSome?_cons, List.findSome?_cons, hsame e List.mem_cons_self,
      ih fun e he => hsame e (List.mem_cons_of_mem _ he)]

/-- Environments of the old store see what they saw. -/
theorem lookup_newChild_of_lt (h : s.Scoped) {env : EnvId}
    (henv : env.index < s.environments.size) (name : String) :
    (s.newChild home contents).2.lookup env name = s.lookup env name := by
  rw [← findSome?_chain_newChild home contents h env name]
  unfold lookup chain
  rw [chainWithin_newChild_of_lt home contents h henv]

/-- The new environment sees its frame, and then what its parent sees. -/
theorem lookup_newChild (h : s.Scoped) (name : String) :
    (s.newChild home contents).2.lookup (s.newChild home contents).1 name =
      (contents.find? name).or (s.lookup home name) := by
  have hchild : (s.newChild home contents).2.environment? (s.newChild home contents).1 =
      some ⟨⟨s.mappings.size⟩, if home.index < s.environments.size then some home else none⟩ :=
    (environment?_newEnvironment s _ contents _).trans (if_pos rfl)
  have hframe : (s.newChild home contents).2.frame (s.newChild home contents).1 = contents := by
    simp only [frame, hchild]
    exact (mapping_newMapping s contents _).trans (if_pos rfl)
  have hchain : (s.newChild home contents).2.chain (s.newChild home contents).1 =
      (s.newChild home contents).1 :: s.chain home := by
    show (s.newChild home contents).2.chainWithin (s.environments.size + 1) _ = _
    simp only [chainWithin, hchild]
    by_cases hhome : home.index < s.environments.size
    · simp only [if_pos hhome, chainWithin_newChild_of_lt home contents h hhome]
      rw [h.chainWithin_eq hhome (Nat.lt_succ_self _)]
      rfl
    · have hnone := environment?_of_size_le (Nat.le_of_not_lt hhome)
      simp [if_neg hhome, chain, chainWithin, hnone]
  unfold lookup
  rw [hchain, List.findSome?_cons, hframe, findSome?_chain_newChild home contents h]
  cases contents.find? name <;> rfl

end Child

end LispCore.Store
