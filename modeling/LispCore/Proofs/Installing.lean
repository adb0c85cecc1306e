import LispCore.Proofs.Founding
import LispCore.Proofs.WriteFootprint

/-! # Binding the natives of a registry

A registry puts its natives into a frame one after the other. No name stands twice in
its table, so each ends up with the native that the table has for it, over whatever the
frame had, and other names keep what they had (`Bindings.find?_override_of_nodup`,
`Registry.mapping_bindAll`). In an empty frame the outcome is the table itself
(`Bindings.entries_override`), and this is what an outermost environment starts with
that is made from a registry (`HostM.populatedRoot_root`). -/
namespace LispCore

open Store (Touched)

/-! ## Overriding bindings -/

namespace Bindings
variable {α : Type}

/-- Bindings with the entries of a list inserted from left to right. -/
def override (b : Bindings α) (entries : List (String × α)) : Bindings α :=
  entries.foldl (fun b e => b.insert e.1 e.2) b

theorem ofList_append (entries : List (String × α)) (name : String) (v : α) :
    ofList (entries ++ [(name, v)]) = (ofList entries).insert name v := by
  simp [ofList, List.foldl_append]

/-- The last entry of a name counts, and else what was there. -/
theorem find?_override (b : Bindings α) (entries : List (String × α)) (name : String) :
    (b.override entries).find? name =
      ((entries.reverse.find? (·.1 = name)).map (·.2)).or (b.find? name) := by
  induction entries generalizing b with
  | nil => rfl
  | cons e entries ih =>
    have hrest : (b.override (e :: entries)) = (b.insert e.1 e.2).override entries := rfl
    rw [hrest, ih, find?_insert, List.reverse_cons, List.find?_append, Option.map_or,
      Option.or_assoc]
    by_cases he : e.1 = name <;> simp [he]

theorem nodup_insert {b : Bindings α} (h : b.names.Nodup) (name : String) (v : α) :
    (b.insert name v).names.Nodup := by
  rw [names_insert]
  split
  · exact h
  · next hnew =>
    refine List.nodup_append.mpr ⟨h, by simp, fun a ha c hc hac => ?_⟩
    rw [List.mem_singleton.mp hc] at hac
    exact hnew (hac ▸ ha)

theorem nodup_override {b : Bindings α} (h : b.names.Nodup) (entries : List (String × α)) :
    (b.override entries).names.Nodup := by
  induction entries generalizing b with
  | nil => exact h
  | cons e entries ih => exact ih (nodup_insert h e.1 e.2)

theorem insertIn_of_not_mem {name : String} {entries : List (String × α)}
    (h : name ∉ entries.map Prod.fst) (v : α) :
    insertIn name v entries = entries ++ [(name, v)] := by
  induction entries with
  | nil => rfl
  | cons e entries ih =>
    simp only [List.map_cons, List.mem_cons, not_or] at h
    rw [insertIn, if_neg (Ne.symm h.1), ih h.2]
    rfl

/-- Entries with names of their own are added as they are. -/
theorem entries_override {b : Bindings α} {entries : List (String × α)}
    (h : (b.names ++ entries.map Prod.fst).Nodup) :
    (b.override entries).entries = b.entries ++ entries := by
  induction entries generalizing b with
  | nil => simp [override]
  | cons e entries ih =>
    have hnew : e.1 ∉ b.entries.map Prod.fst := by
      intro hmem
      exact (List.nodup_append.mp h).2.2 e.1 hmem e.1 List.mem_cons_self rfl
    have hentries : (b.insert e.1 e.2).entries = b.entries ++ [e] := insertIn_of_not_mem hnew e.2
    have hnames : (b.insert e.1 e.2).names = b.names ++ [e.1] := by
      rw [names, hentries, List.map_append, names]
      rfl
    have hrest := ih (b := b.insert e.1 e.2) (by rw [hnames]; simpa using h)
    rw [hentries] at hrest
    simpa [override] using hrest

theorem findIn_of_mem {entries : List (String × α)} {e : String × α}
    (h : (entries.map Prod.fst).Nodup) (he : e ∈ entries) : findIn e.1 entries = some e.2 := by
  induction entries with
  | nil => cases he
  | cons e' entries ih =>
    simp only [List.map_cons, List.nodup_cons] at h
    rcases List.mem_cons.mp he with rfl | he
    · simp [findIn]
    · have hne : e'.1 ≠ e.1 := by
        intro heq
        exact h.1 (heq ▸ List.mem_map_of_mem he)
      rw [findIn, if_neg hne]
      exact ih h.2 he

/-- Where no name has two entries, the first entry of a name is the last one. -/
theorem find?_override_of_nodup (b : Bindings α) {entries : List (String × α)}
    (h : (entries.map Prod.fst).Nodup) (name : String) :
    (b.override entries).find? name = (findIn name entries).or (b.find? name) := by
  have hsame : ((∅ : Bindings α).override entries).entries = entries := entries_override h
  have hfirst : findIn name entries = (entries.reverse.find? (·.1 = name)).map (·.2) := by
    have hlast := find?_override ∅ entries name
    rw [find?, hsame] at hlast
    simpa using hlast
  rw [hfirst, find?_override]

end Bindings

/-! ## What registries do to the store -/

namespace Registry

/-- What a registry binds: its natives by their names. -/
def natives (r : Registry) : List (String × Value) :=
  r.table.entries.map fun e => (e.1, .native e.2)

theorem findIn_natives (r : Registry) (name : String) :
    Bindings.findIn name r.natives = (r.find? name).map .native := by
  obtain ⟨⟨entries⟩, _⟩ := r
  simp only [natives, find?, Bindings.find?]
  induction entries with
  | nil => rfl
  | cons e entries ih =>
    simp only [List.map_cons, Bindings.findIn, ih]
    split <;> rfl

theorem names_natives (r : Registry) : r.natives.map Prod.fst = r.table.names := by
  simp [natives, Bindings.names, Function.comp_def]

theorem bindAll_eq_foldl (r : Registry) (env : EnvId) (s : Store) :
    r.bindAll env s = r.natives.foldl (fun s e => s.bind env e.1 e.2) s := by
  rw [bindAll, natives, List.foldl_map]

/-- Nothing but mappings is changed. -/
theorem bindAll_eq_mappings (r : Registry) (env : EnvId) (s : Store) :
    r.bindAll env s = { s with mappings := (r.bindAll env s).mappings } := by
  rw [bindAll_eq_foldl]
  induction r.natives generalizing s with
  | nil => rfl
  | cons e entries ih =>
    have hbind : s.bind env e.1 e.2 = { s with mappings := (s.bind env e.1 e.2).mappings } := by
      unfold Store.bind
      split <;> rfl
    rw [List.foldl_cons, ih, hbind]

theorem size_bindAll (r : Registry) (env : EnvId) (s : Store) :
    (r.bindAll env s).mappings.size = s.mappings.size := by
  rw [bindAll_eq_foldl]
  induction r.natives generalizing s with
  | nil => rfl
  | cons e entries ih => rw [List.foldl_cons, ih, Store.size_bind]

/-- The frame of the environment is overridden and other mappings are left alone. -/
theorem mapping_bindAll (r : Registry) {env : EnvId} {e : Environment} {s : Store}
    (he : s.environment? env = some e) (hin : e.frame.index < s.mappings.size) (id : MappingId) :
    (r.bindAll env s).mapping id =
      if id = e.frame then (s.mapping id).override r.natives else s.mapping id := by
  rw [bindAll_eq_foldl]
  induction r.natives generalizing s with
  | nil =>
    split <;> rfl
  | cons b entries ih =>
    have hbind : s.bind env b.1 b.2 = s.write e.frame b.1 b.2 := by simp [Store.bind, he]
    have hwrite := Store.mapping_write s e.frame id b.1 b.2
    rw [List.foldl_cons, hbind, ih (s := s.write e.frame b.1 b.2) he (by simpa using hin), hwrite]
    by_cases hid : id = e.frame
    · rw [if_pos hid, if_pos hid, if_pos ⟨hid.symm, hin⟩]
      rfl
    · rw [if_neg hid, if_neg hid, if_neg fun h => hid h.1.symm]

end Registry

/-! ## Outermost environments with the natives of a registry -/

namespace Store

/-- The second store has at least as many environments and mappings. -/
structure Wider (s t : Store) : Prop where
  environments : s.environments.size ≤ t.environments.size
  mappings : s.mappings.size ≤ t.mappings.size

theorem Wider.trans {s t u : Store} (h : s.Wider t) (h' : t.Wider u) : s.Wider u :=
  ⟨Nat.le_trans h.environments h'.environments, Nat.le_trans h.mappings h'.mappings⟩

theorem Wider.newEnvironment (s : Store) (parent : Option EnvId) (contents : Bindings Value) :
    s.Wider (s.newEnvironment parent contents).2 := by
  constructor <;> simp [Store.newEnvironment, newMapping]

theorem Touched.wider {s t : Store} (h : Touched s t) : s.Wider t := by
  induction h with
  | trans _ _ ih ih' => exact ih.trans ih'
  | note s level r =>
    unfold Store.note
    split <;> exact ⟨Nat.le_refl _, Nat.le_refl _⟩
  | mapping s => exact ⟨Nat.le_refl _, by simp [newMapping]⟩
  | root s => exact .newEnvironment s none ∅
  | child s env contents => exact .newEnvironment s _ contents
  | bind s env name v => exact ⟨by simp [environments_bind], by simp⟩
  | write s id name v => exact ⟨Nat.le_refl _, by simp⟩
  | _ => exact ⟨Nat.le_refl _, Nat.le_refl _⟩

/-- Environments and mappings are never taken back. -/
theorem wider_law : TraceLaw fun s _ t => s.Wider t where
  touched h := h.wider
  append h h' := h.trans h'
  stopped _ _ h := h
  returned _ _ _ h := h
  cached _ := ⟨Nat.le_refl _, Nat.le_refl _⟩
  answered _ _ h := ⟨h.environments, h.mappings⟩

end Store

/-- An outermost environment, with the store in which it has just been made and filled. -/
structure BuiltRoot where
  env : EnvId
  store : Store

namespace BuiltRoot

/-- The place of its frame. -/
def frame? (b : BuiltRoot) : Option MappingId := (b.store.environment? b.env).map (·.frame)

/-- It has a frame, nothing around it, and holds the natives of the registry and no more. -/
def Holds (b : BuiltRoot) (reg : Registry) : Prop :=
  ∃ frame, b.store.environment? b.env = some ⟨frame, none⟩ ∧
    (b.store.mapping frame).entries = reg.natives

/-- It and its frame were not there in a store and are there in another. -/
structure Between (b : BuiltRoot) (s t : Store) : Prop where
  env : s.environments.size ≤ b.env.index ∧ b.env.index < t.environments.size
  frame : ∃ frame, b.frame? = some frame ∧
    s.mappings.size ≤ frame.index ∧ frame.index < t.mappings.size

/-- They are different environments with different frames. -/
def Apart (b b' : BuiltRoot) : Prop := b.env ≠ b'.env ∧ b.frame? ≠ b'.frame?

theorem Between.widen {b : BuiltRoot} {s s' t t' : Store} (h : b.Between s t) (hs : s'.Wider s)
    (ht : t.Wider t') : b.Between s' t' := by
  obtain ⟨frame, hframe, hlow, hhigh⟩ := h.frame
  refine ⟨⟨?_, ?_⟩, frame, hframe, ?_, ?_⟩
  · exact Nat.le_trans hs.environments h.env.1
  · exact Nat.lt_of_lt_of_le h.env.2 ht.environments
  · exact Nat.le_trans hs.mappings hlow
  · exact Nat.lt_of_lt_of_le hhigh ht.mappings

theorem Between.apart {b b' : BuiltRoot} {s t u : Store} (h : b.Between s t)
    (h' : b'.Between t u) : b.Apart b' := by
  obtain ⟨frame, hframe, -, hhigh⟩ := h.frame
  obtain ⟨frame', hframe', hlow, -⟩ := h'.frame
  have henv := h.env.2
  have henv' := h'.env.1
  refine ⟨fun heq => ?_, fun heq => ?_⟩
  · rw [heq] at henv
    omega
  · rw [hframe, hframe'] at heq
    cases heq
    omega

end BuiltRoot

namespace HostM
variable {h h' : Host} {r : RegistryId} {env : EnvId}

theorem populatedRoot_ok (r : RegistryId) (h : Host) :
    ∃ env h', populatedRoot r h = .ok env h' := by
  obtain ⟨s, -, hseal⟩ := sealRegistry_ok r h
  exact ⟨_, _, bind_ok hseal⟩

theorem populatedRoot_sealed (hr : r.index < h.registries.size)
    (hroot : populatedRoot r h = .ok env h') : (h'.registry r).isSealed = true := by
  obtain ⟨s, -, hseal⟩ := sealRegistry_ok r h
  rw [populatedRoot, bind_ok hseal] at hroot
  cases hroot
  change ((h.setRegistry r (h.registry r).sealed).registry r).isSealed = true
  rw [Host.registry_setRegistry, if_pos ⟨rfl, hr⟩]
  rfl

/-- The new environment is outermost and its new frame holds the natives. -/
theorem populatedRoot_root (hnodup : (h.registry r).table.names.Nodup)
    (hroot : populatedRoot r h = .ok env h') :
    (⟨env, h'.store⟩ : BuiltRoot).Holds (h'.registry r) ∧
      (⟨env, h'.store⟩ : BuiltRoot).Between h.store h'.store := by
  have hfounded := populatedRoot_founded hroot
  obtain ⟨s, hsame, rfl, hstore⟩ := hfounded.store
  have henvs : h.store.environments.size ≤ s.environments.size :=
    hsame.grown (.env ⟨s.environments.size⟩) (Nat.le_refl _)
  have hmaps : h.store.mappings.size ≤ s.mappings.size :=
    hsame.grown (.mapping ⟨s.mappings.size⟩) (Nat.le_refl _)
  have hnew : s.newRoot.2.environment? s.newRoot.1 = some ⟨⟨s.mappings.size⟩, none⟩ :=
    (Store.environment?_newEnvironment s none ∅ _).trans (if_pos rfl)
  have hempty : s.newRoot.2.mapping ⟨s.mappings.size⟩ = ∅ :=
    (Store.mapping_newMapping s ∅ _).trans (if_pos rfl)
  have hin : s.mappings.size < s.newRoot.2.mappings.size := by
    simp [Store.newRoot, Store.newEnvironment, Store.newMapping]
  have hmapping := (h.registry r).mapping_bindAll hnew hin ⟨s.mappings.size⟩
  rw [if_pos rfl, hempty] at hmapping
  have henvironment : h'.store.environment? s.newRoot.1 = some ⟨⟨s.mappings.size⟩, none⟩ := by
    rw [hstore, Registry.bindAll_eq_mappings]
    exact hnew
  have hnatives : (h'.registry r).natives = (h.registry r).natives := by
    rw [Registry.natives, hfounded.table, ← Registry.natives]
  have hnames : ((∅ : Bindings Value).names ++ (h.registry r).natives.map Prod.fst).Nodup := by
    rw [Registry.names_natives]
    exact hnodup
  refine ⟨⟨⟨s.mappings.size⟩, henvironment, ?_⟩, ⟨henvs, ?_⟩, ⟨s.mappings.size⟩, ?_, hmaps, ?_⟩
  · rw [hstore, hmapping, Bindings.entries_override hnames, hnatives]
    rfl
  · exact Store.lt_of_environment? henvironment
  · rw [BuiltRoot.frame?, henvironment]
    rfl
  · rw [hstore, Registry.size_bindAll]
    exact hin

end HostM

end LispCore
