import LispCore.Proofs.FaultWording
import LispCore.Proofs.Respect

/-! # Larger limits change no finished run

Two numbers bound a run: the depth, and the links that one forcing follows. A
run that ended in any way other than by exhausting one of them ends in the same
way, with the same store, under larger ones. This is stated for a set `E` of
stops that count as exhaustion, so that the two bounds can be varied together
or one at a time: with `E` the links alone, a run that went too deep also stays
as it is.

Writing texts comes first, since the journal and the messages of faults quote
values and opening a value costs depth too. -/
namespace LispCore

/-! ## Texts -/

/-- A text that could be written, or failed for another reason than the depth,
is what `y` gives as well. -/
def WrittenBelow {α : Type} (x y : Written α) : Prop := x = .error .tooDeep ∨ y = x

namespace WrittenBelow
variable {α β : Type}

theorem refl (x : Written α) : WrittenBelow x x := .inr rfl

theorem bind {x y : Written α} {f g : α → Written β} (h : WrittenBelow x y)
    (hf : ∀ a, WrittenBelow (f a) (g a)) : WrittenBelow (x >>= f) (y >>= g) := by
  rcases h with rfl | rfl
  · exact .inl rfl
  · cases y with
    | ok a => exact hf a
    | error e => exact .refl _

theorem map {x y : Written α} (f : α → β) (h : WrittenBelow x y) :
    WrittenBelow (x.map f) (y.map f) := by
  rcases h with rfl | rfl
  · exact .inl rfl
  · exact .refl _

theorem mapM {f g : α → Written β} (h : ∀ a, WrittenBelow (f a) (g a)) (l : List α) :
    WrittenBelow (l.mapM f) (l.mapM g) := by
  induction l with
  | nil => exact .refl _
  | cons a l ih =>
    simp only [List.mapM_cons]
    exact (h a).bind fun _ => ih.bind fun _ => .refl _

end WrittenBelow

theorem renderWith_below {i i' : Value.Position → Value → Written String}
    {o o' : PromiseId → Written String} (hi : ∀ pos v, WrittenBelow (i pos v) (i' pos v))
    (ho : ∀ id, WrittenBelow (o id) (o' id)) (pos : Value.Position) (v : Value) :
    WrittenBelow (Value.renderWith i o pos v) (Value.renderWith i' o' pos v) := by
  cases v with
  | pair _ first rest =>
    cases pos <;> exact (hi _ first).bind fun _ => (hi _ rest).bind fun _ => .refl _
  | promise id => cases pos <;> exact (ho id).map _
  | _ => cases pos <;> exact .refl _

theorem renderAt_below (s : Store) {d d' : Nat} (h : d ≤ d') (pos : Value.Position) (v : Value) :
    WrittenBelow (s.renderAt d pos v) (s.renderAt d' pos v) := by
  induction d generalizing d' pos v with
  | zero =>
    cases d' with
    | zero => exact .refl _
    | succ d' => exact renderWith_below (fun _ _ => .inl rfl) (fun _ => .inl rfl) pos v
  | succ d ih =>
    obtain ⟨e, rfl⟩ : ∃ e, d' = e + 1 := ⟨d' - 1, by omega⟩
    have hde : d ≤ e := by omega
    exact renderWith_below (fun pos v => ih hde pos v) (fun id => ih hde .alone _) pos v

theorem render_below (s : Store) {d d' : Nat} (h : d ≤ d') (v : Value) :
    WrittenBelow (s.render d v) (s.render d' v) :=
  renderAt_below s h .alone v

theorem guarded_below (busy : List Identity) (object : Identity)
    {f g : List Identity → Written String} (h : ∀ busy, WrittenBelow (f busy) (g busy)) :
    WrittenBelow (guarded busy object f) (guarded busy object g) := by
  unfold guarded
  split
  · exact .refl _
  · exact h _

theorem describeWith_below (s : Store) {inside inside' : List Identity → Value → Written String}
    (h : ∀ busy v, WrittenBelow (inside busy v) (inside' busy v)) (busy : List Identity)
    (v : Value) : WrittenBelow (s.describeWith inside busy v) (s.describeWith inside' busy v) := by
  cases v with
  | pair mark first rest =>
    simp only [Store.describeWith]
    refine guarded_below _ _ fun busy => ?_
    exact (h busy first).bind fun _ => (h busy rest).bind fun _ => .refl _
  | mapping id =>
    simp only [Store.describeWith]
    refine guarded_below _ _ fun busy => ?_
    exact ((WrittenBelow.mapM (fun entry => (h busy _).map _) _).map _).map _
  | array mark items =>
    exact guarded_below _ _ fun busy => (WrittenBelow.mapM (h busy) items).map _
  | promise id => exact (h busy _).map _
  | _ => exact .refl _

theorem describeIn_below (s : Store) {d d' : Nat} (h : d ≤ d') (busy : List Identity) (v : Value) :
    WrittenBelow (s.describeIn d busy v) (s.describeIn d' busy v) := by
  induction d generalizing d' busy v with
  | zero =>
    cases d' with
    | zero => exact .refl _
    | succ d' => exact describeWith_below s (fun _ _ => .inl rfl) busy v
  | succ d ih =>
    obtain ⟨e, rfl⟩ : ∃ e, d' = e + 1 := ⟨d' - 1, by omega⟩
    have hde : d ≤ e := by omega
    exact describeWith_below s (fun busy v => ih hde busy v) busy v

theorem worded_below (s : Store) {d d' : Nat} (h : d ≤ d') : Worded Eq WrittenBelow s s d d' where
  refl := .refl
  map f _ _ hxy := hxy.map f
  tag hv := congrArg Value.tag hv
  real hx := by cases hx; rfl
  describe := by
    rintro v _ rfl
    exact describeIn_below s h [] v
  render := by
    rintro v _ rfl
    exact render_below s h v

theorem message_below (s : Store) {d d' : Nat} (h : d ≤ d') (fault : Fault) :
    WrittenBelow (fault.message s d) (fault.message s d') :=
  (Fault.Rel.refl (fun _ => rfl) fault).message (worded_below s h)

/-! ## Computations -/

/-- Where `x` ends otherwise than by a stop of `E`, `y` ends in the same way. -/
def Below (E : Stop → Prop) (α : Type) (x y : EvalM α) : Prop :=
  ∀ s, (∃ e s', E e ∧ x s = .error e s') ∨ y s = x s

namespace Below
variable {E : Stop → Prop} {α β : Type}

theorem refl (x : EvalM α) : Below E α x x := fun _ => .inr rfl

theorem bind {x y : EvalM α} {f g : α → EvalM β} (h : Below E α x y)
    (hf : ∀ a, Below E β (f a) (g a)) : Below E β (x >>= f) (y >>= g) := by
  intro s
  rcases h s with ⟨e, s', he, hs⟩ | hs
  · exact .inl ⟨e, s', he, EvalM.bind_error hs⟩
  · cases hx : x s with
    | ok a s' =>
      rw [EvalM.bind_ok hx, EvalM.bind_ok (hs.trans hx)]
      exact hf a s'
    | error e s' => exact .inr ((EvalM.bind_error (hs.trans hx)).trans (EvalM.bind_error hx).symm)

theorem sequential : Sequential (Below E) := ⟨fun a => refl (pure a), bind⟩

theorem render {d d' : Nat} (h : d ≤ d') (hE : E .tooDeep ∨ d = d') (v : Value) :
    Below E String (EvalM.render d v) (EvalM.render d' v) := by
  rcases hE with hE | rfl
  · intro s
    unfold EvalM.render
    rcases render_below s h v with hr | hr <;> rw [hr]
    · exact .inl ⟨_, s, hE, rfl⟩
    · exact .inr rfl
  · exact refl _

theorem raise {d d' : Nat} (h : d ≤ d') (hE : E .tooDeep ∨ d = d') (fault : Fault) :
    Below E α (EvalM.raise d fault) (EvalM.raise d' fault) := by
  rcases hE with hE | rfl
  · intro s
    unfold EvalM.raise
    rcases message_below s h fault with hr | hr <;> rw [hr]
    · exact .inl ⟨_, s, hE, rfl⟩
    · exact .inr rfl
  · exact refl _

/-- What `x` answers, `y` answers. -/
theorem ok {x y : EvalM α} (h : Below E α x y) {s s' : Store} {a : α} (hx : x s = .ok a s') :
    y s = .ok a s' := by
  rcases h s with ⟨e, t, _, he⟩ | he
  · rw [hx] at he; cases he
  · rw [he, hx]

end Below

/-! ## Runs -/

namespace Machine

/-- The machine that follows `n` links in one forcing. -/
def withLinks (m : Machine) (n : Nat) : Machine := { m with links := n }

variable {E : Stop → Prop} (m : Machine) {k n d d' : Nat}

theorem below_respects (hd : d ≤ d') (hE : E .tooDeep ∨ d = d') :
    Respects (m.withLinks k) (m.withLinks n) d d' (Below E) where
  evaluator := by
    refine ⟨Below.sequential, fun h => ?_⟩
    cases h with
    | render v => exact .render hd hE v
    | _ => exact .refl _
  enter c params := .refl _
  native := by
    refine ⟨Below.sequential, rfl, fun h => ?_⟩
    cases h with
    | render v => exact .render hd hE v
    | raise α fault => exact .raise hd hE fault
    | _ => exact .refl _

theorem forceWith_below {self self' : Call → EvalM Answer}
    (hs : ∀ c, Below E Answer (self c) (self' c)) (hk : k ≤ n) (hE : E .unfinished ∨ k = n)
    (v : Value) : Below E Answer (forceWith self k v) (forceWith self' n v) := by
  rcases hE with hE | rfl
  · induction k generalizing n v with
    | zero =>
      cases v with
      | promise id => exact fun s => .inl ⟨_, s, hE, rfl⟩
      | _ => cases n <;> exact .refl _
    | succ k ih =>
      obtain ⟨l, rfl⟩ : ∃ l, n = l + 1 := ⟨n - 1, by omega⟩
      cases v with
      | promise id =>
        refine (hs _).bind fun a => ?_
        split
        · exact ih (by omega) _
        · exact .refl _
      | _ => exact .refl _
  · exact Below.sequential.forceWith hs (.refl _) k v

/-- **A finished run stays as it is under larger limits.** -/
theorem perform_below (hd : d ≤ d') (hE : E .tooDeep ∨ d = d') (hk : k ≤ n)
    (hE' : E .unfinished ∨ k = n) (c : Call) :
    Below E Answer ((m.withLinks k).perform d c) ((m.withLinks n).perform d' c) := by
  induction d generalizing d' c with
  | zero =>
    rcases hE with hE | rfl
    · exact fun s => .inl ⟨_, s, hE, rfl⟩
    · exact .refl _
  | succ d ih =>
    obtain ⟨e, rfl⟩ : ∃ e, d' = e + 1 := ⟨d' - 1, by omega⟩
    have hde : d ≤ e := by omega
    have hEe : E .tooDeep ∨ d = e := hE.imp_right (by omega)
    have hs := fun c => ih hde hEe c
    exact (m.below_respects hde hEe).step hs (fun v => forceWith_below hs hk hE' v)
      (fun id => Below.sequential.forceOnceWith hs id (.refl _) fun _ => .refl _) c

theorem force_below (hd : d ≤ d') (hE : E .tooDeep ∨ d = d') (hk : k ≤ n)
    (hE' : E .unfinished ∨ k = n) (v : Value) :
    Below E Answer ((m.withLinks k).force d v) ((m.withLinks n).force d' v) :=
  forceWith_below (fun c => m.perform_below hd hE hk hE' c) hk hE' v

end Machine

end LispCore
