import LispCore.Proofs.FirstOrder
import Mathlib.Data.Fintype.Card
import Mathlib.Data.Fintype.EquivFin
import Mathlib.Logic.Relation

/-! # Flat rendering

The text of a list is flat: an opening parenthesis, the texts of the elements and what
closes the list, with single spaces between them (`Value.flatBody`). It is written pair
by pair, and what follows an element is the text of the rest on its own without its first
character, if the rest is a list (`Store.renderAt_tail`). This character is the opening
parenthesis, whatever the elements are.

A value has a text where rendering may go deep enough, unless a promise is met inside
what it shows or an integer has too many digits (`Store.exists_text_iff`). How deep is enough
depends on the value, since each element of a list stands inside the one before it: for
every depth there is a list of short elements that has no text (`longList_unrendered`). -/
namespace LispCore

namespace Written
variable {α β : Type} {x : Written α} {why : Unwritable}

theorem bind_ne_error {f : α → Written β} (hx : x ≠ .error why) (hf : ∀ a, f a ≠ .error why) :
    x >>= f ≠ .error why := by
  cases x with
  | error e =>
    intro h
    cases h
    exact hx rfl
  | ok a => exact hf a

theorem map_ne_error (f : α → β) (hx : x ≠ .error why) : x.map f ≠ .error why := by
  cases x with
  | error e =>
    intro h
    cases h
    exact hx rfl
  | ok a => nofun

theorem bind_eq_ok {f : α → Written β} {b : β} (h : x >>= f = .ok b) :
    ∃ a, x = .ok a ∧ f a = .ok b := by
  cases x with
  | error => cases h
  | ok a => exact ⟨a, rfl, h⟩

theorem map_eq_ok {f : α → β} {b : β} (h : x.map f = .ok b) : ∃ a, x = .ok a ∧ f a = b := by
  cases x with
  | error => cases h
  | ok a => exact ⟨a, rfl, Except.ok.inj h⟩

end Written

namespace Value
variable {inside : Position → Value → Written String} {opened : PromiseId → Written String}
  {pos : Position}

theorem renderWith_ne_error {why : Unwritable} {v : Value}
    (hpair : ∀ mark a b, v = .pair mark a b →
      inside .alone a ≠ .error why ∧ inside .tail b ≠ .error why)
    (hpromise : ∀ id, v = .promise id → opened id ≠ .error why)
    (hinteger : ∀ n, v = .integer n → integerText n ≠ .error why) (pos : Position) :
    v.renderWith inside opened pos ≠ .error why := by
  cases v with
  | pair mark a b =>
    obtain ⟨ha, hb⟩ := hpair mark a b rfl
    cases pos <;> exact Written.bind_ne_error ha fun _ => Written.bind_ne_error hb fun _ => nofun
  | promise id => cases pos <;> exact Written.map_ne_error _ (hpromise id rfl)
  | integer n => cases pos <;> exact Written.map_ne_error _ (hinteger n rfl)
  | _ => cases pos <;> nofun

theorem parts_of_renderWith {mark : Mark} {a b : Value} {text : String}
    (h : renderWith inside opened pos (.pair mark a b) = .ok text) :
    ∃ head tail, inside .alone a = .ok head ∧ inside .tail b = .ok tail := by
  cases pos <;>
    · obtain ⟨head, hhead, h⟩ := Written.bind_eq_ok h
      obtain ⟨tail, htail, -⟩ := Written.bind_eq_ok h
      exact ⟨head, tail, hhead, htail⟩

theorem shown_of_renderWith {id : PromiseId} {text : String}
    (h : renderWith inside opened pos (.promise id) = .ok text) :
    ∃ shown, opened id = .ok shown := by
  cases pos <;>
    · obtain ⟨shown, hshown, -⟩ := Written.map_eq_ok h
      exact ⟨shown, hshown⟩

theorem fits_of_renderWith {n : Int} {text : String}
    (h : renderWith inside opened pos (.integer n) = .ok text) : n.natAbs < digitBound := by
  have hdigits : ∃ digits, integerText n = .ok digits := by
    cases pos <;>
      · obtain ⟨digits, hdigits, -⟩ := Written.map_eq_ok h
        exact ⟨digits, hdigits⟩
  obtain ⟨digits, hdigits⟩ := hdigits
  unfold integerText at hdigits
  split at hdigits
  · assumption
  · cases hdigits

end Value

/-! ## Cutting off the first character -/

def cutFirst (text : String) : String := .ofList (text.toList.drop 1)

theorem cutFirst_parenthesis (text : String) : cutFirst ("(" ++ text) = text := by
  simp [cutFirst, String.toList_append]

namespace Store

/-- What follows an element of a list: the text of the rest, without its first character
if the rest continues the list or ends it, and behind a dot otherwise. -/
def renderRest (s : Store) (depth : Nat) (rest : Value) : Written String :=
  if rest.tag = .pair ∨ rest.tag = .nil then (s.render depth rest).map cutFirst
  else (s.render depth rest).map fun text => ". " ++ text ++ ")"

/-- A list on its own is written as it is behind the elements of another, with an opening
parenthesis in front. -/
theorem render_of_list (s : Store) (depth : Nat) {v : Value}
    (hv : v.tag = .pair ∨ v.tag = .nil) :
    s.render depth v = (s.renderAt depth .tail v).map ("(" ++ ·) := by
  cases v with
  | nil => cases depth <;> rfl
  | pair mark first rest =>
    cases depth with
    | zero => rfl
    | succ depth =>
      change (s.renderAt depth .alone first >>= fun head => s.renderAt depth .tail rest >>=
        fun tail => .ok ("(" ++ head ++ " " ++ tail)) = Except.map _ (
          s.renderAt depth .alone first >>= fun head => s.renderAt depth .tail rest >>=
            fun tail => .ok (head ++ " " ++ tail))
      cases s.renderAt depth .alone first with
      | error => rfl
      | ok head =>
        cases s.renderAt depth .tail rest with
        | error => rfl
        | ok tail => exact congrArg Except.ok (by simp [String.append_assoc])
  | _ => simp [Value.tag] at hv

/-- A value that is neither nil nor a pair has the same text behind a dot. -/
theorem renderAt_tail_of_not_list (s : Store) (depth : Nat) {v : Value}
    (hv : ¬(v.tag = .pair ∨ v.tag = .nil)) :
    s.renderAt depth .tail v = (s.render depth v).map fun text => ". " ++ text ++ ")" := by
  cases v with
  | nil => exact absurd (.inr rfl) hv
  | pair => exact absurd (.inl rfl) hv
  | integer n => cases depth <;> cases h : integerText n <;>
      simp [Store.render, Store.renderAt, Value.renderWith, h, Except.map, Value.Position.place]
  | promise id =>
    cases depth with
    | zero => rfl
    | succ depth =>
      change Except.map _ (s.renderAt depth .alone (s.promise id).shown) = Except.map _
        (Except.map _ (s.renderAt depth .alone (s.promise id).shown))
      cases s.renderAt depth .alone (s.promise id).shown <;> rfl
  | _ => cases depth <;> rfl

/-- Rendering behind the elements of a list and cutting the text of the rest are the same. -/
theorem renderAt_tail (s : Store) (depth : Nat) (v : Value) :
    s.renderAt depth .tail v = s.renderRest depth v := by
  unfold renderRest
  split
  · next h =>
    rw [render_of_list s depth h]
    cases s.renderAt depth .tail v with
    | error => rfl
    | ok text => exact congrArg Except.ok (cutFirst_parenthesis text).symm
  · next h => exact renderAt_tail_of_not_list s depth h

end Store

/-! ## The flat text -/

namespace Value

/-- What stands behind the elements of a list. -/
def closing (text : Value → Written String) : Value → Written String
  | .nil => .ok "_)"
  | v => (text v).map fun last => ". " ++ last ++ ")"

/-- The flat text of a chain of pairs behind its opening parenthesis. -/
def flatBody (text : Value → Written String) (v : Value) : Written String := do
  let texts ← v.elements.mapM text
  let close ← v.ending.closing text
  .ok (" ".intercalate (texts ++ [close]))

theorem flatBody_pair (text : Value → Written String) (mark : Mark) (first rest : Value) :
    (pair mark first rest).flatBody text = (do
      let head ← text first
      let tail ← rest.flatBody text
      .ok (head ++ " " ++ tail)) := by
  simp only [flatBody, elements_pair, ending_pair, List.mapM_cons, bind_assoc, pure_bind]
  refine bind_congr fun head => bind_congr fun texts => bind_congr fun close => ?_
  have hne : texts ++ [close] ≠ [] := by simp
  exact congrArg Except.ok (by
    rw [List.cons_append, String.intercalate_cons_of_ne_nil hne])

theorem flatBody_of_not_pair (text : Value → Written String) {v : Value} (hv : v.tag ≠ .pair) :
    v.flatBody text = v.closing text := by
  rw [flatBody, (chain_of_not_pair hv).1, (chain_of_not_pair hv).2]
  change (v.closing text >>= fun close => .ok (" ".intercalate [close])) = _
  cases v.closing text <;> simp [bind, Except.bind]

end Value

namespace Store

theorem closing_render (s : Store) (depth : Nat) {v : Value} (hv : v.tag ≠ .pair) :
    v.closing (s.render depth) = s.renderAt depth .tail v := by
  cases v with
  | nil => cases depth <;> rfl
  | pair => exact absurd rfl hv
  | _ => exact (renderAt_tail_of_not_list s depth (by simp [Value.tag])).symm

/-- The text behind the elements of a list is flat, unless it lies too deep. The parts may
be rendered at any depth from there on. -/
theorem renderAt_tail_flat (s : Store) (v : Value) {depth depth' : Nat} (h : depth ≤ depth') :
    WrittenBelow (s.renderAt depth .tail v) (v.flatBody (s.render depth')) := by
  induction v using Value.ending.induct generalizing depth with
  | case1 mark first rest ih =>
    cases depth with
    | zero => exact .inl rfl
    | succ depth =>
      have hdepth : depth ≤ depth' := by omega
      rw [Value.flatBody_pair]
      exact (render_below s hdepth first).bind fun _ => (ih hdepth).bind fun _ => .refl _
  | case2 v hv =>
    have htag : v.tag ≠ .pair := Value.tag_ne_pair hv
    rw [Value.flatBody_of_not_pair _ htag, closing_render s depth' htag]
    exact renderAt_below s h .tail v

/-! ## What a text opens -/

/-- The text of the second value stands right inside the text of the first. -/
inductive Opens (s : Store) : Value → Value → Prop
  | first (mark : Mark) (a b : Value) : Opens s (.pair mark a b) a
  | rest (mark : Mark) (a b : Value) : Opens s (.pair mark a b) b
  | shown (id : PromiseId) : Opens s (.promise id) (s.promise id).shown

/-- No promise that is met in the text of the value is met again in what it shows. -/
def Acyclic (s : Store) (v : Value) : Prop :=
  ∀ id, Relation.ReflTransGen s.Opens v (.promise id) →
    ¬Relation.TransGen s.Opens (.promise id) (.promise id)

/-- Every integer that is met in the text of the value can be written. -/
def DigitsFit (s : Store) (v : Value) : Prop :=
  ∀ n, Relation.ReflTransGen s.Opens v (.integer n) → n.natAbs < digitBound

variable {s : Store} {u v : Value} {depth : Nat}

theorem Acyclic.reach (h : s.Acyclic v) (hopens : Relation.ReflTransGen s.Opens v u) :
    s.Acyclic u :=
  fun id hid => h id (hopens.trans hid)

theorem DigitsFit.opens (h : s.DigitsFit v) (hopens : s.Opens v u) : s.DigitsFit u :=
  fun n hn => h n (.head hopens hn)

/-- A reason for having no text comes from a part, or from an integer itself. -/
theorem renderAt_succ_ne_error {why : Unwritable}
    (hopens : ∀ u, s.Opens v u → ∀ pos, s.renderAt depth pos u ≠ .error why)
    (hinteger : ∀ n, v = .integer n → integerText n ≠ .error why) (pos : Value.Position) :
    s.renderAt (depth + 1) pos v ≠ .error why := by
  refine Value.renderWith_ne_error (fun mark a b hv => ?_) (fun id hv => ?_) hinteger pos
  · subst hv
    exact ⟨hopens a (.first mark a b) .alone, hopens b (.rest mark a b) .tail⟩
  · subst hv
    exact hopens _ (.shown id) .alone

/-- A place outside the store shows nil. -/
theorem shown_outside {id : PromiseId} (h : ¬id.index < s.promises.size) :
    (s.promise id).shown = .nil := by
  simp [Store.promise, Array.getD_eq_getD_getElem?, h, Promise.shown, Promise.forced,
    Promise.result, Answer.failure]

/-- Opening a value comes to an end if that of each promise in it does. -/
theorem acc_of_promises : ∀ v : Value,
    (∀ id, Relation.ReflTransGen s.Opens v (.promise id) →
      Acc (Function.swap s.Opens) (.promise id)) → Acc (Function.swap s.Opens) v
  | .pair mark a b, h => by
    refine Acc.intro _ fun u hu => ?_
    cases hu with
    | first => exact acc_of_promises a fun id hid => h id (.head (.first mark a b) hid)
    | rest => exact acc_of_promises b fun id hid => h id (.head (.rest mark a b) hid)
  | .promise id, h => h id .refl
  | .nil, _ | .integer _, _ | .float _, _ | .string _, _ | .symbol _, _ | .mapping _, _
  | .array .., _ | .closure .., _ | .native _, _ => Acc.intro _ fun _ hu => by cases hu

theorem acc_outside {id : PromiseId} (h : ¬id.index < s.promises.size) :
    Acc (Function.swap s.Opens) (.promise id) := by
  refine Acc.intro _ fun u hu => ?_
  cases hu with
  | shown =>
    rw [shown_outside h]
    exact Acc.intro _ fun _ hnil => by cases hnil

/-- The promises of the store that are met in the text of a value. -/
abbrev Met (s : Store) (v : Value) :=
  { i : Fin s.promises.size // Relation.ReflTransGen s.Opens v (.promise ⟨i⟩) }

/-- The first is met in what the second shows. -/
def Met.Inner (a b : s.Met v) : Prop :=
  Relation.TransGen s.Opens (.promise ⟨b.1⟩) (.promise ⟨a.1⟩)

theorem Met.wellFounded_inner (h : s.Acyclic v) :
    WellFounded (Inner : s.Met v → s.Met v → Prop) :=
  have : IsTrans (s.Met v) Inner := ⟨fun _ _ _ hab hbc => hbc.trans hab⟩
  have : Std.Irrefl (Inner : s.Met v → s.Met v → Prop) := ⟨fun a => h _ a.2⟩
  Finite.wellFounded_of_trans_of_irrefl Inner

/-- Since the store is finite, opening a value comes to an end. -/
theorem Acyclic.acc (h : s.Acyclic v) : Acc (Function.swap s.Opens) v := by
  have hmet (a : s.Met v) : Acc (Function.swap s.Opens) (.promise ⟨a.1⟩) := by
    induction a using (Met.wellFounded_inner h).induction with
    | h a ih =>
      refine Acc.intro _ fun u hu => ?_
      cases hu with
      | shown id =>
        refine acc_of_promises _ fun id hid => ?_
        have hinner : Relation.TransGen s.Opens (.promise ⟨a.1⟩) (.promise id) :=
          .head' (.shown _) hid
        by_cases hstore : id.index < s.promises.size
        · exact ih ⟨⟨id.index, hstore⟩, a.2.trans hinner.to_reflTransGen⟩ hinner
        · exact acc_outside hstore
  refine acc_of_promises v fun id hid => ?_
  by_cases hstore : id.index < s.promises.size
  · exact hmet ⟨⟨id.index, hstore⟩, hid⟩
  · exact acc_outside hstore

/-! ## What has a text -/

/-- The value has a text where it stands alone or where it stands behind a list. -/
def HasText (s : Store) (depth : Nat) (v : Value) : Prop :=
  ∃ pos text, s.renderAt depth pos v = .ok text

theorem integerText_ne_tooDeep (n : Int) : integerText n ≠ .error .tooDeep := by
  unfold integerText
  split <;> simp

/-- A value whose opening comes to an end is not too deep for every depth. -/
theorem exists_enough (h : Acc (Function.swap s.Opens) v) :
    ∃ enough, ∀ depth, enough ≤ depth → ∀ pos, s.renderAt depth pos v ≠ .error .tooDeep := by
  induction h with
  | intro v _ ih =>
    have hparts : ∃ enough, ∀ depth, enough ≤ depth → ∀ u, s.Opens v u →
        ∀ pos, s.renderAt depth pos u ≠ .error .tooDeep := by
      cases v with
      | pair mark a b =>
        obtain ⟨da, ha⟩ := ih a (.first mark a b)
        obtain ⟨db, hb⟩ := ih b (.rest mark a b)
        refine ⟨max da db, fun depth hdepth u hu => ?_⟩
        cases hu with
        | first => exact ha depth (by omega)
        | rest => exact hb depth (by omega)
      | promise id =>
        obtain ⟨d, hd⟩ := ih _ (.shown id)
        refine ⟨d, fun depth hdepth u hu => ?_⟩
        cases hu with
        | shown => exact hd depth hdepth
      | _ => exact ⟨0, fun _ _ u hu => by cases hu⟩
    obtain ⟨enough, hparts⟩ := hparts
    refine ⟨enough + 1, fun depth hdepth => ?_⟩
    obtain ⟨depth, rfl⟩ : ∃ d, depth = d + 1 := ⟨depth - 1, by omega⟩
    exact renderAt_succ_ne_error (hparts depth (by omega)) fun n _ => integerText_ne_tooDeep n

theorem renderAt_ne_tooManyDigits (h : s.DigitsFit v) (depth : Nat) (pos : Value.Position) :
    s.renderAt depth pos v ≠ .error .tooManyDigits := by
  have hinteger (v : Value) (h : s.DigitsFit v) (n : Int) (hn : v = .integer n) :
      integerText n ≠ .error .tooManyDigits := by
    subst hn
    simp [integerText, h n .refl]
  induction depth generalizing v pos with
  | zero =>
    have hdeep : (.error .tooDeep : Written String) ≠ .error .tooManyDigits := by simp
    exact Value.renderWith_ne_error (fun _ _ _ _ => ⟨hdeep, hdeep⟩) (fun _ _ => hdeep)
      (hinteger v h) pos
  | succ depth ih =>
    exact renderAt_succ_ne_error (fun u hu => ih (h.opens hu)) (hinteger v h) pos

theorem HasText.opens (h : s.HasText depth v) (hopens : s.Opens v u) :
    ∃ inner < depth, s.HasText inner u := by
  obtain ⟨pos, text, h⟩ := h
  cases depth with
  | zero => cases hopens <;> cases pos <;> cases h
  | succ depth =>
    refine ⟨depth, Nat.lt_succ_self depth, ?_⟩
    cases hopens with
    | first mark a b =>
      obtain ⟨head, tail, hhead, htail⟩ := Value.parts_of_renderWith h
      exact ⟨.alone, head, hhead⟩
    | rest mark a b =>
      obtain ⟨head, tail, hhead, htail⟩ := Value.parts_of_renderWith h
      exact ⟨.tail, tail, htail⟩
    | shown id =>
      obtain ⟨shown, hshown⟩ := Value.shown_of_renderWith h
      exact ⟨.alone, shown, hshown⟩

theorem HasText.transGen (h : s.HasText depth v) (hopens : Relation.TransGen s.Opens v u) :
    ∃ inner < depth, s.HasText inner u := by
  induction hopens with
  | single hu => exact h.opens hu
  | tail _ hu ih =>
    obtain ⟨inner, hinner, htext⟩ := ih
    obtain ⟨inner', hinner', htext'⟩ := htext.opens hu
    exact ⟨inner', by omega, htext'⟩

theorem HasText.reflTransGen (h : s.HasText depth v) (hopens : Relation.ReflTransGen s.Opens v u) :
    ∃ inner, s.HasText inner u := by
  rcases Relation.reflTransGen_iff_eq_or_transGen.mp hopens with rfl | hopens
  · exact ⟨depth, h⟩
  · obtain ⟨inner, -, htext⟩ := h.transGen hopens
    exact ⟨inner, htext⟩

/-- Each round of a cycle would need a smaller depth. -/
theorem HasText.not_transGen_self (h : s.HasText depth v) : ¬Relation.TransGen s.Opens v v := by
  intro hcycle
  induction depth using Nat.strong_induction_on with
  | h depth ih =>
    obtain ⟨inner, hinner, htext⟩ := h.transGen hcycle
    exact ih inner hinner htext

/-- What is not too deep has a text, if its digits fit. -/
theorem exists_text (hdeep : s.render depth v ≠ .error .tooDeep) (hdigits : s.DigitsFit v) :
    ∃ text, s.render depth v = .ok text := by
  cases h : s.render depth v with
  | ok text => exact ⟨text, rfl⟩
  | error why =>
    cases why with
    | tooDeep => exact absurd h hdeep
    | tooManyDigits => exact absurd h (renderAt_ne_tooManyDigits hdigits depth .alone)

/-- Exactly those values have a text at some depth that have neither a cycle nor an integer
with too many digits. -/
theorem exists_text_iff : (∃ depth text, s.render depth v = .ok text) ↔
    s.Acyclic v ∧ s.DigitsFit v := by
  constructor
  · rintro ⟨depth, text, h⟩
    have htext : s.HasText depth v := ⟨.alone, text, h⟩
    constructor
    · intro id hid
      obtain ⟨inner, hinner⟩ := htext.reflTransGen hid
      exact hinner.not_transGen_self
    · intro n hn
      obtain ⟨inner, pos, digits, hdigits⟩ := htext.reflTransGen hn
      cases inner <;> exact Value.fits_of_renderWith hdigits
  · rintro ⟨hacyclic, hdigits⟩
    obtain ⟨enough, henough⟩ := exists_enough hacyclic.acc
    exact ⟨enough, exists_text (henough enough le_rfl .alone) hdigits⟩

/-! ## Chains of pairs -/

/-- A chain of pairs opens its elements and its ending. -/
theorem reflTransGen_of_mem (v : Value) :
    (∀ u ∈ v.elements, Relation.ReflTransGen s.Opens v u) ∧
      Relation.ReflTransGen s.Opens v v.ending := by
  induction v using Value.ending.induct with
  | case1 mark first rest ih =>
    have hrest : s.Opens (.pair mark first rest) rest := .rest mark first rest
    refine ⟨fun u hu => ?_, .head hrest ih.2⟩
    rcases List.mem_cons.mp hu with rfl | hu
    · exact .single (.first mark u rest)
    · exact .head hrest (ih.1 u hu)
  | case2 v hv =>
    have hchain := Value.chain_of_not_pair (Value.tag_ne_pair hv)
    rw [hchain.1, hchain.2]
    exact ⟨fun _ hu => absurd hu List.not_mem_nil, .refl⟩

/-- The text of a list is flat, unless the list lies too deep. -/
theorem render_flat (s : Store) (depth : Nat) (hv : v.tag = .pair ∨ v.tag = .nil) :
    WrittenBelow (s.render depth v) ((v.flatBody (s.render depth)).map ("(" ++ ·)) := by
  rw [render_of_list s depth hv]
  exact (renderAt_tail_flat s v (Nat.le_refl depth)).map ("(" ++ ·)

theorem exists_enough_all {vs : List Value} (h : ∀ u ∈ vs, Acc (Function.swap s.Opens) u) :
    ∃ enough, ∀ depth, enough ≤ depth → ∀ u ∈ vs, s.render depth u ≠ .error .tooDeep := by
  induction vs with
  | nil => exact ⟨0, fun _ _ => nofun⟩
  | cons v vs ih =>
    obtain ⟨d, hd⟩ := exists_enough (h v (.head _))
    obtain ⟨d', hd'⟩ := ih fun u hu => h u (.tail _ hu)
    refine ⟨max d d', fun depth hdepth u hu => ?_⟩
    cases hu with
    | head => exact hd depth (by omega) .alone
    | tail _ hu => exact hd' depth (by omega) u hu

end Store

theorem Written.of_mapM_eq_ok {α β : Type} {f : α → Written β} {l : List α} {bs : List β}
    (h : l.mapM f = .ok bs) : l.map f = bs.map .ok := by
  induction l generalizing bs with
  | nil =>
    cases h
    rfl
  | cons a l ih =>
    rw [List.mapM_cons] at h
    obtain ⟨b, hb, h⟩ := Written.bind_eq_ok h
    obtain ⟨bs, hbs, h⟩ := Written.bind_eq_ok h
    cases h
    simp [hb, ih hbs]

namespace Value

/-- The flat text in full: the texts of the elements with single spaces between them, and
what closes the list. -/
theorem flatBody_eq_ok {text : Value → Written String} {v : Value} {body : String}
    (hv : v.elements ≠ []) (h : v.flatBody text = .ok body) :
    ∃ texts close, v.elements.map text = texts.map .ok ∧ v.ending.closing text = .ok close ∧
      body = " ".intercalate texts ++ " " ++ close := by
  obtain ⟨texts, htexts, h⟩ := Written.bind_eq_ok h
  obtain ⟨close, hclose, h⟩ := Written.bind_eq_ok h
  cases h
  have hmap := Written.of_mapM_eq_ok htexts
  have hne : texts ≠ [] := by
    rintro rfl
    exact hv (List.map_eq_nil_iff.mp hmap)
  refine ⟨texts, close, hmap, hclose, ?_⟩
  rw [String.intercalate_append_of_ne_nil hne (by simp)]
  simp

theorem closing_eq_ok {text : Value → Written String} {v : Value} {last close : String}
    (hlast : text v = .ok last) (h : v.closing text = .ok close) :
    close = if v.isNil then "_)" else ". " ++ last ++ ")" := by
  cases v with
  | nil =>
    cases h
    rfl
  | _ =>
    simp only [closing, hlast] at h
    cases h
    rfl

end Value

namespace Store
variable {s : Store} {v : Value} {depth : Nat}

/-- The text of a list is an opening parenthesis before the flat text. -/
theorem cut_text {rest : Value} {text : String} (hrest : rest.tag = .pair ∨ rest.tag = .nil)
    (h : s.render depth rest = .ok text) :
    text = "(" ++ cutFirst text ∧ rest.flatBody (s.render depth) = .ok (cutFirst text) := by
  have hflat : (rest.flatBody (s.render depth)).map ("(" ++ ·) = .ok text := by
    rcases render_flat s depth hrest with hdeep | hflat
    · rw [hdeep] at h
      cases h
    · rw [hflat, h]
  obtain ⟨body, hbody, rfl⟩ := Written.map_eq_ok hflat
  rw [cutFirst_parenthesis]
  exact ⟨rfl, hbody⟩

theorem render_in_full (hv : v.elements ≠ []) (hdigits : s.DigitsFit v)
    (hdeep : ∀ u ∈ v :: v.ending :: v.elements, s.render depth u ≠ .error .tooDeep) :
    ∃ texts last, v.elements.map (s.render depth) = texts.map .ok ∧
      s.render depth v.ending = .ok last ∧
      s.render depth v = .ok ("(" ++ " ".intercalate texts ++
        if v.ending.isNil then " _)" else " . " ++ last ++ ")") := by
  obtain ⟨text, htext⟩ := exists_text (hdeep v (by simp)) hdigits
  obtain ⟨last, hlast⟩ := exists_text (hdeep v.ending (by simp)) fun n hn =>
    hdigits n ((reflTransGen_of_mem v).2.trans hn)
  obtain ⟨htext', hbody⟩ := cut_text (.inl (Value.tag_of_elements hv)) htext
  obtain ⟨texts, close, htexts, hclose, hcut⟩ := Value.flatBody_eq_ok hv hbody
  refine ⟨texts, last, htexts, hlast, ?_⟩
  have hspace : " _)" = " " ++ "_)" ∧ " . " = " " ++ ". " := by decide
  rw [htext, htext', hcut, Value.closing_eq_ok hlast hclose, hspace.1, hspace.2]
  cases v.ending.isNil <;> simp only [String.append_assoc, if_true, Bool.false_eq_true, if_false]

end Store

/-- The text of a chain of pairs is flat, and it has one where rendering may go deep
enough if no promise is met again in what it shows. The rest of a list is written as its
own text without the first character, which is its opening parenthesis and nothing else. -/
theorem rendered_flat (s : Store) (v : Value) (hv : v.elements ≠ []) :
    (∀ depth, s.render depth v = .error .tooDeep ∨
      s.render depth v = (v.flatBody (s.render depth)).map ("(" ++ ·)) ∧
    (s.Acyclic v → ∃ enough, ∀ depth, enough ≤ depth →
      (∀ u ∈ v :: v.ending :: v.elements, s.render depth u ≠ .error .tooDeep) ∧
      (s.DigitsFit v → ∃ texts last, v.elements.map (s.render depth) = texts.map .ok ∧
        s.render depth v.ending = .ok last ∧
        s.render depth v = .ok ("(" ++ " ".intercalate texts ++
          if v.ending.isNil then " _)" else " . " ++ last ++ ")"))) ∧
    ((∃ depth text, s.render depth v = .ok text) ↔ s.Acyclic v ∧ s.DigitsFit v) ∧
    (∀ depth mark first rest, s.render (depth + 1) (.pair mark first rest) = (do
      let head ← s.render depth first
      let tail ← s.renderRest depth rest
      .ok ("(" ++ head ++ " " ++ tail))) ∧
    ∀ depth rest text, rest.tag = .pair ∨ rest.tag = .nil → s.render depth rest = .ok text →
      text = "(" ++ cutFirst text ∧ rest.flatBody (s.render depth) = .ok (cutFirst text) := by
  refine ⟨fun depth => ?_, fun hacyclic => ?_, Store.exists_text_iff,
    fun depth mark first rest => ?_, fun _ _ _ => Store.cut_text⟩
  · have hflat := Store.render_flat s depth (.inl (Value.tag_of_elements hv))
    exact hflat.imp id Eq.symm
  · have hopens := Store.reflTransGen_of_mem (s := s) v
    have hacc : ∀ u ∈ v :: v.ending :: v.elements, Acc (Function.swap s.Opens) u := by
      simp only [List.mem_cons, forall_eq_or_imp]
      exact ⟨hacyclic.acc, (hacyclic.reach hopens.2).acc,
        fun u hu => (hacyclic.reach (hopens.1 u hu)).acc⟩
    obtain ⟨enough, henough⟩ := Store.exists_enough_all hacc
    exact ⟨enough, fun depth hdepth =>
      ⟨henough depth hdepth, fun hdigits => Store.render_in_full hv hdigits (henough depth hdepth)⟩⟩
  · rw [← Store.renderAt_tail]
    rfl

/-- Promises in several states, one inside another. -/
def heldPromises : Store where
  promises := #[⟨.symbol "x", ⟨0⟩, some (.success (.integer 7))⟩,
    ⟨form [.symbol "f", .integer 1], ⟨0⟩, none⟩,
    ⟨.symbol "y", ⟨0⟩, some (.success (.promise ⟨0⟩))⟩]

/-- Nil, a list with a parenthesis in a string and a promise, before a dot and a promise. -/
def mixedChain : Value :=
  [.nil, form [.string "("], .promise ⟨2⟩].foldr (.pair ⟨0⟩) (.promise ⟨1⟩)

theorem mixedChain_rendered :
    (mixedChain.elements ≠ [] ∧ heldPromises.Acyclic mixedChain ∧
      heldPromises.DigitsFit mixedChain) ∧
      heldPromises.render 6 mixedChain =
        .ok "((_) (\"(\" _) (lazy: (lazy: 7)) . (lazy: (f 1 _)))" ∧
      ∃ enough, ∀ depth, enough ≤ depth → ∃ texts last,
        mixedChain.elements.map (heldPromises.render depth) = texts.map .ok ∧
        heldPromises.render depth (.promise ⟨1⟩) = .ok last ∧
        heldPromises.render depth mixedChain =
          .ok ("(" ++ " ".intercalate texts ++ (" . " ++ last ++ ")")) := by
  have hne : mixedChain.elements ≠ [] := nofun
  have htext : heldPromises.render 6 mixedChain =
      .ok "((_) (\"(\" _) (lazy: (lazy: 7)) . (lazy: (f 1 _)))" := by rfl
  obtain ⟨-, hflat, htexts, -⟩ := rendered_flat heldPromises mixedChain hne
  have hcan := htexts.mp ⟨6, _, htext⟩
  obtain ⟨enough, henough⟩ := hflat hcan.1
  exact ⟨⟨hne, hcan⟩, htext, enough, fun depth hdepth => (henough depth hdepth).2 hcan.2⟩

theorem render_zero (s : Store) (depth : Nat) : s.render depth (.integer 0) = .ok "0" := by
  cases depth <;> rfl

/-- As many levels as there are zeros are enough. -/
theorem exists_text_zeros (s : Store) (n : Nat) :
    ∃ text, s.renderAt n .tail (form (List.replicate n (.integer 0))) = .ok text := by
  induction n with
  | zero => exact ⟨_, rfl⟩
  | succ n ih =>
    obtain ⟨tail, htail⟩ := ih
    refine ⟨"0" ++ " " ++ tail, ?_⟩
    change (s.render n (.integer 0) >>= fun head =>
      s.renderAt n .tail (form (List.replicate n (.integer 0))) >>= fun tail =>
        .ok (head ++ " " ++ tail)) = _
    rw [render_zero, htail]
    rfl

/-- However deep rendering may go, a list of zeros that is one longer has no text, though
its elements and its ending have theirs at every depth. -/
theorem longList_unrendered :
    (∀ (s : Store) (depth : Nat),
      s.render depth (.integer 0) = .ok "0" ∧ s.render depth .nil = .ok "(_)") ∧
    ∀ (s : Store) (depth : Nat), s.Acyclic (form (List.replicate (depth + 1) (.integer 0))) ∧
      s.render depth (form (List.replicate (depth + 1) (.integer 0))) = .error .tooDeep := by
  refine ⟨fun s depth => ⟨render_zero s depth, ?_⟩, fun s depth => ⟨?_, ?_⟩⟩
  · cases depth <;> rfl
  · obtain ⟨text, htext⟩ := exists_text_zeros s (depth + 1)
    have hrender : s.render (depth + 1) (form (List.replicate (depth + 1) (.integer 0))) =
        .ok ("(" ++ text) := by
      rw [Store.render_of_list s (depth + 1) (.inl rfl), htext]
      rfl
    exact (Store.exists_text_iff.mp ⟨depth + 1, _, hrender⟩).1
  · exact Prelude.renderAt_zeros s depth .alone

end LispCore
