import LispCore.Proofs.FlatRendering
import Mathlib.Data.List.Perm.Subperm

/-! # What descriptions show

A description shows a tree (`Picture`): a value in full with what is shown for its parts, or three
dots. In the picture of a value, dots stand exactly for the mappings that lie inside a picture of
themselves, and whatever else is met has all its parts in their order (`Picture.Depicts`). A mapping
that is met twice side by side is in full twice. A value has at most one such picture
(`Picture.Depicts.unique`).

It has one as long as the cycles in it consist of mappings only (`Store.OnlyMappingsCyclic`,
`Store.Inside.exists_picture`). Along a branch each mapping and each promise of the store is opened at
most once, and between them the parts of pairs and arrays get smaller. The description is the text of
the picture wherever it may go as deep as the picture is high (`Store.Inside.describeIn_eq_text`), and
only an integer with too many digits keeps a picture from having a text
(`Picture.Depicts.text_cases`). -/
namespace LispCore

open Relation (ReflTransGen TransGen)

/-! ## Parts -/

/-- What a pair, an array or a mapping is recognised by. -/
def Value.identity? : Value → Option Identity
  | .pair mark _ _ | .array mark _ => some (.mark mark)
  | .mapping id => some (.mapping id)
  | _ => none

theorem Value.identity?_eq_mapping_iff {v : Value} {id : MappingId} :
    v.identity? = some (.mapping id) ↔ v = .mapping id := by
  cases v <;> simp [Value.identity?]

/-- Writing the values of entries behind their names is writing the values, and then the names. -/
theorem mapM_entries {key : String → String} {value : Value → Written String}
    (entries : List (String × Value)) :
    (entries.mapM fun e => (value e.2).map fun text => key e.1 ++ ": " ++ text) =
      ((entries.map Prod.snd).mapM value).map
        (List.zipWith (fun name text => key name ++ ": " ++ text) (entries.map Prod.fst)) := by
  induction entries with
  | nil => rfl
  | cons e entries ih =>
    simp only [List.map_cons, List.mapM_cons, ih]
    cases value e.2 with
    | error => rfl
    | ok text =>
      cases (entries.map Prod.snd).mapM value with
      | error => rfl
      | ok texts => rfl

theorem Written.exists_of_mapM {α β : Type} {f : α → Written β} {l : List α} {bs : List β}
    (h : l.mapM f = .ok bs) {a : α} (ha : a ∈ l) : ∃ b, f a = .ok b := by
  have hmem : f a ∈ bs.map .ok := Written.of_mapM_eq_ok h ▸ List.mem_map_of_mem ha
  obtain ⟨b, -, hb⟩ := List.mem_map.mp hmem
  exact ⟨b, hb.symm⟩

namespace Store

/-- The values that the description of a value shows right inside it, in order. -/
def parts (s : Store) : Value → List Value
  | .pair _ first rest => [first, rest]
  | .mapping id => (s.mapping id).entries.map Prod.snd
  | .array _ items => items
  | .promise id => [(s.promise id).shown]
  | _ => []

/-- A description put together from those of the parts. What has no parts needs no depth. -/
def layout (s : Store) : Value → List String → Written String
  | .pair .., [head, tail] => .ok ("Pair(first=" ++ head ++ ", rest=" ++ tail ++ ")")
  | .mapping id, texts =>
    let entries := List.zipWith (fun name text => quoted name ++ ": " ++ text)
      (s.mapping id).names texts
    .ok ("Mapping(entries=" ++ ("\x7b" ++ ", ".intercalate entries ++ "\x7d") ++ ")")
  | .array .., texts => .ok ("Array(items=" ++ itemsText texts ++ ")")
  | .promise id, [text] =>
    .ok ((if (s.promise id).forced then "<lazy forced=" else "<lazy pending=") ++ text ++ ">")
  | v, _ => s.describe 0 v

/-- The second value is shown right inside the description of the first. -/
def HasPart (s : Store) (v w : Value) : Prop := w ∈ s.parts v

/-- Among the values met in the description of a value, no pair, array or promise is met again inside
itself. Mappings may hold themselves and one another in any way. -/
structure OnlyMappingsCyclic (s : Store) (v : Value) : Prop where
  marked : ∀ u w mark, ReflTransGen s.HasPart v u → TransGen s.HasPart u w →
    u.identity? = some (.mark mark) → w.identity? ≠ some (.mark mark)
  promised : ∀ id, ReflTransGen s.HasPart v (.promise id) →
    ¬TransGen s.HasPart (.promise id) (.promise id)

/-- Only mappings are cyclic if parts never rank higher, the parts of whatever is no mapping rank
lower, and the rank of a pair or an array goes by its mark. -/
theorem OnlyMappingsCyclic.of_rank {s : Store} {v : Value} (met : Value → Prop)
    (rank : Value → Nat) (markRank : Mark → Nat) (hv : met v)
    (hpart : ∀ u, met u → ∀ w ∈ s.parts u,
      met w ∧ rank w ≤ rank u ∧ (u.tag ≠ .mapping → rank w < rank u))
    (hmarked : ∀ u mark, met u → u.identity? = some (.mark mark) → rank u = markRank mark) :
    s.OnlyMappingsCyclic v := by
  have hmet (u : Value) (hu : ReflTransGen s.HasPart v u) : met u := by
    induction hu with
    | refl => exact hv
    | tail _ hstep ih => exact (hpart _ ih _ hstep).1
  have hinner (u w : Value) (hu : met u) (hw : TransGen s.HasPart u w) :
      met w ∧ rank w ≤ rank u ∧ (u.tag ≠ .mapping → rank w < rank u) := by
    induction hw with
    | single hstep => exact hpart u hu _ hstep
    | tail _ hstep ih =>
      obtain ⟨hmet, hle, -⟩ := hpart _ ih.1 _ hstep
      exact ⟨hmet, hle.trans ih.2.1, fun htag => Nat.lt_of_le_of_lt hle (ih.2.2 htag)⟩
  constructor
  · intro u w mark hu hw hmark hmark'
    obtain ⟨hmet', -, hlt⟩ := hinner u w (hmet u hu) hw
    have htag : u.tag ≠ .mapping := by
      cases u <;> simp [Value.identity?, Value.tag] at hmark ⊢
    have hrank : rank u = rank w :=
      (hmarked u mark (hmet u hu) hmark).trans (hmarked w mark hmet' hmark').symm
    exact absurd (hlt htag) (Nat.not_lt.mpr hrank.le)
  · intro id hid hcycle
    exact absurd ((hinner _ _ (hmet _ hid) hcycle).2.2 (by simp [Value.tag])) (Nat.lt_irrefl _)

/-- Every description is either three dots or put together from those of the parts. -/
theorem describeWith_eq (s : Store) (inside : List Identity → Value → Written String)
    (busy : List Identity) (v : Value) :
    s.describeWith inside busy v =
      if v.identity?.any busy.contains then .ok "..."
      else (s.parts v).mapM (inside (v.identity?.toList ++ busy)) >>= s.layout v := by
  have hguard {object : Identity} {f : List Identity → Written String} {x : Written String}
      (h : f (object :: busy) = x) :
      guarded busy object f = if (some object).any busy.contains then .ok "..." else x := by
    rw [← h]
    rfl
  cases v with
  | pair mark first rest =>
    simp only [describeWith, Value.identity?, parts]
    refine hguard ?_
    simp only [Option.toList_some, List.singleton_append, List.mapM_cons, List.mapM_nil,
      bind_assoc, pure_bind]
    rfl
  | mapping id =>
    simp only [describeWith, Value.identity?, parts, entriesText, mapM_entries]
    refine hguard ?_
    simp only [Option.toList_some, List.singleton_append]
    cases ((s.mapping id).entries.map Prod.snd).mapM (inside (.mapping id :: busy)) <;> rfl
  | array mark items =>
    simp only [describeWith, Value.identity?, parts]
    refine hguard ?_
    simp only [Option.toList_some, List.singleton_append]
    cases items.mapM (inside (.mark mark :: busy)) <;> rfl
  | promise id =>
    simp only [describeWith, Value.identity?, Option.any_none, Bool.false_eq_true, if_false, parts,
      Option.toList_none, List.nil_append, List.mapM_cons, List.mapM_nil]
    cases inside busy (s.promise id).shown <;> rfl
  | _ => rfl

end Store

/-! ## Pictures -/

/-- What a description shows: a value in full with what is shown for its parts, or three dots in its
place. -/
inductive Picture where
  | full (v : Value) (parts : List Picture)
  | dots (v : Value)

namespace Picture

/-- The value that is shown. -/
def subject : Picture → Value
  | .full v _ | .dots v => v

@[elab_as_elim, induction_eliminator]
theorem induct {motive : Picture → Prop}
    (full : ∀ v ps, (∀ p ∈ ps, motive p) → motive (.full v ps)) (dots : ∀ v, motive (.dots v))
    (p : Picture) : motive p := by
  refine @Picture.rec motive (fun ps => ∀ p ∈ ps, motive p) full dots ?_ ?_ p
  · intro p hp
    cases hp
  · intro p ps hp hps q hq
    rcases List.mem_cons.mp hq with rfl | hq
    · exact hp
    · exact hps q hq

mutual

/-- The description that a picture stands for. -/
def text (s : Store) : Picture → Written String
  | .full v ps => texts s ps >>= s.layout v
  | .dots _ => .ok "..."

def texts (s : Store) : List Picture → Written (List String)
  | [] => .ok []
  | p :: ps => do
    let text ← p.text s
    let others ← texts s ps
    .ok (text :: others)

end

mutual

/-- How many levels of parts lie inside one another. -/
def height : Picture → Nat
  | .full _ ps => heights ps
  | .dots _ => 0

def heights : List Picture → Nat
  | [] => 0
  | p :: ps => max (p.height + 1) (heights ps)

end

/-- A picture occurs in another one, inside the pictures in full of the values `around`, which are
listed from the inside out. -/
inductive Occurs : Picture → List Value → Picture → Prop
  | here (p : Picture) : Occurs p [] p
  | inside {v : Value} {ps : List Picture} {p q : Picture} {around : List Value} :
      p ∈ ps → Occurs p around q → Occurs (.full v ps) (around ++ [v]) q

/-- A picture shows a value that is met inside the values `outer`. Whatever it has in full has all
its parts in order. Three dots stand for a mapping inside itself, and for nothing else. -/
structure Depicts (s : Store) (outer : List Value) (v : Value) (p : Picture) : Prop where
  subject : p.subject = v
  complete : ∀ around u ps, p.Occurs around (.full u ps) → ps.map Picture.subject = s.parts u
  dotted : ∀ around q, p.Occurs around q →
    (q = .dots q.subject ↔ q.subject.tag = .mapping ∧ q.subject ∈ around ++ outer)

/-- An integer with too many digits is shown. -/
def HasLongInteger (p : Picture) : Prop :=
  ∃ around n ps, p.Occurs around (.full (.integer n) ps) ∧ digitBound ≤ n.natAbs

variable {s : Store} {outer : List Value} {v : Value} {p q : Picture}

theorem texts_eq (s : Store) (ps : List Picture) : texts s ps = ps.mapM (text s) := by
  induction ps with
  | nil => rfl
  | cons p ps ih => simp only [texts, List.mapM_cons, ih]; rfl

theorem heights_le_iff {ps : List Picture} {depth : Nat} :
    heights ps ≤ depth ↔ ∀ p ∈ ps, p.height < depth := by
  induction ps with
  | nil => simp [heights]
  | cons p ps ih =>
    rw [heights, Nat.max_le, ih, List.forall_mem_cons]
    exact Iff.rfl

theorem occurs_dots_iff {around : List Value} :
    (Picture.dots v).Occurs around q ↔ around = [] ∧ q = .dots v := by
  constructor
  · intro h
    cases h
    exact ⟨rfl, rfl⟩
  · rintro ⟨rfl, rfl⟩
    exact .here _

theorem occurs_full_iff {ps : List Picture} {around : List Value} :
    (Picture.full v ps).Occurs around q ↔ (around = [] ∧ q = .full v ps) ∨
      ∃ p ∈ ps, ∃ inner, around = inner ++ [v] ∧ p.Occurs inner q := by
  constructor
  · intro h
    cases h with
    | here => exact .inl ⟨rfl, rfl⟩
    | inside hp hq => exact .inr ⟨_, hp, _, rfl, hq⟩
  · rintro (⟨rfl, rfl⟩ | ⟨p, hp, inner, rfl, hq⟩)
    · exact .here _
    · exact .inside hp hq

theorem depicts_dots_iff {u : Value} :
    (Picture.dots u).Depicts s outer v ↔ u = v ∧ v.tag = .mapping ∧ v ∈ outer := by
  constructor
  · rintro ⟨hsubject, -, hdotted⟩
    obtain rfl : u = v := hsubject
    exact ⟨rfl, (hdotted [] _ (.here _)).mp rfl⟩
  · rintro ⟨rfl, hmapping, houter⟩
    refine ⟨rfl, fun around w ps h => ?_, fun around q h => ?_⟩
    · cases (occurs_dots_iff.mp h).2
    · obtain ⟨rfl, rfl⟩ := occurs_dots_iff.mp h
      exact ⟨fun _ => ⟨hmapping, houter⟩, fun _ => rfl⟩

theorem depicts_full_iff {u : Value} {ps : List Picture} :
    (Picture.full u ps).Depicts s outer v ↔ u = v ∧ ¬(v.tag = .mapping ∧ v ∈ outer) ∧
      ps.map Picture.subject = s.parts v ∧ ∀ p ∈ ps, p.Depicts s (v :: outer) p.subject := by
  constructor
  · rintro ⟨hsubject, hcomplete, hdotted⟩
    obtain rfl : u = v := hsubject
    refine ⟨rfl, fun hagain => ?_, hcomplete [] _ _ (.here _), fun p hp => ⟨rfl, ?_, ?_⟩⟩
    · cases (hdotted [] _ (.here _)).mpr hagain
    · intro around w qs h
      exact hcomplete _ w qs (.inside hp h)
    · intro around q h
      simpa using hdotted _ q (.inside hp h)
  · rintro ⟨rfl, hnew, hparts, hps⟩
    refine ⟨rfl, fun around w qs h => ?_, fun around q h => ?_⟩
    · rcases occurs_full_iff.mp h with ⟨rfl, heq⟩ | ⟨p, hp, inner, rfl, hq⟩
      · cases heq
        exact hparts
      · exact (hps p hp).complete inner w qs hq
    · rcases occurs_full_iff.mp h with ⟨rfl, rfl⟩ | ⟨p, hp, inner, rfl, hq⟩
      · exact ⟨nofun, fun hagain => absurd hagain hnew⟩
      · simpa using (hps p hp).dotted inner q hq

theorem Depicts.part {ps : List Picture} (h : (Picture.full v ps).Depicts s outer v)
    (hp : p ∈ ps) : s.HasPart v p.subject ∧ p.Depicts s (v :: outer) p.subject := by
  obtain ⟨-, -, hparts, hps⟩ := depicts_full_iff.mp h
  rw [Store.HasPart, ← hparts]
  exact ⟨List.mem_map_of_mem hp, hps p hp⟩

/-- A value has one picture inside the same values. -/
theorem Depicts.unique (hp : p.Depicts s outer v) (hq : q.Depicts s outer v) : p = q := by
  induction p generalizing q outer v with
  | dots u =>
    obtain ⟨rfl, hagain⟩ := depicts_dots_iff.mp hp
    cases q with
    | dots u' => rw [(depicts_dots_iff.mp hq).1]
    | full u' qs => exact absurd hagain (depicts_full_iff.mp hq).2.1
  | full u ps ih =>
    obtain ⟨rfl, hnew, hparts, hps⟩ := depicts_full_iff.mp hp
    cases q with
    | dots u' => exact absurd (depicts_dots_iff.mp hq).2 hnew
    | full u' qs =>
      obtain ⟨rfl, -, hparts', hqs⟩ := depicts_full_iff.mp hq
      have hlength : ps.length = qs.length := by
        simpa using congrArg List.length (hparts.trans hparts'.symm)
      refine congrArg _ (List.ext_getElem hlength fun i hi hi' => ?_)
      have hsubject : ps[i].subject = qs[i].subject := by
        have h := List.getElem_of_eq (hparts.trans hparts'.symm) (by simpa using hi)
        simpa using h
      exact ih _ (List.getElem_mem hi) (hps _ (List.getElem_mem hi))
        (hsubject ▸ hqs _ (List.getElem_mem hi'))

end Picture

/-! ## There is a picture -/

/-- What holds of pairs and arrays because it holds of their parts, and of all other values, holds of
every value. -/
theorem Value.induct_parts (s : Store) {motive : Value → Prop}
    (marked : ∀ v, v.tag = .pair ∨ v.tag = .array → (∀ w ∈ s.parts v, motive w) → motive v)
    (other : ∀ v, v.tag ≠ .pair → v.tag ≠ .array → motive v) (v : Value) : motive v := by
  refine @Value.rec motive (fun vs => ∀ w ∈ vs, motive w) (other _ nofun nofun)
    (fun _ => other _ nofun nofun) (fun _ => other _ nofun nofun) (fun _ => other _ nofun nofun)
    (fun _ => other _ nofun nofun) ?pair (fun _ => other _ nofun nofun) ?array
    (fun _ _ _ _ _ _ => other _ nofun nofun) (fun _ => other _ nofun nofun)
    (fun _ => other _ nofun nofun) ?nil ?cons v
  case pair =>
    intro mark first rest hfirst hrest
    refine marked _ (.inl rfl) fun w hw => ?_
    simp only [Store.parts, List.mem_cons, List.not_mem_nil, or_false] at hw
    rcases hw with rfl | rfl
    · exact hfirst
    · exact hrest
  case array =>
    intro mark items hitems
    exact marked _ (.inr rfl) hitems
  case nil => exact fun _ hw => absurd hw List.not_mem_nil
  case cons =>
    intro v vs hv hvs w hw
    rcases List.mem_cons.mp hw with rfl | hw
    · exact hv
    · exact hvs w hw

namespace Store
variable {s : Store} {outer opened : List Value} {u v w : Value}

theorem OnlyMappingsCyclic.part (h : s.OnlyMappingsCyclic v) (hw : s.HasPart v w) :
    s.OnlyMappingsCyclic w where
  marked u x mark hu := h.marked u x mark (.head hw hu)
  promised id hid := h.promised id (.head hw hid)

/-- A value is met in the descriptions of others, and in all of them only mappings are cyclic. -/
structure Inside (s : Store) (outer : List Value) (v : Value) : Prop where
  cycles : s.OnlyMappingsCyclic v
  around : ∀ u ∈ outer, s.OnlyMappingsCyclic u ∧ TransGen s.HasPart u v

theorem Inside.part (h : s.Inside outer v) (hw : s.HasPart v w) : s.Inside (v :: outer) w where
  cycles := h.cycles.part hw
  around u hu := by
    rcases List.mem_cons.mp hu with rfl | hu
    · exact ⟨h.cycles, .single hw⟩
    · exact ⟨(h.around u hu).1, (h.around u hu).2.tail hw⟩

theorem Inside.promise_not_mem {id : PromiseId} (h : s.Inside outer (.promise id)) :
    .promise id ∉ outer :=
  fun hmem => (h.around _ hmem).1.promised id .refl (h.around _ hmem).2

/-- The mappings and the promises of the store. -/
def places (s : Store) : List Value :=
  (List.range s.mappings.size).map (fun i => .mapping ⟨i⟩) ++
    (List.range s.promises.size).map fun i => .promise ⟨i⟩

theorem mapping_mem_places {id : MappingId} :
    .mapping id ∈ s.places ↔ id.index < s.mappings.size := by
  obtain ⟨i⟩ := id
  simp [places]

theorem promise_mem_places {id : PromiseId} :
    .promise id ∈ s.places ↔ id.index < s.promises.size := by
  obtain ⟨i⟩ := id
  simp [places]

/-- Beyond pairs, arrays and the places of the store, nil is the only part that there can be. -/
theorem eq_nil_of_hasPart (hpair : v.tag ≠ .pair) (harray : v.tag ≠ .array) (hv : v ∉ s.places)
    (hw : s.HasPart v w) : w = .nil := by
  cases v with
  | pair => exact absurd rfl hpair
  | array => exact absurd rfl harray
  | mapping id =>
    have hempty : s.mapping id = ∅ := by
      simp [Store.mapping, Array.getD_eq_getD_getElem?, mt mapping_mem_places.mpr hv]
    rw [HasPart, parts, hempty] at hw
    cases hw
  | promise id =>
    rw [HasPart, parts, shown_outside (mt promise_mem_places.mpr hv)] at hw
    exact List.mem_singleton.mp hw
  | _ => cases hw

theorem exists_full (hnew : ¬(v.tag = .mapping ∧ v ∈ outer))
    (h : ∀ w ∈ s.parts v, ∃ p : Picture, p.Depicts s (v :: outer) w) :
    ∃ p : Picture, p.Depicts s outer v := by
  have hparts : ∀ ws : List Value, (∀ w ∈ ws, ∃ p : Picture, p.Depicts s (v :: outer) w) →
      ∃ ps : List Picture, ps.map Picture.subject = ws ∧
        ∀ p ∈ ps, p.Depicts s (v :: outer) p.subject := by
    intro ws
    induction ws with
    | nil => exact fun _ => ⟨[], rfl, nofun⟩
    | cons w ws ih =>
      intro hws
      obtain ⟨p, hp⟩ := hws w List.mem_cons_self
      obtain ⟨ps, rfl, hps⟩ := ih fun w hw => hws w (List.mem_cons_of_mem _ hw)
      refine ⟨p :: ps, by rw [List.map_cons, hp.subject], fun q hq => ?_⟩
      rcases List.mem_cons.mp hq with rfl | hq
      · exact hp.subject.symm ▸ hp
      · exact hps q hq
  obtain ⟨ps, hsubjects, hps⟩ := hparts _ h
  exact ⟨.full v ps, Picture.depicts_full_iff.mpr ⟨rfl, hnew, hsubjects, hps⟩⟩

/-- The places opened so far are distinct, so there are fewer and fewer left to be opened. -/
theorem Inside.exists_picture (h : s.Inside outer v) (hnodup : opened.Nodup)
    (hplaces : opened ⊆ s.places) (houter : opened ⊆ outer) :
    ∃ p : Picture, p.Depicts s outer v := by
  induction hleft : s.places.length - opened.length using Nat.strong_induction_on
    generalizing opened outer v with
  | h left ih =>
    -- Pairs and arrays are not places: they are gone through with the same places left.
    induction v using Value.induct_parts s generalizing outer with
    | marked v htag ihv =>
      refine exists_full (fun hagain => ?_) fun w hw =>
        ihv w hw (h.part hw) (List.subset_cons_of_subset v houter)
      rcases htag with htag | htag <;> exact absurd (htag.symm.trans hagain.1) nofun
    | other v hpair harray =>
      by_cases hagain : v.tag = .mapping ∧ v ∈ outer
      · exact ⟨.dots v, Picture.depicts_dots_iff.mpr ⟨rfl, hagain⟩⟩
      refine exists_full hagain fun w hw => ?_
      by_cases hplace : v ∈ s.places
      · -- A mapping inside itself would be dots, and a promise inside itself a cycle.
        have hnew : v ∉ outer := by
          cases v with
          | mapping id => exact fun hmem => hagain ⟨rfl, hmem⟩
          | promise id => exact h.promise_not_mem
          | _ => simp [places] at hplace
        have hnodup' : (v :: opened).Nodup :=
          List.nodup_cons.mpr ⟨fun hmem => hnew (houter hmem), hnodup⟩
        have hplaces' : v :: opened ⊆ s.places := List.cons_subset.mpr ⟨hplace, hplaces⟩
        have hlength := (List.subperm_of_subset hnodup' hplaces').length_le
        rw [List.length_cons] at hlength
        refine ih _ ?_ (h.part hw) hnodup' hplaces' (List.cons_subset_cons v houter) rfl
        rw [List.length_cons]
        omega
      · rw [eq_nil_of_hasPart hpair harray hplace hw]
        exact exists_full nofun nofun

/-! ## The description is the text of the picture -/

/-- How a part is described that may use the given depth together with what it is a part of. -/
def describePart (s : Store) : (depth : Nat) → (busy : List Identity) → Value → Written String
  | 0, _, _ => .error .tooDeep
  | depth + 1, busy, v => s.describeIn depth busy v

theorem describeIn_eq (s : Store) (depth : Nat) (busy : List Identity) (v : Value) :
    s.describeIn depth busy v =
      if v.identity?.any busy.contains then .ok "..."
      else (s.parts v).mapM (s.describePart depth (v.identity?.toList ++ busy)) >>= s.layout v := by
  cases depth <;> exact describeWith_eq s _ busy v

/-- Where only mappings are cyclic, only a mapping can be inside itself. -/
theorem Inside.busy_iff (h : s.Inside outer v) :
    v.identity?.any (outer.filterMap Value.identity?).contains = true ↔
      v.tag = .mapping ∧ v ∈ outer := by
  have hobject {object : Identity} (hv : v.identity? = some object) :
      v.identity?.any (outer.filterMap Value.identity?).contains = true ↔
        ∃ u ∈ outer, u.identity? = some object := by
    rw [hv, Option.any_some, List.contains_iff_mem, List.mem_filterMap]
  -- A pair or an array among the values around would lie on a cycle.
  have hmarked {mark : Mark} (hv : v.identity? = some (.mark mark)) :
      ¬∃ u ∈ outer, u.identity? = some (.mark mark) := by
    rintro ⟨u, hu, hmark⟩
    exact (h.around u hu).1.marked u v mark .refl (h.around u hu).2 hmark hv
  cases v with
  | mapping id =>
    rw [hobject rfl]
    simp only [Value.identity?_eq_mapping_iff, exists_eq_right]
    exact ⟨fun hmem => ⟨rfl, hmem⟩, And.right⟩
  | pair mark first rest | array mark items =>
    rw [hobject rfl]
    exact ⟨fun hmem => absurd hmem (hmarked rfl), fun hmem => absurd hmem.1 (by simp [Value.tag])⟩
  | _ => simp [Value.identity?, Value.tag]

theorem busy_cons (v : Value) (outer : List Value) :
    v.identity?.toList ++ outer.filterMap Value.identity? =
      (v :: outer).filterMap Value.identity? := by
  rw [List.filterMap_cons]
  cases v.identity? <;> rfl

variable {p : Picture} {depth : Nat}

/-- What is shown in full is described part by part. -/
theorem Inside.describeIn_full (h : s.Inside outer v) {ps : List Picture}
    (hp : (Picture.full v ps).Depicts s outer v) (depth : Nat) :
    s.describeIn depth (outer.filterMap Value.identity?) v =
      ps.mapM (fun p => s.describePart depth ((v :: outer).filterMap Value.identity?) p.subject) >>=
        s.layout v := by
  obtain ⟨-, hnew, hparts, -⟩ := Picture.depicts_full_iff.mp hp
  rw [describeIn_eq, if_neg (mt h.busy_iff.mp hnew), busy_cons, ← hparts, List.mapM_map]
  rfl

theorem Inside.describeIn_dots (h : s.Inside outer v) (hp : (Picture.dots v).Depicts s outer v)
    (depth : Nat) : s.describeIn depth (outer.filterMap Value.identity?) v = .ok "..." := by
  rw [describeIn_eq, if_pos (h.busy_iff.mpr (Picture.depicts_dots_iff.mp hp).2)]

theorem Inside.describeIn_eq_text (h : s.Inside outer v) (hp : p.Depicts s outer v)
    (hdepth : p.height ≤ depth) :
    s.describeIn depth (outer.filterMap Value.identity?) v = p.text s := by
  induction p generalizing outer v depth with
  | dots u =>
    obtain rfl : u = v := hp.subject
    exact h.describeIn_dots hp depth
  | full u ps ih =>
    obtain rfl : u = v := hp.subject
    rw [h.describeIn_full hp, Picture.text, Picture.texts_eq]
    refine congrArg (· >>= s.layout u) (mapM_congr fun q hq => ?_)
    obtain ⟨hpart, hshown⟩ := hp.part hq
    have hlow : q.height < depth := Picture.heights_le_iff.mp hdepth q hq
    obtain ⟨d, rfl⟩ : ∃ d, depth = d + 1 := ⟨depth - 1, by omega⟩
    exact ih q hq (h.part hpart) hshown (Nat.le_of_lt_succ hlow)

/-- A description that is given goes down to the bottom of the picture. -/
theorem Inside.height_le (h : s.Inside outer v) (hp : p.Depicts s outer v) {text : String}
    (htext : s.describeIn depth (outer.filterMap Value.identity?) v = .ok text) :
    p.height ≤ depth := by
  induction p generalizing outer v depth text with
  | dots u => exact Nat.zero_le depth
  | full u ps ih =>
    obtain rfl : u = v := hp.subject
    rw [h.describeIn_full hp] at htext
    obtain ⟨texts, htexts, -⟩ := Written.bind_eq_ok htext
    refine Picture.heights_le_iff.mpr fun q hq => ?_
    obtain ⟨hpart, hshown⟩ := hp.part hq
    obtain ⟨inner, hinner⟩ := Written.exists_of_mapM htexts hq
    cases depth with
    | zero => cases hinner
    | succ d => exact Nat.lt_succ_of_le (ih q hq (h.part hpart) hshown hinner)

/-! ## Long integers -/

theorem layout_long (s : Store) {n : Int} (hlong : digitBound ≤ n.natAbs) (texts : List String) :
    s.layout (.integer n) texts = .error .tooManyDigits := by
  have htext : integerText n = .error .tooManyDigits := if_neg (Nat.not_lt.mpr hlong)
  change (integerText n).map _ = _
  rw [htext]
  rfl

theorem exists_layout {texts : List String} (hlength : texts.length = (s.parts v).length)
    (hshort : ∀ n, v = .integer n → n.natAbs < digitBound) :
    ∃ text, s.layout v texts = .ok text := by
  cases v with
  | pair mark first rest =>
    obtain ⟨head, tail, rfl⟩ := List.length_eq_two.mp hlength
    exact ⟨_, rfl⟩
  | promise id =>
    obtain ⟨text, rfl⟩ := List.length_eq_one_iff.mp hlength
    exact ⟨_, rfl⟩
  | integer n =>
    have htext : integerText n = .ok (toString n) := if_pos (hshort n rfl)
    change ∃ text, (integerText n).map _ = .ok text
    rw [htext]
    exact ⟨_, rfl⟩
  | _ => exact ⟨_, rfl⟩

end Store

/-- If some part cannot be written, and each that cannot has the same reason, this is the reason for
all of them together. -/
theorem Written.mapM_eq_error {α β : Type} {f : α → Written β} {why : Unwritable} {l : List α}
    (h : ∀ a ∈ l, f a = .error why ∨ ∃ b, f a = .ok b) (hsome : ∃ a ∈ l, f a = .error why) :
    l.mapM f = .error why := by
  induction l with
  | nil =>
    obtain ⟨a, ha, -⟩ := hsome
    cases ha
  | cons a l ih =>
    rw [List.mapM_cons]
    rcases h a List.mem_cons_self with ha | ⟨b, ha⟩
    · rw [ha]
      rfl
    · have hsome' : ∃ c ∈ l, f c = .error why := by
        obtain ⟨c, hc, herror⟩ := hsome
        rcases List.mem_cons.mp hc with rfl | hc
        · rw [ha] at herror
          cases herror
        · exact ⟨c, hc, herror⟩
      rw [ha, ih (fun c hc => h c (List.mem_cons_of_mem _ hc)) hsome']
      rfl

theorem Written.exists_mapM_ok {α β : Type} {f : α → Written β} {l : List α}
    (h : ∀ a ∈ l, ∃ b, f a = .ok b) : ∃ bs : List β, l.mapM f = .ok bs ∧ bs.length = l.length := by
  induction l with
  | nil => exact ⟨[], rfl, rfl⟩
  | cons a l ih =>
    obtain ⟨b, hb⟩ := h a List.mem_cons_self
    obtain ⟨bs, hbs, hlength⟩ := ih fun c hc => h c (List.mem_cons_of_mem _ hc)
    refine ⟨b :: bs, ?_, by simp [hlength]⟩
    rw [List.mapM_cons, hb, hbs]
    rfl

namespace Picture
variable {s : Store} {outer : List Value} {v : Value} {p : Picture}

theorem hasLongInteger_full_iff {ps : List Picture} : (Picture.full v ps).HasLongInteger ↔
    (∃ n, v = .integer n ∧ digitBound ≤ n.natAbs) ∨ ∃ p ∈ ps, p.HasLongInteger := by
  constructor
  · rintro ⟨around, n, qs, hoccurs, hlong⟩
    rcases occurs_full_iff.mp hoccurs with ⟨-, heq⟩ | ⟨p, hp, inner, -, hq⟩
    · cases heq
      exact .inl ⟨n, rfl, hlong⟩
    · exact .inr ⟨p, hp, inner, n, qs, hq, hlong⟩
  · rintro (⟨n, rfl, hlong⟩ | ⟨p, hp, around, n, qs, hoccurs, hlong⟩)
    · exact ⟨[], n, ps, .here _, hlong⟩
    · exact ⟨_, n, qs, .inside hp hoccurs, hlong⟩

/-- Only an integer with too many digits keeps a picture from being written. -/
theorem Depicts.text_cases (hp : p.Depicts s outer v) :
    (p.HasLongInteger → p.text s = .error .tooManyDigits) ∧
      (¬p.HasLongInteger → ∃ text, p.text s = .ok text) := by
  induction p generalizing outer v with
  | dots u =>
    refine ⟨fun hlong => ?_, fun _ => ⟨_, rfl⟩⟩
    obtain ⟨around, n, qs, hoccurs, -⟩ := hlong
    cases (occurs_dots_iff.mp hoccurs).2
  | full u ps ih =>
    obtain ⟨rfl, -, hparts, hps⟩ := depicts_full_iff.mp hp
    have hlength : ps.length = (s.parts u).length := by rw [← hparts, List.length_map]
    rw [hasLongInteger_full_iff, text, texts_eq]
    constructor
    · rintro (⟨n, rfl, hlong⟩ | ⟨p, hp, hlong⟩)
      · obtain rfl : ps = [] := List.length_eq_zero_iff.mp hlength
        exact s.layout_long hlong []
      · have herror : ps.mapM (text s) = .error .tooManyDigits := by
          refine Written.mapM_eq_error (fun q hq => ?_) ⟨p, hp, (ih p hp (hps p hp)).1 hlong⟩
          by_cases hlong : q.HasLongInteger
          · exact .inl ((ih q hq (hps q hq)).1 hlong)
          · exact .inr ((ih q hq (hps q hq)).2 hlong)
        rw [herror]
        rfl
    · intro hshort
      obtain ⟨texts, htexts, hcount⟩ := Written.exists_mapM_ok fun q hq =>
        (ih q hq (hps q hq)).2 fun hlong => hshort (.inr ⟨q, hq, hlong⟩)
      rw [htexts]
      exact Store.exists_layout (hcount.trans hlength) fun n hn =>
        Nat.lt_of_not_le fun hlong => hshort (.inl ⟨n, hn, hlong⟩)

end Picture

/-- Where the picture is too high, the depth runs out, unless an integer with too many digits comes
first. -/
theorem Store.Inside.describeIn_of_lt {s : Store} {outer : List Value} {v : Value} {p : Picture}
    {depth : Nat} (h : s.Inside outer v) (hp : p.Depicts s outer v) (hdepth : depth < p.height) :
    s.describeIn depth (outer.filterMap Value.identity?) v = .error .tooDeep ∨
      p.HasLongInteger ∧ s.describeIn depth (outer.filterMap Value.identity?) v = p.text s := by
  have htext := h.describeIn_eq_text hp (Nat.le_refl p.height)
  rcases describeIn_below s (Nat.le_of_lt hdepth) (outer.filterMap Value.identity?) v with
    hdeep | hsame
  · exact .inl hdeep
  · have hdescribed := hsame.symm.trans htext
    refine .inr ⟨Classical.byContradiction fun hshort => ?_, hdescribed⟩
    obtain ⟨text, hok⟩ := hp.text_cases.2 hshort
    exact absurd (h.height_le hp (hdescribed.trans hok)) (Nat.not_le.mpr hdepth)

end LispCore
