import LispCore.Proofs.Installing
import LispCore.Proofs.Picture

/-! # Descriptions of cyclic mappings

Mappings can hold one another in a circle, and each then lies inside itself. Describing them comes to
an end all the same. Where nothing but mappings is cyclic there is one picture of a value, with dots
for the mappings inside themselves, and the description is its text
(`cyclic_mappings_described`).

Two things remain that can keep a value from having a description, with cycles or without: an integer
with too many digits, and parts inside one another beyond the depth (`undescribed_mappings`). -/
namespace LispCore

/-! ## The order of entries -/

/-- Names stand in the order in which they were first inserted. -/
theorem Bindings.names_override {α : Type} (b : Bindings α) (entries : List (String × α)) :
    (b.override entries).names =
      b.names ++ ((entries.map Prod.fst).filter (· ∉ b.names)).eraseDups := by
  induction entries generalizing b with
  | nil => simp [override]
  | cons e entries ih =>
    change ((b.insert e.1 e.2).override entries).names = _
    rw [ih, names_insert, List.map_cons]
    by_cases hknown : e.1 ∈ b.names
    · simp [hknown]
    · have hlater : (entries.map Prod.fst).filter (· ∉ b.names ++ [e.1]) =
          ((entries.map Prod.fst).filter (· ∉ b.names)).filter fun name => !name == e.1 := by
        rw [List.filter_filter]
        refine List.filter_congr fun name _ => ?_
        simp [and_comm, beq_eq_decide]
      rw [if_neg hknown, hlater, List.filter_cons_of_pos (by simpa using hknown),
        List.eraseDups_cons, List.append_assoc, List.singleton_append]

namespace Store

/-- Writes names of mappings, one after the other. -/
def writeAll (s : Store) (writes : List (MappingId × String × Value)) : Store :=
  writes.foldl (fun s w => s.write w.1 w.2.1 w.2.2) s

/-- What is written to a mapping, among other writes. -/
def writtenTo (id : MappingId) (writes : List (MappingId × String × Value)) :
    List (String × Value) :=
  (writes.filter (·.1 = id)).map Prod.snd

theorem mapping_writeAll (s : Store) (writes : List (MappingId × String × Value)) {id : MappingId}
    (hid : id.index < s.mappings.size) :
    (s.writeAll writes).mapping id = (s.mapping id).override (writtenTo id writes) := by
  induction writes generalizing s with
  | nil => rfl
  | cons w writes ih =>
    have hsize : id.index < (s.write w.1 w.2.1 w.2.2).mappings.size := by
      simpa [Store.write] using hid
    change ((s.write w.1 w.2.1 w.2.2).writeAll writes).mapping id = _
    rw [ih _ hsize, mapping_write]
    by_cases hw : w.1 = id
    · simp [writtenTo, Bindings.override, hw, hid]
    · simp [writtenTo, hw]

end Store

/-! ## The description of a value with cyclic mappings -/

/-- A value in which only mappings are cyclic has one picture, with dots for the mappings inside
themselves and everything else in full, and its description is the text of this picture. It is given
where it may go as deep as the picture is high, unless an integer has too many digits. The entries of
a mapping stand in the order in which their names were first written, each with what was written
last. -/
theorem cyclic_mappings_described (s : Store) (v : Value) (h : s.OnlyMappingsCyclic v) :
    (∃ p : Picture, (∀ q : Picture, q.Depicts s [] v ↔ q = p) ∧
      (∀ depth, p.height ≤ depth → s.describe depth v = p.text s) ∧
      (∀ depth, depth < p.height →
        s.describe depth v = .error .tooDeep ∨ p.HasLongInteger ∧ s.describe depth v = p.text s) ∧
      (p.HasLongInteger → p.text s = .error .tooManyDigits) ∧
      (¬p.HasLongInteger → ∃ text, p.text s = .ok text)) ∧
    ∀ (writes : List (MappingId × String × Value)) (id : MappingId),
      id.index < s.mappings.size →
      ((s.writeAll writes).mapping id).names = (s.mapping id).names ++
        (((Store.writtenTo id writes).map Prod.fst).filter (· ∉ (s.mapping id).names)).eraseDups ∧
      ∀ name, ((s.writeAll writes).mapping id).find? name =
        (((Store.writtenTo id writes).reverse.find? (·.1 = name)).map Prod.snd).or
          ((s.mapping id).find? name) := by
  have hinside : s.Inside [] v := ⟨h, nofun⟩
  constructor
  · obtain ⟨p, hp⟩ := hinside.exists_picture List.nodup_nil (List.nil_subset _) (List.nil_subset _)
    exact ⟨p, fun q => ⟨fun hq => hq.unique hp, fun hq => hq ▸ hp⟩,
      fun depth hdepth => hinside.describeIn_eq_text hp hdepth,
      fun depth hdepth => hinside.describeIn_of_lt hp hdepth, hp.text_cases⟩
  · intro writes id hid
    rw [s.mapping_writeAll writes hid]
    exact ⟨Bindings.names_override _ _, fun name => Bindings.find?_override _ _ name⟩

/-- Two mappings that hold each other. The first holds the second twice, the second holds itself, and
a promise is about the second. -/
def rings : Store where
  mappings := #[⟨[("left", .mapping ⟨1⟩), ("right", .mapping ⟨1⟩)]⟩,
    ⟨[("up", .mapping ⟨0⟩), ("self", .mapping ⟨1⟩), ("n", .integer 1)]⟩]
  promises := #[⟨.mapping ⟨1⟩, ⟨0⟩, none⟩]

/-- The first mapping, and the promise in an array. -/
def ringPair : Value := .pair ⟨0⟩ (.mapping ⟨0⟩) (.array ⟨1⟩ [.promise ⟨0⟩])

def ringText : String :=
  "Pair(first=Mapping(entries=\x7b" ++
    "'left': Mapping(entries=\x7b'up': ..., 'self': ..., 'n': Integer(value=1)\x7d), " ++
    "'right': Mapping(entries=\x7b'up': ..., 'self': ..., 'n': Integer(value=1)\x7d)\x7d), " ++
    "rest=Array(items=(<lazy pending=Mapping(entries=\x7b" ++
    "'up': Mapping(entries=\x7b'left': ..., 'right': ...\x7d), " ++
    "'self': ..., 'n': Integer(value=1)\x7d)>,)))"

/-- What is met in the description of the pair, and how far from the mappings. -/
def ringRank : Value → Nat
  | .pair .. => 3
  | .array .. => 2
  | .promise _ => 1
  | _ => 0

theorem ringPair_described :
    rings.OnlyMappingsCyclic ringPair ∧ rings.describe 5 ringPair = .ok ringText ∧
      ∃ p : Picture, (∀ q : Picture, q.Depicts rings [] ringPair ↔ q = p) ∧ p.height ≤ 5 ∧
        p.text rings = .ok ringText := by
  have hcycles : rings.OnlyMappingsCyclic ringPair := by
    refine .of_rank (fun u => u ∈ [ringPair, .array ⟨1⟩ [.promise ⟨0⟩], .promise ⟨0⟩,
      .mapping ⟨0⟩, .mapping ⟨1⟩, .integer 1]) ringRank (fun mark => 3 - mark.index)
      List.mem_cons_self ?_ ?_
    · intro u hu
      simp only [List.mem_cons, List.not_mem_nil, or_false] at hu
      rcases hu with rfl | rfl | rfl | rfl | rfl | rfl <;>
        simp [Store.parts, ringPair, rings, Store.mapping, Store.promise, Promise.shown,
          Promise.forced, ringRank, Value.tag]
    · intro u mark hu hmark
      simp only [List.mem_cons, List.not_mem_nil, or_false] at hu
      rcases hu with rfl | rfl | rfl | rfl | rfl | rfl <;> cases hmark <;> rfl
  have htext : rings.describe 5 ringPair = .ok ringText := by decide +kernel
  obtain ⟨⟨p, hp, hdeep, hshallow, hlong, -⟩, -⟩ :=
    cyclic_mappings_described rings ringPair hcycles
  have hheight : p.height ≤ 5 := by
    refine Nat.le_of_not_lt fun hlow => ?_
    rcases hshallow 5 hlow with herror | ⟨hdigits, herror⟩
    · rw [htext] at herror
      cases herror
    · rw [htext, hlong hdigits] at herror
      cases herror
  exact ⟨hcycles, htext, p, hp, hheight, (hdeep 5 hheight).symm.trans htext⟩

/-- A mapping that holds itself and another value. -/
def selfHolding (v : Value) : Store where
  mappings := #[⟨[("self", .mapping ⟨0⟩), ("other", v)]⟩]

/-- As many arrays inside one another as a number says. -/
def nestedArrays : Nat → Value
  | 0 => .nil
  | n + 1 => .array ⟨n⟩ [nestedArrays n]

theorem describeIn_nestedArrays (s : Store) (depth : Nat) (busy : List Identity)
    (hbusy : ∀ n ≤ depth, .mark ⟨n⟩ ∉ busy) :
    s.describeIn depth busy (nestedArrays (depth + 1)) = .error .tooDeep := by
  induction depth generalizing busy with
  | zero =>
    have hnew : (nestedArrays 1).identity?.any busy.contains ≠ true := by
      simpa [nestedArrays, Value.identity?] using hbusy 0 (Nat.le_refl 0)
    rw [Store.describeIn_eq, if_neg hnew]
    rfl
  | succ depth ih =>
    have hnew : (nestedArrays (depth + 2)).identity?.any busy.contains ≠ true := by
      simpa [nestedArrays, Value.identity?] using hbusy (depth + 1) (Nat.le_refl _)
    have hinner : s.describeIn depth (.mark ⟨depth + 1⟩ :: busy) (nestedArrays (depth + 1)) =
        .error .tooDeep := by
      refine ih _ fun n hn hmem => ?_
      rcases List.mem_cons.mp hmem with heq | hmem
      · cases heq
        omega
      · exact hbusy n (by omega) hmem
    rw [Store.describeIn_eq, if_neg hnew]
    change ([nestedArrays (depth + 1)].mapM
      (s.describeIn depth (.mark ⟨depth + 1⟩ :: busy)) >>= _) = _
    rw [List.mapM_cons, hinner]
    rfl

/-- The depth of an array by its mark, under a mapping of the given rank. -/
def nestRank (top : Nat) : Value → Nat
  | .mapping _ => top
  | .array mark _ => mark.index + 1
  | _ => 0

theorem selfHolding_cycles (depth : Nat) :
    (selfHolding (nestedArrays depth)).OnlyMappingsCyclic (.mapping ⟨0⟩) := by
  have hrank (n : Nat) : nestRank depth (nestedArrays n) = n := by cases n <;> rfl
  refine .of_rank (fun u => u = .mapping ⟨0⟩ ∨ ∃ n ≤ depth, u = nestedArrays n) (nestRank depth)
    (·.index + 1) (.inl rfl) ?_ ?_
  · rintro u (rfl | ⟨n, hn, rfl⟩) w hw
    · have hw' : w ∈ [.mapping ⟨0⟩, nestedArrays depth] := hw
      simp only [List.mem_cons, List.not_mem_nil, or_false] at hw'
      rcases hw' with rfl | rfl
      · exact ⟨.inl rfl, Nat.le_refl _, fun htag => absurd rfl htag⟩
      · exact ⟨.inr ⟨depth, Nat.le_refl _, rfl⟩, (hrank depth).le, fun htag => absurd rfl htag⟩
    · cases n with
      | zero => cases hw
      | succ n =>
        obtain rfl : w = nestedArrays n := List.mem_singleton.mp hw
        rw [hrank, hrank]
        exact ⟨.inr ⟨n, by omega, rfl⟩, by omega, fun _ => Nat.lt_succ_self n⟩
  · rintro u mark (rfl | ⟨n, hn, rfl⟩) hmark
    · cases hmark
    · cases n <;> cases hmark
      rfl

/-- A mapping without cycles but through itself has no description if it holds an integer with too
many digits, and for every depth there is one of which the description would go deeper. -/
theorem undescribed_mappings :
    ((selfHolding (.integer digitBound)).OnlyMappingsCyclic (.mapping ⟨0⟩) ∧
      ∀ depth text, (selfHolding (.integer digitBound)).describe depth (.mapping ⟨0⟩) ≠ .ok text) ∧
    ∀ depth, (selfHolding (nestedArrays depth)).OnlyMappingsCyclic (.mapping ⟨0⟩) ∧
      (selfHolding (nestedArrays depth)).describe depth (.mapping ⟨0⟩) = .error .tooDeep := by
  refine ⟨⟨?_, fun depth text htext => ?_⟩, fun depth => ⟨selfHolding_cycles depth, ?_⟩⟩
  · refine .of_rank (fun u => u = .mapping ⟨0⟩ ∨ u = .integer digitBound) (fun _ => 0) (fun _ => 0)
      (.inl rfl) ?_ fun _ _ _ _ => rfl
    rintro u (rfl | rfl) w hw
    · have hw' : w ∈ [.mapping ⟨0⟩, .integer digitBound] := hw
      simp only [List.mem_cons, List.not_mem_nil, or_false] at hw'
      exact ⟨hw', Nat.le_refl 0, fun htag => absurd rfl htag⟩
    · cases hw
  · rw [Store.describe, Store.describeIn_eq, if_neg (by simp [Value.identity?])] at htext
    obtain ⟨texts, htexts, -⟩ := Written.bind_eq_ok htext
    have hmem : .integer digitBound ∈ (selfHolding (.integer digitBound)).parts (.mapping ⟨0⟩) :=
      List.mem_cons_of_mem _ List.mem_cons_self
    obtain ⟨inner, hinner⟩ := Written.exists_of_mapM htexts hmem
    cases depth with
    | zero => cases hinner
    | succ depth =>
      rw [Store.describePart, Store.describeIn_eq, if_neg (by simp [Value.identity?])] at hinner
      have hlong := Store.layout_long (selfHolding (.integer digitBound))
        (n := digitBound) (Nat.le_refl digitBound) []
      have herror : (.error .tooManyDigits : Written String) = .ok inner := hlong.symm.trans hinner
      cases herror
  · cases depth with
    | zero => rfl
    | succ depth =>
      have hinner := describeIn_nestedArrays (selfHolding (nestedArrays (depth + 1))) depth
        [.mapping ⟨0⟩] (by simp)
      have hself : (selfHolding (nestedArrays (depth + 1))).describeIn depth [.mapping ⟨0⟩]
          (.mapping ⟨0⟩) = .ok "..." := by
        rw [Store.describeIn_eq]
        rfl
      rw [Store.describe, Store.describeIn_eq, if_neg (by simp [Value.identity?])]
      change ([.mapping ⟨0⟩, nestedArrays (depth + 1)].mapM
        ((selfHolding (nestedArrays (depth + 1))).describeIn depth [.mapping ⟨0⟩]) >>= _) = _
      rw [List.mapM_cons, List.mapM_cons, hself, hinner]
      rfl

end LispCore
