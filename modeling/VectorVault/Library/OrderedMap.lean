import Mathlib.Data.List.Sort
import Mathlib.Data.List.Lex
import Mathlib.Data.Finset.Card
import Mathlib.Tactic

/-! Ordered maps as strictly sorted association lists.

An `OrderedMap` lists its entries by ascending key, as an ordered container
iterates them. The sortedness proof is a field, so two maps with the same
lookups are equal and iteration order is a function of the contents. -/

namespace VectorVault

structure OrderedMap (K V : Type) [LinearOrder K] where
  entries : List (K × V)
  sorted : entries.Pairwise (fun first second => first.1 < second.1)

namespace OrderedMap

variable {K V : Type} [LinearOrder K]

def empty : OrderedMap K V := ⟨[], List.Pairwise.nil⟩

def find? (map : OrderedMap K V) (key : K) : Option V :=
  (map.entries.find? (fun entry => decide (entry.1 = key))).map Prod.snd

def contains (map : OrderedMap K V) (key : K) : Bool := (map.find? key).isSome

def size (map : OrderedMap K V) : Nat := map.entries.length

def keys (map : OrderedMap K V) : List K := map.entries.map Prod.fst

/-- Puts `value` at `key`, in place of whatever stood there. -/
def place (key : K) (value : V) : List (K × V) → List (K × V)
  | [] => [(key, value)]
  | entry :: rest =>
      if key < entry.1 then (key, value) :: entry :: rest
      else if key = entry.1 then (key, value) :: rest
      else entry :: place key value rest

theorem mem_place (key : K) (value : V) (entries : List (K × V))
    (sorted : entries.Pairwise (fun first second => first.1 < second.1)) (entry : K × V) :
    entry ∈ place key value entries ↔
      entry = (key, value) ∨ entry.1 ≠ key ∧ entry ∈ entries := by
  induction entries with
  | nil => simp [place]
  | cons head tail ih =>
      have below := (List.pairwise_cons.mp sorted).1
      have rest := ih (List.pairwise_cons.mp sorted).2
      rcases lt_trichotomy key head.1 with before | same | after
      · have later : ∀ item ∈ head :: tail, item.1 ≠ key := by
          intro item member
          rcases List.mem_cons.mp member with rfl | member
          · exact before.ne'
          · exact (before.trans (below item member)).ne'
        simp only [place, if_pos before, List.mem_cons]
        constructor
        · rintro (rfl | member)
          · exact Or.inl rfl
          · exact Or.inr ⟨later entry (List.mem_cons.mpr member), member⟩
        · rintro (rfl | ⟨_, member⟩)
          · exact Or.inl rfl
          · exact Or.inr member
      · have later : ∀ item ∈ tail, item.1 ≠ key := by
          intro item member
          exact same ▸ (below item member).ne'
        simp only [place, if_neg same.not_lt, if_pos same, List.mem_cons]
        constructor
        · rintro (rfl | member)
          · exact Or.inl rfl
          · exact Or.inr ⟨later entry member, Or.inr member⟩
        · rintro (rfl | ⟨distinct, rfl | member⟩)
          · exact Or.inl rfl
          · exact absurd same.symm distinct
          · exact Or.inr member
      · simp only [place, if_neg after.not_gt, if_neg after.ne', List.mem_cons, rest]
        constructor
        · rintro (rfl | rfl | ⟨distinct, member⟩)
          · exact Or.inr ⟨after.ne, Or.inl rfl⟩
          · exact Or.inl rfl
          · exact Or.inr ⟨distinct, Or.inr member⟩
        · rintro (rfl | ⟨distinct, rfl | member⟩)
          · exact Or.inr (Or.inl rfl)
          · exact Or.inl rfl
          · exact Or.inr (Or.inr ⟨distinct, member⟩)

theorem place_sorted (key : K) (value : V) (entries : List (K × V))
    (sorted : entries.Pairwise (fun first second => first.1 < second.1)) :
    (place key value entries).Pairwise (fun first second => first.1 < second.1) := by
  induction entries with
  | nil => exact List.pairwise_singleton _ _
  | cons head tail ih =>
      have below := (List.pairwise_cons.mp sorted).1
      have rest := (List.pairwise_cons.mp sorted).2
      rcases lt_trichotomy key head.1 with before | same | after
      · simp only [place, if_pos before]
        refine List.pairwise_cons.mpr ⟨?_, sorted⟩
        intro item member
        rcases List.mem_cons.mp member with rfl | member
        · exact before
        · exact before.trans (below item member)
      · simp only [place, if_neg same.not_lt, if_pos same]
        exact List.pairwise_cons.mpr ⟨fun item member => same ▸ below item member, rest⟩
      · simp only [place, if_neg after.not_gt, if_neg after.ne']
        refine List.pairwise_cons.mpr ⟨?_, ih rest⟩
        intro item member
        rcases (mem_place key value tail rest item).mp member with rfl | ⟨_, member⟩
        · exact after
        · exact below item member

def insert (map : OrderedMap K V) (key : K) (value : V) : OrderedMap K V :=
  ⟨place key value map.entries, place_sorted key value map.entries map.sorted⟩

/-- `emplace` of the standard containers: a key already present keeps its value. -/
def emplace (map : OrderedMap K V) (key : K) (value : V) : OrderedMap K V :=
  if map.contains key then map else map.insert key value

def erase (map : OrderedMap K V) (key : K) : OrderedMap K V :=
  ⟨map.entries.filter (fun entry => decide (entry.1 ≠ key)), map.sorted.filter _⟩

/-- The entry with the greatest key below `key`: the iterator before it. -/
def before? (map : OrderedMap K V) (key : K) : Option (K × V) :=
  (map.entries.filter (fun entry => decide (entry.1 < key))).getLast?

/-- The entry with the least key above `key`: the iterator after it. -/
def after? (map : OrderedMap K V) (key : K) : Option (K × V) :=
  map.entries.find? (fun entry => decide (key < entry.1))

theorem find_eq_some_iff (map : OrderedMap K V) (key : K) (value : V) :
    map.find? key = some value ↔ (key, value) ∈ map.entries := by
  obtain ⟨entries, sorted⟩ := map
  simp only [find?]
  induction entries with
  | nil => simp
  | cons head tail ih =>
      have below := (List.pairwise_cons.mp sorted).1
      have rest := ih (List.pairwise_cons.mp sorted).2
      by_cases same : head.1 = key
      · have absent : (key, value) ∉ tail := by
          intro member
          exact absurd same (below _ member).ne
        simp only [List.find?_cons_of_pos, same, decide_true, Option.map_some, Option.some.injEq,
          List.mem_cons, absent, or_false]
        constructor
        · intro value
          exact Prod.ext same.symm value.symm
        · intro entry
          exact (congrArg Prod.snd entry).symm
      · have other : (key, value) ≠ head := by
          intro entry
          exact same (congrArg Prod.fst entry).symm
        simp only [List.find?_cons, same, decide_false, List.mem_cons, other, false_or]
        exact rest

theorem find_eq_none_iff (map : OrderedMap K V) (key : K) :
    map.find? key = none ↔ ∀ value, (key, value) ∉ map.entries := by
  constructor
  · intro absent value member
    rw [(find_eq_some_iff map key value).mpr member] at absent
    cases absent
  · intro absent
    cases found : map.find? key with
    | none => rfl
    | some value => exact absurd ((find_eq_some_iff map key value).mp found) (absent value)

theorem contains_iff (map : OrderedMap K V) (key : K) :
    map.contains key = true ↔ ∃ value, map.find? key = some value := by
  simp [contains, Option.isSome_iff_exists]

theorem contains_eq_false_iff (map : OrderedMap K V) (key : K) :
    map.contains key = false ↔ map.find? key = none := by
  simp [contains]

theorem absent_of_not_contains {map : OrderedMap K V} {key : K}
    (fresh : ¬ map.contains key = true) : map.find? key = none :=
  (contains_eq_false_iff map key).mp (Bool.eq_false_of_not_eq_true fresh)

theorem ext_find (first second : OrderedMap K V)
    (same : ∀ key, first.find? key = second.find? key) : first = second := by
  have members : ∀ entry, entry ∈ first.entries ↔ entry ∈ second.entries := by
    rintro ⟨key, value⟩
    rw [← find_eq_some_iff, ← find_eq_some_iff, same]
  have firstNodup : first.entries.Nodup := first.sorted.imp (fun less equal => less.ne (by rw [equal]))
  have secondNodup : second.entries.Nodup :=
    second.sorted.imp (fun less equal => less.ne (by rw [equal]))
  have permuted : first.entries.Perm second.entries :=
    (List.perm_ext_iff_of_nodup firstNodup secondNodup).mpr members
  have entries : first.entries = second.entries :=
    permuted.eq_of_pairwise (fun a b _ _ ab ba => absurd ab ba.not_gt) first.sorted second.sorted
  cases first
  cases second
  cases entries
  rfl

@[simp] theorem find_empty (key : K) : (empty : OrderedMap K V).find? key = none := rfl

@[simp] theorem size_empty : (empty : OrderedMap K V).size = 0 := rfl

theorem find_insert (map : OrderedMap K V) (key other : K) (value : V) :
    (map.insert key value).find? other = if other = key then some value else map.find? other := by
  apply Option.ext
  intro found
  rw [find_eq_some_iff]
  simp only [insert, mem_place key value map.entries map.sorted]
  by_cases same : other = key
  · subst same
    simp only [Prod.mk.injEq, true_and, ne_eq, not_true_eq_false, false_and, or_false, if_true,
      Option.some.injEq]
    exact eq_comm
  · simp only [Prod.mk.injEq, same, false_and, ne_eq, not_false_eq_true, true_and, false_or,
      if_false, find_eq_some_iff]

@[simp] theorem find_insert_self (map : OrderedMap K V) (key : K) (value : V) :
    (map.insert key value).find? key = some value := by
  rw [find_insert, if_pos rfl]

theorem find_insert_of_ne (map : OrderedMap K V) {key other : K} (value : V)
    (distinct : other ≠ key) : (map.insert key value).find? other = map.find? other := by
  rw [find_insert, if_neg distinct]

theorem find_erase (map : OrderedMap K V) (key other : K) :
    (map.erase key).find? other = if other = key then none else map.find? other := by
  apply Option.ext
  intro found
  rw [find_eq_some_iff]
  simp only [erase, List.mem_filter, decide_eq_true_eq]
  by_cases same : other = key
  · simp [same]
  · simp [same, find_eq_some_iff]

@[simp] theorem find_erase_self (map : OrderedMap K V) (key : K) :
    (map.erase key).find? key = none := by
  rw [find_erase, if_pos rfl]

theorem find_erase_of_ne (map : OrderedMap K V) {key other : K} (distinct : other ≠ key) :
    (map.erase key).find? other = map.find? other := by
  rw [find_erase, if_neg distinct]

theorem emplace_of_absent (map : OrderedMap K V) (key : K) (value : V)
    (absent : map.find? key = none) : map.emplace key value = map.insert key value := by
  rw [emplace, if_neg]
  simp [contains, absent]

theorem nodup_keys (map : OrderedMap K V) : map.keys.Nodup := by
  rw [keys, List.nodup_iff_pairwise_ne, List.pairwise_map]
  exact map.sorted.imp (fun less => less.ne)

theorem mem_keys_iff (map : OrderedMap K V) (key : K) :
    key ∈ map.keys ↔ ∃ value, map.find? key = some value := by
  simp only [keys, List.mem_map, find_eq_some_iff]
  constructor
  · rintro ⟨⟨other, value⟩, member, rfl⟩
    exact ⟨value, member⟩
  · rintro ⟨value, member⟩
    exact ⟨(key, value), member, rfl⟩

theorem size_keys (map : OrderedMap K V) : map.keys.length = map.size := by
  simp [keys, size]

theorem keys_place_of_present (key : K) (value : V) (entries : List (K × V))
    (sorted : entries.Pairwise (fun first second => first.1 < second.1))
    (present : ∃ old, (key, old) ∈ entries) :
    (place key value entries).map Prod.fst = entries.map Prod.fst := by
  induction entries with
  | nil => obtain ⟨old, member⟩ := present; cases member
  | cons head tail ih =>
      have below := (List.pairwise_cons.mp sorted).1
      obtain ⟨old, member⟩ := present
      rcases List.mem_cons.mp member with rfl | member
      · simp [place]
      · have after : head.1 < key := below _ member
        simp [place, after.not_gt, after.ne', ih (List.pairwise_cons.mp sorted).2 ⟨old, member⟩]

theorem size_insert_of_present (map : OrderedMap K V) (key : K) (value old : V)
    (present : map.find? key = some old) : (map.insert key value).size = map.size := by
  have same := keys_place_of_present key value map.entries map.sorted
    ⟨old, (find_eq_some_iff map key old).mp present⟩
  have lengths := congrArg List.length same
  rw [List.length_map, List.length_map] at lengths
  exact lengths

theorem insert_perm_of_absent (map : OrderedMap K V) (key : K) (value : V)
    (absent : map.find? key = none) :
    (map.insert key value).entries.Perm ((key, value) :: map.entries) := by
  have fresh := (find_eq_none_iff map key).mp absent
  have nodup : ∀ built : OrderedMap K V, built.entries.Nodup := fun built =>
    built.sorted.imp (fun less equal => less.ne (by rw [equal]))
  refine (List.perm_ext_iff_of_nodup (nodup _) ?_).mpr ?_
  · exact List.nodup_cons.mpr ⟨fresh value, nodup map⟩
  · intro entry
    simp only [insert, mem_place key value map.entries map.sorted, List.mem_cons]
    refine or_congr_right (and_iff_right_of_imp ?_)
    intro member same
    exact fresh entry.2 (by rw [← same]; exact member)

theorem erase_perm_of_present (map : OrderedMap K V) (key : K) (value : V)
    (present : map.find? key = some value) :
    map.entries.Perm ((key, value) :: (map.erase key).entries) := by
  have restored : (map.erase key).insert key value = map := by
    apply ext_find
    intro other
    rw [find_insert, find_erase]
    by_cases same : other = key
    · simp [same, present]
    · simp [same]
  have permuted := insert_perm_of_absent (map.erase key) key value (find_erase_self map key)
  rw [restored] at permuted
  exact permuted

theorem erase_of_absent (map : OrderedMap K V) (key : K) (absent : map.find? key = none) :
    map.erase key = map := by
  apply ext_find
  intro other
  rw [find_erase]
  by_cases same : other = key
  · rw [if_pos same, same, absent]
  · rw [if_neg same]

theorem insert_perm (map : OrderedMap K V) (key : K) (value : V) :
    (map.insert key value).entries.Perm ((key, value) :: (map.erase key).entries) := by
  have same : map.insert key value = (map.erase key).insert key value := by
    apply ext_find
    intro other
    rw [find_insert, find_insert, find_erase]
    split <;> rfl
  rw [same]
  exact insert_perm_of_absent (map.erase key) key value (find_erase_self map key)

theorem size_insert_of_absent (map : OrderedMap K V) (key : K) (value : V)
    (absent : map.find? key = none) : (map.insert key value).size = map.size + 1 := by
  have lengths := (insert_perm_of_absent map key value absent).length_eq
  rw [List.length_cons] at lengths
  exact lengths

theorem size_erase_of_present (map : OrderedMap K V) (key : K) (old : V)
    (present : map.find? key = some old) : (map.erase key).size + 1 = map.size := by
  have lengths := (erase_perm_of_present map key old present).length_eq
  rw [List.length_cons] at lengths
  exact lengths.symm

def sumBy (map : OrderedMap K V) (measure : K × V → Nat) : Nat := (map.entries.map measure).sum

theorem sumBy_insert_of_absent (map : OrderedMap K V) (key : K) (value : V)
    (measure : K × V → Nat) (absent : map.find? key = none) :
    (map.insert key value).sumBy measure = measure (key, value) + map.sumBy measure := by
  have permuted := (insert_perm_of_absent map key value absent).map measure
  rw [sumBy, permuted.sum_eq, List.map_cons, List.sum_cons, sumBy]

theorem sumBy_insert (map : OrderedMap K V) (key : K) (value : V) (measure : K × V → Nat) :
    (map.insert key value).sumBy measure = measure (key, value) + (map.erase key).sumBy measure := by
  have permuted := (insert_perm map key value).map measure
  rw [sumBy, permuted.sum_eq, List.map_cons, List.sum_cons, sumBy]

theorem sumBy_erase_of_present (map : OrderedMap K V) (key : K) (value : V)
    (measure : K × V → Nat) (present : map.find? key = some value) :
    map.sumBy measure = measure (key, value) + (map.erase key).sumBy measure := by
  have permuted := (erase_perm_of_present map key value present).map measure
  rw [sumBy, permuted.sum_eq, List.map_cons, List.sum_cons, sumBy]

theorem before_eq_some (map : OrderedMap K V) {key : K} {entry : K × V}
    (found : map.before? key = some entry) :
    map.find? entry.1 = some entry.2 ∧ entry.1 < key ∧
      ∀ other value, map.find? other = some value → other < key → other ≤ entry.1 := by
  have member := List.mem_of_getLast? found
  rw [List.mem_filter, decide_eq_true_eq] at member
  refine ⟨(find_eq_some_iff map _ _).mpr member.1, member.2, ?_⟩
  intro other value held below
  have inside : (other, value) ∈ map.entries.filter (fun entry => decide (entry.1 < key)) :=
    List.mem_filter.mpr ⟨(find_eq_some_iff map _ _).mp held, by simpa using below⟩
  have ordered := map.sorted.filter (fun entry => decide (entry.1 < key))
  obtain ⟨front, split⟩ := List.getLast?_eq_some_iff.mp found
  rw [split] at ordered inside
  rcases List.mem_append.mp inside with earlier | last
  · exact ((List.pairwise_append.mp ordered).2.2 _ earlier entry (List.mem_singleton.mpr rfl)).le
  · rw [List.mem_singleton] at last
    rw [← last]

theorem before_eq_none (map : OrderedMap K V) {key : K} (found : map.before? key = none) :
    ∀ other value, map.find? other = some value → ¬ other < key := by
  intro other value held below
  rw [before?, List.getLast?_eq_none_iff] at found
  have inside : (other, value) ∈ map.entries.filter (fun entry => decide (entry.1 < key)) :=
    List.mem_filter.mpr ⟨(find_eq_some_iff map _ _).mp held, by simpa using below⟩
  rw [found] at inside
  cases inside

theorem after_eq_some (map : OrderedMap K V) {key : K} {entry : K × V}
    (found : map.after? key = some entry) :
    map.find? entry.1 = some entry.2 ∧ key < entry.1 ∧
      ∀ other value, map.find? other = some value → key < other → entry.1 ≤ other := by
  obtain ⟨above, front, back, split, skipped⟩ := List.find?_eq_some_iff_append.mp found
  have member : entry ∈ map.entries := by rw [split]; simp
  refine ⟨(find_eq_some_iff map _ _).mpr member, by simpa using above, ?_⟩
  intro other value held less
  have inside := (find_eq_some_iff map _ _).mp held
  have ordered := map.sorted
  rw [split] at inside ordered
  rcases List.mem_append.mp inside with early | late
  · have not := skipped _ early
    simp [less] at not
  · rcases List.mem_cons.mp late with same | later
    · rw [← same]
    · have tail := (List.pairwise_append.mp ordered).2.1
      exact ((List.pairwise_cons.mp tail).1 _ later).le

theorem after_eq_none (map : OrderedMap K V) {key : K} (found : map.after? key = none) :
    ∀ other value, map.find? other = some value → ¬ key < other := by
  intro other value held less
  have skipped := List.find?_eq_none.mp found _ ((find_eq_some_iff map _ _).mp held)
  simp [less] at skipped

theorem foldl_insert_find (entries : List (K × V)) (start : OrderedMap K V)
    (distinct : (entries.map Prod.fst).Nodup) (key : K) :
    (entries.foldl (fun map entry => map.insert entry.1 entry.2) start).find? key =
      ((entries.find? (fun entry => decide (entry.1 = key))).map Prod.snd).or (start.find? key) := by
  induction entries generalizing start with
  | nil => simp
  | cons head tail ih =>
      have fresh := (List.nodup_cons.mp distinct).1
      rw [List.foldl_cons, ih _ (List.nodup_cons.mp distinct).2, find_insert]
      by_cases same : head.1 = key
      · have absent : tail.find? (fun entry => decide (entry.1 = key)) = none := by
          rw [List.find?_eq_none]
          intro entry member
          simp only [decide_eq_true_eq]
          rintro rfl
          exact fresh (List.mem_map.mpr ⟨entry, member, same.symm⟩)
        simp [same, absent]
      · simp [same, Ne.symm same]

theorem foldl_insert_iff (entries : List (K × V)) (distinct : (entries.map Prod.fst).Nodup)
    (key : K) (value : V) :
    (entries.foldl (fun map entry => map.insert entry.1 entry.2) empty).find? key = some value ↔
      (key, value) ∈ entries := by
  rw [foldl_insert_find entries empty distinct key, find_empty, Option.or_none]
  induction entries with
  | nil => simp
  | cons head tail ih =>
      rw [List.map_cons, List.nodup_cons] at distinct
      rw [List.find?_cons, List.mem_cons]
      by_cases same : head.1 = key
      · have elsewhere : (key, value) ∉ tail := by
          intro member
          apply distinct.1
          rw [same]
          exact List.mem_map.mpr ⟨(key, value), member, rfl⟩
        simp only [same, decide_true, Option.map_some, Option.some.injEq, elsewhere, or_false,
          Prod.ext_iff, true_and]
        exact eq_comm
      · have apart : ¬ (key, value) = head := fun equal => same (congrArg Prod.fst equal).symm
        simp only [same, decide_false, apart, false_or]
        exact ih distinct.2

theorem foldl_insert_entries (map : OrderedMap K V) :
    map.entries.foldl (fun built entry => built.insert entry.1 entry.2) empty = map := by
  apply ext_find
  intro key
  rw [foldl_insert_find map.entries empty map.nodup_keys key, find_empty, Option.or_none]
  rfl

section Values

variable {W : Type} (f : V → W)

def mapValues (map : OrderedMap K V) : OrderedMap K W :=
  ⟨map.entries.map (fun entry => (entry.1, f entry.2)), List.pairwise_map.mpr map.sorted⟩

theorem find_mapValues (map : OrderedMap K V) (key : K) :
    (map.mapValues f).find? key = (map.find? key).map f := by
  simp only [find?, mapValues, List.find?_map, Option.map_map]
  rfl

theorem keys_mapValues (map : OrderedMap K V) : (map.mapValues f).keys = map.keys := by
  rw [keys, mapValues, List.map_map]
  rfl

end Values

theorem members_iff_length (map : OrderedMap K V) {keys : List K} (distinct : keys.Nodup)
    (known : ∀ key ∈ keys, ∃ value, map.find? key = some value) :
    (∀ key, key ∈ keys ↔ ∃ value, map.find? key = some value) ↔ keys.length = map.size := by
  have inside : keys ⊆ map.keys := fun key member =>
    (OrderedMap.mem_keys_iff _ _).mpr (known key member)
  have subperm := List.subperm_of_subset distinct inside
  rw [← map.size_keys]
  constructor
  · intro all
    apply List.Perm.length_eq
    apply (List.perm_ext_iff_of_nodup distinct map.nodup_keys).mpr
    intro key
    rw [all key, OrderedMap.mem_keys_iff]
  · intro length key
    rw [(subperm.perm_of_length_le length.ge).mem_iff, OrderedMap.mem_keys_iff]

end OrderedMap

end VectorVault
