/-
Purpose: Finite maps as lists in strictly increasing order of their keys.
-/
import Mathlib.Algebra.Ring.Nat
import Mathlib.Algebra.BigOperators.Group.List.Basic
import Mathlib.Data.List.Nodup
import Mathlib.Order.Lattice

namespace Foundation

open List

section Keys

variable {α Key Value : Type*} [DecidableEq Key] {key : Key}

theorem find?_key_eq_some_iff {keyOf : α → Key} {entries : List α} {found : α}
    (distinct : (entries.map keyOf).Nodup) :
    (entries.find? fun entry => keyOf entry = key) = some found ↔ found ∈ entries ∧ keyOf found = key := by
  constructor
  · exact fun is => ⟨mem_of_find?_eq_some is, by simpa using find?_some is⟩
  · rintro ⟨member, rfl⟩
    cases is : entries.find? fun entry => keyOf entry = keyOf found with
    | none => simpa using find?_eq_none.mp is found member
    | some other =>
      have same : keyOf other = keyOf found := by simpa using find?_some is
      rw [inj_on_of_nodup_map distinct (mem_of_find?_eq_some is) member same]

theorem find?_entry_eq_some_iff {entries : List (Key × Value)} {value : Value}
    (distinct : (entries.map (·.1)).Nodup) :
    (entries.find? fun entry => entry.1 = key).map (·.2) = some value ↔ (key, value) ∈ entries := by
  simp only [Option.map_eq_some_iff, find?_key_eq_some_iff distinct]
  constructor
  · rintro ⟨_, ⟨member, rfl⟩, rfl⟩
    exact member
  · exact fun member => ⟨_, ⟨member, rfl⟩, rfl⟩

end Keys

@[ext] structure SortedMap (Key Value : Type*) [LT Key] where
  entries : List (Key × Value)
  sorted : entries.Pairwise fun first second => first.1 < second.1

namespace SortedMap

variable {Key Value : Type*} [LinearOrder Key]

def empty : SortedMap Key Value :=
  { entries := [], sorted := .nil }

def lookup (map : SortedMap Key Value) (key : Key) : Option Value :=
  (map.entries.find? fun entry => entry.1 = key).map (·.2)

/-- Change the value of a key, or insert one in its place in the order. -/
def alterEntries (key : Key) (change : Option Value → Value) : List (Key × Value) → List (Key × Value)
  | [] => [(key, change none)]
  | entry :: entries =>
    if key < entry.1 then (key, change none) :: entry :: entries
    else if key = entry.1 then (key, change (some entry.2)) :: entries
    else entry :: alterEntries key change entries

variable {key : Key} {change : Option Value → Value} {entries : List (Key × Value)}
  {map : SortedMap Key Value}

theorem key_mem_alterEntries {entry : Key × Value}
    (member : entry ∈ alterEntries key change entries) : entry.1 = key ∨ entry ∈ entries := by
  induction entries with
  | nil =>
    rw [alterEntries, mem_singleton] at member
    exact .inl (by rw [member])
  | cons first entries ih =>
    rw [alterEntries] at member
    split_ifs at member with before same
    · rcases mem_cons.mp member with rfl | old
      · exact .inl rfl
      · exact .inr old
    · rcases mem_cons.mp member with rfl | old
      · exact .inl rfl
      · exact .inr (mem_cons_of_mem _ old)
    · rcases mem_cons.mp member with rfl | later
      · exact .inr mem_cons_self
      · exact (ih later).imp id (mem_cons_of_mem _)

theorem sorted_alterEntries (key : Key) (change : Option Value → Value)
    (sorted : entries.Pairwise fun first second => first.1 < second.1) :
    (alterEntries key change entries).Pairwise fun first second => first.1 < second.1 := by
  induction entries with
  | nil => exact pairwise_singleton _ _
  | cons first entries ih =>
    obtain ⟨least, rest⟩ := pairwise_cons.mp sorted
    rw [alterEntries]
    split_ifs with before same
    · refine pairwise_cons.mpr ⟨fun entry member => ?_, sorted⟩
      rcases mem_cons.mp member with rfl | later
      · exact before
      · exact before.trans (least entry later)
    · exact pairwise_cons.mpr ⟨fun entry member => same ▸ least entry member, rest⟩
    · refine pairwise_cons.mpr ⟨fun entry member => ?_, ih rest⟩
      rcases key_mem_alterEntries member with key | old
      · exact key ▸ lt_of_le_of_ne (not_lt.mp before) (Ne.symm same)
      · exact least entry old

def alter (map : SortedMap Key Value) (key : Key) (change : Option Value → Value) :
    SortedMap Key Value :=
  { entries := alterEntries key change map.entries
    sorted := sorted_alterEntries key change map.sorted }

/-- A part of a map, in the same order. -/
def sub (map : SortedMap Key Value) (entries : List (Key × Value))
    (sublist : entries.Sublist map.entries) : SortedMap Key Value :=
  { entries, sorted := map.sorted.sublist sublist }

/-- The greatest key. -/
def last (map : SortedMap Key Value) : Option Key :=
  map.entries.getLast?.map (·.1)

theorem lookup_eq_some_iff {value : Value} :
    map.lookup key = some value ↔ (key, value) ∈ map.entries :=
  find?_entry_eq_some_iff (pairwise_map.mpr (map.sorted.imp ne_of_lt))

@[simp] theorem lookup_empty (key : Key) : (empty : SortedMap Key Value).lookup key = none := rfl

@[simp] theorem lookup_alter_self (map : SortedMap Key Value) (key : Key)
    (change : Option Value → Value) :
    (map.alter key change).lookup key = some (change (map.lookup key)) := by
  obtain ⟨entries, sorted⟩ := map
  simp only [lookup, alter]
  induction entries with
  | nil => simp [alterEntries]
  | cons first entries ih =>
    obtain ⟨least, rest⟩ := pairwise_cons.mp sorted
    rw [alterEntries]
    split_ifs with before same
    · have absent : (first :: entries).find? (fun entry => entry.1 = key) = none := by
        refine find?_eq_none.mpr fun entry member => ?_
        rcases mem_cons.mp member with rfl | later
        · simpa using before.ne'
        · simpa using (before.trans (least entry later)).ne'
      rw [absent]
      simp
    · simp [same]
    · have other : first.1 ≠ key := fun equal => same equal.symm
      simpa [other] using ih rest

theorem lookup_alter_of_ne (map : SortedMap Key Value) {other : Key} (different : other ≠ key)
    (change : Option Value → Value) : (map.alter key change).lookup other = map.lookup other := by
  obtain ⟨entries, sorted⟩ := map
  have apart : key ≠ other := different.symm
  simp only [lookup, alter]
  clear sorted
  induction entries with
  | nil => simp [alterEntries, apart]
  | cons first entries ih =>
    rw [alterEntries]
    split_ifs with before same
    · simp [apart]
    · simp [apart, ← same]
    · by_cases found : first.1 = other
      · simp [found]
      · simpa [found] using ih

/-- Two changes of one key are one change. -/
theorem alter_alter (map : SortedMap Key Value) (key : Key) (change again : Option Value → Value) :
    (map.alter key change).alter key again = map.alter key fun old => again (some (change old)) := by
  refine SortedMap.ext ?_
  simp only [alter]
  induction map.entries with
  | nil => simp [alterEntries]
  | cons entry entries ih =>
    simp only [alterEntries]
    split_ifs with before same
    · simp [alterEntries]
    · simp [alterEntries]
    · simp [alterEntries, before, same, ih]

theorem last_eq_none_iff : map.last = none ↔ map.entries = [] := by
  simp [last]

theorem lookup_of_last (greatest : map.last = some key) : ∃ value, map.lookup key = some value := by
  obtain ⟨entry, final, rfl⟩ := Option.map_eq_some_iff.mp greatest
  exact ⟨entry.2, lookup_eq_some_iff.mpr (mem_of_getLast? final)⟩

/-- The weight of all values from a key on. -/
def weightFrom (weight : Value → Nat) (map : SortedMap Key Value) (key : Key) : Nat :=
  ((map.entries.filter fun entry => key ≤ entry.1).map fun entry => weight entry.2).sum

/-- What a change adds to the weight of a key's value, it adds to the weight from that key on. -/
theorem weightFrom_alter {weight : Value → Nat} {extra : Nat}
    (adds : ∀ old, weight (change old) = old.elim 0 weight + extra) (map : SortedMap Key Value)
    (key : Key) :
    weightFrom weight (map.alter key change) key = weightFrom weight map key + extra := by
  obtain ⟨entries, sorted⟩ := map
  have fresh : weight (change none) = extra := by simpa using adds none
  simp only [weightFrom, alter]
  clear sorted
  induction entries with
  | nil => simp [alterEntries, fresh]
  | cons first entries ih =>
    rw [alterEntries]
    split_ifs with before same
    · simp only [filter_cons, le_refl, decide_true, if_true, map_cons, sum_cons, fresh]
      exact Nat.add_comm _ _
    · have grown : weight (change (some first.2)) = weight first.2 + extra := adds (some first.2)
      simp only [filter_cons, same, le_refl, decide_true, if_true, map_cons,
        sum_cons, grown]
      exact Nat.add_right_comm _ _ _
    · have skipped : ¬ key ≤ first.1 := fun le => before (lt_of_le_of_ne le same)
      simpa [filter_cons, skipped] using ih

end SortedMap

end Foundation
