import Mathlib.Data.List.Perm.Subperm
import Mathlib.Data.Set.Card
import Mathlib.Tactic.Common

/-!
# Finite maps

The maps of the development are `Std.ExtTreeMap`s: equal when their lookups
are (`Map.ext`). Here are their lookups in one form, `m[k]?` with the keys
compared by `=`, and the counts of their keys.
-/

/-- Finite maps over ordered keys. -/
abbrev Map (K V : Type) [Ord K] := Std.ExtTreeMap K V compare

namespace Map

variable {K V U : Type} [Ord K]

theorem cmp_eq [Std.LawfulEqOrd K] {a b : K} : compare a b = .eq ↔ a = b :=
  Std.LawfulEqCmp.compare_eq_iff_eq

variable [Std.TransOrd K]

@[simp] theorem get_insert_self (m : Map K V) (k : K) (v : V) : (m.insert k v)[k]? = some v :=
  Std.ExtTreeMap.getElem?_insert_self

theorem contains_iff {m : Map K V} {k : K} : m.contains k = true ↔ ∃ v, m[k]? = some v := by
  rw [Std.ExtTreeMap.contains_eq_isSome_getElem?, Option.isSome_iff_exists]

theorem not_contains_iff {m : Map K V} {k : K} : m.contains k = false ↔ m[k]? = none := by
  rw [Std.ExtTreeMap.contains_eq_isSome_getElem?, Option.isSome_eq_false_iff, Option.isNone_iff_eq_none]

/-- The values, in the order of their keys. -/
def vals (m : Map K V) : List V := m.toList.map (·.2)

variable [Std.LawfulEqOrd K]

theorem ext {m m' : Map K V} (h : ∀ k : K, m[k]? = m'[k]?) : m = m' :=
  Std.ExtTreeMap.ext_getElem? h

theorem get_insert [DecidableEq K] (m : Map K V) (k a : K) (v : V) :
    (m.insert k v)[a]? = if a = k then some v else m[a]? := by
  rw [Std.ExtTreeMap.getElem?_insert]
  by_cases h : a = k
  · simp [h]
  · simp [h, Ne.symm h]

/-- To insert what is there changes nothing. -/
theorem insert_get [DecidableEq K] {m : Map K V} {k : K} {v : V} (h : m[k]? = some v) :
    m.insert k v = m := by
  refine ext fun a => ?_
  rw [get_insert]
  split
  · rename_i e; rw [e, h]
  · rfl

theorem get_insert_ne {m : Map K V} {k a : K} {v : V} (h : a ≠ k) : (m.insert k v)[a]? = m[a]? := by
  rw [Std.ExtTreeMap.getElem?_insert, if_neg (by rw [cmp_eq]; exact Ne.symm h)]

theorem get_erase [DecidableEq K] (m : Map K V) (k a : K) :
    (m.erase k)[a]? = if a = k then none else m[a]? := by
  rw [Std.ExtTreeMap.getElem?_erase]
  by_cases h : a = k
  · simp [h]
  · simp [h, Ne.symm h]

theorem get_erase_ne {m : Map K V} {k a : K} (h : a ≠ k) : (m.erase k)[a]? = m[a]? := by
  rw [Std.ExtTreeMap.getElem?_erase, if_neg (by rw [cmp_eq]; exact Ne.symm h)]

theorem get_modify [DecidableEq K] (m : Map K V) (k a : K) (f : V → V) :
    (m.modify k f)[a]? = if a = k then m[a]?.map f else m[a]? := by
  rw [Std.ExtTreeMap.getElem?_modify]
  by_cases h : a = k
  · simp [h]
  · simp [h, Ne.symm h]

@[simp] theorem get_map (m : Map K V) (f : K → V → U) (a : K) : (m.map f)[a]? = m[a]?.map (f a) :=
  Std.ExtTreeMap.getElem?_map

@[simp] theorem get_filter (m : Map K V) (f : K → V → Bool) (a : K) :
    (m.filter f)[a]? = m[a]?.filter (f a) := Std.ExtTreeMap.getElem?_filter'

theorem mem_toList {m : Map K V} {k : K} {v : V} : (k, v) ∈ m.toList ↔ m[k]? = some v :=
  Std.ExtTreeMap.mem_toList_iff_getElem?_eq_some

theorem mem_keys {m : Map K V} {k : K} : k ∈ m.keys ↔ ∃ v, m[k]? = some v := by
  rw [Std.ExtTreeMap.mem_keys, ← contains_iff]; exact Std.ExtTreeMap.contains_iff_mem.symm

theorem nodup_keys (m : Map K V) : m.keys.Nodup :=
  (Std.ExtTreeMap.distinct_keys (t := m)).imp fun h e => h (cmp_eq.mpr e)

/-- A map has at most as many entries as a list that has its keys. -/
theorem size_le_length {m : Map K V} {l : List K} (h : ∀ (k : K) (v : V), m[k]? = some v → k ∈ l) :
    m.size ≤ l.length := by
  rw [← Std.ExtTreeMap.length_keys]
  refine ((nodup_keys m).subperm fun k hk => ?_).length_le
  obtain ⟨v, hv⟩ := mem_keys.mp hk
  exact h k v hv

/-- A map with no other keys has no more entries. -/
theorem size_le_of_get {m : Map K V} {m' : Map K U}
    (h : ∀ k : K, (m[k]?).isSome → (m'[k]?).isSome) : m.size ≤ m'.size := by
  rw [← Std.ExtTreeMap.length_keys (t := m')]
  refine size_le_length fun k v hv => mem_keys.mpr (Option.isSome_iff_exists.mp (h k ?_))
  rw [hv]
  rfl

/-- The entries of a map as one iteration meets them, which is in any order. -/
structure Iteration (m : Map K V) where
  entries : List (K × V)
  perm : entries.Perm m.toList

theorem Iteration.mem_entries {m : Map K V} (order : Iteration m) {k : K} {v : V} :
    (k, v) ∈ order.entries ↔ m[k]? = some v := order.perm.mem_iff.trans mem_toList

theorem Iteration.nodup_keys {m : Map K V} (order : Iteration m) :
    (order.entries.map (·.1)).Nodup := by
  have hm := Map.nodup_keys m
  rw [← Std.ExtTreeMap.map_fst_toList_eq_keys] at hm
  exact (order.perm.map _).nodup_iff.mpr hm

/-- An iteration meets each key once. -/
theorem Iteration.filter_key [DecidableEq K] {m : Map K V} (order : Iteration m) (k : K) :
    order.entries.filter (fun e => decide (e.1 = k)) = (m[k]?.map fun v => (k, v)).toList := by
  cases h : m[k]? with
  | none =>
    refine List.filter_eq_nil_iff.mpr fun e he hk => ?_
    have hm := order.mem_entries.mp (show (e.1, e.2) ∈ order.entries from he)
    rw [of_decide_eq_true hk, h] at hm
    cases hm
  | some v =>
    have hall : ∀ e ∈ order.entries.filter (fun e => decide (e.1 = k)), e = (k, v) := by
      rintro ⟨a, u⟩ he
      obtain ⟨hm, hk⟩ := List.mem_filter.mp he
      obtain rfl : a = k := of_decide_eq_true hk
      rw [order.mem_entries, h] at hm
      cases hm
      rfl
    have hnd : (order.entries.filter fun e => decide (e.1 = k)).Nodup :=
      (List.Nodup.of_map _ order.nodup_keys).filter _
    have hmem : (k, v) ∈ order.entries.filter (fun e => decide (e.1 = k)) :=
      List.mem_filter.mpr ⟨order.mem_entries.mpr h, decide_eq_true rfl⟩
    have hrep := List.eq_replicate_iff.mpr ⟨rfl, hall⟩
    rw [hrep, List.nodup_replicate] at hnd
    have hpos := List.length_pos_of_mem hmem
    rw [hrep, show (order.entries.filter fun e => decide (e.1 = k)).length = 1 by omega]
    rfl

end Map

/-! ## Finite sets -/

/-- Finite sets of ordered elements. -/
abbrev FinSet (K : Type) [Ord K] := Std.ExtTreeSet K compare

namespace FinSet

variable {K : Type} [Ord K] [Std.TransOrd K] [Std.LawfulEqOrd K]

@[simp] theorem mem_insert {s : FinSet K} {a k : K} : a ∈ s.insert k ↔ a = k ∨ a ∈ s := by
  rw [Std.ExtTreeSet.mem_insert, Map.cmp_eq, eq_comm]

@[simp] theorem mem_erase {s : FinSet K} {a k : K} : a ∈ s.erase k ↔ a ≠ k ∧ a ∈ s := by
  rw [Std.ExtTreeSet.mem_erase, Ne, Map.cmp_eq, eq_comm]

@[simp] theorem mem_extend {s : FinSet K} {a : K} {l : List K} :
    a ∈ s.insertMany l ↔ a ∈ s ∨ a ∈ l := by
  induction l generalizing s with
  | nil => simp
  | cons k l ih => rw [Std.ExtTreeSet.insertMany_cons, ih, mem_insert, List.mem_cons]; tauto

omit [Std.LawfulEqOrd K] in
@[simp] theorem mem_union {s t : FinSet K} {a : K} : a ∈ s ∪ t ↔ a ∈ s ∨ a ∈ t :=
  Std.ExtTreeSet.mem_union_iff

theorem nodup_toList (s : FinSet K) : s.toList.Nodup :=
  (Std.ExtTreeSet.distinct_toList (t := s)).imp fun h e => h (Map.cmp_eq.mpr e)

theorem ncard_eq_size (s : FinSet K) : Set.ncard {a | a ∈ s} = s.size := by
  classical
  have hnd := nodup_toList s
  have hs : {a | a ∈ s} = (s.toList.toFinset : Set K) := by
    ext a
    simp
  rw [hs, Set.ncard_coe_finset, List.toFinset_card_of_nodup hnd, Std.ExtTreeSet.length_toList]

end FinSet
