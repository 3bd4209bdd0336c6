import Mathlib.Data.List.AList
import Mathlib.Data.List.Perm.Basic
import Mathlib.Algebra.Order.BigOperators.Group.List
import Mathlib.Algebra.Order.Group.Nat
import Mathlib.Algebra.GroupWithZero.Nat

/-!
# Hash maps with an explicit iteration order

An `UnorderedMap` is an association list with distinct keys. The list order is the order in
which a program iterates over the map; `Reordered` relates two maps that hold the same
entries in different orders, so a result that is stable under `Reordered` does not depend on
how a hash table arranges its buckets. `sumBy` adds a weight over all entries, and
`sum_by_modify`, `sum_by_assign` and `sum_by_erase` say how one update changes that total.

The operations carry the names of the C++ standard library: `emplace` keeps an existing
entry, `assign` overwrites it.
-/

namespace Foundation

universe u v w

/-- A finite map whose entries are listed in iteration order. -/
structure UnorderedMap (K : Type u) (V : Type v) where
  table : AList (fun _ : K => V)

namespace UnorderedMap

variable {K : Type u} {V : Type v} {V' : Type w}

/-- The map without entries. -/
def empty : UnorderedMap K V := ⟨∅⟩

instance : EmptyCollection (UnorderedMap K V) := ⟨empty⟩

instance : Inhabited (UnorderedMap K V) := ⟨∅⟩

/-- The entries in iteration order. -/
def entries (m : UnorderedMap K V) : List (K × V) :=
  m.table.entries.map fun entry => (entry.1, entry.2)

/-- The stored values in iteration order. -/
def values (m : UnorderedMap K V) : List V :=
  m.entries.map Prod.snd

/-- The number of entries. -/
def size (m : UnorderedMap K V) : Nat :=
  m.entries.length

/-- The same entries in a possibly different iteration order. -/
def Reordered (m m' : UnorderedMap K V) : Prop :=
  m.entries.Perm m'.entries

/-- Apply a function to every value, keeping the keys and the iteration order. -/
def mapValues (f : K → V → V') (m : UnorderedMap K V) : UnorderedMap K V' where
  table := {
    entries := m.table.entries.map fun entry => ⟨entry.1, f entry.1 entry.2⟩
    nodupKeys := by
      have hkeys : (m.table.entries.map fun entry =>
          (⟨entry.1, f entry.1 entry.2⟩ : Sigma fun _ : K => V')).keys =
          m.table.entries.keys := by
        simp [List.keys, Function.comp_def]
      rw [List.NodupKeys, hkeys]
      exact m.table.nodupKeys }

/-- The sum of a weight over all entries. -/
def sumBy (f : K → V → Nat) (m : UnorderedMap K V) : Nat :=
  (m.entries.map fun entry => f entry.1 entry.2).sum

/-- Reordering keeps the number of entries. -/
theorem Reordered.size_eq {m m' : UnorderedMap K V} (h : Reordered m m') : m.size = m'.size :=
  List.Perm.length_eq h

/-- Reordering keeps the values up to order. -/
theorem Reordered.values_perm {m m' : UnorderedMap K V} (h : Reordered m m') :
    m.values.Perm m'.values :=
  List.Perm.map _ h

/-- Reordering keeps every sum over the entries. -/
theorem Reordered.sum_by_eq {m m' : UnorderedMap K V} (h : Reordered m m') (f : K → V → Nat) :
    m.sumBy f = m'.sumBy f :=
  (List.Perm.map _ h).sum_eq

@[simp] theorem entries_empty : (∅ : UnorderedMap K V).entries = [] := rfl

@[simp] theorem size_empty : (∅ : UnorderedMap K V).size = 0 := rfl

@[simp] theorem values_empty : (∅ : UnorderedMap K V).values = [] := rfl

@[simp] theorem sum_by_empty (f : K → V → Nat) : (∅ : UnorderedMap K V).sumBy f = 0 := rfl

/-- The keys of the entries are pairwise distinct. -/
theorem keys_nodup (m : UnorderedMap K V) : (m.entries.map Prod.fst).Nodup := by
  have h := m.table.nodupKeys
  simpa [entries, Function.comp_def, List.NodupKeys, List.keys] using h

@[simp] theorem entries_map_values (f : K → V → V') (m : UnorderedMap K V) :
    (m.mapValues f).entries = m.entries.map fun entry => (entry.1, f entry.1 entry.2) := by
  simp [entries, mapValues, Function.comp_def]

/-- Changing values in place keeps the number of entries. -/
@[simp] theorem size_map_values (f : K → V → V') (m : UnorderedMap K V) :
    (m.mapValues f).size = m.size := by
  simp [size]

/-- A sum over updated values is the sum of the composed weight. -/
theorem sum_by_map_values (m : UnorderedMap K V) (g : K → V → V') (f : K → V' → Nat) :
    (m.mapValues g).sumBy f = m.sumBy fun k v => f k (g k v) := by
  simp [sumBy, Function.comp_def]

/-- A sum with wrap-around is the sum of the numbers, wrapped around. -/
theorem foldl_add_eq_of_nat_sum {α : Type u} (f : α → UInt64) (l : List α) (n : Nat) :
    l.foldl (fun total a => total + f a) (UInt64.ofNat n) =
      UInt64.ofNat (n + (l.map fun a => (f a).toNat).sum) := by
  induction l generalizing n with
  | nil => rfl
  | cons a rest ih =>
      rw [List.foldl_cons, show UInt64.ofNat n + f a = UInt64.ofNat (n + (f a).toNat) by
        rw [UInt64.ofNat_add, UInt64.ofNat_toNat], ih, List.map_cons, List.sum_cons, Nat.add_assoc]

/-- A 64-bit sum over the values is the sum modulo `2 ^ 64`. -/
theorem foldl_values_eq_sum_by (m : UnorderedMap K V) (f : V → UInt64) :
    m.values.foldl (fun total v => total + f v) 0 =
      UInt64.ofNat (m.sumBy fun _ v => (f v).toNat) := by
  have h := foldl_add_eq_of_nat_sum f m.values 0
  rw [Nat.zero_add] at h
  refine h.trans ?_
  rw [values, List.map_map]
  rfl

variable [DecidableEq K]

/-- The value stored under a key. -/
def find (m : UnorderedMap K V) (k : K) : Option V :=
  m.table.lookup k

/-- Whether a key has an entry. -/
def contains (m : UnorderedMap K V) (k : K) : Bool :=
  (m.find k).isSome

/-- Store a value under a key, overwriting an existing entry. -/
def assign (k : K) (v : V) (m : UnorderedMap K V) : UnorderedMap K V :=
  ⟨m.table.insert k v⟩

/-- Insert an entry unless the key is already present, in which case nothing changes. -/
def emplace (k : K) (v : V) (m : UnorderedMap K V) : UnorderedMap K V :=
  if m.contains k then m else m.assign k v

/-- Remove the entry of a key, if there is one. -/
def erase (k : K) (m : UnorderedMap K V) : UnorderedMap K V :=
  ⟨m.table.erase k⟩

/-- Apply a function to the value stored under one key, in place. -/
def modify (k : K) (f : V → V) (m : UnorderedMap K V) : UnorderedMap K V :=
  m.mapValues fun key v => if key = k then f v else v

@[simp] theorem find_empty (k : K) : (∅ : UnorderedMap K V).find k = none := rfl

/-- An entry of the list is found by its key. -/
theorem find_eq_some_iff {m : UnorderedMap K V} {k : K} {v : V} :
    m.find k = some v ↔ (k, v) ∈ m.entries := by
  rw [find, ← Option.mem_def, AList.mem_lookup_iff]
  simp only [entries, List.mem_map, Prod.mk.injEq]
  constructor
  · intro h
    exact ⟨⟨k, v⟩, h, rfl, rfl⟩
  · rintro ⟨⟨key, value⟩, h, rfl, rfl⟩
    exact h

/-- A key is contained exactly if it has a value. -/
theorem contains_iff {m : UnorderedMap K V} {k : K} :
    m.contains k = true ↔ ∃ v, m.find k = some v := by
  simp [contains, Option.isSome_iff_exists]

theorem contains_eq_false_iff {m : UnorderedMap K V} {k : K} :
    m.contains k = false ↔ m.find k = none := by
  simp [contains]

/-- A map and any reordering of it answer every lookup alike. -/
theorem Reordered.find_eq {m m' : UnorderedMap K V} (h : Reordered m m') (k : K) :
    m.find k = m'.find k := by
  apply Option.ext
  intro v
  rw [find_eq_some_iff, find_eq_some_iff]
  exact List.Perm.mem_iff h

/-- Two maps with the same answers hold the same entries. -/
theorem reordered_of_find_eq {m m' : UnorderedMap K V}
    (h : ∀ k, m.find k = m'.find k) : Reordered m m' := by
  apply List.Perm.map
  apply List.lookup_ext m.table.nodupKeys m'.table.nodupKeys
  intro k v
  change v ∈ m.find k ↔ v ∈ m'.find k
  rw [h k]

/-- The values of a map are exactly what its lookups return. -/
theorem mem_values {m : UnorderedMap K V} {v : V} :
    v ∈ m.values ↔ ∃ k, m.find k = some v := by
  simp only [values, List.mem_map, find_eq_some_iff, Prod.exists, exists_eq_right]

/-- An assignment changes its own key only. -/
@[simp] theorem find_assign (m : UnorderedMap K V) (k k' : K) (v : V) :
    (m.assign k v).find k' = if k' = k then some v else m.find k' := by
  simp only [find, assign]
  split
  · next h => subst h; exact AList.lookup_insert m.table
  · next h => exact AList.lookup_insert_ne h

/-- Erasing changes its own key only. -/
@[simp] theorem find_erase (m : UnorderedMap K V) (k k' : K) :
    (m.erase k).find k' = if k' = k then none else m.find k' := by
  simp only [find, erase]
  split
  · next h => subst h; exact AList.lookup_erase k' m.table
  · next h => exact AList.lookup_erase_ne h

/-- An assignment adds its key to the contained ones. -/
theorem contains_assign (m : UnorderedMap K V) (k k' : K) (v : V) :
    (m.assign k v).contains k' = (m.contains k' || decide (k = k')) := by
  rw [contains, contains, find_assign]
  by_cases hk : k' = k
  · simp [hk]
  · simp [hk, Ne.symm hk]

/-- The erased key is no longer contained. -/
theorem contains_erase (m : UnorderedMap K V) (k k' : K) :
    (m.erase k).contains k' = (m.contains k' && decide (k ≠ k')) := by
  rw [contains, contains, find_erase]
  by_cases hk : k' = k
  · simp [hk]
  · simp [hk, Ne.symm hk]

/-- `emplace` does not replace a value. -/
theorem emplace_of_find_some {m : UnorderedMap K V} {k : K} {v' : V} (h : m.find k = some v')
    (v : V) : m.emplace k v = m := by
  simp [emplace, contains, h]

/-- `emplace` enters a value under a new key. -/
theorem emplace_of_find_none {m : UnorderedMap K V} {k : K} (h : m.find k = none) (v : V) :
    m.emplace k v = m.assign k v := by
  simp [emplace, contains, h]

/-- Emplacing answers the new value only where the key was absent. -/
theorem find_emplace (m : UnorderedMap K V) (k k' : K) (v : V) :
    (m.emplace k v).find k' =
      if k' = k then some ((m.find k).getD v) else m.find k' := by
  cases hk : m.find k with
  | none => simp [emplace_of_find_none hk]
  | some v' =>
      rw [emplace_of_find_some hk]
      split
      · next h => subst h; simpa using hk
      · rfl

/-- Emplacing never forgets an entry. -/
theorem find_emplace_of_some {m : UnorderedMap K V} {k k' : K} {v v' : V}
    (h : m.find k' = some v') : (m.emplace k v).find k' = some v' := by
  rw [find_emplace]
  split
  · next heq => subst heq; simp [h]
  · exact h

/-- Changing every value changes what is found. -/
@[simp] theorem find_map_values (f : K → V → V') (m : UnorderedMap K V) (k : K) :
    (m.mapValues f).find k = (m.find k).map (f k) :=
  List.dlookup_map₂ k

/-- A sum that depends on a part of the values only is the same for maps whose lookups agree on
that part. -/
theorem sum_by_eq_of_map_find_eq {m m' : UnorderedMap K V} {part : V → V'}
    (h : ∀ k, (m'.find k).map part = (m.find k).map part) {f : K → V → Nat}
    {g : K → V' → Nat} (hf : ∀ k v, f k v = g k (part v)) : m'.sumBy f = m.sumBy f := by
  have hfind : ∀ k, (m'.mapValues fun _ => part).find k = (m.mapValues fun _ => part).find k := by
    intro k
    rw [find_map_values, find_map_values]
    exact h k
  have hsum := (reordered_of_find_eq hfind).sum_by_eq g
  rw [sum_by_map_values, sum_by_map_values] at hsum
  have hweight : f = fun k v => g k (part v) := by
    funext k v
    exact hf k v
  rw [hweight]
  exact hsum

/-- Updating a value in place changes its own key only. -/
@[simp] theorem find_modify (m : UnorderedMap K V) (k k' : K) (f : V → V) :
    (m.modify k f).find k' = if k' = k then (m.find k').map f else m.find k' := by
  rw [modify, find_map_values]
  split <;> simp_all

/-- Updating a value in place keeps the number of entries. -/
@[simp] theorem size_modify (m : UnorderedMap K V) (k : K) (f : V → V) :
    (m.modify k f).size = m.size := by
  rw [modify, size_map_values]

/-- A new key adds one entry. -/
theorem entries_assign_fresh {m : UnorderedMap K V} {k : K} (h : m.find k = none) (v : V) :
    (m.assign k v).entries = (k, v) :: m.entries := by
  have hnotin : k ∉ m.table := AList.lookup_eq_none.mp h
  simp only [entries, assign]
  rw [AList.entries_insert_of_notMem hnotin]
  rfl

/-- There is an iteration order with any one entry in front. -/
theorem exists_reordered_first {m : UnorderedMap K V} {k : K} {v : V} (h : m.find k = some v) :
    ∃ m', m.Reordered m' ∧ ∃ rest, m'.values = v :: rest := by
  have hnone : (m.erase k).find k = none := by rw [find_erase, if_pos rfl]
  refine ⟨(m.erase k).assign k v, reordered_of_find_eq fun k' => ?_,
    (m.erase k).values, ?_⟩
  · rw [find_assign, find_erase]
    split
    · next hk => rw [hk, h]
    · rfl
  · rw [values, entries_assign_fresh hnone]
    rfl

/-- A new key adds one entry to the count. -/
theorem size_emplace_fresh {m : UnorderedMap K V} {k : K} (h : m.find k = none) (v : V) :
    (m.emplace k v).size = m.size + 1 := by
  rw [emplace_of_find_none h, size, entries_assign_fresh h]
  rfl

/-- A table without entries has no value. -/
theorem find_eq_none_of_size {m : UnorderedMap K V} (h : m.size = 0) (k : K) :
    m.find k = none := by
  cases hfind : m.find k with
  | none => rfl
  | some v =>
      have hin := find_eq_some_iff.mp hfind
      rw [List.length_eq_zero_iff.mp h] at hin
      simp at hin

/-- A fresh entry adds exactly its own weight. -/
theorem sum_by_assign_fresh {m : UnorderedMap K V} {k : K} (h : m.find k = none) (v : V)
    (f : K → V → Nat) : (m.assign k v).sumBy f = f k v + m.sumBy f := by
  simp [sumBy, entries_assign_fresh h]

/-- Updating the one entry of a key in a list trades its old weight for its new weight. -/
private theorem sum_map_update {entries : List (K × V)} {k : K} {v : V}
    (hnodup : (entries.map Prod.fst).Nodup) (hmem : (k, v) ∈ entries) (g : V → V)
    (f : K → V → Nat) :
    (entries.map fun entry => f entry.1 (if entry.1 = k then g entry.2 else entry.2)).sum +
        f k v =
      (entries.map fun entry => f entry.1 entry.2).sum + f k (g v) := by
  induction entries with
  | nil => simp at hmem
  | cons entry rest ih =>
      obtain ⟨key, value⟩ := entry
      simp only [List.map_cons, List.nodup_cons, List.mem_map, Prod.exists, not_exists] at hnodup
      obtain ⟨hhead, hrest⟩ := hnodup
      simp only [List.map_cons, List.sum_cons]
      rcases List.mem_cons.mp hmem with heq | hin
      · -- The updated entry is the head, so no later entry has this key.
        cases heq
        have htail : (rest.map fun entry =>
            f entry.1 (if entry.1 = k then g entry.2 else entry.2)) =
            rest.map fun entry => f entry.1 entry.2 := by
          apply List.map_congr_left
          intro entry he
          have hne : entry.1 ≠ k := fun heq => hhead entry.1 entry.2 ⟨he, heq⟩
          simp [hne]
        rw [htail, if_pos rfl]
        omega
      · have hne : key ≠ k := fun heq => hhead k v ⟨hin, heq.symm⟩
        have hsum := ih hrest hin
        rw [if_neg hne]
        omega

/-- Updating one entry trades its old weight for its new weight. -/
theorem sum_by_modify {m : UnorderedMap K V} {k : K} {v : V} (h : m.find k = some v)
    (g : V → V) (f : K → V → Nat) :
    (m.modify k g).sumBy f + f k v = m.sumBy f + f k (g v) := by
  rw [modify, sum_by_map_values]
  exact sum_map_update m.keys_nodup (find_eq_some_iff.mp h) g f

/-- Overwriting trades the old weight, if there is an entry, for the new one. -/
theorem sum_by_assign (m : UnorderedMap K V) (k : K) (v : V) (f : K → V → Nat) :
    (m.assign k v).sumBy f + ((m.find k).map (f k)).getD 0 = m.sumBy f + f k v := by
  cases hfind : m.find k with
  | none =>
      rw [sum_by_assign_fresh hfind, Option.map_none, Option.getD_none, Nat.add_zero,
        Nat.add_comm]
  | some old =>
      have hsame : ∀ k', (m.assign k v).find k' = (m.modify k fun _ => v).find k' := by
        intro k'
        rw [find_assign, find_modify]
        by_cases hk : k' = k
        · rw [if_pos hk, if_pos hk, hk, hfind, Option.map_some]
        · rw [if_neg hk, if_neg hk]
      rw [(reordered_of_find_eq hsame).sum_by_eq f]
      exact sum_by_modify hfind (fun _ => v) f

/-- Removing an entry takes its weight away. -/
theorem sum_by_erase (m : UnorderedMap K V) (k : K) (f : K → V → Nat) :
    (m.erase k).sumBy f + ((m.find k).map (f k)).getD 0 = m.sumBy f := by
  cases hfind : m.find k with
  | none =>
      have hsame : ∀ k', (m.erase k).find k' = m.find k' := by
        intro k'
        rw [find_erase]
        by_cases hk : k' = k
        · rw [if_pos hk, hk, hfind]
        · rw [if_neg hk]
      exact (reordered_of_find_eq hsame).sum_by_eq f
  | some old =>
      have hsame : ∀ k', ((m.erase k).assign k old).find k' = m.find k' := by
        intro k'
        rw [find_assign, find_erase]
        by_cases hk : k' = k
        · rw [if_pos hk, hk, hfind]
        · rw [if_neg hk, if_neg hk]
      rw [← (reordered_of_find_eq hsame).sum_by_eq f, sum_by_assign_fresh (by simp)]
      exact Nat.add_comm _ _

/-- Weights that agree on the entries have the same sum. -/
theorem sum_by_congr {m : UnorderedMap K V} {f g : K → V → Nat}
    (h : ∀ k v, m.find k = some v → f k v = g k v) : m.sumBy f = m.sumBy g :=
  congrArg List.sum (List.map_congr_left fun entry hin =>
    h entry.1 entry.2 (find_eq_some_iff.mpr hin))

/-- Every entry's weight is at most the sum. -/
theorem le_sum_by {m : UnorderedMap K V} {k : K} {v : V} (h : m.find k = some v)
    (f : K → V → Nat) : f k v ≤ m.sumBy f := by
  apply List.single_le_sum (fun _ _ => Nat.zero_le _)
  exact List.mem_map.mpr ⟨(k, v), find_eq_some_iff.mp h, rfl⟩

/-- Different keys that are all present are no more than there are entries. -/
theorem length_le_size {m : UnorderedMap K V} {ks : List K}
    (h : ∀ k ∈ ks, m.contains k = true) (hnodup : ks.Nodup) : ks.length ≤ m.size := by
  have hsubset : ks ⊆ m.entries.map Prod.fst := by
    intro k hin
    obtain ⟨v, hfind⟩ := contains_iff.mp (h k hin)
    exact List.mem_map.mpr ⟨(k, v), find_eq_some_iff.mp hfind, rfl⟩
  have hle := (List.subperm_of_subset hnodup hsubset).length_le
  rwa [List.length_map] at hle

end UnorderedMap

end Foundation
