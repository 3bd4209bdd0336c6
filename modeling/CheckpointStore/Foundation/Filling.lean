import CheckpointStore.Foundation.UnorderedMap

/-!
# Rebuilding a table from its values

A table whose values carry their keys can be listed and rebuilt: entering the values one by one
into an empty table, in any order, meets no key twice and ends with the same table
(`find_enter_all`). The table may be part of a larger state, of which `table` is a projection.
-/

namespace Foundation.UnorderedMap

universe u v w

variable {S : Type w} {K : Type u} {V : Type v} [DecidableEq K]

/-- Enter the values one after the other. -/
def enterAll (enter : V → S → S) (vs : List V) (s : S) : S :=
  vs.foldl (fun s v => enter v s) s

/-- Every value is found under its own key. -/
def Filed (key : V → K) (m : UnorderedMap K V) : Prop := ∀ k v, m.find k = some v → key v = k

section Filed

variable {key : V → K} {m m' : UnorderedMap K V}

/-- The empty table is filed under any key. -/
theorem filed_empty (key : V → K) : Filed key ∅ := by
  intro k v hfind
  simp at hfind

/-- A table stays filed when a value is entered under its key. -/
theorem Filed.emplace (h : Filed key m) {k : K} {v : V} (hv : key v = k) :
    Filed key (m.emplace k v) := by
  intro k' v' hfind
  rw [find_emplace] at hfind
  by_cases hk : k' = k
  · subst hk
    cases hold : m.find k' with
    | none =>
        simp only [if_pos, hold, Option.getD_none, Option.some.injEq] at hfind
        rw [← hfind, hv]
    | some v₀ =>
        simp only [if_pos, hold, Option.getD_some, Option.some.injEq] at hfind
        exact h k' v' (hfind ▸ hold)
  · rw [if_neg hk] at hfind
    exact h k' v' hfind

/-- A table stays filed when a value is assigned to its key. -/
theorem Filed.assign (h : Filed key m) {k : K} {v : V} (hv : key v = k) :
    Filed key (m.assign k v) := by
  intro k' v' hfind
  rw [find_assign] at hfind
  by_cases hk : k' = k
  · rw [if_pos hk, Option.some.injEq] at hfind
    rw [← hfind, hv, hk]
  · rw [if_neg hk] at hfind
    exact h k' v' hfind

/-- Tables that agree up to something that determines the key are filed alike. -/
theorem Filed.of_map_eq {C : Type w} {content : V → C} (h : Filed key m)
    (hm : ∀ k, (m'.find k).map content = (m.find k).map content) (keyOf : C → K)
    (hkey : ∀ v, keyOf (content v) = key v) : Filed key m' := by
  intro k v hfind
  have hk := hm k
  rw [hfind] at hk
  obtain ⟨v₀, hfind₀, hv₀⟩ := Option.map_eq_some_iff.mp hk.symm
  rw [← hkey v, ← hv₀, hkey v₀]
  exact h k v₀ hfind₀

theorem Filed.of_find (h : Filed key m) (hm : ∀ k v, m'.find k = some v → m.find k = some v) :
    Filed key m' := fun k v hfind => h k v (hm k v hfind)

end Filed

/-- A value whose key is not taken is added under its key. -/
def EntersIn (table : S → UnorderedMap K V) (key : V → K) (enter : V → S → S) : Prop :=
  ∀ v s, (table s).find (key v) = none →
    ∀ k, (table (enter v s)).find k = if k = key v then some v else (table s).find k

/-- Enter values under their keys. -/
def fileAll (key : V → K) (vs : List V) (m : UnorderedMap K V) : UnorderedMap K V :=
  enterAll (fun v m => m.emplace (key v) v) vs m

/-- Emplacing enters a value under its key. -/
theorem enters_in_emplace (key : V → K) :
    EntersIn (fun m : UnorderedMap K V => m) key (fun v m => m.emplace (key v) v) := by
  intro v m hfree k
  rw [find_emplace]
  by_cases hk : k = key v
  · subst hk
    simp [hfree]
  · simp [hk]

variable {table : S → UnorderedMap K V} {key : V → K} {enter : V → S → S}

/-- What entering values with different keys does to every key. -/
theorem find_enter_all_cases (henter : EntersIn table key enter) {vs : List V} {s : S}
    (hnodup : (vs.map key).Nodup) (hfresh : ∀ v ∈ vs, (table s).find (key v) = none) :
    (∀ v ∈ vs, (table (enterAll enter vs s)).find (key v) = some v) ∧
      ∀ k, (∀ v ∈ vs, key v ≠ k) → (table (enterAll enter vs s)).find k = (table s).find k := by
  induction vs generalizing s with
  | nil => exact ⟨fun v hv => by simp at hv, fun _ _ => rfl⟩
  | cons v rest ih =>
      rw [List.map_cons, List.nodup_cons] at hnodup
      have hne : ∀ v' ∈ rest, key v' ≠ key v := fun v' hv' heq =>
        hnodup.1 (heq ▸ List.mem_map_of_mem hv')
      have hfind := henter v s (hfresh v (by simp))
      obtain ⟨hmem, hother⟩ := ih (s := enter v s) hnodup.2 fun v' hv' => by
        rw [hfind, if_neg (hne v' hv')]
        exact hfresh v' (List.mem_cons_of_mem _ hv')
      refine ⟨fun v' hv' => ?_, fun k hk => ?_⟩
      · rcases List.mem_cons.mp hv' with rfl | hv'
        · exact (hother _ hne).trans ((hfind _).trans (if_pos rfl))
        · exact hmem v' hv'
      · refine (hother k fun v' hv' => hk v' (List.mem_cons_of_mem _ hv')).trans ?_
        rw [hfind, if_neg (Ne.symm (hk v (by simp)))]

/-- The values have different keys, and none of the keys is taken. -/
def Free (table : S → UnorderedMap K V) (key : V → K) (vs : List V) (s : S) : Prop :=
  (vs.map key).Nodup ∧ ∀ v ∈ vs, (table s).find (key v) = none

/-- Free values stay free while those before them are entered. -/
theorem free_cons_iff (henter : EntersIn table key enter) {v : V} {vs : List V} {s : S} :
    Free table key (v :: vs) s ↔
      (table s).find (key v) = none ∧ Free table key vs (enter v s) := by
  unfold Free
  rw [List.map_cons, List.nodup_cons, List.forall_mem_cons]
  constructor
  · rintro ⟨⟨hnot, hnodup⟩, hfree, hrest⟩
    refine ⟨hfree, hnodup, fun v' hv' => ?_⟩
    have hne : key v' ≠ key v := fun heq => hnot (heq ▸ List.mem_map_of_mem hv')
    rw [henter v s hfree, if_neg hne]
    exact hrest v' hv'
  · rintro ⟨hfree, hnodup, hrest⟩
    have hboth : ∀ v' ∈ vs, key v' ≠ key v ∧ (table s).find (key v') = none := by
      intro v' hv'
      have h := hrest v' hv'
      rw [henter v s hfree] at h
      split at h
      · cases h
      · next hne => exact ⟨hne, h⟩
    refine ⟨⟨fun hmem => ?_, hnodup⟩, hfree, fun v' hv' => (hboth v' hv').2⟩
    obtain ⟨v', hv', heq⟩ := List.mem_map.mp hmem
    exact (hboth v' hv').1 heq

/-- No key is met twice. -/
theorem not_taken (henter : EntersIn table key enter) {vs before after : List V} {v : V} {s : S}
    (hnodup : (vs.map key).Nodup) (hempty : ∀ k, (table s).find k = none)
    (hvs : vs = before ++ v :: after) :
    (table (enterAll enter before s)).find (key v) = none := by
  subst hvs
  rw [List.map_append, List.nodup_append] at hnodup
  obtain ⟨hbefore, _, hdisjoint⟩ := hnodup
  refine ((find_enter_all_cases henter hbefore fun _ _ => hempty _).2 _ fun v' hv' heq => ?_).trans
    (hempty _)
  exact hdisjoint _ (List.mem_map_of_mem hv') (key v) (by simp) heq

/-- The values of a table carry different keys. -/
theorem values_keys_nodup {m : UnorderedMap K V}
    (hkey : ∀ k v, m.find k = some v → key v = k) : (m.values.map key).Nodup := by
  have hkeys : m.values.map key = m.entries.map Prod.fst := by
    unfold values
    rw [List.map_map]
    refine List.map_congr_left fun entry hentry => ?_
    exact hkey _ _ (find_eq_some_iff.mpr hentry)
  rw [hkeys]
  exact m.keys_nodup

variable {m : UnorderedMap K V} {f : V → V} {vs : List V}

/-- A list of changed values carries different keys, if the change keeps the keys. -/
theorem perm_keys_nodup (hkey : ∀ k v, m.find k = some v → key v = k)
    (hf : ∀ v, key (f v) = key v) (hperm : vs.Perm (m.values.map f)) : (vs.map key).Nodup := by
  refine (hperm.map key).nodup_iff.mpr ?_
  rw [List.map_map, show key ∘ f = key from funext hf]
  exact values_keys_nodup hkey

/-- Entering the values of a table, each changed by `f`, rebuilds the table with changed values. -/
theorem find_enter_all (henter : EntersIn table key enter) {s : S}
    (hkey : ∀ k v, m.find k = some v → key v = k) (hf : ∀ v, key (f v) = key v)
    (hperm : vs.Perm (m.values.map f)) (hempty : ∀ k, (table s).find k = none) (k : K) :
    (table (enterAll enter vs s)).find k = (m.find k).map f := by
  obtain ⟨hmem, hother⟩ := find_enter_all_cases henter (perm_keys_nodup hkey hf hperm)
    (s := s) fun _ _ => hempty _
  cases hfind : m.find k with
  | some v =>
      have hv : f v ∈ vs := hperm.mem_iff.mpr (List.mem_map_of_mem (mem_values.mpr ⟨k, hfind⟩))
      have h := hmem _ hv
      rwa [hf, hkey k v hfind] at h
  | none =>
      refine (hother k fun v' hv' heq => ?_).trans (hempty k)
      obtain ⟨v, hv, rfl⟩ := List.mem_map.mp (hperm.mem_iff.mp hv')
      obtain ⟨k', hk'⟩ := mem_values.mp hv
      rw [hf, hkey k' v hk'] at heq
      rw [heq, hfind] at hk'
      simp at hk'

/-- What is found after entering different values into an empty table is one of them. -/
theorem mem_of_find_enter_all (henter : EntersIn table key enter) {s : S}
    (hnodup : (vs.map key).Nodup) (hempty : ∀ k, (table s).find k = none) {k : K} {v : V}
    (hfind : (table (enterAll enter vs s)).find k = some v) : v ∈ vs ∧ key v = k := by
  obtain ⟨hmem, hother⟩ := find_enter_all_cases henter hnodup (s := s) fun _ _ => hempty _
  by_cases hk : ∃ v' ∈ vs, key v' = k
  · obtain ⟨v', hv', rfl⟩ := hk
    rw [hmem v' hv', Option.some.injEq] at hfind
    subst hfind
    exact ⟨hv', rfl⟩
  · rw [hother k fun v' hv' heq => hk ⟨v', hv', heq⟩, hempty] at hfind
    simp at hfind

/-- A table filled with different values has exactly them. -/
theorem find_file_all_iff (key : V → K) (hnodup : (vs.map key).Nodup) {k : K} {v : V} :
    (fileAll key vs ∅).find k = some v ↔ v ∈ vs ∧ key v = k := by
  constructor
  · exact mem_of_find_enter_all (enters_in_emplace key) hnodup fun _ => rfl
  · rintro ⟨hv, rfl⟩
    exact (find_enter_all_cases (enters_in_emplace key) hnodup fun _ _ => rfl).1 v hv

/-- What assigning values under different keys does to every key. -/
theorem find_assign_all {K' V' : Type*} [DecidableEq K'] {key : V → K'} {g : V → V'} {vs : List V}
    {out : UnorderedMap K' V'} (hnodup : (vs.map key).Nodup) :
    (∀ v ∈ vs, (vs.foldl (fun out v => out.assign (key v) (g v)) out).find (key v) = some (g v)) ∧
      ∀ k, (∀ v ∈ vs, key v ≠ k) →
        (vs.foldl (fun out v => out.assign (key v) (g v)) out).find k = out.find k := by
  induction vs generalizing out with
  | nil => exact ⟨fun v hv => by simp at hv, fun _ _ => rfl⟩
  | cons v rest ih =>
      rw [List.map_cons, List.nodup_cons] at hnodup
      obtain ⟨hmem, hother⟩ := @ih (out.assign (key v) (g v)) hnodup.2
      refine ⟨fun v' hv' => ?_, fun k hk => ?_⟩
      · rcases List.mem_cons.mp hv' with rfl | hv'
        · refine (hother _ fun v'' hv'' heq => ?_).trans (by rw [find_assign, if_pos rfl])
          exact hnodup.1 (heq ▸ List.mem_map_of_mem hv'')
        · exact hmem v' hv'
      · refine (hother k fun v' hv' => hk v' (List.mem_cons_of_mem _ hv')).trans ?_
        rw [find_assign, if_neg (Ne.symm (hk v (by simp)))]

/-- Rebuilding a table from an empty one. -/
theorem find_file_all (hkey : ∀ k v, m.find k = some v → key v = k) (hf : ∀ v, key (f v) = key v)
    (hperm : vs.Perm (m.values.map f)) (k : K) :
    (fileAll key vs ∅).find k = (m.find k).map f :=
  find_enter_all (enters_in_emplace key) hkey hf hperm (fun _ => rfl) k

end Foundation.UnorderedMap
