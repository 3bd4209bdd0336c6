import Mathlib.Data.Set.Card

/-!
# The last elements with a property

`lastOf p n xs` has the elements of `xs` with the property `p` that fewer than `n` such elements
follow. They are `n`, or all of them if there are fewer (`length_last_of`).
-/

namespace Foundation

universe u

variable {α : Type u}

/-- A list without repetition is as long as its set is large. -/
theorem ncard_mem_list [DecidableEq α] {xs : List α} (h : xs.Nodup) :
    {x | x ∈ xs}.ncard = xs.length := by
  rw [← List.coe_toFinset, Set.ncard_coe_finset, List.toFinset_card_of_nodup h]

/-- The elements with a property that fewer than `n` such elements follow. -/
def lastOf (p : α → Bool) (n : Nat) : List α → List α
  | [] => []
  | x :: rest => if p x ∧ rest.countP p < n then x :: lastOf p n rest else lastOf p n rest

/-- There are `n` of them, or all where there are fewer. -/
theorem length_last_of (p : α → Bool) (n : Nat) (xs : List α) :
    (lastOf p n xs).length = min n (xs.countP p) := by
  induction xs with
  | nil => simp [lastOf]
  | cons x rest ih =>
      rw [lastOf, List.countP_cons]
      by_cases hx : p x = true
      · by_cases hlt : rest.countP p < n
        · rw [if_pos ⟨hx, hlt⟩, if_pos hx, List.length_cons, ih]
          omega
        · rw [if_neg (fun h => hlt h.2), if_pos hx, ih]
          omega
      · rw [if_neg (fun h => hx h.1), if_neg hx, ih]
        omega

/-- They are in the order of the list. -/
theorem sublist_last_of (p : α → Bool) (n : Nat) (xs : List α) :
    (lastOf p n xs).Sublist xs := by
  induction xs with
  | nil => exact .slnil
  | cons x rest ih =>
      rw [lastOf]
      split
      · exact ih.cons_cons x
      · exact ih.cons x

/-- Each of them has fewer than `n` behind it. -/
theorem of_mem_last_of {p : α → Bool} {n : Nat} {xs : List α} {x : α}
    (h : x ∈ lastOf p n xs) :
    p x = true ∧ ∃ i, xs[i]? = some x ∧ (xs.drop (i + 1)).countP p < n := by
  induction xs with
  | nil => simp [lastOf] at h
  | cons y rest ih =>
      rw [lastOf] at h
      have hrest : x ∈ lastOf p n rest →
          p x = true ∧ ∃ i, (y :: rest)[i]? = some x ∧
            ((y :: rest).drop (i + 1)).countP p < n := by
        intro hin
        obtain ⟨hx, i, hi, hcount⟩ := ih hin
        exact ⟨hx, i + 1, hi, hcount⟩
      split at h
      · next hy =>
          rcases List.mem_cons.mp h with rfl | hin
          · exact ⟨hy.1, 0, rfl, hy.2⟩
          · exact hrest hin
      · exact hrest h

end Foundation
