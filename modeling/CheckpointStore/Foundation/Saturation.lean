import Mathlib.Data.List.Basic
import Mathlib.Data.List.Nodup

/-!
# Saturation

A loop that goes over its data again and again, entering elements into a list without
repetition, until a whole round enters nothing. `Grows` is what a pass may do; it composes, and a
fold of passes that reports no change has changed nothing at any element (`foldl_unchanged`).
`saturate_fixed`: if the list cannot outgrow a bound, enough rounds reach a list that one more
round leaves as it is.
-/

namespace Foundation

universe u v

variable {α : Type u} {β : Type v}

/-- The elements entered so far, and whether one has been entered since the flag was reset. -/
abbrev Marking (α : Type u) := List α × Bool

/-- A pass enters elements in front, without repetition, and reports it. -/
structure Grows (a b : Marking α) : Prop where
  suffix : a.1 <:+ b.1
  nodup : a.1.Nodup → b.1.Nodup
  unchanged : b.2 = false → b = a
  longer : b.2 = true → a.2 = true ∨ a.1.length < b.1.length

namespace Grows

theorem refl (a : Marking α) : Grows a a where
  suffix := List.suffix_rfl
  nodup h := h
  unchanged _ := rfl
  longer h := Or.inl h

/-- Growing twice is growing. -/
theorem trans {a b c : Marking α} (h : Grows a b) (h' : Grows b c) : Grows a c where
  suffix := h.suffix.trans h'.suffix
  nodup ha := h'.nodup (h.nodup ha)
  unchanged hc := by
    have hcb := h'.unchanged hc
    rw [hcb] at hc ⊢
    exact h.unchanged hc
  longer hc := by
    have hle := h'.suffix.length_le
    rcases h'.longer hc with hb | hlt
    · rcases h.longer hb with ha | hlt
      · exact Or.inl ha
      · exact Or.inr (by omega)
    · have hle' := h.suffix.length_le
      exact Or.inr (by omega)

/-- Entering one new element. -/
theorem enter {a : Marking α} {x : α} (hx : x ∉ a.1) : Grows a (x :: a.1, true) where
  suffix := List.suffix_cons x a.1
  nodup h := List.nodup_cons.mpr ⟨hx, h⟩
  unchanged h := by simp at h
  longer _ := Or.inr (by simp)

variable {f : Marking α → β → Marking α}

/-- A loop grows the marking if every round does. -/
theorem foldl (hf : ∀ a x, Grows a (f a x)) (a : Marking α) (xs : List β) :
    Grows a (xs.foldl f a) := by
  induction xs generalizing a with
  | nil => exact refl a
  | cons x rest ih => exact (hf a x).trans (ih (f a x))

/-- If a fold reports no change, it has changed nothing at any element. -/
theorem foldl_unchanged (hf : ∀ a x, Grows a (f a x)) {a : Marking α} {xs : List β}
    (h : (xs.foldl f a).2 = false) : ∀ x ∈ xs, f a x = a := by
  induction xs with
  | nil => simp
  | cons x rest ih =>
      -- The state after the first element is the final one, which is the first one.
      have hlast : rest.foldl f (f a x) = f a x := (foldl hf (f a x) rest).unchanged h
      have hfirst : f a x = a := (hf a x).unchanged (hlast ▸ h)
      rw [List.foldl_cons, hfirst] at h
      intro y hy
      rcases List.mem_cons.mp hy with rfl | hin
      · exact hfirst
      · exact ih h y hin

end Grows

/-- Go round until nothing changes, a bounded number of times. -/
def saturate (round : Marking α → Marking α) : Nat → List α → List α
  | 0, marked => marked
  | bound + 1, marked =>
      let state := round (marked, false)
      if state.2 then saturate round bound state.1 else state.1

section Saturate

variable {round : Marking α → Marking α}

/-- What every round keeps holds at the end. -/
theorem saturate_keeps {P : List α → Prop}
    (hround : ∀ marked, P marked → P (round (marked, false)).1)
    (bound : Nat) {marked : List α} (h : P marked) : P (saturate round bound marked) := by
  induction bound generalizing marked with
  | zero => exact h
  | succ bound ih =>
      rw [saturate]
      split
      · exact ih (hround marked h)
      · exact hround marked h

/-- If a list without repetition cannot have more than `limit` elements, enough rounds reach a
list that a further round leaves alone. -/
theorem saturate_fixed (hgrows : ∀ a, Grows a (round a)) {P : List α → Prop} {limit : Nat}
    (hround : ∀ marked, P marked → P (round (marked, false)).1)
    (hlimit : ∀ marked, P marked → marked.Nodup → marked.length ≤ limit) {bound : Nat}
    {marked : List α} (hP : P marked) (hnodup : marked.Nodup)
    (hbound : limit < marked.length + bound) :
    round (saturate round bound marked, false) = (saturate round bound marked, false) := by
  induction bound generalizing marked with
  | zero =>
      have hle := hlimit marked hP hnodup
      omega
  | succ bound ih =>
      have hstep := hgrows (marked, false)
      rw [saturate]
      by_cases hchanged : (round (marked, false)).2 = true
      · rw [if_pos hchanged]
        have hlonger := (hstep.longer hchanged).resolve_left (by simp)
        exact ih (hround marked hP) (hstep.nodup hnodup) (by simp only at hlonger; omega)
      · rw [if_neg hchanged]
        have hsame := hstep.unchanged (Bool.not_eq_true _ ▸ hchanged)
        rw [hsame]
        exact hsame

end Saturate

end Foundation
