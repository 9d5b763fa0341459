import Mathlib.Data.List.Sort
import Mathlib.Data.List.Count

/-!
# Order statistics of a list

`nthElement l i` is the element that stands at index `i` once `l` is sorted in ascending order, as
`std::nth_element` leaves it there.  `le_nthElement_iff` reads a lower bound on it as a count: at
most `i` elements of the list are below the bound.  Every comparison of two order statistics then
is a comparison of two counts.
-/

namespace Sysio

open List

variable {α : Type*} [LinearOrder α]

/-- The element at index `i` of the list sorted in ascending order. -/
def nthElement (l : List α) (i : ℕ) : Option α := (l.insertionSort (· ≤ ·))[i]?

variable {i : ℕ} {l : List α}

lemma countP_lt_take_eq_length (hl : l.Pairwise (· ≤ ·)) (hi : i < l.length)
    {x : α} (hx : l.get ⟨i, hi⟩ < x) : i < l.countP (fun y => decide (y < x)) := by
  -- the first `i + 1` elements are all below `x`
  have hall : ∀ y ∈ l.take (i + 1), decide (y < x) = true := by
    intro y hy
    obtain ⟨j, hj, rfl⟩ := mem_take_iff_getElem.mp hy
    have hle : l[j] ≤ l[i] := by
      rcases Nat.lt_or_ge j i with hlt | hge
      · exact pairwise_iff_getElem.mp hl j i (by omega) hi hlt
      · have : j = i := by omega
        subst this
        exact le_rfl
    exact decide_eq_true (lt_of_le_of_lt hle hx)
  have hcount : (l.take (i + 1)).countP (fun y => decide (y < x)) = i + 1 := by
    rw [countP_eq_length.mpr hall, length_take]
    omega
  have := (take_sublist (i + 1) l).countP_le (p := fun y => decide (y < x))
  omega

lemma countP_lt_le_of_le (hl : l.Pairwise (· ≤ ·)) (hi : i < l.length)
    {x : α} (hx : x ≤ l.get ⟨i, hi⟩) : l.countP (fun y => decide (y < x)) ≤ i := by
  -- from index `i` on, no element is below `x`
  have hnone : ∀ y ∈ l.drop i, ¬decide (y < x) = true := by
    intro y hy
    obtain ⟨j, hj, rfl⟩ := mem_drop_iff_getElem.mp hy
    have hle : l[i] ≤ l[j + i] := by
      rcases Nat.eq_zero_or_pos j with rfl | hpos
      · simp
      · exact pairwise_iff_getElem.mp hl i (j + i) hi (by omega) (by omega)
    simpa [Nat.add_comm] using le_trans hx hle
  have hsplit : (l.take i ++ l.drop i).countP (fun y => decide (y < x)) = _ := countP_append
  rw [take_append_drop, countP_eq_zero.mpr hnone] at hsplit
  have := countP_le_length (p := fun y => decide (y < x)) (l := l.take i)
  rw [length_take] at this
  omega

lemma nthElement_isSome (hi : i < l.length) : ∃ a, nthElement l i = some a := by
  exact ⟨_, getElem?_eq_getElem (by rwa [length_insertionSort])⟩

lemma mem_of_nthElement {a : α} (h : nthElement l i = some a) : a ∈ l := by
  exact (perm_insertionSort _ l).mem_iff.mp (mem_of_getElem? h)

/-- **A lower bound on an order statistic is a bound on a count**: the `i`-th smallest element is
at least `x` exactly when at most `i` elements are below `x`. -/
theorem le_nthElement_iff {a : α} (h : nthElement l i = some a) (x : α) :
    x ≤ a ↔ l.countP (fun y => decide (y < x)) ≤ i := by
  have hperm := perm_insertionSort (· ≤ ·) l
  have hsorted : (l.insertionSort (· ≤ ·)).Pairwise (· ≤ ·) := pairwise_insertionSort _ l
  obtain ⟨hi, rfl⟩ := List.getElem?_eq_some_iff.mp h
  rw [← hperm.countP_eq]
  constructor
  · intro hx
    exact countP_lt_le_of_le hsorted hi hx
  · intro hc
    by_contra hlt
    have := countP_lt_take_eq_length hsorted hi (not_le.mp hlt)
    omega

end Sysio
