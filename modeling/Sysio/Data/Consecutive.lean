import Mathlib.Data.List.Basic

/-!
# Lists of consecutive numbers

`Consecutive num first l` says that the members of `l` have the numbers `first`, `first + 1` and so
on under `num`.  The place of a member then follows from its number, and a number in the range has
exactly one member.
-/

namespace Sysio

open List

variable {α : Type*} {num : α → ℕ}

/-- The numbers of the members go up by one, from `first` on. -/
def Consecutive (num : α → ℕ) (first : ℕ) (l : List α) : Prop :=
  ∀ i a, l[i]? = some a → num a = first + i

namespace Consecutive

variable {first n : ℕ} {l l₁ l₂ : List α} {a b : α}

lemma nil : Consecutive num first [] := by
  intro i a h
  cases h

lemma singleton (h : num a = first) : Consecutive num first [a] := by
  intro i b hb
  cases i with
  | zero =>
    cases hb
    exact h
  | succ i => cases hb

lemma append : Consecutive num first (l₁ ++ l₂) ↔
    Consecutive num first l₁ ∧ Consecutive num (first + l₁.length) l₂ := by
  constructor
  · intro h
    constructor
    · intro i a hi
      refine h i a ?_
      rw [getElem?_append_left (List.getElem?_eq_some_iff.mp hi).1, hi]
    · intro i a hi
      rw [Nat.add_assoc]
      refine h (l₁.length + i) a ?_
      rw [getElem?_append_right (Nat.le_add_right _ _), Nat.add_sub_cancel_left, hi]
  · rintro ⟨h1, h2⟩ i a hi
    rcases Nat.lt_or_ge i l₁.length with hlt | hge
    · rw [getElem?_append_left hlt] at hi
      exact h1 i a hi
    · rw [getElem?_append_right hge] at hi
      have := h2 _ a hi
      omega

section

variable (h : Consecutive num first l)
include h

lemma take (k : ℕ) : Consecutive num first (l.take k) := by
  rw [← take_append_drop k l] at h
  exact (append.mp h).1

lemma mem_bounds (ha : a ∈ l) :
    first ≤ num a ∧ num a < first + l.length ∧ l[num a - first]? = some a := by
  obtain ⟨i, hi⟩ := mem_iff_getElem?.mp ha
  have hnum := h i a hi
  have hlt := (List.getElem?_eq_some_iff.mp hi).1
  refine ⟨by omega, by omega, ?_⟩
  rw [hnum, Nat.add_sub_cancel_left, hi]

lemma exists_of_range (hfirst : first ≤ n)
    (hlt : n < first + l.length) : ∃ a ∈ l, num a = n ∧ l[n - first]? = some a := by
  have hi : n - first < l.length := by omega
  have hsome : l[n - first]? = some (l.get ⟨n - first, hi⟩) := getElem?_eq_getElem hi
  refine ⟨_, List.get_mem l _, ?_, hsome⟩
  rw [h _ _ hsome]
  omega

lemma eq_of_num_eq (ha : a ∈ l) (hb : b ∈ l) (hab : num a = num b) : a = b := by
  have ha' := (h.mem_bounds ha).2.2
  rw [hab, (h.mem_bounds hb).2.2] at ha'
  exact (Option.some.inj ha').symm

lemma head? (ha : a ∈ l.head?) : num a = first := by
  rw [head?_eq_getElem?] at ha
  exact h 0 a ha

lemma getLast? (ha : a ∈ l.getLast?) : num a + 1 = first + l.length := by
  rw [getLast?_eq_getElem?] at ha
  have hlt := (List.getElem?_eq_some_iff.mp ha).1
  have := h _ a ha
  omega

lemma getLast?_of_num (ha : a ∈ l)
    (hnum : num a + 1 = first + l.length) : l.getLast? = some a := by
  rw [getLast?_eq_getElem?, ← (h.mem_bounds ha).2.2]
  congr 1
  omega

end

end Consecutive

end Sysio
