import Mathlib.Order.Lattice
import Mathlib.Order.Defs.LinearOrder

/-!
# Flat sets

`FlatSet α` is a finite set kept as a strictly ascending list, the way a `flat_set` keeps it in a
vector: iteration visits the elements in ascending order, so the first element with a property is
the least one.
-/

namespace Sysio

open List

variable {α : Type*} [LinearOrder α]

/-- Inserts into an ascending list, unless the element is there. -/
def insertSorted (a : α) : List α → List α
  | [] => [a]
  | b :: l => if a < b then a :: b :: l else if a = b then b :: l else b :: insertSorted a l

lemma mem_insertSorted {a x : α} {l : List α} : x ∈ insertSorted a l ↔ x = a ∨ x ∈ l := by
  induction l with
  | nil => simp [insertSorted]
  | cons b l ih =>
    unfold insertSorted
    split_ifs with hlt heq
    · exact mem_cons
    · subst heq
      simp
    · rw [mem_cons, ih, mem_cons, or_left_comm]

lemma pairwise_insertSorted {a : α} {l : List α} (h : l.Pairwise (· < ·)) :
    (insertSorted a l).Pairwise (· < ·) := by
  induction l with
  | nil => exact pairwise_singleton _ a
  | cons b l ih =>
    obtain ⟨hb, hl⟩ := pairwise_cons.mp h
    unfold insertSorted
    split_ifs with hlt heq
    · refine pairwise_cons.mpr ⟨fun x hx => ?_, h⟩
      rcases mem_cons.mp hx with rfl | hx
      · exact hlt
      · exact hlt.trans (hb x hx)
    · exact h
    · refine pairwise_cons.mpr ⟨fun x hx => ?_, ih hl⟩
      rcases mem_insertSorted.mp hx with rfl | hx
      · exact lt_of_le_of_ne (not_lt.mp hlt) (Ne.symm heq)
      · exact hb x hx

/-- A finite set, as the ascending list of its elements. -/
structure FlatSet (α : Type*) [LinearOrder α] where
  toList : List α
  sorted : toList.Pairwise (· < ·)

namespace FlatSet

def empty : FlatSet α := ⟨[], List.Pairwise.nil⟩

instance : Membership α (FlatSet α) := ⟨fun s a => a ∈ s.toList⟩

lemma mem_iff {s : FlatSet α} {a : α} : a ∈ s ↔ a ∈ s.toList := Iff.rfl

instance (s : FlatSet α) (a : α) : Decidable (a ∈ s) := inferInstanceAs (Decidable (a ∈ s.toList))

def insert (s : FlatSet α) (a : α) : FlatSet α :=
  ⟨insertSorted a s.toList, pairwise_insertSorted s.sorted⟩

@[simp]
lemma mem_insert {s : FlatSet α} {a x : α} : x ∈ s.insert a ↔ x = a ∨ x ∈ s := mem_insertSorted

/-- The first element, in ascending order, other than `a`. -/
def firstOther (s : FlatSet α) (a : α) : Option α := s.toList.find? fun x => decide (x ≠ a)

lemma firstOther_eq_some {s : FlatSet α} {a b : α} (h : s.firstOther a = some b) :
    b ∈ s ∧ b ≠ a ∧ ∀ x ∈ s, x ≠ a → b ≤ x := by
  refine ⟨mem_of_find?_eq_some h, ?_, fun x hx hxa => ?_⟩
  · simpa using find?_some h
  -- an element before `b` would have been found
  · obtain ⟨-, as, bs, heq, has⟩ := find?_eq_some_iff_append.mp h
    have hsorted := s.sorted
    rw [mem_iff, heq, mem_append, mem_cons] at hx
    rw [heq] at hsorted
    have hbs := (pairwise_cons.mp (pairwise_append.mp hsorted).2.1).1
    rcases hx with hx | rfl | hx
    · have := has x hx
      simp [hxa] at this
    · exact le_rfl
    · exact (hbs x hx).le

end FlatSet

end Sysio
