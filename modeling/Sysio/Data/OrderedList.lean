import Mathlib.Data.List.Basic
import Mathlib.Data.List.Pairwise

/-!
# Ordered lists

In a list that is ordered, any two members are in order, and a property that holds up to some bound
holds of an initial part, so `takeWhile` and `dropWhile` find all that have it and all that do not.
-/

namespace Sysio

open List

/-- In a list in which `p` holds up to some place, `takeWhile` and `dropWhile` sort by `p`. -/
lemma mem_takeWhile_dropWhile {α : Type*} {p : α → Bool} {l : List α}
    (h : l.Pairwise fun a b => p b = true → p a = true) (x : α) :
    (x ∈ l.takeWhile p ↔ x ∈ l ∧ p x = true) ∧ (x ∈ l.dropWhile p ↔ x ∈ l ∧ ¬ p x = true) := by
  induction l with
  | nil => simp
  | cons a l ih =>
    obtain ⟨ha, hl⟩ := pairwise_cons.mp h
    obtain ⟨htake, hdrop⟩ := ih hl
    by_cases hpa : p a = true
    · rw [takeWhile_cons_of_pos hpa, dropWhile_cons_of_pos hpa, mem_cons, mem_cons, htake, hdrop]
      constructor
      · exact ⟨fun h => h.elim (fun h => ⟨.inl h, h ▸ hpa⟩) fun h => ⟨.inr h.1, h.2⟩,
          fun h => h.1.elim .inl fun hx => .inr ⟨hx, h.2⟩⟩
      · exact ⟨fun h => ⟨.inr h.1, h.2⟩,
          fun h => h.1.elim (fun hx => absurd (hx ▸ hpa) h.2) fun hx => ⟨hx, h.2⟩⟩
    · -- from here on `p` fails
      have hnot : ∀ y ∈ a :: l, ¬ p y = true :=
        forall_mem_cons.mpr ⟨hpa, fun y hy hpy => hpa (ha y hy hpy)⟩
      rw [takeWhile_cons_of_neg hpa, dropWhile_cons_of_neg hpa]
      constructor
      · simp only [not_mem_nil, false_iff, not_and]
        exact hnot x
      · exact ⟨fun h => ⟨h, hnot x h⟩, fun h => h.1⟩

/-- Two members of an ordered list are in order, one way or the other. -/
lemma eq_or_rel_of_pairwise {α : Type*} {R : α → α → Prop} {l : List α} (h : l.Pairwise R)
    {a b : α} (ha : a ∈ l) (hb : b ∈ l) : a = b ∨ R a b ∨ R b a := by
  have hsymm : Std.Symm fun a b => R a b ∨ R b a := ⟨fun _ _ => Or.symm⟩
  have hboth : l.Pairwise fun a b => R a b ∨ R b a := h.imp .inl
  exact or_iff_not_imp_left.mpr fun hne => hboth.forall ha hb hne

end Sysio
