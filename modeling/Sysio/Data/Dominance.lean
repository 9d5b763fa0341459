import Mathlib.Data.List.Chain
import Mathlib.Logic.Relation

/-!
# Dominance in a graph with a root

A point dominates another when every path from the root to the other leads through it.  An edge goes
*forward* unless it leads to a point that dominates the point where it starts.

A depth first search that meets a point which is still open has come there along an edge that does
not go forward, or else the forward edges have a cycle.  Where the forward paths have a bounded
length, only the first is possible.
-/

namespace Sysio.Rooted

open List Relation

variable {α : Type*} {r : α → α → Prop} {root a b : α}

/-- Every path from the root to `b` leads through `a`. -/
def Dominates (r : α → α → Prop) (root a b : α) : Prop :=
  a = b ∨ ¬ ReflTransGen (fun x y => r x y ∧ x ≠ a) root b

/-- There is an edge from `x` to `y`, and `y` does not dominate `x`. -/
def Forward (r : α → α → Prop) (root x y : α) : Prop := r x y ∧ ¬ Dominates r root y x

lemma dominates_root (b : α) : Dominates r root root b := by
  by_cases h : root = b
  · exact .inl h
  · refine .inr fun hpath => ?_
    rcases ReflTransGen.cases_head hpath with heq | ⟨x, hstep, -⟩
    · exact h heq
    · exact hstep.2 rfl

/-- A path shows that a point does not dominate its end, if the point is not on it. -/
lemma not_dominates_of_path {P : α → Prop}
    (hpath : ReflTransGen (fun x y => r x y ∧ P x) root b) (ha : ¬ P a) (hne : a ≠ b) :
    ¬ Dominates r root a b := by
  rintro (heq | hnone)
  · exact hne heq
  · refine hnone (ReflTransGen.mono ?_ root b hpath)
    rintro x y ⟨hedge, hx⟩
    exact ⟨hedge, fun heq => ha (heq ▸ hx)⟩

/-! ### Bounded paths -/

/-- Every path from the point has at most so many points. -/
def DepthAtMost (r : α → α → Prop) : ℕ → α → Prop
  | 0, _ => False
  | n + 1, x => ∀ y, r x y → DepthAtMost r n y

variable {n : ℕ} {x : α}

lemma depthAtMost_of_paths (h : ∀ path, List.IsChain r (x :: path) → (x :: path).length ≤ n) :
    DepthAtMost r n x := by
  induction n generalizing x with
  | zero => exact absurd (h [] (List.IsChain.singleton x)) (by simp)
  | succ n ih =>
    intro y hedge
    apply ih
    intro path hpath
    have hlength := h (y :: path) (isChain_cons_cons.mpr ⟨hedge, hpath⟩)
    exact Nat.le_of_succ_le_succ hlength

lemma DepthAtMost.not_cycle (h : DepthAtMost r n x) : ¬ TransGen r x x := by
  induction n generalizing x with
  | zero => exact h.elim
  | succ n ih =>
    intro hcycle
    obtain ⟨y, hedge, hback⟩ := TransGen.head'_iff.mp hcycle
    -- the same cycle, entered at the next point
    exact ih (h y hedge) (TransGen.tail' hback hedge)

/-- A path along which a rank decreases is no longer than the rank it starts with. -/
lemma length_le_of_rank (rank : α → ℕ) (hrank : ∀ x y, r x y → rank y < rank x) {path : List α}
    (h : List.IsChain r (x :: path)) : (x :: path).length ≤ rank x + 1 := by
  induction path generalizing x with
  | nil => simp
  | cons y path ih =>
    obtain ⟨hedge, hpath⟩ := isChain_cons_cons.mp h
    have hlength := ih hpath
    have hlt := hrank x y hedge
    simp only [length_cons] at hlength ⊢
    omega

end Sysio.Rooted
