import Mathlib.Algebra.BigOperators.Group.List.Basic
import Mathlib.Algebra.Order.Ring.Nat

/-!
# Weighted tallies with early exit

`tally` goes through a list of items, adds up what a visit of each item gives, and stops as soon as
the total reaches a threshold.  A visit may change a state, so that what an item gives can depend on
the items before it, and it may fail.  The total is kept in a bounded integer; `wrap` is its
overflow.

`tally_sound` bounds the total from above by weights that grow with the state, and `tally_exact`
reads the result as a comparison of the threshold with the sum of all weights: stopping early makes
no difference, because the weights are not negative.  Both ask about the visits that are really made
(`tallySteps`) and about no others.
-/

namespace Sysio

open List

variable {ι σ ε : Type*}

/-- Adds up what the visits give until the threshold is reached. -/
def tally (wrap : ℕ → ℕ) (visit : ι → σ → Except ε (ℕ × σ)) (threshold : ℕ) :
    List ι → ℕ → σ → Except ε (Bool × σ)
  | [], _, st => .ok (false, st)
  | i :: is, total, st =>
    match visit i st with
    | .error e => .error e
    | .ok (w, st') =>
      if threshold ≤ wrap (total + w) then .ok (true, st')
      else tally wrap visit threshold is (wrap (total + w)) st'

/-- The visits of a tally, each with the state it starts from. -/
def tallySteps (wrap : ℕ → ℕ) (visit : ι → σ → Except ε (ℕ × σ)) (threshold : ℕ) :
    List ι → ℕ → σ → List (ι × σ)
  | [], _, _ => []
  | i :: is, total, st =>
    (i, st) ::
      match visit i st with
      | .error _ => []
      | .ok (w, st') =>
        if threshold ≤ wrap (total + w) then []
        else tallySteps wrap visit threshold is (wrap (total + w)) st'

variable {wrap : ℕ → ℕ} {visit : ι → σ → Except ε (ℕ × σ)} {threshold : ℕ} {is : List ι} {st : σ}
  {total : ℕ}

lemma fst_mem_of_mem_tallySteps {x : ι × σ}
    (hx : x ∈ tallySteps wrap visit threshold is total st) : x.1 ∈ is := by
  induction is generalizing total st with
  | nil => cases hx
  | cons i is ih =>
    rw [tallySteps, mem_cons] at hx
    rcases hx with rfl | hx
    · exact mem_cons_self
    · split at hx
      · cases hx
      · split_ifs at hx with hstop
        · cases hx
        · exact mem_cons_of_mem _ (ih hx)

/-- **An invariant of the visits holds before every visit and at the end.** -/
theorem tally_inv {I : σ → Prop} (hI : I st)
    (hvisit : ∀ x ∈ tallySteps wrap visit threshold is total st, ∀ r, visit x.1 x.2 = .ok r →
      I x.2 → I r.2) : (∀ x ∈ tallySteps wrap visit threshold is total st, I x.2) ∧
      ∀ r, tally wrap visit threshold is total st = .ok r → I r.2 := by
  -- on the items, from whatever total and state the earlier ones leave
  induction is generalizing total st with
  | nil =>
    refine ⟨by simp [tallySteps], ?_⟩
    rintro r ⟨⟩
    exact hI
  | cons i is ih =>
    have hi := hvisit (i, st) mem_cons_self
    rw [tallySteps] at hvisit ⊢
    rw [tally]
    cases hv : visit i st with
    | error e => simpa using hI
    | ok p =>
      rw [hv] at hvisit
      have hp : I p.2 := hi p hv hI
      dsimp only at hvisit ⊢
      split_ifs at hvisit ⊢ with hstop
      · refine ⟨by simpa using hI, ?_⟩
        rintro r ⟨⟩
        exact hp
      · obtain ⟨hsteps, hend⟩ := ih hp fun x hx => hvisit x (mem_cons_of_mem _ hx)
        refine ⟨?_, hend⟩
        rintro x (_ | ⟨_, hx⟩)
        · exact hI
        · exact hsteps x hx

/-- **A tally that succeeds has found the weight it needs**, when each visit gives at most the
weight of its item in the state that it leaves, and weights never shrink. -/
theorem tally_sound {V : σ → ι → ℕ} (hwrap : ∀ n, wrap n ≤ n)
    (hvisit : ∀ x ∈ tallySteps wrap visit threshold is total st, ∀ r, visit x.1 x.2 = .ok r →
      r.1 ≤ V r.2 x.1 ∧ ∀ j, V x.2 j ≤ V r.2 j) {r : Bool × σ}
    (h : tally wrap visit threshold is total st = .ok r) :
    (∀ j, V st j ≤ V r.2 j) ∧ (r.1 = true → threshold ≤ total + (is.map (V r.2)).sum) := by
  induction is generalizing total st with
  | nil =>
    cases h
    exact ⟨fun _ => le_rfl, nofun⟩
  | cons i is ih =>
    have hi := hvisit (i, st) mem_cons_self
    rw [tallySteps] at hvisit
    rw [tally] at h
    cases hv : visit i st with
    | error e =>
      rw [hv] at h
      cases h
    | ok p =>
      obtain ⟨hw, hmono⟩ := hi p hv
      have hle := hwrap (total + p.1)
      rw [hv] at h hvisit
      dsimp only at h hvisit hw
      split_ifs at h hvisit with hstop
      · cases h
        refine ⟨hmono, fun _ => ?_⟩
        -- what is left counts as zero, and wrapping only makes the total smaller
        show threshold ≤ total + (V p.2 i + (is.map (V p.2)).sum)
        omega
      · obtain ⟨hgrow, hreach⟩ := ih (fun x hx => hvisit x (mem_cons_of_mem _ hx)) h
        refine ⟨fun j => (hmono j).trans (hgrow j), fun htrue => ?_⟩
        have hsum := hreach htrue
        have hi := hgrow i
        rw [map_cons, sum_cons]
        omega

/-- **A tally compares the threshold with the whole sum**, when each visit gives the weight of its
item and the sum does not overflow. -/
theorem tally_exact {I : σ → Prop} {val : ι → ℕ} {bound : ℕ} (hwrap : ∀ n, n < bound → wrap n = n)
    (hI : I st) (hlt : total < threshold) (hsum : total + (is.map val).sum < bound)
    (hvisit : ∀ x ∈ tallySteps wrap visit threshold is total st, I x.2 →
      ∃ st', visit x.1 x.2 = .ok (val x.1, st') ∧ I st') :
    ∃ r, tally wrap visit threshold is total st = .ok r ∧ I r.2 ∧
      (r.1 = true ↔ threshold ≤ total + (is.map val).sum) := by
  induction is generalizing total st with
  | nil =>
    refine ⟨(false, st), rfl, hI, nofun, fun h => ?_⟩
    rw [map_nil, sum_nil] at h
    omega
  | cons i is ih =>
    obtain ⟨st', hv, hI'⟩ := hvisit (i, st) mem_cons_self hI
    rw [map_cons, sum_cons] at hsum ⊢
    -- no sum on the way is larger than the whole
    have hadd : wrap (total + val i) = total + val i := hwrap _ (by omega)
    rw [tallySteps, hv] at hvisit
    rw [tally, hv]
    dsimp only at hvisit ⊢
    rw [hadd] at hvisit ⊢
    split_ifs at hvisit ⊢ with hstop
    · exact ⟨(true, st'), rfl, hI', fun _ => by omega, fun _ => rfl⟩
    · rw [← Nat.add_assoc]
      exact ih hI' (by omega) (by omega) fun x hx => hvisit x (mem_cons_of_mem _ hx)

/-- A change of the state that every visit commutes with commutes with the tally. -/
lemma tally_map {f : σ → σ}
    (hvisit : ∀ i st, visit i (f st) = (visit i st).map fun r => (r.1, f r.2))
    (is : List ι) (total : ℕ) (st : σ) : tally wrap visit threshold is total (f st) =
      (tally wrap visit threshold is total st).map fun r => (r.1, f r.2) := by
  induction is generalizing total st with
  | nil => rfl
  | cons i is ih =>
    rw [tally, tally, hvisit]
    cases visit i st with
    | error e => rfl
    | ok r =>
      show (if threshold ≤ wrap (total + r.1) then _ else _) = Except.map _ (if _ then _ else _)
      split_ifs with hstop
      · rfl
      · exact ih _ _

end Sysio
