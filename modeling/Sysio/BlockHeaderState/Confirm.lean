import Sysio.BlockHeaderState.Basic
import Mathlib.Data.List.GetD

/-!
# The confirmation loop

`confirmLoop_spec` says what the loop over the confirmation counters leaves: it decrements the
counters of the newest blocks, and if one of them reaches zero it drops that counter and every
older one.  Both outcomes have the same shape, with `d` the number of counters dropped from the
front (`ConfirmLoopResult`), so that later proofs need no case distinction on whether the loop ran
to its end.
-/

namespace Sysio.BlockHeaderState

open List

variable {c : UInt8} {b d : ℕ}

/-! ### Decrementing a counter -/

lemma sub_one_eq_zero_iff : c - 1 = 0 ↔ c = 1 := by
  rw [← UInt8.toNat_inj, ← UInt8.toNat_inj]
  have := c.toNat_lt
  rw [UInt8.toNat_sub]
  simp
  omega

/-- A counter that is not zero is decremented without wrapping. -/
lemma toNat_sub_one (h : c ≠ 0) : (c - 1).toNat + 1 = c.toNat := by
  have hc : c.toNat ≠ 0 := fun h0 => h (UInt8.toNat_inj.mp (by simpa using h0))
  have := c.toNat_lt
  rw [UInt8.toNat_sub]
  simp
  omega

lemma getElem?_modify_sub_one (cc : List UInt8) (i j : ℕ) :
    (cc.modify i (· - 1))[j]? = (cc[j]?).map fun c => if j = i then c - 1 else c := by
  rw [getElem?_modify]
  rcases eq_or_ne i j with rfl | h
  · simp
  · cases cc[j]? <;> simp [h, h.symm]

/-! ### What the loop leaves -/

/-- The outcome `r` of the loop on the counters `cc`, run over the positions below `i` for at most
`b` rounds: `d` counters are dropped from the front, and position `d + k` moves to `k`,
decremented if the loop passed over it. -/
structure ConfirmLoopResult (blockNum i b : ℕ) (cc : List UInt8) (r : List UInt8 × Option ℕ)
    (d : ℕ) : Prop where
  length_eq : r.1.length = cc.length - d
  getElem?_eq : ∀ k, r.1[k]? = (cc[d + k]?).map fun c =>
    if d + k < i ∧ i ≤ d + k + b then c - 1 else c
  /-- No counter that is kept reached zero. -/
  ne_one : ∀ k, d + k < i → i ≤ d + k + b → cc[d + k]? ≠ some 1
  /-- Nothing was dropped, or the last counter dropped was at one and it is the new proposal. -/
  proposal : (d = 0 ∧ r.2 = none) ∨ ∃ j, d = j + 1 ∧ j < i ∧ i ≤ j + b ∧ cc[j]? = some 1 ∧
      r.2 = some (subU32 blockNum (u32 (cc.length - 1 - j)))

variable {blockNum i : ℕ} {cc : List UInt8}

lemma ConfirmLoopResult.of_done (hib : i = 0 ∨ b = 0) :
    ConfirmLoopResult blockNum i b cc (cc, none) 0 where
  length_eq := by simp
  getElem?_eq := by
    intro k
    have hno : ¬(k < i ∧ i ≤ k + b) := by omega
    simp only [Nat.zero_add, if_neg hno, Option.map_id']
  ne_one := by
    intro k h1 h2
    omega
  proposal := .inl ⟨rfl, rfl⟩

lemma ConfirmLoopResult.of_zero (h1 : cc[i]? = some 1) :
    ConfirmLoopResult blockNum (i + 1) (b + 1) cc
      (cc.drop (i + 1), some (subU32 blockNum (u32 (cc.length - 1 - i)))) (i + 1) where
  length_eq := by simp
  getElem?_eq := by
    intro k
    have hno : ¬(i + 1 + k < i + 1 ∧ i + 1 ≤ i + 1 + k + (b + 1)) := by omega
    simp only [if_neg hno, getElem?_drop, Option.map_id']
  ne_one := by
    intro k h₁ h2
    omega
  proposal := .inr ⟨i, rfl, by omega, by omega, h1, rfl⟩

/-- The rounds after one that decremented counter `i` and left it positive. -/
lemma ConfirmLoopResult.of_round {r : List UInt8 × Option ℕ} (h1 : cc[i]? ≠ some 1)
    (h : ConfirmLoopResult blockNum i b (cc.modify i (· - 1)) r d) :
    ConfirmLoopResult blockNum (i + 1) (b + 1) cc r d where
  length_eq := by simpa using h.length_eq
  getElem?_eq := by
    intro k
    rw [h.getElem?_eq, getElem?_modify_sub_one, Option.map_map]
    congr 1
    funext c
    -- a later round drops positions below `i` only
    have hd : d ≤ i := by
      rcases h.proposal with ⟨rfl, -⟩ | ⟨j, rfl, hj, -⟩ <;> omega
    by_cases hk : d + k = i
    · -- the position of this round: decremented here, and not by a later round
      simp [hk, show i ≤ i + b by omega]
    · have : (d + k < i ∧ i ≤ d + k + b) ↔ (d + k < i + 1 ∧ i + 1 ≤ d + k + (b + 1)) := by omega
      simp [hk, this]
  ne_one := by
    intro k h₁ h2
    by_cases hk : d + k = i
    · rwa [hk]
    · have := h.ne_one k (by omega) (by omega)
      rw [getElem?_modify_sub_one] at this
      simpa [hk] using this
  proposal := by
    rcases h.proposal with ⟨hd, hr⟩ | ⟨j, hd, hj, hb, hone, hr⟩
    · exact .inl ⟨hd, hr⟩
    · refine .inr ⟨j, hd, by omega, by omega, ?_, by simpa using hr⟩
      rw [getElem?_modify_sub_one] at hone
      simpa [show j ≠ i by omega] using hone

lemma getElem?_modify_eq_zero_iff : (cc.modify i (· - 1))[i]? = some 0 ↔ cc[i]? = some 1 := by
  rw [getElem?_modify_sub_one]
  cases cc[i]? with
  | none => simp
  | some c => simpa using sub_one_eq_zero_iff

lemma drop_modify_succ (cc : List UInt8) (i : ℕ) :
    (cc.modify i (· - 1)).drop (i + 1) = cc.drop (i + 1) := by
  apply ext_getElem?
  intro k
  rw [getElem?_drop, getElem?_modify_sub_one, getElem?_drop]
  cases cc[i + 1 + k]? <;> simp [show i + 1 + k ≠ i by omega]

/-- **What the confirmation loop does.** -/
theorem confirmLoop_spec (blockNum : ℕ) : ∀ (i b : ℕ) (cc : List UInt8), i ≤ cc.length →
    ∃ d, ConfirmLoopResult blockNum i b cc (confirmLoop blockNum i b cc) d := by
  intro i
  -- the position goes down in each round, the counters change with it
  induction i with
  | zero =>
    intro b cc _
    exact ⟨0, by rw [confirmLoop]; exact .of_done (.inl rfl)⟩
  | succ i ih =>
    intro b cc hi
    cases b with
    | zero => exact ⟨0, by rw [confirmLoop]; exact .of_done (.inr rfl)⟩
    | succ b =>
      rw [confirmLoop]
      by_cases h1 : cc[i]? = some 1
      · refine ⟨i + 1, ?_⟩
        rw [if_pos (getElem?_modify_eq_zero_iff.mpr h1), drop_modify_succ, length_modify]
        -- the newest counter and the others are dropped by different calls, to the same effect
        have hsame : (if i = cc.length - 1 then
            (([] : List UInt8), some (subU32 blockNum (u32 (cc.length - 1 - i))))
            else (cc.drop (i + 1), some (subU32 blockNum (u32 (cc.length - 1 - i))))) =
            (cc.drop (i + 1), some (subU32 blockNum (u32 (cc.length - 1 - i)))) := by
          split_ifs with hl
          · rw [drop_eq_nil_of_le (by omega)]
          · rfl
        rw [hsame]
        exact .of_zero h1
      · rw [if_neg (mt getElem?_modify_eq_zero_iff.mp h1)]
        obtain ⟨d, hd⟩ := ih b (cc.modify i (· - 1)) (by simp; omega)
        exact ⟨d, .of_round h1 hd⟩

end Sysio.BlockHeaderState
