import Sysio.BlockHeaderState.Confirm
import Sysio.BlockHeaderState.Step

/-!
# Counters as a function of the block number

The counters are a vector that is shifted, cut and re-based in every block.  Read from its end, it
is a function of the block number (`counterOf`), and one accepted header then does three things
(`CounterStep`): it adds the counter of the new block, it decrements the counters of the blocks it
confirms, and it forgets a counter that reaches zero together with all older ones.
-/

namespace Sysio.BlockHeaderState

open List Option

variable {blockNum d j k n x : ℕ} {c c' : UInt8} {r : List UInt8 × Option ℕ}

/-- The counter that `confirmCount` holds for block `x`: the last entry is that of the block
itself. -/
def counterOf (s : BlockHeaderState) (x : ℕ) : Option UInt8 :=
  if x ≤ s.blockNum then s.confirmCount.reverse[s.blockNum - x]? else none

/-- The counters after the one of the new block has been added. -/
def grown (s : BlockHeaderState) : List UInt8 :=
  growConfirmCount s.confirmCount (requiredConfs s.activeSchedule)

/-- **Transition `t` decrements the counter of block `x`**: the block number lies in
`[num - confirmed, num]`, clipped at the tracked window. -/
def Confirms (t : Transition BlockHeaderState HeaderInput) (x : ℕ) : Prop :=
  x ≤ t.post.blockNum ∧ t.post.blockNum ≤ x + t.event.confirmed ∧
    t.post.blockNum < x + t.pre.grown.length

instance (x : ℕ) : DecidablePred (Confirms · x) := fun _ => inferInstanceAs (Decidable (_ ∧ _))

/-! ### Growing -/

lemma length_grown_le (s : BlockHeaderState) : s.grown.length ≤ s.confirmCount.length + 1 := by
  unfold grown growConfirmCount
  split_ifs <;> simp

variable {s : BlockHeaderState}

lemma length_grown_le_max (h : s.confirmCount.length ≤ maximumTrackedDposConfirmations) :
    s.grown.length ≤ maximumTrackedDposConfirmations := by
  unfold grown growConfirmCount
  split_ifs with hlt
  · rwa [length_append, length_singleton]
  · have : 0 < maximumTrackedDposConfirmations := by decide
    simp
    omega

lemma grown_reverse_zero (s : BlockHeaderState) :
    s.grown.reverse[0]? = some (requiredConfs s.activeSchedule) := by
  unfold grown growConfirmCount
  split_ifs <;> simp

lemma grown_reverse_succ
    (h : s.grown.reverse[k + 1]? = some c) : s.confirmCount.reverse[k]? = some c := by
  unfold grown growConfirmCount at h
  split_ifs at h
  · simpa using h
  · rw [reverse_append, reverse_singleton, singleton_append, getElem?_cons_succ] at h
    have hp : (s.confirmCount.drop 1).reverse <+: s.confirmCount.reverse :=
      reverse_prefix.mpr (drop_suffix 1 _)
    obtain ⟨t, ht⟩ := hp
    rw [← ht, getElem?_append_left (List.getElem?_eq_some_iff.mp h).1, h]

/-! ### The loop, read from the end -/

/-- Position `k` from the end of what the loop leaves is position `k` from the end of what it
started with. -/
lemma ConfirmLoopResult.reverse_eq {cc : List UInt8}
    (h : ConfirmLoopResult blockNum cc.length (n + 1) cc r d) (hk : r.1.reverse[k]? = some c') :
    ∃ c, cc.reverse[k]? = some c ∧ c' = (if k ≤ n then c - 1 else c) ∧ (k ≤ n → c ≠ 1) := by
  have hlt : k < r.1.length := by
    simpa using (List.getElem?_eq_some_iff.mp hk).1
  have hlen := h.length_eq
  rw [getElem?_reverse hlt, h.getElem?_eq] at hk
  have hpos : d + (r.1.length - 1 - k) = cc.length - 1 - k := by omega
  rw [hpos, map_eq_some_iff] at hk
  obtain ⟨c, hc, hc'⟩ := hk
  refine ⟨c, by rwa [getElem?_reverse (by omega)], ?_, ?_⟩
  · rw [← hc']
    have : (cc.length - 1 - k < cc.length ∧ cc.length ≤ cc.length - 1 - k + (n + 1)) ↔ k ≤ n := by
      omega
    simp only [this]
  · rintro hkn rfl
    have := h.ne_one (r.1.length - 1 - k) (by omega) (by omega)
    rw [hpos] at this
    exact this hc

/-! ### One header -/

/-- What one accepted header does to the counters and to the proposed irreversible block. -/
structure CounterStep (t : Transition BlockHeaderState HeaderInput) : Prop where
  blockNum_eq : t.post.blockNum = t.pre.blockNum + 1
  length_le : t.post.confirmCount.length ≤ t.pre.grown.length
  /-- A tracked counter is the one before, or that of the new block; decremented if the header
  confirms the block, and then not to zero. -/
  counter : ∀ x c', t.post.counterOf x = some c' → ∃ c,
    ((x = t.post.blockNum ∧ c = requiredConfs t.pre.activeSchedule) ∨
      (x ≤ t.pre.blockNum ∧ t.pre.counterOf x = some c)) ∧
    c' = (if Confirms t x then c - 1 else c) ∧ (Confirms t x → c ≠ 1)
  /-- The proposal stays, or it becomes a block whose counter the header brings to zero. -/
  proposal : t.post.dposProposedIrreversibleBlocknum = t.pre.dposProposedIrreversibleBlocknum ∨
    (Confirms t t.post.dposProposedIrreversibleBlocknum ∧
      t.post.dposProposedIrreversibleBlocknum + t.post.confirmCount.length = t.post.blockNum ∧
      ((t.post.dposProposedIrreversibleBlocknum = t.post.blockNum ∧
          requiredConfs t.pre.activeSchedule = 1) ∨
        (t.post.dposProposedIrreversibleBlocknum ≤ t.pre.blockNum ∧
          t.pre.counterOf t.post.dposProposedIrreversibleBlocknum = some 1)))

lemma grown_reverse_cases (hn : n = s.blockNum + 1)
    (hx : x ≤ n) (h : s.grown.reverse[n - x]? = some c) :
    (x = n ∧ c = requiredConfs s.activeSchedule) ∨ (x ≤ s.blockNum ∧ s.counterOf x = some c) := by
  rcases eq_or_lt_of_le hx with rfl | hlt
  · rw [Nat.sub_self, grown_reverse_zero, some.injEq] at h
    exact .inl ⟨rfl, h.symm⟩
  · have hpos : n - x = (s.blockNum - x) + 1 := by omega
    rw [hpos] at h
    refine .inr ⟨by omega, ?_⟩
    rw [counterOf, if_pos (by omega)]
    exact grown_reverse_succ h

section Step

variable {env : HeaderEnv} {s' : BlockHeaderState} {e : HeaderInput}

/-- What a header stores comes from the loop, run on the grown counters. -/
lemma Accepts.exists_loop (h : Accepts env s e s') (hw : s.blockNum + 1 < 2 ^ 32) :
    s'.blockNum = s.blockNum + 1 ∧
      ∃ r d, ConfirmLoopResult (s.blockNum + 1) s.grown.length (e.confirmed + 1) s.grown r d ∧
        s'.confirmCount = r.1 ∧
        s'.dposProposedIrreversibleBlocknum = r.2.getD s.dposProposedIrreversibleBlocknum := by
  obtain ⟨proauth, h⟩ := next_eq_ok h
  obtain ⟨d, hd⟩ := confirmLoop_spec (s.blockNum + 1) s.grown.length (e.confirmed + 1) s.grown
    le_rfl
  refine ⟨(congrArg (·.blockNum) h.common_eq).trans (u32_of_lt hw), _, d, hd, ?_, ?_⟩
  · rw [← u32_of_lt hw]
    exact congrArg (·.confirmCount) h.common_eq
  · rw [← u32_of_lt hw]
    exact congrArg (·.dposProposedIrreversibleBlocknum) h.common_eq

/-- Among the tracked blocks, a header confirms the last ones. -/
lemma confirms_iff (hx : x ≤ s'.blockNum) (htracked : s'.blockNum - x < s.grown.length) :
    Confirms ⟨s, e, s'⟩ x ↔ s'.blockNum - x ≤ e.confirmed := by
  show x ≤ s'.blockNum ∧ s'.blockNum ≤ x + e.confirmed ∧ s'.blockNum < x + s.grown.length ↔ _
  omega

/-- The counter of a tracked block, where `r` is what the loop leaves. -/
lemma ConfirmLoopResult.counter
    (hd : ConfirmLoopResult (s.blockNum + 1) s.grown.length (e.confirmed + 1) s.grown r d)
    (hnum : s'.blockNum = s.blockNum + 1) (hconf : s'.confirmCount = r.1)
    (hc' : s'.counterOf x = some c') : ∃ c,
      ((x = s'.blockNum ∧ c = requiredConfs s.activeSchedule) ∨
        (x ≤ s.blockNum ∧ s.counterOf x = some c)) ∧
      c' = (if Confirms ⟨s, e, s'⟩ x then c - 1 else c) ∧ (Confirms ⟨s, e, s'⟩ x → c ≠ 1) := by
  unfold counterOf at hc'
  split_ifs at hc' with hx
  rw [hconf] at hc'
  obtain ⟨c, hc, hval, hone⟩ := hd.reverse_eq hc'
  have htracked : s'.blockNum - x < s.grown.length := by
    simpa using (List.getElem?_eq_some_iff.mp hc).1
  refine ⟨c, grown_reverse_cases hnum hx hc, ?_, ?_⟩
  · simp only [hval, confirms_iff hx htracked]
  · rwa [confirms_iff hx htracked]

/-- The block that is proposed when the loop stops at position `j`, where the counter is 1. -/
lemma grown_getElem?_cases (hn : n = s.blockNum + 1) (hj : j < s.grown.length)
    (hj1 : s.grown[j]? = some 1) (hlen : s.confirmCount.length ≤ s.blockNum)
    (hx : x = n - (s.grown.length - 1 - j)) : (x = n ∧ requiredConfs s.activeSchedule = 1) ∨
      (x ≤ s.blockNum ∧ s.counterOf x = some 1) := by
  have hgrown := length_grown_le s
  have hget : s.grown.reverse[n - x]? = some 1 := by
    have hback : n - x = s.grown.length - 1 - j := by omega
    rw [hback, getElem?_reverse (by omega)]
    rwa [show s.grown.length - 1 - (s.grown.length - 1 - j) = j by omega]
  rcases grown_reverse_cases hn (by omega) hget with ⟨h1, h2⟩ | h1
  · exact .inl ⟨h1, h2.symm⟩
  · exact .inr h1

/-- **The counters in one step**: as long as the block number does not wrap and the tracked blocks
all have positive numbers. -/
theorem counterStep (h : Accepts env s e s') (hw : s.blockNum + 1 < 2 ^ 32)
    (hlen : s.confirmCount.length ≤ s.blockNum) : CounterStep ⟨s, e, s'⟩ := by
  obtain ⟨hnum, r, d, hd, hconf, hprop⟩ := h.exists_loop hw
  have hgrown := length_grown_le s
  have hlen' : s'.confirmCount.length = s.grown.length - d := by
    rw [hconf, hd.length_eq]
  refine ⟨hnum, by simp [hlen'], fun x c' hc' => hd.counter hnum hconf hc', ?_⟩
  rcases hd.proposal with ⟨-, hnone⟩ | ⟨j, rfl, hj, hjb, hj1, hsome⟩
  · left
    rw [hprop, hnone, getD_none]
  · right
    -- the block of the counter at position `j`
    have hnew : s'.dposProposedIrreversibleBlocknum =
        s'.blockNum - (s.grown.length - 1 - j) := by
      rw [hnum, hprop, hsome, getD_some, u32_of_lt (by omega), subU32_of_le hw (by omega)]
    refine ⟨?_, ?_, grown_getElem?_cases hnum hj hj1 hlen hnew⟩
    · show Confirms ⟨s, e, s'⟩ s'.dposProposedIrreversibleBlocknum
      exact (confirms_iff (by omega) (by omega)).mpr (by omega)
    · show s'.dposProposedIrreversibleBlocknum + s'.confirmCount.length = s'.blockNum
      omega

end Step

end Sysio.BlockHeaderState
