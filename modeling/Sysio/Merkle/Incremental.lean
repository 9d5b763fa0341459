import Sysio.IncrementalMerkle
import Sysio.Merkle
import Mathlib.Data.Nat.Bitwise
import Mathlib.Data.List.Induction

/-!
# The incremental tree has the root of the batch

At every level the nodes of the implied tree are the complete ones (`wholePairs`, level by level)
and at most one more.  Between appends the incremental tree keeps the last complete node of each
level on which their number is odd (`actives`), and the root after them.  An append walks up the
levels with the last node, pairs it with itself or with the complete node on its left, which is the
next active one, and leaves the active nodes of the longer list (`collapseChecked_eq`).

`appendChecked` is `append` with the read of an active node made explicit: it never finds that there
are none left.
-/

namespace Sysio

open List Nat Function

variable {depth' fuel k t : ℕ} {c w : UInt64} {δ : Type} (hash : δ → δ → δ)

/-! ### Levels -/

/-- The complete nodes above the given ones. -/
def wholePairs : List δ → List δ
  | d₁ :: d₂ :: ds => hash d₁ d₂ :: wholePairs ds
  | _ => []

lemma pairs_append (r : List δ) : ∀ l : List δ, l.length % 2 = 0 →
    wholePairs hash (l ++ r) = wholePairs hash l ++ wholePairs hash r ∧
      hashPairs hash (l ++ r) = wholePairs hash l ++ hashPairs hash r
  | [], _ => by simp [wholePairs]
  | [_], h => by simp at h
  | d1 :: d2 :: ds, h => by
    rw [length_cons, length_cons] at h
    obtain ⟨hwhole, hpairs⟩ := pairs_append r ds (by omega)
    simp only [cons_append, wholePairs, hashPairs, hwhole, hpairs, and_self]

lemma length_wholePairs : ∀ l : List δ, (wholePairs hash l).length = l.length / 2
  | [] => by simp [wholePairs]
  | [_] => by simp [wholePairs]
  | d1 :: d2 :: ds => by
    rw [wholePairs, length_cons, length_cons, length_cons, length_wholePairs ds]
    omega

/-- The active nodes of the given number of levels, over complete nodes. -/
def actives : ℕ → List δ → List δ
  | 0, _ => []
  | depth + 1, l =>
    (if l.length % 2 = 1 then l.getLast?.toList else []) ++ actives depth (wholePairs hash l)

variable {hash} {depth : ℕ} {l : List δ}

lemma actives_of_even (h : l.length % 2 = 0) :
    actives hash (depth + 1) l = actives hash depth (wholePairs hash l) := by
  rw [actives, if_neg (by omega), nil_append]

lemma actives_of_odd {d : δ} (h : l.length % 2 = 0) :
    actives hash (depth + 1) (l ++ [d]) = d :: actives hash depth (wholePairs hash l) := by
  rw [actives, if_pos (by simp; omega), (pairs_append hash _ l h).1]
  simp [wholePairs]

/-- Levels without complete nodes have no active ones. -/
lemma actives_of_lt (hle : depth ≤ depth')
    (h : l.length < 2 ^ depth) : actives hash depth' l = actives hash depth l := by
  induction depth generalizing depth' l with
  | zero =>
    obtain rfl : l = [] := by simpa using h
    clear hle
    induction depth' with
    | zero => rfl
    | succ depth' ih => simpa [actives, wholePairs] using ih
  | succ depth ih =>
    obtain ⟨depth', rfl⟩ := Nat.exists_eq_add_of_le' (Nat.one_le_of_lt hle)
    have hlen := length_wholePairs hash l
    rw [actives, actives, ih (le_of_succ_le_succ hle) (by rw [pow_succ] at h; omega)]

/-- Over a full tree, the root is an active node. -/
lemma actives_of_eq (h : l.length = 2 ^ depth) :
    actives hash (depth + 1) l = actives hash depth l ++ (hashPairs hash)^[depth] l := by
  induction depth generalizing l with
  | zero =>
    obtain ⟨d, rfl⟩ := length_eq_one_iff.mp h
    rfl
  | succ depth ih =>
    rw [pow_succ] at h
    have heven : l.length % 2 = 0 := by omega
    have hpairs := (pairs_append hash [] l heven).2
    have hlen := length_wholePairs hash l
    rw [append_nil, hashPairs, append_nil] at hpairs
    rw [actives_of_even heven, actives_of_even heven, ih (by omega), iterate_succ_apply,
      hpairs]

/-! ### Appending -/

namespace IncrementalMerkle

/-- `collapse`, without a result if it reads past the end of the active nodes. -/
def collapseChecked (hash : δ → δ → δ) :
    ℕ → UInt64 → Bool → δ → List δ → List δ → Option (List δ)
  | 0, _, _, top, _, updated => some (updated ++ [top])
  | currentDepth + 1, index, implied, top, active, updated =>
    if index &&& 1 = 0 then
      collapseChecked hash currentDepth (index >>> 1) true (hash top top) active
        (if implied then updated else updated ++ [top])
    else
      active.head?.bind fun left =>
        collapseChecked hash currentDepth (index >>> 1) implied (hash left top) active.tail
          (if implied then updated ++ [left] else updated)

def appendChecked (hash : δ → δ → δ) (m : IncrementalMerkle δ) (digest : δ) :
    Option (IncrementalMerkle δ) :=
  (collapseChecked hash (calcluateMaxDepth (m.nodeCount + 1) - 1) m.nodeCount false digest
    m.activeNodes []).map (⟨m.nodeCount + 1, ·⟩)

variable {index : UInt64} {implied : Bool} {top : δ} {active updated r : List δ}

lemma collapse_of_checked
    (h : collapseChecked hash depth index implied top active updated = some r) :
    collapse hash depth index implied top active updated = r := by
  induction depth generalizing index implied top active updated with
  | zero => exact Option.some.inj h
  | succ depth ih =>
    rw [collapseChecked] at h
    rw [collapse]
    by_cases heven : index &&& 1 = 0
    · rw [if_pos heven] at h ⊢
      exact ih h
    · rw [if_neg heven] at h ⊢
      cases active with
      | nil => cases h
      | cons => exact ih h

/-- **The walk up the levels**, from the complete nodes `l` of one level and the node `top` after
them, which is complete itself unless it is implied. -/
theorem collapseChecked_eq (hindex : index.toNat = l.length) (rest : List δ) :
    collapseChecked hash depth index implied top (actives hash depth l ++ rest) updated =
      some (updated ++ actives hash depth (if implied then l else l ++ [top]) ++
        ((hashPairs hash)^[depth] (l ++ [top])).getLast?.toList) := by
  induction depth generalizing index implied top l updated with
  | zero => simp [collapseChecked, actives]
  | succ depth ih =>
    have hbit : index &&& 1 = 0 ↔ l.length % 2 = 0 := by
      rw [← UInt64.toNat_inj, UInt64.toNat_and, hindex]
      simp [and_one_is_mod]
    have hshift : (index >>> 1).toNat = l.length / 2 := by
      simp [UInt64.toNat_shiftRight, hindex, shiftRight_one]
    rw [collapseChecked, Function.iterate_succ_apply]
    by_cases heven : l.length % 2 = 0
    · -- the node is paired with itself, and is active if it is complete
      rw [if_pos (hbit.mpr heven), actives_of_even heven,
        ih (hshift.trans (length_wholePairs hash l).symm), if_pos rfl,
        (pairs_append hash _ l heven).2]
      cases implied with
      | true => simp [actives_of_even heven, hashPairs]
      | false => simp [actives_of_odd heven, hashPairs]
    · -- the node is paired with the active one on its left
      obtain ⟨m, left, rfl⟩ := (eq_nil_or_concat l).resolve_left (by rintro rfl; simp at heven)
      rw [concat_eq_append] at *
      have hm : m.length % 2 = 0 := by
        rw [length_append, length_singleton] at heven
        omega
      have hlen : (index >>> 1).toNat = (wholePairs hash m).length := by
        rw [hshift, length_wholePairs, length_append, length_singleton]
        omega
      rw [if_neg (mt hbit.mp heven), actives_of_odd hm, cons_append, head?_cons, Option.bind_some,
        tail_cons, ih hlen, append_assoc m [left] [top], singleton_append,
        (pairs_append hash _ m hm).2]
      cases implied with
      | true => simp [actives_of_odd hm, hashPairs]
      | false =>
        have htwo : (m ++ [left, top]).length % 2 = 0 := by simp; omega
        simp [actives_of_even htwo, (pairs_append hash _ m hm).1, wholePairs, hashPairs]

/-! ### The depth -/

/-- The bits from `k` down, as many as there are of `t`, are set, and none above. -/
def Smeared (k t : ℕ) (w : UInt64) : Prop :=
  w.toNat < 2 ^ (k + 1) ∧ ∀ i ≤ k, k < i + t → w.toNat.testBit i = true

/-- One step of the smearing of the highest bit: twice as many bits are set. -/
lemma Smeared.or_shiftRight (h : Smeared k t w) (s : UInt64)
    (hs : s.toNat % 64 = t) : Smeared k (t + t) (w ||| w >>> s) := by
  obtain ⟨hlt, hbits⟩ := h
  have hor : (w ||| w >>> s).toNat = w.toNat ||| w.toNat >>> t := by
    rw [UInt64.toNat_or, UInt64.toNat_shiftRight, hs]
  rw [Smeared, hor]
  refine ⟨or_lt_two_pow hlt ((shiftRight_le _ t).trans_lt hlt), fun i hi hk => ?_⟩
  rw [testBit_or, testBit_shiftRight, Bool.or_eq_true]
  rcases lt_or_ge k (i + t) with hlow | hhigh
  · exact .inl (hbits i hi hlow)
  · exact .inr (hbits _ (by omega) (by omega))

lemma Smeared.toNat_eq (h : Smeared k t w) (hk : k < t) :
    w.toNat = 2 ^ (k + 1) - 1 := by
  refine eq_of_testBit_eq fun i => ?_
  rw [testBit_two_pow_sub_one]
  rcases lt_or_ge i (k + 1) with hi | hi
  · rw [h.2 i (by omega) (by omega), decide_eq_true hi]
  · rw [Nat.testBit_lt_two_pow (h.1.trans_le (Nat.pow_le_pow_right (by decide) hi)),
      decide_eq_false (by omega)]

lemma nextPowerOf2_eq (hk : k < 63) (hle : 2 ^ k ≤ c.toNat)
    (hlt : c.toNat < 2 ^ (k + 1)) : nextPowerOf2 (c + 1) = UInt64.ofNat (2 ^ (k + 1)) := by
  have hone : c.toNat / 2 ^ k = 1 :=
    Nat.div_eq_of_lt_le (by omega) (by rw [pow_succ] at hlt; omega)
  have h1 : Smeared k 1 c := by
    refine ⟨hlt, fun i hi hki => ?_⟩
    rw [show i = k by omega, testBit_eq_decide_div_mod_eq, hone]
    rfl
  have h8 := ((h1.or_shiftRight 1 rfl).or_shiftRight 2 rfl).or_shiftRight 4 rfl
  have hsmeared := (((h8.or_shiftRight 8 rfl).or_shiftRight 16 rfl).or_shiftRight 32 rfl).toNat_eq
    (by omega)
  have hpow : 2 ^ (k + 1) ≤ 2 ^ 63 := Nat.pow_le_pow_right (by decide) (by omega)
  have hpos : 0 < 2 ^ (k + 1) := Nat.two_pow_pos _
  rw [← UInt64.toNat_inj, nextPowerOf2, UInt64.add_sub_cancel]
  rw [UInt64.toNat_add, hsmeared, UInt64.toNat_ofNat_of_lt' (show 2 ^ (k + 1) < 2 ^ 64 by omega)]
  show (2 ^ (k + 1) - 1 + 1) % 2 ^ 64 = _
  omega

/-- As many levels as it takes to hold one more node. -/
lemma depth_spec (h : c.toNat < 2 ^ 63) :
    c.toNat + 1 ≤ 2 ^ (calcluateMaxDepth (c + 1) - 1) ∧
      2 ^ (calcluateMaxDepth (c + 1) - 1) < 2 * (c.toNat + 1) := by
  have hne : c + 1 ≠ 0 := by
    intro h0
    have := congrArg UInt64.toNat h0
    rw [UInt64.toNat_add, mod_eq_of_lt] at this
    · cases this
    · show c.toNat + 1 < 2 ^ 64
      omega
  rw [calcluateMaxDepth, if_neg hne, Nat.add_sub_cancel]
  rcases Nat.eq_zero_or_pos c.toNat with hzero | hpos
  · obtain rfl : c = 0 := UInt64.toNat_inj.mp hzero
    decide
  · have hle := log2_self_le hpos.ne'
    have hlt := lt_log2_self (n := c.toNat)
    have hk : c.toNat.log2 < 63 := (log2_lt hpos.ne').mpr h
    have hclz : ∀ k < 63, clzPower2 (UInt64.ofNat (2 ^ (k + 1))) = k + 1 := by decide
    rw [nextPowerOf2_eq hk hle hlt, hclz _ hk]
    rw [pow_succ] at *
    omega

/-! ### Roots -/

/-- The rounds of `merkle`, if their number is the depth. -/
lemma merkleLoop_eq (hash : δ → δ → δ) (hle : l.length ≤ 2 ^ depth)
    (hlt : 2 ^ depth < 2 * l.length) (hfuel : depth ≤ fuel) :
    merkleLoop hash fuel l = (hashPairs hash)^[depth] l := by
  induction depth generalizing fuel l with
  | zero =>
    cases fuel with
    | zero => rfl
    | succ fuel =>
      rw [merkleLoop, if_neg (by omega)]
      rfl
  | succ depth ih =>
    obtain ⟨fuel, rfl⟩ := Nat.exists_eq_add_of_le' (Nat.one_le_of_lt hfuel)
    have hlen := length_hashPairs hash l
    rw [pow_succ] at hle hlt
    have hpos := Nat.two_pow_pos depth
    rw [merkleLoop, if_pos (by omega), iterate_succ_apply]
    exact ih (by omega) (by omega) (by omega)

/-- What the incremental tree holds after digests. -/
structure Holds (hash : δ → δ → δ) (zero : δ) (ids : List δ) (m : IncrementalMerkle δ) : Prop where
  count : m.nodeCount.toNat = ids.length
  active : ∀ d, ids.length < 2 ^ d → ∃ rest, m.activeNodes = actives hash d ids ++ rest
  root : m.getRoot zero = merkle hash zero ids

lemma Holds.append {zero : δ} {ids : List δ} {m : IncrementalMerkle δ} (h : Holds hash zero ids m)
    (hlen : ids.length < 2 ^ 63) (digest : δ) :
    ∃ m', m.appendChecked hash digest = some m' ∧ m' = m.append hash digest ∧
      Holds hash zero (ids ++ [digest]) m' := by
  obtain ⟨hle, hlt⟩ := depth_spec (h.count ▸ hlen)
  rw [h.count] at hle hlt
  obtain ⟨rest, hactive⟩ := h.active _ hle
  unfold appendChecked IncrementalMerkle.append
  generalize calcluateMaxDepth (m.nodeCount + 1) - 1 = depth at *
  have hlength : (ids ++ [digest]).length = ids.length + 1 := by simp
  rw [← hlength] at hle hlt
  have hfuel : depth ≤ (ids ++ [digest]).length := by
    cases depth with
    | zero => exact zero_le _
    | succ depth =>
      have := Nat.lt_two_pow_self (n := depth)
      rw [pow_succ] at hlt
      omega
  have hloop := merkleLoop_eq hash hle hlt hfuel
  have hone : (merkleLoop hash (ids ++ [digest]).length (ids ++ [digest])).length = 1 :=
    length_merkleLoop hash (by simp) (le_succ _)
  obtain ⟨root, hroot⟩ := length_eq_one_iff.mp (hloop ▸ hone)
  have hchecked : collapseChecked hash depth m.nodeCount false digest m.activeNodes [] =
      some (actives hash depth (ids ++ [digest]) ++ [root]) := by
    rw [hactive, collapseChecked_eq h.count, hroot]
    rfl
  refine ⟨_, by rw [hchecked]; rfl, by rw [collapse_of_checked hchecked], ?_, fun d hd => ?_, ?_⟩
  · rw [UInt64.toNat_add, h.count, hlength]
    exact mod_eq_of_lt (show ids.length + 1 < 2 ^ 64 by omega)
  · rcases hle.lt_or_eq with hless | hfull
    · refine ⟨[root], congrArg (· ++ [root]) ?_⟩
      rcases le_total d depth with hd' | hd'
      · exact actives_of_lt hd' hd
      · exact (actives_of_lt hd' hless).symm
    · have hd' : depth + 1 ≤ d := (Nat.pow_lt_pow_iff_right (by decide)).mp (hfull ▸ hd)
      have hless : (ids ++ [digest]).length < 2 ^ (depth + 1) := by
        rw [hfull]
        exact Nat.pow_lt_pow_right (by decide) depth.lt_succ_self
      refine ⟨[], ?_⟩
      rw [append_nil, actives_of_lt hd' hless, actives_of_eq hfull, hroot]
  · have hpos : m.nodeCount + 1 > 0 := by
      rw [gt_iff_lt, UInt64.lt_iff_toNat_lt, UInt64.toNat_add, h.count]
      show 0 < (ids.length + 1) % 2 ^ 64
      omega
    rw [getRoot, if_pos hpos, merkle, hloop, hroot]
    simp

/-- **The incremental tree has the root of the batch** after every append, and no append reads past
the end of the active nodes. -/
theorem getRoot_eq_merkle (hash : δ → δ → δ) (zero : δ) (ids : List δ) (h : ids.length < 2 ^ 63) :
    ∀ l, l <+: ids → ∃ m, l.foldlM (appendChecked hash) empty = some m ∧
      m = l.foldl (append hash) empty ∧ m.getRoot zero = merkle hash zero l := by
  suffices hholds : ∀ l : List δ, l.length < 2 ^ 63 → ∃ m, l.foldlM (appendChecked hash) empty =
      some m ∧ m = l.foldl (append hash) empty ∧ Holds hash zero l m by
    intro l hl
    obtain ⟨m, hm, heq, hm'⟩ := hholds l (hl.length_le.trans_lt h)
    exact ⟨m, hm, heq, hm'.root⟩
  intro l
  induction l using List.reverseRecOn with
  | nil =>
    refine fun _ => ⟨empty, rfl, rfl, rfl, fun d _ => ⟨[], ?_⟩, rfl⟩
    rw [actives_of_lt (zero_le d) (by simp)]
    rfl
  | append_singleton l d ih =>
    intro hlen
    rw [length_append, length_singleton] at hlen
    obtain ⟨m, hm, rfl, hholds⟩ := ih (by omega)
    obtain ⟨m', hm', heq, hholds'⟩ := hholds.append (by omega) d
    refine ⟨m', ?_, by rw [foldl_append, heq]; rfl, hholds'⟩
    rw [foldlM_append, hm]
    simpa using hm'

theorem getRoot_eq_merkle_three :
    ∃ m, [1, 2, 3].foldlM (appendChecked fun a b => 10 * a + b) empty = some m ∧
      m.getRoot 0 = 153 := by
  obtain ⟨m, hm, -, hroot⟩ := getRoot_eq_merkle (fun a b => 10 * a + b) 0 [1, 2, 3] (by decide)
    [1, 2, 3] (prefix_refl _)
  exact ⟨m, hm, hroot⟩

end IncrementalMerkle

end Sysio
