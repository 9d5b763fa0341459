import Sysio.Errors
import Sysio.Roa.Conservation

/-!
# The arithmetic of `reducepolicy`

The native handler multiplies and divides by the price of a policy, which no action checks, and
subtracts from the limits of the account, where -1 stands for no limit.  `Result.InRange` says that
a call neither divides by zero nor leaves 64 bits.

Why the operands fit: the RAM of a policy is part of `ram_bytes` in the row of its owner, which the
ledger says (`Conserved`), and the limits of an account lag behind its row by at most what fits,
since whoever grants sets the limit from the row, and a reduction takes the same from both
(`Bounded`).  A price of 0 makes the handler divide by zero (`exists_remainder_by_zero`).
-/

namespace Sysio

/-- The call does not fail by a division by zero or by leaving the range of a type. -/
abbrev Result.InRange {α : Type} (x : Result α) : Prop :=
  x.Avoids [.undefinedBehavior, .outOfRange]

namespace Roa

open Result Table

variable {row row' : ResLimit} {a b cpuWeight netWeight r reclaimed : Asset} {cpu net ramBytes : ℤ}
  {amount divisible n personalRamBytes roaRamBytes sysioRamBytes totalAmount : ℤ}
  {netCpuWeight totalSys : Asset} {p : Policy} {w0 : World} {tier timeBlock : ℕ}

lemma inRange_i64 (h : -2 ^ 63 ≤ n ∧ n < 2 ^ 63) : InRange (i64 n) := by
  rw [i64, if_pos h]
  exact avoids_ok n

/-! ### Assets -/

namespace Asset

/-- The amount is one that the chain reads from bytes. -/
def Small (a : Asset) : Prop := -(2 ^ 62 - 1) ≤ a.amount ∧ a.amount ≤ 2 ^ 62 - 1

lemma inRange_reflectorInit (a : Asset) : InRange a.reflectorInit := by
  unfold reflectorInit
  iterate 2 refine avoids_sysAssert_bind fun _ => ?_
  exact avoids_sysAssert fun _ => by decide

lemma small_of_reflectorInit {u : Unit} (h : a.reflectorInit = .ok u) : a.Small := by
  simp only [reflectorInit, bind_eq_ok, sysAssert_eq_ok] at h
  obtain ⟨-, -, -, -, h⟩ := h
  exact h

lemma inRange_make (amount : ℤ) (symbol : Symbol) : InRange (make amount symbol) := by
  unfold make
  iterate 2 refine avoids_sysAssert_bind fun _ => ?_
  exact avoids_ok _

lemma small_of_make {symbol : Symbol} (h : make amount symbol = .ok r) : r.Small := by
  simp only [make, bind_eq_ok, sysAssert_eq_ok, pure_eq_ok] at h
  obtain ⟨-, hsmall, -, -, rfl⟩ := h
  exact hsmall

lemma inRange_chainAdd (ha : a.Small) (hb : b.Small) : InRange (a.chainAdd b) := by
  unfold Small at ha hb
  unfold chainAdd
  refine avoids_sysAssert_bind fun _ => ?_
  exact (inRange_i64 (by omega)).bind fun _ _ => inRange_make _ _

lemma small_of_chainAdd (h : a.chainAdd b = .ok r) : r.Small := by
  simp only [chainAdd, bind_eq_ok] at h
  obtain ⟨-, -, _, -, h⟩ := h
  exact small_of_make h

lemma inRange_chainSubAssign (ha : a.Small) (hb : b.Small) : InRange (a.chainSubAssign b) := by
  unfold Small at ha hb
  unfold chainSubAssign
  refine avoids_sysAssert_bind fun _ => ?_
  exact (inRange_i64 (by omega)).bind fun _ _ => avoids_ok _

end Asset

/-! ### The rows -/

lemma NodeOwner.inRange_unpack (row : NodeOwner) : InRange row.unpack := by
  iterate 3 refine (Asset.inRange_reflectorInit _).bind fun _ _ => ?_
  exact (Asset.inRange_reflectorInit _).bind fun _ _ => avoids_ok _

lemma Policy.inRange_unpack (row : Policy) : InRange row.unpack := by
  iterate 2 refine (Asset.inRange_reflectorInit _).bind fun _ _ => ?_
  exact (Asset.inRange_reflectorInit _).bind fun _ _ => avoids_ok _

lemma ResLimit.inRange_unpack (row : ResLimit) : InRange row.unpack := by
  refine (Asset.inRange_reflectorInit _).bind fun _ _ => ?_
  exact (Asset.inRange_reflectorInit _).bind fun _ _ => avoids_ok _

lemma NodeOwner.small_of_unpack {row row' : NodeOwner} (h : row.unpack = .ok row') :
    row.allocatedSys.Small ∧ row.allocatedBw.Small ∧ row.allocatedRam.Small := by
  simp only [NodeOwner.unpack, bind_eq_ok] at h
  obtain ⟨_, -, _, hsys, _, hbw, _, hram, -⟩ := h
  exact ⟨Asset.small_of_reflectorInit hsys, Asset.small_of_reflectorInit hbw,
    Asset.small_of_reflectorInit hram⟩

lemma Policy.small_of_unpack {row row' : Policy} (h : row.unpack = .ok row') :
    row.netWeight.Small ∧ row.cpuWeight.Small ∧ row.ramWeight.Small := by
  simp only [Policy.unpack, bind_eq_ok] at h
  obtain ⟨_, hnet, _, hcpu, _, hram, -⟩ := h
  exact ⟨Asset.small_of_reflectorInit hnet, Asset.small_of_reflectorInit hcpu,
    Asset.small_of_reflectorInit hram⟩

lemma ResLimit.small_of_unpack (h : row.unpack = .ok row') :
    row.netWeight.Small ∧ row.cpuWeight.Small := by
  simp only [ResLimit.unpack, bind_eq_ok] at h
  obtain ⟨_, hnet, _, hcpu, -⟩ := h
  exact ⟨Asset.small_of_reflectorInit hnet, Asset.small_of_reflectorInit hcpu⟩

lemma inRange_checkReduction (policy : Policy) (netWeight cpuWeight ramWeight : Asset) :
    InRange (checkReduction policy netWeight cpuWeight ramWeight) := by
  unfold checkReduction
  iterate 6 refine avoids_sysAssert_bind fun _ => ?_
  exact avoids_sysAssert fun _ => by decide

lemma inRange_reducedRows {node : NodeOwner}
    (hnode : node.allocatedSys.Small ∧ node.allocatedBw.Small ∧ node.allocatedRam.Small)
    (hp : p.netWeight.Small ∧ p.cpuWeight.Small ∧ p.ramWeight.Small)
    (hrow : row.netWeight.Small ∧ row.cpuWeight.Small) (hnet : netWeight.Small)
    (hcpu : cpuWeight.Small) (hreclaimed : reclaimed.Small)
    (hbytes : 0 ≤ row.ramBytes - divisible ∧ row.ramBytes - divisible < 2 ^ 64) :
    InRange (reducedRows node p row netWeight cpuWeight reclaimed divisible) := by
  refine (Asset.inRange_chainSubAssign hrow.1 hnet).bind fun _ _ => ?_
  refine (Asset.inRange_chainSubAssign hrow.2 hcpu).bind fun _ _ => ?_
  rw [u64, if_pos hbytes]
  refine (avoids_ok _).bind fun _ _ => ?_
  refine (Asset.inRange_chainSubAssign hp.1 hnet).bind fun _ _ => ?_
  refine (Asset.inRange_chainSubAssign hp.2.1 hcpu).bind fun _ _ => ?_
  refine (Asset.inRange_chainSubAssign hp.2.2 hreclaimed).bind fun _ _ => ?_
  refine (Asset.inRange_chainAdd hnet hcpu).bind fun bw hbw => ?_
  have hbw := Asset.small_of_chainAdd hbw
  refine (Asset.inRange_chainAdd hbw hreclaimed).bind fun total htotal => ?_
  refine (Asset.inRange_chainSubAssign hnode.1 (Asset.small_of_chainAdd htotal)).bind fun _ _ => ?_
  refine (Asset.inRange_chainSubAssign hnode.2.1 hbw).bind fun _ _ => ?_
  exact (Asset.inRange_chainSubAssign hnode.2.2 hreclaimed).bind fun _ _ => avoids_ok _

/-! ### The RAM that is taken back -/

section Reclaim

variable {ramWeight : Asset} {bytesPerUnit : ℕ} {ramUsage : ℤ}

lemma inRange_reclaimRam (hprice : 0 < bytesPerUnit)
    (hunused : -2 ^ 63 ≤ ramBytes - ramUsage ∧ ramBytes - ramUsage < 2 ^ 63)
    (hproduct : ramWeight.amount * bytesPerUnit < 2 ^ 63) :
    InRange (reclaimRam ramWeight bytesPerUnit ramBytes ramUsage) := by
  unfold reclaimRam
  split_ifs with hpos
  · have hnonneg : 0 ≤ ramWeight.amount * (bytesPerUnit : ℤ) :=
      mul_nonneg hpos.le (Int.natCast_nonneg _)
    refine (inRange_i64 hunused).bind fun _ _ => ?_
    refine (inRange_i64 (by omega)).bind fun _ _ => ?_
    refine avoids_sysAssert_bind fun _ => ?_
    refine (avoids_sysAssert fun h => absurd (by omega) h).bind fun _ _ => ?_
    refine (Asset.inRange_make _ _).bind fun _ _ => ?_
    exact avoids_sysAssert_bind fun _ => avoids_ok _
  · exact avoids_ok _

/-- What is taken back was not in use, and no more than asked for. -/
lemma reclaimRam_le
    (h : reclaimRam ramWeight bytesPerUnit ramBytes ramUsage = .ok (divisible, reclaimed)) :
    0 ≤ divisible ∧ (divisible ≠ 0 → ramUsage ≤ ramBytes - divisible ∧
      divisible ≤ ramWeight.amount * bytesPerUnit) ∧ reclaimed.Small := by
  unfold reclaimRam at h
  split_ifs at h with hpos
  · simp only [bind_eq_ok, i64_eq_ok, sysAssert_eq_ok, pure_eq_ok, Prod.mk.injEq] at h
    obtain ⟨_, ⟨-, rfl⟩, _, ⟨-, rfl⟩, -, hreclaim, -, hprice, asset, hmake, -, -, rfl, rfl⟩ := h
    have hunused := min_le_left (ramBytes - ramUsage) (ramWeight.amount * (bytesPerUnit : ℤ))
    have hrequest := min_le_right (ramBytes - ramUsage) (ramWeight.amount * (bytesPerUnit : ℤ))
    generalize min (ramBytes - ramUsage) (ramWeight.amount * (bytesPerUnit : ℤ)) = n at *
    have hle : 0 ≤ n.tmod bytesPerUnit := Int.tmod_nonneg _ hreclaim
    obtain ⟨hunits, hnonneg⟩ := tdiv_sub_tmod (Nat.pos_of_ne_zero hprice) hreclaim
    have hdivisible : 0 ≤ n - n.tmod bytesPerUnit := by
      rw [hunits]
      exact mul_nonneg hnonneg (Int.natCast_nonneg _)
    exact ⟨hdivisible, fun _ => ⟨by omega, by omega⟩, Asset.small_of_make hmake⟩
  · cases h
    refine ⟨le_rfl, fun h => absurd rfl h, ?_, ?_⟩ <;> norm_num

end Reclaim

/-! ### The limits of accounts -/

/-- Values that `set_resource_limits` admits. -/
def AccountLimits.Admitted (l : AccountLimits) : Prop :=
  (-1 ≤ l.ramBytes ∧ l.ramBytes < 2 ^ 63) ∧ (-1 ≤ l.netWeight ∧ l.netWeight < 2 ^ 63) ∧
    (-1 ≤ l.cpuWeight ∧ l.cpuWeight < 2 ^ 63)

/-- A limit fits 64 bits, and so does what it is after its row is reduced to nothing. -/
def Lag (limit row : ℤ) : Prop := limit < 2 ^ 63 ∧ -2 ^ 63 ≤ limit - row

/-- The limits of all accounts fit, also after reductions. -/
structure Bounded (w : World) : Prop where
  usage : ∀ a, 0 ≤ w.ramUsage a ∧ w.ramUsage a < 2 ^ 63
  ram : ∀ a l, w.limits a = some l → -1 ≤ l.ramBytes ∧ l.ramBytes < 2 ^ 63
  net : ∀ a l, w.limits a = some l → Lag l.netWeight (limitOf ResLimit.net w.reslimit a)
  cpu : ∀ a l, w.limits a = some l → Lag l.cpuWeight (limitOf ResLimit.cpu w.reslimit a)
  row : ∀ row ∈ w.reslimit, row.net < 2 ^ 63 ∧ row.cpu < 2 ^ 63

lemma Lag.of_admitted {limit row : ℤ} (h : -1 ≤ limit ∧ limit < 2 ^ 63) (hrow : row < 2 ^ 63) :
    Lag limit row := by
  unfold Lag
  omega

/-- Both are reduced by the same. -/
lemma Lag.sub {limit row d : ℤ} (h : Lag limit row) (hd : 0 ≤ d) : Lag (limit - d) (row - d) := by
  unfold Lag at *
  omega

section Bounds

variable {w w' : World}

lemma limitOf_lt (hb : Bounded w) (a : Name) :
    limitOf ResLimit.net w.reslimit a < 2 ^ 63 ∧ limitOf ResLimit.cpu w.reslimit a < 2 ^ 63 := by
  cases hrow : w.reslimit.find? a with
  | none =>
    rw [limitOf_of_none hrow, limitOf_of_none hrow]
    norm_num
  | some row =>
    rw [limitOf_of_find? hrow, limitOf_of_find? hrow]
    exact hb.row row (mem_of_find? hrow)

lemma Bounded.update (hb : Bounded w) {l : AccountLimits}
    (hreslimit : w'.reslimit = w.reslimit.upsert row)
    (hlimits : w'.limits = Function.update w.limits row.owner (some l))
    (husage : w'.ramUsage = w.ramUsage) (hrow : row.net < 2 ^ 63 ∧ row.cpu < 2 ^ 63)
    (hram : -1 ≤ l.ramBytes ∧ l.ramBytes < 2 ^ 63) (hnet : Lag l.netWeight row.net)
    (hcpu : Lag l.cpuWeight row.cpu) : Bounded w' := by
  have hfind : ∀ a, w'.reslimit.find? a = if row.owner = a then some row else w.reslimit.find? a :=
    fun a => by rw [hreslimit, find?_upsert]
  -- what holds of the new limits and of all old ones holds of every account
  have hall {P : AccountLimits → ℤ → Prop} {q : ResLimit → ℤ} (hnew : P l (q row))
      (hold : ∀ a l', w.limits a = some l' → P l' (limitOf q w.reslimit a)) (a : Name)
      (l' : AccountLimits) (hl' : w'.limits a = some l') : P l' (limitOf q w'.reslimit a) := by
    by_cases ha : a = row.owner
    · rw [hlimits, ha, Function.update_self] at hl'
      rwa [ha, limitOf_of_find? (by rw [hfind, if_pos rfl]), ← Option.some.inj hl']
    · rw [hlimits, Function.update_of_ne ha] at hl'
      rw [limitOf, hfind, if_neg (Ne.symm ha)]
      exact hold a l' hl'
  constructor
  case usage => exact husage ▸ hb.usage
  case ram => exact hall (P := fun l' _ => _) (q := ResLimit.net) hram hb.ram
  case net => exact hall (P := fun l' => Lag l'.netWeight) hnet hb.net
  case cpu => exact hall (P := fun l' => Lag l'.cpuWeight) hcpu hb.cpu
  case row =>
    intro r hr
    rw [hreslimit] at hr
    rcases mem_of_mem_upsert hr with ⟨hr, -⟩ | rfl
    · exact hb.row r hr
    · exact hrow

/-- What is left out has no part in it. -/
lemma Bounded.of_same (hb : Bounded w) (hreslimit : w'.reslimit = w.reslimit)
    (hlimits : w'.limits = w.limits) (husage : w'.ramUsage = w.ramUsage) : Bounded w' := by
  constructor <;> simp only [hreslimit, hlimits, husage]
  exacts [hb.usage, hb.ram, hb.net, hb.cpu, hb.row]

lemma setResourceLimits_eq_ok {account : Name} {ramBytes netWeight cpuWeight : ℤ}
    (h : w.setResourceLimits account ramBytes netWeight cpuWeight = .ok w') :
    (-1 ≤ ramBytes ∧ -1 ≤ netWeight ∧ -1 ≤ cpuWeight) ∧ w' = { w with
      limits := Function.update w.limits account (some ⟨ramBytes, netWeight, cpuWeight⟩) } := by
  simp only [World.setResourceLimits, World.setAccountLimits, bind_eq_ok, sysAssert_eq_ok,
    pure_eq_ok] at h
  obtain ⟨-, hram, -, hnet, -, hcpu, -, -, rfl⟩ := h
  exact ⟨⟨hram, hnet, hcpu⟩, rfl⟩

lemma toI64_lt (h : n < 2 ^ 64) : toI64 n < 2 ^ 63 := by
  unfold toI64
  split_ifs <;> omega

/-- A row is written, and the limits of its account are set from it. -/
lemma Bounded.setResourceLimits (hb : Bounded w) (row : ResLimit)
    (h : w0.setResourceLimits row.owner (toI64 row.ramBytes) net cpu = .ok w')
    (hreslimit : w0.reslimit = w.reslimit.upsert row) (hlimits : w0.limits = w.limits)
    (husage : w0.ramUsage = w.ramUsage) (hrow : row.net < 2 ^ 63 ∧ row.cpu < 2 ^ 63)
    (hram : row.ramBytes < 2 ^ 64) (hnet : net < 2 ^ 63) (hcpu : cpu < 2 ^ 63) : Bounded w' := by
  obtain ⟨⟨hram1, hnet1, hcpu1⟩, rfl⟩ := setResourceLimits_eq_ok h
  exact hb.update hreslimit (by rw [hlimits]) husage hrow ⟨hram1, toI64_lt hram⟩
    (.of_admitted ⟨hnet1, hnet⟩ hrow.1) (.of_admitted ⟨hcpu1, hcpu⟩ hrow.2)

lemma Bounded.applyLimits (hb : Bounded w) {unlimited : Bool}
    (h : w0.applyLimits row unlimited = .ok w') (hreslimit : w0.reslimit = w.reslimit.upsert row)
    (hlimits : w0.limits = w.limits) (husage : w0.ramUsage = w.ramUsage)
    (hrow : row.net < 2 ^ 63 ∧ row.cpu < 2 ^ 63) (hram : row.ramBytes < 2 ^ 64) : Bounded w' := by
  unfold World.applyLimits at h
  split_ifs at h
  · exact hb.setResourceLimits row h hreslimit hlimits husage hrow hram (by norm_num) (by norm_num)
  · exact hb.setResourceLimits row h hreslimit hlimits husage hrow hram hrow.1 hrow.2

end Bounds

/-! ### Each action keeps the bounds -/

section Steps

variable {w w' : World} {auth : List Name} {owner issuer : Name} {ramWeight : Asset}
  {networkGen : ℕ} {bytesPerUnit : ℕ}

lemma activationGrants_lt
    (h : activationGrants totalAmount bytesPerUnit = .ok (roaRamBytes, sysioRamBytes)) :
    roaRamBytes < 2 ^ 64 ∧ sysioRamBytes < 2 ^ 64 := by
  simp only [activationGrants, bind_eq_ok, u64_eq_ok, pure_eq_ok, Prod.mk.injEq] at h
  obtain ⟨_, -, _, -, _, -, _, -, _, -, _, -, _, -, _, -, _, -, _, -, _, ⟨hroa, rfl⟩, _,
    ⟨hsysio, rfl⟩, rfl, rfl⟩ := h
  exact ⟨hroa.2, hsysio.2⟩

lemma bounded_activateroa (hb : Bounded w)
    (h : activateroa w auth totalSys bytesPerUnit = .ok w') : Bounded w' := by
  simp only [activateroa, bind_eq_ok, check_eq_ok, emplace_eq_ok] at h
  obtain ⟨-, -, -, -, ⟨roaRamBytes, sysioRamBytes⟩, hgrants, -, -, t, ⟨hroa, rfl⟩, w1, hw1, -, -,
    t', ⟨hsysio, rfl⟩, hw'⟩ := h
  obtain ⟨hroaBytes, hsysioBytes⟩ := activationGrants_lt hgrants
  set zero : Asset := ⟨0, totalSys.symbol⟩
  have hzero : zero.amount < 2 ^ 63 := by norm_num [zero]
  have hb1 : Bounded w1 := hb.setResourceLimits ⟨sysioRoaName, zero, zero, roaRamBytes⟩ hw1
    (if_pos hroa).symm rfl rfl ⟨hzero, hzero⟩ hroaBytes (by norm_num) (by norm_num)
  exact hb1.setResourceLimits ⟨sysioName, zero, zero, sysioRamBytes⟩ hw' (if_pos hsysio).symm rfl
    rfl ⟨hzero, hzero⟩ hsysioBytes (by norm_num) (by norm_num)

lemma Asset.add_lt (h : a.add b = .ok r) : r.amount < 2 ^ 63 := by
  simp only [Asset.add, bind_eq_ok, i64_eq_ok, pure_eq_ok] at h
  obtain ⟨-, -, _, ⟨hrange, rfl⟩, rfl⟩ := h
  exact hrange.2

lemma registrationLimit_lt
    (hweight : netCpuWeight.amount < 2 ^ 63) (hbytes : personalRamBytes < 2 ^ 64)
    (h : registrationLimit w owner netCpuWeight personalRamBytes = .ok row) :
    (row.net < 2 ^ 63 ∧ row.cpu < 2 ^ 63) ∧ row.ramBytes < 2 ^ 64 := by
  unfold registrationLimit at h
  split at h
  · cases h
    exact ⟨⟨hweight, hweight⟩, hbytes⟩
  · simp only [bind_eq_ok, u64_eq_ok, pure_eq_ok] at h
    obtain ⟨net, hnet, cpu, hcpu, _, ⟨hrange, rfl⟩, rfl⟩ := h
    exact ⟨⟨Asset.add_lt hnet, Asset.add_lt hcpu⟩, hrange.2⟩

lemma bounded_regnodeowner (hb : Bounded w)
    (h : regnodeowner w auth owner tier = .ok w') : Bounded w' := by
  simp only [regnodeowner, World.getRoastate, bind_eq_ok, check_eq_ok, require_eq_ok,
    u64_eq_ok, emplace_eq_ok, pure_eq_ok] at h
  obtain ⟨-, -, state, -, -, -, -, -, total, -, _, ⟨hpersonal, rfl⟩, _, -, _, -, _, -, policies, -,
    row, hrow, w1, hw1, sysioRow, hsysioRow, _, ⟨-, rfl⟩, _, ⟨hbytes, rfl⟩, w2, hw2, nodeowners,
    ⟨-, rfl⟩, rfl⟩ := h
  obtain ⟨hlt, hrowBytes⟩ := registrationLimit_lt (by norm_num) hpersonal.2 hrow
  have hb1 : Bounded w1 := hb.applyLimits hw1 rfl rfl rfl hlt hrowBytes
  have hsysio := hb1.row sysioRow (mem_of_find? hsysioRow)
  have hb2 : Bounded w2 := hb1.applyLimits hw2 rfl rfl rfl hsysio hbytes.2
  exact hb2.of_same rfl rfl rfl

lemma ResLimit.addAmounts_lt (h : row.addAmounts net cpu ramBytes = .ok row') :
    (row'.net < 2 ^ 63 ∧ row'.cpu < 2 ^ 63) ∧ row'.ramBytes < 2 ^ 64 := by
  simp only [ResLimit.addAmounts, bind_eq_ok, i64_eq_ok, u64_eq_ok, pure_eq_ok] at h
  obtain ⟨_, ⟨hnet, rfl⟩, _, ⟨hcpu, rfl⟩, _, ⟨hram, rfl⟩, rfl⟩ := h
  exact ⟨⟨hnet.2, hcpu.2⟩, hram.2⟩

lemma policyLimit_lt {state : RoaState}
    (hnet : netWeight.amount < 2 ^ 63) (hcpu : cpuWeight.amount < 2 ^ 63) (hram : ramBytes < 2 ^ 64)
    (h : policyLimit w owner state netWeight cpuWeight ramBytes = .ok row) :
    (row.net < 2 ^ 63 ∧ row.cpu < 2 ^ 63) ∧ row.ramBytes < 2 ^ 64 := by
  unfold policyLimit at h
  dsimp only at h
  split at h
  · cases h
    refine ⟨⟨?_, ?_⟩, hram⟩ <;> dsimp only [ResLimit.net, ResLimit.cpu] <;> split_ifs
    exacts [by norm_num, hnet, by norm_num, hcpu]
  · exact ResLimit.addAmounts_lt h

lemma bounded_addpolicy (hb : Bounded w)
    (h : addpolicy w auth owner issuer netWeight cpuWeight ramWeight timeBlock networkGen =
      .ok w') : Bounded w' := by
  simp only [addpolicy, World.getRoastate, checkNotNegative, bind_eq_ok, check_eq_ok,
    require_eq_ok, i64_eq_ok, emplace_eq_ok, pure_eq_ok] at h
  obtain ⟨-, -, state, -, -, -, -, -, node, -, -, ⟨-, hnet, -, hcpu, hram⟩, _, -, -, -, sum, hsum,
    total, htotal, -, -, -, -, _, ⟨hbytes, rfl⟩, -, -, row, hrow, w1, hw1, policies, ⟨-, rfl⟩,
    node', -, rfl⟩ := h
  -- the weights are part of a sum that fits
  have hsum' := Asset.amount_add hsum
  have hsumLt := Asset.add_lt hsum
  obtain ⟨hlt, hrowBytes⟩ := policyLimit_lt (by omega) (by omega) (by omega) hrow
  exact (hb.applyLimits hw1 rfl rfl rfl hlt hrowBytes).of_same rfl rfl rfl

lemma bounded_expandpolicy (hb : Bounded w)
    (h : expandpolicy w auth owner issuer netWeight cpuWeight ramWeight networkGen = .ok w') :
    Bounded w' := by
  simp only [expandpolicy, checkNotNegative, bind_eq_ok, check_eq_ok, require_eq_ok, i64_eq_ok] at h
  obtain ⟨-, -, node, -, p, -, -, -, -, -, _, -, sum, -, total, -, -, -, -, -, _, -, p', -, node',
    -, row, -, row', hrow', hw⟩ := h
  obtain ⟨hlt, hrowBytes⟩ := ResLimit.addAmounts_lt hrow'
  exact hb.applyLimits hw rfl rfl rfl hlt hrowBytes

/-- What `reducepolicy` does to the limits of the account, and to its row. -/
lemma reducepolicy_limits
    (h : reducepolicy w auth owner issuer netWeight cpuWeight ramWeight networkGen = .ok w') :
    ∃ l row row' divisible reclaimed, ∃ p : Policy, w.limits owner = some l ∧
      w.reslimit.find? owner = some row ∧
      reclaimRam ramWeight p.bytesPerUnit l.ramBytes (w.ramUsage owner) =
        .ok (divisible, reclaimed) ∧ (0 ≤ netWeight.amount ∧ 0 ≤ cpuWeight.amount) ∧
      w'.limits = Function.update w.limits owner (some ⟨l.ramBytes - divisible,
        l.netWeight - netWeight.amount, l.cpuWeight - cpuWeight.amount⟩) ∧
      w'.ramUsage = w.ramUsage ∧ w'.reslimit = w.reslimit.upsert row' ∧ row'.owner = owner ∧
      row'.net = row.net - netWeight.amount ∧ row'.cpu = row.cpu - cpuWeight.amount := by
  simp only [reducepolicy, bind_eq_ok, sysAssert_eq_ok, require_eq_ok, i64_eq_ok,
    World.setAccountLimits, pure_eq_ok] at h
  obtain ⟨-, -, -, -, -, -, -, -, node, -, node1, -, -, -, p, -, p1, -, -, -, -, -, row, hrow, row1,
    hrow1, u, hcheck, l, hl, ⟨divisible, reclaimed⟩, hreclaim, _, ⟨-, rfl⟩, _, ⟨-, rfl⟩, _,
    ⟨-, rfl⟩, _, ⟨-, -, rfl⟩, ⟨row', p', node'⟩, hrows, rfl⟩ := h
  obtain rfl := ResLimit.unpack_eq_ok hrow1
  simp only [checkReduction, bind_eq_ok, sysAssert_eq_ok] at hcheck
  obtain ⟨-, hnet, -, hcpu, -⟩ := hcheck
  obtain ⟨-, -, -, -, -, howner, hrowNet, hrowCpu, -⟩ := reducedRows_spec hrows
  exact ⟨l, row, row', divisible, reclaimed, p1, hl, hrow, hreclaim, ⟨hnet, hcpu⟩, rfl, rfl, rfl,
    howner.trans (key_eq_of_find? hrow), hrowNet, hrowCpu⟩

lemma bounded_reducepolicy (hb : Bounded w)
    (h : reducepolicy w auth owner issuer netWeight cpuWeight ramWeight networkGen = .ok w') :
    Bounded w' := by
  obtain ⟨l, row, row', divisible, reclaimed, p, hl, hrow, hreclaim, ⟨hnet, hcpu⟩, hlimits, husage,
    hreslimit, rfl, hrowNet, hrowCpu⟩ := reducepolicy_limits h
  obtain ⟨hdivisible, hunused, -⟩ := reclaimRam_le hreclaim
  have hram := hb.ram _ l hl
  have husage0 := (hb.usage row'.owner).1
  have hlt := hb.row row (mem_of_find? hrow)
  have hlagNet := hb.net _ l hl
  have hlagCpu := hb.cpu _ l hl
  rw [limitOf_of_find? hrow] at hlagNet hlagCpu
  refine hb.update hreslimit hlimits husage ⟨by omega, by omega⟩ ?_ ?_ ?_
  · by_cases hzero : divisible = 0
    · rwa [hzero, sub_zero]
    · have := (hunused hzero).1
      constructor <;> dsimp only <;> omega
  · rw [hrowNet]
    exact hlagNet.sub hnet
  · rw [hrowCpu]
    exact hlagCpu.sub hcpu

lemma le_held {q : Policy → ℤ} {ps : Policies} (hq : ∀ p ∈ ps, 0 ≤ q p)
    (hp : p ∈ ps) : q p ≤ held q ps p.owner := by
  have hterm : (if p.owner = p.owner then q p else 0) ∈
      ps.rows.map fun r => if r.owner = p.owner then q r else 0 :=
    List.mem_map_of_mem (f := fun r => if r.owner = p.owner then q r else 0) hp
  rw [if_pos rfl] at hterm
  refine List.single_le_sum ?_ _ hterm
  intro x hx
  obtain ⟨r, hr, rfl⟩ := List.mem_map.mp hx
  split_ifs
  · exact hq r hr
  · exact le_rfl

/-- **The arithmetic of a reduction**, if the tables agree and limits and rows fit. -/
theorem inRange_reducepolicy {grant : Name → ℤ} (hc : Conserved grant w) (hb : Bounded w)
    (hrows : ∀ row ∈ w.reslimit, row.ramBytes < 2 ^ 63) :
    InRange (reducepolicy w auth owner issuer netWeight cpuWeight ramWeight networkGen) := by
  unfold reducepolicy
  refine (Asset.inRange_reflectorInit _).bind fun _ hnetSmall => ?_
  refine (Asset.inRange_reflectorInit _).bind fun _ hcpuSmall => ?_
  refine (Asset.inRange_reflectorInit _).bind fun _ _ => ?_
  unfold requireAuth
  refine avoids_sysAssert_bind fun _ => ?_
  refine (avoids_require).bind fun node _ => ?_
  refine node.inRange_unpack.bind fun node1 hnode => ?_
  obtain rfl := NodeOwner.unpack_eq_ok hnode
  refine avoids_sysAssert_bind fun _ => ?_
  refine (avoids_require).bind fun p hp => ?_
  refine p.inRange_unpack.bind fun p1 hpolicy => ?_
  obtain rfl := Policy.unpack_eq_ok hpolicy
  iterate 2 refine avoids_sysAssert_bind fun _ => ?_
  refine (avoids_require).bind fun row hrow => ?_
  refine row.inRange_unpack.bind fun row1 hlimit => ?_
  obtain rfl := ResLimit.unpack_eq_ok hlimit
  refine (inRange_checkReduction _ _ _ _).bind fun _ hcheck => ?_
  refine (avoids_require).bind fun l hl => ?_
  rw [require_eq_ok] at hp hrow hl
  simp only [checkReduction, bind_eq_ok, sysAssert_eq_ok] at hcheck
  obtain ⟨-, hnet, -, hcpu, -, hram, -, -, -, hnetLe, -, hcpuLe, hramLe⟩ := hcheck
  obtain ⟨rfl, rfl⟩ := issuer_owner_of_find? hp
  have hmem : p ∈ w.policies := mem_of_find? hp
  have hrowMem := mem_of_find? hrow
  -- the row of the account covers the policy
  have hheldNet := le_held (fun p hp => (hc.policy_nonneg p hp).1) hmem
  have hheldCpu := le_held (fun p hp => (hc.policy_nonneg p hp).2.1) hmem
  have hheldRam := le_held (q := Policy.ramBytes)
    (fun p hp => mul_nonneg (hc.policy_nonneg p hp).2.2 (Int.natCast_nonneg _)) hmem
  have hlimitRam := hc.limit_ram p.owner
  have hgrant := hc.grant_nonneg p.owner
  rw [limitOf_of_find? hrow] at hlimitRam
  have hproduct : ramWeight.amount * (p.bytesPerUnit : ℤ) ≤ p.ramBytes :=
    mul_le_mul_of_nonneg_right hramLe (Int.natCast_nonneg _)
  have hnonneg : 0 ≤ ramWeight.amount * (p.bytesPerUnit : ℤ) :=
    mul_nonneg hram (Int.natCast_nonneg _)
  have hrowLt := hrows row hrowMem
  have hramLimit := hb.ram _ l hl
  have husage := hb.usage p.owner
  refine (inRange_reclaimRam (hc.policy_price p hmem) (by omega) (by omega)).bind ?_
  rintro ⟨divisible, reclaimed⟩ hreclaim
  obtain ⟨hdivisible, hunused, hsmall⟩ := reclaimRam_le hreclaim
  obtain ⟨hdivisibleLe, hleft⟩ :
      divisible ≤ row.ramBytes ∧ -2 ^ 63 ≤ l.ramBytes - divisible := by
    by_cases hzero : divisible = 0
    · omega
    · have := hunused hzero
      omega
  have hlagNet := hb.net _ l hl
  have hlagCpu := hb.cpu _ l hl
  rw [hc.limit_net, Lag] at hlagNet
  rw [hc.limit_cpu, Lag] at hlagCpu
  refine (inRange_i64 ⟨hleft, by omega⟩).bind fun _ _ => ?_
  refine (inRange_i64 ⟨?_, by omega⟩).bind fun _ _ => ?_
  · show -2 ^ 63 ≤ l.netWeight - netWeight.amount
    unfold Policy.net at hheldNet hlagNet
    omega
  refine (inRange_i64 ⟨?_, by omega⟩).bind fun _ _ => ?_
  · unfold Policy.cpu at hheldCpu hlagCpu
    omega
  refine Avoids.bind ((avoids_require).bind fun _ _ => avoids_ok _) fun _ _ => ?_
  refine Avoids.bind (inRange_reducedRows (NodeOwner.small_of_unpack hnode)
    (Policy.small_of_unpack hpolicy) (ResLimit.small_of_unpack hlimit)
    (Asset.small_of_reflectorInit hnetSmall) (Asset.small_of_reflectorInit hcpuSmall) hsmall
    ⟨by omega, by omega⟩) fun _ _ => avoids_ok _

end Steps

/-! ### Sequences of actions -/

/-- What happens outside the contract keeps to the types: RAM usage is not negative and fits, and
limits that change become ones that `set_resource_limits` admits. -/
def Event.Sound (w : World) : Event → Prop
  | .chain limits ramUsage _ => (∀ a, 0 ≤ ramUsage a ∧ ramUsage a < 2 ^ 63) ∧
      ∀ a l, limits a = some l → w.limits a = some l ∨ l.Admitted
  | .act _ _ => True

/-- The RAM of every row fits the limit that is set from it. -/
def World.Fits (w : World) : Prop := ∀ row ∈ w.reslimit, row.ramBytes < 2 ^ 63

instance : DecidablePred World.Fits := fun w =>
  inferInstanceAs (Decidable (∀ row ∈ w.reslimit.rows, row.ramBytes < 2 ^ 63))

section Runs

variable {limits : Name → Option AccountLimits} {ramUsage : Name → ℤ} {headBlockNum : ℕ}
  {tr : List (Transition World Event)} {w w' : World}

lemma bounded_initial (hlimits : ∀ a l, limits a = some l → l.Admitted)
    (husage : ∀ a, 0 ≤ ramUsage a ∧ ramUsage a < 2 ^ 63) :
    Bounded (World.initial limits ramUsage headBlockNum) where
  usage := husage
  ram a l hl := (hlimits a l hl).1
  net a l hl := .of_admitted (hlimits a l hl).2.1 (by norm_num [World.initial, limitOf])
  cpu a l hl := .of_admitted (hlimits a l hl).2.2 (by norm_num [World.initial, limitOf])
  row _ hrow := absurd hrow (Table.not_mem_empty _)

lemma Bounded.step {e : Event} (hb : Bounded w) (hsound : e.Sound w) (h : Step w e w') :
    Bounded w' := by
  cases e with
  | chain =>
    obtain ⟨husage, hlimits⟩ := hsound
    cases h
    refine ⟨husage, ?_, ?_, ?_, hb.row⟩ <;> intro a l hl <;> rcases hlimits a l hl with hold | hnew
    exacts [hb.ram a l hold, hnew.1, hb.net a l hold,
      .of_admitted hnew.2.1 (limitOf_lt hb a).1, hb.cpu a l hold,
      .of_admitted hnew.2.2 (limitOf_lt hb a).2]
  | act auth action =>
    cases action with
    | activateroa => exact bounded_activateroa hb h
    | setbyteprice =>
      obtain ⟨state, -, rfl⟩ := setbyteprice_spec h
      exact hb.of_same rfl rfl rfl
    | regnodeowner => exact bounded_regnodeowner hb h
    | addpolicy => exact bounded_addpolicy hb h
    | expandpolicy => exact bounded_expandpolicy hb h
    | extendpolicy =>
      obtain ⟨p, -, rfl⟩ := extendpolicy_spec h
      exact hb.of_same rfl rfl rfl
    | reducepolicy => exact bounded_reducepolicy hb h

lemma bounded_of_run (h0 : Bounded w0) (hfits : w0.Fits) (hr : Run Step w0 tr w)
    (hall : ∀ t ∈ tr, t.event.Sound t.pre ∧ t.post.Fits) : Bounded w ∧ w.Fits := by
  induction hr with
  | nil => exact ⟨h0, hfits⟩
  | @snoc tr w w' e _ hs ih =>
    obtain ⟨hb, -⟩ := ih fun t ht => hall t (List.mem_append_left _ ht)
    obtain ⟨hsound, hfits'⟩ := hall ⟨w, e, w'⟩ (by simp)
    exact ⟨hb.step hsound hs, hfits'⟩

/-- **A reduction is safe** after any sequence of actions in which all prices are positive and the
RAM of every account fits its limit: it does not divide by zero, no result leaves 64 bits, and the
RAM limit of the account does not grow and is not set below what the account uses. -/
theorem reducepolicy_safe (hlimits : ∀ a l, limits a = some l → l.Admitted)
    (husage : ∀ a, 0 ≤ ramUsage a ∧ ramUsage a < 2 ^ 63)
    (hr : Run Step (World.initial limits ramUsage headBlockNum) tr w)
    (hsound : ∀ t ∈ tr, t.event.Sound t.pre) (hprice : ∀ t ∈ tr, t.event.PositivePrice)
    (hfits : ∀ t ∈ tr, t.post.Fits) (auth : List Name) (owner issuer : Name)
    (netWeight cpuWeight ramWeight : Asset) (networkGen : ℕ) :
    (reducepolicy w auth owner issuer netWeight cpuWeight ramWeight networkGen).InRange ∧
      ∀ w', reducepolicy w auth owner issuer netWeight cpuWeight ramWeight networkGen = .ok w' →
        ∃ l l', w.limits owner = some l ∧ w'.limits owner = some l' ∧ l'.ramBytes ≤ l.ramBytes ∧
          (l'.ramBytes ≠ l.ramBytes → w.ramUsage owner ≤ l'.ramBytes) ∧
          ∀ a, a ≠ owner → w'.limits a = w.limits a := by
  have hc := conserved_of_run (conserved_initial limits ramUsage headBlockNum) hr hprice
  obtain ⟨hb, hrows⟩ := bounded_of_run (bounded_initial hlimits husage)
    (fun _ hrow => absurd hrow (Table.not_mem_empty _)) hr fun t ht => ⟨hsound t ht, hfits t ht⟩
  refine ⟨inRange_reducepolicy hc hb hrows, ?_⟩
  intro w' h
  obtain ⟨l, -, -, divisible, reclaimed, p, hl, -, hreclaim, -, hlimits', -⟩ :=
    reducepolicy_limits h
  obtain ⟨hdivisible, hunused, -⟩ := reclaimRam_le hreclaim
  refine ⟨l, _, hl, by rw [hlimits', Function.update_self], ?_, ?_, ?_⟩
  · dsimp only
    omega
  · intro hne
    exact (hunused fun hzero => hne (by rw [hzero, sub_zero])).1
  · intro a ha
    rw [hlimits', Function.update_of_ne ha]

end Runs

/-- Activation, a registration, and a policy at a price that is set before. -/
def demoPriced (bytesPerUnit : ℕ) : List Event :=
  [demoActivation, demoRegistration, .act [sysioRoaName] (.setbyteprice bytesPerUnit),
    .act [demoNode] (.addpolicy demoUser demoNode ⟨100, demoSymbol⟩ ⟨200, demoSymbol⟩
      ⟨30, demoSymbol⟩ 5 0)]

/-- A reduction of that policy. -/
def demoReduction (w : World) : Result World :=
  reducepolicy w [demoNode] demoUser demoNode ⟨100, demoSymbol⟩ ⟨50, demoSymbol⟩ ⟨10, demoSymbol⟩ 0

/-- At 110 bytes for a unit, 10 of 30 units of RAM are taken back. -/
theorem reducepolicy_safe_demo : ∃ tr w w' l l', Run Step demoWorld tr w ∧
    demoReduction w = .ok w' ∧ w.limits demoUser = some l ∧ w'.limits demoUser = some l' ∧
    l'.ramBytes ≤ l.ramBytes ∧ l.ramBytes = 3300 := by
  have hP : ((carryOut next demoWorld (demoPriced 110)).any fun r =>
      decide ((∀ t ∈ r.1, t.post.Fits) ∧ (demoReduction r.2).toOption.isSome = true ∧
        (r.2.limits demoUser).map (·.ramBytes) = some 3300)) = true := by
    decide +kernel
  obtain ⟨⟨tr, w⟩, hrun, hP⟩ := (Option.any_eq_true _ _).mp hP
  obtain ⟨hfits, hreduce, hlimit⟩ := of_decide_eq_true hP
  obtain ⟨hr, hevents⟩ := Run.of_carryOut (fun _ _ _ => step_of_next) hrun
  have hmem : ∀ t ∈ tr, t.event ∈ demoPriced 110 := by
    intro t ht
    rw [← hevents]
    exact List.mem_map_of_mem ht
  have hprice : ∀ e ∈ demoPriced 110, e.PositivePrice := by decide
  have hsound : ∀ e ∈ demoPriced 110, ∀ w, e.Sound w := by
    simp [demoPriced, demoActivation, demoRegistration, Event.Sound]
  obtain ⟨w', hreduce⟩ := Option.isSome_iff_exists.mp hreduce
  have hreduce := eq_ok_of_toOption hreduce
  have hadmitted : (⟨-1, -1, -1⟩ : AccountLimits).Admitted := by
    norm_num [AccountLimits.Admitted]
  obtain ⟨-, hsafe⟩ := reducepolicy_safe (fun _ _ hl => Option.some.inj hl ▸ hadmitted)
    (fun _ => by norm_num) hr (fun t ht => hsound _ (hmem t ht) _)
    (fun t ht => hprice _ (hmem t ht)) hfits [demoNode] demoUser demoNode ⟨100, demoSymbol⟩
    ⟨50, demoSymbol⟩ ⟨10, demoSymbol⟩ 0
  obtain ⟨l, l', hl, hl', hle, -⟩ := hsafe w' hreduce
  refine ⟨tr, w, w', l, l', hr, hreduce, hl, hl', hle, ?_⟩
  rw [hl] at hlimit
  exact Option.some.inj hlimit

/-- At a price of 0, taking RAM back divides by zero. -/
theorem exists_remainder_by_zero : ∃ tr w e, Run Step demoWorld tr w ∧
    demoReduction w = .error e ∧ e.type = .undefinedBehavior ∧ e.what = "remainder by zero" := by
  obtain ⟨tr, w, hr, hP⟩ := exists_run_of_carryOut next demoWorld (demoPriced 0)
    (fun _ _ _ => step_of_next)
    (P := fun _ w => demoReduction w = .error ⟨.undefinedBehavior, "remainder by zero"⟩)
    (by decide +kernel)
  exact ⟨tr, w, _, hr, hP, rfl, rfl⟩

end Roa

end Sysio
