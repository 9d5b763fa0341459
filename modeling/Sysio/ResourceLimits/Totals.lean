import Sysio.ChainConfig
import Sysio.Data.Run
import Sysio.ResourceLimits.Effects

/-!
# The totals of the limits

The state of the resource limits manager holds, for each resource, the total of the limits of all
accounts.  Only committed limits count, and only positive ones: a negative limit is none.  The
totals move when a block ends and the pending limits are committed, account by account in the order
of their names (`processAccountLimitUpdates`).

One commit exchanges the share of one account (`applyPendingLimits_spec`), so the totals follow the
sums, and a commit fails only if a sum leaves 64 bits (`foldlM_applyPendingLimits`).  The sums that
matter are those after each account, not only those after the last: `transient_overflow` is a block
whose limits fit before and after, but not in between.
-/

namespace Sysio

open Result List Option Table

open Roa (AccountLimits)

/-- The three limits of an account. -/
inductive Resource
  | ram
  | net
  | cpu
  deriving DecidableEq, Repr

/-- The limit for a resource; a negative one is none. -/
def AccountLimits.of (l : AccountLimits) : Resource → ℤ
  | .ram => l.ramBytes
  | .net => l.netWeight
  | .cpu => l.cpuWeight

def ResourceLimitsState.total (s : ResourceLimitsState) : Resource → ℕ
  | .ram => s.totalRamBytes
  | .net => s.totalNetWeight
  | .cpu => s.totalCpuWeight

namespace ResourceLimitsManager

variable {rl rl' : ResourceLimitsManager} {account : Name}

abbrev LimitsTable := Table Name ResourceLimitsObject fun o => o.owner

def sumOf (limits : LimitsTable) (r : Resource) : ℕ :=
  limits.sumBy fun o => (AccountLimits.of o.limits r).toNat

/-- The totals are the sums of the committed limits, and fit 64 bits. -/
def Totals (rl : ResourceLimitsManager) : Prop :=
  ∀ r, rl.state.total r = sumOf rl.limits r ∧ sumOf rl.limits r < 2 ^ 64

/-- The sums stay within 64 bits while the pending limits are committed one after the other. -/
def SumsFit (limits : LimitsTable) : List ResourceLimitsObject → Prop
  | [] => True
  | pending :: rest =>
    (∀ r, sumOf (limits.upsert pending) r < 2 ^ 64) ∧ SumsFit (limits.upsert pending) rest

/-! ### One account -/

lemma updateTotal_spec {total : ℕ} {value pendingValue : ℤ} {what : String}
    (h : value.toNat ≤ total) (hlt : total < 2 ^ 64) : updateTotal total value pendingValue what =
      if total - value.toNat + pendingValue.toNat < 2 ^ 64 then
        .ok (total - value.toNat + pendingValue.toNat)
      else .error ⟨.rateLimitingStateInconsistent,
        "overflow when applying new value to " ++ what⟩ := by
  have hvalue : value ≤ total := by omega
  have hiff : pendingValue ≤ 2 ^ 64 - 1 - ((total - value.toNat : ℕ) : ℤ) ↔
      total - value.toNat + pendingValue.toNat < 2 ^ 64 := by
    omega
  unfold updateTotal sysAssert
  rw [if_pos hvalue, ok_bind]
  simp only [hiff]
  split_ifs
  · rfl
  · rfl

variable {limits : LimitsTable} {actual p : ResourceLimitsObject}

/-- What one account contributes is part of the sum. -/
lemma toNat_le_sumOf {o : ResourceLimitsObject}
    (h : limits.find? account = some o) (r : Resource) :
    (AccountLimits.of o.limits r).toNat ≤ sumOf limits r := by
  have := sumBy_erase h fun o => (AccountLimits.of o.limits r).toNat
  unfold sumOf
  omega

/-- The new limits of an account take the place of the old ones in the sum. -/
lemma sumOf_upsert (h : limits.find? p.owner = some actual) (r : Resource) :
    sumOf (limits.upsert p) r = sumOf limits r - (AccountLimits.of actual.limits r).toNat +
        (AccountLimits.of p.limits r).toNat := by
  have hsum := sumBy_upsert h fun o => (AccountLimits.of o.limits r).toNat
  have hle := toNat_le_sumOf h r
  unfold sumOf at *
  omega

/-- The manager with the pending limits of an account committed. -/
def committed (rl : ResourceLimitsManager) (pending : ResourceLimitsObject) :
    ResourceLimitsManager :=
  { rl with
    limits := rl.limits.upsert pending
    pendingLimits := rl.pendingLimits.erase pending.owner
    state := { rl.state with
      totalRamBytes := sumOf (rl.limits.upsert pending) .ram
      totalCpuWeight := sumOf (rl.limits.upsert pending) .cpu
      totalNetWeight := sumOf (rl.limits.upsert pending) .net } }

lemma totals_committed (h : ∀ r, sumOf (rl.limits.upsert p) r < 2 ^ 64) :
    (rl.committed p).Totals := by
  intro r
  refine ⟨?_, h r⟩
  cases r
  · rfl
  · rfl
  · rfl

/-- **One commit** succeeds if the new sums fit, and then the totals are the sums again. -/
theorem applyPendingLimits_spec (htotals : rl.Totals)
    (hactual : rl.limits.find? p.owner = some actual) :
    ((∀ r, sumOf (rl.limits.upsert p) r < 2 ^ 64) →
        rl.applyPendingLimits p = .ok (rl.committed p)) ∧
      (¬(∀ r, sumOf (rl.limits.upsert p) r < 2 ^ 64) →
        ∃ e, rl.applyPendingLimits p = .error e ∧
          e.type = .rateLimitingStateInconsistent) := by
  have hram : rl.state.totalRamBytes = sumOf rl.limits .ram := (htotals .ram).1
  have hcpu : rl.state.totalCpuWeight = sumOf rl.limits .cpu := (htotals .cpu).1
  have hnet : rl.state.totalNetWeight = sumOf rl.limits .net := (htotals .net).1
  have hupdate : ∀ (r : Resource) (what : String),
      updateTotal (sumOf rl.limits r) (AccountLimits.of actual.limits r)
        (AccountLimits.of p.limits r) what =
      if sumOf (rl.limits.upsert p) r < 2 ^ 64 then
        .ok (sumOf (rl.limits.upsert p) r)
      else .error ⟨.rateLimitingStateInconsistent,
        "overflow when applying new value to " ++ what⟩ := by
    intro r what
    rw [updateTotal_spec (toNat_le_sumOf hactual r) (htotals r).2, sumOf_upsert hactual r]
  have happly : rl.applyPendingLimits p = (do
      let totalRamBytes ← updateTotal (sumOf rl.limits .ram) (AccountLimits.of actual.limits .ram)
        (AccountLimits.of p.limits .ram) "ram_bytes"
      let totalCpuWeight ← updateTotal (sumOf rl.limits .cpu) (AccountLimits.of actual.limits .cpu)
        (AccountLimits.of p.limits .cpu) "cpu_weight"
      let totalNetWeight ← updateTotal (sumOf rl.limits .net) (AccountLimits.of actual.limits .net)
        (AccountLimits.of p.limits .net) "net_weight"
      pure { rl with
        limits := rl.limits.upsert p
        pendingLimits := rl.pendingLimits.erase p.owner
        state := { rl.state with
          totalRamBytes := totalRamBytes
          totalCpuWeight := totalCpuWeight
          totalNetWeight := totalNetWeight } }) := by
    unfold applyPendingLimits
    rw [hactual, hram, hcpu, hnet]
    rfl
  rw [happly]
  simp only [hupdate]
  constructor
  · intro hfit
    simp only [if_pos (hfit _), ok_bind]
    rfl
  · intro hnot
    by_cases h1 : sumOf (rl.limits.upsert p) .ram < 2 ^ 64
    · rw [if_pos h1, ok_bind]
      by_cases h2 : sumOf (rl.limits.upsert p) .cpu < 2 ^ 64
      · rw [if_pos h2, ok_bind]
        have h3 : ¬sumOf (rl.limits.upsert p) .net < 2 ^ 64 := by
          intro h3
          apply hnot
          rintro (_ | _ | _)
          · exact h1
          · exact h3
          · exact h2
        rw [if_neg h3]
        exact ⟨_, rfl, rfl⟩
      · rw [if_neg h2]
        exact ⟨_, rfl, rfl⟩
    · rw [if_neg h1]
      exact ⟨_, rfl, rfl⟩

/-! ### All accounts -/

/-- Every account with pending limits has committed ones. -/
def PendingKnown (rl : ResourceLimitsManager) (pending : List ResourceLimitsObject) : Prop :=
  ∀ p ∈ pending, ∃ actual, rl.limits.find? p.owner = some actual

variable {pending : List ResourceLimitsObject} {calls : List LimitCall}

lemma PendingKnown.committed
    (h : rl.PendingKnown pending) : (rl.committed p).PendingKnown pending := by
  intro q hq
  obtain ⟨actual, hactual⟩ := h q hq
  show ∃ actual, (rl.limits.upsert p).find? q.owner = some actual
  rw [find?_upsert]
  split_ifs
  · exact ⟨p, rfl⟩
  · exact ⟨actual, hactual⟩

/-- **The loop succeeds exactly if all the sums that it goes through fit.**  On the list of pending
limits, with the manager after each commit. -/
theorem foldlM_applyPendingLimits (htotals : rl.Totals) (hknown : rl.PendingKnown pending) :
    (SumsFit rl.limits pending →
        pending.foldlM applyPendingLimits rl = .ok (pending.foldl committed rl) ∧
          (pending.foldl committed rl).Totals) ∧ (¬SumsFit rl.limits pending →
        ∃ e, pending.foldlM applyPendingLimits rl = .error e ∧
          e.type = .rateLimitingStateInconsistent) := by
  induction pending generalizing rl with
  | nil => exact ⟨fun _ => ⟨rfl, htotals⟩, fun h => absurd trivial h⟩
  | cons p pending ih =>
    obtain ⟨actual, hactual⟩ := hknown p mem_cons_self
    obtain ⟨hok, herror⟩ := applyPendingLimits_spec htotals hactual
    have hknown' : (rl.committed p).PendingKnown pending :=
      PendingKnown.committed fun q hq => hknown q (mem_cons_of_mem _ hq)
    rw [foldlM_cons, foldl_cons]
    constructor
    · rintro ⟨hfit, hrest⟩
      rw [hok hfit, ok_bind]
      exact (ih (totals_committed hfit) hknown').1 hrest
    · intro hnot
      by_cases hfit : ∀ r, sumOf (rl.limits.upsert p) r < 2 ^ 64
      · rw [hok hfit, ok_bind]
        exact (ih (totals_committed hfit) hknown').2 fun hrest => hnot ⟨hfit, hrest⟩
      · obtain ⟨e, he, htype⟩ := herror hfit
        rw [he]
        exact ⟨e, rfl, htype⟩

/-- The committed limits afterwards: those that were pending, or else the old ones. -/
lemma find?_limits_foldl_committed (hnodup : (pending.map fun o => o.owner).Nodup) :
    (pending.foldl committed rl).limits.find? account =
      (pending.find? fun o => decide (o.owner = account)).or (rl.limits.find? account) := by
  induction pending generalizing rl with
  | nil => rfl
  | cons p pending ih =>
    rw [map_cons, nodup_cons] at hnodup
    rw [foldl_cons, ih hnodup.2]
    by_cases hp : p.owner = account
    · -- no other row has this owner
      have hnone : pending.find? (fun o => decide (o.owner = account)) = none := by
        rw [List.find?_eq_none]
        intro o ho
        rw [decide_eq_true_eq]
        rintro rfl
        exact hnodup.1 (hp ▸ List.mem_map_of_mem ho)
      rw [hnone, find?_cons_of_pos (by simpa using hp)]
      show (rl.limits.upsert p).find? account = some p
      rw [find?_upsert, if_pos hp]
    · rw [find?_cons_of_neg (by simpa using hp)]
      show Option.or _ ((rl.limits.upsert p).find? account) = _
      rw [find?_upsert, if_neg hp]

lemma find?_pendingLimits_foldl_committed :
    (pending.foldl committed rl).pendingLimits.find? account =
      if account ∈ pending.map (fun o => o.owner) then none
      else rl.pendingLimits.find? account := by
  induction pending generalizing rl with
  | nil => rfl
  | cons p pending ih =>
    rw [foldl_cons, ih]
    show (if _ then _ else (rl.pendingLimits.erase p.owner).find? account) = _
    rw [find?_erase]
    by_cases hp : account = p.owner
    · simp [hp]
    · simp [hp]

/-! ### The call -/

/-- The pending rows in the order of the index `by_owner`. -/
def pendingByOwner (rl : ResourceLimitsManager) : List ResourceLimitsObject :=
  rl.pendingLimits.rows.insertionSort fun o o' => o.owner ≤ o'.owner

lemma perm_pendingByOwner (rl : ResourceLimitsManager) :
    rl.pendingByOwner.Perm rl.pendingLimits.rows := perm_insertionSort _ _

lemma nodup_pendingByOwner (rl : ResourceLimitsManager) :
    (rl.pendingByOwner.map fun o => o.owner).Nodup :=
  ((rl.perm_pendingByOwner.map _).nodup_iff).mpr rl.pendingLimits.nodup

lemma find?_pendingByOwner (rl : ResourceLimitsManager) (account : Name) :
    rl.pendingByOwner.find? (fun o => decide (o.owner = account)) =
      rl.pendingLimits.find? account := by
  cases hfind : rl.pendingLimits.find? account with
  | none =>
    rw [List.find?_eq_none]
    intro o ho
    rw [decide_eq_true_eq]
    exact Table.find?_eq_none.mp hfind o (rl.perm_pendingByOwner.mem_iff.mp ho)
  | some o =>
    obtain ⟨ho, howner⟩ := Table.find?_eq_some.mp hfind
    have hsome : (rl.pendingByOwner.find? fun o => decide (o.owner = account)).isSome = true := by
      rw [find?_isSome]
      exact ⟨o, rl.perm_pendingByOwner.mem_iff.mpr ho, by simpa using howner⟩
    obtain ⟨o', ho'⟩ := isSome_iff_exists.mp hsome
    have hmem := rl.perm_pendingByOwner.mem_iff.mp (mem_of_find?_eq_some ho')
    have howner' : o'.owner = account := by simpa using find?_some ho'
    rw [ho', Table.eq_of_key_eq hmem ho (howner'.trans howner.symm)]

/-- What a successful call does: no limits are pending, and those that counted are committed. -/
structure Processed (rl rl' : ResourceLimitsManager) : Prop where
  totals : rl'.Totals
  pending : ∀ account, rl'.pendingLimits.find? account = none
  limits : ∀ account, (rl'.limits.find? account).map (fun o => o.limits) = rl.currentLimits account

/-- **A call commits all pending limits, or throws because a sum on the way does not fit.** -/
theorem processAccountLimitUpdates_spec (htotals : rl.Totals)
    (hknown : rl.PendingKnown rl.pendingLimits.rows) : (SumsFit rl.limits rl.pendingByOwner →
        ∃ rl', rl.processAccountLimitUpdates = .ok rl' ∧ Processed rl rl') ∧
      (¬SumsFit rl.limits rl.pendingByOwner → ∃ e, rl.processAccountLimitUpdates = .error e ∧
          e.type = .rateLimitingStateInconsistent) := by
  have hknown' : rl.PendingKnown rl.pendingByOwner := fun p hp =>
    hknown p (rl.perm_pendingByOwner.mem_iff.mp hp)
  obtain ⟨hok, herror⟩ := foldlM_applyPendingLimits htotals hknown'
  refine ⟨fun hfit => ?_, herror⟩
  obtain ⟨hrun, htotals'⟩ := hok hfit
  refine ⟨_, hrun, htotals', fun account => ?_, fun account => ?_⟩
  · rw [find?_pendingLimits_foldl_committed]
    split_ifs with hmem
    · rfl
    · rw [Table.find?_eq_none]
      rintro o ho rfl
      exact hmem (List.mem_map_of_mem (rl.perm_pendingByOwner.mem_iff.mpr ho))
  · rw [find?_limits_foldl_committed rl.nodup_pendingByOwner, find?_pendingByOwner]
    rfl

/-! ### The loop of the source -/

/-- The loop of `process_account_limit_updates` as the source has it: the first pending row of the
index is looked up in every round, committed and removed. -/
def limitUpdateLoop : ℕ → ResourceLimitsManager → Result ResourceLimitsManager
  | 0, _ => .error ⟨.undefinedBehavior, "the loop does not end"⟩
  | fuel + 1, rl =>
    match rl.pendingByOwner.head? with
    | none => pure rl
    | some itr => do
      let rl ← rl.applyPendingLimits itr
      limitUpdateLoop fuel rl

lemma pendingLimits_of_applyPendingLimits {pending : ResourceLimitsObject}
    (h : rl.applyPendingLimits pending = .ok rl') :
    rl'.pendingLimits = rl.pendingLimits.erase pending.owner := by
  simp only [applyPendingLimits, bind_eq_ok, pure_eq_ok] at h
  obtain ⟨-, -, -, -, -, -, -, -, rfl⟩ := h
  rfl

/-- Without its first row, the index has the other rows in the same order. -/
lemma pendingByOwner_of_erase {rest : List ResourceLimitsObject}
    (hrows : rl.pendingByOwner = p :: rest)
    (herase : rl'.pendingLimits = rl.pendingLimits.erase p.owner) : rl'.pendingByOwner = rest := by
  have hnodup := rl.nodup_pendingByOwner
  rw [hrows, map_cons, nodup_cons] at hnodup
  have hne : ∀ o ∈ rest, o.owner ≠ p.owner := fun o ho heq =>
    hnodup.1 (heq ▸ List.mem_map_of_mem ho)
  have hperm : rl'.pendingByOwner.Perm rest := by
    have hfilter := rl.perm_pendingByOwner.filter fun o => decide (o.owner ≠ p.owner)
    rw [hrows, filter_cons_of_neg (by simp),
      filter_eq_self.mpr fun o ho => by simpa using hne o ho] at hfilter
    refine rl'.perm_pendingByOwner.trans ?_
    rw [herase]
    exact hfilter.symm
  have hsorted : rest.Pairwise fun o o' => o.owner ≤ o'.owner := by
    have := pairwise_insertionSort (fun o o' : ResourceLimitsObject => o.owner ≤ o'.owner)
      rl.pendingLimits.rows
    change rl.pendingByOwner.Pairwise _ at this
    rw [hrows, pairwise_cons] at this
    exact this.2
  refine List.Perm.eq_of_pairwise ?_ (pairwise_insertionSort _ _) hsorted hperm
  intro a b ha hb hab hba
  exact inj_on_of_nodup_map hnodup.2 (hperm.mem_iff.mp ha) hb (le_antisymm hab hba)

/-- **The loop ends**: one round for each pending row, and one to see that there is none left. -/
theorem limitUpdateLoop_eq {fuel : ℕ} (hfuel : rl.pendingByOwner.length < fuel) :
    limitUpdateLoop fuel rl = rl.processAccountLimitUpdates := by
  induction fuel generalizing rl with
  | zero => omega
  | succ fuel ih =>
    have hfold : rl.processAccountLimitUpdates = rl.pendingByOwner.foldlM applyPendingLimits rl :=
      rfl
    rw [limitUpdateLoop, hfold]
    cases hrows : rl.pendingByOwner with
    | nil => rfl
    | cons p rest =>
      rw [head?_cons, foldlM_cons]
      show (rl.applyPendingLimits p >>= fun rl => limitUpdateLoop fuel rl) = _
      cases happly : rl.applyPendingLimits p with
      | error e => rfl
      | ok rl1 =>
        have hrest := pendingByOwner_of_erase hrows (pendingLimits_of_applyPendingLimits happly)
        rw [ok_bind, ok_bind, ih (by rw [hrest]; rw [hrows] at hfuel; simpa using hfuel)]
        show rl1.pendingByOwner.foldlM applyPendingLimits rl1 = _
        rw [hrest]

/-! ### Runs -/

/-- The calls that create, set and commit limits. -/
inductive LimitCall
  | initializeAccount (account : Name)
  | setAccountLimits (account : Name) (l : AccountLimits)
  | processAccountLimitUpdates

def LimitStep (rl : ResourceLimitsManager) : LimitCall → ResourceLimitsManager → Prop
  | .initializeAccount account, rl' => rl.initializeAccount account = .ok rl'
  | .setAccountLimits account l, rl' =>
    ∃ decreased, rl.setAccountLimits account l = .ok (rl', decreased)
  | .processAccountLimitUpdates, rl' => rl.processAccountLimitUpdates = .ok rl'

/-- The limits that the calls have set last, if they have created the account. -/
def lastLimits (calls : List LimitCall) (account : Name) : Option AccountLimits :=
  calls.foldl (fun last call =>
    match call with
    | .initializeAccount a => if account = a then some ⟨-1, -1, -1⟩ else last
    | .setAccountLimits a l => if account = a then some l else last
    | .processAccountLimitUpdates => last) none

/-- The manager as `initialize_database` leaves it. -/
structure Fresh (rl : ResourceLimitsManager) : Prop where
  limits : rl.limits = Table.empty
  pendingLimits : rl.pendingLimits = Table.empty
  totals : ∀ r, rl.state.total r = 0

structure LimitInv (calls : List LimitCall) (rl : ResourceLimitsManager) : Prop where
  totals : rl.Totals
  known : rl.PendingKnown rl.pendingLimits.rows
  last : ∀ account, rl.currentLimits account = lastLimits calls account

lemma LimitInv.fresh (h : rl.Fresh) : LimitInv [] rl where
  totals := by
    intro r
    rw [h.totals r, h.limits]
    exact ⟨rfl, by show 0 < 2 ^ 64; norm_num⟩
  known := by
    rw [h.pendingLimits]
    exact fun p hp => absurd hp (Table.not_mem_empty p)
  last account := by
    unfold currentLimits
    rw [h.pendingLimits, h.limits]
    rfl

lemma LimitInv.initializeAccount (h : LimitInv calls rl)
    (hinit : rl.initializeAccount account = .ok rl') :
    LimitInv (calls ++ [.initializeAccount account]) rl' := by
  simp only [ResourceLimitsManager.initializeAccount, bind_eq_ok, sysAssert_eq_ok,
    pure_eq_ok, isNone_iff_eq_none] at hinit
  obtain ⟨-, hnone, -, -, rfl⟩ := hinit
  have hfind : ∀ b, (rl.limits.upsert ⟨account, ⟨-1, -1, -1⟩⟩).find? b =
      if account = b then some ⟨account, ⟨-1, -1, -1⟩⟩ else rl.limits.find? b :=
    fun b => find?_upsert _ _ _
  -- no limits can be pending for an account that does not exist
  have hpending : rl.pendingLimits.find? account = none := by
    rw [Table.find?_eq_none]
    rintro o ho rfl
    obtain ⟨actual, hactual⟩ := h.known o ho
    rw [hnone] at hactual
    cases hactual
  constructor
  · intro r
    have hsum : sumOf (rl.limits.upsert ⟨account, ⟨-1, -1, -1⟩⟩) r = sumOf rl.limits r := by
      unfold sumOf Table.upsert
      rw [if_pos hnone, sumBy_insert hnone]
      cases r <;> rfl
    show rl.state.total r = sumOf (rl.limits.upsert _) r ∧ sumOf (rl.limits.upsert _) r < 2 ^ 64
    rw [hsum]
    exact h.totals r
  · intro p hp
    obtain ⟨actual, hactual⟩ := h.known p hp
    show ∃ actual, (rl.limits.upsert _).find? p.owner = some actual
    rw [hfind]
    split_ifs
    · exact ⟨_, rfl⟩
    · exact ⟨actual, hactual⟩
  · intro b
    unfold lastLimits
    rw [foldl_append]
    show Option.map _ ((rl.pendingLimits.find? b).or ((rl.limits.upsert _).find? b)) =
      if b = account then _ else lastLimits calls b
    rw [hfind, ← h.last b]
    by_cases hb : b = account
    · rw [if_pos hb.symm, if_pos hb, hb, hpending]
      rfl
    · rw [if_neg (Ne.symm hb), if_neg hb]
      rfl

lemma LimitInv.setAccountLimits {l : AccountLimits} {decreased : Bool}
    (h : LimitInv calls rl) (hset : rl.setAccountLimits account l = .ok (rl', decreased)) :
    LimitInv (calls ++ [.setAccountLimits account l]) rl' := by
  simp only [ResourceLimitsManager.setAccountLimits, bind_eq_ok, getAccountLimits_eq_ok,
    pure_eq_ok, Prod.mk.injEq] at hset
  obtain ⟨old, hold, rfl, -⟩ := hset
  refine ⟨h.totals, ?_, fun b => ?_⟩
  · intro p hp
    rcases mem_of_mem_upsert hp with ⟨hp, -⟩ | rfl
    · exact h.known p hp
    · -- the account has limits, committed ones if none are pending
      unfold currentLimits at hold
      cases hpending : rl.pendingLimits.find? account with
      | none =>
        rw [hpending, none_or] at hold
        obtain ⟨actual, hactual, -⟩ := map_eq_some_iff.mp hold
        exact ⟨actual, hactual⟩
      | some q =>
        obtain ⟨hq, howner⟩ := Table.find?_eq_some.mp hpending
        obtain ⟨actual, hactual⟩ := h.known q hq
        rw [howner] at hactual
        exact ⟨actual, hactual⟩
  · rw [currentLimits_upsert]
    unfold lastLimits
    rw [foldl_append]
    show _ = if b = account then some l else lastLimits calls b
    rw [h.last b]

lemma LimitInv.processAccountLimitUpdates (h : LimitInv calls rl)
    (hprocess : rl.processAccountLimitUpdates = .ok rl') :
    LimitInv (calls ++ [.processAccountLimitUpdates]) rl' := by
  obtain ⟨hok, herror⟩ := processAccountLimitUpdates_spec h.totals h.known
  by_cases hfit : SumsFit rl.limits rl.pendingByOwner
  · obtain ⟨rl1, hrun, hprocessed⟩ := hok hfit
    obtain rfl : rl1 = rl' := Except.ok.inj (hrun.symm.trans hprocess)
    refine ⟨hprocessed.totals, ?_, fun b => ?_⟩
    · intro p hp
      exact absurd rfl (Table.find?_eq_none.mp (hprocessed.pending p.owner) p hp)
    · unfold currentLimits lastLimits
      rw [hprocessed.pending b, none_or, hprocessed.limits b, foldl_append]
      exact h.last b
  · obtain ⟨e, he, -⟩ := herror hfit
    rw [he] at hprocess
    cases hprocess

lemma limitInv_of_run {rl0 : ResourceLimitsManager}
    {tr : List (Transition ResourceLimitsManager LimitCall)} (h0 : rl0.Fresh)
    (hr : Run LimitStep rl0 tr rl) : LimitInv (tr.map fun t => t.event) rl := by
  induction hr with
  | nil => exact LimitInv.fresh h0
  | @snoc tr rl rl' call _ hstep ih =>
    rw [map_append]
    cases call with
    | initializeAccount => exact ih.initializeAccount hstep
    | setAccountLimits =>
      obtain ⟨decreased, hset⟩ := hstep
      exact ih.setAccountLimits hset
    | processAccountLimitUpdates => exact ih.processAccountLimitUpdates hstep

/-- **The totals and the limits after any sequence of calls.**  The totals are the sums of the
committed limits; the limits that are read are the last ones set; and the next commit of the pending
limits ends, with the last ones set committed and nothing pending, if the sums that it goes through
fit 64 bits, and throws otherwise. -/
theorem totals_of_run {rl₀ : ResourceLimitsManager}
    {tr : List (Transition ResourceLimitsManager LimitCall)} (h₀ : rl₀.Fresh)
    (hr : Run LimitStep rl₀ tr rl) : (∀ r, rl.state.total r = sumOf rl.limits r) ∧
      (∀ account, rl.currentLimits account = lastLimits (tr.map fun t => t.event) account) ∧
      (SumsFit rl.limits rl.pendingByOwner → ∃ rl',
        (∀ fuel, rl.pendingByOwner.length < fuel → limitUpdateLoop fuel rl = .ok rl') ∧
        (∀ r, rl'.state.total r = sumOf rl'.limits r) ∧
        (∀ account, rl'.pendingLimits.find? account = none) ∧
        ∀ account, (rl'.limits.find? account).map (fun o => o.limits) =
            lastLimits (tr.map fun t => t.event) account ∧
          rl'.getAccountLimits account = rl.getAccountLimits account) ∧
      (¬SumsFit rl.limits rl.pendingByOwner → ∃ e, rl.processAccountLimitUpdates = .error e ∧
        e.type = .rateLimitingStateInconsistent) := by
  have h := limitInv_of_run h₀ hr
  obtain ⟨hok, herror⟩ := processAccountLimitUpdates_spec h.totals h.known
  refine ⟨fun r => (h.totals r).1, h.last, fun hfit => ?_, herror⟩
  obtain ⟨rl', hrun, hprocessed⟩ := hok hfit
  refine ⟨rl', fun fuel hfuel => ?_, fun r => (hprocessed.totals r).1, hprocessed.pending,
    fun account => ?_⟩
  · rw [limitUpdateLoop_eq hfuel, hrun]
  · have hcurrent : rl'.currentLimits account = rl.currentLimits account := by
      unfold currentLimits
      rw [hprocessed.pending account, none_or, hprocessed.limits account]
      rfl
    refine ⟨(hprocessed.limits account).trans (h.last account), ?_⟩
    unfold getAccountLimits
    rw [hcurrent]

lemma fresh_initializeDatabase : initializeDatabase.Fresh := by
  refine ⟨rfl, rfl, ?_⟩
  rintro (_ | _ | _)
  · rfl
  · rfl
  · rfl

def nextLimits (rl : ResourceLimitsManager) : LimitCall → Option ResourceLimitsManager
  | .initializeAccount account => (rl.initializeAccount account).toOption
  | .setAccountLimits account l => (rl.setAccountLimits account l).toOption.map Prod.fst
  | .processAccountLimitUpdates => rl.processAccountLimitUpdates.toOption

lemma limitStep_of_nextLimits {call : LimitCall} (h : rl.nextLimits call = some rl') :
    LimitStep rl call rl' := by
  cases call with
  | initializeAccount | processAccountLimitUpdates => exact eq_ok_of_toOption h
  | setAccountLimits =>
    obtain ⟨⟨rl1, decreased⟩, hset, rfl⟩ := map_eq_some_iff.mp h
    exact ⟨decreased, eq_ok_of_toOption hset⟩

theorem totals_of_run_demo :
    ∃ tr rl rl', Run LimitStep initializeDatabase tr rl ∧ rl.state.totalRamBytes = 0 ∧
      limitUpdateLoop 3 rl = .ok rl' ∧ rl'.state.totalRamBytes = sumOf rl'.limits .ram ∧
      (rl'.limits.find? ⟨1⟩).map (fun o => o.limits) = some ⟨5, 2, -1⟩ := by
  obtain ⟨tr, rl, hr, hP⟩ := exists_run_of_carryOut nextLimits initializeDatabase
    [.initializeAccount ⟨1⟩, .initializeAccount ⟨2⟩, .setAccountLimits ⟨1⟩ ⟨7, 7, 7⟩,
      .setAccountLimits ⟨2⟩ ⟨3, 3, 3⟩, .setAccountLimits ⟨1⟩ ⟨5, 2, -1⟩]
    (fun _ _ _ => limitStep_of_nextLimits)
    (P := fun tr rl => rl.state.totalRamBytes = 0 ∧
      rl.pendingByOwner = [⟨⟨1⟩, ⟨5, 2, -1⟩⟩, ⟨⟨2⟩, ⟨3, 3, 3⟩⟩] ∧
      rl.limits.rows = [⟨⟨1⟩, ⟨-1, -1, -1⟩⟩, ⟨⟨2⟩, ⟨-1, -1, -1⟩⟩] ∧
      lastLimits (tr.map fun t => t.event) ⟨1⟩ = some ⟨5, 2, -1⟩) (by decide)
  obtain ⟨htotal, hpending, hrows, hlast⟩ := hP
  have hlimits : rl.limits = ⟨[⟨⟨1⟩, ⟨-1, -1, -1⟩⟩, ⟨⟨2⟩, ⟨-1, -1, -1⟩⟩], by decide⟩ :=
    Table.ext hrows
  have hfit : SumsFit rl.limits rl.pendingByOwner := by
    rw [hpending, hlimits]
    refine ⟨?_, ?_, trivial⟩ <;> rintro (_ | _ | _) <;> decide
  obtain ⟨-, -, hprocess, -⟩ := totals_of_run fresh_initializeDatabase hr
  obtain ⟨rl', hloop, htotals, -, hcommitted⟩ := hprocess hfit
  refine ⟨tr, rl, rl', hr, htotal, hloop 3 (by rw [hpending]; decide), htotals .ram, ?_⟩
  rw [(hcommitted ⟨1⟩).1, hlast]

/-- One account gives up nearly half of all RAM that can be counted, and two others, whose names
come first, get as much: the totals fit before and after, but not after the second of the three. -/
theorem transient_overflow :
    ∃ tr rl, Run LimitStep initializeDatabase tr rl ∧ sumOf rl.limits .ram < 2 ^ 64 ∧
      sumOf (rl.pendingByOwner.foldl (fun limits o => limits.upsert o) rl.limits) .ram < 2 ^ 64 ∧
      rl.processAccountLimitUpdates = .error ⟨.rateLimitingStateInconsistent,
        "overflow when applying new value to ram_bytes"⟩ :=
  exists_run_of_carryOut nextLimits initializeDatabase
    [.initializeAccount ⟨1⟩, .initializeAccount ⟨2⟩, .initializeAccount ⟨3⟩,
      .setAccountLimits ⟨3⟩ ⟨2 ^ 63 - 1, 0, 0⟩, .processAccountLimitUpdates,
      .setAccountLimits ⟨3⟩ ⟨0, 0, 0⟩, .setAccountLimits ⟨1⟩ ⟨2 ^ 63 - 1, 0, 0⟩,
      .setAccountLimits ⟨2⟩ ⟨2 ^ 63 - 1, 0, 0⟩]
    (fun _ _ _ => limitStep_of_nextLimits) (by decide)

end ResourceLimitsManager

end Sysio
