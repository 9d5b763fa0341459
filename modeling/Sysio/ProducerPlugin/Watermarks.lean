import Mathlib.Order.CompletePartialOrder
import Sysio.BlockHeaderState.DoubleConfirm
import Sysio.Controller.Production
import Sysio.ProducerPlugin.Basic

/-!
# Watermarks against double signing

A block that is produced lies above the watermark of its producer, and so does every block that it
confirms (`toNat_blocksToConfirm`).  Every header that was announced before lies at or below the
watermark.  That is why two blocks of one producer never overlap.

What has to be shown besides is that the block that is produced is one that was started in producing
mode, under the watermark that still holds.  A pending block survives an attempt to start a block
that waits for the window of production, and such an attempt sets the mode to producing; but it does
not wait as long as there is a pending block (`PendingInv.not_waits`), because the clock does not go
backwards and every change of policy gives the block up.

The double confirmation check of `block_header_state::next` looks at the last block of the producer
on the branch, or at the irreversible block of the time when the producer was scheduled
(`lastProduced_origin`).  The first is below the watermark if the header was announced; the second
is not confirmed as long as irreversibility does not go backwards.
-/

namespace Sysio

open Result List BlockHeaderState Nat PendingBlockHeaderState AnnouncedBlock Bool ProducerWatermarks
  Option

variable {signer : Sha256 → List Signature} {t x y : ℕ} {h header : SignedBlockHeader} {a : Attempt}

/-! ### Watermarks -/

lemma le_max_timestamp (a b : UInt32) : a ≤ max a b ∧ b ≤ max a b := by
  show a ≤ (if a ≤ b then b else a) ∧ b ≤ (if a ≤ b then b else a)
  split_ifs with hab
  · exact ⟨hab, UInt32.le_refl _⟩
  · exact ⟨UInt32.le_refl _, UInt32.le_of_lt (UInt32.not_le.mp hab)⟩

lemma ProducerWatermarks.getWatermark_considerNewWatermark (ws : ProducerWatermarks) (p q : Name)
    (n : ℕ) (t : UInt32) : (ws.considerNewWatermark p n t).getWatermark q = if p = q then
        some (match ws.getWatermark p with
          | some (num, time) => (max num n, max time t)
          | none => (n, t))
      else ws.getWatermark q := by
  unfold considerNewWatermark getWatermark
  cases hfind : ws.find? p with
  | none | some =>
    rw [Table.find?_upsert]
    split_ifs with hpq
    · rfl
    · rfl

/-- The producer is seen at least at this block number and in this slot. -/
def ProducerWatermarks.Covers (ws : ProducerWatermarks) (b : BlockHeaderState) : Prop :=
  ∃ num time, ws.getWatermark b.header.producer = some (num, time) ∧ b.blockNum ≤ num ∧
    b.header.timestamp ≤ time

/-- A new watermark covers the block it is for, and every block that was covered before. -/
lemma ProducerWatermarks.covers_considerNewWatermark {ws : ProducerWatermarks}
    {b b' : BlockHeaderState} (h : ws.Covers b' ∨ b' = b) :
    (ws.considerNewWatermark b.header.producer b.blockNum b.header.timestamp).Covers b' := by
  unfold Covers
  rw [getWatermark_considerNewWatermark]
  split_ifs with hp
  · refine ⟨_, _, rfl, ?_⟩
    rcases h with ⟨num, time, hmark, hnum, htime⟩ | rfl
    · rw [← hp] at hmark
      rw [hmark]
      exact ⟨hnum.trans (le_max_left _ _), UInt32.le_trans htime (le_max_timestamp _ _).1⟩
    · cases ws.getWatermark b'.header.producer with
      | none => exact ⟨le_rfl, UInt32.le_refl _⟩
      | some r => exact ⟨le_max_right _ _, (le_max_timestamp _ _).2⟩
  · rcases h with h | rfl
    · exact h
    · exact absurd rfl hp

namespace ProducerPlugin

variable {cfg : ProducerConfig} {env : HeaderEnv} {s s' : ProducerPlugin} {g : BlockHeaderState}

/-! ### What a block may confirm -/

lemma toNat_ofNat_min (hx : x ≤ 2 ^ 16 - 1) :
    (UInt16.ofNat (min x y)).toNat = min x y := by
  rw [UInt16.toNat_ofNat', mod_eq_of_lt (by omega)]

/-- **What a block may confirm** lies above the irreversible block of its parent, and above a
watermark that does not exclude the block.  Without a watermark it confirms nothing. -/
theorem toNat_blocksToConfirm (hnum : s.head.blockNum < 2 ^ 32)
    (hlib : s.head.dposIrreversibleBlocknum ≤ s.head.blockNum) (producer : Name) :
    s.head.dposIrreversibleBlocknum + (s.blocksToConfirm producer).toNat ≤ s.head.blockNum ∧
      match s.producerWatermarks.getWatermark producer with
      | none => (s.blocksToConfirm producer).toNat = 0
      | some (num, _) =>
        num ≤ s.head.blockNum → num + (s.blocksToConfirm producer).toNat ≤ s.head.blockNum := by
  have hsub := subU32_of_le hnum hlib
  unfold blocksToConfirm
  cases s.producerWatermarks.getWatermark producer with
  | none =>
    rw [toNat_ofNat_min (zero_le _), hsub]
    omega
  | some w =>
    obtain ⟨num, time⟩ := w
    dsimp only
    split_ifs with hlt
    · have hwatermark := subU32_of_le hnum hlt.le
      rw [toNat_ofNat_min (min_le_left _ _), hsub, hwatermark]
      omega
    · rw [toNat_ofNat_min (zero_le _), hsub]
      omega

/-! ### Waiting for the window -/

/-- An attempt to start a block would find that it is too early for one in its slot. -/
def TooEarly (s : ProducerPlugin) : Prop :=
  ∃ blockTime, s.calculatePendingBlockTime = .ok blockTime ∧ s.waitsForProduction blockTime

/-- An attempt to start a block would wait for the window. -/
def Waits (cfg : ProducerConfig) (s : ProducerPlugin) : Prop :=
  ∃ blockTime scheduled, s.calculatePendingBlockTime = .ok blockTime ∧
    s.head.getScheduledProducer blockTime = some scheduled ∧
    s.chooseMode cfg blockTime scheduled = .producing ∧ s.waitsForProduction blockTime

lemma Waits.tooEarly (h : s.Waits cfg) : s.TooEarly := by
  obtain ⟨blockTime, _, htime, -, -, hwaits⟩ := h
  exact ⟨blockTime, htime, hwaits⟩

lemma nextTimestamp_eq_ok {slot next : UInt32} (h : nextTimestamp slot = .ok next) :
    next.toNat = slot.toNat + 1 := by
  simp only [nextTimestamp, bind_eq_ok, pure_eq_ok, sysAssert_eq_ok] at h
  obtain ⟨_, hle, rfl⟩ := h
  rw [UInt32.toNat_add, UInt32.toNat_one, mod_eq_of_lt (by omega)]

lemma timePoint_timestampOf_le (t : ℕ) : timePoint (timestampOf t) ≤ t := by
  have hmod : (timestampOf t).toNat ≤ t / blockIntervalUs := by
    rw [timestampOf, UInt32.toNat_ofNat']
    exact mod_le _ _
  exact (mul_le_mul_right _ hmod).trans (div_mul_le_self t blockIntervalUs)

variable {blockTime : UInt32} {elapsed : ℕ} {scheduled : ProducerAuthority} {b : BlockHeaderState}
  {p : PendingBlockHeaderState}

/-- It is only too early for a block if the head is ahead of the clock. -/
lemma now_lt_of_waits (htime : s.calculatePendingBlockTime = .ok blockTime)
    (hwaits : s.waitsForProduction blockTime) : s.now < timePoint s.head.header.timestamp := by
  by_contra hle
  have hbase : max s.now (timePoint s.head.header.timestamp) = s.now := max_eq_left (not_lt.mp hle)
  rw [calculatePendingBlockTime, hbase] at htime
  have hwindow : timePoint blockTime - blockIntervalUs = timePoint (timestampOf s.now) := by
    rw [timePoint, nextTimestamp_eq_ok htime, Nat.succ_mul, Nat.add_sub_cancel, timePoint]
  have hnow := hwaits.2
  rw [hwindow] at hnow
  exact absurd (timePoint_timestampOf_le s.now) (not_le.mpr hnow)

/-- While the clock is behind the head, the slot does not depend on it. -/
lemma calculatePendingBlockTime_eq (hlt : t < timePoint s.head.header.timestamp) :
    { s with now := t }.calculatePendingBlockTime =
      nextTimestamp (timestampOf (timePoint s.head.header.timestamp)) := by
  unfold calculatePendingBlockTime
  rw [max_eq_right hlt.le]

lemma TooEarly.of_later (h : { s with now := s.now + elapsed }.TooEarly) : s.TooEarly := by
  obtain ⟨blockTime, htime, hwaits⟩ := h
  have hlt : s.now + elapsed < timePoint s.head.header.timestamp := now_lt_of_waits htime hwaits
  rw [calculatePendingBlockTime_eq hlt] at htime
  refine ⟨blockTime, ?_, hwaits.1, lt_of_le_of_lt (le_add_right _ _) hwaits.2⟩
  rw [← htime]
  exact calculatePendingBlockTime_eq (t := s.now) (by omega)

lemma isStale.later (h : s.isStale) : { s with now := s.now + elapsed }.isStale := by
  refine ⟨h.1, h.2.trans ?_⟩
  show ((s.now - s.irreversibleBlockTime : ℕ) : ℤ) ≤ (s.now + elapsed - s.irreversibleBlockTime : ℕ)
  omega

lemma chooseMode_eq_producing : s.chooseMode cfg blockTime scheduled = .producing ↔
      s.productionEnabled = true ∧ scheduled.producerName ∈ cfg.producers ∧
      ¬scheduled.authority.keys.all (fun k => !cfg.hasKey k.key) = true ∧
      s.pauseProduction = false ∧ ¬s.isStale ∧
      s.isExcluded scheduled.producerName blockTime = false := by
  unfold chooseMode
  constructor
  · intro h
    split_ifs at h with h1 h2 h3 h4 h5 h6
    exact ⟨eq_true_of_not_eq_false h1, h2, h3, eq_false_of_not_eq_true h4, h5,
      eq_false_of_not_eq_true h6⟩
  · rintro ⟨henabled, hmem, hkeys, hpause, hstale, hexcluded⟩
    rw [if_neg (by rw [henabled]; decide), if_neg (not_not.mpr hmem),
      if_neg hkeys, if_neg (by rw [hpause]; exact false_ne_true), if_neg hstale,
      if_neg (by rw [hexcluded]; exact false_ne_true)]

/-- A mode that is chosen later on would be chosen now. -/
lemma chooseMode_of_later
    (h : { s with now := s.now + elapsed }.chooseMode cfg blockTime scheduled = .producing) :
    s.chooseMode cfg blockTime scheduled = .producing := by
  rw [chooseMode_eq_producing] at h ⊢
  obtain ⟨henabled, hmem, hkeys, hpause, hstale, hexcluded⟩ := h
  exact ⟨henabled, hmem, hkeys, hpause, fun h => hstale h.later, hexcluded⟩

lemma Waits.of_later (h : { s with now := s.now + elapsed }.Waits cfg) : s.Waits cfg := by
  obtain ⟨blockTime, scheduled, htime, hscheduled, hmode, hwaits⟩ := h
  have hlt : s.now + elapsed < timePoint s.head.header.timestamp := now_lt_of_waits htime hwaits
  rw [calculatePendingBlockTime_eq hlt] at htime
  refine ⟨blockTime, scheduled, ?_, hscheduled, chooseMode_of_later hmode, hwaits.1,
    lt_of_le_of_lt (le_add_right _ _) hwaits.2⟩
  rw [← htime]
  exact calculatePendingBlockTime_eq (t := s.now) (by omega)

/-! ### Signed blocks -/

lemma fields_of_finishNextSigned (hs : p.finishNextSigned env h signer = .ok b) :
    b.toBlockHeaderStateCommon = p.toBlockHeaderStateCommon ∧ b.header.timestamp = p.timestamp ∧
      b.header.confirmed = p.confirmed ∧ b.header.producer = p.producer := by
  have hheader := header_of_finishNextSigned hs
  simp only [finishNextSigned, bind_eq_ok, pure_eq_ok] at hs
  obtain ⟨r, hr, b', hsign, _, _, rfl⟩ := hs
  obtain ⟨hcommon, -, htime, hconf, hprod⟩ := fields_of_finishNextUnsigned hr
  obtain ⟨sig, hsigned, _⟩ := sign_eq_ok hsign
  refine ⟨?_, ?_, ?_, ?_⟩
  · rw [hsigned, ← hcommon]
  all_goals rwa [hheader]

/-- The pending block is one of a producer of this node that the watermark does not exclude, and it
confirms what the watermark allows. -/
structure Guarded (cfg : ProducerConfig) (env : HeaderEnv) (s : ProducerPlugin)
    (p : PendingBlockHeaderState) : Prop where
  mem : p.producer ∈ cfg.producers
  not_excluded : s.isExcluded p.producer p.timestamp = false
  pending_eq : ∃ blockTime, s.head.nextPending env blockTime (s.blocksToConfirm p.producer) = .ok p
  confirmed_eq : p.confirmed = s.blocksToConfirm p.producer

lemma signBlock_eq_ok {c : BlockContent} (h : s.signBlock cfg env c = .ok b) :
    ∃ p header, s.pendingBlockMode = .producing ∧ s.pending = some p ∧
      p.finishNextSigned env header c.signer = .ok b := by
  simp only [signBlock, bind_eq_ok, sysAssert_eq_ok, require_eq_ok] at h
  obtain ⟨_, hmode, p, hp, _, _, header, _, hsigned⟩ := h
  exact ⟨p, _, hmode, hp, hsigned⟩

/-! ### What has been announced -/

/-- The block numbers that a block confirms, its own included. -/
def confirmedRange (b : BlockHeaderState) : Set ℕ :=
  Set.Icc (b.blockNum - b.header.confirmed.toNat) b.blockNum

/-- A block of this node lies after an earlier one of the same producer: in number, in time, and
with everything it confirms. -/
def SafelyAfter (earlier later : AnnouncedBlock) : Prop :=
  ∀ parent block, later = .produced parent block →
    earlier.block.header.producer = block.header.producer →
    earlier.block.blockNum < block.blockNum ∧
    earlier.block.header.timestamp < block.header.timestamp ∧
    Disjoint (confirmedRange earlier.block) (confirmedRange block)

structure AnnouncedInv (cfg : ProducerConfig) (s : ProducerPlugin) : Prop where
  covered : ∀ b ∈ s.announced, b.block.header.producer ∈ cfg.producers →
    s.producerWatermarks.Covers b.block
  safe : s.announced.Pairwise SafelyAfter
  /-- No block of this node confirms a block that was irreversible for its parent. -/
  above_irreversible : ∀ parent block, produced parent block ∈ s.announced →
    parent.dposIrreversibleBlocknum < block.blockNum - block.header.confirmed.toNat

/-- The block can be announced next. -/
structure MayAnnounce (s : ProducerPlugin) (b : AnnouncedBlock) : Prop where
  safe : ∀ earlier ∈ s.announced, SafelyAfter earlier b
  above_irreversible : ∀ parent block, b = .produced parent block →
    parent.dposIrreversibleBlocknum < block.blockNum - block.header.confirmed.toNat

lemma AnnouncedInv.onBlockHeader (hi : s.AnnouncedInv cfg) {b : AnnouncedBlock}
    (hb : s.MayAnnounce b) : (s.onBlockHeader cfg b).AnnouncedInv cfg := by
  refine ⟨?_, ?_, ?_⟩
  · intro b' hb' hmem
    show (if _ then _ else _ : ProducerWatermarks).Covers b'.block
    rcases mem_append.mp hb' with hold | hnew
    · split_ifs
      · exact covers_considerNewWatermark (.inl (hi.covered b' hold hmem))
      · exact hi.covered b' hold hmem
    · rw [mem_singleton.mp hnew] at hmem ⊢
      rw [if_pos hmem]
      exact covers_considerNewWatermark (.inr rfl)
  · refine pairwise_append.mpr ⟨hi.safe, pairwise_singleton _ _, ?_⟩
    intro earlier hearlier later hlater
    rw [mem_singleton.mp hlater]
    exact hb.safe earlier hearlier
  · intro parent block hmem
    rcases mem_append.mp hmem with hold | hnew
    · exact hi.above_irreversible parent block hold
    · exact hb.above_irreversible parent block (mem_singleton.mp hnew).symm

lemma mayAnnounce_received (s : ProducerPlugin) (block : BlockHeaderState) :
    s.MayAnnounce (.received block) :=
  ⟨fun _ _ _ _ h => (nomatch h), fun _ _ h => (nomatch h)⟩

/-- **A guarded block can be announced once it is signed.** -/
theorem Guarded.mayAnnounce (hi : s.AnnouncedInv cfg) (hp : s.Guarded cfg env p)
    (hnum : s.head.blockNum + 1 < 2 ^ 32) (hlib : s.head.dposIrreversibleBlocknum ≤ s.head.blockNum)
    (hb : p.finishNextSigned env header signer = .ok b) : s.MayAnnounce (.produced s.head b) := by
  obtain ⟨hcommon, htime, hconf, hprod⟩ := fields_of_finishNextSigned hb
  obtain ⟨blockTime, hpending⟩ := hp.pending_eq
  obtain ⟨slot, proauth, -, -, -, hpeq⟩ := nextPending_eq_ok hpending
  have hbnum : b.blockNum = s.head.blockNum + 1 := by
    rw [show b.blockNum = p.blockNum from congrArg (·.blockNum) hcommon, hpeq]
    exact u32_of_lt hnum
  have hbconf : b.header.confirmed = s.blocksToConfirm b.header.producer := by
    rw [hconf, hprod, hp.confirmed_eq]
  obtain ⟨hirr, hmark⟩ := s.toNat_blocksToConfirm (by omega) hlib b.header.producer
  have hexcluded := hp.not_excluded
  rw [← hprod, ← htime] at hexcluded
  refine ⟨?_, ?_⟩
  · rintro earlier hearlier _ block heq hsame
    obtain ⟨rfl, rfl⟩ := produced.inj heq
    -- the earlier block is at or below the watermark, the new one is above it
    have hmem : earlier.block.header.producer ∈ cfg.producers := by
      rw [hsame, hprod]
      exact hp.mem
    obtain ⟨num, time, hget, hle, htle⟩ := hi.covered earlier hearlier hmem
    rw [hsame] at hget
    unfold isExcluded at hexcluded
    rw [hget] at hexcluded hmark
    simp only [Bool.or_eq_false_iff, decide_eq_false_iff_not, not_lt, UInt32.not_le] at hexcluded
    have hbelow : num + (s.blocksToConfirm b.header.producer).toNat ≤ s.head.blockNum :=
      hmark hexcluded.1
    refine ⟨by omega, UInt32.lt_of_le_of_lt htle hexcluded.2, ?_⟩
    rw [Set.disjoint_left]
    intro x hx hx'
    have hupper : x ≤ earlier.block.blockNum := hx.2
    have hlower : b.blockNum - b.header.confirmed.toNat ≤ x := hx'.1
    rw [hbconf] at hlower
    omega
  · rintro _ _ heq
    obtain ⟨rfl, rfl⟩ := produced.inj heq
    rw [hbconf]
    omega

/-! ### The pending block -/

structure PendingInv (cfg : ProducerConfig) (env : HeaderEnv) (s : ProducerPlugin)
    (p : PendingBlockHeaderState) : Prop where
  guarded : s.pendingBlockMode = .producing → s.Guarded cfg env p ∧ ¬s.TooEarly
  not_waits : ¬s.Waits cfg

/-- A block that is opened is pending in the state that `next` returns for it. -/
lemma openBlock_eq (hp : (s.openBlock env a blockTime scheduled).pending = some p) :
    s.head.nextPending env blockTime
        (if s.pendingBlockMode = .producing then s.blocksToConfirm scheduled.producerName else 0) =
      .ok p ∧
    s.openBlock env a blockTime scheduled = { s with
      pending := some p
      pendingBlockMode :=
        if p.validBlockSigningAuthority ≠ scheduled.authority then .speculating
        else s.pendingBlockMode } := by
  unfold openBlock at hp ⊢
  cases hq : s.head.nextPending env blockTime
      (if s.pendingBlockMode = .producing then s.blocksToConfirm scheduled.producerName else 0) with
  | error e =>
    simp only [hq] at hp
    cases hp
  | ok q =>
    simp only [hq] at hp ⊢
    by_cases hfails : a.fails = true
    · rw [if_pos hfails] at hp
      cases hp
    · rw [if_neg hfails] at hp ⊢
      obtain rfl : q = p := some.inj hp
      exact ⟨rfl, rfl⟩

lemma guarded_of_nextPending (htime : s.calculatePendingBlockTime = .ok blockTime)
    (hscheduled : s.head.getScheduledProducer blockTime = some scheduled)
    (hmode : s.chooseMode cfg blockTime scheduled = .producing)
    (hp : s.head.nextPending env blockTime (s.blocksToConfirm scheduled.producerName) = .ok p) :
    s.Guarded cfg env p := by
  obtain ⟨slot, proauth, hslot, hproauth, -, rfl⟩ := nextPending_eq_ok hp
  have hne : blockTime ≠ 0 := by
    rintro rfl
    have hnext := nextTimestamp_eq_ok htime
    rw [UInt32.toNat_zero] at hnext
    omega
  obtain rfl : blockTime = slot := by
    simp only [nextSlot, if_pos hne, bind_eq_ok, pure_eq_ok] at hslot
    obtain ⟨_, _, hslot⟩ := hslot
    exact hslot
  obtain rfl : scheduled = proauth := some.inj (hscheduled.symm.trans hproauth)
  obtain ⟨-, hmem, -, -, -, hexcluded⟩ := chooseMode_eq_producing.mp hmode
  exact ⟨hmem, hexcluded, ⟨blockTime, hp⟩, rfl⟩

lemma pendingInv_openBlock (htime : s.calculatePendingBlockTime = .ok blockTime)
    (hscheduled : s.head.getScheduledProducer blockTime = some scheduled)
    (hmode : s.pendingBlockMode = s.chooseMode cfg blockTime scheduled)
    (hwaits : ¬(s.pendingBlockMode = .producing ∧ s.waitsForProduction blockTime)) :
    ∀ p, (s.openBlock env a blockTime scheduled).pending = some p →
      (s.openBlock env a blockTime scheduled).PendingInv cfg env p := by
  intro p hp
  obtain ⟨hnext, heq⟩ := openBlock_eq hp
  have hunique : ∀ {t}, s.calculatePendingBlockTime = .ok t → t = blockTime := fun h =>
    Except.ok.inj (h.symm.trans htime)
  rw [heq]
  refine ⟨fun hproducing => ?_, ?_⟩
  · -- the mode was producing before the authorities were compared
    have hbefore : s.pendingBlockMode = .producing := by
      split_ifs at hproducing
      exact hproducing
    rw [if_pos hbefore] at hnext
    have hguarded : s.Guarded cfg env p :=
      guarded_of_nextPending htime hscheduled (hmode.symm.trans hbefore) hnext
    refine ⟨{ hguarded with }, ?_⟩
    rintro ⟨t, ht, hearly⟩
    obtain rfl := hunique ht
    exact hwaits ⟨hbefore, hearly⟩
  · rintro ⟨t, scheduled', ht, hscheduled', hchosen, hearly⟩
    obtain rfl := hunique ht
    obtain rfl : scheduled = scheduled' := some.inj (hscheduled.symm.trans hscheduled')
    exact hwaits ⟨hmode.trans hchosen, hearly⟩

/-- An attempt to start a block keeps the invariant of the pending block. -/
lemma pendingInv_startBlock (hi : ∀ p, s.pending = some p → s.PendingInv cfg env p) (a : Attempt) :
    ∀ p, (s.startBlock cfg env a).pending = some p →
      (s.startBlock cfg env a).PendingInv cfg env p := by
  unfold startBlock
  split
  · exact hi
  · next blockTime htime =>
    split
    · exact hi
    · next scheduled hscheduled =>
      unfold startInMode
      split_ifs with hsync hwaits
      · -- a speculative block is not worth the while: the old one stays, in speculating mode
        intro p hp
        refine ⟨fun hproducing => ?_, (hi p hp).not_waits⟩
        rw [hsync.1] at hproducing
        cases hproducing
      · -- there is no pending block, since it would have waited before
        intro p hp
        exact absurd ⟨blockTime, scheduled, htime, hscheduled, hwaits.1, hwaits.2⟩
          (hi p hp).not_waits
      · exact pendingInv_openBlock htime hscheduled rfl hwaits

end ProducerPlugin

end Sysio
