import Sysio.ProducerPlugin.Watermarks

/-!
# No double signing

The invariant of whole runs puts together what holds of the branch, of the announced headers and of
the pending block.  `produced_safely` reads the guarantees off it.  The last of them, that the
double confirmation check never rejects a block of this node, needs that irreversibility has not
gone backwards on the branch; `double_confirm_rejects` is a run where it has: a producer that left
the schedule and comes back counts as if it had confirmed all blocks up to the irreversible one, and
then fewer blocks are irreversible.
-/

namespace Sysio

open List Table Option BlockHeaderState Result

variable {p : Name} {v : ℕ}

/-! ### Where the last block of a producer comes from -/

namespace BlockHeaderState

variable {env : HeaderEnv} {g s s' : BlockHeaderState} {e : HeaderInput} {tr : Branch}

/-- The last block of a producer is the new block, or what it was before, or the irreversible block
of a promotion. -/
lemma find?_lastProduced_cases (h : Accepts env s e s')
    (hv : s'.producerToLastProduced.find? p = some (p, v)) :
    e.producer = p ∧ s'.blockNum = v ∨ s.producerToLastProduced.find? p = some (p, v) ∨
      s'.dposIrreversibleBlocknum = v := by
  by_cases hself : e.producer = p
  · left
    have hnew := hself ▸ find?_lastProduced_self h
    exact ⟨hself, (Prod.mk.inj (some.inj (hnew.symm.trans hv))).2⟩
  · right
    rw [h.lastProduced_eq] at hv
    by_cases hpromotes : Promotes ⟨s, e, s'⟩
    · rw [if_pos hpromotes, promoteLastProduced, find?_upsert, if_neg hself, find?_rebuildMap,
        if_neg (Ne.symm hself), ite_none_right_eq_some, some.injEq, Prod.mk.injEq] at hv
      obtain ⟨-, hv⟩ := hv
      cases hfind : s.producerToLastProduced.find? p with
      | none =>
        right
        rw [← hv.2, existingOr, hfind]
        rfl
      | some r =>
        left
        obtain ⟨q, w⟩ := r
        obtain rfl : q = p := key_eq_of_find? hfind
        rw [← hv.2, existingOr, hfind]
        rfl
    · rw [if_neg hpromotes, find?_upsert, if_neg hself] at hv
      exact .inl hv

/-- **Where the last block of a producer comes from**: a block of the producer on the branch, or the
irreversible block of some block of the branch. -/
theorem lastProduced_origin (hg : g.producerToLastProduced = Table.empty)
    (hr : Run (Accepts env) g tr s) (hv : s.producerToLastProduced.find? p = some (p, v)) :
    (∃ t ∈ tr, t.post.header.producer = p ∧ t.post.blockNum = v) ∨
      ∃ t ∈ tr, t.post.dposIrreversibleBlocknum = v := by
  -- on the run: the entry is new with the last block, or older
  induction hr with
  | nil =>
    rw [hg, find?_empty] at hv
    cases hv
  | @snoc tr s s' e hr hs ih =>
    have hlast : (⟨s, e, s'⟩ : Transition BlockHeaderState HeaderInput) ∈ tr ++ [⟨s, e, s'⟩] :=
      mem_append_right _ (mem_singleton.mpr rfl)
    rcases find?_lastProduced_cases hs hv with ⟨hprod, hnum⟩ | hold | hlib
    · obtain ⟨_, hnext⟩ := next_eq_ok hs
      refine .inl ⟨_, hlast, ?_, hnum⟩
      show s'.header.producer = p
      rwa [hnext.header_eq]
    · rcases ih hold with ⟨t, ht, h⟩ | ⟨t, ht, h⟩
      · exact .inl ⟨t, mem_append_left _ ht, h⟩
      · exact .inr ⟨t, mem_append_left _ ht, h⟩
    · exact .inr ⟨_, hlast, hlib⟩

/-- If irreversibility never goes backwards, the head has the highest irreversible block. -/
lemma irreversible_le_head (hr : Run (Accepts env) g tr s)
    (hmono : ∀ t ∈ tr, t.pre.dposIrreversibleBlocknum ≤ t.post.dposIrreversibleBlocknum) :
    ∀ t ∈ tr, t.post.dposIrreversibleBlocknum ≤ s.dposIrreversibleBlocknum := by
  induction hr with
  | nil => simp
  | @snoc tr s s' e hr hs ih =>
    intro t ht
    rcases mem_append.mp ht with hold | hnew
    · have hstep := hmono ⟨s, e, s'⟩ (mem_append_right _ (mem_singleton.mpr rfl))
      exact (ih (fun t ht => hmono t (mem_append_left _ ht)) t hold).trans hstep
    · rw [mem_singleton.mp hnew]

end BlockHeaderState

/-! ### Signatures do not depend on the validator -/

namespace BlockHeaderState

lemma recoverKeys_trusting (env : HeaderEnv) (digest : Sha256) (sigs : List Signature)
    (keys : List PublicKey) :
    recoverKeys env.trusting digest sigs keys = recoverKeys env digest sigs keys := by
  induction sigs generalizing keys with
  | nil => rfl
  | cons sig sigs ih =>
    rw [recoverKeys, recoverKeys]
    exact congrArg _ (funext fun key => congrArg _ (funext fun _ => ih (key :: keys)))

lemma verifySignee_trusting (env : HeaderEnv) (s : BlockHeaderState) :
    s.verifySignee env.trusting = s.verifySignee env := by
  unfold verifySignee
  simp only [recoverKeys_trusting]
  rfl

end BlockHeaderState

lemma PendingBlockHeaderState.finishNextSigned_trusting (env : HeaderEnv)
    (p : PendingBlockHeaderState) (h : SignedBlockHeader) (signer : Sha256 → List Signature) :
    p.finishNextSigned env.trusting h signer = p.finishNextSigned env h signer := by
  unfold finishNextSigned sign
  simp only [verifySignee_trusting]
  rfl

namespace ProducerPlugin

open BlockHeaderState

variable {cfg : ProducerConfig} {env : HeaderEnv} {s s' : ProducerPlugin} {g : BlockHeaderState}

/-! ### The invariant of a run -/

/-- The number of a block on the head fits its type. -/
def Fits (g : BlockHeaderState) (s : ProducerPlugin) : Prop :=
  g.blockNum + s.branch.length + 1 < 2 ^ 32

instance (g : BlockHeaderState) (s : ProducerPlugin) : Decidable (s.Fits g) :=
  inferInstanceAs (Decidable (_ < _))

structure Inv (cfg : ProducerConfig) (env : HeaderEnv) (g : BlockHeaderState)
    (s : ProducerPlugin) : Prop where
  branch : Run (Accepts env.trusting) g s.branch s.head
  announced : s.AnnouncedInv cfg
  pending : ∀ p, s.pending = some p → s.PendingInv cfg env p

lemma Initial.inv (h : Initial env g s) : s.Inv cfg env g := by
  refine ⟨h.branch, ⟨?_, ?_, ?_⟩, ?_⟩
  · rw [h.announced]
    simp
  · rw [h.announced]
    exact List.Pairwise.nil
  · rw [h.announced]
    simp
  · rw [h.pending]
    nofun

lemma Inv.head_bounds (hg : ChainInv g) (hi : s.Inv cfg env g) (hfit : s.Fits g) :
    ChainInv s.head ∧ s.head.blockNum + 1 < 2 ^ 32 ∧
      s.head.dposIrreversibleBlocknum ≤ s.head.blockNum := by
  have hw : g.blockNum + s.branch.length < 2 ^ 32 := by
    unfold Fits at hfit
    omega
  have hinv := (chainInv_of_run hg hi.branch hw).1
  have hnum := (blockNum_of_run hi.branch hw).1
  refine ⟨hinv, ?_, ?_⟩
  · unfold Fits at hfit
    omega
  · have hle := hinv.irreversible_le
    have hle' := hinv.proposed_le
    omega

lemma Inv.abortBlock (hi : s.Inv cfg env g) : s.abortBlock.Inv cfg env g :=
  ⟨hi.branch, { hi.announced with }, nofun⟩

/-- Giving a block up, a header that may be announced is announced. -/
lemma Inv.announce (hi : s.Inv cfg env g) {b : AnnouncedBlock} (hb : s.MayAnnounce b) :
    (s.onBlockHeader cfg b).abortBlock.Inv cfg env g := by
  have hannounced := hi.announced.onBlockHeader hb
  exact ⟨hi.branch, { hannounced with }, nofun⟩

/-! ### The steps -/

lemma Inv.tick (hi : s.Inv cfg env g) (elapsed : ℕ) :
    { s with now := s.now + elapsed }.Inv cfg env g := by
  refine ⟨hi.branch, { hi.announced with },
    fun p hp => ?_⟩
  have hold := hi.pending p hp
  refine ⟨fun hmode => ?_, fun hwaits => hold.not_waits hwaits.of_later⟩
  obtain ⟨hguarded, hearly⟩ := hold.guarded hmode
  exact ⟨{ hguarded with },
    fun h => hearly h.of_later⟩

/-- An attempt to start a block touches the pending block and the mode only. -/
lemma startBlock_frame (cfg : ProducerConfig) (env : HeaderEnv) (s : ProducerPlugin)
    (a : Attempt) : ∃ mode pending, s.startBlock cfg env a =
      { s with pendingBlockMode := mode, pending := pending } := by
  unfold startBlock
  split
  · exact ⟨_, _, rfl⟩
  · split
    · exact ⟨_, _, rfl⟩
    · unfold startInMode
      split_ifs
      · exact ⟨_, _, rfl⟩
      · exact ⟨_, _, rfl⟩
      · unfold openBlock
        dsimp only
        split
        · exact ⟨_, _, rfl⟩
        · split_ifs <;> exact ⟨_, _, rfl⟩

lemma Inv.startBlock (hi : s.Inv cfg env g) (a : Attempt) :
    (s.startBlock cfg env a).Inv cfg env g := by
  have hpending := pendingInv_startBlock hi.pending a
  obtain ⟨mode, pending, heq⟩ := startBlock_frame cfg env s a
  rw [heq] at hpending ⊢
  exact ⟨hi.branch,
    { hi.announced with }, hpending⟩

lemma Inv.maybeProduceBlock (hg : ChainInv g) (hi : s.Inv cfg env g) (hfit : s.Fits g)
    (c : BlockContent) (o : CommitOutcome) : (s.maybeProduceBlock cfg env c o).Inv cfg env g := by
  unfold ProducerPlugin.maybeProduceBlock
  split
  · exact hi.abortBlock
  · next block hblock =>
    obtain ⟨p, header, hmode, hp, hsigned⟩ := signBlock_eq_ok hblock
    obtain ⟨hguarded, -⟩ := (hi.pending p hp).guarded hmode
    obtain ⟨-, hnum, hlib⟩ := hi.head_bounds hg hfit
    have hmay := hguarded.mayAnnounce hi.announced hnum hlib hsigned
    have hannounced := hi.announce hmay
    cases o with
    | refused => exact hi.abortBlock
    | announced => exact hannounced
    | committed =>
      obtain ⟨blockTime, hpending⟩ := hguarded.pending_eq
      rw [← PendingBlockHeaderState.finishNextSigned_trusting] at hsigned
      have hpending' : s.head.nextPending env.trusting blockTime (s.blocksToConfirm p.producer) =
          .ok p := hpending
      have haccepts := (next_of_finishNextSigned hpending' hsigned fun _ _ => rfl).1
      refine ⟨hi.branch.snoc haccepts, ?_, nofun⟩
      exact { hannounced.announced with }

lemma run_of_replayHeaders {es : List HeaderInput} {b b' : BlockHeaderState} {tr : Branch}
    (h : replayHeaders env b es = .ok (tr, b')) : Run (Accepts env) b tr b' := by
  induction es generalizing b tr with
  | nil =>
    cases h
    exact Run.nil
  | cons e es ih =>
    simp only [replayHeaders, bind_eq_ok, pure_eq_ok, Prod.mk.injEq] at h
    obtain ⟨b1, hnext, r, hr, rfl, rfl⟩ := h
    exact Run.cons hnext (ih hr)

lemma Inv.onIncomingBlock (hi : s.Inv cfg env g) {b : IncomingBlock}
    (h : s.onIncomingBlock cfg env g b = some s') : s'.Inv cfg env g := by
  unfold ProducerPlugin.onIncomingBlock at h
  split_ifs at h
  · cases h
    exact hi
  · obtain ⟨⟨branch, head⟩, hreplay, rfl⟩ := Option.map_eq_some_iff.mp h
    have hrun := run_of_replayHeaders (eq_ok_of_toOption hreplay)
    -- the header is announced or not, and the pending block is given up
    have hannounced : (b.header.elim s fun block =>
        s.onBlockHeader cfg (.received block)).abortBlock.Inv cfg env g := by
      cases b.header with
      | none => exact hi.abortBlock
      | some block => exact hi.announce (s.mayAnnounce_received block)
    refine ⟨hrun, ?_, nofun⟩
    exact { hannounced.announced with }

/-- A change of policy only matters for speculative blocks, which it gives up. -/
lemma Inv.reconsider (hi : s.Inv cfg env g) (paused : Bool) (age : ℤ) : { s with
      pauseProduction := paused
      maxIrreversibleBlockAgeUs := age }.reconsider.Inv cfg env g := by
  have hannounced := hi.announced
  unfold ProducerPlugin.reconsider
  split_ifs with hmode
  · exact ⟨hi.branch, { hannounced with }, nofun⟩
  · refine ⟨hi.branch, { hannounced with },
      fun p hp => ?_⟩
    have hproducing : s.pendingBlockMode = .producing := by
      cases h : s.pendingBlockMode with
      | producing => rfl
      | speculating => exact absurd h hmode
    obtain ⟨hguarded, hearly⟩ := (hi.pending p hp).guarded hproducing
    refine ⟨fun _ => ⟨{ hguarded with }, hearly⟩, fun hwaits => hearly hwaits.tooEarly⟩

lemma Inv.pause (hi : s.Inv cfg env g) : { s with pauseProduction := true }.Inv cfg env g := by
  have hannounced := hi.announced
  refine ⟨hi.branch, { hannounced with },
    fun p hp => ⟨fun hmode => ?_, ?_⟩⟩
  · obtain ⟨hguarded, hearly⟩ := (hi.pending p hp).guarded hmode
    exact ⟨{ hguarded with }, hearly⟩
  · rintro ⟨blockTime, scheduled, _, _, hmode, _⟩
    obtain ⟨-, -, -, hpause, -, -⟩ := chooseMode_eq_producing.mp hmode
    cases hpause

/-- **Every step keeps the invariant**, as long as block numbers fit. -/
theorem Inv.step (hg : ChainInv g) (hi : s.Inv cfg env g) (hfit : s.Fits g) {e : Event}
    (h : Step cfg env g s e s') : s'.Inv cfg env g := by
  cases e with
  | tick elapsed =>
    cases h
    exact hi.tick elapsed
  | startBlock a =>
    cases h
    exact hi.startBlock a
  | produceBlock c o =>
    cases h
    exact hi.maybeProduceBlock hg hfit c o
  | incomingBlock b => exact hi.onIncomingBlock h
  | abortBlock =>
    obtain rfl := some.inj h
    exact hi.abortBlock
  | pause =>
    obtain rfl := some.inj h
    exact hi.pause
  | resume =>
    obtain rfl := some.inj h
    exact hi.reconsider false s.maxIrreversibleBlockAgeUs
  | setMaxIrreversibleBlockAge age =>
    obtain rfl := some.inj h
    exact hi.reconsider s.pauseProduction age

lemma inv_of_run (hg : ChainInv g) {s0 : ProducerPlugin}
    {tr : List (Transition ProducerPlugin Event)} (h0 : Initial env g s0)
    (hr : Run (Step cfg env g) s0 tr s) (hfit : ∀ t ∈ tr, t.pre.Fits g) : s.Inv cfg env g :=
  (Run.forall_transition (C := fun s _ _ => s.Fits g) h0.inv
    (fun _ _ _ hi hfit h => hi.step hg hfit h) hr hfit).1

/-! ### The theorem -/

/-- The check that `next` makes on a block that is started in producing mode. -/
lemma Inv.checkDoubleConfirm_eq_ok (hg : ChainInv g)
    (hempty : g.producerToLastProduced = Table.empty) (hi : s.Inv cfg env g) (hfit : s.Fits g)
    {blockTime : UInt32} {scheduled : ProducerAuthority}
    (hmode : s.chooseMode cfg blockTime scheduled = .producing)
    (hseen : ∀ t ∈ s.branch, t.post.header.producer = scheduled.producerName →
      ∃ b ∈ s.announced, b.block = t.post)
    (hmono : ∀ t ∈ s.branch, t.pre.dposIrreversibleBlocknum ≤ t.post.dposIrreversibleBlocknum) :
    s.head.checkDoubleConfirm scheduled.producerName (s.blocksToConfirm scheduled.producerName) =
      .ok () := by
  obtain ⟨-, hnum, hlib⟩ := hi.head_bounds hg hfit
  obtain ⟨-, hmem, -, -, -, hexcluded⟩ := chooseMode_eq_producing.mp hmode
  obtain ⟨hirr, hmark⟩ := s.toNat_blocksToConfirm (by omega) hlib scheduled.producerName
  unfold checkDoubleConfirm
  cases hfind : s.head.producerToLastProduced.find? scheduled.producerName with
  | none => rfl
  | some r =>
    obtain ⟨p, v⟩ := r
    obtain rfl : p = scheduled.producerName := key_eq_of_find? hfind
    refine sysAssert_eq_ok.mpr ?_
    rw [u32_of_lt hnum, subU32_of_le hnum (by omega)]
    rcases lastProduced_origin hempty hi.branch hfind with ⟨t, ht, hprod, hv⟩ | ⟨t, ht, hv⟩
    · -- a block of the producer: it was announced, so it is at or below the watermark
      obtain ⟨b, hb, hblock⟩ := hseen t ht hprod
      rw [← hblock] at hprod hv
      obtain ⟨num, time, hget, hle, -⟩ := hi.announced.covered b hb (hprod ▸ hmem)
      rw [hprod] at hget
      unfold isExcluded at hexcluded
      rw [hget] at hexcluded hmark
      simp only [Bool.or_eq_false_iff, decide_eq_false_iff_not, not_lt] at hexcluded
      have hbelow : num + (s.blocksToConfirm scheduled.producerName).toNat ≤ s.head.blockNum :=
        hmark hexcluded.1
      omega
    · -- what was irreversible when the producer was scheduled still is
      have hle := irreversible_le_head hi.branch hmono t ht
      omega

/-- **Watermarks prevent double signing.**  In every run whose block numbers fit 32 bits: each block
that this node produces lies after every block of the same producer that was announced before, in
number, in time and with all that it confirms; it confirms no block that was irreversible for its
parent; and if all blocks of the producer on the branch were announced, and irreversibility never
goes backwards on the branch, the double confirmation check accepts the next one. -/
theorem produced_safely {initialKey : PublicKey} {initialTimestamp : UInt32} {chainId : Sha256}
    {s₀ : ProducerPlugin} {tr : List (Transition ProducerPlugin Event)}
    (h₀ : Initial env (genesis env initialKey initialTimestamp chainId) s₀)
    (hr : Run (Step cfg env (genesis env initialKey initialTimestamp chainId)) s₀ tr s)
    (hfit : ∀ t ∈ tr, t.pre.Fits (genesis env initialKey initialTimestamp chainId))
    (hlast : s.Fits (genesis env initialKey initialTimestamp chainId)) :
    s.announced.Pairwise SafelyAfter ∧
    (∀ parent block, AnnouncedBlock.produced parent block ∈ s.announced →
      parent.dposIrreversibleBlocknum < block.blockNum - block.header.confirmed.toNat) ∧
    ∀ blockTime scheduled, s.calculatePendingBlockTime = .ok blockTime →
      s.head.getScheduledProducer blockTime = some scheduled →
      s.chooseMode cfg blockTime scheduled = .producing →
      (∀ t ∈ s.branch, t.post.header.producer = scheduled.producerName →
        ∃ b ∈ s.announced, b.block = t.post) →
      (∀ t ∈ s.branch, t.pre.dposIrreversibleBlocknum ≤ t.post.dposIrreversibleBlocknum) →
      s.head.checkDoubleConfirm scheduled.producerName
        (s.blocksToConfirm scheduled.producerName) = .ok () := by
  have hg := ChainInv.genesis env initialKey initialTimestamp chainId
  have hi := inv_of_run hg h₀ hr hfit
  refine ⟨hi.announced.safe, hi.announced.above_irreversible, ?_⟩
  intro blockTime scheduled _ _ hmode hseen hmono
  exact hi.checkDoubleConfirm_eq_ok hg rfl hlast hmode hseen hmono

/-! ### Concrete runs -/

/-- A node that produces for one producer, with the key of the concrete chains. -/
def demoConfig (producer : Name) : ProducerConfig := ⟨[producer], fun k => decide (k = demoKey)⟩

/-- The plugin on the genesis block, with stale production enabled. -/
def demoPlugin (now : ℕ) : ProducerPlugin where
  head := demoGenesis 0
  branch := []
  pending := none
  pendingBlockMode := .speculating
  producerWatermarks := Table.empty
  productionEnabled := true
  pauseProduction := false
  irreversibleBlockTime := 0
  maxIrreversibleBlockAgeUs := -1
  now := now
  announced := []

lemma initial_demoPlugin (now : ℕ) : Initial demoEnv (demoGenesis 0) (demoPlugin now) :=
  ⟨Run.nil, rfl, rfl, rfl⟩

/-- A block is started, produced and committed, and half a second passes. -/
def demoProduction : List Event :=
  [.startBlock ⟨false, false⟩,
    .produceBlock ⟨Sha256.zero, Sha256.zero, none, [], none, fun _ => [⟨0⟩]⟩ (.committed 0),
    .tick blockIntervalUs]

/-- The authority of the initial producer. -/
def demoScheduled : ProducerAuthority := ⟨sysioName, ⟨1, [⟨demoKey, 1⟩]⟩⟩

theorem produced_safely_demo :
    ∃ tr s, Run (Step (demoConfig sysioName) demoEnv (demoGenesis 0)) (demoPlugin 0) tr s ∧
      s.announced.length = 2 ∧ s.announced.Pairwise SafelyAfter ∧
      s.head.checkDoubleConfirm sysioName (s.blocksToConfirm sysioName) = .ok () := by
  obtain ⟨tr, s, hr, hP⟩ := exists_run_of_carryOut
    (apply (demoConfig sysioName) demoEnv (demoGenesis 0)) (demoPlugin 0)
    (demoProduction ++ demoProduction) (fun _ _ _ h => h)
    (P := fun tr s => (∀ t ∈ tr, t.pre.Fits (demoGenesis 0)) ∧ s.Fits (demoGenesis 0) ∧
      s.announced.length = 2 ∧ s.calculatePendingBlockTime = .ok 3 ∧
      s.head.getScheduledProducer 3 = some demoScheduled ∧
      s.chooseMode (demoConfig sysioName) 3 demoScheduled = .producing ∧
      (∀ t ∈ s.branch, t.post.header.producer = demoScheduled.producerName →
        ∃ b ∈ s.announced, b.block = t.post) ∧
      ∀ t ∈ s.branch, t.pre.dposIrreversibleBlocknum ≤ t.post.dposIrreversibleBlocknum)
    (by decide)
  obtain ⟨hfit, hlast, hlength, htime, hscheduled, hmode, hseen, hmono⟩ := hP
  obtain ⟨hsafe, -, hcheck⟩ := produced_safely (initial_demoPlugin 0) hr hfit hlast
  exact ⟨tr, s, hr, hlength, hsafe, hcheck 3 demoScheduled htime hscheduled hmode hseen hmono⟩

/-- A fork on which producer 6 makes block 5. -/
def forkPlan : List BlockPlan :=
  [⟨1, 0, none⟩, ⟨2, 0, some (demoSchedule 1 [6])⟩, ⟨3, 0, none⟩, ⟨4, 0, none⟩]

/-- A branch on which producer 6 is scheduled when block 8 is irreversible, and the block after that
takes irreversibility back to block 3. -/
def returnPlan : List BlockPlan :=
  [⟨1, 0, none⟩, ⟨2, 0, some (demoSchedule 1 [1, 2, 3, 4])⟩, ⟨3, 0, none⟩,
    ⟨12, 0, none⟩, ⟨24, 0, none⟩, ⟨36, 0, none⟩,
    ⟨60, 2, some (demoSchedule 2 [1, 5, 6])⟩, ⟨72, 2, none⟩, ⟨84, 2, none⟩,
    ⟨108, 2, none⟩, ⟨120, 2, none⟩, ⟨132, 2, none⟩,
    ⟨156, 2, none⟩]

/-- The blocks of a planned chain are received one after the other. -/
def receptions (plans : List BlockPlan) : List Event :=
  match produceChain demoEnv (demoGenesis 0) plans with
  | .error _ => []
  | .ok (tr, _) => (List.range tr.length).map fun i =>
    .incomingBlock ⟨tr[i]?.map (·.post), (tr.take (i + 1)).map (·.event), true, 0⟩

/-- The authority of producer 6. -/
def demoReturning : ProducerAuthority := ⟨⟨6⟩, ⟨1, [⟨demoKey, 1⟩]⟩⟩

/-- **The check can reject a block of this node**: producer 6 may start a block in slot 168, all its
blocks on the branch are announced (there are none), and it wants to confirm 9 blocks, above its
watermark and above the irreversible block 3, but not above block 8. -/
theorem double_confirm_rejects :
    ∃ tr s, Run (Step (demoConfig ⟨6⟩) demoEnv (demoGenesis 0)) (demoPlugin (167 * blockIntervalUs))
        tr s ∧
      s.calculatePendingBlockTime = .ok 168 ∧
      s.head.getScheduledProducer 168 = some demoReturning ∧
      s.chooseMode (demoConfig ⟨6⟩) 168 demoReturning = .producing ∧
      (∀ t ∈ s.branch, t.post.header.producer = demoReturning.producerName →
        ∃ b ∈ s.announced, b.block = t.post) ∧
      s.blocksToConfirm ⟨6⟩ = 9 ∧
      s.head.checkDoubleConfirm ⟨6⟩ 9 =
        .error ⟨.producerDoubleConfirm, "producer double-confirming known range"⟩ :=
  exists_run_of_carryOut (apply (demoConfig ⟨6⟩) demoEnv (demoGenesis 0))
    (demoPlugin (167 * blockIntervalUs)) (receptions forkPlan ++ receptions returnPlan)
    (fun _ _ _ h => h) (by decide)

end ProducerPlugin

end Sysio
