import Sysio.Controller.Chain

/-!
# The way of a producer schedule

A schedule is proposed by a transaction, announced by the header of a later block, pending until the
announcing block is irreversible, and then active.  `ScheduleStep` says how a block moves the
pipeline: it keeps it, it announces a schedule into an empty one, or it promotes the pending
schedule.  Every block of a chain takes such a step from its parent (`scheduleStep_of_finished`), so
that what is proposed always has the version after the last schedule (`lastVersion`), whether that
is pending or already active.

The block that promotes a schedule compares the number of the announcing block with its own
`dpos_irreversible_blocknum`.  That of its parent can still be smaller.
-/

namespace Sysio

open List Option BlockHeaderState Controller PendingBlockHeaderState BlockHeaderStateCommon RamWorld

namespace BlockHeaderState

/-- The version of the last schedule of the chain, pending or active. -/
def lastVersion (h : BlockHeaderState) : UInt32 :=
  if h.pendingSchedule.schedule.producers = [] then h.activeSchedule.version
  else h.pendingSchedule.schedule.version

end BlockHeaderState

/-- How a block moves the schedules of its parent. -/
inductive ScheduleStep (parent child : BlockHeaderState) : Prop
  | kept (hactive : child.activeSchedule = parent.activeSchedule)
      (hpending : child.pendingSchedule = parent.pendingSchedule)
  | announced {schedule : ProducerAuthoritySchedule} {hash : Sha256}
      (hroom : parent.pendingSchedule.schedule.producers = [])
      (hactive : child.activeSchedule = parent.activeSchedule)
      (hpending : child.pendingSchedule = ⟨child.blockNum, hash, schedule⟩)
      (hannounces : child.header.toBlockHeader.Announces schedule)
      (hversion : schedule.version = parent.activeSchedule.version + 1)
  | promoted (hnonempty : parent.pendingSchedule.schedule.producers ≠ [])
      (hirreversible : parent.pendingSchedule.scheduleLibNum ≤ child.dposIrreversibleBlocknum)
      (hactive : child.activeSchedule = parent.pendingSchedule.schedule)
      (hpending : child.pendingSchedule.schedule.producers = [])

namespace ChainState

variable {env : ControllerEnv} {s s' : ChainState} {bb : BuildingBlock} {bsp : BlockHeaderState}
  {when_ : UInt32} {n : UInt16} {first : ProducerAuthoritySchedule}

/-! ### One block -/

variable {head : BlockHeaderState} {p : PendingBlockHeaderState}

lemma schedules_of_nextPending (hp : head.nextPending env.toHeaderEnv when_ n = .ok p) :
    p.prevPendingSchedule = head.pendingSchedule ∧
      p.activeScheduleVersion = head.activeSchedule.version ∧
      (p.wasPendingPromoted = true ↔ head.promotes p.dposIrreversibleBlocknum) ∧
      p.activeSchedule = if head.promotes p.dposIrreversibleBlocknum then
        head.pendingSchedule.schedule else head.activeSchedule := by
  obtain ⟨slot, proauth, -, -, -, rfl⟩ := nextPending_eq_ok hp
  exact ⟨rfl, rfl, decide_eq_true_iff, rfl⟩

lemma not_promotes_of_empty {lib : ℕ}
    (hempty : head.pendingSchedule.schedule.producers = []) : ¬head.promotes lib := by
  rintro ⟨hlength, -⟩
  exact hlength (length_eq_zero_iff.mpr hempty)

/-- A schedule that passes the checks of a new one finds the pipeline empty. -/
lemma checkNewSchedule_eq_ok
    {version : UInt32} (hp : head.nextPending env.toHeaderEnv when_ n = .ok p)
    (hcheck : p.checkNewSchedule version = .ok ()) :
    head.pendingSchedule.schedule.producers = [] ∧ p.activeSchedule = head.activeSchedule ∧
      version = head.activeSchedule.version + 1 := by
  obtain ⟨hprev, -, -, hactive⟩ := schedules_of_nextPending hp
  simp only [checkNewSchedule, Result.bind_eq_ok, sysAssert_eq_ok] at hcheck
  obtain ⟨-, -, -, hversion, hempty⟩ := hcheck
  rw [hprev] at hempty
  rw [if_neg (not_promotes_of_empty hempty)] at hactive
  exact ⟨hempty, hactive, hactive ▸ hversion⟩

section

variable (hp : head.nextPending env.toHeaderEnv when_ n = .ok bb.pendingBlockHeaderState)
include hp

/-- **A finished block takes a step of the pipeline.** -/
theorem scheduleStep_of_finished  (hf : Finished bb bsp) : ScheduleStep head bsp := by
  obtain ⟨hprev, -, hpromoted, hactive⟩ := schedules_of_nextPending hp
  have hcommon := hf.result.common_eq
  have hactive' : bsp.activeSchedule = bb.pendingBlockHeaderState.activeSchedule :=
    congrArg activeSchedule hcommon
  have hlib : bsp.dposIrreversibleBlocknum = bb.pendingBlockHeaderState.dposIrreversibleBlocknum :=
    congrArg dposIrreversibleBlocknum hcommon
  have hnum : bsp.blockNum = bb.pendingBlockHeaderState.blockNum := congrArg blockNum hcommon
  have hschedule := hf.schedule_eq
  cases hnew : bb.newPendingProducerSchedule with
  | some =>
    rw [hnew] at hschedule
    obtain ⟨announced, hash, hpending, -, -, hannounces, hcheck⟩ := hschedule
    obtain ⟨hempty, hsame, hversion⟩ := checkNewSchedule_eq_ok hp hcheck
    exact .announced hempty (hactive'.trans hsame) (hnum ▸ hpending) hannounces hversion
  | none =>
    rw [hnew] at hschedule
    rw [nextPendingSchedule, hprev] at hschedule
    by_cases h : head.promotes bb.pendingBlockHeaderState.dposIrreversibleBlocknum
    · rw [if_pos h] at hactive
      rw [if_pos (hpromoted.mpr h)] at hschedule
      refine .promoted (fun hnil => not_promotes_of_empty hnil h) (hlib ▸ h.2)
        (hactive'.trans hactive) ?_
      rw [hschedule]
    · rw [if_neg h] at hactive
      rw [if_neg (fun ht => h (hpromoted.mp ht))] at hschedule
      exact .kept (hactive'.trans hactive) hschedule

variable {schedule : ProducerAuthoritySchedule} {status : BlockStatus}

/-- A header that announces a schedule has a parent without a pending one. -/
lemma room_of_announces (hf : Finished bb bsp) (ha : bsp.header.toBlockHeader.Announces schedule) :
    head.pendingSchedule.schedule.producers = [] := by
  obtain ⟨announced, -, hmap, hcheck⟩ := hf.result.pending_eq
  rw [hf.result.exts_eq] at hmap
  have hsome : announced.isSome = true := by
    rw [← isSome_map (f := Prod.fst), hmap]
    rcases ha with ⟨l, hl, -⟩ | hmem
    · rw [hl]
      cases bsp.header.headerExtensions.findSome? HeaderExtension.newSchedule <;> rfl
    · have hfound : (bsp.header.headerExtensions.findSome?
          HeaderExtension.newSchedule).isSome = true :=
        findSome?_isSome_iff.mpr ⟨_, hmem, rfl⟩
      obtain ⟨x, hx⟩ := isSome_iff_exists.mp hfound
      rw [hx]
      rfl
  obtain ⟨a, ha⟩ := isSome_iff_exists.mp hsome
  exact (checkNewSchedule_eq_ok hp (hcheck a ha)).1

/-- While a block is built on `head`, the last schedule is the one that the finished block will
have. -/
lemma lastVersion_of_finished
    (hf : Finished bb bsp) : bsp.lastVersion = (lastSchedule bb).version := by
  obtain ⟨hprev, -, hpromoted, hactive⟩ := schedules_of_nextPending hp
  have hactive' : bsp.activeSchedule = bb.pendingBlockHeaderState.activeSchedule :=
    congrArg activeSchedule hf.result.common_eq
  have hschedule := hf.schedule_eq
  cases hnew : bb.newPendingProducerSchedule with
  | some schedule =>
    rw [hnew] at hschedule
    obtain ⟨announced, hash, hpending, hversion, hlength, -, -⟩ := hschedule
    have hiff : announced.producers = [] ↔ schedule.producers = [] := by
      rw [← length_eq_zero_iff, hlength, length_eq_zero_iff]
    simp only [lastVersion, hpending, lastSchedule, hnew, getD_some, hiff, hactive', hversion]
    split_ifs <;> rfl
  | none =>
    rw [hnew] at hschedule
    rw [nextPendingSchedule, hprev] at hschedule
    simp only [lastVersion, hschedule, lastSchedule, hnew, getD_none, hprev, hactive']
    by_cases h : head.promotes bb.pendingBlockHeaderState.dposIrreversibleBlocknum
    · -- what was pending is active now, and is still the last schedule
      have hne : head.pendingSchedule.schedule.producers ≠ [] :=
        fun hnil => not_promotes_of_empty hnil h
      rw [if_pos h] at hactive
      rw [if_pos (hpromoted.mpr h), if_pos rfl, if_neg hne, hactive]
    · rw [if_neg (fun ht => h (hpromoted.mp ht))]
      split_ifs <;> rfl

/-- A block that announces nothing is started with the last schedule of its parent. -/
lemma lastSchedule_of_started (hnew : bb.newPendingProducerSchedule = none) :
    (lastSchedule bb).version = head.lastVersion := by
  obtain ⟨hprev, -, -, hactive⟩ := schedules_of_nextPending hp
  simp only [lastSchedule, hnew, getD_none, hprev, lastVersion]
  by_cases hempty : head.pendingSchedule.schedule.producers = []
  · rw [if_neg (not_promotes_of_empty hempty)] at hactive
    rw [if_pos hempty, if_pos hempty, hactive]
  · rw [if_neg hempty, if_neg hempty]

end

/-! ### The invariant -/

/-- The schedule was announced by a block whose number is at most the irreversible one of the block
that promoted it, in a chain whose newest block comes first. -/
def PromotedIn (chain : List BlockState) (schedule : ProducerAuthoritySchedule) : Prop :=
  ∃ promoting parent older, promoting :: parent :: older <:+ chain ∧
    parent.pendingSchedule.schedule = schedule ∧ promoting.activeSchedule = schedule ∧
    ∃ a ∈ parent :: older, a.header.toBlockHeader.Announces schedule ∧
      a.blockNum ≤ promoting.dposIrreversibleBlocknum

lemma PromotedIn.cons {chain : List BlockState}
    (h : PromotedIn chain schedule) (b : BlockState) : PromotedIn (b :: chain) schedule := by
  obtain ⟨promoting, parent, older, hsuffix, hrest⟩ := h
  exact ⟨promoting, parent, older, hsuffix.trans (suffix_cons b chain), hrest⟩

/-- The schedules of a block with the ones below it, in a chain with the given first schedule. -/
structure Scheduled (first : ProducerAuthoritySchedule) (x : BlockState × ChainDatabase)
    (below : List (BlockState × ChainDatabase)) : Prop where
  origin : x.1.activeSchedule = first ∨ PromotedIn (x.1 :: below.map Prod.fst) x.1.activeSchedule
  active_ne : x.1.activeSchedule.producers ≠ []
  /-- What is pending was announced in the chain, as the version after the active one; only the
  first schedule is pending and active at once. -/
  pending : x.1.pendingSchedule.schedule.producers ≠ [] →
    x.1.pendingSchedule.schedule = x.1.activeSchedule ∨
    x.1.pendingSchedule.schedule.version = x.1.activeSchedule.version + 1 ∧
      ∃ a ∈ x.1 :: below.map Prod.fst, a.blockNum = x.1.pendingSchedule.scheduleLibNum ∧
        a.header.toBlockHeader.Announces x.1.pendingSchedule.schedule
  proposed : ∀ p ∈ x.2.proposedSchedule, p.2.version = x.1.lastVersion + 1
  step : ∀ y ∈ below.head?, ScheduleStep y.1.toBlockHeaderState x.1.toBlockHeaderState
  room : ∀ y ∈ below.head?, ∀ schedule, x.1.header.toBlockHeader.Announces schedule →
    y.1.pendingSchedule.schedule.producers = []

/-- A block that is being built proposes the version after its last schedule. -/
structure Proposes (env : ControllerEnv) (s : ChainState) (bb : BuildingBlock) : Prop where
  header : ∃ when_ n, s.controller.head.nextPending env.toHeaderEnv when_ n =
    .ok bb.pendingBlockHeaderState
  proposed : ∀ p ∈ s.controller.proposedSchedule, p.2.version = (lastSchedule bb).version + 1

lemma proposes_of_started {features : List Sha256}
    (hp : s.controller.head.nextPending env.toHeaderEnv when_ n = .ok bb.pendingBlockHeaderState)
    (hstarted : Started env s features status bb s')
    (hG : Scheduled first (s.controller.head, s.database) s.below) : Proposes env s' bb := by
  refine ⟨⟨when_, n, by rw [hstarted.head_eq]; exact hp⟩, ?_⟩
  -- whatever is still proposed was proposed before the block, which announces nothing then
  have hcases : ∀ p ∈ s'.controller.proposedSchedule,
      p ∈ s.controller.proposedSchedule ∧ bb.newPendingProducerSchedule = none := by
    intro p hmem
    by_cases hstatus : status = .ephemeral
    · obtain ⟨hnew, hdb, -⟩ := hstarted.ephemeral hstatus
      have heq : s'.controller.proposedSchedule = s.controller.proposedSchedule :=
        congrArg ChainDatabase.proposedSchedule hdb
      exact ⟨heq ▸ hmem, hnew⟩
    · obtain ⟨handlers, -, hdb⟩ := hstarted.database_eq hstatus
      have heq : s'.controller.proposedSchedule =
          if bb.newPendingProducerSchedule.isSome then none else s.controller.proposedSchedule :=
        congrArg ChainDatabase.proposedSchedule hdb
      rw [heq] at hmem
      cases hnew : bb.newPendingProducerSchedule with
      | none =>
        rw [hnew] at hmem
        exact ⟨hmem, rfl⟩
      | some =>
        rw [hnew] at hmem
        cases hmem
  intro p hmem
  obtain ⟨hbefore, hnew⟩ := hcases p hmem
  rw [lastSchedule_of_started hp hnew]
  exact hG.proposed p hbefore

lemma Proposes.call {bb' : BuildingBlock} (h : Proposes env s bb)
    (hsame : SameBlock bb status s bb' s') (hcalled : Called s bb status s') :
    Proposes env s' bb' := by
  have hlast : lastSchedule bb' = lastSchedule bb := by
    simp only [lastSchedule, hsame.header_eq, hsame.schedule_eq]
  obtain ⟨when_, n, hp⟩ := h.header
  refine ⟨⟨when_, n, ?_⟩, ?_⟩
  · rwa [hsame.head_eq, hsame.header_eq]
  · rw [hlast]
    rcases hcalled.proposed with heq | ⟨blockNum, producers, heq⟩
    · rw [heq]
      exact h.proposed
    · rw [heq]
      intro p hmem
      cases hmem
      rfl

lemma Scheduled.commit {head : BlockState} {db : ChainDatabase}
    (hG : Scheduled first (s.controller.head, db) s.below) (hB : Proposes env s bb)
    (hf : Finished bb head.toBlockHeaderState) :
    Scheduled first (head, s.database) ((s.controller.head, db) :: s.below) := by
  obtain ⟨when_, n, hp⟩ := hB.header
  have hstep := scheduleStep_of_finished hp hf
  have hproposed : ∀ p ∈ s.controller.proposedSchedule, p.2.version = head.lastVersion + 1 := by
    rw [lastVersion_of_finished hp hf]
    exact hB.proposed
  have hlink : ∀ y ∈ ((s.controller.head, db) :: s.below).head?,
      ScheduleStep y.1.toBlockHeaderState head.toBlockHeaderState := by
    intro y hy
    cases hy
    exact hstep
  have hroom : ∀ y ∈ ((s.controller.head, db) :: s.below).head?, ∀ schedule,
      head.header.toBlockHeader.Announces schedule →
        y.1.pendingSchedule.schedule.producers = [] := by
    intro y hy schedule ha
    cases hy
    exact room_of_announces hp hf ha
  -- a block that promotes nothing has the active schedule of its parent
  have horigin : head.activeSchedule = s.controller.head.activeSchedule →
      head.activeSchedule = first ∨
        PromotedIn (head :: s.controller.head :: s.below.map Prod.fst) head.activeSchedule := by
    intro hactive
    rw [hactive]
    exact hG.origin.imp_right fun h => h.cons head
  cases hstep with
  | kept hactive hpending =>
    refine ⟨horigin hactive, hactive ▸ hG.active_ne, ?_, hproposed, hlink, hroom⟩
    show head.pendingSchedule.schedule.producers ≠ [] → _
    intro hne
    rw [hpending] at hne
    rw [hpending, hactive]
    rcases hG.pending hne with hfirst | ⟨hversion, a, ha, hnum⟩
    · exact .inl hfirst
    · exact .inr ⟨hversion, a, mem_cons_of_mem _ ha, hnum⟩
  | announced hempty hactive hpending hannounces hversion =>
    refine ⟨horigin hactive, hactive ▸ hG.active_ne, ?_, hproposed, hlink, hroom⟩
    intro _
    rw [hpending, hactive]
    exact .inr ⟨hversion, head, mem_cons_self, rfl, hannounces⟩
  | promoted hnonempty hirreversible hactive hpending =>
    refine ⟨?_, hactive ▸ hnonempty, fun hne => absurd hpending hne, hproposed, hlink, hroom⟩
    rcases hG.pending hnonempty with hfirst | ⟨-, a, ha, hnum, hannounces⟩
    · exact horigin (hactive.trans hfirst)
    · refine .inr ⟨head, s.controller.head, s.below.map Prod.fst, suffix_rfl, hactive.symm,
        rfl, a, ha, ?_, ?_⟩
      · show a.header.toBlockHeader.Announces head.activeSchedule
        rwa [hactive]
      · rwa [hnum]

lemma kept_scheduled (env : ControllerEnv) (first : ProducerAuthoritySchedule) :
    Kept env (fun _ => True) (Scheduled first) (fun s bb _ => Proposes env s bb) where
  start _ hp _ hstarted hG := proposes_of_started hp hstarted hG
  call _ hsame hcalled hB := hB.call hsame hcalled
  commit _ _ hf _ hB hG := hG.commit hB hf

/-- The schedule with which a chain begins. -/
def firstSchedule (initialKey : PublicKey) : ProducerAuthoritySchedule :=
  ⟨0, [⟨sysioName, ⟨1, [⟨initialKey, 1⟩]⟩⟩]⟩

lemma scheduled_initial (env : ControllerEnv) (initialKey : PublicKey) (initialTimestamp : UInt32)
    (chainId : Sha256) (ram : RamWorld) :
    Invariant (Scheduled (firstSchedule initialKey)) (fun s bb _ => Proposes env s bb)
      (initial env initialKey initialTimestamp chainId ram) := by
  refine ⟨⟨⟨.inl rfl, cons_ne_nil _ _, fun _ => .inl rfl, nofun, nofun, nofun⟩, trivial⟩,
    .inl ⟨rfl, rfl⟩⟩

lemma scheduled_of_run {initialKey : PublicKey} {initialTimestamp : UInt32} {chainId : Sha256}
    {ram : RamWorld} {tr : List (Transition ChainState Event)}
    (hr : Run (Step env) (initial env initialKey initialTimestamp chainId ram) tr s) :
    Invariant (Scheduled (firstSchedule initialKey)) (fun s bb _ => Proposes env s bb) s :=
  run_induction (H := fun _ => True) (scheduled_initial env initialKey initialTimestamp chainId ram)
    (fun _ _ => Invariant.of_move (kept_scheduled env (firstSchedule initialKey))) hr
    fun _ _ => trivial

/-! ### Chains from genesis -/

lemma ScheduleStep.version {x y : BlockState × ChainDatabase}
    {below : List (BlockState × ChainDatabase)} (h : Scheduled first y below)
    (hstep : ScheduleStep y.1.toBlockHeaderState x.1.toBlockHeaderState) :
    x.1.activeSchedule.version = y.1.activeSchedule.version ∨
      x.1.activeSchedule.version = y.1.activeSchedule.version + 1 := by
  cases hstep with
  | kept hactive _ | announced _ hactive _ _ _ => exact .inl (by rw [hactive])
  | promoted hnonempty _ hactive _ =>
    rw [hactive]
    rcases h.pending hnonempty with hfirst | ⟨hversion, -⟩
    · exact .inl (by rw [hfirst])
    · exact .inr hversion

lemma Scheduled.promoteProposed (h : Scheduled first (s.controller.head, s.database) s.below)
    (hp : s.controller.head.nextPending env.toHeaderEnv when_ n = .ok p) :
    ∃ promoted, s.controller.promoteProposed p = .ok promoted := by
  obtain ⟨hprev, hversion, -, -⟩ := schedules_of_nextPending hp
  unfold Controller.promoteProposed
  cases hproposed : s.controller.proposedSchedule with
  | none => exact ⟨none, rfl⟩
  | some x =>
    obtain ⟨blockNum, schedule⟩ := x
    have hnext : schedule.version = s.controller.head.lastVersion + 1 :=
      h.proposed (blockNum, schedule) hproposed
    by_cases hroom : blockNum ≤ p.dposIrreversibleBlocknum ∧
        p.prevPendingSchedule.schedule.producers.length = 0
    · have hempty : s.controller.head.pendingSchedule.schedule.producers = [] := by
        rw [← hprev]
        exact length_eq_zero_iff.mp hroom.2
      rw [lastVersion, if_pos hempty, ← hversion] at hnext
      simp only [if_pos hroom]
      rw [hnext]
      exact ⟨some schedule, by simp [sysAssert]⟩
    · exact ⟨none, by simp only [if_neg hroom]; rfl⟩

/-- The pipeline of a chain, whose blocks are listed with the newest one first. -/
structure PipelineInOrder (env : ControllerEnv) (first : ProducerAuthoritySchedule)
    (s : ChainState) : Prop where
  versions : ∀ child parent older, child :: parent :: older <:+ s.blocks →
    child.activeSchedule.version = parent.activeSchedule.version ∨
      child.activeSchedule.version = parent.activeSchedule.version + 1
  irreversible : ∀ b older, b :: older <:+ s.blocks →
    b.activeSchedule = first ∨ PromotedIn (b :: older) b.activeSchedule
  /-- A schedule is announced only while none is pending, and is then the pending one until it is
  promoted. -/
  one_pending : ∀ child parent older, child :: parent :: older <:+ s.blocks →
    (∀ schedule, child.header.toBlockHeader.Announces schedule →
      parent.pendingSchedule.schedule.producers = []) ∧
    (child.pendingSchedule.schedule.producers = [] ∨
      child.pendingSchedule = parent.pendingSchedule ∨
      child.header.toBlockHeader.Announces child.pendingSchedule.schedule)
  active_ne : ∀ b ∈ s.blocks, b.activeSchedule.producers ≠ []
  check_passes : s.controller.pending = none → ∀ when_ n p,
    s.controller.head.nextPending env.toHeaderEnv when_ n = .ok p →
    ∃ promoted, s.controller.promoteProposed p = .ok promoted

/-- **The producer schedule pipeline is in order in every chain from genesis.** -/
theorem pipelineInOrder_of_run {initialKey : PublicKey} {initialTimestamp : UInt32}
    {chainId : Sha256} {ram : RamWorld} {tr : List (Transition ChainState Event)}
    (hr : Run (Step env) (initial env initialKey initialTimestamp chainId ram) tr s) :
    PipelineInOrder env (firstSchedule initialKey) s := by
  have hinv := scheduled_of_run hr
  have hat : ∀ b older, b :: older <:+ s.blocks → ∃ db below, below.map Prod.fst = older ∧
      Stacked (Scheduled (firstSchedule initialKey)) ((b, db) :: below) :=
    fun b older hsuffix => hinv.stacked.of_suffix hsuffix
  -- two blocks, one on top of the other
  have hpair : ∀ child parent older, child :: parent :: older <:+ s.blocks →
      ∃ db db' below, Scheduled (firstSchedule initialKey) (parent, db') below ∧
        Scheduled (firstSchedule initialKey) (child, db) ((parent, db') :: below) := by
    intro child parent older hsuffix
    obtain ⟨db, below, hmap, hchild, hbelow⟩ := hat child _ hsuffix
    obtain ⟨y, below', rfl, rfl, -⟩ := map_eq_cons_iff.mp hmap
    exact ⟨db, y.2, below', hbelow.1, hchild⟩
  refine ⟨?_, ?_, ?_, ?_, ?_⟩
  · intro child parent older hsuffix
    obtain ⟨db, db', below, hparent, hchild⟩ := hpair child parent older hsuffix
    exact ScheduleStep.version (x := (child, db)) hparent (hchild.step _ rfl)
  · intro b older hsuffix
    obtain ⟨db, below, rfl, hb, -⟩ := hat b older hsuffix
    exact hb.origin
  · intro child parent older hsuffix
    obtain ⟨db, db', below, -, hchild⟩ := hpair child parent older hsuffix
    refine ⟨hchild.room _ rfl, ?_⟩
    cases hchild.step _ rfl with
    | kept _ hpending => exact .inr (.inl hpending)
    | announced _ _ hpending hannounces _ =>
      refine .inr (.inr ?_)
      show child.header.toBlockHeader.Announces child.pendingSchedule.schedule
      rwa [hpending]
    | promoted _ _ _ hpending => exact .inl hpending
  · intro b hb
    obtain ⟨newer, older, heq⟩ := append_of_mem hb
    obtain ⟨db, below, -, hscheduled, -⟩ := hat b older ⟨newer, heq.symm⟩
    exact hscheduled.active_ne
  · intro hpending when_ n p hp
    exact (hinv.top hpending).promoteProposed hp

/-! ### A schedule on its way -/

/-- A chain whose first block proposes a schedule, which the second announces and the third makes
active. -/
def demoProposal : List Event :=
  [.startBlock 2 0 [] .incomplete,
    .call (.setProposedProducers [⟨⟨5⟩, ⟨1, [⟨BlockHeaderState.demoKey, 1⟩]⟩⟩]),
    .produce fun _ => [⟨0⟩],
    .startBlock 3 0 [] .incomplete, .produce fun _ => [⟨0⟩],
    .startBlock 4 0 [] .incomplete, .produce fun _ => [⟨0⟩]]

def demoChain (ram : RamWorld) : ChainState :=
  initial demoControllerEnv BlockHeaderState.demoKey 1 Sha256.zero ram

theorem pipelineInOrder_demoProposal : ∃ (tr : List (Transition ChainState Event)) (s : ChainState),
    Run (Step demoControllerEnv) (demoChain demoWorld) tr s ∧
      s.blocks.map (fun b => b.activeSchedule.version) = [1, 0, 0, 0] ∧
      PipelineInOrder demoControllerEnv (firstSchedule BlockHeaderState.demoKey) s := by
  obtain ⟨tr, s, hr, hP⟩ := exists_run_of_carryOut (nextLocal demoControllerEnv)
    (demoChain demoWorld) demoProposal (fun _ _ _ => step_of_nextLocal)
    (P := fun _ s => s.blocks.map (fun b => b.activeSchedule.version) = [1, 0, 0, 0])
    (by decide)
  exact ⟨tr, s, hr, hP, pipelineInOrder_of_run hr⟩

/-- **The announcing block can be above the irreversible block of the parent**: the promoting block
computes its own `dpos_irreversible_blocknum`, and that one counts. -/
theorem promoted_above_irreversible_of_parent :
    ∃ (tr : List (Transition ChainState Event)) (s : ChainState) (child parent : BlockState)
      (older : List BlockState), Run (Step demoControllerEnv) (demoChain demoWorld) tr s ∧
      s.blocks = child :: parent :: older ∧ child.activeSchedule ≠ parent.activeSchedule ∧
      (∃ a ∈ s.blocks, a.header.toBlockHeader.Announces child.activeSchedule) ∧
      ∀ a ∈ s.blocks, a.header.toBlockHeader.Announces child.activeSchedule →
        parent.dposIrreversibleBlocknum < a.blockNum := by
  obtain ⟨tr, s, hr, child, hchild, parent, hparent, hP⟩ := exists_run_of_carryOut
    (nextLocal demoControllerEnv) (demoChain demoWorld) demoProposal
    (fun _ _ _ => step_of_nextLocal)
    (P := fun _ s => ∃ child ∈ s.blocks.head?, ∃ parent ∈ s.blocks.tail.head?,
      child.activeSchedule ≠ parent.activeSchedule ∧
      (∃ a ∈ s.blocks, a.header.toBlockHeader.Announces child.activeSchedule) ∧
      ∀ a ∈ s.blocks, a.header.toBlockHeader.Announces child.activeSchedule →
        parent.dposIrreversibleBlocknum < a.blockNum)
    (by decide)
  refine ⟨tr, s, child, parent, s.blocks.tail.tail, hr, ?_, hP⟩
  rw [← eq_cons_of_mem_head? hparent, ← eq_cons_of_mem_head? hchild]

end ChainState

end Sysio
