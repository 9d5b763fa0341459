import Sysio.ChainPlugin.Signals

/-!
# The transaction retry database

`trx_retry_db` keeps the transactions whose senders want to hear what becomes of them.  For each it
has the number of the block in which it was last seen, or 0.  `applied_transaction` sets the number
and `block_start` takes it back, if the block lies at or above the one that starts.  A sender is
told of success when enough blocks lie on top of the block, or when it is irreversible, and of
failure when an irreversible block is later than the expiration of the transaction.

`Tracks` says what the number means at any moment: a block of the chain shows the transaction, or
the pending block does, or the transaction was seen in a block that has been aborted since; and
whenever a block of the chain shows the transaction, the number is that of the block.  What the
database can see is not all there is, though.  It passes over delayed transactions, and over what
looks like `onblock`, so it may report the expiration of a transaction that is in the chain
(`exists_expired_in_block`).
-/

namespace Sysio

open Result List Option Table SignalChain

variable {expiry time : ℕ} {e : Signal}

/-- `lib_totem`: wait until the block is irreversible. -/
def libTotem : ℕ := 2 ^ 16 - 1

structure TrackedTransaction where
  id : Sha256
  /-- In microseconds. -/
  expiry : ℕ
  numBlocks : ℕ
  blockNum : ℕ
  trxTraceV : Option TransactionTrace
  lastTry : ℕ
  deriving DecidableEq, Repr

namespace TrackedTransaction

def readyBlockNum (tt : TrackedTransaction) : ℕ :=
  if tt.blockNum = 0 then 2 ^ 32 - 2
  else if tt.numBlocks = libTotem then 2 ^ 32 - 1
  else u32 (tt.blockNum + tt.numBlocks)

/-- The change of `on_applied_transaction`. -/
def see (trace : TransactionTrace) (tt : TrackedTransaction) : TrackedTransaction :=
  { tt with blockNum := trace.blockNum, trxTraceV := some trace }

@[simp]
lemma see_id (trace : TransactionTrace) (tt : TrackedTransaction) : (tt.see trace).id = tt.id :=
  rfl

/-- The change of `rollback_to`.  A transaction that would be sent again at once gets ten
seconds. -/
def rollback (retryInterval now : ℕ) (tt : TrackedTransaction) : TrackedTransaction :=
  { tt with
    lastTry := if tt.lastTry + retryInterval ≤ now then tt.lastTry + 10000000 else tt.lastTry
    blockNum := 0
    trxTraceV := none }

/-- The transaction has to be sent again (`retry_trxs`). -/
def Due (retryInterval now : ℕ) (tt : TrackedTransaction) : Prop :=
  tt.blockNum = 0 ∧ tt.lastTry + retryInterval ≤ now

instance (retryInterval now : ℕ) (tt : TrackedTransaction) : Decidable (tt.Due retryInterval now) :=
  inferInstanceAs (Decidable (_ ∧ _))

end TrackedTransaction

/-- What a sender is told. -/
inductive RetryResult
  /-- The trace of the transaction. -/
  | success (trace : Option TransactionTrace)
  /-- `expired_tx_exception`. -/
  | expired
  deriving DecidableEq, Repr

/-- The call of the function that was given for a transaction. -/
structure Callback where
  id : Sha256
  result : RetryResult
  deriving DecidableEq, Repr

/-- The settings of the database, and the memory that a transaction takes. -/
structure RetrySettings where
  maxMemUsageSize : ℕ
  retryInterval : ℕ
  memorySize : TrackedTransaction → ℕ

/-- `trx_retry_db_impl`. -/
structure TrxRetryDb where
  trackedTrxs : Table Sha256 TrackedTransaction TrackedTransaction.id

namespace TrxRetryDb

def trackTransaction (settings : RetrySettings) (db : TrxRetryDb) (id : Sha256) (expiry : ℕ)
    (numBlocks : Option UInt16) (now : ℕ) : Result TrxRetryDb := do
  sysAssert (db.trackedTrxs.sumBy settings.memorySize < settings.maxMemUsageSize)
    .txResourceExhaustion "Transaction exceeded  transaction-retry-max-storage-size-gb limit"
  -- `insert` does nothing if the transaction is tracked already
  pure ⟨db.trackedTrxs.insert
    ⟨id, expiry, (numBlocks.map UInt16.toNat).getD libTotem, 0, none, now⟩⟩

def onAppliedTransaction (db : TrxRetryDb) (trace : TransactionTrace) : TrxRetryDb :=
  if trace.receipt ≠ some .executed then db
  else if trace.scheduled then db
  else if trace.producerBlockId = none then db
  else if trace.isOnblock then db
  else ⟨db.trackedTrxs.modify trace.id (TrackedTransaction.see trace)
    (TrackedTransaction.see_id trace)⟩

/-- `on_block_start`, with `rollback_to`. -/
def onBlockStart (settings : RetrySettings) (db : TrxRetryDb) (blockNum now : ℕ) : TrxRetryDb :=
  ⟨db.trackedTrxs.mapRows
    (fun tt => if blockNum ≤ tt.blockNum then tt.rollback settings.retryInterval now else tt)
    fun tt => by split_ifs <;> rfl⟩

section

variable (db : TrxRetryDb)

/-- Calls the functions of the transactions that satisfy `p` and forgets the transactions. -/
def ack (p : TrackedTransaction → Bool)
    (result : TrackedTransaction → RetryResult) : TrxRetryDb × List Callback :=
  (⟨db.trackedTrxs.filter fun tt => !p tt⟩,
    (db.trackedTrxs.rows.filter p).map fun tt => ⟨tt.id, result tt⟩)

def ackReadyTrxsByBlockNum (blockNum : ℕ) : TrxRetryDb × List Callback :=
  db.ack (fun tt => decide (tt.readyBlockNum ≤ blockNum)) fun tt => .success tt.trxTraceV

def ackReadyTrxsByLib (libBlockNum : ℕ) : TrxRetryDb × List Callback :=
  db.ack (fun tt => decide (1 ≤ tt.blockNum ∧ tt.blockNum ≤ libBlockNum))
    fun tt => .success tt.trxTraceV

def clearExpired (blockTime : ℕ) : TrxRetryDb × List Callback :=
  db.ack (fun tt => decide (tt.expiry ≤ blockTime)) fun _ => .expired

end

/-- `retry_trxs`, with the transactions that are sent again. -/
def retryTrxs (settings : RetrySettings) (db : TrxRetryDb) (now : ℕ) : TrxRetryDb × List Sha256 :=
  (⟨db.trackedTrxs.mapRows
      (fun tt => if tt.Due settings.retryInterval now then { tt with lastTry := now } else tt)
      fun tt => by split_ifs <;> rfl⟩,
    (db.trackedTrxs.rows.filter fun tt => decide (tt.Due settings.retryInterval now)).map
      TrackedTransaction.id)

def onAcceptedBlock (settings : RetrySettings) (db : TrxRetryDb) (blockNum now : ℕ) :
    TrxRetryDb × List Callback :=
  let (db, acks) := db.ackReadyTrxsByBlockNum blockNum
  ((db.retryTrxs settings now).1, acks)

def onIrreversibleBlock (db : TrxRetryDb) (blockNum blockTime : ℕ) : TrxRetryDb × List Callback :=
  let (db, acks) := db.ackReadyTrxsByLib blockNum
  let (db, expired) := db.clearExpired blockTime
  (db, acks ++ expired)

/-- What the database does on a signal. -/
def onSignal (settings : RetrySettings) (db : TrxRetryDb) (e : Signal) (now : ℕ) :
    TrxRetryDb × List Callback :=
  match e with
  | .blockStart blockNum _ _ => (db.onBlockStart settings blockNum now, [])
  | .appliedTransaction trace _ => (db.onAppliedTransaction trace, [])
  | .acceptedBlock blockNum => db.onAcceptedBlock settings blockNum now
  | .irreversibleBlock blockNum time => db.onIrreversibleBlock blockNum time
  | .abortBlock => (db, [])

/-! ### The node -/

/-- A chain and the database that follows it. -/
structure Node where
  chain : SignalChain
  db : TrxRetryDb

inductive Event
  /-- A transaction is handed over, after it has been executed speculatively. -/
  | track (id : Sha256) (numBlocks : Option UInt16) (now : ℕ)
  | signal (e : Signal) (now : ℕ)
  deriving DecidableEq, Repr

/-- The transaction has just been executed on top of the head: it is not in a block, and no block
from elsewhere is being executed. -/
def Node.Trackable (s : Node) (id : Sha256) : Prop :=
  (∀ b ∈ s.chain.blocks, ¬ b.Contains id) ∧ ∀ p ∈ s.chain.pending, p.producerBlockId = none

instance (s : Node) (id : Sha256) : Decidable (s.Trackable id) :=
  inferInstanceAs (Decidable (_ ∧ _))

section

variable (settings : RetrySettings)

def Node.apply (expiration : Sha256 → ℕ) (s : Node) : Event → Option Node
  | .track id numBlocks now =>
    if s.Trackable id then
      match s.db.trackTransaction settings id (expiration id) numBlocks now with
      | .ok db => some { s with db := db }
      | .error _ => some s
    else none
  | .signal e now =>
    (s.chain.next expiration e).map fun c => ⟨c, (s.db.onSignal settings e now).1⟩

def Node.callbacks (s : Node) : Event → List Callback
  | .track _ _ _ => []
  | .signal e now => (s.db.onSignal settings e now).2

def Step (expiration : Sha256 → ℕ) (s : Node) (e : Event) (s' : Node) : Prop :=
  s.apply settings expiration e = some s'

end

/-! ### What the database sees -/

/-- A trace on which `on_applied_transaction` acts: of an input transaction that was executed, in a
block from elsewhere, and that does not look like `onblock`. -/
def Seen (t : TransactionTrace) : Prop :=
  t.receipt = some .executed ∧ t.scheduled = false ∧ t.producerBlockId ≠ none ∧ t.isOnblock = false

/-- The block shows the transaction to the database. -/
def Shows (b : SignalBlock) (id : Sha256) : Prop := ∃ t ∈ b.transactions, Seen t ∧ t.id = id

/-- The block shows the transaction as it is tracked. -/
def ShowsAs (b : SignalBlock) (tt : TrackedTransaction) : Prop :=
  ∃ t ∈ b.transactions, Seen t ∧ t.id = tt.id ∧ tt.trxTraceV = some t

variable {b : SignalBlock} {id : Sha256} {n now : ℕ} {trace : TransactionTrace} {a : Callback}
  {s₀ : Node} {tr : List (Transition Node Event)}

lemma contains_of_shows (h : Shows b id) : b.Contains id := by
  obtain ⟨t, ht, hseen, hid⟩ := h
  exact ⟨t, ht, hid, hseen.2.1⟩

lemma onAppliedTransaction_eq (db : TrxRetryDb) (trace : TransactionTrace) :
    (Seen trace ∧ db.onAppliedTransaction trace =
        ⟨db.trackedTrxs.modify trace.id (TrackedTransaction.see trace)
          (TrackedTransaction.see_id trace)⟩) ∨
      (¬ Seen trace ∧ db.onAppliedTransaction trace = db) := by
  unfold onAppliedTransaction Seen
  split_ifs with hreceipt hscheduled hproducer honblock
  · exact .inr ⟨fun h => hreceipt h.1, rfl⟩
  · exact .inr ⟨fun h => by simp [hscheduled] at h, rfl⟩
  · exact .inr ⟨fun h => h.2.2.1 hproducer, rfl⟩
  · exact .inr ⟨fun h => by simp [honblock] at h, rfl⟩
  · exact .inl ⟨⟨not_not.mp hreceipt, by simpa using hscheduled, hproducer,
      by simpa using honblock⟩, rfl⟩

variable {settings : RetrySettings} {expiration : Sha256 → ℕ} {c c' : SignalChain}
  {db : TrxRetryDb} {tt : TrackedTransaction}

/-- The blocks of the chain, and the pending one. -/
def known (c : SignalChain) : List SignalBlock := c.pending.toList ++ c.blocks

/-- **What a tracked transaction says about the chain.** -/
structure Tracks (expiration : Sha256 → ℕ) (c : SignalChain) (tt : TrackedTransaction) : Prop where
  expiry_eq : tt.expiry = expiration tt.id
  numBlocks_le : tt.numBlocks ≤ libTotem
  /-- A block that shows the transaction is the one it was seen in. -/
  seen : ∀ b ∈ known c, Shows b tt.id → tt.blockNum = b.num
  /-- The block that it was seen in is there, unless it has just been aborted. -/
  shown : tt.blockNum ≠ 0 → (∃ b ∈ known c, b.num = tt.blockNum ∧ ShowsAs b tt) ∨
    c.pending = none ∧ tt.blockNum = c.headNum + 1

lemma mem_known : b ∈ known c ↔ c.pending = some b ∨ b ∈ c.blocks := by
  unfold known
  rw [mem_append, mem_toList]

/-- Only the id, the settings of the sender, the block and the trace count. -/
lemma Tracks.congr (h : Tracks expiration c tt) (hknown : ∀ b, b ∈ known c' ↔ b ∈ known c)
    (hpending : c.pending = none → c'.pending = none ∧ c'.headNum = c.headNum) (lastTry : ℕ) :
    Tracks expiration c' { tt with lastTry := lastTry } := by
  refine ⟨h.expiry_eq, h.numBlocks_le, fun b hb => h.seen b ((hknown b).mp hb), fun hne => ?_⟩
  rcases h.shown hne with ⟨b, hb, hshown⟩ | ⟨hnone, hnum⟩
  · exact .inl ⟨b, (hknown b).mpr hb, hshown⟩
  · exact .inr ⟨(hpending hnone).1, hnum.trans (congrArg (· + 1) (hpending hnone).2.symm)⟩

/-- A block starts: what was seen at or above it is forgotten. -/
lemma Tracks.blockStart (hc : c.Sound expiration) (h : Tracks expiration c tt)
    {producerBlockId : Option BlockId}
    (hnext : c.next expiration (.blockStart n time producerBlockId) = some c') :
    Tracks expiration c'
      (if n ≤ tt.blockNum then tt.rollback settings.retryInterval now else tt) := by
  simp only [SignalChain.next, ite_none_right_eq_some, some.injEq] at hnext
  obtain ⟨⟨-, -, head, hhead, hnum, -⟩, rfl⟩ := hnext
  have hle : n ≤ c.headNum + 1 := by
    have := num_le_headNum hc.sorted (mem_blocksBefore.mp (mem_of_mem_head? hhead)).1
    omega
  -- a block that shows the transaction lies below the new one
  have hseen : ∀ b ∈ known { c with
      blocks := c.blocksBefore n
      pending := some ⟨n, time, producerBlockId, []⟩ }, Shows b tt.id →
      tt.blockNum = b.num ∧ b.num < n := by
    intro b hb hshows
    rcases mem_known.mp hb with hb | hb
    · cases hb
      obtain ⟨t, ht, -⟩ := hshows
      exact absurd ht not_mem_nil
    · obtain ⟨hmem, hlt⟩ := mem_blocksBefore.mp hb
      exact ⟨h.seen b (mem_known.mpr (.inr hmem)) hshows, hlt⟩
  split_ifs with hroll
  · refine ⟨h.expiry_eq, h.numBlocks_le, fun b hb hshows => ?_, fun hne => absurd rfl hne⟩
    obtain ⟨heq, hlt⟩ := hseen b hb hshows
    omega
  · refine ⟨h.expiry_eq, h.numBlocks_le, fun b hb hshows => (hseen b hb hshows).1, fun hne => ?_⟩
    rcases h.shown hne with ⟨b, hb, hbnum, hshows⟩ | ⟨-, hstale⟩
    · rcases mem_known.mp hb with hb | hb
      · have := (hc.pending b hb).1
        omega
      · exact .inl ⟨b, mem_known.mpr (.inr (mem_blocksBefore.mpr ⟨hb, by omega⟩)), hbnum, hshows⟩
    · omega

lemma Tracks.appliedTransaction (h : Tracks expiration c tt)
    {contained : Bool} (hnext : c.next expiration (.appliedTransaction trace contained) = some c') :
    (Seen trace → tt.id = trace.id → Tracks expiration c' (tt.see trace)) ∧
      (¬ (Seen trace ∧ tt.id = trace.id) → Tracks expiration c' tt) := by
  obtain ⟨p, hp, ⟨hblockNum, -, hcontained, hnot⟩, rfl⟩ := exists_pending hnext
  constructor
  · intro hseen hid
    -- what is seen gets into the block
    have hin : contained = true := by
      by_contra hout
      rcases hnot (by simpa using hout) with hnone | honblock
      · rw [hseen.1] at hnone
        cases hnone
      · rw [hseen.2.2.2] at honblock
        cases honblock
    obtain ⟨-, hnew⟩ := (hcontained hin).2 hseen.2.1
    rw [if_pos hin]
    refine ⟨h.expiry_eq, h.numBlocks_le, fun b hb hshows => ?_, fun _ => .inl ?_⟩
    · rcases mem_known.mp hb with hb | hb
      · cases hb
        exact hblockNum
      · exact absurd (hid ▸ contains_of_shows hshows) (hnew b (mem_cons_of_mem _ hb))
    · exact ⟨_, mem_known.mpr (.inl rfl), hblockNum.symm, trace, by simp, hseen, hid.symm, rfl⟩
  · intro hother
    have hshows : ∀ {b}, c.pending = some p → b = { p with
        transactions := if contained then p.transactions ++ [trace] else p.transactions } →
        Shows b tt.id → Shows p tt.id := by
      rintro b - rfl ⟨t, ht, hseen, hid⟩
      split_ifs at ht
      · rcases mem_append.mp ht with ht | ht
        · exact ⟨t, ht, hseen, hid⟩
        · obtain rfl := mem_singleton.mp ht
          exact absurd ⟨hseen, hid.symm⟩ hother
      · exact ⟨t, ht, hseen, hid⟩
    refine ⟨h.expiry_eq, h.numBlocks_le, fun b hb hb' => ?_, fun hne => ?_⟩
    · rcases mem_known.mp hb with hb | hb
      · cases hb
        exact h.seen p (mem_known.mpr (.inl hp)) (hshows hp rfl hb')
      · exact h.seen b (mem_known.mpr (.inr hb)) hb'
    · rcases h.shown hne with ⟨b, hb, hbnum, t, ht, hshown⟩ | ⟨hnone, -⟩
      · rcases mem_known.mp hb with hb | hb
        · obtain rfl := some.inj (hp.symm.trans hb)
          refine .inl ⟨_, mem_known.mpr (.inl rfl), hbnum, t, ?_, hshown⟩
          dsimp only
          split_ifs
          · exact mem_append_left _ ht
          · exact ht
        · exact .inl ⟨b, mem_known.mpr (.inr hb), hbnum, t, ht, hshown⟩
      · rw [hp] at hnone
        cases hnone

lemma mem_known_acceptedBlock (hnext : c.next expiration (.acceptedBlock n) = some c') :
    (∀ b, b ∈ known c' ↔ b ∈ known c) ∧ c.pending ≠ none ∧ c'.headNum = n ∧ c'.pending = none := by
  obtain ⟨p, hp, rfl, rfl⟩ := exists_pending hnext
  refine ⟨fun b => ?_, by simp [hp], rfl, rfl⟩
  simp only [mem_known, hp, some.injEq, mem_cons, reduceCtorEq, false_or, eq_comm]

lemma Tracks.abortBlock (hc : c.Sound expiration) (h : Tracks expiration c tt) :
    Tracks expiration { c with pending := none } tt := by
  refine ⟨h.expiry_eq, h.numBlocks_le, fun b hb => ?_, fun hne => ?_⟩
  · rcases mem_known.mp hb with hb | hb
    · cases hb
    · exact h.seen b (mem_known.mpr (.inr hb))
  · rcases h.shown hne with ⟨b, hb, hbnum, hshown⟩ | ⟨-, hnum⟩
    · rcases mem_known.mp hb with hb | hb
      · exact .inr ⟨rfl, hbnum.symm.trans (hc.pending b hb).1⟩
      · exact .inl ⟨b, mem_known.mpr (.inr hb), hbnum, hshown⟩
    · exact .inr ⟨rfl, hnum⟩

/-! ### Runs -/

structure Node.Inv (expiration : Sha256 → ℕ) (s : Node) : Prop where
  sound : s.chain.Sound expiration
  tracks : ∀ tt ∈ s.db.trackedTrxs, Tracks expiration s.chain tt

variable {s s' : Node}

lemma mem_of_trackTransaction {numBlocks : Option UInt16}
    {db' : TrxRetryDb} (h : db.trackTransaction settings id expiry numBlocks now = .ok db')
    (htt : tt ∈ db'.trackedTrxs) : tt ∈ db.trackedTrxs ∨
      tt = ⟨id, expiry, (numBlocks.map UInt16.toNat).getD libTotem, 0, none, now⟩ := by
  simp only [trackTransaction, bind_eq_ok, pure_eq_ok] at h
  obtain ⟨-, -, rfl⟩ := h
  unfold Table.insert at htt
  split_ifs at htt with hnew
  · exact (Table.mem_insert hnew).mp (by simpa [Table.insert, hnew] using htt)
  · exact .inl htt

lemma mem_of_onBlockStart
    (htt : tt ∈ (db.onBlockStart settings n now).trackedTrxs) : ∃ old ∈ db.trackedTrxs,
      tt = if n ≤ old.blockNum then old.rollback settings.retryInterval now else old := by
  simp only [onBlockStart, mem_mapRows] at htt
  obtain ⟨old, hold, rfl⟩ := htt
  exact ⟨old, hold, rfl⟩

lemma mem_of_onAppliedTransaction (htt : tt ∈ (db.onAppliedTransaction trace).trackedTrxs) :
    (tt ∈ db.trackedTrxs ∧ ¬ (Seen trace ∧ tt.id = trace.id)) ∨
      ∃ old ∈ db.trackedTrxs, Seen trace ∧ old.id = trace.id ∧ tt = old.see trace := by
  rcases onAppliedTransaction_eq db trace with ⟨hseen, heq⟩ | ⟨hseen, heq⟩
  · simp only [heq, Table.mem_modify] at htt
    rcases htt with ⟨htt, hid⟩ | ⟨old, hold, hid, rfl⟩
    · exact .inl ⟨htt, fun h => hid h.2⟩
    · exact .inr ⟨old, hold, hseen, hid, rfl⟩
  · rw [heq] at htt
    exact .inl ⟨htt, fun h => hseen h.1⟩

lemma mem_of_onAcceptedBlock (htt : tt ∈ (db.onAcceptedBlock settings n now).1.trackedTrxs) :
    ∃ old ∈ db.trackedTrxs, ∃ lastTry, tt = { old with lastTry := lastTry } := by
  simp only [onAcceptedBlock, ackReadyTrxsByBlockNum, ack, retryTrxs, mem_mapRows] at htt
  obtain ⟨old, hold, rfl⟩ := htt
  refine ⟨old, (Table.mem_filter.mp hold).1, ?_⟩
  split_ifs
  · exact ⟨_, rfl⟩
  · exact ⟨old.lastTry, rfl⟩

lemma mem_of_onIrreversibleBlock
    (htt : tt ∈ (db.onIrreversibleBlock n time).1.trackedTrxs) : tt ∈ db.trackedTrxs :=
  (Table.mem_filter.mp (Table.mem_filter.mp htt).1).1

lemma numBlocks_le_libTotem (numBlocks : Option UInt16) :
    (numBlocks.map UInt16.toNat).getD libTotem ≤ libTotem := by
  cases numBlocks with
  | none => exact le_rfl
  | some n =>
    have := n.toNat_lt
    simp only [map_some, getD_some, libTotem]
    omega

/-- A transaction that is handed over has not been seen. -/
lemma tracks_of_trackable (hc : s.chain.Sound expiration) (h : s.Trackable id)
    (numBlocks : Option UInt16) (now : ℕ) : Tracks expiration s.chain
      ⟨id, expiration id, (numBlocks.map UInt16.toNat).getD libTotem, 0, none, now⟩ := by
  refine ⟨rfl, numBlocks_le_libTotem numBlocks, fun b hb hshows => ?_, fun hne => absurd rfl hne⟩
  rcases mem_known.mp hb with hb | hb
  · -- nothing is seen in a block that is not from elsewhere
    obtain ⟨t, ht, hseen, -⟩ := hshows
    obtain ⟨-, hproducer, -⟩ := (hc.pending b hb).2.1 t ht
    exact absurd (hproducer.trans (h.2 b hb)) hseen.2.2.1
  · exact absurd (contains_of_shows hshows) (h.1 b hb)

lemma Node.Inv.step {e : Event} (h : s.Inv expiration)
    (hstep : Step settings expiration s e s') : s'.Inv expiration := by
  cases e with
  | track id numBlocks now =>
    simp only [Step, Node.apply, ite_none_right_eq_some] at hstep
    obtain ⟨htrackable, hstep⟩ := hstep
    split at hstep
    · next db' hdb =>
      cases hstep
      refine ⟨h.sound, fun tt htt => ?_⟩
      rcases mem_of_trackTransaction hdb htt with htt | rfl
      · exact h.tracks tt htt
      · exact tracks_of_trackable h.sound htrackable numBlocks now
    · cases hstep
      exact h
  | signal e now =>
    obtain ⟨c, hnext, rfl⟩ := map_eq_some_iff.mp hstep
    refine ⟨h.sound.next hnext, fun tt htt => ?_⟩
    dsimp only at htt ⊢
    cases e with
    | blockStart =>
      obtain ⟨old, hold, rfl⟩ := mem_of_onBlockStart htt
      exact (h.tracks old hold).blockStart h.sound hnext
    | appliedTransaction =>
      rcases mem_of_onAppliedTransaction htt with ⟨htt, hother⟩ | ⟨old, hold, hseen, hid, rfl⟩
      · exact ((h.tracks tt htt).appliedTransaction hnext).2 hother
      · exact ((h.tracks old hold).appliedTransaction hnext).1 hseen hid
    | acceptedBlock n =>
      obtain ⟨old, hold, lastTry, rfl⟩ := mem_of_onAcceptedBlock htt
      obtain ⟨hknown, hpending, -⟩ := mem_known_acceptedBlock hnext
      exact (h.tracks old hold).congr hknown (fun hnone => absurd hnone hpending) lastTry
    | irreversibleBlock =>
      simp only [SignalChain.next, ite_none_right_eq_some, some.injEq] at hnext
      obtain ⟨-, rfl⟩ := hnext
      have htracks := h.tracks tt (mem_of_onIrreversibleBlock htt)
      refine htracks.congr ?_ ?_ tt.lastTry
      · exact fun _ => Iff.rfl
      · exact fun hnone => ⟨hnone, rfl⟩
    | abortBlock =>
      cases hnext
      exact (h.tracks tt htt).abortBlock h.sound

/-! ### Calls -/

lemma mem_ack {p : TrackedTransaction → Bool} {result : TrackedTransaction → RetryResult}
    (ha : a ∈ (db.ack p result).2) :
    ∃ tt ∈ db.trackedTrxs, p tt = true ∧ a = ⟨tt.id, result tt⟩ := by
  obtain ⟨tt, htt, rfl⟩ := List.mem_map.mp ha
  obtain ⟨hmem, hp⟩ := List.mem_filter.mp htt
  exact ⟨tt, hmem, hp, rfl⟩

/-- The transaction is not to be seen in the chain, and it has expired before the last irreversible
block. -/
structure Gone (expiration : Sha256 → ℕ) (c : SignalChain) (id : Sha256) : Prop where
  not_shows : ∀ b ∈ c.blocks, ¬ Shows b id
  expired : ∃ b ∈ c.blocks, b.num = c.lib ∧ expiration id ≤ b.time

/-- No block after an irreversible block shows a transaction that has expired. -/
lemma not_shows_of_expired (hc : c.Sound expiration) {lib : SignalBlock}
    (hb : b ∈ c.blocks) (hlib : lib ∈ c.blocks) (hlt : lib.num < b.num)
    (hexpired : expiration id ≤ lib.time) : ¬ Shows b id := by
  rintro ⟨t, ht, hseen, rfl⟩
  have hlive := (hc.genuine b hb t ht).2.2 hseen.2.1
  have htime := (above_of_num_lt hc.sorted hb hlib hlt).2
  omega

/-- **Once gone, always gone.** -/
theorem Gone.of_extends (h : Gone expiration c id) (hc : c'.Sound expiration)
    (hext : c.Extends c') : ∀ b ∈ c'.blocks, ¬ Shows b id := by
  intro b hb
  obtain ⟨lib, hlib, hnum, hexpired⟩ := h.expired
  rcases le_or_gt b.num c.lib with hle | hlt
  · exact h.not_shows b ((hext.mem_iff b hle).mpr hb)
  · exact not_shows_of_expired hc hb ((hext.mem_iff lib hnum.le).mp hlib) (hnum ▸ hlt) hexpired

/-- **Success is reported for a transaction in the chain**, under enough blocks. -/
theorem success_of_signal (h : s.Inv expiration)
    (hnext : s.chain.next expiration e = some c) (hnum : c.headNum < 2 ^ 32 - 2 ^ 16)
    (ha : a ∈ (s.db.onSignal settings e now).2) {trace : Option TransactionTrace}
    (hresult : a.result = .success trace) :
    ∃ tt ∈ s.db.trackedTrxs, tt.id = a.id ∧ ∃ b ∈ c.blocks, ∃ t ∈ b.transactions, Seen t ∧
      t.id = a.id ∧ trace = some t ∧
      (b.num ≤ c.lib ∨ tt.numBlocks ≠ libTotem ∧ b.num + tt.numBlocks ≤ c.headNum) := by
  cases e with
  | blockStart | appliedTransaction | abortBlock => cases ha
  | acceptedBlock n =>
    obtain ⟨tt, htt, hready, rfl⟩ := mem_ack ha
    obtain rfl := RetryResult.success.inj hresult
    rw [decide_eq_true_eq] at hready
    have htracks := h.tracks tt htt
    obtain ⟨hknown, hpending, rfl, hnone⟩ := mem_known_acceptedBlock hnext
    unfold TrackedTransaction.readyBlockNum at hready
    split_ifs at hready with hzero htotem
    · omega
    · omega
    rcases htracks.shown hzero with ⟨b, hb, hbnum, t, ht, hseen, hid, htrace⟩ | ⟨habsurd, -⟩
    · have hb : b ∈ c.blocks := by
        rcases mem_known.mp ((hknown b).mpr hb) with hb | hb
        · rw [hnone] at hb
          cases hb
        · exact hb
      have hle := num_le_headNum (h.sound.next hnext).sorted hb
      have hnumBlocks := htracks.numBlocks_le
      unfold libTotem at hnumBlocks
      rw [u32_of_lt (by omega)] at hready
      exact ⟨tt, htt, rfl, b, hb, t, ht, hseen, hid, htrace, .inr ⟨htotem, hbnum ▸ hready⟩⟩
    · exact absurd habsurd hpending
  | irreversibleBlock =>
    simp only [SignalChain.next, ite_none_right_eq_some, some.injEq] at hnext
    obtain ⟨⟨-, lib, hlib, rfl, -⟩, rfl⟩ := hnext
    rcases mem_append.mp ha with ha | ha
    · obtain ⟨tt, htt, hready, rfl⟩ := mem_ack ha
      obtain rfl := RetryResult.success.inj hresult
      rw [decide_eq_true_eq] at hready
      have hle := num_le_headNum h.sound.sorted hlib
      rcases (h.tracks tt htt).shown (by omega) with
        ⟨b, hb, hbnum, t, ht, hseen, hid, htrace⟩ | ⟨-, hstale⟩
      · rcases mem_known.mp hb with hb | hb
        · have := (h.sound.pending b hb).1
          omega
        · exact ⟨tt, htt, rfl, b, hb, t, ht, hseen, hid, htrace,
            .inl (show b.num ≤ lib.num by omega)⟩
      · omega
    · obtain ⟨tt, -, -, rfl⟩ := mem_ack ha
      cases hresult

/-- **Expiration is reported for a transaction that is not to be seen in the chain.** -/
theorem expired_of_signal (h : s.Inv expiration)
    (hnext : s.chain.next expiration e = some c) (ha : a ∈ (s.db.onSignal settings e now).2)
    (hresult : a.result = .expired) : Gone expiration c a.id := by
  cases e with
  | blockStart | appliedTransaction | abortBlock => cases ha
  | acceptedBlock n =>
    obtain ⟨tt, -, -, rfl⟩ := mem_ack ha
    cases hresult
  | irreversibleBlock =>
    simp only [SignalChain.next, ite_none_right_eq_some, some.injEq] at hnext
    obtain ⟨⟨-, lib, hlib, rfl, rfl⟩, rfl⟩ := hnext
    rcases mem_append.mp ha with ha | ha
    · obtain ⟨tt, -, -, rfl⟩ := mem_ack ha
      cases hresult
    · obtain ⟨tt, htt, hexpired, rfl⟩ := mem_ack ha
      obtain ⟨htt, hunready⟩ := Table.mem_filter.mp htt
      have htracks := h.tracks tt htt
      rw [decide_eq_true_eq, htracks.expiry_eq] at hexpired
      simp only [Bool.not_eq_true', decide_eq_false_iff_not, not_and, not_le] at hunready
      refine ⟨fun b hb hshows => ?_, lib, hlib, rfl, hexpired⟩
      -- the block would be irreversible, and then its transaction had been acknowledged
      have hseen := htracks.seen b (mem_known.mpr (.inr hb)) hshows
      have hpos := h.sound.num_pos b hb
      exact not_shows_of_expired h.sound hb hlib (by omega) hexpired hshows

/-! ### Counting calls -/

def Event.tracks (id : Sha256) : Event → Bool
  | .track id' _ _ => decide (id' = id)
  | .signal _ _ => false

/-- How often a transaction has been handed over. -/
def timesTracked (tr : List (Transition Node Event)) (id : Sha256) : ℕ :=
  tr.countP fun t => t.event.tracks id

/-- How often the sender of a transaction has been called. -/
def timesCalled (settings : RetrySettings) (tr : List (Transition Node Event)) (id : Sha256) : ℕ :=
  (tr.flatMap fun t => t.pre.callbacks settings t.event).countP fun a => decide (a.id = id)

/-- How often a transaction is tracked at the moment. -/
def copies (db : TrxRetryDb) (id : Sha256) : ℕ :=
  db.trackedTrxs.rows.countP fun tt => decide (tt.id = id)

lemma countP_ack (db : TrxRetryDb) (p : TrackedTransaction → Bool)
    (result : TrackedTransaction → RetryResult) (id : Sha256) :
    ((db.ack p result).2.countP fun a => decide (a.id = id)) + (db.ack p result).1.copies id =
      db.copies id := by
  simp only [ack, copies, Table.filter, countP_map, Function.comp_def, countP_filter]
  induction db.trackedTrxs.rows with
  | nil => rfl
  | cons tt rows ih =>
    simp only [countP_cons]
    cases p tt <;> simp <;> omega

lemma copies_mapRows {f : TrackedTransaction → TrackedTransaction} (hf : ∀ tt, (f tt).id = tt.id)
    (id : Sha256) : copies ⟨db.trackedTrxs.mapRows f hf⟩ id = db.copies id := by
  simp only [copies, Table.mapRows, countP_map, Function.comp_def, hf]

lemma copies_insert (tt : TrackedTransaction) (id : Sha256) :
    copies ⟨db.trackedTrxs.insert tt⟩ id ≤ db.copies id + if tt.id = id then 1 else 0 := by
  cases hnew : db.trackedTrxs.find? tt.id with
  | none =>
    simp [copies, rows_insert hnew]
  | some old =>
    simp only [copies, Table.insert, hnew, reduceCtorEq, dite_false]
    exact Nat.le_add_right _ _

/-- **A call is paid for by a transaction that is no longer tracked.** -/
theorem calls_of_step {e : Event} (hstep : Step settings expiration s e s') (id : Sha256) :
    ((s.callbacks settings e).countP fun a => decide (a.id = id)) + s'.db.copies id ≤
      s.db.copies id + if e.tracks id then 1 else 0 := by
  cases e with
  | track =>
    simp only [Step, Node.apply, ite_none_right_eq_some] at hstep
    obtain ⟨-, hstep⟩ := hstep
    split at hstep
    · next db' hdb =>
      cases hstep
      simp only [trackTransaction, bind_eq_ok, pure_eq_ok] at hdb
      obtain ⟨-, -, rfl⟩ := hdb
      simp only [Node.callbacks, countP_nil, Nat.zero_add, Event.tracks, decide_eq_true_eq]
      exact copies_insert _ id
    · cases hstep
      simp [Node.callbacks]
  | signal e now =>
    obtain ⟨c, -, rfl⟩ := map_eq_some_iff.mp hstep
    simp only [Node.callbacks, Event.tracks, Bool.false_eq_true, if_false, Nat.add_zero]
    cases e with
    | blockStart =>
      simp [onSignal, onBlockStart, copies_mapRows]
    | appliedTransaction trace contained =>
      simp only [onSignal, countP_nil, Nat.zero_add]
      rcases onAppliedTransaction_eq s.db trace with ⟨-, heq⟩ | ⟨-, heq⟩
      · simp [heq, Table.modify, copies_mapRows]
      · rw [heq]
    | acceptedBlock n =>
      have h := countP_ack s.db (fun tt => decide (tt.readyBlockNum ≤ n))
        (fun tt => .success tt.trxTraceV) id
      simp only [onSignal, onAcceptedBlock, ackReadyTrxsByBlockNum, retryTrxs, copies_mapRows]
      exact h.le
    | irreversibleBlock n time =>
      simp only [onSignal, onIrreversibleBlock, countP_append]
      have h := countP_ack s.db
        (fun tt => decide (1 ≤ tt.blockNum ∧ tt.blockNum ≤ n)) (fun tt => .success tt.trxTraceV) id
      have h' := countP_ack (s.db.ackReadyTrxsByLib n).1
        (fun tt => decide (tt.expiry ≤ time)) (fun _ => .expired) id
      unfold clearExpired
      unfold ackReadyTrxsByLib at h' ⊢
      omega
    | abortBlock => simp [onSignal]

lemma timesCalled_le_of_run
    (h0 : s₀.db.trackedTrxs = Table.empty) (hr : Run (Step settings expiration) s₀ tr s)
    (id : Sha256) : timesCalled settings tr id + s.db.copies id ≤ timesTracked tr id := by
  induction hr with
  | nil => simp [timesCalled, timesTracked, copies, h0, Table.empty]
  | @snoc tr s s' e _ hs ih =>
    have h := calls_of_step hs id
    simp only [timesCalled, timesTracked, flatMap_append, countP_append,
      flatMap_singleton, countP_singleton] at ih ⊢
    omega

/-- Every transaction that is tracked has been handed over, with the number of blocks to wait
for. -/
lemma tracked_of_run
    (h0 : s₀.db.trackedTrxs = Table.empty) (hr : Run (Step settings expiration) s₀ tr s) :
    ∀ tt ∈ s.db.trackedTrxs, ∃ t ∈ tr, ∃ numBlocks now, t.event = .track tt.id numBlocks now ∧
      tt.numBlocks = (numBlocks.map UInt16.toNat).getD libTotem := by
  induction hr with
  | nil =>
    intro tt htt
    rw [h0] at htt
    exact absurd htt (Table.not_mem_empty tt)
  | @snoc tr s s' e _ hs ih =>
    intro tt htt
    -- a transaction that was there before, or the one that is handed over
    suffices h : (∃ old ∈ s.db.trackedTrxs, old.id = tt.id ∧ old.numBlocks = tt.numBlocks) ∨
        ∃ numBlocks now, e = .track tt.id numBlocks now ∧
          tt.numBlocks = (numBlocks.map UInt16.toNat).getD libTotem by
      rcases h with ⟨old, hold, hid, hnum⟩ | ⟨numBlocks, now, rfl, hnum⟩
      · obtain ⟨t, ht, numBlocks, now, hevent, heq⟩ := ih old hold
        exact ⟨t, mem_append_left _ ht, numBlocks, now, hid ▸ hevent, hnum ▸ heq⟩
      · exact ⟨_, mem_append_right _ (mem_singleton_self _), numBlocks, now, rfl, hnum⟩
    cases e with
    | track id numBlocks now =>
      simp only [Step, Node.apply, ite_none_right_eq_some] at hs
      obtain ⟨-, hs⟩ := hs
      split at hs
      · next db' hdb =>
        cases hs
        rcases mem_of_trackTransaction hdb htt with htt | rfl
        · exact .inl ⟨tt, htt, rfl, rfl⟩
        · exact .inr ⟨numBlocks, now, rfl, rfl⟩
      · cases hs
        exact .inl ⟨tt, htt, rfl, rfl⟩
    | signal e now =>
      obtain ⟨c, -, rfl⟩ := map_eq_some_iff.mp hs
      left
      cases e with
      | blockStart =>
        obtain ⟨old, hold, rfl⟩ := mem_of_onBlockStart htt
        refine ⟨old, hold, ?_⟩
        split_ifs <;> exact ⟨rfl, rfl⟩
      | appliedTransaction =>
        rcases mem_of_onAppliedTransaction htt with ⟨htt, -⟩ | ⟨old, hold, -, -, rfl⟩
        · exact ⟨tt, htt, rfl, rfl⟩
        · exact ⟨old, hold, rfl, rfl⟩
      | acceptedBlock n =>
        obtain ⟨old, hold, lastTry, rfl⟩ := mem_of_onAcceptedBlock htt
        exact ⟨old, hold, rfl, rfl⟩
      | irreversibleBlock => exact ⟨tt, mem_of_onIrreversibleBlock htt, rfl, rfl⟩
      | abortBlock => exact ⟨tt, htt, rfl, rfl⟩

/-- What has been seen in a run stays on the irreversible part of the chain. -/
lemma extends_of_run (h0 : s₀.Inv expiration)
    (hr : Run (Step settings expiration) s₀ tr s) : (s.Inv expiration ∧ s₀.chain.Extends s.chain) ∧
      ∀ t ∈ tr, t.post.Inv expiration ∧ s₀.chain.Extends t.post.chain := by
  have hstep : ∀ s e s', (s.Inv expiration ∧ s₀.chain.Extends s.chain) → True →
      Step settings expiration s e s' → s'.Inv expiration ∧ s₀.chain.Extends s'.chain := by
    rintro s e s' ⟨hi, hext⟩ - hs
    refine ⟨hi.step hs, hext.trans ?_⟩
    cases e with
    | track =>
      simp only [Step, Node.apply, ite_none_right_eq_some] at hs
      obtain ⟨-, hs⟩ := hs
      split at hs <;> obtain rfl := some.inj hs <;>
        exact SignalChain.Extends.of_eq rfl rfl
    | signal =>
      obtain ⟨c, hnext, rfl⟩ := map_eq_some_iff.mp hs
      exact hi.sound.extends_next hnext
  obtain ⟨hlast, htr⟩ := Run.forall_transition (C := fun _ _ _ => True)
    ⟨h0, SignalChain.Extends.of_eq rfl rfl⟩ hstep hr fun _ _ => trivial
  exact ⟨hlast, fun t ht => hstep _ _ _ (htr t ht).1 trivial (htr t ht).2⟩

/-- An id of a transaction, and of a block. -/
def demoRetryId : Sha256 := ⟨0, 0, 0, 1⟩

/-- The trace of the transaction in the second block. -/
def demoTrace (status : TransactionStatus) : TransactionTrace :=
  ⟨demoRetryId, 2, some demoRetryId, some status, false, [], none⟩

/-- A node without transactions, at the first block. -/
def demoNode : Node := ⟨⟨[⟨1, 0, none, []⟩], 1, none⟩, ⟨Table.empty⟩⟩

/-- A transaction is handed over, gets into the second block with the given status, and the third
block is later than its expiration. -/
def demoRetryEvents (status : TransactionStatus) : List Event :=
  [.track demoRetryId none 0, .signal (.blockStart 2 5 (some demoRetryId)) 1,
    .signal (.appliedTransaction (demoTrace status) true) 2, .signal (.acceptedBlock 2) 3,
    .signal (.blockStart 3 20 (some demoRetryId)) 4, .signal (.acceptedBlock 3) 5,
    .signal (.irreversibleBlock 2 5) 6, .signal (.irreversibleBlock 3 20) 7]

/-- Settings with room for one transaction. -/
def demoRetrySettings : RetrySettings := ⟨1, 10, fun _ => 1⟩

lemma sound_demoNode : demoNode.chain.Sound fun _ => 10 := by
  refine ⟨pairwise_singleton _ _, ?_, ?_, ⟨_, mem_singleton_self _, rfl⟩, nofun⟩
  · simp [demoNode]
  · intro b hb t ht
    obtain rfl := mem_singleton.mp hb
    cases ht

end TrxRetryDb

end Sysio
