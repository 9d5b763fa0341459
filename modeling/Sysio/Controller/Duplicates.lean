import Sysio.Data.ReplayWindow
import Sysio.Data.Run
import Sysio.Data.UndoStack
import Sysio.FeatureManager
import Sysio.Transaction

/-!
# No transaction is executed twice

`record_transaction` keeps the id of every input transaction, with its expiration, in an index of
its own, and `clear_expired_input_transactions` takes expired ids out of it, as many as it has time
for.  `TrxChain` is a chain of blocks as far as this index is concerned: blocks are started,
committed, aborted and popped, and transactions are pushed and the index is cleared at any point in
between.

An id that has been removed cannot come again: it was removed at a time after the expiration of its
transaction, times only grow, and `validate_expiration` refuses a transaction after its expiration.
That the index is a replay window in this sense (`Deduped`) is kept by every event.
-/

namespace Sysio

open Result List

structure TransactionObject where
  trxId : Sha256
  /-- In seconds. -/
  expiration : UInt32
  deriving DecidableEq, Repr

/-- The time of an expiration in microseconds (`time_point_sec::to_time_point`). -/
def expirationTime (expiration : UInt32) : ℕ := expiration.toNat * 1000000

/-- When an entry of the index expires. -/
def TransactionObject.expiry (r : TransactionObject) : ℕ := expirationTime r.expiration

/-- `transaction_multi_index`. -/
abbrev TransactionIndex := Table Sha256 TransactionObject TransactionObject.trxId

def InputTransaction.verifyReferenceBlock (trx : InputTransaction) (referenceBlock : BlockId) :
    Prop :=
  trx.refBlockNum.toNat = numFromId referenceBlock % 2 ^ 16 ∧
    trx.refBlockPrefix = referenceBlock.h1.toUInt32

instance (trx : InputTransaction) (id : BlockId) : Decidable (trx.verifyReferenceBlock id) :=
  inferInstanceAs (Decidable (_ ∧ _))

/-! ### The index -/

/-- The loop of `clear_expired_input_transactions`.  The second number is how many entries are
removed before the deadline has passed. -/
def clearExpiredInputTransactions (now : ℕ) : ℕ → TransactionIndex → TransactionIndex
  | 0, index => index
  | n + 1, index =>
    match index.earliest TransactionObject.expiry with
    | none => index
    | some r =>
      if r.expiry < now then clearExpiredInputTransactions now n (index.erase r.trxId) else index

def recordTransaction (index : TransactionIndex) (id : Sha256) (expire : UInt32) :
    Result TransactionIndex := do
  sysAssert (index.find? id = none) .txDuplicate "duplicate transaction"
  pure (index.insert ⟨id, expire⟩)

/-! ### Input transactions -/

/-- `transaction_metadata::trx_type` of what is pushed from outside. -/
inductive TrxType
  | input
  | readOnly
  | dryRun
  deriving DecidableEq, Repr

/-- The transaction leaves no trace in the state (`is_transient`). -/
def TrxType.isTransient : TrxType → Bool
  | .input => false
  | .readOnly => true
  | .dryRun => true

/-- What the node and the chain bring to a transaction. -/
structure PushSettings where
  /-- `max_transaction_lifetime` of the chain configuration, in seconds. -/
  maxTransactionLifetime : UInt32
  /-- `is_builtin_activated(disable_deferred_trxs_stage_1)`. -/
  disableDeferredTrxsStage1 : Bool
  isSpeculativeBlock : Bool
  skipTrxChecks : Bool

/-- The part of the database that the functions here read and write. -/
structure TrxDatabase where
  index : TransactionIndex
  /-- `block_summary_object`. -/
  blockSummary : UInt16 → BlockId

def validateExpiration (maxTransactionLifetime : UInt32) (pendingBlockTime : ℕ)
    (trx : InputTransaction) : Result Unit := do
  sysAssert (pendingBlockTime ≤ expirationTime trx.expiration) .expiredTxException
    "transaction has expired"
  sysAssert (expirationTime trx.expiration ≤
      pendingBlockTime + expirationTime maxTransactionLifetime) .txExpTooFarException
    "Transaction expiration is too far in the future"

def validateTapos (db : TrxDatabase) (trx : InputTransaction) : Result Unit :=
  sysAssert (trx.verifyReferenceBlock (db.blockSummary trx.refBlockNum)) .invalidRefBlockException
    "Transaction's reference block did not match. Is this transaction from a different fork?"

section

variable (settings : PushSettings) (pendingBlockTime : ℕ) (db : TrxDatabase)
  (trx : InputTransaction)

/-- The checks that `skip_trx_checks` skips, and that read-only transactions do not need.
`validate_referenced_accounts`, which does not depend on the index, is left out. -/
def validateInputTrx (trxType : TrxType) : Result Unit :=
  if settings.skipTrxChecks ∨ trxType = .readOnly then pure ()
  else do
    validateExpiration settings.maxTransactionLifetime pendingBlockTime trx
    validateTapos db trx

/-- `init_for_input_trx`, without the usage that it hands to `init`.  The id of the transaction is
given. -/
def initForInputTrx (id : Sha256) (trxType : TrxType) : Result TrxDatabase := do
  sysAssert ((settings.disableDeferredTrxsStage1 || trxType.isTransient) = true →
    trx.delaySec = 0) .transactionException "transaction cannot be delayed"
  sysAssert (trx.transactionExtensions = [])
    (if settings.isSpeculativeBlock then .subjectiveBlockProductionException
      else .disallowedTransactionExtensionsBadBlockException)
    "no transaction extensions supported yet for input transactions"
  validateInputTrx settings pendingBlockTime db trx trxType
  if trxType = .readOnly then pure db
  else do
    let index ← recordTransaction db.index id trx.expiration
    pure { db with index := index }

end

/-! ### Chains -/

/-- A block, with the transactions that it has recorded. -/
structure TrxBlock where
  timestamp : UInt32
  recorded : List TransactionObject

/-- A chain, as far as input transactions are concerned. -/
structure TrxChain where
  head : TrxBlock
  db : TrxDatabase
  /-- The block that is being built, with the database at its start. -/
  pending : Option (TrxBlock × TrxDatabase)
  /-- The blocks below the head, newest first, each with the database that it left. -/
  below : List (TrxBlock × TrxDatabase)

namespace TrxChain

/-- The blocks of the chain, newest first. -/
def blocks (s : TrxChain) : List TrxBlock := s.head :: s.below.map Prod.fst

/-- The block whose time counts: the pending one, or the head. -/
def current (s : TrxChain) : TrxBlock := (s.pending.map Prod.fst).getD s.head

inductive Event
  | startBlock (timestamp : UInt32)
  /-- `clear_expired_input_transactions`, with the number of entries it has time for. -/
  | clearExpired (n : ℕ)
  /-- A transaction, and whether the rest of its execution succeeds. -/
  | pushTransaction (settings : PushSettings) (trx : InputTransaction) (trxType : TrxType)
      (succeeds : Bool)
  | commitBlock (id : BlockId)
  | abortBlock
  | popBlock

/-- `start_block`; the time of a block is after that of its parent. -/
def startBlock (s : TrxChain) (timestamp : UInt32) : Result TrxChain := do
  sysAssert (s.pending.isNone = true) .blockValidateException "pending block already exists"
  sysAssert (s.head.timestamp < timestamp) .blockValidateException
    "next block must be in the future"
  pure { s with pending := some (⟨timestamp, []⟩, s.db) }

/-- `push_transaction`: what a transaction has done is kept if it succeeds, and undone otherwise. -/
def pushTransaction (transactionId : InputTransaction → Sha256) (s : TrxChain)
    (settings : PushSettings) (trx : InputTransaction) (trxType : TrxType) (succeeds : Bool) :
    Result TrxChain := do
  let (block, session) ← require s.pending .blockValidateException "no pending block"
  match initForInputTrx settings (slotTime block.timestamp) s.db trx (transactionId trx)
    trxType with
  | .error _ => pure s
  | .ok db =>
    pure (if succeeds && !trxType.isTransient then
      { s with
        db := db
        pending := some ({ block with
          recorded := block.recorded ++ [⟨transactionId trx, trx.expiration⟩] }, session) }
      else s)

/-- `create_block_summary` and `commit_block`. -/
def commitBlock (s : TrxChain) (id : BlockId) : Result TrxChain := do
  let (block, session) ← require s.pending .blockValidateException "no pending block"
  pure
    { head := block
      db := { s.db with
        blockSummary := Function.update s.db.blockSummary (UInt16.ofNat (numFromId id)) id }
      pending := none
      below := (s.head, session) :: s.below }

def abortBlock (s : TrxChain) : TrxChain :=
  match s.pending with
  | none => s
  | some (_, session) => { s with db := session, pending := none }

def popBlock (s : TrxChain) : Result TrxChain :=
  match s.pending, s.below with
  | none, (prev, db) :: below => pure ⟨prev, db, none, below⟩
  | _, _ =>
    .error ⟨.blockValidateException, "attempt to pop beyond last irreversible block"⟩

def apply (transactionId : InputTransaction → Sha256) (s : TrxChain) : Event → Result TrxChain
  | .startBlock timestamp => s.startBlock timestamp
  | .clearExpired n =>
    pure { s with db := { s.db with
      index := clearExpiredInputTransactions (slotTime s.current.timestamp) n s.db.index } }
  | .pushTransaction settings trx trxType succeeds =>
    s.pushTransaction transactionId settings trx trxType succeeds
  | .commitBlock id => s.commitBlock id
  | .abortBlock => pure s.abortBlock
  | .popBlock => s.popBlock

def Step (transactionId : InputTransaction → Sha256) (s : TrxChain) (e : Event) (s' : TrxChain) :
    Prop :=
  s.apply transactionId e = .ok s'

/-- Checks are not skipped. -/
def Event.Checked : Event → Prop
  | .pushTransaction settings _ _ _ => settings.skipTrxChecks = false
  | _ => True

def genesis (timestamp : UInt32) (blockSummary : UInt16 → BlockId) : TrxChain :=
  ⟨⟨timestamp, []⟩, ⟨Table.empty, blockSummary⟩, none, []⟩

/-! ### The replay window -/

/-- The transactions that the blocks of a chain have recorded, oldest first. -/
def recordedBy : List TrxBlock → List TransactionObject
  | [] => []
  | b :: older => recordedBy older ++ b.recorded

variable {transactionId : InputTransaction → Sha256} {s s' : TrxChain} {b : TrxBlock}
  {older : List TrxBlock} {db : TrxDatabase}

/-- The index of the database covers the transactions of a block and of those below it. -/
structure Deduped (transactionId : InputTransaction → Sha256) (b : TrxBlock) (older : List TrxBlock)
    (db : TrxDatabase) : Prop where
  covers : Table.Covers TransactionObject.expiry (recordedBy (b :: older)) (slotTime b.timestamp)
    db.index
  nodup : ((recordedBy (b :: older)).map TransactionObject.trxId).Nodup
  genuine : ∀ r ∈ recordedBy (b :: older), ∃ trx, transactionId trx = r.trxId ∧
    trx.expiration = r.expiration

lemma covers_clearExpired {seen : List TransactionObject} {now : ℕ} (n : ℕ)
    {index : TransactionIndex} (h : Table.Covers TransactionObject.expiry seen now index) :
    Table.Covers TransactionObject.expiry seen now (clearExpiredInputTransactions now n index) := by
  induction n generalizing index with
  | zero => exact h
  | succ n ih =>
    unfold clearExpiredInputTransactions
    split
    · exact h
    · next r hr =>
      split_ifs with hexpired
      · exact ih (h.erase (Table.mem_of_earliest hr) hexpired)
      · exact h

lemma Deduped.clearExpired (h : Deduped transactionId b older db) (n : ℕ) :
    Deduped transactionId b older { db with
      index := clearExpiredInputTransactions (slotTime b.timestamp) n db.index } :=
  ⟨covers_clearExpired n h.covers, h.nodup, h.genuine⟩

lemma Deduped.start {timestamp : UInt32} (h : Deduped transactionId b older db)
    (hlt : b.timestamp < timestamp) : Deduped transactionId ⟨timestamp, []⟩ (b :: older) db := by
  have hle : slotTime b.timestamp ≤ slotTime timestamp :=
    ProtocolFeatureSet.slotTime_mono (UInt32.le_of_lt hlt)
  have heq : recordedBy (⟨timestamp, []⟩ :: b :: older) = recordedBy (b :: older) := append_nil _
  refine ⟨?_, ?_, ?_⟩
  · rw [heq]
    exact h.covers.mono hle
  · rw [heq]
    exact h.nodup
  · rw [heq]
    exact h.genuine

/-- **Inversion of `init_for_input_trx`**, for a transaction that leaves a trace. -/
theorem initForInputTrx_eq_ok {settings : PushSettings} {now : ℕ} {trx : InputTransaction}
    {id : Sha256} {trxType : TrxType} {db' : TrxDatabase} (hchecks : settings.skipTrxChecks = false)
    (htype : trxType.isTransient = false)
    (h : initForInputTrx settings now db trx id trxType = .ok db') :
    now ≤ expirationTime trx.expiration ∧ db.index.find? id = none ∧
      db' = { db with index := db.index.insert ⟨id, trx.expiration⟩ } := by
  have hro : trxType ≠ .readOnly := by
    rintro rfl
    cases htype
  simp only [initForInputTrx, validateInputTrx, validateExpiration, recordTransaction, hchecks, hro,
    Bool.false_eq_true, or_self, if_false, bind_eq_ok, sysAssert_eq_ok,
    pure_eq_ok] at h
  obtain ⟨-, -, -, -, -, ⟨-, ⟨_, hlive, -⟩, -⟩, _, ⟨_, hnew, rfl⟩, rfl⟩ := h
  exact ⟨hlive, hnew, rfl⟩

lemma Deduped.record {r : TransactionObject}
    (hid : ∀ x y, transactionId x = transactionId y → x.expiration = y.expiration)
    (h : Deduped transactionId b older db)
    (hgenuine : ∃ trx, transactionId trx = r.trxId ∧ trx.expiration = r.expiration)
    (hlive : slotTime b.timestamp ≤ r.expiry) (hnew : db.index.find? r.trxId = none) :
    Deduped transactionId { b with recorded := b.recorded ++ [r] } older
      { db with index := db.index.insert r } := by
  have heq : recordedBy ({ b with recorded := b.recorded ++ [r] } :: older) =
      recordedBy (b :: older) ++ [r] :=
    (append_assoc _ _ _).symm
  have hexpiry : ∀ x ∈ recordedBy (b :: older), x.trxId = r.trxId → x.expiry = r.expiry := by
    intro x hx hkey
    obtain ⟨y, hy, hyexp⟩ := h.genuine x hx
    obtain ⟨trx, htrx, htrxexp⟩ := hgenuine
    rw [TransactionObject.expiry, TransactionObject.expiry, ← hyexp, ← htrxexp,
      hid y trx (hy.trans (hkey.trans htrx.symm))]
  have hnot := h.covers.key_not_mem hnew hlive hexpiry
  refine ⟨?_, ?_, ?_⟩
  · rw [heq]
    exact h.covers.insert hnew
  · rw [heq, map_append]
    refine nodup_append.mpr ⟨h.nodup, nodup_singleton _, ?_⟩
    intro x hx y hy hxy
    rw [map_singleton, mem_singleton] at hy
    exact hnot (hy ▸ hxy ▸ hx)
  · rw [heq]
    intro x hx
    rcases mem_append.mp hx with hx | hx
    · exact h.genuine x hx
    · rwa [mem_singleton.mp hx]

/-! ### Whole chains -/

/-- The database that the head left. -/
def settledDb (s : TrxChain) : TrxDatabase := (s.pending.map Prod.snd).getD s.db

/-- The index of every block covers the chain up to it, and so does that of the block that is being
built. -/
structure Inv (transactionId : InputTransaction → Sha256) (s : TrxChain) : Prop where
  stacked : Stacked (fun x below => Deduped transactionId x.1 (below.map Prod.fst) x.2)
    ((s.head, s.settledDb) :: s.below)
  pending : ∀ x ∈ s.pending, Deduped transactionId x.1 s.blocks s.db

lemma Inv.genesis (transactionId : InputTransaction → Sha256) (timestamp : UInt32)
    (blockSummary : UInt16 → BlockId) : Inv transactionId (genesis timestamp blockSummary) :=
  ⟨⟨⟨nofun, nodup_nil, nofun⟩, trivial⟩, nofun⟩

/-- The index of the current database covers everything up to the current block. -/
lemma Inv.clearExpired (h : Inv transactionId s) (n : ℕ) : Inv transactionId { s with
    db := { s.db with
      index := clearExpiredInputTransactions (slotTime s.current.timestamp) n s.db.index } } := by
  obtain ⟨hstacked, hpending⟩ := h
  cases hp : s.pending with
  | none =>
    have hcurrent : s.current = s.head := by
      rw [current, hp]
      rfl
    simp only [settledDb, hp, Option.map_none, Option.getD_none] at hstacked
    rw [hcurrent]
    exact ⟨⟨hstacked.1.clearExpired n, hstacked.2⟩, nofun⟩
  | some x =>
    have hcurrent : s.current = x.1 := by
      rw [current, hp]
      rfl
    simp only [settledDb, hp, Option.map_some, Option.getD_some] at hstacked
    rw [hcurrent]
    refine ⟨hstacked, fun y hy => ?_⟩
    cases hy
    exact (hpending x hp).clearExpired n

/-- **Every event keeps the invariant.** -/
theorem Inv.step {e : Event}
    (hid : ∀ x y, transactionId x = transactionId y → x.expiration = y.expiration)
    (h : Inv transactionId s) (hchecked : e.Checked) (hstep : Step transactionId s e s') :
    Inv transactionId s' := by
  cases e with
  | startBlock =>
    simp only [Step, apply, startBlock, bind_eq_ok, sysAssert_eq_ok, pure_eq_ok,
      Option.isNone_iff_eq_none] at hstep
    obtain ⟨-, hnone, -, hlt, rfl⟩ := hstep
    have hstacked := h.stacked
    simp only [settledDb, hnone, Option.map_none, Option.getD_none] at hstacked
    refine ⟨hstacked, fun x hx => ?_⟩
    cases hx
    exact hstacked.1.start hlt
  | clearExpired n =>
    cases hstep
    exact h.clearExpired n
  | pushTransaction settings trx trxType succeeds =>
    simp only [Step, apply, pushTransaction, bind_eq_ok, require_eq_ok] at hstep
    obtain ⟨⟨block, session⟩, hp, hstep⟩ := hstep
    split at hstep
    · cases hstep
      exact h
    · next db' hinit =>
      rw [pure_eq_ok] at hstep
      split_ifs at hstep with hkept
      · rw [Bool.and_eq_true, Bool.not_eq_true'] at hkept
        obtain ⟨hlive, hnew, rfl⟩ := initForInputTrx_eq_ok hchecked hkept.2 hinit
        subst hstep
        refine ⟨?_, fun x hx => ?_⟩
        · have hstacked := h.stacked
          simp only [settledDb, hp, Option.map_some, Option.getD_some] at hstacked
          exact hstacked
        · cases hx
          exact (h.pending _ hp).record hid ⟨trx, rfl, rfl⟩ hlive hnew
      · subst hstep
        exact h
  | commitBlock id =>
    simp only [Step, apply, commitBlock, bind_eq_ok, require_eq_ok, pure_eq_ok] at hstep
    obtain ⟨⟨block, session⟩, hp, rfl⟩ := hstep
    have hstacked := h.stacked
    simp only [settledDb, hp, Option.map_some, Option.getD_some] at hstacked
    obtain ⟨hcovers, hnodup, hgenuine⟩ := h.pending _ hp
    exact ⟨⟨⟨hcovers, hnodup, hgenuine⟩, hstacked⟩, by simp⟩
  | abortBlock =>
    simp only [Step, apply, pure_eq_ok, abortBlock] at hstep
    split at hstep
    · subst hstep
      exact h
    · next block session hp =>
      subst hstep
      have hstacked := h.stacked
      simp only [settledDb, hp, Option.map_some, Option.getD_some] at hstacked
      exact ⟨hstacked, by simp⟩
  | popBlock =>
    simp only [Step, apply, popBlock] at hstep
    split at hstep
    · next prev db below hp hbelow =>
      cases hstep
      have hstacked := h.stacked.2
      rw [hbelow] at hstacked
      exact ⟨hstacked, by simp⟩
    · cases hstep

/-- **No transaction is recorded twice**: the ids that the blocks of a chain have recorded differ,
if an id belongs to one expiration only. -/
theorem nodup_recorded_of_run {timestamp : UInt32} {blockSummary : UInt16 → BlockId}
    {tr : List (Transition TrxChain Event)}
    (hid : ∀ x y, transactionId x = transactionId y → x.expiration = y.expiration)
    (hr : Run (Step transactionId) (genesis timestamp blockSummary) tr s)
    (hchecked : ∀ t ∈ tr, t.event.Checked) :
    ((recordedBy s.blocks).map TransactionObject.trxId).Nodup := by
  have hinv : Inv transactionId s := (Run.forall_transition (C := fun _ e _ => e.Checked)
      (Inv.genesis transactionId timestamp blockSummary)
      (fun _ _ _ h hC hstep => h.step hid hC hstep) hr hchecked).1
  exact hinv.stacked.1.nodup

/-! ### A transaction that is sent three times -/

/-- A transaction that expires in the given second. -/
def demoTrx (expiration : UInt32) : InputTransaction :=
  ⟨⟨0, [], []⟩, expiration, 0, 0, 0, 0, []⟩

/-- An id that carries the expiration. -/
def demoTrxId (trx : InputTransaction) : Sha256 :=
  { Sha256.zero with h3 := trx.expiration.toUInt64 }

/-- A transaction is executed, comes again while it is live, and once more after it has expired and
its id has been removed; another one is executed in between. -/
def demoPushes : List Event :=
  let push (expiration : UInt32) : Event :=
    .pushTransaction ⟨3600, true, false, false⟩ (demoTrx expiration) .input true
  [.startBlock 1, push 946684801, .commitBlock Sha256.zero,
    .startBlock 2, push 946684801, push 946684802, .commitBlock Sha256.zero,
    .startBlock 3, .clearExpired 1, push 946684801, .commitBlock Sha256.zero]

instance : DecidablePred Event.Checked
  | .startBlock _ => .isTrue trivial
  | .clearExpired _ => .isTrue trivial
  | .pushTransaction settings _ _ _ => inferInstanceAs (Decidable (settings.skipTrxChecks = false))
  | .commitBlock _ => .isTrue trivial
  | .abortBlock => .isTrue trivial
  | .popBlock => .isTrue trivial

theorem nodup_recorded_demoPushes : ∃ (tr : List (Transition TrxChain Event)) (s : TrxChain),
      Run (Step demoTrxId) (genesis 0 fun _ => Sha256.zero) tr s ∧
      (recordedBy s.blocks).map TransactionObject.expiration = [946684801, 946684802] ∧
      s.db.index.rows.map TransactionObject.expiration = [946684802] ∧
      ((recordedBy s.blocks).map TransactionObject.trxId).Nodup := by
  obtain ⟨tr, s, hr, hP⟩ := exists_run_of_carryOut
    (fun s e => (apply demoTrxId s e).toOption) (genesis 0 fun _ => Sha256.zero) demoPushes
    (fun _ _ _ h => eq_ok_of_toOption h)
    (P := fun tr s => (∀ t ∈ tr, t.event.Checked) ∧
      (recordedBy s.blocks).map TransactionObject.expiration = [946684801, 946684802] ∧
      s.db.index.rows.map TransactionObject.expiration = [946684802]) (by decide)
  obtain ⟨hchecked, hrecorded, hindex⟩ := hP
  have hid : ∀ x y, demoTrxId x = demoTrxId y → x.expiration = y.expiration := by
    intro x y hxy
    exact UInt32.toUInt64_inj.mp (congrArg Sha256.h3 hxy)
  exact ⟨tr, s, hr, hrecorded, hindex, nodup_recorded_of_run hid hr hchecked⟩

end TrxChain

end Sysio
