import Sysio.BlockHeaderState.Step
import Sysio.Controller.Basic

/-!
# The producer plugin

The plugin tries to start a block again and again.  If the next slot belongs to one of its
producers, and nothing forbids it to produce, the block is built in *producing* mode and is to be
signed and committed when its time has come; otherwise it is a *speculative* one, which is thrown
away.  For each of its producers the plugin keeps a watermark, the highest block number and the
latest slot of any block of that producer that it has seen, on whatever fork.

The model has the state that decides about this and every handler that changes it.  Which timer
calls `start_block` and `produce_block` when is left open: both may be called at any time.  So is
what the chain does with blocks that are received: the head may move to any branch.  The clock never
goes backwards.  Two fields only record what has happened, and no function reads them: the blocks of
the head's branch, and the headers that have been announced.
-/

namespace Sysio

/-! ### Time -/

def blockIntervalUs : ℕ := 500000

/-- `block_timestamp_type( time_point )`; times are in microseconds since the epoch of block
timestamps. -/
def timestampOf (t : ℕ) : UInt32 := UInt32.ofNat (t / blockIntervalUs)

/-- `to_time_point`. -/
def timePoint (slot : UInt32) : ℕ := slot.toNat * blockIntervalUs

/-- `block_timestamp::next`. -/
def nextTimestamp (slot : UInt32) : Result UInt32 := do
  sysAssert (1 ≤ (2 ^ 32 - 1) - slot.toNat) .overflowException "block timestamp overflow"
  pure (slot + 1)

/-! ### State -/

/-- The environment in which any activation of features is valid.  Blocks of this node are not
checked for that when they are finished. -/
def HeaderEnv.trusting (env : HeaderEnv) : HeaderEnv :=
  { env with validator := fun _ _ _ => pure () }

inductive PendingBlockMode
  | producing
  | speculating
  deriving DecidableEq, Repr

/-- `producer_watermarks`: the highest block number and the latest slot of each producer. -/
abbrev ProducerWatermarks := Table Name (Name × ℕ × UInt32) Prod.fst

def ProducerWatermarks.considerNewWatermark (ws : ProducerWatermarks) (producer : Name)
    (blockNum : ℕ) (timestamp : UInt32) : ProducerWatermarks :=
  match ws.find? producer with
  | some (_, num, time) => ws.upsert (producer, max num blockNum, max time timestamp)
  | none => ws.upsert (producer, blockNum, timestamp)

def ProducerWatermarks.getWatermark (ws : ProducerWatermarks) (producer : Name) :
    Option (ℕ × UInt32) :=
  (ws.find? producer).map Prod.snd

/-- A header that has been announced. -/
inductive AnnouncedBlock
  /-- A block of this node, with the block it was built on. -/
  | produced (parent block : BlockHeaderState)
  | received (block : BlockHeaderState)

def AnnouncedBlock.block : AnnouncedBlock → BlockHeaderState
  | .produced _ block => block
  | .received block => block

structure ProducerConfig where
  /-- `_producers`. -/
  producers : List Name
  /-- There is a signature provider for the key. -/
  hasKey : PublicKey → Bool

/-- A branch of the chain, oldest block first. -/
abbrev Branch := List (Transition BlockHeaderState BlockHeaderState.HeaderInput)

/-- `producer_plugin_impl`, with the head and the pending block of the controller. -/
structure ProducerPlugin where
  head : BlockHeaderState
  /-- The branch of the head. -/
  branch : Branch
  pending : Option PendingBlockHeaderState
  pendingBlockMode : PendingBlockMode
  producerWatermarks : ProducerWatermarks
  productionEnabled : Bool
  pauseProduction : Bool
  irreversibleBlockTime : ℕ
  /-- Negative if any age is fine. -/
  maxIrreversibleBlockAgeUs : ℤ
  now : ℕ
  /-- The announced headers, oldest first. -/
  announced : List AnnouncedBlock

namespace ProducerPlugin

/-! ### Starting a block -/

def calculatePendingBlockTime (s : ProducerPlugin) : Result UInt32 :=
  nextTimestamp (timestampOf (max s.now (timePoint s.head.header.timestamp)))

/-- `get_irreversible_block_age`. -/
def irreversibleBlockAge (s : ProducerPlugin) : ℕ := s.now - s.irreversibleBlockTime

/-- The irreversible block is too old. -/
def isStale (s : ProducerPlugin) : Prop :=
  0 ≤ s.maxIrreversibleBlockAgeUs ∧ s.maxIrreversibleBlockAgeUs ≤ s.irreversibleBlockAge

instance (s : ProducerPlugin) : Decidable s.isStale := inferInstanceAs (Decidable (_ ∧ _))

/-- The watermark excludes a block of the producer on the head. -/
def isExcluded (s : ProducerPlugin) (producer : Name) (blockTime : UInt32) : Bool :=
  match s.producerWatermarks.getWatermark producer with
  | none => false
  | some (num, time) => decide (s.head.blockNum < num) || decide (blockTime ≤ time)

/-- The mode of a block in the slot. -/
def chooseMode (cfg : ProducerConfig) (s : ProducerPlugin) (blockTime : UInt32)
    (scheduled : ProducerAuthority) : PendingBlockMode :=
  if s.productionEnabled = false then .speculating
  else if scheduled.producerName ∉ cfg.producers then .speculating
  else if scheduled.authority.keys.all (fun k => !cfg.hasKey k.key) then .speculating
  else if s.pauseProduction then .speculating
  else if s.isStale then .speculating
  else if s.isExcluded scheduled.producerName blockTime then .speculating
  else .producing

/-- The first block of a round has to wait for its window. -/
def waitsForProduction (s : ProducerPlugin) (blockTime : UInt32) : Prop :=
  blockTime.toNat % producerRepetitions = 0 ∧ s.now < timePoint blockTime - blockIntervalUs

instance (s : ProducerPlugin) (blockTime : UInt32) : Decidable (s.waitsForProduction blockTime) :=
  inferInstanceAs (Decidable (_ ∧ _))

/-- The number of blocks that a block of the producer confirms. -/
def blocksToConfirm (s : ProducerPlugin) (producer : Name) : UInt16 :=
  let sinceWatermark :=
    match s.producerWatermarks.getWatermark producer with
    | none => 0
    | some (num, _) =>
      if num < s.head.blockNum then min (2 ^ 16 - 1) (subU32 s.head.blockNum num) else 0
  -- irreversible blocks cannot be confirmed
  UInt16.ofNat (min sinceWatermark (subU32 s.head.blockNum s.head.dposIrreversibleBlocknum))

def abortBlock (s : ProducerPlugin) : ProducerPlugin := { s with pending := none }

/-- What an attempt to start a block depends on besides the state. -/
structure Attempt where
  /-- The node is syncing, so that speculative blocks are not worth the while. -/
  isSyncing : Bool
  /-- `start_block` of the controller throws although there is a header state for the block. -/
  fails : Bool

section

variable (env : HeaderEnv) (s : ProducerPlugin) (a : Attempt) (blockTime : UInt32)
  (scheduled : ProducerAuthority)

/-- The last part of `start_block`: the pending block is replaced.  An exception of the controller
is dropped. -/
def openBlock : ProducerPlugin :=
  let n := if s.pendingBlockMode = .producing then s.blocksToConfirm scheduled.producerName else 0
  match s.head.nextPending env blockTime n with
  | .error _ => s.abortBlock
  | .ok p =>
    if a.fails then s.abortBlock
    else { s with
      pending := some p
      pendingBlockMode :=
        if p.validBlockSigningAuthority ≠ scheduled.authority then .speculating
        else s.pendingBlockMode }

/-- `start_block`, with the mode chosen. -/
def startInMode : ProducerPlugin :=
  if s.pendingBlockMode = .speculating ∧ a.isSyncing = true then s
  else if s.pendingBlockMode = .producing ∧ s.waitsForProduction blockTime then s
  else s.openBlock env a blockTime scheduled

end

def startBlock (cfg : ProducerConfig) (env : HeaderEnv) (s : ProducerPlugin) (a : Attempt) :
    ProducerPlugin :=
  match s.calculatePendingBlockTime with
  | .error _ => s
  | .ok blockTime =>
    match s.head.getScheduledProducer blockTime with
    | none => s
    | some scheduled =>
      { s with pendingBlockMode := s.chooseMode cfg blockTime scheduled }.startInMode env a
        blockTime scheduled

/-! ### Announced headers -/

def onBlockHeader (cfg : ProducerConfig) (s : ProducerPlugin) (b : AnnouncedBlock) :
    ProducerPlugin :=
  let header := b.block.header
  { s with
    producerWatermarks :=
      if header.producer ∈ cfg.producers then
        s.producerWatermarks.considerNewWatermark header.producer b.block.blockNum header.timestamp
      else s.producerWatermarks
    announced := s.announced ++ [b] }

/-! ### Producing a block -/

/-- What goes into a block besides what its header state says. -/
structure BlockContent where
  transactionMroot : Sha256
  actionMroot : Sha256
  newProducers : Option ProducerAuthoritySchedule
  newProtocolFeatureActivations : List Sha256
  sHeader : Option SHeader
  signer : Sha256 → List Signature

/-- How `commit_block` ends. -/
inductive CommitOutcome
  /-- It throws before the header is announced. -/
  | refused
  /-- It throws after that. -/
  | announced
  /-- The block is the new head; the time is that of the last irreversible block. -/
  | committed (irreversibleBlockTime : ℕ)

/-- `produce_block`, up to the signed block. -/
def signBlock (cfg : ProducerConfig) (env : HeaderEnv) (s : ProducerPlugin) (c : BlockContent) :
    Result BlockHeaderState := do
  sysAssert (s.pendingBlockMode = .producing) .producerException
    "called produce_block while not actually producing"
  let p ← require s.pending .missingPendingBlockState
    "pending_block_state does not exist but it should, another plugin may have corrupted it"
  sysAssert (p.validBlockSigningAuthority.keys.any (fun k => cfg.hasKey k.key) = true)
    .producerPrivKeyNotFound
    "Attempting to produce a block for which we don't have any relevant private keys"
  let header ← p.makeBlockHeader env c.transactionMroot c.actionMroot c.newProducers
    c.newProtocolFeatureActivations c.sHeader
  p.finishNextSigned env ⟨header, ⟨0⟩⟩ c.signer

def commitBlock (cfg : ProducerConfig) (s : ProducerPlugin) (block : BlockHeaderState) :
    CommitOutcome → ProducerPlugin
  | .refused => s.abortBlock
  | .announced => (s.onBlockHeader cfg (.produced s.head block)).abortBlock
  | .committed irreversibleBlockTime =>
    { s.onBlockHeader cfg (.produced s.head block) with
      head := block
      branch := s.branch ++ [⟨s.head, ⟨block.header, block.additionalSignatures, false⟩, block⟩]
      pending := none
      irreversibleBlockTime := irreversibleBlockTime }

/-- `maybe_produce_block`, without the next attempt to start a block. -/
def maybeProduceBlock (cfg : ProducerConfig) (env : HeaderEnv) (s : ProducerPlugin)
    (c : BlockContent) (o : CommitOutcome) : ProducerPlugin :=
  match s.signBlock cfg env c with
  | .error _ => s.abortBlock
  | .ok block => s.commitBlock cfg block o

/-! ### Received blocks -/

/-- The blocks that a list of headers leads to, and the last of them. -/
def replayHeaders (env : HeaderEnv) :
    BlockHeaderState → List BlockHeaderState.HeaderInput → Result (Branch × BlockHeaderState)
  | s, [] => .ok ([], s)
  | s, e :: es => do
    let s' ← s.next env e.header e.additionalSignatures e.skipValidateSignee
    let r ← replayHeaders env s' es
    pure (⟨s, e, s'⟩ :: r.1, r.2)

/-- A block that is received, and what the chain makes of it. -/
structure IncomingBlock where
  /-- The block, if its header is announced. -/
  header : Option BlockHeaderState
  /-- The headers of the branch that the head is on afterwards. -/
  branch : List BlockHeaderState.HeaderInput
  /-- `push_block` returns. -/
  returns : Bool
  /-- The time of the last irreversible block afterwards. -/
  irreversibleBlockTime : ℕ

/-- What `on_incoming_block` does once the branch of the head is known. -/
def acceptIncoming (cfg : ProducerConfig) (s : ProducerPlugin) (b : IncomingBlock) (branch : Branch)
    (head : BlockHeaderState) : ProducerPlugin :=
  let s := (b.header.elim s fun block => s.onBlockHeader cfg (.received block)).abortBlock
  { s with
    head := head
    branch := branch
    irreversibleBlockTime := b.irreversibleBlockTime
    productionEnabled := s.productionEnabled ||
      b.returns && (nextTimestamp head.header.timestamp).toOption.any
        fun next => decide (s.now ≤ timePoint next) }

/-- `on_incoming_block`, without the next attempt to start a block.  There is no result if the
headers are not those of a branch. -/
def onIncomingBlock (cfg : ProducerConfig) (env : HeaderEnv) (genesis : BlockHeaderState)
    (s : ProducerPlugin) (b : IncomingBlock) : Option ProducerPlugin :=
  if s.pendingBlockMode = .producing then some s
  else
    (replayHeaders env.trusting genesis b.branch).toOption.map fun r =>
      s.acceptIncoming cfg b r.1 r.2

/-! ### Runs -/

inductive Event
  | tick (elapsed : ℕ)
  | startBlock (a : Attempt)
  | produceBlock (c : BlockContent) (o : CommitOutcome)
  | incomingBlock (b : IncomingBlock)
  /-- The pending block is given up, for a snapshot or a hash of the state, or because a transaction
  has exhausted it. -/
  | abortBlock
  | pause
  | resume
  | setMaxIrreversibleBlockAge (age : ℤ)

/-- A change of policy gives a speculative block up. -/
def reconsider (s : ProducerPlugin) : ProducerPlugin :=
  if s.pendingBlockMode = .speculating then s.abortBlock else s

section

variable (cfg : ProducerConfig) (env : HeaderEnv) (genesis : BlockHeaderState) (s : ProducerPlugin)

/-- The state after an event; there is none for an event that cannot happen. -/
def apply : Event → Option ProducerPlugin
  | .tick elapsed => some { s with now := s.now + elapsed }
  | .startBlock a => some (s.startBlock cfg env a)
  | .produceBlock c o => some (s.maybeProduceBlock cfg env c o)
  | .incomingBlock b => s.onIncomingBlock cfg env genesis b
  | .abortBlock => some s.abortBlock
  | .pause => some { s with pauseProduction := true }
  | .resume => some { s with pauseProduction := false }.reconsider
  | .setMaxIrreversibleBlockAge age => some { s with maxIrreversibleBlockAgeUs := age }.reconsider

def Step (e : Event) (s' : ProducerPlugin) : Prop :=
  s.apply cfg env genesis e = some s'

end

/-- The plugin when it has started up on some branch: nothing is pending, and no header has been
announced to it. -/
structure Initial (env : HeaderEnv) (genesis : BlockHeaderState) (s : ProducerPlugin) : Prop where
  branch : Run (BlockHeaderState.Accepts env.trusting) genesis s.branch s.head
  pending : s.pending = none
  producerWatermarks : s.producerWatermarks = Table.empty
  announced : s.announced = []

end ProducerPlugin

end Sysio
