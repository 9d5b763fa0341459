import Sysio.BlockLog
import Sysio.Data.Command
import Sysio.ForkDatabase.Branch

/-!
# Logging irreversible blocks

`log_irreversible` takes the blocks that have become irreversible out of the fork database: it
appends each to the block log and to the block state log, commits the database up to it, and
advances the root of the fork database at the end.  In the irreversible read mode it also applies
each block first.  Any of these steps may throw; `LogFaults` says which ones do, block by block.

The other operations on the same stores are adding a block to the fork database, applying a block
that is in it, and removing one that could not be applied.
-/

namespace Sysio

open Command

/-- `db_read_mode`. -/
inductive ReadMode
  | head
  | irreversible
  | speculative
  deriving DecidableEq, Repr

/-- What goes wrong while a block is logged. -/
structure LogFaults where
  /-- The exception of `apply_block`, before it marks the block as valid. -/
  apply : Option ChainException
  /-- The exception of a handler of one of the signals that are emitted once the block is
  applied. -/
  emit : Option ChainException
  /-- The failure of the append to the block log. -/
  blog : Option AppendFault
  /-- The failure of the append to the block state log. -/
  slog : Option AppendFault
  deriving DecidableEq, Repr

def LogFaults.none : LogFaults := ⟨.none, .none, .none, .none⟩

/-- The stores of `controller_impl` that hold blocks. -/
structure ChainStores where
  forkDb : ForkDatabase
  /-- The block that the database holds the state of. -/
  head : BlockState
  blog : BlockLog
  slog : Option BlockLog
  /-- The number of the block up to which the database is committed. -/
  committed : ℕ

namespace ChainStores

def forkDbHead (mode : ReadMode) (s : ChainStores) : Option BlockState :=
  if mode = .irreversible then s.forkDb.pendingHead else s.forkDb.head

/-! ### One block -/

/-- `apply_block`, as far as the fork database and the chain head go.  A block that is not built on
the chain head is refused at its start if it is not later than that; otherwise it is assembled with
another parent, and so with another id. -/
def applyBlock (b : BlockState) (fault : Option ChainException) :
    Command ChainStores ChainException Unit :=
  act fun s =>
    if s.head.id ≠ b.header.previous then
      (.error ⟨.blockValidateException, if b.header.timestamp ≤ s.head.header.timestamp then
        "next block must be in the future" else "Block ID does not match"⟩, s)
    else
      match fault with
      | some e => (.error e, s)
      | none =>
        match s.forkDb.markValid b with
        | .error e => (.error e, s)
        | .ok db => (.ok (), { s with forkDb := db, head := b })

/-- A signal, one of whose handlers may throw. -/
def emit (fault : Option ChainException) : Command ChainStores ChainException Unit :=
  act fun s =>
    match fault with
    | some e => (.error e, s)
    | none => (.ok (), s)

def appendBlog (b : BlockState) (fault : Option AppendFault) :
    Command ChainStores ChainException Unit :=
  act fun s =>
    ((s.blog.append b fault).1, { s with blog := (s.blog.append b fault).2 })

/-- The append to the block state log, if there is one. -/
def appendSlog (b : BlockState) (fault : Option AppendFault) :
    Command ChainStores ChainException Unit :=
  act fun s =>
    match s.slog with
    | none => (.ok (), s)
    | some slog => ((slog.append b fault).1, { s with slog := some (slog.append b fault).2 })

/-- `db.commit`. -/
def commit (revision : ℕ) : Command ChainStores ChainException Unit :=
  act fun s => (.ok (), { s with committed := revision })

/-- A block that has become irreversible is announced, appended to the logs and committed. -/
def record (b : BlockState) (fault : LogFaults) : Command ChainStores ChainException Unit := do
  emit fault.emit
  -- before the commit, so that the database can be rolled back if it throws
  appendBlog b fault.blog
  appendSlog b fault.slog
  commit b.blockNum

/-- The body of the loop of `log_irreversible`, up to the assignment to `root_id`. -/
def logBlock (mode : ReadMode) (b : BlockState) (fault : LogFaults) :
    Command ChainStores ChainException Unit :=
  if mode = .irreversible then do
    applyBlock b fault.apply
    record b fault
  else record b fault

/-! ### The call -/

/-- The loop of `log_irreversible`: how it ends, `root_id` and the stores at that point. -/
def logBlocks (mode : ReadMode) (faults : BlockId → LogFaults) :
    List BlockState → BlockId → ChainStores → Result Unit × BlockId × ChainStores
  | [], rootId, s => (.ok (), rootId, s)
  | b :: branch, rootId, s =>
    match (logBlock mode b (faults b.id)).exec s with
    | (.ok (), s') => logBlocks mode faults branch b.id s'
    | (.error e, s') => (.error e, rootId, s')

/-- `lib_num` of `log_irreversible`: the number of the last block of the block log. -/
def libNum (s : ChainStores) : ℕ :=
  match s.blog.headId with
  | some id => numFromId id
  | none => subU32 s.blog.firstBlockNum 1

/-- The consistency check of `log_irreversible`. -/
def checkRoot (s : ChainStores) (root : BlockState) : Result Unit :=
  match s.blog.headId with
  | some id =>
    sysAssert (root.id = id) .forkDatabaseException
      "fork database root does not match block log head"
  | none =>
    sysAssert (root.blockNum = s.libNum) .forkDatabaseException
      ("The first block when starting with an empty block log should be the block after fork " ++
        "database root.")

/-- What `log_irreversible` does before its loop: the root of the fork database, and the branch that
has become irreversible, oldest block first. -/
def branchToLog (mode : ReadMode) (s : ChainStores) : Result (BlockState × List BlockState) :=
  match s.forkDb.root with
  | none => .error ⟨.forkDatabaseException, "fork database not properly initialized"⟩
  | some root => do
    s.checkRoot root
    match s.forkDbHead mode with
    | none => .error ⟨.undefinedBehavior, "null pointer dereferenced"⟩
    | some forkHead =>
      if forkHead.dposIrreversibleBlocknum ≤ s.libNum then
        pure (root, [])
      else
        pure (root, (s.forkDb.fetchBranch forkHead.id forkHead.dposIrreversibleBlocknum).reverse)

/-- Advances the root of the fork database, if it is another block. -/
def advanceTo (root : BlockState) (rootId : BlockId) (s : ChainStores) : Result ChainStores :=
  if rootId ≠ root.id then do
    let db ← s.forkDb.advanceRoot rootId
    pure { s with forkDb := db }
  else pure s

/-- `log_irreversible`: whether it throws, and the stores afterwards.  The root is advanced after an
exception, too. -/
def logIrreversible (mode : ReadMode) (faults : BlockId → LogFaults) (s : ChainStores) :
    Result Unit × ChainStores :=
  match s.branchToLog mode with
  | .error e => (.error e, s)
  | .ok (root, branch) =>
    match logBlocks mode faults branch root.id s with
    | (result, rootId, s') =>
      match s'.advanceTo root rootId with
      | .error e => (.error e, s')
      | .ok s' => (result, s')

/-! ### Runs -/

inductive Event
  /-- `push_block` adds a block that has not been validated yet. -/
  | add (n : BlockState)
  /-- `apply_block` in the other read modes, on top of the root or of a block applied before. -/
  | apply (b : BlockState)
  /-- `maybe_switch_forks` removes a block that could not be applied. -/
  | remove (id : BlockId)
  | logIrreversible (faults : BlockId → LogFaults)

/-- The parent of a block is the root, or it has been applied. -/
def ParentApplied (db : ForkDatabase) (b : BlockState) : Prop :=
  (∃ root, db.root = some root ∧ b.header.previous = root.id) ∨
    ∃ p ∈ db.index, p.id = b.header.previous ∧ p.validated = true

/-- One operation; a call of `log_irreversible` may throw, the others that throw change nothing. -/
def Step (validator : UInt32 → List Sha256 → List Sha256 → Result Unit) (mode : ReadMode)
    (s : ChainStores) : Event → ChainStores → Prop
  | .add n, s' => n.validated = false ∧ (ForkDatabase.Op.add n false false).Continues s.forkDb ∧
      ∃ db, s.forkDb.add validator n false false = .ok db ∧ s' = { s with forkDb := db }
  | .apply b, s' => mode ≠ .irreversible ∧ b ∈ s.forkDb.index ∧ ParentApplied s.forkDb b ∧
      ∃ db, s.forkDb.markValid b = .ok db ∧ s' = { s with forkDb := db, head := b }
  | .remove id, s' => mode ≠ .irreversible ∧
      ∃ db, s.forkDb.remove id = .ok db ∧ s' = { s with forkDb := db }
  | .logIrreversible faults, s' => s' = (s.logIrreversible mode faults).2

end ChainStores

end Sysio
