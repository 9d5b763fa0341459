import Sysio.Data.Run
import Sysio.Log.Catalog

/-!
# Partitioned state history logs

The state history plugin writes an entry per block to a log.  With a `partition_config` the log is
split after every block whose number is a multiple of the stride: the finished file goes to the
catalog of retained files, and the active file starts empty.  A fork makes the log go back, perhaps
into a retained file, which then becomes the active file again.

This module has the operations as the source has them, and what a run of them is.
-/

namespace Sysio

open LogCatalog

/-- An entry of a state history log. -/
structure HistoryEntry where
  /-- `header.block_id`. -/
  blockId : BlockId
  /-- The id of the block before, as it was given to `write_entry`; it is not in the file. -/
  prevId : BlockId
  payload : List UInt8
  deriving DecidableEq, Repr

def HistoryEntry.blockNum (e : HistoryEntry) : ℕ := numFromId e.blockId

/-- A log file with its index, as the entries in it. -/
structure HistoryFile where
  entries : List HistoryEntry
  deriving DecidableEq, Repr

/-- `state_history_log_data`. -/
instance : LogData HistoryFile where
  firstBlockNum f := (f.entries.head?.map HistoryEntry.blockNum).getD 0
  lastBlockNum f := (f.entries.getLast?.map HistoryEntry.blockNum).getD 0
  numBlocks f := f.entries.length

/-- `state_history_log`, with a `partition_config`. -/
structure PartitionedHistory where
  stride : ℕ
  /-- The active log file; the index has the position of each entry. -/
  log : List HistoryEntry
  beginBlock : ℕ
  /-- `_index_begin_block`, the block of the first position in the index. -/
  indexBeginBlock : ℕ
  endBlock : ℕ
  lastBlockId : BlockId
  catalog : LogCatalog HistoryFile
  /-- The directory of retained files. -/
  retained : RetainedDir HistoryFile

namespace PartitionedHistory

/-! ### The operations -/

section

variable (s : PartitionedHistory)

def blockRange : ℕ × ℕ :=
  (min s.catalog.firstBlockNum s.beginBlock, s.endBlock)

/-- `get_pos`, as the place in the log. -/
def getPos (blockNum : ℕ) : ℕ := subU32 blockNum s.indexBeginBlock

def getEntry (blockNum : ℕ) : Result HistoryEntry := do
  sysAssert (s.beginBlock ≤ blockNum ∧ blockNum < s.endBlock) .pluginException
    "read non-existing block in log"
  require s.log[s.getPos blockNum]? .iosBaseFailure "file could not be read"

end

/-- The id of an entry that should have the given number. -/
def checkedId (blockNum : ℕ) (e : HistoryEntry) : Result (Option BlockId) := do
  sysAssert (e.blockNum = blockNum) .pluginException "header id does not match requested"
  pure (some e.blockId)

section

variable (s : PartitionedHistory)

/-- `get_block_id_i`, with the catalog afterwards. -/
def getBlockIdI (blockNum : ℕ) : Result (Option BlockId × LogCatalog HistoryFile) := do
  let (pos, catalog) ← getBlockPosition s.retained s.catalog blockNum
  match pos with
  | some pos => do
    let e ← require (catalog.logData.bind fun f => f.entries[pos]?) .iosBaseFailure
      "file could not be read"
    let id ← checkedId blockNum e
    pure (id, catalog)
  | none =>
    if s.beginBlock ≤ blockNum ∧ blockNum < s.endBlock then do
      let e ← s.getEntry blockNum
      let id ← checkedId blockNum e
      pure (id, catalog)
    else pure (none, catalog)

/-- `truncate`, once the catalog has given back the file with the block, if it has it. -/
def truncateActive (blockNum : ℕ) : PartitionedHistory :=
  if blockNum ≤ s.beginBlock then
    { s with log := [], beginBlock := blockNum, endBlock := blockNum }
  else { s with log := s.log.take (s.getPos blockNum), endBlock := blockNum }

/-- The file that the catalog gives back becomes the active file. -/
def takeBack : Option (ℕ × HistoryFile) → PartitionedHistory
  | some (first, file) =>
    if 0 < first then
      { s with log := file.entries, beginBlock := first, indexBeginBlock := first }
    else { s with log := file.entries }
  | none => s

def truncate (blockNum : ℕ) : Result PartitionedHistory := do
  let (back, retained, catalog) ← LogCatalog.truncate s.retained s.catalog blockNum
  pure ((takeBack { s with retained, catalog } back).truncateActive blockNum)

/-- The active file, as it will be when it is finished. -/
def activeFile : HistoryFile := ⟨s.log⟩

def splitLog : PartitionedHistory :=
  let (retained, catalog) :=
    add s.retained s.catalog s.beginBlock (subU32 s.endBlock 1) s.activeFile
  { s with
    log := []
    beginBlock := s.endBlock
    indexBeginBlock := s.endBlock
    catalog
    retained }

/-- The entry at the end of the active file. -/
def append (e : HistoryEntry) : PartitionedHistory :=
  let s' :=
    if s.beginBlock = s.endBlock then
      { s with beginBlock := e.blockNum, indexBeginBlock := e.blockNum }
    else s
  { s' with
    log := s.log ++ [e]
    endBlock := u32 (e.blockNum + 1)
    lastBlockId := e.blockId }

/-- The check of `write_entry` that the entry links to the one before it. -/
def checkLink (e : HistoryEntry) : Result Unit :=
  if s.beginBlock ≠ s.endBlock ∧ s.beginBlock < e.blockNum then
    if e.blockNum = s.endBlock then
      sysAssert (e.prevId = s.lastBlockId) .pluginException "missed a fork change in log"
    else do
      let prev ← s.getEntry (e.blockNum - 1)
      sysAssert (e.prevId = prev.blockId) .pluginException "missed a fork change in log"
  else pure ()

/-- Goes back to the block, unless the entry is there already: then the first component says so. -/
def forkBack (e : HistoryEntry) : Result (Bool × PartitionedHistory) := do
  sysAssert (2 < e.blockNum) .pluginException
    "Existing ship log with blocks when starting from genesis block"
  if e.blockNum < s.beginBlock then do
    let s' ← s.truncate e.blockNum
    pure (false, s')
  else do
    -- the lookup may open another retained file
    let (id, catalog) ← s.getBlockIdI e.blockNum
    if id = some e.blockId then pure (true, { s with catalog })
    else do
      let s' ← truncate { s with catalog } e.blockNum
      pure (false, s')

/-- The end of `write_entry`. -/
def store (e : HistoryEntry) : PartitionedHistory :=
  if e.blockNum % s.stride = 0 then (s.append e).splitLog else s.append e

def writeEntry (e : HistoryEntry) : Result PartitionedHistory := do
  sysAssert (s.beginBlock = s.endBlock ∨ e.blockNum ≤ s.endBlock) .pluginException
    "missed a block in log"
  s.checkLink e
  if e.blockNum < s.endBlock then do
    let (present, s') ← s.forkBack e
    pure (if present then s' else s'.store e)
  else pure (s.store e)

def openLog : Result PartitionedHistory :=
  match s.log.head?, s.log.getLast? with
  | some first, some last => do
    sysAssert (first.blockNum < u32 (last.blockNum + 1)) .pluginException "recover log failed"
    pure
      { s with
        beginBlock := first.blockNum
        indexBeginBlock := first.blockNum
        endBlock := u32 (last.blockNum + 1)
        lastBlockId := last.blockId }
  | _, _ =>
    pure { s with beginBlock := 0, indexBeginBlock := 0, endBlock := 0, lastBlockId := Sha256.zero }

/-- The constructor, on the files that are there, with the retained files in the order in which the
directory lists them. -/
def reopen (listing : List (Bundle HistoryFile)) : Result PartitionedHistory := do
  let s ← s.openLog
  let catalog := openDir s.catalog.maxRetainedFiles listing
  let next := u32 (catalog.lastBlockNum + 1)
  pure (if s.endBlock = 0 then
      { s with catalog, beginBlock := next, indexBeginBlock := next, endBlock := next }
    else { s with catalog })

end

/-- A log without files, opened for the first time. -/
def fresh (stride maxRetainedFiles : ℕ) : PartitionedHistory where
  stride
  log := []
  beginBlock := 1
  indexBeginBlock := 1
  endBlock := 1
  lastBlockId := Sha256.zero
  catalog := openDir maxRetainedFiles []
  retained := Table.empty

/-! ### Runs -/

inductive Event
  /-- `write_entry`. -/
  | write (e : HistoryEntry)
  /-- `get_block_id`. -/
  | getBlockId (blockNum : ℕ)
  /-- The log is closed and opened again. -/
  | reopen (listing : List (Bundle HistoryFile))

def Step (s : PartitionedHistory) : Event → PartitionedHistory → Prop
  | .write e, s' => s.writeEntry e = .ok s'
  | .getBlockId blockNum, s' =>
    ∃ id catalog, s.getBlockIdI blockNum = .ok (id, catalog) ∧ s' = { s with catalog }
  | .reopen listing, s' => listing.Perm s.retained.rows ∧ s.reopen listing = .ok s'

/-- All entries, from the oldest retained file to the active file. -/
def stored (s : PartitionedHistory) : List HistoryEntry :=
  (s.catalog.collection.flatMap fun i =>
    ((s.retained.find? i.filenameBase).map fun b => b.file.entries).getD []) ++ s.log

/-- **The entry leaves no hole**: the log is empty or reaches up to the block, and if the block
before it is stored, the entry links to it. -/
structure Links (s : PartitionedHistory) (e : HistoryEntry) : Prop where
  reached : s.stored = [] ∨ e.blockNum ≤ s.endBlock
  linked : ∀ p ∈ s.stored, p.blockNum + 1 = e.blockNum → e.prevId = p.blockId

/-- `write_entry` does not look whether the entry links: the active file is empty, or the entry
would be its first one or one before it. -/
def Unchecked (s : PartitionedHistory) (e : HistoryEntry) : Prop :=
  s.beginBlock = s.endBlock ∨ e.blockNum ≤ s.beginBlock

/-- The condition on an event: entries that are not checked link, and the number after the block
fits `uint32_t`. -/
def Event.Harmless (s : PartitionedHistory) : Event → Prop
  | .write e => (Unchecked s e → Links s e) ∧ e.blockNum + 1 < 2 ^ 32
  | _ => True

instance (s : PartitionedHistory) (e : HistoryEntry) : Decidable (Links s e) :=
  decidable_of_iff ((s.stored = [] ∨ e.blockNum ≤ s.endBlock) ∧
      ∀ p ∈ s.stored, p.blockNum + 1 = e.blockNum → e.prevId = p.blockId)
    ⟨fun h => ⟨h.1, h.2⟩, fun h => ⟨h.1, h.2⟩⟩

instance (s : PartitionedHistory) (e : HistoryEntry) : Decidable (Unchecked s e) :=
  inferInstanceAs (Decidable (_ ∨ _))

instance (s : PartitionedHistory) (event : Event) : Decidable (event.Harmless s) :=
  match event with
  | .write _ => inferInstanceAs (Decidable ((_ → _) ∧ _))
  | .getBlockId _ => isTrue trivial
  | .reopen _ => isTrue trivial

def next (s : PartitionedHistory) : Event → Option PartitionedHistory
  | .write e => (s.writeEntry e).toOption
  | .getBlockId blockNum =>
    (s.getBlockIdI blockNum).toOption.map fun r => { s with catalog := r.2 }
  | .reopen listing =>
    if listing.Perm s.retained.rows then (s.reopen listing).toOption else none

lemma step_of_next {s s' : PartitionedHistory} {event : Event} (h : s.next event = some s') :
    Step s event s' := by
  cases event with
  | write e => exact Result.eq_ok_of_toOption h
  | getBlockId =>
    obtain ⟨⟨id, catalog⟩, hid, rfl⟩ := Option.map_eq_some_iff.mp h
    exact ⟨id, catalog, Result.eq_ok_of_toOption hid, rfl⟩
  | reopen =>
    simp only [next] at h
    split_ifs at h with hperm
    exact ⟨hperm, Result.eq_ok_of_toOption h⟩

end PartitionedHistory

end Sysio
