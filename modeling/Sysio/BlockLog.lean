import Sysio.BlockHeaderState.Id
import Sysio.ForkDatabase.Basic

/-!
# The block log

A log of the irreversible blocks, in two files: the blocks one after the other, and an index with
the position of each block in eight bytes.  The head, the last block appended, is kept in memory.
The block state log is a second log of the same kind, for the states of the blocks.

`append` writes the block, then its entry in the index, then moves the head; each of these may fail
and leave what came before it done.  `AppendFault` says where it fails, if it does, and the rest of
the model takes it as an input.
-/

namespace Sysio

/-- The point at which an append throws, because a file cannot be read or written. -/
inductive AppendFault
  /-- Before the block is in the block file. -/
  | blockFile
  /-- With the block in the block file, while its entry is written to the index file or flushed:
  so many bytes of it are there. -/
  | indexFile (written : ℕ)
  /-- In `post_append` or the last `flush`, with the head already moved. -/
  | afterHead
  deriving DecidableEq, Repr

/-- `basic_block_log`: the part of its state that its own checks and its users read. -/
structure BlockLog where
  /-- `genesis_written_to_block_log`. -/
  genesisWritten : Bool
  /-- `preamble.first_block_num`. -/
  firstBlockNum : ℕ
  /-- The blocks of the block file, oldest first. -/
  blocks : List BlockState
  /-- The size of the index file in bytes. -/
  indexSize : ℕ
  /-- The block appended last. -/
  head : Option BlockState

/-- A block number fits 32 bits, because the id carries it. -/
lemma BlockState.blockNum_lt (b : BlockState) : b.blockNum < 2 ^ 32 := by
  rw [← b.numFromId_id, numFromId, toNat_endianReverseU32]
  omega

lemma BlockState.blockNum_eq_of_id {a b : BlockState} (h : a.id = b.id) :
    a.blockNum = b.blockNum := by
  rw [← a.numFromId_id, ← b.numFromId_id, h]

namespace BlockLog

def headId (log : BlockLog) : Option BlockId := log.head.map fun b => b.id

/-- The exception of a file operation that fails. -/
def ioFailure : ChainException := ⟨.iosBaseFailure, "file could not be written"⟩

section

variable (log : BlockLog) (b : BlockState)

/-- The block in the block file, and the given number of bytes of its entry in the index file. -/
def writeFiles (written : ℕ) : BlockLog :=
  { log with
    blocks := log.blocks ++ [b]
    indexSize := log.indexSize + written }

/-- The log with the block in its files and as its head. -/
def appended : BlockLog :=
  { log.writeFiles b 8 with head := some b }

/-- `append`: whether it throws, and the log afterwards. -/
def append (fault : Option AppendFault) : Result Unit × BlockLog :=
  if log.genesisWritten = false then
    (.error ⟨.blockLogAppendFail, "Cannot append to log until the genesis is first written"⟩, log)
  else if log.indexSize ≠ 8 * subU32 b.blockNum log.firstBlockNum then
    (.error ⟨.blockLogAppendFail, "Append to index file occuring at wrong position."⟩, log)
  else
    match fault with
    | some .blockFile => (.error ioFailure, log)
    | some (.indexFile written) => (.error ioFailure, log.writeFiles b (min written 8))
    | some .afterHead => (.error ioFailure, log.appended b)
    | none => (.ok (), log.appended b)

end

/-! ### Logs in step with a block -/

/-- The log ends with a block of the number of `b`, or is empty and starts with the next one. -/
structure InStep (log : BlockLog) (b : BlockState) : Prop where
  genesisWritten : log.genesisWritten = true
  first_le : log.firstBlockNum ≤ b.blockNum + 1
  indexSize_eq : log.indexSize = 8 * (b.blockNum + 1 - log.firstBlockNum)
  head_cases : (log.head = none ∧ log.firstBlockNum = b.blockNum + 1) ∨
    ∃ h, log.head = some h ∧ h.blockNum = b.blockNum

variable {log : BlockLog} {p b : BlockState}

lemma InStep.of_id (h : log.InStep p) (hid : b.id = p.id) : log.InStep b := by
  obtain ⟨hgen, hfirst, hindex, hhead⟩ := h
  rw [← BlockState.blockNum_eq_of_id hid] at hfirst hindex hhead
  exact ⟨hgen, hfirst, hindex, hhead⟩

/-- The next block goes to the right position of the index. -/
lemma InStep.append_eq (h : log.InStep p) (hnum : b.blockNum = p.blockNum + 1) :
    log.append b none = (.ok (), log.appended b) := by
  have hpos : 8 * subU32 b.blockNum log.firstBlockNum = log.indexSize := by
    rw [subU32_of_le b.blockNum_lt (hnum ▸ h.first_le), h.indexSize_eq, hnum]
  unfold append
  rw [if_neg (by rw [h.genesisWritten]; decide), if_neg (by rw [hpos]; exact not_not_intro rfl)]

lemma InStep.appended (h : log.InStep p) (hnum : b.blockNum = p.blockNum + 1) :
    (log.appended b).InStep b where
  genesisWritten := h.genesisWritten
  first_le := by
    show log.firstBlockNum ≤ b.blockNum + 1
    have := h.first_le
    omega
  indexSize_eq := by
    show log.indexSize + 8 = 8 * (b.blockNum + 1 - log.firstBlockNum)
    rw [h.indexSize_eq]
    have := h.first_le
    omega
  head_cases := .inr ⟨b, rfl, rfl⟩

/-- An append that throws before the block is in the block file leaves the log as it is. -/
lemma append_blockFile (log : BlockLog) (b : BlockState) :
    ∃ e, log.append b (some .blockFile) = (.error e, log) := by
  unfold append
  split_ifs <;> exact ⟨_, rfl⟩

end BlockLog

end Sysio
