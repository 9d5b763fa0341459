import Sysio.Data.Run
import Sysio.Log.Segments

/-!
# The partitioned block log

With a `partitioned_blocklog_config` the block log is split after every block whose number is a
multiple of the stride: the finished file goes to the catalog of retained files, and a new active
file gets a preamble with the number of the next block.

The log should behave like the list of the blocks that were appended since the last reset, without
the oldest ones if there are too many files (`refines_of_run`).  Four things go wrong:

* when the log is opened, the head is read from the active file only.  Right after a split that file
  has no block, and the head is lost (`exists_lost_head`);
* when the log is opened, the last block of a retained file is read where a `signed_block` has it,
  whatever the type of the entries is;
* a reset leaves the retained files in place, and their blocks are still found;
* a read of the largest block number searches in the map of the retained files even if it is empty.

`Event.Harmless` leaves out just these.
-/

namespace Sysio

open Result List Option LogCatalog Consecutive

/-- What the block log asks of the type that it stores. -/
class StoredType (B : Type) where
  /-- `retrieve_block_num`. -/
  blockNum : B → ℕ
  blockNum_lt : ∀ b, blockNum b < 2 ^ 32
  /-- `block_num_at`: what the bytes 14 to 17 of the entry give, which are the number of the block
  before in a `signed_block`. -/
  blockNumAt : B → ℕ
  /-- `needed_for_replay`. -/
  neededForReplay : Bool

/-- A log file with its index: the preamble, and the blocks in it. -/
structure BlockFile (B : Type) where
  /-- `preamble.first_block_num`. -/
  firstBlockNum : ℕ
  /-- `preamble.chain_id()`. -/
  chainId : Sha256
  blocks : List B
  deriving DecidableEq

/-- `block_log_data`.  The index has a position for each block; `open` writes it anew only if the
number that is read for the last block is another one. -/
instance {B : Type} [StoredType B] : LogData (BlockFile B) where
  firstBlockNum f := f.firstBlockNum
  lastBlockNum f := (f.blocks.getLast?.map StoredType.blockNumAt).getD 0
  numBlocks f := f.blocks.length

/-- The number of the last block is read as it is. -/
def BlockFile.Legible {B : Type} [StoredType B] (f : BlockFile B) : Prop :=
  ∀ b ∈ f.blocks.getLast?, StoredType.blockNumAt b = StoredType.blockNum b

instance {B : Type} [StoredType B] (f : BlockFile B) : Decidable f.Legible :=
  inferInstanceAs (Decidable (∀ b ∈ f.blocks.getLast?, _))

structure PartitionedBlockLog (B : Type) where
  stride : ℕ
  /-- The active file with its preamble; none while the file is empty. -/
  file : Option (BlockFile B)
  head : Option B
  catalog : LogCatalog (BlockFile B)
  /-- `catalog.verifier.chain_id`, all zero if it is empty. -/
  verifierChainId : Sha256
  /-- The directory of retained files. -/
  retained : RetainedDir (BlockFile B)

namespace PartitionedBlockLog

variable {B : Type} [StoredType B]

open StoredType

/-! ### The operations -/

section

variable (s : PartitionedBlockLog B)

def firstBlockNum : ℕ :=
  match s.catalog.collection.head? with
  | some item => item.firstBlockNum
  | none => (s.file.map BlockFile.firstBlockNum).getD 0

def splitLog (file : BlockFile B) (head : B) : PartitionedBlockLog B :=
  let (retained, catalog) :=
    LogCatalog.add s.retained s.catalog file.firstBlockNum (blockNum head) file
  { s with
    file := some ⟨u32 (blockNum head + 1), file.chainId, []⟩
    catalog
    retained }

/-- `append`, with `post_append`. -/
def append (b : B) : Result (PartitionedBlockLog B) := do
  let file ← require s.file .blockLogAppendFail
    "Cannot append to log until the genesis is first written"
  sysAssert (file.blocks.length = subU32 (blockNum b) file.firstBlockNum) .blockLogAppendFail
    "Append to index file occuring at wrong position."
  let file := { file with blocks := file.blocks ++ [b] }
  let s := { s with file := some file, head := some b }
  pure (if blockNum b % s.stride = 0 then s.splitLog file b else s)

/-- `reset` of the files. -/
def resetFiles (firstBlockNum : ℕ) (chainId : Sha256) : PartitionedBlockLog B :=
  { s with file := some ⟨firstBlockNum, chainId, []⟩ }

/-- `reset`, from a genesis state with the given chain id. -/
def resetGenesis (chainId : Sha256) (firstBlock : B) : Result (PartitionedBlockLog B) :=
  (s.resetFiles 1 chainId).append firstBlock

/-- `reset` of the basic log, from a chain id. -/
def resetChainId (chainId : Sha256) (firstBlockNum : ℕ) : Result (PartitionedBlockLog B) := do
  sysAssert (1 < firstBlockNum ∨ neededForReplay B = false) .blockLogException
    "Block log version needs to be created with a genesis state if starting from block number 1."
  pure { s.resetFiles firstBlockNum chainId with head := none }

/-- `reset` of the partitioned log, from a chain id. -/
def reset (chainId : Sha256) (firstBlockNum : ℕ) : Result (PartitionedBlockLog B) := do
  sysAssert (s.verifierChainId = Sha256.zero ∨ chainId = s.verifierChainId) .blockLogException
    "Trying to reset to the chain to a different chain id"
  s.resetChainId chainId firstBlockNum

end

/-- `read_block`, with the number that is expected. -/
def checkedBlock (n : ℕ) (b : Option B) : Result (Option B) := do
  let b ← require b .iosBaseFailure "file could not be read"
  sysAssert (n = 0 ∨ blockNum b = n) .blockLogException "Wrong block was read from the log."
  pure (some b)

/-- The block in the active file, if it should be there by the head and the preamble. -/
def activeFor (s : PartitionedBlockLog B) (n : ℕ) : Option (BlockFile B) :=
  match s.file, s.head with
  | some file, some head =>
    if n ≤ blockNum head ∧ file.firstBlockNum ≤ n then some file else none
  | _, _ => none

/-- `read_block_by_num`, with the catalog afterwards. -/
def readBlockByNum (s : PartitionedBlockLog B) (n : ℕ) :
    Result (Option B × LogCatalog (BlockFile B)) :=
  match s.activeFor n with
  | some file => do
    let b ← checkedBlock n file.blocks[subU32 n file.firstBlockNum]?
    pure (b, s.catalog)
  | none => do
    let (pos, catalog) ← getBlockPosition s.retained s.catalog n
    match pos with
    | some pos => do
      let b ← checkedBlock n (catalog.logData.bind fun f => f.blocks[pos]?)
      pure (b, catalog)
    | none => pure (none, catalog)

/-- `block_log_verifier`, for one file. -/
def verify (chainId : Sha256) (b : Bundle (BlockFile B)) : Result Sha256 :=
  if chainId = Sha256.zero then pure b.file.chainId
  else do
    sysAssert (chainId = b.file.chainId) .blockLogException
      "block log file has a different chain id"
    pure chainId

/-- The constructor, on the files that are there, with the retained files in the order in which the
directory lists them. -/
def reopen (s : PartitionedBlockLog B) (listing : List (Bundle (BlockFile B))) :
    Result (PartitionedBlockLog B) := do
  let verifierChainId ← listing.foldlM verify Sha256.zero
  let catalog := openDir s.catalog.maxRetainedFiles listing
  -- `basic_block_log::open`
  let head := s.file.bind fun f => f.blocks.getLast?
  let s := { s with catalog, verifierChainId, head }
  match s.file with
  | none =>
    if catalog.collection = [] then pure s
    else do
      let s ← s.resetChainId verifierChainId (u32 (catalog.lastBlockNum + 1))
      let (b, catalog) ← s.readBlockByNum catalog.lastBlockNum
      pure { s with catalog, head := b }
  | some file => do
    sysAssert (verifierChainId = Sha256.zero ∨ verifierChainId = file.chainId) .blockLogException
      "block log file has a different chain id"
    pure s

/-- A log without files, opened for the first time. -/
def fresh (stride maxRetainedFiles : ℕ) : PartitionedBlockLog B where
  stride
  file := none
  head := none
  catalog := openDir maxRetainedFiles []
  verifierChainId := Sha256.zero
  retained := Table.empty

end PartitionedBlockLog

/-! ### Runs -/

/-- A block log, with the blocks appended to it since the last reset, oldest first. -/
structure LogSession (B : Type) where
  log : PartitionedBlockLog B
  appended : List B

namespace LogSession

variable {B : Type} [StoredType B]

open StoredType PartitionedBlockLog

inductive Event (B : Type)
  | resetGenesis (chainId : Sha256) (firstBlock : B)
  | reset (chainId : Sha256) (firstBlockNum : ℕ)
  | append (b : B)
  | read (n : ℕ)
  /-- The log is closed and opened again. -/
  | reopen (listing : List (Bundle (BlockFile B)))

def Step (s : LogSession B) : Event B → LogSession B → Prop
  | .resetGenesis chainId b, s' => s.log.resetGenesis chainId b = .ok s'.log ∧ s'.appended = [b]
  | .reset chainId n, s' => s.log.reset chainId n = .ok s'.log ∧ s'.appended = []
  | .append b, s' => s.log.append b = .ok s'.log ∧ s'.appended = s.appended ++ [b]
  | .read n, s' =>
    ∃ b catalog, s.log.readBlockByNum n = .ok (b, catalog) ∧
      s' = { s with log := { s.log with catalog } }
  | .reopen listing, s' =>
    listing.Perm s.log.retained.rows ∧ s.log.reopen listing = .ok s'.log ∧ s'.appended = s.appended

/-- **The condition on an event**: no reset while there are retained files, no restart while the
head is in a retained file or with a retained file whose last number is read as another one, no read
of the largest number while there are no retained files.  The number after a block fits
`uint32_t`. -/
def Event.Harmless (s : LogSession B) : Event B → Prop
  | .resetGenesis _ b => s.log.catalog.collection = [] ∧ blockNum b + 1 < 2 ^ 32
  | .reset _ n => s.log.catalog.collection = [] ∧ n < 2 ^ 32
  | .append b => blockNum b + 1 < 2 ^ 32
  | .read n => s.log.catalog.collection ≠ [] ∨ n + 1 < 2 ^ 32
  | .reopen listing =>
    (s.log.head = none ∨ ∃ f ∈ s.log.file, f.blocks ≠ []) ∧ ∀ b ∈ listing, b.file.Legible

/-! ### The shape of a log -/

/-- The blocks of some files. -/
def flat (files : List (BlockFile B)) : List B := files.flatMap BlockFile.blocks

/-- **The log is in shape**: of the blocks that were appended, from the number `start` on, some were
dropped with their files, then come those in the retained files and those in the active file. -/
structure Shape (s : LogSession B) (start : ℕ) (dropped : List B) (files : List (BlockFile B))
    (file : BlockFile B) : Prop where
  file_eq : s.log.file = some file
  holds : LogCatalog.Holds s.log.retained s.log.catalog files
  segments : Segments BlockFile.blocks blockNum (start + dropped.length) files
  appended : s.appended = dropped ++ (flat files ++ file.blocks)
  numbered : Consecutive blockNum start s.appended
  first_eq : file.firstBlockNum = start + dropped.length + (flat files).length
  lt : file.firstBlockNum + file.blocks.length < 2 ^ 32
  head_eq : s.log.head = s.appended.getLast?
  chain : ∀ f ∈ files, f.chainId = file.chainId

/-- Nothing was ever written. -/
structure Unused (s : LogSession B) : Prop where
  file_eq : s.log.file = none
  holds : LogCatalog.Holds s.log.retained s.log.catalog []
  appended : s.appended = []
  head_eq : s.log.head = none

def Inv (s : LogSession B) : Prop :=
  Unused s ∨ ∃ start dropped files file, Shape s start dropped files file

variable {s s' : LogSession B} {start n : ℕ} {dropped : List B} {files : List (BlockFile B)}
  {file : BlockFile B} {b : B} {listing : List (Bundle (BlockFile B))}

lemma checkedBlock_eq (h : blockNum b = n) : checkedBlock n (some b) = .ok (some b) :=
  bind_eq_ok.mpr ⟨b, rfl, bind_eq_ok.mpr ⟨(), sysAssert_eq_ok.mpr (.inr h), rfl⟩⟩

namespace Shape

section

variable (h : Shape s start dropped files file)
include h

lemma numbered_stored :
    Consecutive blockNum (start + dropped.length) (flat files ++ file.blocks) ∧
      Consecutive blockNum file.firstBlockNum file.blocks := by
  have hn := h.numbered
  rw [h.appended, append] at hn
  refine ⟨hn.2, ?_⟩
  rw [h.first_eq]
  exact (append.mp hn.2).2

lemma firstBlockNum_eq : s.log.firstBlockNum = start + dropped.length := by
  unfold PartitionedBlockLog.firstBlockNum
  rw [h.holds.collection, h.file_eq]
  cases files with
  | nil => exact h.first_eq
  | cons => exact h.segments.head.1

/-- The head is the last block that can be read, or has the number before the first one. -/
lemma blockNum_head (hb : b ∈ s.log.head) :
    blockNum b + 1 = file.firstBlockNum + file.blocks.length := by
  rw [h.head_eq] at hb
  have hnum := h.numbered.getLast? hb
  rw [h.appended, length_append, length_append] at hnum
  have := h.first_eq
  omega

/-- The active file is read for its own blocks, and for no others. -/
lemma activeFor_eq (n : ℕ) : s.log.activeFor n =
      if file.firstBlockNum ≤ n ∧ n < file.firstBlockNum + file.blocks.length then some file
      else none := by
  unfold activeFor
  rw [h.file_eq]
  cases hhead : s.log.head with
  | none =>
    -- without a head there is no block at all
    have hempty : s.appended = [] := by
      rw [← getLast?_eq_none_iff, ← h.head_eq, hhead]
    have hblocks : file.blocks = [] := by
      have happ := h.appended
      rw [hempty] at happ
      exact (append_eq_nil_iff.mp (append_eq_nil_iff.mp happ.symm).2).2
    rw [hblocks, length_nil, if_neg (by omega)]
  | some head =>
    have hnum := h.blockNum_head hhead
    have hiff : (n ≤ blockNum head ∧ file.firstBlockNum ≤ n) ↔
        file.firstBlockNum ≤ n ∧ n < file.firstBlockNum + file.blocks.length := by omega
    simp only [hiff]

/-- **`read_block_by_num`** finds the block if it is in one of the files, and nothing else. -/
theorem readBlockByNum_spec (hn : s.log.catalog.collection ≠ [] ∨ n + 1 < 2 ^ 32) :
    ∃ r catalog, s.log.readBlockByNum n = .ok (r, catalog) ∧
      Shape { s with log := { s.log with catalog } } start dropped files file ∧
      ((∃ b ∈ flat files ++ file.blocks, blockNum b = n ∧ r = some b) ∨
        (∀ b ∈ flat files ++ file.blocks, blockNum b ≠ n) ∧ r = none) := by
  have hactive := h.activeFor_eq n
  have hlt := h.lt
  obtain ⟨-, hfile⟩ := h.numbered_stored
  unfold readBlockByNum
  split_ifs at hactive with hin
  · obtain ⟨b, hb, hnum, hsome⟩ := hfile.exists_of_range hin.1 hin.2
    refine ⟨some b, s.log.catalog, ?_, h, .inl ⟨b, mem_append_right _ hb, hnum, rfl⟩⟩
    simp only [hactive, subU32_of_le (show n < 2 ^ 32 by omega) hin.1, hsome]
    exact bind_eq_ok.mpr ⟨_, checkedBlock_eq hnum, rfl⟩
  · obtain ⟨⟨pos, catalog⟩, hr⟩ := exists_getBlockPosition h.holds (h.holds.readable hn)
    obtain ⟨hholds, -, hcase⟩ := getBlockPosition_spec h.holds hr
    have hshape : Shape { s with log := { s.log with catalog } } start dropped files file :=
      { h with holds := hholds }
    rw [hactive, hr, ok_bind]
    rcases hcase with ⟨f, hf, hcov, rfl, hdata⟩ | ⟨hnone, rfl⟩
    · obtain ⟨b, hb, hnum, hsome⟩ := h.segments.exists_of_covers hf hcov
      have hmem : b ∈ flat files ++ file.blocks := mem_append_left _ (mem_flatMap.mpr ⟨f, hf, hb⟩)
      refine ⟨some b, _, ?_, hshape, .inl ⟨b, hmem, hnum, rfl⟩⟩
      simp only [hdata, bind_some, hsome]
      exact bind_eq_ok.mpr ⟨_, checkedBlock_eq hnum, rfl⟩
    · refine ⟨none, _, rfl, hshape, .inr ⟨fun b hb hnum => ?_, rfl⟩⟩
      rcases mem_append.mp hb with hb | hb
      · obtain ⟨f, hf, hbf⟩ := mem_flatMap.mp hb
        exact hnone f hf (hnum ▸ h.segments.covers_of_mem hf hbf)
      · have := hfile.mem_bounds hb
        exact hin ⟨by omega, by omega⟩

end

end Shape

/-! ### What the operations do -/

lemma length_eq_subU32 {first len num : ℕ} (hnum : num < 2 ^ 32) (hlt : first + len < 2 ^ 32) :
    len = subU32 num first ↔ num = first + len := by
  constructor
  · intro h
    rcases Nat.lt_or_ge num first with hless | hge
    · -- the difference would wrap around, to more blocks than there can be
      have hfirst : u32 first = first := u32_of_lt (by omega)
      rw [subU32, hfirst, u32_of_lt (by omega)] at h
      omega
    · rw [subU32_of_le hnum hge] at h
      omega
  · rintro rfl
    rw [subU32_of_le hnum (Nat.le_add_right _ _), Nat.add_sub_cancel_left]

section

variable (h : Shape s start dropped files file)
include h

lemma Shape.concat
    (hnum : blockNum b = file.firstBlockNum + file.blocks.length) (hlt : blockNum b + 1 < 2 ^ 32) :
    Shape
      ⟨{ s.log with
          file := some { file with blocks := file.blocks ++ [b] }
          head := some b }, s.appended ++ [b]⟩
      start dropped files { file with blocks := file.blocks ++ [b] } := by
  have hlength := congrArg List.length h.appended
  rw [length_append, length_append] at hlength
  have hfirst := h.first_eq
  exact
    { file_eq := rfl
      holds := h.holds
      segments := h.segments
      appended := by
        show s.appended ++ [b] = _
        rw [h.appended, append_assoc, append_assoc]
      numbered := append.mpr ⟨h.numbered, singleton (by omega)⟩
      first_eq := hfirst
      lt := by
        show file.firstBlockNum + (file.blocks ++ [b]).length < 2 ^ 32
        rw [length_append, length_singleton]
        omega
      head_eq := getLast?_concat.symm
      chain := h.chain }

/-- **`split_log`** makes the active file a retained one, and starts another with the next block. -/
theorem Shape.splitLog (hhead : s.log.head = some b)
    (hblocks : file.blocks ≠ []) : ∃ dropped' files' file',
      Shape ⟨s.log.splitLog file b, s.appended⟩ start dropped' files' file' := by
  obtain ⟨-, hnumbered⟩ := h.numbered_stored
  have hnum := h.blockNum_head hhead
  have hlt := h.lt
  have hlast : file.blocks.getLast? = some b := by
    have hlast := h.head_eq
    rw [hhead, h.appended, ← append_assoc, getLast?_append_of_ne_nil _ hblocks] at hlast
    exact hlast.symm
  -- the active file goes behind the others
  have hactive : Segments BlockFile.blocks blockNum file.firstBlockNum [file] := by
    refine ⟨forall_mem_singleton.mpr hblocks, ?_, ?_, fun _ _ => rfl⟩
    · rwa [flatMap_singleton]
    · refine forall_mem_singleton.mpr fun a ha => ?_
      exact (hnumbered.head? ha).symm
  have hlastNum : blockNum b = LogData.endBlockNum file :=
    hactive.num_getLast? mem_cons_self hlast
  have hall : Segments BlockFile.blocks blockNum (start + dropped.length) (files ++ [file]) := by
    refine Segments.append_iff.mpr ⟨h.segments, ?_⟩
    have := h.first_eq
    unfold flat at this
    rwa [← this]
  have hsized : LogCatalog.Sized file := by
    refine hactive.sized mem_cons_self ?_
    rw [flatMap_singleton]
    exact hlt.le
  have hafter : ∀ g ∈ files, LogData.endBlockNum g < LogData.firstBlockNum file := by
    intro g hg
    show _ < file.firstBlockNum
    rw [h.first_eq]
    exact (h.segments.numbered_file hg).2.2
  obtain ⟨k, -, hholds, -⟩ := add_spec h.holds hsized hafter
  have hsplit : Segments BlockFile.blocks blockNum (start + dropped.length)
      ((files ++ [file]).take k ++ (files ++ [file]).drop k) := by
    rwa [take_append_drop]
  have hflat : flat ((files ++ [file]).take k) ++ flat ((files ++ [file]).drop k) =
      flat files ++ file.blocks := by
    unfold flat
    rw [← flatMap_append, take_append_drop, flatMap_append, flatMap_singleton]
  have hlength := congrArg List.length hflat
  rw [length_append, length_append] at hlength
  have hfirst := h.first_eq
  refine ⟨dropped ++ flat ((files ++ [file]).take k), (files ++ [file]).drop k,
    ⟨blockNum b + 1, file.chainId, []⟩, ?_⟩
  exact
    { file_eq := by
        show some (⟨u32 (blockNum b + 1), file.chainId, []⟩ : BlockFile B) = _
        rw [u32_of_lt (by omega)]
      holds := by
        rwa [← hlastNum] at hholds
      segments := by
        rw [length_append, ← Nat.add_assoc]
        exact (Segments.append_iff.mp hsplit).2
      appended := by
        show s.appended = _
        rw [h.appended, append_nil, append_assoc, hflat]
      numbered := h.numbered
      first_eq := by
        show blockNum b + 1 = _
        rw [length_append]
        omega
      lt := by
        show blockNum b + 1 + 0 < 2 ^ 32
        omega
      head_eq := h.head_eq
      chain := by
        intro f hf
        rcases mem_append.mp (mem_of_mem_drop hf) with hf | hf
        · exact h.chain f hf
        · rw [mem_singleton.mp hf] }

/-- **`append`** takes the block after the last one, and no other. -/
theorem append_spec (hlt : blockNum b + 1 < 2 ^ 32) : (∀ log', s.log.append b = .ok log' →
      ∃ dropped' files' file', Shape ⟨log', s.appended ++ [b]⟩ start dropped' files' file') ∧
      (blockNum b = file.firstBlockNum + file.blocks.length →
        ∃ log', s.log.append b = .ok log') := by
  have hiff := length_eq_subU32 (blockNum_lt b) h.lt
  constructor
  · intro log' happend
    obtain ⟨file1, hfile, happend⟩ := bind_eq_ok.mp happend
    rw [require_eq_ok, h.file_eq] at hfile
    cases hfile
    obtain ⟨_, hindex, happend⟩ := bind_eq_ok.mp happend
    have hshape := h.concat (hiff.mp (sysAssert_eq_ok.mp hindex)) hlt
    cases happend
    split_ifs with hsplit
    · exact hshape.splitLog rfl (concat_ne_nil b file.blocks)
    · exact ⟨dropped, files, _, hshape⟩
  · intro hnum
    exact ⟨_, bind_eq_ok.mpr ⟨file, require_eq_ok.mpr h.file_eq,
      bind_eq_ok.mpr ⟨(), sysAssert_eq_ok.mpr (hiff.mpr hnum), rfl⟩⟩⟩

end

lemma shape_resetFiles (h : LogCatalog.Holds s.log.retained s.log.catalog [])
    (hn : n < 2 ^ 32) (chainId : Sha256) :
    Shape ⟨{ s.log.resetFiles n chainId with head := none }, []⟩ n [] [] ⟨n, chainId, []⟩ where
  file_eq := rfl
  holds := h
  segments := Segments.nil
  appended := rfl
  numbered := nil
  first_eq := rfl
  lt := hn
  head_eq := rfl
  chain := by simp

omit [StoredType B] in
lemma foldlM_verify {chainId start : Sha256}
    (h : ∀ b ∈ listing, b.file.chainId = chainId) (hstart : start = Sha256.zero ∨ start = chainId) :
    ∃ r, listing.foldlM verify start = .ok r ∧ (r = Sha256.zero ∨ r = chainId) := by
  induction listing generalizing start with
  | nil => exact ⟨start, rfl, hstart⟩
  | cons b listing ih =>
    obtain ⟨hb, hlisting⟩ := forall_mem_cons.mp h
    have hverify : ∃ r, verify start b = .ok r ∧ (r = Sha256.zero ∨ r = chainId) := by
      unfold verify
      split_ifs with hzero
      · exact ⟨_, rfl, .inr hb⟩
      · have hchain := hstart.resolve_left hzero
        exact ⟨start, bind_eq_ok.mpr ⟨(), sysAssert_eq_ok.mpr (hchain.trans hb.symm), rfl⟩,
          .inr hchain⟩
    obtain ⟨r, hr, hcase⟩ := hverify
    obtain ⟨r', hr', hcase'⟩ := ih hlisting hcase
    refine ⟨r', ?_, hcase'⟩
    rwa [foldlM_cons, hr]

/-- **`open`** finds the log as it was left, if the head is in the active file. -/
theorem reopen_spec (h : Shape s start dropped files file)
    (hlisting : listing.Perm s.log.retained.rows) (hharmless : (Event.reopen listing).Harmless s) :
    ∃ log', s.log.reopen listing = .ok log' ∧
      Shape ⟨log', s.appended⟩ start dropped files file := by
  have hchain : ∀ b ∈ listing, b.file.chainId = file.chainId := by
    intro b hb
    obtain ⟨f, hf, rfl⟩ := (h.holds.stored b).mp (hlisting.mem_iff.mp hb)
    exact h.chain f hf
  obtain ⟨chainId, hverify, hcase⟩ := foldlM_verify hchain (.inl rfl)
  have hread : ∀ f ∈ files, LogData.lastBlockNum f = LogData.endBlockNum f := by
    intro f hf
    have hlast := getLast?_eq_some_getLast (h.segments.full f hf)
    have hlegible := hharmless.2 (bundle f)
      (hlisting.mem_iff.mpr ((h.holds.stored _).mpr ⟨f, hf, rfl⟩)) _ hlast
    show (f.blocks.getLast?.map blockNumAt).getD 0 = _
    rw [hlast, map_some, getD_some, hlegible]
    exact h.segments.num_getLast? hf hlast
  have hhead : file.blocks.getLast? = s.appended.getLast? := by
    rw [h.appended, ← append_assoc]
    rcases hharmless.1 with hnone | ⟨f, hf, hblocks⟩
    · -- nothing was appended
      rw [h.head_eq, getLast?_eq_none_iff, h.appended, ← append_assoc] at hnone
      rw [hnone, (append_eq_nil_iff.mp hnone).2]
    · rw [h.file_eq] at hf
      cases hf
      rw [getLast?_append_of_ne_nil _ hblocks]
  refine ⟨{ s.log with
      catalog := openDir s.log.catalog.maxRetainedFiles listing
      verifierChainId := chainId
      head := file.blocks.getLast? }, ?_, ?_⟩
  · refine bind_eq_ok.mpr ⟨chainId, hverify, ?_⟩
    simp only [h.file_eq]
    exact bind_eq_ok.mpr ⟨(), sysAssert_eq_ok.mpr hcase, rfl⟩
  · exact
      { h with
        file_eq := h.file_eq
        holds := openDir_spec h.holds hlisting hread _
        head_eq := hhead }

/-! ### The invariant -/

lemma Inv.exists_holds (h : Inv s) :
    ∃ files, LogCatalog.Holds s.log.retained s.log.catalog files := by
  rcases h with h | ⟨start, dropped, files, file, h⟩
  · exact ⟨[], h.holds⟩
  · exact ⟨files, h.holds⟩

lemma Inv.holds_nil (h : Inv s) (hempty : s.log.catalog.collection = []) :
    LogCatalog.Holds s.log.retained s.log.catalog [] := by
  obtain ⟨files, hholds⟩ := h.exists_holds
  have hfiles := hholds.collection
  rw [hempty] at hfiles
  rwa [map_eq_nil_iff.mp hfiles.symm] at hholds

lemma Unused.readBlockByNum_eq (h : Unused s)
    (hn : s.log.catalog.collection ≠ [] ∨ n + 1 < 2 ^ 32) :
    ∃ catalog, s.log.readBlockByNum n = .ok (none, catalog) ∧
      Unused { s with log := { s.log with catalog } } := by
  obtain ⟨⟨pos, catalog⟩, hr⟩ := exists_getBlockPosition h.holds (h.holds.readable hn)
  obtain ⟨hholds, -, ⟨f, hf, -⟩ | ⟨-, rfl⟩⟩ := getBlockPosition_spec h.holds hr
  · cases hf
  · refine ⟨catalog, ?_, { h with holds := hholds }⟩
    have hactive : s.log.activeFor n = none := by
      rw [activeFor, h.file_eq]
    rw [readBlockByNum, hactive, hr]
    rfl

lemma Unused.reopen_eq (h : Unused s) (hlisting : listing.Perm s.log.retained.rows) :
    ∃ log', s.log.reopen listing = .ok log' ∧ Unused ⟨log', s.appended⟩ := by
  obtain rfl : listing = [] := by
    rw [eq_nil_iff_forall_not_mem]
    intro b hb
    obtain ⟨f, hf, -⟩ := (h.holds.stored b).mp (hlisting.mem_iff.mp hb)
    cases hf
  have hholds := openDir_spec h.holds hlisting (by simp) s.log.catalog.maxRetainedFiles
  refine ⟨{ s.log with
      catalog := openDir s.log.catalog.maxRetainedFiles []
      verifierChainId := Sha256.zero
      head := none }, ?_, ⟨h.file_eq, hholds, h.appended, rfl⟩⟩
  refine bind_eq_ok.mpr ⟨Sha256.zero, rfl, ?_⟩
  simp only [h.file_eq, bind_none]
  exact if_pos rfl

lemma Inv.step {event : Event B} (h : Inv s) (hharmless : event.Harmless s)
    (hstep : Step s event s') : Inv s' := by
  cases event with
  | resetGenesis chainId b =>
    obtain ⟨hempty, hlt⟩ := hharmless
    obtain ⟨happend, happended⟩ := hstep
    -- the head before the reset plays no part
    have happend' : ({ s.log.resetFiles 1 chainId with head := none } :
        PartitionedBlockLog B).append b = .ok s'.log := happend
    have hshape := shape_resetFiles (h.holds_nil hempty) (n := 1) (by norm_num) chainId
    obtain ⟨dropped, files, file, hs'⟩ := (append_spec hshape hlt).1 _ happend'
    rw [nil_append, ← happended] at hs'
    exact .inr ⟨1, dropped, files, file, hs'⟩
  | reset chainId n =>
    obtain ⟨hempty, hlt⟩ := hharmless
    obtain ⟨hreset, happended⟩ := hstep
    obtain ⟨_, -, hreset⟩ := bind_eq_ok.mp hreset
    obtain ⟨_, -, hreset⟩ := bind_eq_ok.mp hreset
    have hshape := shape_resetFiles (h.holds_nil hempty) hlt chainId
    rw [pure_eq_ok.mp hreset] at hshape
    obtain ⟨log', appended'⟩ := s'
    obtain rfl : appended' = [] := happended
    exact .inr ⟨n, [], [], _, hshape⟩
  | append b =>
    obtain ⟨happend, happended⟩ := hstep
    rcases h with h | ⟨start, dropped, files, file, h⟩
    · obtain ⟨file, hfile, -⟩ := bind_eq_ok.mp happend
      rw [require_eq_ok, h.file_eq] at hfile
      cases hfile
    · obtain ⟨dropped', files', file', hs'⟩ := (append_spec h hharmless).1 _ happend
      rw [← happended] at hs'
      exact .inr ⟨start, dropped', files', file', hs'⟩
  | read n =>
    obtain ⟨r, catalog, hread, rfl⟩ := hstep
    rcases h with h | ⟨start, dropped, files, file, h⟩
    · obtain ⟨catalog', hread', hs'⟩ := h.readBlockByNum_eq hharmless
      rw [hread'] at hread
      obtain ⟨-, rfl⟩ := Prod.mk.inj (Except.ok.inj hread)
      exact .inl hs'
    · obtain ⟨r', catalog', hread', hs', -⟩ := h.readBlockByNum_spec hharmless
      rw [hread'] at hread
      obtain ⟨-, rfl⟩ := Prod.mk.inj (Except.ok.inj hread)
      exact .inr ⟨start, dropped, files, file, hs'⟩
  | reopen =>
    obtain ⟨hlisting, hopen, happended⟩ := hstep
    rcases h with h | ⟨start, dropped, files, file, h⟩
    · obtain ⟨log', hopen', hs'⟩ := h.reopen_eq hlisting
      rw [hopen'] at hopen
      rw [Except.ok.inj hopen, ← happended] at hs'
      exact .inl hs'
    · obtain ⟨log', hopen', hs'⟩ := reopen_spec h hlisting hharmless
      rw [hopen'] at hopen
      rw [Except.ok.inj hopen, ← happended] at hs'
      exact .inr ⟨start, dropped, files, file, hs'⟩

def fresh (stride maxRetainedFiles : ℕ) : LogSession B :=
  ⟨PartitionedBlockLog.fresh stride maxRetainedFiles, []⟩

lemma Inv.fresh (stride maxRetainedFiles : ℕ) :
    Inv (fresh stride maxRetainedFiles : LogSession B) := by
  refine .inl ⟨rfl, ⟨rfl, ?_, by simp, List.Pairwise.nil, ?_⟩, rfl, rfl⟩
  · simp [LogSession.fresh, PartitionedBlockLog.fresh]
  · simp [LogSession.fresh, PartitionedBlockLog.fresh, openDir]

/-! ### The list of blocks -/

/-- **The log is the list of the appended blocks.**  The head is the last block appended.  A block
from `first_block_num` up to the head is read as it was appended, and nothing is read for any other
number, the largest one apart if there are no retained files.  The log can be opened again, with the
same head and the same first block, and the block after the head can be appended. -/
structure Refines (s : LogSession B) : Prop where
  head_eq : s.log.head = s.appended.getLast?
  read : ∀ n, s.log.firstBlockNum ≤ n → (∀ h ∈ s.log.head, n ≤ blockNum h) → s.appended ≠ [] →
    ∃ b ∈ s.appended, blockNum b = n ∧ ∃ catalog, s.log.readBlockByNum n = .ok (some b, catalog)
  read_none : ∀ n, (n < s.log.firstBlockNum ∨ ∀ h ∈ s.log.head, blockNum h < n) →
    (s.log.catalog.collection ≠ [] ∨ n + 1 < 2 ^ 32) →
    ∃ catalog, s.log.readBlockByNum n = .ok (none, catalog)
  unique : ∀ b ∈ s.appended, ∀ b' ∈ s.appended, blockNum b = blockNum b' → b = b'
  reopen : ∀ listing : List (Bundle (BlockFile B)), listing.Perm s.log.retained.rows →
    (Event.reopen listing).Harmless s →
    ∃ log', s.log.reopen listing = .ok log' ∧ log'.head = s.log.head ∧
      log'.firstBlockNum = s.log.firstBlockNum
  append : ∀ b, ∀ h ∈ s.log.head, blockNum b = blockNum h + 1 → blockNum b + 1 < 2 ^ 32 →
    ∃ log', s.log.append b = .ok log'

lemma Unused.refines (h : Unused s) : Refines s where
  head_eq := by rw [h.head_eq, h.appended, getLast?_nil]
  read n _ _ hne := absurd h.appended hne
  read_none n _ hn := by
    obtain ⟨catalog, hread, -⟩ := h.readBlockByNum_eq hn
    exact ⟨catalog, hread⟩
  unique b hb := by
    rw [h.appended] at hb
    cases hb
  reopen listing hlisting _ := by
    obtain ⟨log', hopen, hs'⟩ := h.reopen_eq hlisting
    refine ⟨log', hopen, hs'.head_eq.trans h.head_eq.symm, ?_⟩
    have hfirst : log'.file = none := hs'.file_eq
    have hcollection : log'.catalog.collection = [] := hs'.holds.collection
    rw [PartitionedBlockLog.firstBlockNum, PartitionedBlockLog.firstBlockNum, hcollection, hfirst,
      h.file_eq, h.holds.collection]
    rfl
  append b head hhead := by
    rw [h.head_eq] at hhead
    cases hhead

lemma Shape.refines (h : Shape s start dropped files file) : Refines s where
  head_eq := h.head_eq
  read n hfirst hlast hne := by
    obtain ⟨b, hb⟩ : ∃ b, s.log.head = some b := by
      rw [h.head_eq]
      exact ⟨_, getLast?_eq_some_getLast hne⟩
    have hnum := h.blockNum_head hb
    have hle := hlast b hb
    rw [h.firstBlockNum_eq] at hfirst
    have hfile := h.first_eq
    obtain ⟨b', hb', hnum', -⟩ := h.numbered_stored.1.exists_of_range hfirst (by
      rw [length_append]
      omega)
    have hlt := h.lt
    obtain ⟨r, catalog, hread, -, ⟨b'', hb'', hnum'', rfl⟩ | ⟨hnone, -⟩⟩ :=
      h.readBlockByNum_spec (n := n) (.inr (by omega))
    · refine ⟨b'', ?_, hnum'', catalog, hread⟩
      rw [h.appended]
      exact mem_append_right _ hb''
    · exact absurd hnum' (hnone b' hb')
  read_none n hn hn' := by
    obtain ⟨r, catalog, hread, -, ⟨b, hb, rfl, -⟩ | ⟨-, rfl⟩⟩ := h.readBlockByNum_spec hn'
    · -- the blocks in the files are those of the range
      exfalso
      have hbounds := h.numbered_stored.1.mem_bounds hb
      have hfile := h.first_eq
      rw [h.firstBlockNum_eq] at hn
      rcases hn with hn | hn
      · omega
      · have hne : s.appended ≠ [] := by
          rw [h.appended]
          exact append_ne_nil_of_right_ne_nil _ (ne_nil_of_mem hb)
        have hhead : s.log.head = some (s.appended.getLast hne) := by
          rw [h.head_eq]
          exact getLast?_eq_some_getLast hne
        have := h.blockNum_head hhead
        have := hn _ hhead
        rw [length_append] at hbounds
        omega
    · exact ⟨catalog, hread⟩
  unique b hb b' hb' heq := h.numbered.eq_of_num_eq hb hb' heq
  reopen listing hlisting hharmless := by
    obtain ⟨log', hopen, hs'⟩ := reopen_spec h hlisting hharmless
    exact ⟨log', hopen, hs'.head_eq.trans h.head_eq.symm,
      hs'.firstBlockNum_eq.trans h.firstBlockNum_eq.symm⟩
  append b head hhead hnum hlt := by
    refine (append_spec h hlt).2 ?_
    have := h.blockNum_head hhead
    omega

def next [DecidableEq B] (s : LogSession B) : Event B → Option (LogSession B)
  | .resetGenesis chainId b =>
    (s.log.resetGenesis chainId b).toOption.map fun log => ⟨log, [b]⟩
  | .reset chainId n => (s.log.reset chainId n).toOption.map fun log => ⟨log, []⟩
  | .append b => (s.log.append b).toOption.map fun log => ⟨log, s.appended ++ [b]⟩
  | .read n =>
    (s.log.readBlockByNum n).toOption.map fun r => { s with log := { s.log with catalog := r.2 } }
  | .reopen listing =>
    if listing.Perm s.log.retained.rows then
      (s.log.reopen listing).toOption.map fun log => ⟨log, s.appended⟩
    else none

lemma step_of_next [DecidableEq B] {event : Event B} (h : s.next event = some s') :
    Step s event s' := by
  cases event with
  | read n =>
    simp only [next, map_eq_some_iff] at h
    obtain ⟨⟨r, catalog⟩, hread, rfl⟩ := h
    exact ⟨r, catalog, eq_ok_of_toOption hread, rfl⟩
  | reopen =>
    simp only [next] at h
    split_ifs at h with hperm
    obtain ⟨log, hlog, rfl⟩ := map_eq_some_iff.mp h
    exact ⟨hperm, eq_ok_of_toOption hlog, rfl⟩
  | _ =>
    simp only [next, map_eq_some_iff] at h
    obtain ⟨log, hlog, rfl⟩ := h
    exact ⟨eq_ok_of_toOption hlog, rfl⟩

instance [DecidableEq B] (s : LogSession B) (event : Event B) : Decidable (event.Harmless s) :=
  match event with
  | .resetGenesis _ _ => inferInstanceAs (Decidable (_ ∧ _))
  | .reset _ _ => inferInstanceAs (Decidable (_ ∧ _))
  | .append _ => inferInstanceAs (Decidable (_ < _))
  | .read _ => inferInstanceAs (Decidable (_ ∨ _))
  | .reopen listing => inferInstanceAs (Decidable
      ((s.log.head = none ∨ ∃ f ∈ s.log.file, f.blocks ≠ []) ∧ ∀ b ∈ listing, b.file.Legible))

/-- A block that is no more than its number and a tag. -/
structure DemoBlock where
  num : UInt32
  tag : ℕ
  deriving DecidableEq

instance : StoredType DemoBlock where
  blockNum b := b.num.toNat
  blockNum_lt b := b.num.toNat_lt
  blockNumAt b := b.num.toNat
  neededForReplay := true

/-- Five blocks with a stride of two and room for one retained file, a read that opens it, and a
restart. -/
def demoBlocks : List (Event DemoBlock) :=
  [.resetGenesis Sha256.zero ⟨1, 0⟩, .append ⟨2, 0⟩, .append ⟨3, 0⟩, .read 1, .append ⟨4, 0⟩,
    .append ⟨5, 0⟩, .read 3, .reopen [⟨(3, 4), ⟨3, Sha256.zero, [⟨3, 0⟩, ⟨4, 0⟩]⟩⟩]]

end LogSession

end Sysio
