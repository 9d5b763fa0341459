import Mathlib.Data.List.Sort
import Sysio.Data.OrderedList
import Sysio.Data.Table
import Sysio.Types

/-!
# The catalog of a partitioned log

A log that is split into files keeps the finished files, each with its index, in a directory of
retained files.  `log_catalog` is the map of their block ranges, ordered by the first block, with
the file that was read last kept open.

* `getBlockPosition` finds a block, and may open another file for it;
* `add` takes over the file that was just finished, and drops the oldest files if there are too
  many;
* `truncate` gives the file with a block back, and removes the later ones;
* `openDir` makes the map from the directory, in whatever order that lists its files.

A file is anything that tells its first and last block and how many positions its index has
(`LogData`); a position is the place of the block in the file.  `Holds dir c files` says that the
catalog describes the given files in their order, and each operation has one lemma that says which
files it describes afterwards.
-/

namespace Sysio

open List

/-- What the catalog asks a log file with its index: the template parameters `LogData` and
`LogIndex`. -/
class LogData (F : Type) where
  /-- `first_block_num`. -/
  firstBlockNum : F → ℕ
  /-- `last_block_num`, as it is read from the file. -/
  lastBlockNum : F → ℕ
  /-- `num_blocks`, the number of positions in the index. -/
  numBlocks : F → ℕ

/-- The number of the last block, by the positions in the index. -/
def LogData.endBlockNum {F : Type} [LogData F] (f : F) : ℕ := firstBlockNum f + numBlocks f - 1

/-- A log and its index in the directory, under the block numbers in their name. -/
structure Bundle (F : Type) where
  /-- The two numbers of `<name>-<start>-<end>`. -/
  name : ℕ × ℕ
  file : F
  deriving DecidableEq

/-- The directory of retained files. -/
abbrev RetainedDir (F : Type) := Table (ℕ × ℕ) (Bundle F) Bundle.name

/-- An item of `collection`: the key, and the `mapped_type` under it. -/
structure CatalogItem where
  firstBlockNum : ℕ
  lastBlockNum : ℕ
  filenameBase : ℕ × ℕ
  deriving DecidableEq, Repr

structure LogCatalog (F : Type) where
  maxRetainedFiles : ℕ
  /-- `collection`, in the order of the keys. -/
  collection : List CatalogItem
  /-- `active_index`, the place of the open file. -/
  activeIndex : Option ℕ
  /-- `log_data` and `log_index`: the open file, which stays as it was even if it is moved. -/
  logData : Option F

namespace LogCatalog

variable {F : Type} [LogData F]

open LogData

/-! ### The operations -/

/-- `insert_or_assign` of the map. -/
def insertOrAssign (item : CatalogItem) : List CatalogItem → List CatalogItem
  | [] => [item]
  | i :: rest =>
    if item.firstBlockNum < i.firstBlockNum then item :: i :: rest
    else if item.firstBlockNum = i.firstBlockNum then item :: rest
    else i :: insertOrAssign item rest

/-- `collection.find`. -/
def findItem (collection : List CatalogItem) (n : ℕ) : Option CatalogItem :=
  collection.find? fun i => decide (i.firstBlockNum = n)

def Bundle.item (b : Bundle F) : CatalogItem :=
  ⟨firstBlockNum b.file, lastBlockNum b.file, b.name⟩

/-- `open`, for one file: of two files with the same first block the longer one counts. -/
def openFile (collection : List CatalogItem) (b : Bundle F) : List CatalogItem :=
  match findItem collection (firstBlockNum b.file) with
  | some existing =>
    if lastBlockNum b.file ≤ existing.lastBlockNum then collection
    else insertOrAssign (Bundle.item b) collection
  | none => insertOrAssign (Bundle.item b) collection

/-- `open`, with the files in the order in which the directory lists them. -/
def openDir (maxRetainedFiles : ℕ) (listing : List (Bundle F)) : LogCatalog F :=
  { maxRetainedFiles
    collection := listing.foldl openFile []
    activeIndex := none
    logData := none }

protected def firstBlockNum (c : LogCatalog F) : ℕ :=
  match c.collection.head? with
  | some item => item.firstBlockNum
  | none => 2 ^ 32 - 1

protected def lastBlockNum (c : LogCatalog F) : ℕ :=
  match c.collection.getLast? with
  | some item => item.lastBlockNum
  | none => 0

section

variable (c : LogCatalog F) (n : ℕ)

/-- The items up to `upper_bound`. -/
def upTo : List CatalogItem :=
  c.collection.takeWhile fun i => decide (i.firstBlockNum ≤ n)

/-- The items from `upper_bound` on. -/
def above : List CatalogItem :=
  c.collection.dropWhile fun i => decide (i.firstBlockNum ≤ n)

/-- `nth_block_position` for a block of the open file.  A number outside the index throws, which
`get_block_position` catches. -/
def nthBlockPosition : Option ℕ × LogCatalog F :=
  match c.logData with
  | some file =>
    let nth := subU32 n (firstBlockNum file)
    if nth < numBlocks file then (some nth, c) else (none, { c with activeIndex := none })
  | none => (none, { c with activeIndex := none })

/-- Whether the open file has the block, by the item at `active_index`. -/
def isActive : Bool :=
  match c.activeIndex.bind fun i => c.collection[i]? with
  | some item => decide (item.firstBlockNum ≤ n ∧ n ≤ item.lastBlockNum)
  | none => false

end

/-- `get_block_position`.  In an empty map there is nothing before `upper_bound`; the comparison
with `first_block_num` keeps every number from there but the largest one. -/
def getBlockPosition (dir : RetainedDir F) (c : LogCatalog F) (n : ℕ) :
    Result (Option ℕ × LogCatalog F) :=
  if c.isActive n then pure (c.nthBlockPosition n)
  else if n < c.firstBlockNum then pure (none, c)
  else do
    let item ← require (c.upTo n).getLast? .undefinedBehavior "decrement of the begin of a map"
    if n ≤ item.lastBlockNum then
      match dir.find? item.filenameBase with
      | some b => pure (nthBlockPosition
          { c with logData := some b.file, activeIndex := some ((c.upTo n).length - 1) } n)
      | none => pure (none, { c with activeIndex := none })
    else pure (none, c)

def removeFiles (dir : RetainedDir F) (items : List CatalogItem) : RetainedDir F :=
  dir.filter fun b => decide (b.name ∉ items.map CatalogItem.filenameBase)

/-- How many files are dropped from a collection of the given size. -/
def itemsToErase (maxRetainedFiles size : ℕ) : ℕ :=
  if maxRetainedFiles ≤ size then
    if 0 < maxRetainedFiles then size - maxRetainedFiles else size
  else 0

/-- `emplace` of the map. -/
def emplace (item : CatalogItem) (collection : List CatalogItem) : List CatalogItem :=
  match findItem collection item.firstBlockNum with
  | some _ => collection
  | none => insertOrAssign item collection

/-- `add`.  A file that is there already under the name stays, and the new one is removed.  The
files that are dropped are deleted or moved to the archive; either way they leave the directory. -/
def add (dir : RetainedDir F) (c : LogCatalog F) (startBlockNum endBlockNum : ℕ) (file : F) :
    RetainedDir F × LogCatalog F :=
  let name := (startBlockNum, endBlockNum)
  let dir := dir.insert ⟨name, file⟩
  let collection := emplace ⟨startBlockNum, endBlockNum, name⟩ c.collection
  let k := itemsToErase c.maxRetainedFiles collection.length
  (removeFiles dir (collection.take k),
    { c with
      collection := collection.drop k
      activeIndex := c.activeIndex.bind fun i => if i < k then none else some (i - k) })

/-- `truncate`: the file that is moved back with its first block, if one has the block. -/
def truncate (dir : RetainedDir F) (c : LogCatalog F) (n : ℕ) :
    Result (Option (ℕ × F) × RetainedDir F × LogCatalog F) :=
  let rest := removeFiles dir (c.above n)
  let c' := { c with collection := c.upTo n, activeIndex := none }
  match (c.upTo n).getLast? with
  | none => .ok (none, rest, if c.collection = [] then c else c')
  | some item =>
    if item.lastBlockNum < n then .ok (none, rest, c')
    else do
      let b ← require (dir.find? item.filenameBase) .iosBaseFailure "file could not be renamed"
      .ok (some (item.firstBlockNum, b.file), removeFiles rest [item],
        { c' with collection := (c.upTo n).dropLast })

/-! ### The files that a catalog describes -/

/-- A file with a block under every position of its index. -/
structure Sized (f : F) : Prop where
  pos : 0 < numBlocks f
  le_size : firstBlockNum f + numBlocks f ≤ 2 ^ 32

lemma Sized.le {f : F} (h : Sized f) : firstBlockNum f ≤ endBlockNum f :=
  Nat.le_sub_one_of_lt (Nat.lt_add_of_pos_right h.pos)

/-- The file has the block. -/
def Covers (f : F) (n : ℕ) : Prop := firstBlockNum f ≤ n ∧ n ≤ endBlockNum f

/-- The file in the directory, under the name that `add` gives it. -/
def bundle (f : F) : Bundle F := ⟨(firstBlockNum f, endBlockNum f), f⟩

/-- The item that `add` makes for the file. -/
abbrev item (f : F) : CatalogItem :=
  ⟨firstBlockNum f, endBlockNum f, firstBlockNum f, endBlockNum f⟩

/-- **The catalog describes the files**, which are in the directory, and has one of them open. -/
structure Holds (dir : RetainedDir F) (c : LogCatalog F) (files : List F) : Prop where
  collection : c.collection = files.map item
  stored : ∀ b, b ∈ dir ↔ ∃ f ∈ files, b = bundle f
  sized : ∀ f ∈ files, Sized f
  ordered : files.Pairwise fun f g => endBlockNum f < firstBlockNum g
  cache : ∀ i, c.activeIndex = some i → ∃ f, files[i]? = some f ∧ c.logData = some f

variable {dir : RetainedDir F} {c : LogCatalog F} {files : List F} {f g : F} {n : ℕ}

namespace Holds

section

variable (h : Holds dir c files)
include h

lemma find? (hf : f ∈ files) : dir.find? (item f).filenameBase = some (bundle f) :=
  Table.find?_eq_some.mpr ⟨(h.stored _).mpr ⟨f, hf, rfl⟩, rfl⟩

lemma ascending : files.Pairwise fun f g => firstBlockNum f < firstBlockNum g :=
  h.ordered.imp_of_mem fun hf _ hfg => (h.sized _ hf).le.trans_lt hfg

/-- The files at the end, without some at the beginning, and nothing open. -/
lemma with_files {files' : List F} {dir' : RetainedDir F}
    (hsub : files'.Sublist files) (hdir : ∀ b, b ∈ dir' ↔ ∃ f ∈ files', b = bundle f)
    {c' : LogCatalog F} (hcollection : c'.collection = files'.map item)
    (hcache : ∀ i, c'.activeIndex = some i → ∃ f, files'[i]? = some f ∧ c'.logData = some f) :
    Holds dir' c' files' :=
  ⟨hcollection, hdir, fun f hf => h.sized f (hsub.subset hf), h.ordered.sublist hsub, hcache⟩

lemma upTo_eq : c.upTo n = (files.takeWhile fun f => decide (firstBlockNum f ≤ n)).map item ∧
      c.above n = (files.dropWhile fun f => decide (firstBlockNum f ≤ n)).map item := by
  unfold upTo above
  rw [h.collection, takeWhile_map, dropWhile_map]
  exact ⟨rfl, rfl⟩

/-- **The files around a block**: those that end before it, perhaps one that has it, those that
begin after it. -/
theorem around (n : ℕ) :
    ∃ (before : List F) (at? : Option F) (after : List F), files = before ++ at?.toList ++ after ∧
      c.upTo n = (before ++ at?.toList).map item ∧ c.above n = after.map item ∧
      (∀ f ∈ before, endBlockNum f < n) ∧ (∀ f ∈ at?, Covers f n) ∧
      ∀ f ∈ after, n < firstBlockNum f := by
  obtain ⟨hupTo, habove⟩ := h.upTo_eq (n := n)
  have hfiles := takeWhile_append_dropWhile
    (p := fun f => decide (firstBlockNum f ≤ n)) (l := files)
  -- the files are in the order of their first blocks
  have hmem := mem_takeWhile_dropWhile (p := fun f => decide (firstBlockNum f ≤ n))
    (h.ascending.imp fun hlt hle => decide_eq_true (hlt.le.trans (of_decide_eq_true hle)))
  have hle : ∀ f ∈ files.takeWhile (fun f => decide (firstBlockNum f ≤ n)),
      firstBlockNum f ≤ n := fun f hf => of_decide_eq_true ((hmem f).1.mp hf).2
  have hafter : ∀ f ∈ files.dropWhile (fun f => decide (firstBlockNum f ≤ n)),
      n < firstBlockNum f := by
    intro f hf
    have hnot := ((hmem f).2.mp hf).2
    rwa [decide_eq_true_eq, not_le] at hnot
  rcases eq_nil_or_concat (files.takeWhile fun f => decide (firstBlockNum f ≤ n)) with
    hnil | ⟨before, f, hcat⟩
  · refine ⟨[], none, _, ?_, ?_, habove, by simp, by simp, hafter⟩
    · rw [Option.toList_none, append_nil, nil_append]
      rw [hnil, nil_append] at hfiles
      exact hfiles.symm
    · rw [hupTo, hnil]
      rfl
  · rw [concat_eq_append] at hcat
    rw [hcat] at hle hupTo hfiles
    -- all but the last of them end before the last one begins
    have hbefore : ∀ g ∈ before, endBlockNum g < n := by
      intro g hg
      have hord := h.ordered
      rw [← hfiles, append_assoc] at hord
      exact ((pairwise_append.mp hord).2.2 g hg f (by simp)).trans_le (hle f (by simp))
    by_cases hlast : n ≤ endBlockNum f
    · refine ⟨before, some f, _, hfiles.symm, hupTo, habove, hbefore, ?_, hafter⟩
      rintro g ⟨⟩
      exact ⟨hle f (by simp), hlast⟩
    · refine ⟨before ++ [f], none, _, ?_, ?_, habove, ?_, by simp, hafter⟩
      · rw [Option.toList_none, append_nil]
        exact hfiles.symm
      · rwa [Option.toList_none, append_nil]
      · intro g hg
        rcases mem_append.mp hg with hg | hg
        · exact hbefore g hg
        · rw [mem_singleton.mp hg]
          exact not_le.mp hlast

end

end Holds

/-! ### What the operations do -/

lemma nthBlockPosition_eq (hdata : c.logData = some f) (hsized : Sized f) (hn : Covers f n) :
    c.nthBlockPosition n = (some (n - firstBlockNum f), c) := by
  obtain ⟨hpos, hsize⟩ := hsized
  obtain ⟨hle, hlast⟩ := hn
  unfold endBlockNum at hlast
  have hlt : n - firstBlockNum f < numBlocks f := by omega
  simp only [nthBlockPosition, hdata, subU32_of_le (show n < 2 ^ 32 by omega) hle, if_pos hlt]

/-- The open file has the block. -/
lemma Holds.exists_of_isActive (h : Holds dir c files) (hactive : c.isActive n = true) :
    ∃ f ∈ files, Covers f n ∧ c.logData = some f := by
  unfold isActive at hactive
  cases hi : c.activeIndex with
  | none => rw [hi] at hactive; cases hactive
  | some i =>
    obtain ⟨f, hf, hdata⟩ := h.cache i hi
    have hitem : c.collection[i]? = some (item f) := by
      rw [h.collection, getElem?_map, hf, Option.map_some]
    simp only [hi, Option.bind_some, hitem, decide_eq_true_eq] at hactive
    exact ⟨f, mem_of_getElem? hf, hactive, hdata⟩

/-- A block before the first file is in none of them. -/
lemma Holds.not_covers_of_lt_first (h : Holds dir c files) (hfirst : n < c.firstBlockNum)
    (hf : f ∈ files) : ¬ Covers f n := by
  intro hcov
  unfold LogCatalog.firstBlockNum at hfirst
  rw [h.collection] at hfirst
  cases files with
  | nil => cases hf
  | cons g files =>
    have hg : n < firstBlockNum g := hfirst
    rcases mem_cons.mp hf with rfl | hf
    · exact absurd hcov.1 (not_le.mpr hg)
    · have := (pairwise_cons.mp h.ascending).1 f hf
      exact absurd hcov.1 (not_le.mpr (hg.trans this))

lemma Holds.readable (h : Holds dir c files) (hn : c.collection ≠ [] ∨ n + 1 < 2 ^ 32) :
    files ≠ [] ∨ n + 1 < 2 ^ 32 := by
  rwa [h.collection, Ne, map_eq_nil_iff] at hn

/-- The search has an end: a number from the first block on, in a catalog that is not empty. -/
lemma Holds.upTo_ne_nil (h : Holds dir c files) (hne : files ≠ []) (hn : c.firstBlockNum ≤ n) :
    c.upTo n ≠ [] := by
  obtain ⟨f, files, rfl⟩ := exists_cons_of_ne_nil hne
  unfold LogCatalog.firstBlockNum at hn
  rw [h.collection] at hn
  have hn' : firstBlockNum f ≤ n := hn
  rw [h.upTo_eq.1, takeWhile_cons_of_pos (by simpa using hn')]
  exact cons_ne_nil _ _

/-- **`get_block_position` returns**, unless the catalog is empty and the number is the largest. -/
theorem exists_getBlockPosition (h : Holds dir c files) (hn : files ≠ [] ∨ n + 1 < 2 ^ 32) :
    ∃ r, getBlockPosition dir c n = .ok r := by
  unfold getBlockPosition
  split_ifs with hactive hfirst
  · exact ⟨_, rfl⟩
  · exact ⟨_, rfl⟩
  · have hne : files ≠ [] := by
      refine hn.elim id fun hlt hnil => ?_
      unfold LogCatalog.firstBlockNum at hfirst
      rw [h.collection, hnil] at hfirst
      exact hfirst (by show n < 2 ^ 32 - 1; omega)
    have hlast := getLast?_eq_some_getLast (h.upTo_ne_nil hne (not_lt.mp hfirst))
    rw [hlast, require, Result.ok_bind]
    split_ifs
    · split <;> exact ⟨_, rfl⟩
    · exact ⟨_, rfl⟩

/-- **`get_block_position`** opens the file that has the block, and finds nothing if there is
none. -/
theorem getBlockPosition_spec (h : Holds dir c files) {pos : Option ℕ} {c' : LogCatalog F}
    (hr : getBlockPosition dir c n = .ok (pos, c')) :
    Holds dir c' files ∧ c'.maxRetainedFiles = c.maxRetainedFiles ∧
      ((∃ f ∈ files, Covers f n ∧ pos = some (n - firstBlockNum f) ∧ c'.logData = some f) ∨
        (∀ f ∈ files, ¬ Covers f n) ∧ pos = none) := by
  unfold getBlockPosition at hr
  split_ifs at hr with hactive hfirst
  · obtain ⟨f, hf, hcov, hdata⟩ := h.exists_of_isActive hactive
    rw [nthBlockPosition_eq hdata (h.sized f hf) hcov] at hr
    cases hr
    exact ⟨h, rfl, .inl ⟨f, hf, hcov, rfl, hdata⟩⟩
  · cases hr
    exact ⟨h, rfl, .inr ⟨fun f hf => h.not_covers_of_lt_first hfirst hf, rfl⟩⟩
  · obtain ⟨i, hi, hr⟩ := Result.bind_eq_ok.mp hr
    rw [require_eq_ok] at hi
    obtain ⟨before, at?, after, rfl, hupTo, -, hbefore, hat, hafter⟩ := h.around n
    cases at? with
    | some f =>
      have hf : f ∈ before ++ (some f).toList ++ after := by simp
      have hcov := hat f rfl
      have hlength : (c.upTo n).length - 1 = before.length := by
        rw [hupTo, length_map, length_append]
        rfl
      rw [hupTo, Option.toList_some, map_append, map_singleton, getLast?_concat] at hi
      cases hi
      rw [if_pos hcov.2, h.find? hf, hlength] at hr
      dsimp only at hr
      rw [nthBlockPosition_eq (f := f) rfl (h.sized f hf) hcov] at hr
      cases hr
      refine ⟨{ h with cache := ?_ }, rfl, .inl ⟨f, hf, hcov, rfl, rfl⟩⟩
      rintro j ⟨⟩
      exact ⟨f, by simp, rfl⟩
    | none =>
      rw [Option.toList_none, append_nil] at hupTo
      -- the last file that does not begin after the block ends before it
      have hi' : ¬ n ≤ i.lastBlockNum := by
        have hmem := mem_of_getLast? hi
        rw [hupTo] at hmem
        obtain ⟨f, hf, rfl⟩ := List.mem_map.mp hmem
        exact not_le.mpr (hbefore f hf)
      rw [if_neg hi'] at hr
      cases hr
      refine ⟨h, rfl, .inr ⟨fun f hf hcov => ?_, rfl⟩⟩
      rw [Option.toList_none, append_nil] at hf
      rcases mem_append.mp hf with hf | hf
      · exact absurd hcov.2 (not_le.mpr (hbefore f hf))
      · exact absurd hcov.1 (not_le.mpr (hafter f hf))

omit [LogData F] in
lemma mem_removeFiles {items : List CatalogItem} {b : Bundle F} :
    b ∈ removeFiles dir items ↔ b ∈ dir ∧ ∀ i ∈ items, b.name ≠ i.filenameBase := by
  rw [removeFiles, Table.mem_filter, decide_eq_true_eq, List.mem_map]
  constructor
  · rintro ⟨hb, hnot⟩
    exact ⟨hb, fun i hi heq => hnot ⟨i, hi, heq.symm⟩⟩
  · rintro ⟨hb, hne⟩
    exact ⟨hb, fun ⟨i, hi, heq⟩ => hne i hi heq.symm⟩

lemma stored_removeFiles {removed kept : List F}
    (hstored : ∀ b, b ∈ dir ↔ ∃ f ∈ files, b = bundle f)
    (hfiles : ∀ f, f ∈ files ↔ f ∈ removed ∨ f ∈ kept)
    (hdisjoint : ∀ f ∈ removed, ∀ g ∈ kept, firstBlockNum g ≠ firstBlockNum f) (b : Bundle F) :
    b ∈ removeFiles dir (removed.map item) ↔ ∃ f ∈ kept, b = bundle f := by
  rw [mem_removeFiles, hstored]
  constructor
  · rintro ⟨⟨f, hf, rfl⟩, hne⟩
    rcases (hfiles f).mp hf with hf | hf
    · exact absurd rfl (hne (item f) (List.mem_map_of_mem hf))
    · exact ⟨f, hf, rfl⟩
  · rintro ⟨g, hg, rfl⟩
    refine ⟨⟨g, (hfiles g).mpr (.inr hg), rfl⟩, fun i hi heq => ?_⟩
    obtain ⟨f, hf, rfl⟩ := List.mem_map.mp hi
    exact hdisjoint f hf g hg (congrArg Prod.fst heq)

/-- **`truncate`** keeps the files that end before the block, and gives back the one that has it. -/
theorem truncate_spec (h : Holds dir c files) (n : ℕ) :
    ∃ (before : List F) (at? : Option F) (after : List F) (dir' : RetainedDir F)
      (c' : LogCatalog F),
      truncate dir c n = .ok (at?.map fun f => (firstBlockNum f, f), dir', c') ∧
      files = before ++ at?.toList ++ after ∧ Holds dir' c' before ∧
      c'.maxRetainedFiles = c.maxRetainedFiles ∧
      (∀ f ∈ before, endBlockNum f < n) ∧ (∀ f ∈ at?, Covers f n) ∧
      ∀ f ∈ after, n < firstBlockNum f := by
  obtain ⟨before, at?, after, rfl, hupTo, habove, hbefore, hat, hafter⟩ := h.around n
  refine ⟨before, at?, after, ?_⟩
  have hasc := h.ascending
  have hsub : before.Sublist (before ++ at?.toList ++ after) := by
    rw [append_assoc]
    exact sublist_append_left _ _
  -- the files from the block on are removed, those before it stay
  have hrest : ∀ b, b ∈ removeFiles dir (c.above n) ↔
      ∃ f ∈ before ++ at?.toList, b = bundle f := by
    rw [habove]
    refine stored_removeFiles h.stored (fun f => ?_) fun f hf g hg => ?_
    · rw [mem_append, or_comm]
    · exact ((pairwise_append.mp hasc).2.2 g hg f hf).ne
  unfold truncate
  cases at? with
  | none =>
    rw [Option.toList_none, append_nil] at hupTo hrest
    have hholds : Holds (removeFiles dir (c.above n))
        { c with collection := c.upTo n, activeIndex := none } before :=
      h.with_files hsub hrest hupTo (by simp)
    cases hlast : (c.upTo n).getLast? with
    | none =>
      have hnil : before = [] := by
        rwa [getLast?_eq_none_iff, hupTo, map_eq_nil_iff] at hlast
      refine ⟨_, _, rfl, rfl, ?_, ?_, hbefore, hat, hafter⟩
      · split_ifs with hempty
        · -- an empty catalog is left as it is
          refine h.with_files hsub hrest (by rw [hempty, hnil]; rfl) fun i hi => ?_
          obtain ⟨f, hf, -⟩ := h.cache i hi
          rw [h.collection, map_eq_nil_iff] at hempty
          rw [hempty] at hf
          cases hf
        · exact hholds
      · split_ifs <;> rfl
    | some i =>
      have hi : i.lastBlockNum < n := by
        have hmem := mem_of_getLast? hlast
        rw [hupTo] at hmem
        obtain ⟨f, hf, rfl⟩ := List.mem_map.mp hmem
        exact hbefore f hf
      dsimp only
      rw [if_pos hi]
      exact ⟨_, _, rfl, rfl, hholds, rfl, hbefore, hat, hafter⟩
  | some f =>
    have hlast : (c.upTo n).getLast? = some (item f) := by
      rw [hupTo, Option.toList_some, map_append, map_singleton, getLast?_concat]
    have hcov := hat f rfl
    have hnot : ¬ (item f).lastBlockNum < n := not_lt.mpr hcov.2
    have hfind := h.find? (f := f) (by simp)
    simp only [hlast, if_neg hnot, hfind, require, Result.ok_bind]
    refine ⟨_, _, rfl, trivial, ?_, rfl, hbefore, hat, hafter⟩
    refine h.with_files hsub ?_ ?_ (by simp)
    · rw [show [item f] = [f].map item from rfl]
      refine stored_removeFiles hrest (fun g => ?_) fun g hg k hk => ?_
      · rw [Option.toList_some, mem_append, or_comm]
      · obtain rfl := mem_singleton.mp hg
        exact ((pairwise_append.mp (pairwise_append.mp hasc).1).2.2 k hk g (by simp)).ne
    · show (c.upTo n).dropLast = _
      rw [hupTo, Option.toList_some, map_append, map_singleton, dropLast_concat]

/-! ### The order of the collection -/

/-- The items in the order of their keys. -/
abbrev Ascending (collection : List CatalogItem) : Prop :=
  collection.Pairwise fun i j => i.firstBlockNum < j.firstBlockNum

section Order

variable {collection : List CatalogItem} {i : CatalogItem}

lemma findItem_eq_none :
    findItem collection n = none ↔ ∀ j ∈ collection, j.firstBlockNum ≠ n := by
  rw [findItem, List.find?_eq_none]
  simp only [decide_eq_true_eq]

section

variable (hnew : ∀ j ∈ collection, j.firstBlockNum ≠ i.firstBlockNum)
include hnew

lemma mem_insertOrAssign
    {j : CatalogItem} : j ∈ insertOrAssign i collection ↔ j = i ∨ j ∈ collection := by
  induction collection with
  | nil => simp [insertOrAssign]
  | cons k collection ih =>
    obtain ⟨hk, hrest⟩ := forall_mem_cons.mp hnew
    unfold insertOrAssign
    split_ifs with hlt heq
    · exact mem_cons
    · exact absurd heq.symm hk
    · rw [mem_cons, ih hrest, mem_cons, or_left_comm]

lemma ascending_insertOrAssign
    (h : Ascending collection) : Ascending (insertOrAssign i collection) := by
  induction collection with
  | nil => exact pairwise_singleton _ i
  | cons k collection ih =>
    obtain ⟨hk, hrest⟩ := forall_mem_cons.mp hnew
    obtain ⟨hlt', hcollection⟩ := pairwise_cons.mp h
    unfold insertOrAssign
    split_ifs with hlt heq
    · refine pairwise_cons.mpr ⟨fun j hj => ?_, h⟩
      rcases mem_cons.mp hj with rfl | hj
      · exact hlt
      · exact hlt.trans (hlt' j hj)
    · exact absurd heq.symm hk
    · refine pairwise_cons.mpr ⟨fun j hj => ?_, ih hrest hcollection⟩
      rcases (mem_insertOrAssign hrest).mp hj with rfl | hj
      · omega
      · exact hlt' j hj

end

lemma insertOrAssign_last (hlast : ∀ j ∈ collection, j.firstBlockNum < i.firstBlockNum) :
    insertOrAssign i collection = collection ++ [i] := by
  induction collection with
  | nil => rfl
  | cons k collection ih =>
    obtain ⟨hk, hrest⟩ := forall_mem_cons.mp hlast
    rw [insertOrAssign, if_neg hk.le.not_gt, if_neg hk.ne', ih hrest, cons_append]

end Order

/-- **`add`** puts the file behind the others and drops some of the first ones. -/
theorem add_spec (h : Holds dir c files) (hf : Sized f)
    (hafter : ∀ g ∈ files, endBlockNum g < firstBlockNum f) :
    ∃ k, k = itemsToErase c.maxRetainedFiles (files.length + 1) ∧
      Holds (add dir c (firstBlockNum f) (endBlockNum f) f).1
        (add dir c (firstBlockNum f) (endBlockNum f) f).2 ((files ++ [f]).drop k) ∧
      (add dir c (firstBlockNum f) (endBlockNum f) f).2.maxRetainedFiles = c.maxRetainedFiles := by
  have hbefore : ∀ g ∈ files, firstBlockNum g < firstBlockNum f :=
    fun g hg => (h.sized g hg).le.trans_lt (hafter g hg)
  -- the map gets the new item at its end
  have hcollection : emplace (item f) c.collection = (files ++ [f]).map item := by
    have hlt : ∀ i ∈ files.map item, i.firstBlockNum < (item f).firstBlockNum := by
      intro i hi
      obtain ⟨g, hg, rfl⟩ := List.mem_map.mp hi
      exact hbefore g hg
    have hnone : findItem c.collection (item f).firstBlockNum = none := by
      rw [findItem_eq_none, h.collection]
      exact fun i hi => (hlt i hi).ne
    rw [emplace, hnone, h.collection, map_append, map_singleton]
    exact insertOrAssign_last hlt
  -- the directory has no file of that name
  have hdir : ∀ b, b ∈ dir.insert (bundle f) ↔ ∃ g ∈ files ++ [f], b = bundle g := by
    have hnone : dir.find? (bundle f).name = none := by
      rw [Table.find?_eq_none]
      intro b hb heq
      obtain ⟨g, hg, rfl⟩ := (h.stored b).mp hb
      exact (hbefore g hg).ne (congrArg Prod.fst heq)
    intro b
    rw [Table.mem_insert hnone, h.stored]
    simp only [mem_append, mem_singleton, or_and_right, exists_or, exists_eq_left]
  have hordered : (files ++ [f]).Pairwise
      fun f g => endBlockNum f < firstBlockNum g := by
    refine pairwise_append.mpr ⟨h.ordered, pairwise_singleton _ f, fun g hg k hk => ?_⟩
    rw [mem_singleton.mp hk]
    exact hafter g hg
  have hsized : ∀ g ∈ files ++ [f], Sized g := by
    intro g hg
    rcases mem_append.mp hg with hg | hg
    · exact h.sized g hg
    · rwa [mem_singleton.mp hg]
  have hasc : (files ++ [f]).Pairwise
      fun f g => firstBlockNum f < firstBlockNum g :=
    hordered.imp_of_mem fun hg _ hlt => (hsized _ hg).le.trans_lt hlt
  obtain ⟨k, hk⟩ : ∃ k, k = itemsToErase c.maxRetainedFiles
    (emplace (item f) c.collection).length := ⟨_, rfl⟩
  have hadd : add dir c (firstBlockNum f) (endBlockNum f) f =
      (removeFiles (dir.insert (bundle f)) ((emplace (item f) c.collection).take k),
        { c with
          collection := (emplace (item f) c.collection).drop k
          activeIndex := c.activeIndex.bind fun i => if i < k then none else some (i - k) }) := by
    rw [hk]
    rfl
  rw [hcollection, length_map, length_append, length_singleton] at hk
  rw [hadd, hcollection]
  refine ⟨k, hk, ⟨map_drop.symm, ?_, ?_, ?_, ?_⟩, rfl⟩
  · rw [← map_take]
    refine stored_removeFiles hdir (fun g => ?_) fun g hg j hj => ?_
    · rw [← mem_append, take_append_drop]
    · rw [← take_append_drop k (files ++ [f])] at hasc
      exact ((pairwise_append.mp hasc).2.2 g hg j hj).ne'
  · exact fun g hg => hsized g (mem_of_mem_drop hg)
  · exact hordered.sublist (drop_sublist k _)
  · -- the open file moves down with the others, or was dropped
    intro i hi
    obtain ⟨j, hj, hi⟩ := Option.bind_eq_some_iff.mp hi
    obtain ⟨g, hg, hdata⟩ := h.cache j hj
    refine ⟨g, ?_, hdata⟩
    split_ifs at hi with hlt
    cases hi
    rw [getElem?_drop, Nat.add_sub_cancel' (not_lt.mp hlt),
      getElem?_append_left (List.getElem?_eq_some_iff.mp hg).1]
    exact hg

lemma foldl_openFile {listing : List (Bundle F)} {collection : List CatalogItem}
    (hnodup : (listing.map fun b => firstBlockNum b.file).Nodup)
    (hnew : ∀ b ∈ listing, ∀ j ∈ collection, j.firstBlockNum ≠ firstBlockNum b.file)
    (hasc : Ascending collection) : Ascending (listing.foldl openFile collection) ∧
      ∀ i, i ∈ listing.foldl openFile collection ↔
        i ∈ collection ∨ ∃ b ∈ listing, i = Bundle.item b := by
  induction listing generalizing collection with
  | nil => simpa using hasc
  | cons b listing ih =>
    obtain ⟨hb, hlisting⟩ := forall_mem_cons.mp hnew
    obtain ⟨hnot, hnodup'⟩ := nodup_cons.mp hnodup
    have hopen : openFile collection b = insertOrAssign (Bundle.item b) collection := by
      rw [openFile, findItem_eq_none.mpr hb]
    have hmem : ∀ j, j ∈ insertOrAssign (Bundle.item b) collection ↔
        j = Bundle.item b ∨ j ∈ collection := fun j => mem_insertOrAssign hb
    rw [foldl_cons, hopen]
    obtain ⟨hasc', hiff⟩ := ih hnodup' (fun b' hb' j hj => by
      rcases (hmem j).mp hj with rfl | hj
      · exact fun heq => hnot (List.mem_map.mpr ⟨b', hb', heq.symm⟩)
      · exact hlisting b' hb' j hj) (ascending_insertOrAssign hb hasc)
    refine ⟨hasc', fun i => ?_⟩
    rw [hiff, hmem, exists_mem_cons_iff, or_assoc, or_left_comm]

/-- **`open`** describes the files of the directory, in whatever order it lists them, if their last
blocks are read as they are. -/
theorem openDir_spec (h : Holds dir c files) {listing : List (Bundle F)}
    (hlisting : listing.Perm dir.rows) (hread : ∀ f ∈ files, lastBlockNum f = endBlockNum f)
    (maxRetainedFiles : ℕ) :
    Holds dir (openDir maxRetainedFiles listing) files := by
  have hstored : ∀ b, b ∈ listing ↔ ∃ f ∈ files, b = bundle f := fun b =>
    hlisting.mem_iff.trans (h.stored b)
  have hitem : ∀ f ∈ files, Bundle.item (bundle f) = item f := fun f hf => by
    rw [Bundle.item, bundle, hread f hf]
  have hasc : Ascending (files.map item) := pairwise_map.mpr h.ascending
  -- the first blocks differ, as they do in the map before
  have hnodup : (listing.map fun b => firstBlockNum b.file).Nodup := by
    have hrows : listing.Nodup := hlisting.nodup_iff.mpr (List.Nodup.of_map _ dir.nodup)
    refine hrows.map_on fun b hb b' hb' heq => ?_
    obtain ⟨f, hf, rfl⟩ := (hstored b).mp hb
    obtain ⟨g, hg, rfl⟩ := (hstored b').mp hb'
    rcases eq_or_rel_of_pairwise h.ascending hf hg with rfl | hlt | hlt
    · rfl
    · exact absurd heq hlt.ne
    · exact absurd heq hlt.ne'
  obtain ⟨hsorted, hmem⟩ := foldl_openFile hnodup (fun _ _ _ hj => absurd hj not_mem_nil)
    List.Pairwise.nil
  refine ⟨?_, h.stored, h.sized, h.ordered, by simp [openDir]⟩
  have : Std.Antisymm fun i j : CatalogItem => i.firstBlockNum < j.firstBlockNum :=
    ⟨fun _ _ hij hji => absurd hij hji.not_gt⟩
  have : Std.Irrefl fun i j : CatalogItem => i.firstBlockNum < j.firstBlockNum :=
    ⟨fun _ => lt_irrefl _⟩
  refine hsorted.eq_of_mem_iff hasc fun i => ?_
  rw [hmem, List.mem_map]
  simp only [not_mem_nil, false_or]
  constructor
  · rintro ⟨b, hb, rfl⟩
    obtain ⟨f, hf, rfl⟩ := (hstored b).mp hb
    exact ⟨f, hf, (hitem f hf).symm⟩
  · rintro ⟨f, hf, rfl⟩
    exact ⟨bundle f, (hstored _).mpr ⟨f, hf, rfl⟩, (hitem f hf).symm⟩

end LogCatalog

end Sysio
