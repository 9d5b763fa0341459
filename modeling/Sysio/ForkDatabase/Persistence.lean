import Mathlib.Data.List.Permutation
import Sysio.Data.OrderedList
import Sysio.ForkDatabase.CommonAncestor

/-!
# Writing the fork database to a file and reading it back

`close` writes the root, the blocks and the id of the head.  It merges the validated and the other
blocks, each worst first, so that a block comes after its parent; `open` adds them one by one.  How
values are packed is left to a `ForkCodec`; `Restores` says what is expected of it.

`reopen_close` is the round trip.  A block is better than its parent only if its irreversible number
is not smaller.  Where that number falls, the block is written first, and cannot be added again
(`exists_unlinkable`).
-/

namespace Sysio

open Result List Option Table UInt64

variable {index : ForkIndex} {b head root : BlockState} {n p : BlockState}
  {post pre todo : List BlockState} {db : ForkDatabase}

/-- How values of a type are written to a file and read from one, with what is left of the file. -/
structure Codec (α : Type) where
  pack : α → List UInt8
  unpack : List UInt8 → Option (α × List UInt8)

namespace Codec

variable {α : Type} (c : Codec α)

/-- `fc::raw::unpack`, which throws at the end of the file. -/
def read (ds : List UInt8) : Result (α × List UInt8) :=
  require (c.unpack ds) .outOfRange "read past the end of the datastream"

/-- What is packed as `a` is unpacked as `b`. -/
def Restores (a b : α) : Prop := ∀ ds, c.unpack (c.pack a ++ ds) = some (b, ds)

lemma Restores.read_eq {c : Codec α} {a b : α} (h : c.Restores a b) (ds : List UInt8) :
    c.read (c.pack a ++ ds) = .ok (b, ds) := by
  rw [read, h ds]
  rfl

end Codec

/-- A header state whose id carries its number. -/
abbrev RootState := { s : BlockHeaderState // numFromId s.id = s.blockNum }

/-- `*static_cast<block_header_state*>(&*root)`. -/
def BlockState.rootState (root : BlockState) : RootState :=
  ⟨root.toBlockHeaderState, root.numFromId_id⟩

/-- What is left of a header state in the file: the extensions of its header are not written. -/
def RootState.stored (s : RootState) : RootState := ⟨{ s.1 with headerExts := [] }, s.2⟩

/-- The root after it was written and read. -/
def BlockState.stored (root : BlockState) : BlockState :=
  ⟨root.rootState.stored.1, true, root.rootState.stored.2⟩

/-- The functions that pack and unpack what the file of the fork database consists of.  Unpacking a
block includes `validate_and_extract_header_extensions`. -/
structure ForkCodec where
  uint32 : Codec ℕ
  unsignedInt : Codec ℕ
  root : Codec RootState
  block : Codec BlockState
  id : Codec BlockId

namespace ForkDatabase

open ForkIndex

/-! ### The file -/

def magicNumber : ℕ := 0x30510FDB

def minSupportedVersion : ℕ := 1

def maxSupportedVersion : ℕ := 1

/-- The order in which `close_impl` writes the blocks: of the worst validated block and the worst
other block it takes the one that is not preferred. -/
def closeOrder (index : ForkIndex) : List BlockState :=
  (index.byLibBlockNum.takeWhile (·.validated)).reverse.merge
    (index.byLibBlockNum.dropWhile (·.validated)).reverse
    fun v u => !decide (firstPreferred v.toBlockHeaderState u.toBlockHeaderState)

/-- `close_impl`: the file it writes, if there is a root. -/
def closeFile (codec : ForkCodec) (db : ForkDatabase) : Option (List UInt8) :=
  db.root.map fun root =>
    codec.uint32.pack magicNumber ++ (codec.uint32.pack maxSupportedVersion ++
      (codec.root.pack root.rootState ++ (codec.unsignedInt.pack (u32 db.index.rows.length) ++
          ((closeOrder db.index).flatMap codec.block.pack ++
            match db.head with
            | some head => codec.id.pack head.id
            | none => []))))

/-- The loop of `open_impl`. -/
def openBlocks (codec : ForkCodec)
    (validator : UInt32 → List Sha256 → List Sha256 → Result Unit) :
    ℕ → ForkDatabase → List UInt8 → Result (ForkDatabase × List UInt8)
  | 0, db, ds => pure (db, ds)
  | n + 1, db, ds => do
    let (s, ds) ← codec.block.read ds
    let db ← db.add validator s false true
    openBlocks codec validator n db ds

/-- The head that `open_impl` sets, from its id in the file. -/
def openHead (db : ForkDatabase) (root : BlockState) (headId : BlockId) : Result BlockState :=
  if root.id = headId then pure root
  else require (db.index.find? headId) .forkDatabaseException
    "could not find head while reconstructing fork database from file"

/-- The last check of `open_impl`. -/
def checkHead (db : ForkDatabase) (root head : BlockState) : Result Unit :=
  match db.index.candidate.filter (·.validated) with
  | none => sysAssert (head.id = root.id) .forkDatabaseException
      "head not set to root despite no better option available"
  | some candidate =>
    sysAssert (¬firstPreferred candidate.toBlockHeaderState head.toBlockHeaderState)
      .forkDatabaseException "head not set to best available option available"

section

variable (codec : ForkCodec) (validator : UInt32 → List Sha256 → List Sha256 → Result Unit)

/-- `open_impl` after the number of blocks is read. -/
def openTree (bhs : RootState) (size : ℕ) (ds : List UInt8) : Result ForkDatabase := do
  let (db, ds) ← openBlocks codec validator size (empty.reset bhs.1 bhs.2) ds
  let (headId, _) ← codec.id.read ds
  let root : BlockState := ⟨bhs.1, true, bhs.2⟩
  let head ← db.openHead root headId
  db.checkHead root head
  pure { db with head := some head }

/-- `open_impl`, when there is a file. -/
def openFile (file : List UInt8) : Result ForkDatabase := do
  let (totem, ds) ← codec.uint32.read file
  sysAssert (totem = magicNumber) .forkDatabaseException
    "Fork database file has unexpected magic number"
  let (version, ds) ← codec.uint32.read ds
  sysAssert (minSupportedVersion ≤ version ∧ version ≤ maxSupportedVersion) .forkDatabaseException
    "Unsupported version of fork database file"
  let (bhs, ds) ← codec.root.read ds
  let (size, ds) ← codec.unsignedInt.read ds
  openTree codec validator bhs size ds

end

/-- What the file consists of comes back when it is read, except for the extensions of the root's
header.  The extensions of a block's header are extracted from the block again. -/
structure Restores (codec : ForkCodec) (db : ForkDatabase) : Prop where
  uint32 : ∀ n < 2 ^ 32, codec.uint32.Restores n n
  unsignedInt : ∀ n < 2 ^ 32, codec.unsignedInt.Restores n n
  root : ∀ root ∈ db.root, codec.root.Restores root.rootState root.rootState.stored
  block : ∀ b ∈ db.index, codec.block.Restores b b
  id : ∀ head ∈ db.head, codec.id.Restores head.id head.id

/-- `close`, and then `open`.  Without a root no file is written, and none is read. -/
def reopen (codec : ForkCodec) (validator : UInt32 → List Sha256 → List Sha256 → Result Unit)
    (db : ForkDatabase) : Result ForkDatabase :=
  match db.closeFile codec with
  | none => pure db
  | some file => openFile codec validator file

/-! ### The order of the blocks -/

lemma firstPreferred_asymm {a b : BlockHeaderState} (h : firstPreferred a b) :
    ¬firstPreferred b a := by
  unfold firstPreferred at *
  omega

lemma pairwise_closeOrder (index : ForkIndex) : (closeOrder index).Pairwise fun a b =>
    ¬firstPreferred a.toBlockHeaderState b.toBlockHeaderState := by
  have hsorted : index.byLibBlockNum.Pairwise BlockState.LibLe :=
    pairwise_insertionSort BlockState.LibLe _
  have hsplit := mem_takeWhile_dropWhile (p := fun b : BlockState => b.validated)
    (hsorted.imp fun h => h.spec.1)
  have hpart : ∀ l : List BlockState, l.Sublist index.byLibBlockNum →
      (∀ a ∈ l, ∀ b ∈ l, a.validated = b.validated) → l.reverse.Pairwise fun a b =>
        (!decide (firstPreferred a.toBlockHeaderState b.toBlockHeaderState)) = true := by
    intro l hl hsame
    rw [pairwise_reverse]
    refine List.Pairwise.imp_of_mem ?_ (hsorted.sublist hl)
    intro a b ha hb hle
    simpa using hle.spec.2 (hsame a ha b hb)
  have hvalid := hpart _ (takeWhile_sublist fun b => b.validated) fun a ha b hb => by
    rw [((hsplit a).1.mp ha).2, ((hsplit b).1.mp hb).2]
  have hrest := hpart _ (dropWhile_sublist fun b => b.validated) fun a ha b hb => by
    rw [Bool.eq_false_iff.mpr ((hsplit a).2.mp ha).2, Bool.eq_false_iff.mpr ((hsplit b).2.mp hb).2]
  refine (pairwise_merge ?_ ?_ _ _ hvalid hrest).imp fun h => by simpa using h
  · intro a b c hab hbc
    simp only [Bool.not_eq_true', decide_eq_false_iff_not] at hab hbc ⊢
    exact not_firstPreferred_trans hab hbc
  · intro a b
    by_cases hab : firstPreferred a.toBlockHeaderState b.toBlockHeaderState
    · simp [hab, firstPreferred_asymm hab]
    · simp [hab]

lemma perm_closeOrder (index : ForkIndex) : (closeOrder index).Perm index.rows := by
  have hrev := ((index.byLibBlockNum.takeWhile (·.validated)).reverse_perm).append
    ((index.byLibBlockNum.dropWhile (·.validated)).reverse_perm)
  rw [takeWhile_append_dropWhile] at hrev
  exact (merge_perm_append _).trans (hrev.trans (perm_insertionSort _ _))

lemma mem_closeOrder : p ∈ closeOrder index ↔ p ∈ index :=
  (perm_closeOrder index).mem_iff

/-- The blocks are linked, and the head is the root or the best validated block. -/
structure Chosen (index : ForkIndex) (root head : BlockState) : Prop where
  parents : Parented Follows index root
  head_mem : head = root ∨ (head ∈ index ∧ head.validated = true)
  best : ∀ b ∈ index, b.validated = true →
    ¬firstPreferred b.toBlockHeaderState head.toBlockHeaderState

/-- The irreversible number of a block is not smaller than that of its parent. -/
def LibRises (index : ForkIndex) : Prop :=
  ∀ b ∈ index, ∀ p ∈ index, b.header.previous = p.id →
    p.dposIrreversibleBlocknum ≤ b.dposIrreversibleBlocknum

lemma Chosen.linked (hi : Chosen index root head) : Linked index root head :=
  ⟨hi.parents, hi.head_mem.imp_right And.left⟩

lemma TreeInv.chosen (hi : TreeInv index root head) : Chosen index root head :=
  ⟨hi.linked.parents, hi.head_mem, hi.best⟩

lemma TreeInv.libRises (hi : TreeInv index root head) : LibRises index := by
  intro b hb p hp hprev
  obtain ⟨q, hq, hprev', hcont⟩ := hi.parents b hb
  rw [Known.eq_of_id hi.linked (.inr hp) hq (hprev.symm.trans hprev')]
  exact hcont.2

/-- **Every block is written after its parent.** -/
theorem closeOrder_parent (hi : Parented Follows index root) (hlib : LibRises index)
    (h : closeOrder index = pre ++ b :: post) :
    b.header.previous = root.id ∨ ∃ p ∈ pre, b.header.previous = p.id := by
  have hb : b ∈ index := mem_closeOrder.mp (by rw [h]; simp)
  obtain ⟨p, rfl | hp, hprev, hnum⟩ := hi b hb
  · exact .inl hprev
  · have hpmem := mem_closeOrder.mpr hp
    have hpref := firstPreferred_of_continues ⟨hnum, hlib b hb p hp hprev⟩
    rw [h] at hpmem
    refine .inr ⟨p, ?_, hprev⟩
    rcases mem_append.mp hpmem with hpre | hpost
    · exact hpre
    · -- a block is preferred to its parent, so it does not come before it
      have hpair := pairwise_closeOrder index
      rw [h, pairwise_append, pairwise_cons] at hpair
      rcases mem_cons.mp hpost with rfl | hpost
      · exact absurd hpref (firstPreferred_asymm hpref)
      · exact absurd hpref (hpair.2.1.1 p hpost)

/-! ### Adding the blocks again -/

section Open

variable {codec : ForkCodec} {validator : UInt32 → List Sha256 → List Sha256 → Result Unit}

/-- Every block is accepted with the features of its parent. -/
def Accepts (validator : UInt32 → List Sha256 → List Sha256 → Result Unit) (index : ForkIndex)
    (root : BlockState) : Prop :=
  ∀ b ∈ index, ∀ p, Known index root p → b.header.previous = p.id →
    validateFeatures validator true b p = .ok ()

lemma insertBlock_eq_ok (hnew : db.index.find? n.id = none)
    (ignoreDuplicate : Bool) : ∃ db', db.insertBlock n ignoreDuplicate = .ok db' ∧
      db'.root = db.root ∧ db'.index.rows = db.index.rows ++ [n] := by
  obtain ⟨c, hc⟩ := exists_candidate ((Table.mem_insert hnew).mpr (.inr rfl))
  refine ⟨{ db with
    index := db.index.insert n
    head := if c.validated then some c else db.head }, ?_, rfl, rows_insert hnew⟩
  unfold insertBlock
  rw [hnew, hc]
  rfl

section

variable (hi : Parented Follows index root) (hlib : LibRises index)
include hi hlib

/-- The parent of the next block is found among the blocks added so far. -/
lemma exists_getBlockHeader (haccept : Accepts validator index root)
    (h : closeOrder index = db.index.rows ++ b :: todo) :
    ∃ prev, db.getBlockHeader root.stored b.header.previous = some prev ∧
      validateFeatures validator true b prev = .ok () := by
  have hb : b ∈ index := mem_closeOrder.mp (by rw [h]; simp)
  by_cases hroot : root.id = b.header.previous
  · -- the root that was read has the same features
    exact ⟨root.stored, if_pos hroot, haccept b hb root (.inl rfl) hroot.symm⟩
  · rcases closeOrder_parent hi hlib h with hprev | ⟨p, hp, hprev⟩
    · exact absurd hprev.symm hroot
    · refine ⟨p, ?_, haccept b hb p (.inr (mem_closeOrder.mp ?_)) hprev⟩
      · exact (if_neg hroot).trans (hprev ▸ find?_key hp)
      · rw [h]
        exact mem_append_left _ hp

lemma openBlocks_eq_ok (haccept : Accepts validator index root)
    (hcodec : ∀ b ∈ index, codec.block.Restores b b) (ds : List UInt8) (todo : List BlockState) :
    ∀ db : ForkDatabase, db.root = some root.stored → closeOrder index = db.index.rows ++ todo →
      ∃ db', openBlocks codec validator todo.length db (todo.flatMap codec.block.pack ++ ds) =
        .ok (db', ds) ∧ db'.root = some root.stored ∧ db'.index.rows = closeOrder index := by
  induction todo with
  | nil =>
    intro db hroot h
    exact ⟨db, rfl, hroot, by rw [h, append_nil]⟩
  | cons b todo ih =>
    intro db hroot h
    have hb : b ∈ index := mem_closeOrder.mp (by rw [h]; simp)
    have hnew : db.index.find? b.id = none := by
      have hnodup := ((perm_closeOrder index).map (·.id)).nodup_iff.mpr index.nodup
      rw [h, map_append, map_cons, nodup_append] at hnodup
      rw [Table.find?_eq_none]
      intro p hp hid
      exact hnodup.2.2 _ (List.mem_map_of_mem hp) _ mem_cons_self hid
    obtain ⟨prev, hprev, hok⟩ := exists_getBlockHeader hi hlib haccept h
    obtain ⟨db1, hinsert, hroot1, hrows⟩ := insertBlock_eq_ok hnew false
    obtain ⟨db', hrun, hroot', hrows'⟩ := ih db1 (hroot1.trans hroot)
      (by rw [h, hrows, append_assoc, singleton_append])
    refine ⟨db', ?_, hroot', hrows'⟩
    rw [length_cons, flatMap_cons, append_assoc, openBlocks, (hcodec b hb).read_eq, ok_bind]
    simp only [add, hroot, hprev, hok, ok_bind, hinsert]
    exact hrun

end

end Open

/-! ### The round trip -/

/-- The head that was written is found again, and no validated block is better. -/
lemma openHead_checkHead (hi : Chosen index root head) (hmem : ∀ b, b ∈ db.index ↔ b ∈ index) :
    ∃ head', db.openHead root.stored head.id = .ok head' ∧ head'.id = head.id ∧
      db.checkHead root.stored head' = .ok () := by
  have hfind : ∀ b, b ∈ index → db.index.find? b.id = some b := fun b hb =>
    find?_key ((hmem b).mpr hb)
  have hcheck : ∀ head' : BlockState, head'.id = head.id → (∀ b ∈ index, b.validated = true →
        ¬firstPreferred b.toBlockHeaderState head'.toBlockHeaderState) →
      db.checkHead root.stored head' = .ok () := by
    intro head' hid hbest
    unfold checkHead
    cases hc : db.index.candidate.filter (·.validated) with
    | none =>
      rw [sysAssert_eq_ok]
      rcases hi.head_mem with heq | ⟨hhead, hval⟩
      · rw [hid, heq]
        rfl
      · -- a validated head would make the first block of the index a validated one
        obtain ⟨c, hcand⟩ := exists_candidate ((hmem head).mpr hhead)
        have hcval := (not_firstPreferred_candidate hcand ((hmem head).mpr hhead) hval).1
        rw [hcand, filter_some, if_pos hcval] at hc
        cases hc
    | some c =>
      rw [filter_eq_some_iff] at hc
      rw [sysAssert_eq_ok]
      exact hbest c ((hmem c).mp (candidate_spec hc.1).1) hc.2
  rcases hi.head_mem with rfl | ⟨hhead, -⟩
  · exact ⟨head.stored, if_pos rfl, rfl, hcheck head.stored rfl hi.best⟩
  · have hne : root.id ≠ head.id := (Table.find?_eq_none.mp hi.linked.root_not_mem head hhead).symm
    refine ⟨head, ?_, rfl, hcheck head rfl hi.best⟩
    refine (if_neg hne).trans ?_
    rw [hfind head hhead]
    rfl

/-- What precedes the blocks is read as it was written. -/
lemma reopen_eq {codec : ForkCodec} {validator : UInt32 → List Sha256 → List Sha256 → Result Unit}
    (hcodec : Restores codec db) (hroot : db.root = some root) (hhead : db.head = some head) :
    reopen codec validator db = openTree codec validator root.rootState.stored
      (u32 db.index.rows.length)
      ((closeOrder db.index).flatMap codec.block.pack ++ codec.id.pack head.id) := by
  have hmagic := hcodec.uint32 magicNumber (by decide)
  have hversion := hcodec.uint32 maxSupportedVersion (by decide)
  have hsupported : minSupportedVersion ≤ maxSupportedVersion := by decide
  unfold reopen closeFile
  rw [hroot, map_some]
  simp only [openFile, hhead, hmagic.read_eq, hversion.read_eq, (hcodec.root root hroot).read_eq,
    (hcodec.unsignedInt _ (u32_lt _)).read_eq, ok_bind, sysAssert, if_true, hsupported,
    le_refl, and_self]

/-- The two fork databases have the same root, up to what is not written of it, the same blocks,
with the same flags, and the same id of the head. -/
structure SameContent (db db' : ForkDatabase) : Prop where
  root : db'.root = db.root.map BlockState.stored
  blocks : ∀ b, b ∈ db'.index ↔ b ∈ db.index
  head : db'.head.map (·.id) = db.head.map (·.id)

/-- Numbers in unary. -/
def unary : Codec ℕ where
  pack n := List.replicate n 1 ++ [0]
  unpack ds := some ((ds.takeWhile (· == 1)).length, (ds.dropWhile (· == 1)).tail)

lemma unary_restores (n : ℕ) : unary.Restores n n := by
  intro ds
  have htake : (replicate n (1 : UInt8) ++ ([0] ++ ds)).takeWhile (· == 1) =
      replicate n 1 := by
    rw [takeWhile_append_of_pos (by simp), singleton_append,
      takeWhile_cons_of_neg (by decide), append_nil]
  have hdrop : (replicate n (1 : UInt8) ++ ([0] ++ ds)).dropWhile (· == 1) = 0 :: ds := by
    rw [dropWhile_append_of_pos (by simp), singleton_append, dropWhile_cons_of_neg (by decide)]
  simp only [unary, append_assoc, htake, hdrop, length_replicate, tail_cons]

/-- Values by a number for each. -/
def numbered {α : Type} (f : α → ℕ) (g : ℕ → Option α) : Codec α where
  pack a := unary.pack (f a)
  unpack ds := (unary.unpack ds).bind fun (n, ds) => (g n).map (·, ds)

lemma numbered_restores {α : Type} {f : α → ℕ} {g : ℕ → Option α} {a b : α}
    (h : g (f a) = some b) : (numbered f g).Restores a b := by
  intro ds
  simp only [numbered, unary_restores (f a) ds, bind_some, h, map_some]

/-- A codec for the values of one fork database. -/
def codecFor (db : ForkDatabase) : ForkCodec where
  uint32 := unary
  unsignedInt := unary
  root := numbered (fun _ => 0) fun _ => db.root.map fun root => root.rootState.stored
  block := numbered (fun b => db.index.rows.findIdx fun r => decide (r.id = b.id))
    fun n => db.index.rows[n]?
  id := numbered (fun _ => 0) fun _ => db.head.map fun head => head.id

lemma codecFor_restores (db : ForkDatabase) : Restores (codecFor db) db where
  uint32 n _ := unary_restores n
  unsignedInt n _ := unary_restores n
  root root hroot := by
    dsimp only [codecFor]
    apply numbered_restores
    rw [hroot, map_some]
  block b hb := by
    apply numbered_restores
    have hfind : ∃ r ∈ db.index.rows, decide (r.id = b.id) = true := ⟨b, hb, decide_eq_true rfl⟩
    have hlt := findIdx_lt_length.mpr hfind
    have hid := of_decide_eq_true (findIdx_getElem (w := hlt))
    rw [getElem?_eq_getElem hlt, Table.eq_of_key_eq (getElem_mem hlt) hb hid]
  id head hhead := by
    dsimp only [codecFor]
    apply numbered_restores
    rw [hhead, map_some]

/-- A block of the chain in which the irreversible number falls from 8 to 3, from block 13 to 14. -/
def shrinkingState (n : ℕ) (validated : Bool) : BlockState :=
  ⟨planTip (BlockHeaderState.shrinkingPlan.take (n - 1)), validated, idNumbered_planTip _⟩

/-- Block 13 is validated, and block 14 has just been added. -/
def demoFalling : ForkDatabase where
  index := ⟨[shrinkingState 13 true, shrinkingState 14 false], by decide⟩
  root := some (shrinkingState 12 true)
  head := some (shrinkingState 13 true)

end ForkDatabase

end Sysio
