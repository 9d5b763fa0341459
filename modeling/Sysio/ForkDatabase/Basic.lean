import Sysio.BlockHeaderState.Basic

/-!
# The fork database

A tree of block states above a root, and the head: the best block that has been validated.  The
container of the source indexes its blocks by id, by parent and by preference; here the blocks are a
table with the id as its key, the children of a block are found by filtering, and the index by
preference is the table sorted by `libKey`.

The two loops that follow links (`remove` collects descendants, `advance_root` walks to the root)
take a number of rounds; running out of them is an error, which `Sysio.ForkDatabase.Removal` shows
not to happen.
-/

namespace Sysio

/-- `block_state`, without the block itself.  The id of a block carries its number, because
`calculate_id` writes it there. -/
structure BlockState extends BlockHeaderState where
  validated : Bool
  numFromId_id : numFromId id = blockNum

/-- The key of the index `by_lib_block_num`, with its comparison
`<greater<bool>, greater<uint32_t>, greater<uint32_t>, sha256_less>` as the order of the type. -/
def BlockState.libKey (b : BlockState) : Boolᵒᵈ ×ₗ ℕᵒᵈ ×ₗ ℕᵒᵈ ×ₗ BlockId :=
  toLex (OrderDual.toDual b.validated, toLex (OrderDual.toDual b.dposIrreversibleBlocknum,
    toLex (OrderDual.toDual b.blockNum, b.id)))

/-- `a` is not behind `b` in the index `by_lib_block_num`. -/
def BlockState.LibLe (a b : BlockState) : Prop := a.libKey ≤ b.libKey

instance : DecidableRel BlockState.LibLe := fun a b =>
  inferInstanceAs (Decidable (a.libKey ≤ b.libKey))

/-- The blocks of the fork database, by id. -/
abbrev ForkIndex := Table BlockId BlockState fun b => b.id

namespace ForkIndex

section

variable (index : ForkIndex)

/-- `index.get<by_lib_block_num>()`. -/
def byLibBlockNum : List BlockState :=
  index.rows.insertionSort BlockState.LibLe

/-- `*index.get<by_lib_block_num>().begin()`. -/
def candidate : Option BlockState := index.byLibBlockNum.head?

/-- Sets `validated` of the block with the given id. -/
def setValid (id : BlockId) : ForkIndex :=
  index.modify id (fun b => { b with validated := true }) fun _ => rfl

/-- Clears `validated` of every block. -/
def clearValid : ForkIndex :=
  index.mapRows (fun b => { b with validated := false }) fun _ => rfl

/-- The ids of the blocks built on `id`, which the index `by_prev` holds together. -/
def childIds (id : BlockId) : List BlockId :=
  (index.rows.filter fun b => decide (b.header.previous = id)).map fun b => b.id

def eraseIds (ids : List BlockId) : ForkIndex :=
  ids.foldl (fun t id => t.erase id) index

end

end ForkIndex

/-- `fork_database_impl`; `root` and `head` are null until the first `reset`. -/
structure ForkDatabase where
  index : ForkIndex
  root : Option BlockState
  head : Option BlockState

namespace ForkDatabase

/-- A fork database as its constructor leaves it. -/
def empty : ForkDatabase := ⟨Table.empty, none, none⟩

/-- `reset_impl`. -/
def reset (_db : ForkDatabase) (rootBhs : BlockHeaderState)
    (h : numFromId rootBhs.id = rootBhs.blockNum) : ForkDatabase :=
  let root : BlockState := ⟨rootBhs, true, h⟩
  ⟨Table.empty, some root, some root⟩

section

variable (db : ForkDatabase)

/-- `rollback_head_to_root_impl`. -/
def rollbackHeadToRoot : ForkDatabase :=
  { db with index := db.index.clearValid, head := db.root }

/-- `get_block_header_impl`, with the root already read. -/
def getBlockHeader (root : BlockState) (id : BlockId) : Option BlockState :=
  if root.id = id then some root else db.index.find? id

/-- The feature check of `add_impl`, whose exceptions are rethrown as its own. -/
def validateFeatures (validator : UInt32 → List Sha256 → List Sha256 → Result Unit)
    (validate : Bool) (n prev : BlockState) : Result Unit :=
  match n.headerExts.findSome? HeaderExtension.newProtocolFeatures with
  | none => pure ()
  | some features =>
    if validate then
      match validator n.header.timestamp prev.activatedProtocolFeatures features with
      | .ok () => pure ()
      | .error _ => .error ⟨.forkDatabaseException,
          "serialized fork database is incompatible with configured protocol features"⟩
    else pure ()

/-- The insertion into the index, and the choice of the head. -/
def insertBlock (n : BlockState) (ignoreDuplicate : Bool) : Result ForkDatabase :=
  if (db.index.find? n.id).isSome then
    if ignoreDuplicate then pure db
    else .error ⟨.forkDatabaseException, "duplicate block added"⟩
  else
    match ForkIndex.candidate (db.index.insert n) with
    | none => .error ⟨.undefinedBehavior, "end iterator dereferenced"⟩
    | some candidate =>
      pure { db with
        index := db.index.insert n
        head := if candidate.validated then some candidate else db.head }

/-- `add_impl`. -/
def add (validator : UInt32 → List Sha256 → List Sha256 → Result Unit) (db : ForkDatabase)
    (n : BlockState) (ignoreDuplicate validate : Bool) : Result ForkDatabase :=
  match db.root with
  | none => .error ⟨.forkDatabaseException, "root not yet set"⟩
  | some root =>
    match db.getBlockHeader root n.header.previous with
    | none => .error ⟨.unlinkableBlockException, "unlinkable block"⟩
    | some prev => do
      validateFeatures validator validate n prev
      db.insertBlock n ignoreDuplicate

/-- `mark_valid_impl`. -/
def markValid (h : BlockState) : Result ForkDatabase :=
  if h.validated then pure db
  else if (db.index.find? h.id).isSome then
    match (db.index.setValid h.id).candidate, db.head with
    | some candidate, some head =>
      pure { db with
        index := db.index.setValid h.id
        head := if firstPreferred candidate.toBlockHeaderState head.toBlockHeaderState then
            some candidate
          else some head }
    | _, _ => .error ⟨.undefinedBehavior, "null pointer dereferenced"⟩
  else .error ⟨.forkDatabaseException, "block state not in fork database; cannot mark as valid"⟩

/-- The queue of `remove_impl`: the first list holds the ids that are still to be looked at, the
second those whose children have been queued. -/
def removeQueue (index : ForkIndex) (headId : BlockId) :
    ℕ → List BlockId → List BlockId → Result (List BlockId)
  | _, [], done => .ok done
  -- not reached, since the database is a tree
  | 0, _ :: _, _ => .error ⟨.undefinedBehavior, "the queue does not end"⟩
  | fuel + 1, id :: queue, done => do
    sysAssert (id ≠ headId) .forkDatabaseException
      "removing the block and its descendants would remove the current head block"
    removeQueue index headId fuel (queue ++ index.childIds id) (done ++ [id])

/-- `remove_impl`. -/
def remove (id : BlockId) : Result ForkDatabase :=
  match db.head with
  | none => .error ⟨.undefinedBehavior, "null pointer dereferenced"⟩
  | some head => do
    let ids ← removeQueue db.index head.id (db.index.rows.length + 1) [id] []
    pure { db with index := db.index.eraseIds ids }

/-- The ids that `advance_root_impl` collects on the way from a block with the given parent to the
root. -/
def blocksToRemove (index : ForkIndex) (rootId : BlockId) : ℕ → BlockId → Result (List BlockId)
  | 0, _ => .error ⟨.undefinedBehavior, "the walk does not end"⟩
  | fuel + 1, previous =>
    match index.find? previous with
    | some b => do
      let rest ← blocksToRemove index rootId fuel b.header.previous
      pure (previous :: rest)
    | none => do
      sysAssert (previous = rootId) .forkDatabaseException
        "invariant violation: orphaned branch was present in forked database"
      pure [previous]

/-- `advance_root_impl`. -/
def advanceRoot (id : BlockId) : Result ForkDatabase :=
  match db.root with
  | none => .error ⟨.forkDatabaseException, "root not yet set"⟩
  | some root =>
    match db.index.find? id with
    | none => .error ⟨.forkDatabaseException,
        "cannot advance root to a block that does not exist in the fork database"⟩
    | some newRoot => do
      sysAssert (newRoot.validated = true) .forkDatabaseException
        "cannot advance root to a block that has not yet been validated"
      let ids ← blocksToRemove db.index root.id newRoot.blockNum newRoot.header.previous
      -- the new root is erased alone, so that the blocks built on it stay
      let db ← ids.foldlM remove { db with index := db.index.erase id }
      pure { db with root := some newRoot }

def pendingHead : Option BlockState :=
  match db.index.byLibBlockNum.find? (fun b => !b.validated), db.head with
  | some b, some head =>
    if firstPreferred b.toBlockHeaderState head.toBlockHeaderState then some b else some head
  | _, head => head

/-! ### Operations -/

inductive Op
  | reset (rootBhs : BlockHeaderState) (h : numFromId rootBhs.id = rootBhs.blockNum)
  | add (n : BlockState) (ignoreDuplicate validate : Bool)
  | markValid (h : BlockState)
  | remove (id : BlockId)
  | advanceRoot (id : BlockId)
  | rollbackHeadToRoot

def apply (validator : UInt32 → List Sha256 → List Sha256 → Result Unit) (db : ForkDatabase) :
    Op → Result ForkDatabase
  | .reset rootBhs h => pure (db.reset rootBhs h)
  | .add n ignoreDuplicate validate => db.add validator n ignoreDuplicate validate
  | .markValid h => db.markValid h
  | .remove id => db.remove id
  | .advanceRoot id => db.advanceRoot id
  | .rollbackHeadToRoot => pure db.rollbackHeadToRoot

/-- The numbers of `b` continue those of its parent `p`. -/
def ContinuesBlock (p b : BlockState) : Prop :=
  b.blockNum = p.blockNum + 1 ∧ p.dposIrreversibleBlocknum ≤ b.dposIrreversibleBlocknum

instance : DecidableRel ContinuesBlock := fun _ _ => inferInstanceAs (Decidable (_ ∧ _))

/-- What the caller promises of an added block: it continues its parent, if the database has one. -/
def Op.Continues : Op → Prop
  | .add n _ _ => ∀ prev ∈ db.root.bind (db.getBlockHeader · n.header.previous),
      ContinuesBlock prev n
  | _ => True

end

instance (db : ForkDatabase) : DecidablePred (Op.Continues db)
  | .add n _ _ => inferInstanceAs (Decidable (∀ prev ∈ db.root.bind _, ContinuesBlock prev n))
  | .reset _ _ | .markValid _ | .remove _ | .advanceRoot _ | .rollbackHeadToRoot =>
    inferInstanceAs (Decidable True)

def Step (validator : UInt32 → List Sha256 → List Sha256 → Result Unit) (db : ForkDatabase)
    (op : Op) (db' : ForkDatabase) : Prop :=
  op.Continues db ∧ db.apply validator op = .ok db'

end ForkDatabase

end Sysio
