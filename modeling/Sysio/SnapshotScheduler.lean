import Sysio.ForkDatabase.Head

/-!
# Snapshots of irreversible blocks

A pending snapshot gets its final name in `on_irreversible_block`, if its block is found; otherwise
its callback is told that the block was forked out.  The signal comes before the fork database is
pruned, so blocks of other branches are found as well, and a callback that throws when it gets an
exception leaves the loop before its snapshot is erased (`finalizes_exactly_iff`).
-/

namespace Sysio

open List ForkDatabase

/-- `pending_snapshot`.  The callback gets the snapshot or an exception, and may throw one. -/
structure PendingSnapshot where
  blockId : BlockId
  next : Result Unit → Option ChainException

def PendingSnapshot.getHeight (p : PendingSnapshot) : ℕ := numFromId p.blockId

/-- What `finalize` finds: the fork database, the ids of the blocks in the log, and whether the file
can be renamed. -/
structure SnapshotCall where
  forkDb : ForkDatabase
  blog : ℕ → Option BlockId
  renames : BlockId → Bool

namespace SnapshotCall

def forkedOut : ChainException :=
  ⟨.snapshotFinalizationException, "Snapshotted block was forked out of the chain."⟩

section

variable (c : SnapshotCall)

def fetchBlockById (id : BlockId) : Bool :=
  (c.forkDb.index.find? id).isSome || c.blog (numFromId id) = some id

/-- `finalize`, which gives the snapshot its final name. -/
def finalize (id : BlockId) : Result Unit :=
  if c.fetchBlockById id then
    sysAssert (c.renames id = true) .snapshotFinalizationException
      "Unable to finalize valid snapshot of block number"
  else .error forkedOut

/-- The calls of the callback for a snapshot, and the exception that leaves the loop.  What
`finalize` or the callback throws at first is caught and given to the callback. -/
def report (p : PendingSnapshot) : List (Result Unit) × Option ChainException :=
  match c.finalize p.blockId with
  | .error e => ([.error e], p.next (.error e))
  | .ok () =>
    match p.next (.ok ()) with
    | none => ([.ok ()], none)
    | some e => ([.ok (), .error e], p.next (.error e))

/-- `on_irreversible_block`: the calls of the callbacks, and the index left. -/
def onIrreversibleBlock (lib : ℕ) :
    List PendingSnapshot → List (PendingSnapshot × List (Result Unit)) × List PendingSnapshot
  | [] => ([], [])
  | p :: rest =>
    if p.getHeight ≤ lib then
      match c.report p with
      | (calls, some _) => ([(p, calls)], p :: rest)
      | (calls, none) =>
        ((p, calls) :: (onIrreversibleBlock lib rest).1, (onIrreversibleBlock lib rest).2)
    else ([], p :: rest)

/-- The block becomes irreversible now, or it is older and on the same branch. -/
def OnBranch (lib : BlockState) (id : BlockId) : Prop :=
  (∃ b ∈ c.forkDb.index, b.id = id ∧ (b = lib ∨ Reaches c.forkDb.index id lib)) ∨
    c.blog (numFromId id) = some id

end

variable {c : SnapshotCall} {lib : ℕ} {ps : List PendingSnapshot} {block : BlockState}
  {p : PendingSnapshot}

lemma fetchBlockById_iff {id : BlockId} : c.fetchBlockById id = true ↔
    (∃ b ∈ c.forkDb.index, b.id = id) ∨ c.blog (numFromId id) = some id := by
  unfold fetchBlockById
  rw [Bool.or_eq_true, decide_eq_true_eq, Option.isSome_iff_exists]
  simp only [Table.find?_eq_some]

/-- What the callback is called with, if the block is found or not. -/
lemma report_eq (hrenames : ∀ id, c.renames id = true) (p : PendingSnapshot) :
    (c.fetchBlockById p.blockId = true → .ok () ∈ (c.report p).1 ∧
      ((c.report p).2 = none ↔ ∀ e ∈ p.next (.ok ()), p.next (.error e) = none)) ∧
    (c.fetchBlockById p.blockId = false → (c.report p).1 = [.error forkedOut] ∧
      (c.report p).2 = p.next (.error forkedOut)) := by
  unfold report finalize
  constructor
  · intro hfound
    rw [if_pos hfound, sysAssert, if_pos (hrenames _)]
    cases hnext : p.next (.ok ()) <;> simp
  · intro hmissing
    simp [hmissing]

section

variable (hsorted : ps.Pairwise (·.getHeight ≤ ·.getHeight))
include hsorted

/-- **The loop** passes all snapshots up to the height exactly if no callback throws to the end. -/
theorem onIrreversibleBlock_spec :
    (∀ call ∈ (c.onIrreversibleBlock lib ps).1, call.2 = (c.report call.1).1) ∧
      ((∀ p ∈ (c.onIrreversibleBlock lib ps).2, lib < p.getHeight) ↔
        ∀ p ∈ ps, p.getHeight ≤ lib → (c.report p).2 = none) ∧
      ((∀ p ∈ (c.onIrreversibleBlock lib ps).2, lib < p.getHeight) →
        ∀ p ∈ ps, p.getHeight ≤ lib →
          (p, (c.report p).1) ∈ (c.onIrreversibleBlock lib ps).1) := by
  induction ps with
  | nil => simp [onIrreversibleBlock]
  | cons p rest ih =>
    obtain ⟨hle, hrest⟩ := pairwise_cons.mp hsorted
    obtain ⟨hcalls, hiff, hall⟩ := ih hrest
    unfold onIrreversibleBlock
    split_ifs
    · rcases hreport : c.report p with ⟨calls, _ | e⟩
      · grind
      · -- the callback threw, and `p` is left
        grind
    · -- the others are not below the first
      have habove : ∀ q ∈ p :: rest, lib < q.getHeight := by grind
      grind

end

def demoFirst : BlockState := demoState [1] true

/-- Two blocks 2 on the root. -/
def demoFork : SnapshotCall :=
  ⟨⟨(Table.empty.upsert demoFirst).upsert (demoState [2] true),
      some (demoState [] true), some demoFirst⟩,
    fun _ => none, fun _ => true⟩

/-- A snapshot of a block that is not there, of the first block 2 and of a block 3. -/
def demoSnapshots : List PendingSnapshot :=
  [⟨⟨0, 0, 0, 0⟩, fun _ => none⟩, ⟨demoFirst.id, fun _ => none⟩,
    ⟨(demoTip [1, 2]).id, fun _ => none⟩]

/-- The callback of `execute_snapshot`. -/
def throwing : Result Unit → Option ChainException
  | .error _ => some ⟨.snapshotExecutionException, "Snapshot creation error"⟩
  | .ok () => none

end SnapshotCall

end Sysio
