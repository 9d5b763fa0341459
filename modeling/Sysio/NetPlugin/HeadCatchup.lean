import Mathlib.Data.List.Basic
import Sysio.Types

/-!
# The end of the head catch-up

While a node catches up with the heads of its peers, each connection remembers the fork head that
its peer announced.  With every block `sync_recv_block` visits the block connections: it is done if
no announced fork head is left that was not reached.  The loop reads the fork head of the connection
`cp` that it visits, but clears the one of the connection `c` that the block came from.  So it does
what it should exactly if no other connection has a fork head that is reached
(`recvBlock_exact_iff`).
-/

namespace Sysio

open List Function Sha256

/-- `stages`. -/
inductive Stage
  | libCatchup
  | headCatchup
  | inSync
  deriving DecidableEq

/-- `fork_head` and `fork_head_num` of a connection; the null id if nothing is announced. -/
structure ForkHead where
  forkHead : Sha256
  forkHeadNum : ℕ
  deriving DecidableEq

/-- The sync manager and the connections `ι`. -/
structure SyncManager (ι : Type) where
  syncState : Stage
  syncSource : Option ι
  forkHeads : ι → ForkHead

namespace SyncManager

variable {ι : Type} [DecidableEq ι]

/-- The body of the loop, with the fork heads and `set_state_to_head_catchup`. -/
def visit (c : ι) (blkId : Sha256) (blkNum : ℕ) (s : (ι → ForkHead) × Bool) (cp : ι) :
    (ι → ForkHead) × Bool :=
  if (s.1 cp).forkHead = Sha256.zero then s
  else if (s.1 cp).forkHeadNum < blkNum ∨ (s.1 cp).forkHead = blkId then
    (Function.update s.1 c ⟨Sha256.zero, 0⟩, s.2)
  else (s.1, true)

/-- `sync_recv_block` in the state `head_catchup`, with the block connections in the order of the
visits: the new state, and whether handshakes are sent. -/
def syncRecvBlock (m : SyncManager ι) (connections : List ι) (c : ι) (blkId : Sha256)
    (blkNum : ℕ) : SyncManager ι × Bool :=
  let r := connections.foldl (visit c blkId blkNum) (m.forkHeads, false)
  if r.2 then (⟨.headCatchup, none, r.1⟩, false) else (⟨.inSync, none, r.1⟩, true)

/-- An announced fork head that the block reaches. -/
def Reached (blkId : Sha256) (blkNum : ℕ) (f : ForkHead) : Prop :=
  f.forkHead ≠ Sha256.zero ∧ (f.forkHeadNum < blkNum ∨ f.forkHead = blkId)

/-- What the block should do: it ends the catch-up only if no fork head is left, and clears exactly
those that it reaches. -/
structure Exact (m : SyncManager ι) (connections : List ι) (blkId : Sha256) (blkNum : ℕ)
    (m' : SyncManager ι) : Prop where
  inSync : m'.syncState = .inSync → ∀ cp ∈ connections,
    (m.forkHeads cp).forkHead = Sha256.zero ∨ Reached blkId blkNum (m.forkHeads cp)
  cleared : ∀ cp ∈ connections, Reached blkId blkNum (m.forkHeads cp) →
    m'.forkHeads cp = ⟨Sha256.zero, 0⟩
  kept : ∀ cp, ¬ Reached blkId blkNum (m.forkHeads cp) → m'.forkHeads cp = m.forkHeads cp

variable {c : ι} {blkId : Sha256} {blkNum : ℕ} {heads : ι → ForkHead} {connections : List ι}

/-- Only the fork head of `c` changes. -/
lemma foldl_visit_of_ne {cp : ι} (hne : cp ≠ c) (b : Bool) :
    (connections.foldl (visit c blkId blkNum) (heads, b)).1 cp = heads cp := by
  induction connections generalizing heads b with
  | nil => rfl
  | cons d connections ih =>
    rw [foldl_cons, visit]
    split_ifs
    · exact ih b
    · rw [ih, update_of_ne hne]
    · exact ih true

/-- The loop, if it visits no other connection with a fork head that is reached. -/
lemma foldl_visit (h : ∀ cp ∈ connections, Reached blkId blkNum (heads cp) → cp = c) (b : Bool) :
    ∃ r, connections.foldl (visit c blkId blkNum) (heads, b) = r ∧ (b = true → r.2 = true) ∧
      (∀ cp ∈ connections, (heads cp).forkHead ≠ zero →
        ¬ Reached blkId blkNum (heads cp) → r.2 = true) ∧
      (Reached blkId blkNum (heads c) → c ∈ connections → r.1 c = ⟨zero, 0⟩) ∧
      (¬ Reached blkId blkNum (heads c) → r.1 c = heads c) := by
  induction connections generalizing heads b with
  | nil => exact ⟨_, rfl, id, by simp, fun _ hc => absurd hc not_mem_nil, fun _ => rfl⟩
  | cons d connections ih =>
    obtain ⟨hd, hrest⟩ := forall_mem_cons.mp h
    simp only [foldl_cons, forall_mem_cons (l := connections), visit, mem_cons (a := c)]
    split_ifs with hnull hreached
    · -- nothing is announced
      obtain ⟨r, hr, hflag, hleft, hclear, hkeep⟩ := ih hrest b
      refine ⟨r, hr, hflag, ⟨fun hne => absurd hnull hne, hleft⟩, fun hc hmem => ?_, hkeep⟩
      exact hclear hc (hmem.resolve_left fun heq => hc.1 (heq ▸ hnull))
    · -- the fork head is that of `c`, which is cleared
      obtain rfl := hd ⟨hnull, hreached⟩
      have hother {cp : ι} (hne : cp ≠ d) :
          update heads d ⟨zero, 0⟩ cp = heads cp := update_of_ne hne _ _
      obtain ⟨r, hr, hflag, hleft, -, hkeep⟩ := ih (fun cp hcp hcp' => by
        by_contra hne
        exact hne (hrest cp hcp (hother hne ▸ hcp'))) b
      refine ⟨r, hr, hflag, ⟨fun _ hn => absurd ⟨hnull, hreached⟩ hn, fun cp hcp hne hn => ?_⟩,
        fun _ _ => ?_, fun hn => absurd ⟨hnull, hreached⟩ hn⟩
      · have hcd : cp ≠ d := fun heq => hn (heq ▸ ⟨hnull, hreached⟩)
        exact hleft cp hcp (by rwa [hother hcd]) (by rwa [hother hcd])
      · rw [hkeep (fun hr => hr.1 (by rw [update_self])), update_self]
    · -- the flag is set
      obtain ⟨r, hr, hflag, -, hclear, hkeep⟩ := ih hrest true
      refine ⟨r, hr, fun _ => hflag rfl, ⟨fun _ _ => hflag rfl, fun _ _ _ _ => hflag rfl⟩,
        fun hc hmem => ?_, hkeep⟩
      exact hclear hc (hmem.resolve_left fun heq => hreached (heq ▸ hc.2))

/-- **The block does what it should** exactly if no connection other than the one that it came from
has a fork head that it reaches, in whatever order the connections are visited. -/
theorem recvBlock_exact_iff (m : SyncManager ι) (connections : List ι) (c : ι) (blkId : Sha256)
    (blkNum : ℕ) : Exact m connections blkId blkNum (m.syncRecvBlock connections c blkId blkNum).1 ↔
      ∀ cp ∈ connections, Reached blkId blkNum (m.forkHeads cp) → cp = c := by
  have hheads : (m.syncRecvBlock connections c blkId blkNum).1.forkHeads =
      (connections.foldl (visit c blkId blkNum) (m.forkHeads, false)).1 := by
    unfold syncRecvBlock
    dsimp only
    split_ifs <;> rfl
  constructor
  · intro h cp hcp hr
    by_contra hne
    have hcleared := h.cleared cp hcp hr
    rw [hheads, foldl_visit_of_ne hne] at hcleared
    exact hr.1 (congrArg ForkHead.forkHead hcleared)
  · intro h
    obtain ⟨r, hr, -, hleft, hclear, hkeep⟩ := foldl_visit h false
    rw [hr] at hheads
    refine ⟨fun hsync cp hcp => ?_, fun cp hcp hc => ?_, fun cp hn => ?_⟩
    · by_contra hnot
      rw [not_or] at hnot
      rw [syncRecvBlock, hr, if_pos (hleft cp hcp hnot.1 hnot.2)] at hsync
      cases hsync
    · obtain rfl := h cp hcp hc
      rw [hheads]
      exact hclear hc hcp
    · rw [hheads]
      by_cases hc : cp = c
      · subst hc
        exact hkeep hn
      · rw [← hr]
        exact foldl_visit_of_ne hc false

/-- **The catch-up ends too early**: the block 5 reaches the fork head 4 of the first connection,
which stays, and the fork head 9 of the connection that it came from is cleared instead. -/
theorem recvBlock_not_exact :
    let heads : Bool → ForkHead := fun c => ⟨⟨1, 0, 0, 0⟩, if c then 9 else 4⟩
    let m' := (syncRecvBlock ⟨.headCatchup, none, heads⟩ [false, true] true ⟨2, 0, 0, 0⟩ 5).1
    m'.syncState = .inSync ∧ m'.forkHeads false = heads false ∧
      m'.forkHeads true = ⟨Sha256.zero, 0⟩ := by
  decide

end SyncManager

end Sysio
