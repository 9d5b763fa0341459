import Sysio.Block
import Sysio.Data.OrderedList
import Sysio.Data.Run

/-!
# The signals of the controller

The plugins that follow a chain see it through the signals of the controller: `block_start`,
`applied_transaction`, `accepted_block` and `irreversible_block`.  `SignalChain` is a chain as far
as these signals tell, and `SignalChain.next` says which signal can come next and what it stands
for:

* `start_block` announces the number of the block that it starts.  A fork switch pops blocks, which
  nobody is told, and then starts a block with a lower number; irreversible blocks are never popped.
* `push_transaction` announces every transaction, with the number of the pending block, and with
  its id if the block came from elsewhere.  A block can also be aborted, about which there is no
  signal either.
* `commit_block` makes the pending block the head and announces it, and `log_irreversible` announces
  the irreversible blocks in order.

Two facts about transactions are part of the rules: an input transaction is not executed twice on
one chain (`record_transaction`), nor in a block after its expiration (`validate_expiration`).
-/

namespace Sysio

open List Option

/-! ### Traces -/

/-- `action_trace`, with the fields that the plugins read. -/
structure ExecutedAction where
  receiver : Name
  act : Action
  deriving DecidableEq, Repr

/-- `transaction_trace`, with the fields that the plugins read. -/
structure TransactionTrace where
  id : Sha256
  blockNum : ℕ
  producerBlockId : Option BlockId
  /-- The status in the receipt. -/
  receipt : Option TransactionStatus
  scheduled : Bool
  actionTraces : List ExecutedAction
  /-- The id in `failed_dtrx_trace`. -/
  failedDtrxId : Option Sha256
  deriving DecidableEq, Repr

/-- `"onblock"_n`. -/
def onblockName : Name := Name.ofChars "onblock".toList

def TransactionTrace.isOnblock (trace : TransactionTrace) : Bool :=
  match trace.actionTraces with
  | [] => false
  | first :: _ =>
    match first.act.authorization with
    | [auth] =>
      decide (first.act.account = sysioName ∧ first.act.name = onblockName ∧
        auth.actor = sysioName ∧ auth.permission = Name.ofChars "active".toList)
    | _ => false

/-! ### Chains -/

/-- A block, with the traces of the transactions that it has receipts for. -/
structure SignalBlock where
  num : ℕ
  /-- In microseconds. -/
  time : ℕ
  /-- The id of the block, if it was known before the block was executed. -/
  producerBlockId : Option BlockId
  transactions : List TransactionTrace
  deriving DecidableEq, Repr

/-- The block has an input transaction with this id. -/
def SignalBlock.Contains (b : SignalBlock) (id : Sha256) : Prop :=
  ∃ t ∈ b.transactions, t.id = id ∧ t.scheduled = false

instance (b : SignalBlock) (id : Sha256) : Decidable (b.Contains id) :=
  inferInstanceAs (Decidable (∃ t ∈ b.transactions, _))

/-- A chain as far as its signals tell. -/
structure SignalChain where
  /-- Newest first. -/
  blocks : List SignalBlock
  /-- The number of the last irreversible block. -/
  lib : ℕ
  pending : Option SignalBlock
  deriving DecidableEq, Repr

/-- A signal, or a change about which there is none. -/
inductive Signal
  /-- `block_start`.  The signal has only the number; the time and the id are those of the block. -/
  | blockStart (blockNum time : ℕ) (producerBlockId : Option BlockId)
  /-- `applied_transaction`, and whether the block gets a receipt for the transaction. -/
  | appliedTransaction (trace : TransactionTrace) (contained : Bool)
  /-- `accepted_block`. -/
  | acceptedBlock (blockNum : ℕ)
  /-- `irreversible_block`. -/
  | irreversibleBlock (blockNum time : ℕ)
  /-- `abort_block`. -/
  | abortBlock
  deriving DecidableEq, Repr

namespace SignalChain

def headNum (c : SignalChain) : ℕ := (c.blocks.head?.map SignalBlock.num).getD 0

/-- The blocks that are left when those from `blockNum` on are popped. -/
def blocksBefore (c : SignalChain) (blockNum : ℕ) : List SignalBlock :=
  c.blocks.filter fun b => decide (b.num < blockNum)

/-- When a block can be started on the blocks below it. -/
def Startable (c : SignalChain) (blockNum time : ℕ) : Prop :=
  c.lib < blockNum ∧ blockNum < 2 ^ 32 ∧
    ∃ b, (c.blocksBefore blockNum).head? = some b ∧ b.num + 1 = blockNum ∧ b.time < time

instance (c : SignalChain) (blockNum time : ℕ) : Decidable (c.Startable blockNum time) :=
  have : Decidable (∃ b, (c.blocksBefore blockNum).head? = some b ∧ b.num + 1 = blockNum ∧
      b.time < time) :=
    match h : (c.blocksBefore blockNum).head? with
    | some b => decidable_of_iff (b.num + 1 = blockNum ∧ b.time < time) (by simp)
    | none => .isFalse (by simp)
  inferInstanceAs (Decidable (_ ∧ _ ∧ _))

/-- When a transaction can be executed in the pending block `p`: an input transaction that the block
gets must not have expired, and must not be in a block already. -/
def Applicable (expiration : Sha256 → ℕ) (c : SignalChain) (p : SignalBlock)
    (trace : TransactionTrace) (contained : Bool) : Prop :=
  trace.blockNum = p.num ∧ trace.producerBlockId = p.producerBlockId ∧
    (contained = true → trace.receipt.isSome = true ∧ (trace.scheduled = false →
      p.time ≤ expiration trace.id ∧ ∀ b ∈ p :: c.blocks, ¬ b.Contains trace.id)) ∧
    (contained = false → trace.receipt = none ∨ trace.isOnblock = true)

instance (expiration : Sha256 → ℕ) (c : SignalChain) (p : SignalBlock) (trace : TransactionTrace)
    (contained : Bool) : Decidable (c.Applicable expiration p trace contained) :=
  inferInstanceAs (Decidable (_ ∧ _ ∧ (_ → _ ∧ (_ → _ ∧ _)) ∧ (_ → _)))

/-- The chain after a signal, if the signal can come. -/
def next (expiration : Sha256 → ℕ) (c : SignalChain) : Signal → Option SignalChain
  | .blockStart blockNum time producerBlockId =>
    if c.Startable blockNum time then
      some { c with
        blocks := c.blocksBefore blockNum
        pending := some ⟨blockNum, time, producerBlockId, []⟩ }
    else none
  | .appliedTransaction trace contained =>
    match c.pending with
    | none => none
    | some p =>
      if c.Applicable expiration p trace contained then
        some { c with
          pending := some { p with
            transactions := if contained then p.transactions ++ [trace] else p.transactions } }
      else none
  | .acceptedBlock blockNum =>
    match c.pending with
    | none => none
    | some p =>
      if blockNum = p.num then some { c with blocks := p :: c.blocks, pending := none } else none
  | .irreversibleBlock blockNum time =>
    if blockNum = c.lib + 1 ∧ ∃ b ∈ c.blocks, b.num = blockNum ∧ b.time = time then
      some { c with lib := blockNum }
    else none
  | .abortBlock => some { c with pending := none }

/-! ### What holds of every chain -/

/-- A block on the blocks below it: later in number and in time. -/
def Above (b b' : SignalBlock) : Prop := b'.num < b.num ∧ b'.time < b.time

/-- The transactions of a block belong to it, and those from outside have not expired. -/
def Genuine (expiration : Sha256 → ℕ) (b : SignalBlock) : Prop :=
  ∀ t ∈ b.transactions, t.blockNum = b.num ∧ t.producerBlockId = b.producerBlockId ∧
    (t.scheduled = false → b.time ≤ expiration t.id)

/-- What every chain satisfies. -/
structure Sound (expiration : Sha256 → ℕ) (c : SignalChain) : Prop where
  sorted : c.blocks.Pairwise Above
  num_pos : ∀ b ∈ c.blocks, 0 < b.num
  genuine : ∀ b ∈ c.blocks, Genuine expiration b
  lib_mem : ∃ b ∈ c.blocks, b.num = c.lib
  pending : ∀ p, c.pending = some p → p.num = c.headNum + 1 ∧ Genuine expiration p ∧
    ∀ b ∈ c.blocks, Above p b

variable {expiration : Sha256 → ℕ} {c c' : SignalChain}

lemma exists_pending {P : SignalBlock → Prop} [DecidablePred P] {f : SignalBlock → SignalChain}
    (h : (match c.pending with
      | none => none
      | some p => if P p then some (f p) else none) = some c') :
    ∃ p, c.pending = some p ∧ P p ∧ f p = c' := by
  split at h
  · cases h
  · next p hp => exact ⟨p, hp, by simpa using h⟩

lemma num_le_headNum (h : c.blocks.Pairwise Above) {b : SignalBlock} (hb : b ∈ c.blocks) :
    b.num ≤ c.headNum := by
  unfold headNum
  cases hblocks : c.blocks with
  | nil =>
    rw [hblocks] at hb
    cases hb
  | cons =>
    rw [hblocks] at h hb
    rcases mem_cons.mp hb with rfl | hb
    · exact le_refl _
    · exact (rel_of_pairwise_cons h hb).1.le

lemma above_of_num_lt (h : c.blocks.Pairwise Above) {b b' : SignalBlock} (hb : b ∈ c.blocks)
    (hb' : b' ∈ c.blocks) (hlt : b'.num < b.num) : Above b b' := by
  rcases eq_or_rel_of_pairwise h hb hb' with rfl | h | h
  · exact absurd hlt (lt_irrefl _)
  · exact h
  · exact absurd h.1 (Nat.lt_asymm hlt)

lemma mem_blocksBefore {n : ℕ} {b : SignalBlock} :
    b ∈ c.blocksBefore n ↔ b ∈ c.blocks ∧ b.num < n := by
  unfold blocksBefore
  rw [List.mem_filter, decide_eq_true_eq]

/-- **Every signal keeps the chain sound.** -/
theorem Sound.next (h : c.Sound expiration) {e : Signal} (hnext : c.next expiration e = some c') :
    c'.Sound expiration := by
  cases e with
  | blockStart n time producerBlockId =>
    simp only [SignalChain.next, ite_none_right_eq_some, some.injEq] at hnext
    obtain ⟨⟨hlib, -, b, hhead, hnum, htime⟩, rfl⟩ := hnext
    have hsorted : (c.blocksBefore n).Pairwise Above := h.sorted.filter _
    obtain ⟨root, hroot, hrootNum⟩ := h.lib_mem
    refine ⟨hsorted, fun b hb => h.num_pos b (mem_blocksBefore.mp hb).1,
      fun b hb => h.genuine b (mem_blocksBefore.mp hb).1,
      ⟨root, mem_blocksBefore.mpr ⟨hroot, hrootNum ▸ hlib⟩, hrootNum⟩, ?_⟩
    rintro p hp
    cases hp
    refine ⟨?_, fun t ht => absurd ht not_mem_nil, fun b' hb' => ?_⟩
    · simp only [headNum, hhead, map_some, getD_some, hnum]
    · -- the head of what is left is the last of its blocks
      have hb : b ∈ c.blocksBefore n := mem_of_mem_head? hhead
      refine ⟨(mem_blocksBefore.mp hb').2, ?_⟩
      rcases eq_or_ne b' b with rfl | hne
      · exact htime
      · obtain ⟨below, hbelow⟩ := head?_eq_some_iff.mp hhead
        rw [hbelow] at hb' hsorted
        have hmem := (mem_cons.mp hb').resolve_left hne
        exact (rel_of_pairwise_cons hsorted hmem).2.trans htime
  | appliedTransaction =>
    obtain ⟨p, hp, ⟨hblockNum, hproducer, happ, -⟩, rfl⟩ := exists_pending hnext
    obtain ⟨hnum, hgenuine, habove⟩ := h.pending p hp
    refine { h with pending := ?_ }
    rintro p' hp'
    cases hp'
    refine ⟨hnum, fun t ht => ?_, habove⟩
    dsimp only at ht ⊢
    split_ifs at ht with hcontained
    · rcases mem_append.mp ht with ht | ht
      · exact hgenuine t ht
      · obtain rfl := mem_singleton.mp ht
        exact ⟨hblockNum, hproducer, fun hs => ((happ hcontained).2 hs).1⟩
    · exact hgenuine t ht
  | acceptedBlock n =>
    obtain ⟨p, hp, -, rfl⟩ := exists_pending hnext
    obtain ⟨hnum, hgenuine, habove⟩ := h.pending p hp
    obtain ⟨root, hroot, hrootNum⟩ := h.lib_mem
    refine ⟨pairwise_cons.mpr ⟨habove, h.sorted⟩, ?_, ?_,
      ⟨root, mem_cons_of_mem _ hroot, hrootNum⟩, nofun⟩
    · exact forall_mem_cons.mpr ⟨by omega, h.num_pos⟩
    · exact forall_mem_cons.mpr ⟨hgenuine, h.genuine⟩
  | irreversibleBlock =>
    simp only [SignalChain.next, ite_none_right_eq_some, some.injEq] at hnext
    obtain ⟨⟨-, b, hb, hnum, -⟩, rfl⟩ := hnext
    exact { h with lib_mem := ⟨b, hb, hnum⟩ }
  | abortBlock =>
    cases hnext
    exact { h with pending := nofun }

/-! ### Irreversible blocks -/

/-- The irreversible blocks of `c` are blocks of `c'`, and irreversible there. -/
structure Extends (c c' : SignalChain) : Prop where
  lib_le : c.lib ≤ c'.lib
  mem_iff : ∀ b, b.num ≤ c.lib → (b ∈ c.blocks ↔ b ∈ c'.blocks)

lemma Extends.of_eq (hlib : c'.lib = c.lib) (hblocks : c'.blocks = c.blocks) : c.Extends c' := by
  refine ⟨hlib.ge, fun b _ => ?_⟩
  rw [hblocks]

lemma Extends.trans {c1 c2 c3 : SignalChain} (h : c1.Extends c2) (h' : c2.Extends c3) :
    c1.Extends c3 :=
  ⟨h.lib_le.trans h'.lib_le, fun b hb => (h.mem_iff b hb).trans (h'.mem_iff b (hb.trans h.lib_le))⟩

/-- **A signal leaves the irreversible blocks alone.** -/
theorem Sound.extends_next (h : c.Sound expiration) {e : Signal}
    (hnext : c.next expiration e = some c') : c.Extends c' := by
  cases e with
  | blockStart =>
    simp only [SignalChain.next, ite_none_right_eq_some, some.injEq] at hnext
    obtain ⟨⟨hlib, -⟩, rfl⟩ := hnext
    refine ⟨le_rfl, fun b hb => ?_⟩
    rw [mem_blocksBefore, and_iff_left (hb.trans_lt hlib)]
  | appliedTransaction =>
    obtain ⟨_, -, -, rfl⟩ := exists_pending hnext
    exact Extends.of_eq rfl rfl
  | acceptedBlock n =>
    obtain ⟨p, hp, -, rfl⟩ := exists_pending hnext
    obtain ⟨hnum, -⟩ := h.pending p hp
    obtain ⟨root, hroot, hrootNum⟩ := h.lib_mem
    have hle := num_le_headNum h.sorted hroot
    refine ⟨le_rfl, fun b hb => ?_⟩
    have hne : b ≠ p := by
      rintro rfl
      omega
    rw [mem_cons, or_iff_right hne]
  | irreversibleBlock =>
    simp only [SignalChain.next, ite_none_right_eq_some, some.injEq] at hnext
    obtain ⟨⟨rfl, -⟩, rfl⟩ := hnext
    exact ⟨Nat.le_succ _, fun _ _ => Iff.rfl⟩
  | abortBlock =>
    cases hnext
    exact Extends.of_eq rfl rfl

end SignalChain

end Sysio
