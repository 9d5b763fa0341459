import Sysio.Data.Run
import Sysio.Types
import Mathlib.Data.List.MinMax

/-!
# The queue of unapplied transactions

Two counters shadow the queue: the bytes and the number of incoming transactions in it.  `added` and
`removed` keep them up to date, and they are exact on every run (`exact_of_run`) on which two things
do not happen.  An `add_incoming` that finds the queue full throws when the transaction is already
in the queue and counted, without its bytes; and `clear` empties the queue and leaves the counters
as they are (`exists_inexact`).
-/

namespace Sysio

open Result List

/-- `trx_enum_type`; the queue is only ever given the four last ones. -/
inductive TrxEnumType
  | unknown
  | forked
  | aborted
  | incomingApi
  | incomingP2p
  deriving DecidableEq, Repr

/-- What the queue reads of a `transaction_metadata`. -/
structure TransactionMetadata where
  id : Sha256
  /-- In seconds. -/
  expiration : ℕ
  /-- `get_unprunable_size()`, of a transaction for which it does not throw. -/
  unprunableSize : UInt32
  prunableSize : UInt32
  deriving DecidableEq, Repr

/-- An entry of the queue.  The function `next` is left out: it is told of an exception and does not
touch the queue. -/
structure UnappliedTransaction where
  trxMeta : TransactionMetadata
  trxType : TrxEnumType
  deriving DecidableEq, Repr

def UnappliedTransaction.isIncoming (u : UnappliedTransaction) : Bool :=
  decide (u.trxType = .incomingP2p ∨ u.trxType = .incomingApi)

/-- The queue, in the order of insertion, which is also the order of equal keys in its indices. -/
structure UnappliedTransactionQueue where
  queue : List UnappliedTransaction
  maxTransactionQueueSize : UInt64
  sizeInBytes : UInt64
  incomingCount : UInt64

namespace UnappliedTransactionQueue

def empty (maxTransactionQueueSize : UInt64) : UnappliedTransactionQueue :=
  ⟨[], maxTransactionQueueSize, 0, 0⟩

variable (sizeofTrx : UInt64) (q : UnappliedTransactionQueue) (u : UnappliedTransaction)

/-- `calc_size`, of which the first part is computed in 32 bits; `sizeofTrx` is `sizeof( *trx )`. -/
def calcSize (trx : TransactionMetadata) : UInt64 :=
  ((trx.unprunableSize + trx.prunableSize) * 2).toUInt64 + sizeofTrx

/-- The search by id. -/
def find? (id : Sha256) : Option UnappliedTransaction :=
  q.queue.find? fun u => decide (u.trxMeta.id = id)

/-- `added`, with the state that it leaves when it throws. -/
def added : UnappliedTransactionQueue × Result Unit :=
  let size := calcSize sizeofTrx u.trxMeta
  let q := if u.isIncoming then { q with incomingCount := q.incomingCount + 1 } else q
  if u.isIncoming ∧ ¬ q.sizeInBytes + size < q.maxTransactionQueueSize then
    (q, .error ⟨.txResourceExhaustion,
      "Transaction would exceed configured incoming-transaction-queue-size-mb"⟩)
  else ({ q with sizeInBytes := q.sizeInBytes + size }, .ok ())

/-- `queue.insert`, and `added` if the id is new. -/
def insert : UnappliedTransactionQueue × Result Unit :=
  if (q.find? u.trxMeta.id).isSome then (q, .ok ())
  else added sizeofTrx { q with queue := q.queue ++ [u] } u

/-- `removed`, and the erasure from the queue. -/
def remove : UnappliedTransactionQueue :=
  { q with
    queue := q.queue.erase u
    sizeInBytes := q.sizeInBytes - calcSize sizeofTrx u.trxMeta
    incomingCount := if u.isIncoming then q.incomingCount - 1 else q.incomingCount }

/-- The loops of `add_forked` and `add_aborted`; `added` does not throw for what they add. -/
def insertAll (type : TrxEnumType) (trxs : List TransactionMetadata) : UnappliedTransactionQueue :=
  trxs.foldl (fun q trx => (q.insert sizeofTrx ⟨trx, type⟩).1) q

/-- `add_forked`: the branch is in reverse order. -/
def addForked (branch : List (List TransactionMetadata)) : UnappliedTransactionQueue :=
  q.insertAll sizeofTrx .forked branch.reverse.flatten

def addAborted (trxs : List TransactionMetadata) : UnappliedTransactionQueue :=
  q.insertAll sizeofTrx .aborted trxs

/-- `add_incoming`: if the transaction is there, at most `next` is told. -/
def addIncoming (trx : TransactionMetadata) (apiTrx : Bool) :
    UnappliedTransactionQueue × Result Unit :=
  q.insert sizeofTrx ⟨trx, if apiTrx then .incomingApi else .incomingP2p⟩

/-- `clear_applied`, for the ids of the packed transactions of the block. -/
def clearApplied (ids : List Sha256) : UnappliedTransactionQueue :=
  ids.foldl (fun q id => ((q.find? id).map (q.remove sizeofTrx)).getD q) q

/-- The loop of `clear_expired`; `yield n` is what the `n`th call of `yield` returns.  Each turn
takes the first transaction by expiry out, so there are at most as many turns as transactions. -/
def clearExpiredLoop (pendingBlockTime : ℕ) (yield : ℕ → Bool) :
    ℕ → ℕ → UnappliedTransactionQueue → UnappliedTransactionQueue × Bool
  | 0, _, q => (q, true)
  | turns + 1, n, q =>
    match q.queue.argmin (·.trxMeta.expiration) with
    | none => (q, true)
    | some u =>
      if u.trxMeta.expiration * 1000000 > pendingBlockTime then (q, true)
      else if yield n then (q, false)
      else clearExpiredLoop pendingBlockTime yield turns (n + 1) (q.remove sizeofTrx u)

def clearExpired (pendingBlockTime : ℕ) (yield : ℕ → Bool) : UnappliedTransactionQueue × Bool :=
  clearExpiredLoop sizeofTrx pendingBlockTime yield q.queue.length 0 q

def clear : UnappliedTransactionQueue := { q with queue := [] }

inductive Event
  | addIncoming (trx : TransactionMetadata) (apiTrx : Bool)
  | addForked (branch : List (List TransactionMetadata))
  | addAborted (trxs : List TransactionMetadata)
  | clearApplied (ids : List Sha256)
  | clearExpired (pendingBlockTime : ℕ) (yield : ℕ → Bool)
  /-- `erase`, of an iterator at the transaction with the id. -/
  | erase (id : Sha256)
  | clear

/-- The queue after a call, also when it throws. -/
def next : Event → Option UnappliedTransactionQueue
  | .addIncoming trx apiTrx => some (q.addIncoming sizeofTrx trx apiTrx).1
  | .addForked branch => some (q.addForked sizeofTrx branch)
  | .addAborted trxs => some (q.addAborted sizeofTrx trxs)
  | .clearApplied ids => some (q.clearApplied sizeofTrx ids)
  | .clearExpired time yield => some (q.clearExpired sizeofTrx time yield).1
  | .erase id => (q.find? id).map (q.remove sizeofTrx)
  | .clear => some q.clear

/-! ### The counters -/

/-- The bytes of transactions, without a bound. -/
def bytes (trxs : List TransactionMetadata) : ℕ :=
  (trxs.map fun trx => (calcSize sizeofTrx trx).toNat).sum

/-- Both counters are what they count. -/
structure Exact : Prop where
  size : q.sizeInBytes.toNat = bytes sizeofTrx (q.queue.map (·.trxMeta))
  incoming : q.incomingCount.toNat = q.queue.countP (·.isIncoming)

/-- There is room for the transactions in 64-bit counters. -/
def Fits (trxs : List TransactionMetadata) : Prop :=
  bytes sizeofTrx (q.queue.map (·.trxMeta)) + bytes sizeofTrx trxs < 2 ^ 64 ∧
    q.queue.length + trxs.length < 2 ^ 64

/-- The call is not an `add_incoming` of a new transaction to a full queue, nor a `clear` of a queue
that holds transactions. -/
def Harmless : Event → Prop
  | .addIncoming trx _ => q.find? trx.id = none → q.Fits sizeofTrx [trx] ∧
      q.sizeInBytes + calcSize sizeofTrx trx < q.maxTransactionQueueSize
  | .addForked branch => q.Fits sizeofTrx branch.reverse.flatten
  | .addAborted trxs => q.Fits sizeofTrx trxs
  | .clear => q.queue = []
  | _ => True

variable {sizeofTrx q u} {q' : UnappliedTransactionQueue} {trxs : List TransactionMetadata}

lemma Exact.insert (h : q.Exact sizeofTrx)
    (hroom : q.find? u.trxMeta.id = none → q.Fits sizeofTrx [u.trxMeta] ∧ (u.isIncoming = true →
      q.sizeInBytes + calcSize sizeofTrx u.trxMeta < q.maxTransactionQueueSize)) :
    (q.insert sizeofTrx u).1.Exact sizeofTrx ∧ (q.insert sizeofTrx u).2 = .ok () ∧
      ∃ us, (q.insert sizeofTrx u).1.queue = q.queue ++ us ∧ us ⊆ [u] ∧ us.length ≤ 1 := by
  unfold UnappliedTransactionQueue.insert
  cases hfind : q.find? u.trxMeta.id with
  | some v => exact ⟨h, rfl, [], (append_nil _).symm, nil_subset _, Nat.zero_le _⟩
  | none =>
    obtain ⟨⟨hbytes, hlength⟩, hfull⟩ := hroom hfind
    have hcount : q.queue.countP (·.isIncoming) ≤ q.queue.length := countP_le_length
    have hsize : (q.sizeInBytes + calcSize sizeofTrx u.trxMeta).toNat =
        bytes sizeofTrx ((q.queue ++ [u]).map (·.trxMeta)) := by
      rw [UInt64.toNat_add, h.size, map_append]
      unfold bytes at *
      rw [map_append, sum_append_nat]
      exact Nat.mod_eq_of_lt hbytes
    rw [Option.isSome_none, if_neg Bool.false_ne_true, added]
    cases hu : u.isIncoming with
    | false =>
      refine ⟨⟨hsize, ?_⟩, rfl, [u], rfl, Subset.refl _, le_rfl⟩
      simpa [countP_append, hu] using h.incoming
    | true =>
      simp only [if_true, true_and, if_neg (not_not.mpr (hfull hu))]
      refine ⟨⟨hsize, ?_⟩, [u], rfl, Subset.refl _, le_rfl⟩
      rw [countP_append, countP_singleton, hu, if_pos rfl, UInt64.toNat_add, h.incoming]
      exact Nat.mod_eq_of_lt (lt_of_le_of_lt (Nat.add_le_add_right hcount 1) hlength)

lemma Exact.addIncoming {trx : TransactionMetadata} {apiTrx : Bool} (h : q.Exact sizeofTrx)
    (hh : q.Harmless sizeofTrx (.addIncoming trx apiTrx)) :
    (q.addIncoming sizeofTrx trx apiTrx).1.Exact sizeofTrx ∧
      (q.addIncoming sizeofTrx trx apiTrx).2 = .ok () := by
  obtain ⟨hexact, hok, -⟩ := h.insert (u := ⟨trx, if apiTrx then .incomingApi else .incomingP2p⟩)
    fun hnone => ⟨(hh hnone).1, fun _ => (hh hnone).2⟩
  exact ⟨hexact, hok⟩

lemma Exact.remove (h : q.Exact sizeofTrx) (hu : u ∈ q.queue) :
    (q.remove sizeofTrx u).Exact sizeofTrx := by
  have hperm := perm_cons_erase hu
  have hbytes : q.sizeInBytes.toNat = (calcSize sizeofTrx u.trxMeta).toNat +
      bytes sizeofTrx ((q.queue.erase u).map (·.trxMeta)) :=
    h.size.trans ((hperm.map _).map _).sum_nat
  have hcount := h.incoming.trans (hperm.countP_eq (·.isIncoming))
  rw [countP_cons] at hcount
  constructor
  · rw [UnappliedTransactionQueue.remove, UInt64.toNat_sub_of_le _ _
      (UInt64.le_iff_toNat_le.mpr (by omega)), hbytes, Nat.add_sub_cancel_left]
  · unfold UnappliedTransactionQueue.remove
    cases hi : u.isIncoming with
    | false => simpa [hi] using hcount
    | true =>
      rw [hi, if_pos rfl] at hcount
      dsimp only
      rw [if_pos rfl, UInt64.toNat_sub_of_le _ _ (UInt64.le_iff_toNat_le.mpr (by simp [hcount])),
        hcount]
      rfl

lemma Exact.insertAll {type : TrxEnumType} (htype : type = .forked ∨ type = .aborted)
    (h : q.Exact sizeofTrx) (hfits : q.Fits sizeofTrx trxs) :
    (q.insertAll sizeofTrx type trxs).Exact sizeofTrx := by
  induction trxs generalizing q with
  | nil => exact h
  | cons trx trxs ih =>
    obtain ⟨hbytes, hlength⟩ := hfits
    have hcons : bytes sizeofTrx (trx :: trxs) = bytes sizeofTrx [trx] + bytes sizeofTrx trxs := by
      simp [bytes]
    rw [length_cons] at hlength
    have hroom : q.Fits sizeofTrx [trx] := ⟨by omega, by simp; omega⟩
    obtain ⟨hexact, -, us, heq, hsub, hle⟩ := h.insert (u := ⟨trx, type⟩) fun _ => ⟨hroom, by
      rcases htype with rfl | rfl <;> nofun⟩
    have hus : bytes sizeofTrx (us.map (·.trxMeta)) ≤ bytes sizeofTrx [trx] := by
      match us, hle with
      | [], _ => exact Nat.zero_le _
      | [u], _ => rw [mem_singleton.mp (hsub mem_cons_self)]; rfl
    refine ih hexact ⟨?_, ?_⟩
    · have happ : ((q.queue ++ us).map fun u => (calcSize sizeofTrx u.trxMeta).toNat).sum =
          (q.queue.map fun u => (calcSize sizeofTrx u.trxMeta).toNat).sum +
            (us.map fun u => (calcSize sizeofTrx u.trxMeta).toNat).sum := by
        rw [map_append, sum_append_nat]
      rw [heq]
      simp only [bytes, map_append, map_map, Function.comp_def] at *
      omega
    · rw [heq, length_append]
      omega

lemma Exact.clearExpiredLoop {time : ℕ} {yield : ℕ → Bool} {turns n : ℕ} (h : q.Exact sizeofTrx) :
    (clearExpiredLoop sizeofTrx time yield turns n q).1.Exact sizeofTrx := by
  induction turns generalizing n q with
  | zero => exact h
  | succ turns ih =>
    rw [UnappliedTransactionQueue.clearExpiredLoop]
    cases hfirst : q.queue.argmin (·.trxMeta.expiration) with
    | none => exact h
    | some u =>
      dsimp only
      split_ifs
      · exact h
      · exact h
      · exact ih (h.remove (argmin_mem hfirst))

lemma Exact.next {e : Event} (h : q.Exact sizeofTrx) (hh : q.Harmless sizeofTrx e)
    (hnext : q.next sizeofTrx e = some q') : q'.Exact sizeofTrx := by
  cases e with
  | erase id =>
    obtain ⟨u, hfind, rfl⟩ := Option.map_eq_some_iff.mp hnext
    exact h.remove (mem_of_find?_eq_some hfind)
  | addIncoming => exact Option.some.inj hnext ▸ (h.addIncoming hh).1
  | addForked => exact Option.some.inj hnext ▸ h.insertAll (.inl rfl) hh
  | addAborted => exact Option.some.inj hnext ▸ h.insertAll (.inr rfl) hh
  | clearApplied ids =>
    refine Option.some.inj hnext ▸ foldlRecOn ids _ h fun q hq id _ => ?_
    cases hfind : q.find? id with
    | none => exact hq
    | some u => exact hq.remove (mem_of_find?_eq_some hfind)
  | clearExpired => exact Option.some.inj hnext ▸ h.clearExpiredLoop
  | clear =>
    obtain rfl := Option.some.inj hnext
    obtain ⟨hsize, hincoming⟩ := h
    have hnil : q.queue = [] := hh
    rw [hnil] at hsize hincoming
    exact ⟨hsize, hincoming⟩

/-- **The counters are exact**, and nothing is refused, as long as no call is harmful. -/
theorem exact_of_run {max : UInt64} {tr : List (Transition UnappliedTransactionQueue Event)}
    (hr : Run (fun q e q' => q.next sizeofTrx e = some q') (empty max) tr q)
    (hh : ∀ t ∈ tr, t.pre.Harmless sizeofTrx t.event) :
    q.Exact sizeofTrx ∧ ∀ t ∈ tr, t.pre.Exact sizeofTrx ∧ ∀ trx apiTrx e,
      t.event = .addIncoming trx apiTrx →
      (t.pre.addIncoming sizeofTrx trx apiTrx).2 = .error e → t.post = t.pre := by
  have h0 : (empty max).Exact sizeofTrx := ⟨rfl, rfl⟩
  obtain ⟨hq, htr⟩ := hr.forall_transition (C := fun q e _ => q.Harmless sizeofTrx e) h0
    (fun _ _ _ h hh hs => h.next hh hs) hh
  refine ⟨hq, fun t ht => ⟨(htr t ht).1, fun trx apiTrx e he herror => ?_⟩⟩
  have hroom := hh t ht
  rw [he] at hroom
  cases herror.symm.trans ((htr t ht).1.addIncoming hroom).2

def demoTrx (id : UInt64) (size : UInt32) : TransactionMetadata := ⟨⟨id, 0, 0, 0⟩, 10, size, 0⟩

/-- The theorem at a queue of 1 MiB that takes two transactions and gives up the first. -/
theorem exact_of_run_demo :
    ∃ tr q, Run (fun q e q' => q.next 64 e = some q') (empty (1024 * 1024)) tr q ∧
      tr.map (·.event) = [.addIncoming (demoTrx 1 300) true, .addIncoming (demoTrx 2 500) false,
        .erase (demoTrx 1 300).id] ∧
      q.queue.length = 1 ∧ q.sizeInBytes = 1064 ∧ q.Exact 64 := by
  have hr : Run (fun q e q' => q.next 64 e = some q') (empty (1024 * 1024))
      ((([] ++ [⟨_, .addIncoming (demoTrx 1 300) true, _⟩]) ++
        [⟨_, .addIncoming (demoTrx 2 500) false, _⟩]) ++ [⟨_, .erase (demoTrx 1 300).id, _⟩]) _ :=
    .snoc (.snoc (.snoc .nil rfl) rfl) rfl
  refine ⟨_, _, hr, rfl, rfl, rfl, (exact_of_run hr ?_).1⟩
  simp only [nil_append, cons_append, forall_mem_cons]
  refine ⟨fun _ => ?_, fun _ => ?_, trivial, fun _ h => absurd h not_mem_nil⟩
  · exact ⟨⟨by decide, by decide⟩, by decide⟩
  · exact ⟨⟨by decide, by decide⟩, by decide⟩

/-- A full queue keeps what it has refused, and takes bytes off that it has never added; a queue
that has been cleared keeps its counters. -/
theorem exists_inexact :
    (∃ tr q, Run (fun q e q' => q.next 64 e = some q') (empty (1024 * 1024)) tr q ∧
      q.queue = [] ∧
      tr.map (·.event) = [.addIncoming (demoTrx 1 600000) true, .erase (demoTrx 1 600000).id] ∧
      ((empty (1024 * 1024)).addIncoming 64 (demoTrx 1 600000) true).2 ≠ .ok () ∧
      ((empty (1024 * 1024)).addIncoming 64 (demoTrx 1 600000) true).1.queue ≠ [] ∧
      q.sizeInBytes.toNat = 2 ^ 64 - 1200064) ∧
    ∃ tr q, Run (fun q e q' => q.next 64 e = some q') (empty (1024 * 1024)) tr q ∧
      q.queue = [] ∧ tr.map (·.event) = [.addIncoming (demoTrx 1 300) true, .clear] ∧
      q.incomingCount = 1 ∧ q.sizeInBytes = 664 :=
  ⟨⟨_, _, .snoc (.snoc .nil rfl) rfl, by decide, rfl, by decide, by decide, by decide⟩,
    ⟨_, _, .snoc (.snoc .nil rfl) rfl, rfl, rfl, by decide, by decide⟩⟩

end UnappliedTransactionQueue

end Sysio
