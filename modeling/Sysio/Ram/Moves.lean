import Mathlib.Tactic.Linarith
import Mathlib.Tactic.Ring
import Sysio.Ram.Objects

/-!
# What handlers ask for

Handlers ask the transaction context for exactly the change in size that they make, and they change
no objects but those that the call names.  So let every object have a home account.  While calls
name objects of one home only, the size of the objects of that home moves together with what has
been asked for, and all other objects stay as they are (`Moves`).
-/

namespace Sysio

open Result List Option Table

variable {a name permission sender : Name} {id primaryKey : UInt64}
  {activeSize authSize ownerSize senderId trxSize : ℕ} {activated : Bool}

open TransactionContext (ExecOp)

/-- The change in RAM that an operation asks for. -/
def TransactionContext.ExecOp.ramDelta : ExecOp → ℤ
  | .addRamUsage _ ramDelta => ramDelta
  | .newaccount _ ramDelta => ramDelta
  | _ => 0

/-- The account whose limits an operation sets. -/
def TransactionContext.ExecOp.limited : ExecOp → Option Name
  | .setResourceLimits account _ _ _ => some account
  | .newaccount name _ => some name
  | .reducepolicy owner _ _ _ _ => some owner
  | _ => none

/-! ### Homes -/

/-- The size of the objects whose home is the account. -/
def Objects.sizeAt (home : ObjectKey → Name) (objects : Objects) (a : Name) : ℤ :=
  objects.sumBy fun o => if home o.key = a then (o.size : ℤ) else 0

/-- Only the home of the object has been charged for it, and a deferred transaction also records it
as its payer. -/
structure BilledObject.Homed (home : ObjectKey → Name) (o : BilledObject) : Prop where
  charges : ∀ charge ∈ o.charges, charge.1 = home o.key
  payer : ∀ sender senderId, o.key = .deferred sender senderId → o.payer = home o.key

namespace RamExecution

/-- The objects that a call may create, change or remove. -/
def Call.keys : Call → List ObjectKey
  | .dbStoreI64 code scope table _ id _ | .dbRemoveI64 code scope table id =>
    [.table code scope table, .row none code scope table id]
  | .dbUpdateI64 code scope table _ id _ => [.row none code scope table id]
  | .indexStore index code scope table _ id | .indexRemove index code scope table id =>
    [.table code scope table, .row (some index) code scope table id]
  | .indexUpdate index code scope table _ id => [.row (some index) code scope table id]
  | .updateauth account permission _ | .deleteauth account permission =>
    [.permission account permission]
  | .linkauth account code type | .unlinkauth account code type => [.link account code type]
  | .setcode account _ => [.code account]
  | .setabi account _ => [.abi account]
  | .newaccount name _ _ =>
    [.account name, .permission name ownerName, .permission name activeName]
  | .scheduleDeferredTransaction sender senderId _ _ _ _
  | .cancelDeferredTransaction sender senderId => [.deferred sender senderId]
  | .scheduleTransaction senderId _ _ => [.deferred Name.empty senderId]
  | .addNetUsage _ | .setResourceLimits _ _ _ _ | .reducepolicy _ _ _ _ _ => []

/-- The account whose limits a call sets. -/
def Call.limited : Call → Option Name
  | .setResourceLimits account _ _ _ => some account
  | .newaccount name _ _ => some name
  | .reducepolicy owner _ _ _ _ => some owner
  | _ => none

/-- A deferred transaction that the call schedules records `c` as its payer, and it does not replace
another one without credit. -/
def Call.Records (c : Name) : Call → Prop
  | .scheduleDeferredTransaction _ _ payer _ replaceExisting activated =>
    payer = c ∧ (replaceExisting = true → activated = true)
  | .scheduleTransaction _ firstAuth _ => firstAuth = c
  | _ => True

instance (c : Name) (call : Call) : Decidable (call.Records c) := by
  cases call <;> unfold Call.Records <;> infer_instance

/-- The call only touches objects whose home is `c`. -/
def Call.AtHome (home : ObjectKey → Name) (c : Name) (call : Call) : Prop :=
  (∀ k ∈ call.keys, home k = c) ∧ call.Records c

instance (home : ObjectKey → Name) (c : Name) (call : Call) : Decidable (call.AtHome home c) :=
  inferInstanceAs (Decidable (_ ∧ _))

variable {home : ObjectKey → Name} {c : Name} {L : Name → Prop} {d d' : ℤ}
  {e e' e'' : RamExecution} {o t : BilledObject}

/-- A call that touches nothing is at home everywhere. -/
lemma Call.atHome_of_keys {call : Call} (h : call.keys = []) : call.AtHome home c := by
  refine ⟨fun k hk => absurd (h ▸ hk) not_mem_nil, ?_⟩
  cases call with
  | scheduleDeferredTransaction | scheduleTransaction => exact absurd h (cons_ne_nil _ _)
  | _ => trivial

/-! ### Moves -/

/-- The size of the objects at home at `c`, beyond what has been asked for. -/
def owed (home : ObjectKey → Name) (c : Name) (e : RamExecution) : ℤ :=
  e.objects.sizeAt home c - (e.ops.map ExecOp.ramDelta).sum

/-- From `e` to `e'` the objects at home at `c` have grown by `d` more than has been asked for.  The
other objects are the same, and limits are set of accounts in `L` only. -/
structure Moves (home : ObjectKey → Name) (c : Name) (L : Name → Prop) (d : ℤ)
    (e e' : RamExecution) : Prop where
  balance : e'.owed home c = e.owed home c + d
  others : ∀ o, home o.key ≠ c → (o ∈ e'.objects ↔ o ∈ e.objects)
  homed : (∀ o ∈ e.objects, o.Homed home) → ∀ o ∈ e'.objects, o.Homed home
  limited : ∀ op ∈ e'.ops, op ∈ e.ops ∨ ∀ a ∈ op.limited, L a

lemma Moves.refl (e : RamExecution) : Moves home c L 0 e e :=
  ⟨(add_zero _).symm, fun _ _ => Iff.rfl, fun h => h, fun _ h => .inl h⟩

lemma Moves.trans (h1 : Moves home c L d e e') (h2 : Moves home c L d' e' e'') :
    Moves home c L (d + d') e e'' := by
  refine ⟨?_, fun o ho => (h2.others o ho).trans (h1.others o ho), fun h => h2.homed (h1.homed h),
    fun op hop => ?_⟩
  · rw [h2.balance, h1.balance, add_assoc]
  · rcases h2.limited op hop with hop | hop
    · exact h1.limited op hop
    · exact .inr hop

lemma Moves.cancel (h1 : Moves home c L d e e') (h2 : Moves home c L d' e' e'') (hd : d + d' = 0) :
    Moves home c L 0 e e'' := hd ▸ h1.trans h2

/-! ### What the parts of handlers move -/

lemma moves_request (e : RamExecution) (op : ExecOp) (hL : ∀ a ∈ op.limited, L a) :
    Moves home c L (-op.ramDelta) e (e.request op) := by
  refine ⟨?_, fun _ _ => Iff.rfl, fun h => h, fun op' hop' => ?_⟩
  · simp only [owed, request, map_append, map_cons, map_nil, List.sum_append, sum_cons, sum_nil]
    ring
  · rcases mem_append.mp hop' with hop' | hop'
    · exact .inl hop'
    · exact .inr (mem_singleton.mp hop' ▸ hL)

lemma moves_addRamUsage (e : RamExecution) (account : Name) (ramDelta : ℤ) :
    Moves home c L (-ramDelta) e (e.addRamUsage account ramDelta) :=
  moves_request e (.addRamUsage account ramDelta) nofun

lemma moves_request_of_ramDelta {op : ExecOp} (hL : ∀ a ∈ op.limited, L a) (h : op.ramDelta = 0) :
    Moves home c L 0 e (e.request op) := by
  have hmoves : Moves home c L (-op.ramDelta) e (e.request op) := moves_request e op hL
  rwa [h, neg_zero] at hmoves

variable {key : ObjectKey} {payer account code scope table : Name} {size : ℕ}
  {index : Option SecondaryIndex} {replaceExisting : Bool}

lemma moves_create (hk : home key = c) (hp : ∀ s i, key = .deferred s i → payer = c)
    (h : e.create key payer size = .ok e') : Moves home c L size e e' := by
  simp only [create, bind_eq_ok, sysAssert_eq_ok, pure_eq_ok, isNone_iff_eq_none] at h
  obtain ⟨-, hnone, rfl⟩ := h
  refine ⟨?_, fun o ho => ?_, fun hall => ?_, fun _ h => .inl h⟩
  · simp only [owed, Objects.sizeAt]
    rw [sumBy_insert hnone, if_pos hk]
    ring
  · rw [Table.mem_insert hnone]
    exact or_iff_left fun heq => ho (heq ▸ hk)
  · refine (forall_mem_insert hnone).mpr ⟨hall, nofun, fun s i hkey => ?_⟩
    exact (hp s i hkey).trans hk.symm

/-- An object is changed, but not its home. -/
lemma moves_upsert {r : BilledObject} (ho : e.objects.find? r.key = some o) (hk : home r.key = c)
    (hr : o.Homed home → r.Homed home) :
    Moves home c L (r.size - o.size) e { e with objects := e.objects.upsert r } := by
  have hkey : o.key = r.key := key_eq_of_find? ho
  refine ⟨?_, fun o' ho' => ⟨fun h => ?_, fun h => ?_⟩, fun hall o' ho' => ?_, fun _ h => .inl h⟩
  · have hsum := sumBy_upsert (r := r) ho fun o => if home o.key = c then (o.size : ℤ) else 0
    rw [if_pos hk, if_pos (hkey ▸ hk)] at hsum
    simp only [owed, Objects.sizeAt]
    linarith
  · rcases mem_of_mem_upsert h with ⟨h, -⟩ | rfl
    · exact h
    · exact absurd hk ho'
  · exact mem_upsert_of_ne h fun heq => ho' (heq ▸ hk)
  · rcases mem_of_mem_upsert ho' with ⟨ho', -⟩ | rfl
    · exact hall o' ho'
    · exact hr (hall o (mem_of_find? ho))

lemma moves_replace (hk : home o.key = c) (ho : e.objects.find? o.key = some o)
    (hp : ∀ s i, o.key = .deferred s i → payer = o.payer) :
    Moves home c L (size - o.size) e (e.replace o payer size) := by
  refine moves_upsert (r := { o with payer := payer, size := size }) ho hk fun h => ?_
  exact ⟨h.charges, fun s i hkey => (hp s i hkey).trans (h.payer s i hkey)⟩

lemma moves_setCount (hk : home o.key = c) (ho : e.objects.find? o.key = some o) (count : ℕ) :
    Moves home c L 0 e (e.setCount o count) := by
  have hmoves : Moves home c L (o.size - o.size) e (e.setCount o count) :=
    moves_upsert (r := { o with count := count }) ho hk fun h => ⟨h.charges, h.payer⟩
  rwa [sub_self] at hmoves

lemma moves_remove (hk : home o.key = c) (ho : e.objects.find? o.key = some o) :
    Moves home c L (-o.size) e (e.remove o) := by
  refine ⟨?_, fun o' ho' => ?_, fun hall o' ho' => hall o' (mem_erase.mp ho').1, fun _ h => .inl h⟩
  · have hsum := sumBy_erase ho fun o => if home o.key = c then (o.size : ℤ) else 0
    rw [if_pos hk] at hsum
    simp only [owed, Objects.sizeAt, remove]
    linarith
  · exact mem_erase.trans (and_iff_left fun heq => ho' (heq ▸ hk))

/-! ### Handlers ask for what they do -/

lemma moves_removeBilled (hk : home o.key = c) (ho : e.objects.find? o.key = some o)
    (account : Name) : Moves home c L 0 e ((e.addRamUsage account (-o.size)).remove o) := by
  have hask : Moves home c L _ e _ := moves_addRamUsage e account (-o.size)
  have hremove : Moves home c L (-o.size) (e.addRamUsage account (-o.size))
      ((e.addRamUsage account (-o.size)).remove o) := moves_remove hk ho
  exact hask.cancel hremove (by ring)

lemma moves_createBilled (hk : home key = c) (hp : ∀ s i, key = .deferred s i → payer = c)
    (h : e.create key payer size = .ok e') :
    Moves home c L 0 e (e'.addRamUsage account size) :=
  (moves_create hk hp h).cancel (moves_addRamUsage e' account size) (by ring)

lemma moves_resize (hk : home o.key = c) (ho : e.objects.find? o.key = some o) :
    Moves home c L 0 e (e.resize o size) := by
  unfold resize
  split_ifs
  · have hask : Moves home c L _ e _ := moves_addRamUsage e o.payer ((size : ℤ) - o.size)
    have hreplace : Moves home c L (size - o.size) (e.addRamUsage o.payer ((size : ℤ) - o.size))
        ((e.addRamUsage o.payer ((size : ℤ) - o.size)).replace o o.payer size) :=
      moves_replace hk ho fun _ _ _ => rfl
    exact hask.cancel hreplace (by ring)
  · exact Moves.refl e

lemma moves_findOrCreateTable (hk : home (.table code scope table) = c)
    (h : e.findOrCreateTable code scope table payer = .ok (e', t)) :
    Moves home c L 0 e e' ∧ e'.objects.find? t.key = some t ∧ home t.key = c := by
  unfold findOrCreateTable at h
  cases hfind : e.objects.find? (.table code scope table) with
  | some t' =>
    simp only [hfind, pure_eq_ok, Prod.mk.injEq] at h
    obtain ⟨rfl, rfl⟩ := h
    have hkey : t'.key = .table code scope table := key_eq_of_find? hfind
    exact ⟨Moves.refl e, find?_key (mem_of_find? hfind), hkey ▸ hk⟩
  | none =>
    simp only [hfind, bind_eq_ok, pure_eq_ok, Prod.mk.injEq] at h
    obtain ⟨e1, hcreate, rfl, rfl⟩ := h
    have hmoves : Moves home c L 0 e e1 :=
      (moves_addRamUsage e payer tableIdObjectSize).cancel (moves_create hk nofun hcreate) (by ring)
    refine ⟨hmoves, ?_, hk⟩
    simp only [create, bind_eq_ok, sysAssert_eq_ok, pure_eq_ok, isNone_iff_eq_none] at hcreate
    obtain ⟨-, hnone, rfl⟩ := hcreate
    show Table.find? (Table.insert _ _) _ = _
    rw [find?_insert hnone, if_pos rfl]

lemma moves_storeRow (hkt : home (.table code scope table) = c)
    (hkr : home (.row index code scope table primaryKey) = c)
    (h : e.storeRow index code scope table payer primaryKey size = .ok e') :
    Moves home c L 0 e e' := by
  simp only [storeRow, bind_eq_ok, pure_eq_ok] at h
  obtain ⟨⟨e1, t⟩, htable, -, -, e2, hcreate, rfl⟩ := h
  obtain ⟨hfirst, ht, hk⟩ := moves_findOrCreateTable hkt htable
  have hcount : Moves home c L 0 e1 (e1.setCount t (t.count + 1)) := moves_setCount hk ht _
  exact (hfirst.cancel hcount rfl).cancel (moves_createBilled hkr nofun hcreate) rfl

lemma moves_updateRow (hk : home o.key = c) (ho : e.objects.find? o.key = some o)
    (hrow : ∀ s i, o.key ≠ .deferred s i) : Moves home c L 0 e (e.updateRow o payer size) := by
  simp only [updateRow]
  generalize (if payer = Name.empty then o.payer else payer) = payer'
  have hp : ∀ s i, o.key = .deferred s i → payer' = o.payer := fun s i h => absurd h (hrow s i)
  split_ifs
  · have hrefund : Moves home c L _ e _ := moves_addRamUsage e o.payer (-o.size)
    have hask : Moves home c L _ _ _ :=
      moves_addRamUsage (e.addRamUsage o.payer (-o.size)) payer' size
    have hreplace : Moves home c L (size - o.size) _
        (((e.addRamUsage o.payer (-o.size)).addRamUsage payer' size).replace o payer' size) :=
      moves_replace hk ho hp
    exact (hrefund.trans hask).cancel hreplace (by ring)
  · have hask : Moves home c L _ e _ := moves_addRamUsage e o.payer ((size : ℤ) - o.size)
    have hreplace : Moves home c L (size - o.size) _
        ((e.addRamUsage o.payer ((size : ℤ) - o.size)).replace o payer' size) :=
      moves_replace hk ho hp
    exact hask.cancel hreplace (by ring)
  · exact Moves.refl e

lemma moves_removeRow (hk : home o.key = c) (hkt : home t.key = c)
    (ho : e.objects.find? o.key = some o) (ht : e.objects.find? t.key = some t)
    (hne : t.key ≠ o.key) : Moves home c L 0 e (e.removeRow o t) := by
  have hrow : Moves home c L 0 e _ := moves_removeBilled hk ho o.payer
  have ht1 : ((e.addRamUsage o.payer (-o.size)).remove o).objects.find? t.key = some t := by
    show (e.objects.erase o.key).find? t.key = some t
    rw [find?_erase, if_neg hne, ht]
  have hcount := hrow.cancel (moves_setCount hkt ht1 (t.count - 1)) rfl
  simp only [removeRow]
  split_ifs
  · have ht2 : (((e.addRamUsage o.payer (-o.size)).remove o).setCount t (t.count - 1)).objects.find?
        t.key = some { t with count := t.count - 1 } := by
      show (Table.upsert _ { t with count := t.count - 1 }).find? t.key = _
      rw [find?_upsert, if_pos rfl]
    have htable : Moves home c L 0 _ _ :=
      moves_removeBilled (o := { t with count := t.count - 1 }) hkt ht2 t.payer
    exact hcount.cancel htable rfl
  · exact hcount

lemma get_eq_ok {type : ExceptionType} {what : String}
    (h : e.get key type what = .ok o) : e.objects.find? o.key = some o ∧ o.key = key := by
  have hfind : e.objects.find? key = some o := require_eq_ok.mp h
  exact ⟨find?_key (mem_of_find? hfind), key_eq_of_find? hfind⟩

lemma getRow_eq_ok (h : e.getRow index code scope table id = .ok (o, t)) :
    e.objects.find? o.key = some o ∧ e.objects.find? t.key = some t ∧
      o.key = .row index code scope table id ∧ t.key = .table code scope table := by
  simp only [getRow, bind_eq_ok, pure_eq_ok, Prod.mk.injEq] at h
  obtain ⟨o', ho, t', ht, rfl, rfl⟩ := h
  obtain ⟨ho, hokey⟩ := get_eq_ok ho
  obtain ⟨ht, htkey⟩ := get_eq_ok ht
  exact ⟨ho, ht, hokey, htkey⟩

lemma moves_setBytes (hk : home key = c) (hkey : ∀ s i, key ≠ .deferred s i)
    (h : e.setBytes key account size = .ok e') : Moves home c L 0 e e' := by
  unfold setBytes at h
  cases hfind : e.objects.find? key with
  | some o =>
    obtain rfl : o.key = key := key_eq_of_find? hfind
    simp only [hfind] at h
    split_ifs at h
    · rw [pure_eq_ok] at h
      exact h ▸ moves_removeBilled hk hfind o.payer
    · rw [pure_eq_ok] at h
      exact h ▸ moves_resize hk hfind
  | none =>
    simp only [hfind] at h
    split_ifs at h
    · rw [pure_eq_ok] at h
      exact h ▸ Moves.refl e
    · simp only [bind_eq_ok, pure_eq_ok] at h
      obtain ⟨e1, hcreate, rfl⟩ := h
      exact moves_createBilled hk (fun s i h => absurd h (hkey s i)) hcreate

lemma moves_updateauth (hk : home (.permission account permission) = c)
    (h : e.updateauth account permission authSize = .ok e') : Moves home c L 0 e e' := by
  unfold updateauth at h
  cases hfind : e.objects.find? (.permission account permission) with
  | some o =>
    simp only [hfind, pure_eq_ok] at h
    have hkey : o.key = .permission account permission := key_eq_of_find? hfind
    exact h ▸ moves_resize (hkey ▸ hk) (find?_key (mem_of_find? hfind))
  | none =>
    simp only [hfind, bind_eq_ok, pure_eq_ok] at h
    obtain ⟨e1, hcreate, rfl⟩ := h
    exact moves_createBilled hk nofun hcreate

lemma moves_linkauth {type : Name} (hk : home (.link account code type) = c)
    (h : e.linkauth account code type = .ok e') : Moves home c L 0 e e' := by
  unfold linkauth at h
  cases hfind : e.objects.find? (.link account code type) with
  | some o =>
    simp only [hfind, pure_eq_ok] at h
    exact h ▸ Moves.refl e
  | none =>
    simp only [hfind, bind_eq_ok, pure_eq_ok] at h
    obtain ⟨e1, hcreate, rfl⟩ := h
    exact moves_createBilled hk nofun hcreate

lemma moves_newaccount (hL : L name)
    (hk : ∀ k ∈ (Call.newaccount name ownerSize activeSize).keys, home k = c)
    (h : e.newaccount name ownerSize activeSize = .ok e') : Moves home c L 0 e e' := by
  simp only [newaccount, bind_eq_ok, pure_eq_ok] at h
  obtain ⟨e1, haccount, e2, howner, e3, hactive, rfl⟩ := h
  simp only [Call.keys, forall_mem_cons] at hk
  obtain ⟨hk1, hk2, hk3, -⟩ := hk
  have hthree : Moves home c L _ e e3 := ((moves_create hk1 (by simp) haccount).trans
    (moves_create hk2 (by simp) howner)).trans (moves_create hk3 (by simp) hactive)
  refine hthree.cancel (moves_request e3 _ fun a ha => ?_) ?_
  · exact some.inj ha ▸ hL
  · simp only [ExecOp.ramDelta]
    push_cast
    ring

lemma moves_replaceDeferred (hk : home o.key = c)
    (hreplace : replaceExisting = true → activated = true)
    (ho : e.objects.find? o.key = some o)
    (h : e.replaceDeferred o replaceExisting activated = .ok e') : Moves home c L 0 e e' := by
  simp only [replaceDeferred, bind_eq_ok, sysAssert_eq_ok, pure_eq_ok] at h
  obtain ⟨-, hexisting, rfl⟩ := h
  rw [if_pos (hreplace hexisting)]
  exact moves_removeBilled hk ho o.payer

lemma moves_scheduleDeferredTransaction (hk : home (.deferred sender senderId) = c)
    (hpayer : payer = c) (hreplace : replaceExisting = true → activated = true)
    (h : e.scheduleDeferredTransaction sender senderId payer trxSize replaceExisting activated =
      .ok e') : Moves home c L 0 e e' := by
  simp only [scheduleDeferredTransaction, bind_eq_ok, pure_eq_ok] at h
  obtain ⟨e1, hold, e2, hcreate, rfl⟩ := h
  have hfirst : Moves home c L 0 e e1 := by
    cases hfind : e.objects.find? (.deferred sender senderId) with
    | none =>
      rw [hfind, elim_none, pure_eq_ok] at hold
      exact hold ▸ Moves.refl e
    | some o =>
      rw [hfind, elim_some] at hold
      have hkey : o.key = .deferred sender senderId := key_eq_of_find? hfind
      exact moves_replaceDeferred (hkey ▸ hk) hreplace (find?_key (mem_of_find? hfind)) hold
  exact hfirst.cancel (moves_createBilled hk (fun _ _ _ => hpayer) hcreate) rfl

lemma moves_cancelDeferredTransaction (hk : home (.deferred sender senderId) = c) :
    Moves home c L 0 e (e.cancelDeferredTransaction sender senderId) := by
  unfold cancelDeferredTransaction
  cases hfind : e.objects.find? (.deferred sender senderId) with
  | none => exact Moves.refl e
  | some o =>
    have hkey : o.key = .deferred sender senderId := key_eq_of_find? hfind
    exact moves_removeBilled (hkey ▸ hk) (find?_key (mem_of_find? hfind)) o.payer

/-- **Every call asks for the change in size that it makes, and touches nothing but what it
names.** -/
theorem moves_call {call : Call} (hc : call.AtHome home c) (hL : ∀ a ∈ call.limited, L a)
    (h : e.call call = .ok e') : Moves home c L 0 e e' := by
  obtain ⟨hk, hrecords⟩ := hc
  cases call with
  | dbStoreI64 | indexStore =>
    simp only [Call.keys, forall_mem_cons] at hk
    exact moves_storeRow hk.1 hk.2.1 h
  | dbUpdateI64 | indexUpdate =>
    simp only [RamExecution.call, bind_eq_ok, pure_eq_ok] at h
    obtain ⟨⟨o, t⟩, hrow, rfl⟩ := h
    obtain ⟨ho, -, hkey, -⟩ := getRow_eq_ok hrow
    simp only [Call.keys, forall_mem_cons] at hk
    refine moves_updateRow (hkey ▸ hk.1) ho fun s i => ?_
    simp [hkey]
  | dbRemoveI64 | indexRemove =>
    simp only [RamExecution.call, bind_eq_ok, pure_eq_ok] at h
    obtain ⟨⟨o, t⟩, hrow, rfl⟩ := h
    obtain ⟨ho, ht, hkey, htkey⟩ := getRow_eq_ok hrow
    simp only [Call.keys, forall_mem_cons] at hk
    refine moves_removeRow (hkey ▸ hk.2.1) (htkey ▸ hk.1) ho ht ?_
    simp [hkey, htkey]
  | updateauth =>
    simp only [Call.keys, forall_mem_cons] at hk
    exact moves_updateauth hk.1 h
  | deleteauth account permission =>
    simp only [RamExecution.call, bind_eq_ok, pure_eq_ok] at h
    obtain ⟨o, hget, rfl⟩ := h
    obtain ⟨ho, hkey⟩ := get_eq_ok hget
    simp only [Call.keys, forall_mem_cons] at hk
    exact (moves_remove (hkey ▸ hk.1) ho).cancel (moves_addRamUsage _ account (-o.size)) (by ring)
  | linkauth =>
    simp only [Call.keys, forall_mem_cons] at hk
    exact moves_linkauth hk.1 h
  | unlinkauth =>
    simp only [RamExecution.call, bind_eq_ok, pure_eq_ok] at h
    obtain ⟨o, hget, rfl⟩ := h
    obtain ⟨ho, hkey⟩ := get_eq_ok hget
    simp only [Call.keys, forall_mem_cons] at hk
    exact moves_removeBilled (hkey ▸ hk.1) ho _
  | setcode =>
    simp only [RamExecution.call, setcode, bind_eq_ok] at h
    obtain ⟨-, -, h⟩ := h
    simp only [Call.keys, forall_mem_cons] at hk
    exact moves_setBytes hk.1 (by simp) h
  | setabi =>
    simp only [Call.keys, forall_mem_cons] at hk
    exact moves_setBytes hk.1 (by simp) h
  | newaccount name => exact moves_newaccount (hL name rfl) hk h
  | scheduleDeferredTransaction =>
    simp only [Call.keys, forall_mem_cons] at hk
    exact moves_scheduleDeferredTransaction hk.1 hrecords.1 hrecords.2 h
  | cancelDeferredTransaction =>
    simp only [RamExecution.call, pure_eq_ok] at h
    simp only [Call.keys, forall_mem_cons] at hk
    exact h ▸ moves_cancelDeferredTransaction hk.1
  | scheduleTransaction =>
    simp only [RamExecution.call, scheduleTransaction, bind_eq_ok, pure_eq_ok] at h
    obtain ⟨e1, hcreate, rfl⟩ := h
    simp only [Call.keys, forall_mem_cons] at hk
    exact moves_createBilled hk.1 (fun _ _ _ => hrecords) hcreate
  | addNetUsage =>
    simp only [RamExecution.call, pure_eq_ok] at h
    exact h ▸ moves_request_of_ramDelta (by simp [ExecOp.limited]) rfl
  | setResourceLimits | reducepolicy =>
    simp only [RamExecution.call, pure_eq_ok] at h
    exact h ▸ moves_request_of_ramDelta hL rfl

lemma moves_calls {cs : List Call} (hc : ∀ call ∈ cs, call.AtHome home c)
    (hL : ∀ call ∈ cs, ∀ a ∈ call.limited, L a) (h : cs.foldlM RamExecution.call e = .ok e') :
    Moves home c L 0 e e' := by
  induction cs generalizing e with
  | nil =>
    rw [foldlM_nil, pure_eq_ok] at h
    exact h ▸ Moves.refl e
  | cons call cs ih =>
    rw [foldlM_cons, bind_eq_ok] at h
    obtain ⟨e1, hcall, hrest⟩ := h
    rw [forall_mem_cons] at hc hL
    exact (moves_call hc.1 hL.1 hcall).cancel (ih hc.2 hL.2 hrest) rfl

end RamExecution

end Sysio
