import Sysio.ApplyContext.Basic
import Sysio.BlockHeaderState.Produce

/-!
# Read-only transactions

A read-only transaction has no undo session, and each place that writes checks for itself that the
transaction is not read-only.  Two places do not: `next_auth_sequence`, which draws a number for
every authorization of an action, and `apply_roa_reducepolicy`, which needs an authorization of the
issuer.  The actions of the transaction itself must not carry authorizations, but the inline actions
that contracts send may.

`Reached` are the actions that a transaction can lead to if nothing is written: its own ones, and
from each of them the notifications and the inline actions that its contract sends.

A `Frame` is an invariant of the state that survives what a read-only execution does besides making
receipts; `Frame.keeps_execOne` runs one action inside of it, `Frame.keeps_pushTransaction` the
whole transaction.  It is used for two invariants: that nothing has changed, as long as no inline
action that is sent carries an authorization (`frame_unwritten`), and that every action with an
authorization that has a receipt has written (`frame_receipts_written`).
-/

namespace Sysio.ApplyContext

open Result List HostCall BlockHeaderState

open Command

variable {Db α : Type} {env : ApplyEnv Db}

/-! ### What a transaction leads to -/

/-- The checks that `execute_inline` makes on an action in a read-only transaction. -/
def InlineChecked (env : ApplyEnv Db) (db : Db) (a : Action) : Prop :=
  env.isAccount db a.account = true ∧ a.authorization.forM (checkInlineLevel env db) = .ok ()

/-- The code of the receiver runs, and makes the call, which is one for actions with a context. -/
structure Calls (env : ApplyEnv Db) (db : Db) (t : ScheduledAction) (call : HostCall) : Prop where
  forwards : forwardsTo env db t.act t.receiver = true
  contextAware : t.contextFree = false
  mem : call ∈ env.code db t

/-- **The actions that a transaction leads to** on a database that stays as it is, whatever the
ordinals of their creators are. -/
inductive Reached (env : ApplyEnv Db) (db : Db) (trx : Transaction) : ScheduledAction → Prop
  | contextFreeAction {a : Action} (ha : a ∈ trx.contextFreeActions) :
    Reached env db trx ⟨a, a.account, true, 0⟩
  | action {a : Action} (ha : a ∈ trx.actions) : Reached env db trx ⟨a, a.account, false, 0⟩
  | notified {t : ScheduledAction} {recipient : Name} (ht : Reached env db trx t)
    (hcall : Calls env db t (.requireRecipient recipient)) (creator : ℕ) :
    Reached env db trx ⟨t.act, recipient, false, creator⟩
  | inline {t : ScheduledAction} {a : Action} (ht : Reached env db trx t)
    (hcall : Calls env db t (.sendInline a)) (hchecked : InlineChecked env db a) (creator : ℕ) :
    Reached env db trx ⟨a, a.account, false, creator⟩
  | contextFreeInline {t : ScheduledAction} {a : Action} (ht : Reached env db trx t)
    (hcall : Calls env db t (.sendContextFreeInline a)) (hnone : a.authorization = [])
    (creator : ℕ) : Reached env db trx ⟨a, a.account, true, creator⟩

/-! ### Traces and contexts -/

/-- The trace with the ordinal. -/
def At (s : Execution Db) (ordinal : ℕ) (t : ScheduledAction) : Prop :=
  ordinal ≠ 0 ∧ s.actionTraces[ordinal - 1]?.map ActionTrace.toScheduledAction = some t

/-- The accounts that the context notifies have their traces. -/
def Linked (ctx : ApplyContext) (s : Execution Db) : Prop :=
  ∀ p ∈ ctx.notified, ∃ t, At s p.2 t ∧ t.receiver = p.1 ∧ t.contextFree = ctx.contextFree

/-- The context runs the action. -/
structure Running (ctx : ApplyContext) (t : ScheduledAction) (s : Execution Db) : Prop where
  at_ordinal : At s ctx.actionOrdinal t
  receiver : t.receiver = ctx.receiver
  contextFree : t.contextFree = ctx.contextFree
  linked : Linked ctx s

section Traces

variable {s s' : Execution Db} {ctx ctx' : ApplyContext} {t : ScheduledAction} {ordinal : ℕ}

lemma At.exists_mem (h : At s ordinal t) :
    ∃ u ∈ s.actionTraces, u.toScheduledAction = t := by
  obtain ⟨u, hu, rfl⟩ := Option.map_eq_some_iff.mp h.2
  exact ⟨u, mem_of_getElem? hu, rfl⟩

lemma At.unique {t' : ScheduledAction} (h : At s ordinal t) (h' : At s ordinal t') : t = t' :=
  Option.some.inj (h.2.symm.trans h'.2)

/-- The state keeps all traces, but for their receipts. -/
def Extends (s s' : Execution Db) : Prop := ∀ ordinal t, At s ordinal t → At s' ordinal t

lemma Running.of_extends (h : Running ctx t s) (hs : Extends s s') : Running ctx t s' := by
  refine ⟨hs _ _ h.at_ordinal, h.receiver, h.contextFree, fun p hp => ?_⟩
  obtain ⟨u, hu, hrest⟩ := h.linked p hp
  exact ⟨u, hs _ _ hu, hrest⟩

lemma extends_of_actionTraces_eq (h : s'.actionTraces = s.actionTraces) : Extends s s' := by
  intro ordinal t ht
  rwa [At, h]

lemma at_append (u : ActionTrace) :
    At { s with actionTraces := s.actionTraces ++ [u] } (s.actionTraces.length + 1)
      u.toScheduledAction := by
  refine ⟨Nat.succ_ne_zero _, ?_⟩
  simp

lemma extends_append (u : ActionTrace) :
    Extends s { s with actionTraces := s.actionTraces ++ [u] } := by
  rintro ordinal t ⟨hne, ht⟩
  obtain ⟨v, hv, rfl⟩ := Option.map_eq_some_iff.mp ht
  refine ⟨hne, ?_⟩
  rw [getElem?_append_left (List.getElem?_eq_some_iff.mp hv).1, hv]
  rfl

/-- A receipt only marks the trace. -/
lemma extends_addReceipt (i : ℕ) : Extends s { s with
      actionTraces := s.actionTraces.modify i fun t => { t with hasReceipt := true } } := by
  rintro ordinal t ⟨hne, ht⟩
  refine ⟨hne, ?_⟩
  rw [getElem?_modify, ← ht]
  cases s.actionTraces[ordinal - 1]? with
  | none => rfl
  | some u =>
    show some (ActionTrace.toScheduledAction (if _ then _ else u)) = some u.toScheduledAction
    split_ifs <;> rfl

/-- Another account is notified. -/
lemma Running.notify (h : Running ctx t s) (hcf : ctx.contextFree = false) (recipient : Name) :
    let u : ActionTrace := ⟨⟨t.act, recipient, false, ctx.actionOrdinal⟩, false⟩
    Running { ctx with
      notified := ctx.notified ++ [(recipient, s.actionTraces.length + 1)] } t
      { s with actionTraces := s.actionTraces ++ [u] } := by
  intro u
  have h' := h.of_extends (extends_append u)
  refine ⟨h'.at_ordinal, h.receiver, h.contextFree, fun p hp => ?_⟩
  rcases mem_append.mp hp with hp | hp
  · exact h'.linked p hp
  · rw [mem_singleton.mp hp]
    exact ⟨_, at_append u, rfl, hcf.symm⟩

end Traces

/-! ### Frames -/

/-- **An invariant `I`** under which every scheduled action satisfies `A`, and which survives
whatever such actions do before their receipts are made. -/
structure Frame (env : ApplyEnv Db) (I : Execution Db → Prop) (A : ScheduledAction → Prop) :
    Prop where
  of_mem : ∀ {s : Execution Db} {t : ActionTrace}, I s → t ∈ s.actionTraces →
    A t.toScheduledAction
  notified : ∀ {s : Execution Db} {t : ScheduledAction} {recipient : Name} {creator : ℕ}, I s →
    A t → Calls env s.db t (.requireRecipient recipient) → A ⟨t.act, recipient, false, creator⟩
  inline : ∀ {s s' : Execution Db} {t : ScheduledAction} {a : Action} {creator : ℕ}, I s → I s' →
    A t → Calls env s.db t (.sendInline a) → InlineChecked env s'.db a →
    A ⟨a, a.account, false, creator⟩
  contextFreeInline : ∀ {s : Execution Db} {t : ScheduledAction} {a : Action} {creator : ℕ}, I s →
    A t → Calls env s.db t (.sendContextFreeInline a) → a.authorization = [] →
    A ⟨a, a.account, true, creator⟩
  schedule : ∀ {s : Execution Db} {t : ScheduledAction}, I s → A t →
    I { s with actionTraces := s.actionTraces ++ [⟨t, false⟩] }
  accountLimits : ∀ {s : Execution Db} {t : ScheduledAction}, I s → A t →
    t.act.authorization ≠ [] →
    I { s with
      db := env.write .accountLimits s.db
      writes := s.writes ++ [.accountLimits] }

variable {I P : Execution Db → Prop} {A : ScheduledAction → Prop} {Q : α → Execution Db → Prop}
  {trx : Transaction} {s₀ s s' : Execution Db} {ctx : ApplyContext} {t : ScheduledAction}

lemma keeps_lift_bind {β : Type} {r : Result β} {f : β → ExecM Db α}
    (h : ∀ b, r = .ok b → Keeps I P (f b) Q) : Keeps I P (lift r >>= f) Q := by
  cases r with
  | error e => exact keeps_bind (keeps_throw e : Keeps I P _ fun _ _ => False) fun _ _ _ h => h.elim
  | ok b => exact h b rfl

/-- Nothing comes after the check for read-only transactions. -/
lemma keeps_guardReadOnly_bind {e : ChainException} {f : Unit → ExecM Db α} :
    Keeps I P (guardReadOnly true e >>= f) Q :=
  keeps_lift_bind nofun

lemma keeps_getActionTrace (ordinal : ℕ) :
    Keeps I P (getActionTrace ordinal : ExecM Db ActionTrace) fun u s =>
      P s ∧ At s ordinal u.toScheduledAction := by
  refine keeps_get_bind fun s _ hp => ?_
  cases hu : (if ordinal = 0 then none else s.actionTraces[ordinal - 1]?) with
  | none => exact keeps_throw _
  | some u =>
    refine keeps_pure ?_
    rintro _ - rfl
    split_ifs at hu with hne
    exact ⟨hp, hne, by rw [hu]; rfl⟩

namespace Frame

variable (hI : Frame env I A)
include hI

lemma of_at {ordinal : ℕ} (hs : I s) (ht : At s ordinal t) : A t := by
  obtain ⟨u, hu, rfl⟩ := ht.exists_mem
  exact hI.of_mem hs hu

variable {a : Action} {receiver : Name} {contextFree : Bool} {creator : ℕ}

lemma keeps_scheduleAction {Q : ℕ → Execution Db → Prop}
    (hA : ∀ s, I s → P s → A ⟨a, receiver, contextFree, creator⟩)
    (hQ : ∀ s, I s → P s → Q (s.actionTraces.length + 1)
      { s with
        actionTraces := s.actionTraces ++ [⟨⟨a, receiver, contextFree, creator⟩, false⟩] }) :
    Keeps I P (scheduleAction a receiver contextFree creator : ExecM Db ℕ) Q := by
  refine keeps_get_bind fun s hs hp => ?_
  refine keeps_bind (Q := fun _ => Q (s.actionTraces.length + 1)) (keeps_modify ?_ ?_) fun _ =>
    keeps_pure fun _ _ hq => hq
  · rintro _ - rfl
    exact hI.schedule hs (hA _ hs hp)
  · rintro _ - rfl
    exact hQ _ hs hp

/-! ### The calls of a contract -/

omit hI in
lemma keeps_guardedCall (ctx : ApplyContext) (call : GuardedCall) :
    Keeps I P (guardedCall env true ctx call) fun _ => P := by
  refine keeps_lift_bind fun _ _ => keeps_get_bind fun s _ hp => ?_
  split_ifs
  · refine keeps_pure ?_
    rintro _ - rfl
    exact hp
  · exact keeps_guardReadOnly_bind

lemma keeps_requireRecipient {recipient : Name} (hcf : ctx.contextFree = false)
    (hs₀ : I s₀) (hA : A t) (hcall : Calls env s₀.db t (.requireRecipient recipient)) :
    Keeps I (Running ctx t) (requireRecipient ctx recipient) fun ctx' => Running ctx' t := by
  unfold requireRecipient
  split_ifs
  · exact keeps_pure fun _ _ hp => hp
  · refine keeps_bind (keeps_getActionTrace _) fun u => ?_
    refine keeps_bind (Q := fun ordinal => Running
      { ctx with notified := ctx.notified ++ [(recipient, ordinal)] } t)
      (hI.keeps_scheduleAction ?_ ?_) fun ordinal => keeps_pure fun _ _ hp => hp
    · -- the trace is still that of the action that runs
      intro s _ hp
      rw [hp.2.unique hp.1.at_ordinal]
      exact hI.notified hs₀ hA hcall
    · intro s _ hp
      rw [hp.2.unique hp.1.at_ordinal]
      exact hp.1.notify hcf recipient

lemma keeps_executeInline (hs₀ : I s₀) (hA : A t) (hcall : Calls env s₀.db t (.sendInline a)) :
    Keeps I (Running ctx t) (executeInline env true ctx a) fun ctx' => Running ctx' t := by
  refine keeps_get_bind fun s hs hp => ?_
  refine keeps_lift_bind fun _ haccount => keeps_lift_bind fun _ hlevels =>
    keeps_lift_bind fun _ _ => ?_
  have hchecked : InlineChecked env s.db a := ⟨sysAssert_eq_ok.mp haccount, hlevels⟩
  refine keeps_bind (Q := fun _ => Running ctx t) (hI.keeps_scheduleAction ?_ ?_) fun ordinal =>
    keeps_pure fun _ _ hr => ⟨hr.at_ordinal, hr.receiver, hr.contextFree, hr.linked⟩
  · exact fun _ _ _ => hI.inline hs₀ hs hA hcall hchecked
  · rintro _ - rfl
    exact hp.of_extends (extends_append _)

lemma keeps_executeContextFreeInline (hs₀ : I s₀) (hA : A t)
    (hcall : Calls env s₀.db t (.sendContextFreeInline a)) :
    Keeps I (Running ctx t) (executeContextFreeInline env ctx a) fun ctx' => Running ctx' t := by
  refine keeps_get_bind fun s _ hp => keeps_lift_bind fun _ _ => keeps_lift_bind fun _ hnone => ?_
  refine keeps_bind (Q := fun _ => Running ctx t) (hI.keeps_scheduleAction ?_ ?_) fun ordinal =>
    keeps_pure fun _ _ hr => ⟨hr.at_ordinal, hr.receiver, hr.contextFree, hr.linked⟩
  · exact fun _ _ _ => hI.contextFreeInline hs₀ hA hcall (sysAssert_eq_ok.mp hnone)
  · rintro _ - rfl
    exact hp.of_extends (extends_append _)

/-- A call of the code that was chosen in the state `s₀`. -/
lemma keeps_hostCall {call : HostCall} (hs₀ : I s₀) (hA : A t)
    (hforwards : forwardsTo env s₀.db t.act t.receiver = true) (hmem : call ∈ env.code s₀.db t) :
    Keeps I (Running ctx t) (hostCall env true ctx call) fun ctx' => Running ctx' t := by
  -- what needs a context is not reached in a context-free action
  have hcalls : Keeps I (fun s => Running ctx t s ∧ ctx.contextFree = false)
      (contextAwareCall env true ctx call) fun ctx' => Running ctx' t := by
    intro s hs hp
    have hcall : Calls env s₀.db t call := ⟨hforwards, hp.1.contextFree.trans hp.2, hmem⟩
    have hkeeps : Keeps I (Running ctx t) (contextAwareCall env true ctx call) fun ctx' =>
        Running ctx' t := by
      cases call with
      | query => exact keeps_pure fun _ _ h => h
      | fail e => exact keeps_throw e
      | guarded call =>
        exact keeps_bind (keeps_guardedCall ctx call) fun _ => keeps_pure fun _ _ h => h
      | requireRecipient => exact hI.keeps_requireRecipient hp.2 hs₀ hA hcall
      | sendInline => exact hI.keeps_executeInline hs₀ hA hcall
      | sendContextFreeInline => exact hI.keeps_executeContextFreeInline hs₀ hA hcall
    exact hkeeps s hs hp.1
  have hguarded : Keeps I (Running ctx t) (do
      lift (sysAssert (ctx.contextFree = false) .unaccessibleApi
        "only context free api's can be used in this context")
      contextAwareCall env true ctx call) fun ctx' => Running ctx' t :=
    keeps_lift_bind fun _ hcf => hcalls.of_pre fun _ _ h => ⟨h, sysAssert_eq_ok.mp hcf⟩
  cases call with
  | query => exact keeps_pure fun _ _ h => h
  | fail e => exact keeps_throw e
  | _ => exact hguarded

/-! ### One action -/

/-- The limits are only reached with an authorization of the issuer. -/
lemma keeps_reducepolicy (hA : A t) : Keeps I P (reducepolicy env true t.act) fun _ => P := by
  refine keeps_lift_bind fun issuer _ => keeps_lift_bind fun _ hauth => ?_
  refine keeps_get_bind fun s _ _ => keeps_lift_bind fun _ _ => ?_
  have hne : t.act.authorization ≠ [] := by
    obtain ⟨auth, hmem, -⟩ := sysAssert_eq_ok.mp hauth
    exact ne_nil_of_mem hmem
  refine keeps_bind (Q := fun _ _ => True) (keeps_modify (fun s hs _ => ?_) fun _ _ _ => trivial)
    fun _ => keeps_guardReadOnly_bind
  exact hI.accountLimits hs hA hne

lemma keeps_runHandler (hA : A t) (h : NativeHandler) :
    Keeps I P (runHandler env true t.act h) fun _ => P := by
  unfold runHandler
  split
  · exact keeps_guardReadOnly_bind
  · exact hI.keeps_reducepolicy hA

lemma keeps_runCode (hA : A t) :
    Keeps I (Running ctx t) (runCode env true ctx t) fun ctx' => Running ctx' t := by
  refine keeps_get_bind fun s hs hp => ?_
  have hstart : Keeps I (Running ctx t) (if forwardsTo env s.db t.act ctx.receiver then
      (env.code s.db t).foldlM (hostCall env true) ctx else pure ctx) fun ctx' =>
        Running ctx' t := by
    split_ifs with hforwards
    · rw [← hp.receiver] at hforwards
      exact keeps_foldlM (R := fun ctx' => Running ctx' t) fun ctx' call hmem =>
        hI.keeps_hostCall hs hA hforwards hmem
    · exact keeps_pure fun _ _ h => h
  refine hstart.of_pre ?_
  rintro _ - rfl
  exact hp

lemma keeps_runAction (hA : A t) :
    Keeps I (Running ctx t) (runAction env true ctx t) fun ctx' => Running ctx' t := by
  unfold runAction
  split_ifs
  · exact keeps_pure fun _ _ h => h
  · refine keeps_get_bind fun s _ hp => ?_
    refine Keeps.of_pre (W := Running ctx t) ?_ (by rintro _ - rfl; exact hp)
    refine keeps_bind (keeps_forM fun h _ => hI.keeps_runHandler hA h) fun _ => ?_
    exact (hI.keeps_runCode hA).of_pre fun _ _ h =>
      ⟨h.at_ordinal, h.receiver, h.contextFree, h.linked⟩

/-! ### The whole transaction -/

section Tree

variable (hreceipt : ∀ (ctx : ApplyContext) (t : ScheduledAction), A t →
  Keeps I (Running ctx t) (makeReceipt env true ctx t.act) fun _ => Running ctx t)
include hreceipt

/-- An invariant that also survives the receipts of actions with `A` is one of `exec_one`. -/
lemma keeps_execOne : Keeps I (fun s => ∃ t, Running ctx t s) (execOne env true ctx) Linked := by
  refine keeps_bind (keeps_getActionTrace _) fun u => ?_
  intro s hs hp
  obtain ⟨⟨t, ht⟩, hat⟩ := hp
  obtain rfl := hat.unique ht.at_ordinal
  have hA := hI.of_at hs hat
  refine Keeps.of_pre (P := (· = s)) (W := Running ctx u.toScheduledAction) ?_
    (by rintro _ - rfl; exact ht) s hs rfl
  refine keeps_get_bind fun s _ hp => keeps_lift_bind fun _ _ => ?_
  refine Keeps.of_pre (W := Running ctx u.toScheduledAction) ?_ (by rintro _ - rfl; exact hp)
  refine keeps_bind (hI.keeps_runAction hA) fun ctx' => ?_
  exact keeps_bind (hreceipt ctx' _ hA) fun _ => keeps_pure fun _ _ h => h.linked

lemma keeps_execNotified (fuel i : ℕ) (ctx : ApplyContext) :
    Keeps I (Linked ctx) (execNotified env true fuel i ctx) fun _ _ => True := by
  induction fuel generalizing i ctx with
  | zero => exact keeps_throw _
  | succ fuel ih =>
    unfold execNotified
    split
    next => exact keeps_pure fun _ _ _ => trivial
    next receiver ordinal hp =>
      refine keeps_bind ((hI.keeps_execOne hreceipt).of_pre fun s _ hlinked => ?_) fun ctx' =>
        ih (i + 1) ctx'
      obtain ⟨t, hat, hreceiver, hcf⟩ := hlinked _ (mem_of_getElem? hp)
      exact ⟨t, hat, hreceiver, hcf, hlinked⟩

/-- The induction over the tree of actions, which is on the fuel. -/
lemma keeps_executeAction (fuel ordinal recurseDepth : ℕ) :
    Keeps I (fun _ => True) (executeAction env true fuel ordinal recurseDepth)
      fun _ _ => True := by
  induction fuel generalizing ordinal recurseDepth with
  | zero => exact keeps_throw _
  | succ fuel ih =>
    refine keeps_bind (keeps_getActionTrace ordinal) fun u => ?_
    refine keeps_bind ((hI.keeps_execNotified hreceipt fuel 0 _).of_pre fun s _ hp => ?_)
      fun ctx => keeps_get_bind fun s _ _ => keeps_lift_bind fun _ _ => ?_
    · -- the context starts with the trace of its own action
      intro p hmem
      rw [mem_singleton.mp hmem]
      exact ⟨_, hp.2, rfl, rfl⟩
    · refine Keeps.of_pre (W := fun _ => True) ?_ fun _ _ _ => trivial
      refine keeps_bind (keeps_forM fun o _ => ih o (recurseDepth + 1)) fun _ => ?_
      exact keeps_forM fun o _ => ih o (recurseDepth + 1)

lemma keeps_exec (fuel : ℕ) {trx : Transaction} (hdelay : trx.delaySec = 0)
    (hcfa : ∀ a ∈ trx.contextFreeActions, A ⟨a, a.account, true, 0⟩)
    (hactions : ∀ a ∈ trx.actions, A ⟨a, a.account, false, 0⟩) :
    Keeps I (fun _ => True) (exec env true fuel trx) fun _ _ => True := by
  have hschedule : ∀ (l : List Action) (contextFree : Bool),
      (∀ a ∈ l, A ⟨a, a.account, contextFree, 0⟩) →
      Keeps I (fun _ => True) (l.forM fun a => do
        let _ ← (scheduleAction a a.account contextFree 0 : ExecM Db ℕ)
        pure ()) fun _ _ => True := by
    intro l contextFree hl
    refine keeps_forM fun a ha => ?_
    exact keeps_bind (Q := fun _ _ => True)
      (hI.keeps_scheduleAction (fun _ _ _ => hl a ha) fun _ _ _ => trivial)
      fun _ => keeps_pure fun _ _ _ => trivial
  refine keeps_bind (hschedule _ _ hcfa) fun _ => ?_
  rw [scheduledActions, if_pos hdelay]
  refine keeps_bind (hschedule _ _ hactions) fun _ => keeps_get_bind fun s _ _ => ?_
  refine Keeps.of_pre (W := fun _ => True) ?_ fun _ _ _ => trivial
  refine keeps_bind (keeps_forM fun i _ => hI.keeps_executeAction hreceipt fuel (i + 1) 0) fun _ =>
    keeps_get_bind fun s _ _ => ?_
  rw [if_pos hdelay]
  exact keeps_pure fun _ _ _ => trivial

end Tree

end Frame

/-- The actions of a checked read-only transaction carry no authorizations. -/
lemma no_authorization_of_validate {db : Db}
    (h : validateReferencedAccounts env true db trx = .ok ()) :
    ∀ a ∈ trx.contextFreeActions ++ trx.actions, a.authorization = [] := by
  simp only [validateReferencedAccounts, bind_eq_ok] at h
  obtain ⟨_, hcfa, _, hactions, _⟩ := h
  intro a ha
  rcases mem_append.mp ha with hmem | hmem
  · have hchecks := forM_eq_ok.mp hcfa _ hmem
    simp only [bind_eq_ok, sysAssert_eq_ok] at hchecks
    obtain ⟨_, _, hnone⟩ := hchecks
    exact hnone
  · have hchecks := forM_eq_ok.mp hactions _ hmem
    simp only [checkReferencedAccounts, bind_eq_ok, sysAssert_eq_ok] at hchecks
    obtain ⟨_, _, _, hnone, _⟩ := hchecks
    exact hnone trivial

/-- The transaction's own actions carry no authorizations, by the checks or by themselves. -/
def InputChecked (env : ApplyEnv Db) (trx : Transaction) : Prop :=
  env.skipTrxChecks = false ∨ ∀ a ∈ trx.contextFreeActions ++ trx.actions, a.authorization = []

/-- `init_for_input_trx` only checks a read-only transaction. -/
lemma keeps_initForInputTrx_bind {f : Unit → ExecM Db α}
    (h : trx.delaySec = 0 → (InputChecked env trx →
      ∀ a ∈ trx.contextFreeActions ++ trx.actions, a.authorization = []) →
      Keeps I (fun _ => True) (f ()) Q) :
    Keeps I (fun _ => True) (initForInputTrx env true trx >>= f) Q := by
  refine keeps_bind (Q := fun _ _ => trx.delaySec = 0 ∧ (InputChecked env trx →
    ∀ a ∈ trx.contextFreeActions ++ trx.actions, a.authorization = [])) ?_ fun _ s hs hp =>
      h hp.1 hp.2 s hs trivial
  refine keeps_get_bind fun s _ _ => keeps_lift_bind fun _ hdelay =>
    keeps_lift_bind fun _ hvalid => ?_
  refine keeps_pure fun _ _ _ => ⟨sysAssert_eq_ok.mp hdelay (.inr rfl), fun hinput => ?_⟩
  rcases hinput with hskip | hnone
  · rw [if_neg (by rw [hskip]; exact Bool.false_ne_true)] at hvalid
    exact no_authorization_of_validate hvalid
  · exact hnone

lemma Frame.keeps_pushTransaction (hI : Frame env I A)
    (hreceipt : ∀ (ctx : ApplyContext) (t : ScheduledAction), A t →
      Keeps I (Running ctx t) (makeReceipt env true ctx t.act) fun _ => Running ctx t)
    (fuel : ℕ) (hown : (InputChecked env trx →
        ∀ a ∈ trx.contextFreeActions ++ trx.actions, a.authorization = []) →
      (∀ a ∈ trx.contextFreeActions, A ⟨a, a.account, true, 0⟩) ∧
        ∀ a ∈ trx.actions, A ⟨a, a.account, false, 0⟩) :
    Keeps I (fun _ => True) (pushTransaction env true fuel trx) fun _ _ => True := by
  refine keeps_initForInputTrx_bind fun hdelay hnone => ?_
  obtain ⟨hcfa, hactions⟩ := hown hnone
  refine keeps_bind (hI.keeps_exec hreceipt fuel hdelay hcfa hactions) fun _ => ?_
  refine keeps_bind (Q := fun _ _ => True) (keeps_get_bind fun s _ _ => ?_) fun _ => ?_
  · exact keeps_pure fun _ _ _ => trivial
  · exact keeps_pure fun _ _ _ => trivial

/-! ### Without authorizations -/

/-- Nothing has changed but the traces. -/
structure Untouched (s₀ s : Execution Db) : Prop where
  db : s.db = s₀.db
  writes : s.writes = s₀.writes
  block : s.block = s₀.block

/-- The transaction leads to the action, which carries no authorization. -/
def Clean (env : ApplyEnv Db) (db : Db) (trx : Transaction) (t : ScheduledAction) : Prop :=
  Reached env db trx t ∧ t.act.authorization = []

/-- Nothing has changed but the traces, and these are of actions without authorizations. -/
structure Unwritten (env : ApplyEnv Db) (trx : Transaction) (s₀ s : Execution Db) : Prop
    extends Untouched s₀ s where
  clean : ∀ t ∈ s.actionTraces, Clean env s₀.db trx t.toScheduledAction

/-- **No inline action that is sent in the transaction carries an authorization.** -/
def SendsNone (env : ApplyEnv Db) (db : Db) (trx : Transaction) : Prop :=
  ∀ t a, Reached env db trx t → Calls env db t (.sendInline a) → InlineChecked env db a →
    a.authorization = []

lemma frame_unwritten (hsends : SendsNone env s₀.db trx) :
    Frame env (Unwritten env trx s₀) (Clean env s₀.db trx) where
  of_mem hs ht := hs.clean _ ht
  notified hs ht hcall := ⟨ht.1.notified (hs.db ▸ hcall) _, ht.2⟩
  inline hs hs' ht hcall hchecked := by
    rw [hs.db] at hcall
    rw [hs'.db] at hchecked
    exact ⟨ht.1.inline hcall hchecked _, hsends _ _ ht.1 hcall hchecked⟩
  contextFreeInline hs ht hcall hnone :=
    ⟨ht.1.contextFreeInline (hs.db ▸ hcall) hnone _, hnone⟩
  schedule := by
    intro s t hs ht
    refine { hs with clean := fun u hu => ?_ }
    rcases mem_append.mp hu with hu | hu
    · exact hs.clean u hu
    · rwa [mem_singleton.mp hu]
  accountLimits _ ht hne := absurd ht.2 hne

lemma Unwritten.addReceipt (hs : Unwritten env trx s₀ s) (i : ℕ) :
    Unwritten env trx s₀ { s with
      actionTraces := s.actionTraces.modify i fun t => { t with hasReceipt := true } } := by
  refine { hs with clean := fun t ht => ?_ }
  obtain ⟨j, hj⟩ := mem_iff_getElem?.mp ht
  rw [getElem?_modify, Option.map_eq_map, Option.map_eq_some_iff] at hj
  obtain ⟨u, hu, rfl⟩ := hj
  have hclean := hs.clean u (mem_of_getElem? hu)
  split_ifs
  · exact hclean
  · exact hclean

/-- No sequence number is drawn for an action without authorizations. -/
lemma keeps_makeReceipt_unwritten (ctx : ApplyContext) (ht : Clean env s₀.db trx t) :
    Keeps (Unwritten env trx s₀) (Running ctx t) (makeReceipt env true ctx t.act)
      fun _ => Running ctx t := by
  have hpure : Keeps (Unwritten env trx s₀) (Running ctx t) (pure () : ExecM Db Unit)
      fun _ => Running ctx t := keeps_pure fun _ _ h => h
  refine keeps_bind hpure fun _ => keeps_bind hpure fun _ => ?_
  refine keeps_get_bind fun s _ hp => keeps_lift_bind fun _ _ => ?_
  refine Keeps.of_pre (W := Running ctx t) ?_ (by rintro _ - rfl; exact hp)
  rw [ht.2]
  exact keeps_bind hpure fun _ => keeps_modify (fun s hs _ => hs.addReceipt _)
    fun s _ h => h.of_extends (extends_addReceipt _)

/-! ### With an authorization -/

/-- Something was written since, if the authorizations are not empty. -/
abbrev WrittenFor (n : ℕ) (authorization : List PermissionLevel) (s : Execution Db) : Prop :=
  authorization ≠ [] → n < s.writes.length

/-- Nothing is taken back from the first `n` writes, and every action with a receipt and an
authorization has written more. -/
structure ReceiptsWritten (n : ℕ) (s : Execution Db) : Prop where
  le : n ≤ s.writes.length
  written : ∀ t ∈ s.actionTraces, t.hasReceipt = true → WrittenFor n t.act.authorization s

lemma ReceiptsWritten.perform {n : ℕ} (hs : ReceiptsWritten n s) (db : Db)
    (ws : List DatabaseWrite) : ReceiptsWritten n { s with db, writes := s.writes ++ ws } := by
  have hle : s.writes.length ≤ (s.writes ++ ws).length := by
    rw [length_append]
    exact Nat.le_add_right _ _
  exact ⟨hs.le.trans hle, fun t ht hr hne => (hs.written t ht hr hne).trans_le hle⟩

lemma frame_receipts_written (n : ℕ) :
    Frame env (ReceiptsWritten n) fun _ => True where
  of_mem _ _ := trivial
  notified _ _ _ := trivial
  inline _ _ _ _ _ := trivial
  contextFreeInline _ _ _ _ := trivial
  schedule := by
    intro s t hs _
    refine ⟨hs.le, fun u hu hr => ?_⟩
    rcases mem_append.mp hu with hu | hu
    · exact hs.written u hu hr
    · rw [mem_singleton.mp hu] at hr
      cases hr
  accountLimits hs _ _ := hs.perform _ _

/-- The trace of an action that has written may be marked. -/
lemma ReceiptsWritten.addReceipt {n : ℕ} (hs : ReceiptsWritten n s) {ordinal : ℕ}
    (hat : At s ordinal t) (hw : WrittenFor n t.act.authorization s) :
    ReceiptsWritten n { s with
      actionTraces :=
        s.actionTraces.modify (ordinal - 1) fun t => { t with hasReceipt := true } } := by
  refine ⟨hs.le, fun u hu hr => ?_⟩
  obtain ⟨j, hj⟩ := mem_iff_getElem?.mp hu
  rw [getElem?_modify, Option.map_eq_map, Option.map_eq_some_iff] at hj
  obtain ⟨v, hv, rfl⟩ := hj
  split_ifs at hr ⊢ with heq
  · -- the trace that is marked is that of the action
    have ht := hat.2
    rw [heq, hv] at ht
    obtain rfl : v.toScheduledAction = t := Option.some.inj ht
    exact hw
  · exact hs.written v (mem_of_getElem? hv) hr

/-- A number is drawn for every authorization. -/
lemma keeps_nextAuthSequences (n : ℕ) (ctx : ApplyContext) (auths : List PermissionLevel) :
    Keeps (ReceiptsWritten n) (Running ctx t)
      (auths.forM fun auth => nextAuthSequence env auth.actor)
      fun _ s => Running ctx t s ∧ WrittenFor n auths s := by
  have hone : ∀ (auth : PermissionLevel) (P : Execution Db → Prop),
      (∀ s (db : Db) ws, P s → P { s with db, writes := s.writes ++ ws }) →
      Keeps (ReceiptsWritten n) P (nextAuthSequence env auth.actor) fun _ s =>
        P s ∧ n < s.writes.length := by
    intro auth P hstable
    refine keeps_get_bind fun s hs hp => keeps_lift_bind fun _ _ => keeps_modify ?_ ?_
    · rintro _ - rfl
      exact hs.perform _ _
    · rintro _ - rfl
      refine ⟨hstable _ _ _ hp, ?_⟩
      show n < (_ ++ [_]).length
      rw [length_append, length_singleton]
      exact Nat.lt_succ_of_le hs.le
  have hrunning : ∀ s (db : Db) ws, Running ctx t s →
      Running ctx t { s with db, writes := s.writes ++ ws } := fun s db ws h =>
    h.of_extends (extends_of_actionTraces_eq rfl)
  cases auths with
  | nil => exact keeps_pure fun _ _ h => ⟨h, fun hne => absurd rfl hne⟩
  | cons auth auths =>
    refine keeps_bind (hone auth _ hrunning) fun _ => ?_
    refine (keeps_forM (P := fun s => Running ctx t s ∧ n < s.writes.length)
      fun auth' _ => ?_).of_post fun _ _ h => ⟨h.1, fun _ => h.2⟩
    exact (hone auth' _ hrunning).of_pre fun _ _ h => h.1

/-- An action that gets its receipt has written, if it carries an authorization. -/
lemma keeps_makeReceipt_written (n : ℕ) (ctx : ApplyContext) (t : ScheduledAction) :
    Keeps (ReceiptsWritten n) (Running ctx t) (makeReceipt env true ctx t.act)
      fun _ => Running ctx t := by
  have hpure : Keeps (ReceiptsWritten n) (Running ctx t) (pure () : ExecM Db Unit)
      fun _ => Running ctx t := keeps_pure fun _ _ h => h
  refine keeps_bind hpure fun _ => keeps_bind hpure fun _ => ?_
  refine keeps_get_bind fun s _ hp => keeps_lift_bind fun _ _ => ?_
  refine Keeps.of_pre (W := Running ctx t) ?_ (by rintro _ - rfl; exact hp)
  exact keeps_bind (keeps_nextAuthSequences n ctx _) fun _ =>
    keeps_modify (fun s hs h => hs.addReceipt h.1.at_ordinal h.2)
      fun s _ h => h.1.of_extends (extends_addReceipt _)

/-! ### The theorem -/

/-- The contract that the transaction calls. -/
def demoSender : Name := ⟨7⟩

/-- Another contract, which sends an inline action with an authorization. -/
def demoBystander : Name := ⟨8⟩

/-- The account that is notified and that the inline action is for. -/
def demoReceiver : Name := ⟨9⟩

def demoInline (authorization : List PermissionLevel) : Action :=
  ⟨demoReceiver, ⟨1⟩, authorization, []⟩

/-- What the two contracts do: `demoSender` notifies an account and sends an inline action. -/
def demoCode (authorization : List PermissionLevel) (receiver : Name) : List HostCall :=
  if receiver = demoSender then
    [.requireRecipient demoReceiver, .sendInline (demoInline authorization)]
  else if receiver = demoBystander then [.sendInline (demoInline [⟨demoBystander, ⟨1⟩⟩])]
  else []

/-- A database that counts its writes, with the two contracts. -/
def demoApplyEnv (authorization : List PermissionLevel) : ApplyEnv ℕ where
  isAccount _ _ := true
  hasPermission _ _ := true
  isPrivileged _ _ := false
  hasCode _ a := decide (a = demoSender ∨ a = demoBystander)
  maxInlineActionDepth _ := 4
  isBuiltinActivated _ _ := false
  skipTrxChecks := false
  skipAuthCheck := false
  checkAuthorization _ _ _ := .ok ()
  code _ t := demoCode authorization t.receiver
  callBody _ _ _ := .ok [.object 0]
  handlerBody _ _ _ := .ok [.object 0]
  reducepolicyIssuer _ := .ok demoSender
  checkReduction _ _ := .ok ()
  initBody _ _ := .ok [.transactionObject]
  scheduleBody _ _ := .ok [.object 0]
  finalizeBody _ _ := .ok [.object 0]
  write _ db := db + 1
  pushReceipt block := block

/-- A transaction with one action, which carries no authorization. -/
def demoQuery : Transaction := ⟨0, [], [⟨demoSender, ⟨1⟩, [], []⟩]⟩

/-- A block on top of the genesis block. -/
def demoBuildingBlock : BuildingBlock where
  pendingBlockHeaderState :=
    { toBlockHeaderStateCommon := (demoGenesis 0).toBlockHeaderStateCommon
      prevActivatedProtocolFeatures := []
      prevPendingSchedule := (demoGenesis 0).pendingSchedule
      wasPendingPromoted := false
      previous := (demoGenesis 0).id
      producer := sysioName
      timestamp := 1
      activeScheduleVersion := 0
      confirmed := 0 }
  newPendingProducerSchedule := none
  newProtocolFeatureActivations := []
  pendingTrxReceipts := []
  trxMrootOrReceiptDigests := .inr []
  actionReceiptDigests := []
  sHeader := none

def demoExecution (traces : List ActionTrace) : Execution ℕ := ⟨0, [], traces, demoBuildingBlock⟩

/-- The calls of the contract that the transaction leads to. -/
lemma receiver_of_reached {authorization : List PermissionLevel} {t : ScheduledAction}
    (h : Reached (demoApplyEnv authorization) 0 demoQuery t) :
    t.receiver = demoSender ∨ t.receiver = demoReceiver := by
  induction h with
  | contextFreeAction ha => cases ha
  | action ha =>
    rw [mem_singleton.mp ha]
    exact .inl rfl
  | @notified t recipient _ hcall _ ih =>
    have hmem : HostCall.requireRecipient recipient ∈ demoCode authorization t.receiver := hcall.mem
    rcases ih with heq | heq
    · rw [heq] at hmem
      simp [demoCode] at hmem
      exact .inr hmem
    · rw [heq] at hmem
      cases hmem
  | @inline t a _ hcall _ _ ih =>
    have hmem : sendInline a ∈ demoCode authorization t.receiver := hcall.mem
    rcases ih with heq | heq
    · rw [heq] at hmem
      simp [demoCode] at hmem
      rw [hmem]
      exact .inr rfl
    · rw [heq] at hmem
      cases hmem
  | @contextFreeInline t a _ hcall _ _ ih =>
    have hmem : sendContextFreeInline a ∈ demoCode authorization t.receiver := hcall.mem
    rcases ih with heq | heq
    · rw [heq] at hmem
      simp [demoCode] at hmem
    · rw [heq] at hmem
      cases hmem

end Sysio.ApplyContext
