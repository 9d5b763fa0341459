import Sysio.BlockHeaderState.Id
import Sysio.Controller.Production

/-!
# The chain of S-headers

Several nodes produce blocks, each with its own plugin, and move between branches as blocks arrive.
A branch is *linked* if every S-header on it names the id of the S-header before it and carries the
next number.  The plugin takes the previous id from the last block that its own node tried to
produce, so a branch stays linked as long as that block is the latest one with an S-header on the
branch that the node builds on.  The history variable `Node.lastAttempt` remembers it.
-/

namespace Sysio.SubChain

open Controller

/-! ### S-block numbers -/

lemma extractSBlockNumber_eq (sId : Sha256) :
    extractSBlockNumber sId = (endianReverseU32 sId.h0).toNat := by
  have hlow : (sId.h0 &&& 0xffffffff).toNat = sId.h0.toNat % 2 ^ 32 := by
    rw [UInt64.toNat_and]
    exact Nat.and_two_pow_sub_one_eq_mod sId.h0.toNat 32
  rw [extractSBlockNumber, toNat_endianReverseU32, toNat_endianReverseU32, hlow]
  have h1 : sId.h0.toNat % 2 ^ 32 % 256 = sId.h0.toNat % 256 := by omega
  have h2 : sId.h0.toNat % 2 ^ 32 / 2 ^ 8 % 256 = sId.h0.toNat / 2 ^ 8 % 256 := by omega
  have h3 : sId.h0.toNat % 2 ^ 32 / 2 ^ 16 % 256 = sId.h0.toNat / 2 ^ 16 % 256 := by omega
  have h4 : sId.h0.toNat % 2 ^ 32 / 2 ^ 24 % 256 = sId.h0.toNat / 2 ^ 24 % 256 := by omega
  rw [h1, h2, h3, h4]

/-- **A new S-id carries the number after the one of the previous id.** -/
theorem extractSBlockNumber_computeCurrSId (env : ControllerEnv) (sc : SubChain)
    (currSRoot : Sha256) : extractSBlockNumber (sc.computeCurrSId env currSRoot) =
      u32 (extractSBlockNumber sc.prevSId + 1) := by
  have hlt : u32 (extractSBlockNumber sc.prevSId + 1) < 2 ^ 32 := u32_lt _
  have hn : (UInt64.ofNat (u32 (extractSBlockNumber sc.prevSId + 1))).toNat =
      u32 (extractSBlockNumber sc.prevSId + 1) := by
    rw [UInt64.toNat_ofNat']
    omega
  have hrev := endianReverseU32_add (env.hashPair sc.prevSId currSRoot).h0
    (UInt64.ofNat (u32 (extractSBlockNumber sc.prevSId + 1))) (by omega)
  rwa [extractSBlockNumber_eq, ← hn]

/-! ### Branches -/

/-- The id of the latest S-header on a branch, which is given from its newest block on; zero if
there is none. -/
def lastSId (branch : List SignedBlock) : Sha256 :=
  ((branch.findSome? fun b => b.sHeader).map (·.currentSId)).getD Sha256.zero

/-- Every S-header on the branch names the one before it and carries the next number. -/
def Linked : List SignedBlock → Prop
  | [] => True
  | b :: branch =>
    (∀ s ∈ b.sHeader, s.previousSId = lastSId branch ∧
      extractSBlockNumber s.currentSId = (extractSBlockNumber (lastSId branch) + 1) % 2 ^ 32) ∧
      Linked branch

instance : DecidablePred Linked := fun branch => by
  induction branch with
  | nil => exact isTrue trivial
  | cons => exact inferInstanceAs (Decidable (_ ∧ _))

variable {b : SignedBlock} {branch : List SignedBlock} {env : ControllerEnv}

lemma lastSId_cons_of_some {s : SHeader}
    (h : b.sHeader = some s) : lastSId (b :: branch) = s.currentSId := by
  simp only [lastSId, List.findSome?_cons, h]
  rfl

lemma lastSId_cons_of_none (h : b.sHeader = none) : lastSId (b :: branch) = lastSId branch := by
  simp only [lastSId, List.findSome?_cons, h]

lemma Linked.cons_of_none (hl : Linked branch) (h : b.sHeader = none) : Linked (b :: branch) := by
  refine ⟨fun s hs => ?_, hl⟩
  rw [h] at hs
  cases hs

/-- A block with the S-header of a plugin that knows the latest id keeps the branch linked. -/
lemma Linked.cons_makeSHeader {sc : SubChain} {relevant : List Transaction} (hl : Linked branch)
    (hprev : sc.prevSId = lastSId branch) (h : b.sHeader = some (sc.makeSHeader env relevant)) :
    Linked (b :: branch) := by
  refine ⟨fun s hs => ?_, hl⟩
  obtain rfl : sc.makeSHeader env relevant = s := Option.some.inj (h.symm.trans hs)
  refine ⟨hprev, ?_⟩
  rw [← hprev]
  exact extractSBlockNumber_computeCurrSId env sc _

/-! ### One production -/

/-- The filled block has transactions for the settlement chain. -/
def HasRelevant (sc : SubChain) (c : Controller) : Prop :=
  match c.buildingBlock with
  | .ok (bb, _) => sc.findRelevantTransactions bb.pendingTrxReceipts ≠ []
  | .error _ => False

instance (sc : SubChain) (c : Controller) : Decidable (sc.HasRelevant c) := by
  unfold HasRelevant
  split <;> infer_instance

section Production

variable {sc : SubChain} {c started filled completed : Controller}
  {plan : Controller.ProductionPlan}

lemma produceBlock_fst_of_not_hasRelevant (signer : Sha256 → List Signature)
    (h : ¬ sc.HasRelevant c) : (sc.produceBlock env c signer).1 = sc := by
  cases hbb : c.buildingBlock with
  | error e => rw [produceBlock, hbb]
  | ok x =>
    rw [HasRelevant, hbb] at h
    rw [produceBlock_of_eq_nil signer hbb (not_not.mp h)]

lemma sHeader_of_not_hasRelevant (hbuild : c.buildBlock env plan = .ok (started, filled))
    (h : ¬ sc.HasRelevant filled)
    (hprod : (sc.produceBlock env filled plan.signer).2 = .ok completed) :
    ∃ cb, completed.completedBlock = some cb ∧ cb.block.sHeader = none := by
  obtain ⟨p, -, -, hb⟩ := buildBlock_eq_ok hbuild
  cases hbb : filled.buildingBlock with
  | error e =>
    rw [produceBlock, hbb] at hprod
    cases hprod
  | ok x =>
    rw [HasRelevant, hbb] at h
    rw [produceBlock_of_eq_nil plan.signer hbb (not_not.mp h)] at hprod
    obtain ⟨cb, header, hcb, hsigned, -, hs, -, hheader, -⟩ := hb.finishBlock hprod
    refine ⟨cb, hcb, ?_⟩
    rwa [hheader, BlockHeaderState.header_of_finishNextSigned hsigned]

/-- A block with relevant transactions gets the S-header of the plugin, which takes over its id
whether or not the block is finished. -/
lemma sHeader_of_hasRelevant (hbuild : c.buildBlock env plan = .ok (started, filled))
    (h : sc.HasRelevant filled) : ∃ relevant, (sc.produceBlock env filled plan.signer).1 =
        sc.updatePrevSId (sc.makeSHeader env relevant).currentSId ∧
      ∀ completed, (sc.produceBlock env filled plan.signer).2 = .ok completed →
        ∃ cb, completed.completedBlock = some cb ∧
          cb.block.sHeader = some (sc.makeSHeader env relevant) := by
  obtain ⟨p, -, -, hb⟩ := buildBlock_eq_ok hbuild
  cases hbb : filled.buildingBlock with
  | error e =>
    rw [HasRelevant, hbb] at h
    exact h.elim
  | ok x =>
    rw [HasRelevant, hbb] at h
    obtain ⟨c1, hset, heq⟩ := @produceBlock_of_ne_nil env sc filled x.1 x.2 plan.signer hbb h
    refine ⟨sc.findRelevantTransactions x.1.pendingTrxReceipts, by rw [heq], ?_⟩
    intro completed hprod
    rw [heq] at hprod
    obtain ⟨cb, header, hcb, hsigned, -, hs, -, hheader, -⟩ :=
      (hb.setSHeader hset).finishBlock hprod
    refine ⟨cb, hcb, ?_⟩
    rwa [hheader, BlockHeaderState.header_of_finishNextSigned hsigned]

end Production

/-! ### A network of nodes -/

/-- The last time a node made an S-header. -/
inductive Attempt
  | never
  /-- The block was not finished or not committed. -/
  | failed
  /-- The branch that the block became the newest of. -/
  | committed (branch : List SignedBlock)
  deriving DecidableEq, Repr

/-- The attempt that put the latest S-header on a branch. -/
def Attempt.latest : List SignedBlock → Attempt
  | [] => .never
  | b :: branch => if b.sHeader.isSome then .committed (b :: branch) else latest branch

/-- A producing node: its plugin, and the branch of its head from the newest block on. -/
structure Node where
  subChain : SubChain
  branch : List SignedBlock
  /-- A history variable, which no code reads. -/
  lastAttempt : Attempt

/-- All the nodes, and every branch that has been built. -/
structure Network (ι : Type*) where
  nodes : ι → Node
  branches : List (List SignedBlock)

inductive Event (ι : Type*)
  /-- Node `i`, with its controller as it stands, builds a block and calls `produce_block`;
  `commits` says whether `commit_block` goes through. -/
  | produce (i : ι) (c : Controller) (plan : Controller.ProductionPlan) (commits : Bool)
  /-- Node `i` receives blocks or switches forks, and its head moves to another branch. -/
  | switchHead (i : ι) (branch : List SignedBlock)

/-- The block that a production adds to the branch, if it is finished and committed. -/
def committedBlock (r : Result Controller) (commits : Bool) : Option CompletedBlock :=
  match r with
  | .ok c => if commits then c.completedBlock else none
  | .error _ => none

/-- The node after `produce_block` over a controller with a filled block. -/
def Node.produce (env : ControllerEnv) (n : Node) (filled : Controller)
    (signer : Sha256 → List Signature) (commits : Bool) : Node :=
  let r := n.subChain.produceBlock env filled signer
  match committedBlock r.2 commits with
  | some cb =>
    { subChain := r.1
      branch := cb.block :: n.branch
      lastAttempt :=
        if n.subChain.HasRelevant filled then .committed (cb.block :: n.branch)
        else n.lastAttempt }
  | none =>
    { n with
      subChain := r.1
      lastAttempt := if n.subChain.HasRelevant filled then .failed else n.lastAttempt }

lemma eq_ok_of_committedBlock {r : Result Controller} {commits : Bool} {cb : CompletedBlock}
    (h : committedBlock r commits = some cb) : ∃ c, r = .ok c ∧ c.completedBlock = some cb := by
  unfold committedBlock at h
  split at h
  · next c =>
    split_ifs at h
    exact ⟨c, rfl, h⟩
  · cases h

variable {ι : Type*} [DecidableEq ι]

/-- One step of the network; `none` if the event is not possible. -/
def Network.next (env : ControllerEnv) (w : Network ι) : Event ι → Option (Network ι)
  | .produce i c plan commits =>
    -- the head of the controller is the newest block of the branch
    if ∀ b ∈ (w.nodes i).branch.head?, c.head.header = b.toSignedBlockHeader then
      match c.buildBlock env plan with
      | .error _ => none
      | .ok (_, filled) =>
        let node := (w.nodes i).produce env filled plan.signer commits
        some ⟨Function.update w.nodes i node, node.branch :: w.branches⟩
    else none
  | .switchHead i branch =>
    if branch ∈ w.branches then
      some { w with nodes := Function.update w.nodes i { w.nodes i with branch := branch } }
    else none

/-- Nothing has been produced yet. -/
def Network.Initial (w : Network ι) : Prop :=
  w.branches = [[]] ∧ ∀ i, (w.nodes i).branch = [] ∧ (w.nodes i).lastAttempt = .never ∧
    (w.nodes i).subChain.prevSId = Sha256.zero

def Step (env : ControllerEnv) (w : Network ι) (e : Event ι) (w' : Network ι) : Prop :=
  w.next env e = some w'

/-- The condition on a production: if the block gets an S-header, the latest S-header on the branch
is the last one that the node itself made. -/
def Event.Follows (env : ControllerEnv) (w : Network ι) : Event ι → Prop
  | .produce i c plan _ =>
    match c.buildBlock env plan with
    | .ok (_, filled) => (w.nodes i).subChain.HasRelevant filled →
        (w.nodes i).lastAttempt = Attempt.latest (w.nodes i).branch
    | .error _ => True
  | .switchHead _ _ => True

instance (env : ControllerEnv) (w : Network ι) : DecidablePred (Event.Follows env w) := fun e => by
  unfold Event.Follows
  split
  · split <;> infer_instance
  · infer_instance

/-! ### Linked branches -/

/-- What an attempt says about the id that the plugin holds. -/
def Attempt.Explains : Attempt → Sha256 → Prop
  | .never, id => id = Sha256.zero
  | .failed, _ => True
  | .committed branch, id => id = lastSId branch

lemma Attempt.explains_latest {id : Sha256} :
    (Attempt.latest branch).Explains id ↔ id = lastSId branch := by
  induction branch with
  | nil => exact Iff.rfl
  | cons b branch ih =>
    cases hs : b.sHeader with
    | none =>
      rw [lastSId_cons_of_none hs, ← ih, Attempt.latest, hs]
      exact Iff.rfl
    | some s =>
      rw [Attempt.latest, hs]
      exact Iff.rfl

structure Node.Inv (n : Node) : Prop where
  linked : Linked n.branch
  explains : n.lastAttempt.Explains n.subChain.prevSId

/-- **Production keeps the invariant of the node**, if it follows the latest S-header. -/
theorem Node.Inv.produce {n : Node} {c started filled : Controller}
    {plan : Controller.ProductionPlan} (hn : n.Inv) (commits : Bool)
    (hbuild : c.buildBlock env plan = .ok (started, filled))
    (hfollows : n.subChain.HasRelevant filled → n.lastAttempt = Attempt.latest n.branch) :
    (n.produce env filled plan.signer commits).Inv := by
  by_cases hrel : n.subChain.HasRelevant filled
  · obtain ⟨relevant, hplugin, hblock⟩ := sHeader_of_hasRelevant hbuild hrel
    have hprev : n.subChain.prevSId = lastSId n.branch := by
      rw [← Attempt.explains_latest, ← hfollows hrel]
      exact hn.explains
    simp only [Node.produce, if_pos hrel, hplugin]
    cases hcb : committedBlock (n.subChain.produceBlock env filled plan.signer).2 commits with
    | none => exact ⟨hn.linked, trivial⟩
    | some cb =>
      obtain ⟨completed, hcomp, hcb⟩ := eq_ok_of_committedBlock hcb
      obtain ⟨cb', hcb', hs⟩ := hblock completed hcomp
      obtain rfl : cb' = cb := Option.some.inj (hcb'.symm.trans hcb)
      exact ⟨hn.linked.cons_makeSHeader hprev hs, (lastSId_cons_of_some hs).symm⟩
  · have hplugin : (n.subChain.produceBlock env filled plan.signer).1 = n.subChain :=
      produceBlock_fst_of_not_hasRelevant plan.signer hrel
    simp only [Node.produce, if_neg hrel, hplugin]
    cases hcb : committedBlock (n.subChain.produceBlock env filled plan.signer).2 commits with
    | none => exact { hn with }
    | some cb =>
      obtain ⟨completed, hcomp, hcb⟩ := eq_ok_of_committedBlock hcb
      obtain ⟨cb', hcb', hs⟩ := sHeader_of_not_hasRelevant hbuild hrel hcomp
      obtain rfl : cb' = cb := Option.some.inj (hcb'.symm.trans hcb)
      exact ⟨hn.linked.cons_of_none hs, hn.explains⟩

structure Network.Inv (w : Network ι) : Prop where
  nodes : ∀ i, (w.nodes i).Inv
  linked : ∀ branch ∈ w.branches, Linked branch

omit [DecidableEq ι] in
lemma Network.Initial.inv {w : Network ι} (h : w.Initial) : w.Inv := by
  refine ⟨fun i => ?_, fun branch hb => ?_⟩
  · obtain ⟨hbranch, hattempt, hprev⟩ := h.2 i
    refine ⟨?_, ?_⟩
    · rw [hbranch]
      trivial
    · rwa [hattempt]
  · rw [h.1, List.mem_singleton] at hb
    rw [hb]
    trivial

/-- Replacing one node keeps the invariant of all. -/
lemma Network.Inv.update {w : Network ι} (hw : w.Inv) {i : ι} {n : Node} (hn : n.Inv) (j : ι) :
    (Function.update w.nodes i n j).Inv := by
  by_cases hj : j = i
  · subst hj
    rwa [Function.update_self]
  · rw [Function.update_of_ne hj]
    exact hw.nodes j

lemma Network.Inv.step {w w' : Network ι} {e : Event ι} (hw : w.Inv)
    (hf : e.Follows env w) (h : Step env w e w') : w'.Inv := by
  cases e with
  | produce i c plan commits =>
    simp only [Step, Network.next] at h
    split_ifs at h
    split at h
    · cases h
    · next started filled hbuild =>
      obtain rfl := Option.some.inj h
      simp only [Event.Follows, hbuild] at hf
      have hn := (hw.nodes i).produce commits hbuild hf
      refine ⟨hw.update hn, fun branch hb => ?_⟩
      rcases List.mem_cons.mp hb with rfl | hb
      · exact hn.linked
      · exact hw.linked branch hb
  | switchHead i branch =>
    simp only [Step, Network.next] at h
    split_ifs at h with hmem
    obtain rfl := Option.some.inj h
    exact ⟨hw.update ⟨hw.linked branch hmem, (hw.nodes i).explains⟩, hw.linked⟩

/-- **S-chain linkage.**  In every run of a network in which each block with an S-header follows the
last one that its node made, every branch that was ever built is linked. -/
theorem linked_of_run {env : ControllerEnv} {w₀ w : Network ι}
    {tr : List (Transition (Network ι) (Event ι))} (h₀ : w₀.Initial) (hr : Run (Step env) w₀ tr w)
    (hf : ∀ t ∈ tr, t.event.Follows env t.pre) : ∀ branch ∈ w.branches, Linked branch :=
  (Run.forall_transition (C := fun w e _ => Event.Follows env w e) h₀.inv
    (fun _ _ _ hw hC hs => hw.step hC hs) hr hf).1.linked

/-! ### Two nodes -/

/-- A plugin for one action of one contract. -/
def demoPlugin : SubChain := ⟨⟨7⟩, [⟨8⟩], Sha256.zero⟩

/-- A block in the given slot with a transaction for the settlement contract. -/
def demoSettlement (slot : UInt32) : Controller.ProductionPlan where
  when_ := slot
  confirmBlockCount := 0
  newProtocolFeatureActivations := []
  receipts := [⟨.packed ⟨[], .none, [], [], ⟨0, [], [⟨⟨7⟩, ⟨8⟩, [], []⟩]⟩, ⟨0, 0, 0, 5⟩⟩,
    .executed, 100, 8⟩]
  actionReceiptDigests := []
  signer _ := [⟨0⟩]

/-- The block with the first S-header, with its state. -/
def demoFirst : Option CompletedBlock :=
  (demoController.produceBlock demoControllerEnv demoPlugin
    (demoSettlement 2)).toOption.bind fun r => r.2.completedBlock

def demoAfterFirst : Controller :=
  { demoController with
    head := ⟨(demoFirst.map (·.blockState)).getD (BlockHeaderState.demoGenesis 1), true,
      by decide⟩ }

/-- Two nodes before the first block. -/
def demoNetwork : Network Bool := ⟨fun _ => ⟨demoPlugin, [], .never⟩, [[]]⟩

/-- The first node makes a block with an S-header, the second receives it, and node `i` makes
another one on top of it. -/
def demoEvents (i : Bool) : List (Event Bool) :=
  [.produce false demoController (demoSettlement 2) true,
    .switchHead true (demoFirst.map (·.block)).toList,
    .produce i demoAfterFirst (demoSettlement 3) true]

lemma demoNetwork_initial : demoNetwork.Initial := ⟨rfl, fun _ => ⟨rfl, rfl, rfl⟩⟩

/-- A node that goes on from its own block keeps the branch linked. -/
theorem linked_of_run_demo : ∃ (tr : List (Transition (Network Bool) (Event Bool)))
    (w : Network Bool), Run (Step demoControllerEnv) demoNetwork tr w ∧
      tr.length = 3 ∧ ∀ branch ∈ w.branches, Linked branch := by
  obtain ⟨tr, w, hr, hP⟩ := exists_run_of_carryOut
    (Network.next demoControllerEnv) demoNetwork (demoEvents false) (fun _ _ _ h => h)
    (P := fun tr _ => tr.length = 3 ∧ ∀ t ∈ tr, t.event.Follows demoControllerEnv t.pre) (by decide)
  obtain ⟨hlen, hf⟩ := hP
  exact ⟨tr, w, hr, hlen, linked_of_run demoNetwork_initial hr hf⟩

/-- **Two nodes that take turns break the chain**: the second S-header names the zero id, although
there is one before it. -/
theorem exists_branch_not_linked :
    ∃ (tr : List (Transition (Network Bool) (Event Bool))) (w : Network Bool),
      Run (Step demoControllerEnv) demoNetwork tr w ∧ demoNetwork.Initial ∧
        ∃ branch ∈ w.branches, ¬ Linked branch := by
  obtain ⟨tr, w, hr, hP⟩ := exists_run_of_carryOut
    (Network.next demoControllerEnv) demoNetwork (demoEvents true) (fun _ _ _ h => h)
    (P := fun _ w => ∃ branch ∈ w.branches, ¬ Linked branch)
    (by decide)
  exact ⟨tr, w, hr, demoNetwork_initial, hP⟩

end Sysio.SubChain
