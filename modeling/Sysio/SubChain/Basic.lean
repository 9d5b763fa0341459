import Sysio.Controller.Basic

/-!
# The sub chain plugin and `produce_block`

A producing node looks for transactions that call the settlement contract.  If its block has some,
it commits to them with a header of their own, the *S-header*: the Merkle root of their ids, and an
id made from that root and the id of the previous S-header.  The previous id is a field of the
plugin, which `produce_block` writes as soon as the new id is known, before the block is finalized.
-/

namespace Sysio

/-- `sub_chain_plugin_impl`. -/
structure SubChain where
  contractName : Name
  actionNames : List Name
  prevSId : Sha256

namespace SubChain

/-! ### The plugin -/

def updatePrevSId (sc : SubChain) (newSId : Sha256) : SubChain := { sc with prevSId := newSId }

def isRelevantSRootTransaction (sc : SubChain) (trx : Transaction) : Bool :=
  trx.actions.any fun a => decide (a.account = sc.contractName ∧ a.name ∈ sc.actionNames)

/-- `find_relevant_transactions`, over the receipts of the pending block. -/
def findRelevantTransactions (sc : SubChain) (pendingTrxReceipts : List TransactionReceipt) :
    List Transaction :=
  pendingTrxReceipts.filterMap fun receipt =>
    match receipt.trx with
    | .packed trx =>
      if sc.isRelevantSRootTransaction trx.unpackedTrx then some trx.unpackedTrx else none
    | .id _ => none

def calculateSRoot (env : ControllerEnv) (transactions : List Transaction) : Sha256 :=
  merkle env.hashCanonicalPair Sha256.zero (transactions.map env.transactionId)

/-- `extract_s_block_number`: the first four bytes, the most significant one first. -/
def extractSBlockNumber (sId : Sha256) : ℕ := (endianReverseU32 (sId.h0 &&& 0xffffffff)).toNat

section

variable (env : ControllerEnv) (sc : SubChain)

def computeCurrSId (currSRoot : Sha256) : Sha256 :=
  let currSId := env.hashPair sc.prevSId currSRoot
  let nextSBlockNumber := u32 (extractSBlockNumber sc.prevSId + 1)
  { currSId with
    h0 := (currSId.h0 &&& 0xffffffff00000000) + endianReverseU32 (UInt64.ofNat nextSBlockNumber) }

/-- The S-header that `produce_block` prepares for the pending block. -/
def makeSHeader (relevant : List Transaction) : SHeader :=
  let sRoot := calculateSRoot env relevant
  ⟨sc.contractName, sc.prevSId, sc.computeCurrSId env sRoot, sRoot⟩

/-! ### Producing a block -/

/-- `producer_plugin_impl::produce_block` from the S-header on, for a controller with a filled
block.  The plugin keeps the new id even if the block cannot be finished. -/
def produceBlock (c : Controller)
    (signer : Sha256 → List Signature) : SubChain × Result Controller :=
  match c.buildingBlock with
  | .error e => (sc, .error e)
  | .ok (bb, _) =>
    let relevant := sc.findRelevantTransactions bb.pendingTrxReceipts
    if relevant = [] then (sc, c.finishBlock env signer)
    else
      let sHeader := sc.makeSHeader env relevant
      match c.setSHeader sHeader with
      | .error e => (sc, .error e)
      | .ok c => (sc.updatePrevSId sHeader.currentSId, c.finishBlock env signer)

end

section ProduceBlock

variable {env : ControllerEnv} {sc : SubChain} {c : Controller} {bb : BuildingBlock}
  {status : BlockStatus}

lemma produceBlock_of_eq_nil (signer : Sha256 → List Signature)
    (hbb : c.buildingBlock = .ok (bb, status))
    (h : sc.findRelevantTransactions bb.pendingTrxReceipts = []) :
    sc.produceBlock env c signer = (sc, c.finishBlock env signer) := by
  simp only [produceBlock, hbb, h, if_true]

/-- A block with relevant transactions gets an S-header, and the plugin its id. -/
lemma produceBlock_of_ne_nil (signer : Sha256 → List Signature)
    (hbb : c.buildingBlock = .ok (bb, status))
    (h : sc.findRelevantTransactions bb.pendingTrxReceipts ≠ []) : ∃ c1, c.setSHeader
        (sc.makeSHeader env (sc.findRelevantTransactions bb.pendingTrxReceipts)) = .ok c1 ∧
      sc.produceBlock env c signer = (sc.updatePrevSId (sc.makeSHeader env
          (sc.findRelevantTransactions bb.pendingTrxReceipts)).currentSId,
          c1.finishBlock env signer) := by
  have hset : ∀ x, c.setSHeader x = .ok { c with
      pending := some ⟨.building { bb with sHeader := some x }, status⟩ } := by
    intro x
    simp only [Controller.setSHeader, hbb]
    rfl
  refine ⟨_, hset _, ?_⟩
  simp only [produceBlock, hbb, if_neg h, hset]

end ProduceBlock

end SubChain

/-- A block is produced from the start.  The result is the controller right after the start, and
with the completed block. -/
def Controller.produceBlock (env : ControllerEnv) (sc : SubChain) (c : Controller)
    (plan : ProductionPlan) : Result (Controller × Controller) := do
  let (started, filled) ← c.buildBlock env plan
  let completed ← (sc.produceBlock env filled plan.signer).2
  pure (started, completed)

end Sysio
