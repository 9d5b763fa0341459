import Sysio.Authority.Basic

/-!
# Transactions

Actions, transactions and their packed form.  The packed form keeps the unpacked transaction and its
id beside the bytes, as the class of the source does.
-/

namespace Sysio

structure Action where
  account : Name
  name : Name
  authorization : List PermissionLevel
  data : List UInt8
  deriving DecidableEq, Repr

/-- `transaction`, with the fields of its header that the modelled functions read. -/
structure Transaction where
  delaySec : UInt32
  contextFreeActions : List Action
  actions : List Action
  deriving DecidableEq, Repr

/-- `transaction` with the rest of its header, as an input transaction has it. -/
structure InputTransaction extends Transaction where
  /-- `expiration`, in seconds. -/
  expiration : UInt32
  refBlockNum : UInt16
  refBlockPrefix : UInt32
  maxNetUsageWords : UInt32
  maxCpuUsageMs : UInt8
  transactionExtensions : List (UInt16 × List UInt8)
  deriving DecidableEq, Repr

/-- `first_authorizer`: the actor of the first authorization of any action. -/
def Transaction.firstAuthorizer (trx : Transaction) : Name :=
  ((trx.actions.findSome? fun a => a.authorization.head?).map (·.actor)).getD Name.empty

/-- `packed_transaction::compression_type`. -/
inductive Compression
  | none
  | zlib
  deriving DecidableEq, Repr

structure PackedTransaction where
  signatures : List Signature
  compression : Compression
  packedContextFreeData : List UInt8
  packedTrx : List UInt8
  unpackedTrx : Transaction
  trxId : Sha256
  deriving DecidableEq, Repr

end Sysio
