import Zolana.NullifierTree.Update

/-!
# What the indexer reads off an update event

`nullifier_tree_batch_update_parser.rs` turns an event into a stored update, and `root_index` of the
query API turns a stored sequence number into the root index a client quotes.
-/

namespace Zolana.Photon

open Fallible

/-- The body of `NullifierTreeBatchUpdate`, less the signature of the transaction it came from. -/
structure NullifierTreeBatchUpdate where
  tree : Bytes32
  newRoot : Bytes32
  zkpBatchSize : Nat
  numUpdate : Nat
  sequenceNumber : Nat
  deriving DecidableEq, Repr

inductive PhotonError where
  | parserError (message : String)
  | unexpectedError (message : String)
  deriving DecidableEq, Repr

/-- One event of a transaction with this signature. The stored sequence number is the one after the
last update of the cascade. -/
def parseNullifierTreeBatchUpdate (signature : String) (event : NullifierTreeUpdateEvent) :
    Except PhotonError NullifierTreeBatchUpdate :=
  match checkedAdd event.startSequenceNumber (event.numUpdate - 1) with
  | none => .error (.parserError s!"Batch append sequence number overflow in {signature}")
  | some sequenceNumber =>
    .ok {
      tree := event.merkleTreePubkey
      newRoot := event.newRoot
      zkpBatchSize := event.zkpBatchSize
      numUpdate := event.numUpdate
      sequenceNumber := sequenceNumber }

/-- `root_index` of a nullifier tree. `capacity` is the root history capacity of the build and
`onChain` the one stored with the tree. -/
def rootIndex (rootSeq capacity onChain : Nat) : Except PhotonError UInt16 :=
  if onChain ≠ capacity then
    .error (.unexpectedError
      s!"nullifier root history capacity is {onChain} on chain but {capacity} in this build")
  else
    let index := if capacity = 0 then 0 else rootSeq % capacity
    if index < 2 ^ 16 then
      .ok (UInt16.ofNat index)
    else
      .error (.unexpectedError s!"Root index {index} does not fit in u16")

end Zolana.Photon
