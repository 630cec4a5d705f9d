import Zolana.Circuits.BatchAppend
import Zolana.Forester.MerkleTree

/-!
# The witness of a batch

`protocol-ops/forester-prover/src/witness.rs`: the values of one ZKP batch are appended to the reference tree, with the
proofs taken on the way. The circuit gets the witness as numbers.
-/

namespace Zolana.Forester

open Fallible

/-- `NULLIFIER_INIT_NEXT_VALUE_DEC`. -/
def nullifierInitNextValue : Nat := 21888242871839275222246405745257275088548364400416034343698204186575808495616

def referenceNullifierTree (hashv : Hashv) (height : UInt32) :
    Except IndexedReferenceMerkleTreeError IndexedMerkleTree :=
  IndexedMerkleTree.newWithNextValue hashv height.toNat nullifierInitNextValue

structure BatchAddressAppendInputs where
  publicInputHash : Nat
  oldRoot : Nat
  newRoot : Nat
  hashchainHash : Nat
  startIndex : Nat
  lowElementValues : List Nat
  lowElementIndices : List Nat
  lowElementNextValues : List Nat
  newElementValues : List Nat
  lowElementProofs : List (List Nat)
  newElementProofs : List (List Nat)
  treeHeight : UInt32
  batchSize : UInt32
  deriving DecidableEq, Repr

inductive BuildError where
  | batchSize
  | mismatch
  | nonInclusionProof (error : IndexedReferenceMerkleTreeError)
  | appendNullifier (error : IndexedReferenceMerkleTreeError)
  | leafIndexOverflow
  | proofOfLeaf (index : Nat) (error : ReferenceMerkleTreeError)
  | publicInputHash (error : HasherError)
  | root (error : IndexedReferenceMerkleTreeError)
  deriving DecidableEq, Repr

structure WitnessRow where
  lowElementValue : Nat
  lowElementIndex : Nat
  lowElementNextValue : Nat
  lowElementProof : List Nat
  newElementValue : Nat
  newElementProof : List Nat
  deriving DecidableEq, Repr

def buildRow (hashv : Hashv) (firstIndex offset : Nat) (valueBytes : Bytes32) :
    EStateM BuildError IndexedMerkleTree WitnessRow := do
  let value := valueBytes.toNat
  let reference ← get
  let nonInclusion ← mapErr .nonInclusionProof (reference.getNonInclusionProof value)
  within id (fun tree _ => tree) .appendNullifier (IndexedMerkleTree.append hashv value)
  let newIndex ← okOr (checkedAdd firstIndex offset) .leafIndexOverflow
  let reference ← get
  let newProof ← mapErr (.proofOfLeaf newIndex) (reference.merkleTree.getProofOfLeaf newIndex)
  pure {
    lowElementValue := nonInclusion.leafLowerRangeValue.toNat
    lowElementIndex := nonInclusion.leafIndex
    lowElementNextValue := nonInclusion.leafHigherRangeValue.toNat
    lowElementProof := nonInclusion.merkleProof.map BitVec.toNat
    newElementValue := value
    newElementProof := newProof.map BitVec.toNat }

def buildRows (hashv : Hashv) (firstIndex : Nat) : Nat → List Bytes32 →
    EStateM BuildError IndexedMerkleTree (List WitnessRow)
  | _, [] => pure []
  | offset, valueBytes :: values => do
    let row ← buildRow hashv firstIndex offset valueBytes
    let rows ← buildRows hashv firstIndex (offset + 1) values
    pure (row :: rows)

def BatchAddressAppendInputs.ofRows (rows : List WitnessRow) (batchSize treeHeight : UInt32) (startIndex : Nat)
    (oldRoot newRoot leavesHashChain publicInputHash : Bytes32) : BatchAddressAppendInputs where
  publicInputHash := publicInputHash.toNat
  oldRoot := oldRoot.toNat
  newRoot := newRoot.toNat
  hashchainHash := leavesHashChain.toNat
  startIndex := startIndex
  lowElementValues := rows.map WitnessRow.lowElementValue
  lowElementIndices := rows.map WitnessRow.lowElementIndex
  lowElementNextValues := rows.map WitnessRow.lowElementNextValue
  newElementValues := rows.map WitnessRow.newElementValue
  lowElementProofs := rows.map WitnessRow.lowElementProof
  newElementProofs := rows.map WitnessRow.newElementProof
  treeHeight := treeHeight
  batchSize := batchSize

def buildInputs (hashv : Hashv) (nextIndex : Nat) (height : UInt32) (leavesHashChain oldRoot : Bytes32)
    (batchValues : List Bytes32) : EStateM BuildError IndexedMerkleTree (BatchAddressAppendInputs × Bytes32) := do
  if 2 ^ 32 ≤ batchValues.length then throw .batchSize
  let reference ← get
  if reference.merkleTree.height ≠ height.toNat ∨ reference.merkleTree.rightmostIndex ≠ nextIndex then
    throw .mismatch
  let root ← mapErr .root reference.root
  if root ≠ oldRoot then throw .mismatch
  let rows ← buildRows hashv nextIndex 0 batchValues
  let reference ← get
  let newRoot ← mapErr .root reference.root
  let publicInputHash ← mapErr .publicInputHash
    (createHashChain4 hashv [oldRoot, newRoot, leavesHashChain, u64ToBytes32 nextIndex])
  pure (.ofRows rows (UInt32.ofNat batchValues.length) height nextIndex oldRoot newRoot leavesHashChain publicInputHash,
    newRoot)

/-- The assignment that the prover reads from the inputs. -/
def BatchAddressAppendInputs.circuit (inputs : BatchAddressAppendInputs) : Circuits.BatchAddressTreeAppendCircuit where
  publicInputHash := inputs.publicInputHash
  oldRoot := inputs.oldRoot
  newRoot := inputs.newRoot
  hashchainHash := inputs.hashchainHash
  startIndex := inputs.startIndex
  lowElementValues := inputs.lowElementValues.map Nat.cast
  lowElementNextValues := inputs.lowElementNextValues.map Nat.cast
  lowElementIndices := inputs.lowElementIndices.map Nat.cast
  lowElementProofs := inputs.lowElementProofs.map (List.map Nat.cast)
  newElementValues := inputs.newElementValues.map Nat.cast
  newElementProofs := inputs.newElementProofs.map (List.map Nat.cast)
  batchSize := inputs.batchSize
  treeHeight := inputs.treeHeight

/-- Successive calls, as `drain_once` makes them for a group: each starts where the one before ended, with the chain over
its own values. -/
def buildBatches (hashv : Hashv) (height : UInt32) : (nextIndex : Nat) → (oldRoot : Bytes32) → List (List Bytes32) →
    EStateM BuildError IndexedMerkleTree (List (BatchAddressAppendInputs × Bytes32))
  | _, _, [] => pure []
  | nextIndex, oldRoot, batch :: batches => do
    let leavesHashChain ← mapErr .publicInputHash (createHashChain4 hashv batch)
    let (inputs, newRoot) ← buildInputs hashv nextIndex height leavesHashChain oldRoot batch
    let rest ← buildBatches hashv height (nextIndex + batch.length) newRoot batches
    pure ((inputs, newRoot) :: rest)

def appendValues (hashv : Hashv) : List Nat → EStateM IndexedReferenceMerkleTreeError IndexedMerkleTree Unit
  | [] => pure ()
  | value :: values => do
    IndexedMerkleTree.append hashv value
    appendValues hashv values

end Zolana.Forester
