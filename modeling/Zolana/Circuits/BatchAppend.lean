import Zolana.Circuits.Gadget

/-!
# The batch append circuit

`circuits/nullifier_tree.go`: a batch of values enters an indexed tree. Each value changes two leaves, the
one of the element before it, which gets a new successor, and the next empty one.
-/

namespace Zolana.Circuits

open Gates

structure BatchAddressTreeAppendCircuit where
  publicInputHash : Fr
  oldRoot : Fr
  newRoot : Fr
  hashchainHash : Fr
  startIndex : Fr
  lowElementValues : List Fr
  lowElementNextValues : List Fr
  lowElementIndices : List Fr
  lowElementProofs : List (List Fr)
  newElementValues : List Fr
  newElementProofs : List (List Fr)
  batchSize : UInt32
  treeHeight : UInt32

/-- `getZeroValue(0)`: the empty leaf. -/
def zeroLeaf : Fr := 0

namespace BatchAddressTreeAppendCircuit

variable (poseidon : Poseidon) (c : BatchAddressTreeAppendCircuit)

def validateLayout : Bool :=
  c.batchSize ≠ 0 && c.treeHeight ≠ 0 &&
    c.lowElementValues.length = c.batchSize.toNat &&
    c.lowElementNextValues.length = c.batchSize.toNat &&
    c.lowElementIndices.length = c.batchSize.toNat &&
    c.lowElementProofs.length = c.batchSize.toNat &&
    c.newElementValues.length = c.batchSize.toNat &&
    c.newElementProofs.length = c.batchSize.toNat &&
    c.lowElementProofs.all (fun proof => proof.length = c.treeHeight.toNat) &&
    c.newElementProofs.all (fun proof => proof.length = c.treeHeight.toNat)

/-- One round of the loop: the root behind it. -/
def appendElement (currentRoot : Fr) (i : Nat) : Option Fr := do
  let lowValue ← c.lowElementValues[i]?
  let newValue ← c.newElementValues[i]?
  let nextValue ← c.lowElementNextValues[i]?
  assertStrictlyOrderedFullField lowValue newValue nextValue
  let oldLowLeafHash ← indexedLeafHash poseidon lowValue nextValue
  let lowLeafHash ← poseidon [lowValue, newValue]
  let lowIndex ← c.lowElementIndices[i]?
  let lowProof ← c.lowElementProofs[i]?
  let pathIndexBits ← toBinary c.treeHeight.toNat lowIndex
  let currentRoot ← merkleRootUpdate poseidon currentRoot oldLowLeafHash lowLeafHash pathIndexBits lowProof
  let newLeafHash ← poseidon [newValue, nextValue]
  let newProof ← c.newElementProofs[i]?
  let indexBits ← toBinary c.treeHeight.toNat (c.startIndex + (i : Fr))
  merkleRootUpdate poseidon currentRoot zeroLeaf newLeafHash indexBits newProof

def computePublicInputHash : Option Fr :=
  hashChain4 poseidon [c.oldRoot, c.newRoot, c.hashchainHash, c.startIndex]

def define : Option Unit := do
  assertIsEqual c.validateLayout true
  let root ← (List.range c.batchSize.toNat).foldlM (c.appendElement poseidon) c.oldRoot
  assertIsEqual c.newRoot root
  let leavesHashChain ← hashChain4 poseidon c.newElementValues
  assertIsEqual c.hashchainHash leavesHashChain
  let publicInputsHashChain ← c.computePublicInputHash poseidon
  assertIsEqual c.publicInputHash publicInputsHashChain

end BatchAddressTreeAppendCircuit

end Zolana.Circuits
