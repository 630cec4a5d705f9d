import Zolana.Forester.IndexedArray
import Zolana.Hasher.ZeroBytes
import Zolana.Lib.LayeredTree

/-!
# The reference trees

`protocol-ops/merkle-tree/src/lib.rs` and `indexed.rs`. The tree keeps every node that has something below it, layer by
layer from the leaves; what is missing in a layer is the root of an empty tree. The canopy depth is zero, and the fields
that only serve a root history are left out.
-/

namespace Zolana.Forester

open Fallible LayeredTree

inductive ReferenceMerkleTreeError where
  | leafDoesNotExist (index : Nat)
  | hasher (error : HasherError)
  | panicked
  deriving DecidableEq, Repr

structure MerkleTree where
  height : Nat
  capacity : Nat
  layers : List (List Bytes32)
  roots : List Bytes32
  rightmostIndex : Nat
  sequenceNumber : Nat
  deriving DecidableEq, Repr

namespace MerkleTree

/-- `MerkleTree::new`. The table of empty roots ends at height 40. -/
def new (height : Nat) : Except ReferenceMerkleTreeError MerkleTree :=
  match zeroBytes[height]? with
  | none => .error .panicked
  | some root => .ok {
      height
      capacity := 2 ^ height
      layers := List.replicate height []
      roots := [root]
      rightmostIndex := 0
      sequenceNumber := 0 }

def layer (tree : MerkleTree) (level : Nat) : Except ReferenceMerkleTreeError (List Bytes32) :=
  match tree.layers[level]? with
  | some layer => .ok layer
  | none => .error .panicked

/-- The hash of the two children at a position of the layer below. -/
def hashChildren (hashv : Hashv) (tree : MerkleTree) (level i : Nat) : Except ReferenceMerkleTreeError Bytes32 := do
  let below ← tree.layer level
  let leftChild := below.getD (i * 2) (zeroByte level)
  let rightChild := below.getD (i * 2 + 1) (zeroByte level)
  (hashv [leftChild, rightChild]).mapError .hasher

/-- The loop of `update_upper_layers` over the levels. -/
def updateLevels (hashv : Hashv) : List Nat → Nat → EStateM ReferenceMerkleTreeError MerkleTree Unit
  | [], _ => pure ()
  | level :: levels, i => do
    let i := i / 2
    let tree ← get
    let node ← mapErr id (tree.hashChildren hashv (level - 1) i)
    let layer ← mapErr id (tree.layer level)
    set { tree with layers := tree.layers.set level (setOrPush layer i node) }
    updateLevels hashv levels i

def updateUpperLayers (hashv : Hashv) (i : Nat) : EStateM ReferenceMerkleTreeError MerkleTree Unit := do
  let tree ← get
  updateLevels hashv (List.range' 1 (tree.height - 1)) i
  let tree ← get
  let root ← mapErr id (tree.hashChildren hashv (tree.height - 1) 0)
  modify fun tree => { tree with roots := tree.roots ++ [root] }

def append (hashv : Hashv) (leaf : Bytes32) : EStateM ReferenceMerkleTreeError MerkleTree Unit := do
  let tree ← get
  let leaves ← mapErr id (tree.layer 0)
  set { tree with layers := tree.layers.set 0 (leaves ++ [leaf]) }
  let i := tree.rightmostIndex
  if tree.rightmostIndex = tree.capacity then throw (.hasher .integerOverflow)
  modify fun tree => { tree with rightmostIndex := tree.rightmostIndex + 1 }
  updateUpperLayers hashv i
  modify fun tree => { tree with sequenceNumber := tree.sequenceNumber + 1 }

def update (hashv : Hashv) (leaf : Bytes32) (leafIndex : Nat) : EStateM ReferenceMerkleTreeError MerkleTree Unit := do
  let tree ← get
  let leaves ← mapErr id (tree.layer 0)
  if leaves.length ≤ leafIndex then throw (.leafDoesNotExist leafIndex)
  set { tree with layers := tree.layers.set 0 (leaves.set leafIndex leaf) }
  updateUpperLayers hashv leafIndex
  modify fun tree => { tree with sequenceNumber := tree.sequenceNumber + 1 }

def root (tree : MerkleTree) : Except ReferenceMerkleTreeError Bytes32 :=
  match tree.roots.getLast? with
  | some root => .ok root
  | none => .error .panicked

/-- The loop of `get_proof_of_leaf` over the levels. -/
def proofLevels (tree : MerkleTree) : List Nat → Nat → Except ReferenceMerkleTreeError (List Bytes32)
  | [], _ => .ok []
  | level :: levels, index => do
    let siblingIndex := if index % 2 = 0 then index + 1 else index - 1
    let layer ← tree.layer level
    let proof ← proofLevels tree levels (index / 2)
    pure (layer.getD siblingIndex (zeroByte level) :: proof)

def getProofOfLeaf (tree : MerkleTree) (index : Nat) : Except ReferenceMerkleTreeError (List Bytes32) :=
  tree.proofLevels (List.range tree.height) index

end MerkleTree

/-! ### The indexed tree -/

inductive IndexedReferenceMerkleTreeError where
  | indexed (error : IndexedArrayError)
  | reference (error : ReferenceMerkleTreeError)
  deriving DecidableEq, Repr

structure IndexedMerkleTree where
  merkleTree : MerkleTree
  indexedArray : IndexedArray
  deriving DecidableEq, Repr

structure NonInclusionProof where
  root : Bytes32
  value : Bytes32
  leafLowerRangeValue : Bytes32
  leafHigherRangeValue : Bytes32
  leafIndex : Nat
  nextIndex : Nat
  merkleProof : List Bytes32
  deriving DecidableEq, Repr

namespace IndexedMerkleTree

def onTree {α : Type} (act : EStateM ReferenceMerkleTreeError MerkleTree α) :
    EStateM IndexedReferenceMerkleTreeError IndexedMerkleTree α :=
  within merkleTree (fun merkleTree tree => { tree with merkleTree }) .reference act

def onArray {α : Type} (act : EStateM IndexedArrayError IndexedArray α) :
    EStateM IndexedReferenceMerkleTreeError IndexedMerkleTree α :=
  within indexedArray (fun indexedArray tree => { tree with indexedArray }) .indexed act

/-- `new_with_next_value` with canopy depth zero. The hash of the first leaf is unwrapped. -/
def newWithNextValue (hashv : Hashv) (height initNextValue : Nat) :
    Except IndexedReferenceMerkleTreeError IndexedMerkleTree := do
  let merkleTree ← (MerkleTree.new height).mapError .reference
  let indexedArray := IndexedArray.new 0 initNextValue
  let first ← (indexedArray.element 0).mapError .indexed
  let newLeaf ← (first.hash hashv initNextValue).mapError fun _ => .indexed .panicked
  match (MerkleTree.append hashv newLeaf).run merkleTree with
  | .error error _ => .error (.reference error)
  | .ok _ merkleTree => .ok ⟨merkleTree, indexedArray⟩

def root (tree : IndexedMerkleTree) : Except IndexedReferenceMerkleTreeError Bytes32 :=
  tree.merkleTree.root.mapError .reference

def update (hashv : Hashv) (newLowElement newElement : IndexedElement) (newElementNextValue : Nat) :
    EStateM IndexedReferenceMerkleTreeError IndexedMerkleTree Unit := do
  let newLowLeaf ← mapErr .indexed (newLowElement.hash hashv newElement.value)
  onTree (MerkleTree.update hashv newLowLeaf newLowElement.index)
  let newLeaf ← mapErr .indexed (newElement.hash hashv newElementNextValue)
  onTree (MerkleTree.append hashv newLeaf)

def append (hashv : Hashv) (value : Nat) : EStateM IndexedReferenceMerkleTreeError IndexedMerkleTree Unit := do
  let bundle ← onArray (IndexedArray.append value)
  update hashv bundle.newLowElement bundle.newElement bundle.newElementNextValue

/-- The conversions to bytes are unwrapped, so that one that fails panics. -/
def toBytes (value : Nat) : Except IndexedReferenceMerkleTreeError Bytes32 :=
  (bigintToBeBytesArray value).mapError fun _ => .reference .panicked

def getNonInclusionProof (tree : IndexedMerkleTree) (value : Nat) :
    Except IndexedReferenceMerkleTreeError NonInclusionProof := do
  let (lowElement, _) ← (tree.indexedArray.findLowElementForNonexistent value).mapError .indexed
  let merkleProof ← (tree.merkleTree.getProofOfLeaf lowElement.index).mapError .reference
  let higherRangeValue ← (tree.indexedArray.nextValue lowElement).mapError .indexed
  let root ← tree.root
  let value ← toBytes value
  let leafLowerRangeValue ← toBytes lowElement.value
  let leafHigherRangeValue ← toBytes higherRangeValue
  pure {
    root
    value
    leafLowerRangeValue
    leafHigherRangeValue
    leafIndex := lowElement.index
    nextIndex := lowElement.nextIndex
    merkleProof }

end IndexedMerkleTree

end Zolana.Forester
