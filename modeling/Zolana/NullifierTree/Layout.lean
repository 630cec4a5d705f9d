import Zolana.NullifierTree.Batch

/-!
# The nullifier tree account

`layout.rs`, `init.rs` and `access.rs`: the zero-copy layout of a nullifier tree with its input
queue, its initialisation, and the read accessors.
-/

namespace Zolana

open Fallible

/-- A write cursor and the root slots it cycles through. -/
structure RootHistory (K : Nat) where
  currentIndex : Nat
  roots : Vector Bytes32 K
  deriving DecidableEq, Repr

structure NullifierTreeLayout (K : Nat) where
  sequenceNumber : Nat
  nextIndex : Nat
  height : Nat
  /-- Index of the batch accepting insertions. -/
  currentlyProcessingBatchIndex : Nat
  capacity : Nat
  batchSize : Nat
  zkpBatchSize : Nat
  /-- Next batch to be inserted into the tree. -/
  pendingBatchIndex : Nat
  /-- Queue index the next queued value takes, the leaf index it will occupy. -/
  queueNextIndex : Nat
  /-- Exclusive watermark: a nullifier PDA with `queue_index` below it may be closed. -/
  closeBeforeIndex : Nat
  rootHistory : RootHistory K
  batches : Vector (Batch K) numBatches
  deriving DecidableEq, Repr

abbrev TreeM (K : Nat) := EStateM NullifierTreeError (NullifierTreeLayout K)

def nullifierTreeInitRoot40 : Bytes32 :=
  0x1d8e71a601b3e8debbba9b557b8369c7f404ae57bebf0852236b072820954277#256

namespace NullifierTreeLayout

variable {K : Nat}

def zeroed (K : Nat) : NullifierTreeLayout K where
  sequenceNumber := 0
  nextIndex := 0
  height := 0
  currentlyProcessingBatchIndex := 0
  capacity := 0
  batchSize := 0
  zkpBatchSize := 0
  pendingBatchIndex := 0
  queueNextIndex := 0
  closeBeforeIndex := 0
  rootHistory := ⟨0, Vector.replicate K 0⟩
  batches := Vector.replicate numBatches (Batch.zeroed K)

def getBatch (tree : NullifierTreeLayout K) (index : Nat) : Option (Batch K) := tree.batches[index]?

def setBatch (index : Nat) (batch : Batch K) (tree : NullifierTreeLayout K) : NullifierTreeLayout K :=
  { tree with batches := tree.batches.setIfInBounds index batch }

/-- A method call on `get_current_batch_mut()?`. -/
def withCurrentBatch {α : Type} (act : BatchM K α) : TreeM K α :=
  zoom (fun tree => tree.getBatch tree.currentlyProcessingBatchIndex)
    (fun batch tree => tree.setBatch tree.currentlyProcessingBatchIndex batch)
    .invalidBatchIndex act

def getPendingBatch : TreeM K (Batch K) := do
  let tree ← get
  okOr (tree.getBatch tree.pendingBatchIndex) .invalidBatchIndex

/-- A method call on `get_pending_batch_mut()?`. -/
def withPendingBatch {α : Type} (act : BatchM K α) : TreeM K α :=
  zoom (fun tree => tree.getBatch tree.pendingBatchIndex)
    (fun batch tree => tree.setBatch tree.pendingBatchIndex batch)
    .invalidBatchIndex act

/-- One queue batch must hold exactly as many ZKP batches as the root history holds roots. -/
def validateConfiguration (K batchSize zkpBatchSize : Nat) : Except NullifierTreeError Unit :=
  if batchSize = 0 ∨ zkpBatchSize = 0 ∨ batchSize % zkpBatchSize ≠ 0 then
    .error .batchSizeNotDivisibleByZkpBatchSize
  else if batchSize / zkpBatchSize ≠ K then
    .error .invalidRootHistoryCapacity
  else
    .ok ()

def incrementPendingBatchIndexIfInserted (state : BatchState) (tree : NullifierTreeLayout K) :
    NullifierTreeLayout K :=
  if state = .inserted then
    { tree with pendingBatchIndex := (tree.pendingBatchIndex + 1) % numBatches }
  else
    tree

def incrementCurrentlyProcessingBatchIndexIfFull : TreeM K Unit := do
  let state ← withCurrentBatch Batch.checkedState
  if state = .full then
    modify fun tree =>
      { tree with
        currentlyProcessingBatchIndex := (tree.currentlyProcessingBatchIndex + 1) % numBatches }

/-- Initialises zeroed account data. Without the `test-only` feature any height but 40 is rejected:
the seeded root is the one of that height. -/
def init (testOnly : Bool) (inputQueueBatchSize inputQueueZkpBatchSize height : Nat) : TreeM K Unit := do
  mapErr id (validateConfiguration K inputQueueBatchSize inputQueueZkpBatchSize)
  let capacity ← okOr (checkedShl height) .invalidHeight
  if testOnly = false ∧ height ≠ 40 then
    throw .invalidHeight
  else
    modify fun tree =>
      { tree with
        sequenceNumber := 0
        nextIndex := 1
        height := height
        capacity := capacity
        closeBeforeIndex := 0 }
    let secondBatchStartIndex ← okOr (checkedAdd 1 inputQueueBatchSize) .arithmeticOverflow
    modify fun tree =>
      { tree with
        batchSize := inputQueueBatchSize
        zkpBatchSize := inputQueueZkpBatchSize
        currentlyProcessingBatchIndex := 0
        pendingBatchIndex := 0
        queueNextIndex := 1
        batches := #v[
          tree.batches[0].init inputQueueBatchSize inputQueueZkpBatchSize 1,
          tree.batches[1].init inputQueueBatchSize inputQueueZkpBatchSize secondBatchStartIndex] }
    let tree ← get
    if h : 0 < K then
      set { tree with
        rootHistory := ⟨1 % K, tree.rootHistory.roots.set 0 nullifierTreeInitRoot40⟩ }
    else
      throw .invalidRootHistoryCapacity

/-- The invariants loaders check before the layout is used. -/
def validate (tree : NullifierTreeLayout K) : Except NullifierTreeError Unit := do
  validateConfiguration K tree.batchSize tree.zkpBatchSize
  if K ≤ tree.rootHistory.currentIndex then
    .error .invalidRootHistoryCapacity
  else if numBatches ≤ tree.currentlyProcessingBatchIndex ∨ numBatches ≤ tree.pendingBatchIndex then
    .error .invalidBatchIndex
  else if tree.batches.any fun batch =>
      batch.batchSize != tree.batchSize || batch.zkpBatchSize != tree.zkpBatchSize then
    .error .invalidBatchConfiguration
  else
    .ok ()

def latestRootIndex (tree : NullifierTreeLayout K) : Nat :=
  if K = 0 then 0 else (tree.rootHistory.currentIndex + K - 1) % K

/-- The cast to `u32` keeps the low 32 bits. -/
def getRootIndex (tree : NullifierTreeLayout K) : Nat := tree.latestRootIndex % 2 ^ 32

def getRoot (tree : NullifierTreeLayout K) : Option Bytes32 :=
  tree.rootHistory.roots[tree.latestRootIndex]?

/-- A slot that was never written reads as absent. -/
def rootByIndex (tree : NullifierTreeLayout K) (index : UInt16) : Option Bytes32 :=
  match tree.rootHistory.roots[index.toNat]? with
  | none => none
  | some root => if root = 0 then none else some root

/-- True when `numLeaves` more values would exceed the tree capacity. -/
def treeIsFull (tree : NullifierTreeLayout K) (numLeaves : Nat) : Bool :=
  match checkedAdd tree.nextIndex numLeaves with
  | some endIndex => endIndex > tree.capacity
  | none => true

end NullifierTreeLayout

end Zolana
