import Zolana.NullifierTree.Layout

/-!
# Queue insertion and tree update

`queue_insert.rs`, `merkle_tree_update.rs` and the dispatch of `verify/mod.rs`. The pairing check of
the Groth16 verifier is not part of the repository. The update takes `verifyBatchUpdate` from its
environment, and `Env.onChain` is the environment the program runs in, with the verifying keys the
repository carries.
-/

namespace Zolana

open Fallible

/-- A Groth16 proof, `a(32) || b(128) || c(32)`. -/
structure NullifierTreeProof where
  a : Bytes32
  b : BitVec 1024
  c : Bytes32
  deriving DecidableEq, Repr

/-- The committed verifying keys. -/
inductive BatchAddressAppendKey where
  | batchAddressAppend40_10
  | batchAddressAppend40_4999
  deriving DecidableEq, Repr

/-- What the tree calls outside the repository: the Poseidon hash, and the proof check for a ZKP batch
size, a public input and a proof. -/
structure Env where
  hashv : Hashv
  verifyBatchUpdate : Nat → Bytes32 → NullifierTreeProof → Except NullifierTreeError Unit

/-- `verify_batch_update`: the two supported sizes have a verifying key. -/
def verifyBatchUpdate
    (verify : BatchAddressAppendKey → Bytes32 → NullifierTreeProof → Except NullifierTreeError Unit)
    (batchSize : Nat) (publicInputHash : Bytes32) (proof : NullifierTreeProof) :
    Except NullifierTreeError Unit :=
  match batchSize with
  | 10 => verify .batchAddressAppend40_10 publicInputHash proof
  | 4999 => verify .batchAddressAppend40_4999 publicInputHash proof
  | _ => .error .invalidBatchSize

def Env.onChain (hashv : Hashv)
    (verify : BatchAddressAppendKey → Bytes32 → NullifierTreeProof → Except NullifierTreeError Unit) : Env :=
  ⟨hashv, Zolana.verifyBatchUpdate verify⟩

structure InstructionDataBatchNullifyInputs where
  newRoot : Bytes32
  oldRoot : Bytes32
  zkpBatchIndex : UInt16
  proof : NullifierTreeProof
  deriving DecidableEq, Repr

/-- A cascade of `numUpdate` ZKP batch updates applied in one instruction. -/
structure NullifierTreeUpdateEvent where
  merkleTreePubkey : Bytes32
  zkpBatchSize : Nat
  oldNextIndex : Nat
  startSequenceNumber : Nat
  firstRootIndex : Nat
  numUpdate : Nat
  firstZkpBatchIndex : Nat
  newRoot : Bytes32
  deriving DecidableEq, Repr

/-- One iteration of the apply loop: the locals its event is built from, and the cached update with
the batch it came from. -/
structure AppliedUpdate where
  batchIndex : Nat
  zkpBatchIndex : Nat
  oldNextIndex : Nat
  sequenceNumber : Nat
  rootIndex : Nat
  oldRoot : Bytes32
  newRoot : Bytes32
  deriving DecidableEq, Repr

namespace NullifierTreeLayout

variable {K : Nat}

/-! ### Queue insertion -/

def checkedNextQueueIndex : TreeM K Nat := do
  let tree ← get
  if tree.capacity ≤ tree.queueNextIndex then
    throw .treeIsFull
  else
    pure tree.queueNextIndex

/-- Leaves not yet reserved by the queue. -/
def remainingQueueCapacity (tree : NullifierTreeLayout K) : Except NullifierTreeError Nat :=
  match checkedSub tree.capacity tree.queueNextIndex with
  | some remaining => .ok remaining
  | none => .error .arithmeticOverflow

def incrementQueueNextIndex : TreeM K Unit := do
  let queueNextIndex ← addU64 (← get).queueNextIndex 1
  modify fun tree => { tree with queueNextIndex := queueNextIndex }

/-- Adds one nullifier to the open hash chain of the current batch and returns the queue index it
reserved. -/
def insertNullifierIntoQueue (hashv : Hashv) (nullifier : Bytes32) : TreeM K Nat := do
  if isCanonicalBn254ScalarBe nullifier = false then
    throw .nonCanonicalFieldElement
  else
    let queueIndex ← checkedNextQueueIndex
    let batchSize := (← get).batchSize
    withCurrentBatch do
      Batch.ensureReadyToFill batchSize
      Batch.addToHashChain hashv nullifier
    incrementCurrentlyProcessingBatchIndexIfFull
    incrementQueueNextIndex
    pure queueIndex

/-! ### Caching a verified update -/

/-- Verifies one batch-update proof and caches the update in the slot of its ZKP batch. Returns
`false`, with no proof checked, when the ZKP batch is already applied. -/
def verifyProofCacheUpdate (env : Env) (instructionData : InstructionDataBatchNullifyInputs) :
    TreeM K Bool := do
  let zkpBatchSize := (← get).zkpBatchSize
  let zkpBatchIndex := instructionData.zkpBatchIndex.toNat
  let batch ← getPendingBatch
  let leavesHashChain ← okOr (batch.hashChain zkpBatchIndex) .zkpBatchIndexOutOfRange
  if batch.numFullZkpBatches ≤ zkpBatchIndex then
    throw .hashChainNotReady
  else if zkpBatchIndex < batch.getNumInsertedZkps then
    pure false
  else
    let zkpBatchStartIndex ←
      okOr ((checkedMul zkpBatchIndex zkpBatchSize).bind (checkedAdd batch.startIndex))
        .arithmeticOverflow
    let publicInputHash ← mapErr .hasher (env.hashv
      [instructionData.oldRoot, instructionData.newRoot, leavesHashChain,
        u64ToBytes32 zkpBatchStartIndex])
    mapErr id (env.verifyBatchUpdate zkpBatchSize publicInputHash instructionData.proof)
    withPendingBatch (Batch.cacheTreeUpdate zkpBatchIndex
      ⟨instructionData.oldRoot, instructionData.newRoot, 1⟩)
    pure true

/-! ### Applying cached updates -/

def checkTreeIsFull (numLeaves : Nat) : TreeM K Unit := do
  if (← get).treeIsFull numLeaves then
    throw .treeIsFull

def incrementMerkleTreeNextIndex (count : Nat) : TreeM K Unit := do
  let nextIndex ← addU64 (← get).nextIndex count
  modify fun tree => { tree with nextIndex := nextIndex }

def appendRoot (root : Bytes32) : TreeM K Unit := do
  let tree ← get
  let currentIndex := tree.rootHistory.currentIndex
  if h : currentIndex < K then
    set { tree with
      rootHistory := ⟨(currentIndex + 1) % K, tree.rootHistory.roots.set currentIndex root⟩ }
  else
    throw .invalidRootHistoryCapacity

/-- Runs before the pending index moves on, so the pending batch is the one just completed. -/
def advanceNullifierPdaCloseWatermark (pendingBatchState : BatchState) : TreeM K Unit := do
  if pendingBatchState = .inserted then
    let startIndex := (← getPendingBatch).startIndex
    modify fun tree => { tree with closeBeforeIndex := max tree.closeBeforeIndex startIndex }

/-- The part of step 3 that advances the tree: its next index, sequence number and root history. -/
def advanceTree (newRoot : Bytes32) : TreeM K Unit := do
  let zkpBatchSize := (← get).zkpBatchSize
  checkTreeIsFull zkpBatchSize
  incrementMerkleTreeNextIndex zkpBatchSize
  let sequenceNumber ← addU64 (← get).sequenceNumber 1
  modify fun tree => { tree with sequenceNumber := sequenceNumber }
  appendRoot newRoot

/-- The rest of step 3 and step 4: the pending batch counts its ZKP batch as applied and clears the
slot, and a batch that is complete moves the watermark and the pending index. -/
def markApplied (zkpBatchIndex : Nat) : TreeM K Unit := do
  let pendingBatchState ← withPendingBatch do
    let state ← Batch.markAsInsertedInMerkleTree
    Batch.clearCachedTreeUpdate zkpBatchIndex
    pure state
  advanceNullifierPdaCloseWatermark pendingBatchState
  modify (incrementPendingBatchIndexIfInserted pendingBatchState)

/-- The body of the apply loop. `none` means the loop ends here: the next slot is empty, or its
update starts from another root and is evicted. -/
def applyNextCachedUpdate : TreeM K (Option AppliedUpdate) := do
  let pendingBatch ← getPendingBatch
  let zkpBatchIndex := pendingBatch.getNumInsertedZkps
  match pendingBatch.cachedTreeUpdate zkpBatchIndex with
  | none => pure none
  | some cachedUpdate => do
    let tree ← get
    let currentRoot ← okOr tree.getRoot .invalidIndex
    if cachedUpdate.oldRoot ≠ currentRoot then
      withPendingBatch (Batch.evictCachedTreeUpdate zkpBatchIndex)
      pure none
    else
      advanceTree cachedUpdate.newRoot
      let advanced ← get
      markApplied zkpBatchIndex
      pure (some {
        batchIndex := tree.pendingBatchIndex
        zkpBatchIndex := zkpBatchIndex
        oldNextIndex := tree.nextIndex
        sequenceNumber := advanced.sequenceNumber
        rootIndex := advanced.getRootIndex
        oldRoot := cachedUpdate.oldRoot
        newRoot := cachedUpdate.newRoot })

/-- Step 5 of the loop: the first applied update fixes the shared fields of the event, every one
advances the count and the final root. -/
def recordUpdate (merkleTreePubkey : Bytes32) (zkpBatchSize : Nat)
    (event : Option NullifierTreeUpdateEvent) (update : AppliedUpdate) : Option NullifierTreeUpdateEvent :=
  let event := event.getD {
    merkleTreePubkey := merkleTreePubkey
    zkpBatchSize := zkpBatchSize % 2 ^ 16
    oldNextIndex := update.oldNextIndex
    startSequenceNumber := update.sequenceNumber
    firstRootIndex := update.rootIndex
    numUpdate := 0
    firstZkpBatchIndex := update.zkpBatchIndex % 2 ^ 32
    newRoot := update.newRoot }
  some { event with numUpdate := event.numUpdate + 1, newRoot := update.newRoot }

/-- What the apply loop returns: the event, and next to it the applied updates in order, which the
source does not return. -/
structure Cascade where
  event : Option NullifierTreeUpdateEvent
  applied : List AppliedUpdate
  deriving DecidableEq, Repr

/-- The apply loop, at most `fuel` iterations. -/
def applyLoop (merkleTreePubkey : Bytes32) (zkpBatchSize : Nat) : Nat → Cascade → TreeM K Cascade
  | 0, cascade => pure cascade
  | fuel + 1, cascade => do
      match ← applyNextCachedUpdate with
      | none => pure cascade
      | some update =>
          applyLoop merkleTreePubkey zkpBatchSize fuel
            ⟨recordUpdate merkleTreePubkey zkpBatchSize cascade.event update,
              cascade.applied ++ [update]⟩

/-- Applies cached updates in order while each starts from the current root. The source loops without
a bound; every iteration that continues empties a cache slot, so one more iteration than there are
slots is never used up. -/
def applyCachedTreeUpdates (merkleTreePubkey : Bytes32) : TreeM K Cascade := do
  let zkpBatchSize := (← get).zkpBatchSize
  applyLoop merkleTreePubkey zkpBatchSize (numBatches * K + 1) ⟨none, []⟩

/-- Verifies one batch-update proof and applies every cached update that is now applicable. -/
def updateTreeFromQueue (env : Env) (merkleTreePubkey : Bytes32)
    (instructionData : InstructionDataBatchNullifyInputs) : TreeM K Cascade := do
  if isCanonicalBn254ScalarBe instructionData.oldRoot = false ∨
      isCanonicalBn254ScalarBe instructionData.newRoot = false then
    throw .nonCanonicalFieldElement
  else if ← verifyProofCacheUpdate env instructionData then
    applyCachedTreeUpdates merkleTreePubkey
  else
    pure ⟨none, []⟩

end NullifierTreeLayout

end Zolana
