import Zolana.Lib.Fallible
import Zolana.Hasher.HashChain

/-!
# A queue batch

`batch.rs` of the tree crate. A batch collects queued values into ZKP batches, one hash chain for
each, and is then applied to the tree one ZKP batch at a time. `K` is the const generic
`ZKP_BATCHES`, the length of both arrays.

The workspace builds releases with `overflow-checks = true`, so a plain `+` or `*` on a `u64` aborts
instead of wrapping. `addU64` and `mulU64` are those operators.
-/

namespace Zolana

open Fallible

/-- `NullifierTreeError`, and one more case for an arithmetic operation that aborts the program. -/
inductive NullifierTreeError where
  | batchNotReady
  | batchAlreadyInserted
  | batchSizeNotDivisibleByZkpBatchSize
  | invalidBatchIndex
  | invalidIndex
  | invalidBatchState
  | invalidBatchConfiguration
  | treeIsFull
  | nonCanonicalFieldElement
  | arithmeticOverflow
  | zkpBatchIndexOutOfRange
  | hashChainNotReady
  | hashChainFull
  | invalidHeight
  | invalidRootHistoryCapacity
  | invalidAccountSize
  | decompressG1Failed
  | createGroth16VerifierFailed
  | proofVerificationFailed
  | invalidBatchSize
  | hasher (error : HasherError)
  | overflowPanic
  deriving DecidableEq, Repr

def addU64 {σ : Type} (a b : Nat) : EStateM NullifierTreeError σ Nat :=
  okOr (checkedAdd a b) .overflowPanic

def mulU64 {σ : Type} (a b : Nat) : EStateM NullifierTreeError σ Nat :=
  okOr (checkedMul a b) .overflowPanic

def numBatches : Nat := 2

/-- `Fill -> Full -> Inserted -> Fill`. A batch is pending while `Fill` or `Full`. -/
inductive BatchState where
  | fill
  | inserted
  | full
  deriving DecidableEq, Repr

def BatchState.toU64 : BatchState → Nat
  | .fill => 0
  | .inserted => 1
  | .full => 2

/-- A verified update waiting in the slot of its ZKP batch. A zeroed slot is empty. -/
structure CachedTreeUpdate where
  oldRoot : Bytes32
  newRoot : Bytes32
  occupied : Nat
  deriving DecidableEq, Repr

def CachedTreeUpdate.zeroed : CachedTreeUpdate := ⟨0, 0, 0⟩

def CachedTreeUpdate.isOccupied (update : CachedTreeUpdate) : Bool := update.occupied != 0

/-- The inputs of the Poseidon call that absorbs the pending values and one more, padded with zeros. -/
def absorbInputs (hashChain : Bytes32) (pendingValues : Vector Bytes32 2) (numPending : Nat)
    (value : Bytes32) : List Bytes32 :=
  match numPending with
  | 0 => [hashChain, value, 0, 0]
  | 1 => [hashChain, pendingValues[0], value, 0]
  | _ => [hashChain, pendingValues[0], pendingValues[1], value]

structure Batch (K : Nat) where
  /-- Elements in the ZKP batch currently being filled. -/
  numInserted : Nat
  state : Nat
  /-- ZKP batches whose hash chain is complete. -/
  numFullZkpBatches : Nat
  /-- ZKP batches applied to the tree. -/
  numInsertedZkpBatches : Nat
  batchSize : Nat
  zkpBatchSize : Nat
  /-- Leaf index of the first element. -/
  startIndex : Nat
  /-- Values of the open ZKP batch that its hash chain has not absorbed yet. -/
  pendingValues : Vector Bytes32 2
  hashChains : Vector Bytes32 K
  cachedTreeUpdates : Vector CachedTreeUpdate K
  deriving DecidableEq, Repr

abbrev BatchM (K : Nat) := EStateM NullifierTreeError (Batch K)

namespace Batch

variable {K : Nat}

def zeroed (K : Nat) : Batch K where
  numInserted := 0
  state := 0
  numFullZkpBatches := 0
  numInsertedZkpBatches := 0
  batchSize := 0
  zkpBatchSize := 0
  startIndex := 0
  pendingValues := Vector.replicate 2 0
  hashChains := Vector.replicate K 0
  cachedTreeUpdates := Vector.replicate K .zeroed

/-- Resets the counters. The hash chains and cached updates are left as they are. -/
def reset (batchSize zkpBatchSize startIndex : Nat) (batch : Batch K) : Batch K :=
  { batch with
    numInserted := 0
    state := BatchState.fill.toU64
    numFullZkpBatches := 0
    numInsertedZkpBatches := 0
    batchSize := batchSize
    zkpBatchSize := zkpBatchSize
    startIndex := startIndex }

def init (batchSize zkpBatchSize startIndex : Nat) (batch : Batch K) : Batch K :=
  batch.reset batchSize zkpBatchSize startIndex

def hashChain (batch : Batch K) (zkpBatchIndex : Nat) : Option Bytes32 :=
  batch.hashChains[zkpBatchIndex]?

def cachedTreeUpdate (batch : Batch K) (zkpBatchIndex : Nat) : Option CachedTreeUpdate :=
  batch.cachedTreeUpdates[zkpBatchIndex]?.filter CachedTreeUpdate.isOccupied

def cacheTreeUpdate (zkpBatchIndex : Nat) (update : CachedTreeUpdate) : BatchM K Unit := do
  let batch ← get
  if h : zkpBatchIndex < K then
    set { batch with cachedTreeUpdates := batch.cachedTreeUpdates.set zkpBatchIndex update }
  else
    throw .zkpBatchIndexOutOfRange

/-- Empties a cache slot. The hash chain survives: a replacement proof is verified against it. -/
def evictCachedTreeUpdate (zkpBatchIndex : Nat) : BatchM K Unit :=
  cacheTreeUpdate zkpBatchIndex .zeroed

/-- Empties a cache slot and the hash chain its update was verified against. -/
def clearCachedTreeUpdate (zkpBatchIndex : Nat) : BatchM K Unit := do
  evictCachedTreeUpdate zkpBatchIndex
  let batch ← get
  if h : zkpBatchIndex < K then
    set { batch with hashChains := batch.hashChains.set zkpBatchIndex 0 }
  else
    throw .zkpBatchIndexOutOfRange

def tryGetState (batch : Batch K) : Option BatchState :=
  match batch.state with
  | 0 => some .fill
  | 1 => some .inserted
  | 2 => some .full
  | _ => none

def checkedState : BatchM K BatchState := do
  let batch ← get
  okOr batch.tryGetState .invalidBatchState

def advanceStateToFill (startIndex : Nat) : BatchM K Unit := do
  if (← checkedState) ≠ .inserted then
    throw .batchNotReady
  else
    modify fun batch => batch.reset batch.batchSize batch.zkpBatchSize startIndex

/-- Reuses an inserted batch for the queue range one rotation ahead. -/
def ensureReadyToFill (batchSize : Nat) : BatchM K Unit := do
  match ← checkedState with
  | .fill => pure ()
  | .inserted => do
      let rotation ← mulU64 batchSize numBatches
      let startIndex ← okOr (checkedAdd (← get).startIndex rotation) .arithmeticOverflow
      advanceStateToFill startIndex
  | .full => throw .batchNotReady

def advanceStateToInserted : BatchM K Unit := do
  if (← checkedState) = .full then
    modify fun batch => { batch with state := BatchState.inserted.toU64 }
  else
    throw .batchNotReady

def advanceStateToFull : BatchM K Unit := do
  if (← checkedState) = .fill then
    modify fun batch => { batch with state := BatchState.full.toU64 }
  else
    throw .batchNotReady

def batchIsReadyToInsert (batch : Batch K) : Bool :=
  batch.numFullZkpBatches > batch.numInsertedZkpBatches

def getFirstReadyZkpBatch : BatchM K Nat := do
  let state ← checkedState
  let batch ← get
  if state = .inserted then
    throw .batchAlreadyInserted
  else if batch.batchIsReadyToInsert then
    pure batch.numInsertedZkpBatches
  else
    throw .batchNotReady

def getNumInsertedZkps (batch : Batch K) : Nat := batch.numInsertedZkpBatches

def getNumZkpBatches (batch : Batch K) : Nat := batch.batchSize / batch.zkpBatchSize

/-- How many values wait in `pendingValues`: the first value of a ZKP batch is the chain head and
every later group of three is absorbed at once. -/
def numPending (batch : Batch K) : Nat := (batch.numInserted - 1) % 3

/-- Steps 2 and 3 of `add_to_hash_chain`: the first value of a ZKP batch starts its chain, a later one
joins the pending group, and the group is absorbed once it holds three values or the ZKP batch is
complete. -/
def absorbValue (hashv : Hashv) (value : Bytes32) (zkpBatchIsFull : Bool) : BatchM K Unit := do
  let batch ← get
  if h : batch.numFullZkpBatches < K then
    if batch.numInserted = 0 then
      set { batch with hashChains := batch.hashChains.set batch.numFullZkpBatches value }
    else if batch.numPending = 2 ∨ zkpBatchIsFull = true then
      let hashChain := batch.hashChains[batch.numFullZkpBatches]
      let hash ← mapErr .hasher
        (hashv (absorbInputs hashChain batch.pendingValues batch.numPending value))
      set { batch with hashChains := batch.hashChains.set batch.numFullZkpBatches hash }
    else if batch.numPending = 0 then
      set { batch with pendingValues := batch.pendingValues.set 0 value }
    else
      set { batch with pendingValues := batch.pendingValues.set 1 value }
  else
    throw .hashChainFull

/-- Steps 4 and 5: a complete ZKP batch opens the next one, and the last one makes the batch `Full`. -/
def countValue (numInserted : Nat) : BatchM K Unit := do
  modify fun batch => { batch with numInserted := numInserted }
  let batch ← get
  if numInserted = batch.zkpBatchSize then
    let numFullZkpBatches ← addU64 batch.numFullZkpBatches 1
    modify fun batch => { batch with numFullZkpBatches := numFullZkpBatches, numInserted := 0 }
    if numFullZkpBatches = batch.getNumZkpBatches then
      advanceStateToFull

/-- Extends the hash chain of the open ZKP batch and advances the counters. -/
def addToHashChain (hashv : Hashv) (value : Bytes32) : BatchM K Unit := do
  if (← checkedState) ≠ .fill then
    throw .batchNotReady
  else
    let batch ← get
    let numInserted ← addU64 batch.numInserted 1
    absorbValue hashv value (numInserted = batch.zkpBatchSize)
    countValue numInserted

/-- Counts the next ZKP batch as applied; the batch is `Inserted` once the last one is. -/
def markAsInsertedInMerkleTree : BatchM K BatchState := do
  let _ ← getFirstReadyZkpBatch
  let batch ← get
  let numInsertedZkpBatches ← addU64 batch.numInsertedZkpBatches 1
  modify fun batch => { batch with numInsertedZkpBatches := numInsertedZkpBatches }
  if numInsertedZkpBatches = batch.getNumZkpBatches then
    advanceStateToInserted
  checkedState

end Batch

end Zolana
