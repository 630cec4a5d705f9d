import Zolana.Pool.Spend

/-!
# Merge

`instructions/merge`: every input comes from one tree and there is one output. The owner's registry
record and the cache are not modelled.
-/

namespace Zolana

open Fallible

variable {HEIGHT K : Nat}

def mergeSupportedInputCounts : List Nat := [8, 24, 52]

/-- The narrowest circuit that holds the inputs. -/
def mergeCircuitWidth (inputCount : Nat) : Option Nat :=
  if inputCount = 0 then none else mergeSupportedInputCounts.find? (inputCount ≤ ·)

structure MergeIx where
  expiryUnixTs : Nat
  nullifiers : List Bytes32
  outputUtxoHash : Bytes32
  context : TreeContext
  privateTxHash : Bytes32
  proof : List UInt8
  deriving DecidableEq, Repr

structure MergeAccounts where
  payer : Address
  inputTree : Address
  outputTree : Address
  nullifierPdas : List Address
  deriving DecidableEq, Repr

def boolField (value : Bool) : Bytes32 := BitVec.ofNat 256 value.toNat

/-- `validate_shape` and `validate_field_elements`. A merge does not check its output for zero. -/
def validateMerge (ix : MergeIx) : PoolM HEIGHT K Unit := do
  if mergeCircuitWidth ix.nullifiers.length = none then
    throw (.custom .invalidMergeShape)
  else
    checkFieldElements ix.nullifiers .nonCanonicalInputNullifier
    checkNonzeroFieldElements ix.nullifiers .zeroInputNullifier
    checkFieldElements [ix.outputUtxoHash] .nonCanonicalOutputUtxoHash
    checkFieldElements [ix.privateTxHash] .nonCanonicalPrivateTxHash

structure MergeTreeWrite where
  outputLeafIndex : Nat
  outputTreeId : UInt16
  deriving DecidableEq, Repr

/-- Appends the output and credits the fee of a tree that is no input tree. -/
def applyMergeOutput (hashv : Hashv) (outputTree : Address) (outputUtxoHash : Bytes32) (slot : Nat)
    (isInputTree : Bool) : PoolM HEIGHT K (MergeTreeWrite × Nat) :=
  withTree treeError outputTree do
    let outputTreeId := (← get).treeId
    let outputLeafIndex := (← get).utxo.nextIndex
    utxoMethod (UtxoTreeLayout.append hashv outputUtxoHash slot)
    let treeFee ← creditOutputTreeFee isInputTree
    pure (⟨outputLeafIndex, outputTreeId⟩, treeFee)

/-- `process_merge_core` behind the checks of its callers. The account parser collects one PDA for each
nullifier. -/
def processMerge (env : PoolEnv) (accounts : MergeAccounts) (ix : MergeIx) (clock : Clock) :
    PoolM HEIGHT K (SpendEvent × SpendProof) := do
  validateMerge ix
  checkNotExpired ix.expiryUnixTs clock
  if accounts.nullifierPdas.length ≠ ix.nullifiers.length then
    throw (.custom .invalidMergeShape)
  else
    let queued ← withTree treeError accounts.inputTree
      (queueInputs env.tree.hashv accounts.inputTree (resolveTreeSlot ix.context) ix.nullifiers
        ix.nullifiers.length)
    createNullifierPdas env.runtime accounts.payer (accounts.nullifierPdas.zip ix.nullifiers)
      queued.result
    let (treeWrite, outputTreeFee) ← applyMergeOutput env.tree.hashv accounts.outputTree
      ix.outputUtxoHash clock.slot (accounts.outputTree = accounts.inputTree)
    collectTreeFee accounts.payer accounts.outputTree outputTreeFee
    let proofInputs : MergeProofInputs :=
      { nullifiers := ix.nullifiers
        outputUtxoHash := ix.outputUtxoHash
        treeSlot := queued.slot
        outputTreeId := treeIdField treeWrite.outputTreeId
        privateTxHash := ix.privateTxHash
        allowDummyInputs := boolField queued.allowDummyInputs }
    mapErr .custom (env.verifyMerge proofInputs ix.proof)
    let event : SpendEvent :=
      { inputTrees := [(queued.result.tree, queued.result.firstInputQueueSeq)]
        outputTree := accounts.outputTree
        firstOutputLeafIndex := treeWrite.outputLeafIndex }
    pure (event, .merge proofInputs ix.proof)

end Zolana
