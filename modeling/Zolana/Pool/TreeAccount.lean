import Zolana.NullifierTree.Update
import Zolana.UtxoTree.Layout

/-!
# The tree account

`TreeAccount` of `program-libs/tree`: one account with the UTXO tree, the nullifier tree and the fee
accounting. The source pins the two const generics to 32 and 100.
-/

namespace Zolana

open Fallible

def maxFeePerTree : Nat := 1000000

structure TreeFeeSchedule where
  /-- Paid once by a transact or merge to every tree it writes. -/
  feePerTree : Nat
  appendReimbursement : Nat
  closeReimbursement : Nat
  deriving DecidableEq, Repr

def TreeFeeSchedule.validate (fees : TreeFeeSchedule) : Except TreeError Unit :=
  if maxFeePerTree < fees.feePerTree then .error .feeTooHigh else .ok ()

/-- The `state` byte. -/
inductive TreeState where
  | uninitialized
  | initialized
  | paused
  deriving DecidableEq, Repr

structure TreeAccountLayout (HEIGHT K : Nat) where
  state : TreeState
  treeId : UInt16
  fees : TreeFeeSchedule
  feeBalance : Nat
  /-- Nullifier PDAs this tree funded that are still open. -/
  liveNullifierPdas : Nat
  utxo : UtxoTreeLayout HEIGHT
  nullifier : NullifierTreeLayout K
  deriving DecidableEq, Repr

structure NullifierTreeInitParams where
  inputQueueBatchSize : Nat
  inputQueueZkpBatchSize : Nat
  height : Nat
  deriving DecidableEq, Repr

/-- The ZKP batch sizes with a committed verifying key. -/
def supportedZkpBatchSizes : List Nat := [10, 4999]

def NullifierTreeInitParams.validate (K : Nat) (params : NullifierTreeInitParams) : Except TreeError Unit :=
  if params.height ≠ 40 ∨ params.inputQueueZkpBatchSize ∉ supportedZkpBatchSizes then
    .error .nullifierInit
  else
    match NullifierTreeLayout.validateConfiguration K params.inputQueueBatchSize
        params.inputQueueZkpBatchSize with
    | .ok () => .ok ()
    | .error _ => .error .nullifierInit

/-- `tree_id_array`: the id as a field element. -/
def treeIdField (treeId : UInt16) : Bytes32 := BitVec.ofNat 256 treeId.toNat

abbrev TreeAccountM (HEIGHT K : Nat) := EStateM TreeError (TreeAccountLayout HEIGHT K)

namespace TreeAccountLayout

variable {HEIGHT K : Nat}

def zeroed (HEIGHT K : Nat) : TreeAccountLayout HEIGHT K where
  state := .uninitialized
  treeId := 0
  fees := ⟨0, 0, 0⟩
  feeBalance := 0
  liveNullifierPdas := 0
  utxo := ⟨0, 0, 0, 0, 0, 0, 0, Vector.replicate HEIGHT 0, Vector.replicate rootHistoryCapacity 0⟩
  nullifier := NullifierTreeLayout.zeroed K

/-- `TreeAccount::init` on a buffer of the layout's size. -/
def init (utxoTreeHeight : Nat) (treeId : UInt16) (nullifierParams : NullifierTreeInitParams)
    (fees : TreeFeeSchedule) : TreeAccountM HEIGHT K Unit := do
  if utxoTreeHeight ≠ HEIGHT then
    throw .heightTooLarge
  else
    mapErr id (nullifierParams.validate K)
    mapErr id fees.validate
    if (← get).state ≠ .uninitialized then
      throw .alreadyInitialized
    else
      modify fun tree =>
        { tree with state := .initialized, treeId, fees, feeBalance := 0, liveNullifierPdas := 0 }
      let tree ← get
      match (UtxoTreeLayout.init utxoTreeHeight).run tree.utxo,
          (NullifierTreeLayout.init false nullifierParams.inputQueueBatchSize
            nullifierParams.inputQueueZkpBatchSize nullifierParams.height).run tree.nullifier with
      | .ok () utxo, .ok () nullifier => set { tree with utxo, nullifier }
      | .error e _, _ => throw e
      | _, .error _ _ => throw .nullifierInit

def checkLayout (tree : TreeAccountLayout HEIGHT K) : Except TreeError Unit := do
  tree.utxo.checkLayout
  match tree.nullifier.validate with
  | .ok () => .ok ()
  | .error _ => .error .deserialize

/-- Nullifier slots above the reserve for the whole state tree. -/
def dummyInputHeadroom (tree : TreeAccountLayout HEIGHT K) : Except TreeError Nat :=
  match tree.nullifier.remainingQueueCapacity with
  | .ok remaining => .ok (remaining - tree.utxo.capacity)
  | .error _ => .error .invalidCapacity

def getNullifierTreeRoot (tree : TreeAccountLayout HEIGHT K) (index : UInt16) : Except TreeError Bytes32 :=
  match tree.nullifier.rootByIndex index with
  | some root => .ok root
  | none => .error .invalidRootIndex

def getUtxoTreeRoot (tree : TreeAccountLayout HEIGHT K) (index : UInt16) : Except TreeError Bytes32 :=
  tree.utxo.rootByIndex index

/-! ### Fees -/

/-- Credits one `fee_per_tree` and returns what the caller collects. -/
def creditTreeFee : TreeAccountM HEIGHT K Nat := do
  let tree ← get
  let fee := tree.fees.feePerTree
  let feeBalance ← okOr (checkedAdd tree.feeBalance fee) .feeOverflow
  set { tree with feeBalance }
  pure fee

def recordNullifierPdasCreated (queued : Nat) (tree : TreeAccountLayout HEIGHT K) :
    TreeAccountLayout HEIGHT K :=
  { tree with liveNullifierPdas := saturatingAdd tree.liveNullifierPdas queued }

def recordNullifierPdasClosed (closed : Nat) (tree : TreeAccountLayout HEIGHT K) : TreeAccountLayout HEIGHT K :=
  { tree with liveNullifierPdas := tree.liveNullifierPdas - closed }

def takeReimbursement (rate count : Nat) : TreeAccountM HEIGHT K Nat := do
  let tree ← get
  let paid := min (saturatingMul rate count) tree.feeBalance
  set { tree with feeBalance := tree.feeBalance - paid }
  pure paid

def takeAppendReimbursement (numUpdate : Nat) : TreeAccountM HEIGHT K Nat := do
  takeReimbursement (← get).fees.appendReimbursement numUpdate

def takeCloseReimbursement (closed : Nat) : TreeAccountM HEIGHT K Nat := do
  takeReimbursement (← get).fees.closeReimbursement closed

end TreeAccountLayout

end Zolana
