import Zolana.Pool.Spend

/-!
# Fee and pause instructions

`set_tree_fees`, `claim_tree_lamports` and `pause_tree`. As with the forester's instructions the caller's
authority is not modelled. All three load a paused tree.
-/

namespace Zolana

open Fallible

variable {HEIGHT K : Nat}

/-! ### Methods of the tree account -/

namespace TreeAccountLayout

def setFeeSchedule (fees : TreeFeeSchedule) : TreeAccountM HEIGHT K Unit := do
  mapErr id fees.validate
  modify fun tree => { tree with fees }

/-- The fee balance the open PDAs may still draw: a close each, and an append for each ZKP batch they
span. -/
def feeBalanceReserve (tree : TreeAccountLayout HEIGHT K) : Nat :=
  let live := tree.liveNullifierPdas
  let appends := match tree.nullifier.zkpBatchSize with
    | 0 => live
    | zkpBatchSize => (live + zkpBatchSize - 1) / zkpBatchSize
  saturatingAdd (saturatingMul live tree.fees.closeReimbursement)
    (saturatingMul appends tree.fees.appendReimbursement)

/-- Lowers the fee balance to the reserve. -/
def releaseFeeSurplus (tree : TreeAccountLayout HEIGHT K) : TreeAccountLayout HEIGHT K :=
  { tree with feeBalance := tree.feeBalance - (tree.feeBalance - tree.feeBalanceReserve) }

def setPaused (paused : Bool) (tree : TreeAccountLayout HEIGHT K) : TreeAccountLayout HEIGHT K :=
  { tree with state := if paused then .paused else .initialized }

end TreeAccountLayout

/-! ### Loading -/

def withTreeAllowPaused {α : Type} (mapError : TreeError → ProgramError) (address : Address)
    (act : EStateM ProgramError (TreeAccountLayout HEIGHT K) α) : PoolM HEIGHT K α := do
  let _ ← loadChecked mapError address
  zoom (fun ledger => ledger.tree address) (fun tree ledger => ledger.setData address (.tree tree))
    (.custom .invalidTreeAccounts) act

/-! ### The processors -/

def processSetTreeFees (tree : Address) (fees : TreeFeeSchedule) : PoolM HEIGHT K Unit :=
  withTreeAllowPaused treeError tree (treeMethod treeError (TreeAccountLayout.setFeeSchedule fees))

def processPauseTree (tree : Address) (paused : Bool) : PoolM HEIGHT K Unit :=
  withTreeAllowPaused (.custom ∘ .ofTreeError) tree (modify (TreeAccountLayout.setPaused paused))

/-- Rent for every nullifier PDA that may still be created while `liveNullifierPdas` are open. -/
def treeLiquidWorkingCapitalLamports (inputQueueBatchSize liveNullifierPdas nullifierPdaRent : Nat) :
    Option Nat := do
  let batches ← checkedAdd numBatches 1
  let pdas ← checkedMul batches inputQueueBatchSize
  checkedMul (pdas - liveNullifierPdas) nullifierPdaRent

def payReimbursementWithRentMinimum (tree recipient : Address) (paid rentMinimum : Nat) :
    PoolM HEIGHT K Unit := do
  let ledger ← get
  if (ledger tree).lamports < paid ∨ (ledger tree).lamports - paid < rentMinimum then
    throw (.custom .insufficientForesterFeeBalance)
  else
    let recipientBalance ←
      okOr (checkedAdd (ledger recipient).lamports paid) (ProgramError.custom .invalidForesterFee)
    modify (Ledger.setLamports tree ((ledger tree).lamports - paid))
    modify (Ledger.setLamports recipient recipientBalance)

/-- What a claim leaves in a loaded tree: rent, the lowered fee balance and the working capital. -/
def claimReserve (runtime : Runtime) : EStateM ProgramError (TreeAccountLayout HEIGHT K) Nat := do
  modify TreeAccountLayout.releaseFeeSurplus
  let tree ← get
  let workingCapital ←
    okOr (treeLiquidWorkingCapitalLamports tree.nullifier.batchSize tree.liveNullifierPdas
      runtime.nullifierPdaRentMinimum) ProgramError.arithmeticOverflow
  let reserve ← okOr (checkedAdd runtime.treeRentMinimum tree.feeBalance)
    ProgramError.arithmeticOverflow
  okOr (checkedAdd reserve workingCapital) ProgramError.arithmeticOverflow

def processClaimTreeLamports (runtime : Runtime) (tree recipient : Address) : PoolM HEIGHT K Unit := do
  checkReimbursementRecipient recipient
  let reserve ← withTreeAllowPaused treeError tree (claimReserve runtime)
  let claimable := ((← get) tree).lamports - reserve
  if claimable = 0 then
    throw (.custom .noClaimableTreeLamports)
  else
    payReimbursementWithRentMinimum tree recipient claimable reserve

end Zolana
