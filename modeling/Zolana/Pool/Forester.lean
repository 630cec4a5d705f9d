import Zolana.Pool.Spend

/-!
# Forester instructions

`batch_update_nullifier_tree` applies queued nullifiers to the tree, `close_nullifier_pdas` closes the
PDAs below the watermark. The caller's authority is not modelled: both may be called by anyone.
-/

namespace Zolana

open Fallible

variable {HEIGHT K : Nat}

/-- The update on a loaded tree, and the reimbursement taken for it. -/
def updateNullifierTree (env : Env) (address : Address) (instruction : InstructionDataBatchNullifyInputs) :
    EStateM ProgramError (TreeAccountLayout HEIGHT K) (Option (NullifierTreeUpdateEvent × Nat)) := do
  let cascade ← nullifierMethod nullifierTreeError
    (NullifierTreeLayout.updateTreeFromQueue env address instruction)
  match cascade.event with
  | none => pure none
  | some event =>
    let paid ← treeMethod treeError (TreeAccountLayout.takeAppendReimbursement event.numUpdate)
    pure (some (event, paid))

def processBatchUpdateNullifierTree (env : PoolEnv) (tree reimbursementRecipient : Address)
    (instruction : InstructionDataBatchNullifyInputs) : PoolM HEIGHT K (Option NullifierTreeUpdateEvent) := do
  checkReimbursementRecipient reimbursementRecipient
  match ← withTree (.custom ∘ .ofTreeError) tree (updateNullifierTree env.tree tree instruction) with
  | none => pure none
  | some (event, paid) =>
    payReimbursement env.runtime tree reimbursementRecipient paid
    pure (some event)

/-- The id and the watermark of a loaded tree, and the reimbursement for `closed` PDAs. -/
def takeClose (closed : Nat) : EStateM ProgramError (TreeAccountLayout HEIGHT K) (UInt16 × Nat × Nat) := do
  let tree ← get
  modify (TreeAccountLayout.recordNullifierPdasClosed closed)
  let paid ← treeMethod treeError (TreeAccountLayout.takeCloseReimbursement closed)
  pure (tree.treeId, tree.nullifier.closeBeforeIndex, paid)

def closePdas (treeId : UInt16) (closeBeforeIndex : Nat) (tree : Address) : List Address → PoolM HEIGHT K Unit
  | [] => pure ()
  | nullifierPda :: nullifierPdas => do
    closeNullifierPda treeId closeBeforeIndex tree nullifierPda
    closePdas treeId closeBeforeIndex tree nullifierPdas

def processCloseNullifierPdas (env : PoolEnv) (tree reimbursementRecipient : Address)
    (nullifierPdas : List Address) : PoolM HEIGHT K Unit := do
  checkReimbursementRecipient reimbursementRecipient
  if nullifierPdas = [] then
    throw (.custom .invalidInstructionData)
  else
    let (treeId, closeBeforeIndex, paid) ← withTree treeError tree (takeClose nullifierPdas.length)
    closePdas treeId closeBeforeIndex tree nullifierPdas
    payReimbursement env.runtime tree reimbursementRecipient paid

end Zolana
