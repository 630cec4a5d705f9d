import Zolana.Pool.Forester
import Zolana.Pool.Merge
import Zolana.Pool.Transact

/-!
# Runs of the pool

A run is any sequence of the modelled instructions on a ledger of freshly initialised trees. Next to the
ledger it keeps what the properties speak about and no account stores: the accepted spends, the batch
updates and the proofs that were verified, each in order.
-/

namespace Zolana

variable {HEIGHT K : Nat}

inductive Instruction where
  | transact (accounts : TransactAccounts) (ix : TransactIx) (clock : Clock)
  | merge (accounts : MergeAccounts) (ix : MergeIx) (clock : Clock)
  | batchUpdateNullifierTree (tree reimbursementRecipient : Address)
      (data : InstructionDataBatchNullifyInputs)
  | closeNullifierPdas (tree reimbursementRecipient : Address) (nullifierPdas : List Address)

def process (env : PoolEnv) : Instruction → PoolM HEIGHT K (Option SpendProof)
  | .transact accounts ix clock => do
    let (_, proof) ← processTransact env accounts ix clock
    pure (some proof)
  | .merge accounts ix clock => do
    let (_, proof) ← processMerge env accounts ix clock
    pure (some proof)
  | .batchUpdateNullifierTree tree recipient data => do
    let _ ← processBatchUpdateNullifierTree env tree recipient data
    pure none
  | .closeNullifierPdas tree recipient nullifierPdas => do
    processCloseNullifierPdas env tree recipient nullifierPdas
    pure none

/-- The trees and nullifiers an instruction spends, in input order. -/
def Instruction.spends : Instruction → List (Address × Bytes32)
  | .transact accounts ix _ =>
    ix.inputs.filterMap fun input =>
      accounts.inputTrees[input.treeIndex]?.map fun tree => (tree, input.nullifierHash)
  | .merge accounts ix _ => ix.nullifiers.map fun nullifier => (accounts.inputTree, nullifier)
  | .batchUpdateNullifierTree _ _ _ | .closeNullifierPdas _ _ _ => []

def Instruction.updates : Instruction → List (Address × InstructionDataBatchNullifyInputs)
  | .batchUpdateNullifierTree tree _ data => [(tree, data)]
  | .transact _ _ _ | .merge _ _ _ | .closeNullifierPdas _ _ _ => []

structure PoolRun (HEIGHT K : Nat) where
  ledger : Ledger HEIGHT K
  accepted : List (Address × Bytes32)
  submitted : List (Address × InstructionDataBatchNullifyInputs)
  verified : List SpendProof

def ofTree {α : Type} (tree : Address) (entries : List (Address × α)) : List α :=
  (entries.filter (·.1 = tree)).map (·.2)

/-- One instruction. The runtime discards everything a failing instruction wrote. -/
def PoolRun.step (env : PoolEnv) (run : PoolRun HEIGHT K) (instruction : Instruction) : PoolRun HEIGHT K :=
  match (process env instruction).run run.ledger with
  | .ok proof ledger =>
    { ledger
      accepted := run.accepted ++ instruction.spends
      submitted := run.submitted ++ instruction.updates
      verified := run.verified ++ proof.toList }
  | .error _ _ => run

/-- A ledger before its first spend: every tree comes from `init` on zeroed data, and `create_tree` gave
each its own id. Anything may be in the other accounts. -/
structure Genesis (ledger : Ledger HEIGHT K) : Prop where
  init : ∀ address tree, ledger.tree address = some tree →
    ∃ height treeId params fees,
      (TreeAccountLayout.init height treeId params fees).run (.zeroed HEIGHT K) = .ok () tree
  treeId : ∀ a b tree tree', ledger.tree a = some tree → ledger.tree b = some tree' →
    tree.treeId = tree'.treeId → a = b

inductive PoolReachable (env : PoolEnv) : PoolRun HEIGHT K → Prop
  | genesis {ledger : Ledger HEIGHT K} (h : Genesis ledger) :
      PoolReachable env ⟨ledger, [], [], []⟩
  | step {run : PoolRun HEIGHT K} (h : PoolReachable env run) (instruction : Instruction) :
      PoolReachable env (run.step env instruction)

end Zolana
