import Zolana.NullifierTree.Update

/-!
# Runs of a tree

A run is any sequence of insert and update calls on an initialised tree. Next to the tree it keeps what
the properties speak about and the account does not store: the values queued so far, the updates
applied so far and the instruction data submitted so far, each in order.
-/

namespace Zolana

open NullifierTreeLayout

variable {K : Nat}

/-- `count` queued values from a position on. The value with queue index `i` is at position `i - 1`. -/
def queueWindow (queued : List Bytes32) (start count : Nat) : List Bytes32 :=
  (queued.drop start).take count

/-- The verifier accepts a proof that appending `values` from leaf `startIndex` on takes the tree from
`oldRoot` to `newRoot`. -/
def Env.Accepts (env : Env) (oldRoot newRoot : Bytes32) (values : List Bytes32) (startIndex : Nat)
    (proof : NullifierTreeProof) : Prop :=
  ∃ leavesHashChain publicInputHash, createHashChain4 env.hashv values = .ok leavesHashChain ∧
    env.hashv [oldRoot, newRoot, leavesHashChain, u64ToBytes32 startIndex] = .ok publicInputHash ∧
    env.verifyBatchUpdate values.length publicInputHash proof = .ok ()

inductive Call where
  | insert (nullifier : Bytes32)
  | update (merkleTreePubkey : Bytes32) (instructionData : InstructionDataBatchNullifyInputs)

structure Run (K : Nat) where
  tree : NullifierTreeLayout K
  queued : List Bytes32
  applied : List AppliedUpdate
  submitted : List InstructionDataBatchNullifyInputs

/-- One call. A failing call leaves the tree as the method left it. -/
def Run.call (env : Env) (run : Run K) : Call → Run K
  | .insert nullifier =>
    match (insertNullifierIntoQueue env.hashv nullifier).run run.tree with
    | .ok _ tree => { run with tree, queued := run.queued ++ [nullifier] }
    | .error _ tree => { run with tree }
  | .update merkleTreePubkey instructionData =>
    match (updateTreeFromQueue env merkleTreePubkey instructionData).run run.tree with
    | .ok cascade tree =>
      { run with
        tree
        applied := run.applied ++ cascade.applied
        submitted := run.submitted ++ [instructionData] }
    | .error _ tree => { run with tree, submitted := run.submitted ++ [instructionData] }

/-- The run up to some point, from `init(batch_size, zkp_batch_size, height)` on zeroed data. -/
inductive Reachable (env : Env) (testOnly : Bool) (batchSize zkpBatchSize height : Nat) : Run K → Prop
  | init {tree : NullifierTreeLayout K}
      (h : (init testOnly batchSize zkpBatchSize height).run (zeroed K) = .ok () tree) :
      Reachable env testOnly batchSize zkpBatchSize height ⟨tree, [], [], []⟩
  | call {run : Run K} (h : Reachable env testOnly batchSize zkpBatchSize height run) (call : Call) :
      Reachable env testOnly batchSize zkpBatchSize height (run.call env call)

def Run.calls (env : Env) (run : Run K) (calls : List Call) : Run K := calls.foldl (Run.call env) run

theorem Reachable.calls {env : Env} {testOnly : Bool} {batchSize zkpBatchSize height : Nat}
    {run : Run K} (h : Reachable env testOnly batchSize zkpBatchSize height run) (calls : List Call) :
    Reachable env testOnly batchSize zkpBatchSize height (run.calls env calls) := by
  induction calls generalizing run with
  | nil => exact h
  | cons call calls ih => exact ih (h.call call)

end Zolana
