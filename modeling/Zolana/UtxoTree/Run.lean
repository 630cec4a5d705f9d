import Zolana.UtxoTree.Layout

/-!
# Runs of the UTXO tree

A sequence of `append_batch` calls, read in two ways: as one fallible computation, for runs in which
every call succeeds, and as a run that goes on after a failure and remembers the root each successful
update ended with.
-/

namespace Zolana

open UtxoTreeLayout

variable {HEIGHT : Nat}

structure AppendCall where
  leaves : List Bytes32
  slot : Nat
  deriving DecidableEq, Repr

def AppendCall.allLeaves (calls : List AppendCall) : List Bytes32 := calls.flatMap (·.leaves)

/-- The calls one after another, up to the first that fails. -/
def appendBatches (hashv : Hashv) : List AppendCall → UtxoTreeM HEIGHT Unit
  | [] => pure ()
  | call :: calls => do
    appendBatch hashv call.leaves call.slot
    appendBatches hashv calls

structure RootUpdate where
  slot : Nat
  root : Bytes32
  deriving DecidableEq, Repr

/-- The updates that no later one replaces: the last of each slot. -/
def finalUpdates : List RootUpdate → List RootUpdate
  | [] => []
  | update :: updates =>
    if updates.any fun later => later.slot = update.slot then finalUpdates updates
    else update :: finalUpdates updates

structure UtxoRun (HEIGHT : Nat) where
  tree : UtxoTreeLayout HEIGHT
  updates : List RootUpdate

/-- One call. What a failing call wrote before its error stays, as the method leaves it. -/
def UtxoRun.call (hashv : Hashv) (run : UtxoRun HEIGHT) (call : AppendCall) : UtxoRun HEIGHT :=
  match (appendBatch hashv call.leaves call.slot).run run.tree with
  | .ok () tree =>
    { tree
      updates := if call.leaves = [] then run.updates else run.updates ++ [⟨call.slot, tree.root⟩] }
  | .error _ tree => { run with tree }

def UtxoRun.calls (hashv : Hashv) (run : UtxoRun HEIGHT) (calls : List AppendCall) : UtxoRun HEIGHT :=
  calls.foldl (UtxoRun.call hashv) run

end Zolana
