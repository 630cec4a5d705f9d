import Zolana.Pool.CreateTree
import Zolana.Pool.Run

/-!
# Runs with tree creation

A wider run than `PoolRun`: it starts before the first tree, and next to the spends and the forester's
instructions it has tree creation, the fee and pause instructions and transfers of lamports outside the
program. The public transfers of a transact are transfers too, and come as steps of their own.
-/

namespace Zolana

open Fallible

variable {HEIGHT K : Nat}

structure SystemEnv (HEIGHT K : Nat) where
  pool : PoolEnv
  treeAddress : UInt16 → Option Address
  codec : TreeCodec HEIGHT K

/-- `create_tree` sees the same rent as the other instructions. -/
def SystemEnv.create (env : SystemEnv HEIGHT K) : CreateEnv HEIGHT K where
  treeAddress := env.treeAddress
  codec := env.codec
  treeRentMinimum := env.pool.runtime.treeRentMinimum
  nullifierPdaRentMinimum := env.pool.runtime.nullifierPdaRentMinimum

inductive SystemInstruction where
  | pool (instruction : Instruction)
  | createTree (payer authority tree : Address) (data : List UInt8)
  | setTreeFees (tree : Address) (fees : TreeFeeSchedule)
  | claimTreeLamports (tree recipient : Address)
  | pauseTree (tree : Address) (paused : Bool)
  /-- The fields of `update_protocol_config` that `create_tree` reads. -/
  | updateTreeCreation (authority : Address) (permissionless : Bool)
  | transfer (sender receiver : Address) (lamports : Nat)

/-- A call of `create_tree` and what it did. -/
structure TreeCall where
  payer : Address
  tree : Address
  data : List UInt8
  result : CreateTreeResult
  deriving DecidableEq, Repr

/-- The instruction, and the call of `create_tree` it was. -/
def System.process (env : SystemEnv HEIGHT K) : SystemInstruction → SystemM HEIGHT K (Option TreeCall)
  | .pool instruction => do
    let _ ← onLedger (Zolana.process env.pool instruction)
    pure none
  | .createTree payer authority tree data => do
    let result ← processCreateTree env.create payer authority tree data
    pure (some ⟨payer, tree, data, result⟩)
  | .setTreeFees tree fees => do
    onLedger (processSetTreeFees tree fees)
    pure none
  | .claimTreeLamports tree recipient => do
    onLedger (processClaimTreeLamports env.pool.runtime tree recipient)
    pure none
  | .pauseTree tree paused => do
    onLedger (processPauseTree tree paused)
    pure none
  | .updateTreeCreation authority permissionless => do
    modify fun system =>
      { system with
        config :=
          { system.config with
            treeCreationAuthority := authority
            treeCreationIsPermissionless := permissionless } }
    pure none
  | .transfer sender receiver lamports => do
    onLedger (Zolana.transfer sender receiver lamports)
    pure none

structure SystemRun (HEIGHT K : Nat) where
  system : System HEIGHT K
  /-- The accepted calls of `create_tree`, in order. -/
  calls : List TreeCall

def SystemRun.step (env : SystemEnv HEIGHT K) (run : SystemRun HEIGHT K)
    (instruction : SystemInstruction) : SystemRun HEIGHT K :=
  match (System.process env instruction).run run.system with
  | .ok call system => ⟨system, run.calls ++ call.toList⟩
  | .error _ _ => run

/-- Before the first tree: no account of the program is a tree, a nullifier PDA or in creation, and the
first id is zero. -/
structure System.Genesis (system : System HEIGHT K) : Prop where
  tree : ∀ address, system.ledger.tree address = none
  nullifierPda : ∀ address, system.ledger.nullifierPda address = none
  creating : ∀ address, system.creating address = []
  nextTreeId : system.config.nextTreeId = 0

inductive SystemReachable (env : SystemEnv HEIGHT K) : SystemRun HEIGHT K → Prop
  | genesis {system : System HEIGHT K} (h : system.Genesis) : SystemReachable env ⟨system, []⟩
  | step {run : SystemRun HEIGHT K} (h : SystemReachable env run) (instruction : SystemInstruction) :
      SystemReachable env (run.step env instruction)

end Zolana
