import Zolana.Pool.NullifierPda
import Zolana.Pool.TreeSlot

/-!
# Spending from a tree

What `transact` and `merge` share: the checks on the field elements they carry, the queueing of one
tree's nullifiers, and what a run keeps of an accepted spend.
-/

namespace Zolana

open Fallible

variable {HEIGHT K : Nat}

structure Clock where
  slot : Nat
  unixTimestamp : Int
  deriving DecidableEq, Repr

def checkFieldElements (values : List Bytes32) (error : ShieldedPoolError) : PoolM HEIGHT K Unit :=
  if values.all isCanonicalBn254ScalarBe then pure () else throw (.custom error)

/-- Zero marks padding, which an instruction never carries. -/
def checkNonzeroFieldElements (values : List Bytes32) (error : ShieldedPoolError) : PoolM HEIGHT K Unit :=
  if values.any (· = 0) then throw (.custom error) else pure ()

def checkNotExpired (expiryUnixTs : Nat) (clock : Clock) : PoolM HEIGHT K Unit :=
  if clock.unixTimestamp < 0 ∨ (expiryUnixTs : Int) < clock.unixTimestamp then
    throw (.custom .expiredTransaction)
  else
    pure ()

/-! ### One input tree -/

/-- What one input tree contributes to the proof and to its PDAs. -/
structure QueuedInputs where
  result : InputTreeResult
  allowDummyInputs : Bool
  slot : TreeSlot
  deriving DecidableEq, Repr

def insertNullifiers (hashv : Hashv) : List Bytes32 → TreeM K Unit
  | [] => pure ()
  | nullifier :: nullifiers => do
    let _ ← NullifierTreeLayout.insertNullifierIntoQueue hashv nullifier
    insertNullifiers hashv nullifiers

/-- Work on a loaded input tree. The dummy-input policy and the roots are read before anything is
queued; both spends do the steps in this order and differ in how they resolve the roots. -/
def queueInputs (hashv : Hashv) (address : Address)
    (resolve : TreeAccountLayout HEIGHT K → Except TreeError TreeSlot) (nullifiers : List Bytes32)
    (treeInputCount : Nat) : EStateM ProgramError (TreeAccountLayout HEIGHT K) QueuedInputs := do
  let tree ← get
  let headroom ← mapErr treeError tree.dummyInputHeadroom
  let slot ← mapErr treeError (resolve tree)
  nullifierMethod (.causedBy .nullifierTreeUpdateFailed) (insertNullifiers hashv nullifiers)
  let treeFee ← treeMethod treeError TreeAccountLayout.creditTreeFee
  modify (TreeAccountLayout.recordNullifierPdasCreated treeInputCount)
  let queued ← get
  pure
    { result :=
        { tree := address
          firstInputQueueSeq := tree.nullifier.queueNextIndex
          treeFee
          feeBalance := queued.feeBalance
          treeId := queued.treeId }
      allowDummyInputs := treeInputCount ≤ headroom
      slot }

/-! ### Accepted spends -/

structure TransactProofInputs where
  nullifiers : List Bytes32
  outputs : List Bytes32
  treeSlots : List TreeSlot
  outputTreeId : Bytes32
  privateTxHash : Bytes32
  inputFlags : Bytes32
  deriving DecidableEq, Repr

structure MergeProofInputs where
  nullifiers : List Bytes32
  outputUtxoHash : Bytes32
  treeSlot : TreeSlot
  outputTreeId : Bytes32
  privateTxHash : Bytes32
  allowDummyInputs : Bytes32
  deriving DecidableEq, Repr

/-- What the pool calls outside the repository. -/
structure PoolEnv where
  tree : Env
  runtime : Runtime
  verifyTransact : TransactProofInputs → List UInt8 → Except ShieldedPoolError Unit
  verifyMerge : MergeProofInputs → List UInt8 → Except ShieldedPoolError Unit

/-- A spend proof with the public inputs it was checked against. -/
inductive SpendProof where
  | transact (inputs : TransactProofInputs) (proof : List UInt8)
  | merge (inputs : MergeProofInputs) (proof : List UInt8)
  deriving DecidableEq, Repr

/-- The event of a spend: each input tree with its first queue index, and the first output leaf. -/
structure SpendEvent where
  inputTrees : List (Address × Nat)
  outputTree : Address
  firstOutputLeafIndex : Nat
  deriving DecidableEq, Repr

end Zolana
