import Zolana.Pool.Ledger

/-!
# Nullifier PDAs

`instructions/nullifier_pda`: the account that records the queue index of a nullifier until its value is
in every accepted root. The tree funds its rent and gets it back when it is closed.
-/

namespace Zolana

open Fallible

variable {HEIGHT K : Nat}

/-- What the program reads of the runtime. -/
structure Runtime where
  /-- `derive_program_address` over the seeds of a tree and a nullifier. -/
  nullifierPdaAddress : Address → Bytes32 → Option Address
  /-- `try_minimum_balance` of the two account sizes. -/
  treeRentMinimum : Nat
  nullifierPdaRentMinimum : Nat

/-- What an input tree assigned while its nullifiers were queued. -/
structure InputTreeResult where
  tree : Address
  firstInputQueueSeq : Nat
  treeFee : Nat
  feeBalance : Nat
  treeId : UInt16
  deriving DecidableEq, Repr

def loadUnusedNullifierPda (runtime : Runtime) (nullifierPda tree : Address) (nullifier : Bytes32) :
    PoolM HEIGHT K Unit := do
  if runtime.nullifierPdaAddress tree nullifier ≠ some nullifierPda then
    throw (.custom .invalidNullifierPda)
  else if ((← get) nullifierPda).data ≠ .unused then
    throw (.custom .nullifierAlreadyQueued)

def loadNullifierPda (nullifierPda : Address) (treeId : UInt16) : PoolM HEIGHT K NullifierPda := do
  match (← get).nullifierPda nullifierPda with
  | none => throw (.custom .invalidNullifierPda)
  | some record =>
    if record.queueIndex = 0 then
      throw (.custom .invalidNullifierPda)
    else if record.treeId ≠ treeId then
      throw (.custom .nullifierPdaTreeMismatch)
    else
      pure record

def topUp (runtime : Runtime) (treeMinimum : Nat) (tree nullifierPda : Address) : PoolM HEIGHT K Unit := do
  let ledger ← get
  let missing := runtime.nullifierPdaRentMinimum - (ledger nullifierPda).lamports
  if missing = 0 then
    pure ()
  else if (ledger tree).lamports < missing ∨ (ledger tree).lamports - missing < treeMinimum then
    throw (.custom .insufficientNullifierPdaRent)
  else
    modify (Ledger.setLamports tree ((ledger tree).lamports - missing))
    modify (Ledger.setLamports nullifierPda runtime.nullifierPdaRentMinimum)

def collectTreeFee (payer tree : Address) (amount : Nat) : PoolM HEIGHT K Unit :=
  if amount = 0 then pure () else transfer payer tree amount

/-- `NullifierPdaCreate::init`: the account is assigned to the program and holds the record. -/
def initNullifierPda (runtime : Runtime) (tree nullifierPda : Address) (nullifier : Bytes32)
    (record : NullifierPda) : PoolM HEIGHT K Unit := do
  loadUnusedNullifierPda runtime nullifierPda tree nullifier
  modify (Ledger.setData nullifierPda (.nullifierPda record))

/-- The loop of `create_nullifier_pdas`, from a position on. -/
def createPdas (runtime : Runtime) (treeMinimum : Nat) (inputTree : InputTreeResult) :
    Nat → List (Address × Bytes32) → PoolM HEIGHT K Unit
  | _, [] => pure ()
  | position, (nullifierPda, nullifier) :: nullifierPdas => do
    let queueIndex ←
      okOr (checkedAdd inputTree.firstInputQueueSeq position) ProgramError.arithmeticOverflow
    initNullifierPda runtime inputTree.tree nullifierPda nullifier ⟨queueIndex, inputTree.treeId⟩
    topUp runtime treeMinimum inputTree.tree nullifierPda
    createPdas runtime treeMinimum inputTree (position + 1) nullifierPdas

/-- One PDA for each queued nullifier. The fee is collected before any rent leaves the tree. -/
def createNullifierPdas (runtime : Runtime) (payer : Address)
    (nullifierPdas : List (Address × Bytes32)) (inputTree : InputTreeResult) : PoolM HEIGHT K Unit := do
  let treeMinimum ←
    okOr (checkedAdd runtime.treeRentMinimum inputTree.feeBalance) ProgramError.arithmeticOverflow
  collectTreeFee payer inputTree.tree inputTree.treeFee
  createPdas runtime treeMinimum inputTree 0 nullifierPdas

/-- `credit_output_tree_fee`: an input tree has been credited already. -/
def creditOutputTreeFee (isInputTree : Bool) : EStateM ProgramError (TreeAccountLayout HEIGHT K) Nat :=
  if isInputTree then pure 0 else treeMethod treeError TreeAccountLayout.creditTreeFee

def closeNullifierPda (treeId : UInt16) (closeBeforeIndex : Nat) (tree nullifierPda : Address) :
    PoolM HEIGHT K Unit := do
  let record ← loadNullifierPda nullifierPda treeId
  if record.isClosable closeBeforeIndex = false then
    throw (.custom .nullifierPdaNotClosable)
  else
    let ledger ← get
    let treeBalance ←
      okOr (checkedAdd (ledger tree).lamports (ledger nullifierPda).lamports)
        ProgramError.arithmeticOverflow
    modify (Ledger.setLamports tree treeBalance)
    modify (Ledger.setLamports nullifierPda 0)
    modify (Ledger.setData nullifierPda .unused)

def checkReimbursementRecipient (recipient : Address) : PoolM HEIGHT K Unit := do
  match ((← get) recipient).data with
  | .tree _ | .nullifierPda _ | .other true => throw (.custom .invalidReimbursementRecipient)
  | .unused | .other false => pure ()

/-- `pay_reimbursement` at the tree's rent minimum. -/
def payReimbursement (runtime : Runtime) (tree recipient : Address) (paid : Nat) : PoolM HEIGHT K Unit := do
  if paid = 0 then
    pure ()
  else
    let ledger ← get
    if (ledger tree).lamports < paid ∨ (ledger tree).lamports - paid < runtime.treeRentMinimum then
      throw (.custom .insufficientForesterFeeBalance)
    else
      let recipientBalance ←
        okOr (checkedAdd (ledger recipient).lamports paid) (ProgramError.custom .invalidForesterFee)
      modify (Ledger.setLamports tree ((ledger tree).lamports - paid))
      modify (Ledger.setLamports recipient recipientBalance)

end Zolana
