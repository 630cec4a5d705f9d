import Zolana.Pool.Spend

/-!
# Transact

`instructions/transact`: the inputs may come from several trees, in any order. Modelled are the checks on
the declared trees and the nullifiers, the writes to the trees and the nullifier PDAs, the fees, and the
public inputs these writes decide. The proof check is a parameter.
-/

namespace Zolana

open Fallible

variable {HEIGHT K : Nat}

structure InputUtxo where
  nullifierHash : Bytes32
  /-- Position of the input's tree among the declared trees. -/
  treeIndex : Nat
  deriving DecidableEq, Repr

structure TransactIx where
  expiryUnixTs : Nat
  inputs : List InputUtxo
  treeContexts : List TreeContext
  outputs : List Bytes32
  privateTxHash : Bytes32
  proof : List UInt8
  deriving DecidableEq, Repr

structure TransactAccounts where
  payer : Address
  inputTrees : List Address
  outputTree : Address
  nullifierPdas : List Address
  deriving DecidableEq, Repr

/-! ### Checks on the instruction data -/

/-- The loop of `validate_input_tree_contexts` over the counts of the declared trees. -/
def countInputs : List Nat → List InputUtxo → Except ShieldedPoolError (List Nat)
  | counts, [] => .ok counts
  | counts, input :: inputs =>
    if input.treeIndex < counts.length then
      countInputs (counts.modify input.treeIndex (· + 1)) inputs
    else
      .error .inputTreeIndexOutOfRange

/-- The number of inputs of each declared tree, none of them zero. -/
def validateInputTreeContexts (inputs : List InputUtxo) (treeContexts : List TreeContext) :
    Except ShieldedPoolError (List Nat) :=
  if treeContexts = [] ∨ maxInputTrees < treeContexts.length then
    .error .invalidTreeContextCount
  else
    match countInputs (List.replicate treeContexts.length 0) inputs with
    | .error e => .error e
    | .ok counts => if 0 ∈ counts then .error .unreferencedTreeContext else .ok counts

/-- The part of `validate_circuit_type` that does not depend on the circuit. -/
def validateTransact (ix : TransactIx) : PoolM HEIGHT K Unit := do
  if ix.inputs = [] then
    throw (.custom .invalidTransactShape)
  else
    checkFieldElements (ix.inputs.map (·.nullifierHash)) .nonCanonicalInputNullifier
    checkFieldElements ix.outputs .nonCanonicalOutputUtxoHash
    checkNonzeroFieldElements (ix.inputs.map (·.nullifierHash)) .zeroInputNullifier
    checkNonzeroFieldElements ix.outputs .zeroOutputUtxoHash
    checkFieldElements [ix.privateTxHash] .nonCanonicalPrivateTxHash

/-! ### Trees -/

/-- A transact may name no UTXO root. -/
def resolveInputTreeSlot (context : TreeContext) (tree : TreeAccountLayout HEIGHT K) :
    Except TreeError TreeSlot :=
  if context.utxoTreeRootIndex ≠ noUtxoRoot then
    resolveTreeSlot context tree
  else do
    let nullifierRoot ← tree.getNullifierTreeRoot context.nullifierTreeRootIndex
    pure ⟨treeIdField tree.treeId, 0, nullifierRoot⟩

def treeNullifiers (inputs : List InputUtxo) (treeIndex : Nat) : List Bytes32 :=
  (inputs.filter (·.treeIndex = treeIndex)).map (·.nullifierHash)

def treeNullifierPdas (nullifierPdas : List Address) (inputs : List InputUtxo) (treeIndex : Nat) :
    List (Address × Bytes32) :=
  ((nullifierPdas.zip inputs).filter (·.2.treeIndex = treeIndex)).map
    fun (nullifierPda, input) => (nullifierPda, input.nullifierHash)

/-- The loop of `apply_input_trees`, from a tree index on. -/
def applyTrees (env : PoolEnv) (payer : Address) (inputs : List InputUtxo) (nullifierPdas : List Address) :
    Nat → List (Address × TreeContext × Nat) → PoolM HEIGHT K (List QueuedInputs)
  | _, [] => pure []
  | treeIndex, (tree, context, treeInputCount) :: trees => do
    let queued ← withTree treeError tree
      (queueInputs env.tree.hashv tree (resolveInputTreeSlot context)
        (treeNullifiers inputs treeIndex) treeInputCount)
    createNullifierPdas env.runtime payer (treeNullifierPdas nullifierPdas inputs treeIndex)
      queued.result
    let rest ← applyTrees env payer inputs nullifierPdas (treeIndex + 1) trees
    pure (queued :: rest)

/-- Queues the inputs of every declared tree, creates their PDAs and packs the flags. The circuit has
one dummy-input bit, so the policy is the conjunction over all trees. -/
def applyInputTrees (env : PoolEnv) (accounts : TransactAccounts) (ix : TransactIx)
    (treeInputCounts : List Nat) : PoolM HEIGHT K (List QueuedInputs × Bytes32) := do
  if accounts.nullifierPdas.length ≠ ix.inputs.length then
    throw (.custom .invalidNullifierPda)
  else if accounts.inputTrees.length ≠ ix.treeContexts.length ∨
      maxInputTrees < ix.treeContexts.length then
    throw (.custom .invalidTransactShape)
  else
    let queued ← applyTrees env accounts.payer ix.inputs accounts.nullifierPdas 0
      (accounts.inputTrees.zip (ix.treeContexts.zip treeInputCounts))
    let inputFlags ← mapErr .custom
      (packInputFlags (queued.all (·.allowDummyInputs)) (ix.inputs.map (·.treeIndex)))
    pure (queued, inputFlags)

structure TreeWrite where
  firstOutputLeafIndex : Nat
  outputTreeId : UInt16
  deriving DecidableEq, Repr

/-- Appends the outputs, and credits the fee when there are any and the tree is no input tree. -/
def applyOutputTree (hashv : Hashv) (outputTree : Address) (outputs : List Bytes32) (slot : Nat)
    (isInputTree : Bool) : PoolM HEIGHT K (TreeWrite × Nat) :=
  withTree treeError outputTree do
    let firstOutputLeafIndex := (← get).utxo.nextIndex
    utxoMethod (UtxoTreeLayout.appendBatch hashv outputs slot)
    let treeFee ← if outputs = [] then pure 0 else creditOutputTreeFee isInputTree
    pure (⟨firstOutputLeafIndex, (← get).treeId⟩, treeFee)

/-! ### The processor -/

/-- `process_transact_ix`. Next to the event it returns the proof it verified. -/
def processTransact (env : PoolEnv) (accounts : TransactAccounts) (ix : TransactIx) (clock : Clock) :
    PoolM HEIGHT K (SpendEvent × SpendProof) := do
  validateTransact ix
  let treeInputCounts ← mapErr .custom (validateInputTreeContexts ix.inputs ix.treeContexts)
  checkNotExpired ix.expiryUnixTs clock
  if ¬ accounts.inputTrees.Nodup then
    throw (.custom .duplicateInputTree)
  else
    let (queued, inputFlags) ← applyInputTrees env accounts ix treeInputCounts
    let (treeWrite, outputTreeFee) ← applyOutputTree env.tree.hashv accounts.outputTree ix.outputs
      clock.slot (accounts.outputTree ∈ accounts.inputTrees)
    collectTreeFee accounts.payer accounts.outputTree outputTreeFee
    let proofInputs : TransactProofInputs :=
      { nullifiers := ix.inputs.map (·.nullifierHash)
        outputs := ix.outputs
        treeSlots := queued.map (·.slot)
        outputTreeId := treeIdField treeWrite.outputTreeId
        privateTxHash := ix.privateTxHash
        inputFlags }
    mapErr .custom (env.verifyTransact proofInputs ix.proof)
    let event : SpendEvent :=
      { inputTrees := queued.map fun tree => (tree.result.tree, tree.result.firstInputQueueSeq)
        outputTree := accounts.outputTree
        firstOutputLeafIndex := treeWrite.firstOutputLeafIndex }
    pure (event, .transact proofInputs ix.proof)

end Zolana
