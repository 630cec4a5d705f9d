import Zolana.Lib.Bytes
import Zolana.Pool.Admin

/-!
# Tree creation

`instructions/create_tree`. An account grows by at most ten kilobytes for each instruction, so a tree is
created over several calls. The first allocates the account and records its payer and instruction data
where the UTXO tree will be; each later one must repeat them, and the one that reaches the full size
clears the record and initialises the tree.

Until then the account belongs to the program but has no discriminator, so the ledger has it as another
account of the program. Its bytes are kept next to the ledger.
-/

namespace Zolana

open Fallible

variable {HEIGHT K : Nat}

/-! ### Instruction data -/

structure CreateTreeData where
  treeId : UInt16
  nullifierParams : NullifierTreeInitParams
  fees : TreeFeeSchedule
  deriving DecidableEq, Repr

/-- The Borsh decoder: little-endian fields one after the other, and nothing left over. -/
def CreateTreeData.tryFromSlice (bytes : List UInt8) : Option CreateTreeData :=
  let field (offset width : Nat) : Nat := Bytes.ofLE (Bytes.slice offset width bytes)
  if bytes.length = 46 then
    some
      { treeId := UInt16.ofNat (field 0 2)
        nullifierParams := ⟨field 2 8, field 10 8, field 18 4⟩
        fees := ⟨field 22 8, field 30 8, field 38 8⟩ }
  else
    none

/-! ### The account in creation -/

/-- `utxo_tree_offset`: the size of the account header. -/
def utxoTreeOffset : Nat := 72

/-- `size_of` the layout: the header, the UTXO tree, the root history and the batches of the nullifier
tree, each batch padded to a multiple of eight. -/
def treeAccountSize (HEIGHT K : Nat) : Nat :=
  utxoTreeOffset + (56 + 32 * HEIGHT + 32 * rootHistoryCapacity) + (80 + 32 * K)
    + numBatches * ((120 + 97 * K + 7) / 8 * 8)

def treeAllocationStep : Nat := 10 * 1024

/-- How the program reads a tree account's bytes. Only fresh bytes matter here. -/
structure TreeCodec (HEIGHT K : Nat) where
  decode : List UInt8 → TreeAccountLayout HEIGHT K
  decode_zeros : decode (List.replicate (treeAccountSize HEIGHT K) 0) = .zeroed HEIGHT K

structure ProtocolConfig where
  treeCreationAuthority : Address
  treeCreationIsPermissionless : Bool
  nextTreeId : UInt16
  deriving DecidableEq, Repr

structure System (HEIGHT K : Nat) where
  ledger : Ledger HEIGHT K
  config : ProtocolConfig
  /-- The data of the tree accounts in creation. -/
  creating : Address → List UInt8

abbrev SystemM (HEIGHT K : Nat) := EStateM ProgramError (System HEIGHT K)

/-- What `create_tree` reads of the runtime. -/
structure CreateEnv (HEIGHT K : Nat) where
  /-- `derive_program_address` over the seeds of a tree id. -/
  treeAddress : UInt16 → Option Address
  codec : TreeCodec HEIGHT K
  treeRentMinimum : Nat
  nullifierPdaRentMinimum : Nat

def onLedger {α : Type} (act : PoolM HEIGHT K α) : SystemM HEIGHT K α :=
  within (·.ledger) (fun ledger system => { system with ledger }) id act

def System.setCreating (address : Address) (bytes : List UInt8) (system : System HEIGHT K) : System HEIGHT K :=
  { system with creating := Function.update system.creating address bytes }

def treeCreationLamports (nullifierParams : NullifierTreeInitParams)
    (treeRent nullifierPdaRent : Nat) : Option Nat := do
  let workingCapital ←
    treeLiquidWorkingCapitalLamports nullifierParams.inputQueueBatchSize 0 nullifierPdaRent
  checkedAdd treeRent workingCapital

/-! ### Allocation -/

def fundTree (payer tree : Address) (lamports : Nat) : PoolM HEIGHT K Unit := do
  let missing := lamports - ((← get) tree).lamports
  if missing = 0 then pure () else transfer payer tree missing

/-- `TreeAllocation::create`. Both ways assign the account to the program before the payer's transfer,
and the runtime zeroes the allocated bytes. -/
def allocateTree (payer tree : Address) (lamports : Nat) : SystemM HEIGHT K Unit := do
  let unfunded := ((← get).ledger tree).lamports = 0
  onLedger (modify (Ledger.setData tree (.other true)))
  modify (System.setCreating tree
    (List.replicate (min (treeAccountSize HEIGHT K) treeAllocationStep) 0))
  if unfunded then
    onLedger (transfer payer tree lamports)
  else
    onLedger (fundTree payer tree lamports)

/-- `grow_tree`. A tree account has its full size already. -/
def growTree (tree : Address) : SystemM HEIGHT K Unit := do
  let system ← get
  match (system.ledger tree).data with
  | .unused | .other false | .nullifierPda _ => throw (.custom .invalidTreeAccounts)
  | .tree _ => pure ()
  | .other true =>
    let bytes := system.creating tree
    if treeAccountSize HEIGHT K ≤ bytes.length then
      pure ()
    else if bytes[1]? ≠ some 0 then
      throw (.custom .invalidTreeAccounts)
    else
      let target := min (bytes.length + treeAllocationStep) (treeAccountSize HEIGHT K)
      modify (System.setCreating tree (bytes ++ List.replicate (target - bytes.length) 0))

/-! ### The record -/

/-- `PendingCreation`: the payer's address and the instruction data. -/
def pendingCreation (payer : Address) (data : List UInt8) : List UInt8 :=
  Bytes.toBE 32 payer.toNat ++ data

/-- `slots`: the record has to fit behind the header. -/
def checkSlots (record bytes : List UInt8) : SystemM HEIGHT K Unit :=
  if utxoTreeOffset + record.length ≤ bytes.length then pure ()
  else throw (.custom .invalidTreeAccounts)

def recordCreation (tree : Address) (record : List UInt8) : SystemM HEIGHT K Unit := do
  let bytes := (← get).creating tree
  checkSlots record bytes
  modify (System.setCreating tree (Bytes.overwrite utxoTreeOffset record bytes))

/-- `check`. The state byte of an initialised tree is not zero. -/
def checkCreation (tree : Address) (record : List UInt8) : SystemM HEIGHT K Unit := do
  let system ← get
  let bytes := system.creating tree
  match (system.ledger tree).data with
  | .other true =>
    if bytes[1]? ≠ some 0 then
      throw (.custom .invalidTreeAccounts)
    else
      checkSlots record bytes
      if Bytes.slice utxoTreeOffset record.length bytes ≠ record then
        throw (.custom .treeCreationMismatch)
  | _ => throw (.custom .invalidTreeAccounts)

def clearCreation (tree : Address) (record : List UInt8) : SystemM HEIGHT K Unit := do
  let bytes := (← get).creating tree
  checkSlots record bytes
  modify (System.setCreating tree
    (Bytes.overwrite utxoTreeOffset (List.replicate record.length 0) bytes))

/-! ### The processor -/

/-- The id for a first call, taken from the protocol config. -/
def allocateTreeId (treeId : UInt16) : SystemM HEIGHT K Unit := do
  let config := (← get).config
  if treeId ≠ config.nextTreeId then
    throw (.custom .invalidTreeId)
  else if 2 ^ 16 ≤ treeId.toNat + 1 then
    throw (.custom .treeIdOverflow)
  else
    modify fun system => { system with config := { config with nextTreeId := treeId + 1 } }

/-- `TreeAccount::init` on the account's bytes. -/
def initTree (codec : TreeCodec HEIGHT K) (tree : Address) (data : CreateTreeData) : SystemM HEIGHT K Unit := do
  let bytes := (← get).creating tree
  if bytes.length ≠ treeAccountSize HEIGHT K then
    throw (treeError .invalidBufferSize)
  else
    match (TreeAccountLayout.init HEIGHT data.treeId data.nullifierParams data.fees).run
        (codec.decode bytes) with
    | .error e _ => throw (treeError e)
    | .ok () layout =>
      onLedger (modify (Ledger.setData tree (.tree layout)))
      modify (System.setCreating tree [])

/-- What a call did: the id it allocated, if it was the first, and the bytes it initialised the tree
from, if it was the last. -/
structure CreateTreeResult where
  allocated : Option UInt16
  initialised : Option (List UInt8)
  deriving DecidableEq, Repr

/-- The last part of the processor, once the account has its full size. -/
def finishTree (env : CreateEnv HEIGHT K) (payer tree : Address) (record : List UInt8)
    (data : CreateTreeData) (lamports : Nat) : SystemM HEIGHT K (Option (List UInt8)) := do
  if ((← get).creating tree).length < treeAccountSize HEIGHT K then
    pure none
  else
    clearCreation tree record
    onLedger (fundTree payer tree lamports)
    let bytes := (← get).creating tree
    initTree env.codec tree data
    pure (some bytes)

def processCreateTree (env : CreateEnv HEIGHT K) (payer authority tree : Address)
    (ixData : List UInt8) : SystemM HEIGHT K CreateTreeResult := do
  let data ← okOr (CreateTreeData.tryFromSlice ixData) (.custom .invalidInstructionData)
  mapErr treeError data.fees.validate
  mapErr treeError (data.nullifierParams.validate K)
  if env.treeAddress data.treeId ≠ some tree then
    throw (.custom .invalidPda)
  else
    let system ← get
    if ¬ system.config.treeCreationIsPermissionless ∧
        system.config.treeCreationAuthority ≠ authority then
      throw (.custom .unauthorizedCaller)
    else
      let record := pendingCreation payer ixData
      let fund := treeCreationLamports data.nullifierParams env.treeRentMinimum
        env.nullifierPdaRentMinimum
      if (system.ledger tree).data = .unused then
        allocateTreeId data.treeId
        let lamports ← okOr fund .arithmeticOverflow
        allocateTree payer tree lamports
        recordCreation tree record
        let initialised ← finishTree env payer tree record data lamports
        pure ⟨some data.treeId, initialised⟩
      else
        let lamports ← okOr fund .arithmeticOverflow
        growTree tree
        checkCreation tree record
        let initialised ← finishTree env payer tree record data lamports
        pure ⟨none, initialised⟩

end Zolana
