import Zolana.Pool.Verify

/-!
# The transact processor

`instructions/transact/processor.rs` and `cache.rs`, for `transact`, `ring_transact` and
`ring_authority_transact`: everything that goes into the proof is assembled first, trees and nullifier
PDAs written on the way; then the proof is checked, and only then are the caches written and the public
transfers settled. A cache that was loaded stays borrowed, so the model keeps its address and reads the
account where the source reads through the borrow.
-/

namespace Zolana

open Fallible Verify

variable {HEIGHT K : Nat}

inductive InstructionTag where
  | transact
  | mergeTransact
  | ringTransact
  | ringMergeTransact
  | ringAuthorityTransact
  deriving DecidableEq, Repr

def InstructionTag.toByte : InstructionTag → UInt8
  | transact => 16
  | mergeTransact => 17
  | ringTransact => 19
  | ringMergeTransact => 20
  | ringAuthorityTransact => 21

/-- What the program calls outside the repository, and the features it was built with. -/
structure ChainEnv where
  tree : Env
  runtime : Runtime
  sha256 : Sha256
  splInterfaceAddress : SplInterfaceAddress
  token : TokenProgram
  /-- `CONFIDENTIAL_EDDSA.allows` of the proving key of a selector. -/
  confidentialEddsaAllows : CircuitId → Bool
  /-- `verify_groth16` with the verifying key of an uncached selector. -/
  verifyTransact : CircuitId → Groth16Proof → Bytes32 → Except ShieldedPoolError Unit

/-- The part of the environment that the trees and nullifier PDAs use. The proof of a transact is
checked against more than they decide, so nothing is checked here. -/
def ChainEnv.pool (env : ChainEnv) : PoolEnv where
  tree := env.tree
  runtime := env.runtime
  verifyTransact := fun _ _ => .ok ()
  verifyMerge := fun _ _ => .ok ()

/-! ### The instruction data -/

/-- What the trees and nullifier PDAs read of the instruction data. -/
def TransactIxData.treePart (ix : TransactIxData) : TransactIx where
  expiryUnixTs := ix.expiryUnixTs.toNat
  inputs := ix.inputs
  treeContexts := ix.treeContexts
  outputs := ix.outputs.map (·.utxoHash)
  privateTxHash := ix.privateTxHash
  proof := writeBytes32 ix.proof.a ++ Codec.writeArray 128 ix.proof.b ++ writeBytes32 ix.proof.c

def circuitMatches (instruction : InstructionTag) (circuit : CircuitId) : Bool :=
  match instruction with
  | .transact =>
    match circuit.uncached with
    | .confidentialSigner _ | .confidentialEddsa _ _ => true
    | _ => false
  | .ringTransact =>
    match circuit.uncached with
    | .confidentialRingEddsa _ | .anonymousRingEddsa _ _ => true
    | _ => false
  | .ringAuthorityTransact => circuit.isAuthority
  | _ => false

def circuitEnabled (env : ChainEnv) (circuit : CircuitId) : Bool :=
  circuit.eddsaOwnerPk.isNone || env.confidentialEddsaAllows circuit.uncached

def validateCacheSelection (ix : TransactIxData) : Except ProgramError Unit :=
  if ix.circuit.cacheAccess.any fun selection =>
      !selection.valid ix.inputs.length ix.outputs.length then
    .error (.custom .invalidCacheBitmap)
  else
    .ok ()

/-- The checks that depend on the selector. -/
def validateSelector (env : ChainEnv) (instruction : InstructionTag) (ix : TransactIxData) :
    Except ProgramError Unit :=
  if circuitMatches instruction ix.circuit = false then
    .error (.custom .mismatchedCircuitType)
  else if ix.inputs = [] ∨ ix.circuit.numInputs < ix.inputs.length ∨
      ix.circuit.numOutputs < ix.outputs.length ∨ nPublicSlots < ix.circuit.numPublicAssetSlots ∨
      ix.circuit.isSupported = false then
    .error (.custom .invalidTransactShape)
  else if circuitEnabled env ix.circuit = false then
    .error (.custom .circuitFeatureDisabled)
  else
    .ok ()

def validateCircuitType (env : ChainEnv) (instruction : InstructionTag) (ix : TransactIxData) :
    ChainM HEIGHT K Unit := do
  mapErr id (validateSelector env instruction ix)
  onChainLedger (validateTransact ix.treePart)
  mapErr id (validateCacheSelection ix)

/-! ### Caches -/

/-- Where a transact reads its cached inputs. -/
inductive CacheRead where
  | own (cache : Address)
  | writeCache
  deriving DecidableEq, Repr

structure TransactCache where
  read : Option CacheRead
  write : Option Address
  deriving DecidableEq, Repr

/-- `CacheWrite::load`: the writer holds the stored authority, and the cache has not expired. -/
def loadCacheWrite (chain : Chain HEIGHT K) (account writer : AccountView) (now : Int) :
    Except ProgramError Address := do
  let state ← loadCacheMut chain account
  if writer.address ≠ state.writeAuthority then
    .error (.custom .cacheWriteAuthorityMismatch)
  else if state.expiresAt ≤ now then
    .error (.custom .cacheExpired)
  else
    pure account.address

def checkOutputTree (chain : Chain HEIGHT K) (cache : Address) (outputTreeId : UInt16) :
    Except ProgramError Unit :=
  match chain.cache cache with
  | none => .error (.custom .invalidCache)
  | some state =>
    if outputTreeId ≠ state.treeId then .error (.custom .cacheTreeMismatch) else .ok ()

def writeCacheSlot (cache : Address) (slot : UInt8) (utxoHash : Bytes32) : ChainM HEIGHT K Unit := do
  match (← get).cache cache with
  | none => throw (.custom .invalidCache)
  | some state =>
    if h : slot.toNat < cacheCapacity then
      modify (Chain.setContents cache
        (.cache { state with utxoHashes := state.utxoHashes.set slot.toNat utxoHash }))
    else
      throw (.custom .invalidCacheSlot)

namespace TransactCache

def loadWrite (chain : Chain HEIGHT K) (writeCache : Option (AccountView × AccountView)) (now : Int) :
    Except ProgramError (Option Address) :=
  match writeCache with
  | some (cache, writer) => some <$> loadCacheWrite chain cache writer now
  | none => .ok none

def loadRead (chain : Chain HEIGHT K) (readCache : Option AccountView) (shared : Bool) :
    Except ProgramError (Option CacheRead) :=
  match readCache with
  | some cache =>
    if shared then .ok (some .writeCache)
    else (fun _ => some (.own cache.address)) <$> loadCache chain cache
  | none => .ok none

def isShared (readCache : Option AccountView) (writeCache : Option (AccountView × AccountView)) : Bool :=
  match readCache, writeCache with
  | some readCache, some (writeCache, _) => readCache.address = writeCache.address
  | _, _ => false

/-- A cache that is read and written is loaded once. -/
def load (chain : Chain HEIGHT K) (accounts : Option TransactCacheAccounts) (now : Int) :
    Except ProgramError (Option TransactCache) :=
  match accounts with
  | none => .ok none
  | some ⟨readCache, writeCache⟩ => do
    let write ← loadWrite chain writeCache now
    let read ← loadRead chain readCache (isShared readCache writeCache)
    pure (some ⟨read, write⟩)

def readState (chain : Chain HEIGHT K) (cache : TransactCache) : Option CacheAccount :=
  match cache.read with
  | some (.own account) => chain.cache account
  | some .writeCache => cache.write.bind chain.cache
  | none => none

end TransactCache

/-- The cached inputs, as the account holds them before any write of this instruction. -/
def bindCachedInputs (hashv : Hashv) (chain : Chain HEIGHT K) (cache : Option TransactCache)
    (circuit : CircuitId) (proofInputs : Verify.TransactProofInputs) :
    Except ProgramError Verify.TransactProofInputs :=
  match cache.bind (·.readState chain) with
  | none => .ok proofInputs
  | some state => proofInputs.assignCachedInputs hashv circuit state

/-- The cache that a transact writes, with the slots that it writes to. -/
def cacheDestination (cache : Option TransactCache) (circuit : CircuitId) :
    Option (Address × Vector CacheWrite maxCacheWrites) :=
  match cache.bind (·.write), circuit.cacheAccess with
  | some cache, some access => some (cache, access.writeSlots)
  | _, _ => none

def checkCacheOutputTree (chain : Chain HEIGHT K) (cache : Option TransactCache)
    (outputTreeId : UInt16) : Except ProgramError Unit :=
  match cache.bind (·.write) with
  | some cache => checkOutputTree chain cache outputTreeId
  | none => .ok ()

/-- The loop of `write_cached_outputs`. -/
def writeOutputs (cache : Address) (outputs : List TransactOutput) : List CacheWrite → ChainM HEIGHT K Unit
  | [] => pure ()
  | entry :: entries => do
    let output ← okOr outputs[entry.output.toNat]? (.custom .invalidCacheBitmap)
    writeCacheSlot cache entry.slot output.utxoHash
    writeOutputs cache outputs entries

def writeCachedOutputs (cache : Option TransactCache) (ix : TransactIxData) : ChainM HEIGHT K Unit :=
  match cache.bind (·.write), ix.circuit.cacheAccess with
  | some cache, some access => writeOutputs cache ix.outputs access.writes
  | _, _ => pure ()

/-! ### Assembly -/

/-- A transact with everything that its proof is checked against. -/
structure AssembledTransact where
  ix : TransactIxData
  externalDataPrefix : List UInt8
  resolvedOutputs : List ResolvedOutput
  accounts : ParsedTransactAccounts
  cache : Option TransactCache
  proofInputs : Verify.TransactProofInputs
  event : SpendEvent
  deriving DecidableEq, Repr

/-- The accounts, and for a ring the field of its program. -/
def parseTransact (env : ChainEnv) (chain : Chain HEIGHT K) (ix : TransactIxData)
    (accounts : List AccountView) (proofInputs : Verify.TransactProofInputs) :
    Except ProgramError (ParsedTransactAccounts × Verify.TransactProofInputs) :=
  if ix.circuit.isRing then do
    let (transactAccounts, ringProgramId) ← parseAccounts
      (parseRingTransactAccounts env.splInterfaceAddress chain ix ix.circuit.isAuthority) accounts
    let ringProgramId ← hashed (hashBytes env.tree.hashv ringProgramId)
    pure (transactAccounts, proofInputs.assignRingProgramId ringProgramId)
  else do
    let transactAccounts ← parseAccounts
      (parseTransactAccounts env.splInterfaceAddress chain ix) accounts
    pure (transactAccounts, proofInputs)

/-- The accounts of the trees and nullifier PDAs. -/
def ParsedTransactAccounts.treePart (accounts : ParsedTransactAccounts) : TransactAccounts where
  payer := accounts.payer.address
  inputTrees := accounts.inputTrees.map (·.address)
  outputTree := accounts.outputTree.address
  nullifierPdas := accounts.nullifierPdas.map (·.address)

/-- Steps 7 to 9 of the processor: signers, output owners and public amounts. -/
def assignOwnersAndAmounts (hashv : Hashv) (ix : TransactIxData) (accounts : ParsedTransactAccounts)
    (resolvedOutputs : List ResolvedOutput) (proofInputs : Verify.TransactProofInputs) :
    Except ProgramError Verify.TransactProofInputs := do
  let (proofInputs, ownerHashes) ← proofInputs.fillOwnerSignerHashes hashv
    ix.circuit.requiresInputSignatures accounts.payer.address (accounts.ownerSigners.map (·.address))
    ⟨[]⟩
  let proofInputs ← proofInputs.fillOutputOwnerPkHashes hashv ix.circuit.outputOwnerMode
    resolvedOutputs ownerHashes
  proofInputs.assignPublicAmountsAndAssets hashv ix.interfaceTransfers accounts.settlements
    ix.circuit.numPublicAssetSlots

def boundExternalDataHash (sha256 : Sha256) (instruction : InstructionTag) (ix : TransactIxData)
    (externalDataPrefix : List UInt8) (settlements : List Settlement)
    (resolvedOutputs : List ResolvedOutput) (cache : Option TransactCache) : Except ProgramError Bytes32 :=
  match hashExternalData sha256 instruction.toByte externalDataPrefix ix.outputs
      (settlements.map (·.committedAccounts)) resolvedOutputs with
  | .error _ => .error (.custom .tooManyExternalDataHashSlices)
  | .ok externalDataHash =>
    match bindCacheWrite sha256 externalDataHash (cacheDestination cache ix.circuit) with
    | .error _ => .error (.custom .transactProofVerificationFailed)
    | .ok externalDataHash => .ok externalDataHash

/-- `process_resolved_transact` up to the proof. -/
def assembleResolved (env : ChainEnv) (instruction : InstructionTag) (accounts : List AccountView)
    (ix : TransactIxData) (externalDataPrefix : List UInt8) (clock : Clock)
    (treeInputCounts : List Nat) (resolvedOutputs : List ResolvedOutput) :
    ChainM HEIGHT K AssembledTransact := do
  let hashv := env.tree.hashv
  let (transactAccounts, proofInputs) ← mapErr id
    (parseTransact env (← get) ix accounts (.new ix.circuit))
  let cache ← mapErr id (TransactCache.load (← get) transactAccounts.cache clock.unixTimestamp)
  let proofInputs ← mapErr id
    (assignOwnersAndAmounts hashv ix transactAccounts resolvedOutputs proofInputs)
  let (queued, inputFlags) ← onChainLedger
    (applyInputTrees env.pool transactAccounts.treePart ix.treePart treeInputCounts)
  let proofInputs := proofInputs.assignInputTrees (queued.map (·.slot)) inputFlags
  let proofInputs ← mapErr id (bindCachedInputs hashv (← get) cache ix.circuit proofInputs)
  let outputTree := transactAccounts.outputTree.address
  let (treeWrite, outputTreeFee) ← onChainLedger (applyOutputTree hashv outputTree
    (ix.outputs.map (·.utxoHash)) clock.slot
    (outputTree ∈ transactAccounts.inputTrees.map (·.address)))
  onChainLedger (collectTreeFee transactAccounts.payer.address outputTree outputTreeFee)
  mapErr id (checkCacheOutputTree (← get) cache treeWrite.outputTreeId)
  let proofInputs := proofInputs.assignOutputTreeId treeWrite.outputTreeId
  let externalDataHash ← mapErr id (boundExternalDataHash env.sha256 instruction ix
    externalDataPrefix transactAccounts.settlements resolvedOutputs cache)
  let proofInputs := proofInputs.assignExternalDataHash externalDataHash
  mapErr id proofInputs.ensureComplete
  let event : SpendEvent :=
    { inputTrees := queued.map fun tree => (tree.result.tree, tree.result.firstInputQueueSeq)
      outputTree
      firstOutputLeafIndex := treeWrite.firstOutputLeafIndex }
  pure ⟨ix, externalDataPrefix, resolvedOutputs, transactAccounts, cache, proofInputs, event⟩

/-- `process_transact_ix` up to the proof. -/
def assembleTransact (env : ChainEnv) (instruction : InstructionTag) (accounts : List AccountView)
    (data : List UInt8) (clock : Clock) : ChainM HEIGHT K AssembledTransact := do
  let (ix, externalDataPrefix) ← okOr (parseWithExternalDataPrefix data) .invalidInstructionData
  validateCircuitType env instruction ix
  let treeInputCounts ← mapErr .custom (validateInputTreeContexts ix.inputs ix.treeContexts)
  onChainLedger (checkNotExpired ix.expiryUnixTs.toNat clock)
  let resolvedOutputs ← mapErr .custom (resolveOutputs (accounts.map (·.address)) ix.outputs)
  assembleResolved env instruction accounts ix externalDataPrefix clock treeInputCounts resolvedOutputs

/-! ### The processor -/

def verifyTransactProof (env : ChainEnv) (ix : TransactIxData) (derived : Verify.TransactProofInputs) :
    Except ProgramError Unit := do
  let publicInputHash ← publicInputHash env.tree.hashv env.sha256 ix derived
  if ix.circuit.isSupported = false then
    .error (.custom .invalidTransactShape)
  else
    match env.verifyTransact ix.circuit.uncached ix.proof publicInputHash with
    | .error e => .error (.custom e)
    | .ok _ => .ok ()

/-- The part of `process_transact_ix` before the public settlement. -/
def authorizeTransact (env : ChainEnv) (instruction : InstructionTag) (accounts : List AccountView)
    (data : List UInt8) (clock : Clock) : ChainM HEIGHT K AssembledTransact := do
  let transact ← assembleTransact env instruction accounts data clock
  mapErr id (verifyTransactProof env transact.ix transact.proofInputs)
  writeCachedOutputs transact.cache transact.ix
  pure transact

/-- The transfers of a transact with the accounts that settle them. -/
def AssembledTransact.legs (transact : AssembledTransact) : List (InterfaceTransfer × Settlement) :=
  transact.ix.interfaceTransfers.zip transact.accounts.settlements

def processTransactIx (env : ChainEnv) (instruction : InstructionTag) (accounts : List AccountView)
    (data : List UInt8) (clock : Clock) : ChainM HEIGHT K AssembledTransact := do
  let transact ← authorizeTransact env instruction accounts data clock
  settleInterfaceTransfers env.token transact.legs
  pure transact

end Zolana
