import Zolana.Pool.Settlement

/-!
# The account list of a transact

`instructions/transact/account.rs`: fixed accounts first, then one tree for each declared context, one
nullifier PDA for each input, a run of owner signers, one group of settlement accounts for each leg, and
the caches. Nothing marks where a part ends but the instruction data and the first account that does not
sign.
-/

namespace Zolana

open Fallible AccountIterator

variable {HEIGHT K : Nat}

structure TransactCacheAccounts where
  readCache : Option AccountView
  /-- The cache and its writer. -/
  writeCache : Option (AccountView × AccountView)
  deriving DecidableEq, Repr

structure ParsedTransactAccounts where
  payer : AccountView
  inputTrees : List AccountView
  outputTree : AccountView
  nullifierPdas : List AccountView
  ownerSigners : List AccountView
  settlements : List Settlement
  cache : Option TransactCacheAccounts
  deriving DecidableEq, Repr

def validateProgramPrefix : AccountIterator Unit := do
  let shieldedPoolProgram ← nextAccount
  if shieldedPoolProgram.address ≠ shieldedPoolProgramId then
    throw .incorrectProgramId
  else
    let systemProgram ← nextAccount
    if systemProgram.address ≠ systemProgramId then
      throw (.custom .invalidSystemProgram)

/-- The loop of `parse_input_trees`, with the trees parsed so far. -/
def parseInputTrees (inputTrees : List AccountView) : Nat → AccountIterator (List AccountView)
  | 0 => pure inputTrees
  | count + 1 => do
    let inputTree ← nextMut
    if inputTrees.any (·.address = inputTree.address) then
      throw (.custom .duplicateInputTree)
    else if inputTrees.length < inputTreeSlots then
      parseInputTrees (inputTrees ++ [inputTree]) count
    else
      throw (.custom .invalidTreeContextCount)

def parseSettlement (splInterfaceAddress : SplInterfaceAddress) (chain : Chain HEIGHT K) :
    InterfaceTransfer → AccountIterator Settlement
  | .splDeposit _ splInterfaceBump => do
    let mintAccount ← nextAccount
    let splInterfaceAccount ← nextAccount
    let tokenAuthority ← nextAccount
    let userTokenAccount ← nextAccount
    let tokenProgram ← nextAccount
    let mintState ← mapErr id (validateSplDepositSettlement splInterfaceAddress chain mintAccount
      splInterfaceAccount userTokenAccount tokenProgram splInterfaceBump tokenAuthority)
    pure (.splDeposit ⟨mintAccount, mintState.decimals, splInterfaceAccount, tokenAuthority,
      userTokenAccount, tokenProgram⟩)
  | .splWithdrawal _ splInterfaceBump => do
    let cpiAuthority ← nextNonMut
    let mintAccount ← nextAccount
    let splInterfaceAccount ← nextAccount
    let userTokenAccount ← nextAccount
    let tokenProgram ← nextAccount
    let mintState ← mapErr id (validateSplWithdrawalSettlement splInterfaceAddress chain cpiAuthority
      mintAccount splInterfaceAccount userTokenAccount tokenProgram splInterfaceBump)
    pure (.splWithdrawal ⟨cpiAuthority, mintAccount, mintState.decimals, splInterfaceAccount,
      userTokenAccount, tokenProgram⟩)
  | .solDeposit _ => do
    let solInterfaceAccount ← nextAccount
    let recipient ← nextAccount
    mapErr id (validateSolSettlement chain solInterfaceAccount recipient)
    pure (.solDeposit ⟨solInterfaceAccount, recipient⟩)
  | .solWithdrawal _ => do
    let solInterfaceAccount ← nextAccount
    let recipient ← nextAccount
    mapErr id (validateSolSettlement chain solInterfaceAccount recipient)
    pure (.solWithdrawal ⟨solInterfaceAccount, recipient⟩)

/-- The loop over the legs, with the settlements parsed so far. -/
def parseSettlements (splInterfaceAddress : SplInterfaceAddress) (chain : Chain HEIGHT K)
    (settlements : List Settlement) : List InterfaceTransfer → AccountIterator (List Settlement)
  | [] => pure settlements
  | transfer :: transfers => do
    let settlement ← parseSettlement splInterfaceAddress chain transfer
    if settlements.length < maxInterfaceTransfers then
      parseSettlements splInterfaceAddress chain (settlements ++ [settlement]) transfers
    else
      throw (.custom .tooManyInterfaceTransfers)

def CircuitId.readsCache (circuit : CircuitId) : Bool :=
  circuit.cacheAccess.any fun access => access.readBitmap ≠ 0

def CircuitId.writesCache (circuit : CircuitId) : Bool :=
  circuit.cacheAccess.any fun access => access.writesCache

def parseCacheAccounts (circuit : CircuitId) : AccountIterator (Option TransactCacheAccounts) := do
  if circuit.readsCache || circuit.writesCache then
    let readCache ← if circuit.readsCache then some <$> nextAccount else pure none
    let writeCache ←
      if circuit.writesCache then do
        let cache ← nextMut
        let writer ← nextSigner
        pure (some (cache, writer))
      else
        pure none
    pure (some ⟨readCache, writeCache⟩)
  else
    pure none

/-- `TransactAccounts::from_iter`, behind the input trees. -/
def parseTransactTail (splInterfaceAddress : SplInterfaceAddress) (chain : Chain HEIGHT K)
    (ix : TransactIxData) (payer : AccountView) (inputTrees : List AccountView)
    (outputTree : AccountView) (allowOwnerSigners : Bool) : AccountIterator ParsedTransactAccounts := do
  mapErr .custom (validateInterfaceTransfers ix.interfaceTransfers)
  let nullifierPdas ← pushMuts maxTransactInputs .invalidTransactShape [] ix.inputs.length
  let remaining ← get
  let ownerSigners := remaining.takeWhile (·.isSigner)
  let settlementAccounts := remaining.dropWhile (·.isSigner)
  if ownerSignerSlots ix.circuit.numInputs + 1 < ownerSigners.length ∨
      (allowOwnerSigners = false ∧ ownerSigners.length ≠ 0) then
    throw (.custom .invalidTransactShape)
  else if settlementAccounts.length ≠
      (ix.interfaceTransfers.map (·.settlementAccountCount)).sum + ix.circuit.readsCache.toNat +
        2 * ix.circuit.writesCache.toNat then
    throw (.custom .invalidSettlementAccounts)
  else
    set settlementAccounts
    let settlements ← parseSettlements splInterfaceAddress chain [] ix.interfaceTransfers
    let cache ← parseCacheAccounts ix.circuit
    pure ⟨payer, inputTrees, outputTree, nullifierPdas, ownerSigners, settlements, cache⟩

def parseTransactAccounts (splInterfaceAddress : SplInterfaceAddress) (chain : Chain HEIGHT K)
    (ix : TransactIxData) : AccountIterator ParsedTransactAccounts := do
  let payer ← nextSigner
  let outputTree ← nextMut
  validateProgramPrefix
  let inputTrees ← parseInputTrees [] ix.treeContexts.length
  parseTransactTail splInterfaceAddress chain ix payer inputTrees outputTree true

/-- `RingTransactAccounts::validate_and_parse`: the ring config signs, and names the ring's program. -/
def parseRingTransactAccounts (splInterfaceAddress : SplInterfaceAddress) (chain : Chain HEIGHT K)
    (ix : TransactIxData) (requireRingAuthorityEnabled : Bool) :
    AccountIterator (ParsedTransactAccounts × Address) := do
  let payer ← nextSigner
  let outputTree ← nextMut
  validateProgramPrefix
  let ringConfig ← nextSigner
  let config ← mapErr id (loadActiveRingConfig chain ringConfig)
  if requireRingAuthorityEnabled && !config.ringAuthorityTransactIsEnabled then
    throw (.custom .ringAuthorityTransactDisabled)
  else
    let inputTrees ← parseInputTrees [] ix.treeContexts.length
    let accounts ← parseTransactTail splInterfaceAddress chain ix payer inputTrees outputTree
      (!requireRingAuthorityEnabled)
    pure (accounts, config.programId)

end Zolana
