import Zolana.Pool.Chain

/-!
# Public settlement

`instructions/settlement`: the accounts of a public transfer, the checks on them, and the transfer. Native
SOL lies at one address, and the tokens of a mint in token accounts whose address is derived from the mint
and a bump. The token program is outside the repository, so what a checked transfer does is a parameter.
-/

namespace Zolana

open Fallible

variable {HEIGHT K : Nat}

/-- `derive_address` over the seeds of a mint. -/
abbrev SplInterfaceAddress := Address → UInt8 → Address

structure SettlementAccountsSol where
  solInterfaceAccount : AccountView
  recipientAccount : AccountView
  deriving DecidableEq, Repr

structure SplDepositAccounts where
  mintAccount : AccountView
  decimals : UInt8
  splInterfaceAccount : AccountView
  tokenAuthorityAccount : AccountView
  userTokenAccount : AccountView
  tokenProgramAccount : AccountView
  deriving DecidableEq, Repr

structure SplWithdrawalAccounts where
  cpiAuthorityAccount : AccountView
  mintAccount : AccountView
  decimals : UInt8
  splInterfaceAccount : AccountView
  userTokenAccount : AccountView
  tokenProgramAccount : AccountView
  deriving DecidableEq, Repr

inductive Settlement where
  | solDeposit (accounts : SettlementAccountsSol)
  | solWithdrawal (accounts : SettlementAccountsSol)
  | splDeposit (accounts : SplDepositAccounts)
  | splWithdrawal (accounts : SplWithdrawalAccounts)
  deriving DecidableEq, Repr

namespace Settlement

def committedAccounts : Settlement → Address × Address
  | solDeposit accounts | solWithdrawal accounts =>
    (accounts.solInterfaceAccount.address, accounts.recipientAccount.address)
  | splDeposit accounts => (accounts.mintAccount.address, accounts.userTokenAccount.address)
  | splWithdrawal accounts => (accounts.mintAccount.address, accounts.userTokenAccount.address)

def isDeposit : Settlement → Bool
  | solDeposit _ | splDeposit _ => true
  | solWithdrawal _ | splWithdrawal _ => false

/-- The mint, and nothing for SOL. -/
def splAsset : Settlement → Option Address
  | solDeposit _ | solWithdrawal _ => none
  | splDeposit accounts => some accounts.mintAccount.address
  | splWithdrawal accounts => some accounts.mintAccount.address

end Settlement

/-! ### Checks -/

/-- The system program owns an account without data. -/
def validateSolSettlement (chain : Chain HEIGHT K) (solInterfaceAccount recipient : AccountView) :
    Except ProgramError Unit :=
  if solInterfaceAccount.address ≠ solInterface ∨ solInterfaceAccount.isWritable = false ∨
      recipient.isWritable = false ∨ (chain.ledger solInterfaceAccount.address).data ≠ .unused then
    .error (.custom .invalidSettlementAccounts)
  else
    .ok ()

def readTokenAccount (chain : Chain HEIGHT K) (account tokenProgram : Address) :
    Except ProgramError TokenAccount :=
  if tokenProgram ≠ splTokenProgramId ∧ tokenProgram ≠ splToken2022ProgramId then
    .error (.custom .invalidSettlementAccounts)
  else
    match chain.tokenAccount account with
    | none => .error (.custom .invalidSettlementAccounts)
    | some state =>
      if state.tokenProgram ≠ tokenProgram ∨ state.initialized = false then
        .error (.custom .invalidSettlementAccounts)
      else
        .ok state

structure ValidatedSplSettlement where
  mint : Address
  decimals : UInt8
  userTokenAccountAuthority : Address
  deriving DecidableEq, Repr

def validateSplSettlement (splInterfaceAddress : SplInterfaceAddress) (chain : Chain HEIGHT K)
    (mintAccount splInterfaceAccount senderTokenAccount tokenProgram : AccountView)
    (interfacePdaBump : UInt8) : Except ProgramError ValidatedSplSettlement := do
  if splInterfaceAccount.isWritable = false ∨ senderTokenAccount.isWritable = false then
    .error (.custom .invalidSettlementAccounts)
  else
    let splInterfacePdaState ← readTokenAccount chain splInterfaceAccount.address tokenProgram.address
    let senderState ← readTokenAccount chain senderTokenAccount.address tokenProgram.address
    match chain.mintDecimals mintAccount.address with
    | none => .error (.custom .invalidSettlementAccounts)
    | some decimals =>
      if mintAccount.address ≠ splInterfacePdaState.mint ∨
          splInterfacePdaState.mint ≠ senderState.mint ∨
          splInterfacePdaState.owner ≠ shieldedPoolCpiAuthority then
        .error (.custom .invalidSettlementAccounts)
      else if splInterfaceAccount.address ≠
          splInterfaceAddress splInterfacePdaState.mint interfacePdaBump then
        .error (.custom .invalidSettlementAccounts)
      else
        .ok ⟨mintAccount.address, decimals, senderState.owner⟩

def validateSplDepositSettlement (splInterfaceAddress : SplInterfaceAddress) (chain : Chain HEIGHT K)
    (mintAccount splInterfaceAccount userTokenAccount tokenProgramAccount : AccountView)
    (interfacePdaBump : UInt8) (tokenAuthorityAccount : AccountView) :
    Except ProgramError ValidatedSplSettlement := do
  if tokenAuthorityAccount.isSigner = false then
    .error (.custom .splTokenAuthorityMustSign)
  else
    let settlement ← validateSplSettlement splInterfaceAddress chain mintAccount splInterfaceAccount
      userTokenAccount tokenProgramAccount interfacePdaBump
    if settlement.userTokenAccountAuthority ≠ tokenAuthorityAccount.address then
      .error (.custom .invalidSettlementAccounts)
    else
      .ok settlement

def validateSplWithdrawalSettlement (splInterfaceAddress : SplInterfaceAddress) (chain : Chain HEIGHT K)
    (cpiAuthorityAccount mintAccount splInterfaceAccount userTokenAccount tokenProgramAccount :
      AccountView)
    (interfacePdaBump : UInt8) : Except ProgramError ValidatedSplSettlement :=
  if cpiAuthorityAccount.address ≠ shieldedPoolCpiAuthority then
    .error (.custom .invalidSettlementAccounts)
  else
    validateSplSettlement splInterfaceAddress chain mintAccount splInterfaceAccount userTokenAccount
      tokenProgramAccount interfacePdaBump

/-! ### Transfers -/

/-- A deposit is signed by the sender, a withdrawal by the seeds of the interface account. -/
def settleSol (accounts : SettlementAccountsSol) (amount : Nat) (isDeposit : Bool) : ChainM HEIGHT K Unit :=
  if isDeposit then
    if accounts.recipientAccount.isSigner then
      onChainLedger
        (transfer accounts.recipientAccount.address accounts.solInterfaceAccount.address amount)
    else
      throw .missingRequiredSignature
  else
    onChainLedger
      (transfer accounts.solInterfaceAccount.address accounts.recipientAccount.address amount)

/-- The accounts and the amount of a `TransferChecked` that its authority has signed. -/
structure TransferChecked where
  tokenProgram : Address
  sender : Address
  mint : Address
  receiver : Address
  authority : Address
  amount : Nat
  decimals : UInt8
  deriving DecidableEq, Repr

/-- What the token program does with a transfer. -/
abbrev TokenProgram := (HEIGHT K : Nat) → TransferChecked → ChainM HEIGHT K Unit

def tokenAccountAmount (account : Address) : ChainM HEIGHT K Nat := do
  match (← get).tokenAccount account with
  | some state => pure state.amount
  | none => throw (.custom .publicSettlementFailed)

/-- The interface account has to gain the amount. -/
def settleSplDeposit (token : TokenProgram) (accounts : SplDepositAccounts) (amount : Nat) : ChainM HEIGHT K Unit := do
  let interfaceAmountBefore ← tokenAccountAmount accounts.splInterfaceAccount.address
  if accounts.tokenAuthorityAccount.isSigner = false then
    throw .missingRequiredSignature
  else
    token HEIGHT K ⟨accounts.tokenProgramAccount.address, accounts.userTokenAccount.address,
      accounts.mintAccount.address, accounts.splInterfaceAccount.address,
      accounts.tokenAuthorityAccount.address, amount, accounts.decimals⟩
    let interfaceAmountAfter ← tokenAccountAmount accounts.splInterfaceAccount.address
    let expectedInterfaceAmount ←
      okOr (checkedAdd interfaceAmountBefore amount) (.custom .publicSettlementFailed)
    if interfaceAmountAfter ≠ expectedInterfaceAmount then
      throw (.custom .publicSettlementFailed)

/-- Signed by the seeds of the authority. -/
def settleSplWithdrawal (token : TokenProgram) (accounts : SplWithdrawalAccounts) (amount : Nat) :
    ChainM HEIGHT K Unit :=
  token HEIGHT K ⟨accounts.tokenProgramAccount.address, accounts.splInterfaceAccount.address,
    accounts.mintAccount.address, accounts.userTokenAccount.address,
    accounts.cpiAuthorityAccount.address, amount, accounts.decimals⟩

def Settlement.settle (token : TokenProgram) (amount : Nat) : Settlement → ChainM HEIGHT K Unit
  | .solDeposit accounts => settleSol accounts amount true
  | .solWithdrawal accounts => settleSol accounts amount false
  | .splDeposit accounts => settleSplDeposit token accounts amount
  | .splWithdrawal accounts => settleSplWithdrawal token accounts amount

def settleInterfaceTransfers (token : TokenProgram) :
    List (InterfaceTransfer × Settlement) → ChainM HEIGHT K Unit
  | [] => pure ()
  | (transfer, settlement) :: legs => do
    if transfer.isDeposit ≠ settlement.isDeposit then
      throw (.custom .invalidSettlementAccounts)
    else
      settlement.settle token transfer.amount.toNat
      settleInterfaceTransfers token legs

end Zolana
