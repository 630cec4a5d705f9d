import Zolana.Pool.TreeAccount

/-!
# Accounts

The accounts an instruction of the program reads and writes. Of an account's owner and data the model
keeps what the program's loaders tell apart. An instruction is a fallible computation on the ledger, and
one that fails leaves no trace: the runtime restores every account.
-/

namespace Zolana

open Fallible

abbrev Address := Bytes32

/-- The errors of the modelled processors. -/
inductive ShieldedPoolError where
  | invalidInstructionData
  | invalidTreeAccounts
  | nullifierTreeUpdateFailed
  | stateAppendFailed
  | expiredTransaction
  | invalidTransactShape
  | transactProofVerificationFailed
  | treePaused
  | staleNullifierRoot
  | invalidForesterFee
  | treeFeeTooHigh
  | insufficientForesterFeeBalance
  | invalidReimbursementRecipient
  | invalidNullifierPda
  | nullifierAlreadyQueued
  | nullifierPdaNotClosable
  | nullifierPdaTreeMismatch
  | insufficientNullifierPdaRent
  | invalidTreeContextCount
  | inputTreeIndexOutOfRange
  | unreferencedTreeContext
  | duplicateInputTree
  | nonCanonicalInputNullifier
  | zeroInputNullifier
  | nonCanonicalOutputUtxoHash
  | zeroOutputUtxoHash
  | nonCanonicalPrivateTxHash
  | nonCanonicalRoot
  | invalidMergeShape
  | noClaimableTreeLamports
  | invalidPda
  | unauthorizedCaller
  | invalidTreeId
  | treeIdOverflow
  | treeCreationMismatch
  | tooManyInterfaceTransfers
  | zeroInterfaceTransferAmount
  | ownerTagAccountMissing
  | tooManyExternalDataHashSlices
  | invalidTransactProofEncoding
  | invalidSettlementAccounts
  | publicSettlementFailed
  | splTokenAuthorityMustSign
  | tooManyPublicAssets
  | publicAssetAmountOverflow
  | zeroNetInterfaceTransferAmount
  | mismatchedCircuitType
  | circuitFeatureDisabled
  | invalidSystemProgram
  | invalidRingConfig
  | ringNotActivated
  | ringPaused
  | ringAuthorityTransactDisabled
  | invalidCache
  | cacheConfigMismatch
  | cacheSlotEmpty
  | invalidCacheSlot
  | invalidCacheBitmap
  | cacheTreeMismatch
  | cacheExpired
  | cacheNotExpired
  | cacheExpiryNotInFuture
  | cacheWriteAuthorityMismatch
  | cacheRentRecipientMismatch
  | mergeEncryptionSchemeMismatch
  | nonCanonicalMergeCiphertext
  | invalidUserRecord
  | nonCanonicalRingDataHash
  | emptyDepositBatch
  | tooManyDepositAssets
  | invalidDepositAssetIndex
  | duplicateDepositAsset
  | depositAmountOverflow
  | unreferencedDepositAsset
  | nonCanonicalDepositField
  | depositBlindingDerivationFailed
  deriving DecidableEq, Repr

inductive AccountError where
  | notEnoughAccountKeys
  | invalidSigner
  | accountNotMutable
  | accountMutable
  deriving DecidableEq, Repr

inductive ProgramError where
  | custom (error : ShieldedPoolError)
  /-- With the cause that `caused_by` and `print_collapsed` log. -/
  | causedBy (error : ShieldedPoolError) (cause : NullifierTreeError)
  | arithmeticOverflow
  | systemProgram
  | tokenProgram
  | missingRequiredSignature
  | invalidInstructionData
  | incorrectProgramId
  | account (error : AccountError)
  | hasher (error : HasherError)
  deriving DecidableEq, Repr

def treeError : TreeError → ProgramError
  | .paused => .custom .treePaused
  | .invalidRootIndex => .custom .staleNullifierRoot
  | .treeIsFull => .custom .stateAppendFailed
  | .feeOverflow => .custom .invalidForesterFee
  | .feeTooHigh => .custom .treeFeeTooHigh
  | _ => .custom .invalidTreeAccounts

/-- The conversion of a tree error that the interface provides, next to `tree_error`. -/
def ShieldedPoolError.ofTreeError : TreeError → ShieldedPoolError
  | .paused => .treePaused
  | .treeIsFull => .stateAppendFailed
  | .feeOverflow => .invalidForesterFee
  | .feeTooHigh => .treeFeeTooHigh
  | _ => .invalidTreeAccounts

def nullifierTreeError : NullifierTreeError → ProgramError
  | .nonCanonicalFieldElement => .custom .nonCanonicalRoot
  | cause => .causedBy .nullifierTreeUpdateFailed cause

structure NullifierPda where
  /-- The queue index the nullifier reserved, never zero. -/
  queueIndex : Nat
  treeId : UInt16
  deriving DecidableEq, Repr

def NullifierPda.isClosable (record : NullifierPda) (closeBeforeIndex : Nat) : Bool :=
  record.queueIndex < closeBeforeIndex

inductive AccountData (HEIGHT K : Nat) where
  /-- Owned by the system program, without data. -/
  | unused
  /-- Owned by the program, with the tree discriminator. -/
  | tree (layout : TreeAccountLayout HEIGHT K)
  /-- Owned by the program, with the nullifier PDA discriminator and size. -/
  | nullifierPda (record : NullifierPda)
  | other (ownedByProgram : Bool)
  deriving DecidableEq, Repr

structure Account (HEIGHT K : Nat) where
  lamports : Nat
  data : AccountData HEIGHT K
  deriving DecidableEq, Repr

abbrev Ledger (HEIGHT K : Nat) := Address → Account HEIGHT K

abbrev PoolM (HEIGHT K : Nat) := EStateM ProgramError (Ledger HEIGHT K)

variable {HEIGHT K : Nat}

namespace Ledger

def setLamports (address : Address) (lamports : Nat) (ledger : Ledger HEIGHT K) : Ledger HEIGHT K :=
  Function.update ledger address { ledger address with lamports }

def setData (address : Address) (data : AccountData HEIGHT K) (ledger : Ledger HEIGHT K) : Ledger HEIGHT K :=
  Function.update ledger address { ledger address with data }

def tree (ledger : Ledger HEIGHT K) (address : Address) : Option (TreeAccountLayout HEIGHT K) :=
  match (ledger address).data with
  | .tree layout => some layout
  | _ => none

def nullifierPda (ledger : Ledger HEIGHT K) (address : Address) : Option NullifierPda :=
  match (ledger address).data with
  | .nullifierPda record => some record
  | _ => none

end Ledger

/-- The system program's transfer, signed by the sender: an account with data cannot send. -/
def transfer (sender receiver : Address) (lamports : Nat) : PoolM HEIGHT K Unit := do
  let ledger ← get
  if (ledger sender).data ≠ .unused ∨ (ledger sender).lamports < lamports then
    throw .systemProgram
  else
    modify (Ledger.setLamports sender ((ledger sender).lamports - lamports))
    modify fun ledger => ledger.setLamports receiver ((ledger receiver).lamports + lamports)

def loadChecked (mapError : TreeError → ProgramError) (address : Address) :
    PoolM HEIGHT K (TreeAccountLayout HEIGHT K) := do
  match ((← get) address).data with
  | .unused | .other false => throw (mapError .invalidOwner)
  | .nullifierPda _ | .other true => throw (mapError .invalidDiscriminator)
  | .tree tree =>
    mapErr mapError tree.checkLayout
    pure tree

/-- `from_account_view_mut`: every check before the layout is handed out. -/
def checkTreeAccount (mapError : TreeError → ProgramError) (address : Address) : PoolM HEIGHT K Unit := do
  let tree ← loadChecked mapError address
  if tree.state = .paused then
    throw (mapError .paused)

def withTree {α : Type} (mapError : TreeError → ProgramError) (address : Address)
    (act : EStateM ProgramError (TreeAccountLayout HEIGHT K) α) : PoolM HEIGHT K α := do
  checkTreeAccount mapError address
  zoom (fun ledger => ledger.tree address) (fun tree ledger => ledger.setData address (.tree tree))
    (.custom .invalidTreeAccounts) act

def treeMethod {ε α : Type} (mapError : ε → ProgramError) (method : EStateM ε (TreeAccountLayout HEIGHT K) α) :
    EStateM ProgramError (TreeAccountLayout HEIGHT K) α :=
  within id (fun tree _ => tree) mapError method

def nullifierMethod {α : Type} (mapError : NullifierTreeError → ProgramError)
    (method : TreeM K α) : EStateM ProgramError (TreeAccountLayout HEIGHT K) α :=
  within (·.nullifier) (fun nullifier tree => { tree with nullifier }) mapError method

def utxoMethod {α : Type} (method : UtxoTreeM HEIGHT α) : EStateM ProgramError (TreeAccountLayout HEIGHT K) α :=
  within (·.utxo) (fun utxo tree => { tree with utxo }) treeError method

end Zolana
