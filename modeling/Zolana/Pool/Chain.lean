import Zolana.Interface.Cache

/-!
# The accounts beyond the trees

The ledger tells apart what the tree instructions tell apart. The other instructions also read caches,
ring configs, token accounts and mints: a chain is a ledger with the contents of its other accounts. An
account has contents only where the ledger calls it `other`, so an account that is closed or becomes a
nullifier PDA has none.
-/

namespace Zolana

open Fallible

/-! ### Addresses -/

def shieldedPoolProgramId : Address :=
  0x0cbcb578ae61258132eeaf6ac121c0a42b88a2e84fb11e7e2d5ba0afd1273163#256

def systemProgramId : Address := 0

/-- `SOL_INTERFACE`, the account that holds the native SOL of the pool. -/
def solInterface : Address := 0xae09fbb938445069bb9fa14119780f33e3abbfd51227271439ed93e4b9397dfd#256

/-- `SHIELDED_POOL_CPI_AUTHORITY`, the owner of the pool's token accounts. -/
def shieldedPoolCpiAuthority : Address :=
  0xabfb7a480227525b88b95201efecd5a2264df8eef26789684340f44e7688e63b#256

def splTokenProgramId : Address :=
  0x06ddf6e1d765a193d9cbe146ceeb79ac1cb485ed5f5b37913a8cf5857eff00a9#256

def splToken2022ProgramId : Address :=
  0x06ddf6e1ee758fde18425dbce46ccddab61afc4d83b90d27febdf928d8a18bfc#256

/-! ### Contents -/

structure TokenAccount where
  tokenProgram : Address
  mint : Address
  owner : Address
  amount : Nat
  /-- The `state` byte is `SPL_TOKEN_ACCOUNT_INITIALIZED`. -/
  initialized : Bool
  deriving DecidableEq, Repr

structure RingConfig where
  programId : Address
  ringAuthorityTransactIsEnabled : Bool
  paused : Bool
  activated : Bool
  deriving DecidableEq, Repr

/-- `MergeEncryptionScheme` of the user registry. -/
inductive MergeEncryptionScheme where
  | disabled
  | poseidonCtrV1
  deriving DecidableEq, Repr

/-- A record of the user registry that lies at the address of its owner. -/
structure UserRecord where
  owner : Address
  nullifierPubkey : Bytes32
  mergeEncryption : MergeEncryptionScheme
  deriving DecidableEq, Repr

inductive Contents where
  | cache (cache : CacheAccount)
  | ringConfig (config : RingConfig)
  | tokenAccount (account : TokenAccount)
  | mint (decimals : UInt8)
  | userRecord (record : UserRecord)
  deriving DecidableEq, Repr

/-- Caches and ring configs belong to the program, the rest to other programs. -/
def Contents.ownedByProgram : Contents → Bool
  | cache _ | ringConfig _ => true
  | tokenAccount _ | mint _ | userRecord _ => false

structure Chain (HEIGHT K : Nat) where
  ledger : Ledger HEIGHT K
  contents : Address → Option Contents

abbrev ChainM (HEIGHT K : Nat) := EStateM ProgramError (Chain HEIGHT K)

variable {HEIGHT K : Nat}

namespace Chain

/-- What a loader finds at an address. -/
def look (chain : Chain HEIGHT K) (address : Address) : Option Contents :=
  match (chain.ledger address).data, chain.contents address with
  | .other ownedByProgram, some contents =>
    if contents.ownedByProgram = ownedByProgram then some contents else none
  | _, _ => none

def cache (chain : Chain HEIGHT K) (address : Address) : Option CacheAccount :=
  match chain.look address with
  | some (.cache cache) => some cache
  | _ => none

def ringConfig (chain : Chain HEIGHT K) (address : Address) : Option RingConfig :=
  match chain.look address with
  | some (.ringConfig config) => some config
  | _ => none

def tokenAccount (chain : Chain HEIGHT K) (address : Address) : Option TokenAccount :=
  match chain.look address with
  | some (.tokenAccount account) => some account
  | _ => none

def mintDecimals (chain : Chain HEIGHT K) (address : Address) : Option UInt8 :=
  match chain.look address with
  | some (.mint decimals) => some decimals
  | _ => none

def setContents (address : Address) (contents : Contents) (chain : Chain HEIGHT K) : Chain HEIGHT K :=
  { chain with contents := Function.update chain.contents address (some contents) }

end Chain

/-- An instruction on the trees and PDAs, as a part of one on the chain. -/
def onChainLedger {α : Type} (act : PoolM HEIGHT K α) : ChainM HEIGHT K α :=
  within (·.ledger) (fun ledger chain => { chain with ledger }) id act

/-! ### The account list -/

/-- An entry of the account list. -/
structure AccountView where
  address : Address
  isSigner : Bool
  isWritable : Bool
  deriving DecidableEq, Repr

/-- `AccountIterator`: the accounts not yet yielded. -/
abbrev AccountIterator := EStateM ProgramError (List AccountView)

namespace AccountIterator

def nextAccount : AccountIterator AccountView := do
  match ← get with
  | [] => throw (.account .notEnoughAccountKeys)
  | account :: accounts =>
    set accounts
    pure account

def nextSigner : AccountIterator AccountView := do
  let account ← nextAccount
  if account.isSigner then pure account else throw (.account .invalidSigner)

def nextMut : AccountIterator AccountView := do
  let account ← nextAccount
  if account.isWritable then pure account else throw (.account .accountNotMutable)

def nextNonMut : AccountIterator AccountView := do
  let account ← nextAccount
  if account.isWritable then throw (.account .accountMutable) else pure account

/-- A loop that pushes writable accounts to an array of bounded capacity. -/
def pushMuts (capacity : Nat) (full : ShieldedPoolError) (pushed : List AccountView) :
    Nat → AccountIterator (List AccountView)
  | 0 => pure pushed
  | count + 1 => do
    let account ← nextMut
    if pushed.length < capacity then
      pushMuts capacity full (pushed ++ [account]) count
    else
      throw (.custom full)

end AccountIterator

def parseAccounts {α : Type} (parse : AccountIterator α) (accounts : List AccountView) :
    Except ProgramError α :=
  match parse.run accounts with
  | .ok a _ => .ok a
  | .error e _ => .error e

/-! ### Loaders -/

def loadCache (chain : Chain HEIGHT K) (account : AccountView) : Except ProgramError CacheAccount :=
  match chain.cache account.address with
  | some cache => .ok cache
  | none => .error (.custom .invalidCache)

def loadCacheMut (chain : Chain HEIGHT K) (account : AccountView) : Except ProgramError CacheAccount :=
  if account.isWritable then loadCache chain account else .error (.custom .invalidCache)

def loadActiveRingConfig (chain : Chain HEIGHT K) (account : AccountView) : Except ProgramError RingConfig :=
  match chain.ringConfig account.address with
  | none => .error (.custom .invalidRingConfig)
  | some config =>
    if config.activated = false then
      .error (.custom .ringNotActivated)
    else if config.paused then
      .error (.custom .ringPaused)
    else
      .ok config

end Zolana
