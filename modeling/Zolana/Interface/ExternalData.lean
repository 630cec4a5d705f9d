import Zolana.Hasher.Primitives
import Zolana.Interface.TransactData

/-!
# The external data of a transact

What a transact commits to besides the shielded part: its tag, the prefix of its data, the accounts its
settlement names and the owners that the prefix only names by position. The slices are hashed one behind
another, without delimiters.
-/

namespace Zolana

/-! ### Owner tags -/

def fetchTag (tag : OwnerTag) (accountAddress : UInt8 → Option Bytes32) : Except ShieldedPoolError Bytes32 :=
  match tag with
  | .inline bytes => .ok bytes
  | .account index =>
    match accountAddress index with
    | some address => .ok address
    | none => .error .ownerTagAccountMissing

structure ResolvedOutput where
  utxoHash : Bytes32
  ownerTag : Bytes32
  data : Option (List UInt8)
  deriving DecidableEq, Repr

def TransactOutput.intoResolved (output : TransactOutput) (accountAddress : UInt8 → Option Bytes32) :
    Except ShieldedPoolError ResolvedOutput := do
  let ownerTag ← fetchTag output.ownerTag accountAddress
  pure ⟨output.utxoHash, ownerTag, output.data⟩

/-- The loop of `resolve_outputs`, with the outputs resolved so far. -/
def resolveOutputsFrom (accounts : List Address) (resolved : List ResolvedOutput) :
    List TransactOutput → Except ShieldedPoolError (List ResolvedOutput)
  | [] => .ok resolved
  | output :: outputs => do
    let next ← output.intoResolved fun index => accounts[index.toNat]?
    if resolved.length < maxOutputs then
      resolveOutputsFrom accounts (resolved ++ [next]) outputs
    else
      .error .invalidTransactShape

/-- An account tag is a position in the raw account list. -/
def resolveOutputs (accounts : List Address) (outputs : List TransactOutput) :
    Except ShieldedPoolError (List ResolvedOutput) :=
  resolveOutputsFrom accounts [] outputs

/-! ### The preimage -/

def maxExternalDataHashSlices : Nat := 2 + 2 * maxInterfaceTransfers + maxOutputs

structure ExternalDataPreimage where
  slices : List (List UInt8)
  deriving DecidableEq, Repr

namespace ExternalDataPreimage

def new (sppInstructionDiscriminator : UInt8) (externalDataPrefix : List UInt8) : ExternalDataPreimage :=
  ⟨[[sppInstructionDiscriminator], externalDataPrefix]⟩

def pushAddress (preimage : ExternalDataPreimage) (address : Bytes32) :
    Except HasherError ExternalDataPreimage :=
  if preimage.slices.length < maxExternalDataHashSlices then
    .ok ⟨preimage.slices ++ [writeBytes32 address]⟩
  else
    .error (.invalidInputLength maxExternalDataHashSlices (preimage.slices.length + 1))

def pushSettlement (preimage : ExternalDataPreimage) (assetAccount userAccount : Bytes32) :
    Except HasherError ExternalDataPreimage := do
  let preimage ← preimage.pushAddress assetAccount
  preimage.pushAddress userAccount

/-- An inline tag is in the prefix already. -/
def pushOwnerTag (preimage : ExternalDataPreimage) (tag : OwnerTag) (resolvedOwnerTag : Bytes32) :
    Except HasherError ExternalDataPreimage :=
  match tag with
  | .inline _ => .ok preimage
  | .account _ => preimage.pushAddress resolvedOwnerTag

def finish (sha256 : Sha256) (preimage : ExternalDataPreimage) : Except HasherError Bytes32 :=
  sha256Be sha256 preimage.slices.flatten

/-- The two loops of `hash_external_data`. -/
def pushSettlements (preimage : ExternalDataPreimage) :
    List (Bytes32 × Bytes32) → Except HasherError ExternalDataPreimage
  | [] => .ok preimage
  | (assetAccount, userAccount) :: committed => do
    let preimage ← preimage.pushSettlement assetAccount userAccount
    preimage.pushSettlements committed

def pushOwnerTags (preimage : ExternalDataPreimage) :
    List (TransactOutput × ResolvedOutput) → Except HasherError ExternalDataPreimage
  | [] => .ok preimage
  | (output, resolved) :: outputs => do
    let preimage ← preimage.pushOwnerTag output.ownerTag resolved.ownerTag
    preimage.pushOwnerTags outputs

end ExternalDataPreimage

/-- `hash_external_data`, with the accounts that each settlement commits to. -/
def hashExternalData (sha256 : Sha256) (tag : UInt8) (externalDataPrefix : List UInt8)
    (outputs : List TransactOutput) (committedAccounts : List (Bytes32 × Bytes32))
    (resolvedOutputs : List ResolvedOutput) : Except HasherError Bytes32 := do
  let preimage := ExternalDataPreimage.new tag externalDataPrefix
  let preimage ← preimage.pushSettlements committedAccounts
  let preimage ← preimage.pushOwnerTags (outputs.zip resolvedOutputs)
  preimage.finish sha256

end Zolana
