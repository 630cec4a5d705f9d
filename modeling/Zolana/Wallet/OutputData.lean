import Zolana.Pool.Verify
import Zolana.Wallet.Serialization

/-!
# The output data that the program emits

`proofless.rs` and `merge_output.rs` of `spr_event`, with the decoders of `deposit.rs`. The program writes the
enumeration by hand and patches the length in behind the body; where it panics the data is `none`. The decoders
have one error, `InvalidOutputData`.
-/

namespace Zolana.Wallet

open Codec

def bodyLenOffset : Nat := 1

def bodyOffset : Nat := bodyLenOffset + 4

def encodeTaggedBody (encodingTag scheme : UInt8) (body : List UInt8) : Option (List UInt8) :=
  let out := encodingTag :: (List.replicate 4 0 ++ scheme :: body)
  let bodyLen := out.length - bodyOffset
  if bodyLen < 2 ^ 32 then
    some (out.take bodyLenOffset ++ (Bytes.toLE 4 bodyLen ++ out.drop bodyOffset))
  else
    none

/-- The value behind the scheme byte. -/
def decodeBlob {α : Type} (reader : Reader α) (scheme : UInt8) : List UInt8 → Option α
  | [] => none
  | first :: body => if first ≠ scheme then none else whole reader body

/-! ### Proofless outputs -/

def plaintextScheme : UInt8 := 0

def ProoflessOutput.write (output : ProoflessOutput) : List UInt8 :=
  writeBytes32 output.owner ++ (writeBytes32 output.blinding ++ (writeBytes32 output.asset ++
    (writeU64 output.amount ++ (writeOption writeBytes32 output.dataHash ++
      (writeOption (writeVec 4 writeByte) output.utxoData ++ (writeOption writeBytes32 output.ringProgramId ++
        (writeOption writeBytes32 output.ringDataHash ++ (writeOption (writeVec 4 writeByte) output.ringData ++
          writeOption (writeVec 4 writeByte) output.memo))))))))

def encodeOutputDataRef (data : ProoflessOutput) : Option (List UInt8) :=
  encodeTaggedBody 0 plaintextScheme data.write

def decodeOutputData (data : List UInt8) : Option ProoflessOutput :=
  match whole OutputDataEncoding.read data with
  | some (.plaintext blob) => decodeBlob ProoflessOutput.read plaintextScheme blob
  | _ => none

/-! ### Ring deposits -/

structure EncryptedRingDepositData where
  /-- 33 bytes. -/
  txViewingPk : BitVec 264
  /-- 16 bytes. -/
  salt : BitVec 128
  ciphertext : List UInt8
  deriving DecidableEq, Repr

structure EncryptedRingDepositOutput where
  ownerUtxoHash : Bytes32
  asset : Bytes32
  amount : UInt64
  dataHash : Option Bytes32
  ringProgramId : Bytes32
  ringDataHash : Bytes32
  encrypted : EncryptedRingDepositData
  deriving DecidableEq, Repr

def EncryptedRingDepositData.read : Reader EncryptedRingDepositData := do
  let txViewingPk ← array 33
  let salt ← array 16
  let ciphertext ← borshBytes
  pure ⟨txViewingPk, salt, ciphertext⟩

def EncryptedRingDepositData.write (data : EncryptedRingDepositData) : List UInt8 :=
  writeArray 33 data.txViewingPk ++ (writeArray 16 data.salt ++ writeVec 4 writeByte data.ciphertext)

def EncryptedRingDepositOutput.read : Reader EncryptedRingDepositOutput := do
  let ownerUtxoHash ← readBytes32
  let asset ← readBytes32
  let amount ← u64
  let dataHash ← option readBytes32
  let ringProgramId ← readBytes32
  let ringDataHash ← readBytes32
  let encrypted ← EncryptedRingDepositData.read
  pure ⟨ownerUtxoHash, asset, amount, dataHash, ringProgramId, ringDataHash, encrypted⟩

def EncryptedRingDepositOutput.write (output : EncryptedRingDepositOutput) : List UInt8 :=
  writeBytes32 output.ownerUtxoHash ++ (writeBytes32 output.asset ++ (writeU64 output.amount ++
    (writeOption writeBytes32 output.dataHash ++ (writeBytes32 output.ringProgramId ++
      (writeBytes32 output.ringDataHash ++ output.encrypted.write)))))

def encodeEncryptedRingDepositOutputRef (data : EncryptedRingDepositOutput) : Option (List UInt8) :=
  encodeTaggedBody 1 EncryptedScheme.ringDeposit.asByte data.write

def decodeEncryptedRingDepositOutputData (data : List UInt8) : Option EncryptedRingDepositOutput :=
  match whole OutputDataEncoding.read data with
  | some (.encrypted blob) => decodeBlob EncryptedRingDepositOutput.read EncryptedScheme.ringDeposit.asByte blob
  | _ => none

/-! ### Merge outputs -/

/-- The prefix is the hash of the ring data on a ring merge, and empty on a merge. -/
structure MergeOutputDataRef where
  salt : BitVec 128
  ciphertext : List Bytes32
  dataPrefix : List Bytes32

namespace MergeOutputDataRef

def body (data : MergeOutputDataRef) : List UInt8 :=
  data.dataPrefix.flatMap writeBytes32 ++ (writeArray 16 data.salt ++ data.ciphertext.flatMap writeBytes32)

def encode (data : MergeOutputDataRef) : Option (List UInt8) :=
  let blob := EncryptedScheme.merge.asByte :: data.body
  let encoding : OutputDataEncoding :=
    if !data.dataPrefix.isEmpty then .encrypted blob else .verifiablyEncrypted blob
  if blob.length < 2 ^ 32 then some encoding.write else none

end MergeOutputDataRef

end Zolana.Wallet
