import Zolana.Interface.TransactData
import Zolana.Wallet.Utxo

/-!
# The ciphertext of a merge output

`field.rs` and `instructions/merge/serialization.rs`: the amount and the two chunks of the mint, each with a pad of
Poseidon added to it. The cipher is unauthenticated; what a wrong key opens is out of range.
-/

namespace Zolana.Wallet

open Codec

/-! ### Field arithmetic on bytes -/

def fieldAdd (a b : Bytes32) : Bytes32 :=
  BitVec.ofNat 256 ((a.toNat + b.toNat) % bn254ScalarModulusBe.toNat)

def fieldSub (a b : Bytes32) : Bytes32 :=
  let p := bn254ScalarModulusBe.toNat
  BitVec.ofNat 256 ((a.toNat % p + p - b.toNat % p) % p)

/-! ### The body of the output -/

/-- Three field elements. -/
abbrev MergeOutputCiphertext := Fin 3 → Bytes32

def mergeOutputBodyLen : Nat := 16 + 3 * 32

/-- The bytes that `split_body` takes apart. -/
def mergeOutputBody : Reader (BitVec 128 × MergeOutputCiphertext) := do
  let salt ← array 16
  let amount ← readBytes32
  let chunk0 ← readBytes32
  let chunk1 ← readBytes32
  pure (salt, ![amount, chunk0, chunk1])

/-- The salt and the elements one after another. -/
def writeMergeOutputBody (salt : BitVec 128) (ciphertext : MergeOutputCiphertext) : List UInt8 :=
  writeArray 16 salt ++ (writeBytes32 (ciphertext 0) ++ (writeBytes32 (ciphertext 1) ++ writeBytes32 (ciphertext 2)))

def splitBody (body : List UInt8) : Except TransactionError (BitVec 128 × MergeOutputCiphertext) :=
  match whole mergeOutputBody body with
  | some parts => .ok parts
  | none => .error (.invalidLength mergeOutputBodyLen body.length)

/-- `split_merge_output_body`: the hash of the ring data that a ring merge leads with, and the encrypted part. -/
def splitMergeOutputBody (body : List UInt8) : Option (Option Bytes32 × List UInt8) :=
  if body.length = mergeOutputBodyLen then some (none, body)
  else if body.length = 32 + mergeOutputBodyLen then
    some (some (BitVec.ofNat 256 (Bytes.ofBE (body.take 32))), body.drop 32)
  else none

/-! ### Encryption -/

structure MergeOutputPlaintext where
  amount : UInt64
  mint : Address
  deriving DecidableEq, Repr

/-- `pad_i = Poseidon("TMOC", key, salt, i)`. -/
def pads (hashv : Hashv) (key : Bytes32) (salt : BitVec 128) : Except TransactionError MergeOutputCiphertext := do
  let pad (index : Nat) : Except TransactionError Bytes32 :=
    hashed (hashv [domainMergeOutputCiphertext, key, salt.setWidth 256, BitVec.ofNat 256 index])
  let pad0 ← pad 0
  let pad1 ← pad 1
  let pad2 ← pad 2
  pure ![pad0, pad1, pad2]

def applyPads (op : Bytes32 → Bytes32 → Bytes32) (elements pads : MergeOutputCiphertext) : MergeOutputCiphertext :=
  fun index => op (elements index) (pads index)

/-- The low bytes of an element whose high bytes are zero. -/
def splitLow (width : Nat) (element : Bytes32) (index : Nat) : Except TransactionError (BitVec (8 * width)) :=
  if element >>> (8 * width) = 0 then .ok (element.setWidth (8 * width))
  else .error (.invalidMergeOutputPlaintext index)

/-- The loop of `decrypt` over the elements. -/
def checkCanonical (ciphertext : MergeOutputCiphertext) : Except TransactionError Unit :=
  (List.finRange 3).forM fun index =>
    if isCanonicalBn254ScalarBe (ciphertext index) then .ok () else .error (.nonCanonicalMergeCiphertext index)

namespace MergeOutputPlaintext

def fields (plaintext : MergeOutputPlaintext) : MergeOutputCiphertext :=
  ![u64ToBytes32 plaintext.amount.toNat, plaintext.mint >>> 8, plaintext.mint &&& 0xff]

def encrypt (hashv : Hashv) (plaintext : MergeOutputPlaintext) (key : Bytes32) (salt : BitVec 128) :
    Except TransactionError MergeOutputCiphertext := do
  let pads ← pads hashv key salt
  pure (applyPads fieldAdd plaintext.fields pads)

def ofFields (elements : MergeOutputCiphertext) : Except TransactionError MergeOutputPlaintext := do
  let amount ← splitLow 8 (elements 0) 0
  let mintHead ← splitLow 31 (elements 1) 1
  let mintTail ← splitLow 1 (elements 2) 2
  pure ⟨UInt64.ofBitVec amount, mintHead ++ mintTail⟩

def decrypt (hashv : Hashv) (body : List UInt8) (key : Bytes32) : Except TransactionError MergeOutputPlaintext := do
  let (salt, ciphertext) ← splitBody body
  checkCanonical ciphertext
  let pads ← pads hashv key salt
  ofFields (applyPads fieldSub ciphertext pads)

def intoUtxo (plaintext : MergeOutputPlaintext) (owner : PublicKey) (asset : Mint) (blinding : Bytes32)
    (ringProgramId : Option Address) : Utxo :=
  { owner, asset, amount := plaintext.amount, blinding, ringProgramId, data := .empty }

end MergeOutputPlaintext

end Zolana.Wallet
