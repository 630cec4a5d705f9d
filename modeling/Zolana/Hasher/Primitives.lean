import Zolana.Hasher.HashChain

/-!
# Hashes of byte strings

`primitives/hash_bytes.rs` packs a byte string into field elements of 31 bytes each and folds them with
Poseidon. `sha256.rs` is the other hash of the program: like Poseidon it is a syscall, and its slices are
absorbed one after another.
-/

namespace Zolana

/-- `hash_bytes` of 32 bytes: the first 31 bytes and the last one. -/
def hashBytes (hashv : Hashv) (bytes : Bytes32) : Except HasherError Bytes32 :=
  hashv [bytes >>> 8, bytes &&& 0xff]

def solanaOwnerTag : Bytes32 := 0x53

/-- `hash_bytes` of the tag and the 32 bytes of a key: the tag with the first 30 bytes, and the last
two. -/
def solanaOwnerIdentity (hashv : Hashv) (pk : Bytes32) : Except HasherError Bytes32 :=
  hashv [solanaOwnerTag <<< 240 ||| pk >>> 16, pk &&& 0xffff]

/-- `Sha256::hashv`, on the slices put together. -/
abbrev Sha256 := List UInt8 → Except HasherError Bytes32

/-- `Sha256BE::hashv`: the first byte of the digest is cleared, so that it is a field element. -/
def sha256Be (sha256 : Sha256) (bytes : List UInt8) : Except HasherError Bytes32 := do
  let digest ← sha256 bytes
  pure (digest &&& BitVec.allOnes 256 >>> 8)

/-! ### Collisions

A hash that is asked about finitely many inputs has no collision among them unless someone found one. The
two conditions below say that of everything the hash answers, so they are met by a hash that answers what
was ever asked of it and fails on the rest, and not by one that answers every input. -/

/-- No two inputs with one digest. -/
def Hashv.CollisionFree (hashv : Hashv) : Prop :=
  ∀ inputs inputs' digest, hashv inputs = .ok digest → hashv inputs' = .ok digest → inputs = inputs'

/-- No two inputs with one digest, first byte cleared. -/
def Sha256.CollisionFree (sha256 : Sha256) : Prop :=
  ∀ bytes bytes' digest, sha256Be sha256 bytes = .ok digest → sha256Be sha256 bytes' = .ok digest →
    bytes = bytes'

/-- No input with the digest zero, which marks empty slots. -/
def Hashv.NeverZero (hashv : Hashv) : Prop := ∀ inputs, hashv inputs ≠ .ok 0

end Zolana
