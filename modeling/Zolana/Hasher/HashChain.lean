import Zolana.Hasher.Field

/-!
# Poseidon and the hash chains

The permutation is not part of the repository: on chain `Poseidon::hashv` is the `sol_poseidon`
syscall, off chain it is the `light-poseidon` crate. It enters the model as a function from the
inputs to a digest or an error, and the only thing assumed of it, where anything is, is `Total`.
-/

namespace Zolana

inductive PoseidonSyscallError where
  | invalidParameters
  | invalidEndianness
  | invalidNumberOfInputs
  | emptyInput
  | invalidInputLength
  | bytesToPrimeFieldElement
  | inputLargerThanModulus
  | vecToArray
  | u64ToU8
  | bytesToBigInt
  | invalidWidthCircom
  | unexpected
  deriving DecidableEq, Repr

/-- `HasherError`, with the variants an on-chain build has. -/
inductive HasherError where
  | integerOverflow
  | poseidonSyscall (error : PoseidonSyscallError)
  | unknownSolanaSyscall (code : Nat)
  | invalidInputLength (allowed provided : Nat)
  | invalidNumFields
  deriving DecidableEq, Repr

abbrev Hashv := List Bytes32 → Except HasherError Bytes32

/-- What the syscall documents: one to twelve canonical field elements have a digest, and the digest
is a canonical field element. -/
def Hashv.Total (hashv : Hashv) : Prop :=
  ∀ inputs : List Bytes32, inputs ≠ [] → inputs.length ≤ 12 →
    (∀ input ∈ inputs, isCanonicalBn254ScalarBe input = true) →
    ∃ digest, hashv inputs = .ok digest ∧ isCanonicalBn254ScalarBe digest = true

/-- The loop of `create_hash_chain_4`: three more elements for each call, the last group padded with
zeros. -/
def absorbGroups (hashv : Hashv) (hashChain : Bytes32) : List Bytes32 → Except HasherError Bytes32
  | [] => .ok hashChain
  | [g0] => hashv [hashChain, g0, 0, 0]
  | [g0, g1] => hashv [hashChain, g0, g1, 0]
  | g0 :: g1 :: g2 :: inputs => do
      let hashChain ← hashv [hashChain, g0, g1, g2]
      absorbGroups hashv hashChain inputs

def createHashChain4 (hashv : Hashv) : List Bytes32 → Except HasherError Bytes32
  | [] => .ok 0
  | first :: inputs => absorbGroups hashv first inputs

end Zolana
