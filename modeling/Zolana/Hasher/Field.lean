import Mathlib.Tactic

/-!
# Field elements

Every hash, root and nullifier of the program is a `[u8; 32]` holding a BN254 scalar in big-endian
order. The model reads such an array as the number its bytes spell, so the byte-wise comparison of
two arrays is the order of the numbers and the all-zero array is `0`.
-/

namespace Zolana

/-- A `[u8; 32]`, read big-endian. -/
abbrev Bytes32 := BitVec 256

instance Bytes32.lawfulBEq : LawfulBEq Bytes32 := inferInstance

def bn254ScalarModulusBe : Bytes32 :=
  0x30644e72e131a029b85045b68181585d2833e84879b9709143e1f593f0000001#256

def isCanonicalBn254ScalarBe (bytes : Bytes32) : Bool := bytes < bn254ScalarModulusBe

@[simp] theorem isCanonicalBn254ScalarBe_zero : isCanonicalBn254ScalarBe 0#256 = true := by decide

/-- A `u64` right-aligned in a field element: its big-endian bytes fill the last eight. -/
def u64ToBytes32 (value : Nat) : Bytes32 := BitVec.ofNat 256 value

end Zolana
