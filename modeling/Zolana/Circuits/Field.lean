import Mathlib.Data.Nat.Size
import Mathlib.Data.ZMod.Basic
import Zolana.Lib.Primality

/-!
# The field of the circuits

The circuits are compiled over the scalar field of BN254. Poseidon over it is not part of the repository;
it enters as a function that answers some inputs, and a circuit that asks for another has no satisfying
assignment. The permutation answers every input a circuit asks for. That it has no collisions is said of
what it answers, as for the hash of the program.
-/

namespace Zolana.Circuits

def fieldModulus : Nat := 0x30644e72e131a029b85045b68181585d2833e84879b9709143e1f593f0000001

/-- A `frontend.Variable`. -/
abbrev Fr := ZMod fieldModulus

/-! ### The modulus is prime -/

section Prime

open Primality

/-- The primes below the modulus, each by the factors of its predecessor. -/
def certificates : List Certificate :=
  [⟨405928799, 22, 29, [(2, 1), (11, 1), (3691, 1), (4999, 1)]⟩,
    ⟨12048837557, 2, 34, [(2, 2), (7, 2), (661, 1), (93001, 1)]⟩,
    ⟨5156902474397, 2, 43, [(2, 2), (107, 1), (12048837557, 1)]⟩,
    ⟨1670836401704629, 2, 51, [(2, 2), (3, 4), (5156902474397, 1)]⟩,
    ⟨639533339, 2, 30, [(2, 1), (229, 1), (853, 1), (1637, 1)]⟩,
    ⟨65865678001877903, 5, 56, [(2, 1), (83, 1), (379, 1), (1637, 1), (639533339, 1)]⟩,
    ⟨13818364434197438864469338081, 3, 94,
      [(2, 5), (5, 1), (823, 1), (1593227, 1), (65865678001877903, 1)]⟩,
    ⟨fieldModulus, 5, 254,
      [(2, 28), (3, 2), (13, 1), (29, 1), (983, 1), (11003, 1), (237073, 1), (405928799, 1),
        (1670836401704629, 1), (13818364434197438864469338081, 1)]⟩]

def smallPrimes : List Nat :=
  [2, 3, 5, 7, 11, 13, 29, 83, 107, 229, 379, 661, 823, 853, 983, 1637, 3691, 4999, 11003, 93001, 237073,
    1593227]

theorem prime_of_mem_smallPrimes : ∀ q ∈ smallPrimes, q.Prime := by
  simp only [smallPrimes, List.forall_mem_cons, List.not_mem_nil, false_implies, implies_true, and_true]
  norm_num

theorem prime_fieldModulus : fieldModulus.Prime := by
  have hcertified : certifiesAll smallPrimes certificates = true := by decide +kernel
  have hlast : certificates[7]? = some _ := rfl
  exact prime_of_certifiesAll prime_of_mem_smallPrimes hcertified _ (List.mem_of_getElem? hlast)

end Prime

instance factPrime : Fact fieldModulus.Prime := ⟨prime_fieldModulus⟩

theorem size_fieldModulus : fieldModulus.size = 254 := by
  apply le_antisymm
  · exact Nat.size_le.mpr (by norm_num [fieldModulus])
  · exact Nat.lt_size.mpr (by norm_num [fieldModulus])

theorem two_pow_lt_fieldModulus {width : Nat} (h : width ≤ 253) : 2 ^ width < fieldModulus :=
  (Nat.pow_le_pow_right two_pos h).trans_lt (by norm_num [fieldModulus])

theorem val_natCast_of_lt {n : Nat} (h : n < fieldModulus) : (n : Fr).val = n := ZMod.val_cast_of_lt h

/-! ### Poseidon -/

abbrev Poseidon := List Fr → Option Fr

namespace Poseidon

/-- No two inputs with one digest. -/
def CollisionFree (poseidon : Poseidon) : Prop :=
  ∀ inputs inputs' digest, poseidon inputs = some digest → poseidon inputs' = some digest →
    inputs = inputs'

/-- No input with the digest zero, which is the empty leaf. -/
def NeverZero (poseidon : Poseidon) : Prop := ∀ inputs, poseidon inputs ≠ some 0

/-- Every input of one to sixteen elements has a digest. -/
def Total (poseidon : Poseidon) : Prop :=
  ∀ inputs, inputs ≠ [] → inputs.length ≤ 16 → ∃ digest, poseidon inputs = some digest

end Poseidon

end Zolana.Circuits
