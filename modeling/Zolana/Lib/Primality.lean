import Mathlib.NumberTheory.LucasPrimality
import Mathlib.Tactic

/-!
# Primes by certificate

A number is prime when some element has the order of its predecessor. The order is checked at the prime
factors of the predecessor, which are certified in the same way, with powers taken by repeated squaring.
-/

namespace Primality

/-- `base ^ exponent % modulus`, for an exponent of at most `width` bits. -/
def powMod (modulus base : Nat) : (width exponent : Nat) → Nat
  | 0, _ => 1 % modulus
  | width + 1, exponent =>
    let root := powMod modulus base width (exponent / 2)
    if exponent % 2 = 1 then root * root * base % modulus else root * root % modulus

theorem powMod_eq {modulus base width exponent : Nat} (h : exponent < 2 ^ width) :
    powMod modulus base width exponent = base ^ exponent % modulus := by
  induction width generalizing exponent with
  | zero =>
      obtain rfl : exponent = 0 := by simpa using h
      rfl
  | succ width ih =>
      rw [pow_succ] at h
      simp only [powMod, ih (show exponent / 2 < 2 ^ width by omega)]
      split
      case isTrue hodd =>
        have hexponent : exponent = exponent / 2 + exponent / 2 + 1 := by omega
        conv_rhs => rw [hexponent, pow_succ, pow_add]
        simp only [Nat.mul_mod, Nat.mod_mod]
      case isFalse heven =>
        have hexponent : exponent = exponent / 2 + exponent / 2 := by omega
        conv_rhs => rw [hexponent, pow_add]
        simp only [Nat.mul_mod, Nat.mod_mod]

/-- The predecessor is the product of the powers, and the base has its order. -/
def certifies (p base width : Nat) (factors : List (Nat × Nat)) : Bool :=
  1 < p && p - 1 < 2 ^ width && (factors.map fun factor => factor.1 ^ factor.2).prod = p - 1 &&
    powMod p base width (p - 1) = 1 &&
    factors.all fun factor => powMod p base width ((p - 1) / factor.1) ≠ 1

theorem prime_of_certifies {p base width : Nat} {factors : List (Nat × Nat)}
    (h : certifies p base width factors = true) (hprime : ∀ factor ∈ factors, factor.1.Prime) : p.Prime := by
  simp only [certifies, Bool.and_eq_true, decide_eq_true_eq, List.all_eq_true] at h
  obtain ⟨⟨⟨⟨hp, hwidth⟩, hfactors⟩, hpow⟩, horder⟩ := h
  have hone (n : Nat) (hn : n < 2 ^ width) : (base : ZMod p) ^ n = 1 ↔ powMod p base width n = 1 := by
    rw [powMod_eq hn, ← Nat.cast_one, ← Nat.cast_pow, ZMod.natCast_eq_natCast_iff',
      Nat.mod_eq_of_lt hp]
  refine lucas_primality p base ((hone _ hwidth).mpr hpow) fun q hq hdvd => ?_
  rw [← hfactors, hq.prime.dvd_prod_iff] at hdvd
  obtain ⟨power, hmem, hdvd⟩ := hdvd
  obtain ⟨factor, hfactor, rfl⟩ := List.mem_map.mp hmem
  have heq := (Nat.prime_dvd_prime_iff_eq hq (hprime factor hfactor)).mp (hq.dvd_of_dvd_pow hdvd)
  rw [Ne, hone _ ((Nat.div_le_self _ _).trans_lt hwidth), heq]
  exact horder factor hfactor

/-- A prime with the base that has its order and the factors of its predecessor. -/
structure Certificate where
  prime : Nat
  base : Nat
  width : Nat
  factors : List (Nat × Nat)

/-- Each certificate rests on known primes and on those before it. -/
def certifiesAll (known : List Nat) : List Certificate → Bool
  | [] => true
  | c :: certificates =>
    certifies c.prime c.base c.width c.factors && c.factors.all (fun factor => factor.1 ∈ known) &&
      certifiesAll (c.prime :: known) certificates

theorem prime_of_certifiesAll {known : List Nat} {certificates : List Certificate}
    (hknown : ∀ q ∈ known, q.Prime) (h : certifiesAll known certificates = true) :
    ∀ c ∈ certificates, c.prime.Prime := by
  induction certificates generalizing known with
  | nil => simp
  | cons c certificates ih =>
      simp only [certifiesAll, Bool.and_eq_true, List.all_eq_true, decide_eq_true_eq] at h
      obtain ⟨⟨hcertifies, hfactors⟩, hrest⟩ := h
      have hprime := prime_of_certifies hcertifies fun factor hmem => hknown _ (hfactors factor hmem)
      exact List.forall_mem_cons.mpr ⟨hprime, ih (List.forall_mem_cons.mpr ⟨hprime, hknown⟩) hrest⟩

end Primality
