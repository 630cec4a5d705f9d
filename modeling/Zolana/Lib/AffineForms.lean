import Mathlib.Algebra.BigOperators.Fin
import Mathlib.Algebra.MvPolynomial.Equiv
import Mathlib.Algebra.Polynomial.BigOperators
import Mathlib.Algebra.Polynomial.Roots
import Mathlib.Tactic

/-!
# Reciprocals of affine forms

The forms `x₀ - (k + Σ vⱼ xⱼ₊₁)` of different `(k, v)` are different primes, so a sum of multiples of their
reciprocals is zero only where every multiple is. Clearing the denominators gives a polynomial that is not zero, and it
stays so when each variable becomes a power of one: with powers that are spaced by more than the degree no two monomials
meet.
-/

namespace AffineForms

open MvPolynomial

variable {F : Type} [Field F] {n : ℕ}

/-! ### One variable for all -/

/-- Each variable becomes a power of one variable, with the exponents spaced by `base`. -/
noncomputable def spaced (base : ℕ) : MvPolynomial (Fin n) F →ₐ[F] Polynomial F :=
  aeval fun i => Polynomial.X ^ base ^ i.val

/-- The exponent that a monomial gets. -/
def weight (base : ℕ) (m : Fin n →₀ ℕ) : ℕ := ∑ i, m i * base ^ i.val

theorem weight_inj {base : ℕ} {m m' : Fin n →₀ ℕ} (hm : ∀ i, m i < base) (hm' : ∀ i, m' i < base)
    (h : weight base m = weight base m') : m = m' := by
  have heq : finFunctionFinEquiv (fun i => (⟨m i, hm i⟩ : Fin base)) =
      finFunctionFinEquiv fun i => (⟨m' i, hm' i⟩ : Fin base) := by
    apply Fin.ext
    rw [finFunctionFinEquiv_apply, finFunctionFinEquiv_apply]
    exact h
  ext i
  exact congrArg Fin.val (congrFun (finFunctionFinEquiv.injective heq) i)

theorem spaced_monomial (base : ℕ) (m : Fin n →₀ ℕ) (c : F) :
    spaced base (monomial m c) = Polynomial.monomial (weight base m) c := by
  rw [spaced, aeval_monomial, Polynomial.algebraMap_eq, ← Polynomial.C_mul_X_pow_eq_monomial, weight,
    Finsupp.prod_fintype _ _ fun i => pow_zero _]
  congr 1
  rw [← Finset.prod_pow_eq_pow_sum]
  refine Finset.prod_congr rfl fun i _ => ?_
  rw [← pow_mul, mul_comm]

theorem spaced_ne_zero {base : ℕ} {q : MvPolynomial (Fin n) F} (hdegree : q.totalDegree < base) (hq : q ≠ 0) :
    spaced base q ≠ 0 := by
  obtain ⟨m, hm⟩ := ne_zero_iff.mp hq
  have hlt : ∀ m' ∈ q.support, ∀ i, m' i < base := by
    intro m' hm' i
    exact (degreeOf_le_iff.mp (degreeOf_le_totalDegree q i) m' hm').trans_lt hdegree
  intro hzero
  refine hm ?_
  have hcoeff : (spaced base q).coeff (weight base m) = coeff m q := by
    conv_lhs => rw [q.as_sum]
    rw [map_sum, Polynomial.finsetSum_coeff, Finset.sum_eq_single m]
    · rw [spaced_monomial, Polynomial.coeff_monomial_same]
    · intro m' hm' hne
      rw [spaced_monomial, Polynomial.coeff_monomial_of_ne]
      intro heq
      exact hne (weight_inj (hlt m' hm') (hlt m (mem_support_iff.mpr hm)) heq.symm)
    · intro hnot
      exact absurd (mem_support_iff.mpr hm) hnot
  rw [← hcoeff, hzero, Polynomial.coeff_zero]

/-! ### The forms -/

variable {c : ℕ}

/-- `x₀ - (k + Σ vⱼ xⱼ₊₁)`. -/
noncomputable def form (key : F × (Fin c → F)) : MvPolynomial (Fin (c + 1)) F :=
  X (Fin.last c).rev - (C key.1 + ∑ j, C (key.2 j) * X j.succ)

theorem form_eq (key : F × (Fin c → F)) : form key = X 0 - (C key.1 + ∑ j, C (key.2 j) * X j.succ) := by
  rw [form, Fin.rev_last]

/-- The value of `x₀` on a form. -/
noncomputable def onForm (key : F × (Fin c → F)) : MvPolynomial (Fin (c + 1)) F →ₐ[F] MvPolynomial (Fin (c + 1)) F :=
  aeval (Fin.cons (C key.1 + ∑ j, C (key.2 j) * X j.succ) fun j => X j.succ)

theorem onForm_form (key key' : F × (Fin c → F)) :
    onForm key (form key') = C (key.1 - key'.1) + ∑ j, C (key.2 j - key'.2 j) * X j.succ := by
  have hzero : onForm key (X 0) = C key.1 + ∑ j, C (key.2 j) * X j.succ := by
    rw [onForm, aeval_X, Fin.cons_zero]
  have hsucc (j : Fin c) : onForm key (X j.succ) = X j.succ := by
    rw [onForm, aeval_X, Fin.cons_succ]
  have hconst (v : F) : onForm key (C v) = C v := algHom_C _ v
  simp only [form_eq, map_sub, map_add, map_sum, map_mul, hzero, hsucc, hconst, sub_mul, Finset.sum_sub_distrib]
  ring

theorem onForm_self (key : F × (Fin c → F)) : onForm key (form key) = 0 := by
  rw [onForm_form]
  simp

theorem onForm_ne_zero {key key' : F × (Fin c → F)} (hne : key ≠ key') : onForm key (form key') ≠ 0 := by
  intro hzero
  -- The values of the form at a point tell its coefficients.
  have heval (v : Fin c → F) : key.1 - key'.1 + ∑ j, (key.2 j - key'.2 j) * v j = 0 := by
    have hv := congrArg (eval (Fin.cons 0 v : Fin (c + 1) → F)) hzero
    rw [onForm_form, map_add, map_sum, map_zero, eval_C] at hv
    simpa only [map_mul, eval_C, eval_X, Fin.cons_succ] using hv
  have hfirst : key.1 - key'.1 = 0 := by
    have hv := heval 0
    simpa only [Pi.zero_apply, mul_zero, Finset.sum_const_zero, add_zero] using hv
  refine hne (Prod.ext (sub_eq_zero.mp hfirst) (funext fun j => ?_))
  have hv := heval (Pi.single j 1)
  rw [hfirst, zero_add, Finset.sum_eq_single j, Pi.single_eq_same, mul_one] at hv
  · exact sub_eq_zero.mp hv
  · intro i _ hi
    rw [Pi.single_eq_of_ne hi, mul_zero]
  · intro hj
    exact absurd (Finset.mem_univ j) hj

theorem totalDegree_form_le (key : F × (Fin c → F)) : (form key).totalDegree ≤ 1 := by
  refine (totalDegree_sub _ _).trans (max_le (totalDegree_X _).le ?_)
  refine (totalDegree_add _ _).trans (max_le ?_ ?_)
  · rw [totalDegree_C]
    exact Nat.zero_le 1
  · refine (totalDegree_finsetSum _ _).trans (Finset.sup_le fun j _ => ?_)
    refine (totalDegree_mul _ _).trans ?_
    rw [totalDegree_C, zero_add]
    exact (totalDegree_X _).le

theorem natDegree_spaced_form_le {base : ℕ} (hbase : 0 < base) (key : F × (Fin c → F)) :
    (spaced base (form key)).natDegree ≤ base ^ c := by
  have hpow {i : ℕ} (hi : i ≤ c) : (Polynomial.X ^ base ^ i : Polynomial F).natDegree ≤ base ^ c :=
    (Polynomial.natDegree_X_pow_le _).trans (Nat.pow_le_pow_right hbase hi)
  rw [form_eq, map_sub, map_add, map_sum, spaced, aeval_X, algHom_C]
  refine (Polynomial.natDegree_sub_le _ _).trans (max_le (hpow (Nat.zero_le c)) ?_)
  refine (Polynomial.natDegree_add_le _ _).trans (max_le ?_ ?_)
  · rw [Polynomial.algebraMap_eq, Polynomial.natDegree_C]
    exact Nat.zero_le _
  · refine Polynomial.natDegree_sum_le_of_forall_le _ _ fun j _ => ?_
    rw [map_mul, aeval_X, algHom_C]
    exact (Polynomial.natDegree_C_mul_le _ _).trans (hpow j.succ.is_le)

/-! ### Sums of reciprocals -/

variable [DecidableEq F]

/-- The numerator of `Σ w k / form k`. -/
noncomputable def numerator (keys : Finset (F × (Fin c → F))) (w : F × (Fin c → F) → F) :
    MvPolynomial (Fin (c + 1)) F :=
  ∑ key ∈ keys, C (w key) * ∏ other ∈ keys.erase key, form other

variable {keys : Finset (F × (Fin c → F))} {w : F × (Fin c → F) → F}

theorem totalDegree_numerator_le : (numerator keys w).totalDegree ≤ keys.card - 1 := by
  refine (totalDegree_finsetSum _ _).trans (Finset.sup_le fun key hkey => ?_)
  refine (totalDegree_mul _ _).trans ?_
  rw [totalDegree_C, zero_add, ← Finset.card_erase_of_mem hkey]
  refine (totalDegree_finsetProd _ _).trans ?_
  exact (Finset.sum_le_card_nsmul _ _ 1 fun other _ => totalDegree_form_le other).trans_eq (by simp)

theorem numerator_ne_zero {key : F × (Fin c → F)} (hkey : key ∈ keys) (hw : w key ≠ 0) : numerator keys w ≠ 0 := by
  intro hzero
  have heval : onForm key (numerator keys w) = C (w key) * ∏ other ∈ keys.erase key, onForm key (form other) := by
    rw [numerator, map_sum, Finset.sum_eq_single_of_mem key hkey]
    · rw [map_mul, map_prod, algHom_C]
      rfl
    · intro other hother hne
      have hmem : key ∈ keys.erase other := Finset.mem_erase.mpr ⟨hne.symm, hkey⟩
      rw [map_mul, map_prod, Finset.prod_eq_zero hmem (onForm_self key), mul_zero]
  rw [hzero, map_zero] at heval
  refine mul_ne_zero (C_ne_zero.mpr hw) (Finset.prod_ne_zero_iff.mpr fun other hother => ?_) heval.symm
  exact onForm_ne_zero (Finset.ne_of_mem_erase hother).symm

theorem map_numerator (g : MvPolynomial (Fin (c + 1)) F →ₐ[F] F) (hne : ∀ key ∈ keys, g (form key) ≠ 0) :
    g (numerator keys w) = (∏ key ∈ keys, g (form key)) * ∑ key ∈ keys, w key / g (form key) := by
  rw [numerator, map_sum, Finset.mul_sum]
  refine Finset.sum_congr rfl fun key hkey => ?_
  have hform := hne key hkey
  rw [map_mul, map_prod, algHom_C, ← Finset.mul_prod_erase keys (fun key => g (form key)) hkey]
  change w key * _ = _
  field_simp

theorem natDegree_spaced_numerator_le {base : ℕ} (hbase : 0 < base) :
    (spaced base (numerator keys w)).natDegree ≤ (keys.card - 1) * base ^ c := by
  rw [numerator, map_sum]
  refine Polynomial.natDegree_sum_le_of_forall_le _ _ fun key hkey => ?_
  rw [map_mul, map_prod, spaced, algHom_C, ← Finset.card_erase_of_mem hkey]
  refine (Polynomial.natDegree_C_mul_le _ _).trans ((Polynomial.natDegree_prod_le _ _).trans ?_)
  exact Finset.sum_le_card_nsmul _ _ _ fun other _ => natDegree_spaced_form_le hbase other

end AffineForms
