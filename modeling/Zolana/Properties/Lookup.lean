import Zolana.Circuits.Crypto.Lookup
import Zolana.Circuits.Field
import Zolana.Lib.AffineForms

/-!
# The soundness error of a row lookup

A query that no row answers puts a reciprocal into the sum that the rows cannot balance. The sum is zero at the roots of
a polynomial of known degree, and the only other challenges that pass are those at which the quotient of some row is
free.
-/

namespace Zolana

open AffineForms Circuits.Crypto.Lookup Polynomial

namespace Circuits.Crypto.Lookup

variable {F : Type} [Field F] {nbRows nbCols nbQueries : Nat}

theorem iterate_square (n : Nat) (x : F) : (fun x => x * x)^[n] x = x ^ 2 ^ n := by
  induction n generalizing x with
  | zero => rw [pow_zero, pow_one, Function.iterate_zero_apply]
  | succ n ih => rw [Function.iterate_succ_apply, ih, ← pow_two, ← pow_mul, ← pow_succ']

theorem alpha_eq (log : Nat) (ch : F) (j : Nat) : alpha log ch j = ch ^ (2 ^ log) ^ j := by
  induction j with
  | zero => rw [alpha, pow_zero, pow_one]
  | succ j ih => rw [alpha, iterate_square, ih, ← pow_mul, ← pow_succ]

namespace Table

variable (t : Table F nbRows nbCols nbQueries)

def spacing : Nat := 2 ^ t.rowSeparationLog

omit [Field F] in
theorem lt_spacing : nbQueries + nbRows < t.spacing := Nat.lt_size_self _

omit [Field F] in
theorem spacing_pos : 0 < t.spacing := Nat.two_pow_pos _

theorem encode_eq (ch index : F) (vals : Fin nbCols → F) :
    t.encode ch index vals = (spaced t.spacing (form (index, vals))).eval ch := by
  rw [encode, form_eq, spaced, map_sub, map_add, map_sum, eval_sub, eval_add, eval_finsetSum, MvPolynomial.aeval_X,
    MvPolynomial.algHom_C, algebraMap_eq, eval_C, eval_pow, eval_X, Fin.val_zero, pow_zero, pow_one]
  congr 2
  refine Finset.sum_congr rfl fun j _ => ?_
  rw [map_mul, MvPolynomial.aeval_X, MvPolynomial.algHom_C, algebraMap_eq, eval_mul, eval_C, eval_pow, eval_X, coeffs,
    alpha_eq, mul_comm, Fin.val_succ]
  rfl

def rowKey (r : Fin nbRows) : F × (Fin nbCols → F) := ((r.val : F), t.rows r)

def queryKey (i : Fin nbQueries) : F × (Fin nbCols → F) := (t.indices i, t.results i)

theorem matches_iff {i : Fin nbQueries} {r : Fin nbRows} : t.Matches i r ↔ t.queryKey i = t.rowKey r :=
  (@Prod.ext_iff _ _ (t.queryKey i) (t.rowKey r)).symm

noncomputable def denominator (ch : F) (key : F × (Fin nbCols → F)) : F := (spaced t.spacing (form key)).eval ch

variable [DecidableEq F]

def keys : Finset (F × (Fin nbCols → F)) := Finset.univ.image t.rowKey ∪ Finset.univ.image t.queryKey

theorem rowKey_mem (r : Fin nbRows) : t.rowKey r ∈ t.keys :=
  Finset.mem_union_left _ (Finset.mem_image_of_mem _ (Finset.mem_univ r))

theorem queryKey_mem (i : Fin nbQueries) : t.queryKey i ∈ t.keys :=
  Finset.mem_union_right _ (Finset.mem_image_of_mem _ (Finset.mem_univ i))

theorem card_keys_lt : t.keys.card < t.spacing := by
  refine lt_of_le_of_lt ?_ t.lt_spacing
  refine (Finset.card_union_le _ _).trans ?_
  rw [add_comm nbQueries]
  exact Nat.add_le_add (Finset.card_image_le.trans_eq (Finset.card_fin _))
    (Finset.card_image_le.trans_eq (Finset.card_fin _))

/-- The multiple of a key's reciprocal: what the rows have of it, less what the queries have. -/
def excess (counts : Fin nbRows → F) (key : F × (Fin nbCols → F)) : F :=
  (∑ r with t.rowKey r = key, counts r) - ∑ i with t.queryKey i = key, 1

theorem sum_excess_div (counts : Fin nbRows → F) (ch : F) :
    ∑ key ∈ t.keys, t.excess counts key / t.denominator ch key =
      ∑ r, counts r / t.denominator ch (t.rowKey r) - ∑ i, 1 / t.denominator ch (t.queryKey i) := by
  simp only [excess, sub_div, Finset.sum_sub_distrib, Finset.sum_div]
  congr 1
  · rw [← Finset.sum_fiberwise_of_maps_to fun r _ => t.rowKey_mem r]
    refine Finset.sum_congr rfl fun key _ => Finset.sum_congr rfl fun r hr => ?_
    rw [(Finset.mem_filter.mp hr).2]
  · rw [← Finset.sum_fiberwise_of_maps_to fun i _ => t.queryKey_mem i]
    refine Finset.sum_congr rfl fun key _ => Finset.sum_congr rfl fun i hi => ?_
    rw [(Finset.mem_filter.mp hi).2]

theorem Closure.eval_numerator {t : Table F nbRows nbCols nbQueries} {counts : Fin nbRows → F} {ch : F}
    (h : t.Closure counts ch) (hrows : ∀ r, t.denominator ch (t.rowKey r) ≠ 0) :
    (spaced t.spacing (numerator t.keys (t.excess counts))).eval ch = 0 := by
  obtain ⟨quotients, inverses, hquotients, hinverses, hsum⟩ := h
  have hqueries (i : Fin nbQueries) : t.denominator ch (t.queryKey i) ≠ 0 := by
    intro hzero
    have hone := hinverses i
    rw [encode_eq] at hone
    exact zero_ne_one ((mul_eq_zero_of_right _ hzero).symm.trans hone)
  have hkeys : ∀ key ∈ t.keys, t.denominator ch key ≠ 0 := by
    intro key hkey
    rcases Finset.mem_union.mp hkey with hrow | hquery
    · obtain ⟨r, -, rfl⟩ := Finset.mem_image.mp hrow
      exact hrows r
    · obtain ⟨i, -, rfl⟩ := Finset.mem_image.mp hquery
      exact hqueries i
  have hzero : ∑ key ∈ t.keys, t.excess counts key / t.denominator ch key = 0 := by
    rw [sum_excess_div, sub_eq_zero]
    refine Eq.trans ?_ (hsum.trans ?_)
    · refine Finset.sum_congr rfl fun r _ => ?_
      rw [div_eq_iff (hrows r), ← hquotients r, encode_eq]
      rfl
    · refine Finset.sum_congr rfl fun i _ => ?_
      rw [eq_div_iff (hqueries i), ← hinverses i, encode_eq]
      rfl
  have hmap := map_numerator (w := t.excess counts) ((aeval ch).comp (spaced t.spacing)) hkeys
  refine hmap.trans ?_
  exact mul_eq_zero_of_right _ hzero

theorem ncard_closure_lt {counts : Fin nbRows → F} {key : F × (Fin nbCols → F)} (hkey : key ∈ t.keys)
    (hexcess : t.excess counts key ≠ 0) :
    {ch | t.Closure counts ch}.ncard < 2 ^ ((nbCols + 1) * t.rowSeparationLog + 1) := by
  have hnumerator : spaced t.spacing (numerator t.keys (t.excess counts)) ≠ 0 := by
    refine spaced_ne_zero ?_ (numerator_ne_zero hkey hexcess)
    exact totalDegree_numerator_le.trans_lt ((Nat.sub_le _ _).trans_lt t.card_keys_lt)
  have hform (r : Fin nbRows) : spaced t.spacing (form (t.rowKey r)) ≠ 0 := by
    refine spaced_ne_zero ((totalDegree_form_le _).trans_lt ?_) fun hzero => ?_
    · have hlt := t.card_keys_lt
      have hpos := Finset.card_pos.mpr ⟨_, t.rowKey_mem r⟩
      omega
    · have hdiff : ((t.rowKey r).1 + 1, (t.rowKey r).2) ≠ t.rowKey r := by
        intro h
        exact one_ne_zero (add_eq_left.mp (congrArg Prod.fst h))
      exact onForm_ne_zero hdiff ((congrArg _ hzero).trans (map_zero _))
  have hsubset : {ch | t.Closure counts ch} ⊆
      ↑((spaced t.spacing (numerator t.keys (t.excess counts))).roots.toFinset ∪
        Finset.univ.biUnion fun r => (spaced t.spacing (form (t.rowKey r))).roots.toFinset) := by
    intro ch hch
    rw [Finset.coe_union, Set.mem_union, Finset.mem_coe, Finset.mem_coe]
    by_cases hrows : ∀ r, t.denominator ch (t.rowKey r) ≠ 0
    · left
      rw [Multiset.mem_toFinset, mem_roots hnumerator]
      exact hch.eval_numerator hrows
    · right
      obtain ⟨r, hr⟩ := not_forall.mp hrows
      refine Finset.mem_biUnion.mpr ⟨r, Finset.mem_univ r, ?_⟩
      rw [Multiset.mem_toFinset, mem_roots (hform r)]
      exact not_not.mp hr
  have hcard := (Set.ncard_le_ncard hsubset (Finset.finite_toSet _)).trans_eq (Set.ncard_coe_finset _)
  refine lt_of_le_of_lt (hcard.trans (Finset.card_union_le _ _)) ?_
  have hroots : (spaced t.spacing (numerator t.keys (t.excess counts))).roots.toFinset.card ≤
      (t.keys.card - 1) * t.spacing ^ nbCols :=
    (Multiset.toFinset_card_le _).trans ((card_roots' _).trans (natDegree_spaced_numerator_le t.spacing_pos))
  have hrowRoots : (Finset.univ.biUnion fun r => (spaced t.spacing (form (t.rowKey r))).roots.toFinset).card ≤
      nbRows * t.spacing ^ nbCols := by
    refine (Finset.card_biUnion_le_card_mul _ _ (t.spacing ^ nbCols) fun r _ => ?_).trans_eq ?_
    · exact (Multiset.toFinset_card_le _).trans ((card_roots' _).trans (natDegree_spaced_form_le t.spacing_pos _))
    · rw [Finset.card_fin]
  have hpow : 2 ^ ((nbCols + 1) * t.rowSeparationLog + 1) = (2 * t.spacing) * t.spacing ^ nbCols := by
    rw [spacing, pow_succ, mul_comm (nbCols + 1), pow_mul, pow_succ]
    ring
  rw [hpow]
  refine lt_of_le_of_lt (Nat.add_le_add hroots hrowRoots) ?_
  rw [← Nat.add_mul]
  refine Nat.mul_lt_mul_of_pos_right ?_ (pow_pos t.spacing_pos _)
  have hkeys := t.card_keys_lt
  have hrows : nbRows < t.spacing := (Nat.le_add_left _ _).trans_lt t.lt_spacing
  omega

end Table

section Prime

variable {p : Nat} [Fact p.Prime] (t : Table (ZMod p) nbRows nbCols nbQueries)

omit [Fact p.Prime] in
theorem Table.sizes_lt (hbuilds : t.Builds p.size) (hqueries : 0 < nbQueries) : nbQueries + nbRows < p := by
  have hbits := hbuilds hqueries
  have hmul : t.rowSeparationLog ≤ (nbCols + 1) * t.rowSeparationLog := Nat.le_mul_of_pos_left _ (Nat.succ_pos _)
  have hlog : t.rowSeparationLog < p.size := by omega
  exact t.lt_spacing.trans_le (Nat.lt_size.mp hlog)

/-- A key of queries only has an excess: there are fewer queries than the characteristic. -/
theorem Table.excess_ne_zero (hbuilds : t.Builds p.size) (counts : Fin nbRows → ZMod p) {i : Fin nbQueries}
    (h : ∀ r, ¬ t.Matches i r) : t.excess counts (t.queryKey i) ≠ 0 := by
  have hrows : ∑ r with t.rowKey r = t.queryKey i, counts r = 0 := by
    refine Finset.sum_eq_zero fun r hr => ?_
    exact absurd (t.matches_iff.mpr (Finset.mem_filter.mp hr).2.symm) (h r)
  rw [excess, hrows, zero_sub, neg_ne_zero, Finset.sum_const, nsmul_one, Ne, ZMod.natCast_eq_zero_iff]
  have hpos : 0 < (Finset.univ.filter fun j => t.queryKey j = t.queryKey i).card :=
    Finset.card_pos.mpr ⟨i, Finset.mem_filter.mpr ⟨Finset.mem_univ i, rfl⟩⟩
  have hle : (Finset.univ.filter fun j => t.queryKey j = t.queryKey i).card ≤ nbQueries :=
    (Finset.card_filter_le _ _).trans_eq (Finset.card_fin _)
  refine Nat.not_dvd_of_pos_of_lt hpos (hle.trans_lt ?_)
  exact (Nat.le_add_right _ _).trans_lt (t.sizes_lt hbuilds i.pos)

theorem Table.closure_rowCounts (hbuilds : t.Builds p.size) (h : ∀ i, ∃ r, t.Matches i r) {ch : ZMod p}
    (hrows : ∀ r : Fin nbRows, t.encode ch (r.val : ZMod p) (t.rows r) ≠ 0) : t.Closure t.rowCounts ch := by
  choose row hrow using h
  have hencode (i : Fin nbQueries) : t.encode ch (t.indices i) (t.results i) =
      t.encode ch ((row i).val : ZMod p) (t.rows (row i)) := by
    rw [(hrow i).1, (hrow i).2]
  have hindex (i : Fin nbQueries) (r : Fin nbRows) : t.indices i = (r.val : ZMod p) ↔ row i = r := by
    rw [(hrow i).1]
    refine ⟨fun h => Gates.natCast_fin_inj ?_ h, fun h => by rw [h]⟩
    exact ((Nat.le_add_left _ _).trans_lt (t.sizes_lt hbuilds i.pos)).le
  refine ⟨fun r => t.rowCounts r / t.encode ch (r.val : ZMod p) (t.rows r),
    fun i => 1 / t.encode ch ((row i).val : ZMod p) (t.rows (row i)), ?_, ?_, ?_⟩
  · exact fun r => div_mul_cancel₀ _ (hrows r)
  · intro i
    rw [hencode]
    exact div_mul_cancel₀ _ (hrows (row i))
  · rw [← Finset.sum_fiberwise Finset.univ row]
    refine Finset.sum_congr rfl fun r _ => ?_
    have hterm : ∀ i ∈ Finset.univ.filter fun i => row i = r,
        1 / t.encode ch ((row i).val : ZMod p) (t.rows (row i)) = 1 / t.encode ch (r.val : ZMod p) (t.rows r) := by
      intro i hi
      rw [(Finset.mem_filter.mp hi).2]
    rw [Finset.sum_congr rfl hterm, Finset.sum_const, nsmul_eq_mul, mul_one_div]
    simp only [rowCounts, hindex]

end Prime

end Circuits.Crypto.Lookup

/-- A query that no row answers passes for few challenges, whatever was committed, and queries that match their rows pass
for every challenge that is not a root of a denominator. -/
theorem row_lookup_soundness {p : Nat} [Fact p.Prime] {nbRows nbCols nbQueries : Nat}
    (t : Table (ZMod p) nbRows nbCols nbQueries) (hbuilds : t.Builds p.size) :
    (∀ counts : Fin nbRows → ZMod p, (∃ i, ∀ r, ¬ t.Matches i r) →
      {ch | t.Closure counts ch}.ncard < 2 ^ ((nbCols + 1) * t.rowSeparationLog + 1)) ∧
    ((∀ i, ∃ r, t.Matches i r) → ∀ ch : ZMod p,
      (∀ r : Fin nbRows, t.encode ch (r.val : ZMod p) (t.rows r) ≠ 0) → t.Closure t.rowCounts ch) := by
  refine ⟨?_, ?_⟩
  · rintro counts ⟨i, hi⟩
    exact t.ncard_closure_lt (t.queryKey_mem i) (t.excess_ne_zero hbuilds counts hi)
  · intro hmatches ch hrows
    exact t.closure_rowCounts hbuilds hmatches hrows

/-- Two rows of one column, and a query to the first that is answered with the second. -/
def wrongAnswer : Table Circuits.Fr 2 1 1 where
  rows := fun r _ => r.val
  indices := fun _ => 0
  results := fun _ _ => 1

theorem row_lookup_soundness_wrongAnswer : {ch | wrongAnswer.Closure (fun _ => 1) ch}.ncard < 32 := by
  have hbuilds : wrongAnswer.Builds Circuits.fieldModulus.size := by
    intro _
    decide +kernel
  refine (row_lookup_soundness wrongAnswer hbuilds).1 _ ⟨0, fun r hmatches => ?_⟩
  fin_cases r
  · exact absurd (congrFun hmatches.2 0) (by decide +kernel)
  · exact absurd hmatches.1 (by decide +kernel)

end Zolana
