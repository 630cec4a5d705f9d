import Zolana.Circuits.Merge
import Zolana.Circuits.Rails
import Zolana.Proof.IndexedTree

/-!
# What a satisfied slot says

One fact for each step of the loops over inputs and outputs: the kind of a slot, the tree it selects, the
path of its commitment, the gap its nullifier falls into, and what it publishes. The circuits are read
through these from here on.
-/

namespace Zolana.Circuits

open Gates MerklePath

/-! ### Kinds -/

theorem domains_ne : addressDomain ≠ utxoDomain ∧ dummyDomain ≠ utxoDomain ∧ dummyDomain ≠ addressDomain := by
  decide +kernel

namespace UtxoCircuitFields

variable (u : UtxoCircuitFields)

theorem isUtxo_eq : u.isUtxo = bit (u.domain = utxoDomain) := isZero_sub _ _

theorem isAddress_eq : u.isAddress = bit (u.domain = addressDomain) := isZero_sub _ _

theorem isDummy_eq : u.isDummy = bit (u.domain = dummyDomain) := isZero_sub _ _

theorem isUtxoOrAddress_eq : u.isUtxoOrAddress = bit (u.domain ≠ dummyDomain) := by
  rw [isUtxoOrAddress, isDummy_eq, one_sub_bit]

end UtxoCircuitFields

section Kinds

variable {domain : Fr}

theorem ne_dummyDomain_of_utxo (h : domain = utxoDomain) : domain ≠ dummyDomain := by
  rw [h]
  exact domains_ne.2.1.symm

theorem ne_addressDomain_of_utxo (h : domain = utxoDomain) : domain ≠ addressDomain := by
  rw [h]
  exact domains_ne.1.symm

theorem ne_dummyDomain_of_address (h : domain = addressDomain) : domain ≠ dummyDomain := by
  rw [h]
  exact domains_ne.2.2.symm

theorem utxo_or_dummy_iff : (bit (domain = utxoDomain) + bit (domain = dummyDomain) : Fr) = 1 ↔
    domain = utxoDomain ∨ domain = dummyDomain := by
  by_cases hutxo : domain = utxoDomain
  · rw [bit_of_pos hutxo, bit_of_neg (ne_dummyDomain_of_utxo hutxo), add_zero]
    exact iff_of_true rfl (.inl hutxo)
  · rw [bit_of_neg hutxo, zero_add, bit_eq_one, or_iff_right hutxo]

theorem kind_iff :
    (bit (domain = utxoDomain) + bit (domain = addressDomain) + bit (domain = dummyDomain) : Fr) = 1 ↔
      domain = utxoDomain ∨ domain = addressDomain ∨ domain = dummyDomain := by
  by_cases haddress : domain = addressDomain
  · have hutxo : domain ≠ utxoDomain := fun h => ne_addressDomain_of_utxo h haddress
    rw [bit_of_neg hutxo, bit_of_pos haddress, bit_of_neg (ne_dummyDomain_of_address haddress), zero_add,
      add_zero]
    exact iff_of_true rfl (.inr (.inl haddress))
  · rw [bit_of_neg haddress, add_zero, utxo_or_dummy_iff, or_iff_right haddress]

end Kinds

theorem foldl_isZero (values : List Fr) (P : Prop) [Decidable P] :
    values.foldl (fun zero v => zero * isZero v) (bit P) = bit (P ∧ ∀ v ∈ values, v = 0) := by
  induction values generalizing P with
  | nil => exact bit_congr (by simp)
  | cons v values ih =>
      rw [List.foldl_cons, isZero, bit_mul_bit, ih]
      refine bit_congr ?_
      rw [List.forall_mem_cons, and_assoc]

theorem allZero_eq (values : List Fr) : allZero values = bit (∀ v ∈ values, v = 0) := by
  have htrue : (bit True : Fr) = 1 := bit_of_pos trivial
  rw [allZero, ← htrue, foldl_isZero]
  exact bit_congr (iff_of_eq (true_and _))

theorem checkDummy_eq (u : UtxoCircuitFields) : u.checkDummy = bit (u.owner = 0 ∧ u.asset = 0 ∧ u.amount = 0 ∧
    u.dataHash = 0 ∧ u.ringDataHash = 0 ∧ u.ringProgramId = 0) := by
  rw [UtxoCircuitFields.checkDummy, allZero_eq]
  exact bit_congr (by simp)

theorem checkAddress_eq (input : Input) : input.checkAddress = bit (input.utxo.asset = 0 ∧
    input.utxo.amount = 0 ∧ input.utxo.dataHash = 0 ∧ input.utxo.ringDataHash = 0 ∧
    input.utxo.ringProgramId = 0 ∧ input.nullifierSecret = 0) := by
  rw [Input.checkAddress, allZero_eq]
  exact bit_congr (by simp)

/-! ### Trees -/

theorem inputTrees_le : inputTrees ≤ fieldModulus := by norm_num [inputTrees, fieldModulus]

theorem selectTreeSlot_eq_some {slot : Fr} {slots : Fin inputTrees → TreeSlot} {required : Bool}
    {tree : TreeSlot} : selectTreeSlot slot slots required = some tree ↔ ∃ k : Fin inputTrees,
      slot = (k.val : Fr) ∧ tree = slots k ∧ (required = true → tree.utxoRoot ≠ 0) ∧
      tree.nullifierRoot ≠ 0 := by
  rw [selectTreeSlot, bind_unit_eq_some, assertIsEqual_eq_some, sum_isZero_eq_one inputTrees_le]
  constructor
  · rintro ⟨⟨k, hslot⟩, h⟩
    simp only [sum_isZero_mul inputTrees_le hslot] at h
    refine ⟨k, hslot, ?_⟩
    cases required with
    | false =>
        obtain ⟨hnullifier, heq⟩ := of_bind_unit h
        obtain rfl := Option.some.inj heq
        exact ⟨rfl, Bool.noConfusion, assertIsDifferent_eq_some.mp hnullifier⟩
    | true =>
        obtain ⟨hutxo, h⟩ := of_bind_unit h
        obtain ⟨hnullifier, heq⟩ := of_bind_unit h
        obtain rfl := Option.some.inj heq
        exact ⟨rfl, fun _ => assertIsDifferent_eq_some.mp hutxo, assertIsDifferent_eq_some.mp hnullifier⟩
  · rintro ⟨k, hslot, rfl, hrequired, hnullifier⟩
    simp only [sum_isZero_mul inputTrees_le hslot]
    refine ⟨⟨k, hslot⟩, ?_⟩
    cases required with
    | false => exact bind_unit_eq_some.mpr ⟨assertIsDifferent_eq_some.mpr hnullifier, rfl⟩
    | true =>
        exact bind_unit_eq_some.mpr ⟨assertIsDifferent_eq_some.mpr (hrequired rfl),
          bind_unit_eq_some.mpr ⟨assertIsDifferent_eq_some.mpr hnullifier, rfl⟩⟩

section Paths

variable (poseidon : Poseidon)

def Opens {height : Nat} (leaf index : Fr) (path : Fin height → Fr) (root : Fr) : Prop :=
  index.val < 2 ^ height ∧ climb (nodeHash poseidon) leaf index.val (List.ofFn path) = some root

/-- A list of leaves under a root, with empty leaves behind it. -/
def IsRootOf (height : Nat) (leaves : List Fr) (root : Fr) : Prop :=
  leaves.length ≤ 2 ^ height ∧ nodeAt (nodeHash poseidon) (fun j => leaves.getD j zeroLeaf) height 0 = some root

/-- The witness holds a pair under a root between which a value falls. -/
def Absent {height : Nat} (value low next index : Fr) (path : Fin height → Fr) (root : Fr) : Prop :=
  (∃ leaf, poseidon [low, next] = some leaf ∧ Opens poseidon leaf index path root) ∧
    low.val < value.val ∧ value.val < next.val

variable {poseidon} {height : Nat} {leaf index root value low next : Fr} {path : Fin height → Fr}

theorem merkleRoot_eq_some {bits : List Fr} (hbits : toBinary height index = some bits) :
    merkleRoot poseidon leaf bits (List.ofFn path) = some root ↔ Opens poseidon leaf index path root := by
  obtain ⟨hindex, rfl⟩ := toBinary_eq_some.mp hbits
  have hroot := @merkleRoot_bitsOf poseidon leaf index.val (List.ofFn path)
  rw [List.length_ofFn] at hroot
  rw [hroot, Opens, and_iff_right hindex]

theorem Opens.mem (h : Opens poseidon leaf index path root) (hfree : poseidon.CollisionFree) {leaves : List Fr}
    (hroot : IsRootOf poseidon height leaves root) (hleaf : leaf ≠ zeroLeaf) : leaf ∈ leaves := by
  obtain ⟨hindex, hclimb⟩ := h
  obtain ⟨hat, -⟩ := leaf_of_climb hfree.nodeHash List.length_ofFn hindex hroot.2 hclimb
  rw [List.getD_eq_getElem?_getD] at hat
  cases hget : leaves[index.val]? with
  | none =>
      rw [hget] at hat
      exact absurd hat.symm hleaf
  | some found =>
      rw [hget] at hat
      obtain rfl : found = leaf := hat
      exact List.mem_of_getElem? hget

theorem Absent.not_mem (h : Absent poseidon value low next index path root) (hfree : poseidon.CollisionFree)
    (hzero : poseidon.NeverZero) {top : Fr} {elements : List (Fr × Fr)}
    (htree : IndexedTree poseidon top height elements root) : value ∉ elements.map Prod.fst ∧ value ≠ top := by
  obtain ⟨⟨leaf, hdigest, hindex, hclimb⟩, hlow, hnext⟩ := h
  obtain ⟨chain, hchain⟩ := htree.indexed
  obtain ⟨leaves, hleaves, hroot⟩ := htree.leaves
  obtain ⟨rfl, -⟩ := leaf_of_climb hfree.nodeHash List.length_ofFn hindex hroot hclimb
  have hmem := List.mem_of_getElem? (hleaves.getElem?_eq hfree hzero hdigest)
  have hchainNot := hchain.not_mem_chain hmem hlow hnext
  rwa [hchain.mem_chain_iff, not_or] at hchainNot

end Paths

/-! ### Commitments -/

variable {poseidon : Poseidon} {treeId hash : Fr}

theorem utxoHashCircuit_inj (hfree : poseidon.CollisionFree) {u u' : UtxoCircuitFields}
    {treeId' : Fr} (h : utxoHashCircuit poseidon u treeId = some hash)
    (h' : utxoHashCircuit poseidon u' treeId' = some hash) : u = u' ∧ treeId = treeId' := by
  obtain ⟨ownerUtxoHash, howner, h⟩ := of_bind_some h
  obtain ⟨ringHash, hring, h⟩ := of_bind_some h
  obtain ⟨ownerUtxoHash', howner', h'⟩ := of_bind_some h'
  obtain ⟨ringHash', hring', h'⟩ := of_bind_some h'
  have houter := hfree _ _ _ h h'
  simp only [List.cons.injEq, and_true] at houter
  obtain ⟨hdomain, htreeId, hasset, hamount, hdata, rfl, rfl⟩ := houter
  have hownerInputs := hfree _ _ _ howner howner'
  have hringInputs := hfree _ _ _ hring hring'
  simp only [List.cons.injEq, and_true] at hownerInputs hringInputs
  refine ⟨?_, htreeId⟩
  cases u
  cases u'
  simp only at hdomain hasset hamount hdata hownerInputs hringInputs
  rw [hdomain, hasset, hamount, hdata, hownerInputs.1, hownerInputs.2, hringInputs.1, hringInputs.2]

theorem utxoHashCircuit_ne_zero (hzero : poseidon.NeverZero) {u : UtxoCircuitFields}
    (h : utxoHashCircuit poseidon u treeId = some hash) : hash ≠ 0 := by
  obtain ⟨ownerUtxoHash, -, h⟩ := of_bind_some h
  obtain ⟨ringHash, -, h⟩ := of_bind_some h
  rintro rfl
  exact hzero _ h

/-! ### Amounts -/

theorem val_sum_of_lt {n : Nat} {f : Fin n → Fr} (h : ∑ i, (f i).val < fieldModulus) :
    (∑ i, f i).val = ∑ i, (f i).val := by
  have hcast : ∑ i, f i = ((∑ i, (f i).val : Nat) : Fr) := by
    rw [Nat.cast_sum]
    exact Finset.sum_congr rfl fun i _ => (ZMod.natCast_zmod_val (f i)).symm
  rw [hcast, val_natCast_of_lt h]

theorem rangeCheck64_eq_some {value : Fr} : rangeCheck64 value = some () ↔ value.val < 2 ^ amountBits := by
  constructor
  · intro h
    obtain ⟨bits, hbits, -⟩ := of_bind_some h
    exact (toBinary_eq_some.mp hbits).1
  · intro h
    exact bind_of_eq_some (toBinary_eq_some.mpr ⟨h, rfl⟩)

theorem assertDistinctNullifiers_eq_some {n : Nat} {nullifiers : Fin n → Fr} :
    assertDistinctNullifiers nullifiers (compactSlots nullifiers) = some () ↔
      ∀ i j, i < j → nullifiers i ≠ 0 → nullifiers i ≠ nullifiers j := by
  simp only [assertDistinctNullifiers, forEach_eq_some]
  refine forall₂_congr fun i j => ?_
  by_cases hij : i < j
  · rw [if_pos hij, assertIsDifferent_eq_some, forall_prop_of_true hij, compactSlots, compactSlots, isZero,
      isZero, bit_mul_bit]
    by_cases hi : nullifiers i = 0
    · refine iff_of_true ?_ fun h => absurd hi h
      by_cases hj : nullifiers j = 0
      · rw [bit_of_pos ⟨hi, hj⟩, hi, hj]
        norm_num
      · rw [bit_of_neg fun h => hj h.2, hi, zero_sub, add_zero]
        exact neg_ne_zero.mpr hj
    · rw [bit_of_neg fun h => hi h.1, add_zero, sub_ne_zero, forall_prop_of_true hi]
  · rw [if_neg hij]
    exact iff_of_true rfl fun h => absurd h hij

theorem ne_of_distinct {n : Nat} {nullifiers : Fin n → Fr}
    (h : ∀ i j, i < j → nullifiers i ≠ 0 → nullifiers i ≠ nullifiers j) {i j : Fin n} (hij : i ≠ j)
    (hi : nullifiers i ≠ 0) : nullifiers i ≠ nullifiers j := by
  rcases lt_or_gt_of_ne hij with hlt | hgt
  · exact h i j hlt hi
  · intro heq
    rw [heq] at hi
    exact h j i hgt hi heq.symm

/-! ### Outputs -/

/-- What an output slot asserts, where `compact` says that it publishes nothing. -/
structure SatisfiedOutput (poseidon : Poseidon) (utxo : UtxoCircuitFields) (hash treeId : Fr)
    (compact signed : Prop) (utxoHash : Fr) : Prop where
  kind : utxo.domain = utxoDomain ∨ utxo.domain = dummyDomain
  asset_ne : utxo.domain = utxoDomain → utxo.asset ≠ 0
  dummy : utxo.domain = dummyDomain → utxo.owner = 0 ∧ utxo.asset = 0 ∧ utxo.amount = 0 ∧ utxo.dataHash = 0 ∧
    utxo.ringDataHash = 0 ∧ utxo.ringProgramId = 0
  signed_of_data : utxo.domain = utxoDomain → utxo.dataHash ≠ 0 → signed
  dummy_of_compact : compact → utxo.domain = dummyDomain
  digest : utxoHashCircuit poseidon utxo treeId = some utxoHash
  published : ¬ compact → utxoHash = hash

theorem constrainOutput_eq_some {utxo : UtxoCircuitFields} {result : Fr} {compact signed : Prop}
    [Decidable compact] [Decidable signed] :
    constrainOutput poseidon utxo hash (bit compact) (bit signed) treeId = some result ↔
      ∃ utxoHash, SatisfiedOutput poseidon utxo hash treeId compact signed utxoHash ∧
        result = if utxo.domain = utxoDomain then utxoHash else 0 := by
  rw [constrainOutput]
  simp only [UtxoCircuitFields.isUtxo_eq, UtxoCircuitFields.isDummy_eq, isZero, checkDummy_eq, one_sub_bit,
    bit_mul_bit, bind_unit_eq_some, assertIsEqual_eq_some, assertZeroWhen_eq_some, assertWhen_eq_some,
    bit_eq_zero, select_bit, utxo_or_dummy_iff]
  constructor
  · rintro ⟨hkind, hasset, hdummy, hsigned, hcompact, h⟩
    obtain ⟨utxoHash, hdigest, h⟩ := of_bind_some h
    obtain ⟨hpublished, h⟩ := of_bind_unit h
    rw [assertEqualWhen_eq_some] at hpublished
    exact ⟨utxoHash, ⟨hkind, hasset, hdummy, fun hutxo hdata => hsigned ⟨hutxo, hdata⟩, hcompact, hdigest,
      hpublished⟩, (Option.some.inj h).symm⟩
  · rintro ⟨utxoHash, h, rfl⟩
    refine ⟨h.kind, h.asset_ne, h.dummy, fun hdata => h.signed_of_data hdata.1 hdata.2, h.dummy_of_compact, ?_⟩
    rw [bind_of_eq_some h.digest]
    exact bind_unit_eq_some.mpr ⟨assertEqualWhen_eq_some.mpr h.published, rfl⟩

/-! ### Inputs of a spend -/

/-- What an input slot asserts, where `compact` says that it publishes nothing and `cached` that its
commitment is looked up in a cache. -/
structure SatisfiedInput (poseidon : Poseidon) (input : Input) (nullifier signerPk : Fr) (tree : TreeSlot)
    (skipInclusion : Option Fr) (compact cached : Prop) (utxoHash ownNullifier : Fr) : Prop where
  kind : input.utxo.domain = utxoDomain ∨ input.utxo.domain = addressDomain ∨ input.utxo.domain = dummyDomain
  asset_ne : input.utxo.domain = utxoDomain → input.utxo.asset ≠ 0
  dummy_of_compact : compact → input.utxo.domain = dummyDomain
  digest : utxoHashCircuit poseidon input.utxo tree.id = some utxoHash
  nullifier_eq : nullifierCircuit poseidon utxoHash input.utxo.blinding input.nullifierSecret = some ownNullifier
  published : ¬ compact → ownNullifier = nullifier
  absent : Absent poseidon ownNullifier input.nullifierLowValue input.nullifierNextValue
    input.nullifierLowPathIndex input.nullifierLowPathElements tree.nullifierRoot
  owner_eq : ∃ nullifierPk ownerHash, nullifierPkHash poseidon input.nullifierSecret = some nullifierPk ∧
    ownerHashCircuit poseidon signerPk nullifierPk = some ownerHash ∧
    (input.utxo.domain ≠ dummyDomain → ownerHash = input.utxo.owner)
  root_ne : skipInclusion ≠ none → input.utxo.domain = utxoDomain → ¬ cached → tree.utxoRoot ≠ 0
  included : ∃ root, Opens poseidon utxoHash input.statePathIndex input.statePathElements root ∧
    (input.utxo.domain = utxoDomain → ¬ cached → root = tree.utxoRoot)
  dummy : input.utxo.domain = dummyDomain → input.utxo.owner = 0 ∧ input.utxo.asset = 0 ∧
    input.utxo.amount = 0 ∧ input.utxo.dataHash = 0 ∧ input.utxo.ringDataHash = 0 ∧ input.utxo.ringProgramId = 0
  dummy_secret : input.utxo.domain = dummyDomain → input.nullifierSecret = 0
  address : input.utxo.domain = addressDomain → input.utxo.asset = 0 ∧ input.utxo.amount = 0 ∧
    input.utxo.dataHash = 0 ∧ input.utxo.ringDataHash = 0 ∧ input.utxo.ringProgramId = 0 ∧
    input.nullifierSecret = 0

section Spend

variable {poseidon : Poseidon} {input : Input} {nullifier signerPk : Fr} {tree : TreeSlot}
  {skipInclusion : Option Fr} {compact cached : Prop} [Decidable compact] [Decidable cached]

theorem requireInclusion_eq_some (hskip : skipInclusion = none ∧ ¬ cached ∨ skipInclusion = some (bit cached))
    {isCompact required : Fr} :
    input.requireInclusion ⟨nullifier, isCompact, signerPk, tree, skipInclusion⟩ = some required ↔
      (skipInclusion ≠ none → input.utxo.domain = utxoDomain → ¬ cached → tree.utxoRoot ≠ 0) ∧
      required = bit (input.utxo.domain = utxoDomain ∧ ¬ cached) := by
  rcases hskip with ⟨rfl, hcached⟩ | rfl
  · rw [Input.requireInclusion, UtxoCircuitFields.isUtxo_eq, bit_congr (and_iff_left hcached)]
    constructor
    · intro h
      exact ⟨fun hne => absurd rfl hne, (Option.some.inj h).symm⟩
    · rintro ⟨-, rfl⟩
      rfl
  · simp only [Input.requireInclusion, UtxoCircuitFields.isUtxo_eq, one_sub_bit, bit_mul_bit, bind_unit_eq_some,
      isZero, assertZeroWhen_eq_some, bit_eq_zero]
    constructor
    · rintro ⟨hroot, h⟩
      exact ⟨fun _ hutxo hcached => hroot ⟨hutxo, hcached⟩, (Option.some.inj h).symm⟩
    · rintro ⟨hroot, rfl⟩
      exact ⟨fun h => hroot (Option.some_ne_none _) h.1 h.2, rfl⟩

theorem checkNonInclusion_eq_some {utxoHash : Fr} :
    input.checkNonInclusion poseidon utxoHash ⟨nullifier, bit compact, signerPk, tree, skipInclusion⟩ = some () ↔
      ∃ ownNullifier,
        nullifierCircuit poseidon utxoHash input.utxo.blinding input.nullifierSecret = some ownNullifier ∧
        (¬ compact → ownNullifier = nullifier) ∧
        Absent poseidon ownNullifier input.nullifierLowValue input.nullifierNextValue
          input.nullifierLowPathIndex input.nullifierLowPathElements tree.nullifierRoot := by
  rw [Input.checkNonInclusion]
  constructor
  · intro h
    obtain ⟨ownNullifier, hnullifier, h⟩ := of_bind_some h
    obtain ⟨hpublished, h⟩ := of_bind_unit h
    rw [one_sub_bit, assertEqualWhen_eq_some] at hpublished
    obtain ⟨lowLeaf, hlowLeaf, h⟩ := of_bind_some h
    obtain ⟨lowBits, hlowBits, h⟩ := of_bind_some h
    obtain ⟨root, hroot, h⟩ := of_bind_some h
    obtain ⟨heq, hordered⟩ := of_bind_unit h
    rw [assertIsEqual_eq_some.mp heq] at hroot
    exact ⟨ownNullifier, hnullifier, hpublished, ⟨lowLeaf, hlowLeaf, (merkleRoot_eq_some hlowBits).mp hroot⟩,
      assertStrictlyOrdered_eq_some.mp hordered⟩
  · rintro ⟨ownNullifier, hnullifier, hpublished, ⟨lowLeaf, hlowLeaf, hroot⟩, hordered⟩
    have hlowBits := toBinary_eq_some.mpr ⟨hroot.1, rfl⟩
    rw [bind_of_eq_some hnullifier, bind_unit_eq_some, one_sub_bit, assertEqualWhen_eq_some, indexedLeafHash,
      bind_of_eq_some hlowLeaf, bind_of_eq_some hlowBits,
      bind_of_eq_some ((merkleRoot_eq_some hlowBits).mpr hroot), bind_unit_eq_some]
    exact ⟨hpublished, assertIsEqual_eq_some.mpr rfl, assertStrictlyOrdered_eq_some.mpr hordered⟩

theorem constrainInput_eq_some (hskip : skipInclusion = none ∧ ¬ cached ∨ skipInclusion = some (bit cached))
    {result : Fr × Fr} :
    constrainInput poseidon input ⟨nullifier, bit compact, signerPk, tree, skipInclusion⟩ = some result ↔
      ∃ utxoHash ownNullifier, SatisfiedInput poseidon input nullifier signerPk tree skipInclusion compact cached
          utxoHash ownNullifier ∧
        result = (if input.utxo.domain = utxoDomain then utxoHash else 0,
          if input.utxo.domain = addressDomain then nullifier else 0) := by
  rw [constrainInput]
  simp only [UtxoCircuitFields.isUtxo_eq, UtxoCircuitFields.isAddress_eq, UtxoCircuitFields.isDummy_eq,
    UtxoCircuitFields.isUtxoOrAddress_eq, checkDummy_eq, checkAddress_eq, bind_unit_eq_some,
    assertIsEqual_eq_some, assertWhen_eq_some, assertZeroWhen_eq_some, isZero, bit_eq_zero, select_bit, kind_iff]
  constructor
  · rintro ⟨hkind, hasset, hcompact, h⟩
    obtain ⟨utxoHash, hdigest, h⟩ := of_bind_some h
    obtain ⟨hnonInclusion, h⟩ := of_bind_unit h
    obtain ⟨ownNullifier, hnullifier, hpublished, habsent⟩ := checkNonInclusion_eq_some.mp hnonInclusion
    obtain ⟨nullifierPk, hnullifierPk, h⟩ := of_bind_some h
    obtain ⟨ownerHash, hownerHash, h⟩ := of_bind_some h
    obtain ⟨howner, h⟩ := of_bind_unit h
    rw [assertWhen_eq_some] at howner
    obtain ⟨required, hrequired, h⟩ := of_bind_some h
    obtain ⟨hrootNe, rfl⟩ := (requireInclusion_eq_some hskip).mp hrequired
    obtain ⟨included, hincluded, h⟩ := of_bind_some h
    obtain ⟨stateBits, hstateBits, hincluded⟩ := of_bind_some hincluded
    obtain ⟨root, hroot, hincluded⟩ := of_bind_some hincluded
    obtain rfl := Option.some.inj hincluded
    simp only [isZero_sub, bind_unit_eq_some, assertWhen_eq_some, assertZeroWhen_eq_some] at h
    obtain ⟨hroots, hdummy, hsecret, haddress, h⟩ := h
    exact ⟨utxoHash, ownNullifier, ⟨hkind, hasset, hcompact, hdigest, hnullifier, hpublished, habsent,
      ⟨nullifierPk, ownerHash, hnullifierPk, hownerHash, fun hne => sub_eq_zero.mp (howner hne)⟩, hrootNe,
      ⟨root, (merkleRoot_eq_some hstateBits).mp hroot, fun hutxo hcached => hroots ⟨hutxo, hcached⟩⟩, hdummy,
      hsecret, haddress⟩, (Option.some.inj h).symm⟩
  · rintro ⟨utxoHash, ownNullifier, h, rfl⟩
    obtain ⟨nullifierPk, ownerHash, hnullifierPk, hownerHash, howner⟩ := h.owner_eq
    obtain ⟨root, hroot, hincluded⟩ := h.included
    have hstateBits := toBinary_eq_some.mpr ⟨hroot.1, rfl⟩
    have hcheck : input.checkInclusion poseidon utxoHash tree.utxoRoot = some (bit (root = tree.utxoRoot)) := by
      rw [Input.checkInclusion, bind_of_eq_some hstateBits,
        bind_of_eq_some ((merkleRoot_eq_some hstateBits).mpr hroot), isZero_sub]
      rfl
    refine ⟨h.kind, h.asset_ne, h.dummy_of_compact, ?_⟩
    rw [bind_of_eq_some h.digest, bind_unit_eq_some, bind_of_eq_some hnullifierPk, bind_of_eq_some hownerHash,
      bind_unit_eq_some, bind_of_eq_some ((requireInclusion_eq_some hskip).mpr ⟨h.root_ne, rfl⟩),
      bind_of_eq_some hcheck]
    simp only [bind_unit_eq_some, assertWhen_eq_some, assertZeroWhen_eq_some]
    exact ⟨checkNonInclusion_eq_some.mpr ⟨ownNullifier, h.nullifier_eq, h.published, h.absent⟩,
      fun hne => sub_eq_zero.mpr (howner hne), fun hrequired => hincluded hrequired.1 hrequired.2, h.dummy,
      h.dummy_secret, h.address, rfl⟩

end Spend

/-! ### Inputs of a merge -/

namespace Merge

variable {poseidon : Poseidon} {input : Input} {ctx : MergeInputContext} {tree : TreeSlot} {slotIndex : Nat}

theorem Input.utxo_eq (input : Input) (ctx : MergeInputContext) : input.utxo ctx =
      { domain := input.domain
        owner := if input.domain = dummyDomain then 0 else ctx.ownerHash
        asset := if input.domain = dummyDomain then 0 else ctx.asset
        amount := input.amount
        blinding := input.blinding
        dataHash := 0
        ringDataHash := input.ringDataHash
        ringProgramId := if input.domain = dummyDomain then 0 else ctx.ringProgramId } := by
  rw [Input.utxo]
  simp only [isZero_sub, select_bit]

/-- What an input slot asserts, where `compact` says that it publishes nothing. -/
structure SatisfiedInput (poseidon : Poseidon) (input : Input) (ctx : MergeInputContext) (tree : TreeSlot)
    (slotIndex : Nat) (compact : Prop) (utxoHash nullifier : Fr) : Prop where
  kind : input.domain = utxoDomain ∨ input.domain = dummyDomain
  dummy_of_compact : compact → input.domain = dummyDomain
  amount_lt : input.amount.val < 2 ^ amountBits
  dummy : input.domain = dummyDomain → input.amount = 0 ∧ input.ringDataHash = 0
  digest : utxoHashCircuit poseidon (input.utxo ctx) tree.id = some utxoHash
  included : ∃ root, Opens poseidon utxoHash input.statePathIndex input.statePathElements root ∧
    (input.domain = utxoDomain → root = tree.utxoRoot)
  nullifiers : ∃ utxoNullifier dummyNullifier,
    nullifierCircuit poseidon utxoHash input.blinding
      (if input.domain = dummyDomain then 0 else ctx.nullifierSecret) = some utxoNullifier ∧
    mergeDummyNullifier poseidon ctx.nullifierSecret ctx.firstNullifier slotIndex = some dummyNullifier ∧
    nullifier = if input.domain = dummyDomain then dummyNullifier else utxoNullifier
  absent : Absent poseidon nullifier input.nullifierLowValue input.nullifierNextValue
    input.nullifierLowPathIndex input.nullifierLowPathElements tree.nullifierRoot

theorem constrainInput_eq_some {compact : Prop} [Decidable compact] {result : Fr × Fr} :
    constrainInput poseidon input ctx tree slotIndex (bit compact) = some result ↔ ∃ utxoHash nullifier,
      SatisfiedInput poseidon input ctx tree slotIndex compact utxoHash nullifier ∧
      result = (if input.domain = dummyDomain then 0 else utxoHash, if compact then 0 else nullifier) := by
  rw [constrainInput]
  simp only [isZero_sub, checkDummy_eq, Input.utxo_eq, bind_unit_eq_some, assertIsEqual_eq_some,
    assertWhen_eq_some, select_bit, utxo_or_dummy_iff, rangeCheck64_eq_some]
  constructor
  · rintro ⟨hkind, hcompact, hamount, hdummy, h⟩
    obtain ⟨utxoHash, hdigest, h⟩ := of_bind_some h
    obtain ⟨stateBits, hstateBits, h⟩ := of_bind_some h
    obtain ⟨stateRoot, hstateRoot, h⟩ := of_bind_some h
    obtain ⟨hincluded, h⟩ := of_bind_unit h
    rw [assertEqualWhen_eq_some] at hincluded
    obtain ⟨utxoNullifier, hutxoNullifier, h⟩ := of_bind_some h
    obtain ⟨dummyNullifier, hdummyNullifier, h⟩ := of_bind_some h
    obtain ⟨lowLeaf, hlowLeaf, h⟩ := of_bind_some h
    obtain ⟨lowBits, hlowBits, h⟩ := of_bind_some h
    obtain ⟨nullifierRoot, hnullifierRoot, h⟩ := of_bind_some h
    obtain ⟨heq, h⟩ := of_bind_unit h
    obtain ⟨hordered, h⟩ := of_bind_unit h
    rw [assertIsEqual_eq_some.mp heq] at hnullifierRoot
    have hlow := (merkleRoot_eq_some hlowBits).mp hnullifierRoot
    have hgap := assertStrictlyOrdered_eq_some.mp hordered
    refine ⟨utxoHash, if input.domain = dummyDomain then dummyNullifier else utxoNullifier,
      ⟨hkind, hcompact, hamount, fun h => ⟨(hdummy h).2.2.1, (hdummy h).2.2.2.2.1⟩, ?_,
        ⟨stateRoot, (merkleRoot_eq_some hstateBits).mp hstateRoot, hincluded⟩,
        ⟨utxoNullifier, dummyNullifier, hutxoNullifier, hdummyNullifier, rfl⟩, ⟨lowLeaf, hlowLeaf, hlow⟩, hgap⟩,
      (Option.some.inj h).symm⟩
    rw [Input.utxo_eq]
    exact hdigest
  · rintro ⟨utxoHash, nullifier, h, rfl⟩
    obtain ⟨stateRoot, hstateRoot, hincluded⟩ := h.included
    obtain ⟨utxoNullifier, dummyNullifier, hutxoNullifier, hdummyNullifier, rfl⟩ := h.nullifiers
    obtain ⟨⟨lowLeaf, hlowLeaf, hlowRoot⟩, hordered⟩ := h.absent
    have hdigest := h.digest
    rw [Input.utxo_eq] at hdigest
    have hstateBits := toBinary_eq_some.mpr ⟨hstateRoot.1, rfl⟩
    have hlowBits := toBinary_eq_some.mpr ⟨hlowRoot.1, rfl⟩
    refine ⟨h.kind, h.dummy_of_compact, h.amount_lt, fun hdummy => ?_, ?_⟩
    · simp only [if_pos hdummy]
      exact ⟨trivial, trivial, (h.dummy hdummy).1, trivial, (h.dummy hdummy).2, trivial⟩
    · rw [bind_of_eq_some hdigest, bind_of_eq_some hstateBits,
        bind_of_eq_some ((merkleRoot_eq_some hstateBits).mpr hstateRoot), bind_unit_eq_some,
        bind_of_eq_some hutxoNullifier, bind_of_eq_some hdummyNullifier]
      refine ⟨assertEqualWhen_eq_some.mpr hincluded, ?_⟩
      rw [indexedLeafHash, bind_of_eq_some hlowLeaf, bind_of_eq_some hlowBits,
        bind_of_eq_some ((merkleRoot_eq_some hlowBits).mpr hlowRoot), bind_unit_eq_some, bind_unit_eq_some]
      exact ⟨assertIsEqual_eq_some.mpr rfl, assertStrictlyOrdered_eq_some.mpr hordered, rfl⟩

end Merge

end Zolana.Circuits
