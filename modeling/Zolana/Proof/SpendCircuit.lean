import Zolana.Proof.CircuitSlots

/-!
# What a satisfied spend says

The statement every spend circuit shares, with its slots read through `SatisfiedInput` and `SatisfiedOutput`:
the flags as a number, the order of the slots, and the lookups in a cache.
-/

namespace Zolana.Circuits

open Gates

/-! ### The order of the slots -/

theorem assertDummiesLast_eq_some {utxos : List UtxoCircuitFields} :
    assertDummiesLast utxos = some () ↔ utxos.IsChain fun previous utxo =>
      previous.domain = addressDomain ∨ previous.domain = utxoDomain ∨ utxo.domain = dummyDomain := by
  fun_induction assertDummiesLast utxos with
  | case1 previous utxo utxos previousIsNotReal ih =>
      rw [bind_unit_eq_some, ih, List.isChain_cons_cons, assertIsEqual_eq_some, mul_eq_zero, mul_eq_zero,
        sub_eq_zero, sub_eq_zero, sub_eq_zero, or_assoc]
  | case2 utxos hshort =>
      refine iff_of_true rfl ?_
      cases utxos with
      | nil => exact List.isChain_nil
      | cons utxo utxos =>
          cases utxos with
          | nil => exact List.isChain_singleton _
          | cons next utxos => exact absurd rfl (hshort utxo next utxos)

theorem dummy_of_dummy_before {n : Nat} {utxos : Fin n → UtxoCircuitFields}
    (h : assertDummiesLast (List.ofFn utxos) = some ()) {i j : Fin n} (hij : i < j)
    (hi : (utxos i).domain = dummyDomain) : (utxos j).domain = dummyDomain := by
  have hchain := (assertDummiesLast_eq_some.mp h).imp
    (S := fun previous utxo => previous.domain = dummyDomain → utxo.domain = dummyDomain) (by
      intro previous utxo hreal hdummy
      rcases hreal with haddress | hutxo | hdummy'
      · exact absurd hdummy (ne_dummyDomain_of_address haddress)
      · exact absurd hdummy (ne_dummyDomain_of_utxo hutxo)
      · exact hdummy')
  have htrans : IsTrans UtxoCircuitFields
      fun previous utxo => previous.domain = dummyDomain → utxo.domain = dummyDomain :=
    ⟨fun _ _ _ h h' hdummy => h' (h hdummy)⟩
  exact List.pairwise_ofFn.mp (List.isChain_iff_pairwise.mp hchain) hij hi

/-! ### The flags -/

section Flags

variable {n : Nat} {flags : Fr}

def treeIndexOf (flags : Fr) (i : Nat) : Nat := flags.val / 2 ^ (1 + treeIndexBits * i) % 2 ^ treeIndexBits

theorem publishedTreeIndex_eq {i : Nat} (hi : i < n) :
    Transaction.publishedTreeIndex (bitsOf (1 + treeIndexBits * n) flags.val) i = (treeIndexOf flags i : Fr) := by
  have hroom : 1 + treeIndexBits * i + treeIndexBits ≤ 1 + treeIndexBits * n := by
    rw [Nat.add_assoc, ← Nat.mul_succ]
    exact Nat.add_le_add_left (Nat.mul_le_mul_left _ hi) 1
  rw [Transaction.publishedTreeIndex, drop_bitsOf (by omega), take_bitsOf (by omega), fromBinary_bitsOf]
  rfl

theorem treeIndexOf_lt (flags : Fr) (i : Nat) : treeIndexOf flags i < 8 := Nat.mod_lt _ (by decide)

end Flags

/-! ### Lookups in a cache -/

theorem selectReadHash_eq_some {n : Nat} (hn : n ≤ fieldModulus) {index read : Fr} {hashes : Fin n → Fr} :
    selectReadHash index hashes = some read ↔ ∃ k : Fin n, index = (k.val : Fr) ∧ read = hashes k := by
  rw [selectReadHash, bind_unit_eq_some, assertIsEqual_eq_some, sum_isZero_eq_one hn]
  constructor
  · rintro ⟨⟨k, hindex⟩, h⟩
    rw [sum_isZero_mul hn hindex] at h
    exact ⟨k, hindex, (Option.some.inj h).symm⟩
  · rintro ⟨k, hindex, rfl⟩
    rw [sum_isZero_mul hn hindex]
    exact ⟨⟨k, hindex⟩, rfl⟩

theorem bit_eq_of_boolean {x : Fr} (h : x = 0 ∨ x = 1) : x = bit (x = 1) := by
  rcases h with h | h
  · rw [bit_of_neg (by rw [h]; exact zero_ne_one), h]
  · rw [bit_of_pos h, h]

theorem Shape.nInputs_le (shape : Shape) : shape.nInputs ≤ fieldModulus :=
  shape.nInputs_lt.le.trans (two_pow_lt_fieldModulus (by decide)).le

namespace CachedInputs

variable {poseidon : Poseidon} {shape : Shape}

structure Satisfied (poseidon : Poseidon) (cached : CachedInputs shape.nInputs)
    (inputs : Fin shape.nInputs → Input) (inputHashes treeIds : Fin shape.nInputs → Fr) : Prop where
  read : ∀ i, ∃ k : Fin shape.nInputs, cached.readIndex i = (k.val : Fr) ∧
    (cached.isCached i = 1 → (inputs i).utxo.domain = utxoDomain ∧ treeIds i = cached.treeId ∧
      inputHashes i ≠ 0 ∧ inputHashes i = cached.readHashes k)
  chain : rightHashChain4 poseidon (List.ofFn cached.readHashes) = some cached.readHashChain

variable {cached : CachedInputs shape.nInputs} {inputs : Fin shape.nInputs → Input}
  {inputHashes treeIds : Fin shape.nInputs → Fr}

theorem prepare_eq_some : cached.prepare = some () ↔
    (∀ i, cached.isCached i = 0 ∨ cached.isCached i = 1) ∧ cached.treeId.val < 2 ^ 16 := by
  rw [prepare, bind_unit_eq_some, forEach_eq_some]
  simp only [assertIsBoolean_eq_some]
  refine and_congr_right fun _ => ⟨fun h => ?_, fun h => bind_of_eq_some (toBinary_eq_some.mpr ⟨h, rfl⟩)⟩
  obtain ⟨bits, hbits, -⟩ := of_bind_some h
  exact (toBinary_eq_some.mp hbits).1

theorem constrain_eq_some (hboolean : ∀ i, cached.isCached i = 0 ∨ cached.isCached i = 1) :
    cached.constrain poseidon inputs inputHashes treeIds = some () ↔
      cached.Satisfied poseidon inputs inputHashes treeIds := by
  rw [constrain, bind_unit_eq_some, forEach_eq_some]
  constructor
  · rintro ⟨hread, h⟩
    obtain ⟨chain, hchain, h⟩ := of_bind_some h
    rw [assertIsEqual_eq_some.mp h] at hchain
    refine ⟨fun i => ?_, hchain⟩
    have hslot := hread i
    rw [bit_eq_of_boolean (hboolean i)] at hslot
    simp only [isZero, sub_eq_zero, one_sub_bit, bind_unit_eq_some, assertWhen_eq_some] at hslot
    obtain ⟨hutxo, htree, hne, hslot⟩ := hslot
    obtain ⟨read, hselect, hslot⟩ := of_bind_some hslot
    obtain ⟨k, hindex, rfl⟩ := (selectReadHash_eq_some shape.nInputs_le).mp hselect
    rw [assertWhen_eq_some] at hslot
    exact ⟨k, hindex, fun h => ⟨hutxo h, htree h, hne h, hslot h⟩⟩
  · intro h
    refine ⟨fun i => ?_, (bind_of_eq_some h.chain).trans (assertIsEqual_eq_some.mpr rfl)⟩
    obtain ⟨k, hindex, hcached⟩ := h.read i
    rw [bit_eq_of_boolean (hboolean i)]
    simp only [isZero, sub_eq_zero, one_sub_bit, bind_unit_eq_some, assertWhen_eq_some]
    refine ⟨fun h => (hcached h).1, fun h => (hcached h).2.1, fun h => (hcached h).2.2.1, ?_⟩
    rw [bind_of_eq_some ((selectReadHash_eq_some shape.nInputs_le).mpr ⟨k, hindex, rfl⟩), assertWhen_eq_some]
    exact fun h => (hcached h).2.2.2

end CachedInputs

/-! ### The transaction -/

namespace Transaction

variable {poseidon : Poseidon} {shape : Shape} (t : Transaction shape)

def IsCached (i : Fin shape.nInputs) : Prop := t.skipInclusion i = some 1

instance (i : Fin shape.nInputs) : Decidable (t.IsCached i) := inferInstanceAs (Decidable (_ = some 1))

/-- What the transaction asserts, where `signed` says which outputs have a signing owner. -/
structure Satisfied (poseidon : Poseidon) (signers : Fin shape.nInputs → Fr)
    (signed : Fin shape.nOutputs → Prop) (tree : Fin shape.nInputs → Fin inputTrees)
    (utxoHash ownNullifier : Fin shape.nInputs → Fr) (outputHash : Fin shape.nOutputs → Fr) : Prop where
  cacheFlags : ∀ cached, t.cachedInputs = some cached →
    (∀ i, cached.isCached i = 0 ∨ cached.isCached i = 1) ∧ cached.treeId.val < 2 ^ 16
  flags_lt : t.inputFlags.val < 2 ^ (1 + treeIndexBits * shape.nInputs)
  allowDummy : t.inputFlags.val % 2 = 0 →
    ∀ i, (t.inputs i).utxo.domain ≠ utxoDomain ↔ t.nullifiers i = 0
  tree_eq : ∀ i, (t.inputs i).treeSlot = ((tree i).val : Fr) ∧ (tree i).val = treeIndexOf t.inputFlags i ∧
    (t.cachedInputs = none → (t.treeSlots (tree i)).utxoRoot ≠ 0) ∧ (t.treeSlots (tree i)).nullifierRoot ≠ 0
  slot : ∀ i, SatisfiedInput poseidon (t.inputs i) (t.nullifiers i) (signers i) (t.treeSlots (tree i))
    (t.skipInclusion i) (t.nullifiers i = 0) (t.IsCached i) (utxoHash i) (ownNullifier i)
  cache : ∀ cached, t.cachedInputs = some cached → cached.Satisfied poseidon t.inputs
    (fun i => if (t.inputs i).utxo.domain = utxoDomain then utxoHash i else 0) fun i => (t.treeSlots (tree i)).id
  distinct : ∀ i j, i < j → t.nullifiers i ≠ 0 → t.nullifiers i ≠ t.nullifiers j
  inputsOrdered : assertDummiesLast (List.ofFn fun i => (t.inputs i).utxo) = some ()
  first_ne : t.firstNullifier ≠ 0
  outputSlot : ∃ seed, deriveOutputBlindingSeed poseidon t.firstNullifier t.blindingSeed = some seed ∧
    ∀ i : Fin shape.nOutputs, deriveOutputBlinding poseidon t.firstNullifier seed i = some (t.outputs i).blinding ∧
      SatisfiedOutput poseidon (t.outputs i) (t.outputHashes i) t.outputTreeId (t.outputHashes i = 0) (signed i)
        (outputHash i)
  outputsOrdered : assertDummiesLast (List.ofFn t.outputs) = some ()
  balance : assertBalanceConservation (List.ofFn fun i => (t.inputs i).utxo) (List.ofFn t.outputs)
    (List.ofFn t.publicAssets) (List.ofFn t.publicAmounts) = some ()
  privateTxHash_eq : ∃ blinding, derivePrivateTxBlinding poseidon t.firstNullifier t.blindingSeed = some blinding ∧
    privateTxHashCircuit poseidon
      (List.ofFn fun i => if (t.inputs i).utxo.domain = utxoDomain then utxoHash i else 0)
      (List.ofFn fun i => if (t.outputs i).domain = utxoDomain then outputHash i else 0)
      (List.ofFn fun i => if (t.inputs i).utxo.domain = addressDomain then t.nullifiers i else 0) blinding =
        some t.privateTxHash
  publicInputHash_eq : t.publicInputHashCircuit poseidon = some t.publicInputHash

variable {t}

theorem skipInclusion_cases (hflags : ∀ cached, t.cachedInputs = some cached →
    (∀ i, cached.isCached i = 0 ∨ cached.isCached i = 1) ∧ cached.treeId.val < 2 ^ 16) (i : Fin shape.nInputs) :
    t.skipInclusion i = none ∧ ¬ t.IsCached i ∨ t.skipInclusion i = some (bit (t.IsCached i)) := by
  cases hcached : t.cachedInputs with
  | none =>
      have hskip : t.skipInclusion i = none := by rw [skipInclusion, hcached, Option.map_none]
      refine .inl ⟨hskip, ?_⟩
      rw [IsCached, hskip]
      exact nofun
  | some cached =>
      have hskip : t.skipInclusion i = some (cached.isCached i) := by
        rw [skipInclusion, hcached, Option.map_some]
      refine .inr ?_
      have hiff : t.IsCached i ↔ cached.isCached i = 1 := by rw [IsCached, hskip, Option.some_inj]
      rw [hskip, bit_congr hiff, ← bit_eq_of_boolean ((hflags cached hcached).1 i)]

variable {signers : Fin shape.nInputs → Fr} {signed : Fin shape.nOutputs → Prop}

theorem constrainSlot_eq_some {i : Fin shape.nInputs}
    (hskip : t.skipInclusion i = none ∧ ¬ t.IsCached i ∨ t.skipInclusion i = some (bit (t.IsCached i)))
    {result : (Fr × Fr) × Fr} : t.constrainSlot poseidon signers (bit (t.inputFlags.val % 2 = 1))
        (bitsOf (1 + treeIndexBits * shape.nInputs) t.inputFlags.val) i = some result ↔
      (t.inputFlags.val % 2 = 0 → ((t.inputs i).utxo.domain ≠ utxoDomain ↔ t.nullifiers i = 0)) ∧
      ∃ (tree : Fin inputTrees) (utxoHash ownNullifier : Fr),
        ((t.inputs i).treeSlot = (tree.val : Fr) ∧ tree.val = treeIndexOf t.inputFlags i ∧
          (t.cachedInputs = none → (t.treeSlots tree).utxoRoot ≠ 0) ∧ (t.treeSlots tree).nullifierRoot ≠ 0) ∧
        SatisfiedInput poseidon (t.inputs i) (t.nullifiers i) (signers i) (t.treeSlots tree)
          (t.skipInclusion i) (t.nullifiers i = 0) (t.IsCached i) utxoHash ownNullifier ∧
        result = ((if (t.inputs i).utxo.domain = utxoDomain then utxoHash else 0,
          if (t.inputs i).utxo.domain = addressDomain then t.nullifiers i else 0), (t.treeSlots tree).id) := by
  have hsmall : ∀ k, k < 8 → k < fieldModulus := fun k hk =>
    hk.trans (by norm_num [fieldModulus])
  have hindex : ∀ tree : Fin inputTrees,
      ((tree.val : Fr) = (treeIndexOf t.inputFlags i : Fr) ↔ tree.val = treeIndexOf t.inputFlags i) := by
    intro tree
    refine ⟨fun h => ?_, congrArg Nat.cast⟩
    rw [← val_natCast_of_lt (hsmall tree.val (tree.isLt.trans (by decide))), h,
      val_natCast_of_lt (hsmall _ (treeIndexOf_lt _ _))]
  have hroot : ∀ tree : Fin inputTrees, (t.cachedInputs.isNone = true → (t.treeSlots tree).utxoRoot ≠ 0) ↔
      (t.cachedInputs = none → (t.treeSlots tree).utxoRoot ≠ 0) := by
    intro tree
    rw [Option.isNone_iff_eq_none]
  rw [constrainSlot]
  simp only [UtxoCircuitFields.isUtxo_eq, compactSlots, isZero, one_sub_bit, bind_unit_eq_some,
    assertIsEqual_eq_some, bit_mul_eq_zero, sub_eq_zero, bit_inj, publishedTreeIndex_eq i.isLt,
    Nat.mod_two_ne_one]
  refine and_congr_right fun _ => ?_
  constructor
  · rintro ⟨htreeIndex, h⟩
    obtain ⟨tree, htree, h⟩ := of_bind_some h
    obtain ⟨k, hslot, rfl, hutxoRoot, hnullifierRoot⟩ := selectTreeSlot_eq_some.mp htree
    obtain ⟨hashes, hhashes, h⟩ := of_bind_some h
    obtain ⟨utxoHash, ownNullifier, hsatisfied, rfl⟩ := (constrainInput_eq_some hskip).mp hhashes
    refine ⟨k, utxoHash, ownNullifier, ⟨hslot, ?_, (hroot k).mp hutxoRoot, hnullifierRoot⟩, hsatisfied,
      (Option.some.inj h).symm⟩
    rw [← hindex, ← hslot, htreeIndex]
  · rintro ⟨k, utxoHash, ownNullifier, ⟨hslot, htreeIndex, hutxoRoot, hnullifierRoot⟩, hsatisfied, rfl⟩
    refine ⟨by rw [hslot, htreeIndex], ?_⟩
    rw [bind_of_eq_some (selectTreeSlot_eq_some.mpr ⟨k, hslot, rfl, (hroot k).mpr hutxoRoot, hnullifierRoot⟩),
      bind_of_eq_some ((constrainInput_eq_some hskip).mpr ⟨utxoHash, ownNullifier, hsatisfied, rfl⟩)]
    rfl

theorem constrainOutputSlot_eq_some [∀ i, Decidable (signed i)] {firstNullifier seed result : Fr}
    {i : Fin shape.nOutputs} :
    t.constrainOutputSlot poseidon firstNullifier seed (fun i => bit (signed i)) i = some result ↔
      deriveOutputBlinding poseidon firstNullifier seed i = some (t.outputs i).blinding ∧
      ∃ outputHash, SatisfiedOutput poseidon (t.outputs i) (t.outputHashes i) t.outputTreeId
          (t.outputHashes i = 0) (signed i) outputHash ∧
        result = if (t.outputs i).domain = utxoDomain then outputHash else 0 := by
  rw [constrainOutputSlot]
  constructor
  · intro h
    obtain ⟨blinding, hblinding, h⟩ := of_bind_some h
    obtain ⟨heq, h⟩ := of_bind_unit h
    rw [← assertIsEqual_eq_some.mp heq] at hblinding
    exact ⟨hblinding, constrainOutput_eq_some.mp h⟩
  · rintro ⟨hblinding, h⟩
    rw [bind_of_eq_some hblinding]
    exact bind_unit_eq_some.mpr ⟨assertIsEqual_eq_some.mpr rfl, constrainOutput_eq_some.mpr h⟩

theorem prepareCached_eq_some : t.prepareCached = some () ↔ ∀ cached, t.cachedInputs = some cached →
    (∀ i, cached.isCached i = 0 ∨ cached.isCached i = 1) ∧ cached.treeId.val < 2 ^ 16 := by
  unfold prepareCached
  cases t.cachedInputs with
  | none => exact iff_of_true rfl nofun
  | some cached =>
      rw [CachedInputs.prepare_eq_some]
      exact ⟨fun h _ heq => Option.some.inj heq ▸ h, fun h => h cached rfl⟩

theorem constrainCached_eq_some {inputHashes treeIds : Fin shape.nInputs → Fr}
    (hflags : ∀ cached, t.cachedInputs = some cached →
      (∀ i, cached.isCached i = 0 ∨ cached.isCached i = 1) ∧ cached.treeId.val < 2 ^ 16) :
    t.constrainCached poseidon inputHashes treeIds = some () ↔
      ∀ cached, t.cachedInputs = some cached → cached.Satisfied poseidon t.inputs inputHashes treeIds := by
  unfold constrainCached
  cases hcached : t.cachedInputs with
  | none => exact iff_of_true rfl nofun
  | some cached =>
      rw [CachedInputs.constrain_eq_some (hflags cached hcached).1]
      exact ⟨fun h _ heq => Option.some.inj heq ▸ h, fun h => h cached rfl⟩

theorem constrain_eq_some [∀ i, Decidable (signed i)] :
    t.constrain poseidon signers (fun i => bit (signed i)) = some () ↔ ∃ tree utxoHash ownNullifier outputHash,
        t.Satisfied poseidon signers signed tree utxoHash ownNullifier outputHash := by
  have hbit : (bitsOf (1 + treeIndexBits * shape.nInputs) t.inputFlags.val : List Fr)[0]? =
      some (bit (t.inputFlags.val % 2 = 1)) := by
    rw [getElem?_bitsOf (by omega), pow_zero, Nat.div_one]
  rw [constrain, bind_unit_eq_some, prepareCached_eq_some]
  constructor
  · rintro ⟨hflags, h⟩
    obtain ⟨flagBits, hflagBits, h⟩ := of_bind_some h
    obtain ⟨hflagsLt, rfl⟩ := toBinary_eq_some.mp hflagBits
    rw [bind_of_eq_some hbit] at h
    obtain ⟨slots, hslots, h⟩ := of_bind_some h
    rw [each_eq_some] at hslots
    have hround := fun i => (constrainSlot_eq_some (skipInclusion_cases hflags i)).mp (hslots i)
    choose tree utxoHash ownNullifier htree hslot hresult using fun i => (hround i).2
    have hhashes : (fun i => (slots i).1.1) =
        fun i => if (t.inputs i).utxo.domain = utxoDomain then utxoHash i else 0 := by
      funext i
      rw [hresult i]
    have haddresses : (fun i => (slots i).1.2) =
        fun i => if (t.inputs i).utxo.domain = addressDomain then t.nullifiers i else 0 := by
      funext i
      rw [hresult i]
    have htreeIds : (fun i => (slots i).2) = fun i => (t.treeSlots (tree i)).id := by
      funext i
      rw [hresult i]
    rw [hhashes, haddresses, htreeIds] at h
    simp only [bind_unit_eq_some, constrainCached_eq_some hflags, assertDistinctNullifiers_eq_some,
      assertIsDifferent_eq_some] at h
    obtain ⟨hcache, hdistinct, hordered, hfirst, h⟩ := h
    obtain ⟨seed, hseed, h⟩ := of_bind_some h
    obtain ⟨outputs, houtputs, h⟩ := of_bind_some h
    rw [each_eq_some] at houtputs
    have houtput := fun i => constrainOutputSlot_eq_some.mp (houtputs i)
    choose outputHash houtputSlot houtputResult using fun i => (houtput i).2
    have houtputHashes : outputs = fun i => if (t.outputs i).domain = utxoDomain then outputHash i else 0 :=
      funext houtputResult
    rw [houtputHashes] at h
    simp only [bind_unit_eq_some] at h
    obtain ⟨houtputsOrdered, hbalance, h⟩ := h
    obtain ⟨blinding, hblinding, h⟩ := of_bind_some h
    obtain ⟨privateTxHash, hprivate, h⟩ := of_bind_some h
    obtain ⟨heq, h⟩ := of_bind_unit h
    rw [assertIsEqual_eq_some.mp heq] at hprivate
    obtain ⟨publicInputHash, hpublic, h⟩ := of_bind_some h
    rw [← assertIsEqual_eq_some.mp h] at hpublic
    exact ⟨tree, utxoHash, ownNullifier, outputHash, hflags, hflagsLt, fun heven i => (hround i).1 heven, htree,
      hslot, hcache, hdistinct, hordered, hfirst, ⟨seed, hseed, fun i => ⟨(houtput i).1, houtputSlot i⟩⟩,
      houtputsOrdered, hbalance, ⟨blinding, hblinding, hprivate⟩, hpublic⟩
  · rintro ⟨tree, utxoHash, ownNullifier, outputHash, h⟩
    obtain ⟨seed, hseed, houtputs⟩ := h.outputSlot
    obtain ⟨blinding, hblinding, hprivate⟩ := h.privateTxHash_eq
    have hslots := fun i => (constrainSlot_eq_some (skipInclusion_cases h.cacheFlags i)).mpr
      ⟨fun heven => h.allowDummy heven i, tree i, utxoHash i, ownNullifier i, h.tree_eq i, h.slot i, rfl⟩
    have houtputSlots := fun i => constrainOutputSlot_eq_some.mpr
      ⟨(houtputs i).1, outputHash i, (houtputs i).2, rfl⟩
    refine ⟨h.cacheFlags, ?_⟩
    rw [bind_of_eq_some (toBinary_eq_some.mpr ⟨h.flags_lt, rfl⟩), bind_of_eq_some hbit,
      bind_of_eq_some (each_eq_some.mpr hslots)]
    simp only [bind_unit_eq_some, constrainCached_eq_some h.cacheFlags, assertDistinctNullifiers_eq_some,
      assertIsDifferent_eq_some]
    refine ⟨h.cache, h.distinct, h.inputsOrdered, h.first_ne, ?_⟩
    rw [bind_of_eq_some hseed, bind_of_eq_some (each_eq_some.mpr houtputSlots)]
    simp only [bind_unit_eq_some]
    refine ⟨h.outputsOrdered, h.balance, ?_⟩
    rw [bind_of_eq_some hblinding, bind_of_eq_some hprivate, bind_unit_eq_some,
      bind_of_eq_some h.publicInputHash_eq]
    exact ⟨assertIsEqual_eq_some.mpr rfl, assertIsEqual_eq_some.mpr rfl⟩

/-- The commitment of a real input is in its tree, or in the cache where the input says so. -/
theorem Satisfied.included_or_cached {tree : Fin shape.nInputs → Fin inputTrees}
    {utxoHash ownNullifier : Fin shape.nInputs → Fr} {outputHash : Fin shape.nOutputs → Fr}
    (h : t.Satisfied poseidon signers signed tree utxoHash ownNullifier outputHash)
    {i : Fin shape.nInputs} (hutxo : (t.inputs i).utxo.domain = utxoDomain) :
    (t.treeSlots (tree i)).utxoRoot ≠ 0 ∧ Opens poseidon (utxoHash i) (t.inputs i).statePathIndex
      (t.inputs i).statePathElements (t.treeSlots (tree i)).utxoRoot ∨
    ∃ cached, t.cachedInputs = some cached ∧ cached.isCached i = 1 ∧
      rightHashChain4 poseidon (List.ofFn cached.readHashes) = some cached.readHashChain ∧
      utxoHash i ∈ List.ofFn cached.readHashes ∧ (t.treeSlots (tree i)).id = cached.treeId := by
  by_cases hcached : t.IsCached i
  · right
    obtain ⟨cached, hsome, hone⟩ := Option.map_eq_some_iff.mp hcached
    have hcache := h.cache cached hsome
    obtain ⟨k, -, hread⟩ := hcache.read i
    obtain ⟨-, htreeId, -, hhash⟩ := hread hone
    rw [if_pos hutxo] at hhash
    exact ⟨cached, hsome, hone, hcache.chain, List.mem_ofFn.mpr ⟨k, hhash.symm⟩, htreeId⟩
  · left
    obtain ⟨root, hopens, hroot⟩ := (h.slot i).included
    rw [hroot hutxo hcached] at hopens
    refine ⟨?_, hopens⟩
    cases hnone : t.cachedInputs with
    | none => exact (h.tree_eq i).2.2.1 hnone
    | some cached =>
        refine (h.slot i).root_ne ?_ hutxo hcached
        rw [skipInclusion, hnone, Option.map_some]
        exact Option.some_ne_none _

end Transaction

end Zolana.Circuits
