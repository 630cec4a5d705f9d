import Zolana.Proof.CircuitSlots

/-!
# What a satisfied merge says

The statement that the two merge circuits share, with the slots read through `SatisfiedInput` and the output
through `SatisfiedOutput`. The nullifier of the first slot enters what the other slots derive, so the context
of a slot depends on its index.
-/

namespace Zolana.Circuits.Merge

open Gates

namespace Transaction

variable {poseidon : Poseidon} {n : InputCount} (t : Transaction n)

def firstNullifier : Fr := t.common.nullifiers ⟨0, n.pos⟩

def slotContext (ownerHash asset : Fr) (i : Fin n.count) : MergeInputContext :=
  { t.context ownerHash asset with firstNullifier := if i.val = 0 then 0 else t.firstNullifier }

def inputUtxo (ownerHash asset : Fr) (i : Fin n.count) : UtxoCircuitFields :=
  (t.inputs i).utxo (t.context ownerHash asset)

def outputUtxo (ownerHash asset amount blinding : Fr) : UtxoCircuitFields where
  domain := utxoDomain
  owner := ownerHash
  asset
  amount
  blinding
  dataHash := 0
  ringDataHash := t.output.ringDataHash
  ringProgramId := t.ringProgramId

structure Satisfied (poseidon : Poseidon) (ownerHash asset outputBlinding outputHash : Fr)
    (tree : Fin n.count → Fin inputTrees) (utxoHash nullifier : Fin n.count → Fr) : Prop where
  owner_eq : poseidon [t.ownerPkHash, t.userNullifierPk] = some ownerHash
  asset_eq : hashChain poseidon (List.ofFn t.mintChunks) = some asset
  nullifierPk_eq : poseidon [t.userNullifierSecret] = some t.userNullifierPk
  allowDummyInputs : t.common.allowDummyInputs = 0 ∨ t.common.allowDummyInputs = 1
  dummies : t.common.allowDummyInputs = 0 →
    ∀ i, (t.inputs i).domain = dummyDomain ↔ t.common.nullifiers i = 0
  first : (t.inputs ⟨0, n.pos⟩).domain = utxoDomain
  tree_eq : ∀ i, (t.inputs i).treeSlot = ((tree i).val : Fr) ∧
    (t.common.treeSlots (tree i)).utxoRoot ≠ 0 ∧ (t.common.treeSlots (tree i)).nullifierRoot ≠ 0
  slot : ∀ i, SatisfiedInput poseidon (t.inputs i) (t.slotContext ownerHash asset i)
    (t.common.treeSlots (tree i)) i (t.common.nullifiers i = 0) (utxoHash i) (nullifier i)
  published : ∀ i, t.common.nullifiers i ≠ 0 → t.common.nullifiers i = nullifier i
  distinct : ∀ i j, i < j → t.common.nullifiers i ≠ 0 → t.common.nullifiers i ≠ t.common.nullifiers j
  outputBlinding_eq : mergeOutputBlinding poseidon t.userNullifierSecret t.firstNullifier = some outputBlinding
  amount_lt : (∑ i, (t.inputs i).amount).val < 2 ^ amountBits
  output : SatisfiedOutput poseidon
    (t.outputUtxo ownerHash asset (∑ i, (t.inputs i).amount) outputBlinding) t.common.outputHash
    t.common.outputTreeId False False outputHash
  privateTxHash_eq : ∃ blinding, derivePrivateTxBlinding poseidon t.firstNullifier t.userNullifierSecret =
      some blinding ∧
    privateTxHashCircuit poseidon
      (List.ofFn fun i => if (t.inputs i).domain = dummyDomain then 0 else utxoHash i) [outputHash] [] blinding =
        some t.common.privateTxHash

variable {t}

theorem constrainSlot_eq_some {ctx : MergeInputContext} {i : Fin n.count} {result : Fr × Fr} :
    t.constrainSlot poseidon ctx i = some result ↔ ∃ (tree : Fin inputTrees) (utxoHash nullifier : Fr),
      ((t.inputs i).treeSlot = (tree.val : Fr) ∧ (t.common.treeSlots tree).utxoRoot ≠ 0 ∧
        (t.common.treeSlots tree).nullifierRoot ≠ 0) ∧
      SatisfiedInput poseidon (t.inputs i) ctx (t.common.treeSlots tree) i (t.common.nullifiers i = 0)
        utxoHash nullifier ∧
      result = (if (t.inputs i).domain = dummyDomain then 0 else utxoHash,
        if t.common.nullifiers i = 0 then 0 else nullifier) := by
  rw [constrainSlot]
  constructor
  · intro h
    obtain ⟨tree, htree, h⟩ := of_bind_some h
    obtain ⟨k, hslot, rfl, -, hnullifierRoot⟩ := selectTreeSlot_eq_some.mp htree
    obtain ⟨hutxoRoot, h⟩ := of_bind_unit h
    obtain ⟨utxoHash, nullifier, hsatisfied, hresult⟩ := constrainInput_eq_some.mp h
    exact ⟨k, utxoHash, nullifier, ⟨hslot, assertIsDifferent_eq_some.mp hutxoRoot, hnullifierRoot⟩, hsatisfied,
      hresult⟩
  · rintro ⟨k, utxoHash, nullifier, ⟨hslot, hutxoRoot, hnullifierRoot⟩, hsatisfied, hresult⟩
    rw [bind_of_eq_some (selectTreeSlot_eq_some.mpr ⟨k, hslot, rfl, Bool.noConfusion, hnullifierRoot⟩)]
    exact bind_unit_eq_some.mpr ⟨assertIsDifferent_eq_some.mpr hutxoRoot,
      constrainInput_eq_some.mpr ⟨utxoHash, nullifier, hsatisfied, hresult⟩⟩

theorem constrainSlots_eq_some {ctx : MergeInputContext} {slots : Fin n.count → Fr × Fr} :
    t.constrainSlots poseidon ctx = some slots ↔ ∀ i, t.constrainSlot poseidon
      { ctx with firstNullifier := if i.val = 0 then ctx.firstNullifier else (slots ⟨0, n.pos⟩).2 } i =
        some (slots i) := by
  rw [constrainSlots]
  constructor
  · intro h i
    obtain ⟨first, hfirst, h⟩ := of_bind_some h
    rw [each_eq_some] at h
    obtain rfl : first = slots ⟨0, n.pos⟩ := Option.some.inj (h ⟨0, n.pos⟩)
    by_cases hi : i.val = 0
    · obtain rfl : i = ⟨0, n.pos⟩ := Fin.ext hi
      exact hfirst
    · have hslot := h i
      simp only [if_neg hi] at hslot ⊢
      exact hslot
  · intro h
    have hfirst : t.constrainSlot poseidon ctx ⟨0, n.pos⟩ = some (slots ⟨0, n.pos⟩) := h ⟨0, n.pos⟩
    rw [bind_of_eq_some hfirst, each_eq_some]
    intro i
    by_cases hi : i.val = 0
    · obtain rfl : i = ⟨0, n.pos⟩ := Fin.ext hi
      rfl
    · have hslot := h i
      simp only [if_neg hi] at hslot ⊢
      exact hslot

theorem constrainOutput_eq_some {ownerHash asset amount blinding result : Fr} :
    constrainOutput poseidon t.output t.common.outputHash blinding ownerHash asset amount t.ringProgramId
        t.common.outputTreeId = some result ↔ amount.val < 2 ^ amountBits ∧
      SatisfiedOutput poseidon (t.outputUtxo ownerHash asset amount blinding) t.common.outputHash
        t.common.outputTreeId False False result := by
  have hfalse : (0 : Fr) = bit False := (bit_of_neg id).symm
  rw [constrainOutput, bind_unit_eq_some, rangeCheck64_eq_some, hfalse, Circuits.constrainOutput_eq_some,
    ← hfalse]
  refine and_congr_right fun _ => ⟨?_, fun h => ⟨result, h, (if_pos rfl).symm⟩⟩
  rintro ⟨utxoHash, h, rfl⟩
  exact h

theorem dummies_iff (hallow : t.common.allowDummyInputs = 0 ∨ t.common.allowDummyInputs = 1) :
    (∀ i, (1 - t.common.allowDummyInputs) * (isZero ((t.inputs i).domain - dummyDomain) - t.isCompact i) = 0) ↔
      (t.common.allowDummyInputs = 0 → ∀ i, (t.inputs i).domain = dummyDomain ↔ t.common.nullifiers i = 0) := by
  rcases hallow with hallow | hallow
  · rw [hallow, forall_prop_of_true rfl]
    refine forall_congr' fun i => ?_
    rw [sub_zero, one_mul, sub_eq_zero, isZero_sub, isCompact, compactSlots, isZero, bit_inj]
  · rw [hallow]
    simp

theorem constrain_eq_some {derived : Derived} : t.constrain poseidon = some derived ↔
    (∃ ownerHash asset outputBlinding outputHash tree utxoHash nullifier,
      t.Satisfied poseidon ownerHash asset outputBlinding outputHash tree utxoHash nullifier) ∧
    derived = ⟨∑ i, (t.inputs i).amount, t.firstNullifier⟩ := by
  rw [constrain]
  constructor
  · intro h
    obtain ⟨ownerHash, howner, h⟩ := of_bind_some h
    obtain ⟨asset, hasset, h⟩ := of_bind_some h
    obtain ⟨nullifierPk, hnullifierPk, h⟩ := of_bind_some h
    simp only [bind_unit_eq_some, assertIsEqual_eq_some, assertIsBoolean_eq_some, forEach_eq_some] at h
    obtain ⟨rfl, hallow, hdummies, hfirst, h⟩ := h
    obtain ⟨slots, hslots, h⟩ := of_bind_some h
    obtain ⟨hdistinct, h⟩ := of_bind_unit h
    obtain ⟨outputBlinding, hblinding, h⟩ := of_bind_some h
    obtain ⟨outputHash, houtput, h⟩ := of_bind_some h
    obtain ⟨blinding, htxBlinding, h⟩ := of_bind_some h
    obtain ⟨privateTxHash, hprivateTxHash, h⟩ := of_bind_some h
    simp only [bind_unit_eq_some, assertIsEqual_eq_some, forEach_eq_some] at h
    obtain ⟨rfl, hpublished, h⟩ := h
    have hnullifiers : (fun i => (slots i).2) = t.common.nullifiers := funext fun i => (hpublished i).symm
    have hfirstNullifier : (slots ⟨0, n.pos⟩).2 = t.firstNullifier := congrFun hnullifiers ⟨0, n.pos⟩
    rw [constrainSlots_eq_some, hfirstNullifier] at hslots
    rw [hnullifiers] at hdistinct
    rw [hfirstNullifier] at hblinding htxBlinding h
    choose tree utxoHash nullifier htree hslot hresult using fun i => constrainSlot_eq_some.mp (hslots i)
    obtain ⟨hamount, houtput⟩ := constrainOutput_eq_some.mp houtput
    have hhashes : (fun i => (slots i).1) =
        fun i => if (t.inputs i).domain = dummyDomain then 0 else utxoHash i := by
      funext i
      rw [hresult i]
    rw [hhashes] at hprivateTxHash
    refine ⟨⟨ownerHash, asset, outputBlinding, outputHash, tree, utxoHash, nullifier, howner, hasset,
      hnullifierPk, hallow, (dummies_iff hallow).mp hdummies, hfirst, htree, hslot, ?_,
      assertDistinctNullifiers_eq_some.mp hdistinct, hblinding, hamount, houtput, blinding, htxBlinding,
      hprivateTxHash⟩, (Option.some.inj h).symm⟩
    intro i hi
    have hsecond := congrArg Prod.snd (hresult i)
    rw [← hpublished i, if_neg hi] at hsecond
    exact hsecond
  · rintro ⟨⟨ownerHash, asset, outputBlinding, outputHash, tree, utxoHash, nullifier, h⟩, rfl⟩
    obtain ⟨blinding, htxBlinding, hprivateTxHash⟩ := h.privateTxHash_eq
    rw [bind_of_eq_some h.owner_eq, bind_of_eq_some h.asset_eq, bind_of_eq_some h.nullifierPk_eq]
    simp only [bind_unit_eq_some, assertIsEqual_eq_some, assertIsBoolean_eq_some, forEach_eq_some]
    refine ⟨trivial, h.allowDummyInputs, (dummies_iff h.allowDummyInputs).mpr h.dummies, h.first, ?_⟩
    have hslots : t.constrainSlots poseidon (t.context ownerHash asset) = some fun i =>
        (if (t.inputs i).domain = dummyDomain then 0 else utxoHash i, t.common.nullifiers i) := by
      rw [constrainSlots_eq_some]
      intro i
      refine constrainSlot_eq_some.mpr ⟨tree i, utxoHash i, nullifier i, h.tree_eq i, h.slot i, ?_⟩
      by_cases hi : t.common.nullifiers i = 0
      · rw [if_pos hi, hi]
      · rw [if_neg hi, ← h.published i hi]
    rw [bind_of_eq_some hslots, bind_unit_eq_some]
    refine ⟨assertDistinctNullifiers_eq_some.mpr h.distinct, ?_⟩
    have hblinding := h.outputBlinding_eq
    unfold firstNullifier at hblinding htxBlinding
    rw [bind_of_eq_some hblinding,
      bind_of_eq_some (constrainOutput_eq_some.mpr ⟨h.amount_lt, h.output⟩), bind_of_eq_some htxBlinding,
      bind_of_eq_some hprivateTxHash, bind_unit_eq_some, bind_unit_eq_some, forEach_eq_some]
    exact ⟨assertIsEqual_eq_some.mpr rfl, fun i => assertIsEqual_eq_some.mpr rfl, rfl⟩

end Transaction

theorem Circuit.define_eq_some {poseidon : Poseidon} {n : InputCount} {c : Circuit n} :
    c.define poseidon = some () ↔
      ((∀ i, (c.inputs i).domain = utxoDomain → (c.inputs i).ringDataHash = 0) ∧ c.output.ringDataHash = 0) ∧
      (∃ ownerHash asset outputBlinding outputHash tree utxoHash nullifier, c.transaction.Satisfied poseidon
        ownerHash asset outputBlinding outputHash tree utxoHash nullifier) ∧
      c.userSigningPkHash = c.ownerPkHash ∧
      ∃ fields ciphertext, c.common.preimage poseidon = some fields ∧
        mergeOutputCiphertext poseidon c.userNullifierSecret c.transaction.firstNullifier
          c.outputCiphertextSalt (∑ i, (c.inputs i).amount) c.mintChunks = some ciphertext ∧
        hashChain4 poseidon (fields ++ [c.userSigningPkHash, c.userNullifierPk] ++
          c.outputCiphertextSalt :: List.ofFn ciphertext) = some c.publicInputHash := by
  rw [Circuit.define, assertDefaultRing, bind_unit_eq_some, bind_unit_eq_some, forEach_eq_some,
    assertIsEqual_eq_some]
  simp only [isZero_sub, assertZeroWhen_eq_some]
  refine and_congr Iff.rfl ?_
  constructor
  · intro h
    obtain ⟨derived, hderived, h⟩ := of_bind_some h
    obtain ⟨hsatisfied, rfl⟩ := Transaction.constrain_eq_some.mp hderived
    obtain ⟨hsigning, h⟩ := of_bind_unit h
    obtain ⟨fields, hfields, h⟩ := of_bind_some h
    obtain ⟨encryption, hencryption, h⟩ := of_bind_some h
    obtain ⟨ciphertext, hciphertext, hencryption⟩ := of_bind_some hencryption
    obtain rfl := Option.some.inj hencryption
    obtain ⟨hash, hhash, h⟩ := of_bind_some h
    rw [← assertIsEqual_eq_some.mp h] at hhash
    exact ⟨hsatisfied, assertIsEqual_eq_some.mp hsigning, fields, ciphertext, hfields, hciphertext, hhash⟩
  · rintro ⟨hsatisfied, hsigning, fields, ciphertext, hfields, hciphertext, hhash⟩
    have hencryption : c.outputEncryption poseidon ⟨∑ i, (c.inputs i).amount, c.transaction.firstNullifier⟩ =
        some (c.outputCiphertextSalt :: List.ofFn ciphertext) := bind_of_eq_some hciphertext
    rw [bind_of_eq_some (Transaction.constrain_eq_some.mpr ⟨hsatisfied, rfl⟩), bind_unit_eq_some,
      bind_of_eq_some hfields]
    refine ⟨assertIsEqual_eq_some.mpr hsigning, ?_⟩
    exact (bind_of_eq_some hencryption).trans ((bind_of_eq_some hhash).trans (assertIsEqual_eq_some.mpr rfl))

end Zolana.Circuits.Merge
