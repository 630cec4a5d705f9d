import Zolana.Properties.MergeCircuit

/-!
# One nullifier for a commitment

The circuits derive nullifiers in three ways: of a utxo, of padding or an address of a spend, and of padding of
a merge. The commitment holds the domain of its slot and the hash of its owner, and the owner's hash holds the
nullifier secret, so across all circuits a commitment has one nullifier and nothing else has it.
-/

namespace Zolana

open Circuits Merge

namespace Circuits

inductive PoolCircuit where
  | spend {shape : Shape} (circuit : SpendCircuit shape)
  | merge {n : InputCount} (circuit : MergeCircuit n)

namespace PoolCircuit

def define (env : CircuitEnv) : PoolCircuit → Option Unit
  | spend circuit => circuit.define env
  | merge circuit => circuit.define env.poseidon

/-- An input slot of a circuit: the utxo in it, the id of the tree it selects and what it publishes, which is
zero for a compact slot. -/
inductive Slot (poseidon : Poseidon) : PoolCircuit → UtxoCircuitFields → (treeId nullifier : Fr) → Prop
  | spend {shape : Shape} (c : SpendCircuit shape) (i : Fin shape.nInputs) (k : Fin inputTrees)
      (hk : (c.witness.inputs i).treeSlot = (k.val : Fr)) :
      Slot poseidon (.spend c) (c.witness.inputs i).utxo (c.witness.treeSlots k).id (c.witness.nullifiers i)
  | merge {n : InputCount} (c : MergeCircuit n) (i : Fin n.count) (k : Fin inputTrees)
      (hk : (c.transaction.inputs i).treeSlot = (k.val : Fr)) (ownerHash asset : Fr)
      (howner : poseidon [c.transaction.ownerPkHash, c.transaction.userNullifierPk] = some ownerHash)
      (hasset : hashChain poseidon (List.ofFn c.transaction.mintChunks) = some asset) :
      Slot poseidon (.merge c) (c.transaction.inputUtxo ownerHash asset i) (c.transaction.common.treeSlots k).id
        (c.transaction.common.nullifiers i)

end PoolCircuit

def IsNullifierOf (poseidon : Poseidon) (u : UtxoCircuitFields) (treeId secret nullifier : Fr) : Prop :=
  ∃ hash, utxoHashCircuit poseidon u treeId = some hash ∧
    nullifierCircuit poseidon hash u.blinding secret = some nullifier

structure SlotPublishes (poseidon : Poseidon) (u : UtxoCircuitFields) (treeId nullifier : Fr) : Prop where
  kind : u.domain = utxoDomain ∨ u.domain = addressDomain ∨ u.domain = dummyDomain
  dummy_of_compact : nullifier = 0 → u.domain = dummyDomain
  utxo : u.domain = utxoDomain → ∃ ownerKey nullifierPk secret, poseidon [secret] = some nullifierPk ∧
    poseidon [ownerKey, nullifierPk] = some u.owner ∧ IsNullifierOf poseidon u treeId secret nullifier
  address : u.domain = addressDomain → ∃ secret, IsNullifierOf poseidon u treeId secret nullifier
  dummy : u.domain = dummyDomain → nullifier ≠ 0 →
    (∃ secret, IsNullifierOf poseidon u treeId secret nullifier) ∨
      ∃ secret first index, poseidon [mergeDummyNullifierDomain, secret, first, index] = some nullifier

namespace PoolCircuit

variable {env : CircuitEnv} {u : UtxoCircuitFields} {treeId nullifier : Fr}

theorem slotPublishes_spend {shape : Shape} {c : SpendCircuit shape} (hdefine : c.define env = some ())
    {i : Fin shape.nInputs} {k : Fin inputTrees} (hk : (c.witness.inputs i).treeSlot = (k.val : Fr)) :
    SlotPublishes env.poseidon (c.witness.inputs i).utxo (c.witness.treeSlots k).id (c.witness.nullifiers i) := by
  obtain ⟨_, _, _, _, signers, _, tree, utxoHash, ownNullifier, _, h⟩ := SpendCircuit.satisfied_of_define hdefine
  obtain rfl : k = tree i := Gates.natCast_fin_inj inputTrees_le (hk.symm.trans (h.tree_eq i).1)
  have hslot := h.slot i
  have hnullifier : c.witness.nullifiers i ≠ 0 → IsNullifierOf env.poseidon (c.witness.inputs i).utxo
      (c.witness.treeSlots (tree i)).id (c.witness.inputs i).nullifierSecret (c.witness.nullifiers i) := by
    intro hne
    exact ⟨utxoHash i, hslot.digest, hslot.nullifier_eq.trans (congrArg some (hslot.published hne))⟩
  refine ⟨hslot.kind, hslot.dummy_of_compact, fun hutxo => ?_, fun haddress => ?_, fun _ hne => .inl ⟨_, hnullifier hne⟩⟩
  · obtain ⟨nullifierPk, ownerHash, hpk, hownerHash, howner⟩ := hslot.owner_eq
    rw [howner (ne_dummyDomain_of_utxo hutxo)] at hownerHash
    exact ⟨signers i, nullifierPk, _, hpk, hownerHash,
      hnullifier fun hzero => ne_dummyDomain_of_utxo hutxo (hslot.dummy_of_compact hzero)⟩
  · exact ⟨_, hnullifier fun hzero => ne_dummyDomain_of_address haddress (hslot.dummy_of_compact hzero)⟩

theorem slotPublishes_merge {n : InputCount} {c : MergeCircuit n} (hdefine : c.define env.poseidon = some ())
    {i : Fin n.count} {k : Fin inputTrees} (hk : (c.transaction.inputs i).treeSlot = (k.val : Fr))
    {ownerHash asset : Fr}
    (howner : env.poseidon [c.transaction.ownerPkHash, c.transaction.userNullifierPk] = some ownerHash)
    (hasset : hashChain env.poseidon (List.ofFn c.transaction.mintChunks) = some asset) :
    SlotPublishes env.poseidon (c.transaction.inputUtxo ownerHash asset i) (c.transaction.common.treeSlots k).id
      (c.transaction.common.nullifiers i) := by
  obtain ⟨derived, hconstrain⟩ := MergeCircuit.constrain_of_define hdefine
  obtain ⟨⟨ownerHash', asset', _, _, tree, utxoHash, ownNullifier, h⟩, -⟩ :=
    Merge.Transaction.constrain_eq_some.mp hconstrain
  obtain rfl := Option.some.inj (howner.symm.trans h.owner_eq)
  obtain rfl := Option.some.inj (hasset.symm.trans h.asset_eq)
  obtain rfl : k = tree i := Gates.natCast_fin_inj inputTrees_le (hk.symm.trans (h.tree_eq i).1)
  have hkind := (h.slot i).kind
  refine ⟨hkind.imp_right .inr, (h.slot i).dummy_of_compact, fun hutxo => ?_, fun haddress => ?_, fun hdummy hne => ?_⟩
  · have hne := ne_dummyDomain_of_utxo hutxo
    have hdigest := (h.slot i).digest
    have hownerField : (c.transaction.inputUtxo ownerHash asset i).owner = ownerHash := by
      rw [Merge.Transaction.inputUtxo, Merge.Input.utxo_eq]
      exact if_neg hne
    rw [hownerField]
    exact ⟨_, _, c.transaction.userNullifierSecret, h.nullifierPk_eq, howner, utxoHash i, hdigest,
      h.nullifier_of_utxo hutxo⟩
  · rcases hkind with hutxo | hdummy
    · exact absurd haddress (ne_addressDomain_of_utxo hutxo)
    · exact absurd hdummy (ne_dummyDomain_of_address haddress)
  · obtain ⟨_, dummyNullifier, -, hderived, hnullifier⟩ := (h.slot i).nullifiers
    rw [h.published i hne, hnullifier.trans (if_pos hdummy)]
    exact .inr ⟨_, _, _, hderived⟩

theorem slotPublishes {c : PoolCircuit} (hdefine : c.define env = some ())
    (hslot : c.Slot env.poseidon u treeId nullifier) : SlotPublishes env.poseidon u treeId nullifier := by
  cases hslot with
  | spend c i k hk => exact slotPublishes_spend hdefine hk
  | merge c i k hk ownerHash asset howner hasset => exact slotPublishes_merge hdefine hk howner hasset

end PoolCircuit

section Nullifiers

variable {poseidon : Poseidon} (hfree : poseidon.CollisionFree) {u u' : UtxoCircuitFields}
  {treeId treeId' secret secret' nullifier : Fr}

include hfree

theorem IsNullifierOf.inj (h : IsNullifierOf poseidon u treeId secret nullifier)
    (h' : IsNullifierOf poseidon u' treeId' secret' nullifier) : u = u' ∧ treeId = treeId' ∧ secret = secret' := by
  obtain ⟨hash, hdigest, hnullifier⟩ := h
  obtain ⟨hash', hdigest', hnullifier'⟩ := h'
  have hinputs := hfree _ _ _ hnullifier hnullifier'
  simp only [List.cons.injEq, and_true] at hinputs
  obtain ⟨rfl, -, hsecret⟩ := hinputs
  obtain ⟨hutxo, htreeId⟩ := utxoHashCircuit_inj hfree hdigest hdigest'
  exact ⟨hutxo, htreeId, hsecret⟩

theorem IsNullifierOf.not_merge (h : IsNullifierOf poseidon u treeId secret nullifier) {domain first index : Fr}
    (hmerge : poseidon [domain, secret', first, index] = some nullifier) : False := by
  obtain ⟨hash, -, hnullifier⟩ := h
  have hinputs := hfree _ _ _ hnullifier hmerge
  simp at hinputs

end Nullifiers

end Circuits

/-- Across circuits, shapes and trees: a real commitment has one nullifier, which is never zero; a slot that is
not a real utxo publishes no nullifier of a real utxo; an address and padding never publish the same. Padding
that publishes zero is compact and publishes nothing. -/
theorem one_nullifier_per_commitment {env : CircuitEnv} (hfree : env.poseidon.CollisionFree) :
    (∀ (c c' : PoolCircuit) (u u' : UtxoCircuitFields) (treeId treeId' nullifier nullifier' hash : Fr),
      c.define env = some () → c'.define env = some () →
      c.Slot env.poseidon u treeId nullifier → c'.Slot env.poseidon u' treeId' nullifier' →
      u.domain = utxoDomain → u'.domain = utxoDomain →
      utxoHashCircuit env.poseidon u treeId = some hash → utxoHashCircuit env.poseidon u' treeId' = some hash →
      nullifier = nullifier' ∧ nullifier ≠ 0) ∧
    (∀ (c : PoolCircuit) (u : UtxoCircuitFields) (treeId nullifier : Fr), c.define env = some () →
      c.Slot env.poseidon u treeId nullifier → u.domain ≠ utxoDomain → nullifier ≠ 0 →
      ∀ (real : UtxoCircuitFields) (realTreeId secret hash : Fr), real.domain = utxoDomain →
        utxoHashCircuit env.poseidon real realTreeId = some hash →
        env.poseidon [hash, real.blinding, secret] ≠ some nullifier) ∧
    ∀ (c c' : PoolCircuit) (u u' : UtxoCircuitFields) (treeId treeId' nullifier nullifier' : Fr),
      c.define env = some () → c'.define env = some () →
      c.Slot env.poseidon u treeId nullifier → c'.Slot env.poseidon u' treeId' nullifier' →
      u.domain = addressDomain → u'.domain = dummyDomain → nullifier ≠ nullifier' := by
  refine ⟨?_, ?_, ?_⟩
  · intro c c' u u' treeId treeId' nullifier nullifier' hash hdefine hdefine' hslot hslot' hutxo hutxo' hhash hhash'
    have hpublishes := PoolCircuit.slotPublishes hdefine hslot
    obtain ⟨rfl, rfl⟩ := utxoHashCircuit_inj hfree hhash hhash'
    obtain ⟨ownerKey, nullifierPk, secret, hpk, howner, digest, hdigest, hnullifier⟩ := hpublishes.utxo hutxo
    obtain ⟨ownerKey', nullifierPk', secret', hpk', howner', digest', hdigest', hnullifier'⟩ :=
      (PoolCircuit.slotPublishes hdefine' hslot').utxo hutxo
    -- the owner's hash holds the key of the secret, and the key holds the secret
    have hkeys := hfree _ _ _ howner howner'
    simp only [List.cons.injEq, and_true] at hkeys
    obtain ⟨-, rfl⟩ := hkeys
    have hsecrets := hfree _ _ _ hpk hpk'
    simp only [List.cons.injEq, and_true] at hsecrets
    obtain rfl := hsecrets
    obtain rfl := Option.some.inj (hdigest.symm.trans hdigest')
    exact ⟨Option.some.inj (hnullifier.symm.trans hnullifier'),
      fun hzero => ne_dummyDomain_of_utxo hutxo (hpublishes.dummy_of_compact hzero)⟩
  · intro c u treeId nullifier hdefine hslot hother hne real realTreeId secret hash hreal hhash hnullifier
    have hpublishes := PoolCircuit.slotPublishes hdefine hslot
    have hof : IsNullifierOf env.poseidon real realTreeId secret nullifier := ⟨hash, hhash, hnullifier⟩
    have hslotNot : ∀ secret', ¬ IsNullifierOf env.poseidon u treeId secret' nullifier := by
      intro secret' hpadding
      exact hother ((hpadding.inj hfree hof).1 ▸ hreal)
    rcases hpublishes.kind with hutxo | haddress | hdummy
    · exact hother hutxo
    · obtain ⟨secret', hpadding⟩ := hpublishes.address haddress
      exact hslotNot secret' hpadding
    · rcases hpublishes.dummy hdummy hne with ⟨secret', hpadding⟩ | ⟨secret', first, index, hmerge⟩
      · exact hslotNot secret' hpadding
      · exact hof.not_merge hfree hmerge
  · intro c c' u u' treeId treeId' nullifier nullifier' hdefine hdefine' hslot hslot' haddress hdummy heq
    subst heq
    have hpublishes := PoolCircuit.slotPublishes hdefine hslot
    have hne : nullifier ≠ 0 := fun hzero => ne_dummyDomain_of_address haddress (hpublishes.dummy_of_compact hzero)
    obtain ⟨secret, hof⟩ := hpublishes.address haddress
    rcases (PoolCircuit.slotPublishes hdefine' hslot').dummy hdummy hne with ⟨secret', hpadding⟩ | ⟨_, _, _, hmerge⟩
    · obtain ⟨rfl, -⟩ := hof.inj hfree hpadding
      exact ne_dummyDomain_of_address haddress hdummy
    · exact hof.not_merge hfree hmerge

/-- The hidden spend once more, with other external data. -/
def hiddenSpendAgain : CustomRingAnonymousEddsaCircuit threeInTwoOut :=
  { hiddenSpend false with
    externalDataHash := (25 : Nat)
    publicInputHash := (152 : Nat) }

theorem define_hiddenSpendAgain : hiddenSpendAgain.define (hiddenSpendEnv false) = some () := by
  refine CustomRingAnonymousEddsaCircuit.define_eq_some.mpr
    ⟨100, 401, { rail_hiddenSpend false with transaction := ⟨139, by decide +kernel, ?_⟩ }⟩
  change hiddenSpendAgain.Proves _ _ _ _ _ (contentOwners (hiddenSpend false).inputs
    (ownerOrHidden (hiddenSpend false).inputOwnerPkHashes 100)) _
  rw [contentOwners_hiddenSpend]
  exact ⟨136, _, _, _, _, by decide +kernel,
    { satisfied_hiddenSpend false _ with publicInputHash_eq := by decide +kernel }⟩

/-- Two spends of a utxo, each with an address and padding. -/
theorem one_nullifier_per_commitment_hidden :
    (hiddenSpend false).externalDataHash ≠ hiddenSpendAgain.externalDataHash ∧
    ((hiddenSpend false).nullifiers ⟨0, Nat.succ_pos _⟩ = hiddenSpendAgain.nullifiers ⟨0, Nat.succ_pos _⟩ ∧
      (hiddenSpend false).nullifiers ⟨0, Nat.succ_pos _⟩ ≠ 0) ∧
    Poseidon.ofNatLog (hiddenSpendDigests false) [107, 21, 12] ≠ some 113 ∧ (113 : Fr) ≠ 114 := by
  have hslot : ∀ i : Fin threeInTwoOut.nInputs,
      (PoolCircuit.spend (.customAnonymous (hiddenSpend false))).Slot (hiddenSpendEnv false).poseidon
        (hiddenSpendInput false i) (7 : Nat) (slotValues [112, 113, 114] i) :=
    fun i => .spend (.customAnonymous (hiddenSpend false)) i ⟨0, Nat.succ_pos _⟩ Nat.cast_zero.symm
  have hagain : ∀ i : Fin threeInTwoOut.nInputs,
      (PoolCircuit.spend (.customAnonymous hiddenSpendAgain)).Slot (hiddenSpendEnv false).poseidon
        (hiddenSpendInput false i) (7 : Nat) (slotValues [112, 113, 114] i) :=
    fun i => .spend (.customAnonymous hiddenSpendAgain) i ⟨0, Nat.succ_pos _⟩ Nat.cast_zero.symm
  have hdefine : (PoolCircuit.spend (.customAnonymous (hiddenSpend false))).define (hiddenSpendEnv false) = some () :=
    define_hiddenSpend false
  have hdefine' : (PoolCircuit.spend (.customAnonymous hiddenSpendAgain)).define (hiddenSpendEnv false) = some () :=
    define_hiddenSpendAgain
  have hhash : utxoHashCircuit (hiddenSpendEnv false).poseidon (hiddenSpendInput false 0) (7 : Nat) = some 107 := by
    decide +kernel
  have hunique := @one_nullifier_per_commitment (hiddenSpendEnv false) (Poseidon.collisionFree_ofNatLog _)
  exact ⟨by decide +kernel, hunique.1 _ _ _ _ _ _ _ _ _ hdefine hdefine' (hslot ⟨0, Nat.succ_pos _⟩)
      (hagain ⟨0, Nat.succ_pos _⟩) rfl rfl hhash hhash,
    hunique.2.1 _ _ _ _ hdefine (hslot ⟨1, Nat.lt_of_sub_eq_succ rfl⟩) (by decide +kernel) (by decide +kernel) _ _ 12 _ rfl
      hhash,
    hunique.2.2 _ _ _ _ _ _ _ _ hdefine hdefine' (hslot ⟨1, Nat.lt_of_sub_eq_succ rfl⟩)
      (hagain ⟨2, Nat.lt_of_sub_eq_succ rfl⟩) rfl rfl⟩

end Zolana
