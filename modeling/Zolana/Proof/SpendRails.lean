import Zolana.Proof.Owners
import Zolana.Proof.SpendCircuit

/-!
# What a satisfied rail says

Every rail builds its transaction from the same witness and hands it signers and, for each output, whether its
owner signed.
-/

namespace Zolana.Circuits

open Gates

namespace RailWitness

variable {shape : Shape} (w : RailWitness shape)

def Proves (poseidon : Poseidon) (cachedInputs : Option (CachedInputs shape.nInputs)) (ringProgramId : Fr)
    (preimageAfterPrivateTxHash preimageTail : List Fr) (signers : Fin shape.nInputs → Fr)
    (signed : Fin shape.nOutputs → Prop) : Prop :=
  ∃ chain tree utxoHash ownNullifier outputHash, rightHashChain poseidon w.signerPkHashes = some chain ∧
    (w.toTransaction cachedInputs ringProgramId chain preimageAfterPrivateTxHash preimageTail).Satisfied poseidon
      signers signed tree utxoHash ownNullifier outputHash

variable {w} {poseidon : Poseidon} {cachedInputs : Option (CachedInputs shape.nInputs)} {ringProgramId : Fr}
  {preimageAfterPrivateTxHash preimageTail : List Fr}

theorem transaction_eq_some {t : Transaction shape} :
    w.transaction poseidon cachedInputs ringProgramId preimageAfterPrivateTxHash preimageTail = some t ↔
      ∃ chain, rightHashChain poseidon w.signerPkHashes = some chain ∧
        t = w.toTransaction cachedInputs ringProgramId chain preimageAfterPrivateTxHash preimageTail := by
  rw [transaction]
  constructor
  · intro h
    obtain ⟨chain, hchain, h⟩ := of_bind_some h
    exact ⟨chain, hchain, (Option.some.inj h).symm⟩
  · rintro ⟨chain, hchain, rfl⟩
    exact bind_of_eq_some hchain

theorem proves_iff {signers : Fin shape.nInputs → Fr} {identities : Fin shape.nOutputs → Fr}
    {authorized : List Fr} :
    w.Proves poseidon cachedInputs ringProgramId preimageAfterPrivateTxHash preimageTail signers
        (fun i => identities i ∈ authorized ∧ identities i ≠ 0) ↔
      ∃ t, w.transaction poseidon cachedInputs ringProgramId preimageAfterPrivateTxHash preimageTail = some t ∧
        t.constrain poseidon signers (containsEach authorized identities) = some () := by
  simp only [transaction_eq_some, containsEach_eq, Transaction.constrain_eq_some, Proves]
  constructor
  · rintro ⟨chain, tree, utxoHash, ownNullifier, outputHash, hchain, h⟩
    exact ⟨_, ⟨chain, hchain, rfl⟩, tree, utxoHash, ownNullifier, outputHash, h⟩
  · rintro ⟨t, ⟨chain, hchain, rfl⟩, tree, utxoHash, ownNullifier, outputHash, h⟩
    exact ⟨chain, tree, utxoHash, ownNullifier, outputHash, hchain, h⟩

theorem validateSigners_eq_some {width : Int} :
    w.validateSigners width = some () ↔ (w.signerPkHashes.length : Int) = width := assertIsEqual_eq_some

end RailWitness

/-! ### The rails -/

section Rails

variable {env : CircuitEnv} {shape : Shape}

structure DefaultRingConfidentialEddsaCircuit.Satisfied (env : CircuitEnv)
    (c : DefaultRingConfidentialEddsaCircuit shape) : Prop where
  width : (c.signerPkHashes.length : Int) = shape.signerWidth
  ring : InDefaultRing c.inputs c.outputs
  owners : OwnersAuthorized c.inputs c.inputOwnerPkHashes c.signerPkHashes
  tagged : OwnersTagged env.poseidon c.outputs c.outputOwnerPkHashes c.outputNullifierPks
  dummies : DummyTags c.outputs c.outputHashes c.outputOwnerPkHashes c.signerPkHashes
  transaction : ∃ ownerChain, rightHashChain4 env.poseidon (List.ofFn c.outputOwnerPkHashes) = some ownerChain ∧
    c.Proves env.poseidon (some c.cachedInputs) 0 [] [ownerChain] (contentOwners c.inputs c.inputOwnerPkHashes)
      fun i => c.outputOwnerPkHashes i ∈ c.signerPkHashes ∧ c.outputOwnerPkHashes i ≠ 0

theorem DefaultRingConfidentialEddsaCircuit.satisfied_of_define {c : DefaultRingConfidentialEddsaCircuit shape}
    (h : c.define env = some ()) : c.Satisfied env := by
  obtain ⟨t, ht, h⟩ := of_bind_some h
  obtain ⟨ownerChain, hownerChain, ht⟩ := of_bind_some ht
  obtain ⟨hwidth, h⟩ := of_bind_unit h
  obtain ⟨hring, h⟩ := of_bind_unit h
  obtain ⟨signers, hsigners, h⟩ := of_bind_some h
  obtain ⟨howners, rfl⟩ := authorizedEddsaInputOwners_eq_some.mp hsigners
  obtain ⟨htagged, h⟩ := of_bind_unit h
  obtain ⟨hdummies, h⟩ := of_bind_unit h
  exact ⟨RailWitness.validateSigners_eq_some.mp hwidth, assertInDefaultRing_eq_some.mp hring, howners,
    assertOutputOwnerTags_eq_some.mp htagged, assertDummyTags_eq_some.mp hdummies, ownerChain, hownerChain,
    RailWitness.proves_iff.mpr ⟨t, ht, h⟩⟩

/-- What the default rail with signatures in the circuit asserts, for the owners of its keys. -/
structure DefaultRingConfidentialInCircuitEddsaCircuit.Satisfied (env : CircuitEnv)
    (c : DefaultRingConfidentialInCircuitEddsaCircuit shape) (owners : Fin c.nSigners → Fr) : Prop where
  signatures : ∀ i, ∃ messageHash, ownerAuthorization env c.messageHashLow c.messageHashHigh (c.ownerPublicKeys i)
    (c.ownerSignatures i) = some (owners i, messageHash)
  width : (c.signerPkHashes.length : Int) = shape.signerWidth
  ring : InDefaultRing c.inputs c.outputs
  authorized : OwnersAuthorized c.inputs c.inputOwnerPkHashes (c.signerPkHashes ++ List.ofFn owners)
  tagged : OwnersTagged env.poseidon c.outputs c.outputOwnerPkHashes c.outputNullifierPks
  dummies : DummyTags c.outputs c.outputHashes c.outputOwnerPkHashes (c.signerPkHashes ++ List.ofFn owners)
  transaction : ∃ messageHash signedChain ownerChain,
    hashBoundedBytes env.poseidon (messageBytes c.messageHashLow c.messageHashHigh) = some messageHash ∧
    rightHashChain4 env.poseidon (List.ofFn owners) = some signedChain ∧
    rightHashChain4 env.poseidon (List.ofFn c.outputOwnerPkHashes) = some ownerChain ∧
    c.Proves env.poseidon (some c.cachedInputs) 0 [messageHash, signedChain] [ownerChain]
      (contentOwners c.inputs c.inputOwnerPkHashes)
      fun i => c.outputOwnerPkHashes i ∈ c.signerPkHashes ++ List.ofFn owners ∧ c.outputOwnerPkHashes i ≠ 0

theorem DefaultRingConfidentialInCircuitEddsaCircuit.satisfied_of_define
    {c : DefaultRingConfidentialInCircuitEddsaCircuit shape} (h : c.define env = some ()) :
    ∃ owners, c.Satisfied env owners := by
  obtain ⟨authorizations, hauthorizations, h⟩ := of_bind_some h
  have hsigned := each_eq_some.mp hauthorizations
  obtain ⟨t, ht, h⟩ := of_bind_some h
  obtain ⟨signedChain, hsignedChain, ht⟩ := of_bind_some ht
  obtain ⟨ownerChain, hownerChain, ht⟩ := of_bind_some ht
  obtain ⟨hwidth, h⟩ := of_bind_unit h
  obtain ⟨hring, h⟩ := of_bind_unit h
  obtain ⟨signers, hsigners, h⟩ := of_bind_some h
  obtain ⟨howners, rfl⟩ := authorizedEddsaInputOwners_eq_some.mp hsigners
  obtain ⟨htagged, h⟩ := of_bind_unit h
  obtain ⟨hdummies, h⟩ := of_bind_unit h
  obtain ⟨-, -, -, hmessage⟩ := ownerAuthorization_eq_some.mp (hsigned ⟨c.nSigners - 1, _⟩)
  exact ⟨fun i => (authorizations i).1, fun i => ⟨(authorizations i).2, hsigned i⟩,
    RailWitness.validateSigners_eq_some.mp hwidth, assertInDefaultRing_eq_some.mp hring, howners,
    assertOutputOwnerTags_eq_some.mp htagged, assertDummyTags_eq_some.mp hdummies, _, signedChain, ownerChain,
    hmessage, hsignedChain, hownerChain, RailWitness.proves_iff.mpr ⟨t, ht, h⟩⟩

structure CustomRingConfidentialEddsaCircuit.Satisfied (env : CircuitEnv)
    (c : CustomRingConfidentialEddsaCircuit shape) : Prop where
  width : (c.signerPkHashes.length : Int) = shape.signerWidth
  ring_ne : c.ringProgramId ≠ 0
  ring : RingMembers c.inputs c.outputs c.ringProgramId true
  tagged : OwnersTagged env.poseidon c.outputs c.outputOwnerPkHashes c.outputNullifierPks
  owners : OwnersAuthorized c.inputs c.inputOwnerPkHashes c.signerPkHashes
  masked : OwnersMasked c.outputs c.outputOwnerPkHashes c.publishedOutputOwnerPkHashes
  dummies : MaskedDummyTags c.outputs c.outputHashes c.publishedOutputOwnerPkHashes c.signerPkHashes
  transaction : ∃ ownerChain,
    rightHashChain4 env.poseidon (List.ofFn c.publishedOutputOwnerPkHashes) = some ownerChain ∧
    c.Proves env.poseidon (some c.cachedInputs) c.ringProgramId [] [ownerChain]
      (contentOwners c.inputs c.inputOwnerPkHashes)
      fun i => c.outputOwnerPkHashes i ∈ c.signerPkHashes ∧ c.outputOwnerPkHashes i ≠ 0

theorem CustomRingConfidentialEddsaCircuit.satisfied_of_define {c : CustomRingConfidentialEddsaCircuit shape}
    (h : c.define env = some ()) : c.Satisfied env := by
  obtain ⟨t, ht, h⟩ := of_bind_some h
  obtain ⟨ownerChain, hownerChain, ht⟩ := of_bind_some ht
  obtain ⟨hwidth, h⟩ := of_bind_unit h
  obtain ⟨hring, h⟩ := of_bind_unit h
  obtain ⟨hringNe, h⟩ := of_bind_unit h
  have hne := assertIsDifferent_eq_some.mp hringNe
  obtain ⟨htagged, h⟩ := of_bind_unit h
  obtain ⟨signers, hsigners, h⟩ := of_bind_some h
  obtain ⟨howners, rfl⟩ := authorizedEddsaInputOwners_eq_some.mp hsigners
  obtain ⟨hmasked, h⟩ := of_bind_unit h
  obtain ⟨hdummies, h⟩ := of_bind_unit h
  exact ⟨RailWitness.validateSigners_eq_some.mp hwidth, hne, (assertRingMembership_eq_some fun _ => hne).mp hring,
    assertOutputOwnerTags_eq_some.mp htagged, howners, assertPublishedOutputOwners_eq_some.mp hmasked,
    assertMaskedDummyOutputTags_eq_some.mp hdummies, ownerChain, hownerChain,
    RailWitness.proves_iff.mpr ⟨t, ht, h⟩⟩

/-- What the anonymous rail of a ring asserts, for the owner of its key. -/
structure CustomRingAnonymousEddsaCircuit.Satisfied (env : CircuitEnv)
    (c : CustomRingAnonymousEddsaCircuit shape) (hidden messageHash : Fr) : Prop where
  signature : ownerAuthorization env c.messageHashLow c.messageHashHigh c.ownerPublicKey c.ownerSignature =
    some (hidden, messageHash)
  width : (c.signerPkHashes.length : Int) = shape.signerWidth
  ring_ne : c.ringProgramId ≠ 0
  ring : RingMembers c.inputs c.outputs c.ringProgramId true
  tagged : OwnersTagged env.poseidon c.outputs c.outputOwnerPkHashes c.outputNullifierPks
  hidden_not_signer : hidden ∉ c.signerPkHashes
  owners : HiddenOwnersAuthorized c.inputs c.inputOwnerPkHashes c.signerPkHashes hidden
  kept : HiddenOwnerKept c.inputs c.inputOwnerPkHashes c.publishedOutputOwnerPkHashes hidden c.defaultOwnerPkHash
  masked : OwnersMasked c.outputs c.outputOwnerPkHashes c.publishedOutputOwnerPkHashes
  dummies : MaskedDummyTags c.outputs c.outputHashes c.publishedOutputOwnerPkHashes
    (c.signerPkHashes ++ [c.defaultOwnerPkHash])
  transaction : ∃ ownerChain,
    rightHashChain4 env.poseidon (List.ofFn c.publishedOutputOwnerPkHashes) = some ownerChain ∧
    c.Proves env.poseidon (some c.cachedInputs) c.ringProgramId [messageHash, c.defaultOwnerPkHash] [ownerChain]
      (contentOwners c.inputs (ownerOrHidden c.inputOwnerPkHashes hidden))
      fun i => c.outputOwnerPkHashes i ∈ c.signerPkHashes ++ [hidden] ∧ c.outputOwnerPkHashes i ≠ 0

theorem Shape.nInputs_lt_fieldModulus (shape : Shape) : shape.nInputs < fieldModulus :=
  shape.nInputs_lt.trans (two_pow_lt_fieldModulus (by decide))

theorem CustomRingAnonymousEddsaCircuit.define_eq_some {c : CustomRingAnonymousEddsaCircuit shape} :
    c.define env = some () ↔ ∃ hidden messageHash, c.Satisfied env hidden messageHash := by
  have hn := shape.nInputs_lt_fieldModulus
  have hdiffer : ∀ hidden, (c.signerPkHashes.forM fun signer => assertIsDifferent signer hidden) = some () ↔
      hidden ∉ c.signerPkHashes := by
    intro hidden
    simp only [forM_eq_some, assertIsDifferent_eq_some]
    exact ⟨fun h hmem => h hidden hmem rfl, fun h signer hmem heq => h (heq ▸ hmem)⟩
  rw [define]
  constructor
  · intro h
    obtain ⟨⟨hidden, messageHash⟩, hsignature, h⟩ := of_bind_some h
    obtain ⟨t, ht, h⟩ := of_bind_some h
    obtain ⟨ownerChain, hownerChain, ht⟩ := of_bind_some ht
    obtain ⟨hwidth, h⟩ := of_bind_unit h
    obtain ⟨hring, h⟩ := of_bind_unit h
    obtain ⟨hringNe, h⟩ := of_bind_unit h
    have hne := assertIsDifferent_eq_some.mp hringNe
    obtain ⟨htagged, h⟩ := of_bind_unit h
    obtain ⟨hsigner, h⟩ := of_bind_unit h
    obtain ⟨signers, hsigners, h⟩ := of_bind_some h
    obtain ⟨howners, rfl⟩ := (hiddenOwnerSigners_eq_some hn).mp hsigners
    obtain ⟨hkept, h⟩ := of_bind_unit h
    obtain ⟨hmasked, h⟩ := of_bind_unit h
    obtain ⟨hdummies, h⟩ := of_bind_unit h
    exact ⟨hidden, messageHash, hsignature, RailWitness.validateSigners_eq_some.mp hwidth, hne,
      (assertRingMembership_eq_some fun _ => hne).mp hring, assertOutputOwnerTags_eq_some.mp htagged,
      (hdiffer hidden).mp hsigner, howners, (assertDefaultHiddenOwner_eq_some hn).mp hkept,
      assertPublishedOutputOwners_eq_some.mp hmasked, assertMaskedDummyOutputTags_eq_some.mp hdummies, ownerChain,
      hownerChain, RailWitness.proves_iff.mpr ⟨t, ht, h⟩⟩
  · rintro ⟨hidden, messageHash, h⟩
    obtain ⟨ownerChain, hownerChain, hproves⟩ := h.transaction
    obtain ⟨t, ht, hconstrain⟩ := RailWitness.proves_iff.mp hproves
    have hnew : c.newTransaction env messageHash = some t := (bind_of_eq_some hownerChain).trans ht
    rw [bind_of_eq_some h.signature]
    dsimp only
    rw [bind_of_eq_some hnew, bind_unit_eq_some, bind_unit_eq_some, bind_unit_eq_some, bind_unit_eq_some,
      bind_unit_eq_some, bind_of_eq_some ((hiddenOwnerSigners_eq_some hn).mpr ⟨h.owners, rfl⟩), bind_unit_eq_some,
      bind_unit_eq_some, bind_unit_eq_some]
    exact ⟨RailWitness.validateSigners_eq_some.mpr h.width,
      (assertRingMembership_eq_some fun _ => h.ring_ne).mpr h.ring, assertIsDifferent_eq_some.mpr h.ring_ne,
      assertOutputOwnerTags_eq_some.mpr h.tagged, (hdiffer hidden).mpr h.hidden_not_signer,
      (assertDefaultHiddenOwner_eq_some hn).mpr h.kept, assertPublishedOutputOwners_eq_some.mpr h.masked,
      assertMaskedDummyOutputTags_eq_some.mpr h.dummies, hconstrain⟩

structure CustomRingAuthorityCircuit.Satisfied (env : CircuitEnv) (c : CustomRingAuthorityCircuit shape) :
    Prop where
  width : (c.signerPkHashes.length : Int) = 1
  no_address : ∀ i, (c.inputs i).utxo.domain ≠ addressDomain
  ring_ne : c.ringProgramId ≠ 0
  ring : RingMembers c.inputs c.outputs c.ringProgramId false
  owners : ∀ i, (c.inputs i).utxo.domain ≠ dummyDomain → c.inputOwnerPkHashes i ≠ 0
  transaction : c.Proves env.poseidon none c.ringProgramId [] [] (contentOwners c.inputs c.inputOwnerPkHashes)
    fun i => (c.outputs i).owner ∈ List.ofFn (signerOwners c.inputs) ∧ (c.outputs i).owner ≠ 0

theorem CustomRingAuthorityCircuit.satisfied_of_define {c : CustomRingAuthorityCircuit shape}
    (h : c.define env = some ()) : c.Satisfied env := by
  obtain ⟨t, ht, h⟩ := of_bind_some h
  obtain ⟨hwidth, h⟩ := of_bind_unit h
  obtain ⟨haddress, h⟩ := of_bind_unit h
  obtain ⟨hring, h⟩ := of_bind_unit h
  obtain ⟨hringNe, h⟩ := of_bind_unit h
  obtain ⟨signers, hsigners, h⟩ := of_bind_some h
  obtain ⟨howners, rfl⟩ := confidentialEddsaSigners_eq_some.mp hsigners
  rw [forEach_eq_some] at haddress
  rw [assertRingMember, assertRingMembership_eq_some Bool.noConfusion] at hring
  exact ⟨RailWitness.validateSigners_eq_some.mp hwidth, fun i => assertIsDifferent_eq_some.mp (haddress i),
    assertIsDifferent_eq_some.mp hringNe, hring, howners,
    RailWitness.proves_iff.mpr ⟨t, ht, h⟩⟩

end Rails

namespace SpendCircuit

variable {env : CircuitEnv} {shape : Shape} {c : SpendCircuit shape}

/-- Every rail ends in the transaction of its witness. -/
theorem proves_of_define (h : c.define env = some ()) : ∃ ringProgramId after tail signers signed,
      c.witness.Proves env.poseidon c.cachedInputs ringProgramId after tail signers signed := by
  cases c with
  | defaultConfidential c =>
      obtain ⟨ownerChain, -, hproves⟩ := (DefaultRingConfidentialEddsaCircuit.satisfied_of_define h).transaction
      exact ⟨_, _, _, _, _, hproves⟩
  | defaultInCircuitEddsa c =>
      obtain ⟨owners, h⟩ := DefaultRingConfidentialInCircuitEddsaCircuit.satisfied_of_define h
      obtain ⟨messageHash, signedChain, ownerChain, -, -, -, hproves⟩ := h.transaction
      exact ⟨_, _, _, _, _, hproves⟩
  | customConfidential c =>
      obtain ⟨ownerChain, -, hproves⟩ := (CustomRingConfidentialEddsaCircuit.satisfied_of_define h).transaction
      exact ⟨_, _, _, _, _, hproves⟩
  | customAnonymous c =>
      obtain ⟨hidden, messageHash, h⟩ := CustomRingAnonymousEddsaCircuit.define_eq_some.mp h
      obtain ⟨ownerChain, -, hproves⟩ := h.transaction
      exact ⟨_, _, _, _, _, hproves⟩
  | ringAuthority c => exact ⟨_, _, _, _, _, (CustomRingAuthorityCircuit.satisfied_of_define h).transaction⟩

theorem satisfied_of_define (h : c.define env = some ()) :
    ∃ ringProgramId chain after tail signers signed tree utxoHash ownNullifier outputHash,
      (c.witness.toTransaction c.cachedInputs ringProgramId chain after tail).Satisfied env.poseidon signers signed
        tree utxoHash ownNullifier outputHash := by
  obtain ⟨ringProgramId, after, tail, signers, signed, chain, tree, utxoHash, ownNullifier, outputHash, -, h⟩ :=
    proves_of_define h
  exact ⟨ringProgramId, chain, after, tail, signers, signed, tree, utxoHash, ownNullifier, outputHash, h⟩

end SpendCircuit

end Zolana.Circuits
