import Zolana.Proof.Binding
import Zolana.Proof.Transcript
import Zolana.Properties.SpendCircuit

/-!
# Who authorises a spend

On the rails that owners sign, every input with content has an owner among the signers of the transaction or
of a signature in the witness. The anonymous rail hides that second owner: a spend in a ring publishes it nowhere.
-/

namespace Zolana

open Circuits

namespace Circuits.SpendCircuit

variable {shape : Shape}

inductive Holds : SpendCircuit shape → (publicKey : Fin 32 → Fr) → (signature : Fin 64 → Fr) → (message : List Fr) → Prop
  | inCircuit (c : DefaultRingConfidentialInCircuitEddsaCircuit shape) (i : Fin c.nSigners) :
      Holds (.defaultInCircuitEddsa c) (c.ownerPublicKeys i) (c.ownerSignatures i)
        (messageBytes c.messageHashLow c.messageHashHigh)
  | anonymous (c : CustomRingAnonymousEddsaCircuit shape) :
      Holds (.customAnonymous c) c.ownerPublicKey c.ownerSignature (messageBytes c.messageHashLow c.messageHashHigh)

/-- The circuit publishes the hash of a message: it is in the preimage of the public input. -/
def PublishesMessage (env : CircuitEnv) (c : SpendCircuit shape) (message : List Fr) : Prop :=
  ∃ messageHash ringProgramId chain after tail, hashBoundedBytes env.poseidon message = some messageHash ∧
    messageHash ∈ after ∧
    (c.witness.toTransaction c.cachedInputs ringProgramId chain after tail).publicInputHashCircuit env.poseidon =
      some c.witness.publicInputHash

/-- An identity that authorises: a signer of the transaction, or the owner of a key whose signature over the
published message verifies. -/
def Authorises (env : CircuitEnv) (c : SpendCircuit shape) (identity : Fr) : Prop :=
  identity ≠ 0 ∧ (identity ∈ c.witness.signerPkHashes ∨ ∃ publicKey signature message,
    c.Holds publicKey signature message ∧ c.PublishesMessage env message ∧
    env.verify publicKey signature message = true ∧
    solanaOwnerIdentityBounded env.poseidon publicKey = some identity)

end Circuits.SpendCircuit

namespace Circuits

variable {env : CircuitEnv} {shape : Shape} {w : RailWitness shape}
  {cachedInputs : Option (CachedInputs shape.nInputs)} {ringProgramId : Fr} {after tail : List Fr}
  {owners : Fin shape.nInputs → Fr} {identities nullifierPks : Fin shape.nOutputs → Fr} {authorized : List Fr}
  {signed : Fin shape.nOutputs → Prop}

theorem RailWitness.Proves.owner_eq
    (h : w.Proves env.poseidon cachedInputs ringProgramId after tail (contentOwners w.inputs owners) signed)
    {i : Fin shape.nInputs} (hcontent : (w.inputs i).utxo.domain ≠ dummyDomain) :
    ∃ nullifierPk, env.poseidon [(w.inputs i).nullifierSecret] = some nullifierPk ∧
      env.poseidon [owners i, nullifierPk] = some (w.inputs i).utxo.owner := by
  obtain ⟨chain, tree, utxoHash, ownNullifier, outputHash, -, h⟩ := h
  obtain ⟨nullifierPk, ownerHash, hpk, hownerHash, howner⟩ := (h.slot i).owner_eq
  rw [howner hcontent, contentOwners, if_neg hcontent] at hownerHash
  exact ⟨nullifierPk, hpk, hownerHash⟩

theorem RailWitness.Proves.owner_of_data
    (h : w.Proves env.poseidon cachedInputs ringProgramId after tail owners
      fun i => identities i ∈ authorized ∧ identities i ≠ 0)
    (htagged : OwnersTagged env.poseidon w.outputs identities nullifierPks) {i : Fin shape.nOutputs}
    (hutxo : (w.outputs i).domain = utxoDomain) (hdata : (w.outputs i).dataHash ≠ 0) :
    (identities i ∈ authorized ∧ identities i ≠ 0) ∧
      env.poseidon [identities i, nullifierPks i] = some (w.outputs i).owner := by
  obtain ⟨chain, tree, utxoHash, ownNullifier, outputHash, -, h⟩ := h
  obtain ⟨_, -, houtput⟩ := h.outputSlot
  obtain ⟨ownerHash, hownerHash, howner⟩ := htagged i
  rw [howner hutxo] at hownerHash
  exact ⟨(houtput i).2.signed_of_data hutxo hdata, hownerHash⟩

theorem RailWitness.Proves.publicInputHash_eq
    (h : w.Proves env.poseidon cachedInputs ringProgramId after tail owners signed) :
    ∃ chain, (w.toTransaction cachedInputs ringProgramId chain after tail).publicInputHashCircuit env.poseidon =
      some w.publicInputHash := by
  obtain ⟨chain, tree, utxoHash, ownNullifier, outputHash, -, h⟩ := h
  exact ⟨chain, h.publicInputHash_eq⟩

namespace SpendCircuit

variable {c : SpendCircuit shape}

/-- The owner of every input with content and of every output with data has authorised the spend. Padding that is
published has a tag of theirs, that of a real output or, where the rail masks the owners, none. -/
structure Authorised (env : CircuitEnv) (c : SpendCircuit shape) : Prop where
  inputs : ∀ i, (c.witness.inputs i).utxo.domain ≠ dummyDomain → ∃ owner nullifierPk, c.Authorises env owner ∧
    env.poseidon [(c.witness.inputs i).nullifierSecret] = some nullifierPk ∧
    env.poseidon [owner, nullifierPk] = some (c.witness.inputs i).utxo.owner
  data : ∀ i, (c.witness.outputs i).domain = utxoDomain → (c.witness.outputs i).dataHash ≠ 0 →
    ∃ owner nullifierPk, c.Authorises env owner ∧
      env.poseidon [owner, nullifierPk] = some (c.witness.outputs i).owner
  dummies : ∀ i, (c.witness.outputs i).domain = dummyDomain → c.witness.outputHashes i ≠ 0 →
    c.Authorises env (c.publishedTags i) ∨
    (c.publishedTags i ≠ 0 ∧ ∃ j, (c.witness.outputs j).domain = utxoDomain ∧
      c.publishedTags j = c.publishedTags i) ∨
    c.masksOwners = true ∧ c.publishedTags i = 0

theorem Authorised.of_proves (hauthorises : ∀ identity ∈ authorized, identity ≠ 0 → c.Authorises env identity)
    (howners : ∀ i, (c.witness.inputs i).utxo.domain ≠ dummyDomain → owners i ∈ authorized ∧ owners i ≠ 0)
    (htagged : OwnersTagged env.poseidon c.witness.outputs identities nullifierPks)
    (hdummies : ∀ i, (c.witness.outputs i).domain = dummyDomain → c.witness.outputHashes i ≠ 0 →
      c.publishedTags i ≠ 0 ∧ IsParticipant c.witness.outputs c.publishedTags authorized (c.publishedTags i) ∨
      c.masksOwners = true ∧ c.publishedTags i = 0)
    (hproves : c.witness.Proves env.poseidon cachedInputs ringProgramId after tail
      (contentOwners c.witness.inputs owners) fun i => identities i ∈ authorized ∧ identities i ≠ 0) :
    c.Authorised env where
  inputs i hcontent := by
    obtain ⟨nullifierPk, hpk, howner⟩ := hproves.owner_eq hcontent
    obtain ⟨hmem, hne⟩ := howners i hcontent
    exact ⟨owners i, nullifierPk, hauthorises _ hmem hne, hpk, howner⟩
  data i hutxo hdata := by
    obtain ⟨⟨hmem, hne⟩, howner⟩ := hproves.owner_of_data htagged hutxo hdata
    exact ⟨_, _, hauthorises _ hmem hne, howner⟩
  dummies i hdummy hhash := by
    rcases hdummies i hdummy hhash with ⟨hne, hmem | hreal⟩ | hmasked
    · exact .inl (hauthorises _ hmem hne)
    · exact .inr (.inl ⟨hne, hreal⟩)
    · exact .inr (.inr hmasked)

theorem authorises_of_signature {messageHashLow messageHashHigh identity messageHash : Fr}
    {publicKey : Fin 32 → Fr} {signature : Fin 64 → Fr}
    (hholds : c.Holds publicKey signature (messageBytes messageHashLow messageHashHigh))
    (hsigned : ownerAuthorization env messageHashLow messageHashHigh publicKey signature = some (identity, messageHash))
    (hproves : c.witness.Proves env.poseidon c.cachedInputs ringProgramId after tail owners signed)
    (hmem : messageHash ∈ after) (hne : identity ≠ 0) : c.Authorises env identity := by
  obtain ⟨-, hverify, hidentity, hmessage⟩ := ownerAuthorization_eq_some.mp hsigned
  obtain ⟨chain, hpublic⟩ := hproves.publicInputHash_eq
  exact ⟨hne, .inr ⟨_, _, _, hholds, ⟨messageHash, _, chain, _, _, hmessage, hmem, hpublic⟩, hverify, hidentity⟩⟩

theorem authorised_of_define (hdefine : c.define env = some ()) (hrail : c.isAuthority = false) :
    c.Authorised env := by
  cases c with
  | defaultConfidential c =>
      have h := DefaultRingConfidentialEddsaCircuit.satisfied_of_define hdefine
      obtain ⟨ownerChain, -, hproves⟩ := h.transaction
      exact .of_proves (fun identity hmem hne => ⟨hne, .inl hmem⟩) (fun i => (h.owners i).2) h.tagged
        (fun i hdummy hhash => .inl ((h.dummies i).2 hdummy hhash)) hproves
  | defaultInCircuitEddsa c =>
      obtain ⟨owners, h⟩ := DefaultRingConfidentialInCircuitEddsaCircuit.satisfied_of_define hdefine
      obtain ⟨messageHash, signedChain, ownerChain, hmessage, -, -, hproves⟩ := h.transaction
      refine .of_proves (fun identity hmem hne => ?_) (fun i => (h.authorized i).2) h.tagged
        (fun i hdummy hhash => .inl ((h.dummies i).2 hdummy hhash)) hproves
      rcases List.mem_append.mp hmem with hsigner | howner
      · exact ⟨hne, .inl hsigner⟩
      · obtain ⟨k, rfl⟩ := List.mem_ofFn.mp howner
        obtain ⟨messageHash', hsigned⟩ := h.signatures k
        obtain ⟨-, -, -, hmessage'⟩ := ownerAuthorization_eq_some.mp hsigned
        obtain rfl := Option.some.inj (hmessage.symm.trans hmessage')
        exact authorises_of_signature (.inCircuit c k) hsigned hproves (List.mem_cons_self ..) hne
  | customConfidential c =>
      have h := CustomRingConfidentialEddsaCircuit.satisfied_of_define hdefine
      obtain ⟨ownerChain, -, hproves⟩ := h.transaction
      refine .of_proves (fun identity hmem hne => ⟨hne, .inl hmem⟩) (fun i => (h.owners i).2) h.tagged
        (fun i hdummy _ => ?_) hproves
      by_cases hzero : c.publishedOutputOwnerPkHashes i = 0
      · exact .inr ⟨rfl, hzero⟩
      · exact .inl ⟨hzero, (h.dummies i).2 hdummy hzero⟩
  | customAnonymous c =>
      obtain ⟨hidden, messageHash, h⟩ := CustomRingAnonymousEddsaCircuit.define_eq_some.mp hdefine
      obtain ⟨ownerChain, -, hproves⟩ := h.transaction
      refine .of_proves (fun identity hmem hne => ?_) (fun i hcontent => ?_) h.tagged (fun i hdummy _ => ?_) hproves
      · rcases List.mem_append.mp hmem with hsigner | hhidden
        · exact ⟨hne, .inl hsigner⟩
        · obtain rfl := List.mem_singleton.mp hhidden
          exact authorises_of_signature (.anonymous c) h.signature hproves (List.mem_cons_self ..) hne
      · rw [ownerOrHidden]
        split
        case isTrue hzero =>
          exact ⟨List.mem_append_right _ (List.mem_singleton_self _), h.owners.hidden_ne i hcontent hzero⟩
        case isFalse hne => exact ⟨List.mem_append_left _ (h.owners.named i hcontent hne), hne⟩
      · by_cases hzero : c.publishedOutputOwnerPkHashes i = 0
        · exact .inr ⟨rfl, hzero⟩
        · refine .inl ⟨hzero, ?_⟩
          rcases (h.dummies i).2 hdummy hzero with hmem | hreal
          · left
            rcases List.mem_append.mp hmem with hsigner | hdefault
            · exact List.mem_append_left _ hsigner
            · -- a named default owner is the hidden one
              have htag := List.mem_singleton.mp hdefault
              rw [h.kept.1] at htag
              split at htag
              case isTrue => exact List.mem_append_right _ (List.mem_singleton.mpr htag)
              case isFalse => exact absurd htag hzero
          · exact .inr hreal
  | ringAuthority c => cases hrail

theorem verify_of_holds {publicKey : Fin 32 → Fr} {signature : Fin 64 → Fr} {message : List Fr}
    (hdefine : c.define env = some ()) (hholds : c.Holds publicKey signature message) :
    env.verify publicKey signature message = true := by
  cases hholds with
  | inCircuit c i =>
      obtain ⟨owners, h⟩ := DefaultRingConfidentialInCircuitEddsaCircuit.satisfied_of_define hdefine
      obtain ⟨_, hsignature⟩ := h.signatures i
      exact (ownerAuthorization_eq_some.mp hsignature).2.1
  | anonymous c =>
      obtain ⟨_, _, h⟩ := CustomRingAnonymousEddsaCircuit.define_eq_some.mp hdefine
      exact (ownerAuthorization_eq_some.mp h.signature).2.1

end SpendCircuit

end Circuits

theorem exists_of_mem_identities {hashv : Hashv} {tags : List Address} {hashes : List Bytes32} {hash : Bytes32}
    (h : List.Forall₂ (fun tag hash => solanaOwnerIdentity hashv tag = .ok hash) tags hashes) (hmem : hash ∈ hashes) :
    ∃ tag ∈ tags, solanaOwnerIdentity hashv tag = .ok hash := by
  induction h with
  | nil => cases hmem
  | cons hidentity _ ih =>
      rcases List.mem_cons.mp hmem with rfl | hlater
      · exact ⟨_, List.mem_cons_self .., hidentity⟩
      · obtain ⟨tag, htag, hidentity⟩ := ih hlater
        exact ⟨tag, List.mem_cons_of_mem _ htag, hidentity⟩

theorem mem_of_mem_firstOccurrences {seen addresses : List Address} {address : Address}
    (h : address ∈ firstOccurrences seen addresses) : address ∈ seen ∨ address ∈ addresses := by
  induction addresses generalizing seen with
  | nil => exact .inl h
  | cons first addresses ih =>
      rw [firstOccurrences, List.foldl_cons] at h
      rcases ih h with hseen | hlater
      · split at hseen
        case isTrue => exact .inl hseen
        case isFalse =>
          rcases List.mem_append.mp hseen with hseen | hfirst
          · exact .inl hseen
          · exact .inr (List.mem_cons.mpr (.inl (List.mem_singleton.mp hfirst)))
      · exact .inr (List.mem_cons_of_mem _ hlater)

theorem spend_authorization :
    (∀ (env : CircuitEnv) (shape : Shape) (c : SpendCircuit shape), c.define env = some () → c.isAuthority = false →
      c.Authorised env ∧ (env.VerifiesBytes → ∀ publicKey signature message, c.Holds publicKey signature message →
        ∃ owner : Address, publicKey = keyWires owner)) ∧
    -- the vector that the program assigns holds owner signers, whoever pays
    ∀ (hashv : Hashv) (payer : Address) (ownerSigners : List Address)
      (inputs assigned : Verify.TransactProofInputs) (ownerHashes : Verify.OwnerHashCache),
      inputs.fillOwnerSignerHashes hashv true payer ownerSigners ⟨[]⟩ = .ok (assigned, ownerHashes) →
      ∀ hash ∈ assigned.signerPkHashes, ∃ signer ∈ ownerSigners, solanaOwnerIdentity hashv signer = .ok hash := by
  constructor
  · intro env shape c hdefine hrail
    refine ⟨SpendCircuit.authorised_of_define hdefine hrail, fun hbytes publicKey signature message hholds => ?_⟩
    exact exists_keyWires (hbytes _ _ _ (SpendCircuit.verify_of_holds hdefine hholds))
  · intro hashv payer ownerSigners inputs assigned ownerHashes h hash hmem
    rw [Verify.TransactProofInputs.fillOwnerSignerHashes, if_neg (by simp)] at h
    obtain ⟨⟨signers, _⟩, hsigners, h⟩ := Fallible.bind_eq_ok_iff.mp h
    cases h
    have hidentities := signerHashes_eq_ok .nil hsigners
    obtain ⟨signer, hsigner, hidentity⟩ := exists_of_mem_identities hidentities hmem
    exact ⟨signer, (mem_of_mem_firstOccurrences hsigner).resolve_left (by simp), hidentity⟩

theorem verifiesBytes_hiddenSpendEnv (inDefaultRing : Bool) : (hiddenSpendEnv inDefaultRing).VerifiesBytes := by
  intro publicKey signature message hverify i
  rw [(of_decide_eq_true hverify).1, Pi.zero_apply, ZMod.val_zero]
  decide

theorem spend_authorization_hidden :
    (∃ owner : Address, (hiddenSpend false).ownerPublicKey = keyWires owner) ∧
    (∃ owner nullifierPk,
      SpendCircuit.Authorises (hiddenSpendEnv false) (.customAnonymous (hiddenSpend false)) owner ∧
      Poseidon.ofNatLog (hiddenSpendDigests false) [12] = some nullifierPk ∧
      Poseidon.ofNatLog (hiddenSpendDigests false) [owner, nullifierPk] = some 102) ∧
    ∃ signer ∈ [(7 : Address)], solanaOwnerIdentity (fun _ => .ok 5) signer = .ok 5 := by
  have hspend := spend_authorization.1 (hiddenSpendEnv false) threeInTwoOut (.customAnonymous (hiddenSpend false))
    (define_hiddenSpend false) rfl
  have hvector := spend_authorization.2 (fun _ => .ok 5) 9 [7]
    (.new (.confidentialSigner ⟨1, 2, 3⟩)) _ _ rfl 5 (List.mem_singleton_self _)
  exact ⟨hspend.2 (verifiesBytes_hiddenSpendEnv false) _ _ _ (.anonymous _),
    hspend.1.inputs ⟨0, Nat.succ_pos _⟩ (by decide +kernel), hvector⟩

/-! ### The hidden owner -/

/-- The anonymous rail and the owner of the key it verifies, for an identity that is not zero. A utxo of the
hidden owner is one whose owner wire is zero. -/
theorem hidden_owner_stays_hidden {env : CircuitEnv} {shape : Shape} {c : CustomRingAnonymousEddsaCircuit shape}
    (hdefine : c.define env = some ()) {hidden : Fr}
    (hidentity : solanaOwnerIdentityBounded env.poseidon c.ownerPublicKey = some hidden) (hne : hidden ≠ 0) :
    (∀ i, (c.inputs i).utxo.domain ≠ dummyDomain → c.inputOwnerPkHashes i = 0 → ∃ nullifierPk,
      env.poseidon [(c.inputs i).nullifierSecret] = some nullifierPk ∧
      env.poseidon [hidden, nullifierPk] = some (c.inputs i).utxo.owner) ∧
    ((∃ i, IsHiddenUtxo c.inputs c.inputOwnerPkHashes i ∧ (c.inputs i).utxo.ringProgramId ≠ 0) →
      hidden ∉ c.signerPkHashes ∧ (∀ i, c.publishedOutputOwnerPkHashes i ≠ hidden) ∧
      c.defaultOwnerPkHash ≠ hidden ∧ c.defaultOwnerPkHash = 0 ∧
      ∀ i, IsHiddenUtxo c.inputs c.inputOwnerPkHashes i → (c.inputs i).utxo.ringProgramId ≠ 0) ∧
    (c.defaultOwnerPkHash = hidden ↔
      ∃ i, IsHiddenUtxo c.inputs c.inputOwnerPkHashes i ∧ (c.inputs i).utxo.ringProgramId = 0) ∧
    (c.defaultOwnerPkHash = 0 ↔
      ∀ i, IsHiddenUtxo c.inputs c.inputOwnerPkHashes i → (c.inputs i).utxo.ringProgramId ≠ 0) := by
  obtain ⟨owner, messageHash, h⟩ := CustomRingAnonymousEddsaCircuit.define_eq_some.mp hdefine
  obtain ⟨-, -, hidentity', -⟩ := ownerAuthorization_eq_some.mp h.signature
  obtain rfl := Option.some.inj (hidentity.symm.trans hidentity')
  obtain ⟨ownerChain, -, hproves⟩ := h.transaction
  obtain ⟨hdefault, hboth, hpublished⟩ := h.kept
  have hnone : ¬ SpendsDefaultHidden c.inputs c.inputOwnerPkHashes ↔
      ∀ i, IsHiddenUtxo c.inputs c.inputOwnerPkHashes i → (c.inputs i).utxo.ringProgramId ≠ 0 := by
    rw [SpendsDefaultHidden, not_exists]
    exact forall_congr' fun i => not_and
  refine ⟨fun i hcontent hzero => ?_, fun hring => ?_, ?_, ?_⟩
  · obtain ⟨nullifierPk, hpk, howner⟩ := hproves.owner_eq hcontent
    rw [ownerOrHidden, if_pos hzero] at howner
    exact ⟨nullifierPk, hpk, howner⟩
  · have hnot : ¬ SpendsDefaultHidden c.inputs c.inputOwnerPkHashes := fun hspends => hboth ⟨hring, hspends⟩
    rw [if_neg hnot] at hdefault
    exact ⟨h.hidden_not_signer, hpublished hring, fun heq => hne (heq.symm.trans hdefault), hdefault, hnone.mp hnot⟩
  · rw [hdefault]
    constructor
    · intro heq
      by_contra hnot
      exact hne ((if_neg (c := SpendsDefaultHidden c.inputs c.inputOwnerPkHashes) hnot).symm.trans heq).symm
    · exact fun hspends => if_pos hspends
  · rw [← hnone, hdefault]
    constructor
    · intro heq hspends
      rw [if_pos hspends] at heq
      exact hne heq
    · exact fun hnot => if_neg hnot

/-- A spend in the ring does not name the owner, and one of a utxo of no ring does. -/
theorem hidden_owner_stays_hidden_both :
    (∀ i, (hiddenSpend false).publishedOutputOwnerPkHashes i ≠ 100) ∧ (hiddenSpend true).defaultOwnerPkHash = 100 := by
  have hidentity : ∀ inDefaultRing : Bool, solanaOwnerIdentityBounded (hiddenSpendEnv inDefaultRing).poseidon
      (hiddenSpend inDefaultRing).ownerPublicKey = some 100 := by decide +kernel
  have hne : (100 : Fr) ≠ 0 := by decide +kernel
  have hring := (hidden_owner_stays_hidden (define_hiddenSpend false) (hidentity false) hne).2.1
    ⟨⟨0, Nat.succ_pos _⟩, by decide +kernel, by decide +kernel⟩
  have hdefault := (hidden_owner_stays_hidden (define_hiddenSpend true) (hidentity true) hne).2.2.1
  exact ⟨hring.2.1, hdefault.mpr ⟨⟨0, Nat.succ_pos _⟩, by decide +kernel, rfl⟩⟩

end Zolana
