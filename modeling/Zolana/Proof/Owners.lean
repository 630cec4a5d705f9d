import Zolana.Proof.CircuitSlots

/-!
# What the owner rules say

The rules of `ring.go`, `signers.go` and `owner_tags.go` as facts about the wires. The membership test
multiplies differences; over the field it is membership of a nonzero value.
-/

namespace Zolana.Circuits

open Gates

theorem contains_eq (signers : List Fr) (identity : Fr) :
    contains signers identity = bit (identity ∈ signers ∧ identity ≠ 0) := by
  have hprod : (signers.map fun signer => identity - signer).prod = 0 ↔ identity ∈ signers := by
    rw [List.prod_eq_zero_iff, List.mem_map]
    constructor
    · rintro ⟨signer, hmem, hzero⟩
      rwa [sub_eq_zero.mp hzero]
    · intro hmem
      exact ⟨identity, hmem, sub_self identity⟩
  rw [contains, isZero, isZero, one_sub_bit, bit_mul_bit]
  exact bit_congr (and_congr_left' hprod)

theorem containsEach_eq (signers : List Fr) {n : Nat} (identities : Fin n → Fr) :
    containsEach signers identities = fun i => bit (identities i ∈ signers ∧ identities i ≠ 0) :=
  funext fun i => contains_eq signers (identities i)

/-! ### Rings -/

section Ring

variable {nInputs nOutputs : Nat} {inputs : Fin nInputs → Input} {outputs : Fin nOutputs → UtxoCircuitFields}

def InDefaultRing (inputs : Fin nInputs → Input) (outputs : Fin nOutputs → UtxoCircuitFields) : Prop :=
  (∀ i, (inputs i).utxo.ringProgramId = 0 ∧ (inputs i).utxo.ringDataHash = 0) ∧
    ∀ i, (outputs i).ringProgramId = 0 ∧ (outputs i).ringDataHash = 0

theorem assertInDefaultRing_eq_some :
    assertInDefaultRing inputs outputs = some () ↔ InDefaultRing inputs outputs := by
  simp only [assertInDefaultRing, UtxoCircuitFields.assertInDefaultRing, bind_unit_eq_some, forEach_eq_some,
    assertIsEqual_eq_some, InDefaultRing]

/-- A utxo of the signing ring, or where that is allowed one of no ring and without ring data. -/
def RingMember (u : UtxoCircuitFields) (ringProgramId : Fr) (allowDefaultRing : Bool) : Prop :=
  u.ringProgramId = ringProgramId ∨ allowDefaultRing = true ∧ u.ringProgramId = 0 ∧ u.ringDataHash = 0

instance (u : UtxoCircuitFields) (ringProgramId : Fr) (allowDefaultRing : Bool) :
    Decidable (RingMember u ringProgramId allowDefaultRing) := inferInstanceAs (Decidable (_ ∨ _))

theorem checkRingMembership_eq {u : UtxoCircuitFields} {ringProgramId : Fr} {allowDefaultRing : Bool}
    (hring : allowDefaultRing = true → ringProgramId ≠ 0) :
    checkRingMembership u ringProgramId allowDefaultRing = bit (RingMember u ringProgramId allowDefaultRing) := by
  rw [checkRingMembership]
  cases allowDefaultRing with
  | false =>
      rw [Bool.not_false, if_pos rfl, isZero_sub]
      exact bit_congr (by simp [RingMember])
  | true =>
      have hne := hring rfl
      rw [Bool.not_true, if_neg Bool.false_ne_true, isZero_sub]
      simp only [isZero, one_sub_bit, select_bit]
      by_cases hdefault : u.ringProgramId = 0
      · by_cases hdata : u.ringDataHash = 0
        · rw [if_neg (not_not.mpr hdefault), if_neg (not_not.mpr hdata), one_mul,
            bit_of_pos (.inr ⟨rfl, hdefault, hdata⟩)]
        · rw [if_neg (not_not.mpr hdefault), if_pos hdata, one_mul, bit_of_neg (not_not.mpr hdefault),
            bit_of_neg]
          rintro (hmember | ⟨-, -, hzero⟩)
          · exact hne (hmember.symm.trans hdefault)
          · exact hdata hzero
      · rw [if_pos hdefault, bit_of_pos hdefault, ite_self, mul_one]
        refine bit_congr ⟨.inl, fun h => h.resolve_right fun hfree => hdefault hfree.2.1⟩

def RingMembers (inputs : Fin nInputs → Input) (outputs : Fin nOutputs → UtxoCircuitFields) (ringProgramId : Fr)
    (allowDefaultRing : Bool) : Prop :=
  (∀ i, (inputs i).utxo.domain = utxoDomain → RingMember (inputs i).utxo ringProgramId allowDefaultRing) ∧
    ∀ i, (outputs i).domain = utxoDomain → RingMember (outputs i) ringProgramId allowDefaultRing

theorem assertRingMembership_eq_some {ringProgramId : Fr} {allowDefaultRing : Bool}
    (hring : allowDefaultRing = true → ringProgramId ≠ 0) :
    assertRingMembership inputs outputs ringProgramId allowDefaultRing = some () ↔
      RingMembers inputs outputs ringProgramId allowDefaultRing := by
  simp only [assertRingMembership, bind_unit_eq_some, forEach_eq_some, UtxoCircuitFields.isUtxo_eq,
    checkRingMembership_eq hring, assertWhen_eq_some, RingMembers]

end Ring

/-! ### Signers -/

section Signers

variable {nInputs : Nat} {inputs : Fin nInputs → Input} {ownerPkHashes signers : Fin nInputs → Fr}
  {authorized : List Fr} {hidden : Fr}

/-- The owners of the slots that are not padding. -/
def contentOwners (inputs : Fin nInputs → Input) (ownerPkHashes : Fin nInputs → Fr) (i : Fin nInputs) : Fr :=
  if (inputs i).utxo.domain = dummyDomain then 0 else ownerPkHashes i

theorem bit_mul_owner (i : Fin nInputs) :
    (bit ((inputs i).utxo.domain ≠ dummyDomain) : Fr) * ownerPkHashes i = contentOwners inputs ownerPkHashes i := by
  rw [contentOwners, bit_mul_eq_ite, ite_not]

theorem confidentialEddsaSigners_eq_some : confidentialEddsaSigners inputs ownerPkHashes = some signers ↔
    (∀ i, (inputs i).utxo.domain ≠ dummyDomain → ownerPkHashes i ≠ 0) ∧
      signers = contentOwners inputs ownerPkHashes := by
  simp only [confidentialEddsaSigners, each_eq_some, bind_unit_eq_some, UtxoCircuitFields.isUtxoOrAddress_eq,
    isZero, one_sub_bit, assertWhen_eq_some, bit_mul_owner, Option.pure_def, Option.some_inj]
  rw [forall_and, funext_iff]
  exact and_congr_right fun _ => ⟨fun h i => (h i).symm, fun h i => (h i).symm⟩

/-- Every slot with content has an authorized owner, and padding has none. -/
def OwnersAuthorized (inputs : Fin nInputs → Input) (ownerPkHashes : Fin nInputs → Fr) (authorized : List Fr) :
    Prop :=
  ∀ i, ((inputs i).utxo.domain = dummyDomain → ownerPkHashes i = 0) ∧
    ((inputs i).utxo.domain ≠ dummyDomain → ownerPkHashes i ∈ authorized ∧ ownerPkHashes i ≠ 0)

theorem authorizedEddsaInputOwners_eq_some :
    authorizedEddsaInputOwners inputs ownerPkHashes authorized = some signers ↔
      OwnersAuthorized inputs ownerPkHashes authorized ∧ signers = contentOwners inputs ownerPkHashes := by
  have hchecks : (forEach fun i => do
        assertZeroWhen (1 - (inputs i).utxo.isUtxoOrAddress) (ownerPkHashes i)
        assertWhen (inputs i).utxo.isUtxoOrAddress (contains authorized (ownerPkHashes i))) = some () ↔
      OwnersAuthorized inputs ownerPkHashes authorized := by
    simp only [forEach_eq_some, bind_unit_eq_some, UtxoCircuitFields.isUtxoOrAddress_eq, one_sub_bit, ne_eq,
      not_not, assertZeroWhen_eq_some, contains_eq, assertWhen_eq_some, OwnersAuthorized]
  rw [authorizedEddsaInputOwners]
  constructor
  · intro h
    obtain ⟨owners, howners, h⟩ := of_bind_some h
    obtain ⟨hauthorized, h⟩ := of_bind_unit h
    obtain rfl := Option.some.inj h
    exact ⟨hchecks.mp hauthorized, (confidentialEddsaSigners_eq_some.mp howners).2⟩
  · rintro ⟨hauthorized, rfl⟩
    rw [bind_of_eq_some (confidentialEddsaSigners_eq_some.mpr ⟨fun i hi => ((hauthorized i).2 hi).2, rfl⟩),
      bind_unit_eq_some]
    exact ⟨hchecks.mpr hauthorized, rfl⟩

/-- The owner of a slot where zero stands for the hidden one. -/
def ownerOrHidden (ownerPkHashes : Fin nInputs → Fr) (hidden : Fr) (i : Fin nInputs) : Fr :=
  if ownerPkHashes i = 0 then hidden else ownerPkHashes i

/-- Every slot with content has the hidden owner or an authorized one, and some slot has the hidden one. -/
structure HiddenOwnersAuthorized (inputs : Fin nInputs → Input) (ownerPkHashes : Fin nInputs → Fr)
    (authorized : List Fr) (hidden : Fr) : Prop where
  padding : ∀ i, (inputs i).utxo.domain = dummyDomain → ownerPkHashes i = 0
  hidden_ne : ∀ i, (inputs i).utxo.domain ≠ dummyDomain → ownerPkHashes i = 0 → hidden ≠ 0
  named : ∀ i, (inputs i).utxo.domain ≠ dummyDomain → ownerPkHashes i ≠ 0 → ownerPkHashes i ∈ authorized
  some_hidden : ∃ i, (inputs i).utxo.domain ≠ dummyDomain ∧ ownerPkHashes i = 0

theorem assertWhen_one (cond : Fr) : assertWhen cond 1 = some () := by
  rw [assertWhen, sub_self, assertZeroWhen, mul_zero]
  exact assertIsEqual_eq_some.mpr rfl

theorem hiddenOwnerSigners_eq_some (hn : nInputs < fieldModulus) :
    hiddenOwnerSigners inputs ownerPkHashes authorized hidden 1 = some signers ↔
      HiddenOwnersAuthorized inputs ownerPkHashes authorized hidden ∧
        signers = contentOwners inputs (ownerOrHidden ownerPkHashes hidden) := by
  have howner : ∀ i, (if ownerPkHashes i = 0 then hidden else ownerPkHashes i) =
      ownerOrHidden ownerPkHashes hidden i := fun _ => rfl
  rw [hiddenOwnerSigners]
  simp only [UtxoCircuitFields.isUtxoOrAddress_eq, isZero, one_sub_bit, bit_mul_bit, select_bit, contains_eq,
    assertWhen_one, howner, bit_mul_owner, ne_eq, not_not]
  constructor
  · intro h
    obtain ⟨owners, hslots, h⟩ := of_bind_some h
    obtain ⟨hsome, h⟩ := of_bind_unit h
    obtain rfl := Option.some.inj h
    rw [assertIsDifferent_eq_some, ne_eq, sum_bit_eq_zero hn, not_forall] at hsome
    simp only [not_not] at hsome
    simp only [each_eq_some, bind_unit_eq_some, assertZeroWhen_eq_some, assertWhen_eq_some, true_and,
      Option.pure_def, Option.some_inj] at hslots
    refine ⟨⟨fun i => (hslots i).1, fun i hcontent hzero => ?_, fun i hcontent hne =>
      ((hslots i).2.2.1 ⟨hcontent, hne⟩).1, hsome⟩, funext fun i => (hslots i).2.2.2.symm⟩
    have hne := (hslots i).2.1 hcontent
    rwa [ownerOrHidden, if_pos hzero] at hne
  · rintro ⟨h, rfl⟩
    rw [bind_of_eq_some (each_eq_some.mpr fun i => ?_), bind_unit_eq_some, assertIsDifferent_eq_some, ne_eq,
      sum_bit_eq_zero hn, not_forall]
    · obtain ⟨i, hi⟩ := h.some_hidden
      exact ⟨⟨i, not_not.mpr hi⟩, rfl⟩
    · simp only [bind_unit_eq_some, assertZeroWhen_eq_some, assertWhen_eq_some, true_and, and_true, Option.pure_def]
      refine ⟨h.padding i, fun hcontent => ?_, fun hnamed => ⟨h.named i hnamed.1 hnamed.2, hnamed.2⟩⟩
      rw [ownerOrHidden]
      split
      case isTrue hzero => exact h.hidden_ne i hcontent hzero
      case isFalse hne => exact hne

/-- A real slot of the hidden owner. -/
def IsHiddenUtxo (inputs : Fin nInputs → Input) (ownerPkHashes : Fin nInputs → Fr) (i : Fin nInputs) : Prop :=
  (inputs i).utxo.domain = utxoDomain ∧ ownerPkHashes i = 0

instance (i : Fin nInputs) : Decidable (IsHiddenUtxo inputs ownerPkHashes i) :=
  inferInstanceAs (Decidable (_ ∧ _))

def SpendsDefaultHidden (inputs : Fin nInputs → Input) (ownerPkHashes : Fin nInputs → Fr) : Prop :=
  ∃ i, IsHiddenUtxo inputs ownerPkHashes i ∧ (inputs i).utxo.ringProgramId = 0

def SpendsRingHidden (inputs : Fin nInputs → Input) (ownerPkHashes : Fin nInputs → Fr) : Prop :=
  ∃ i, IsHiddenUtxo inputs ownerPkHashes i ∧ (inputs i).utxo.ringProgramId ≠ 0

instance : Decidable (SpendsDefaultHidden inputs ownerPkHashes) := inferInstanceAs (Decidable (∃ _, _))

instance : Decidable (SpendsRingHidden inputs ownerPkHashes) := inferInstanceAs (Decidable (∃ _, _))

/-- The hidden owner is named where a utxo of no ring is spent, and a spend in a ring does not name it. -/
def HiddenOwnerKept (inputs : Fin nInputs → Input) (ownerPkHashes : Fin nInputs → Fr) {nOutputs : Nat}
    (published : Fin nOutputs → Fr) (hidden defaultOwner : Fr) : Prop :=
  defaultOwner = (if SpendsDefaultHidden inputs ownerPkHashes then hidden else 0) ∧
    ¬ (SpendsRingHidden inputs ownerPkHashes ∧ SpendsDefaultHidden inputs ownerPkHashes) ∧
    (SpendsRingHidden inputs ownerPkHashes → ∀ i, published i ≠ hidden)

theorem assertDefaultHiddenOwner_eq_some (hn : nInputs < fieldModulus) {nOutputs : Nat}
    {published : Fin nOutputs → Fr} {defaultOwner : Fr} :
    assertDefaultHiddenOwner inputs ownerPkHashes published hidden defaultOwner = some () ↔
      HiddenOwnerKept inputs ownerPkHashes published hidden defaultOwner := by
  have hdefault : (bit (¬ ∑ i, (bit (((inputs i).utxo.domain = utxoDomain ∧ ownerPkHashes i = 0) ∧
      (inputs i).utxo.ringProgramId = 0) : Fr) = 0) : Fr) = bit (SpendsDefaultHidden inputs ownerPkHashes) := by
    refine bit_congr ?_
    rw [sum_bit_eq_zero hn, not_forall_not]
    rfl
  have hring : (bit (¬ ∑ i, (bit (((inputs i).utxo.domain = utxoDomain ∧ ownerPkHashes i = 0) ∧
      ¬ (inputs i).utxo.ringProgramId = 0) : Fr) = 0) : Fr) = bit (SpendsRingHidden inputs ownerPkHashes) := by
    refine bit_congr ?_
    rw [sum_bit_eq_zero hn, not_forall_not]
    rfl
  rw [assertDefaultHiddenOwner]
  simp only [UtxoCircuitFields.isUtxo_eq, isZero, bit_mul_bit, one_sub_bit, hdefault, hring, bit_mul_eq_ite hidden,
    bind_unit_eq_some, assertIsEqual_eq_some, bit_eq_zero, forEach_eq_some, assertZeroWhen_eq_some, sub_eq_zero]
  refine and_congr_right fun _ => and_congr_right fun _ => ?_
  exact ⟨fun h hspends i => h i hspends, fun h i hspends => h hspends i⟩

end Signers

/-! ### Owner tags -/

section OwnerTags

variable {nOutputs : Nat} {outputs : Fin nOutputs → UtxoCircuitFields} {ownerPkHashes published : Fin nOutputs → Fr}
  {identities : List Fr} {hashes : Fin nOutputs → Fr}

/-- The owner of a real output is the hash of its tag and a nullifier key. -/
def OwnersTagged (poseidon : Poseidon) (outputs : Fin nOutputs → UtxoCircuitFields)
    (ownerPkHashes nullifierPks : Fin nOutputs → Fr) : Prop :=
  ∀ i, ∃ ownerHash, poseidon [ownerPkHashes i, nullifierPks i] = some ownerHash ∧
    ((outputs i).domain = utxoDomain → ownerHash = (outputs i).owner)

theorem assertOutputOwnerTags_eq_some {poseidon : Poseidon} {nullifierPks : Fin nOutputs → Fr} :
    assertOutputOwnerTags outputs poseidon ownerPkHashes nullifierPks = some () ↔
      OwnersTagged poseidon outputs ownerPkHashes nullifierPks := by
  rw [assertOutputOwnerTags, forEach_eq_some]
  refine forall_congr' fun i => ?_
  simp only [Option.bind_eq_bind, Option.bind_eq_some_iff, UtxoCircuitFields.isUtxo_eq, isZero_sub,
    assertWhen_eq_some]

/-- A real output publishes its tag where it is in no ring. -/
def OwnersMasked (outputs : Fin nOutputs → UtxoCircuitFields) (ownerPkHashes published : Fin nOutputs → Fr) : Prop :=
  ∀ i, (outputs i).domain = utxoDomain →
    published i = if (outputs i).ringProgramId = 0 then ownerPkHashes i else 0

theorem assertPublishedOutputOwners_eq_some :
    assertPublishedOutputOwners outputs ownerPkHashes published = some () ↔
      OwnersMasked outputs ownerPkHashes published := by
  simp only [assertPublishedOutputOwners, forEach_eq_some, isZero, bit_mul_eq_ite, UtxoCircuitFields.isUtxo_eq,
    assertWhen_eq_some, sub_eq_zero, OwnersMasked]

/-- A value is one of the identities or the tag of a real output. -/
def IsParticipant (outputs : Fin nOutputs → UtxoCircuitFields) (published : Fin nOutputs → Fr)
    (identities : List Fr) (value : Fr) : Prop :=
  value ∈ identities ∨ ∃ i, (outputs i).domain = utxoDomain ∧ published i = value

theorem mem_participants {value : Fr} : value ∈ identities ++ outputParticipants outputs published ∧ value ≠ 0 ↔
      value ≠ 0 ∧ IsParticipant outputs published identities value := by
  rw [and_comm, List.mem_append, outputParticipants, List.mem_ofFn]
  refine and_congr_right fun hne => or_congr_right (exists_congr fun i => ?_)
  rw [UtxoCircuitFields.isUtxo_eq]
  by_cases hutxo : (outputs i).domain = utxoDomain
  · rw [bit_of_pos hutxo, one_mul, and_iff_right hutxo]
  · rw [bit_of_neg hutxo, zero_mul]
    exact iff_of_false hne.symm fun h => hutxo h.1

/-- Padding publishes no tag or that of a participant, and an output that publishes nothing has none. -/
def MaskedDummyTags (outputs : Fin nOutputs → UtxoCircuitFields) (hashes published : Fin nOutputs → Fr)
    (identities : List Fr) : Prop :=
  ∀ i, (hashes i = 0 → published i = 0) ∧ ((outputs i).domain = dummyDomain → published i ≠ 0 →
    IsParticipant outputs published identities (published i))

theorem assertMaskedDummyOutputTags_eq_some :
    assertMaskedDummyOutputTags outputs (compactSlots hashes) published identities = some () ↔
      MaskedDummyTags outputs hashes published identities := by
  simp only [assertMaskedDummyOutputTags, compactSlots, isZero, UtxoCircuitFields.isDummy_eq, one_sub_bit,
    bit_mul_bit, contains_eq, forEach_eq_some, bind_unit_eq_some, assertZeroWhen_eq_some, assertWhen_eq_some,
    mem_participants, and_imp, MaskedDummyTags]
  refine forall_congr' fun i => and_congr_right fun _ => forall_congr' fun _ => forall_congr' fun hne => ?_
  exact and_iff_right hne

/-- Padding that publishes anything has the tag of a participant. -/
def DummyTags (outputs : Fin nOutputs → UtxoCircuitFields) (hashes published : Fin nOutputs → Fr)
    (identities : List Fr) : Prop :=
  ∀ i, (hashes i = 0 → published i = 0) ∧ ((outputs i).domain = dummyDomain → hashes i ≠ 0 →
    published i ≠ 0 ∧ IsParticipant outputs published identities (published i))

theorem assertDummyTags_eq_some : assertDummyTags outputs (compactSlots hashes) published identities = some () ↔
      DummyTags outputs hashes published identities := by
  simp only [assertDummyTags, compactSlots, isZero, UtxoCircuitFields.isDummy_eq, one_sub_bit, bit_mul_bit,
    contains_eq, forEach_eq_some, bind_unit_eq_some, assertZeroWhen_eq_some, assertWhen_eq_some, mem_participants,
    and_imp, DummyTags]

end OwnerTags

/-! ### Signatures -/

/-- The bytes of the message that two limbs of 128 bits spell. -/
def messageBytes (messageHashLow messageHashHigh : Fr) : List Fr :=
  bytes32FromBits (bitsOf messageLimbBits messageHashLow.val ++ bitsOf messageLimbBits messageHashHigh.val)

theorem ownerAuthorization_eq_some {env : CircuitEnv} {messageHashLow messageHashHigh : Fr}
    {publicKey : Fin 32 → Fr} {signature : Fin 64 → Fr} {identity messageHash : Fr} :
    ownerAuthorization env messageHashLow messageHashHigh publicKey signature = some (identity, messageHash) ↔
      (messageHashLow.val < 2 ^ messageLimbBits ∧ messageHashHigh.val < 2 ^ messageLimbBits) ∧
      env.verify publicKey signature (messageBytes messageHashLow messageHashHigh) = true ∧
      solanaOwnerIdentityBounded env.poseidon publicKey = some identity ∧
      hashBoundedBytes env.poseidon (messageBytes messageHashLow messageHashHigh) = some messageHash := by
  rw [ownerAuthorization]
  constructor
  · intro h
    obtain ⟨low, hlow, h⟩ := of_bind_some h
    obtain ⟨high, hhigh, h⟩ := of_bind_some h
    obtain ⟨hlowLt, rfl⟩ := toBinary_eq_some.mp hlow
    obtain ⟨hhighLt, rfl⟩ := toBinary_eq_some.mp hhigh
    refine ⟨⟨hlowLt, hhighLt⟩, ?_⟩
    change (if env.verify publicKey signature (messageBytes messageHashLow messageHashHigh) then _ else _) = _ at h
    split at h
    case isFalse => cases h
    case isTrue hverify =>
      obtain ⟨identity', hidentity, h⟩ := of_bind_some h
      obtain ⟨messageHash', hmessage, h⟩ := of_bind_some h
      obtain ⟨rfl, rfl⟩ := Prod.mk.inj (Option.some.inj h)
      exact ⟨hverify, hidentity, hmessage⟩
  · rintro ⟨⟨hlow, hhigh⟩, hverify, hidentity, hmessage⟩
    rw [bind_of_eq_some (toBinary_eq_some.mpr ⟨hlow, rfl⟩), bind_of_eq_some (toBinary_eq_some.mpr ⟨hhigh, rfl⟩)]
    change (if env.verify publicKey signature (messageBytes messageHashLow messageHashHigh) then _ else _) = _
    rw [if_pos hverify, bind_of_eq_some hidentity]
    exact bind_of_eq_some hmessage

end Zolana.Circuits
