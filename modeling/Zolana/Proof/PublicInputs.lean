import Zolana.Proof.Assemble
import Zolana.Proof.Chains
import Zolana.Proof.Kinds

/-!
# What the public input hash determines

The public inputs of two transacts for one circuit have one layout, so equal hashes give equal public
inputs, and each of them determines what it was made from.
-/

namespace Zolana

open Fallible Fold

/-! ### Circuits with one verifying key -/

/-- The variant of a selector, cached or not. -/
inductive CircuitKind where
  | confidentialSigner
  | confidentialRingEddsa
  | ringAuthority
  | anonymousRingEddsa
  | confidentialEddsa
  deriving DecidableEq, Repr

namespace CircuitId

def kind : CircuitId → CircuitKind
  | confidentialSigner _ | confidentialSignerCached _ _ => .confidentialSigner
  | confidentialRingEddsa _ | confidentialRingEddsaCached _ _ => .confidentialRingEddsa
  | ringAuthority _ => .ringAuthority
  | anonymousRingEddsa _ _ | anonymousRingEddsaCached _ _ _ => .anonymousRingEddsa
  | confidentialEddsa _ _ | confidentialEddsaCached _ _ _ => .confidentialEddsa

variable {circuit circuit' : CircuitId}

theorem layout_congr (h : circuit.kind = circuit'.kind) : circuit.hasMessageHash = circuit'.hasMessageHash ∧
      circuit.eddsaOwnerPk.isSome = circuit'.eddsaOwnerPk.isSome ∧
      circuit.isAnonymous = circuit'.isAnonymous ∧
      circuit.requiresInputSignatures = circuit'.requiresInputSignatures ∧
      circuit.outputOwnerMode = circuit'.outputOwnerMode := by
  cases circuit <;> cases circuit' <;> first | exact ⟨rfl, rfl, rfl, rfl, rfl⟩ | cases h

theorem widths_congr (h : circuit.shape = circuit'.shape) :
    circuit.numInputs = circuit'.numInputs ∧ circuit.numOutputs = circuit'.numOutputs := by
  rw [numInputs, numInputs, numOutputs, numOutputs, h]
  exact ⟨rfl, rfl⟩

/-- The authority rail publishes no owners, and reads no cache. -/
theorem cacheAccess_of_outputOwnerMode (h : circuit.outputOwnerMode = .none) : circuit.cacheAccess = none := by
  cases circuit <;> first | rfl | cases h

end CircuitId

namespace Verify

variable {hashv : Hashv} {sha256 : Sha256}

/-! ### Amounts -/

theorem two_pow_65_lt_modulus : 2 ^ 65 < bn254ScalarModulusBe.toNat := by decide +kernel

variable {amount : Int} {fields : List Bytes32}

theorem amountField_eq (h : amount.natAbs < 2 ^ 64) : amountField amount =
      .ok (BitVec.ofNat 256 (amount % (bn254ScalarModulusBe.toNat : Int)).toNat) := by
  have hmodulus := two_pow_65_lt_modulus
  rw [amountField, if_pos h]
  generalize bn254ScalarModulusBe.toNat = modulus at hmodulus
  dsimp only
  congr 2
  have hvalue : amount.natAbs % modulus = amount.natAbs := Nat.mod_eq_of_lt (by omega)
  rw [hvalue]
  by_cases hneg : amount < 0
  · rw [if_pos hneg, Nat.mod_eq_of_lt (by omega), ← Int.add_emod_right,
      Int.emod_eq_of_lt (by omega) (by omega)]
    omega
  · rw [if_neg hneg, Int.emod_eq_of_lt (by omega) (by omega)]
    omega

theorem natAbs_lt_of_amountField {field : Bytes32} (h : amountField amount = .ok field) :
    amount.natAbs < 2 ^ 64 := by
  unfold amountField at h
  split at h
  case isTrue hlt => exact hlt
  case isFalse => cases h

theorem amountField_inj {amount' : Int} {field : Bytes32} (h : amountField amount = .ok field)
    (h' : amountField amount' = .ok field) : amount = amount' := by
  have hlt := natAbs_lt_of_amountField h
  have hlt' := natAbs_lt_of_amountField h'
  rw [amountField_eq hlt] at h
  rw [amountField_eq hlt'] at h'
  have heq := congrArg BitVec.toNat (Except.ok.inj (h.trans h'.symm))
  have hmodulus := two_pow_65_lt_modulus
  have hsize := bn254ScalarModulusBe.isLt
  rw [BitVec.toNat_ofNat, BitVec.toNat_ofNat] at heq
  generalize bn254ScalarModulusBe.toNat = modulus at heq hmodulus hsize
  have hrange : ∀ a : Int, 0 ≤ a % modulus ∧ a % modulus < modulus := fun a =>
    ⟨Int.emod_nonneg a (by omega), Int.emod_lt_of_pos a (by omega)⟩
  have hmod : amount % modulus = amount' % modulus := by
    have := hrange amount
    have := hrange amount'
    rw [Nat.mod_eq_of_lt (by omega), Nat.mod_eq_of_lt (by omega)] at heq
    omega
  -- the difference is a multiple of the modulus and smaller than it
  have hzero : amount' - amount = 0 :=
    Int.eq_zero_of_abs_lt_dvd (Int.ModEq.dvd hmod) (abs_lt.mpr ⟨by omega, by omega⟩)
  omega

theorem length_publicSlotFields {slots : List (Bytes32 × Int)}
    (h : publicSlotFields slots = .ok fields) : fields.length = 2 * slots.length := by
  induction slots generalizing fields with
  | nil =>
      cases h
      rfl
  | cons slot slots ih =>
      obtain ⟨amount, _, h⟩ := of_bind_ok h
      obtain ⟨rest, hrest, h⟩ := of_bind_ok h
      cases h
      rw [List.length_cons, List.length_cons, List.length_cons, ih hrest]
      omega

theorem publicSlotFields_inj {slots slots' : List (Bytes32 × Int)}
    (h : publicSlotFields slots = .ok fields) (h' : publicSlotFields slots' = .ok fields) : slots = slots' := by
  have hlength := (length_publicSlotFields h).symm.trans (length_publicSlotFields h')
  induction slots generalizing slots' fields with
  | nil =>
      rw [List.length_nil] at hlength
      exact (List.length_eq_zero_iff.mp (by omega)).symm
  | cons slot slots ih =>
      cases slots' with
      | nil =>
          rw [List.length_cons, List.length_nil] at hlength
          omega
      | cons slot' slots' =>
          obtain ⟨amount, hamount, h⟩ := of_bind_ok h
          obtain ⟨rest, hrest, h⟩ := of_bind_ok h
          obtain ⟨amount', hamount', h'⟩ := of_bind_ok h'
          obtain ⟨rest', hrest', h'⟩ := of_bind_ok h'
          have hfields := Except.ok.inj (h.trans h'.symm)
          simp only [List.cons.injEq] at hfields
          obtain ⟨hasset, rfl, rfl⟩ := hfields
          have hslot : slot = slot' := Prod.ext hasset (amountField_inj hamount hamount')
          rw [hslot, ih hrest hrest' (by simpa using hlength)]

/-! ### Optional fields -/

theorem hashed_eq_ok {α : Type} {result : Except HasherError α} {a : α} :
    hashed result = .ok a ↔ result = .ok a := by
  cases result <;> simp [hashed]

theorem length_messageFields {ix : TransactIxData} {derived : TransactProofInputs}
    (h : messageFields hashv sha256 ix derived = .ok fields) :
    fields.length = ix.circuit.hasMessageHash.toNat := by
  unfold messageFields at h
  split at h
  case isTrue hmessage =>
    split at h
    case h_1 => cases h
    case h_2 =>
      obtain ⟨field, _, h⟩ := of_bind_ok h
      cases h
      rw [hmessage]
      rfl
  case isFalse hmessage =>
    cases h
    simp [hmessage]

theorem length_eddsaOwnerFields {circuit : CircuitId} (h : eddsaOwnerFields hashv circuit = .ok fields) :
    fields.length = circuit.eddsaOwnerPk.isSome.toNat := by
  unfold eddsaOwnerFields at h
  split at h
  case h_1 hnone =>
    cases h
    rw [hnone]
    rfl
  case h_2 ownerPk hsome =>
    obtain ⟨identity, _, h⟩ := of_bind_ok h
    cases h
    rw [hsome]
    rfl

theorem length_defaultOwnerFields {circuit : CircuitId} (h : defaultOwnerFields hashv circuit = .ok fields) :
    fields.length = circuit.isAnonymous.toNat := by
  unfold defaultOwnerFields at h
  split at h
  case isTrue hanonymous =>
    rw [hanonymous]
    split at h
    case h_1 =>
      cases h
      rfl
    case h_2 =>
      obtain ⟨identity, _, h⟩ := of_bind_ok h
      cases h
      rfl
  case isFalse hanonymous =>
    cases h
    simp [hanonymous]

/-! ### The layout -/

/-- The public inputs of a transact, each with what it is computed from. -/
structure PublicInputs (hashv : Hashv) (sha256 : Sha256) (ix : TransactIxData)
    (derived : TransactProofInputs) (fields : List Bytes32) where
  nullifierChain : Bytes32
  outputChain : Bytes32
  treeSlots : Bytes32
  message : List Bytes32
  eddsaOwner : List Bytes32
  defaultOwner : List Bytes32
  slots : List Bytes32
  signers : Bytes32
  owners : List Bytes32
  nullifierChain_eq : createPaddedRightHashChain4 hashv (ix.inputs.map (·.nullifierHash))
    ix.circuit.numInputs = .ok nullifierChain
  outputChain_eq : createPaddedRightHashChain4 hashv (ix.outputs.map (·.utxoHash))
    ix.circuit.numOutputs = .ok outputChain
  treeSlots_eq : populatedTreeSlotsHashChain hashv derived.treeSlots = .ok treeSlots
  message_eq : messageFields hashv sha256 ix derived = .ok message
  eddsaOwner_eq : eddsaOwnerFields hashv ix.circuit = .ok eddsaOwner
  defaultOwner_eq : defaultOwnerFields hashv ix.circuit = .ok defaultOwner
  slots_eq : publicSlotFields ((derived.publicSlotAssets.take ix.circuit.numPublicAssetSlots).zip
    (derived.publicSlotAmounts.take ix.circuit.numPublicAssetSlots)) = .ok slots
  signers_eq : fixedSignerHashChain hashv derived.signerPkHashes (signerChainWidth ix.circuit) = .ok signers
  owners_eq : ownerFields hashv ix.circuit derived = .ok owners
  bounds : ix.circuit.numOutputs ≤ derived.outputOwnerPkHashes.length ∧
    ix.circuit.numPublicAssetSlots ≤ derived.publicSlotAssets.length ∧
    ix.circuit.numPublicAssetSlots ≤ derived.publicSlotAmounts.length
  fields_eq : fields =
    [nullifierChain, outputChain, treeSlots, derived.outputTreeId, ix.privateTxHash] ++ (message ++
      (eddsaOwner ++ (defaultOwner ++ ([derived.externalDataHash] ++ (slots ++
        ([derived.ringProgramId, signers, derived.inputFlags] ++ owners))))))

theorem publicInputFields_eq_ok {ix : TransactIxData} {derived : TransactProofInputs}
    (h : publicInputFields hashv sha256 ix derived = .ok fields) :
    Nonempty (PublicInputs hashv sha256 ix derived fields) := by
  unfold publicInputFields at h
  dsimp only at h
  split at h
  case isTrue => cases h
  case isFalse hbounds =>
  push Not at hbounds
  obtain ⟨nullifierChain, hnullifiers, h⟩ := of_bind_ok h
  obtain ⟨outputChain, houtputs, h⟩ := of_bind_ok h
  obtain ⟨treeSlots, htreeSlots, h⟩ := of_bind_ok h
  obtain ⟨message, hmessage, h⟩ := of_bind_ok h
  obtain ⟨eddsaOwner, heddsaOwner, h⟩ := of_bind_ok h
  obtain ⟨defaultOwner, hdefaultOwner, h⟩ := of_bind_ok h
  obtain ⟨slots, hslots, h⟩ := of_bind_ok h
  obtain ⟨signers, hsigners, h⟩ := of_bind_ok h
  obtain ⟨owners, howners, h⟩ := of_bind_ok h
  exact ⟨{ nullifierChain, outputChain, treeSlots, message, eddsaOwner, defaultOwner, slots, signers,
           owners
           nullifierChain_eq := hashed_eq_ok.mp hnullifiers
           outputChain_eq := hashed_eq_ok.mp houtputs
           treeSlots_eq := hashed_eq_ok.mp htreeSlots
           message_eq := hmessage
           eddsaOwner_eq := heddsaOwner
           defaultOwner_eq := hdefaultOwner
           slots_eq := hslots
           signers_eq := hsigners
           owners_eq := howners
           bounds := hbounds
           fields_eq := by
             rw [← Except.ok.inj h]
             simp only [List.append_assoc] }⟩

section Layout

variable {ix ix' : TransactIxData} {derived derived' : TransactProofInputs}
  {fields fields' : List Bytes32}

section

variable (inputs : PublicInputs hashv sha256 ix derived fields)

include inputs

theorem PublicInputs.length_slots : inputs.slots.length = 2 * ix.circuit.numPublicAssetSlots := by
  obtain ⟨_, hassets, hamounts⟩ := inputs.bounds
  rw [length_publicSlotFields inputs.slots_eq, List.length_zip, List.length_take, List.length_take,
    Nat.min_eq_left hassets, Nat.min_eq_left hamounts, Nat.min_self]

theorem PublicInputs.length_fields :
    fields.length = 5 + (ix.circuit.hasMessageHash.toNat + (ix.circuit.eddsaOwnerPk.isSome.toNat +
      (ix.circuit.isAnonymous.toNat + (1 + (2 * ix.circuit.numPublicAssetSlots +
        (3 + inputs.owners.length)))))) := by
  refine (congrArg List.length inputs.fields_eq).trans ?_
  simp only [List.length_append, List.length_cons, List.length_nil, inputs.length_slots,
    length_messageFields inputs.message_eq, length_eddsaOwnerFields inputs.eddsaOwner_eq,
    length_defaultOwnerFields inputs.defaultOwner_eq]

theorem PublicInputs.inj (inputs' : PublicInputs hashv sha256 ix' derived' fields)
    (hkind : ix.circuit.kind = ix'.circuit.kind) (hshape : ix.circuit.shape = ix'.circuit.shape) :
    inputs.nullifierChain = inputs'.nullifierChain ∧ inputs.outputChain = inputs'.outputChain ∧
      inputs.treeSlots = inputs'.treeSlots ∧ derived.outputTreeId = derived'.outputTreeId ∧
      ix.privateTxHash = ix'.privateTxHash ∧ derived.externalDataHash = derived'.externalDataHash ∧
      inputs.slots = inputs'.slots ∧ derived.ringProgramId = derived'.ringProgramId ∧
      inputs.signers = inputs'.signers ∧ derived.inputFlags = derived'.inputFlags ∧
      inputs.owners = inputs'.owners := by
  obtain ⟨hmessage, heddsa, hanonymous, _, _⟩ := CircuitId.layout_congr hkind
  have hslots : inputs.slots.length = inputs'.slots.length := by
    rw [inputs.length_slots, inputs'.length_slots, CircuitId.numPublicAssetSlots, hshape]
    rfl
  have h := inputs.fields_eq.symm.trans inputs'.fields_eq
  obtain ⟨hfirst, h⟩ := List.append_inj h rfl
  obtain ⟨_, h⟩ := List.append_inj h (by
    rw [length_messageFields inputs.message_eq, length_messageFields inputs'.message_eq, hmessage])
  obtain ⟨_, h⟩ := List.append_inj h (by
    rw [length_eddsaOwnerFields inputs.eddsaOwner_eq, length_eddsaOwnerFields inputs'.eddsaOwner_eq,
      heddsa])
  obtain ⟨_, h⟩ := List.append_inj h (by
    rw [length_defaultOwnerFields inputs.defaultOwner_eq,
      length_defaultOwnerFields inputs'.defaultOwner_eq, hanonymous])
  obtain ⟨hexternal, h⟩ := List.append_inj h rfl
  obtain ⟨hslotsEq, h⟩ := List.append_inj h hslots
  obtain ⟨hlast, howners⟩ := List.append_inj h rfl
  simp only [List.cons.injEq, and_true] at hfirst hexternal hlast
  obtain ⟨hnullifiers, houtputs, htreeSlots, houtputTree, hprivate⟩ := hfirst
  obtain ⟨hring, hsigners, hflags⟩ := hlast
  exact ⟨hnullifiers, houtputs, htreeSlots, houtputTree, hprivate, hexternal, hslotsEq, hring, hsigners,
    hflags, howners⟩

end

theorem ownerFields_eq_ok {circuit : CircuitId} {derived : TransactProofInputs} {fields : List Bytes32}
    (h : ownerFields hashv circuit derived = .ok fields) : (circuit.outputOwnerMode = .none ∧ fields = []) ∨
      ∃ owners cachedInputs, circuit.outputOwnerMode ≠ .none ∧
        createPaddedRightHashChain4 hashv (derived.outputOwnerPkHashes.take circuit.numOutputs)
          circuit.numOutputs = .ok owners ∧
        cachedInputFieldsOf circuit derived = .ok cachedInputs ∧
        fields = [owners, cachedInputs.1, cachedInputs.2] := by
  unfold ownerFields at h
  split at h
  case isTrue hmode =>
    obtain ⟨owners, howners, h⟩ := of_bind_ok h
    obtain ⟨cachedInputs, hcachedInputs, h⟩ := of_bind_ok h
    cases h
    exact .inr ⟨owners, cachedInputs, hmode, hashed_eq_ok.mp howners, hcachedInputs, rfl⟩
  case isFalse hmode =>
    cases h
    exact .inl ⟨not_not.mp hmode, rfl⟩

theorem length_ownerFields {circuit : CircuitId} {derived : TransactProofInputs} {fields : List Bytes32}
    (h : ownerFields hashv circuit derived = .ok fields) :
    fields.length = if circuit.outputOwnerMode = .none then 0 else 3 := by
  obtain ⟨hmode, rfl⟩ | ⟨owners, cachedInputs, hmode, _, _, rfl⟩ := ownerFields_eq_ok h
  · rw [if_pos hmode]
    rfl
  · rw [if_neg hmode]
    rfl

theorem publicInputHash_inj (hfree : hashv.CollisionFree) {digest : Bytes32}
    (hkind : ix.circuit.kind = ix'.circuit.kind) (hshape : ix.circuit.shape = ix'.circuit.shape)
    (h : publicInputHash hashv sha256 ix derived = .ok digest)
    (h' : publicInputHash hashv sha256 ix' derived' = .ok digest) :
    ∃ fields, Nonempty (PublicInputs hashv sha256 ix derived fields) ∧
      Nonempty (PublicInputs hashv sha256 ix' derived' fields) := by
  obtain ⟨fields, hfields, h⟩ := of_bind_ok h
  obtain ⟨fields', hfields', h'⟩ := of_bind_ok h'
  obtain ⟨inputs⟩ := publicInputFields_eq_ok hfields
  obtain ⟨inputs'⟩ := publicInputFields_eq_ok hfields'
  obtain ⟨hmessage, heddsa, hanonymous, _, hmode⟩ := CircuitId.layout_congr hkind
  have hlength : fields.length = fields'.length := by
    rw [inputs.length_fields, inputs'.length_fields, length_ownerFields inputs.owners_eq,
      length_ownerFields inputs'.owners_eq, hmessage, heddsa, hanonymous, hmode,
      CircuitId.numPublicAssetSlots, CircuitId.numPublicAssetSlots, hshape]
  obtain rfl := createHashChain4_inj hfree hlength (hashed_eq_ok.mp h) (hashed_eq_ok.mp h')
  exact ⟨fields, ⟨inputs⟩, ⟨inputs'⟩⟩

end Layout

end Verify

end Zolana
