import Zolana.Pool.MergeVerify
import Zolana.Proof.Binding
import Zolana.Proof.MergeCircuit
import Zolana.Proof.SpendRails
import Zolana.Proof.Transcript

/-!
# What a circuit publishes

A circuit computes its hash over slots of a fixed width, so what an instruction leaves out is zero there. Then its
hash is the one that the program computes of the instruction.
-/

namespace Zolana

open Circuits Fallible Gates

variable {HEIGHT K : Nat}

/-! ### What a circuit publishes of a transact -/

namespace Circuits

variable {shape : Shape}

structure RailWitness.Publishes (w : RailWitness shape) (ix : TransactIxData) (derived : Verify.TransactProofInputs)
    (signerWidth : Nat) : Prop where
  nullifiers : w.nullifiers = padded (ix.inputs.map (·.nullifierHash))
  outputHashes : w.outputHashes = padded (ix.outputs.map (·.utxoHash))
  treeSlots : w.treeSlots = paddedSlots derived.treeSlots
  outputTreeId : w.outputTreeId = fieldOf derived.outputTreeId
  privateTxHash : w.privateTxHash = fieldOf ix.privateTxHash
  externalDataHash : w.externalDataHash = fieldOf derived.externalDataHash
  publicAssets : w.publicAssets = padded derived.publicSlotAssets
  publicAmounts : w.publicAmounts = fun k : Fin nPublicSlots => ((derived.publicSlotAmounts.getD k 0 : Int) : Fr)
  inputFlags : w.inputFlags = fieldOf derived.inputFlags
  signerPkHashes : w.signerPkHashes = List.ofFn (padded derived.signerPkHashes : Fin signerWidth → Fr)

/-- The cached inputs are those of a selection: a tree and the hashes read. -/
structure CachedInputs.Publishes (poseidon : Poseidon) {nInputs : Nat} (cached : CachedInputs nInputs)
    (selection : Option (UInt16 × List Bytes32)) : Prop where
  treeId : cached.treeId = selection.elim 0 fun selected => fieldOf (treeIdField selected.1)
  readHashes : cached.readHashes = padded (selection.elim [] Prod.snd)
  readHashChain : rightHashChain4 poseidon (List.ofFn cached.readHashes) = some cached.readHashChain

namespace SpendCircuit

def kind : SpendCircuit shape → CircuitKind
  | defaultConfidential _ => .confidentialSigner
  | defaultInCircuitEddsa _ => .confidentialEddsa
  | customConfidential _ => .confidentialRingEddsa
  | customAnonymous _ => .anonymousRingEddsa
  | ringAuthority _ => .ringAuthority

def signerWidth : SpendCircuit shape → Nat
  | ringAuthority _ => 1
  | _ => shape.signerWidth.toNat

def ringProgramId : SpendCircuit shape → Fr
  | defaultConfidential _ | defaultInCircuitEddsa _ => 0
  | customConfidential c => c.ringProgramId
  | customAnonymous c => c.ringProgramId
  | ringAuthority c => c.ringProgramId

def publicTransaction (env : CircuitEnv) : SpendCircuit shape → Option (Transaction shape)
  | defaultConfidential c => c.newTransaction env
  | defaultInCircuitEddsa c => do
    let owners ← each fun i => solanaOwnerIdentityBounded env.poseidon (c.ownerPublicKeys i)
    let messageHash ← hashBoundedBytes env.poseidon (messageBytes c.messageHashLow c.messageHashHigh)
    c.newTransaction env (List.ofFn owners) messageHash
  | customConfidential c => c.newTransaction env
  | customAnonymous c => do
    let messageHash ← hashBoundedBytes env.poseidon (messageBytes c.messageHashLow c.messageHashHigh)
    c.newTransaction env messageHash
  | ringAuthority c => c.newTransaction env

def publicInputHashOf (env : CircuitEnv) (c : SpendCircuit shape) : Option Fr := do
  let t ← c.publicTransaction env
  t.publicInputHashCircuit env.poseidon

/-- The limbs are those of the digest that an owner signs. -/
def SignsDigest (sha256 : Sha256) (ix : TransactIxData) (derived : Verify.TransactProofInputs)
    (messageHashLow messageHashHigh : Fr) : Prop :=
  ∃ digest, sha256 (writeBytes32 ix.privateTxHash ++ writeBytes32 derived.externalDataHash) = .ok digest ∧
    messageHashLow = lowLimb digest ∧ messageHashHigh = highLimb digest

def PublishesSignature (poseidon : Poseidon) (sha256 : Sha256) (ix : TransactIxData)
    (derived : Verify.TransactProofInputs) : SpendCircuit shape → Prop
  | defaultInCircuitEddsa c => c.nSigners = 1 ∧
    (∀ i, some (c.ownerPublicKeys i) = ix.circuit.eddsaOwnerPk.map keyWires) ∧
    SignsDigest sha256 ix derived c.messageHashLow c.messageHashHigh
  | customAnonymous c => SignsDigest sha256 ix derived c.messageHashLow c.messageHashHigh ∧
    match ix.circuit.defaultOwnerTag with
    | none => c.defaultOwnerPkHash = 0
    | some owner => solanaOwnerIdentityBounded poseidon (keyWires owner) = some c.defaultOwnerPkHash
  | _ => True

/-- The circuit is the one of a transact, and publishes what the transact does, padded with zeros. -/
structure Publishes (poseidon : Poseidon) (sha256 : Sha256) (transact : AssembledTransact)
    (selection : Option (UInt16 × List Bytes32)) (c : SpendCircuit shape) : Prop where
  kind : c.kind = transact.ix.circuit.kind
  nInputs : shape.nInputs = transact.ix.circuit.numInputs
  nOutputs : shape.nOutputs = transact.ix.circuit.numOutputs
  witness : c.witness.Publishes transact.ix transact.proofInputs c.signerWidth
  ringProgramId : transact.ix.circuit.isRing = true → c.ringProgramId = fieldOf transact.proofInputs.ringProgramId
  ownerTags : c.isAuthority = false → c.publishedTags = padded transact.proofInputs.outputOwnerPkHashes
  cachedInputs : ∀ cached, c.cachedInputs = some cached → cached.Publishes poseidon selection
  signature : c.PublishesSignature poseidon sha256 transact.ix transact.proofInputs

theorem publicInputHashOf_of_proves {env : CircuitEnv} {c : SpendCircuit shape}
    {cachedInputs : Option (CachedInputs shape.nInputs)} {ringProgramId : Fr} {after tail : List Fr}
    {signers : Fin shape.nInputs → Fr} {signed : Fin shape.nOutputs → Prop}
    (hbuild : c.publicTransaction env = c.witness.transaction env.poseidon cachedInputs ringProgramId after tail)
    (h : c.witness.Proves env.poseidon cachedInputs ringProgramId after tail signers signed) :
    c.publicInputHashOf env = some c.witness.publicInputHash := by
  obtain ⟨chain, tree, utxoHash, ownNullifier, outputHash, hchain, h⟩ := h
  have ht := hbuild.trans (RailWitness.transaction_eq_some.mpr ⟨chain, hchain, rfl⟩)
  rw [publicInputHashOf, bind_of_eq_some ht]
  exact h.publicInputHash_eq

theorem publicInputHashOf_of_define {env : CircuitEnv} {c : SpendCircuit shape}
    (h : c.define env = some ()) : c.publicInputHashOf env = some c.witness.publicInputHash := by
  cases c with
  | defaultConfidential c =>
      obtain ⟨ownerChain, hownerChain, hproves⟩ :=
        (DefaultRingConfidentialEddsaCircuit.satisfied_of_define h).transaction
      exact publicInputHashOf_of_proves (bind_of_eq_some hownerChain) hproves
  | defaultInCircuitEddsa c =>
      obtain ⟨owners, h⟩ := DefaultRingConfidentialInCircuitEddsaCircuit.satisfied_of_define h
      obtain ⟨messageHash, signedChain, ownerChain, hmessage, hsigned, hownerChain, hproves⟩ := h.transaction
      have howners : (each fun i => solanaOwnerIdentityBounded env.poseidon (c.ownerPublicKeys i)) = some owners := by
        rw [each_eq_some]
        intro i
        obtain ⟨_, hsignature⟩ := h.signatures i
        exact (ownerAuthorization_eq_some.mp hsignature).2.2.1
      exact publicInputHashOf_of_proves ((bind_of_eq_some howners).trans ((bind_of_eq_some hmessage).trans
        ((bind_of_eq_some hsigned).trans (bind_of_eq_some hownerChain)))) hproves
  | customConfidential c =>
      obtain ⟨ownerChain, hownerChain, hproves⟩ :=
        (CustomRingConfidentialEddsaCircuit.satisfied_of_define h).transaction
      exact publicInputHashOf_of_proves (bind_of_eq_some hownerChain) hproves
  | customAnonymous c =>
      obtain ⟨hidden, messageHash, h⟩ := CustomRingAnonymousEddsaCircuit.define_eq_some.mp h
      obtain ⟨ownerChain, hownerChain, hproves⟩ := h.transaction
      obtain ⟨-, -, -, hmessage⟩ := ownerAuthorization_eq_some.mp h.signature
      exact publicInputHashOf_of_proves ((bind_of_eq_some hmessage).trans (bind_of_eq_some hownerChain)) hproves
  | ringAuthority c =>
      exact publicInputHashOf_of_proves rfl (CustomRingAuthorityCircuit.satisfied_of_define h).transaction

end SpendCircuit

end Circuits

/-! ### Fields -/

section Fields

variable {hashv : Hashv} {poseidon : Poseidon} {sha256 : Sha256}

theorem amountField_fieldOf {amount : Int} {field : Bytes32} (h : Verify.amountField amount = .ok field) :
    fieldOf field = (amount : Fr) := by
  have hlt := Verify.natAbs_lt_of_amountField h
  rw [Verify.amountField_eq hlt, toNat_bn254ScalarModulusBe] at h
  have hpositive : (0 : Int) < fieldModulus := by norm_num [fieldModulus]
  have hnonneg := Int.emod_nonneg amount hpositive.ne'
  have hbound := Int.emod_lt_of_pos amount hpositive
  have hmod : (amount % (fieldModulus : Int)).toNat < 2 ^ 256 :=
    lt_of_lt_of_le ((Int.toNat_lt hnonneg).mpr hbound) (by norm_num [fieldModulus])
  rw [← Except.ok.inj h, fieldOf, BitVec.toNat_ofNat, Nat.mod_eq_of_lt hmod, ← Int.cast_natCast,
    Int.toNat_of_nonneg hnonneg, ZMod.intCast_mod]

theorem publicSlotFields_fieldOf {slots : List (Bytes32 × Int)} {fields : List Bytes32}
    (h : Verify.publicSlotFields slots = .ok fields) :
    fields.map fieldOf = slots.flatMap fun slot => [fieldOf slot.1, (slot.2 : Fr)] := by
  induction slots generalizing fields with
  | nil =>
      cases h
      rfl
  | cons slot slots ih =>
      obtain ⟨amount, hamount, h⟩ := of_bind_ok h
      obtain ⟨rest, hrest, h⟩ := of_bind_ok h
      cases h
      rw [List.map_cons, List.map_cons, ih hrest, amountField_fieldOf hamount]
      rfl

theorem publicSlots_eq_flatMap {assets : List Bytes32} {amounts : List Int}
    (hassets : assets.length = Circuits.nPublicSlots) (hamounts : amounts.length = Circuits.nPublicSlots) :
    ((List.finRange Circuits.nPublicSlots).flatMap fun i => [padded assets i, ((amounts.getD i 0 : Int) : Fr)]) =
      (assets.zip amounts).flatMap fun slot => [fieldOf slot.1, (slot.2 : Fr)] := by
  obtain ⟨asset₀, asset₁, asset₂, rfl⟩ := List.length_eq_three.mp hassets
  obtain ⟨amount₀, amount₁, amount₂, rfl⟩ := List.length_eq_three.mp hamounts
  rfl

theorem padded_take {n : Nat} (values : List Bytes32) :
    (padded (values.take n) : Fin n → Fr) = padded values := by
  funext i
  rw [padded, padded, List.getD_eq_getElem?_getD, List.getElem?_take_of_lt i.isLt, List.getD_eq_getElem?_getD]

section

variable (himplements : hashv.Implements poseidon)

include himplements

theorem Circuits.CachedInputs.Publishes.fields_eq (hsuffix : hashv.DerivesZeroSuffixChains)
    {nInputs : Nat} {cached : CachedInputs nInputs} {selection : Option (UInt16 × List Bytes32)}
    {fields : Bytes32 × Bytes32} (h : cached.Publishes poseidon selection)
    (hfields : PublishesSelection hashv nInputs selection fields) :
    cached.treeId = fieldOf fields.1 ∧ cached.readHashChain = fieldOf fields.2 := by
  have hchain := h.readHashChain
  rw [h.readHashes] at hchain
  rw [h.treeId]
  match selection, hfields with
  | none, ⟨hid, hpadded⟩ =>
      rw [hid]
      exact ⟨fieldOf_zero.symm, Option.some.inj
        (hchain.symm.trans (createPaddedRightHashChain4_fieldOf himplements hsuffix hpadded))⟩
  | some (treeId, hashes), ⟨hid, _, _, hpadded⟩ =>
      rw [hid]
      exact ⟨rfl, Option.some.inj
        (hchain.symm.trans (createPaddedRightHashChain4_fieldOf himplements hsuffix hpadded))⟩

variable {fields : List Bytes32}

theorem Circuits.RailWitness.Publishes.publicInputHash_eq (hsuffix : hashv.DerivesZeroSuffixChains)
    (hslots : hashv.DerivesZeroTreeSlots) (hsigners : Verify.DerivesSignerZeroSuffixChains hashv)
    {shape : Shape} {w : RailWitness shape} {ix : TransactIxData}
    {derived : Verify.TransactProofInputs} {digest : Bytes32}
    (h : w.Publishes ix derived (Verify.signerChainWidth ix.circuit))
    (inputs : Verify.PublicInputs hashv sha256 ix derived fields)
    (hdigest : createHashChain4 hashv fields = .ok digest) (hnInputs : shape.nInputs = ix.circuit.numInputs)
    (hnOutputs : shape.nOutputs = ix.circuit.numOutputs)
    (hnum : ix.circuit.numPublicAssetSlots = Circuits.nPublicSlots)
    (hassets : derived.publicSlotAssets.length = Circuits.nPublicSlots)
    (hamounts : derived.publicSlotAmounts.length = Circuits.nPublicSlots)
    {cachedInputs : Option (CachedInputs shape.nInputs)} {ringProgramId : Fr} {after tail : List Fr}
    (hring : ringProgramId = fieldOf derived.ringProgramId)
    (hafter : after = (inputs.message ++ (inputs.eddsaOwner ++ inputs.defaultOwner)).map fieldOf)
    (htail : ∀ chain, (w.toTransaction cachedInputs ringProgramId chain after tail).preparedTail = inputs.owners.map fieldOf) :
    ∃ t, w.transaction poseidon cachedInputs ringProgramId after tail = some t ∧
      t.publicInputHashCircuit poseidon = some (fieldOf digest) := by
  have hchain := fixedSignerHashChain_fieldOf himplements hsigners inputs.signers_eq
  rw [← h.signerPkHashes] at hchain
  refine ⟨_, RailWitness.transaction_eq_some.mpr ⟨_, hchain, rfl⟩, ?_⟩
  have hnullifiers : rightHashChain4 poseidon (List.ofFn w.nullifiers) = some (fieldOf inputs.nullifierChain) := by
    have hpadded := inputs.nullifierChain_eq
    rw [← hnInputs] at hpadded
    rw [h.nullifiers]
    exact createPaddedRightHashChain4_fieldOf himplements hsuffix hpadded
  have houtputs : rightHashChain4 poseidon (List.ofFn w.outputHashes) = some (fieldOf inputs.outputChain) := by
    have hpadded := inputs.outputChain_eq
    rw [← hnOutputs] at hpadded
    rw [h.outputHashes]
    exact createPaddedRightHashChain4_fieldOf himplements hsuffix hpadded
  have htrees : Circuits.treeSlotsHashChain poseidon w.treeSlots = some (fieldOf inputs.treeSlots) := by
    rw [h.treeSlots]
    exact populatedTreeSlotsHashChain_fieldOf himplements hslots inputs.treeSlots_eq
  have hpublic : ((List.finRange Circuits.nPublicSlots).flatMap fun i => [w.publicAssets i, w.publicAmounts i]) =
      inputs.slots.map fieldOf := by
    have hfields := inputs.slots_eq
    rw [hnum, List.take_of_length_le hassets.le, List.take_of_length_le hamounts.le] at hfields
    rw [publicSlotFields_fieldOf hfields, ← publicSlots_eq_flatMap hassets hamounts, h.publicAssets, h.publicAmounts]
  have hfields := congrArg (List.map fieldOf) inputs.fields_eq
  simp only [List.map_append, List.map_cons, List.map_nil] at hfields hafter
  refine (bind_of_eq_some hnullifiers).trans ((bind_of_eq_some houtputs).trans ((bind_of_eq_some htrees).trans ?_))
  refine Eq.trans (congrArg (hashChain4 poseidon) ?_) (createHashChain4_fieldOf himplements hdigest)
  rw [htail, Transaction.publicSlots]
  dsimp only [RailWitness.toTransaction]
  rw [hpublic, hfields, hafter, hring, h.outputTreeId, h.privateTxHash, h.externalDataHash, h.inputFlags]
  simp only [List.append_assoc]

theorem messageFields_fieldOf {ix : TransactIxData} {derived : Verify.TransactProofInputs}
    {messageHashLow messageHashHigh : Fr} (hmessage : ix.circuit.hasMessageHash = true)
    (h : Verify.messageFields hashv sha256 ix derived = .ok fields)
    (hsigns : SpendCircuit.SignsDigest sha256 ix derived messageHashLow messageHashHigh) :
    ∃ messageHash, hashBoundedBytes poseidon (messageBytes messageHashLow messageHashHigh) = some messageHash ∧
      fields.map fieldOf = [messageHash] := by
  obtain ⟨digest, hdigest, rfl, rfl⟩ := hsigns
  rw [Verify.messageFields, if_pos hmessage, hdigest] at h
  obtain ⟨field, hfield, h⟩ := of_bind_ok h
  cases h
  refine ⟨fieldOf field, ?_, rfl⟩
  rw [messageBytes_eq]
  exact hashBytes_fieldOf himplements (Verify.hashed_eq_ok.mp hfield)

theorem eddsaOwnerFields_fieldOf {circuit : CircuitId} {pk : Bytes32}
    (hpk : circuit.eddsaOwnerPk = some pk) (h : Verify.eddsaOwnerFields hashv circuit = .ok fields) :
    ∃ identity, solanaOwnerIdentityBounded poseidon (keyWires pk) = some identity ∧
      fields.map fieldOf = [identity] := by
  rw [Verify.eddsaOwnerFields, hpk] at h
  obtain ⟨identity, hidentity, h⟩ := of_bind_ok h
  cases h
  exact ⟨fieldOf identity, solanaOwnerIdentity_fieldOf himplements (Verify.hashed_eq_ok.mp hidentity), rfl⟩

theorem defaultOwnerFields_fieldOf {circuit : CircuitId} {defaultOwnerPkHash : Fr}
    (hanonymous : circuit.isAnonymous = true) (h : Verify.defaultOwnerFields hashv circuit = .ok fields)
    (howner : match circuit.defaultOwnerTag with | none => defaultOwnerPkHash = 0 | some owner => solanaOwnerIdentityBounded poseidon (keyWires owner) = some defaultOwnerPkHash) :
    fields.map fieldOf = [defaultOwnerPkHash] := by
  rw [Verify.defaultOwnerFields, if_pos hanonymous] at h
  split at h
  case h_1 hnone =>
    rw [hnone] at howner
    cases h
    rw [howner]
    exact congrArg (· :: []) fieldOf_zero
  case h_2 owner hsome =>
    rw [hsome] at howner
    obtain ⟨identity, hidentity, h⟩ := of_bind_ok h
    cases h
    have hfield := solanaOwnerIdentity_fieldOf himplements (Verify.hashed_eq_ok.mp hidentity)
    exact congrArg (· :: []) (Option.some.inj (hfield.symm.trans howner))

end

end Fields

/-! ### Transacts -/

section Transact

variable {env : ChainEnv} {instruction : InstructionTag} {accounts : List AccountView} {data : List UInt8}
  {clock : Clock} {chain assembled : Chain HEIGHT K} {transact : AssembledTransact}

theorem TransactSteps.ringProgramId_eq_zero
    (steps : TransactSteps env instruction accounts data clock chain transact assembled)
    (hring : transact.ix.circuit.isRing = false) : transact.proofInputs.ringProgramId = 0 := by
  obtain ⟨_, _, _, _, _, _, _, _, hproofInputs⟩ := steps.proofInputs_cases
  rw [hproofInputs]
  have hparsed := steps.parsedAccounts
  rw [parseTransact, hring, if_neg Bool.false_ne_true] at hparsed
  obtain ⟨_, _, hparsed⟩ := of_bind_ok hparsed
  exact congrArg (·.2.ringProgramId) (Except.ok.inj hparsed).symm

variable {shape : Shape}

theorem signerWidth_eq {n : Nat} (hn : shape.nInputs = n) (hle : n ≤ zeroSuffixChainMaxWidth) :
    shape.signerWidth.toNat = signerWidth n := by
  subst hn
  unfold zeroSuffixChainMaxWidth at hle
  unfold Shape.signerWidth Circuits.ownerSignerSlots signerWidth ownerSignerSlots Circuits.maxTransactionAddresses
    Circuits.fixedTransactAddresses maxTransactionAddresses fixedTransactAddresses
  omega

theorem signerWidth_of_kind {c : SpendCircuit shape} {circuit : CircuitId}
    (hkind : c.kind = circuit.kind) (hn : shape.nInputs = circuit.numInputs)
    (hle : circuit.numInputs ≤ zeroSuffixChainMaxWidth) : c.signerWidth = Verify.signerChainWidth circuit := by
  have hwidth := signerWidth_eq hn hle
  cases c <;> cases circuit <;> first | exact hwidth | rfl | cases hkind

/-- A rail without a ring publishes zero for it. -/
theorem isRing_of_kind {c : SpendCircuit shape} {circuit : CircuitId} (hkind : c.kind = circuit.kind) :
    circuit.isRing = true ∨ circuit.isRing = false ∧ c.ringProgramId = 0 := by
  cases c <;> cases circuit <;> first | exact .inl rfl | exact .inr ⟨rfl, rfl⟩ | cases hkind

theorem ownerTail_eq {poseidon : Poseidon} (himplements : env.tree.hashv.Implements poseidon)
    (hsuffix : env.tree.hashv.DerivesZeroSuffixChains)
    (steps : TransactSteps env instruction accounts data clock chain transact assembled)
    (hnInputs : shape.nInputs = transact.ix.circuit.numInputs)
    (hnOutputs : shape.nOutputs = transact.ix.circuit.numOutputs)
    (hle : transact.ix.circuit.numInputs ≤ zeroSuffixChainMaxWidth)
    (hmode : transact.ix.circuit.outputOwnerMode ≠ .none) {fields : List Bytes32}
    (hfields : Verify.ownerFields env.tree.hashv transact.ix.circuit transact.proofInputs = .ok fields)
    {cached : CachedInputs shape.nInputs}
    (hcached : cached.Publishes poseidon (cachedSelection chain transact.cache transact.ix.circuit)) :
    ∃ ownerChain, rightHashChain4 poseidon
        (List.ofFn (padded transact.proofInputs.outputOwnerPkHashes : Fin shape.nOutputs → Fr)) = some ownerChain ∧
      [ownerChain, cached.treeId, cached.readHashChain] = fields.map fieldOf := by
  obtain ⟨hnone, -⟩ | ⟨owners, cachedInputs, -, howners, hcachedInputs, rfl⟩ := Verify.ownerFields_eq_ok hfields
  · exact absurd hnone hmode
  have hpositive : 0 < transact.ix.circuit.numInputs := hnInputs ▸ shape.nInputs_pos
  have hselection := steps.publishesSelection hpositive hle hcachedInputs
  rw [← hnInputs] at hselection
  obtain ⟨htreeId, hreadChain⟩ := hcached.fields_eq himplements hsuffix hselection
  rw [← hnOutputs] at howners
  refine ⟨fieldOf owners, ?_, ?_⟩
  · rw [← padded_take]
    exact createPaddedRightHashChain4_fieldOf himplements hsuffix howners
  · rw [htreeId, hreadChain]
    rfl

section Absent

variable {hashv : Hashv} {sha256 : Sha256} {ix : TransactIxData} {derived : Verify.TransactProofInputs}
  {fields : List Bytes32}

section

variable (inputs : Verify.PublicInputs hashv sha256 ix derived fields)

include inputs

theorem Verify.PublicInputs.eddsaOwner_eq_nil (h : ix.circuit.eddsaOwnerPk.isSome = false) :
    inputs.eddsaOwner = [] := by
  have hlength := Verify.length_eddsaOwnerFields inputs.eddsaOwner_eq
  rw [h] at hlength
  exact List.length_eq_zero_iff.mp hlength

theorem Verify.PublicInputs.defaultOwner_eq_nil (h : ix.circuit.isAnonymous = false) :
    inputs.defaultOwner = [] := by
  have hlength := Verify.length_defaultOwnerFields inputs.defaultOwner_eq
  rw [h] at hlength
  exact List.length_eq_zero_iff.mp hlength

/-- A rail without a signature in the witness puts nothing between the private transaction and the external data. -/
theorem Verify.PublicInputs.after_eq_nil (hmessage : ix.circuit.hasMessageHash = false)
    (heddsa : ix.circuit.eddsaOwnerPk.isSome = false) (hanonymous : ix.circuit.isAnonymous = false) :
    [] = (inputs.message ++ (inputs.eddsaOwner ++ inputs.defaultOwner)).map fieldOf := by
  have hlength := Verify.length_messageFields inputs.message_eq
  rw [hmessage] at hlength
  rw [List.length_eq_zero_iff.mp hlength, inputs.eddsaOwner_eq_nil heddsa, inputs.defaultOwner_eq_nil hanonymous]
  rfl

end

end Absent

section Spend

variable {circuitEnv : CircuitEnv} {c : SpendCircuit shape} {fields : List Bytes32} {digest : Bytes32}
  (himplements : env.tree.hashv.Implements circuitEnv.poseidon)
  (hsuffix : env.tree.hashv.DerivesZeroSuffixChains) (hslots : env.tree.hashv.DerivesZeroTreeSlots)
  (hsigners : Verify.DerivesSignerZeroSuffixChains env.tree.hashv)
  (steps : TransactSteps env instruction accounts data clock chain transact assembled)
  (h : c.Publishes circuitEnv.poseidon env.sha256 transact
    (cachedSelection chain transact.cache transact.ix.circuit))

include himplements hsuffix hslots hsigners steps h

section Fields

variable (inputs : Verify.PublicInputs env.tree.hashv env.sha256 transact.ix transact.proofInputs fields)
  (hdigest : createHashChain4 env.tree.hashv fields = .ok digest)

include hdigest

theorem transaction_publishes (cachedInputs : Option (CachedInputs shape.nInputs)) (tail after : List Fr)
    (hafter : after = (inputs.message ++ (inputs.eddsaOwner ++ inputs.defaultOwner)).map fieldOf)
    (htail : ∀ signerChain, (c.witness.toTransaction cachedInputs c.ringProgramId signerChain after tail).preparedTail =
      inputs.owners.map fieldOf) :
    ∃ t, c.witness.transaction circuitEnv.poseidon cachedInputs c.ringProgramId after tail = some t ∧
      t.publicInputHashCircuit circuitEnv.poseidon = some (fieldOf digest) := by
  have hle := width_le_of_createPaddedRightHashChain4 inputs.nullifierChain_eq
  obtain ⟨_, _, _, hnum⟩ := validateSelector_eq_ok steps.selector
  obtain ⟨hassets, hamounts⟩ := steps.length_publicSlots
  have hwitness := h.witness
  rw [signerWidth_of_kind h.kind h.nInputs hle] at hwitness
  have hring : c.ringProgramId = fieldOf transact.proofInputs.ringProgramId := by
    obtain hisRing | ⟨hisRing, hzero⟩ := isRing_of_kind h.kind
    · exact h.ringProgramId hisRing
    · rw [hzero, steps.ringProgramId_eq_zero hisRing]
      exact fieldOf_zero.symm
  exact hwitness.publicInputHash_eq himplements hsuffix hslots hsigners inputs hdigest h.nInputs h.nOutputs hnum
    (hassets.trans hnum) (hamounts.trans hnum) hring hafter htail

/-- The rails but the authority's end in the chain of the owners and the cached inputs. -/
theorem ownedTransaction_publishes (cached : CachedInputs shape.nInputs) (mode : OutputOwnerMode) (after : List Fr)
    (hmode : transact.ix.circuit.outputOwnerMode = mode) (howned : mode ≠ .none) (hauthority : c.isAuthority = false)
    (hcached : c.cachedInputs = some cached)
    (hafter : after = (inputs.message ++ (inputs.eddsaOwner ++ inputs.defaultOwner)).map fieldOf) :
    ∃ ownerChain t, rightHashChain4 circuitEnv.poseidon (List.ofFn c.publishedTags) = some ownerChain ∧
      c.witness.transaction circuitEnv.poseidon (some cached) c.ringProgramId after [ownerChain] = some t ∧
      t.publicInputHashCircuit circuitEnv.poseidon = some (fieldOf digest) := by
  subst hmode
  obtain ⟨ownerChain, hownerChain, htail⟩ := ownerTail_eq himplements hsuffix steps h.nInputs h.nOutputs
    (width_le_of_createPaddedRightHashChain4 inputs.nullifierChain_eq) howned inputs.owners_eq
    (h.cachedInputs _ hcached)
  obtain ⟨t, ht, hhash⟩ := transaction_publishes himplements hsuffix hslots hsigners steps h inputs hdigest
    (some cached) [ownerChain] after hafter fun _ => htail
  rw [h.ownerTags hauthority]
  exact ⟨ownerChain, t, hownerChain, ht, hhash⟩

end Fields

theorem publicInputHashOf_eq
    (hhash : Verify.publicInputHash env.tree.hashv env.sha256 transact.ix transact.proofInputs = .ok digest) :
    c.publicInputHashOf circuitEnv = some (fieldOf digest) := by
  obtain ⟨fields, hfields, hdigest⟩ := of_bind_ok hhash
  obtain ⟨inputs⟩ := Verify.publicInputFields_eq_ok hfields
  rw [Verify.hashed_eq_ok] at hdigest
  have hassemble := transaction_publishes himplements hsuffix hslots hsigners steps h inputs hdigest
  have hrail := ownedTransaction_publishes himplements hsuffix hslots hsigners steps h inputs hdigest
  cases c with
  | defaultConfidential c =>
      obtain ⟨hmessage, heddsa, hanonymous, -, hmode⟩ :=
        @CircuitId.layout_congr _ (.confidentialSigner transact.ix.circuit.shape) h.kind.symm
      obtain ⟨ownerChain, t, hownerChain, ht, hhash⟩ := hrail _ _ _ hmode OutputOwnerMode.noConfusion rfl rfl
        (inputs.after_eq_nil hmessage heddsa hanonymous)
      exact Option.bind_eq_some_iff.mpr ⟨t, (bind_of_eq_some hownerChain).trans ht, hhash⟩
  | defaultInCircuitEddsa c =>
      obtain ⟨hmessage, heddsa, hanonymous, -, hmode⟩ :=
        @CircuitId.layout_congr _ (.confidentialEddsa transact.ix.circuit.shape ⟨⟨0, 0⟩, 0⟩) h.kind.symm
      obtain ⟨hnSigners, hkeys, hsigns⟩ := h.signature
      obtain ⟨pk, hpk⟩ := Option.isSome_iff_exists.mp heddsa
      obtain ⟨messageHash, hmessageHash, hmessageField⟩ :=
        messageFields_fieldOf himplements hmessage inputs.message_eq hsigns
      obtain ⟨identity, hidentity, hownerField⟩ := eddsaOwnerFields_fieldOf himplements hpk inputs.eddsaOwner_eq
      have howners : (each fun i => solanaOwnerIdentityBounded circuitEnv.poseidon (c.ownerPublicKeys i)) =
          some fun _ => identity := by
        rw [each_eq_some]
        intro i
        have hkey := hkeys i
        rw [hpk] at hkey
        rw [Option.some.inj hkey]
        exact hidentity
      have hsigned : rightHashChain4 circuitEnv.poseidon (List.ofFn fun _ : Fin c.nSigners => identity) =
          some identity := by
        rw [List.ofFn_const, hnSigners]
        rfl
      have hafter : [messageHash, identity] =
          (inputs.message ++ (inputs.eddsaOwner ++ inputs.defaultOwner)).map fieldOf := by
        rw [List.map_append, List.map_append, hmessageField, hownerField, inputs.defaultOwner_eq_nil hanonymous]
        rfl
      obtain ⟨ownerChain, t, hownerChain, ht, hhash⟩ := hrail _ _ _ hmode OutputOwnerMode.noConfusion rfl rfl hafter
      refine Option.bind_eq_some_iff.mpr ⟨t, ?_, hhash⟩
      exact (bind_of_eq_some howners).trans ((bind_of_eq_some hmessageHash).trans
        ((bind_of_eq_some hsigned).trans ((bind_of_eq_some hownerChain).trans ht)))
  | customConfidential c =>
      obtain ⟨hmessage, heddsa, hanonymous, -, hmode⟩ :=
        @CircuitId.layout_congr _ (.confidentialRingEddsa transact.ix.circuit.shape) h.kind.symm
      obtain ⟨ownerChain, t, hownerChain, ht, hhash⟩ := hrail _ _ _ hmode OutputOwnerMode.noConfusion rfl rfl
        (inputs.after_eq_nil hmessage heddsa hanonymous)
      exact Option.bind_eq_some_iff.mpr ⟨t, (bind_of_eq_some hownerChain).trans ht, hhash⟩
  | customAnonymous c =>
      obtain ⟨hmessage, heddsa, hanonymous, -, hmode⟩ :=
        @CircuitId.layout_congr _ (.anonymousRingEddsa transact.ix.circuit.shape ⟨⟨0, 0⟩, none⟩) h.kind.symm
      obtain ⟨hsigns, hdefault⟩ := h.signature
      obtain ⟨messageHash, hmessageHash, hmessageField⟩ :=
        messageFields_fieldOf himplements hmessage inputs.message_eq hsigns
      have hdefaultField := defaultOwnerFields_fieldOf himplements hanonymous inputs.defaultOwner_eq hdefault
      have hafter : [messageHash, c.defaultOwnerPkHash] =
          (inputs.message ++ (inputs.eddsaOwner ++ inputs.defaultOwner)).map fieldOf := by
        rw [List.map_append, List.map_append, hmessageField, hdefaultField, inputs.eddsaOwner_eq_nil heddsa]
        rfl
      obtain ⟨ownerChain, t, hownerChain, ht, hhash⟩ := hrail _ _ _ hmode OutputOwnerMode.noConfusion rfl rfl hafter
      have hnew : c.newTransaction circuitEnv messageHash = some t := (bind_of_eq_some hownerChain).trans ht
      have ht : (SpendCircuit.customAnonymous c).publicTransaction circuitEnv = some t :=
        (bind_of_eq_some hmessageHash).trans hnew
      rw [SpendCircuit.publicInputHashOf, bind_of_eq_some ht]
      exact hhash
  | ringAuthority c =>
      obtain ⟨hmessage, heddsa, hanonymous, -, hmode⟩ :=
        @CircuitId.layout_congr _ (.ringAuthority transact.ix.circuit.shape) h.kind.symm
      have htail : [] = inputs.owners.map fieldOf := by
        have hlength := Verify.length_ownerFields inputs.owners_eq
        rw [hmode] at hlength
        rw [List.length_eq_zero_iff.mp hlength]
        rfl
      obtain ⟨t, ht, hhash⟩ := hassemble none [] _ (inputs.after_eq_nil hmessage heddsa hanonymous) fun _ => htail
      exact Option.bind_eq_some_iff.mpr ⟨t, ht, hhash⟩

end Spend

end Transact

/-! ### Merges -/

namespace Circuits.Merge

structure CommonPublicInputs.Publishes {n : Nat} (p : CommonPublicInputs n) (ix : MergeTransactIxData)
    (derived : Verify.MergeProofInputs) : Prop where
  nullifiers : p.nullifiers = padded ix.nullifiers
  outputHash : p.outputHash = fieldOf ix.outputUtxoHash
  treeSlots : p.treeSlots = paddedSlots [derived.treeSlot]
  outputTreeId : p.outputTreeId = fieldOf derived.outputTreeId
  privateTxHash : p.privateTxHash = fieldOf ix.privateTxHash
  externalDataHash : p.externalDataHash = fieldOf derived.externalDataHash
  allowDummyInputs : p.allowDummyInputs = fieldOf derived.allowDummyInputs

namespace MergeCircuit

variable {n : InputCount}

def common : MergeCircuit n → CommonPublicInputs n.count
  | default c => c.common
  | ring c => c.common

def publicInputHash : MergeCircuit n → Fr
  | default c => c.publicInputHash
  | ring c => c.publicInputHash

/-- What follows the common public inputs. A ring publishes no ciphertext. -/
def tail (encryption : List Fr) : MergeCircuit n → List Fr
  | default c => [c.userSigningPkHash, c.userNullifierPk] ++ encryption
  | ring c => [c.outputRingDataHash, c.ringProgramId]

def publicInputHashOf (poseidon : Poseidon) (encryption : List Fr) (c : MergeCircuit n) : Option Fr := do
  let fields ← c.common.preimage poseidon
  hashChain4 poseidon (fields ++ c.tail encryption)

/-- The circuit is the one of a merge, and publishes what the merge does, padded with zeros. -/
structure Publishes (ix : MergeTransactIxData) (derived : Verify.MergeProofInputs) (encryption : List Fr)
    (c : MergeCircuit n) : Prop where
  width : mergeCircuitWidth ix.nullifiers.length = some n.count
  common : c.common.Publishes ix derived
  tail : match c, derived.ownerBinding with
    | default c, .default signingPkField nullifierPk outputEncryption =>
      c.userSigningPkHash = fieldOf signingPkField ∧ c.userNullifierPk = fieldOf nullifierPk ∧
        encryption = outputEncryption.publicInputs.map fieldOf
    | ring c, .ring ringProgramId outputRingDataHash =>
      c.outputRingDataHash = fieldOf outputRingDataHash ∧ c.ringProgramId = fieldOf ringProgramId
    | _, _ => False

variable {encryption : List Fr} {c : MergeCircuit n}

theorem Publishes.tail_eq {ix : MergeTransactIxData} {derived : Verify.MergeProofInputs}
    (h : c.Publishes ix derived encryption) : c.tail encryption = derived.ownerBinding.fields.map fieldOf := by
  have htail := h.tail
  cases c <;> cases hbinding : derived.ownerBinding <;> rw [hbinding] at htail
  · obtain ⟨hsigning, hnullifierPk, rfl⟩ := htail
    rw [MergeCircuit.tail, hsigning, hnullifierPk]
    rfl
  · exact htail.elim
  · exact htail.elim
  · obtain ⟨hdata, hring⟩ := htail
    rw [MergeCircuit.tail, hdata, hring]
    rfl

def Encrypts (poseidon : Poseidon) (encryption : List Fr) : MergeCircuit n → Prop
  | default c => ∃ derived, c.transaction.constrain poseidon = some derived ∧
    c.outputEncryption poseidon derived = some encryption
  | ring _ => True

theorem publicInputHashOf_of_define {poseidon : Poseidon} (h : c.define poseidon = some ())
    (hencrypts : c.Encrypts poseidon encryption) :
    c.publicInputHashOf poseidon encryption = some c.publicInputHash := by
  cases c with
  | default c =>
      obtain ⟨derived, hderived, hencryption⟩ := hencrypts
      obtain ⟨-, h⟩ := of_bind_unit h
      rw [bind_of_eq_some hderived] at h
      obtain ⟨-, h⟩ := of_bind_unit h
      obtain ⟨fields, hfields, h⟩ := of_bind_some h
      rw [bind_of_eq_some hencryption] at h
      obtain ⟨hash, hhash, h⟩ := of_bind_some h
      rw [← assertIsEqual_eq_some.mp h, List.append_assoc] at hhash
      exact (bind_of_eq_some hfields).trans hhash
  | ring c =>
      obtain ⟨-, h⟩ := of_bind_unit h
      obtain ⟨_, -, h⟩ := of_bind_some h
      obtain ⟨-, h⟩ := of_bind_unit h
      obtain ⟨fields, hfields, h⟩ := of_bind_some h
      obtain ⟨hash, hhash, h⟩ := of_bind_some h
      rw [← assertIsEqual_eq_some.mp h] at hhash
      exact (bind_of_eq_some hfields).trans hhash

/-- The program hashes what the merges share first, which is seven fields and so whole groups. -/
theorem publicInputHashOf_eq {hashv : Hashv} {poseidon : Poseidon}
    (himplements : hashv.Implements poseidon) (hsuffix : hashv.DerivesZeroSuffixChains)
    (hslots : hashv.DerivesZeroTreeSlots) {ix : MergeTransactIxData}
    {derived : Verify.MergeProofInputs} {digest : Bytes32}
    (hhash : Verify.mergePublicInputHash hashv ix derived = .ok digest)
    (h : c.Publishes ix derived encryption) :
    c.publicInputHashOf poseidon encryption = some (fieldOf digest) := by
  rw [Verify.mergePublicInputHash, Verify.mergeWidth, h.width] at hhash
  obtain ⟨_, hwidth, hhash⟩ := of_bind_ok hhash
  cases hwidth
  obtain ⟨nullifierChain, hnullifiers, hhash⟩ := of_bind_ok hhash
  obtain ⟨treeSlots, htreeSlots, hhash⟩ := of_bind_ok hhash
  obtain ⟨commonHash, hcommon, hhash⟩ := of_bind_ok hhash
  have hcommonHash := createHashChain4_fieldOf himplements (Verify.hashed_eq_ok.mp hcommon)
  have hdigest := createHashChain4_fieldOf himplements (Verify.hashed_eq_ok.mp hhash)
  have hnullifierChain : rightHashChain4 poseidon (List.ofFn c.common.nullifiers) = some (fieldOf nullifierChain) := by
    rw [h.common.nullifiers]
    exact createPaddedRightHashChain4_fieldOf himplements hsuffix (Verify.hashed_eq_ok.mp hnullifiers)
  have htrees : Circuits.treeSlotsHashChain poseidon c.common.treeSlots = some (fieldOf treeSlots) := by
    rw [h.common.treeSlots]
    exact populatedTreeSlotsHashChain_fieldOf himplements hslots (Verify.hashed_eq_ok.mp htreeSlots)
  have hpreimage : c.common.preimage poseidon = some _ :=
    (bind_of_eq_some hnullifierChain).trans (bind_of_eq_some htrees)
  rw [publicInputHashOf, bind_of_eq_some hpreimage, h.tail_eq, h.common.outputHash, h.common.outputTreeId,
    h.common.privateTxHash, h.common.externalDataHash, h.common.allowDummyInputs]
  obtain ⟨first, hfirst, hcommonHash⟩ := of_bind_some hcommonHash
  obtain ⟨second, hsecond, hcommonHash⟩ := of_bind_some hcommonHash
  obtain rfl := Option.some.inj hcommonHash
  exact (bind_of_eq_some hfirst).trans ((bind_of_eq_some hsecond).trans hdigest)

end MergeCircuit

end Circuits.Merge

end Zolana
