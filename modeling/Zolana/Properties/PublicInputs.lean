import Zolana.Lib.Oracle
import Zolana.Proof.Binding
import Zolana.Properties.DoubleSpend

/-!
# The public input hash binds a transact

Two transacts for one circuit that reach the proof check with the same public input hash agree on
everything the proof speaks about. The lists have no length of their own in the hash: they are padded to
the width of the circuit, and tell their length only because no entry looks like padding.
-/

namespace Zolana

open Fallible Fold

variable {HEIGHT K : Nat}

/-- The signers whose identities a transact publishes, each at its first occurrence. -/
def AssembledTransact.uniqueSigners (transact : AssembledTransact) : List Address :=
  firstOccurrences [] (if transact.ix.circuit.requiresInputSignatures then
    transact.accounts.ownerSigners.map (·.address) else [transact.accounts.payer.address])

/-- What two transacts share when a proof cannot tell them apart. -/
structure SamePublicInputs (chain chain' : Chain HEIGHT K) (transact transact' : AssembledTransact) : Prop where
  nullifiers : transact.ix.inputs.map (·.nullifierHash) = transact'.ix.inputs.map (·.nullifierHash)
  outputs : transact.ix.outputs.map (·.utxoHash) = transact'.ix.outputs.map (·.utxoHash)
  treeSlots : transact.proofInputs.treeSlots = transact'.proofInputs.treeSlots
  treeIndexes : transact.ix.inputs.map (·.treeIndex) = transact'.ix.inputs.map (·.treeIndex)
  allowDummyInputs : inputFlagsAllowDummy transact.proofInputs.inputFlags =
    inputFlagsAllowDummy transact'.proofInputs.inputFlags
  outputTreeId : transact.proofInputs.outputTreeId = transact'.proofInputs.outputTreeId
  privateTxHash : transact.ix.privateTxHash = transact'.ix.privateTxHash
  externalDataHash : transact.proofInputs.externalDataHash = transact'.proofInputs.externalDataHash
  publicSlotAssets : transact.proofInputs.publicSlotAssets = transact'.proofInputs.publicSlotAssets
  publicSlotAmounts : transact.proofInputs.publicSlotAmounts = transact'.proofInputs.publicSlotAmounts
  ringProgramId : transact.proofInputs.ringProgramId = transact'.proofInputs.ringProgramId
  uniqueSigners : transact.uniqueSigners = transact'.uniqueSigners
  signerPkHashes : transact.proofInputs.signerPkHashes = transact'.proofInputs.signerPkHashes
  outputOwnerPkHashes : transact.proofInputs.outputOwnerPkHashes = transact'.proofInputs.outputOwnerPkHashes
  cachedSelection : cachedSelection chain transact.cache transact.ix.circuit =
    cachedSelection chain' transact'.cache transact'.ix.circuit

section Binding

variable {env : ChainEnv} {instruction instruction' : InstructionTag} {accounts accounts' : List AccountView}
  {data data' : List UInt8} {clock clock' : Clock} {chain chain' assembled assembled' : Chain HEIGHT K}
  {transact transact' : AssembledTransact}

/-- The owners and the cached inputs are published together, and not at all on the authority rail. -/
theorem ownersAndSelection_inj (hfree : env.tree.hashv.CollisionFree)
    (hsuffix : env.tree.hashv.DerivesZeroSuffixChains)
    (steps : TransactSteps env instruction accounts data clock chain transact assembled)
    (steps' : TransactSteps env instruction' accounts' data' clock' chain' transact' assembled')
    (hkind : transact.ix.circuit.kind = transact'.ix.circuit.kind)
    (hshape : transact.ix.circuit.shape = transact'.ix.circuit.shape)
    (hwidth : transact.ix.circuit.numInputs ≤ zeroSuffixChainMaxWidth)
    (hbound : transact.ix.circuit.numOutputs ≤ transact.proofInputs.outputOwnerPkHashes.length)
    (hbound' : transact'.ix.circuit.numOutputs ≤ transact'.proofInputs.outputOwnerPkHashes.length)
    {fields : List Bytes32}
    (hfields : Verify.ownerFields env.tree.hashv transact.ix.circuit transact.proofInputs = .ok fields)
    (hfields' : Verify.ownerFields env.tree.hashv transact'.ix.circuit transact'.proofInputs =
      .ok fields) :
    transact.proofInputs.outputOwnerPkHashes = transact'.proofInputs.outputOwnerPkHashes ∧
      cachedSelection chain transact.cache transact.ix.circuit =
        cachedSelection chain' transact'.cache transact'.ix.circuit := by
  obtain ⟨_, _, _, _, hmodes⟩ := CircuitId.layout_congr hkind
  obtain ⟨howners, hnone⟩ := steps.outputOwnerPkHashes_eq hbound
  obtain ⟨howners', hnone'⟩ := steps'.outputOwnerPkHashes_eq hbound'
  obtain ⟨hmode, rfl⟩ | ⟨owners, cachedInputs, hmode, hchain, hcached, rfl⟩ :=
    Verify.ownerFields_eq_ok hfields
  · have hmode' := hmodes.symm.trans hmode
    refine ⟨(hnone hmode).trans (hnone' hmode').symm, ?_⟩
    rw [cachedSelection_of_cacheAccess (CircuitId.cacheAccess_of_outputOwnerMode hmode),
      cachedSelection_of_cacheAccess (CircuitId.cacheAccess_of_outputOwnerMode hmode')]
  · obtain ⟨_, hempty⟩ | ⟨_, cachedInputs', _, hchain', hcached', heq⟩ :=
      Verify.ownerFields_eq_ok hfields'
    · cases hempty
    simp only [List.cons.injEq, and_true] at heq
    obtain ⟨rfl, hfst, hsnd⟩ := heq
    obtain rfl : cachedInputs = cachedInputs' := Prod.ext hfst hsnd
    obtain ⟨hnumInputs, hnumOutputs⟩ := CircuitId.widths_congr hshape
    refine ⟨?_, ?_⟩
    · rw [howners, howners', ← hnumOutputs]
      rw [← hnumOutputs] at hchain' hbound'
      have htake := createPaddedRightHashChain4_inj hfree hsuffix hchain hchain'
      rw [List.length_take, List.length_take, Nat.min_eq_left hbound, Nat.min_eq_left hbound',
        Nat.sub_self, List.replicate_zero, List.append_nil, List.append_nil] at htake
      rw [htake]
    · obtain ⟨hinputs, hle, _⟩ := validateSelector_eq_ok steps.selector
      have hpositive : 0 < transact.ix.circuit.numInputs :=
        Nat.lt_of_lt_of_le (List.length_pos_iff.mpr hinputs) hle
      have hpublishes := steps.publishesSelection hpositive hwidth hcached
      have hpublishes' := steps'.publishesSelection (hnumInputs ▸ hpositive) (hnumInputs ▸ hwidth) hcached'
      rw [← hnumInputs] at hpublishes'
      exact hpublishes.inj hfree hsuffix hpublishes'

/-- The public input hash determines what the proof is about. -/
theorem public_input_hash_binds (hfree : env.tree.hashv.CollisionFree)
    (hzero : env.tree.hashv.NeverZero) (hsuffix : env.tree.hashv.DerivesZeroSuffixChains)
    (hslots : env.tree.hashv.DerivesZeroTreeSlots)
    (hsigners : Verify.DerivesSignerZeroSuffixChains env.tree.hashv) {publicInputHash : Bytes32}
    (h : (assembleTransact env instruction accounts data clock).run chain = .ok transact assembled)
    (h' : (assembleTransact env instruction' accounts' data' clock').run chain' =
      .ok transact' assembled')
    (hkind : transact.ix.circuit.kind = transact'.ix.circuit.kind)
    (hshape : transact.ix.circuit.shape = transact'.ix.circuit.shape)
    (hhash : Verify.publicInputHash env.tree.hashv env.sha256 transact.ix transact.proofInputs =
      .ok publicInputHash)
    (hhash' : Verify.publicInputHash env.tree.hashv env.sha256 transact'.ix transact'.proofInputs =
      .ok publicInputHash) :
    SamePublicInputs chain chain' transact transact' := by
  obtain ⟨steps⟩ := run_assembleTransact_ok h
  obtain ⟨steps'⟩ := run_assembleTransact_ok h'
  obtain ⟨fields, ⟨inputs⟩, ⟨inputs'⟩⟩ := Verify.publicInputHash_inj hfree hkind hshape hhash hhash'
  obtain ⟨hnullifierChain, houtputChain, htreeSlots, houtputTree, hprivate, hexternal, hslotFields, hring,
    hsignerChain, hflags, howners⟩ := inputs.inj inputs' hkind hshape
  obtain ⟨hnullifiers, houtputs⟩ := run_validateTransact_ok steps.fields
  obtain ⟨hnullifiers', houtputs'⟩ := run_validateTransact_ok steps'.fields
  obtain ⟨hnumInputs, hnumOutputs⟩ := CircuitId.widths_congr hshape
  obtain ⟨_, _, _, hsignatures, _⟩ := CircuitId.layout_congr hkind
  have hnullifiersEq : transact.ix.inputs.map (·.nullifierHash) =
      transact'.ix.inputs.map (·.nullifierHash) := by
    have hchain' := inputs'.nullifierChain_eq
    rw [← hnullifierChain, ← hnumInputs] at hchain'
    exact eq_of_createPaddedRightHashChain4 hfree hsuffix hnullifiers hnullifiers'
      inputs.nullifierChain_eq hchain'
  have houtputsEq : transact.ix.outputs.map (·.utxoHash) = transact'.ix.outputs.map (·.utxoHash) := by
    have hchain' := inputs'.outputChain_eq
    rw [← houtputChain, ← hnumOutputs] at hchain'
    exact eq_of_createPaddedRightHashChain4 hfree hsuffix houtputs houtputs' inputs.outputChain_eq hchain'
  have htreeSlotsEq : transact.proofInputs.treeSlots = transact'.proofInputs.treeSlots :=
    eq_of_populatedTreeSlotsHashChain hfree hslots steps.treeSlots_used steps'.treeSlots_used
      inputs.treeSlots_eq (inputs'.treeSlots_eq.trans (congrArg _ htreeSlots.symm))
  -- the number of inputs is settled by now, so the packed positions line up
  have htreeIndexes : transact.ix.inputs.map (·.treeIndex) = transact'.ix.inputs.map (·.treeIndex) := by
    obtain ⟨_, hpacked⟩ := steps.packed_inputFlags
    obtain ⟨_, hpacked'⟩ := steps'.packed_inputFlags
    rw [← hflags] at hpacked'
    have hcount := congrArg List.length hnullifiersEq
    rw [List.length_map, List.length_map] at hcount
    exact (packInputFlags_inj (by rw [List.length_map, List.length_map, hcount]) hpacked hpacked').2
  have hpublicSlots : transact.proofInputs.publicSlotAssets = transact'.proofInputs.publicSlotAssets ∧
      transact.proofInputs.publicSlotAmounts = transact'.proofInputs.publicSlotAmounts := by
    obtain ⟨slots, hfields, hassets, hamounts⟩ := steps.publicSlots_eq inputs.slots_eq
    obtain ⟨slots', hfields', hassets', hamounts'⟩ := steps'.publicSlots_eq inputs'.slots_eq
    rw [← hslotFields] at hfields'
    obtain rfl := Verify.publicSlotFields_inj hfields hfields'
    exact ⟨hassets.trans hassets'.symm, hamounts.trans hamounts'.symm⟩
  have hidentities := steps.signerPkHashes_identities
  have hidentities' := steps'.signerPkHashes_identities
  have hsignersEq : transact.proofInputs.signerPkHashes = transact'.proofInputs.signerPkHashes := by
    have hchain' := inputs'.signers_eq
    rw [← hsignerChain, Verify.signerChainWidth, ← hsignatures, ← hnumInputs] at hchain'
    exact eq_of_fixedSignerHashChain hfree hsigners (ne_zero_of_identities hzero hidentities)
      (ne_zero_of_identities hzero hidentities') inputs.signers_eq hchain'
  obtain ⟨hownersEq, hselection⟩ := ownersAndSelection_inj hfree hsuffix steps steps' hkind hshape
    (width_le_of_createPaddedRightHashChain4 inputs.nullifierChain_eq) inputs.bounds.1 inputs'.bounds.1
    inputs.owners_eq (inputs'.owners_eq.trans (congrArg _ howners.symm))
  exact {
    nullifiers := hnullifiersEq
    outputs := houtputsEq
    treeSlots := htreeSlotsEq
    treeIndexes := htreeIndexes
    allowDummyInputs := congrArg _ hflags
    outputTreeId := houtputTree
    privateTxHash := hprivate
    externalDataHash := hexternal
    publicSlotAssets := hpublicSlots.1
    publicSlotAmounts := hpublicSlots.2
    ringProgramId := hring
    uniqueSigners := identities_inj hfree hidentities (hsignersEq ▸ hidentities')
    signerPkHashes := hsignersEq
    outputOwnerPkHashes := hownersEq
    cachedSelection := hselection }

end Binding

/-! ### A transfer that reads and writes a cache -/

/-- A tree at 1, a user at 2, and the SOL of the pool. The mint 20 has an account of the pool at 276 and one
of the user at 22. A cache of the tree is at 30. -/
def transferChain : Chain 32 1 where
  ledger address :=
    if address = 1 then ⟨1000, .tree sampleTree⟩
    else if address = 2 then ⟨1000, .unused⟩
    else if address = solInterface then ⟨100, .unused⟩
    else if address = 20 ∨ address = 22 ∨ address = 276 then ⟨10, .other false⟩
    else if address = 30 then ⟨10, .other true⟩
    else ⟨0, .unused⟩
  contents address :=
    if address = 20 then some (.mint 6)
    else if address = 22 then some (.tokenAccount ⟨splTokenProgramId, 20, 2, 40, true⟩)
    else if address = 276 then
      some (.tokenAccount ⟨splTokenProgramId, 20, shieldedPoolCpiAuthority, 50, true⟩)
    else if address = 30 then some (.cache ⟨255, 3, 90, 2, 2, (Vector.replicate _ 0).set! 0 501⟩)
    else none

/-- Both assets go in and out. One output names its owner by position. -/
def transferExternalData : ExternalData where
  expiryUnixTs := 100
  txViewingPk := 2
  salt := 5
  interfaceTransfers := [.solDeposit 30, .solWithdrawal 10, .splDeposit 7 255, .splWithdrawal 3 255]
  dataHash := none
  ringDataHash := none
  outputs := [⟨601, .account 0, none⟩, ⟨602, .inline 2, none⟩]
  messages := []

/-- One input, two outputs, the first slot of the cache read and the second written. -/
def transferData (proof : Bytes32) : List UInt8 :=
  transferExternalData.write ++ writeBytes32 700 ++
    ([4, 0] ++ [1, 2, 3] ++ [1, 0, 0, 0, 0, 0, 0, 0] ++ [0, 1] ++ List.replicate 30 255) ++
    (writeBytes32 proof ++ Codec.writeArray 128 0 ++ writeBytes32 0) ++
    ([1] ++ writeBytes32 801 ++ [0]) ++ ([1] ++ Codec.writeU16 noUtxoRoot ++ Codec.writeU16 0)

def transferAccounts : List AccountView :=
  [⟨2, true, true⟩, ⟨1, false, true⟩, ⟨shieldedPoolProgramId, false, false⟩,
    ⟨systemProgramId, false, false⟩, ⟨1, false, true⟩, ⟨1801, false, true⟩, ⟨2, true, true⟩,
    ⟨solInterface, false, true⟩, ⟨2, true, true⟩, ⟨solInterface, false, true⟩, ⟨2, true, true⟩,
    ⟨20, false, false⟩, ⟨276, false, true⟩, ⟨2, true, true⟩, ⟨22, false, true⟩,
    ⟨splTokenProgramId, false, false⟩,
    ⟨shieldedPoolCpiAuthority, false, false⟩, ⟨20, false, false⟩, ⟨276, false, true⟩, ⟨22, false, true⟩,
    ⟨splTokenProgramId, false, false⟩,
    ⟨30, false, false⟩, ⟨30, false, true⟩, ⟨2, true, true⟩]

/-- The nodes above the two outputs. -/
def transferPath : List Bytes32 := (List.range 32).map fun level => BitVec.ofNat 256 (1001 + level)

/-- The Poseidon digests of the other inputs, numbered in the order in which they are asked for. -/
def transferLog : List (List Bytes32 × Bytes32) := [
  ([0x0053000000000000000000000000000000000000000000000000000000000000, 2], 901),
  ([0, 20], 902),
  ([601, 0, 0, 602], 903),
  ([3, 0, nullifierTreeInitRoot40], 904),
  ([904, zeroTreeSlotSuffixChains.getD 3 0], 905),
  ([901, 0], 906),
  ([901, 0, 0, 901], 907),
  ([801, 903, 905, 3], 908),
  ([908, 700, 42, Verify.solAssetField], 909),
  ([909, 20, 902, 4], 910),
  ([910, 0, 0, 0], 911),
  ([911, 906, 1, 907], 912),
  ([912, 3, 501, 0], 913)]

/-- The entries of a chain, each the digest of the one before with what `key` adds to it. -/
def chainLog (key : Bytes32 → List Bytes32) (chain : List Bytes32) : List (List Bytes32 × Bytes32) :=
  (chain.zip chain.tail).map fun (before, after) => (key before, after)

/-- Poseidon, on what the tables and the transfer ask of it. -/
def poseidonLog : List (List Bytes32 × Bytes32) :=
  transferLog ++
    List.zipWith (fun (left, right) node => ([left, right], node))
      ((601 :: transferPath).zip (602 :: zeroBytes.tail)) transferPath ++
    chainLog (fun chain => [0, 0, 0, chain]) zeroSuffixChains ++
    chainLog (fun chain => [0, chain]) Verify.signerZeroSuffixChains ++
    ([0, 0, 0], zeroTreeSlotSuffixChains.headD 0) ::
      chainLog (fun chain => [zeroTreeSlotSuffixChains.headD 0, chain]) zeroTreeSlotSuffixChains

def sha256Log : List (List UInt8 × Bytes32) := [
  (16 :: transferExternalData.write ++
      [solInterface, 2, solInterface, 2, 20, 22, 20, 22, 2].flatMap writeBytes32, 41),
  (cacheWriteDomain ++ writeBytes32 41 ++ writeBytes32 30 ++ [0, 1] ++ List.replicate 30 255, 42)]

/-- The amount goes from one token account to the other. -/
def moveTokens (transfer : TransferChecked) : ChainM HEIGHT K Unit := modify fun chain =>
  match chain.tokenAccount transfer.sender, chain.tokenAccount transfer.receiver with
  | some source, some destination =>
    chain.setContents transfer.sender (.tokenAccount { source with amount := source.amount - transfer.amount })
      |>.setContents transfer.receiver
        (.tokenAccount { destination with amount := destination.amount + transfer.amount })
  | _, _ => chain

/-- Two hashes that answer what they were asked, and a verifier that takes any proof for the transfer. -/
def transferEnv : ChainEnv where
  tree :=
    { hashv := Oracle.answer poseidonLog (.unknownSolanaSyscall 1)
      verifyBatchUpdate := fun _ _ _ => .error .proofVerificationFailed }
  runtime := ⟨fun _ nullifier => some (nullifier + 1000), 500, 10⟩
  sha256 := Oracle.answer sha256Log (.unknownSolanaSyscall 1)
  splInterfaceAddress mint bump := mint + 1 + BitVec.ofNat 256 bump.toNat
  token _ _ := moveTokens
  confidentialEddsaAllows _ := false
  verifyTransact circuit _ publicInputHash :=
    if circuit = .confidentialSigner ⟨1, 2, 3⟩ ∧ publicInputHash = 913 then
      .ok ()
    else
      .error .transactProofVerificationFailed

theorem collisionFree_transferEnv : transferEnv.tree.hashv.CollisionFree := by
  have hnodup : (poseidonLog.map fun entry => id entry.2).Nodup := by decide +kernel
  exact fun _ _ _ h h' => Oracle.answer_inj id hnodup h h' rfl

theorem neverZero_transferEnv : transferEnv.tree.hashv.NeverZero := by
  have hzero : ∀ entry ∈ poseidonLog, entry.2 ≠ 0 := by decide +kernel
  exact fun _ h => hzero _ (Oracle.mem_of_answer h) rfl

theorem derivesZeroSuffixChains_transferEnv : transferEnv.tree.hashv.DerivesZeroSuffixChains := by
  have htabled : Tabled (groupStep transferEnv.tree.hashv) (0, 0, 0) zeroSuffixChains :=
    tabled_of_zip (by decide +kernel)
  exact htabled

theorem derivesSignerZeroSuffixChains_transferEnv :
    Verify.DerivesSignerZeroSuffixChains transferEnv.tree.hashv := by
  have htabled : Tabled (pairStep transferEnv.tree.hashv) 0 Verify.signerZeroSuffixChains :=
    tabled_of_zip (by decide +kernel)
  exact htabled

theorem derivesZeroTreeSlots_transferEnv : transferEnv.tree.hashv.DerivesZeroTreeSlots where
  first := ⟨zeroTreeSlotSuffixChains.headD 0, by decide +kernel, rfl⟩
  next := by
    have hunused : transferEnv.tree.hashv [0, 0, 0] = .ok (zeroTreeSlotSuffixChains.headD 0) := by
      decide +kernel
    have htabled : Tabled (pairStep transferEnv.tree.hashv) (zeroTreeSlotSuffixChains.headD 0)
        zeroTreeSlotSuffixChains :=
      tabled_of_zip (by decide +kernel)
    intro k unused suffix chain h
    rw [← Except.ok.inj (hunused.symm.trans h)]
    exact htabled k suffix chain

/-- A transfer is assembled, whatever its proof. -/
theorem assembles_transfer {proof : Bytes32} (h : proof = 9 ∨ proof = 10) : ∃ transact assembled,
      (assembleTransact transferEnv .transact transferAccounts (transferData proof) ⟨7, 50⟩).run
        transferChain = .ok transact assembled ∧
      transact.ix.proof.a = proof ∧ transact.ix.circuit.kind = .confidentialSigner ∧
      transact.ix.circuit.shape = ⟨1, 2, 3⟩ ∧
      cachedSelection transferChain transact.cache transact.ix.circuit = some (3, [501]) ∧
      Verify.publicInputHash transferEnv.tree.hashv transferEnv.sha256 transact.ix transact.proofInputs =
        .ok 913 := by
  have hsucceeds : succeeds
      (assembleTransact transferEnv .transact transferAccounts (transferData proof) ⟨7, 50⟩)
      transferChain (fun transact _ =>
        decide (transact.ix.proof.a = proof ∧ transact.ix.circuit.kind = .confidentialSigner ∧
          transact.ix.circuit.shape = ⟨1, 2, 3⟩ ∧
          cachedSelection transferChain transact.cache transact.ix.circuit = some (3, [501]) ∧
          Verify.publicInputHash transferEnv.tree.hashv transferEnv.sha256 transact.ix
            transact.proofInputs = .ok 913)) = true := by
    rcases h with rfl | rfl <;> decide +kernel
  obtain ⟨transact, assembled, hrun, hfacts⟩ := exists_of_succeeds hsucceeds
  exact ⟨transact, assembled, hrun, of_decide_eq_true hfacts⟩

/-- One transfer with two proofs has one public input hash, and everything it binds in common. -/
theorem transfer_public_inputs_bound :
    ∃ (transact transact' : AssembledTransact) (assembled assembled' : Chain 32 1),
      (assembleTransact transferEnv .transact transferAccounts (transferData 9) ⟨7, 50⟩).run
        transferChain = .ok transact assembled ∧
      (assembleTransact transferEnv .transact transferAccounts (transferData 10) ⟨7, 50⟩).run
        transferChain = .ok transact' assembled' ∧
      transact.ix.proof.a ≠ transact'.ix.proof.a ∧
      cachedSelection transferChain transact.cache transact.ix.circuit = some (3, [501]) ∧
      SamePublicInputs transferChain transferChain transact transact' := by
  obtain ⟨transact, assembled, hrun, hproof, hkind, hshape, hselection, hhash⟩ :=
    assembles_transfer (.inl rfl)
  obtain ⟨transact', assembled', hrun', hproof', hkind', hshape', _, hhash'⟩ :=
    assembles_transfer (.inr rfl)
  refine ⟨transact, transact', assembled, assembled', hrun, hrun', ?_, hselection, ?_⟩
  · rw [hproof, hproof']
    decide
  · exact public_input_hash_binds collisionFree_transferEnv neverZero_transferEnv
      derivesZeroSuffixChains_transferEnv derivesZeroTreeSlots_transferEnv
      derivesSignerZeroSuffixChains_transferEnv hrun hrun' (hkind.trans hkind'.symm)
      (hshape.trans hshape'.symm) hhash hhash'

end Zolana
