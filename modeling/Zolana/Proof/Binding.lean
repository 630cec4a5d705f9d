import Zolana.Proof.CachedInputs
import Zolana.Proof.ExternalData
import Zolana.Proof.PublicInputs

/-!
# What a transact publishes

The values behind the public inputs of a transact, and the checks that keep a list from looking like its
own padding: nullifiers and outputs are not zero, a declared tree has a nullifier root, a selected cache
slot is not empty and the identity of a signer is a digest.
-/

namespace Zolana

open Fallible Fold

variable {HEIGHT K : Nat} {hashv : Hashv}

/-! ### Checks on the instruction data -/

variable {ledger ledger' : Ledger HEIGHT K} {cache : Verify.OwnerHashCache} {hashes : List Bytes32}

theorem run_checkNonzeroFieldElements_ok {values : List Bytes32} {error : ShieldedPoolError}
    (h : (checkNonzeroFieldElements values error).run ledger = .ok () ledger') : 0 ∉ values := by
  unfold checkNonzeroFieldElements at h
  obtain ⟨hzero, h⟩ := of_run_check h
  intro hmem
  exact hzero (List.any_eq_true.mpr ⟨0, hmem, by simp⟩)

theorem run_validateTransact_ok {ix : TransactIx} (h : (validateTransact ix).run ledger = .ok () ledger') :
    0 ∉ ix.inputs.map (·.nullifierHash) ∧ 0 ∉ ix.outputs := by
  unfold validateTransact at h
  obtain ⟨-, h⟩ := of_run_check h
  obtain ⟨_, _, _, h⟩ := of_run_bind h
  obtain ⟨_, _, _, h⟩ := of_run_bind h
  obtain ⟨_, _, hnullifiers, h⟩ := of_run_bind h
  obtain ⟨_, _, houtputs, _⟩ := of_run_bind h
  exact ⟨run_checkNonzeroFieldElements_ok hnullifiers, run_checkNonzeroFieldElements_ok houtputs⟩

theorem validateSelector_eq_ok {env : ChainEnv} {instruction : InstructionTag} {ix : TransactIxData}
    (h : validateSelector env instruction ix = .ok ()) :
    ix.inputs ≠ [] ∧ ix.inputs.length ≤ ix.circuit.numInputs ∧
      ix.outputs.length ≤ ix.circuit.numOutputs ∧
      ix.circuit.numPublicAssetSlots = nPublicSlots := by
  unfold validateSelector at h
  split at h
  case isTrue => cases h
  obtain ⟨hshape, h⟩ := of_check_eq_ok h
  push Not at hshape
  obtain ⟨hinputs, hnumInputs, hnumOutputs, _, hsupported⟩ := hshape
  refine ⟨hinputs, hnumInputs, hnumOutputs, ?_⟩
  rw [ne_eq, Bool.not_eq_false] at hsupported
  unfold CircuitId.isSupported at hsupported
  exact of_decide_eq_true (Bool.and_eq_true_iff.mp hsupported).1

/-! ### Lists that do not look like padding -/

theorem solanaOwnerIdentity_inj (hfree : hashv.CollisionFree) {pk pk' hash : Bytes32}
    (h : solanaOwnerIdentity hashv pk = .ok hash) (h' : solanaOwnerIdentity hashv pk' = .ok hash) :
    pk = pk' := by
  have hparts := hfree _ _ _ h h'
  simp only [List.cons.injEq, and_true] at hparts
  obtain ⟨hhigh, hlow⟩ := hparts
  apply BitVec.eq_of_getLsbD_eq
  intro i hi
  by_cases hsmall : i < 16
  · have hbit := congrArg (·.getLsbD i) hlow
    have hmask : (0xffff : Bytes32).getLsbD i = true := by
      interval_cases i <;> rfl
    simpa only [BitVec.getLsbD_and, hmask, Bool.and_true] using hbit
  · -- the tag lies above every bit of the key
    have hbit := congrArg (·.getLsbD (i - 16)) hhigh
    have hbelow : i - 16 < 240 := by omega
    have hindex : 16 + (i - 16) = i := by omega
    simpa [hbelow, hindex] using hbit

theorem insert_eq_ok {cache' : Verify.OwnerHashCache} {ownerTag hash : Bytes32}
    (h : cache.insert hashv ownerTag = .ok (hash, cache')) :
    solanaOwnerIdentity hashv ownerTag = .ok hash ∧ cache' = ⟨cache.entries ++ [(ownerTag, hash)]⟩ := by
  unfold Verify.OwnerHashCache.insert at h
  split at h
  case h_1 => cases h
  case h_2 inserted hinserted =>
    split at h
    case isTrue =>
      cases h
      exact ⟨hinserted, rfl⟩
    case isFalse => cases h

/-- The addresses in the order of their first occurrence, behind those seen before. -/
def firstOccurrences (seen : List Address) (addresses : List Address) : List Address :=
  addresses.foldl (fun seen address => if address ∈ seen then seen else seen ++ [address]) seen

theorem signerHashes_eq_ok {cache' : Verify.OwnerHashCache} {signers : List Address}
    (hcache : List.Forall₂ (fun tag hash => solanaOwnerIdentity hashv tag = .ok hash)
      (cache.entries.map (·.1)) (cache.entries.map (·.2)))
    (h : Verify.signerHashes hashv cache (cache.entries.map (·.2)) signers = .ok (hashes, cache')) :
    List.Forall₂ (fun tag hash => solanaOwnerIdentity hashv tag = .ok hash)
      (firstOccurrences (cache.entries.map (·.1)) signers) hashes := by
  induction signers generalizing cache with
  | nil =>
      cases h
      exact hcache
  | cons signer signers ih =>
      obtain ⟨⟨hash, next⟩, hsigner, h⟩ := of_bind_ok h
      unfold Verify.OwnerHashCache.newSignerHash at hsigner
      rw [firstOccurrences, List.foldl_cons]
      split at hsigner
      case h_1 entry hentry =>
        cases hsigner
        have hmem : signer ∈ cache.entries.map (·.1) := by
          have hfound := List.find?_some hentry
          exact List.mem_map.mpr ⟨entry, List.mem_of_find?_eq_some hentry, of_decide_eq_true hfound⟩
        rw [if_pos hmem]
        exact ih hcache h
      case h_2 hentry =>
        obtain ⟨⟨inserted, _⟩, hinserted, hsigner⟩ := of_bind_ok hsigner
        cases hsigner
        obtain ⟨hidentity, rfl⟩ := insert_eq_ok hinserted
        have hnew : signer ∉ cache.entries.map (·.1) := by
          intro hmem
          obtain ⟨entry, hmem, hsame⟩ := List.mem_map.mp hmem
          have := List.find?_eq_none.mp hentry entry hmem
          exact this (decide_eq_true hsame)
        dsimp only at h
        split at h
        case isFalse => cases h
        case isTrue =>
          rw [if_neg hnew]
          have hextended : List.Forall₂ (fun tag hash => solanaOwnerIdentity hashv tag = .ok hash)
              ((cache.entries ++ [(signer, inserted)]).map (·.1))
              ((cache.entries ++ [(signer, inserted)]).map (·.2)) := by
            rw [List.map_append, List.map_append]
            exact List.rel_append hcache (.cons hidentity .nil)
          have hnext := ih hextended (by simpa using h)
          simpa [firstOccurrences] using hnext

theorem ne_zero_of_identities (hzero : hashv.NeverZero) {tags : List Address}
    (h : List.Forall₂ (fun tag hash => solanaOwnerIdentity hashv tag = .ok hash) tags hashes) : 0 ∉ hashes := by
  induction h with
  | nil => simp
  | cons hidentity _ ih =>
      rw [List.mem_cons]
      rintro (rfl | hmem)
      · exact hzero _ hidentity
      · exact ih hmem

theorem identities_inj (hfree : hashv.CollisionFree) {tags tags' : List Address}
    (h : List.Forall₂ (fun tag hash => solanaOwnerIdentity hashv tag = .ok hash) tags hashes)
    (h' : List.Forall₂ (fun tag hash => solanaOwnerIdentity hashv tag = .ok hash) tags' hashes) :
    tags = tags' := by
  induction h generalizing tags' with
  | nil =>
      cases h'
      rfl
  | cons hidentity _ ih =>
      cases h' with
      | cons hidentity' hrest' => rw [solanaOwnerIdentity_inj hfree hidentity hidentity', ih hrest']

theorem nullifierRoot_ne_zero {tree : NullifierTreeLayout K} {index : UInt16} {root : Bytes32}
    (h : tree.rootByIndex index = some root) : root ≠ 0 := by
  unfold NullifierTreeLayout.rootByIndex at h
  split at h
  case h_1 => cases h
  case h_2 =>
    split at h
    case isTrue => cases h
    case isFalse hne =>
      cases h
      exact hne

theorem unusedTreeSlot_not_mem {env : PoolEnv} {payer : Address} {inputs : List InputUtxo}
    {nullifierPdas : List Address} {treeIndex : Nat} {trees : List (Address × TreeContext × Nat)}
    {queued : List QueuedInputs}
    (h : (applyTrees env payer inputs nullifierPdas treeIndex trees).run ledger = .ok queued ledger') :
    unusedTreeSlot ∉ queued.map (·.slot) := by
  induction trees generalizing treeIndex queued ledger with
  | nil =>
      cases h
      simp
  | cons entry trees ih =>
      obtain ⟨tree, context, count⟩ := entry
      obtain ⟨first, _, hqueue, h⟩ := of_run_bind h
      obtain ⟨_, _, _, h⟩ := of_run_bind h
      obtain ⟨rest, _, hrest, h⟩ := of_run_bind h
      cases h
      obtain ⟨layout, _, _, hrun, _⟩ := run_withTree_ok hqueue
      obtain ⟨_, _, hslot, _⟩ := run_queueInputs_ok hrun
      obtain ⟨_, index, hroot⟩ := resolvesSlot_resolveInputTreeSlot context layout first.slot hslot
      rw [List.map_cons, List.mem_cons]
      rintro (hunused | hmem)
      · exact nullifierRoot_ne_zero hroot (by rw [← hunused]; rfl)
      · exact ih hrest hmem

/-! ### Input flags -/

theorem packInputFlags_inj {allowDummyInputs allowDummyInputs' : Bool} {treeIndexes treeIndexes' : List Nat}
    {flags : Bytes32} (hlength : treeIndexes.length = treeIndexes'.length)
    (h : packInputFlags allowDummyInputs treeIndexes = .ok flags)
    (h' : packInputFlags allowDummyInputs' treeIndexes' = .ok flags) :
    allowDummyInputs = allowDummyInputs' ∧ treeIndexes = treeIndexes' := by
  refine ⟨(inputFlagsAllowDummy_pack h).symm.trans (inputFlagsAllowDummy_pack h'), ?_⟩
  apply List.ext_getElem hlength
  intro i hi hi'
  have hleft := inputFlagsTreeIndex_pack h (List.getElem?_eq_getElem hi)
  have hright := inputFlagsTreeIndex_pack h' (List.getElem?_eq_getElem hi')
  exact hleft.symm.trans hright

/-! ### Output owners -/

theorem outputOwnerHashes_eq_ok {mode : OutputOwnerMode} {outputs : List ResolvedOutput}
    {owners : List Bytes32} (h : Verify.outputOwnerHashes hashv mode cache outputs = .ok owners) :
    owners.length = outputs.length ∧ (mode = .none → owners = List.replicate outputs.length 0) := by
  induction outputs generalizing cache owners with
  | nil =>
      cases h
      exact ⟨rfl, fun _ => rfl⟩
  | cons output outputs ih =>
      rw [Verify.outputOwnerHashes] at h
      split at h
      case isTrue hpublished =>
        obtain ⟨⟨hash, next⟩, _, h⟩ := of_bind_ok h
        obtain ⟨rest, hrest, h⟩ := of_bind_ok h
        cases h
        refine ⟨congrArg Nat.succ (ih hrest).1, ?_⟩
        rintro rfl
        cases hpublished
      case isFalse =>
        obtain ⟨rest, hrest, h⟩ := of_bind_ok h
        cases h
        refine ⟨congrArg Nat.succ (ih hrest).1, fun hmode => ?_⟩
        rw [(ih hrest).2 hmode]
        rfl

theorem padded_eq_take {α : Type} {zero : α} {values : List α} {width size : Nat}
    (hvalues : values.length ≤ width) (hwidth : width ≤ size) :
    values ++ List.replicate (size - values.length) zero =
      (values ++ List.replicate (size - values.length) zero).take width ++
        List.replicate (size - width) zero := by
  rw [List.take_append, List.take_of_length_le hvalues, List.take_replicate, List.append_assoc,
    List.replicate_append_replicate]
  congr 2
  omega

/-! ### The proof inputs -/

section Steps

variable {env : ChainEnv} {instruction : InstructionTag} {accounts : List AccountView}
  {data : List UInt8} {clock : Clock} {chain chain' : Chain HEIGHT K} {transact : AssembledTransact}

theorem parseTransact_cachedInputs {ix : TransactIxData} {proofInputs parsedInputs : Verify.TransactProofInputs}
    {parsedAccounts : ParsedTransactAccounts}
    (h : parseTransact env chain ix accounts proofInputs = .ok (parsedAccounts, parsedInputs)) :
    parsedInputs.cachedInputs = proofInputs.cachedInputs := by
  unfold parseTransact at h
  split at h
  case isTrue =>
    obtain ⟨⟨_, ringProgram⟩, _, h⟩ := of_bind_ok h
    obtain ⟨_, _, h⟩ := of_bind_ok h
    cases h
    rfl
  case isFalse =>
    obtain ⟨_, _, h⟩ := of_bind_ok h
    cases h
    rfl

section

variable (steps : TransactSteps env instruction accounts data clock chain transact chain')

include steps

theorem TransactSteps.ownedInputs_cachedInputs : steps.ownedInputs.cachedInputs = none := by
  obtain ⟨_, _, _, _, _, _, _, _, howned⟩ := assignOwnersAndAmounts_eq_ok steps.owned
  rw [howned]
  exact parseTransact_cachedInputs steps.parsedAccounts

theorem TransactSteps.proofInputs_cases : ∃ signers ownerHashes owners slots,
      Verify.signerHashes env.tree.hashv ⟨[]⟩ [] (if transact.ix.circuit.requiresInputSignatures then
        transact.accounts.ownerSigners.map (·.address) else [transact.accounts.payer.address]) =
          .ok (signers, ownerHashes) ∧
      Verify.outputOwnerHashes env.tree.hashv transact.ix.circuit.outputOwnerMode ownerHashes
        transact.resolvedOutputs = .ok owners ∧
      transact.resolvedOutputs.length ≤ maxOutputs ∧
      Verify.publicSlots env.tree.hashv transact.ix.interfaceTransfers transact.accounts.settlements
        transact.ix.circuit.numPublicAssetSlots = .ok slots ∧
      transact.proofInputs =
        { treeSlots := steps.queued.map (·.slot)
          outputTreeId := treeIdField steps.treeWrite.outputTreeId
          signerPkHashes := signers
          outputOwnerPkHashes := owners ++ List.replicate (maxOutputs - owners.length) 0
          externalDataHash := steps.externalDataHash
          publicSlotAssets := slots.map (·.1) ++ List.replicate (nPublicSlots - slots.length) 0
          publicSlotAmounts := slots.map (·.2) ++ List.replicate (nPublicSlots - slots.length) 0
          ringProgramId := steps.parsedInputs.ringProgramId
          inputFlags := steps.inputFlags
          assignments := transact.proofInputs.assignments
          cachedInputs := steps.boundInputs.cachedInputs } := by
  obtain ⟨signers, ownerHashes, owners, slots, hsigners, hresolved, howners, hslots, howned⟩ :=
    assignOwnersAndAmounts_eq_ok steps.owned
  have hbound := (bindCachedInputs_eq_ok steps.cachedInputs steps.ownedInputs_cachedInputs).1
  refine ⟨signers, ownerHashes, owners, slots, hsigners, howners, hresolved, hslots, ?_⟩
  rw [steps.proofInputs_eq, hbound, howned]
  rfl

theorem TransactSteps.publishesSelection {fields : Bytes32 × Bytes32}
    (hpositive : 0 < transact.ix.circuit.numInputs)
    (hwidth : transact.ix.circuit.numInputs ≤ zeroSuffixChainMaxWidth)
    (hfields : Verify.cachedInputFieldsOf transact.ix.circuit transact.proofInputs = .ok fields) :
    PublishesSelection env.tree.hashv transact.ix.circuit.numInputs
      (cachedSelection chain transact.cache transact.ix.circuit) fields := by
  rw [steps.proofInputs_eq] at hfields
  have hpublishes := (bindCachedInputs_eq_ok steps.cachedInputs steps.ownedInputs_cachedInputs).2 fields
    hpositive hwidth hfields
  rwa [cachedSelection_congr (keepsKinds_applyInputTrees _ _ _ steps.inputs)] at hpublishes

theorem TransactSteps.length_publicSlots :
    transact.proofInputs.publicSlotAssets.length = transact.ix.circuit.numPublicAssetSlots ∧
      transact.proofInputs.publicSlotAmounts.length = transact.ix.circuit.numPublicAssetSlots := by
  obtain ⟨_, _, _, slots, _, _, _, hslots, hproofInputs⟩ := steps.proofInputs_cases
  obtain ⟨_, _, _, hnum⟩ := validateSelector_eq_ok steps.selector
  obtain ⟨_, hvalid, _, _⟩ := Verify.publicSlots_eq_ok hslots
  have hle := hvalid.length_le
  rw [hnum] at hle ⊢
  rw [hproofInputs]
  simp only [List.length_append, List.length_map, List.length_replicate]
  omega

theorem TransactSteps.publicSlots_eq {fields : List Bytes32}
    (h : Verify.publicSlotFields
      ((transact.proofInputs.publicSlotAssets.take transact.ix.circuit.numPublicAssetSlots).zip
        (transact.proofInputs.publicSlotAmounts.take transact.ix.circuit.numPublicAssetSlots)) = .ok fields) :
    ∃ slots, Verify.publicSlotFields slots = .ok fields ∧
      transact.proofInputs.publicSlotAssets = slots.map (·.1) ∧
      transact.proofInputs.publicSlotAmounts = slots.map (·.2) := by
  obtain ⟨hassets, hamounts⟩ := steps.length_publicSlots
  rw [List.take_of_length_le (Nat.le_of_eq hassets), List.take_of_length_le (Nat.le_of_eq hamounts)] at h
  have hlength := hassets.trans hamounts.symm
  exact ⟨_, h, (List.map_fst_zip (Nat.le_of_eq hlength)).symm,
    (List.map_snd_zip (Nat.le_of_eq hlength.symm)).symm⟩

theorem TransactSteps.treeSlots_used : unusedTreeSlot ∉ transact.proofInputs.treeSlots := by
  obtain ⟨_, _, _, _, _, _, _, _, hproofInputs⟩ := steps.proofInputs_cases
  obtain ⟨_, _, _, _, _, happly, _⟩ := run_applyInputTrees_cases steps.contexts steps.inputs
  rw [hproofInputs]
  exact unusedTreeSlot_not_mem happly

theorem TransactSteps.packed_inputFlags :
    ∃ allowDummyInputs, packInputFlags allowDummyInputs (transact.ix.inputs.map (·.treeIndex)) =
      .ok transact.proofInputs.inputFlags := by
  obtain ⟨_, _, _, _, _, _, _, _, hproofInputs⟩ := steps.proofInputs_cases
  obtain ⟨_, _, _, _, _, _, hpack⟩ := run_applyInputTrees_cases steps.contexts steps.inputs
  rw [hproofInputs]
  exact ⟨_, hpack⟩

theorem TransactSteps.signerPkHashes_identities :
    List.Forall₂ (fun tag hash => solanaOwnerIdentity env.tree.hashv tag = .ok hash)
      (firstOccurrences [] (if transact.ix.circuit.requiresInputSignatures then
        transact.accounts.ownerSigners.map (·.address) else [transact.accounts.payer.address]))
      transact.proofInputs.signerPkHashes := by
  obtain ⟨_, _, _, _, hsigners, _, _, _, hproofInputs⟩ := steps.proofInputs_cases
  rw [hproofInputs]
  exact signerHashes_eq_ok .nil hsigners

/-- The owners beyond the circuit's outputs are zero, and all of them on the authority rail. -/
theorem TransactSteps.outputOwnerPkHashes_eq
    (hnumOutputs : transact.ix.circuit.numOutputs ≤ transact.proofInputs.outputOwnerPkHashes.length) :
    transact.proofInputs.outputOwnerPkHashes =
      transact.proofInputs.outputOwnerPkHashes.take transact.ix.circuit.numOutputs ++
        List.replicate (maxOutputs - transact.ix.circuit.numOutputs) 0 ∧
      (transact.ix.circuit.outputOwnerMode = .none →
        transact.proofInputs.outputOwnerPkHashes = List.replicate maxOutputs 0) := by
  obtain ⟨_, _, owners, _, _, howners, hmax, _, hproofInputs⟩ := steps.proofInputs_cases
  obtain ⟨_, _, houtputs, _⟩ := validateSelector_eq_ok steps.selector
  obtain ⟨hlength, hnone⟩ := outputOwnerHashes_eq_ok howners
  obtain ⟨added, hadded, hresolved⟩ := resolveOutputsFrom_eq_ok steps.resolved
  rw [List.nil_append] at hadded
  rw [← hadded] at hresolved
  have hcount := hresolved.length_eq
  have hvector : transact.proofInputs.outputOwnerPkHashes =
      owners ++ List.replicate (maxOutputs - owners.length) 0 := by rw [hproofInputs]
  rw [hvector, List.length_append, List.length_replicate] at hnumOutputs
  rw [hvector]
  refine ⟨padded_eq_take (by omega) (by omega), fun hmode => ?_⟩
  rw [hnone hmode, List.length_replicate, List.replicate_append_replicate]
  congr 1
  omega

end

end Steps

end Zolana
