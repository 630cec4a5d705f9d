import Zolana.Proof.Publishes
import Zolana.Properties.MergeCircuit
import Zolana.Properties.PublicInputs

/-!
# The program and the circuits hash one transcript

A proof is checked against the hash that the program computes of an instruction, and a circuit that publishes the same
computes the same hash.
-/

namespace Zolana

open Circuits

variable {HEIGHT K : Nat}

/-- The program and the circuits hash the same transcript, for a transact and for a merge. -/
theorem transcripts_agree {env : ChainEnv} {circuitEnv : CircuitEnv}
    (himplements : env.tree.hashv.Implements circuitEnv.poseidon)
    (hsuffix : env.tree.hashv.DerivesZeroSuffixChains) (hslots : env.tree.hashv.DerivesZeroTreeSlots)
    (hsigners : Verify.DerivesSignerZeroSuffixChains env.tree.hashv) :
    (∀ (instruction : InstructionTag) (accounts : List AccountView) (data : List UInt8) (clock : Clock)
      (chain assembled : Chain HEIGHT K) (transact : AssembledTransact) (digest : Bytes32),
      (assembleTransact env instruction accounts data clock).run chain = .ok transact assembled →
      Verify.publicInputHash env.tree.hashv env.sha256 transact.ix transact.proofInputs = .ok digest →
      ∀ (shape : Shape) (c : SpendCircuit shape), c.Publishes circuitEnv.poseidon env.sha256 transact
        (cachedSelection chain transact.cache transact.ix.circuit) →
      c.publicInputHashOf circuitEnv = some (fieldOf digest) ∧
        (c.define circuitEnv = some () → c.witness.publicInputHash = fieldOf digest)) ∧
    ∀ (ix : MergeTransactIxData) (derived : Verify.MergeProofInputs) (digest : Bytes32),
      Verify.mergePublicInputHash env.tree.hashv ix derived = .ok digest →
      ∀ (n : Merge.InputCount) (c : Merge.MergeCircuit n) (encryption : List Fr),
      c.Publishes ix derived encryption →
      c.publicInputHashOf circuitEnv.poseidon encryption = some (fieldOf digest) ∧
        (c.define circuitEnv.poseidon = some () → c.Encrypts circuitEnv.poseidon encryption →
          c.publicInputHash = fieldOf digest) := by
  refine ⟨?_, ?_⟩
  · intro instruction accounts data clock chain assembled transact digest h hhash shape c hpublishes
    obtain ⟨steps⟩ := run_assembleTransact_ok h
    have hvalue := publicInputHashOf_eq himplements hsuffix hslots hsigners steps hpublishes hhash
    refine ⟨hvalue, fun hdefine => ?_⟩
    exact Option.some.inj ((SpendCircuit.publicInputHashOf_of_define hdefine).symm.trans hvalue)
  · intro ix derived digest hhash n c encryption hpublishes
    have hvalue := Merge.MergeCircuit.publicInputHashOf_eq himplements hsuffix hslots hhash hpublishes
    refine ⟨hvalue, fun hdefine hencrypts => ?_⟩
    exact Option.some.inj ((Merge.MergeCircuit.publicInputHashOf_of_define hdefine hencrypts).symm.trans hvalue)

/-! ### The transfer, and a merge of one input -/

def oneInTwoOut : Shape where
  nInputs := 1
  nOutputs := 2
  nInputs_pos := Nat.one_pos
  nOutputs_pos := Nat.two_pos
  nInputs_lt := by norm_num
  nOutputs_lt := threeInTwoOut.nOutputs_lt

/-- The default rail with what a transact publishes, for a cached hash. Nothing published depends on the private wires. -/
def transferCircuit (ix : TransactIxData) (derived : Verify.TransactProofInputs) (treeId : UInt16) (hash : Bytes32) :
    DefaultRingConfidentialEddsaCircuit oneInTwoOut where
  nullifiers := padded (ix.inputs.map (·.nullifierHash))
  outputHashes := padded (ix.outputs.map (·.utxoHash))
  treeSlots := paddedSlots derived.treeSlots
  outputTreeId := fieldOf derived.outputTreeId
  privateTxHash := fieldOf ix.privateTxHash
  externalDataHash := fieldOf derived.externalDataHash
  publicAssets := padded derived.publicSlotAssets
  publicAmounts k := ((derived.publicSlotAmounts.getD k 0 : Int) : Fr)
  inputFlags := fieldOf derived.inputFlags
  signerPkHashes := List.ofFn (padded derived.signerPkHashes : Fin oneInTwoOut.signerWidth.toNat → Fr)
  publicInputHash := 0
  inputs _ := (hiddenSpend false).inputs ⟨0, threeInTwoOut.nInputs_pos⟩
  inputOwnerPkHashes _ := 0
  outputs i := hiddenSpendOutput i
  blindingSeed := 0
  cachedInputs := ⟨fieldOf (treeIdField treeId), fieldOf hash, padded [hash], fun _ => 0, fun _ => 0⟩
  outputOwnerPkHashes := padded derived.outputOwnerPkHashes
  outputNullifierPks _ := 0

theorem publishes_transferCircuit {poseidon : Poseidon} {sha256 : Sha256} {transact : AssembledTransact} {treeId : UInt16}
    {hash : Bytes32} (hkind : transact.ix.circuit.kind = .confidentialSigner)
    (hshape : transact.ix.circuit.shape = ⟨1, 2, 3⟩) :
    (SpendCircuit.defaultConfidential (transferCircuit transact.ix transact.proofInputs treeId hash)).Publishes poseidon
      sha256 transact (some (treeId, [hash])) where
  kind := hkind.symm
  nInputs := by
    rw [CircuitId.numInputs, hshape]
    rfl
  nOutputs := by
    rw [CircuitId.numOutputs, hshape]
    rfl
  witness := ⟨rfl, rfl, rfl, rfl, rfl, rfl, rfl, rfl, rfl, rfl⟩
  ringProgramId hring := by
    have hdefault : transact.ix.circuit.isRing = false := by
      revert hkind
      cases transact.ix.circuit <;> intro hkind <;> first | rfl | cases hkind
    rw [hring] at hdefault
    cases hdefault
  ownerTags _ := rfl
  cachedInputs cached hcached := by
    cases hcached
    exact ⟨rfl, rfl, rfl⟩
  signature := trivial

/-- What the merges ask of Poseidon. -/
def mergeTranscriptLog : List (List Bytes32 × Bytes32) := [
  ([801, 0, 0, zeroSuffixChains.getD 2 0], 9001),
  ([3, 5, 6], 9002),
  ([9002, zeroTreeSlotSuffixChains.getD 3 0], 9003),
  ([9001, 601, 9003, 4], 9004),
  ([9004, 700, 9, 1], 9005),
  ([9005, 11, 12, 13], 9006),
  ([9006, 14, 15, 16], 9007),
  ([9005, 21, 22, 0], 9008)]

/-- The hash of the transfer, which the merges have asked too. -/
def transcriptHashv : Hashv := Oracle.answer (poseidonLog ++ mergeTranscriptLog) (.unknownSolanaSyscall 1)

theorem le_transcriptHashv (inputs : List Bytes32) (digest : Bytes32) (h : transferEnv.tree.hashv inputs = .ok digest) :
    transcriptHashv inputs = .ok digest := Oracle.answer_append _ h

def mergeEnv : ChainEnv := { transferEnv with tree := { transferEnv.tree with hashv := transcriptHashv } }

theorem canonical_transcriptLog {entry : List Bytes32 × Bytes32} (h : entry ∈ poseidonLog ++ mergeTranscriptLog) :
    ∀ input ∈ entry.1, isCanonicalBn254ScalarBe input = true := by
  have hall : ((poseidonLog ++ mergeTranscriptLog).all fun entry => entry.1.all isCanonicalBn254ScalarBe) = true := by
    decide +kernel
  exact List.all_eq_true.mp (List.all_eq_true.mp hall entry h)

def transferCircuitEnv : CircuitEnv := ⟨transferEnv.tree.hashv.toPoseidon, fun _ _ _ => false⟩

def mergeCircuitEnv : CircuitEnv := ⟨mergeEnv.tree.hashv.toPoseidon, fun _ _ _ => false⟩

theorem implements_transferEnv : transferEnv.tree.hashv.Implements transferCircuitEnv.poseidon :=
  Hashv.implements_toPoseidon fun _ _ h => canonical_transcriptLog (List.mem_append_left _ (Oracle.mem_of_answer h))

theorem implements_mergeEnv : mergeEnv.tree.hashv.Implements mergeCircuitEnv.poseidon :=
  Hashv.implements_toPoseidon fun _ _ h => canonical_transcriptLog (Oracle.mem_of_answer h)

def transcriptMergeIx : MergeTransactIxData where
  expiryUnixTs := 100
  proof := ⟨0, 0, 0⟩
  outputUtxoHash := 601
  outputEncryption := ⟨13, 14, 15, 16⟩
  privateTxHash := 700
  nullifiers := [801]
  utxoTreeRootIndex := 0
  nullifierTreeRootIndex := 0
  cacheSlot := none

def transcriptMergeInputs (ownerBinding : Verify.MergeOwnerBinding) : Verify.MergeProofInputs where
  treeSlot := ⟨3, 5, 6⟩
  outputTreeId := 4
  externalDataHash := 9
  allowDummyInputs := 1
  ownerBinding

def transcriptCommon : Merge.CommonPublicInputs eightInputs.count where
  nullifiers := padded [801]
  outputHash := fieldOf 601
  privateTxHash := fieldOf 700
  externalDataHash := fieldOf 9
  allowDummyInputs := fieldOf 1
  treeSlots := paddedSlots [⟨3, 5, 6⟩]
  outputTreeId := fieldOf 4

def defaultBinding : Verify.MergeOwnerBinding := .default 11 12 transcriptMergeIx.outputEncryption

def ringBinding : Verify.MergeOwnerBinding := .ring 22 21

def transcriptDefaultMerge : Merge.MergeCircuit eightInputs := .default
  { mergeOfTwo with
    userNullifierPk := fieldOf 12
    common := transcriptCommon
    userSigningPkHash := fieldOf 11 }

def transcriptRingMerge : Merge.MergeCircuit eightInputs := .ring
  { mergeOfTwo with
    common := transcriptCommon
    outputRingDataHash := fieldOf 21
    ringProgramId := fieldOf 22 }

theorem publishes_transcriptDefaultMerge : transcriptDefaultMerge.Publishes transcriptMergeIx
    (transcriptMergeInputs defaultBinding) (transcriptMergeIx.outputEncryption.publicInputs.map fieldOf) :=
  ⟨by decide, ⟨rfl, rfl, rfl, rfl, rfl, rfl, rfl⟩, rfl, rfl, rfl⟩

theorem publishes_transcriptRingMerge : transcriptRingMerge.Publishes transcriptMergeIx
    (transcriptMergeInputs ringBinding) [] :=
  ⟨by decide, ⟨rfl, rfl, rfl, rfl, rfl, rfl, rfl⟩, rfl, rfl⟩

/-- A transfer that reads its cache and leaves slots free, and merges of one input in circuits of eight. -/
theorem transcripts_agree_transfer :
    (∃ (transact : AssembledTransact) (assembled : Chain 32 1),
      (assembleTransact transferEnv .transact transferAccounts (transferData 9) ⟨7, 50⟩).run transferChain =
        .ok transact assembled ∧
      (SpendCircuit.defaultConfidential (transferCircuit transact.ix transact.proofInputs 3 501)).publicInputHashOf
        transferCircuitEnv = some (fieldOf 913)) ∧
    transcriptDefaultMerge.publicInputHashOf mergeCircuitEnv.poseidon
        (transcriptMergeIx.outputEncryption.publicInputs.map fieldOf) = some (fieldOf 9007) ∧
    transcriptRingMerge.publicInputHashOf mergeCircuitEnv.poseidon [] = some (fieldOf 9008) := by
  have hmerge := (@transcripts_agree 32 1 _ _ implements_mergeEnv
    (derivesZeroSuffixChains_transferEnv.mono le_transcriptHashv) (derivesZeroTreeSlots_transferEnv.mono le_transcriptHashv)
    (derivesSignerZeroSuffixChains_transferEnv.mono le_transcriptHashv)).2 transcriptMergeIx
  refine ⟨?_, ?_, ?_⟩
  · obtain ⟨transact, assembled, hrun, -, hkind, hshape, hselection, hhash⟩ := assembles_transfer (.inl rfl)
    refine ⟨transact, assembled, hrun, ?_⟩
    refine ((transcripts_agree implements_transferEnv derivesZeroSuffixChains_transferEnv
      derivesZeroTreeSlots_transferEnv derivesSignerZeroSuffixChains_transferEnv).1 .transact transferAccounts
      (transferData 9) ⟨7, 50⟩ transferChain assembled transact _ hrun hhash oneInTwoOut _ ?_).1
    rw [hselection]
    exact publishes_transferCircuit hkind hshape
  · exact (hmerge (transcriptMergeInputs defaultBinding) 9007 (by decide +kernel) eightInputs transcriptDefaultMerge _
      publishes_transcriptDefaultMerge).1
  · exact (hmerge (transcriptMergeInputs ringBinding) 9008 (by decide +kernel) eightInputs transcriptRingMerge _
      publishes_transcriptRingMerge).1

end Zolana
