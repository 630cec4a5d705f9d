import Zolana.Interface.Decoders
import Zolana.Proof.Wire

/-!
# What the decoders take is what the encoders write

One lemma for each type behind the prefix and for the merge data, in the order of the types. A borrowed
transact is read by a reader equal to the owned one; a decoded value has lengths its prefixes can hold.
-/

namespace Zolana

open Codec

theorem exact_groth16Proof : Exact Groth16Proof.read Groth16Proof.write fun _ => True := by
  refine (exact_bytes32.field Groth16Proof.a fun _ => (exact_array 128).field Groth16Proof.b fun _ =>
    exact_bytes32.field Groth16Proof.c fun _ => .done ?_).record ?_ ?_
  · rintro ⟨⟩
    simp [and_assoc]
  · simp [Groth16Proof.write]
  · simp

theorem exact_bsb22Commitment : Exact Bsb22Commitment.read Bsb22Commitment.write fun _ => True := by
  refine exact_bytes32.two exact_bytes32 (fun _ _ => rfl) ?_
  rintro ⟨⟩
  simp

/-- An absent tag is accepted in one spelling only. -/
theorem exact_fixedOptionOwnerTag : Exact readFixedOptionOwnerTag writeFixedOptionOwnerTag fun _ => True := by
  refine .tagged (by rintro (_ | _) <;> simp [writeFixedOptionOwnerTag, writeByte]) fun present => ?_
  by_cases hsome : present = 1
  · subst hsome
    exact exact_bytes32.one (fun _ => rfl) (by rintro (_ | _) <;> simp [writeFixedOptionOwnerTag, writeByte])
  intro bytes ownerTag rest
  rw [run_bind_eq_some]
  constructor
  · rintro ⟨tag, middle, htag, hread⟩
    obtain ⟨-, rfl⟩ := exact_bytes32.mp htag
    split_ifs at hread with hnone hzero
    · obtain ⟨rfl, rfl⟩ := run_pure_eq_some.mp hread
      exact ⟨⟨by rw [hnone]; rfl, trivial⟩, by rw [hzero]; rfl⟩
    all_goals cases hread
  · rintro ⟨⟨hhead, -⟩, rfl⟩
    cases ownerTag with
    | none =>
        obtain rfl : 0 = present := Option.some.inj hhead
        exact ⟨0, rest, exact_bytes32.mpr ⟨trivial, rfl⟩, rfl⟩
    | some tag => exact absurd (Option.some.inj hhead).symm hsome

theorem exact_anonymousRingEddsaProofData :
    Exact AnonymousRingEddsaProofData.read AnonymousRingEddsaProofData.write fun _ => True := by
  refine exact_bsb22Commitment.two exact_fixedOptionOwnerTag (fun _ _ => rfl) ?_
  rintro ⟨⟩
  simp

theorem exact_eddsaProofData : Exact EddsaProofData.read EddsaProofData.write fun _ => True := by
  refine exact_bsb22Commitment.two exact_bytes32 (fun _ _ => rfl) ?_
  rintro ⟨⟩
  simp

theorem exact_cacheWrite : Exact CacheWrite.read CacheWrite.write fun _ => True := by
  refine exact_byte.two exact_byte (fun _ _ => rfl) ?_
  rintro ⟨⟩
  simp

theorem exact_cacheAccess :
    Exact CacheAccess.read CacheAccess.write fun access => access.readBitmap < 256 ^ 8 := by
  refine (exact_natLE 8).two (exact_vector exact_cacheWrite maxCacheWrites) (fun _ _ => rfl) ?_
  rintro ⟨⟩
  simp

theorem exact_circuitShape : Exact CircuitShape.read CircuitShape.write fun _ => True := by
  refine (exact_byte.field CircuitShape.nInputs fun _ => exact_byte.field CircuitShape.nOutputs fun _ =>
    exact_byte.field CircuitShape.nPublicAssetSlots fun _ => .done ?_).record ?_ ?_
  · rintro ⟨⟩
    simp [and_assoc]
  · simp [CircuitShape.write]
  · simp

def CircuitId.tag : CircuitId → UInt16
  | confidentialSigner _ => 0
  | confidentialRingEddsa _ => 1
  | ringAuthority _ => 2
  | anonymousRingEddsa _ _ => 3
  | confidentialSignerCached _ _ => 4
  | confidentialRingEddsaCached _ _ => 5
  | anonymousRingEddsaCached _ _ _ => 6
  | confidentialEddsa _ _ => 7
  | confidentialEddsaCached _ _ _ => 8

theorem exact_circuitId : Exact CircuitId.read CircuitId.write
    fun circuit => ∀ access ∈ circuit.cacheAccess, access.readBitmap < 256 ^ 8 := by
  have hwrite (circuit : CircuitId) :
      circuit.write = writeU16 circuit.tag ++ (circuit.shape.write ++ circuit.write.drop 5) := by
    cases circuit <;> rfl
  refine (exact_u16.field CircuitId.tag fun tag => exact_circuitShape.field CircuitId.shape fun shape => ?_).record
    hwrite fun _ => ⟨fun h => ⟨trivial, trivial, h⟩, fun h => h.2.2⟩
  simp only [← bind_pure_comp, seq_eq_bind_map, bind_assoc, pure_bind]
  split_ifs with h₀ h₁ h₂ h₃ h₄ h₅ h₆ h₇ h₈
  on_goal 1 => refine exact_pure rfl ?_
  on_goal 2 => refine exact_pure rfl ?_
  on_goal 3 => refine exact_pure rfl ?_
  on_goal 4 => refine exact_anonymousRingEddsaProofData.one (fun _ => rfl) ?_
  on_goal 5 => refine exact_cacheAccess.one (fun _ => rfl) ?_
  on_goal 6 => refine exact_cacheAccess.one (fun _ => rfl) ?_
  on_goal 7 => refine exact_anonymousRingEddsaProofData.two exact_cacheAccess (fun _ _ => rfl) ?_
  on_goal 8 => refine exact_eddsaProofData.one (fun _ => rfl) ?_
  on_goal 9 => refine exact_eddsaProofData.two exact_cacheAccess (fun _ _ => rfl) ?_
  on_goal 10 => refine exact_failure ?_
  all_goals
    rintro (_ | _ | _ | _ | _ | _ | _ | _ | _) <;>
      simp [CircuitId.tag, CircuitId.shape, CircuitId.cacheAccess, eq_comm, and_comm, *]

/-! ### Transact -/

theorem exact_inputUtxo : Exact InputUtxo.read InputUtxo.write fun input => input.treeIndex < 256 := by
  refine exact_bytes32.two exact_byte (fun _ _ => ?_) ?_
  · rw [InputUtxo.write, UInt8.ofNat_toNat]
  · rintro ⟨nullifierHash, treeIndex⟩
    constructor
    · intro hlt
      exact ⟨nullifierHash, UInt8.ofNat treeIndex, ⟨trivial, trivial⟩, by rw [UInt8.toNat_ofNat_of_lt' hlt]⟩
    · rintro ⟨_, index, -, heq⟩
      exact (InputUtxo.mk.inj heq).2 ▸ index.toNat_lt

theorem exact_treeContext : Exact TreeContext.read TreeContext.write fun _ => True := by
  refine exact_u16.two exact_u16 (fun _ _ => rfl) ?_
  rintro ⟨⟩
  simp

theorem exact_transactIxData : Exact TransactIxData.readOwned TransactIxData.write fun ix =>
    ix.lengthsFit = true ∧ (∀ access ∈ ix.circuit.cacheAccess, access.readBitmap < 256 ^ 8) ∧
      ∀ input ∈ ix.inputs, input.treeIndex < 256 := by
  refine (exact_externalData.field TransactIxData.toExternalData fun _ =>
    exact_bytes32.field TransactIxData.privateTxHash fun _ =>
    exact_circuitId.field TransactIxData.circuit fun _ =>
    exact_groth16Proof.field TransactIxData.proof fun _ =>
    (exact_vec exact_inputUtxo 1).field TransactIxData.inputs fun _ =>
    (exact_vec exact_treeContext 1).field TransactIxData.treeContexts fun _ => .done ?_).record ?_ ?_
  · rintro ⟨⟩
    simp [and_assoc]
  · simp [TransactIxData.write]
  · simp [TransactIxData.lengthsFit, Option.all_eq_true, and_assoc, and_left_comm, and_comm]

theorem borrowedBytes_eq : borrowedBytes = vec 2 byte := by
  rw [borrowedBytes, vec, funext many_byte]
  rfl

theorem TransactOutput.readRef_eq : TransactOutput.readRef = TransactOutput.read := by
  rw [readRef, read, borrowedBytes_eq]

theorem MessageData.readRef_eq : MessageData.readRef = MessageData.read := by
  rw [readRef, read, borrowedBytes_eq]

theorem TransactIxDataRef.read_eq : TransactIxDataRef.read = TransactIxData.readOwned := by
  rw [read, TransactIxData.readOwned, ExternalData.read, TransactOutput.readRef_eq,
    MessageData.readRef_eq]
  simp only [bind_assoc, pure_bind]

theorem fst_map_read : Prod.fst <$> TransactIxData.read = TransactIxDataRef.read := by
  rw [TransactIxDataRef.read_eq, TransactIxData.read, TransactIxData.readOwned]
  simp only [map_bind, map_pure]
  rfl

theorem map_fst_parseWithExternalDataPrefix (data : List UInt8) :
    (parseWithExternalDataPrefix data).map Prod.fst = TransactIxDataRef.fromBytes data := by
  rw [TransactIxDataRef.fromBytes, ← fst_map_read]
  apply Option.ext
  intro ix
  rw [whole_eq_some, parseWithExternalDataPrefix, map_eq_pure_bind, run_bind_eq_some]
  constructor
  · intro h
    obtain ⟨⟨_, _⟩, hparse, rfl⟩ := Option.map_eq_some_iff.mp h
    obtain ⟨⟨parsed, left⟩, hwhole, hpure⟩ := Option.bind_eq_some_iff.mp hparse
    obtain ⟨rfl, rfl⟩ := Prod.mk.inj (Option.some.inj hpure)
    exact ⟨_, [], whole_eq_some.mp hwhole, rfl⟩
  · rintro ⟨⟨parsed, left⟩, _, hread, hpure⟩
    obtain ⟨rfl, rfl⟩ := run_pure_eq_some.mp hpure
    rw [whole_eq_some.mpr hread]
    rfl

/-! ### Merge -/

theorem exact_mergeOutputEncryption :
    Exact MergeOutputEncryption.read MergeOutputEncryption.write fun _ => True := by
  refine .tagged (by simp [MergeOutputEncryption.write, writeByte]) fun tag => ?_
  split_ifs with hone
  · refine ((exact_array 16).field MergeOutputEncryption.salt fun _ =>
      exact_bytes32.field MergeOutputEncryption.amount fun _ =>
      exact_bytes32.field MergeOutputEncryption.mintLow fun _ =>
      exact_bytes32.field MergeOutputEncryption.mintHigh fun _ => .done ?_).record ?_ ?_
    · rintro ⟨⟩
      simp [and_assoc]
    · simp [MergeOutputEncryption.write, writeByte]
    · simp [MergeOutputEncryption.write, writeByte, hone]
  · exact exact_failure (by simp [MergeOutputEncryption.write, writeByte, eq_comm, hone])

theorem exact_mergeTransactIxData : Exact MergeTransactIxData.read MergeTransactIxData.write
    fun ix => ix.nullifiers.length < 2 ^ 8 := by
  refine (exact_u64.field MergeTransactIxData.expiryUnixTs fun _ =>
    exact_groth16Proof.field MergeTransactIxData.proof fun _ =>
    exact_bytes32.field MergeTransactIxData.outputUtxoHash fun _ =>
    exact_mergeOutputEncryption.field MergeTransactIxData.outputEncryption fun _ =>
    exact_bytes32.field MergeTransactIxData.privateTxHash fun _ =>
    (exact_vec exact_bytes32 1).field MergeTransactIxData.nullifiers fun _ =>
    exact_u16.field MergeTransactIxData.utxoTreeRootIndex fun _ =>
    exact_u16.field MergeTransactIxData.nullifierTreeRootIndex fun _ =>
    (exact_option exact_byte).field MergeTransactIxData.cacheSlot fun _ => .done ?_).record ?_ ?_
  · rintro ⟨⟩
    simp [and_assoc]
  · simp [MergeTransactIxData.write]
  · simp

theorem exact_mergeRingIxData : Exact MergeRingIxData.read MergeRingIxData.write
    fun ix => ix.merge.nullifiers.length < 2 ^ 8 := by
  refine exact_bytes32.two exact_mergeTransactIxData (fun _ _ => rfl) ?_
  rintro ⟨⟩
  simp

end Zolana
