import Zolana.Proof.Decoders
import Zolana.Wallet.OutputData

/-!
# Emitted output data decodes to what was emitted

The program patches the length of a body into the data and looks for a scheme without decoding; a client reads
the derived encoding of the enumeration. A decoder accepts the data of a value exactly where the encoder gives it.
-/

namespace Zolana.Wallet

open Codec

/-! ### The enumeration -/

def OutputDataEncoding.blob : OutputDataEncoding → List UInt8
  | plaintext blob | encrypted blob | verifiablyEncrypted blob => blob

theorem exact_borshBytes : Exact borshBytes (writeVec 4 writeByte) fun blob => blob.length < 256 ^ 4 := exact_vec_byte 4

theorem exact_outputDataEncoding :
    Exact OutputDataEncoding.read OutputDataEncoding.write fun encoding => encoding.blob.length < 256 ^ 4 := by
  refine .tagged (by rintro (_ | _ | _) <;> simp [OutputDataEncoding.write]) fun tag => ?_
  split_ifs with hplaintext hencrypted hverifiably
  on_goal 4 => refine exact_failure ?_
  on_goal 3 => refine exact_borshBytes.one (fun _ => rfl) ?_
  on_goal 2 => refine exact_borshBytes.one (fun _ => rfl) ?_
  on_goal 1 => refine exact_borshBytes.one (fun _ => rfl) ?_
  all_goals
    rintro (_ | _ | _) <;> simp [OutputDataEncoding.write, OutputDataEncoding.blob, eq_comm, *]

theorem writeVec_byte (blob : List UInt8) : writeVec 4 writeByte blob = Bytes.toLE 4 blob.length ++ blob := by
  have hflat : blob.flatMap writeByte = blob := List.flatMap_singleton' blob
  rw [writeVec, hflat]

theorem encodeTaggedBody_eq_some {encodingTag scheme : UInt8} {body data : List UInt8} :
    encodeTaggedBody encodingTag scheme body = some data ↔
      (scheme :: body).length < 2 ^ 32 ∧ data = encodingTag :: writeVec 4 writeByte (scheme :: body) := by
  have hlength : (encodingTag :: (List.replicate 4 0 ++ scheme :: body)).length - bodyOffset = (scheme :: body).length := by
    simp [bodyOffset, bodyLenOffset]
  rw [writeVec_byte]
  simp only [encodeTaggedBody, hlength, Option.ite_none_right_eq_some, Option.some.injEq]
  exact and_congr_right fun _ => eq_comm

/-- The marker is found precisely in the data that decodes to it. -/
theorem encryptedOutputBody_eq_some {data payload : List UInt8} {scheme : UInt8} :
    Verify.encryptedOutputBody data scheme = some payload ↔
      whole OutputDataEncoding.read data = some (.encrypted (scheme :: payload)) := by
  rw [exact_outputDataEncoding.whole_eq_some, OutputDataEncoding.write, writeVec_byte, OutputDataEncoding.blob]
  constructor
  · intro h
    unfold Verify.encryptedOutputBody at h
    split at h
    case h_1 => cases h
    case h_2 tag rest =>
      split at h
      case isTrue => cases h
      case isFalse hhead =>
        rw [not_or, not_not, not_lt] at hhead
        split at h
        case h_1 => cases h
        case h_2 schemeByte payload' hdrop =>
          obtain ⟨⟨hlen, rfl⟩, hpayload⟩ := Option.ite_none_right_eq_some.mp h
          obtain rfl := Option.some.inj hpayload
          have htake : (rest.take 4).length = 4 := List.length_take_of_le hhead.2
          have hlt := Bytes.ofLE_lt (rest.take 4)
          have hle := Bytes.toLE_ofLE (rest.take 4)
          rw [hdrop] at hlen
          rw [htake, hlen] at hlt hle
          refine ⟨hlt, ?_⟩
          rw [hhead.1, hle, ← hdrop, List.take_append_drop]
  · rintro ⟨hlt, rfl⟩
    have hsize := Bytes.length_toLE 4 (scheme :: payload).length
    simp only [Verify.encryptedOutputBody, List.take_left' hsize, List.drop_left' hsize, Bytes.ofLE_toLE hlt]
    simp

/-! ### Bodies -/

theorem exact_prooflessOutput : Exact ProoflessOutput.read ProoflessOutput.write fun output =>
    (∀ data ∈ output.utxoData, data.length < 256 ^ 4) ∧ (∀ data ∈ output.ringData, data.length < 256 ^ 4) ∧
      ∀ memo ∈ output.memo, memo.length < 256 ^ 4 := by
  refine (exact_bytes32.field ProoflessOutput.owner fun _ =>
    exact_bytes32.field ProoflessOutput.blinding fun _ =>
    exact_bytes32.field ProoflessOutput.asset fun _ =>
    exact_u64.field ProoflessOutput.amount fun _ =>
    (exact_option exact_bytes32).field ProoflessOutput.dataHash fun _ =>
    (exact_option exact_borshBytes).field ProoflessOutput.utxoData fun _ =>
    (exact_option exact_bytes32).field ProoflessOutput.ringProgramId fun _ =>
    (exact_option exact_bytes32).field ProoflessOutput.ringDataHash fun _ =>
    (exact_option exact_borshBytes).field ProoflessOutput.ringData fun _ =>
    (exact_option exact_borshBytes).field ProoflessOutput.memo fun _ => .done ?_).record ?_ ?_
  · rintro ⟨⟩
    simp [and_assoc]
  · simp [ProoflessOutput.write]
  · simp

theorem exact_encryptedRingDepositData : Exact EncryptedRingDepositData.read EncryptedRingDepositData.write
    fun data => data.ciphertext.length < 256 ^ 4 := by
  refine ((exact_array 33).field EncryptedRingDepositData.txViewingPk fun _ =>
    (exact_array 16).field EncryptedRingDepositData.salt fun _ =>
    exact_borshBytes.field EncryptedRingDepositData.ciphertext fun _ => .done ?_).record ?_ ?_
  · rintro ⟨⟩
    simp [and_assoc]
  · simp [EncryptedRingDepositData.write]
  · simp

theorem exact_encryptedRingDepositOutput : Exact EncryptedRingDepositOutput.read EncryptedRingDepositOutput.write
    fun output => output.encrypted.ciphertext.length < 256 ^ 4 := by
  refine (exact_bytes32.field EncryptedRingDepositOutput.ownerUtxoHash fun _ =>
    exact_bytes32.field EncryptedRingDepositOutput.asset fun _ =>
    exact_u64.field EncryptedRingDepositOutput.amount fun _ =>
    (exact_option exact_bytes32).field EncryptedRingDepositOutput.dataHash fun _ =>
    exact_bytes32.field EncryptedRingDepositOutput.ringProgramId fun _ =>
    exact_bytes32.field EncryptedRingDepositOutput.ringDataHash fun _ =>
    exact_encryptedRingDepositData.field EncryptedRingDepositOutput.encrypted fun _ => .done ?_).record ?_ ?_
  · rintro ⟨⟩
    simp [and_assoc]
  · simp [EncryptedRingDepositOutput.write]
  · simp

section Decode

variable {α : Type} {reader : Reader α} {write : α → List UInt8} {Fits : α → Prop} (h : Exact reader write Fits)
  {scheme : UInt8} {a : α}

include h

theorem decodeBlob_eq_some {blob : List UInt8} :
    decodeBlob reader scheme blob = some a ↔ Fits a ∧ blob = scheme :: write a := by
  cases blob with
  | nil => simp [decodeBlob]
  | cons first body =>
      rw [decodeBlob]
      split
      case isTrue hne => simp [hne]
      case isFalse heq =>
        rw [h.whole_eq_some, List.cons.injEq, and_iff_right (not_not.mp heq)]

/-- What decodes to a value behind its tag and its scheme is what `encode_tagged_body` makes of the value. -/
theorem exists_decodeBlob_iff (encoding : List UInt8 → OutputDataEncoding) {encodingTag : UInt8} {data : List UInt8}
    (hwrite : ∀ blob, (encoding blob).write = encodingTag :: writeVec 4 writeByte blob)
    (hblob : ∀ blob, (encoding blob).blob = blob) (hfits : (scheme :: write a).length < 2 ^ 32 → Fits a) :
    (∃ blob, whole OutputDataEncoding.read data = some (encoding blob) ∧ decodeBlob reader scheme blob = some a) ↔
      encodeTaggedBody encodingTag scheme (write a) = some data := by
  simp only [encodeTaggedBody_eq_some, exact_outputDataEncoding.whole_eq_some, decodeBlob_eq_some h, hwrite, hblob]
  constructor
  · rintro ⟨_, ⟨hlt, rfl⟩, -, rfl⟩
    exact ⟨hlt, rfl⟩
  · rintro ⟨hlt, rfl⟩
    exact ⟨_, ⟨hlt, rfl⟩, hfits hlt, rfl⟩

end Decode

theorem decodeOutputData_eq_some {data : List UInt8} {output : ProoflessOutput} :
    decodeOutputData data = some output ↔ encodeOutputDataRef output = some data := by
  rw [encodeOutputDataRef, ← exists_decodeBlob_iff exact_prooflessOutput .plaintext (fun _ => rfl) (fun _ => rfl)]
  · unfold decodeOutputData
    split <;> simp_all
  · intro hlt
    refine ⟨?_, ?_, ?_⟩
    all_goals
      intro bytes hbytes
      simp only [ProoflessOutput.write, Option.mem_def.mp hbytes, writeOption, writeVec_byte, List.length_cons,
        List.length_append] at hlt
      omega

theorem decodeEncryptedRingDepositOutputData_eq_some {data : List UInt8} {output : EncryptedRingDepositOutput} :
    decodeEncryptedRingDepositOutputData data = some output ↔
      encodeEncryptedRingDepositOutputRef output = some data := by
  rw [encodeEncryptedRingDepositOutputRef,
    ← exists_decodeBlob_iff exact_encryptedRingDepositOutput .encrypted (fun _ => rfl) (fun _ => rfl)]
  · unfold decodeEncryptedRingDepositOutputData
    split <;> simp_all
  · intro hlt
    simp only [EncryptedRingDepositOutput.write, EncryptedRingDepositData.write, writeVec_byte, List.length_cons,
      List.length_append] at hlt
    omega

/-! ### Merge outputs -/

theorem length_flatMap_writeBytes32 (elements : List Bytes32) :
    (elements.flatMap writeBytes32).length = 32 * elements.length := by
  induction elements with
  | nil => rfl
  | cons element elements ih => rw [List.flatMap_cons, List.length_append, length_writeBytes32, ih, List.length_cons]; omega

theorem splitMergeOutputBody_body {data : MergeOutputDataRef} (hciphertext : data.ciphertext.length = 3)
    (hshort : data.dataPrefix.length ≤ 1) : splitMergeOutputBody data.body =
      some (data.dataPrefix.head?, writeArray 16 data.salt ++ data.ciphertext.flatMap writeBytes32) := by
  have hlength : (writeArray 16 data.salt ++ data.ciphertext.flatMap writeBytes32).length = mergeOutputBodyLen := by
    rw [List.length_append, length_flatMap_writeBytes32, hciphertext, length_writeArray 16 data.salt, mergeOutputBodyLen]
  rw [MergeOutputDataRef.body, splitMergeOutputBody, List.length_append, hlength, length_flatMap_writeBytes32]
  match hdata : data.dataPrefix with
  | [] => rfl
  | [element] =>
      simp only [List.flatMap_singleton, List.length_singleton]
      rw [if_neg (by decide), if_pos (by decide), List.take_left' (length_writeBytes32 element),
        List.drop_left' (length_writeBytes32 element)]
      exact congrArg (fun hash => some (some hash, _)) (@ofBE_writeArray 32 element)
  | _ :: _ :: _ => simp [hdata] at hshort

theorem exists_body_of_length {encrypted : List UInt8} (h : encrypted.length = mergeOutputBodyLen) :
    ∃ (salt : BitVec 128) (ciphertext : List Bytes32), ciphertext.length = 3 ∧
      encrypted = writeArray 16 salt ++ ciphertext.flatMap writeBytes32 := by
  let element (start : Nat) : Bytes32 := BitVec.ofNat 256 (Bytes.ofBE ((encrypted.drop start).take 32))
  have helement {start : Nat} (hstart : start + 32 ≤ encrypted.length) :
      writeBytes32 (element start) ++ encrypted.drop (start + 32) = encrypted.drop start := by
    rw [← List.drop_drop]
    refine (congrArg (· ++ _) (writeArray_ofBE ?_)).trans (List.take_append_drop 32 _)
    rw [List.length_take, List.length_drop]
    omega
  have hlast : encrypted.drop (80 + 32) = [] := List.drop_eq_nil_of_le h.le
  have hciphertext : [element 16, element 48, element 80].flatMap writeBytes32 = encrypted.drop 16 := by
    rw [← helement (h ▸ by decide), ← helement (h ▸ by decide), ← helement (h ▸ by decide), hlast]
    rfl
  refine ⟨BitVec.ofNat 128 (Bytes.ofBE (encrypted.take 16)), [element 16, element 48, element 80], rfl, ?_⟩
  rw [hciphertext, @writeArray_ofBE _ 16 (List.length_take_of_le (h ▸ by decide)), List.take_append_drop]

theorem of_splitMergeOutputBody {body encrypted : List UInt8} {ringDataHash : Option Bytes32}
    (h : splitMergeOutputBody body = some (ringDataHash, encrypted)) :
    ∃ data : MergeOutputDataRef, data.ciphertext.length = 3 ∧ data.dataPrefix = ringDataHash.toList ∧
      data.body = body ∧ encrypted = writeArray 16 data.salt ++ data.ciphertext.flatMap writeBytes32 := by
  unfold splitMergeOutputBody at h
  split at h
  case isTrue hlength =>
    obtain ⟨rfl, rfl⟩ := Prod.mk.inj (Option.some.inj h)
    obtain ⟨salt, ciphertext, hciphertext, rfl⟩ := exists_body_of_length hlength
    exact ⟨⟨salt, ciphertext, []⟩, hciphertext, rfl, rfl, rfl⟩
  case isFalse =>
    obtain ⟨hlength, heq⟩ := Option.ite_none_right_eq_some.mp h
    obtain ⟨rfl, rfl⟩ := Prod.mk.inj (Option.some.inj heq)
    have hrest : (body.drop 32).length = mergeOutputBodyLen := by
      rw [List.length_drop, hlength, Nat.add_sub_cancel_left]
    obtain ⟨salt, ciphertext, hciphertext, hencrypted⟩ := exists_body_of_length hrest
    refine ⟨⟨salt, ciphertext, [_]⟩, hciphertext, rfl, ?_, hencrypted⟩
    rw [MergeOutputDataRef.body, ← hencrypted, List.flatMap_singleton]
    refine (congrArg (· ++ _) (@writeArray_ofBE _ 32 ?_)).trans (List.take_append_drop 32 body)
    exact List.length_take_of_le (hlength ▸ Nat.le_add_right 32 _)

/-- Every emitted output decodes to what was emitted, each decoder accepts only what its encoder produces, and the
program's marker is found precisely in the data that decodes to it. -/
theorem output_data_decodes :
    (∀ output : ProoflessOutput, (plaintextScheme :: output.write).length < 2 ^ 32 →
      ∃ data, encodeOutputDataRef output = some data ∧ decodeOutputData data = some output) ∧
    (∀ output : EncryptedRingDepositOutput,
      (EncryptedScheme.ringDeposit.asByte :: output.write).length < 2 ^ 32 →
        ∃ data, encodeEncryptedRingDepositOutputRef output = some data ∧
          decodeEncryptedRingDepositOutputData data = some output) ∧
    (∀ output : MergeOutputDataRef, (EncryptedScheme.merge.asByte :: output.body).length < 2 ^ 32 →
      ∃ data encoding body, output.encode = some data ∧ whole OutputDataEncoding.read data = some encoding ∧
        encoding.blob = EncryptedScheme.merge.asByte :: body ∧
        ((∃ blob, encoding = .verifiablyEncrypted blob) ↔ output.dataPrefix = []) ∧
        (output.ciphertext.length = 3 → output.dataPrefix.length ≤ 1 → splitMergeOutputBody body =
          some (output.dataPrefix.head?, writeArray 16 output.salt ++ output.ciphertext.flatMap writeBytes32))) ∧
    (∀ data output, decodeOutputData data = some output → encodeOutputDataRef output = some data) ∧
    (∀ data output, decodeEncryptedRingDepositOutputData data = some output →
      encodeEncryptedRingDepositOutputRef output = some data) ∧
    (∀ data encoding, whole OutputDataEncoding.read data = some encoding → data = encoding.write) ∧
    (∀ body ringDataHash encrypted, splitMergeOutputBody body = some (ringDataHash, encrypted) →
      ∃ output : MergeOutputDataRef, output.ciphertext.length = 3 ∧ output.dataPrefix = ringDataHash.toList ∧
        output.body = body ∧ encrypted = writeArray 16 output.salt ++ output.ciphertext.flatMap writeBytes32) ∧
    ∀ data scheme payload, Verify.encryptedOutputBody data scheme = some payload ↔
      whole OutputDataEncoding.read data = some (.encrypted (scheme :: payload)) := by
  refine ⟨fun output hlt => ?_, fun output hlt => ?_, fun output hlt => ?_, fun _ _ h => decodeOutputData_eq_some.mp h,
    fun _ _ h => decodeEncryptedRingDepositOutputData_eq_some.mp h,
    fun _ _ h => (exact_outputDataEncoding.whole_eq_some.mp h).2, fun _ _ _ h => of_splitMergeOutputBody h,
    fun _ _ _ => encryptedOutputBody_eq_some⟩
  · have hencode : encodeOutputDataRef output = some _ := encodeTaggedBody_eq_some.mpr ⟨hlt, rfl⟩
    exact ⟨_, hencode, decodeOutputData_eq_some.mpr hencode⟩
  · have hencode : encodeEncryptedRingDepositOutputRef output = some _ := encodeTaggedBody_eq_some.mpr ⟨hlt, rfl⟩
    exact ⟨_, hencode, decodeEncryptedRingDepositOutputData_eq_some.mpr hencode⟩
  · refine ⟨_, _, output.body, if_pos hlt, exact_outputDataEncoding.whole_eq_some.mpr ⟨?_, rfl⟩, ?_, ?_,
      splitMergeOutputBody_body⟩
    all_goals cases output.dataPrefix <;> simp_all [OutputDataEncoding.blob]

end Zolana.Wallet
