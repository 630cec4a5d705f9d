import Zolana.Proof.Transcript
import Zolana.Wallet.MergeOutput

/-!
# The cipher of a merge output is exact

Adding a pad and taking it away are inverse on field elements, and the ranges that `decrypt` checks are those of an
amount and of the chunks of a mint. So a body opens to a plaintext only if the plaintext encrypts to it.
-/

namespace Zolana.Wallet

open Circuits Codec Fallible

/-! ### Field arithmetic -/

theorem toNat_fieldAdd (a b : Bytes32) : (fieldAdd a b).toNat = (a.toNat + b.toNat) % fieldModulus := by
  rw [fieldAdd, toNat_bn254ScalarModulusBe, BitVec.toNat_ofNat, Nat.mod_eq_of_lt]
  exact (Nat.mod_lt _ prime_fieldModulus.pos).trans (by norm_num [fieldModulus])

theorem toNat_fieldSub (a b : Bytes32) :
    (fieldSub a b).toNat = (a.toNat % fieldModulus + fieldModulus - b.toNat % fieldModulus) % fieldModulus := by
  rw [fieldSub, toNat_bn254ScalarModulusBe, BitVec.toNat_ofNat, Nat.mod_eq_of_lt]
  exact (Nat.mod_lt _ prime_fieldModulus.pos).trans (by norm_num [fieldModulus])

theorem canonical_fieldAdd (a b : Bytes32) : isCanonicalBn254ScalarBe (fieldAdd a b) = true := by
  rw [isCanonicalBn254ScalarBe_iff, toNat_fieldAdd]
  exact Nat.mod_lt _ prime_fieldModulus.pos

theorem canonical_fieldSub (a b : Bytes32) : isCanonicalBn254ScalarBe (fieldSub a b) = true := by
  rw [isCanonicalBn254ScalarBe_iff, toNat_fieldSub]
  exact Nat.mod_lt _ prime_fieldModulus.pos

theorem fieldOf_fieldAdd (a b : Bytes32) : fieldOf (fieldAdd a b) = fieldOf a + fieldOf b := by
  rw [fieldOf, toNat_fieldAdd, ZMod.natCast_mod, Nat.cast_add, fieldOf, fieldOf]

theorem fieldOf_fieldSub (a b : Bytes32) : fieldOf (fieldSub a b) = fieldOf a - fieldOf b := by
  have hle : b.toNat % fieldModulus ≤ a.toNat % fieldModulus + fieldModulus :=
    (Nat.mod_lt _ prime_fieldModulus.pos).le.trans (Nat.le_add_left _ _)
  rw [fieldOf, toNat_fieldSub, ZMod.natCast_mod, Nat.cast_sub hle, Nat.cast_add, ZMod.natCast_mod, ZMod.natCast_mod,
    ZMod.natCast_self, add_zero, fieldOf, fieldOf]

theorem fieldSub_fieldAdd {a : Bytes32} (h : isCanonicalBn254ScalarBe a = true) (b : Bytes32) :
    fieldSub (fieldAdd a b) b = a := by
  apply fieldOf_inj (canonical_fieldSub _ _) h
  rw [fieldOf_fieldSub, fieldOf_fieldAdd, add_sub_cancel_right]

theorem fieldAdd_fieldSub {a : Bytes32} (h : isCanonicalBn254ScalarBe a = true) (b : Bytes32) :
    fieldAdd (fieldSub a b) b = a := by
  apply fieldOf_inj (canonical_fieldAdd _ _) h
  rw [fieldOf_fieldAdd, fieldOf_fieldSub, sub_add_cancel]

/-! ### Ranges -/

theorem splitLow_eq_ok {width index : Nat} (hwidth : 8 * width ≤ 256) {element : Bytes32} {low : BitVec (8 * width)} :
    splitLow width element index = .ok low ↔ element = low.setWidth 256 := by
  unfold splitLow
  constructor
  · intro h
    split at h
    case isTrue hhigh =>
      cases h
      have hdiv : element.toNat / 2 ^ (8 * width) = 0 := by
        rw [← Nat.shiftRight_eq_div_pow, ← BitVec.toNat_ushiftRight, hhigh]
        rfl
      have hlt : element.toNat < 2 ^ (8 * width) :=
        (Nat.div_eq_zero_iff.mp hdiv).resolve_left (Nat.pos_iff_ne_zero.mp (by positivity))
      apply BitVec.eq_of_toNat_eq
      rw [BitVec.toNat_setWidth, BitVec.toNat_setWidth, Nat.mod_eq_of_lt hlt, Nat.mod_eq_of_lt element.isLt]
    case isFalse => cases h
  · rintro rfl
    have hlow : low.toNat < 2 ^ 256 := low.isLt.trans_le (Nat.pow_le_pow_right two_pos hwidth)
    have hhigh : low.setWidth 256 >>> (8 * width) = 0 := by
      apply BitVec.eq_of_toNat_eq
      rw [BitVec.toNat_ushiftRight, BitVec.toNat_setWidth, Nat.mod_eq_of_lt hlow, Nat.shiftRight_eq_div_pow,
        Nat.div_eq_of_lt low.isLt]
      rfl
    rw [if_pos hhigh]
    congr 1
    apply BitVec.eq_of_toNat_eq
    rw [BitVec.toNat_setWidth, BitVec.toNat_setWidth, Nat.mod_eq_of_lt hlow, Nat.mod_eq_of_lt low.isLt]

theorem canonical_of_lt {bytes : Bytes32} {width : Nat} (hwidth : width ≤ 253) (h : bytes.toNat < 2 ^ width) :
    isCanonicalBn254ScalarBe bytes = true :=
  isCanonicalBn254ScalarBe_iff.mpr (h.trans (two_pow_lt_fieldModulus hwidth))

theorem toNat_u64ToBytes32 (amount : UInt64) : (u64ToBytes32 amount.toNat).toNat = amount.toNat := by
  have hlt := amount.toNat_lt
  rw [u64ToBytes32, BitVec.toNat_ofNat, Nat.mod_eq_of_lt (by omega)]

theorem toNat_chunk0 (mint : Address) : (mint >>> 8).toNat = mint.toNat / 256 := by
  rw [BitVec.toNat_ushiftRight, Nat.shiftRight_eq_div_pow]

theorem toNat_chunk1 (mint : Address) : (mint &&& 0xff).toNat = mint.toNat % 256 :=
  Nat.and_two_pow_sub_one_eq_mod _ 8

/-! ### The body -/

theorem exact_mergeOutputBody :
    Exact mergeOutputBody (fun parts => writeMergeOutputBody parts.1 parts.2) fun _ => True := by
  let element (index : Fin 3) (parts : BitVec 128 × MergeOutputCiphertext) : Bytes32 := parts.2 index
  refine ((exact_array 16).field Prod.fst fun _ => exact_bytes32.field (element 0) fun _ =>
    exact_bytes32.field (element 1) fun _ => exact_bytes32.field (element 2) fun _ => .done ?_).record ?_ ?_
  · rintro ⟨salt, ciphertext⟩
    simp [element, funext_iff, Fin.forall_fin_succ, and_assoc]
  · simp [element, writeMergeOutputBody]
  · simp

theorem splitBody_eq_ok {body : List UInt8} {salt : BitVec 128} {ciphertext : MergeOutputCiphertext} :
    splitBody body = .ok (salt, ciphertext) ↔ body = writeMergeOutputBody salt ciphertext := by
  have hwhole : whole mergeOutputBody body = some (salt, ciphertext) ↔
      body = writeMergeOutputBody salt ciphertext := by
    rw [exact_mergeOutputBody.whole_eq_some, true_and]
  unfold splitBody
  split
  case h_1 parts hparts =>
    rw [← hwhole, hparts]
    exact ⟨fun h => congrArg some (Except.ok.inj h), fun h => congrArg Except.ok (Option.some.inj h)⟩
  case h_2 hnone =>
    rw [← hwhole, hnone]
    simp

theorem length_writeMergeOutputBody (salt : BitVec 128) (ciphertext : MergeOutputCiphertext) :
    (writeMergeOutputBody salt ciphertext).length = mergeOutputBodyLen := by
  rw [writeMergeOutputBody, List.length_append, List.length_append, List.length_append, length_writeBytes32,
    length_writeBytes32, length_writeBytes32, mergeOutputBodyLen]
  exact congrArg (· + _) (length_writeArray 16 salt)

theorem writeMergeOutputBody_inj {salt salt' : BitVec 128} {ciphertext ciphertext' : MergeOutputCiphertext}
    (h : writeMergeOutputBody salt ciphertext = writeMergeOutputBody salt' ciphertext') :
    salt = salt' ∧ ciphertext = ciphertext' := by
  have hsplit := splitBody_eq_ok.mpr h
  rw [splitBody_eq_ok.mpr rfl] at hsplit
  exact Prod.mk.inj (Except.ok.inj hsplit)

theorem checkCanonical_eq_ok {ciphertext : MergeOutputCiphertext} :
    checkCanonical ciphertext = .ok () ↔ ∀ index, isCanonicalBn254ScalarBe (ciphertext index) = true := by
  rw [checkCanonical, forM_eq_ok_iff]
  refine ⟨fun h index => ?_, fun h index _ => if_pos (h index)⟩
  by_contra hcanonical
  have hindex := h index (List.mem_finRange index)
  rw [if_neg hcanonical] at hindex
  cases hindex

namespace MergeOutputPlaintext

theorem canonical_fields (plaintext : MergeOutputPlaintext) (index : Fin 3) :
    isCanonicalBn254ScalarBe (plaintext.fields index) = true := by
  have hamount := plaintext.amount.toNat_lt
  have hmint := plaintext.mint.isLt
  fin_cases index
  · refine @canonical_of_lt _ 64 (by decide) ?_
    exact (toNat_u64ToBytes32 plaintext.amount).trans_lt hamount
  · refine @canonical_of_lt _ 248 (by decide) ?_
    refine (toNat_chunk0 plaintext.mint).trans_lt ?_
    omega
  · refine @canonical_of_lt _ 8 (by decide) ?_
    refine (toNat_chunk1 plaintext.mint).trans_lt ?_
    omega

/-- The fields of a plaintext, from the parts that `decrypt` puts together. -/
theorem fields_append (amount : BitVec (8 * 8)) (head : BitVec (8 * 31)) (tail : BitVec (8 * 1)) :
    fields ⟨UInt64.ofBitVec amount, head ++ tail⟩ =
      ![amount.setWidth 256, head.setWidth 256, tail.setWidth 256] := by
  have hhead := head.isLt
  have htail := tail.isLt
  have hmint : (head ++ tail).toNat = head.toNat * 256 + tail.toNat := by
    rw [BitVec.toNat_append, ← Nat.shiftLeft_add_eq_or_of_lt htail, Nat.shiftLeft_eq]
  funext index
  fin_cases index
  · apply BitVec.eq_of_toNat_eq
    refine (toNat_u64ToBytes32 _).trans ?_
    exact (BitVec.toNat_setWidth_of_le (by decide)).symm
  · apply BitVec.eq_of_toNat_eq
    refine (toNat_chunk0 (head ++ tail)).trans ?_
    change _ = (head.setWidth 256).toNat
    rw [BitVec.toNat_setWidth_of_le (by decide), hmint]
    omega
  · apply BitVec.eq_of_toNat_eq
    refine (toNat_chunk1 (head ++ tail)).trans ?_
    change _ = (tail.setWidth 256).toNat
    rw [BitVec.toNat_setWidth_of_le (by decide), hmint]
    omega

theorem ofFields_eq_ok {elements : MergeOutputCiphertext} {plaintext : MergeOutputPlaintext} :
    ofFields elements = .ok plaintext ↔ elements = plaintext.fields := by
  rw [ofFields]
  constructor
  · intro h
    obtain ⟨amount, hamount, h⟩ := of_bind_ok h
    obtain ⟨head, hhead, h⟩ := of_bind_ok h
    obtain ⟨tail, htail, h⟩ := of_bind_ok h
    obtain rfl := Except.ok.inj h
    rw [splitLow_eq_ok (by decide)] at hamount hhead htail
    rw [fields_append, ← hamount, ← hhead, ← htail]
    funext index
    fin_cases index <;> rfl
  · rintro rfl
    obtain ⟨amount, mint⟩ := plaintext
    obtain ⟨head, tail, rfl⟩ : ∃ (head : BitVec (8 * 31)) (tail : BitVec (8 * 1)), mint = head ++ tail :=
      ⟨_, _, (@BitVec.extractLsb'_append_extractLsb' 248 8 mint).symm⟩
    rw [← UInt64.ofBitVec_toBitVec amount, fields_append]
    have hamount := (@splitLow_eq_ok 8 0 (by decide) _ amount.toBitVec).mpr rfl
    have hhead := (@splitLow_eq_ok 31 1 (by decide) _ head).mpr rfl
    have htail := (@splitLow_eq_ok 1 2 (by decide) _ tail).mpr rfl
    exact bind_eq_ok_iff.mpr ⟨_, hamount, bind_eq_ok_iff.mpr ⟨_, hhead, bind_eq_ok_iff.mpr ⟨_, htail, rfl⟩⟩⟩

theorem decrypt_eq_ok {hashv : Hashv} {body : List UInt8} {key : Bytes32} {plaintext : MergeOutputPlaintext} :
    decrypt hashv body key = .ok plaintext ↔ ∃ salt ciphertext, body = writeMergeOutputBody salt ciphertext ∧
      plaintext.encrypt hashv key salt = .ok ciphertext := by
  rw [decrypt]
  constructor
  · intro h
    obtain ⟨⟨salt, ciphertext⟩, hbody, h⟩ := of_bind_ok h
    obtain ⟨_, hcanonical, h⟩ := of_bind_ok h
    obtain ⟨pads, hpads, h⟩ := of_bind_ok h
    rw [checkCanonical_eq_ok] at hcanonical
    refine ⟨salt, ciphertext, splitBody_eq_ok.mp hbody, bind_eq_ok_iff.mpr ⟨pads, hpads, ?_⟩⟩
    rw [← ofFields_eq_ok.mp h]
    exact congrArg Except.ok (funext fun index => fieldAdd_fieldSub (hcanonical index) (pads index))
  · rintro ⟨salt, ciphertext, rfl, h⟩
    obtain ⟨pads, hpads, h⟩ := of_bind_ok h
    obtain rfl := Except.ok.inj h
    refine bind_eq_ok_iff.mpr ⟨_, splitBody_eq_ok.mpr rfl, bind_eq_ok_iff.mpr ⟨(), ?_, bind_eq_ok_iff.mpr
      ⟨pads, hpads, ofFields_eq_ok.mpr ?_⟩⟩⟩
    · exact checkCanonical_eq_ok.mpr fun index => canonical_fieldAdd _ _
    · exact funext fun index => fieldSub_fieldAdd (plaintext.canonical_fields index) (pads index)

end MergeOutputPlaintext

end Zolana.Wallet
