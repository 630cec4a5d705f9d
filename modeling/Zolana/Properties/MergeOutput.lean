import Zolana.Proof.MergeRecovery
import Zolana.Properties.OutputData
import Zolana.Properties.Transcript

/-!
# Merge outputs are recoverable by their owner

The body of a merge output opens to what was encrypted and to nothing else. The owner that a satisfied merge circuit
names derives the key and the blinding of its output, opens what the merge publishes, and rebuilds the utxo that was
committed.
-/

namespace Zolana

open Circuits Codec Fallible Gates Merge Wallet

namespace Wallet

/-! ### Bodies that are rejected -/

namespace MergeOutputPlaintext

variable {hashv : Hashv}

theorem decrypt_of_length {body : List UInt8} (h : body.length ≠ mergeOutputBodyLen) (key : Bytes32) :
    decrypt hashv body key = .error (.invalidLength mergeOutputBodyLen body.length) := by
  have hnone : whole mergeOutputBody body = none := by
    rw [Option.eq_none_iff_forall_ne_some]
    rintro ⟨salt, ciphertext⟩ hwhole
    have hsplit : splitBody body = .ok (salt, ciphertext) := by rw [splitBody, hwhole]
    rw [splitBody_eq_ok.mp hsplit, length_writeMergeOutputBody] at h
    exact h rfl
  rw [decrypt, splitBody, hnone]
  rfl

theorem decrypt_of_nonCanonical {ciphertext : MergeOutputCiphertext} {index : Fin 3}
    (h : isCanonicalBn254ScalarBe (ciphertext index) = false) (salt : BitVec 128) (key : Bytes32) :
    ∃ found : Fin 3, decrypt hashv (writeMergeOutputBody salt ciphertext) key =
      .error (.nonCanonicalMergeCiphertext found) := by
  rw [decrypt, splitBody_eq_ok.mpr rfl]
  change ∃ found : Fin 3, (checkCanonical ciphertext >>= _) = _
  cases hcheck : checkCanonical ciphertext with
  | ok =>
      rw [checkCanonical_eq_ok.mp hcheck index] at h
      cases h
  | error e =>
      obtain ⟨found, -, hfound⟩ := exists_of_forM_eq_error hcheck
      split at hfound
      case isTrue => cases hfound
      case isFalse =>
        cases hfound
        exact ⟨found, rfl⟩

theorem splitLow_of_le {width index : Nat} {element : Bytes32} (h : 2 ^ (8 * width) ≤ element.toNat) :
    splitLow width element index = .error (.invalidMergeOutputPlaintext index) := by
  refine if_neg fun hhigh => ?_
  have hdiv : element.toNat / 2 ^ (8 * width) = 0 := by
    rw [← Nat.shiftRight_eq_div_pow, ← BitVec.toNat_ushiftRight, hhigh]
    rfl
  exact absurd h (Nat.not_le.mpr ((Nat.div_eq_zero_iff_lt (by positivity)).mp hdiv))

/-- An element above the bytes that the amount, the head and the tail of the mint have. -/
def OutOfRange (elements : MergeOutputCiphertext) : Prop :=
  ∃ index, 2 ^ (8 * (![8, 31, 1] : Fin 3 → Nat) index) ≤ (elements index).toNat

theorem ofFields_of_outOfRange {elements : MergeOutputCiphertext} (h : OutOfRange elements) :
    ∃ index, ofFields elements = .error (.invalidMergeOutputPlaintext index) := by
  have hsplit (width index : Nat) (element : Bytes32) : (∃ low, splitLow width element index = .ok low) ∨
      splitLow width element index = .error (.invalidMergeOutputPlaintext index) := by
    unfold splitLow
    split
    · exact .inl ⟨_, rfl⟩
    · exact .inr rfl
  rw [ofFields]
  rcases hsplit 8 0 (elements 0) with ⟨amount, hamount⟩ | hamount
  · rcases hsplit 31 1 (elements 1) with ⟨head, hhead⟩ | hhead
    · rcases hsplit 1 2 (elements 2) with ⟨tail, htail⟩ | htail
      · obtain ⟨index, h⟩ := h
        fin_cases index
        · cases hamount.symm.trans (splitLow_of_le h)
        · cases hhead.symm.trans (splitLow_of_le h)
        · cases htail.symm.trans (splitLow_of_le h)
      · rw [hamount, hhead, htail]
        exact ⟨2, rfl⟩
    · rw [hamount, hhead]
      exact ⟨1, rfl⟩
  · rw [hamount]
    exact ⟨0, rfl⟩

theorem decrypt_of_outOfRange {ciphertext padding : MergeOutputCiphertext} {salt : BitVec 128} {key : Bytes32}
    (hcanonical : ∀ index, isCanonicalBn254ScalarBe (ciphertext index) = true)
    (hpads : pads hashv key salt = .ok padding) (h : OutOfRange (applyPads fieldSub ciphertext padding)) :
    ∃ index, decrypt hashv (writeMergeOutputBody salt ciphertext) key =
      .error (.invalidMergeOutputPlaintext index) := by
  obtain ⟨index, herror⟩ := ofFields_of_outOfRange h
  refine ⟨index, ?_⟩
  rw [decrypt, bind_of_eq_ok (splitBody_eq_ok.mpr rfl)]
  dsimp only
  rw [bind_of_eq_ok (checkCanonical_eq_ok.mpr hcanonical), bind_of_eq_ok hpads, herror]

/-- Opening what was just encrypted fails only where the pads do. -/
theorem decrypt_encrypt (plaintext : MergeOutputPlaintext) (key : Bytes32) (salt : BitVec 128) :
    (plaintext.encrypt hashv key salt >>= fun ciphertext =>
      decrypt hashv (writeMergeOutputBody salt ciphertext) key) = pads hashv key salt >>= fun _ => .ok plaintext := by
  rcases hpads : pads hashv key salt with e | padding
  · have hencrypt : plaintext.encrypt hashv key salt = .error e := bind_of_eq_error hpads
    rw [bind_of_eq_error hencrypt, bind_of_eq_error rfl]
  · have hencrypt : plaintext.encrypt hashv key salt = .ok (applyPads fieldAdd plaintext.fields padding) :=
      bind_of_eq_ok hpads
    rw [bind_of_eq_ok hencrypt, decrypt_eq_ok.mpr ⟨salt, _, rfl, hencrypt⟩, bind_of_eq_ok rfl]

end MergeOutputPlaintext

/-! ### What the owner of a merge sees -/

/-- The wallet is the owner that the merge names. -/
structure LocalShieldedKeys.Owns {cipher : Cipher} (hashv : Hashv) (keys : LocalShieldedKeys cipher)
    {n : Merge.InputCount} (c : Merge.Circuit n) : Prop where
  signing : keys.address.signingPubkey.ownerProofInputHash hashv = .ok (bytesOf c.userSigningPkHash)
  nullifierPubkey : keys.address.nullifierPubkey = bytesOf c.userNullifierPk
  nullifier : keys.nullifier.pubkey hashv = .ok keys.address.nullifierPubkey

/-- The transaction and the slot are what an indexer reports of the merge. The salt and the ciphertext are those that
the public input of the proof commits to. -/
structure PublishesMerge (poseidon : Poseidon) {n : Merge.InputCount} (c : Merge.Circuit n) (tx : ShieldedTransaction)
    (slot : OutputSlot) (salt : BitVec 128) (ciphertext : MergeOutputCiphertext) : Prop where
  firstNullifier : tx.nullifiers.head? = some (bytesOf c.transaction.firstNullifier)
  ringProgramId : tx.ringProgramId = none
  hash : slot.outputContext.hash = bytesOf c.common.outputHash
  treeId : treeIdField slot.outputContext.treeId = bytesOf c.common.outputTreeId
  payload : slot.payload = encodeMergeOutputData salt ciphertext
  canonical : ∀ index, isCanonicalBn254ScalarBe (ciphertext index) = true
  publicInputHash : (Merge.MergeCircuit.default c).publicInputHashOf poseidon
    (fieldOf (salt.setWidth 256) :: List.ofFn fun index => fieldOf (ciphertext index)) = some c.publicInputHash

variable {n : Merge.InputCount} {tx : ShieldedTransaction} {slot : OutputSlot} {salt : BitVec 128}
  {ciphertext : MergeOutputCiphertext}

variable {c : Merge.Circuit n}

theorem PublishesMerge.outputData {poseidon : Poseidon}
    (h : PublishesMerge poseidon c tx slot salt ciphertext) :
    slot.outputData = some (.verifiablyEncrypted
      (EncryptedScheme.merge.asByte :: writeMergeOutputBody salt ciphertext)) := by
  have hlength : (EncryptedScheme.merge.asByte :: writeMergeOutputBody salt ciphertext).length < 256 ^ 4 := by
    rw [List.length_cons, length_writeMergeOutputBody]
    decide
  rw [OutputSlot.outputData, h.payload, encodeMergeOutputData, exact_outputDataEncoding.whole_eq_some]
  exact ⟨hlength, rfl⟩

theorem LocalShieldedKeys.Owns.secret_eq {cipher : Cipher} {hashv : Hashv} {poseidon : Poseidon}
    (hcomputes : hashv.Computes poseidon) (hfree : hashv.CollisionFree)
    {keys : LocalShieldedKeys cipher} (h : keys.Owns hashv c)
    (hsecret : poseidon [c.userNullifierSecret] = some c.userNullifierPk) :
    keys.nullifier.secretField = bytesOf c.userNullifierSecret := by
  have hpubkey := mapError_eq_ok.mp h.nullifier
  rw [h.nullifierPubkey] at hpubkey
  have heq := hfree _ _ _ hpubkey (hcomputes _ _ hsecret)
  simpa using heq

theorem PublishesMerge.encryption_eq {hashv : Hashv} {poseidon : Poseidon}
    (hcomputes : hashv.Computes poseidon) (hfree : hashv.CollisionFree) {fields : List Fr}
    {elements : Fin 3 → Fr} (h : PublishesMerge poseidon c tx slot salt ciphertext)
    (hfields : c.common.preimage poseidon = some fields)
    (hhash : hashChain4 poseidon (fields ++ [c.userSigningPkHash, c.userNullifierPk] ++ c.outputCiphertextSalt :: List.ofFn elements) = some c.publicInputHash) :
    salt.setWidth 256 = bytesOf c.outputCiphertextSalt ∧ ciphertext = fun index => bytesOf (elements index) := by
  obtain ⟨fields', hfields', hpublished⟩ := of_bind_some h.publicInputHash
  obtain rfl : fields = fields' := Option.some.inj (hfields.symm.trans hfields')
  rw [List.append_assoc] at hhash
  have heq := hashChain4_inj hcomputes hfree (by simp [Merge.MergeCircuit.tail]) hhash hpublished
  have htail : [c.userSigningPkHash, c.userNullifierPk] ++ _ = [c.userSigningPkHash, c.userNullifierPk] ++ _ :=
    List.append_cancel_left heq
  obtain ⟨hsalt, helements⟩ := List.cons.inj (List.append_cancel_left htail)
  refine ⟨?_, funext fun index => ?_⟩
  · have hlt : (salt.setWidth 256).toNat < 2 ^ 128 := by
      rw [BitVec.toNat_setWidth_of_le (by decide)]
      exact salt.isLt
    rw [hsalt, bytesOf_fieldOf (canonical_of_lt (by decide) hlt)]
  · rw [congrFun (List.ofFn_injective helements) index, bytesOf_fieldOf (h.canonical index)]

variable {cipher : Cipher} {hashv : Hashv} {poseidon : Poseidon}

theorem LocalShieldedKeys.deriveMergeOutput_eq_ok (keys : LocalShieldedKeys cipher) {firstNullifier key blinding : Bytes32}
    (hkey : mergeOutputKey hashv keys.nullifier firstNullifier = .ok key)
    (hblinding : mergeOutputBlinding hashv keys.nullifier firstNullifier = .ok blinding) :
    deriveMergeOutput (keys.shieldedKeys hashv) firstNullifier = .ok (key, blinding) := by
  have hderive : (keys.shieldedKeys hashv).derive [.mergeOutputKey firstNullifier, .mergeOutputBlinding firstNullifier] =
      .ok [key, blinding] :=
    mapM_eq_ok_iff.mpr (.cons hkey (.cons hblinding .nil))
  exact bind_of_eq_ok hderive

/-- `decode_slot` on the output of a default merge, as far as the plaintext. -/
theorem PublishesMerge.decodeSlot_eq (h : PublishesMerge poseidon c tx slot salt ciphertext)
    (keys : LocalShieldedKeys cipher) {key blinding : Bytes32} {plaintext : MergeOutputPlaintext}
    (hkey : mergeOutputKey hashv keys.nullifier (bytesOf c.transaction.firstNullifier) = .ok key)
    (hblinding : mergeOutputBlinding hashv keys.nullifier (bytesOf c.transaction.firstNullifier) = .ok blinding)
    (hplaintext : MergeOutputPlaintext.decrypt hashv (writeMergeOutputBody salt ciphertext) key = .ok plaintext)
    (slotIndex : Nat) (assets : AssetRegistry) :
    decodeSlot hashv (keys.shieldedKeys hashv) keys.address tx slot slotIndex assets =
      rebuildMerge hashv keys.address tx slot (ownerCx keys.address tx assets) none plaintext blinding := by
  have hsplit : splitMergeOutputBody (writeMergeOutputBody salt ciphertext) =
      some (none, writeMergeOutputBody salt ciphertext) := if_pos (length_writeMergeOutputBody _ _)
  have hring : ¬((none : Option Bytes32).isSome ≠ false ∨ tx.ringProgramId.isSome ≠ false) := by
    rw [h.ringProgramId]
    decide
  rw [decodeSlot, h.outputData]
  dsimp only
  rw [decodeMerge, EncryptedScheme.fromByte_asByte, if_neg (fun hne => hne rfl), hsplit]
  dsimp only
  rw [if_neg hring, h.firstNullifier]
  dsimp only
  rw [bind_of_eq_ok (keys.deriveMergeOutput_eq_ok hkey hblinding)]
  dsimp only
  rw [hplaintext]

/-- What the owner of a satisfied merge recovers from what it publishes. -/
structure RecoversMerge (hashv : Hashv) (keys : LocalShieldedKeys cipher) {n : Merge.InputCount} (c : Merge.Circuit n)
    (tx : ShieldedTransaction) (slot : OutputSlot) (salt : BitVec 128) (ciphertext : MergeOutputCiphertext)
    (mint : Address) (key blinding : Bytes32) (amount : UInt64) : Prop where
  key_eq : mergeOutputKey hashv keys.nullifier (bytesOf c.transaction.firstNullifier) = .ok key
  blinding_eq : mergeOutputBlinding hashv keys.nullifier (bytesOf c.transaction.firstNullifier) = .ok blinding
  amount_eq : amount.toNat = ∑ i, (c.inputs i).amount.val
  decrypts : MergeOutputPlaintext.decrypt hashv (writeMergeOutputBody salt ciphertext) key = .ok ⟨amount, mint⟩
  rehashes : ∀ asset : Mint, asset.asset = mint →
    (MergeOutputPlaintext.intoUtxo ⟨amount, mint⟩ keys.address.signingPubkey asset blinding none).hash hashv
      keys.address.nullifierPubkey 0 0 slot.outputContext.treeId = .ok slot.outputContext.hash
  decodes : ∀ (slotIndex : Nat) (assets : AssetRegistry),
    decodeSlot hashv (keys.shieldedKeys hashv) keys.address tx slot slotIndex assets =
      assets.mint mint >>= fun asset => .ok (some ⟨[MergeOutputPlaintext.intoUtxo ⟨amount, mint⟩
        keys.address.signingPubkey asset blinding none], none, none⟩)

theorem recoversMerge_of_define (hcomputes : hashv.Computes poseidon) (hfree : hashv.CollisionFree)
    {keys : LocalShieldedKeys cipher} {mint : Address} {asset : Fr}
    (hdefine : c.define poseidon = some ()) (howns : keys.Owns hashv c)
    (hpublishes : PublishesMerge poseidon c tx slot salt ciphertext)
    (hasset : hashChain poseidon (List.ofFn c.mintChunks) = some asset)
    (hmint : hashBytes hashv mint = .ok (bytesOf asset)) :
    ∃ key blinding amount, RecoversMerge hashv keys c tx slot salt ciphertext mint key blinding amount := by
  obtain ⟨⟨-, hringData⟩, ⟨ownerHash, asset', outputBlinding, outputHash, tree, utxoHash, nullifier, h⟩, hsigning,
    fields, elements, hfields, hciphertext, hhash⟩ := Merge.Circuit.define_eq_some.mp hdefine
  obtain rfl : asset' = asset := Option.some.inj (h.asset_eq.symm.trans hasset)
  obtain ⟨key, hkey, hciphertext⟩ := of_bind_some hciphertext
  obtain ⟨hsalt, rfl⟩ := hpublishes.encryption_eq hcomputes hfree hfields hhash
  have hsecret := howns.secret_eq hcomputes hfree h.nullifierPk_eq
  have hchunks := mintChunks_eq hcomputes hfree hmint hasset
  have hamountLt : (∑ i, (c.inputs i).amount).val < 2 ^ 64 := h.amount_lt
  let amount : UInt64 := UInt64.ofNat (∑ i, (c.inputs i).amount).val
  have hamount : amount.toNat = (∑ i, (c.inputs i).amount).val := UInt64.toNat_ofNat_of_lt' hamountLt
  have hkeyBytes : mergeOutputKey hashv keys.nullifier (bytesOf c.transaction.firstNullifier) = .ok (bytesOf key) := by
    refine hashed_bytesOf hcomputes ?_ hkey
    rw [hsecret]
    exact congrArg (· :: _) (by decide +kernel)
  have hblinding : mergeOutputBlinding hashv keys.nullifier (bytesOf c.transaction.firstNullifier) =
      .ok (bytesOf outputBlinding) := by
    refine hashed_bytesOf hcomputes ?_ h.outputBlinding_eq
    rw [hsecret]
    exact congrArg (· :: _) (by decide +kernel)
  have hplain : ∀ i, MergeOutputPlaintext.fields ⟨amount, mint⟩ i =
      bytesOf (![∑ i, (c.inputs i).amount, c.mintChunks 0, c.mintChunks 1] i) := by
    intro i
    fin_cases i
    · change u64ToBytes32 amount.toNat = _
      rw [hamount]
      rfl
    · exact hchunks.1
    · exact hchunks.2
  have hdecrypt : MergeOutputPlaintext.decrypt hashv (writeMergeOutputBody salt fun i => bytesOf (elements i))
      (bytesOf key) = .ok ⟨amount, mint⟩ :=
    MergeOutputPlaintext.decrypt_eq_ok.mpr ⟨salt, _, rfl,
      encrypt_of_poseidonCtrEncrypt hcomputes hsalt hplain hciphertext⟩
  have hrehash (asset : Mint) (hassetMint : asset.asset = mint) :
      (MergeOutputPlaintext.intoUtxo ⟨amount, mint⟩ keys.address.signingPubkey asset (bytesOf outputBlinding) none).hash
        hashv keys.address.nullifierPubkey 0 0 slot.outputContext.treeId = .ok slot.outputContext.hash := by
    have houtput := h.output.digest
    rw [h.output.published id] at houtput
    rw [hpublishes.hash]
    refine Utxo.hash_eq_ok hcomputes rfl ?_ ?_ rfl ?_ rfl rfl ?_ hpublishes.treeId houtput
    · refine bind_eq_ok_iff.mpr ⟨_, howns.signing, mapError_eq_ok.mpr ?_⟩
      rw [hsigning, howns.nullifierPubkey]
      exact hcomputes _ _ h.owner_eq
    · exact (congrArg (hashBytes hashv) hassetMint).trans hmint
    · change u64ToBytes32 amount.toNat = _
      rw [hamount]
      rfl
    · change 0 = bytesOf c.output.ringDataHash
      rw [hringData]
      rfl
  refine ⟨bytesOf key, bytesOf outputBlinding, amount, hkeyBytes, hblinding, hamount.trans h.val_sum_amount, hdecrypt,
    hrehash, fun slotIndex assets => ?_⟩
  have hhashed : (MergeOutputPlaintext.intoUtxo ⟨amount, mint⟩ (ownerCx keys.address tx assets).owner ⟨mint, 0⟩
      (bytesOf outputBlinding) none).hash hashv keys.address.nullifierPubkey 0 ((none : Option Bytes32).getD 0)
      slot.outputContext.treeId = .ok slot.outputContext.hash := hrehash ⟨mint, 0⟩ rfl
  rw [hpublishes.decodeSlot_eq keys hkeyBytes hblinding hdecrypt slotIndex assets, rebuildMerge,
    hpublishes.ringProgramId]
  dsimp only
  rw [bind_of_eq_ok hhashed, if_neg (not_not.mpr rfl)]
  rfl

end Wallet

/-- Merge outputs are recoverable by their owner, for a Poseidon without collisions that has the digests of the
circuit's. -/
theorem merge_output_recoverable {cipher : Cipher} {hashv : Hashv} {poseidon : Poseidon}
    (hcomputes : hashv.Computes poseidon) (hfree : hashv.CollisionFree) :
    (∀ (plaintext : MergeOutputPlaintext) (key : Bytes32) (salt : BitVec 128),
      (plaintext.encrypt hashv key salt >>= fun ciphertext =>
        MergeOutputPlaintext.decrypt hashv (writeMergeOutputBody salt ciphertext) key) =
          pads hashv key salt >>= fun _ => .ok plaintext) ∧
    (∀ (body : List UInt8) (key : Bytes32) (plaintext : MergeOutputPlaintext),
      MergeOutputPlaintext.decrypt hashv body key = .ok plaintext →
      ∃ salt ciphertext, body = writeMergeOutputBody salt ciphertext ∧
        plaintext.encrypt hashv key salt = .ok ciphertext) ∧
    (∀ (salt : BitVec 128) (ciphertext ciphertext' : MergeOutputCiphertext) (key : Bytes32)
      (plaintext : MergeOutputPlaintext),
      MergeOutputPlaintext.decrypt hashv (writeMergeOutputBody salt ciphertext) key = .ok plaintext →
      MergeOutputPlaintext.decrypt hashv (writeMergeOutputBody salt ciphertext') key = .ok plaintext →
      ciphertext = ciphertext') ∧
    (∀ (body : List UInt8) (key : Bytes32), body.length ≠ mergeOutputBodyLen →
      MergeOutputPlaintext.decrypt hashv body key = .error (.invalidLength mergeOutputBodyLen body.length)) ∧
    (∀ (salt : BitVec 128) (ciphertext : MergeOutputCiphertext) (key : Bytes32) (index : Fin 3),
      isCanonicalBn254ScalarBe (ciphertext index) = false →
      ∃ found : Fin 3, MergeOutputPlaintext.decrypt hashv (writeMergeOutputBody salt ciphertext) key =
        .error (.nonCanonicalMergeCiphertext found)) ∧
    (∀ (salt : BitVec 128) (ciphertext padding : MergeOutputCiphertext) (key : Bytes32),
      (∀ index, isCanonicalBn254ScalarBe (ciphertext index) = true) → pads hashv key salt = .ok padding →
      MergeOutputPlaintext.OutOfRange (applyPads fieldSub ciphertext padding) →
      ∃ index, MergeOutputPlaintext.decrypt hashv (writeMergeOutputBody salt ciphertext) key =
        .error (.invalidMergeOutputPlaintext index)) ∧
    ∀ (n : Merge.InputCount) (c : Merge.Circuit n) (keys : LocalShieldedKeys cipher) (tx : ShieldedTransaction)
      (slot : OutputSlot) (salt : BitVec 128) (ciphertext : MergeOutputCiphertext) (mint : Address) (asset : Fr),
      c.define poseidon = some () → keys.Owns hashv c → PublishesMerge poseidon c tx slot salt ciphertext →
      hashChain poseidon (List.ofFn c.mintChunks) = some asset → hashBytes hashv mint = .ok (bytesOf asset) →
      ∃ key blinding amount, RecoversMerge hashv keys c tx slot salt ciphertext mint key blinding amount := by
  refine ⟨MergeOutputPlaintext.decrypt_encrypt, ?_, ?_, fun body key h => MergeOutputPlaintext.decrypt_of_length h key,
    fun salt ciphertext key index h => MergeOutputPlaintext.decrypt_of_nonCanonical h salt key,
    fun salt ciphertext padding key => MergeOutputPlaintext.decrypt_of_outOfRange, ?_⟩
  · intro body key plaintext h
    exact MergeOutputPlaintext.decrypt_eq_ok.mp h
  · intro salt ciphertext ciphertext' key plaintext h h'
    obtain ⟨salt₁, ciphertext₁, hbody, hencrypt⟩ := MergeOutputPlaintext.decrypt_eq_ok.mp h
    obtain ⟨salt₂, ciphertext₂, hbody', hencrypt'⟩ := MergeOutputPlaintext.decrypt_eq_ok.mp h'
    obtain ⟨rfl, rfl⟩ := writeMergeOutputBody_inj hbody
    obtain ⟨rfl, rfl⟩ := writeMergeOutputBody_inj hbody'
    exact Except.ok.inj (hencrypt.symm.trans hencrypt')
  · intro n c keys tx slot salt ciphertext mint asset hdefine howns hpublishes hasset hmint
    exact recoversMerge_of_define hcomputes hfree hdefine howns hpublishes hasset hmint

/-! ### The output of the merge of two utxos -/

namespace Wallet

/-- The wallet's Poseidon: the digests of the merge, and the identity of its owner's key. -/
def mergeHashv : Hashv := .ofNatLog (mergeDigests.entries ++ [([0x53 * 2 ^ 240, 9], 11)])

theorem x25519Modulus_pos : 0 < x25519Modulus := by decide

/-- A cipher that no merge output uses. -/
def silentCipher : Cipher where
  pubkey := fun _ => ⟨⟨0, x25519Modulus_pos⟩⟩
  ecdh := fun _ _ => none
  keystream := fun _ _ _ _ _ _ _ => 0

def mergeOwnerKeys : LocalShieldedKeys silentCipher where
  address := ⟨.key .ed25519 9, 100, ⟨⟨0, x25519Modulus_pos⟩⟩⟩
  viewing := [⟨1⟩]
  nullifier := ⟨12⟩
  holds_viewingPubkey := List.mem_cons_self ..

def mergeCiphertext : MergeOutputCiphertext := ![155, 155, 157]

def mergeSlot : OutputSlot := ⟨9, ⟨127, 8, 0⟩, encodeMergeOutputData 22 mergeCiphertext⟩

def mergeTransaction : ShieldedTransaction where
  slot := 1
  txSignature := 1
  eventIndex := none
  txViewingPk := none
  salt := none
  outputSlots := [mergeSlot]
  nullifiers := [115, 105]
  proofless := false
  ringConfig := none
  ringProgramId := none

theorem owns_mergeOwnerKeys : mergeOwnerKeys.Owns mergeHashv mergeOfTwo where
  signing := by decide +kernel
  nullifierPubkey := by decide +kernel
  nullifier := by decide +kernel

theorem publishesMerge_mergeOfTwo :
    PublishesMerge (.ofNatLog mergeDigests) mergeOfTwo mergeTransaction mergeSlot 22 mergeCiphertext where
  firstNullifier := by decide +kernel
  ringProgramId := rfl
  hash := by decide +kernel
  treeId := by decide +kernel
  payload := rfl
  canonical := by decide +kernel
  publicInputHash := by decide +kernel

end Wallet

theorem merge_output_recoverable_two : ∃ key blinding amount,
    RecoversMerge mergeHashv mergeOwnerKeys mergeOfTwo mergeTransaction mergeSlot 22 mergeCiphertext 3342 key blinding
      amount := by
  have hlt : ∀ entry ∈ mergeDigests.entries ++ [([0x53 * 2 ^ 240, 9], 11)], entry.2 < fieldModulus := by decide +kernel
  have hcomputes : mergeHashv.Computes (.ofNatLog mergeDigests) := Hashv.computes_ofNatLog _ _
  have hfree : mergeHashv.CollisionFree := Hashv.collisionFree_ofNatLog hlt (by decide +kernel)
  obtain ⟨-, -, -, -, -, -, hrecovers⟩ := @merge_output_recoverable silentCipher _ _ hcomputes hfree
  exact hrecovers eightInputs mergeOfTwo mergeOwnerKeys mergeTransaction mergeSlot 22 mergeCiphertext 3342 102
    define_mergeOfTwo owns_mergeOwnerKeys publishesMerge_mergeOfTwo (by decide +kernel) (by decide +kernel)

end Zolana
