import Zolana.Proof.MergeCircuit
import Zolana.Proof.MergeOutput
import Zolana.Wallet.Decrypt

/-!
# The output of a merge in the hands of its owner

What the circuit computes over field elements, a wallet computes over bytes. The chunks of the mint are free wires of
the circuit; that they hash to the asset of the inputs leaves no choice of them.
-/

namespace Zolana

open Circuits Codec Fallible Gates Wallet

theorem bytesOf_natCast {n : Nat} (h : n < fieldModulus) : bytesOf (n : Fr) = BitVec.ofNat 256 n := by
  rw [bytesOf, val_natCast_of_lt h]

section Chains

variable {hashv : Hashv} {poseidon : Poseidon} (hcomputes : hashv.Computes poseidon)

include hcomputes

theorem absorbGroups_bytesOf {chain digest : Fr} {inputs : List Fr}
    (h : Circuits.absorbGroups poseidon chain inputs = some digest) :
    absorbGroups hashv (bytesOf chain) (inputs.map bytesOf) = .ok (bytesOf digest) := by
  fun_induction Circuits.absorbGroups poseidon chain inputs with
  | case1 chain =>
      cases h
      rfl
  | case2 chain g0 => exact hcomputes _ _ h
  | case3 chain g0 g1 => exact hcomputes _ _ h
  | case4 chain g0 g1 g2 inputs ih =>
      obtain ⟨next, hnext, h⟩ := of_bind_some h
      exact bind_eq_ok_iff.mpr ⟨bytesOf next, hcomputes _ _ hnext, ih next h⟩

theorem createHashChain4_bytesOf {digest : Fr} {inputs : List Fr} (h : hashChain4 poseidon inputs = some digest) :
    createHashChain4 hashv (inputs.map bytesOf) = .ok (bytesOf digest) := by
  cases inputs with
  | nil =>
      cases h
      rfl
  | cons first inputs => exact absorbGroups_bytesOf hcomputes h

theorem hashChain4_inj (hfree : hashv.CollisionFree) {digest : Fr} {inputs inputs' : List Fr}
    (hlength : inputs.length = inputs'.length) (h : hashChain4 poseidon inputs = some digest)
    (h' : hashChain4 poseidon inputs' = some digest) : inputs = inputs' := by
  apply List.map_injective_iff.mpr bytesOf_injective
  refine createHashChain4_inj hfree ?_ (createHashChain4_bytesOf hcomputes h) (createHashChain4_bytesOf hcomputes h')
  rw [List.length_map, List.length_map, hlength]

theorem mintChunks_eq (hfree : hashv.CollisionFree) {mint : Address} {asset : Fr} {chunks : Fin 2 → Fr}
    (hmint : hashBytes hashv mint = .ok (bytesOf asset)) (hchunks : hashChain poseidon (List.ofFn chunks) = some asset) :
    mint >>> 8 = bytesOf (chunks 0) ∧ mint &&& 0xff = bytesOf (chunks 1) := by
  have hpair : poseidon [chunks 0, chunks 1] = some asset := by
    simpa [hashChain, List.ofFn_succ] using hchunks
  have heq := hfree _ _ _ hmint (hcomputes _ _ hpair)
  simpa using heq

end Chains

namespace Wallet

theorem fieldAdd_bytesOf (a b : Fr) : fieldAdd (bytesOf a) (bytesOf b) = bytesOf (a + b) := by
  apply fieldOf_inj (canonical_fieldAdd _ _) (canonical_bytesOf _)
  rw [fieldOf_fieldAdd, fieldOf_bytesOf, fieldOf_bytesOf, fieldOf_bytesOf]

variable {hashv : Hashv} {poseidon : Poseidon} (hcomputes : hashv.Computes poseidon)

include hcomputes

theorem hashed_bytesOf {inputs : List Fr} {bytes : List Bytes32} {digest : Fr} (hbytes : bytes = inputs.map bytesOf)
    (h : poseidon inputs = some digest) : hashed (hashv bytes) = .ok (bytesOf digest) := by
  rw [hbytes, hcomputes _ _ h]
  rfl

theorem pads_eq_ok {key saltField : Fr} {salt : BitVec 128} {pad : Fin 3 → Fr}
    (hsalt : salt.setWidth 256 = bytesOf saltField)
    (h : ∀ i : Fin 3, poseidon [Merge.mergeOutputCiphertextDomain, key, saltField, (i.val : Fr)] = some (pad i)) :
    pads hashv (bytesOf key) salt = .ok fun i => bytesOf (pad i) := by
  have hdomain : domainMergeOutputCiphertext = bytesOf Merge.mergeOutputCiphertextDomain := by decide +kernel
  have hpad (i : Fin 3) : hashed (hashv [domainMergeOutputCiphertext, bytesOf key, salt.setWidth 256,
      BitVec.ofNat 256 i.val]) = .ok (bytesOf (pad i)) := by
    refine hashed_bytesOf hcomputes ?_ (h i)
    rw [hdomain, hsalt, ← bytesOf_natCast (i.isLt.trans (by norm_num [fieldModulus]))]
    rfl
  refine bind_eq_ok_iff.mpr ⟨_, hpad 0, bind_eq_ok_iff.mpr ⟨_, hpad 1, bind_eq_ok_iff.mpr ⟨_, hpad 2, ?_⟩⟩⟩
  refine congrArg Except.ok (funext fun i => ?_)
  fin_cases i <;> rfl

theorem encrypt_of_poseidonCtrEncrypt {key saltField : Fr} {salt : BitVec 128} {fields ciphertext : Fin 3 → Fr}
    {plaintext : MergeOutputPlaintext} (hsalt : salt.setWidth 256 = bytesOf saltField)
    (hfields : ∀ i, plaintext.fields i = bytesOf (fields i))
    (h : Merge.poseidonCtrEncrypt poseidon Merge.mergeOutputCiphertextDomain key saltField fields = some ciphertext) :
    plaintext.encrypt hashv (bytesOf key) salt = .ok fun i => bytesOf (ciphertext i) := by
  rw [Merge.poseidonCtrEncrypt, each_eq_some] at h
  choose pad hpad hsum using fun i => of_bind_some (h i)
  refine bind_eq_ok_iff.mpr ⟨_, pads_eq_ok hcomputes hsalt hpad, congrArg Except.ok (funext fun i => ?_)⟩
  rw [applyPads, hfields, fieldAdd_bytesOf, Option.some.inj (hsum i)]

theorem Utxo.hash_eq_ok {u : UtxoCircuitFields} {treeIdWire digest : Fr} {utxo : Utxo}
    {nullifierPk dataHash ringDataHash : Bytes32} {treeId : UInt16} (hdomain : u.domain = utxoDomain)
    (howner : ownerHash hashv utxo.owner nullifierPk = .ok (bytesOf u.owner))
    (hasset : hashBytes hashv utxo.asset.asset = .ok (bytesOf u.asset))
    (hring : programIdProofInputHash hashv utxo.ringProgramId = .ok (bytesOf u.ringProgramId))
    (hamount : u64ToBytes32 utxo.amount.toNat = bytesOf u.amount) (hblinding : utxo.blinding = bytesOf u.blinding)
    (hdata : dataHash = bytesOf u.dataHash) (hringData : ringDataHash = bytesOf u.ringDataHash)
    (htreeId : treeIdField treeId = bytesOf treeIdWire) (h : utxoHashCircuit poseidon u treeIdWire = some digest) :
    utxo.hash hashv nullifierPk dataHash ringDataHash treeId = .ok (bytesOf digest) := by
  obtain ⟨ownerUtxoHash, hownerUtxo, h⟩ := of_bind_some h
  obtain ⟨ringHash, hringHash, h⟩ := of_bind_some h
  have hutxo : utxoDomainField = bytesOf utxoDomain := by decide +kernel
  refine bind_eq_ok_iff.mpr ⟨_, mapError_eq_ok.mpr howner, bind_eq_ok_iff.mpr ⟨_, mapError_eq_ok.mpr hasset,
    bind_eq_ok_iff.mpr ⟨_, hring, bind_eq_ok_iff.mpr ⟨_, hashed_bytesOf hcomputes ?_ hringHash,
      bind_eq_ok_iff.mpr ⟨_, hashed_bytesOf hcomputes ?_ hownerUtxo, hashed_bytesOf hcomputes ?_ h⟩⟩⟩⟩⟩
  · rw [hringData]
    rfl
  · rw [hblinding]
    rfl
  · rw [hdomain, hutxo, htreeId, hamount, hdata]
    rfl

end Wallet

end Zolana
