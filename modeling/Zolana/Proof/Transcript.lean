import Zolana.Lib.Chunks
import Zolana.Proof.Chains
import Zolana.Proof.Owners

/-!
# One hash on both sides

The program hashes byte arrays and the circuits field elements. Where the two Poseidons agree, so do the chains
over them, whether zeros at their end are folded or looked up.
-/

namespace Zolana

open Circuits Fallible Fold Gates

/-- The field element that a byte array stands for. -/
def fieldOf (bytes : Bytes32) : Fr := (bytes.toNat : Fr)

@[simp] theorem fieldOf_zero : fieldOf 0#256 = 0 := Nat.cast_zero

/-- The circuits have the digest that the program computes. -/
def Hashv.Implements (hashv : Hashv) (poseidon : Poseidon) : Prop :=
  ∀ inputs digest, hashv inputs = .ok digest → poseidon (inputs.map fieldOf) = some (fieldOf digest)

/-- Poseidon on field elements, as the program computes it. -/
def Hashv.toPoseidon (hashv : Hashv) : Poseidon := fun inputs =>
  match hashv (inputs.map fun input => BitVec.ofNat 256 input.val) with
  | .ok digest => some (fieldOf digest)
  | .error _ => none

variable {bytes : Bytes32}

theorem ofNat_val_fieldOf (h : isCanonicalBn254ScalarBe bytes = true) :
    BitVec.ofNat 256 (fieldOf bytes).val = bytes := by
  have hlt : bytes.toNat < fieldModulus := of_decide_eq_true h
  rw [fieldOf, val_natCast_of_lt hlt]
  exact BitVec.eq_of_toNat_eq (Nat.mod_eq_of_lt bytes.isLt)

theorem Hashv.implements_toPoseidon {hashv : Hashv}
    (hcanonical : ∀ inputs digest, hashv inputs = .ok digest → ∀ input ∈ inputs, isCanonicalBn254ScalarBe input = true) :
    hashv.Implements hashv.toPoseidon := by
  intro inputs digest h
  have hinputs : (inputs.map fieldOf).map (fun input => BitVec.ofNat 256 input.val) = inputs := by
    rw [List.map_map]
    refine (List.map_congr_left fun input hmem => ?_).trans (List.map_id inputs)
    exact ofNat_val_fieldOf (hcanonical _ _ h input hmem)
  rw [Hashv.toPoseidon, hinputs, h]

/-! ### The bytes of a field element -/

def bytesOf (x : Fr) : Bytes32 := BitVec.ofNat 256 x.val

theorem toNat_bn254ScalarModulusBe : bn254ScalarModulusBe.toNat = fieldModulus := by decide +kernel

theorem isCanonicalBn254ScalarBe_iff : isCanonicalBn254ScalarBe bytes = true ↔ bytes.toNat < fieldModulus := by
  rw [isCanonicalBn254ScalarBe, decide_eq_true_iff, BitVec.lt_def, toNat_bn254ScalarModulusBe]

theorem toNat_bytesOf (x : Fr) : (bytesOf x).toNat = x.val := by
  have hlt : x.val < 2 ^ 256 := (ZMod.val_lt x).trans (by norm_num [fieldModulus])
  rw [bytesOf, BitVec.toNat_ofNat, Nat.mod_eq_of_lt hlt]

@[simp] theorem fieldOf_bytesOf (x : Fr) : fieldOf (bytesOf x) = x := by
  rw [fieldOf, toNat_bytesOf, ZMod.natCast_zmod_val]

theorem canonical_bytesOf (x : Fr) : isCanonicalBn254ScalarBe (bytesOf x) = true := by
  rw [isCanonicalBn254ScalarBe_iff, toNat_bytesOf]
  exact ZMod.val_lt x

theorem bytesOf_fieldOf (h : isCanonicalBn254ScalarBe bytes = true) :
    bytesOf (fieldOf bytes) = bytes := ofNat_val_fieldOf h

theorem bytesOf_injective : Function.Injective bytesOf :=
  Function.LeftInverse.injective fieldOf_bytesOf

theorem fieldOf_inj {bytes' : Bytes32} (h : isCanonicalBn254ScalarBe bytes = true)
    (h' : isCanonicalBn254ScalarBe bytes' = true) (heq : fieldOf bytes = fieldOf bytes') : bytes = bytes' := by
  rw [← bytesOf_fieldOf h, heq, bytesOf_fieldOf h']

/-- The hash of byte arrays has the digests of the circuits. -/
def Hashv.Computes (hashv : Hashv) (poseidon : Poseidon) : Prop :=
  ∀ inputs digest, poseidon inputs = some digest → hashv (inputs.map bytesOf) = .ok (bytesOf digest)

def Hashv.ofNatLog (log : List (List Nat × Nat)) : Hashv := fun inputs =>
  (Oracle.answer log (.unknownSolanaSyscall 1) (inputs.map BitVec.toNat)).map (BitVec.ofNat 256)

section OfNatLog

variable {log : List (List Nat × Nat)} (hlt : ∀ entry ∈ log, entry.2 < fieldModulus)

include hlt

theorem Hashv.mem_of_ofNatLog {inputs : List Bytes32} {digest : Bytes32}
    (h : Hashv.ofNatLog log inputs = .ok digest) : (inputs.map BitVec.toNat, digest.toNat) ∈ log := by
  unfold Hashv.ofNatLog at h
  cases hanswer : Oracle.answer log (HasherError.unknownSolanaSyscall 1) (inputs.map BitVec.toNat) with
  | error e =>
      rw [hanswer] at h
      cases h
  | ok value =>
      rw [hanswer] at h
      obtain rfl := Except.ok.inj h
      have hmem := Oracle.mem_of_answer hanswer
      have hvalue : value < 2 ^ 256 := (hlt _ hmem).trans (by norm_num [fieldModulus])
      rwa [BitVec.toNat_ofNat, Nat.mod_eq_of_lt hvalue]

theorem Hashv.collisionFree_ofNatLog (hnodup : (log.map Prod.snd).Nodup) : (Hashv.ofNatLog log).CollisionFree := by
  intro inputs inputs' digest h h'
  have hentry := List.inj_on_of_nodup_map hnodup (mem_of_ofNatLog hlt h) (mem_of_ofNatLog hlt h') rfl
  exact List.map_injective_iff.mpr (fun _ _ => BitVec.eq_of_toNat_eq) (congrArg Prod.fst hentry)

end OfNatLog

theorem Hashv.computes_ofNatLog (log : NatLog) (extra : List (List Nat × Nat)) :
    (Hashv.ofNatLog (log.entries ++ extra)).Computes (.ofNatLog log) := by
  intro inputs digest h
  obtain ⟨value, hlogged, rfl⟩ := Option.map_eq_some_iff.mp h
  have hinputs : (inputs.map bytesOf).map BitVec.toNat = inputs.map ZMod.val := by
    rw [List.map_map]
    exact List.map_congr_left fun input _ => toNat_bytesOf input
  rw [Hashv.ofNatLog, hinputs, Oracle.answer_append extra (Oracle.answer_of_logged hlogged), bytesOf,
    val_natCast_of_lt (log.bounds _ (Oracle.mem_of_logged hlogged)).2]
  rfl

section Chains

variable {hashv : Hashv} {poseidon : Poseidon}

variable {chain digest : Bytes32} {inputs : List Bytes32}

section

variable (himplements : hashv.Implements poseidon)

include himplements

theorem absorbGroups_fieldOf (h : absorbGroups hashv chain inputs = .ok digest) :
    Circuits.absorbGroups poseidon (fieldOf chain) (inputs.map fieldOf) = some (fieldOf digest) := by
  fun_induction absorbGroups hashv chain inputs with
  | case1 chain =>
      cases h
      rfl
  | case2 chain g0 => simpa [Circuits.absorbGroups] using himplements _ _ h
  | case3 chain g0 g1 => simpa [Circuits.absorbGroups] using himplements _ _ h
  | case4 chain g0 g1 g2 inputs ih =>
      obtain ⟨next, hnext, h⟩ := of_bind_ok h
      exact Option.bind_eq_some_iff.mpr ⟨fieldOf next, himplements _ _ hnext, ih next h⟩

theorem createHashChain4_fieldOf (h : createHashChain4 hashv inputs = .ok digest) :
    hashChain4 poseidon (inputs.map fieldOf) = some (fieldOf digest) := by
  cases inputs with
  | nil =>
      cases h
      exact congrArg some fieldOf_zero.symm
  | cons first inputs => exact absorbGroups_fieldOf himplements h

theorem absorbRightGroups_fieldOf (h : absorbRightGroups hashv chain inputs = .ok digest) :
    Circuits.absorbRightGroups poseidon (fieldOf chain) (inputs.map fieldOf) = some (fieldOf digest) := by
  fun_induction absorbRightGroups hashv chain inputs with
  | case1 chain =>
      cases h
      rfl
  | case2 chain g0 => simpa [Circuits.absorbRightGroups] using himplements _ _ h
  | case3 chain g1 g0 => simpa [Circuits.absorbRightGroups] using himplements _ _ h
  | case4 chain g2 g1 g0 inputs ih =>
      obtain ⟨next, hnext, h⟩ := of_bind_ok h
      exact Option.bind_eq_some_iff.mpr ⟨fieldOf next, himplements _ _ hnext, ih next h⟩

theorem createRightHashChain4_fieldOf (h : createRightHashChain4 hashv inputs = .ok digest) :
    rightHashChain4 poseidon (inputs.map fieldOf) = some (fieldOf digest) := by
  unfold createRightHashChain4 at h
  rw [rightHashChain4, ← List.map_reverse]
  cases hreverse : inputs.reverse with
  | nil =>
      rw [hreverse] at h
      cases h
      exact congrArg some fieldOf_zero.symm
  | cons last leading =>
      rw [hreverse] at h
      exact absorbRightGroups_fieldOf himplements h

end

theorem createRightHashChain_cons (first second : Bytes32) (inputs : List Bytes32) :
    createRightHashChain hashv (first :: second :: inputs) =
      createRightHashChain hashv (second :: inputs) >>= fun chain => hashv [first, chain] := by
  rw [createRightHashChain, createRightHashChain, List.reverse_cons]
  cases hreverse : (second :: inputs).reverse with
  | nil => simp at hreverse
  | cons last leading =>
      rw [List.cons_append]
      dsimp only
      rw [absorbRight_eq_absorb, absorbRight_eq_absorb, absorb_append]
      congr 1
      funext chain
      cases hpair : hashv [first, chain] <;> simp [absorb, pairStep, hpair, bind, Except.bind]

theorem createRightHashChain_fieldOf (himplements : hashv.Implements poseidon)
    (h : createRightHashChain hashv inputs = .ok digest) :
    rightHashChain poseidon (inputs.map fieldOf) = some (fieldOf digest) := by
  induction inputs generalizing digest with
  | nil =>
      cases h
      exact congrArg some fieldOf_zero.symm
  | cons first inputs ih =>
      cases inputs with
      | nil =>
          cases h
          rfl
      | cons second inputs =>
          rw [createRightHashChain_cons] at h
          obtain ⟨chain, hchain, h⟩ := of_bind_ok h
          exact Option.bind_eq_some_iff.mpr ⟨fieldOf chain, ih hchain, himplements _ _ h⟩

/-! ### Padding -/

/-- Values in the slots of a circuit, and zeros behind them. -/
def padded {n : Nat} (values : List Bytes32) (i : Fin n) : Fr := fieldOf (values.getD i 0)

theorem getD_append_replicate {α : Type} (values : List α) (count k : Nat) (blank : α) :
    (values ++ List.replicate count blank).getD k blank = values.getD k blank := by
  rw [List.getD_eq_getElem?_getD, List.getD_eq_getElem?_getD, List.getElem?_append, List.getElem?_replicate]
  split
  · rfl
  · rename_i hlt
    rw [List.getElem?_eq_none (Nat.le_of_not_lt hlt)]
    split <;> rfl

theorem ofFn_padded {n : Nat} {values : List Bytes32} (h : values.length ≤ n) :
    List.ofFn (padded values : Fin n → Fr) = (values ++ List.replicate (n - values.length) 0).map fieldOf := by
  apply List.ext_getElem
  · rw [List.length_ofFn, List.length_map, List.length_append, List.length_replicate]
    omega
  · intro i hi hi'
    rw [List.length_map] at hi'
    rw [List.getElem_ofFn, List.getElem_map, padded, ← getD_append_replicate values (n - values.length),
      List.getD_eq_getElem?_getD, List.getElem?_eq_getElem hi']
    rfl

theorem createPaddedRightHashChain4_fieldOf (himplements : hashv.Implements poseidon)
    (hsuffix : hashv.DerivesZeroSuffixChains) {sent : List Bytes32} {width : Nat}
    (h : createPaddedRightHashChain4 hashv sent width = .ok digest) :
    rightHashChain4 poseidon (List.ofFn (padded sent : Fin width → Fr)) = some (fieldOf digest) := by
  obtain ⟨hlength, hchain⟩ := createPaddedRightHashChain4_eq_ok hsuffix h
  rw [ofFn_padded hlength]
  exact createRightHashChain4_fieldOf himplements hchain

theorem fixedSignerHashChain_fieldOf (himplements : hashv.Implements poseidon)
    (hsigners : Verify.DerivesSignerZeroSuffixChains hashv) {hashes : List Bytes32} {width : Nat}
    (h : Verify.fixedSignerHashChain hashv hashes width = .ok digest) :
    rightHashChain poseidon (List.ofFn (padded hashes : Fin width → Fr)) = some (fieldOf digest) := by
  obtain ⟨hlength, hchain⟩ := fixedSignerHashChain_eq_ok hsigners h
  rw [ofFn_padded hlength]
  exact createRightHashChain_fieldOf himplements hchain

/-! ### Tree slots -/

def slotOf (slot : TreeSlot) : Circuits.TreeSlot :=
  ⟨fieldOf slot.id, fieldOf slot.utxoRoot, fieldOf slot.nullifierRoot⟩

/-- The slots of the circuit, and unused ones behind them. -/
def paddedSlots (slots : List TreeSlot) (k : Fin inputTrees) : Circuits.TreeSlot :=
  slotOf (slots.getD k unusedTreeSlot)

theorem absorb_slotStep {slots : List TreeSlot} (h : absorb (slotStep hashv) chain slots = .ok digest) :
    ∃ hashes, List.Forall₂ (fun slot hash => slot.hash hashv = .ok hash) slots hashes ∧
      absorbRight hashv chain hashes = .ok digest := by
  induction slots generalizing chain with
  | nil => exact ⟨[], .nil, h⟩
  | cons slot slots ih =>
      obtain ⟨next, hnext, h⟩ := of_bind_ok h
      obtain ⟨hash, hhash, hnext⟩ := of_bind_ok hnext
      obtain ⟨hashes, hhashes, hrest⟩ := ih h
      exact ⟨hash :: hashes, .cons hhash hhashes, bind_eq_ok_iff.mpr ⟨next, hnext, hrest⟩⟩

theorem treeSlotsHashChain_eq_ok {slots : List TreeSlot} (h : treeSlotsHashChain hashv slots = .ok digest) :
    ∃ hashes, List.Forall₂ (fun slot hash => slot.hash hashv = .ok hash) slots hashes ∧
      createRightHashChain hashv hashes = .ok digest := by
  unfold treeSlotsHashChain fromRight at h
  cases hreverse : slots.reverse with
  | nil =>
      rw [hreverse] at h
      cases h
  | cons last leading =>
      rw [hreverse] at h
      obtain ⟨chain, hlast, h⟩ := of_bind_ok h
      obtain ⟨hashes, hhashes, hchain⟩ := absorb_slotStep h
      refine ⟨(chain :: hashes).reverse, ?_, ?_⟩
      · rw [← List.reverse_reverse slots, hreverse, List.forall₂_reverse_iff]
        exact .cons hlast hhashes
      · rw [createRightHashChain, List.reverse_reverse]
        exact hchain

theorem populatedTreeSlotsHashChain_fieldOf (himplements : hashv.Implements poseidon)
    (hslots : hashv.DerivesZeroTreeSlots) {populated : List TreeSlot}
    (h : populatedTreeSlotsHashChain hashv populated = .ok digest) :
    Circuits.treeSlotsHashChain poseidon (paddedSlots populated) = some (fieldOf digest) := by
  obtain ⟨hlength, hchain⟩ := populatedTreeSlotsHashChain_eq_ok hslots h
  obtain ⟨hashes, hhashes, hchain⟩ := treeSlotsHashChain_eq_ok hchain
  have hcount : hashes.length = inputTrees := by
    rw [← hhashes.length_eq, List.length_append, List.length_replicate]
    exact Nat.add_sub_cancel' hlength
  have hhash : ∀ k, (paddedSlots populated k).hash poseidon = some (padded hashes k) := by
    intro k
    have hk : k.val < hashes.length := hcount.symm ▸ k.isLt
    have hpadded := hk.trans_eq hhashes.length_eq.symm
    have hslot := (List.forall₂_iff_get.mp hhashes).2 k hpadded hk
    rw [paddedSlots, ← getD_append_replicate populated (inputTreeSlots - populated.length), padded,
      List.getD_eq_getElem?_getD, List.getD_eq_getElem?_getD, List.getElem?_eq_getElem hk,
      List.getElem?_eq_getElem hpadded]
    exact himplements _ _ hslot
  refine Option.bind_eq_some_iff.mpr ⟨padded hashes, each_eq_some.mpr hhash, ?_⟩
  rw [ofFn_padded hcount.le, hcount, Nat.sub_self, List.replicate_zero, List.append_nil]
  exact createRightHashChain_fieldOf himplements hchain

/-! ### Keys and messages -/

def wires (bytes : List UInt8) : List Fr := bytes.map fun byte => (byte.toNat : Fr)

theorem wires_append (first second : List UInt8) : wires (first ++ second) = wires first ++ wires second :=
  List.map_append

def keyWires (pk : Bytes32) (i : Fin 32) : Fr := (((writeBytes32 pk).getD i 0).toNat : Fr)

theorem ofFn_keyWires (pk : Bytes32) : List.ofFn (keyWires pk) = wires (writeBytes32 pk) := by
  have hlength : (writeBytes32 pk).length = 32 := Codec.length_writeArray 32 pk
  apply List.ext_getElem
  · rw [List.length_ofFn, wires, List.length_map, hlength]
  · intro i hi hi'
    have hlt : i < (writeBytes32 pk).length := by rwa [wires, List.length_map] at hi'
    simp only [List.getElem_ofFn, keyWires, wires, List.getElem_map, List.getD_eq_getElem?_getD,
      List.getElem?_eq_getElem hlt, Option.getD_some]

/-- Wires that hold bytes are those of a key. -/
theorem exists_keyWires {key : Fin 32 → Fr} (h : ∀ i, (key i).val < 256) : ∃ pk, key = keyWires pk := by
  obtain ⟨pk, hpk⟩ : ∃ pk, writeBytes32 pk = List.ofFn fun i => UInt8.ofNat (key i).val := by
    have hlt := Bytes.ofBE_lt (List.ofFn fun i => UInt8.ofNat (key i).val)
    have hbytes := Bytes.toBE_ofBE (List.ofFn fun i => UInt8.ofNat (key i).val)
    rw [List.length_ofFn] at hlt hbytes
    refine ⟨BitVec.ofNat 256 (Bytes.ofBE (List.ofFn fun i => UInt8.ofNat (key i).val)), ?_⟩
    rw [writeBytes32, Codec.writeArray, BitVec.toNat_ofNat, Nat.mod_eq_of_lt (hlt.trans_eq (by norm_num)), hbytes]
  refine ⟨pk, funext fun i => ?_⟩
  rw [keyWires, hpk, List.getD_eq_getElem?_getD, List.getElem?_ofFn, dif_pos i.isLt, Option.getD_some,
    UInt8.toNat_ofNat_of_lt' (h i), ZMod.natCast_zmod_val]

theorem bytesToField_append_toBE (leading : List Fr) (width value : Nat) :
    bytesToField (leading ++ wires (Bytes.toBE width value)) =
      bytesToField leading * ((256 ^ width : Nat) : Fr) + ((value % 256 ^ width : Nat) : Fr) := by
  induction width generalizing value with
  | zero => simp [Bytes.toBE, Bytes.toLE, wires, Nat.mod_one]
  | succ width ih =>
      have hsplit : value % 256 ^ (width + 1) = 256 * (value / 256 % 256 ^ width) + value % 256 := by
        rw [Nat.pow_succ', Nat.mod_mul, Nat.add_comm]
      have hstep (bytes : List Fr) (last : Fr) :
          bytesToField (bytes ++ [last]) = bytesToField bytes * 256 + last := by
        rw [bytesToField, bytesToField, List.foldl_append, List.foldl_cons, List.foldl_nil]
      have hlast : wires [UInt8.ofNat value] = [((value % 256 : Nat) : Fr)] := by
        rw [wires, List.map_singleton, UInt8.toNat_ofNat']
      rw [Bytes.toBE_succ, wires_append, ← List.append_assoc, hlast, hstep, ih, hsplit]
      push_cast
      ring

theorem packBoundedBytesBe_append {chunk rest : List Fr} (hchunk : chunk.length = 31) (hne : rest ≠ [])
    (hrest : rest.length ≤ 31) : packBoundedBytesBe (chunk ++ rest) = [bytesToField chunk, bytesToField rest] := by
  rw [packBoundedBytesBe, hashBytesChunkSize, Chunks.toChunks_append (by decide) hchunk,
    Chunks.toChunks_of_length_le hne hrest]
  rfl

theorem hashBytes_fieldOf (himplements : hashv.Implements poseidon) {bytes : Bytes32}
    (h : hashBytes hashv bytes = .ok digest) :
    hashBoundedBytes poseidon (wires (writeBytes32 bytes)) = some (fieldOf digest) := by
  have hbytes : wires (writeBytes32 bytes) =
      wires (Bytes.toBE 31 (bytes.toNat / 256)) ++ wires (Bytes.toBE 1 bytes.toNat) := by
    rw [← wires_append]
    exact congrArg _ (Bytes.toBE_add 31 1 bytes.toNat)
  have hfirst : bytesToField (wires (Bytes.toBE 31 (bytes.toNat / 256))) = fieldOf (bytes >>> 8) := by
    have hlt := bytes.isLt
    have hfield := bytesToField_append_toBE [] 31 (bytes.toNat / 256)
    rw [Nat.mod_eq_of_lt (by omega)] at hfield
    simpa [bytesToField, fieldOf, BitVec.toNat_ushiftRight, Nat.shiftRight_eq_div_pow] using hfield
  have hlast : bytesToField (wires (Bytes.toBE 1 bytes.toNat)) = fieldOf (bytes &&& 0xff) := by
    have hfield := bytesToField_append_toBE [] 1 bytes.toNat
    have hand : (bytes &&& 0xff).toNat = bytes.toNat % 256 := Nat.and_two_pow_sub_one_eq_mod _ 8
    rw [fieldOf, hand]
    simpa [bytesToField] using hfield
  rw [hashBoundedBytes, hbytes, packBoundedBytesBe_append (by simp [wires]) (by simp [wires, Bytes.toBE, Bytes.toLE])
    (by simp [wires]), hfirst, hlast]
  exact Option.bind_eq_some_iff.mpr ⟨_, himplements _ _ h, rfl⟩

theorem solanaOwnerIdentity_fieldOf (himplements : hashv.Implements poseidon) {pk identity : Bytes32}
    (h : solanaOwnerIdentity hashv pk = .ok identity) :
    solanaOwnerIdentityBounded poseidon (keyWires pk) = some (fieldOf identity) := by
  have hbytes : (0x53 : Fr) :: wires (writeBytes32 pk) =
      ([0x53] ++ wires (Bytes.toBE 30 (pk.toNat / 256 ^ 2))) ++ wires (Bytes.toBE 2 pk.toNat) := by
    rw [List.append_assoc, ← wires_append]
    exact congrArg _ (congrArg _ (Bytes.toBE_add 30 2 pk.toNat))
  have hfirst : bytesToField ([0x53] ++ wires (Bytes.toBE 30 (pk.toNat / 256 ^ 2))) =
      fieldOf (solanaOwnerTag <<< 240 ||| pk >>> 16) := by
    have hlt := pk.isLt
    have hor : (solanaOwnerTag <<< 240 ||| pk >>> 16).toNat = 0x53 * 256 ^ 30 + pk.toNat / 256 ^ 2 := by
      rw [BitVec.toNat_or, BitVec.toNat_ushiftRight, Nat.shiftRight_eq_div_pow]
      exact (Nat.two_pow_add_eq_or_of_lt (i := 240) (b := pk.toNat / 2 ^ 16) (by omega) 0x53).symm.trans (by norm_num)
    have hfield := bytesToField_append_toBE [0x53] 30 (pk.toNat / 256 ^ 2)
    rw [Nat.mod_eq_of_lt (by omega)] at hfield
    rw [hfield, fieldOf, hor, Nat.cast_add, Nat.cast_mul]
    congr 2
  have hlast : bytesToField (wires (Bytes.toBE 2 pk.toNat)) = fieldOf (pk &&& 0xffff) := by
    have hfield := bytesToField_append_toBE [] 2 pk.toNat
    have hand : (pk &&& 0xffff).toNat = pk.toNat % 256 ^ 2 := Nat.and_two_pow_sub_one_eq_mod _ 16
    rw [fieldOf, hand]
    simpa [bytesToField] using hfield
  rw [solanaOwnerIdentityBounded, ofFn_keyWires, hashBoundedBytes, hbytes,
    packBoundedBytesBe_append (by simp [wires]) (by simp [wires, Bytes.toBE, Bytes.toLE]) (by simp [wires]), hfirst,
    hlast]
  exact Option.bind_eq_some_iff.mpr ⟨_, himplements _ _ h, rfl⟩

def lowLimb (digest : Bytes32) : Fr := ((digest.toNat % 2 ^ messageLimbBits : Nat) : Fr)

def highLimb (digest : Bytes32) : Fr := ((digest.toNat / 2 ^ messageLimbBits : Nat) : Fr)

theorem chunks_bitsOf (width value : Nat) :
    ((bitsOf (8 * width) value : List Fr).toChunks 8).map fromBinary = wires (Bytes.toLE width value) := by
  induction width generalizing value with
  | zero => rfl
  | succ width ih =>
      rw [Nat.mul_succ, Nat.add_comm, bitsOf_add, Chunks.toChunks_append (by decide) (length_bitsOf 8 value),
        List.map_cons, ih, fromBinary_bitsOf, Bytes.toLE, wires, wires, List.map_cons, UInt8.toNat_ofNat']
      rfl

theorem messageBytes_eq (digest : Bytes32) :
    messageBytes (lowLimb digest) (highLimb digest) = wires (writeBytes32 digest) := by
  have hlow : (lowLimb digest).val = digest.toNat % 2 ^ messageLimbBits :=
    val_natCast_of_lt ((Nat.mod_lt _ (by positivity)).trans (two_pow_lt_fieldModulus (by decide)))
  have hhigh : (highLimb digest).val = digest.toNat / 2 ^ messageLimbBits := by
    refine val_natCast_of_lt (lt_of_lt_of_le ?_ (two_pow_lt_fieldModulus (by decide : 128 ≤ 253)).le)
    exact Nat.div_lt_of_lt_mul (digest.isLt.trans_eq (by rw [messageLimbBits, ← pow_add]))
  have hbits : (bitsOf messageLimbBits (digest.toNat % 2 ^ messageLimbBits) ++
      bitsOf messageLimbBits (digest.toNat / 2 ^ messageLimbBits) : List Fr) = bitsOf (8 * 32) digest.toNat := by
    rw [bitsOf_mod]
    exact (bitsOf_add messageLimbBits messageLimbBits digest.toNat).symm
  rw [messageBytes, hlow, hhigh, hbits, bytes32FromBits, chunks_bitsOf, wires, ← List.map_reverse]
  rfl

end Chains

end Zolana
