import Zolana.Proof.Chains
import Zolana.Proof.Assemble
import Zolana.Proof.Kinds

/-!
# Cached inputs

A spend publishes the tree of the cache it reads and the hashes it selects from it, as one field and one
chain. A spend that selects nothing publishes no tree and the chain over empty slots.
-/

namespace Zolana

open Fallible Fold

variable {HEIGHT K : Nat} {hashv : Hashv} {chain : Chain HEIGHT K}

/-! ### Caches on the chain -/

namespace Chain

theorem cache_eq_some {address : Address} {cache : CacheAccount} : chain.cache address = some cache ↔
      (chain.ledger address).data = .other true ∧ chain.contents address = some (.cache cache) := by
  unfold Chain.cache look
  cases hdata : (chain.ledger address).data with
  | other owned =>
      cases hcontents : chain.contents address with
      | none => simp
      | some contents => cases contents <;> cases owned <;> simp [Contents.ownedByProgram]
  | _ => simp

theorem cache_congr {ledger : Ledger HEIGHT K} (h : ledger.kinds = chain.ledger.kinds)
    (address : Address) : { chain with ledger }.cache address = chain.cache address := by
  apply Option.ext
  intro cache
  have hkind : (ledger address).data.kind = (chain.ledger address).data.kind := congrFun h address
  change _ = some cache ↔ _ = some cache
  rw [cache_eq_some, cache_eq_some, ← AccountData.kind_eq_program, ← AccountData.kind_eq_program, hkind]

end Chain

theorem keepsKinds_applyInputTrees {env : PoolEnv} (accounts : TransactAccounts) (ix : TransactIx)
    (treeInputCounts : List Nat) :
    Keeps Ledger.kinds (applyInputTrees env accounts ix treeInputCounts : PoolM HEIGHT K _) := by
  refine .ite (.throw _) (.ite (.throw _) ?_)
  exact .bind (keepsKinds_applyTrees _ _ _ _ _) fun _ => .bind (.mapErr _ _) fun _ => .pure _

theorem TransactCache.readState_congr {ledger : Ledger HEIGHT K}
    (h : ledger.kinds = chain.ledger.kinds) (cache : TransactCache) :
    cache.readState { chain with ledger } = cache.readState chain := by
  have hcache : { chain with ledger }.cache = chain.cache := funext (Chain.cache_congr h)
  unfold readState
  rw [hcache]

/-! ### Selections -/

/-- The tree and the hashes that a transact selects from a cache. -/
def cachedSelection (chain : Chain HEIGHT K) (cache : Option TransactCache) (circuit : CircuitId) :
    Option (UInt16 × List Bytes32) :=
  match cache.bind (·.readState chain), circuit.cacheAccess with
  | some state, some access =>
    if access.readBitmap = 0 then none
    else some (state.treeId, selectedSlots access.readBitmap state.utxoHashes)
  | _, _ => none

theorem cachedSelection_of_cacheAccess {circuit : CircuitId} (h : circuit.cacheAccess = none)
    (cache : Option TransactCache) : cachedSelection chain cache circuit = none := by
  unfold cachedSelection
  rw [h]
  cases cache.bind (·.readState chain) <;> rfl

theorem cachedSelection_congr {ledger : Ledger HEIGHT K} (h : ledger.kinds = chain.ledger.kinds)
    (cache : Option TransactCache) (circuit : CircuitId) :
    cachedSelection { chain with ledger } cache circuit = cachedSelection chain cache circuit := by
  have hread : (TransactCache.readState { chain with ledger } : TransactCache → _) =
      TransactCache.readState chain := funext (TransactCache.readState_congr h)
  unfold cachedSelection
  rw [hread]

theorem selectedSlots_ne_nil {readBitmap : Nat} {slots : Vector Bytes32 cacheCapacity}
    (hbitmap : readBitmap ≠ 0) (hrange : readBitmap >>> cacheCapacity = 0) :
    selectedSlots readBitmap slots ≠ [] := by
  obtain ⟨slot, hslot⟩ := Nat.exists_testBit_of_ne_zero hbitmap
  have hlt : slot < cacheCapacity := by
    by_contra hge
    rw [Nat.shiftRight_eq_div_pow, Nat.div_eq_zero_iff] at hrange
    have hsmall : readBitmap < 2 ^ slot := by
      refine Nat.lt_of_lt_of_le (hrange.resolve_left (by positivity)) ?_
      exact Nat.pow_le_pow_right (by omega) (by omega)
    rw [Nat.testBit_lt_two_pow hsmall] at hslot
    cases hslot
  have hmem : (slots[slot], slot) ∈ slots.toList.zipIdx.filter (readBitmap.testBit ·.2) := by
    refine List.mem_filter.mpr ⟨?_, hslot⟩
    rw [List.mem_zipIdx_iff_getElem?]
    simp [hlt]
  exact List.ne_nil_of_mem (List.mem_map_of_mem hmem)

theorem zeroGroups_replicate (count : Nat) : zeroGroups (List.replicate count 0) = (count + 2) / 3 := by
  induction count using Nat.strongRecOn with
  | ind count ih =>
      match count with
      | 0 | 1 | 2 => rfl
      | rest + 3 =>
          rw [List.replicate_succ, List.replicate_succ, List.replicate_succ, zeroGroups,
            if_pos ⟨rfl, rfl, rfl⟩, ih rest (by omega)]
          omega

theorem emptyCachedInputFields_eq_ok {inputCount : Nat} {fields : Bytes32 × Bytes32}
    (hpositive : 0 < inputCount) (hwidth : inputCount ≤ zeroSuffixChainMaxWidth)
    (h : emptyCachedInputFields inputCount = .ok fields) :
    fields.1 = 0 ∧ createPaddedRightHashChain4 hashv [] inputCount = .ok fields.2 := by
  unfold emptyCachedInputFields at h
  dsimp only at h
  split at h
  case h_2 => cases h
  case h_1 suffix hsuffix =>
    cases h
    refine ⟨rfl, ?_⟩
    have hreverse : (List.replicate inputCount (0 : Bytes32)).reverse =
        0 :: List.replicate (inputCount - 1) 0 := by
      rw [List.reverse_replicate, ← List.replicate_succ, Nat.sub_add_cancel hpositive]
    rw [createPaddedRightHashChain4, if_neg (Nat.not_lt.mpr hwidth), if_neg (by simp),
      createZeroSuffixRightHashChain4, List.length_nil, Nat.sub_zero, List.nil_append, hreverse]
    dsimp only
    rw [if_neg (not_not.mpr rfl), zeroGroups_replicate, hsuffix]
    dsimp only
    rw [List.drop_eq_nil_of_le (by rw [List.length_replicate]; omega)]
    rfl

theorem emptyCachedInputFields_eq (hderives : hashv.DerivesZeroSuffixChains) {inputCount : Nat}
    (hwidth : inputCount ≤ zeroSuffixChainMaxWidth) : emptyCachedInputFields inputCount =
      (createRightHashChain4 hashv (List.replicate inputCount 0)).map fun chain => (0, chain) := by
  by_cases hzero : inputCount = 0
  · rw [hzero]
    rfl
  · have hlt : (inputCount - 1 + 2) / 3 < zeroSuffixChains.length := by
      change inputCount ≤ 54 at hwidth
      change (inputCount - 1 + 2) / 3 < 19
      omega
    have hfields : emptyCachedInputFields inputCount = .ok (0, zeroSuffixChains[(inputCount - 1 + 2) / 3]) := by
      rw [emptyCachedInputFields, List.getElem?_eq_getElem hlt]
    obtain ⟨-, hchain⟩ := emptyCachedInputFields_eq_ok (Nat.pos_of_ne_zero hzero) hwidth hfields
    rw [createPaddedRightHashChain4_eq hderives hwidth (Nat.zero_le _), List.nil_append, List.length_nil,
      Nat.sub_zero] at hchain
    rw [hfields, hchain]
    rfl

theorem treeIdField_injective : Function.Injective treeIdField := by
  intro treeId treeId' h
  have htoNat := congrArg BitVec.toNat h
  have hlt := treeId.toNat_lt
  have hlt' := treeId'.toNat_lt
  rw [treeIdField, treeIdField, BitVec.toNat_ofNat, BitVec.toNat_ofNat, Nat.mod_eq_of_lt (by omega),
    Nat.mod_eq_of_lt (by omega)] at htoNat
  exact UInt16.toNat_inj.mp htoNat

def PublishesSelection (hashv : Hashv) (inputCount : Nat) (selection : Option (UInt16 × List Bytes32))
    (fields : Bytes32 × Bytes32) : Prop :=
  match selection with
  | none => fields.1 = 0 ∧ createPaddedRightHashChain4 hashv [] inputCount = .ok fields.2
  | some (treeId, hashes) => fields.1 = treeIdField treeId ∧ hashes ≠ [] ∧ 0 ∉ hashes ∧
      createPaddedRightHashChain4 hashv hashes inputCount = .ok fields.2

theorem PublishesSelection.inj (hfree : hashv.CollisionFree)
    (hderives : hashv.DerivesZeroSuffixChains) {inputCount : Nat}
    {selection selection' : Option (UInt16 × List Bytes32)} {fields : Bytes32 × Bytes32}
    (h : PublishesSelection hashv inputCount selection fields)
    (h' : PublishesSelection hashv inputCount selection' fields) : selection = selection' := by
  match selection, selection', h, h' with
  | none, none, _, _ => rfl
  | none, some (_, hashes), ⟨_, hchain⟩, ⟨_, hne, hzero, hchain'⟩ =>
      exact absurd (eq_of_createPaddedRightHashChain4 hfree hderives hzero (by simp) hchain' hchain) hne
  | some (_, hashes), none, ⟨_, hne, hzero, hchain⟩, ⟨_, hchain'⟩ =>
      exact absurd (eq_of_createPaddedRightHashChain4 hfree hderives hzero (by simp) hchain hchain') hne
  | some (treeId, hashes), some (treeId', hashes'), ⟨hid, _, hzero, hchain⟩,
      ⟨hid', _, hzero', hchain'⟩ =>
      have hhashes := eq_of_createPaddedRightHashChain4 hfree hderives hzero hzero' hchain hchain'
      rw [treeIdField_injective (hid.symm.trans hid'), hhashes]

/-! ### What a transact publishes -/

section Bind

variable {cache : Option TransactCache} {circuit : CircuitId}
  {proofInputs boundInputs : Verify.TransactProofInputs}

theorem cachedInputFields_eq_ok {access : CacheAccess} {state : CacheAccount} {inputCount : Nat}
    {fields : Bytes32 × Bytes32} (hpositive : 0 < inputCount) (hwidth : inputCount ≤ zeroSuffixChainMaxWidth)
    (hused : (selectedSlots access.readBitmap state.utxoHashes).any (· = 0) = false)
    (h : cachedInputFields hashv access.readBitmap state.treeId state.utxoHashes inputCount =
      .ok fields) :
    PublishesSelection hashv inputCount
      (if access.readBitmap = 0 then none
        else some (state.treeId, selectedSlots access.readBitmap state.utxoHashes)) fields := by
  unfold cachedInputFields at h
  split at h
  case isTrue hempty =>
    rw [if_pos hempty]
    exact emptyCachedInputFields_eq_ok hpositive hwidth h
  case isFalse hselects =>
    obtain ⟨hbounds, h⟩ := of_check_eq_ok h
    obtain ⟨hrange, _⟩ := not_or.mp hbounds
    obtain ⟨digest, hdigest, h⟩ := of_bind_ok h
    cases h
    rw [if_neg hselects]
    refine ⟨rfl, selectedSlots_ne_nil hselects (not_not.mp hrange), ?_, hdigest⟩
    intro hmem
    rw [List.any_eq_false] at hused
    exact hused 0 hmem (by simp)

theorem bindCachedInputs_eq_ok (h : bindCachedInputs hashv chain cache circuit proofInputs = .ok boundInputs)
    (hnone : proofInputs.cachedInputs = none) : boundInputs =
        { proofInputs with
          cachedInputs := boundInputs.cachedInputs
          assignments := boundInputs.assignments } ∧
      ∀ fields, 0 < circuit.numInputs → circuit.numInputs ≤ zeroSuffixChainMaxWidth →
        Verify.cachedInputFieldsOf circuit boundInputs = .ok fields →
        PublishesSelection hashv circuit.numInputs (cachedSelection chain cache circuit) fields := by
  unfold bindCachedInputs at h
  split at h
  case h_1 hread =>
    cases h
    refine ⟨rfl, fun fields hpositive hwidth hfields => ?_⟩
    rw [cachedSelection, hread]
    unfold Verify.cachedInputFieldsOf at hfields
    rw [hnone] at hfields
    cases hempty : emptyCachedInputFields circuit.numInputs with
    | error e =>
        rw [hempty] at hfields
        cases hfields
    | ok empty =>
        rw [hempty] at hfields
        cases hfields
        exact emptyCachedInputFields_eq_ok hpositive hwidth hempty
  case h_2 state hread =>
    unfold Verify.TransactProofInputs.assignCachedInputs at h
    split at h
    case h_1 => cases h
    case h_2 access haccess =>
      obtain ⟨hused, h⟩ := of_check_eq_ok h
      split at h
      case h_1 => cases h
      case h_2 published hpublished =>
        cases h
        refine ⟨rfl, fun fields hpositive hwidth hfields => ?_⟩
        cases hfields
        rw [cachedSelection, hread, haccess]
        exact cachedInputFields_eq_ok hpositive hwidth (Bool.not_eq_true _ ▸ hused) hpublished

end Bind

end Zolana
