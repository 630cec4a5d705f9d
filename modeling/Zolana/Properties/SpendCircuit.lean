import Zolana.Proof.SpendRails

/-!
# The spend circuits

What any rail proves of its inputs and outputs: the commitments it spends are in the trees or in the cache it
names, the nullifiers it publishes are those of its inputs and new to the trees, and padding is padding.
-/

namespace Zolana

open Circuits

/-- Spend soundness, for a Poseidon without collisions and without the digest zero. The tree of an input is the
slot that the flags publish for it. A slot is compact when it publishes zero. -/
theorem spend_circuit_soundness {env : CircuitEnv} (hfree : env.poseidon.CollisionFree)
    (hzero : env.poseidon.NeverZero) {shape : Shape} {c : SpendCircuit shape} (hdefine : c.define env = some ())
    {leaves : Fin inputTrees → List Fr} {top : Fin inputTrees → Fr} {elements : Fin inputTrees → List (Fr × Fr)}
    (htrees : ∀ i k, (c.witness.inputs i).treeSlot = ((k : Fin inputTrees).val : Fr) →
      ((c.witness.treeSlots k).utxoRoot ≠ 0 →
        IsRootOf env.poseidon stateTreeHeight (leaves k) (c.witness.treeSlots k).utxoRoot) ∧
      IndexedTree env.poseidon (top k) nullifierTreeHeight (elements k) (c.witness.treeSlots k).nullifierRoot) :
    ∃ tree : Fin shape.nInputs → Fin inputTrees,
      (∀ i, (c.witness.inputs i).treeSlot = ((tree i).val : Fr) ∧
        (tree i).val = c.witness.inputFlags.val / 2 ^ (1 + 3 * i.val) % 8) ∧
      (∀ i, ((c.witness.inputs i).utxo.domain = utxoDomain ∧ (c.witness.inputs i).utxo.domain ≠ addressDomain ∧
          (c.witness.inputs i).utxo.domain ≠ dummyDomain) ∨
        ((c.witness.inputs i).utxo.domain = addressDomain ∧ (c.witness.inputs i).utxo.domain ≠ utxoDomain ∧
          (c.witness.inputs i).utxo.domain ≠ dummyDomain) ∨
        ((c.witness.inputs i).utxo.domain = dummyDomain ∧ (c.witness.inputs i).utxo.domain ≠ utxoDomain ∧
          (c.witness.inputs i).utxo.domain ≠ addressDomain)) ∧
      (∀ i, (c.witness.inputs i).utxo.domain = utxoDomain → ∃ hash,
        utxoHashCircuit env.poseidon (c.witness.inputs i).utxo (c.witness.treeSlots (tree i)).id = some hash ∧
        ((c.witness.treeSlots (tree i)).utxoRoot ≠ 0 ∧ hash ∈ leaves (tree i) ∨
          ∃ cached, c.cachedInputs = some cached ∧ cached.isCached i = 1 ∧
            rightHashChain4 env.poseidon (List.ofFn cached.readHashes) = some cached.readHashChain ∧
            hash ≠ 0 ∧ hash ∈ List.ofFn cached.readHashes ∧
            (c.witness.treeSlots (tree i)).id = cached.treeId)) ∧
      (∀ i, c.witness.nullifiers i ≠ 0 → ∃ hash,
        utxoHashCircuit env.poseidon (c.witness.inputs i).utxo (c.witness.treeSlots (tree i)).id = some hash ∧
        env.poseidon [hash, (c.witness.inputs i).utxo.blinding, (c.witness.inputs i).nullifierSecret] =
          some (c.witness.nullifiers i) ∧
        c.witness.nullifiers i ∉ (elements (tree i)).map Prod.fst) ∧
      (∀ i, c.witness.nullifiers i = 0 → (c.witness.inputs i).utxo.domain = dummyDomain) ∧
      (∀ i, c.witness.outputHashes i = 0 → (c.witness.outputs i).domain = dummyDomain) ∧
      c.witness.nullifiers ⟨0, shape.nInputs_pos⟩ ≠ 0 ∧
      (∀ i j, i ≠ j → c.witness.nullifiers i ≠ 0 → c.witness.nullifiers i ≠ c.witness.nullifiers j) ∧
      (∀ i j, i < j → (c.witness.inputs i).utxo.domain = dummyDomain →
        (c.witness.inputs j).utxo.domain = dummyDomain) ∧
      (∀ i j, i < j → (c.witness.outputs i).domain = dummyDomain →
        (c.witness.outputs j).domain = dummyDomain) ∧
      (c.witness.inputFlags.val % 2 = 0 → ∀ i, c.witness.nullifiers i ≠ 0 →
        (c.witness.inputs i).utxo.domain = utxoDomain) := by
  obtain ⟨ringProgramId, chain, after, tail, signers, signed, tree, utxoHash, ownNullifier, outputHash, h⟩ :=
    SpendCircuit.satisfied_of_define hdefine
  obtain ⟨_, -, houtputs⟩ := h.outputSlot
  refine ⟨tree, fun i => ⟨(h.tree_eq i).1, (h.tree_eq i).2.1⟩, ?_, ?_, ?_, fun i => (h.slot i).dummy_of_compact,
    fun i => (houtputs i).2.dummy_of_compact, h.first_ne,
    fun i j => ne_of_distinct h.distinct, fun i j hij hi => dummy_of_dummy_before h.inputsOrdered hij hi,
    fun i j hij hi => dummy_of_dummy_before h.outputsOrdered hij hi, ?_⟩
  · intro i
    rcases (h.slot i).kind with hutxo | haddress | hdummy
    · exact .inl ⟨hutxo, ne_addressDomain_of_utxo hutxo, ne_dummyDomain_of_utxo hutxo⟩
    · exact .inr (.inl ⟨haddress, fun hutxo => ne_addressDomain_of_utxo hutxo haddress,
        ne_dummyDomain_of_address haddress⟩)
    · exact .inr (.inr ⟨hdummy, fun hutxo => ne_dummyDomain_of_utxo hutxo hdummy,
        fun haddress => ne_dummyDomain_of_address haddress hdummy⟩)
  · intro i hutxo
    have hdigest := (h.slot i).digest
    have hne := utxoHashCircuit_ne_zero hzero hdigest
    refine ⟨utxoHash i, hdigest, ?_⟩
    rcases h.included_or_cached hutxo with ⟨hroot, hopens⟩ | ⟨cached, hsome, hone, hchain, hmem, htreeId⟩
    · exact .inl ⟨hroot, hopens.mem hfree ((htrees i (tree i) (h.tree_eq i).1).1 hroot) hne⟩
    · exact .inr ⟨cached, hsome, hone, hchain, hne, hmem, htreeId⟩
  · intro i hi
    have hown := (h.slot i).published hi
    have habsent := (h.slot i).absent
    have hnullifier := (h.slot i).nullifier_eq
    rw [hown] at habsent hnullifier
    exact ⟨utxoHash i, (h.slot i).digest, hnullifier,
      (habsent.not_mem hfree hzero (htrees i (tree i) (h.tree_eq i).1).2).1⟩
  · intro heven i hi
    by_contra hutxo
    exact hi ((h.allowDummy heven i).mp hutxo)

/-! ### An anonymous spend -/

def emptyNode (level : Nat) : Nat := if level = 0 then 0 else 400 + level

/-- The digests on the way from the first leaf to the root of a tree that holds nothing else. -/
def climbDigests (leaf base height : Nat) : List (List Nat × Nat) :=
  (List.range height).map fun k => ([if k = 0 then leaf else base + k, emptyNode k], base + k + 1)

/-- The digests of an anonymous spend of one utxo, which is the first leaf of its tree. The other two inputs
are an address and padding, and the second of the two outputs is padding. -/
def hiddenSpendDigests (inDefaultRing : Bool) : NatLog where
  entries := [([83 * 256 ^ 30, 0], 100), ([12], 101), ([100, 101], 102), ([0], 103), ([41, 103], 104),
    ([0, 9], 105), ([102, 21], 106), ([3, 7, 31, 5, 0, if inDefaultRing then 401 else 105, 106], 107),
    ([104, 22], 108), ([2, 7, 0, 0, 0, 401, 108], 109), ([0, 24], 110), ([1, 7, 0, 0, 0, 401, 110], 111),
    ([107, 21, 12], 112), ([109, 22, 0], 113), ([111, 24, 0], 114), ([0, fieldModulus - 1], 115),
    ([0x54584f53, 112, 33], 116), ([0x54584f42, 112, 116, 0], 117), ([0x54584f42, 112, 116, 1], 118),
    ([43, 44], 119), ([119, 117], 120), ([3, 8, 31, 5, 0, 105, 120], 121), ([0, 118], 122),
    ([1, 8, 0, 0, 0, 401, 122], 123), ([0x54585042, 112, 33], 124), ([121, 0], 125), ([0, 113], 126),
    ([113, 0], 127), ([107, 121, 113, 124], 128), ([7, 532, 640], 129), ([0, 0, 0], 130), ([130, 130], 131),
    ([130, 131], 132), ([130, 132], 133), ([129, 133], 134), ([42, 401], 135), ([41, 135], 136),
    ([112, 113, 0, 114], 137), ([121, 0, 0, 123], 138), ([0, 0, 0, 0], 139), ([137, 138, 134, 8], 140),
    ([140, 128, 401, if inDefaultRing then 100 else 0], 141), ([141, 23, 0, 0], 142), ([142, 0, 0, 0], 143),
    ([143, 0, 9, 136], 144), ([144, 1, 139, 0], 145), ([145, 139, 0, 0], 146),
    ([0, 103], 147), ([141, 25, 0, 0], 148), ([148, 0, 0, 0], 149), ([149, 0, 9, 136], 150), ([150, 1, 139, 0], 151),
    ([151, 139, 0, 0], 152)] ++
  (List.range 40).map (fun k => ([emptyNode k, emptyNode k], emptyNode (k + 1))) ++
  climbDigests 107 500 32 ++ climbDigests 115 600 40 ++ climbDigests 109 700 32 ++ climbDigests 111 800 32
  bounds := by decide +kernel +revert
  ascending := by decide +kernel +revert

def threeInTwoOut : Shape where
  nInputs := 3
  nOutputs := 2
  nInputs_pos := Nat.succ_pos 2
  nOutputs_pos := Nat.succ_pos 1
  nInputs_lt := by norm_num
  nOutputs_lt := by norm_num

/-- One key has a signature. -/
def hiddenSpendEnv (inDefaultRing : Bool) : CircuitEnv where
  poseidon := .ofNatLog (hiddenSpendDigests inDefaultRing)
  verify := fun publicKey signature _ => publicKey = 0 ∧ signature = 0

/-- The utxo spent is in the ring that signs or in none. -/
def hiddenSpendInput (inDefaultRing : Bool) : Nat → UtxoCircuitFields
  | 0 => ⟨utxoDomain, (102 : Nat), (31 : Nat), (5 : Nat), (21 : Nat), 0, 0, (if inDefaultRing then 0 else 9 : Nat)⟩
  | 1 => ⟨addressDomain, (104 : Nat), 0, 0, (22 : Nat), 0, 0, 0⟩
  | _ => ⟨dummyDomain, 0, 0, 0, (24 : Nat), 0, 0, 0⟩

def hiddenSpendOutput : Nat → UtxoCircuitFields
  | 0 => ⟨utxoDomain, (119 : Nat), (31 : Nat), (5 : Nat), (117 : Nat), 0, 0, (9 : Nat)⟩
  | _ => ⟨dummyDomain, 0, 0, 0, (118 : Nat), 0, 0, 0⟩

def slotValues {n : Nat} (values : List Nat) (i : Fin n) : Fr := (values.getD i 0 : Nat)

def hiddenSpend (inDefaultRing : Bool) : CustomRingAnonymousEddsaCircuit threeInTwoOut where
  nullifiers := slotValues [112, 113, 114]
  outputHashes := slotValues [121, 123]
  treeSlots := fun k => if k.val = 0 then ⟨(7 : Nat), (532 : Nat), (640 : Nat)⟩ else ⟨0, 0, 0⟩
  outputTreeId := (8 : Nat)
  privateTxHash := (128 : Nat)
  externalDataHash := (23 : Nat)
  publicAssets := fun _ => 0
  publicAmounts := fun _ => 0
  inputFlags := 1
  signerPkHashes := [((41 : Nat) : Fr), ((42 : Nat) : Fr), 0, 0]
  publicInputHash := (146 : Nat)
  inputs := fun i =>
    { utxo := hiddenSpendInput inDefaultRing i
      statePathElements := fun level => emptyNode level
      statePathIndex := 0
      treeSlot := 0
      nullifierLowValue := 0
      nullifierNextValue := -1
      nullifierLowPathElements := fun level => emptyNode level
      nullifierLowPathIndex := 0
      nullifierSecret := slotValues [12, 0, 0] i }
  inputOwnerPkHashes := slotValues [0, 41, 0]
  outputs := fun i => hiddenSpendOutput i
  blindingSeed := (33 : Nat)
  cachedInputs := ⟨0, (139 : Nat), fun _ => 0, fun _ => 0, fun _ => 0⟩
  messageHashLow := 0
  messageHashHigh := 0
  defaultOwnerPkHash := (if inDefaultRing then 100 else 0 : Nat)
  ringProgramId := (9 : Nat)
  publishedOutputOwnerPkHashes := fun _ => 0
  outputOwnerPkHashes := fun _ => (43 : Nat)
  outputNullifierPks := fun _ => (44 : Nat)
  ownerPublicKey := fun _ => 0
  ownerSignature := fun _ => 0

/-- The commitments of the slots, the roots above them, and their owners, where padding has none. -/
def hiddenSpendHashes : Fin threeInTwoOut.nInputs → Fr := slotValues [107, 109, 111]

def hiddenSpendRoots : Fin threeInTwoOut.nInputs → Fr := slotValues [532, 732, 832]

def hiddenSpendSigners : Fin threeInTwoOut.nInputs → Fr := slotValues [100, 41, 0]

theorem opens_hiddenSpend (inDefaultRing : Bool) :
    (∀ i, Opens (.ofNatLog (hiddenSpendDigests inDefaultRing)) (hiddenSpendHashes i) 0
      (fun level : Fin stateTreeHeight => (emptyNode level : Fr)) (hiddenSpendRoots i)) ∧
    Opens (.ofNatLog (hiddenSpendDigests inDefaultRing)) 115 0
      (fun level : Fin nullifierTreeHeight => (emptyNode level : Fr)) 640 := by
  refine ⟨fun i => ⟨?_, ?_⟩, ?_, ?_⟩ <;> decide +kernel +revert

def hiddenSpendTransaction (inDefaultRing : Bool) : Transaction threeInTwoOut :=
  (hiddenSpend inDefaultRing).toTransaction (some (hiddenSpend inDefaultRing).cachedInputs)
    (hiddenSpend inDefaultRing).ringProgramId (136 : Nat)
    [((401 : Nat) : Fr), (hiddenSpend inDefaultRing).defaultOwnerPkHash] [((139 : Nat) : Fr)]

theorem slot_hiddenSpend (inDefaultRing : Bool) (i : Fin threeInTwoOut.nInputs) :
    SatisfiedInput (.ofNatLog (hiddenSpendDigests inDefaultRing)) ((hiddenSpend inDefaultRing).inputs i)
      ((hiddenSpend inDefaultRing).nullifiers i) (hiddenSpendSigners i) ⟨7, 532, 640⟩ (some 0)
      ((hiddenSpend inDefaultRing).nullifiers i = 0) ((some 0 : Option Fr) = some 1) (hiddenSpendHashes i)
      ((hiddenSpend inDefaultRing).nullifiers i) where
  kind := by decide +kernel +revert
  asset_ne := by decide +kernel +revert
  dummy_of_compact := by decide +kernel +revert
  digest := by decide +kernel +revert
  nullifier_eq := by decide +kernel +revert
  published := fun _ => rfl
  absent := ⟨⟨115, by decide +kernel +revert, (opens_hiddenSpend inDefaultRing).2⟩,
    by decide +kernel +revert, by decide +kernel +revert⟩
  owner_eq := ⟨slotValues [101, 103, 103] i, slotValues [102, 104, 147] i, by decide +kernel +revert,
    by decide +kernel +revert, by decide +kernel +revert⟩
  root_ne := fun _ _ _ => by decide +kernel +revert
  included := ⟨hiddenSpendRoots i, (opens_hiddenSpend inDefaultRing).1 i, by decide +kernel +revert⟩
  dummy := by decide +kernel +revert
  dummy_secret := by decide +kernel +revert
  address := by decide +kernel +revert

theorem satisfied_hiddenSpend (inDefaultRing : Bool) (signed : Fin threeInTwoOut.nOutputs → Prop) :
    (hiddenSpendTransaction inDefaultRing).Satisfied (.ofNatLog (hiddenSpendDigests inDefaultRing)) hiddenSpendSigners
      signed (fun _ => ⟨0, Nat.succ_pos _⟩) hiddenSpendHashes (hiddenSpend inDefaultRing).nullifiers
      (hiddenSpend inDefaultRing).outputHashes where
  cacheFlags := by
    rintro _ ⟨⟩
    exact ⟨fun _ => .inl rfl, by decide +kernel +revert⟩
  flags_lt := by decide +kernel +revert
  allowDummy := by decide +kernel +revert
  tree_eq := by decide +kernel +revert
  slot := slot_hiddenSpend inDefaultRing
  cache := by
    rintro _ ⟨⟩
    refine ⟨fun i => ⟨⟨0, Nat.succ_pos _⟩, rfl, fun h => absurd h ?_⟩, ?_⟩ <;> decide +kernel +revert
  distinct := by decide +kernel +revert
  inputsOrdered := by decide +kernel +revert
  first_ne := by decide +kernel +revert
  outputSlot := by
    refine ⟨116, by decide +kernel +revert, fun i => ⟨by decide +kernel +revert, ?_⟩⟩
    have hdata : (hiddenSpendOutput i).dataHash = 0 := by decide +kernel +revert
    exact
      { kind := by decide +kernel +revert
        asset_ne := by decide +kernel +revert
        dummy := by decide +kernel +revert
        signed_of_data := fun _ h => absurd hdata h
        dummy_of_compact := by decide +kernel +revert
        digest := by decide +kernel +revert
        published := fun _ => rfl }
  outputsOrdered := by decide +kernel +revert
  balance := by decide +kernel +revert
  privateTxHash_eq := ⟨124, by decide +kernel +revert, by decide +kernel +revert⟩
  publicInputHash_eq := by decide +kernel +revert

theorem contentOwners_hiddenSpend (inDefaultRing : Bool) : contentOwners (hiddenSpend inDefaultRing).inputs
    (ownerOrHidden (hiddenSpend inDefaultRing).inputOwnerPkHashes 100) = hiddenSpendSigners := by
  funext i
  decide +kernel +revert

theorem rail_hiddenSpend (inDefaultRing : Bool) :
    (hiddenSpend inDefaultRing).Satisfied (hiddenSpendEnv inDefaultRing) 100 401 where
  signature := by
    refine ownerAuthorization_eq_some.mpr ⟨⟨?_, ?_⟩, ?_, ?_, ?_⟩ <;> decide +kernel +revert
  width := by decide +kernel +revert
  ring_ne := by decide +kernel +revert
  ring := by
    constructor <;> decide +kernel +revert
  tagged := fun i => ⟨119, by decide +kernel +revert, by decide +kernel +revert⟩
  hidden_not_signer := by
    change (100 : Fr) ∉ [41, 42, 0, 0]
    decide +kernel
  owners :=
    { padding := by decide +kernel +revert
      hidden_ne := fun _ _ _ => by decide +kernel
      named := by decide +kernel +revert
      some_hidden := ⟨⟨0, Nat.succ_pos _⟩, by decide +kernel +revert, rfl⟩ }
  kept := by
    refine ⟨?_, ?_, fun _ i => ?_⟩ <;> decide +kernel +revert
  masked := by
    intro i
    decide +kernel +revert
  dummies := fun i => ⟨fun _ => rfl, fun _ h => absurd rfl h⟩
  transaction := by
    rw [contentOwners_hiddenSpend]
    exact ⟨139, by decide +kernel +revert, 136, _, _, _, _, by decide +kernel +revert,
      satisfied_hiddenSpend inDefaultRing _⟩

theorem define_hiddenSpend (inDefaultRing : Bool) :
    (hiddenSpend inDefaultRing).define (hiddenSpendEnv inDefaultRing) = some () :=
  CustomRingAnonymousEddsaCircuit.define_eq_some.mpr ⟨100, 401, rail_hiddenSpend inDefaultRing⟩

section FirstLeaf

variable {poseidon : Poseidon} {height : Nat} {leaf root : Fr} {path : Fin height → Fr}
  (hfirst : (List.ofFn path).head? = some zeroLeaf)
  (hempty : (List.ofFn path).IsChain fun below above => poseidon [below, below] = some above)

include hfirst hempty

theorem nodeAt_of_opens (hopens : Opens poseidon leaf 0 path root) :
    MerklePath.nodeAt (nodeHash poseidon) (Function.update (fun _ => zeroLeaf) 0 leaf) height 0 = some root := by
  have hpath : MerklePath.IsPath (nodeHash poseidon) (fun _ => zeroLeaf) 0 0 (List.ofFn path) := by
    obtain ⟨others, hothers⟩ := List.head?_eq_some_iff.mp hfirst
    rw [hothers] at hempty ⊢
    exact MerklePath.isPath_const (fun _ => rfl) hempty
  rw [← MerklePath.climb_update hpath List.length_ofFn (Nat.two_pow_pos height)]
  exact hopens.2

theorem isRootOf_singleton (hopens : Opens poseidon leaf 0 path root) : IsRootOf poseidon height [leaf] root := by
  have hleaves : (fun j => [leaf].getD j zeroLeaf) = Function.update (fun _ => zeroLeaf) 0 leaf := by
    funext j
    cases j with
    | zero => rfl
    | succ j => rfl
  refine ⟨Nat.one_le_two_pow, ?_⟩
  rw [hleaves]
  exact nodeAt_of_opens hfirst hempty hopens

theorem indexedTree_singleton {top : Fr} (htop : 0 < top.val) (hdigest : poseidon [0, top] = some leaf)
    (hopens : Opens poseidon leaf 0 path root) : IndexedTree poseidon top height [(0, top)] root := by
  refine ⟨⟨[0, top], ?_, rfl, rfl, [], .inl rfl, List.Perm.refl _⟩, _, ?_, nodeAt_of_opens hfirst hempty hopens⟩
  · simpa using htop
  · have hnone : LeavesOf poseidon [] fun _ => zeroLeaf := ⟨nofun, fun _ _ => rfl⟩
    exact hnone.snoc hdigest

end FirstLeaf

theorem trees_hiddenSpend : IsRootOf (.ofNatLog (hiddenSpendDigests false)) stateTreeHeight [107] 532 ∧
    IndexedTree (.ofNatLog (hiddenSpendDigests false)) (-1) nullifierTreeHeight [(0, -1)] 640 :=
  ⟨isRootOf_singleton rfl (by decide +kernel) ((opens_hiddenSpend false).1 ⟨0, Nat.succ_pos _⟩),
    indexedTree_singleton rfl (by decide +kernel) (by decide +kernel) (by decide +kernel) (opens_hiddenSpend false).2⟩

theorem spend_circuit_soundness_hidden :
    ∃ tree : Fin threeInTwoOut.nInputs → Fin inputTrees, ∀ i, (tree i).val = 0 ∧
      ∃ hash, utxoHashCircuit (.ofNatLog (hiddenSpendDigests false)) ((hiddenSpend false).inputs i).utxo
          ((hiddenSpend false).treeSlots (tree i)).id = some hash ∧
        Poseidon.ofNatLog (hiddenSpendDigests false) [hash, ((hiddenSpend false).inputs i).utxo.blinding,
          ((hiddenSpend false).inputs i).nullifierSecret] = some ((hiddenSpend false).nullifiers i) ∧
        (hiddenSpend false).nullifiers i ∉ [((0 : Fr), (-1 : Fr))].map Prod.fst := by
  obtain ⟨tree, htree, -, -, hnullifier, -⟩ := @spend_circuit_soundness (hiddenSpendEnv false)
    (Poseidon.collisionFree_ofNatLog _) (Poseidon.neverZero_ofNatLog _) _
    (.customAnonymous (hiddenSpend false)) (define_hiddenSpend false) (fun _ => [107]) (fun _ => -1)
    (fun _ => [(0, -1)]) (by
      intro i k hk
      have hzero : k = ⟨0, Nat.succ_pos _⟩ := by decide +kernel +revert
      rw [hzero]
      exact ⟨fun _ => trees_hiddenSpend.1, trees_hiddenSpend.2⟩)
  refine ⟨tree, fun i => ⟨?_, hnullifier i (by decide +kernel +revert)⟩⟩
  rw [(htree i).2]
  decide +kernel +revert

end Zolana
