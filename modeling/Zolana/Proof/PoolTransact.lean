import Zolana.Proof.PoolSpend

/-!
# An accepted transact

The inputs of a transact name their trees in any order. The counts, the PDAs and the published flags are
computed in separate places, and here they come together: the queue event of a declared tree has exactly
the nullifiers of the inputs that reference it, in input order.
-/

namespace Zolana

open Fallible

variable {HEIGHT K : Nat} {env : PoolEnv} {ledger ledger' : Ledger HEIGHT K}
variable {inputs : List InputUtxo}

/-! ### The inputs of a tree -/

theorem treeNullifiers_cons_self (input : InputUtxo) (inputs : List InputUtxo) :
    treeNullifiers (input :: inputs) input.treeIndex
      = input.nullifierHash :: treeNullifiers inputs input.treeIndex := by
  simp [treeNullifiers]

variable {treeIndex : Nat} {counts : List Nat} {queued : List QueuedInputs}
  {accounts : TransactAccounts} {ix : TransactIx} {clock : Clock} {flags : Bytes32}

theorem treeNullifiers_cons_of_ne {input : InputUtxo} (h : input.treeIndex ≠ treeIndex)
    (inputs : List InputUtxo) :
    treeNullifiers (input :: inputs) treeIndex = treeNullifiers inputs treeIndex := by
  simp [treeNullifiers, h]

theorem mem_treeNullifiers {nullifier : Bytes32} (h : nullifier ∈ treeNullifiers inputs treeIndex) :
    ∃ (i : Nat) (input : InputUtxo), inputs[i]? = some input ∧ input.treeIndex = treeIndex ∧
      input.nullifierHash = nullifier := by
  obtain ⟨input, hmem, rfl⟩ := List.mem_map.mp h
  obtain ⟨hinput, hindex⟩ := List.mem_filter.mp hmem
  obtain ⟨i, hi⟩ := List.mem_iff_getElem?.mp hinput
  exact ⟨i, input, hi, of_decide_eq_true hindex, rfl⟩

theorem map_snd_treeNullifierPdas {nullifierPdas : List Address}
    (h : nullifierPdas.length = inputs.length) (treeIndex : Nat) :
    (treeNullifierPdas nullifierPdas inputs treeIndex).map (·.2) = treeNullifiers inputs treeIndex := by
  induction inputs generalizing nullifierPdas with
  | nil => simp [treeNullifierPdas, treeNullifiers]
  | cons input inputs ih =>
      cases nullifierPdas with
      | nil => cases h
      | cons nullifierPda nullifierPdas =>
          have hrest := ih (Nat.succ.inj h)
          unfold treeNullifierPdas treeNullifiers at hrest ⊢
          rw [List.zip_cons_cons, List.filter_cons, List.filter_cons]
          by_cases hindex : input.treeIndex = treeIndex
          · simpa [hindex] using hrest
          · simpa [hindex] using hrest

theorem countInputs_eq_ok {counts' : List Nat} (h : countInputs counts inputs = .ok counts') :
    counts'.length = counts.length ∧
      ∀ j count, counts[j]? = some count →
        counts'[j]? = some (count + (treeNullifiers inputs j).length) := by
  induction inputs generalizing counts with
  | nil =>
      cases h
      exact ⟨rfl, fun j count hj => hj⟩
  | cons input inputs ih =>
      rw [countInputs] at h
      split at h
      case isFalse => cases h
      case isTrue hlt =>
        obtain ⟨hlength, hcounts⟩ := ih h
        refine ⟨hlength.trans (List.length_modify _ _ _), ?_⟩
        intro j count hj
        by_cases hindex : input.treeIndex = j
        · subst hindex
          rw [treeNullifiers_cons_self, List.length_cons]
          rw [hcounts input.treeIndex (count + 1) (by simp [hj])]
          congr 1
          omega
        · rw [treeNullifiers_cons_of_ne hindex]
          exact hcounts j count (by simp [hindex, hj])

theorem countInputs_of_validateInputTreeContexts {treeContexts : List TreeContext}
    (h : validateInputTreeContexts inputs treeContexts = .ok counts) :
    countInputs (List.replicate treeContexts.length 0) inputs = .ok counts ∧ 0 ∉ counts := by
  unfold validateInputTreeContexts at h
  obtain ⟨-, h⟩ := of_check_eq_ok h
  split at h
  case h_1 => cases h
  case h_2 hcount =>
    obtain ⟨hreferenced, h⟩ := of_check_eq_ok h
    cases h
    exact ⟨hcount, hreferenced⟩

theorem validateInputTreeContexts_eq_ok {treeContexts : List TreeContext}
    (h : validateInputTreeContexts inputs treeContexts = .ok counts) : counts.length = treeContexts.length ∧
      ∀ j < treeContexts.length, counts[j]? = some (treeNullifiers inputs j).length := by
  obtain ⟨hlength, hcounts⟩ := countInputs_eq_ok (countInputs_of_validateInputTreeContexts h).1
  refine ⟨hlength.trans (List.length_replicate ..), ?_⟩
  intro j hj
  rw [hcounts j 0 (by simp [hj]), Nat.zero_add]

theorem treeNullifiers_ne_nil {treeContexts : List TreeContext}
    (h : validateInputTreeContexts inputs treeContexts = .ok counts) {j : Nat}
    (hj : j < treeContexts.length) : treeNullifiers inputs j ≠ [] := by
  have hcount := (validateInputTreeContexts_eq_ok h).2 j hj
  intro hnil
  rw [hnil] at hcount
  exact (countInputs_of_validateInputTreeContexts h).2 (List.mem_of_getElem? hcount)

/-! ### The queue events -/

def queueEvents (inputs : List InputUtxo) : Nat → List Address → List QueuedInputs → List PoolEvent
  | treeIndex, tree :: trees, queued :: rest =>
    .queue ⟨tree, treeNullifiers inputs treeIndex, queued.slot, queued.allowDummyInputs⟩ ::
      queueEvents inputs (treeIndex + 1) trees rest
  | _, _, _ => []

variable {trees : List Address}

theorem mem_queueEvents {group : SpendGroup} (h : .queue group ∈ queueEvents inputs treeIndex trees queued) :
    ∃ i entry, queued[i]? = some entry ∧
      group.nullifiers = treeNullifiers inputs (treeIndex + i) ∧ group.slot = entry.slot ∧
      group.allowDummyInputs = entry.allowDummyInputs := by
  induction trees generalizing treeIndex queued with
  | nil => cases h
  | cons tree trees ih =>
      cases queued with
      | nil => cases h
      | cons entry queued =>
          rcases List.mem_cons.mp h with hhead | htail
          · cases hhead
            exact ⟨0, entry, rfl, rfl, rfl, rfl⟩
          · obtain ⟨i, found, hfound, hnullifiers, hrest⟩ := ih htail
            rw [show treeIndex + 1 + i = treeIndex + (i + 1) by omega] at hnullifiers
            exact ⟨i + 1, found, hfound, hnullifiers, hrest⟩

theorem submittedTo_queueEvents (address : Address) (treeIndex : Nat) (trees : List Address)
    (queued : List QueuedInputs) : submittedTo address (queueEvents inputs treeIndex trees queued) = [] := by
  induction trees generalizing treeIndex queued with
  | nil => rfl
  | cons tree trees ih =>
      cases queued with
      | nil => rfl
      | cons entry queued => exact ih (treeIndex + 1) queued

theorem queuedIn_queueEvents (hnodup : trees.Nodup) (hlength : queued.length = trees.length)
    (address : Address) : queuedIn address (queueEvents inputs treeIndex trees queued)
      = if address ∈ trees then treeNullifiers inputs (treeIndex + trees.idxOf address) else [] := by
  induction trees generalizing treeIndex queued with
  | nil => rfl
  | cons tree trees ih =>
      cases queued with
      | nil => cases hlength
      | cons entry queued =>
          obtain ⟨hnotMem, hrest⟩ := List.nodup_cons.mp hnodup
          rw [queuedIn, queueEvents, List.flatMap_cons, ← queuedIn,
            ih hrest (Nat.succ.inj hlength), PoolEvent.queued]
          by_cases htree : tree = address
          · subst htree
            simp [hnotMem]
          · have hne : address ≠ tree := fun h => htree h.symm
            simp only [htree, if_false, List.nil_append, List.mem_cons, hne, false_or]
            rw [List.idxOf_cons_ne _ htree]
            congr 2
            omega

theorem getElem?_eq_some_iff_of_nodup {address : Address} (hnodup : trees.Nodup)
    (hmem : address ∈ trees) (j : Nat) : trees[j]? = some address ↔ j = trees.idxOf address := by
  constructor
  · intro hj
    obtain ⟨hlt, hget⟩ := List.getElem?_eq_some_iff.mp hj
    rw [← hget, hnodup.idxOf_getElem]
  · rintro rfl
    exact List.getElem?_eq_some_iff.mpr ⟨List.idxOf_lt_length_iff.mpr hmem, List.getElem_idxOf _⟩

theorem ofTree_spends (hnodup : accounts.inputTrees.Nodup) (address : Address) :
    ofTree address (Instruction.spends (.transact accounts ix clock)) = if address ∈ accounts.inputTrees then
          treeNullifiers ix.inputs (accounts.inputTrees.idxOf address)
        else [] := by
  unfold Instruction.spends
  dsimp only
  induction ix.inputs with
  | nil => simp [ofTree, treeNullifiers]
  | cons input inputs ih =>
      rw [List.filterMap_cons]
      by_cases hmem : address ∈ accounts.inputTrees
      · rw [if_pos hmem] at ih ⊢
        have hiff := getElem?_eq_some_iff_of_nodup hnodup hmem input.treeIndex
        by_cases hindex : input.treeIndex = accounts.inputTrees.idxOf address
        · rw [hiff.mpr hindex, ← hindex, treeNullifiers_cons_self, hindex, ← ih]
          simp [ofTree]
        · rw [treeNullifiers_cons_of_ne hindex, ← ih]
          cases hget : accounts.inputTrees[input.treeIndex]? with
          | none => rfl
          | some tree =>
              have hne : tree ≠ address := by
                rintro rfl
                exact hindex (hiff.mp hget)
              simp [ofTree, hne]
      · rw [if_neg hmem] at ih ⊢
        cases hget : accounts.inputTrees[input.treeIndex]? with
        | none => simpa using ih
        | some tree =>
            have hne : tree ≠ address := by
              rintro rfl
              exact hmem (List.mem_of_getElem? hget)
            simpa [ofTree, hne] using ih

/-! ### The loop over the trees -/

theorem run_applyTrees_ok {payer : Address} {nullifierPdas : List Address}
    {trees : List (Address × TreeContext × Nat)} (hpdas : nullifierPdas.length = inputs.length)
    (hcounts : ∀ i tree, trees[i]? = some tree → tree.2.2 = (treeNullifiers inputs (treeIndex + i)).length)
    (h : (applyTrees env payer inputs nullifierPdas treeIndex trees).run ledger = .ok queued ledger') :
    queued.length = trees.length ∧
      PoolTrace env (2 ^ HEIGHT) ledger.spendView
        (queueEvents inputs treeIndex (trees.map (·.1)) queued) ledger'.spendView := by
  induction trees generalizing treeIndex queued ledger with
  | nil =>
      cases h
      exact ⟨rfl, .start⟩
  | cons entry trees ih =>
      obtain ⟨tree, context, count⟩ := entry
      obtain ⟨first, queuedLedger, hqueue, h⟩ := of_run_bind h
      obtain ⟨_, mid, hcreate, h⟩ := of_run_bind h
      obtain ⟨rest, _, hrest, hpure⟩ := of_run_bind h
      cases hpure
      have hstep := poolStep_queue (resolvesSlot_resolveInputTreeSlot context)
        (map_snd_treeNullifierPdas hpdas treeIndex) (hcounts 0 _ rfl) hqueue hcreate
      have hrestCounts : ∀ i tree, trees[i]? = some tree →
          tree.2.2 = (treeNullifiers inputs (treeIndex + 1 + i)).length := by
        intro i tree hi
        rw [show treeIndex + 1 + i = treeIndex + (i + 1) by omega]
        exact hcounts (i + 1) tree hi
      obtain ⟨hlength, htrace⟩ := ih hrestCounts hrest
      exact ⟨congrArg Nat.succ hlength, (PoolTrace.single hstep).append htrace⟩

theorem keeps_validateTransact (ix : TransactIx) : Keeps id (validateTransact ix : PoolM HEIGHT K Unit) := by
  apply Keeps.ite (.throw _)
  apply Keeps.bind (keeps_checkFieldElements _ _)
  intro _
  apply Keeps.bind (keeps_checkFieldElements _ _)
  intro _
  apply Keeps.bind (keeps_checkNonzeroFieldElements _ _)
  intro _
  exact Keeps.bind (keeps_checkNonzeroFieldElements _ _) fun _ => keeps_checkFieldElements _ _

section

variable (hvalid : validateInputTreeContexts ix.inputs ix.treeContexts = .ok counts)
  (h : (applyInputTrees env accounts ix counts).run ledger = .ok (queued, flags) ledger')

include hvalid h

/-- The loop runs over the declared trees, each with its context and its number of inputs. -/
theorem run_applyInputTrees_cases : ∃ trees : List (Address × TreeContext × Nat),
      trees.map (·.1) = accounts.inputTrees ∧
      (∀ (i : Nat) tree, trees[i]? = some tree → tree.2.2 = (treeNullifiers ix.inputs i).length) ∧
      accounts.nullifierPdas.length = ix.inputs.length ∧
      accounts.inputTrees.length = ix.treeContexts.length ∧
      (applyTrees env accounts.payer ix.inputs accounts.nullifierPdas 0 trees).run ledger = .ok queued ledger' ∧
      packInputFlags (queued.all (·.allowDummyInputs)) (ix.inputs.map (·.treeIndex)) = .ok flags := by
  unfold applyInputTrees at h
  obtain ⟨hpdas, h⟩ := of_run_check h
  obtain ⟨htrees, h⟩ := of_run_check h
  obtain ⟨queued', mid, happly, h⟩ := of_run_bind h
  obtain ⟨flags', _, hflags, hpure⟩ := of_run_bind h
  obtain ⟨hpack, rfl⟩ := run_mapErr_eq_ok_iff.mp hflags
  cases hpure
  obtain ⟨hcountsLength, hcounts⟩ := validateInputTreeContexts_eq_ok hvalid
  have hlengths := not_not.mp (not_or.mp htrees).1
  have hzip : (ix.treeContexts.zip counts).length = accounts.inputTrees.length := by
    rw [List.length_zip, hcountsLength, Nat.min_self, hlengths]
  refine ⟨_, List.map_fst_zip (Nat.le_of_eq hzip.symm), ?_, not_not.mp hpdas, hlengths, happly,
    hpack⟩
  intro i tree hi
  obtain ⟨_, hsnd⟩ := List.getElem?_zip_eq_some.mp hi
  obtain ⟨hcontext, hcount⟩ := List.getElem?_zip_eq_some.mp hsnd
  have hlt : i < ix.treeContexts.length := (List.getElem?_eq_some_iff.mp hcontext).1
  rw [hcounts i hlt] at hcount
  exact (Option.some.inj hcount).symm

theorem run_applyInputTrees_ok : queued.length = accounts.inputTrees.length ∧
      packInputFlags (queued.all (·.allowDummyInputs)) (ix.inputs.map (·.treeIndex)) = .ok flags ∧
      PoolTrace env (2 ^ HEIGHT) ledger.spendView
        (queueEvents ix.inputs 0 accounts.inputTrees queued) ledger'.spendView := by
  obtain ⟨trees, hfst, hcounts, hpdas, _, happly, hpack⟩ := run_applyInputTrees_cases hvalid h
  obtain ⟨hlength, htrace⟩ := run_applyTrees_ok hpdas (by
    intro i tree hi
    rw [Nat.zero_add]
    exact hcounts i tree hi) happly
  rw [hfst] at htrace
  rw [← List.length_map Prod.fst, hfst] at hlength
  exact ⟨hlength, hpack, htrace⟩

end

theorem justifies_transact {proofInputs : TransactProofInputs} {proof : List UInt8}
    (hverify : env.verifyTransact proofInputs proof = .ok ())
    (hnullifiers : proofInputs.nullifiers = inputs.map (·.nullifierHash))
    (hslots : proofInputs.treeSlots = queued.map (·.slot)) (hinputFlags : proofInputs.inputFlags = flags)
    (hpack : packInputFlags (queued.all (·.allowDummyInputs)) (inputs.map (·.treeIndex)) = .ok flags)
    {group : SpendGroup} (hgroup : .queue group ∈ queueEvents inputs 0 trees queued) :
    Justifies env (.transact proofInputs proof) group := by
  obtain ⟨j, entry, hentry, hgroupNullifiers, hslot, hallow⟩ := mem_queueEvents hgroup
  rw [Nat.zero_add] at hgroupNullifiers
  refine ⟨hverify, ?_, ?_⟩
  · intro nullifier hmem
    rw [hgroupNullifiers] at hmem
    obtain ⟨i, input, hinput, hindex, hnullifier⟩ := mem_treeNullifiers hmem
    have hpacked : (inputs.map (·.treeIndex))[i]? = some j := by
      rw [List.getElem?_map, hinput, ← hindex]
      rfl
    have hflag := inputFlagsTreeIndex_pack hpack hpacked
    refine ⟨i, ?_, ?_⟩
    · simp [hnullifiers, hinput, hnullifier]
    · rw [hinputFlags, hflag, hslots, List.getElem?_map, hentry, hslot]
      rfl
  · intro hallows
    rw [SpendProof.allowsDummyInputs, hinputFlags, inputFlagsAllowDummy_pack hpack] at hallows
    rw [hallow]
    exact List.all_eq_true.mp hallows entry (List.mem_of_getElem? hentry)

theorem run_processTransact_ok {event : SpendEvent} {proof : SpendProof}
    (h : (processTransact env accounts ix clock).run ledger = .ok (event, proof) ledger') :
    ∃ counts queued flags applied write fee appended proofInputs,
      validateInputTreeContexts ix.inputs ix.treeContexts = .ok counts ∧
      accounts.inputTrees.Nodup ∧
      (applyInputTrees env accounts ix counts).run ledger = .ok (queued, flags) applied ∧
      (applyOutputTree env.tree.hashv accounts.outputTree ix.outputs clock.slot
        (accounts.outputTree ∈ accounts.inputTrees)).run applied = .ok (write, fee) appended ∧
      (collectTreeFee accounts.payer accounts.outputTree fee).run appended = .ok () ledger' ∧
      proofInputs = (⟨ix.inputs.map (·.nullifierHash), ix.outputs, queued.map (·.slot),
        treeIdField write.outputTreeId, ix.privateTxHash, flags⟩ : TransactProofInputs) ∧
      env.verifyTransact proofInputs ix.proof = .ok () ∧
      event = ⟨queued.map fun tree => (tree.result.tree, tree.result.firstInputQueueSeq),
        accounts.outputTree, write.firstOutputLeafIndex⟩ ∧
      proof = .transact proofInputs ix.proof := by
  obtain ⟨_, _, hvalidate, h⟩ := of_run_bind h
  rw [(keeps_validateTransact ix).state_eq hvalidate] at h
  obtain ⟨counts, hcounts, h⟩ := of_run_mapErr_bind h
  obtain ⟨_, _, hexpiry, h⟩ := of_run_bind h
  rw [(keeps_checkNotExpired _ _).state_eq hexpiry] at h
  obtain ⟨hnodup, h⟩ := of_run_check h
  obtain ⟨⟨queued, flags⟩, applied, hinputs, h⟩ := of_run_bind h
  obtain ⟨⟨write, fee⟩, appended, houtput, h⟩ := of_run_bind h
  obtain ⟨_, collected, hfee, h⟩ := of_run_bind h
  obtain ⟨_, hverify, hpure⟩ := of_run_mapErr_bind h
  cases hpure
  exact ⟨counts, queued, flags, applied, write, fee, appended, _, hcounts, not_not.mp hnodup,
    hinputs, houtput, hfee, rfl, hverify, rfl, rfl⟩

theorem processTransact_simulates {event : SpendEvent} {proof : SpendProof}
    (h : (processTransact env accounts ix clock).run ledger = .ok (event, proof) ledger') :
    ∃ events, PoolTrace env (2 ^ HEIGHT) ledger.spendView events ledger'.spendView ∧
      (∀ address, queuedIn address events
        = ofTree address (Instruction.spends (.transact accounts ix clock))) ∧
      (∀ address, submittedTo address events = []) ∧
      ∀ group, .queue group ∈ events → Justifies env proof group := by
  obtain ⟨counts, queued, flags, applied, write, fee, appended, proofInputs, hcounts, htrees, hinputs,
    houtput, hfee, rfl, hverify, rfl, rfl⟩ := run_processTransact_ok h
  obtain ⟨hlength, hpack, htrace⟩ := run_applyInputTrees_ok hcounts hinputs
  have hview : ledger'.spendView = applied.spendView :=
    (lamportFree_spendView.collectTreeFee _ _ _ hfee).trans (keeps_applyOutputTree _ _ _ _ _ houtput)
  refine ⟨queueEvents ix.inputs 0 accounts.inputTrees queued, ?_, ?_, ?_, ?_⟩
  · rw [hview]
    exact htrace
  · intro address
    rw [queuedIn_queueEvents htrees hlength, ofTree_spends htrees, Nat.zero_add]
  · intro address
    exact submittedTo_queueEvents address 0 accounts.inputTrees queued
  · intro group hgroup
    exact justifies_transact hverify rfl rfl rfl hpack hgroup

end Zolana
