import Zolana.Proof.PoolReserve
import Zolana.Properties.DoubleSpend

/-!
# Capacity reserved for real spends

A UTXO tree has at most `2 ^ 32` leaves, so at most as many real nullifiers of a tree exist. Over any run
the nullifier tree keeps room for those of them that are not queued yet, however many dummy or address
nullifiers were queued, in this tree or together with this tree's.
-/

namespace Zolana

variable {K : Nat} {env : PoolEnv} {run : PoolRun 32 K}

/-- A verified proof that publishes no dummy inputs proves that each of its nullifiers belongs to a real
UTXO of the tree in its slot, which the slot names by the tree's id. -/
def PoolRun.RealInputs (env : PoolEnv) (real : Bytes32 → Bytes32 → Bool) (run : PoolRun 32 K) : Prop :=
  ∀ proof ∈ run.verified, env.Verifies proof → proof.allowsDummyInputs = false →
    ∀ nullifier slot, proof.Input nullifier slot → real slot.id nullifier = true

/-- The number of real nullifiers queued in a tree. -/
def PoolRun.realQueued (real : Bytes32 → Bytes32 → Bool) (run : PoolRun 32 K) (address : Address)
    (tree : TreeAccountLayout 32 K) : Nat :=
  (ofTree address run.accepted).countP (real (treeIdField tree.treeId))

/-- A tree has at most one real nullifier for each leaf of its UTXO tree. -/
def RealBounded (real : Bytes32 → Bytes32 → Bool) : Prop :=
  ∀ (treeId : UInt16) (values : List Bytes32), values.Nodup →
    (∀ value ∈ values, real (treeIdField treeId) value = true) → values.length ≤ 2 ^ 32

/-- An instruction that spends real nullifiers only, none of them spent before. -/
structure PoolRun.SpendsReal (real : Bytes32 → Bytes32 → Bool) (run : PoolRun 32 K)
    (instruction : Instruction) : Prop where
  spends : instruction.spends ≠ []
  nodup : instruction.spends.Nodup
  unspent : ∀ entry ∈ instruction.spends, entry ∉ run.accepted
  real : ∀ entry ∈ instruction.spends, ∀ tree, run.ledger.tree entry.1 = some tree →
    real (treeIdField tree.treeId) entry.2 = true

section Room

variable {real : Bytes32 → Bytes32 → Bool} {address : Address} {tree : TreeAccountLayout 32 K}

theorem PoolFollows.realInputs {genesis : Ledger 32 K} {events : List PoolEvent} {reserve : Nat}
    (h : PoolFollows env reserve genesis.spendView run.ledger.spendView events run.accepted
      run.submitted run.verified) (hreal : run.RealInputs env real) (group : SpendGroup)
    (hgroup : .queue group ∈ events) : group.allowDummyInputs = true ∨
      ∀ nullifier ∈ group.nullifiers, real group.slot.id nullifier = true := by
  obtain ⟨proof, hproof, hjustifies⟩ := h.justified group hgroup
  cases hallows : proof.allowsDummyInputs with
  | true => exact .inl (hjustifies.allow hallows)
  | false =>
      refine .inr fun nullifier hmem => ?_
      exact hreal proof hproof hjustifies.verifies hallows nullifier group.slot
        (hjustifies.input nullifier hmem)

theorem PoolReachable.reserve_le (h : PoolReachable env run) (hreal : run.RealInputs env real)
    (htree : run.ledger.tree address = some tree) : tree.nullifier.queueNextIndex ≤ tree.nullifier.capacity ∧
      2 ^ 32 ≤ run.realQueued real address tree +
        (tree.nullifier.capacity - tree.nullifier.queueNextIndex) := by
  obtain ⟨genesis, events, hgenesis, hfollows⟩ := h.follows
  have hside : run.ledger.spendView.side address = some tree.side := by
    simp [Ledger.spendView, htree]
  have hbound := hfollows.trace.reserve_le hgenesis.initialView (by norm_num) (hfollows.realInputs hreal)
    hside
  rw [hfollows.queued] at hbound
  have hconsistent := hfollows.trace.consistent hgenesis.initialView
  exact ⟨(hconsistent.queueNextIndex hside).2, hbound⟩

theorem PoolRun.SpendsReal.realQueued_add_le {instruction : Instruction}
    (hspends : run.SpendsReal real instruction) (hbounded : RealBounded real)
    (hnodup : (ofTree address run.accepted).Nodup) (htree : run.ledger.tree address = some tree) :
    run.realQueued real address tree + (ofTree address instruction.spends).length ≤ 2 ^ 32 := by
  let queued := (ofTree address run.accepted).filter (real (treeIdField tree.treeId))
  have hnew : (ofTree address instruction.spends).Nodup := by
    refine List.Nodup.map_on ?_ (hspends.nodup.filter _)
    intro entry hentry entry' hentry' heq
    have haddress := of_decide_eq_true (List.mem_filter.mp hentry).2
    have haddress' := of_decide_eq_true (List.mem_filter.mp hentry').2
    exact Prod.ext (haddress.trans haddress'.symm) heq
  have hall : (queued ++ ofTree address instruction.spends).Nodup := by
    refine List.Nodup.append (hnodup.filter _) hnew ?_
    intro nullifier hold hspent
    exact hspends.unspent _ (mem_ofTree.mp hspent) (mem_ofTree.mp (List.mem_filter.mp hold).1)
  have hlength := hbounded tree.treeId _ hall fun nullifier hmem => by
    rcases List.mem_append.mp hmem with hold | hspent
    · exact (List.mem_filter.mp hold).2
    · exact hspends.real _ (mem_ofTree.mp hspent) tree htree
  rwa [List.length_append, ← List.countP_eq_length_filter] at hlength

theorem PoolReachable.fits {commits : Bytes32 → Set Bytes32} {instruction : Instruction}
    (h : PoolReachable env run) (hreal : run.RealInputs env real)
    (hbatch : run.BatchProofsSound env commits) (hspend : run.SpendProofsSound env commits)
    (hbounded : RealBounded real) (hspends : run.SpendsReal real instruction) :
    instruction.Fits env run.ledger.spendView := by
  intro address side hside
  obtain ⟨tree, htree, rfl⟩ := Option.map_eq_some_iff.mp hside
  obtain ⟨genesis, events, hgenesis, hfollows⟩ := h.follows
  obtain ⟨applied, hconsistent⟩ :=
    (hfollows.trace.consistent hgenesis.initialView).consistent address tree.side hside
  obtain ⟨hqueue, hreserve⟩ := h.reserve_le hreal htree
  have hroom := hspends.realQueued_add_le hbounded (h.nodup_ofTree hbatch hspend address) htree
  refine ⟨⟨_, _, applied, _, hconsistent⟩, ?_⟩
  change tree.nullifier.queueNextIndex + _ ≤ tree.nullifier.capacity
  omega

end Room

/-- Every tree keeps room for the real nullifiers not queued yet, and so a spend of such nullifiers is
never refused because a nullifier tree is full. -/
theorem real_spends_have_room {real : Bytes32 → Bytes32 → Bool} (h : PoolReachable env run)
    (hreal : run.RealInputs env real) :
    (∀ address tree, run.ledger.tree address = some tree →
      tree.nullifier.queueNextIndex ≤ tree.nullifier.capacity ∧
        2 ^ 32 ≤ run.realQueued real address tree +
          (tree.nullifier.capacity - tree.nullifier.queueNextIndex)) ∧
      ∀ (commits : Bytes32 → Set Bytes32) (instruction : Instruction),
        run.BatchProofsSound env commits → run.SpendProofsSound env commits → RealBounded real →
        run.SpendsReal real instruction →
        ∀ e after, (process env instruction).run run.ledger = .error e after →
          e ≠ .causedBy .nullifierTreeUpdateFailed .treeIsFull := by
  refine ⟨fun address tree htree => h.reserve_le hreal htree, ?_⟩
  intro commits instruction hbatch hspend hbounded hspends e after herror
  exact raisesFrom_process hspends.spends (h.fits hreal hbatch hspend hbounded hspends) herror

/-- Real nullifiers of the sample tree: the twenty of the run and one more. -/
def sampleReal (id nullifier : Bytes32) : Bool :=
  id = treeIdField 3 ∧ nullifier ∈ 21 :: (firstTen ++ secondTen)

theorem realBounded_sampleReal : RealBounded sampleReal := by
  intro treeId values hnodup hreal
  have hsubset : values ⊆ 21 :: (firstTen ++ secondTen) := fun value hmem =>
    (of_decide_eq_true (hreal value hmem)).2
  exact Nat.le_trans (List.subperm_of_subset hnodup hsubset).length_le (by decide)

theorem realInputs_sampleRun : sampleRun.RealInputs sampleEnv sampleReal := by
  have hallow : sampleRun.verified.all SpendProof.allowsDummyInputs = true := by decide +kernel
  intro proof hproof _ hnone
  rw [List.all_eq_true.mp hallow proof hproof] at hnone
  cases hnone

theorem spendsReal_sampleRun : sampleRun.SpendsReal sampleReal (sampleTransact [21]) where
  spends := by decide
  nodup := by decide
  unspent entry hentry := by
    rw [accepted_sampleRun]
    obtain rfl := List.mem_singleton.mp hentry
    decide
  real entry hentry tree htree := by
    obtain rfl := List.mem_singleton.mp hentry
    have hid : (sampleRun.ledger.tree 1).map (·.treeId) = some 3 := by decide +kernel
    rw [show sampleRun.ledger.tree 1 = some tree from htree] at hid
    rw [show tree.treeId = 3 from Option.some.inj hid]
    decide

theorem real_spends_have_room_sampleRun :
    (∀ address tree, sampleRun.ledger.tree address = some tree →
      tree.nullifier.queueNextIndex ≤ tree.nullifier.capacity ∧
        2 ^ 32 ≤ sampleRun.realQueued sampleReal address tree +
          (tree.nullifier.capacity - tree.nullifier.queueNextIndex)) ∧
      ∀ e after, (process sampleEnv (sampleTransact [21])).run sampleRun.ledger = .error e after →
        e ≠ .causedBy .nullifierTreeUpdateFailed .treeIsFull := by
  obtain ⟨hreserve, herror⟩ := real_spends_have_room reachable_sampleRun realInputs_sampleRun
  exact ⟨hreserve, herror sampleCommits (sampleTransact [21]) batchProofsSound_sampleRun
    spendProofsSound_sampleRun realBounded_sampleReal spendsReal_sampleRun⟩

end Zolana
