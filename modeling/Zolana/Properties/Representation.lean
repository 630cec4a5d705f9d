import Zolana.Proof.Cascade

/-!
# The queue and batch representation

What holds of the account alone in every reachable state, and what the stored hash chains stand for.
-/

namespace Zolana

open NullifierTreeLayout

variable {K Z : Nat} {env : Env} {run : Run K}

/-- The counters, states and arrays of one batch. -/
structure Batch.WellFormed (Z : Nat) (batch : Batch K) : Prop where
  numInserted_lt : batch.numInserted < Z
  applied_le_full : batch.numInsertedZkpBatches ≤ batch.numFullZkpBatches
  full_le : batch.numFullZkpBatches ≤ K
  valid : batch.tryGetState ≠ none
  inserted_iff : batch.tryGetState = some .inserted ↔ batch.numInsertedZkpBatches = K
  full_iff : batch.tryGetState = some .full ↔ batch.numFullZkpBatches = K ∧ batch.numInsertedZkpBatches < K
  cleared : ∀ j, j < batch.numInsertedZkpBatches → batch.hashChain j = some 0

/-- The account: both batches, their starts, and the two cursors with the indices they stand for. -/
structure NullifierTreeLayout.WellFormed (Z : Nat) (tree : NullifierTreeLayout K) : Prop where
  batches : ∀ i batch, tree.getBatch i = some batch → batch.WellFormed Z
  starts : ∀ first second, tree.getBatch 0 = some first → tree.getBatch 1 = some second →
    second.startIndex = first.startIndex + K * Z ∨ first.startIndex = second.startIndex + K * Z
  current : ∃ batch, tree.getBatch tree.currentlyProcessingBatchIndex = some batch ∧
    tree.queueNextIndex = if batch.tryGetState = some .fill then
        batch.startIndex + batch.numFullZkpBatches * Z + batch.numInserted
      else batch.startIndex + 2 * (K * Z)
  pending : ∃ batch, tree.getBatch tree.pendingBatchIndex = some batch ∧
    tree.nextIndex = if batch.tryGetState = some .inserted then batch.startIndex + 2 * (K * Z)
      else batch.startIndex + batch.numInsertedZkpBatches * Z
  next_le : tree.nextIndex ≤ tree.queueNextIndex
  queue_le : tree.queueNextIndex ≤ tree.capacity
  backlog_le : tree.queueNextIndex - tree.nextIndex ≤ 2 * (K * Z)
  cache : ∀ i batch j, i ≠ tree.pendingBatchIndex → tree.getBatch i = some batch →
    batch.cachedTreeUpdate j = none

theorem tryGetState_eq {batch : Batch K} {state : BatchState} (h : batch.state = state.toU64) :
    batch.tryGetState = some state := by
  cases state <;> simp [Batch.tryGetState, h, BatchState.toU64]

theorem Slice.tryGetState {queued : List Bytes32} {applied start : Nat} {batch : Batch K}
    (h : Slice env.hashv Z queued applied start batch) :
    batch.tryGetState = some (if batch.numInsertedZkpBatches = K then .inserted
      else if batch.numFullZkpBatches = K then .full else .fill) :=
  tryGetState_eq h.state

theorem Slice.wellFormed {queued : List Bytes32} {applied start : Nat} {batch : Batch K}
    (h : Slice env.hashv Z queued applied start batch) (happlied : applied ≤ queued.length) :
    batch.WellFormed Z := by
  have hstate := h.tryGetState
  have hle := h.numInsertedZkp_le_numFull happlied
  have hfull := h.numFull_le
  refine ⟨h.numInserted_lt, hle, hfull, ?_, ?_, ?_, h.cleared⟩
  · rw [hstate]
    simp
  · rw [hstate]
    by_cases hdone : batch.numInsertedZkpBatches = K
    · simp [hdone]
    · by_cases hlast : batch.numFullZkpBatches = K <;> simp [hdone, hlast]
  · rw [hstate]
    by_cases hdone : batch.numInsertedZkpBatches = K
    · simp [hdone]
    · have hlt : batch.numInsertedZkpBatches < K := by omega
      by_cases hlast : batch.numFullZkpBatches = K <;> simp [hlt, hdone, hlast]

theorem Consistent.wellFormed (h : Consistent env Z run) : run.tree.WellFormed Z := by
  obtain ⟨start, hqueue⟩ := h.queue
  have hwindow := hqueue.window
  have hK := h.K_pos
  have hnext := h.nextIndex
  have hqueueNext := h.queueNextIndex
  have happlied := hwindow.applied_le
  have hstart := hwindow.start_le
  have hqueued := hwindow.queued_le
  have hadjacent := hwindow.adjacent
  refine ⟨?_, ?_, ?_, ?_, by omega, h.queue_le, by omega, ?_⟩
  · intro i batch hbatch
    exact (hwindow.slice i batch hbatch).wellFormed happlied
  · intro first second hfirst hsecond
    rw [(hwindow.slice 0 first hfirst).startIndex, (hwindow.slice 1 second hsecond).startIndex]
    omega
  · obtain ⟨batch, hbatch⟩ := hqueue.exists_current
    have hslice := hwindow.slice _ batch hbatch
    refine ⟨batch, hbatch, ?_⟩
    rw [hqueueNext, hslice.startIndex]
    have hfilled := hslice.filled
    rcases hqueue.current_cases hK rfl hbatch with ⟨hlo, hhi, hstate⟩ | ⟨hend, _, hstate⟩ |
      ⟨hend, _, hstate⟩
    · rw [tryGetState_eq hstate, if_pos rfl]
      omega
    · rw [tryGetState_eq hstate, if_neg (by simp)]
      omega
    · rw [tryGetState_eq hstate, if_neg (by simp)]
      omega
  · obtain ⟨batch, hbatch⟩ := hqueue.exists_pending
    have hslice := hwindow.slice _ batch hbatch
    refine ⟨batch, hbatch, ?_⟩
    rw [hnext, hslice.startIndex]
    have hdrained := hslice.drained
    by_cases hdone : batch.numInsertedZkpBatches = K
    · have hinserted : batch.tryGetState = some .inserted := by
        rw [hslice.tryGetState, if_pos hdone]
      rw [if_pos hinserted]
      -- Inside the range some ZKP batch would be left.
      have hpast : ¬ run.applied.length * Z < start run.tree.pendingBatchIndex + K * Z := by
        intro hroom
        exact absurd (hslice.numInsertedZkp_lt hroom hK) (by omega)
      obtain ⟨_, hcursor⟩ := hqueue.pending
      omega
    · have hinserted : batch.tryGetState ≠ some .inserted := by
        rw [hslice.tryGetState, if_neg hdone]
        split <;> simp
      rw [if_neg hinserted]
      have hlt : batch.numInsertedZkpBatches < K := Nat.lt_of_le_of_ne hslice.numInsertedZkp_le hdone
      obtain ⟨_, _, hposition⟩ := hqueue.pending_position rfl hbatch hlt
      omega
  · intro i batch j hne hbatch
    by_contra hcached
    obtain ⟨update, hupdate⟩ := Option.ne_none_iff_exists'.mp hcached
    exact hne (hqueue.cache i batch j update hbatch hupdate).1

/-- A hash with the domain of the real one: the sum of one to twelve canonical inputs. -/
def Hashv.sum : Hashv := fun inputs =>
  if inputs = [] ∨ 12 < inputs.length then .error (.poseidonSyscall .invalidNumberOfInputs)
  else if inputs.all isCanonicalBn254ScalarBe then
    .ok (BitVec.ofNat 256 ((inputs.map BitVec.toNat).sum % bn254ScalarModulusBe.toNat))
  else .error (.poseidonSyscall .inputLargerThanModulus)

/-- An environment whose verifier accepts every proof. -/
def Env.lenient : Env := ⟨Hashv.sum, fun _ _ _ => .ok ()⟩

/-- The start of a run of a tree with two batches of two ZKP batches of two values. -/
def smallRun : Run 2 := ⟨initialised Nat.zero_lt_two 2 4, [], [], []⟩

theorem reachable_smallRun (env : Env) : Reachable env true 4 2 4 smallRun := .init rfl

/-- In every state reachable from `init` by insert and update calls, successful or failing, the account
is well formed. -/
theorem representation_invariant {testOnly : Bool} {batchSize height : Nat}
    (h : Reachable env testOnly batchSize Z height run) : batchSize = K * Z ∧ run.tree.WellFormed Z :=
  ⟨h.configuration.2.2, h.consistent.wellFormed⟩

/-- A proof from the initial root to 5 for the first ZKP batch of the small tree. -/
def firstUpdate : InstructionDataBatchNullifyInputs := ⟨5, nullifierTreeInitRoot40, 0, ⟨0, 0, 0⟩⟩

/-- Four values fill the first batch of the small tree, and the first half of it is applied. -/
def fullRun : Run 2 := smallRun.calls Env.lenient ([7, 9, 11, 13].map .insert ++ [.update 0 firstUpdate])

theorem reachable_fullRun : Reachable Env.lenient true 4 2 4 fullRun :=
  (reachable_smallRun Env.lenient).calls _

theorem representation_invariant_fullRun : fullRun.applied.length = 1 ∧ fullRun.tree.queueNextIndex = 5 ∧
    fullRun.tree.WellFormed 2 :=
  ⟨by decide +kernel, by decide +kernel, (representation_invariant reachable_fullRun).2⟩

/-- Whenever a ZKP batch is complete and not yet applied, its stored hash chain is the one of exactly
the values queued at its indices, in queue order. The queue index of a value is its position counted
from one. -/
theorem hash_chain_commitment {testOnly : Bool} {batchSize height : Nat}
    (h : Reachable env testOnly batchSize Z height run) :
    (∀ i batch j, run.tree.getBatch i = some batch → batch.numInsertedZkpBatches ≤ j →
      j < batch.numFullZkpBatches → ∃ start chain, batch.startIndex = start + 1 ∧
        batch.hashChain j = some chain ∧
        (queueWindow run.queued (start + j * Z) Z).length = Z ∧
        createHashChain4 env.hashv (queueWindow run.queued (start + j * Z) Z) = .ok chain) ∧
    (∀ value index tree, (insertNullifierIntoQueue env.hashv value).run run.tree = .ok index tree →
      index = run.queued.length + 1) := by
  have hconsistent := h.consistent
  obtain ⟨start, hqueue⟩ := hconsistent.queue
  constructor
  · intro i batch j hbatch hlo hhi
    have hslice := hqueue.window.slice i batch hbatch
    have hj : j < K := Nat.lt_of_lt_of_le hhi hslice.numFull_le
    refine ⟨start i, batch.hashChains[j], hslice.startIndex, Vector.getElem?_eq_getElem hj,
      length_queueWindow (hslice.window_le hhi), hslice.complete j hj hlo hhi⟩
  · intro value index tree hinsert
    rcases hconsistent.run_insert value with ⟨tree', hrun, _⟩ | ⟨e, _, hrun⟩
    · rw [hrun] at hinsert
      rw [← hconsistent.queueNextIndex]
      exact (EStateM.Result.ok.inj hinsert).1.symm
    · rw [hrun] at hinsert
      exact absurd hinsert (by simp)

theorem hash_chain_commitment_fullRun : ∃ batch, fullRun.tree.getBatch 0 = some batch ∧
    batch.numInsertedZkpBatches = 1 ∧ ∃ start chain, batch.startIndex = start + 1 ∧
      batch.hashChain 1 = some chain ∧
      (queueWindow fullRun.queued (start + 1 * 2) 2).length = 2 ∧
      createHashChain4 Env.lenient.hashv (queueWindow fullRun.queued (start + 1 * 2) 2) = .ok chain := by
  have hbatch : fullRun.tree.getBatch 0 = some (fullRun.tree.batches.get ⟨0, Nat.zero_lt_two⟩) := by
    decide +kernel
  exact ⟨_, hbatch, by decide +kernel,
    (hash_chain_commitment reachable_fullRun).1 0 _ 1 hbatch (by decide +kernel) (by decide +kernel)⟩

end Zolana
