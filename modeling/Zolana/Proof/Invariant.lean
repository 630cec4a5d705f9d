import Zolana.Lib.Ring
import Zolana.Proof.Window

/-!
# The invariant of a run

`Consistent` ties the account to the run: every counter, cursor, root slot and hash chain is a function
of the queued values and the applied updates, and what is cached or applied was verified for the queue
values it stands for.
-/

namespace Zolana

open Fallible NullifierTreeLayout

variable {K : Nat}

/-- The roots the tree has had, oldest first. -/
def rootLog (applied : List AppliedUpdate) : List Bytes32 :=
  nullifierTreeInitRoot40 :: applied.map AppliedUpdate.newRoot

/-- The close watermark after some number of applied ZKP batches: the start of the last queue batch
that is complete. -/
def watermark (K Z applied : Nat) : Nat :=
  if applied < K then 0 else (applied / K - 1) * (K * Z) + 1

/-- Some submitted proof was accepted for the values at `start`. -/
def Verified (env : Env) (Z : Nat) (queued : List Bytes32)
    (submitted : List InstructionDataBatchNullifyInputs) (zkpBatchIndex start : Nat)
    (oldRoot newRoot : Bytes32) : Prop :=
  ∃ data ∈ submitted, data.oldRoot = oldRoot ∧ data.newRoot = newRoot ∧
    data.zkpBatchIndex.toNat = zkpBatchIndex ∧
    env.Accepts oldRoot newRoot (queueWindow queued start Z) (start + 1) data.proof

/-- The `n`-th applied update is the one of ZKP batch `n` of the queue. -/
structure AppliedAt (env : Env) (K Z : Nat) (queued : List Bytes32)
    (submitted : List InstructionDataBatchNullifyInputs) (roots : List Bytes32) (n : Nat)
    (update : AppliedUpdate) : Prop where
  batchIndex : update.batchIndex = n / K % 2
  zkpBatchIndex : update.zkpBatchIndex = n % K
  oldNextIndex : update.oldNextIndex = n * Z + 1
  sequenceNumber : update.sequenceNumber = n + 1
  rootIndex : update.rootIndex = (n + 1) % K
  window_le : n * Z + Z ≤ queued.length
  oldRoot : roots[n]? = some update.oldRoot
  verified : Verified env Z queued submitted (n % K) (n * Z) update.oldRoot update.newRoot

structure Queue (env : Env) (Z : Nat) (queued : List Bytes32)
    (submitted : List InstructionDataBatchNullifyInputs) (applied : Nat) (start : Nat → Nat)
    (tree : NullifierTreeLayout K) : Prop where
  window : Window env.hashv Z queued applied start tree.batches
  current : Cursor (K * Z) start queued.length tree.currentlyProcessingBatchIndex
  pending : Cursor (K * Z) start applied tree.pendingBatchIndex
  cache : ∀ i batch j update, tree.batches[i]? = some batch →
    batch.cachedTreeUpdate j = some update →
    i = tree.pendingBatchIndex ∧ batch.numInsertedZkpBatches ≤ j ∧ j < batch.numFullZkpBatches ∧
      Verified env Z queued submitted j (start i + j * Z) update.oldRoot update.newRoot

structure Consistent (env : Env) (Z : Nat) (run : Run K) : Prop where
  K_pos : 0 < K
  batchSize : run.tree.batchSize = K * Z
  zkpBatchSize : run.tree.zkpBatchSize = Z
  capacity_lt : run.tree.capacity < 2 ^ 64
  queueNextIndex : run.tree.queueNextIndex = run.queued.length + 1
  queue_le : run.tree.queueNextIndex ≤ run.tree.capacity
  nextIndex : run.tree.nextIndex = run.applied.length * Z + 1
  sequenceNumber : run.tree.sequenceNumber = run.applied.length
  canonical : ∀ value ∈ run.queued, isCanonicalBn254ScalarBe value = true
  roots : Ring.Holds 0 run.tree.rootHistory.roots (rootLog run.applied)
  currentIndex : run.tree.rootHistory.currentIndex = (run.applied.length + 1) % K
  closeBeforeIndex : run.tree.closeBeforeIndex = watermark K Z run.applied.length
  log : ∀ n update, run.applied[n]? = some update →
    AppliedAt env K Z run.queued run.submitted (rootLog run.applied) n update
  queue : ∃ start, Queue env Z run.queued run.submitted (run.applied.length * Z) start run.tree

/-! ### Growth -/

theorem length_rootLog (applied : List AppliedUpdate) : (rootLog applied).length = applied.length + 1 := by
  simp [rootLog]

theorem rootLog_snoc (applied : List AppliedUpdate) (update : AppliedUpdate) :
    rootLog (applied ++ [update]) = rootLog applied ++ [update.newRoot] := by
  simp [rootLog]

namespace Verified

variable {env : Env} {Z : Nat} {queued : List Bytes32}
  {submitted : List InstructionDataBatchNullifyInputs} {zkpBatchIndex start : Nat}
  {oldRoot newRoot : Bytes32}

section

variable (h : Verified env Z queued submitted zkpBatchIndex start oldRoot newRoot)

include h

theorem insert (value : Bytes32) (hle : start + Z ≤ queued.length) :
    Verified env Z (queued ++ [value]) submitted zkpBatchIndex start oldRoot newRoot := by
  rw [Verified, queueWindow_append [value] hle]
  exact h

theorem submit (data : InstructionDataBatchNullifyInputs) :
    Verified env Z queued (submitted ++ [data]) zkpBatchIndex start oldRoot newRoot := by
  obtain ⟨witness, hmem, hrest⟩ := h
  exact ⟨witness, List.mem_append_left [data] hmem, hrest⟩

/-- The instruction carries the ZKP batch index as a `u16`. -/
theorem index_lt : zkpBatchIndex < 2 ^ 16 := by
  obtain ⟨data, _, _, _, hindex, _⟩ := h
  rw [← hindex]
  exact data.zkpBatchIndex.toNat_lt

end

end Verified

namespace Queue

variable {env : Env} {Z applied : Nat} {queued : List Bytes32}
  {submitted : List InstructionDataBatchNullifyInputs} {start : Nat → Nat}
  {tree : NullifierTreeLayout K}

theorem exists_current (h : Queue env Z queued submitted applied start tree) :
    ∃ batch, tree.getBatch tree.currentlyProcessingBatchIndex = some batch :=
  exists_batch tree.batches h.current.1

theorem exists_pending (h : Queue env Z queued submitted applied start tree) :
    ∃ batch, tree.getBatch tree.pendingBatchIndex = some batch :=
  exists_batch tree.batches h.pending.1

end Queue

/-! ### The start of a run -/

theorem cachedTreeUpdate_replicate (batch : Batch K) (j : Nat)
    (h : batch.cachedTreeUpdates = Vector.replicate K .zeroed) : batch.cachedTreeUpdate j = none := by
  rw [Batch.cachedTreeUpdate, h]
  by_cases hj : j < K
  · simp [hj, CachedTreeUpdate.isOccupied, CachedTreeUpdate.zeroed]
  · rw [Vector.getElem?_eq_none (by omega)]
    rfl

variable {zkpBatchSize height : Nat}

theorem validateConfiguration_eq_ok {batchSize : Nat}
    (h : validateConfiguration K batchSize zkpBatchSize = .ok ()) :
    0 < K ∧ 0 < zkpBatchSize ∧ batchSize = K * zkpBatchSize := by
  unfold validateConfiguration at h
  split at h
  case isTrue => exact absurd h (by simp)
  case isFalse hdivides =>
    obtain ⟨hbatch, hzkp, hmod⟩ := by simpa only [not_or, not_not] using hdivides
    split at h
    case isTrue => exact absurd h (by simp)
    case isFalse hcount =>
      have hcount' : batchSize / zkpBatchSize = K := not_not.mp hcount
      have hmul := Nat.div_mul_cancel (Nat.dvd_of_mod_eq_zero hmod)
      rw [hcount'] at hmul
      refine ⟨?_, by omega, hmul.symm⟩
      rcases Nat.eq_zero_or_pos K with hzero | hpos
      · rw [hzero, Nat.zero_mul] at hmul
        exact absurd hmul.symm hbatch
      · exact hpos

def initialised (hK : 0 < K) (zkpBatchSize height : Nat) : NullifierTreeLayout K where
  sequenceNumber := 0
  nextIndex := 1
  height := height
  currentlyProcessingBatchIndex := 0
  capacity := 2 ^ height
  batchSize := K * zkpBatchSize
  zkpBatchSize := zkpBatchSize
  pendingBatchIndex := 0
  queueNextIndex := 1
  closeBeforeIndex := 0
  rootHistory := ⟨1 % K, (Vector.replicate K 0).set 0 nullifierTreeInitRoot40⟩
  batches := #v[
    (Batch.zeroed K).init (K * zkpBatchSize) zkpBatchSize 1,
    (Batch.zeroed K).init (K * zkpBatchSize) zkpBatchSize (1 + K * zkpBatchSize)]

theorem run_init {testOnly : Bool} {batchSize : Nat} {tree : NullifierTreeLayout K}
    (h : (init testOnly batchSize zkpBatchSize height).run (zeroed K) = .ok () tree) :
    ∃ hK : 0 < K, 0 < zkpBatchSize ∧ batchSize = K * zkpBatchSize ∧ height < 64 ∧
      tree = initialised hK zkpBatchSize height := by
  cases hconfiguration : validateConfiguration K batchSize zkpBatchSize with
  | error e => simp [init, hconfiguration] at h
  | ok u =>
      obtain ⟨hK, hZ, rfl⟩ := validateConfiguration_eq_ok hconfiguration
      refine ⟨hK, hZ, rfl, ?_⟩
      cases hshift : checkedShl height with
      | none => simp [init, hconfiguration, hshift] at h
      | some capacity =>
          obtain ⟨hheight, rfl⟩ := checkedShl_eq_some_iff.mp hshift
          refine ⟨hheight, ?_⟩
          by_cases htest : testOnly = false ∧ height ≠ 40
          · simp [init, hconfiguration, hshift, htest] at h
          · cases hsecond : checkedAdd 1 (K * zkpBatchSize) with
            | none => simp [init, hconfiguration, hshift, htest, hsecond] at h
            | some second =>
                obtain ⟨_, rfl⟩ := checkedAdd_eq_some_iff.mp hsecond
                simp [init, hconfiguration, hshift, htest, hsecond, hK] at h
                rw [← h]
                rfl

theorem holds_initial (hK : 0 < K) :
    Ring.Holds 0 ((Vector.replicate K 0).set 0 nullifierTreeInitRoot40) (rootLog []) := by
  have hslot : ([] : List Bytes32).length % K < K := Nat.mod_lt 0 hK
  have hpush := (Ring.Holds.nil (N := K) (0 : Bytes32)).push nullifierTreeInitRoot40 hslot
  simpa [rootLog] using hpush

theorem slice_initial (hashv : Hashv) (hK : 0 < K) (hZ : 0 < zkpBatchSize) (start : Nat) :
    Slice hashv zkpBatchSize [] 0 start
      ((Batch.zeroed K).init (K * zkpBatchSize) zkpBatchSize (start + 1)) := by
  have hne : ¬ 0 = K := by omega
  refine ⟨rfl, rfl, rfl, hZ, ?_, ?_, ?_, ?_, ?_, ?_⟩
  · simp [Batch.init, Batch.reset]
  · simp [Batch.init, Batch.reset]
  · simp [Batch.init, Batch.reset, hne]
  · intro j hj
    exact absurd hj (Nat.not_lt_zero j)
  · intro j _ _ hfull
    exact absurd hfull (Nat.not_lt_zero j)
  · intro _ hnum
    exact absurd rfl hnum

theorem batches_initial {i : Nat} (hK : 0 < K) {batch : Batch K}
    (h : (initialised hK zkpBatchSize height).batches[i]? = some batch) :
    i < 2 ∧ batch = (Batch.zeroed K).init (K * zkpBatchSize) zkpBatchSize
      (i * (K * zkpBatchSize) + 1) := by
  have hi := index_lt h
  refine ⟨hi, ?_⟩
  rcases Nat.lt_or_ge i 1 with hzero | hone
  · obtain rfl : i = 0 := by omega
    rw [Nat.zero_mul, Nat.zero_add]
    exact (Option.some.inj h).symm
  · obtain rfl : i = 1 := by omega
    rw [Nat.one_mul, Nat.add_comm]
    exact (Option.some.inj h).symm

theorem queue_initial (env : Env) (height : Nat) (hK : 0 < K) (hZ : 0 < zkpBatchSize) :
    Queue env zkpBatchSize [] [] 0 (fun i => i * (K * zkpBatchSize))
      (initialised hK zkpBatchSize height) := by
  have hpos : 0 < K * zkpBatchSize := Nat.mul_pos hK hZ
  have hcursor : Cursor (K * zkpBatchSize) (fun i => i * (K * zkpBatchSize)) 0 0 :=
    ⟨by omega, .inl (by simp [hpos])⟩
  refine ⟨⟨?_, ?_, .inl (by simp), by simp, Nat.le_refl 0, by simp⟩, hcursor, hcursor, ?_⟩
  · intro i batch hbatch
    obtain ⟨_, rfl⟩ := batches_initial hK hbatch
    exact slice_initial env.hashv hK hZ (i * (K * zkpBatchSize))
  · intro i _
    exact ⟨0, by simp⟩
  · intro i batch j update hbatch hupdate
    obtain ⟨_, rfl⟩ := batches_initial hK hbatch
    rw [cachedTreeUpdate_replicate _ j rfl] at hupdate
    exact absurd hupdate (by simp)

theorem consistent_initial (env : Env) (hK : 0 < K) (hZ : 0 < zkpBatchSize) (hheight : height < 64) :
    Consistent env zkpBatchSize ⟨initialised hK zkpBatchSize height, [], [], []⟩ where
  K_pos := hK
  batchSize := rfl
  zkpBatchSize := rfl
  capacity_lt := Nat.pow_lt_pow_right (by decide) hheight
  queueNextIndex := rfl
  queue_le := Nat.one_le_two_pow
  nextIndex := by simp [initialised]
  sequenceNumber := rfl
  canonical := by simp
  roots := holds_initial hK
  currentIndex := rfl
  closeBeforeIndex := by simp [watermark, hK, initialised]
  log := by simp
  queue := ⟨fun i => i * (K * zkpBatchSize), by
    simpa using queue_initial env height hK hZ⟩

end Zolana
