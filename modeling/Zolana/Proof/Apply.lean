import Zolana.Proof.Cache

/-!
# Applying cached updates keeps the invariant

One iteration of the apply loop applies the update in the slot of the next ZKP batch, or ends the loop.
It never fails: the leaves it appends are queued already, so the tree has room for them. Once the last
ZKP batch of a queue batch is applied no update is cached anywhere, so a cascade ends with it.
-/

namespace Zolana

open Fallible NullifierTreeLayout

variable {K Z : Nat} {env : Env} {queued : List Bytes32}
  {submitted : List InstructionDataBatchNullifyInputs} {applied start' : Nat} {start : Nat → Nat}
  {tree : NullifierTreeLayout K} {batch : Batch K} {run : Run K}

/-! ### The two halves of an iteration -/

def advanced (tree : NullifierTreeLayout K) (newRoot : Bytes32)
    (hslot : tree.rootHistory.currentIndex < K) : NullifierTreeLayout K :=
  { tree with
    nextIndex := tree.nextIndex + tree.zkpBatchSize
    sequenceNumber := tree.sequenceNumber + 1
    rootHistory := ⟨(tree.rootHistory.currentIndex + 1) % K,
      tree.rootHistory.roots.set tree.rootHistory.currentIndex newRoot⟩ }

theorem run_advanceTree (newRoot : Bytes32)
    (hroom : tree.nextIndex + tree.zkpBatchSize ≤ tree.capacity) (hcapacity : tree.capacity < 2 ^ 64)
    (hsequence : tree.sequenceNumber + 1 < 2 ^ 64) (hslot : tree.rootHistory.currentIndex < K) :
    (advanceTree newRoot).run tree = .ok () (advanced tree newRoot hslot) := by
  have hfull : tree.treeIsFull tree.zkpBatchSize = false := by
    rw [treeIsFull, checkedAdd_of_lt (by omega)]
    exact decide_eq_false (by omega)
  have hnext : (addU64 tree.nextIndex tree.zkpBatchSize).run tree
      = .ok (tree.nextIndex + tree.zkpBatchSize) tree := run_addU64 (by omega)
  have hadd : ∀ s : NullifierTreeLayout K, (addU64 tree.sequenceNumber 1).run s
      = .ok (tree.sequenceNumber + 1) s := fun s => run_addU64 hsequence
  simp [advanceTree, checkTreeIsFull, hfull, incrementMerkleTreeNextIndex, hnext, hadd, appendRoot,
    hslot, advanced]

theorem run_advanceNullifierPdaCloseWatermark (state : BatchState)
    (hbatch : tree.getBatch tree.pendingBatchIndex = some batch) :
    (advanceNullifierPdaCloseWatermark state).run tree = .ok () { tree with
      closeBeforeIndex :=
        if state = .inserted then max tree.closeBeforeIndex batch.startIndex
        else tree.closeBeforeIndex } := by
  have hget : getPendingBatch.run tree = .ok batch tree := run_getPendingBatch hbatch
  by_cases hinserted : state = .inserted
  · simp [advanceNullifierPdaCloseWatermark, hinserted, hget]
  · simp [advanceNullifierPdaCloseWatermark, hinserted]

def marked (tree : NullifierTreeLayout K) (batch : Batch K)
    (hslot : batch.numInsertedZkpBatches < K) : NullifierTreeLayout K :=
  { tree.setBatch tree.pendingBatchIndex (batch.withApplied hslot) with
    closeBeforeIndex :=
      if batch.numInsertedZkpBatches + 1 = K then max tree.closeBeforeIndex batch.startIndex
      else tree.closeBeforeIndex
    pendingBatchIndex :=
      if batch.numInsertedZkpBatches + 1 = K then (tree.pendingBatchIndex + 1) % 2
      else tree.pendingBatchIndex }

theorem run_markApplied (hslice : Slice env.hashv Z queued applied start' batch)
    (hbatch : tree.getBatch tree.pendingBatchIndex = some batch)
    (hready : batch.numInsertedZkpBatches < batch.numFullZkpBatches)
    (hslot : batch.numInsertedZkpBatches < K) (hbound : batch.numFullZkpBatches < 2 ^ 64) :
    (markApplied batch.numInsertedZkpBatches).run tree = .ok () (marked tree batch hslot) := by
  have hnum := hslice.getNumZkpBatches
  have hfull := hslice.numFull_le
  have hstate : batch.state
      = (if batch.numFullZkpBatches = K then BatchState.full else BatchState.fill).toU64 := by
    rw [hslice.state, if_neg (by omega)]
  have hpending : (if batch.numFullZkpBatches = K then BatchState.full else BatchState.fill)
      ≠ .inserted := by
    split <;> decide
  have hlast : batch.numInsertedZkpBatches + 1 = batch.getNumZkpBatches →
      (if batch.numFullZkpBatches = K then BatchState.full else BatchState.fill) = .full := by
    intro hcomplete
    rw [hnum] at hcomplete
    rw [if_pos (by omega)]
  have happlied := Batch.run_applied hstate hpending hready hlast (by omega) hslot
  have hget := getBatch_setBatch hbatch (batch.withApplied hslot)
  rw [markApplied, run_bind_of_ok (run_withPendingBatch_ok hbatch happlied),
    run_bind_of_ok (run_advanceNullifierPdaCloseWatermark _ hget), hnum]
  have hstart : (batch.withApplied hslot).startIndex = batch.startIndex := rfl
  by_cases hcomplete : batch.numInsertedZkpBatches + 1 = K
  · simp [hcomplete, hstart, incrementPendingBatchIndexIfInserted, marked, numBatches, setBatch]
  · simp [hcomplete, hpending, incrementPendingBatchIndexIfInserted, marked, setBatch]

/-! ### The queue -/

/-- No update is cached. -/
def Idle (tree : NullifierTreeLayout K) : Prop :=
  ∀ (i : Nat) (batch : Batch K) (j : Nat), tree.batches[i]? = some batch →
    batch.cachedTreeUpdate j = none

namespace Queue

theorem pending_position (h : Queue env Z queued submitted applied start tree) {p : Nat}
    (hp : tree.pendingBatchIndex = p) (hbatch : tree.getBatch p = some batch)
    (hslot : batch.numInsertedZkpBatches < K) : start p ≤ applied ∧ applied < start p + K * Z ∧
      applied = start p + batch.numInsertedZkpBatches * Z := by
  have hslice := h.window.slice p batch hbatch
  obtain ⟨_, hcursor⟩ := h.pending
  rw [hp] at hcursor
  have hinside : ¬ start p + K * Z ≤ applied := by
    intro hpast
    exact absurd (hslice.numInsertedZkp_eq hpast) (by omega)
  have hdrained := hslice.drained
  omega

theorem position {n : Nat} (h : Queue env Z queued submitted (n * Z) start tree)
    (hbatch : tree.getBatch tree.pendingBatchIndex = some batch) (hslot : batch.numInsertedZkpBatches < K) :
    ∃ turn, start tree.pendingBatchIndex = (2 * turn + tree.pendingBatchIndex) * (K * Z) ∧
      n = (2 * turn + tree.pendingBatchIndex) * K + batch.numInsertedZkpBatches := by
  have hZ := h.window.zkpBatchSize_pos
  obtain ⟨turn, hturn⟩ := h.window.aligned _ h.pending.1
  obtain ⟨_, _, hposition⟩ := h.pending_position rfl hbatch hslot
  refine ⟨turn, hturn, ?_⟩
  rw [hturn, ← Nat.mul_assoc, ← Nat.add_mul] at hposition
  exact Nat.eq_of_mul_eq_mul_right hZ hposition

/-- The last ZKP batch of a queue batch leaves nothing cached: the other slots of the batch are empty,
and so is the whole other batch. -/
theorem idle_of_complete (h : Queue env Z queued submitted applied start tree)
    (hbatch : tree.getBatch tree.pendingBatchIndex = some batch)
    (hslot : batch.numInsertedZkpBatches < K) (hlast : batch.numInsertedZkpBatches + 1 = K) :
    Idle (marked tree batch hslot) := by
  intro i other j hother
  by_contra hne
  obtain ⟨update, hupdate⟩ := Option.ne_none_iff_exists'.mp hne
  rcases batch_of_set hother with ⟨rfl, rfl⟩ | ⟨hi, hother⟩
  · obtain ⟨hj, hold⟩ := batch.cachedTreeUpdate_clear hslot rfl hupdate
    obtain ⟨_, hlo, hhi, _⟩ := h.cache _ batch j update hbatch hold
    have hfull := (h.window.slice _ batch hbatch).numFull_le
    omega
  · obtain ⟨hpending, _⟩ := h.cache i other j update hother hupdate
    exact hi hpending

theorem applyPending (h : Queue env Z queued submitted applied start tree) (hK : 0 < K)
    (hbatch : tree.getBatch tree.pendingBatchIndex = some batch)
    (hready : batch.numInsertedZkpBatches < batch.numFullZkpBatches) (hslot : batch.numInsertedZkpBatches < K) :
    Queue env Z queued submitted (applied + Z) start (marked tree batch hslot) := by
  obtain ⟨hlo, hhi, hposition⟩ := h.pending_position rfl hbatch hslot
  have hZ := h.window.zkpBatchSize_pos
  have hbound : (batch.numInsertedZkpBatches + 1) * Z ≤ K * Z := Nat.mul_le_mul_right Z hslot
  have hlast : batch.numInsertedZkpBatches + 1 = K ↔ applied + Z = start tree.pendingBatchIndex + K * Z := by
    rw [hposition, Nat.add_assoc, ← Nat.succ_mul, Nat.add_left_cancel_iff,
      Nat.mul_left_inj (by omega)]
  rw [Nat.succ_mul] at hbound
  refine ⟨h.window.apply hbatch hlo hhi hready hslot, h.current, ?_, ?_⟩
  · have hend : applied + Z ≤ start tree.pendingBatchIndex + K * Z := by omega
    have hadvance := Cursor.advance h.window h.pending.1 hlo hK hend
    simpa only [marked, hlast] using hadvance
  · by_cases hcomplete : batch.numInsertedZkpBatches + 1 = K
    · intro i other j update hother hupdate
      rw [h.idle_of_complete hbatch hslot hcomplete i other j hother] at hupdate
      exact absurd hupdate (by simp)
    · intro i other j update hother hupdate
      simp only [marked, if_neg hcomplete] at hother ⊢
      rcases batch_of_set hother with ⟨rfl, rfl⟩ | ⟨_, hother⟩
      · obtain ⟨hj, hold⟩ := batch.cachedTreeUpdate_clear hslot rfl hupdate
        obtain ⟨_, hfrom, hto, hverified⟩ := h.cache _ batch j update hbatch hold
        refine ⟨rfl, ?_, hto, hverified⟩
        show batch.numInsertedZkpBatches + 1 ≤ j
        omega
      · exact h.cache i other j update hother hupdate

end Queue

/-! ### Eviction -/

/-- The pending batch without the update in the slot of the next ZKP batch. -/
def evicted (batch : Batch K) (hslot : batch.numInsertedZkpBatches < K) : Batch K :=
  { batch with
    cachedTreeUpdates := batch.cachedTreeUpdates.set batch.numInsertedZkpBatches .zeroed }

theorem Queue.evict (h : Queue env Z queued submitted applied start tree)
    (hbatch : tree.getBatch tree.pendingBatchIndex = some batch) (hslot : batch.numInsertedZkpBatches < K) :
    Queue env Z queued submitted applied start
      (tree.setBatch tree.pendingBatchIndex (evicted batch hslot)) := by
  have hslice := h.window.slice _ batch hbatch
  have hslice' : Slice env.hashv Z queued applied (start tree.pendingBatchIndex)
    (evicted batch hslot) := { hslice with }
  refine ⟨h.window.replace hslice' (fun i other _ hother => h.window.slice i other hother)
    h.window.start_le h.window.applied_le h.window.queued_le, h.current, h.pending, ?_⟩
  intro i other j update hother hupdate
  rcases batch_of_set hother with ⟨rfl, rfl⟩ | ⟨_, hother⟩
  · obtain ⟨_, hold⟩ := batch.cachedTreeUpdate_clear hslot rfl hupdate
    exact h.cache _ batch j update hbatch hold
  · exact h.cache i other j update hother hupdate

def Batch.forgetCache (batch : Batch K) : Batch K :=
  { batch with cachedTreeUpdates := Vector.replicate K .zeroed }

def forgetCache (tree : NullifierTreeLayout K) : NullifierTreeLayout K :=
  { tree with batches := tree.batches.map Batch.forgetCache }

theorem forgetCache_setBatch {batch' : Batch K} {i : Nat} (hbatch : tree.getBatch i = some batch)
    (hforget : batch'.forgetCache = batch.forgetCache) :
    forgetCache (tree.setBatch i batch') = forgetCache tree := by
  have hbatches : (tree.batches.setIfInBounds i batch').map Batch.forgetCache
      = tree.batches.map Batch.forgetCache := by
    refine Vector.ext fun j hj => ?_
    rw [Vector.getElem_map, Vector.getElem_map]
    by_cases hij : i = j
    · subst hij
      rw [Vector.getElem_setIfInBounds_self, hforget]
      exact congrArg Batch.forgetCache ((Vector.getElem?_eq_some_iff.mp hbatch).2).symm
    · rw [Vector.getElem_setIfInBounds_ne hj hij]
  rw [forgetCache, forgetCache, setBatch, hbatches]

/-! ### Positions in the log -/

section Positions

variable {q a n : Nat}

theorem position_div (hn : n = q * K + a) (ha : a < K) : n / K = q := by
  rw [hn, Nat.mul_comm, Nat.mul_add_div (by omega), Nat.div_eq_of_lt ha, Nat.add_zero]

theorem position_mod (hn : n = q * K + a) (ha : a < K) : n % K = a := by
  rw [hn, Nat.mul_comm, Nat.mul_add_mod, Nat.mod_eq_of_lt ha]

theorem watermark_succ (hn : n = q * K + a) (ha : a < K) : watermark K Z (n + 1)
      = if a + 1 = K then max (watermark K Z n) (q * (K * Z) + 1) else watermark K Z n := by
  have hdiv := position_div hn ha
  split
  case isTrue hlast =>
    have hnext : n + 1 = (q + 1) * K := by
      rw [hn, Nat.succ_mul]
      omega
    have hge : ¬ n + 1 < K := by
      rw [hnext, Nat.succ_mul]
      omega
    have hold : watermark K Z n ≤ q * (K * Z) + 1 := by
      rw [watermark, hdiv]
      split
      · exact Nat.zero_le _
      · exact Nat.succ_le_succ (Nat.mul_le_mul_right _ (Nat.sub_le _ 1))
    rw [watermark, if_neg hge, hnext, Nat.mul_div_cancel _ (by omega), Nat.add_sub_cancel,
      max_eq_right hold]
  case isFalse hmore =>
    have hnext : n + 1 = q * K + (a + 1) := by omega
    have hdiv' : (n + 1) / K = n / K := by rw [hdiv, position_div hnext (by omega)]
    have hlt : n + 1 < K ↔ n < K := by
      rw [← Nat.div_eq_zero_iff_lt (by omega), ← Nat.div_eq_zero_iff_lt (by omega), hdiv']
    simp only [watermark, hlt, hdiv']

end Positions

theorem getElem?_snoc {α : Type} {l : List α} {x y : α} {n : Nat}
    (h : (l ++ [x])[n]? = some y) : l[n]? = some y ∨ (n = l.length ∧ y = x) := by
  rcases Nat.lt_trichotomy n l.length with hlt | rfl | hgt
  · rw [List.getElem?_append_left hlt] at h
    exact .inl h
  · rw [List.getElem?_concat_length] at h
    exact .inr ⟨rfl, (Option.some.inj h).symm⟩
  · rw [List.getElem?_eq_none (by simp; omega)] at h
    exact absurd h (by simp)

theorem AppliedAt.extend {roots : List Bytes32} {n : Nat} {update : AppliedUpdate}
    (h : AppliedAt env K Z queued submitted roots n update) (more : List Bytes32) :
    AppliedAt env K Z queued submitted (roots ++ more) n update := by
  have hn : n < roots.length := (List.getElem?_eq_some_iff.mp h.oldRoot).1
  refine { h with oldRoot := ?_ }
  rw [List.getElem?_append_left hn]
  exact h.oldRoot

/-! ### One iteration -/

namespace Consistent

section

variable (h : Consistent env Z run)

include h

theorem latestRootIndex : run.tree.latestRootIndex = run.applied.length % K := by
  have hK := h.K_pos
  rw [NullifierTreeLayout.latestRootIndex, if_neg (by omega), h.currentIndex,
    Ring.previous_slot run.applied.length hK]

/-- The cast of the root index to `u32` is exact: the ZKP batch index of the last update came as a
`u16`. -/
theorem getRootIndex : run.tree.getRootIndex = run.applied.length % K := by
  rw [NullifierTreeLayout.getRootIndex, h.latestRootIndex]
  apply Nat.mod_eq_of_lt
  cases hlen : run.applied.length with
  | zero =>
      rw [Nat.zero_mod]
      decide
  | succ n =>
      have hat := h.log n _ (List.getElem?_eq_getElem (by omega))
      have hlt := hat.verified.index_lt
      calc (n + 1) % K = (n % K + 1) % K := (Nat.mod_add_mod n K 1).symm
        _ ≤ n % K + 1 := Nat.mod_le _ _
        _ < 2 ^ 32 := by omega

theorem getRoot : run.tree.getRoot = (rootLog run.applied)[run.applied.length]? := by
  have hK := h.K_pos
  have hlen := length_rootLog run.applied
  rw [NullifierTreeLayout.getRoot, h.latestRootIndex]
  exact h.roots.recent run.applied.length (by omega) (by omega)

theorem exists_root : ∃ root, run.tree.getRoot = some root := by
  have hlen := length_rootLog run.applied
  rw [h.getRoot]
  exact ⟨_, List.getElem?_eq_getElem (by omega)⟩

theorem slot_lt : run.tree.rootHistory.currentIndex < K := by
  rw [h.currentIndex]
  exact Nat.mod_lt _ h.K_pos

end

/-- The update one iteration applies from the slot of the next ZKP batch. -/
def nextUpdate (run : Run K) (batch : Batch K) (cached : CachedTreeUpdate) : AppliedUpdate where
  batchIndex := run.tree.pendingBatchIndex
  zkpBatchIndex := batch.numInsertedZkpBatches
  oldNextIndex := run.tree.nextIndex
  sequenceNumber := run.tree.sequenceNumber + 1
  rootIndex := (run.applied.length + 1) % K
  oldRoot := cached.oldRoot
  newRoot := cached.newRoot

variable {cached : CachedTreeUpdate}

section

variable (h : Consistent env Z run)
  (hqueue : Queue env Z run.queued run.submitted (run.applied.length * Z) start run.tree)
  (hbatch : run.tree.getBatch run.tree.pendingBatchIndex = some batch)
  (hcached : batch.cachedTreeUpdate batch.numInsertedZkpBatches = some cached)
  (hroot : run.tree.getRoot = some cached.oldRoot) (hslot : batch.numInsertedZkpBatches < K)

include h hqueue hbatch hcached hroot hslot

theorem appliedAt_next : AppliedAt env K Z run.queued run.submitted (rootLog run.applied) run.applied.length
      (nextUpdate run batch cached) := by
  obtain ⟨turn, hstart, hposition⟩ := hqueue.position hbatch hslot
  obtain ⟨_, _, hready, hverified⟩ := hqueue.cache _ batch _ cached hbatch hcached
  obtain ⟨hlt, _⟩ := hqueue.pending
  have hmod := position_mod hposition hslot
  have hwindow := (hqueue.window.slice _ batch hbatch).window_le hready
  obtain ⟨_, _, happlied⟩ := hqueue.pending_position rfl hbatch hslot
  rw [← happlied] at hwindow hverified
  refine ⟨?_, hmod.symm, h.nextIndex, ?_, rfl, hwindow, ?_, ?_⟩
  · rw [position_div hposition hslot]
    show run.tree.pendingBatchIndex = _
    omega
  · show run.tree.sequenceNumber + 1 = _
    rw [h.sequenceNumber]
  · rw [← h.getRoot]
    exact hroot
  · rw [hmod]
    exact hverified

theorem append :
    Consistent env Z { run with
      tree := marked (advanced run.tree cached.newRoot h.slot_lt) batch hslot
      applied := run.applied ++ [nextUpdate run batch cached] } := by
  have hlen : (run.applied ++ [nextUpdate run batch cached]).length = run.applied.length + 1 := by
    simp
  have hslice := hqueue.window.slice _ batch hbatch
  obtain ⟨_, _, hready, _⟩ := hqueue.cache _ batch _ cached hbatch hcached
  obtain ⟨turn, hstart, hposition⟩ := hqueue.position hbatch hslot
  have happly := hqueue.applyPending h.K_pos hbatch hready hslot
  have hindex : run.tree.rootHistory.currentIndex = (rootLog run.applied).length % K := by
    rw [h.currentIndex, length_rootLog]
  refine {
    K_pos := h.K_pos
    batchSize := h.batchSize
    zkpBatchSize := h.zkpBatchSize
    capacity_lt := h.capacity_lt
    queueNextIndex := h.queueNextIndex
    queue_le := h.queue_le
    nextIndex := ?_
    sequenceNumber := ?_
    canonical := h.canonical
    roots := ?_
    currentIndex := ?_
    closeBeforeIndex := ?_
    log := ?_
    queue := ?_ }
  · show run.tree.nextIndex + run.tree.zkpBatchSize = _
    rw [h.nextIndex, h.zkpBatchSize, hlen, Nat.succ_mul]
    omega
  · show run.tree.sequenceNumber + 1 = _
    rw [h.sequenceNumber, hlen]
  · rw [rootLog_snoc]
    have hpush := h.roots.push cached.newRoot (by rw [← hindex]; exact h.slot_lt)
    simp only [← hindex] at hpush
    exact hpush
  · show (run.tree.rootHistory.currentIndex + 1) % K = _
    rw [h.currentIndex, hlen, Nat.mod_add_mod]
  · rw [hlen, watermark_succ hposition hslot, ← hstart, ← hslice.startIndex, ← h.closeBeforeIndex]
    rfl
  · intro n update hn
    rw [rootLog_snoc]
    rcases getElem?_snoc hn with hold | ⟨rfl, rfl⟩
    · exact (h.log n update hold).extend _
    · exact (h.appliedAt_next hqueue hbatch hcached hroot hslot).extend _
  · refine ⟨start, ?_⟩
    rw [hlen, Nat.succ_mul]
    exact ⟨happly.window, happly.current, happly.pending, happly.cache⟩

theorem run_applyNext : applyNextCachedUpdate.run run.tree = .ok (some (nextUpdate run batch cached))
      (marked (advanced run.tree cached.newRoot h.slot_lt) batch hslot) := by
  have hslice := hqueue.window.slice _ batch hbatch
  obtain ⟨_, _, hready, hverified⟩ := hqueue.cache _ batch _ cached hbatch hcached
  have hwindow := hslice.window_le hready
  have hZ := hslice.zkpBatchSize_pos
  obtain ⟨_, _, hposition⟩ := hqueue.pending_position rfl hbatch hslot
  have hqueueNext := h.queueNextIndex
  have hle := h.queue_le
  have hcapacity := h.capacity_lt
  have hnext := h.nextIndex
  have hZ' := h.zkpBatchSize
  have hseq : run.tree.sequenceNumber + 1 < 2 ^ 64 := by
    have := Nat.mul_le_mul_left run.applied.length hZ
    rw [h.sequenceNumber]
    omega
  have hfull : batch.numFullZkpBatches < 2 ^ 64 := by
    have hfilled := hslice.filled
    have := Nat.mul_le_mul_left batch.numFullZkpBatches hZ
    omega
  have hadvance := run_advanceTree cached.newRoot (by omega) hcapacity hseq h.slot_lt
  have hbatch' : (advanced run.tree cached.newRoot h.slot_lt).getBatch
      (advanced run.tree cached.newRoot h.slot_lt).pendingBatchIndex = some batch := hbatch
  have hmark : (markApplied batch.numInsertedZkpBatches).run
      (advanced run.tree cached.newRoot h.slot_lt)
        = .ok () (marked (advanced run.tree cached.newRoot h.slot_lt) batch hslot) :=
    run_markApplied hslice hbatch' hready hslot hfull
  have hpending : getPendingBatch.run run.tree = .ok batch run.tree := run_getPendingBatch hbatch
  have hrootIndex : (advanced run.tree cached.newRoot h.slot_lt).getRootIndex
      = (run.applied.length + 1) % K := by
    have happended := (h.append hqueue hbatch hcached hroot hslot).getRootIndex
    rw [List.length_append] at happended
    exact happended
  rw [applyNextCachedUpdate, run_bind_of_ok hpending]
  simp only [Batch.getNumInsertedZkps, hcached, EStateM.run_bind, EStateM.run_get, hroot, okOr_some,
    EStateM.run_pure, ne_eq, not_true_eq_false, if_false, hadvance, hmark, hrootIndex]
  rfl

end

theorem run_applyNext_none (hbatch : run.tree.getBatch run.tree.pendingBatchIndex = some batch)
    (hcached : batch.cachedTreeUpdate batch.numInsertedZkpBatches = none) :
    applyNextCachedUpdate.run run.tree = .ok none run.tree := by
  rw [applyNextCachedUpdate, run_bind_of_ok (run_getPendingBatch hbatch)]
  simp only [Batch.getNumInsertedZkps, hcached, EStateM.run_pure]

theorem run_applyNext_evict (hbatch : run.tree.getBatch run.tree.pendingBatchIndex = some batch)
    (hcached : batch.cachedTreeUpdate batch.numInsertedZkpBatches = some cached) {root : Bytes32}
    (hroot : run.tree.getRoot = some root) (hne : cached.oldRoot ≠ root)
    (hslot : batch.numInsertedZkpBatches < K) : applyNextCachedUpdate.run run.tree
      = .ok none (run.tree.setBatch run.tree.pendingBatchIndex (evicted batch hslot)) := by
  have hevict : (withPendingBatch (Batch.evictCachedTreeUpdate batch.numInsertedZkpBatches)).run
      run.tree = .ok () (run.tree.setBatch run.tree.pendingBatchIndex (evicted batch hslot)) :=
    run_withPendingBatch_ok hbatch (Batch.run_evictCachedTreeUpdate hslot)
  rw [applyNextCachedUpdate, run_bind_of_ok (run_getPendingBatch hbatch)]
  simp only [Batch.getNumInsertedZkps, hcached, EStateM.run_bind, EStateM.run_get, hroot, okOr_some,
    EStateM.run_pure, if_pos hne, hevict]

end Consistent

end Zolana
