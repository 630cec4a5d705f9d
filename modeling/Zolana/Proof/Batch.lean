import Zolana.Proof.HashChain

/-!
# What each batch method does

One lemma for each method of a batch: the state it returns, or that it fails and what it leaves behind.
Nothing above this file unfolds a method.
-/

namespace Zolana

open Fallible

theorem run_addU64 {σ : Type} {a b : Nat} {s : σ} (h : a + b < 2 ^ 64) :
    (addU64 a b).run s = .ok (a + b) s := by
  rw [addU64, checkedAdd_of_lt h, okOr_some, EStateM.run_pure]

theorem run_mulU64 {σ : Type} {a b : Nat} {s : σ} (h : a * b < 2 ^ 64) :
    (mulU64 a b).run s = .ok (a * b) s := by
  rw [mulU64, checkedMul_of_lt h, okOr_some, EStateM.run_pure]

namespace Batch

variable {K : Nat} {batch : Batch K}

variable {state : BatchState} {batchSize zkpBatchIndex : Nat}

theorem run_checkedState (h : batch.state = state.toU64) : checkedState.run batch = .ok state batch := by
  have hget : batch.tryGetState = some state := by
    cases state <;> simp [tryGetState, h, BatchState.toU64]
  simp [checkedState, hget]

/-! ### Reuse -/

theorem run_ensureReadyToFill_fill (h : batch.state = BatchState.fill.toU64) :
    (ensureReadyToFill batchSize).run batch = .ok () batch := by
  rw [ensureReadyToFill, run_bind_of_ok (run_checkedState h)]
  rfl

theorem run_ensureReadyToFill_full (h : batch.state = BatchState.full.toU64) :
    (ensureReadyToFill batchSize).run batch = .error .batchNotReady batch := by
  rw [ensureReadyToFill, run_bind_of_ok (run_checkedState h)]
  rfl

theorem run_ensureReadyToFill_inserted (h : batch.state = BatchState.inserted.toU64)
    (hbound : batch.startIndex + batchSize * numBatches < 2 ^ 64) : (ensureReadyToFill batchSize).run batch
      = .ok () (batch.reset batch.batchSize batch.zkpBatchSize
          (batch.startIndex + batchSize * numBatches)) := by
  rw [ensureReadyToFill, run_bind_of_ok (run_checkedState h)]
  have hmul : (mulU64 batchSize numBatches).run batch = .ok (batchSize * numBatches) batch :=
    run_mulU64 (by omega)
  simp only [run_bind_of_ok hmul, EStateM.run_bind, EStateM.run_get, checkedAdd_of_lt hbound,
    okOr_some, EStateM.run_pure, advanceStateToFill, run_checkedState h]
  rfl

/-! ### Taking up a value -/

/-- The ways a value is taken up: as the head of a chain, in the call that absorbs a group, or in the
buffer. -/
inductive TakesUp (hashv : Hashv) (batch : Batch K) (value : Bytes32) :
    Vector Bytes32 K → Vector Bytes32 2 → Prop
  | head (hopen : batch.numFullZkpBatches < K) (hfirst : batch.numInserted = 0) :
      TakesUp hashv batch value (batch.hashChains.set batch.numFullZkpBatches value)
        batch.pendingValues
  | absorb (hopen : batch.numFullZkpBatches < K) (hfirst : batch.numInserted ≠ 0)
      (hgroup : batch.numPending = 2 ∨ batch.numInserted + 1 = batch.zkpBatchSize) (digest : Bytes32)
      (hdigest : hashv (absorbInputs batch.hashChains[batch.numFullZkpBatches] batch.pendingValues
        batch.numPending value) = .ok digest) :
      TakesUp hashv batch value (batch.hashChains.set batch.numFullZkpBatches digest)
        batch.pendingValues
  | wait (hfirst : batch.numInserted ≠ 0) (hslot : batch.numPending < 2)
      (hopen : batch.numInserted + 1 ≠ batch.zkpBatchSize) :
      TakesUp hashv batch value batch.hashChains (batch.pendingValues.set batch.numPending value)

theorem run_absorbValue (hashv : Hashv) (value : Bytes32) (hopen : batch.numFullZkpBatches < K) :
    (∃ hashChains pendingValues, TakesUp hashv batch value hashChains pendingValues ∧
      (absorbValue hashv value (batch.numInserted + 1 = batch.zkpBatchSize)).run batch
        = .ok () { batch with hashChains := hashChains, pendingValues := pendingValues }) ∨
    (∃ e, batch.numInserted ≠ 0 ∧ hashv (absorbInputs batch.hashChains[batch.numFullZkpBatches]
        batch.pendingValues batch.numPending value) = .error e ∧
      (absorbValue hashv value (batch.numInserted + 1 = batch.zkpBatchSize)).run batch
        = .error (.hasher e) batch) := by
  have hpending : batch.numPending < 3 := Nat.mod_lt _ (by decide)
  by_cases hfirst : batch.numInserted = 0
  · refine .inl ⟨_, _, .head hopen hfirst, ?_⟩
    simp [absorbValue, hopen, hfirst]
  · by_cases hgroup : batch.numPending = 2 ∨ batch.numInserted + 1 = batch.zkpBatchSize
    · cases hdigest : hashv (absorbInputs batch.hashChains[batch.numFullZkpBatches]
          batch.pendingValues batch.numPending value) with
      | ok digest =>
          refine .inl ⟨_, _, .absorb hopen hfirst hgroup digest hdigest, ?_⟩
          simp [absorbValue, hopen, hfirst, hgroup, hdigest]
      | error e =>
          refine .inr ⟨e, hfirst, rfl, ?_⟩
          simp [absorbValue, hopen, hfirst, hgroup, hdigest]
    · obtain ⟨hshort, hmore⟩ := not_or.mp hgroup
      have hslot : batch.numPending < 2 := by omega
      refine .inl ⟨_, _, .wait hfirst hslot hmore, ?_⟩
      by_cases hzero : batch.numPending = 0
      · simp [absorbValue, hopen, hfirst, hmore, hzero]
      · have hone : batch.numPending = 1 := by omega
        simp [absorbValue, hopen, hfirst, hmore, hone]

theorem TakesUp.getElem_ne {hashv : Hashv} {value : Bytes32} {hashChains : Vector Bytes32 K}
    {pendingValues : Vector Bytes32 2} (h : TakesUp hashv batch value hashChains pendingValues)
    {j : Nat} (hj : j < K) (hne : j ≠ batch.numFullZkpBatches) : hashChains[j] = batch.hashChains[j] := by
  cases h with
  | head hopen hfirst => exact Vector.getElem_set_ne hopen hj (Ne.symm hne)
  | absorb hopen hfirst hgroup digest hdigest => exact Vector.getElem_set_ne hopen hj (Ne.symm hne)
  | wait hfirst hslot hmore => rfl

section OpenChain

variable {hashv : Hashv} {value : Bytes32} {values : List Bytes32} {hashChains : Vector Bytes32 K}
  {pendingValues : Vector Bytes32 2}

section

variable (h : TakesUp hashv batch value hashChains pendingValues)
  (hopen : batch.numFullZkpBatches < K) (hlen : values.length = batch.numInserted)
  (habsorbed : batch.numInserted ≠ 0 →
    Absorbed hashv batch.hashChains[batch.numFullZkpBatches] batch.pendingValues values)

include h hopen hlen habsorbed

theorem TakesUp.complete (hlast : batch.numInserted + 1 = batch.zkpBatchSize) :
    createHashChain4 hashv (values ++ [value]) = .ok hashChains[batch.numFullZkpBatches] := by
  cases h with
  | head _ hfirst =>
      have hnil : values = [] := List.length_eq_zero_iff.mp (hlen.trans hfirst)
      rw [hnil, Vector.getElem_set_self]
      rfl
  | absorb _ hfirst hgroup digest hdigest =>
      rw [numPending, ← hlen] at hdigest
      rw [Vector.getElem_set_self]
      exact (habsorbed hfirst).finish hdigest
  | wait _ _ hmore => exact absurd hlast hmore

theorem TakesUp.partly (hmore : batch.numInserted + 1 ≠ batch.zkpBatchSize) :
    Absorbed hashv hashChains[batch.numFullZkpBatches] pendingValues (values ++ [value]) := by
  cases h with
  | head _ hfirst =>
      have hnil : values = [] := List.length_eq_zero_iff.mp (hlen.trans hfirst)
      rw [hnil, Vector.getElem_set_self]
      exact .head value batch.pendingValues
  | absorb _ hfirst hgroup digest hdigest =>
      have hpending : batch.numPending = 2 := hgroup.resolve_right hmore
      rw [hpending] at hdigest
      rw [numPending, ← hlen] at hpending
      rw [Vector.getElem_set_self]
      exact (habsorbed hfirst).group hpending hdigest
  | wait hfirst hslot _ =>
      have hslot' : (values.length - 1) % 3 < 2 := by rwa [numPending, ← hlen] at hslot
      have hwait := (habsorbed hfirst).wait value hslot'
      simpa only [numPending, ← hlen] using hwait

end

end OpenChain

def counted (batch : Batch K) : Batch K :=
  if batch.numInserted + 1 = batch.zkpBatchSize then
    { batch with
      numFullZkpBatches := batch.numFullZkpBatches + 1
      numInserted := 0
      state :=
        if batch.numFullZkpBatches + 1 = batch.getNumZkpBatches then BatchState.full.toU64
        else batch.state }
  else
    { batch with numInserted := batch.numInserted + 1 }

theorem run_countValue (batch : Batch K) (hstate : batch.state = BatchState.fill.toU64)
    (hbound : batch.numFullZkpBatches + 1 < 2 ^ 64) :
    (countValue (batch.numInserted + 1)).run batch = .ok () batch.counted := by
  by_cases hfull : batch.numInserted + 1 = batch.zkpBatchSize
  · have hadd : ∀ s : Batch K, (addU64 batch.numFullZkpBatches 1).run s
        = .ok (batch.numFullZkpBatches + 1) s := fun s => run_addU64 hbound
    by_cases hlast : batch.numFullZkpBatches + 1 = batch.getNumZkpBatches
    · have hlast' : batch.numFullZkpBatches + 1 = batch.batchSize / batch.zkpBatchSize := hlast
      simp [countValue, counted, hfull, hadd, getNumZkpBatches, hlast', advanceStateToFull,
        checkedState, tryGetState, hstate, BatchState.toU64]
    · have hlast' : ¬ batch.numFullZkpBatches + 1 = batch.batchSize / batch.zkpBatchSize := hlast
      simp [countValue, counted, hfull, hadd, getNumZkpBatches, hlast']
  · simp [countValue, counted, hfull]

theorem run_addToHashChain (hashv : Hashv) (value : Bytes32)
    (hstate : batch.state = BatchState.fill.toU64) (hopen : batch.numFullZkpBatches < K)
    (hnum : batch.numInserted + 1 < 2 ^ 64) (hbound : batch.numFullZkpBatches + 1 < 2 ^ 64) :
    (∃ hashChains pendingValues, TakesUp hashv batch value hashChains pendingValues ∧
      (addToHashChain hashv value).run batch
        = .ok () (counted { batch with hashChains, pendingValues })) ∨
    (∃ e, batch.numInserted ≠ 0 ∧ hashv (absorbInputs batch.hashChains[batch.numFullZkpBatches]
        batch.pendingValues batch.numPending value) = .error e ∧
      (addToHashChain hashv value).run batch = .error (.hasher e) batch) := by
  have hrun : (addToHashChain hashv value).run batch =
      (absorbValue hashv value (batch.numInserted + 1 = batch.zkpBatchSize) >>= fun _ =>
        countValue (batch.numInserted + 1)).run batch := by
    rw [addToHashChain, run_bind_of_ok (run_checkedState hstate)]
    simp only [ne_eq, not_true_eq_false, ↓reduceIte, EStateM.run_bind, EStateM.run_get,
      run_addU64 hnum]
  rcases run_absorbValue hashv value hopen with
    ⟨hashChains, pendingValues, htakes, habsorb⟩ | ⟨e, hfirst, hdigest, habsorb⟩
  · refine .inl ⟨hashChains, pendingValues, htakes, ?_⟩
    rw [hrun, run_bind_of_ok habsorb]
    exact run_countValue { batch with hashChains, pendingValues } hstate hbound
  · refine .inr ⟨e, hfirst, hdigest, ?_⟩
    rw [hrun, run_bind_of_error habsorb]

/-! ### Cached updates -/

theorem run_cacheTreeUpdate {update : CachedTreeUpdate} (h : zkpBatchIndex < K) :
    (cacheTreeUpdate zkpBatchIndex update).run batch = .ok ()
      { batch with cachedTreeUpdates := batch.cachedTreeUpdates.set zkpBatchIndex update } := by
  simp [cacheTreeUpdate, h]

theorem run_evictCachedTreeUpdate (h : zkpBatchIndex < K) :
    (evictCachedTreeUpdate zkpBatchIndex).run batch = .ok ()
      { batch with cachedTreeUpdates := batch.cachedTreeUpdates.set zkpBatchIndex .zeroed } :=
  run_cacheTreeUpdate h

theorem run_clearCachedTreeUpdate (h : zkpBatchIndex < K) :
    (clearCachedTreeUpdate zkpBatchIndex).run batch = .ok ()
      { batch with
        cachedTreeUpdates := batch.cachedTreeUpdates.set zkpBatchIndex .zeroed
        hashChains := batch.hashChains.set zkpBatchIndex 0 } := by
  rw [clearCachedTreeUpdate, run_bind_of_ok (run_evictCachedTreeUpdate h)]
  simp [h]

/-! ### Counting an applied ZKP batch -/

def markedInserted (batch : Batch K) : Batch K :=
  { batch with
    numInsertedZkpBatches := batch.numInsertedZkpBatches + 1
    state :=
      if batch.numInsertedZkpBatches + 1 = batch.getNumZkpBatches then BatchState.inserted.toU64
      else batch.state }

section

variable (hstate : batch.state = state.toU64) (hpending : state ≠ .inserted)
  (hready : batch.numInsertedZkpBatches < batch.numFullZkpBatches)
  (hlast : batch.numInsertedZkpBatches + 1 = batch.getNumZkpBatches → state = .full)
  (hbound : batch.numInsertedZkpBatches + 1 < 2 ^ 64)

include hstate hpending hready hlast hbound

theorem run_markAsInsertedInMerkleTree : markAsInsertedInMerkleTree.run batch
      = .ok (if batch.numInsertedZkpBatches + 1 = batch.getNumZkpBatches then .inserted else state)
          batch.markedInserted := by
  have hready' : getFirstReadyZkpBatch.run batch = .ok batch.numInsertedZkpBatches batch := by
    rw [getFirstReadyZkpBatch, run_bind_of_ok (run_checkedState hstate)]
    simp [hpending, batchIsReadyToInsert, hready]
  rw [markAsInsertedInMerkleTree, run_bind_of_ok hready']
  have hadd : (addU64 batch.numInsertedZkpBatches 1).run batch
      = .ok (batch.numInsertedZkpBatches + 1) batch := run_addU64 hbound
  by_cases hcomplete : batch.numInsertedZkpBatches + 1 = batch.getNumZkpBatches
  · have hfull := hlast hcomplete
    subst hfull
    simp [hadd, hcomplete, advanceStateToInserted, checkedState, tryGetState, hstate,
      BatchState.toU64, markedInserted]
  · have hmarked : batch.markedInserted
        = { batch with numInsertedZkpBatches := batch.numInsertedZkpBatches + 1 } := by
      simp [markedInserted, hcomplete]
    rw [hmarked]
    simp only [EStateM.run_bind, EStateM.run_get, hadd, EStateM.run_modify, hcomplete, if_false]
    exact run_checkedState hstate

def withApplied (batch : Batch K) (hslot : batch.numInsertedZkpBatches < K) : Batch K :=
  { batch.markedInserted with
    cachedTreeUpdates := batch.cachedTreeUpdates.set batch.numInsertedZkpBatches .zeroed
    hashChains := batch.hashChains.set batch.numInsertedZkpBatches 0 }

theorem run_applied (hslot : batch.numInsertedZkpBatches < K) :
    (do
      let state ← markAsInsertedInMerkleTree
      clearCachedTreeUpdate batch.numInsertedZkpBatches
      pure state : BatchM K BatchState).run batch
      = .ok (if batch.numInsertedZkpBatches + 1 = batch.getNumZkpBatches then .inserted else state)
          (batch.withApplied hslot) := by
  rw [run_bind_of_ok (run_markAsInsertedInMerkleTree hstate hpending hready hlast hbound),
    run_bind_of_ok (run_clearCachedTreeUpdate hslot)]
  rfl

end

end Batch

end Zolana
