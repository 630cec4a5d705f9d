import Zolana.Proof.Batch
import Zolana.NullifierTree.Run

/-!
# A batch as a slice of the queue

Everything a batch stores is determined by where its range starts, the values queued so far and the
number of values applied so far. `Slice` is that relation, and each method of a batch moves it along:
taking up a value extends the queue, applying a ZKP batch advances the applied count, and reuse moves
the start.
-/

namespace Zolana

open Fallible

variable {K Z : Nat} {hashv : Hashv} {queued : List Bytes32} {applied start : Nat} {batch : Batch K}

/-! ### Windows of a growing queue -/

theorem length_queueWindow {count : Nat} (h : start + count ≤ queued.length) :
    (queueWindow queued start count).length = count := by
  simp only [queueWindow, List.length_take, List.length_drop]
  omega

theorem queueWindow_append {count : Nat} (values : List Bytes32) (h : start + count ≤ queued.length) :
    queueWindow (queued ++ values) start count = queueWindow queued start count := by
  rw [queueWindow, List.drop_append_of_le_length (by omega), List.take_append_of_le_length]
  · rfl
  · rw [List.length_drop]
    omega

theorem queueWindow_snoc {count : Nat} (value : Bytes32) (h : start + count = queued.length) :
    queueWindow (queued ++ [value]) start (count + 1) = queueWindow queued start count ++ [value] := by
  have hlen : (queued.drop start).length = count := by
    rw [List.length_drop]
    omega
  rw [queueWindow, queueWindow, List.drop_append_of_le_length (by omega),
    List.take_of_length_le (l := queued.drop start) (by omega), List.take_of_length_le]
  rw [List.length_append, hlen, List.length_singleton]

/-! ### The relation -/

structure Slice (hashv : Hashv) (Z : Nat) (queued : List Bytes32) (applied start : Nat)
    (batch : Batch K) : Prop where
  startIndex : batch.startIndex = start + 1
  batchSize : batch.batchSize = K * Z
  zkpBatchSize : batch.zkpBatchSize = Z
  numInserted_lt : batch.numInserted < Z
  /-- The values of the range queued so far. -/
  filled : batch.numFullZkpBatches * Z + batch.numInserted = min (queued.length - start) (K * Z)
  /-- The values of the range applied so far. -/
  drained : batch.numInsertedZkpBatches * Z = min (applied - start) (K * Z)
  state : batch.state =
    (if batch.numInsertedZkpBatches = K then BatchState.inserted
      else if batch.numFullZkpBatches = K then BatchState.full else BatchState.fill).toU64
  cleared : ∀ j, j < batch.numInsertedZkpBatches → batch.hashChains[j]? = some 0
  complete : ∀ j (hj : j < K), batch.numInsertedZkpBatches ≤ j → j < batch.numFullZkpBatches →
    createHashChain4 hashv (queueWindow queued (start + j * Z) Z) = .ok batch.hashChains[j]
  partly : ∀ hopen : batch.numFullZkpBatches < K, batch.numInserted ≠ 0 →
    Absorbed hashv batch.hashChains[batch.numFullZkpBatches] batch.pendingValues
      (queueWindow queued (start + batch.numFullZkpBatches * Z) batch.numInserted)

namespace Slice

section

variable (h : Slice hashv Z queued applied start batch)

include h

theorem zkpBatchSize_pos : 0 < Z :=
  Nat.zero_lt_of_lt h.numInserted_lt

theorem numFull_le : batch.numFullZkpBatches ≤ K := by
  have hfilled := h.filled
  exact Nat.le_of_mul_le_mul_right (by omega) h.zkpBatchSize_pos

theorem numInsertedZkp_le : batch.numInsertedZkpBatches ≤ K := by
  have hdrained := h.drained
  exact Nat.le_of_mul_le_mul_right (by omega) h.zkpBatchSize_pos

theorem numFull_lt (hroom : queued.length < start + K * Z) (hK : 0 < K) : batch.numFullZkpBatches < K := by
  have hfilled := h.filled
  have hpos : 0 < K * Z := Nat.mul_pos hK h.zkpBatchSize_pos
  exact Nat.lt_of_mul_lt_mul_right (a := Z) (by omega)

theorem numInsertedZkp_lt (hroom : applied < start + K * Z) (hK : 0 < K) : batch.numInsertedZkpBatches < K := by
  have hdrained := h.drained
  have hpos : 0 < K * Z := Nat.mul_pos hK h.zkpBatchSize_pos
  exact Nat.lt_of_mul_lt_mul_right (a := Z) (by omega)

theorem numFull_eq (hfull : start + K * Z ≤ queued.length) :
    batch.numFullZkpBatches = K ∧ batch.numInserted = 0 := by
  have hfilled := h.filled
  have hlt := h.numInserted_lt
  have hge : K * Z < (batch.numFullZkpBatches + 1) * Z := by
    rw [Nat.succ_mul]
    omega
  have hK : K < batch.numFullZkpBatches + 1 := Nat.lt_of_mul_lt_mul_right hge
  have heq : batch.numFullZkpBatches = K := Nat.le_antisymm h.numFull_le (by omega)
  rw [heq] at hfilled
  exact ⟨heq, by omega⟩

theorem numInsertedZkp_eq (hfull : start + K * Z ≤ applied) : batch.numInsertedZkpBatches = K := by
  have hdrained := h.drained
  exact Nat.eq_of_mul_eq_mul_right h.zkpBatchSize_pos (by omega)

theorem numInsertedZkp_le_numFull (happlied : applied ≤ queued.length) :
    batch.numInsertedZkpBatches ≤ batch.numFullZkpBatches := by
  have hfilled := h.filled
  have hdrained := h.drained
  have hlt := h.numInserted_lt
  have hle : batch.numInsertedZkpBatches * Z < (batch.numFullZkpBatches + 1) * Z := by
    rw [Nat.succ_mul]
    omega
  exact Nat.le_of_lt_succ (Nat.lt_of_mul_lt_mul_right hle)

theorem getNumZkpBatches : batch.getNumZkpBatches = K := by
  rw [Batch.getNumZkpBatches, h.batchSize, h.zkpBatchSize, Nat.mul_div_cancel K h.zkpBatchSize_pos]

theorem window_le {j : Nat} (hj : j < batch.numFullZkpBatches) : start + j * Z + Z ≤ queued.length := by
  have hfilled := h.filled
  have hle : (j + 1) * Z ≤ batch.numFullZkpBatches * Z := Nat.mul_le_mul_right Z hj
  rw [Nat.succ_mul] at hle
  have hZ := h.zkpBatchSize_pos
  omega

end

/-! ### States -/

theorem state_fill (h : Slice hashv Z queued applied start batch) (happlied : applied ≤ queued.length)
    (hroom : queued.length < start + K * Z) (hK : 0 < K) : batch.state = BatchState.fill.toU64 := by
  have hfull := h.numFull_lt hroom hK
  have hle := h.numInsertedZkp_le_numFull happlied
  rw [h.state, if_neg (by omega), if_neg (by omega)]

theorem state_full (h : Slice hashv Z queued applied start batch)
    (hfull : start + K * Z ≤ queued.length) (hroom : applied < start + K * Z) (hK : 0 < K) :
    batch.state = BatchState.full.toU64 := by
  have hlt := h.numInsertedZkp_lt hroom hK
  rw [h.state, if_neg (by omega), if_pos (h.numFull_eq hfull).1]

theorem state_inserted (h : Slice hashv Z queued applied start batch)
    (hfull : start + K * Z ≤ applied) : batch.state = BatchState.inserted.toU64 := by
  rw [h.state, if_pos (h.numInsertedZkp_eq hfull)]

/-! ### The queue grows -/

theorem snoc_outside (h : Slice hashv Z queued applied start batch) (value : Bytes32)
    (hout : start + K * Z ≤ queued.length ∨ queued.length < start) :
    Slice hashv Z (queued ++ [value]) applied start batch := by
  refine { h with filled := ?_, complete := ?_, partly := ?_ }
  · rw [h.filled, List.length_append, List.length_singleton]
    omega
  · intro j hj hready hfull
    rw [queueWindow_append [value] (h.window_le hfull)]
    exact h.complete j hj hready hfull
  · intro hopen hnum
    have hfilled := h.filled
    rcases hout with hpast | hbefore
    · exact absurd (h.numFull_eq hpast).2 hnum
    · omega

theorem snoc (h : Slice hashv Z queued applied start batch) {value : Bytes32} (hK : 0 < K)
    (happlied : applied ≤ queued.length) (hstart : start ≤ queued.length)
    (hroom : queued.length < start + K * Z) {hashChains : Vector Bytes32 K}
    {pendingValues : Vector Bytes32 2} (htakes : batch.TakesUp hashv value hashChains pendingValues) :
    Slice hashv Z (queued ++ [value]) applied start
      (Batch.counted { batch with hashChains, pendingValues }) := by
  have hfilled := h.filled
  have hopen := h.numFull_lt hroom hK
  have hready := h.numInsertedZkp_le_numFull happlied
  have hend : start + batch.numFullZkpBatches * Z + batch.numInserted = queued.length := by omega
  have hcleared : ∀ j, j < batch.numInsertedZkpBatches → hashChains[j]? = some 0 := by
    intro j hj
    have hlt : j < K := by omega
    have hold := h.cleared j hj
    rw [Vector.getElem?_eq_getElem hlt] at hold ⊢
    rw [htakes.getElem_ne hlt (by omega)]
    exact hold
  have hcomplete : ∀ j (hj : j < K), batch.numInsertedZkpBatches ≤ j →
      j < batch.numFullZkpBatches →
      createHashChain4 hashv (queueWindow (queued ++ [value]) (start + j * Z) Z) = .ok hashChains[j] := by
    intro j hj hlo hhi
    rw [queueWindow_append [value] (h.window_le hhi), htakes.getElem_ne hj (by omega)]
    exact h.complete j hj hlo hhi
  have hwindow := queueWindow_snoc value hend
  have hvalues := length_queueWindow (Nat.le_of_eq hend)
  have hdrained := h.drained
  have hpending : batch.numInsertedZkpBatches < K := by omega
  have hfill := h.state_fill happlied hroom hK
  by_cases hlast : batch.numInserted + 1 = Z
  · have hlast' : batch.numInserted + 1 = batch.zkpBatchSize := by rw [h.zkpBatchSize, hlast]
    have hdigest := htakes.complete hopen hvalues (h.partly hopen) hlast'
    rw [← hwindow, hlast] at hdigest
    rw [Batch.counted, if_pos hlast']
    refine ⟨h.startIndex, h.batchSize, h.zkpBatchSize, h.zkpBatchSize_pos, ?_, h.drained, ?_,
      hcleared, ?_, fun _ hnum => absurd rfl hnum⟩
    · have hbound : (batch.numFullZkpBatches + 1) * Z ≤ K * Z := Nat.mul_le_mul_right Z hopen
      rw [List.length_append, List.length_singleton]
      dsimp only
      rw [Nat.succ_mul] at hbound ⊢
      omega
    · have hnum : ({ batch with hashChains, pendingValues } : Batch K).getNumZkpBatches = K :=
        h.getNumZkpBatches
      rw [hnum]
      by_cases hfull : batch.numFullZkpBatches + 1 = K
      · simp only [hfull, if_neg (Nat.ne_of_lt hpending), if_true]
      · simp only [hfull, if_neg (Nat.ne_of_lt hpending), if_false, hfill]
    · intro j hj hlo hhi
      by_cases hopen' : j = batch.numFullZkpBatches
      · subst hopen'
        exact hdigest
      · exact hcomplete j hj hlo (by dsimp only at hhi; omega)
  · have hlast' : batch.numInserted + 1 ≠ batch.zkpBatchSize := by rwa [h.zkpBatchSize]
    have hpartly := htakes.partly hopen hvalues (h.partly hopen) hlast'
    rw [← hwindow] at hpartly
    rw [Batch.counted, if_neg hlast']
    have hlt := h.numInserted_lt
    refine ⟨h.startIndex, h.batchSize, h.zkpBatchSize, by dsimp only; omega, ?_, h.drained, h.state,
      hcleared, hcomplete, fun _ _ => hpartly⟩
    rw [List.length_append, List.length_singleton]
    dsimp only
    omega

/-- A reused batch starts over, whatever its arrays still hold. -/
theorem reset (h : Slice hashv Z queued applied start batch) (hK : 0 < K) {next : Nat}
    (hqueued : queued.length ≤ next) (happlied : applied ≤ next) : Slice hashv Z queued applied next
      (batch.reset batch.batchSize batch.zkpBatchSize (next + 1)) := by
  have hZ := h.zkpBatchSize_pos
  refine ⟨rfl, h.batchSize, h.zkpBatchSize, hZ, ?_, ?_, ?_, ?_, ?_, ?_⟩
  · simp only [Batch.reset]
    omega
  · simp only [Batch.reset]
    omega
  · have hne : ¬ 0 = K := by omega
    simp [Batch.reset, hne]
  · intro j hj
    exact absurd hj (Nat.not_lt_zero j)
  · intro j _ _ hfull
    exact absurd hfull (Nat.not_lt_zero j)
  · intro _ hnum
    exact absurd rfl hnum

/-! ### The tree advances -/

theorem apply_outside (h : Slice hashv Z queued applied start batch)
    (hout : start + K * Z ≤ applied ∨ applied + Z ≤ start) :
    Slice hashv Z queued (applied + Z) start batch := by
  refine { h with drained := ?_ }
  rw [h.drained]
  omega

theorem apply (h : Slice hashv Z queued applied start batch)
    (happlied : applied = start + batch.numInsertedZkpBatches * Z)
    (hready : batch.numInsertedZkpBatches < batch.numFullZkpBatches) {hslot : batch.numInsertedZkpBatches < K} :
    Slice hashv Z queued (applied + Z) start (batch.withApplied hslot) := by
  have hfull := h.numFull_le
  have hbound : (batch.numInsertedZkpBatches + 1) * Z ≤ K * Z := Nat.mul_le_mul_right Z hslot
  rw [Nat.succ_mul] at hbound
  refine ⟨h.startIndex, h.batchSize, h.zkpBatchSize, h.numInserted_lt, h.filled, ?_, ?_, ?_, ?_, ?_⟩
  · simp only [Batch.withApplied, Batch.markedInserted, Nat.succ_mul]
    omega
  · simp only [Batch.withApplied, Batch.markedInserted, h.getNumZkpBatches]
    split
    · rfl
    · rw [h.state, if_neg (by omega)]
  · intro j hj
    have hj' : j < batch.numInsertedZkpBatches + 1 := hj
    by_cases hlast : j = batch.numInsertedZkpBatches
    · subst hlast
      exact Vector.getElem?_set_self hslot
    · rw [Batch.withApplied, Vector.getElem?_set_ne hslot (Ne.symm hlast)]
      exact h.cleared j (by omega)
  · intro j hj hlo hhi
    have hlo' : batch.numInsertedZkpBatches + 1 ≤ j := hlo
    simp only [Batch.withApplied]
    rw [Vector.getElem_set_ne hslot hj (by omega)]
    exact h.complete j hj (by omega) hhi
  · intro hopen hnum
    have hopen' : batch.numFullZkpBatches < K := hopen
    have hne : batch.numInsertedZkpBatches ≠ batch.numFullZkpBatches := by omega
    have hchain : (batch.hashChains.set batch.numInsertedZkpBatches 0)[batch.numFullZkpBatches]
        = batch.hashChains[batch.numFullZkpBatches] := Vector.getElem_set_ne hslot hopen' hne
    have hpartly := h.partly hopen' hnum
    rw [← hchain] at hpartly
    exact hpartly

end Slice

end Zolana
