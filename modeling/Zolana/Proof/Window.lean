import Zolana.Proof.Layout
import Zolana.Proof.Slice

/-!
# The two batches and their cursors

The two batches hold adjacent ranges of the queue. A cursor names the batch whose range a position falls
in. The position one past both ranges belongs to the earlier batch, which is to be reused for the next
range and keeps its old one until then. The current batch index is the cursor of the queue length, the
pending one that of the number of applied values.
-/

namespace Zolana

variable {K Z : Nat} {hashv : Hashv} {queued : List Bytes32} {applied : Nat} {start : Nat → Nat}
  {batches : Vector (Batch K) numBatches}

def Cursor (size : Nat) (start : Nat → Nat) (position index : Nat) : Prop :=
  index < 2 ∧ (start index ≤ position ∧ position < start index + size ∨
    position = start index + 2 * size)

structure Window (hashv : Hashv) (Z : Nat) (queued : List Bytes32) (applied : Nat)
    (start : Nat → Nat) (batches : Vector (Batch K) numBatches) : Prop where
  slice : ∀ i batch, batches[i]? = some batch → Slice hashv Z queued applied (start i) batch
  /-- Batch 0 takes the even ranges and batch 1 the odd ones. -/
  aligned : ∀ i, i < 2 → ∃ turn, start i = (2 * turn + i) * (K * Z)
  adjacent : start 1 = start 0 + K * Z ∨ start 0 = start 1 + K * Z
  start_le : min (start 0) (start 1) ≤ applied
  applied_le : applied ≤ queued.length
  queued_le : queued.length ≤ min (start 0) (start 1) + 2 * (K * Z)

namespace Window

theorem zkpBatchSize_pos (h : Window hashv Z queued applied start batches) : 0 < Z := by
  obtain ⟨batch, hbatch⟩ := exists_batch batches (i := 0) (by omega)
  exact (h.slice 0 batch hbatch).zkpBatchSize_pos

variable {c : Nat} {batch : Batch K}

section

variable (h : Window hashv Z queued applied start batches)

include h

theorem other {i : Nat} (hc : c < 2) (hi : i < 2) (hne : i ≠ c) :
    start i = start c + K * Z ∨ start c = start i + K * Z := by
  have hadjacent := h.adjacent
  rcases Nat.lt_or_ge c 1 with hzero | hone
  · obtain rfl : c = 0 := by omega
    obtain rfl : i = 1 := by omega
    exact hadjacent
  · obtain rfl : c = 1 := by omega
    obtain rfl : i = 0 := by omega
    exact hadjacent.symm

theorem start_le_of_lt (hc : c < 2) :
    min (start 0) (start 1) ≤ start c ∧ start c ≤ min (start 0) (start 1) + K * Z := by
  have hadjacent := h.adjacent
  rcases Nat.lt_or_ge c 1 with hzero | hone
  · obtain rfl : c = 0 := by omega
    omega
  · obtain rfl : c = 1 := by omega
    omega

theorem replace {queued' : List Bytes32} {applied' : Nat} {batch' : Batch K}
    (hbatch : Slice hashv Z queued' applied' (start c) batch')
    (hother : ∀ i other, i ≠ c → batches[i]? = some other → Slice hashv Z queued' applied' (start i) other)
    (hstart : min (start 0) (start 1) ≤ applied') (happlied : applied' ≤ queued'.length)
    (hqueued : queued'.length ≤ min (start 0) (start 1) + 2 * (K * Z)) :
    Window hashv Z queued' applied' start (batches.setIfInBounds c batch') := by
  refine ⟨?_, h.aligned, h.adjacent, hstart, happlied, hqueued⟩
  intro i batch hi
  rcases batch_of_set hi with ⟨rfl, rfl⟩ | ⟨hic, hi⟩
  · exact hbatch
  · exact hother i batch hic hi

theorem insert (hK : 0 < K) (hc : batches[c]? = some batch) (hlo : start c ≤ queued.length)
    (hhi : queued.length < start c + K * Z) {value : Bytes32} {hashChains : Vector Bytes32 K}
    {pendingValues : Vector Bytes32 2} (htakes : batch.TakesUp hashv value hashChains pendingValues) :
    Window hashv Z (queued ++ [value]) applied start
      (batches.setIfInBounds c (Batch.counted { batch with hashChains, pendingValues })) := by
  have hlen : (queued ++ [value]).length = queued.length + 1 := by simp
  have happlied := h.applied_le
  have hcursor := h.start_le_of_lt (index_lt hc)
  refine h.replace ((h.slice c batch hc).snoc hK happlied hlo hhi htakes) ?_ h.start_le ?_ ?_
  · intro i other hne hi
    have hother := h.other (index_lt hc) (index_lt hi) hne
    exact (h.slice i other hi).snoc_outside value (by omega)
  · omega
  · omega

theorem reuse (hK : 0 < K) (hc : batches[c]? = some batch)
    (hend : queued.length = start c + 2 * (K * Z)) (happlied : start c + K * Z ≤ applied) :
    Window hashv Z queued applied (Function.update start c (start c + 2 * (K * Z)))
      (batches.setIfInBounds c
        (batch.reset batch.batchSize batch.zkpBatchSize (start c + 2 * (K * Z) + 1))) := by
  have hpos : 0 < K * Z := Nat.mul_pos hK h.zkpBatchSize_pos
  have hqueued := h.queued_le
  have hle := h.applied_le
  have hlt := index_lt hc
  have hmin := h.start_le_of_lt hlt
  have hself : Function.update start c (start c + 2 * (K * Z)) c = start c + 2 * (K * Z) :=
    Function.update_self ..
  have hne : ∀ i, i ≠ c → Function.update start c (start c + 2 * (K * Z)) i = start i :=
    fun i hi => Function.update_of_ne hi ..
  -- The other range is the later one, or the queue would be past both.
  have hother : ∀ i, i < 2 → i ≠ c → start i = start c + K * Z := by
    intro i hi hic
    have hcases := h.other hlt hi hic
    have := h.start_le_of_lt hi
    omega
  have hstarts : (c = 0 ∧ start 1 = start 0 + K * Z) ∨ (c = 1 ∧ start 0 = start 1 + K * Z) := by
    rcases Nat.lt_or_ge c 1 with hzero | hone
    · obtain rfl : c = 0 := by omega
      exact .inl ⟨rfl, hother 1 (by omega) (by omega)⟩
    · obtain rfl : c = 1 := by omega
      exact .inr ⟨rfl, hother 0 (by omega) (by omega)⟩
  have hbounds : ∃ first second, Function.update start c (start c + 2 * (K * Z)) 0 = first ∧
      Function.update start c (start c + 2 * (K * Z)) 1 = second ∧
      (second = first + K * Z ∨ first = second + K * Z) ∧ min first second = start c + K * Z := by
    rcases hstarts with ⟨rfl, hone⟩ | ⟨rfl, hzero⟩
    · refine ⟨_, _, hself, hne 1 (by omega), ?_⟩
      omega
    · refine ⟨_, _, hne 0 (by omega), hself, ?_⟩
      omega
  obtain ⟨first, second, hfirst, hsecond, hadjacent, hmin'⟩ := hbounds
  refine ⟨?_, ?_, ?_, ?_, hle, ?_⟩
  · intro i other hi
    rcases batch_of_set hi with ⟨rfl, rfl⟩ | ⟨hic, hi⟩
    · rw [hself]
      exact (h.slice i batch hc).reset hK (by omega) (by omega)
    · rw [hne i hic]
      exact h.slice i other hi
  · intro i hi
    by_cases hic : i = c
    · subst hic
      obtain ⟨turn, hturn⟩ := h.aligned i hi
      refine ⟨turn + 1, ?_⟩
      rw [hself, hturn]
      ring
    · rw [hne i hic]
      exact h.aligned i hi
  · rw [hfirst, hsecond]
    exact hadjacent
  · rw [hfirst, hsecond]
    omega
  · rw [hfirst, hsecond]
    omega

theorem apply {p : Nat} (hp : batches[p]? = some batch) (hlo : start p ≤ applied)
    (hhi : applied < start p + K * Z) (hready : batch.numInsertedZkpBatches < batch.numFullZkpBatches)
    (hslot : batch.numInsertedZkpBatches < K) : Window hashv Z queued (applied + Z) start
      (batches.setIfInBounds p (batch.withApplied hslot)) := by
  have hslice := h.slice p batch hp
  have hdrained := hslice.drained
  have hstart := h.start_le
  have happlied : applied = start p + batch.numInsertedZkpBatches * Z := by omega
  have hwindow := hslice.window_le hready
  have hbound : (batch.numInsertedZkpBatches + 1) * Z ≤ K * Z := Nat.mul_le_mul_right Z hslot
  rw [Nat.succ_mul] at hbound
  refine h.replace (hslice.apply happlied hready) ?_ (by omega) (by omega) h.queued_le
  intro i other hne hi
  have hother := h.other (index_lt hp) (index_lt hi) hne
  exact (h.slice i other hi).apply_outside (by omega)

end

end Window

namespace Cursor

variable {size position index : Nat}

theorem advance (h : Window hashv Z queued applied start batches) (hindex : index < 2)
    (hlo : start index ≤ position) {count : Nat} (hK : 0 < K) (hhi : position + count ≤ start index + K * Z) :
    Cursor (K * Z) start (position + count)
      (if position + count = start index + K * Z then (index + 1) % 2 else index) := by
  have hpos : 0 < K * Z := Nat.mul_pos hK h.zkpBatchSize_pos
  split
  case isTrue hend =>
    have hother := h.other hindex (i := (index + 1) % 2) (by omega) (by omega)
    refine ⟨by omega, ?_⟩
    omega
  case isFalse hmore => exact ⟨hindex, by omega⟩

theorem reuse (h : Window hashv Z queued applied start batches) (hK : 0 < K) {c : Nat} (hc : c < 2)
    (hend : queued.length = start c + 2 * (K * Z)) (hlo : start c + K * Z ≤ position)
    (hhi : position ≤ queued.length) (hcursor : Cursor (K * Z) start position index) :
    Cursor (K * Z) (Function.update start c (start c + 2 * (K * Z))) position index := by
  have hpos : 0 < K * Z := Nat.mul_pos hK h.zkpBatchSize_pos
  obtain ⟨hindex, hrange⟩ := hcursor
  refine ⟨hindex, ?_⟩
  by_cases hic : index = c
  · subst hic
    rw [Function.update_self]
    omega
  · rw [Function.update_of_ne hic]
    exact hrange

end Cursor

end Zolana
