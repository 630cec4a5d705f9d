import Zolana.Photon.NullifierTree
import Zolana.Properties.Application

/-!
# The law of cascade events

One event stands for all updates an instruction applied. Its shared fields are those of the first
update, so together with the count they determine every step of the cascade.
-/

namespace Zolana

open NullifierTreeLayout

variable {K Z : Nat} {env : Env} {run : Run K}

/-! ### The recorded event -/

theorem foldl_recordUpdate_some (merkleTreePubkey : Bytes32) (rest : List AppliedUpdate)
    (event : NullifierTreeUpdateEvent) :
    rest.foldl (recordUpdate merkleTreePubkey Z) (some event) = some { event with
      numUpdate := event.numUpdate + rest.length
      newRoot := (rest.map AppliedUpdate.newRoot).getLastD event.newRoot } := by
  induction rest generalizing event with
  | nil => rfl
  | cons update rest ih =>
      rw [List.foldl_cons]
      have hrecord : recordUpdate merkleTreePubkey Z (some event) update = some { event with
          numUpdate := event.numUpdate + 1
          newRoot := update.newRoot } := rfl
      rw [hrecord, ih, List.map_cons, List.getLastD_cons, List.length_cons]
      congr 2
      show event.numUpdate + 1 + rest.length = event.numUpdate + (rest.length + 1)
      omega

def cascadeEvent (merkleTreePubkey : Bytes32) (zkpBatchSize : Nat) (first : AppliedUpdate)
    (rest : List AppliedUpdate) : NullifierTreeUpdateEvent where
  merkleTreePubkey := merkleTreePubkey
  zkpBatchSize := zkpBatchSize % 2 ^ 16
  oldNextIndex := first.oldNextIndex
  startSequenceNumber := first.sequenceNumber
  firstRootIndex := first.rootIndex
  numUpdate := 1 + rest.length
  firstZkpBatchIndex := first.zkpBatchIndex % 2 ^ 32
  newRoot := (rest.map AppliedUpdate.newRoot).getLastD first.newRoot

theorem foldl_recordUpdate_none (merkleTreePubkey : Bytes32) (first : AppliedUpdate)
    (rest : List AppliedUpdate) : (first :: rest).foldl (recordUpdate merkleTreePubkey Z) none
      = some (cascadeEvent merkleTreePubkey Z first rest) := by
  rw [List.foldl_cons]
  exact foldl_recordUpdate_some merkleTreePubkey rest _

/-! ### The log after a cascade -/

theorem getElem?_rootLog_append (applied new : List AppliedUpdate) (i : Nat) :
    (rootLog (applied ++ new))[applied.length + 1 + i]? = new[i]?.map AppliedUpdate.newRoot := by
  rw [rootLog, Nat.add_right_comm, List.getElem?_cons_succ, List.getElem?_map,
    List.getElem?_append_right (by omega), Nat.add_sub_cancel_left]

theorem getLastD_eq_getElem? {α : Type} (first : α) (rest : List α) :
    (first :: rest)[rest.length]? = some (rest.getLastD first) := by
  induction rest generalizing first with
  | nil => rfl
  | cons second rest ih =>
      rw [List.length_cons, List.getElem?_cons_succ, List.getLastD_cons]
      exact ih second

theorem Env.onChain_accepts_length {hashv : Hashv}
    {verify : BatchAddressAppendKey → Bytes32 → NullifierTreeProof → Except NullifierTreeError Unit}
    {oldRoot newRoot : Bytes32} {values : List Bytes32} {startIndex : Nat} {proof : NullifierTreeProof}
    (h : (Env.onChain hashv verify).Accepts oldRoot newRoot values startIndex proof) :
    values.length = 10 ∨ values.length = 4999 := by
  obtain ⟨_, publicInputHash, _, _, hverify⟩ := h
  simp only [Env.onChain] at hverify
  unfold Zolana.verifyBatchUpdate at hverify
  split at hverify
  case h_1 hsize => exact .inl hsize
  case h_2 hsize => exact .inr hsize
  case h_3 => exact absurd hverify (by simp)

/-! ### The law -/

/-- What an event says about the call that returned it, from state `s` to state `t` with the updates
`applied` in order. -/
structure EventLaw (s t : NullifierTreeLayout K) (applied : List AppliedUpdate)
    (event : NullifierTreeUpdateEvent) : Prop where
  numUpdate_pos : 1 ≤ event.numUpdate
  numUpdate_le : event.numUpdate ≤ K
  numUpdate_fits : event.numUpdate < 2 ^ 32
  length_applied : applied.length = event.numUpdate
  oldNextIndex : event.oldNextIndex = s.nextIndex
  nextIndex : t.nextIndex = event.oldNextIndex + event.numUpdate * event.zkpBatchSize
  startSequenceNumber : event.startSequenceNumber = s.sequenceNumber + 1
  sequenceNumber : t.sequenceNumber = event.startSequenceNumber + event.numUpdate - 1
  firstZkpBatchIndex : ∃ batch, s.getBatch s.pendingBatchIndex = some batch ∧
    event.firstZkpBatchIndex = batch.numInsertedZkpBatches
  roots : ∀ i update, applied[i]? = some update →
    t.rootHistory.roots[(event.firstRootIndex + i) % K]? = some update.newRoot
  one_batch : ∀ i update, applied[i]? = some update →
    update.batchIndex = s.pendingBatchIndex ∧ update.zkpBatchIndex = event.firstZkpBatchIndex + i
  newRoot : t.getRoot = some event.newRoot

theorem Consistent.root_of_sequenceNumber (h : Consistent env Z run) {n : Nat} {update : AppliedUpdate}
    (hn : run.applied[n]? = some update) (hkept : run.applied.length < n + 1 + K) :
    run.tree.rootHistory.roots[update.sequenceNumber % K]? = some update.newRoot := by
  have hlt : n < run.applied.length := (List.getElem?_eq_some_iff.mp hn).1
  have hrecent := h.roots.recent (n + 1)
  rw [length_rootLog, rootLog, List.getElem?_cons_succ, List.getElem?_map, hn] at hrecent
  rw [(h.log n update hn).sequenceNumber]
  exact hrecent (by omega) (by omega)

theorem Cascades.eventLaw {start : Nat → Nat} {batch : Batch K} {first : AppliedUpdate}
    {rest : List AppliedUpdate} {tree : NullifierTreeLayout K} (h : Consistent env Z run)
    (hqueue : Queue env Z run.queued run.submitted (run.applied.length * Z) start run.tree)
    (hbatch : run.tree.getBatch run.tree.pendingBatchIndex = some batch)
    (hslot : batch.numInsertedZkpBatches < K) {submitted : List InstructionDataBatchNullifyInputs}
    (hcascades : Consistent env Z
      { run with tree, applied := run.applied ++ first :: rest, submitted })
    (hle : (first :: rest).length + run.applied.length % K ≤ K) (hZ : Z < 2 ^ 16) (merkleTreePubkey : Bytes32) :
    EventLaw run.tree tree (first :: rest) (cascadeEvent merkleTreePubkey Z first rest) := by
  have hlen : (run.applied ++ first :: rest).length = run.applied.length + (1 + rest.length) := by
    rw [List.length_append, List.length_cons]
    omega
  rw [List.length_cons] at hle
  obtain ⟨turn, _, hposition⟩ := hqueue.position hbatch hslot
  have hmod := position_mod hposition hslot
  have hget : ∀ i update, (first :: rest)[i]? = some update →
      (run.applied ++ first :: rest)[run.applied.length + i]? = some update := by
    intro i update hi
    rw [List.getElem?_append_right (by omega), Nat.add_sub_cancel_left]
    exact hi
  -- The log entry of each update of the cascade.
  have hlog : ∀ i update, (first :: rest)[i]? = some update → AppliedAt env K Z run.queued submitted
      (rootLog (run.applied ++ first :: rest)) (run.applied.length + i) update :=
    fun i update hi => hcascades.log _ _ (hget i update hi)
  have hindex : ∀ i, i ≤ rest.length → (run.applied.length + i) / K = 2 * turn + run.tree.pendingBatchIndex ∧
      (run.applied.length + i) % K = batch.numInsertedZkpBatches + i := by
    intro i hi
    have hpos : run.applied.length + i
        = (2 * turn + run.tree.pendingBatchIndex) * K + (batch.numInsertedZkpBatches + i) := by omega
    exact ⟨position_div hpos (by omega), position_mod hpos (by omega)⟩
  have hfirst := hlog 0 first rfl
  have hlast := hlog rest.length _ (getLastD_eq_getElem? first rest)
  have hbound := hlast.verified.index_lt
  rw [(hindex rest.length (Nat.le_refl _)).2] at hbound
  have hfirstIndex : first.zkpBatchIndex % 2 ^ 32 = batch.numInsertedZkpBatches := by
    rw [hfirst.zkpBatchIndex, (hindex 0 (Nat.zero_le _)).2]
    exact Nat.mod_eq_of_lt (by omega)
  refine {
    numUpdate_pos := Nat.le_add_right 1 rest.length
    numUpdate_le := ?_
    numUpdate_fits := ?_
    length_applied := Nat.add_comm rest.length 1
    oldNextIndex := ?_
    nextIndex := ?_
    startSequenceNumber := ?_
    sequenceNumber := ?_
    firstZkpBatchIndex := ⟨batch, hbatch, hfirstIndex⟩
    roots := ?_
    one_batch := ?_
    newRoot := ?_ }
  · show 1 + rest.length ≤ K
    omega
  · show 1 + rest.length < 2 ^ 32
    omega
  · exact hfirst.oldNextIndex.trans h.nextIndex.symm
  · show tree.nextIndex = first.oldNextIndex + (1 + rest.length) * (Z % 2 ^ 16)
    have hnext : tree.nextIndex = (run.applied ++ first :: rest).length * Z + 1 := hcascades.nextIndex
    have hold : first.oldNextIndex = run.applied.length * Z + 1 := hfirst.oldNextIndex
    rw [hnext, hold, hlen, Nat.mod_eq_of_lt hZ, Nat.add_mul]
    omega
  · show first.sequenceNumber = run.tree.sequenceNumber + 1
    rw [hfirst.sequenceNumber, h.sequenceNumber]
  · show tree.sequenceNumber = first.sequenceNumber + (1 + rest.length) - 1
    have hsequence : tree.sequenceNumber = (run.applied ++ first :: rest).length :=
      hcascades.sequenceNumber
    rw [hsequence, hfirst.sequenceNumber, hlen]
    omega
  · intro i update hi
    have hlt : i < (first :: rest).length := (List.getElem?_eq_some_iff.mp hi).1
    rw [List.length_cons] at hlt
    have hkept := hcascades.root_of_sequenceNumber (hget i update hi) (by rw [hlen]; omega)
    show tree.rootHistory.roots[(first.rootIndex + i) % K]? = some update.newRoot
    rwa [hfirst.rootIndex, Nat.mod_add_mod, Nat.add_zero, Nat.add_right_comm, ← (hlog i update hi).sequenceNumber]
  · intro i update hi
    have hlt : i < (first :: rest).length := (List.getElem?_eq_some_iff.mp hi).1
    rw [List.length_cons] at hlt
    have hat := hlog i update hi
    obtain ⟨hdiv, hrem⟩ := hindex i (by omega)
    obtain ⟨hpending, _⟩ := hqueue.pending
    refine ⟨?_, ?_⟩
    · rw [hat.batchIndex, hdiv]
      omega
    · rw [hat.zkpBatchIndex, hrem]
      show _ = first.zkpBatchIndex % 2 ^ 32 + i
      rw [hfirstIndex]
  · have hroot : tree.getRoot
        = (rootLog (run.applied ++ first :: rest))[(run.applied ++ first :: rest).length]? :=
      hcascades.getRoot
    have hgetLast := getLastD_eq_getElem? first.newRoot (rest.map AppliedUpdate.newRoot)
    rw [← List.map_cons (f := AppliedUpdate.newRoot), List.getElem?_map, List.length_map] at hgetLast
    rw [hroot, hlen, ← Nat.add_assoc, getElem?_rootLog_append]
    exact hgetLast

/-! ### The indexer -/

theorem Photon.rootIndex_eq_ok {rootSeq capacity : Nat} {index : UInt16} (hpos : 0 < capacity) :
    Photon.rootIndex rootSeq capacity capacity = .ok index ↔
      rootSeq % capacity < 2 ^ 16 ∧ index = UInt16.ofNat (rootSeq % capacity) := by
  simp only [Photon.rootIndex, ne_eq, not_true_eq_false, if_false, if_neg hpos.ne']
  split
  case isTrue hfits =>
    rw [and_iff_right hfits, Except.ok.injEq, eq_comm]
  case isFalse hfits => exact iff_of_false nofun fun h => hfits h.1

theorem Consistent.sequenceNumber_lt (h : Consistent env Z run) : run.tree.sequenceNumber < 2 ^ 64 := by
  obtain ⟨start, hqueue⟩ := h.queue
  have happlied := hqueue.window.applied_le
  have hmul := Nat.mul_le_mul_left run.applied.length hqueue.window.zkpBatchSize_pos
  have hqueueNext := h.queueNextIndex
  have hle := h.queue_le
  have hcapacity := h.capacity_lt
  rw [h.sequenceNumber]
  omega

theorem EventLaw.parse {s t : NullifierTreeLayout K} {applied : List AppliedUpdate}
    {event : NullifierTreeUpdateEvent} (h : EventLaw s t applied event)
    (hbound : t.sequenceNumber < 2 ^ 64) (signature : String) :
    ∃ stored, Photon.parseNullifierTreeBatchUpdate signature event = .ok stored ∧
      stored.sequenceNumber = t.sequenceNumber ∧ t.getRoot = some stored.newRoot := by
  have hpos := h.numUpdate_pos
  have hsequence := h.sequenceNumber
  have hadd : Fallible.checkedAdd event.startSequenceNumber (event.numUpdate - 1)
      = some (event.startSequenceNumber + (event.numUpdate - 1)) :=
    Fallible.checkedAdd_of_lt (by omega)
  unfold Photon.parseNullifierTreeBatchUpdate
  rw [hadd]
  refine ⟨_, rfl, ?_, h.newRoot⟩
  show event.startSequenceNumber + (event.numUpdate - 1) = t.sequenceNumber
  omega

/-- The root index is the sequence number modulo the history length, which is how photon derives it, and the
history has the root of the update there for as long as it keeps it. Every event of an update call satisfies
`EventLaw`, and a call without one changes nothing but cached updates. -/
theorem cascade_event_law {hashv : Hashv}
    {verify : BatchAddressAppendKey → Bytes32 → NullifierTreeProof → Except NullifierTreeError Unit}
    {testOnly : Bool} {batchSize height : Nat}
    (h : Reachable (Env.onChain hashv verify) testOnly batchSize Z height run) :
    run.tree.getRootIndex = run.tree.sequenceNumber % K ∧
    (∀ rootSeq index, Photon.rootIndex rootSeq K K = .ok index → index.toNat = rootSeq % K) ∧
    (K ≤ 2 ^ 16 → ∀ rootSeq, Photon.rootIndex rootSeq K K = .ok (UInt16.ofNat (rootSeq % K))) ∧
    (∀ n update, run.applied[n]? = some update → run.applied.length < n + 1 + K →
      run.tree.rootHistory.roots[update.sequenceNumber % K]? = some update.newRoot) ∧
    (∀ merkleTreePubkey data cascade tree,
      (updateTreeFromQueue (Env.onChain hashv verify) merkleTreePubkey data).run run.tree = .ok cascade tree →
      (∀ event, cascade.event = some event → EventLaw run.tree tree cascade.applied event ∧
        ∀ signature, ∃ stored, Photon.parseNullifierTreeBatchUpdate signature event = .ok stored ∧
          stored.sequenceNumber = tree.sequenceNumber ∧ tree.getRoot = some stored.newRoot) ∧
      (cascade.event = none → forgetCache tree = forgetCache run.tree)) := by
  have hconsistent := h.consistent
  obtain ⟨start, hqueue⟩ := hconsistent.queue
  obtain ⟨batch, hbatch⟩ := hqueue.exists_pending
  refine ⟨?_, ?_, ?_, ?_, ?_⟩
  · rw [hconsistent.getRootIndex, hconsistent.sequenceNumber]
  · intro rootSeq index hindex
    obtain ⟨hfits, rfl⟩ := (Photon.rootIndex_eq_ok hconsistent.K_pos).mp hindex
    exact UInt16.toNat_ofNat_of_lt' hfits
  · intro hK rootSeq
    have hlt := Nat.mod_lt rootSeq hconsistent.K_pos
    exact (Photon.rootIndex_eq_ok hconsistent.K_pos).mpr ⟨hlt.trans_le hK, rfl⟩
  · intro n update hn hkept
    exact hconsistent.root_of_sequenceNumber hn hkept
  · intro merkleTreePubkey data cascade tree hcall
    rcases hconsistent.run_update merkleTreePubkey data hqueue hbatch with
      ⟨hslot, new, tree', _, _, haccepted, hcascades, hrun⟩ | ⟨_, hrun⟩ | ⟨_, e, hrun⟩
    · rw [hrun] at hcall
      obtain ⟨rfl, rfl⟩ := EStateM.Result.ok.inj hcall
      cases new with
      | nil =>
          refine ⟨fun event hevent => absurd hevent (by simp), fun _ => ?_⟩
          rw [hcascades.unchanged rfl]
          exact forgetCache_setBatch hbatch rfl
      | cons first rest =>
          rw [foldl_recordUpdate_none]
          refine ⟨?_, fun hnone => absurd hnone (by simp)⟩
          intro event hevent
          obtain rfl := Option.some.inj hevent
          have hsize := Env.onChain_accepts_length haccepted.accepts
          have hslice := hqueue.window.slice _ batch hbatch
          rw [length_queueWindow (hslice.window_le haccepted.complete)] at hsize
          have hready := Nat.lt_of_le_of_lt haccepted.unapplied haccepted.complete
          have hlaw := Cascades.eventLaw hconsistent hqueue hbatch
            (Nat.lt_of_lt_of_le hready hslice.numFull_le) hcascades.consistent hcascades.length_le
            (by omega) merkleTreePubkey
          exact ⟨hlaw, hlaw.parse hcascades.consistent.sequenceNumber_lt⟩
    · rw [hrun] at hcall
      obtain ⟨rfl, rfl⟩ := EStateM.Result.ok.inj hcall
      exact ⟨fun event hevent => absurd hevent (by simp), fun _ => rfl⟩
    · rw [hrun] at hcall
      exact absurd hcall (by simp)

/-! ### One update of ten values -/

def Env.tens : Env := Env.onChain Hashv.sum fun _ _ _ => .ok ()

def tenCalls : List Call :=
  (List.range 10).map (fun i => .insert (BitVec.ofNat 256 i)) ++ [.update 0 firstUpdate]

def tenRun : Run 2 := Run.calls Env.tens ⟨initialised Nat.zero_lt_two 10 40, [], [], []⟩ tenCalls

theorem reachable_tenRun : Reachable Env.tens false 20 10 40 tenRun :=
  (Reachable.init rfl).calls tenCalls

theorem cascade_event_law_tenRun : tenRun.tree.sequenceNumber = 1 ∧
    tenRun.tree.getRootIndex = tenRun.tree.sequenceNumber % 2 ∧ Photon.rootIndex 1 2 2 = .ok 1 ∧
    tenRun.tree.rootHistory.roots[1 % 2]? = some 5 := by
  obtain ⟨hindex, -, hderives, hkept, -⟩ := cascade_event_law reachable_tenRun
  exact ⟨by decide +kernel, hindex, hderives (by decide) 1,
    hkept 0 ⟨0, 0, 1, 1, 1, nullifierTreeInitRoot40, 5⟩ (by decide +kernel) (by decide +kernel)⟩

end Zolana
