import Zolana.Lib.Ring
import Zolana.Proof.UtxoAppend
import Zolana.UtxoTree.Run

/-!
# The root history of the UTXO tree

The ring holds a log: the empty root, and the final root of each slot that had an update. `History` ties
the cursor, the length and the entries to the updates of a run, and every call keeps it.
-/

namespace Zolana

open UtxoTreeLayout

variable {HEIGHT : Nat} {hashv : Hashv}

/-! ### Final updates -/

theorem finalUpdates_snoc (updates : List RootUpdate) (update : RootUpdate) :
    finalUpdates (updates ++ [update]) =
      (finalUpdates updates).filter (fun earlier => earlier.slot ≠ update.slot) ++ [update] := by
  induction updates with
  | nil => rfl
  | cons first updates ih =>
      rw [List.cons_append, finalUpdates, finalUpdates, ih]
      by_cases hlater : updates.any fun later => later.slot = first.slot
      · simp [hlater]
      · by_cases hsame : update.slot = first.slot
        · simp [hlater, hsame]
        · simp [hlater, hsame, Ne.symm hsame]

theorem mem_of_mem_finalUpdates {updates : List RootUpdate} {update : RootUpdate}
    (h : update ∈ finalUpdates updates) : update ∈ updates := by
  induction updates with
  | nil => exact h
  | cons first updates ih =>
      rw [finalUpdates] at h
      split at h
      · exact List.mem_cons_of_mem _ (ih h)
      · obtain rfl | h := List.mem_cons.mp h
        · exact List.mem_cons_self
        · exact List.mem_cons_of_mem _ (ih h)

theorem slots_finalUpdates (updates : List RootUpdate) :
    (finalUpdates updates).map (·.slot) = (updates.map (·.slot)).dedup := by
  induction updates with
  | nil => rfl
  | cons first updates ih =>
      rw [finalUpdates, List.map_cons]
      split
      case isTrue hlater =>
        rw [List.dedup_cons_of_mem, ih]
        simpa using hlater
      case isFalse hlater =>
        rw [List.dedup_cons_of_notMem, List.map_cons, ih]
        simpa using hlater

theorem finalUpdates_same (updates : List RootUpdate) {last : RootUpdate} (update : RootUpdate)
    (hslot : update.slot = last.slot) : ∃ finals, finalUpdates (updates ++ [last]) = finals ++ [last] ∧
      finalUpdates (updates ++ [last] ++ [update]) = finals ++ [update] := by
  refine ⟨_, finalUpdates_snoc updates last, ?_⟩
  rw [finalUpdates_snoc, finalUpdates_snoc, List.filter_append, hslot]
  simp

theorem finalUpdates_next {updates : List RootUpdate} {update : RootUpdate}
    (hslot : ∀ earlier ∈ updates, earlier.slot < update.slot) :
    finalUpdates (updates ++ [update]) = finalUpdates updates ++ [update] := by
  rw [finalUpdates_snoc, List.filter_eq_self.mpr]
  intro earlier hearlier
  have := hslot earlier (mem_of_mem_finalUpdates hearlier)
  simp only [ne_eq, decide_not, Bool.not_eq_true', decide_eq_false_iff_not]
  omega

/-! ### The invariant -/

/-- Everything the ring has been written with that counts. -/
def historyLog (HEIGHT : Nat) (updates : List RootUpdate) : List Bytes32 :=
  zeroByte HEIGHT :: (finalUpdates updates).map (·.root)

@[simp] theorem length_historyLog (HEIGHT : Nat) (updates : List RootUpdate) :
    (historyLog HEIGHT updates).length = (finalUpdates updates).length + 1 := by
  simp [historyLog]

structure History (tree : UtxoTreeLayout HEIGHT) (updates : List RootUpdate) : Prop where
  recent : Ring.Recent tree.rootHistory (historyLog HEIGHT updates)
  cursor : tree.rootHistoryCursor.toNat = (finalUpdates updates).length % rootHistoryCapacity
  len : tree.rootHistoryLen.toNat = min ((finalUpdates updates).length + 1) rootHistoryCapacity
  capacity : tree.rootHistoryCapacity = 500
  subtreesLen : tree.subtreesLen = HEIGHT
  root : (historyLog HEIGHT updates).getLast? = some tree.root
  latest : ∀ earlier last, updates = earlier ++ [last] → last.slot = tree.lastUpdateSlot
  slots : ∀ update ∈ updates, update.slot ≤ tree.lastUpdateSlot
  started : updates ≠ [] → tree.nextIndex ≠ 0
  /-- A first batch that does not fit fills the tree before it fails. -/
  unstarted : updates = [] → tree.nextIndex = 0 ∨ 2 ^ HEIGHT ≤ tree.nextIndex

namespace History

theorem initial {height : Nat} {blank tree : UtxoTreeLayout HEIGHT}
    (hinit : (init height).run blank = .ok () tree) : History tree [] := by
  obtain ⟨-, rfl⟩ := UtxoTreeLayout.run_init hinit
  refine
    { recent := ?_
      cursor := rfl
      len := rfl
      capacity := rfl
      subtreesLen := rfl
      root := rfl
      latest := fun earlier last hnil => absurd hnil (by simp)
      slots := fun update hmem => absurd hmem (by simp)
      started := fun hne => absurd rfl hne
      unstarted := fun _ => .inl rfl }
  have hempty : Ring.Recent blank.rootHistory [] := by
    intro i hi
    simp at hi
  exact hempty.push (Ring.Writes.setIfInBounds blank.rootHistory (by decide) (zeroByte HEIGHT))

/-- A tree that is full or has changed below the history only. -/
theorem frame {tree tree' : UtxoTreeLayout HEIGHT} {updates : List RootUpdate} (h : History tree updates)
    (subtrees : Vector Bytes32 HEIGHT) {nextIndex : Nat} (hfull : 2 ^ HEIGHT ≤ nextIndex)
    (htree' : tree' = { tree with subtrees, nextIndex }) : History tree' updates := by
  subst htree'
  refine
    { h with
      started := fun _ => ?_
      unstarted := fun _ => .inr hfull }
  have := Nat.two_pow_pos HEIGHT
  show nextIndex ≠ 0
  omega

section Update

variable {tree : UtxoTreeLayout HEIGHT} {updates : List RootUpdate} {subtrees : Vector Bytes32 HEIGHT}
  {root : Bytes32} {count slot : Nat}

theorem latest_snoc {earlier : List RootUpdate} {last : RootUpdate}
    (hsnoc : updates ++ [⟨slot, root⟩] = earlier ++ [last]) : last.slot = slot := by
  obtain ⟨-, hlast⟩ := List.append_inj' hsnoc rfl
  injection hlast with hlast
  rw [← hlast]

theorem sameSlot (h : History tree updates) (hnonempty : tree.nextIndex ≠ 0)
    (hroom : tree.nextIndex < 2 ^ HEIGHT) (hslot : slot = tree.lastUpdateSlot) :
    History (afterBatch subtrees root count slot false tree) (updates ++ [⟨slot, root⟩]) := by
  have hstarted : updates ≠ [] := by
    intro hnil
    have := h.unstarted hnil
    omega
  obtain ⟨earlier, last, rfl⟩ := List.eq_nil_or_concat' updates |>.resolve_left hstarted
  have hsame : slot = last.slot := by rw [h.latest earlier last rfl, hslot]
  obtain ⟨finals, hfinals, hfinals'⟩ := finalUpdates_same earlier ⟨slot, root⟩ hsame
  have hlength : (finalUpdates (earlier ++ [last] ++ [⟨slot, root⟩])).length =
      (finalUpdates (earlier ++ [last])).length := by
    rw [hfinals, hfinals', List.length_append, List.length_append]
    rfl
  rw [afterBatch_same hslot]
  refine
    { recent := ?_
      cursor := by rw [hlength]; exact h.cursor
      len := by rw [hlength]; exact h.len
      capacity := h.capacity
      subtreesLen := h.subtreesLen
      root := ?_
      latest := fun _ _ hsnoc => (latest_snoc hsnoc).trans hslot
      slots := List.forall_mem_append.mpr ⟨h.slots, List.forall_mem_singleton.mpr hslot.le⟩
      started := fun _ => by show tree.nextIndex + count ≠ 0; omega
      unstarted := fun hnil => absurd hnil (by simp) }
  · have hrecent := h.recent
    have hcursor := h.cursor
    rw [historyLog, hfinals, List.map_append, ← List.cons_append] at hrecent
    rw [hfinals, List.length_append, List.length_singleton] at hcursor
    rw [historyLog, hfinals', List.map_append, ← List.cons_append]
    refine hrecent.replace ?_
    rw [List.length_cons, List.length_map, ← hcursor]
    exact Ring.Writes.setIfInBounds tree.rootHistory (hcursor ▸ Nat.mod_lt _ (by decide)) root
  · rw [historyLog, hfinals', List.map_append, ← List.cons_append]
    exact List.getLast?_concat

theorem newSlot (h : History tree updates) {isFirstUpdate : Bool} (hcount : 0 < count)
    (hslot : (isFirstUpdate = true ∧ tree.nextIndex = 0) ∨ tree.lastUpdateSlot < slot) :
    History (afterBatch subtrees root count slot isFirstUpdate tree) (updates ++ [⟨slot, root⟩]) := by
  have hearlier : ∀ earlier ∈ updates, earlier.slot < slot := by
    intro earlier hmem
    obtain ⟨-, hzero⟩ | hlt := hslot
    · exact absurd hzero (h.started (List.ne_nil_of_mem hmem))
    · exact (h.slots earlier hmem).trans_lt hlt
  have hfinals : finalUpdates (updates ++ [⟨slot, root⟩]) = finalUpdates updates ++ [⟨slot, root⟩] :=
    finalUpdates_next hearlier
  have hnext : (tree.rootHistoryCursor.toNat + 1) % rootHistoryCapacity =
      ((finalUpdates updates).length + 1) % rootHistoryCapacity := by
    rw [h.cursor, Nat.mod_add_mod]
  have hlt : ((finalUpdates updates).length + 1) % rootHistoryCapacity < 500 :=
    Nat.mod_lt _ (by decide)
  rw [afterBatch_next (by
    rintro ⟨hfirst, hsame⟩
    obtain ⟨htrue, -⟩ | hlt := hslot
    · exact absurd (htrue.symm.trans hfirst) (by simp)
    · omega), hnext]
  refine
    { recent := ?_
      cursor := ?_
      len := ?_
      capacity := h.capacity
      subtreesLen := h.subtreesLen
      root := ?_
      latest := fun _ _ hsnoc => latest_snoc hsnoc
      slots := List.forall_mem_append.mpr
        ⟨fun earlier hmem => (hearlier earlier hmem).le, List.forall_mem_singleton.mpr le_rfl⟩
      started := fun _ => by show tree.nextIndex + count ≠ 0; omega
      unstarted := fun hnil => absurd hnil (by simp) }
  · rw [historyLog, hfinals, List.map_append, ← List.cons_append]
    refine h.recent.push ?_
    rw [length_historyLog]
    exact Ring.Writes.setIfInBounds tree.rootHistory hlt root
  · rw [hfinals, List.length_append, List.length_singleton]
    exact UInt16.toNat_ofNat_of_lt' (hlt.trans (by decide))
  · rw [hfinals, List.length_append, List.length_singleton]
    show (UInt16.ofNat (min (tree.rootHistoryLen.toNat + 1) rootHistoryCapacity)).toNat = _
    have hmin : min (tree.rootHistoryLen.toNat + 1) rootHistoryCapacity =
        min ((finalUpdates updates).length + 1 + 1) rootHistoryCapacity := by
      rw [h.len]
      omega
    rw [hmin]
    exact UInt16.toNat_ofNat_of_lt' ((Nat.min_le_right _ _).trans_lt (by decide))
  · rw [historyLog, hfinals, List.map_append, ← List.cons_append]
    exact List.getLast?_concat

end Update

section Calls

variable (hHashv : hashv.Total) (hZero : hashv.DerivesZeroBytes) (hheight : HEIGHT ≤ 40)

include hHashv hZero hheight

theorem call {run : UtxoRun HEIGHT} (h : History run.tree run.updates) (hintact : Intact hashv run.tree)
    {call : AppendCall} (hcanonical : ∀ leaf ∈ call.leaves, isCanonicalBn254ScalarBe leaf = true) :
    History (run.call hashv call).tree (run.call hashv call).updates ∧ Intact hashv (run.call hashv call).tree := by
  obtain ⟨leaves, slot⟩ := call
  by_cases hleaves : leaves = []
  · subst hleaves
    simp only [UtxoRun.call, run_appendBatch_nil, if_true]
    exact ⟨h, hintact⟩
  by_cases hslot : run.tree.nextIndex = 0 ∨ run.tree.lastUpdateSlot ≤ slot
  · have hrun : (appendBatch hashv leaves slot).run run.tree = _ := run_appendBatch hslot
    have hpos : 0 < leaves.length := List.length_pos_iff.mpr hleaves
    obtain ⟨subtrees, root, hfits, hok, hintact'⟩ | ⟨subtrees, nextIndex, hfull, herr⟩ :=
      hintact.appendLeaves_cases hHashv hZero hheight slot (decide (run.tree.nextIndex = 0)) hleaves hcanonical
    · simp only [UtxoRun.call, hrun, hok, if_neg hleaves, root_afterBatch]
      refine ⟨?_, hintact'⟩
      by_cases hsame : run.tree.nextIndex ≠ 0 ∧ slot = run.tree.lastUpdateSlot
      · rw [decide_eq_false hsame.1]
        exact h.sameSlot hsame.1 (by omega) hsame.2
      · refine h.newSlot hpos ?_
        by_cases hzero : run.tree.nextIndex = 0
        · exact .inl ⟨decide_eq_true hzero, hzero⟩
        · right
          have := hslot.resolve_left hzero
          have := fun heq => hsame ⟨hzero, heq⟩
          omega
    · simp only [UtxoRun.call, hrun, herr]
      exact ⟨h.frame subtrees hfull rfl, .inr hfull⟩
  · have hrun : (appendBatch hashv leaves slot).run run.tree = .error .invalidUpdateSlot run.tree :=
      run_appendBatch_stale hleaves (by omega) (by omega)
    simp only [UtxoRun.call, hrun]
    exact ⟨h, hintact⟩

theorem calls {run : UtxoRun HEIGHT} (h : History run.tree run.updates) (hintact : Intact hashv run.tree)
    {calls : List AppendCall}
    (hcanonical : ∀ call ∈ calls, ∀ leaf ∈ call.leaves, isCanonicalBn254ScalarBe leaf = true) :
    History (run.calls hashv calls).tree (run.calls hashv calls).updates := by
  induction calls generalizing run with
  | nil => exact h
  | cons call calls ih =>
      obtain ⟨hcall, hcalls⟩ := List.forall_mem_cons.mp hcanonical
      obtain ⟨h', hintact'⟩ := h.call hHashv hZero hheight hintact hcall
      exact ih h' hintact' hcalls

end Calls

/-! ### What the history says -/

section Read

variable {tree : UtxoTreeLayout HEIGHT} {updates : List RootUpdate}

theorem checkLayout (h : History tree updates) : tree.checkLayout = .ok () := by
  have hcapacity : rootHistoryCapacity = 500 := rfl
  have hcursor := h.cursor
  have hlen := h.len
  rw [hcapacity] at hcursor hlen
  have hlt := Nat.mod_lt (finalUpdates updates).length (show 0 < 500 by decide)
  rw [UtxoTreeLayout.checkLayout, if_neg]
  rw [h.capacity, h.subtreesLen, hcursor, hlen, hcapacity]
  rw [show (500 : UInt16).toNat = 500 from rfl]
  by_cases hfull : (finalUpdates updates).length + 1 < 500
  · rw [Nat.mod_eq_of_lt (by omega)]
    omega
  · omega

theorem length_lt_of_rootHistoryLen (h : History tree updates) {j : Nat} (hj : j < rootHistoryCapacity) :
    j < (historyLog HEIGHT updates).length ↔
      ¬ (tree.rootHistoryLen.toNat < rootHistoryCapacity ∧ tree.rootHistoryLen.toNat ≤ j) := by
  rw [length_historyLog, h.len]
  omega

/-- An index is accepted for the root its entry holds, unless nothing has reached the entry. -/
theorem rootByIndex_eq_ok_iff (h : History tree updates) {index : UInt16} {root : Bytes32} :
    tree.rootByIndex index = .ok root ↔ root ≠ 0 ∧ index.toNat < (historyLog HEIGHT updates).length ∧
        tree.rootHistory[index.toNat]? = some root := by
  have hlen : tree.rootHistoryLen.toNat ≠ 0 := by
    rw [h.len, rootHistoryCapacity]
    omega
  by_cases hindex : index.toNat < rootHistoryCapacity
  · have hsome : tree.rootHistory[index.toNat]? = some tree.rootHistory[index.toNat] :=
      Vector.getElem?_eq_getElem hindex
    have hreached := h.length_lt_of_rootHistoryLen hindex
    have hguard : ¬ (tree.rootHistoryLen.toNat = 0 ∨ rootHistoryCapacity ≤ index.toNat) := by omega
    simp only [rootByIndex, if_neg hguard, hsome, hreached]
    split
    case isTrue hpast =>
      simp [hpast]
    case isFalse hpast =>
      by_cases hzero : tree.rootHistory[index.toNat] = 0
      · simp only [if_pos hzero, reduceCtorEq, false_iff]
        rintro ⟨hne, -, heq⟩
        exact hne (Option.some.inj heq ▸ hzero)
      · simp only [if_neg hzero, Except.ok.injEq, Option.some.injEq]
        constructor
        · rintro rfl
          exact ⟨hzero, hpast, rfl⟩
        · rintro ⟨-, -, heq⟩
          exact heq
  · have hguard : tree.rootHistoryLen.toNat = 0 ∨ rootHistoryCapacity ≤ index.toNat := by omega
    have hnone : tree.rootHistory[index.toNat]? = none := Vector.getElem?_eq_none (by omega)
    simp only [rootByIndex, if_pos hguard, hnone, reduceCtorEq, and_false]

/-- The roots accepted are the last ones of the log. -/
theorem exists_rootByIndex_iff (h : History tree updates) {root : Bytes32} :
    (∃ index : UInt16, tree.rootByIndex index = .ok root) ↔ root ≠ 0 ∧ root ∈ (historyLog HEIGHT updates).drop
        ((historyLog HEIGHT updates).length - rootHistoryCapacity) := by
  rw [Ring.mem_last_iff, ← h.recent.mem_slots]
  constructor
  · rintro ⟨index, hindex⟩
    obtain ⟨hne, hlt, hentry⟩ := h.rootByIndex_eq_ok_iff.mp hindex
    exact ⟨hne, index.toNat, hlt, hentry⟩
  · rintro ⟨hne, j, hlt, hentry⟩
    have hj : j < rootHistoryCapacity := (Vector.getElem?_eq_some_iff.mp hentry).1
    have hindex : (UInt16.ofNat j).toNat = j := UInt16.toNat_ofNat_of_lt' (hj.trans (by decide))
    refine ⟨UInt16.ofNat j, h.rootByIndex_eq_ok_iff.mpr ?_⟩
    rw [hindex]
    exact ⟨hne, hlt, hentry⟩

/-- The last ones of the log: the final roots of the last slots, and the empty root while there is
room. -/
theorem mem_drop_historyLog {root : Bytes32} : root ∈ (historyLog HEIGHT updates).drop
        ((historyLog HEIGHT updates).length - rootHistoryCapacity) ↔
      (∃ update ∈ (finalUpdates updates).drop ((finalUpdates updates).length - rootHistoryCapacity),
        update.root = root) ∨
      ((finalUpdates updates).length < rootHistoryCapacity ∧ root = zeroByte HEIGHT) := by
  rw [length_historyLog, historyLog]
  by_cases hroom : (finalUpdates updates).length < rootHistoryCapacity
  · rw [Nat.sub_eq_zero_of_le hroom, Nat.sub_eq_zero_of_le hroom.le, List.drop_zero, List.drop_zero,
      List.mem_cons, List.mem_map]
    simp only [hroom, true_and]
    exact or_comm
  · rw [Nat.succ_sub (by omega), List.drop_succ_cons, ← List.map_drop, List.mem_map]
    simp only [hroom, false_and, or_false]

theorem rootByIndex_currentRootIndex (h : History tree updates) (hroot : tree.root ≠ 0) :
    tree.rootByIndex tree.currentRootIndex = .ok tree.root := by
  have hlength := length_historyLog HEIGHT updates
  have hrecent := h.recent (finalUpdates updates).length (by omega)
    (by rw [hlength, rootHistoryCapacity]; omega)
  have hlast := h.root
  rw [List.getLast?_eq_getElem?, hlength, Nat.add_sub_cancel] at hlast
  refine h.rootByIndex_eq_ok_iff.mpr ⟨hroot, ?_, ?_⟩
  · rw [currentRootIndex, h.cursor, hlength]
    exact Nat.lt_succ_of_le (Nat.mod_le _ _)
  · rw [currentRootIndex, h.cursor, hrecent, hlast]

theorem root_mem (h : History tree updates) :
    tree.root = zeroByte HEIGHT ∨ ∃ update ∈ updates, update.root = tree.root := by
  have hmem := List.mem_of_getLast? h.root
  rw [historyLog, List.mem_cons, List.mem_map] at hmem
  obtain hempty | ⟨update, hfinal, hroot⟩ := hmem
  · exact .inl hempty
  · exact .inr ⟨update, mem_of_mem_finalUpdates hfinal, hroot⟩

end Read

end History

end Zolana
