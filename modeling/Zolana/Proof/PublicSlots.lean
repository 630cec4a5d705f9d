import Zolana.Pool.Verify

/-!
# Public slots

The loop over the legs of a transact keeps one slot for each asset and adds the signed amount of every leg
to the slot of its asset. The invariant of the loop is stated with the sum over the slots of an asset, of
which there is at most one.
-/

namespace Zolana.Verify

open Fallible

variable {hashv : Hashv}

/-- The amount in the slot of an asset, and zero without a slot. -/
def slotAmount (slots : List (Bytes32 × Int)) (asset : Bytes32) : Int :=
  ((slots.filter (·.1 = asset)).map (·.2)).sum

theorem slotAmount_append (slots slots' : List (Bytes32 × Int)) (asset : Bytes32) :
    slotAmount (slots ++ slots') asset = slotAmount slots asset + slotAmount slots' asset := by
  simp [slotAmount]

theorem slotAmount_cons (slot : Bytes32 × Int) (slots : List (Bytes32 × Int)) (asset : Bytes32) :
    slotAmount (slot :: slots) asset = (if slot.1 = asset then slot.2 else 0) + slotAmount slots asset := by
  by_cases h : slot.1 = asset <;> simp [slotAmount, h]

/-- The slots that the loop keeps: one for each asset, as many as there is room for, and an amount of one
word in each. -/
structure SlotsValid (numPublicAssetSlots : Nat) (slots : List (Bytes32 × Int)) : Prop where
  nodup : (slots.map (·.1)).Nodup
  length_le : slots.length ≤ numPublicAssetSlots
  bounded : ∀ slot ∈ slots, slot.2.natAbs < 2 ^ 64

theorem slotsValid_nil (numPublicAssetSlots : Nat) : SlotsValid numPublicAssetSlots [] :=
  ⟨List.nodup_nil, Nat.zero_le _, by simp⟩

variable {amount : Int} {numPublicAssetSlots : Nat} {slots slots' : List (Bytes32 × Int)}
  {asset : Bytes32}

theorem checkedSlotAmount_eq_ok {net : Int} (h : checkedSlotAmount net = .ok amount) :
    net.natAbs < 2 ^ 64 ∧ amount = net := by
  unfold checkedSlotAmount at h
  split at h
  case isTrue hlt => exact ⟨hlt, (Except.ok.inj h).symm⟩
  case isFalse => cases h

theorem addToSlot_eq_ok (h : addToSlot numPublicAssetSlots slots asset amount = .ok slots') :
    (∃ front net back, slots = front ++ (asset, net) :: back ∧
      slots' = front ++ (asset, net + amount) :: back ∧ (net + amount).natAbs < 2 ^ 64) ∨
    (asset ∉ slots.map (·.1) ∧ slots.length ≠ numPublicAssetSlots ∧ amount.natAbs < 2 ^ 64 ∧
      slots' = slots ++ [(asset, amount)]) := by
  unfold addToSlot at h
  split at h
  case h_1 index hindex =>
    left
    obtain ⟨hlt, hasset, _⟩ := List.findIdx?_eq_some_iff_getElem.mp hindex
    split at h
    case h_1 => cases h
    case h_2 net hnet =>
      obtain ⟨total, htotal, h⟩ := of_bind_ok h
      cases h
      obtain ⟨hbound, rfl⟩ := checkedSlotAmount_eq_ok htotal
      have hget : slots.getD index (0, 0) = slots[index] := by simp [hlt]
      rw [hget] at hnet
      have hsum : total = slots[index].2 + amount := by
        unfold checkedAddI128 at hnet
        split at hnet
        case isTrue => exact (Option.some.inj hnet).symm
        case isFalse => cases hnet
      have hslot : slots[index] = (asset, slots[index].2) :=
        Prod.ext (of_decide_eq_true hasset) rfl
      refine ⟨slots.take index, slots[index].2, slots.drop (index + 1), ?_, ?_, hsum ▸ hbound⟩
      · rw [← hslot, List.getElem_cons_drop, List.take_append_drop]
      · rw [← hsum, List.set_eq_take_append_cons_drop, if_pos hlt]
  case h_2 hindex =>
    right
    obtain ⟨hroom, h⟩ := of_check_eq_ok h
    obtain ⟨amount', hamount, h⟩ := of_bind_ok h
    cases h
    obtain ⟨hbound, rfl⟩ := checkedSlotAmount_eq_ok hamount
    refine ⟨?_, hroom, hbound, rfl⟩
    intro hmem
    obtain ⟨slot, hslot, rfl⟩ := List.mem_map.mp hmem
    have hfree := List.findIdx?_eq_none_iff.mp hindex slot hslot
    simp at hfree

theorem slotsValid_addToSlot (hvalid : SlotsValid numPublicAssetSlots slots)
    (h : addToSlot numPublicAssetSlots slots asset amount = .ok slots') :
    SlotsValid numPublicAssetSlots slots' := by
  obtain ⟨front, net, back, rfl, rfl, hbound⟩ | ⟨hnew, hroom, hbound, rfl⟩ := addToSlot_eq_ok h
  · refine ⟨by simpa using hvalid.nodup, by simpa using hvalid.length_le, ?_⟩
    intro slot hslot
    rcases List.mem_append.mp hslot with hfront | hback
    · exact hvalid.bounded slot (List.mem_append_left _ hfront)
    · rcases List.mem_cons.mp hback with rfl | hback
      · exact hbound
      · exact hvalid.bounded slot (List.mem_append_right _ (List.mem_cons_of_mem _ hback))
  · have hlength := hvalid.length_le
    refine ⟨?_, by rw [List.length_append, List.length_singleton]; omega, ?_⟩
    · rw [List.map_append, List.nodup_append]
      refine ⟨hvalid.nodup, by simp, ?_⟩
      intro a ha b hb hab
      subst hab
      simp only [List.map_cons, List.map_nil, List.mem_singleton] at hb
      exact hnew (hb ▸ ha)
    · intro slot hslot
      rcases List.mem_append.mp hslot with hold | hnew
      · exact hvalid.bounded slot hold
      · rw [List.mem_singleton.mp hnew]
        exact hbound

theorem slotAmount_addToSlot (h : addToSlot numPublicAssetSlots slots asset amount = .ok slots')
    (other : Bytes32) :
    slotAmount slots' other = slotAmount slots other + if asset = other then amount else 0 := by
  obtain ⟨front, net, back, rfl, rfl, _⟩ | ⟨_, _, _, rfl⟩ := addToSlot_eq_ok h
  · simp only [slotAmount_append, slotAmount_cons]
    split <;> omega
  · simp only [slotAmount_append, slotAmount_cons]
    simp [slotAmount]

/-! ### The loop over the legs -/

def LegAmounts (hashv : Hashv) (legs : List (InterfaceTransfer × Settlement))
    (amounts : List (Bytes32 × Int)) : Prop :=
  List.Forall₂ (fun leg amount => signedAmount leg.1 ≠ 0 ∧ leg.1.isDeposit = leg.2.isDeposit ∧
    assetField hashv leg.2 = .ok amount.1 ∧ amount.2 = signedAmount leg.1) legs amounts

theorem aggregateLegs_eq_ok {legs : List (InterfaceTransfer × Settlement)}
    (hvalid : SlotsValid numPublicAssetSlots slots)
    (h : aggregateLegs hashv numPublicAssetSlots slots legs = .ok slots') :
    SlotsValid numPublicAssetSlots slots' ∧ ∃ amounts, LegAmounts hashv legs amounts ∧
      ∀ asset, slotAmount slots' asset = slotAmount slots asset + slotAmount amounts asset := by
  induction legs generalizing slots with
  | nil =>
      cases h
      exact ⟨hvalid, [], .nil, fun asset => by simp [slotAmount]⟩
  | cons leg legs ih =>
      obtain ⟨transfer, settlement⟩ := leg
      rw [aggregateLegs] at h
      obtain ⟨hleg, h⟩ := of_check_eq_ok h
      push Not at hleg
      obtain ⟨asset, hasset, h⟩ := of_bind_ok h
      obtain ⟨added, hadded, h⟩ := of_bind_ok h
      obtain ⟨hvalid', amounts, hamounts, hsum⟩ := ih (slotsValid_addToSlot hvalid hadded) h
      refine ⟨hvalid', (asset, signedAmount transfer) :: amounts,
        .cons ⟨hleg.1, hleg.2, hasset, rfl⟩ hamounts, fun other => ?_⟩
      rw [hsum, slotAmount_addToSlot hadded, slotAmount_cons]
      dsimp only
      omega

theorem publicSlots_eq_ok {transfers : List InterfaceTransfer} {settlements : List Settlement}
    (h : publicSlots hashv transfers settlements numPublicAssetSlots = .ok slots) :
    transfers.length = settlements.length ∧ SlotsValid numPublicAssetSlots slots ∧
      (∀ slot ∈ slots, slot.2 ≠ 0) ∧ ∃ amounts, LegAmounts hashv (transfers.zip settlements) amounts ∧
        ∀ asset, slotAmount slots asset = slotAmount amounts asset := by
  unfold publicSlots at h
  obtain ⟨hbounds, h⟩ := of_check_eq_ok h
  push Not at hbounds
  obtain ⟨slots', hslots, h⟩ := of_bind_ok h
  obtain ⟨hzero, h⟩ := of_check_eq_ok h
  cases h
  obtain ⟨hvalid, amounts, hamounts, hsum⟩ := aggregateLegs_eq_ok (slotsValid_nil _) hslots
  refine ⟨hbounds.1, hvalid, ?_, amounts, hamounts, fun asset => ?_⟩
  · intro slot hslot hnet
    exact hzero (List.any_eq_true.mpr ⟨slot, hslot, decide_eq_true hnet⟩)
  · rw [hsum]
    simp [slotAmount]

end Zolana.Verify
