import Zolana.Pool.CreateTree
import Zolana.Proof.Accounting

/-!
# The steps of tree creation

An accepted call of `create_tree` either begins a tree or continues one, and then finishes it if the
account has its full size. Each part is described by all it does to the ledger, the protocol config and
the bytes of the account in creation.
-/

namespace Zolana

open Fallible

variable {HEIGHT K : Nat} {ledger ledger' : Ledger HEIGHT K} {system system' : System HEIGHT K}
variable {payer tree : Address} {record : List UInt8} {lamports : Nat}

theorem run_onLedger_ok {α : Type} {act : PoolM HEIGHT K α} {a : α}
    (h : (onLedger act).run system = .ok a system') :
    ∃ ledger, act.run system.ledger = .ok a ledger ∧ system' = { system with ledger } :=
  run_within_eq_ok_iff.mp h

/-! ### Funding -/

theorem run_fundTree_ok (h : (fundTree payer tree lamports).run ledger = .ok () ledger') :
    ∃ amount, Moved payer tree amount ledger ledger' ∧
      (amount ≠ 0 → (ledger payer).data = .unused) ∧
      ((ledger tree).data ≠ .unused → lamports ≤ ledger'.lamports tree) := by
  replace h := of_run_get_bind h
  dsimp only at h
  split at h
  case isTrue hmissing =>
    cases h
    exact ⟨0, .zero payer tree _, fun hne => absurd rfl hne, fun _ =>
      Nat.sub_eq_zero_iff_le.mp hmissing⟩
  case isFalse =>
    obtain ⟨hunused, hmoved⟩ := run_transfer_ok h
    refine ⟨_, hmoved, fun _ => hunused, ?_⟩
    intro howned
    have hne : tree ≠ payer := by
      rintro rfl
      exact howned hunused
    rw [hmoved.lamports_receiver hne]
    simp only [Ledger.lamports]
    omega

/-! ### The first call -/

/-- What `allocate_tree_id` and `TreeAllocation::create` and the record do. -/
structure Begins (payer tree : Address) (record : List UInt8) (treeId : UInt16)
    (system system' : System HEIGHT K) : Prop where
  unused : (system.ledger tree).data = .unused
  next : treeId = system.config.nextTreeId
  room : treeId.toNat + 1 < 2 ^ 16
  fits : utxoTreeOffset + record.length ≤ min (treeAccountSize HEIGHT K) treeAllocationStep
  ledger : ∃ amount,
    Moved payer tree amount (system.ledger.setData tree (.other true)) system'.ledger ∧
      (amount ≠ 0 → ((system.ledger.setData tree (.other true)) payer).data = .unused)
  config : system'.config = { system.config with nextTreeId := treeId + 1 }
  creating : system'.creating = Function.update system.creating tree (Bytes.overwrite utxoTreeOffset
    record (List.replicate (min (treeAccountSize HEIGHT K) treeAllocationStep) 0))

theorem run_allocateTreeId_ok {treeId : UInt16} (h : (allocateTreeId treeId).run system = .ok () system') :
    treeId = system.config.nextTreeId ∧ treeId.toNat + 1 < 2 ^ 16 ∧
      system' = { system with config := { system.config with nextTreeId := treeId + 1 } } := by
  replace h := of_run_get_bind h
  dsimp only at h
  obtain ⟨hid, h⟩ := of_run_check h
  obtain ⟨hroom, h⟩ := of_run_check h
  cases h
  exact ⟨not_not.mp hid, Nat.lt_of_not_le hroom, rfl⟩

theorem run_allocateTree_ok (h : (allocateTree payer tree lamports).run system = .ok () system') :
    ∃ ledger amount, Moved payer tree amount (system.ledger.setData tree (.other true)) ledger ∧
      (amount ≠ 0 → ((system.ledger.setData tree (.other true)) payer).data = .unused) ∧
      system' = { system with
        ledger
        creating := Function.update system.creating tree
          (List.replicate (min (treeAccountSize HEIGHT K) treeAllocationStep) 0) } := by
  replace h := of_run_get_bind h
  obtain ⟨_, assigned, hassign, h⟩ := of_run_bind h
  obtain ⟨_, hset, rfl⟩ := run_onLedger_ok hassign
  cases hset
  obtain ⟨_, zeroed, hzero, h⟩ := of_run_bind h
  cases hzero
  split at h
  case isTrue =>
    obtain ⟨ledger, htransfer, rfl⟩ := run_onLedger_ok h
    obtain ⟨hunused, hmoved⟩ := run_transfer_ok htransfer
    exact ⟨ledger, lamports, hmoved, fun _ => hunused, rfl⟩
  case isFalse =>
    obtain ⟨ledger, hfund, rfl⟩ := run_onLedger_ok h
    obtain ⟨amount, hmoved, hunused, _⟩ := run_fundTree_ok hfund
    exact ⟨ledger, amount, hmoved, hunused, rfl⟩

theorem run_checkSlots_ok {bytes : List UInt8} (h : (checkSlots record bytes).run system = .ok () system') :
    utxoTreeOffset + record.length ≤ bytes.length ∧ system = system' := by
  unfold checkSlots at h
  split at h
  case isTrue hfits =>
    cases h
    exact ⟨hfits, rfl⟩
  case isFalse => cases h

theorem run_recordCreation_ok (h : (recordCreation tree record).run system = .ok () system') :
    utxoTreeOffset + record.length ≤ (system.creating tree).length ∧
      system' = system.setCreating tree
        (Bytes.overwrite utxoTreeOffset record (system.creating tree)) := by
  replace h := of_run_get_bind h
  obtain ⟨_, _, hslots, h⟩ := of_run_bind h
  obtain ⟨hfits, rfl⟩ := run_checkSlots_ok hslots
  cases h
  exact ⟨hfits, rfl⟩

/-! ### Later calls -/

/-- What `grow_tree` does, with what `check` found. -/
structure Continues (tree : Address) (record : List UInt8) (system system' : System HEIGHT K) : Prop
    where
  owned : (system.ledger tree).data = .other true
  started : treeAccountSize HEIGHT K ≤ (system.creating tree).length ∨
    (system.creating tree)[1]? = some 0
  ledger : system'.ledger = system.ledger
  config : system'.config = system.config
  creating : system'.creating = Function.update system.creating tree (system.creating tree ++
    List.replicate (min ((system.creating tree).length + treeAllocationStep) (treeAccountSize HEIGHT K)
      - (system.creating tree).length) 0)
  uninitialised : (system'.creating tree)[1]? = some 0
  fits : utxoTreeOffset + record.length ≤ (system'.creating tree).length
  record : Bytes.slice utxoTreeOffset record.length (system'.creating tree) = record

theorem run_checkCreation_ok (h : (checkCreation tree record).run system = .ok () system') :
    (system.ledger tree).data = .other true ∧ (system.creating tree)[1]? = some 0 ∧
      utxoTreeOffset + record.length ≤ (system.creating tree).length ∧
      Bytes.slice utxoTreeOffset record.length (system.creating tree) = record ∧
      system = system' := by
  replace h := of_run_get_bind h
  dsimp only at h
  split at h
  case h_1 howned =>
    obtain ⟨hstate, h⟩ := of_run_check h
    obtain ⟨_, _, hslots, h⟩ := of_run_bind h
    obtain ⟨hfits, rfl⟩ := run_checkSlots_ok hslots
    obtain ⟨hrecord, h⟩ := of_run_check h
    cases h
    exact ⟨howned, not_not.mp hstate, hfits, not_not.mp hrecord, rfl⟩
  case h_2 => cases h

theorem run_growTree_ok (howned : (system'.ledger tree).data = .other true)
    (h : (growTree tree).run system = .ok () system') :
    (treeAccountSize HEIGHT K ≤ (system.creating tree).length ∨
      (system.creating tree)[1]? = some 0) ∧
    system' = system.setCreating tree (system.creating tree ++ List.replicate
      (min ((system.creating tree).length + treeAllocationStep) (treeAccountSize HEIGHT K)
        - (system.creating tree).length) 0) := by
  replace h := of_run_get_bind h
  split at h
  case h_1 => cases h
  case h_2 => cases h
  case h_3 => cases h
  case h_4 hdata =>
    cases h
    rw [hdata] at howned
    cases howned
  case h_5 =>
    dsimp only at h
    split at h
    case isTrue hfull =>
      have hnone : min ((system.creating tree).length + treeAllocationStep)
          (treeAccountSize HEIGHT K) - (system.creating tree).length = 0 := by
        omega
      rw [hnone, List.replicate_zero, List.append_nil, System.setCreating,
        Function.update_eq_self]
      cases h
      exact ⟨.inl hfull, rfl⟩
    case isFalse =>
      obtain ⟨hstate, h⟩ := of_run_check h
      cases h
      exact ⟨.inr (not_not.mp hstate), rfl⟩

theorem run_grow_check_ok {mid : System HEIGHT K} (hgrow : (growTree tree).run system = .ok () mid)
    (hcheck : (checkCreation tree record).run mid = .ok () system') : Continues tree record system system' := by
  obtain ⟨howned, hstate, hfits, hrecord, rfl⟩ := run_checkCreation_ok hcheck
  obtain ⟨hstarted, rfl⟩ := run_growTree_ok howned hgrow
  exact ⟨howned, hstarted, rfl, rfl, rfl, hstate, hfits, hrecord⟩

/-! ### The last part -/

variable {create : CreateEnv HEIGHT K} {data : CreateTreeData}

/-- The end of a creation: the record is cleared, the account funded and the tree initialised from
what is left. -/
structure Finishes (create : CreateEnv HEIGHT K) (payer tree : Address) (record : List UInt8)
    (data : CreateTreeData) (lamports : Nat) (system : System HEIGHT K) (bytes : List UInt8)
    (layout : TreeAccountLayout HEIGHT K) (funded : Ledger HEIGHT K) (system' : System HEIGHT K) : Prop
    where
  cleared : bytes = Bytes.overwrite utxoTreeOffset (List.replicate record.length 0) (system.creating tree)
  fits : utxoTreeOffset + record.length ≤ (system.creating tree).length
  size : bytes.length = treeAccountSize HEIGHT K
  funds : ∃ amount, Moved payer tree amount system.ledger funded ∧
    (amount ≠ 0 → (system.ledger payer).data = .unused)
  lamports : (system.ledger tree).data ≠ .unused → lamports ≤ funded.lamports tree
  init : (TreeAccountLayout.init HEIGHT data.treeId data.nullifierParams data.fees).run
    (create.codec.decode bytes) = .ok () layout
  result : system' = ⟨funded.setData tree (.tree layout), system.config,
    Function.update system.creating tree []⟩

theorem run_finishTree_ok {result : Option (List UInt8)}
    (h : (finishTree create payer tree record data lamports).run system = .ok result system') :
    (result = none ∧ system' = system ∧
      (system.creating tree).length < treeAccountSize HEIGHT K) ∨
    ∃ bytes layout funded, result = some bytes ∧
      Finishes create payer tree record data lamports system bytes layout funded system' := by
  replace h := of_run_get_bind h
  split at h
  case isTrue hshort =>
    cases h
    exact .inl ⟨rfl, rfl, hshort⟩
  case isFalse =>
    obtain ⟨_, cleared, hclear, h⟩ := of_run_bind h
    replace hclear := of_run_get_bind hclear
    obtain ⟨_, _, hslots, hclear⟩ := of_run_bind hclear
    obtain ⟨hfits, rfl⟩ := run_checkSlots_ok hslots
    cases hclear
    obtain ⟨_, _, hfund, h⟩ := of_run_bind h
    obtain ⟨funded, hfunded, rfl⟩ := run_onLedger_ok hfund
    obtain ⟨amount, hmoved, hunused, hlamports⟩ := run_fundTree_ok hfunded
    replace h := of_run_get_bind h
    obtain ⟨_, initialised, hinit, hpure⟩ := of_run_bind h
    cases hpure
    replace hinit := of_run_get_bind hinit
    simp only [System.setCreating, Function.update_self] at hinit
    obtain ⟨hsize, hinit⟩ := of_run_check hinit
    split at hinit
    case h_1 => cases hinit
    case h_2 layout hlayout =>
      obtain ⟨_, _, hset, hinit⟩ := of_run_bind hinit
      obtain ⟨_, hwrite, rfl⟩ := run_onLedger_ok hset
      cases hwrite
      obtain rfl := (EStateM.Result.ok.inj hinit).2
      refine .inr ⟨_, layout, funded, ?_, rfl, hfits, not_not.mp hsize,
        ⟨amount, hmoved, hunused⟩, hlamports, hlayout, ?_⟩
      · simp only [System.setCreating, Function.update_self]
      · simp only [System.setCreating, Function.update_idem]

/-! ### The call -/

theorem run_processCreateTree_ok {authority : Address} {ixData : List UInt8} {result : CreateTreeResult}
    (h : (processCreateTree create payer authority tree ixData).run system = .ok result system') :
    ∃ data lamports mid, CreateTreeData.tryFromSlice ixData = some data ∧
      create.treeAddress data.treeId = some tree ∧
      treeCreationLamports data.nullifierParams create.treeRentMinimum create.nullifierPdaRentMinimum
        = some lamports ∧
      ((Begins payer tree (pendingCreation payer ixData) data.treeId system mid ∧
          result.allocated = some data.treeId) ∨
        (Continues tree (pendingCreation payer ixData) system mid ∧ result.allocated = none)) ∧
      (finishTree create payer tree (pendingCreation payer ixData) data lamports).run mid
        = .ok result.initialised system' := by
  obtain ⟨data, hslice, h⟩ := of_run_okOr_bind h
  obtain ⟨_, _, h⟩ := of_run_mapErr_bind h
  obtain ⟨_, _, h⟩ := of_run_mapErr_bind h
  obtain ⟨haddress, h⟩ := of_run_check h
  replace h := of_run_get_bind h
  obtain ⟨-, h⟩ := of_run_check h
  dsimp only at h
  split at h
  case isTrue hunused =>
    obtain ⟨_, numbered, hid, h⟩ := of_run_bind h
    obtain ⟨hnext, hroom, rfl⟩ := run_allocateTreeId_ok hid
    obtain ⟨lamports, hlamports, h⟩ := of_run_okOr_bind h
    obtain ⟨_, allocated, hallocate, h⟩ := of_run_bind h
    obtain ⟨ledger, amount, hmoved, hpayer, rfl⟩ := run_allocateTree_ok hallocate
    obtain ⟨_, recorded, hrecord, h⟩ := of_run_bind h
    obtain ⟨hfits, rfl⟩ := run_recordCreation_ok hrecord
    obtain ⟨initialised, _, hfinish, hpure⟩ := of_run_bind h
    cases hpure
    refine ⟨data, lamports, _, hslice, not_not.mp haddress, hlamports, .inl ⟨?_, rfl⟩, hfinish⟩
    simp only [Function.update_self, List.length_replicate] at hfits
    refine ⟨hunused, hnext, hroom, hfits, ⟨amount, hmoved, hpayer⟩, rfl, ?_⟩
    simp only [System.setCreating, Function.update_self, Function.update_idem]
  case isFalse =>
    obtain ⟨lamports, hlamports, h⟩ := of_run_okOr_bind h
    obtain ⟨_, grown, hgrow, h⟩ := of_run_bind h
    obtain ⟨_, checked, hcheck, h⟩ := of_run_bind h
    obtain ⟨initialised, _, hfinish, hpure⟩ := of_run_bind h
    cases hpure
    exact ⟨data, lamports, checked, hslice, not_not.mp haddress, hlamports,
      .inr ⟨run_grow_check_ok hgrow hcheck, rfl⟩, hfinish⟩

end Zolana
