import Zolana.Proof.Accounts
import Zolana.Properties.PublicInputs

/-!
# The indexer reads the settlements the program made

The program takes the settlement accounts from the front of the account list, behind a run of signers; the
indexer counts them from the end. For a list that the program accepts they are the same accounts, and each
leg has the mint the program settled.
-/

namespace Zolana

open Fallible

theorem foldlM_checkedAdd {counts : List Nat} {total : Nat} (h : total + counts.sum < 2 ^ 64) :
    counts.foldlM checkedAdd total = some (total + counts.sum) := by
  induction counts generalizing total with
  | nil => rfl
  | cons count counts ih =>
      rw [List.sum_cons] at h
      rw [List.foldlM_cons, checkedAdd_of_lt (by omega), Option.bind_eq_bind, Option.bind_some,
        ih (by omega), List.sum_cons, Nat.add_assoc]

theorem sum_settlementAccountCount_le (transfers : List InterfaceTransfer) :
    (transfers.map (·.settlementAccountCount)).sum ≤ 5 * transfers.length := by
  induction transfers with
  | nil => exact Nat.le_refl _
  | cons transfer transfers ih =>
      have hcount : transfer.settlementAccountCount ≤ 5 := by
        cases transfer <;> simp [InterfaceTransfer.settlementAccountCount]
      rw [List.map_cons, List.sum_cons, List.length_cons]
      omega

theorem CircuitId.cacheAccounts_eq (circuit : CircuitId) :
    (circuit.cacheAccess.elim 0 fun access =>
      (decide (access.readBitmap ≠ 0)).toNat + 2 * access.writesCache.toNat) =
      circuit.readsCache.toNat + 2 * circuit.writesCache.toNat := by
  unfold CircuitId.readsCache CircuitId.writesCache
  cases circuit.cacheAccess with
  | none => rfl
  | some access => rfl

namespace Event

theorem settlementAccounts_append {T : Type} {transfers : List InterfaceTransfer} {circuit : CircuitId}
    {before window caches : List T} (htransfers : transfers.length ≤ maxInterfaceTransfers)
    (hwindow : window.length = (transfers.map (·.settlementAccountCount)).sum)
    (hcaches : caches.length = circuit.readsCache.toNat + 2 * circuit.writesCache.toNat) :
    settlementAccounts transfers circuit (before ++ window ++ caches) = some window := by
  have hsum := sum_settlementAccountCount_le transfers
  have htotal : transfers.foldlM
      (fun total transfer => checkedAdd total transfer.settlementAccountCount) 0 = some window.length := by
    have hfold := @foldlM_checkedAdd (transfers.map (·.settlementAccountCount)) 0 (by
      rw [maxInterfaceTransfers] at htransfers
      omega)
    rwa [List.foldlM_map, Nat.zero_add, ← hwindow] at hfold
  have hlast : checkedSub (before ++ window ++ caches).length caches.length =
      some (before.length + window.length) := by
    rw [checkedSub, List.length_append, List.length_append, if_pos (by omega), Nat.add_sub_cancel]
  have hfirst : checkedSub (before.length + window.length) window.length = some before.length := by
    rw [checkedSub, if_pos (by omega), Nat.add_sub_cancel]
  unfold settlementAccounts
  rw [htotal, circuit.cacheAccounts_eq, ← hcaches]
  simp only [Option.bind_eq_bind, Option.bind_some, hlast, hfirst]
  rw [List.take_left' (List.length_append ..), List.drop_left' rfl]

/-- What one leg is in the event. -/
def splTransfer (transfer : InterfaceTransfer) (settlement : Settlement) : SplTransfer :=
  ⟨transfer.isDeposit, transfer.amount, settlement.splAsset⟩

theorem settlementTransfersFrom_eq {settlements : List Settlement} {transfers : List InterfaceTransfer}
    (h : List.Forall₂ Settlement.Serves settlements transfers) (before : List Address) : settlementTransfersFrom
        (before ++ (settlements.flatMap Settlement.accounts).map (·.address)) before.length transfers =
      some (List.zipWith splTransfer transfers settlements) := by
  induction h generalizing before with
  | nil => rfl
  | @cons settlement transfer settlements transfers hserves _ ih =>
      have hlength : before.length + transfer.settlementAccountCount =
          (before ++ settlement.accounts.map (·.address)).length := by
        rw [List.length_append, List.length_map, hserves.length_accounts]
      rw [settlementTransfersFrom, List.flatMap_cons, List.map_append, ← List.append_assoc,
        hserves.legAsset, hlength]
      simp only [Option.bind_eq_bind, Option.bind_some, ih]
      rfl

end Event

open Event

variable {HEIGHT K : Nat} {splInterfaceAddress : SplInterfaceAddress} {chain : Chain HEIGHT K}
  {ix : TransactIxData} {accounts rest : List AccountView} {parsed : ParsedTransactAccounts}

/-- For every account list that a transact, a ring transact or a ring authority transact accepts, the
indexer finds the accounts of the settlements in leg order, and rebuilds each leg with the mint that its
settlement has. -/
theorem settlement_account_agreement
    (h : (parseTransactAccounts splInterfaceAddress chain ix).run accounts = .ok parsed rest ∨
      ∃ requireRingAuthorityEnabled ringProgramId,
        (parseRingTransactAccounts splInterfaceAddress chain ix requireRingAuthorityEnabled).run
          accounts = .ok (parsed, ringProgramId) rest) :
    settlementAccounts ix.interfaceTransfers ix.circuit accounts =
        some (parsed.settlements.flatMap Settlement.accounts) ∧
      settlementAccounts ix.interfaceTransfers ix.circuit (accounts.map (·.address)) =
        some ((parsed.settlements.flatMap Settlement.accounts).map (·.address)) ∧
      parsed.settlements.length = ix.interfaceTransfers.length ∧
      settlementTransfers ix.interfaceTransfers
          ((parsed.settlements.flatMap Settlement.accounts).map (·.address)) =
        some (List.zipWith splTransfer ix.interfaceTransfers parsed.settlements) := by
  have hsettles : SettlesAccounts ix accounts parsed.settlements := by
    rcases h with h | ⟨_, _, h⟩
    · exact settlesAccounts_of_parseTransactAccounts h
    · exact settlesAccounts_of_parseRingTransactAccounts h
  obtain ⟨htransfers, hserves, before, caches, haccounts, hcaches⟩ := hsettles
  have hwindow := length_flatMap_accounts hserves
  refine ⟨?_, ?_, hserves.length_eq, settlementTransfersFrom_eq hserves []⟩
  · rw [haccounts]
    exact settlementAccounts_append htransfers hwindow hcaches
  · rw [haccounts, List.map_append, List.map_append]
    refine settlementAccounts_append htransfers ?_ ?_
    · rw [List.length_map, hwindow]
    · rw [List.length_map, hcaches]

/-- A transfer with one leg of each kind, an owner signer and both caches: the account list ends with the
cache accounts, and the legs come out with their mints. -/
theorem transfer_settlement_accounts :
    ∃ (ix : TransactIxData) (parsed : ParsedTransactAccounts) (rest : List AccountView),
      (parseTransactAccounts transferEnv.splInterfaceAddress transferChain ix).run transferAccounts =
        .ok parsed rest ∧
      parsed.ownerSigners.length = 1 ∧ parsed.cache.isSome ∧
      settlementAccounts ix.interfaceTransfers ix.circuit (transferAccounts.map (·.address)) =
        some ((parsed.settlements.flatMap Settlement.accounts).map (·.address)) ∧
      settlementTransfers ix.interfaceTransfers
          ((parsed.settlements.flatMap Settlement.accounts).map (·.address)) =
        some [⟨true, 30, none⟩, ⟨false, 10, none⟩, ⟨true, 7, some 20⟩, ⟨false, 3, some 20⟩] := by
  have hsucceeds : ((parseWithExternalDataPrefix (transferData 9)).any fun parsedData =>
      succeeds (parseTransactAccounts transferEnv.splInterfaceAddress transferChain parsedData.1)
        transferAccounts fun parsed _ =>
          decide (parsed.ownerSigners.length = 1 ∧ parsed.cache.isSome ∧
            List.zipWith splTransfer parsedData.1.interfaceTransfers parsed.settlements =
              [⟨true, 30, none⟩, ⟨false, 10, none⟩, ⟨true, 7, some 20⟩, ⟨false, 3, some 20⟩])) = true := by
    decide +kernel
  rw [Option.any_eq_true] at hsucceeds
  obtain ⟨⟨ix, _⟩, _, hsucceeds⟩ := hsucceeds
  obtain ⟨parsed, rest, hrun, hfacts⟩ := exists_of_succeeds hsucceeds
  obtain ⟨hsigners, hcache, hlegs⟩ := of_decide_eq_true hfacts
  obtain ⟨_, hwindow, _, htransfers⟩ := settlement_account_agreement (.inl hrun)
  exact ⟨ix, parsed, rest, hrun, hsigners, hcache, hwindow, htransfers.trans (congrArg some hlegs)⟩

end Zolana
