import Zolana.Pool.TransactAccounts

/-!
# The settlements of a transact, as an indexer rebuilds them

`settlement_accounts` of the interface crate and `settlement_transfers` of
`sdk-libs/event/src/reconstruct.rs`. The indexer has the account list and the instruction data and counts
the settlement accounts from the end of the list.
-/

namespace Zolana

open Fallible

def InterfaceTransfer.mintAccountPosition : InterfaceTransfer → Option Nat
  | solDeposit _ | solWithdrawal _ => none
  | splDeposit _ _ => some 0
  | splWithdrawal _ _ => some 1

namespace Event

def settlementAccounts {T : Type} (transfers : List InterfaceTransfer) (circuit : CircuitId)
    (accounts : List T) : Option (List T) := do
  let total ← transfers.foldlM (fun total transfer => checkedAdd total transfer.settlementAccountCount) 0
  let cacheAccounts := circuit.cacheAccess.elim 0 fun access =>
    (decide (access.readBitmap ≠ 0)).toNat + 2 * access.writesCache.toNat
  let last ← checkedSub accounts.length cacheAccounts
  let first ← checkedSub last total
  some ((accounts.take last).drop first)

structure SplTransfer where
  isDeposit : Bool
  amount : UInt64
  /-- The mint, and nothing for SOL. -/
  asset : Option Address
  deriving DecidableEq, Repr

/-- The asset of one leg, whose accounts start at `groupStart`. -/
def legAsset (settlementAccounts : List Address) (groupStart : Nat) (transfer : InterfaceTransfer) :
    Option (Option Address) :=
  match transfer.mintAccountPosition with
  | none => some none
  | some position => some <$> settlementAccounts[groupStart + position]?

/-- The loop of `settlement_transfers`. Its only error is `MissingSettlementAccount`. -/
def settlementTransfersFrom (settlementAccounts : List Address) (groupStart : Nat) :
    List InterfaceTransfer → Option (List SplTransfer)
  | [] => some []
  | transfer :: transfers => do
    let asset ← legAsset settlementAccounts groupStart transfer
    let rest ← settlementTransfersFrom settlementAccounts
      (groupStart + transfer.settlementAccountCount) transfers
    some (⟨transfer.isDeposit, transfer.amount, asset⟩ :: rest)

def settlementTransfers (transfers : List InterfaceTransfer) (settlementAccounts : List Address) :
    Option (List SplTransfer) :=
  settlementTransfersFrom settlementAccounts 0 transfers

end Event

end Zolana
