import Zolana.Lib.Greedy
import Zolana.Pool.TreeSlot
import Zolana.Wallet.Utxo

/-!
# Which utxos a spend takes

`selection.rs`: the utxos of one asset that the default ring can spend, the largest first, until they cover the
amount.
-/

namespace Zolana.Wallet

open Fallible Greedy

/-- What the selection reads of a `WalletUtxo`. -/
structure WalletUtxo where
  utxo : Utxo
  nullifier : Bytes32
  ringDataHash : Option Bytes32
  treeId : UInt16
  deriving DecidableEq, Repr

namespace WalletUtxo

def isDefaultRingSpendable (utxo : WalletUtxo) : Bool := utxo.utxo.ringProgramId.isNone && utxo.ringDataHash.isNone

def amount (utxo : WalletUtxo) : Nat := utxo.utxo.amount.toNat

end WalletUtxo

def maxSpendInputs : Nat := 40

def candidates (utxos : List WalletUtxo) (asset : Address) : List WalletUtxo :=
  utxos.filter fun utxo => utxo.utxo.asset.asset = asset ∧ 0 < utxo.amount ∧ utxo.isDefaultRingSpendable

def selectedTrees (selected : List WalletUtxo) : List UInt16 :=
  Sorting.distinct UInt16.toNat (selected.map (·.treeId))

/-- What the loop of `select` does once the amount is covered. -/
def finishSelection (selected : List WalletUtxo) : Except TransactionError (List WalletUtxo) :=
  if maxInputTrees < (selectedTrees selected).length then
    .error (.tooManyInputTrees (selectedTrees selected).length maxInputTrees)
  else
    .ok selected

/-- The loop of `select`, with what it has selected and covered so far. -/
def selectFrom (amount : Nat) (selected : List WalletUtxo) (covered : Nat) :
    List WalletUtxo → Except TransactionError (List WalletUtxo)
  | [] => .error (.spendNeedsMerge amount maxSpendInputs)
  | utxo :: utxos =>
    if amount ≤ covered + utxo.amount then finishSelection (selected ++ [utxo])
    else selectFrom amount (selected ++ [utxo]) (covered + utxo.amount) utxos

def select (utxos : List WalletUtxo) (asset : Address) (amount : UInt64) :
    Except TransactionError (List WalletUtxo) :=
  if amount = 0 then .error .zeroSpendAmount
  else if utxos.isEmpty then .error (.noSpendableBalance asset)
  else
    match utxos.foldlM (fun total utxo => checkedAdd total utxo.amount) 0 with
    | none => .error .selectedBalanceOverflow
    | some available =>
      if available < amount.toNat then .error (.insufficientBalance amount.toNat available)
      else selectFrom amount.toNat [] 0 ((largestFirst WalletUtxo.amount utxos).take maxSpendInputs)

def selectSpend (utxos : List WalletUtxo) (asset : Address) (amount : UInt64) :
    Except TransactionError (List WalletUtxo) :=
  select (candidates utxos asset) asset amount

def isShort : TransactionError → Bool
  | .insufficientBalance _ _ | .noSpendableBalance _ => true
  | _ => false

def selectSpendExcluding (utxos : List WalletUtxo) (asset : Address) (amount : UInt64) (excluded : List Bytes32) :
    Except TransactionError (List WalletUtxo) :=
  let candidates := candidates utxos asset
  let free := candidates.filter fun utxo => utxo.nullifier ∉ excluded
  (select free asset amount).mapError fun error =>
    if isShort error ∧ (select candidates asset amount).isOk then .spendNeedsExcludedUtxos amount.toNat else error

end Zolana.Wallet
