import Zolana.Event.Settlement
import Zolana.Lib.Effects

/-!
# Which accounts a transact takes

The parser goes through the account list from the front. Every part leaves a suffix of the list, and the
settlements take their accounts one group after another in the order of the legs.
-/

namespace Zolana

open Fallible AccountIterator

/-! ### The parts before the settlements -/

variable {rest : List AccountView} {account : AccountView} {transfer : InterfaceTransfer}
  {transfers : List InterfaceTransfer}

theorem run_nextAccount_eq_ok_iff {accounts : List AccountView} :
    nextAccount.run accounts = .ok account rest ↔ accounts = account :: rest := by
  cases accounts with
  | nil => exact ⟨fun h => (nomatch h), fun h => (nomatch h)⟩
  | cons first accounts =>
      change EStateM.Result.ok first accounts = _ ↔ _
      rw [EStateM.Result.ok.injEq, List.cons.injEq]

theorem eq_cons_of_run_nextSigner {accounts : List AccountView}
    (h : nextSigner.run accounts = .ok account rest) : accounts = account :: rest := by
  obtain ⟨first, tail, hnext, hcheck⟩ := of_run_bind h
  split at hcheck
  · cases hcheck
    exact run_nextAccount_eq_ok_iff.mp hnext
  · cases hcheck

theorem eq_cons_of_run_nextMut {accounts : List AccountView}
    (h : nextMut.run accounts = .ok account rest) : accounts = account :: rest := by
  obtain ⟨first, tail, hnext, hcheck⟩ := of_run_bind h
  split at hcheck
  · cases hcheck
    exact run_nextAccount_eq_ok_iff.mp hnext
  · cases hcheck

theorem eq_cons_of_run_nextNonMut {accounts : List AccountView}
    (h : nextNonMut.run accounts = .ok account rest) : accounts = account :: rest := by
  obtain ⟨first, tail, hnext, hcheck⟩ := of_run_bind h
  split at hcheck
  · cases hcheck
  · cases hcheck
    exact run_nextAccount_eq_ok_iff.mp hnext

/-- A part of the parser that only takes accounts from the front. -/
abbrev Advances {α : Type} (act : AccountIterator α) : Prop :=
  ∀ whole : List AccountView, Maintains (· <:+ whole) act

theorem Advances.of_eq_cons {act : AccountIterator AccountView}
    (h : ∀ {accounts rest : List AccountView} {account : AccountView},
      act.run accounts = .ok account rest → accounts = account :: rest) : Advances act := by
  intro whole accounts account rest hrun hsuffix
  rw [h hrun] at hsuffix
  exact (List.suffix_cons account rest).trans hsuffix

theorem Advances.mapErr {α ε : Type} (wrap : ε → ProgramError) (result : Except ε α) :
    Advances (Fallible.mapErr wrap result) := by
  intro whole accounts a rest hrun hsuffix
  rwa [(Keeps.mapErr wrap result : Keeps id _).state_eq hrun]

theorem advances_nextAccount : Advances nextAccount :=
  .of_eq_cons run_nextAccount_eq_ok_iff.mp

theorem advances_nextSigner : Advances nextSigner := .of_eq_cons eq_cons_of_run_nextSigner

theorem advances_nextMut : Advances nextMut := .of_eq_cons eq_cons_of_run_nextMut

theorem advances_validateProgramPrefix : Advances validateProgramPrefix := fun whole =>
  .bind (advances_nextAccount whole) fun _ => .ite (.throw _) <|
    .bind (advances_nextAccount whole) fun _ => .ite (.throw _) (.pure _)

theorem advances_parseInputTrees (count : Nat) : ∀ inputTrees, Advances (parseInputTrees inputTrees count) := by
  induction count with
  | zero => exact fun _ _ => .pure _
  | succ count ih =>
      intro inputTrees whole
      exact .bind (advances_nextMut whole) fun _ => .ite (.throw _) <|
        .ite (ih _ whole) (.throw _)

theorem advances_pushMuts (capacity : Nat) (full : ShieldedPoolError) (count : Nat) :
    ∀ pushed, Advances (pushMuts capacity full pushed count) := by
  induction count with
  | zero => exact fun _ _ => .pure _
  | succ count ih =>
      intro pushed whole
      exact .bind (advances_nextMut whole) fun _ => .ite (ih _ whole) (.throw _)

/-! ### The settlements -/

/-- The accounts of a settlement in the order the parser takes them. -/
def Settlement.accounts : Settlement → List AccountView
  | solDeposit accounts | solWithdrawal accounts =>
    [accounts.solInterfaceAccount, accounts.recipientAccount]
  | splDeposit accounts =>
    [accounts.mintAccount, accounts.splInterfaceAccount, accounts.tokenAuthorityAccount,
      accounts.userTokenAccount, accounts.tokenProgramAccount]
  | splWithdrawal accounts =>
    [accounts.cpiAuthorityAccount, accounts.mintAccount, accounts.splInterfaceAccount,
      accounts.userTokenAccount, accounts.tokenProgramAccount]

/-- A settlement of the kind of the leg. -/
structure Settlement.Serves (settlement : Settlement) (transfer : InterfaceTransfer) : Prop where
  length_accounts : settlement.accounts.length = transfer.settlementAccountCount
  isDeposit : settlement.isDeposit = transfer.isDeposit
  /-- The mint of the settlement is the account at the position of the mint. -/
  legAsset : ∀ before after : List Address,
    Event.legAsset (before ++ settlement.accounts.map (·.address) ++ after) before.length transfer =
      some settlement.splAsset

theorem Settlement.legAsset_sol (h : transfer.mintAccountPosition = none) (accounts : List Address)
    (groupStart : Nat) : Event.legAsset accounts groupStart transfer = some none := by
  rw [Event.legAsset, h]

theorem Settlement.legAsset_spl {position : Nat} (h : transfer.mintAccountPosition = some position)
    {group : List Address} {mint : Address} (hmint : group[position]? = some mint)
    (before after : List Address) :
    Event.legAsset (before ++ group ++ after) before.length transfer = some (some mint) := by
  have hlt : position < group.length := (List.getElem?_eq_some_iff.mp hmint).1
  rw [Event.legAsset, h]
  dsimp only
  rw [List.append_assoc, List.getElem?_append_right (Nat.le_add_right _ _), Nat.add_sub_cancel_left,
    List.getElem?_append_left hlt, hmint]
  rfl

variable {HEIGHT K : Nat} {splInterfaceAddress : SplInterfaceAddress} {chain : Chain HEIGHT K}

theorem run_parseSettlement_eq_ok {settlement : Settlement} {accounts : List AccountView}
    (h : (parseSettlement splInterfaceAddress chain transfer).run accounts = .ok settlement rest) :
    settlement.Serves transfer ∧ accounts = settlement.accounts ++ rest := by
  cases transfer with
  | solDeposit amount | solWithdrawal amount =>
      obtain ⟨a, s₁, ha, h⟩ := of_run_bind h
      obtain ⟨b, s₂, hb, h⟩ := of_run_bind h
      obtain ⟨_, s₃, hcheck, h⟩ := of_run_bind h
      obtain ⟨_, rfl⟩ := run_mapErr_eq_ok_iff.mp hcheck
      cases h
      refine ⟨⟨rfl, rfl, fun _ _ => Settlement.legAsset_sol rfl _ _⟩, ?_⟩
      rw [run_nextAccount_eq_ok_iff.mp ha, run_nextAccount_eq_ok_iff.mp hb]
      rfl
  | splDeposit amount bump | splWithdrawal amount bump =>
      obtain ⟨a, s₁, ha, h⟩ := of_run_bind h
      obtain ⟨b, s₂, hb, h⟩ := of_run_bind h
      obtain ⟨c, s₃, hc, h⟩ := of_run_bind h
      obtain ⟨d, s₄, hd, h⟩ := of_run_bind h
      obtain ⟨e, s₅, he, h⟩ := of_run_bind h
      obtain ⟨_, s₆, hcheck, h⟩ := of_run_bind h
      obtain ⟨_, rfl⟩ := run_mapErr_eq_ok_iff.mp hcheck
      cases h
      refine ⟨⟨rfl, rfl, Settlement.legAsset_spl rfl rfl⟩, ?_⟩
      -- a withdrawal starts with the authority, which must not be writable
      have hfirst : accounts = a :: s₁ := by
        first
        | exact run_nextAccount_eq_ok_iff.mp ha
        | exact eq_cons_of_run_nextNonMut ha
      rw [hfirst, run_nextAccount_eq_ok_iff.mp hb, run_nextAccount_eq_ok_iff.mp hc,
        run_nextAccount_eq_ok_iff.mp hd, run_nextAccount_eq_ok_iff.mp he]
      rfl

theorem run_parseSettlements_eq_ok {parsed settlements : List Settlement} {accounts : List AccountView}
    (h : (parseSettlements splInterfaceAddress chain parsed transfers).run accounts = .ok settlements rest) :
    ∃ served, settlements = parsed ++ served ∧ List.Forall₂ Settlement.Serves served transfers ∧
      accounts = served.flatMap Settlement.accounts ++ rest := by
  induction transfers generalizing parsed accounts with
  | nil =>
      cases h
      exact ⟨[], (List.append_nil _).symm, .nil, rfl⟩
  | cons transfer transfers ih =>
      obtain ⟨settlement, remaining, hsettlement, h⟩ := of_run_bind h
      obtain ⟨hserves, haccounts⟩ := run_parseSettlement_eq_ok hsettlement
      split at h
      case isTrue =>
        obtain ⟨served, hsettlements, hserved, hremaining⟩ := ih h
        refine ⟨settlement :: served, ?_, .cons hserves hserved, ?_⟩
        · rw [hsettlements, List.append_assoc, List.singleton_append]
        · rw [haccounts, hremaining, List.flatMap_cons, List.append_assoc]
      case isFalse => cases h

theorem length_flatMap_accounts {served : List Settlement}
    (h : List.Forall₂ Settlement.Serves served transfers) : (served.flatMap Settlement.accounts).length =
      (transfers.map (·.settlementAccountCount)).sum := by
  induction h with
  | nil => rfl
  | cons hserves _ ih =>
      rw [List.flatMap_cons, List.length_append, ih, hserves.length_accounts, List.map_cons,
        List.sum_cons]

/-! ### The whole list -/

/-- Where the settlement accounts of a parsed transact are. -/
structure SettlesAccounts (ix : TransactIxData) (accounts : List AccountView)
    (settlements : List Settlement) : Prop where
  length_transfers : ix.interfaceTransfers.length ≤ maxInterfaceTransfers
  serves : List.Forall₂ Settlement.Serves settlements ix.interfaceTransfers
  window : ∃ before caches, accounts = before ++ settlements.flatMap Settlement.accounts ++ caches ∧
    caches.length = ix.circuit.readsCache.toNat + 2 * ix.circuit.writesCache.toNat

theorem length_le_of_validateInterfaceTransfers (h : validateInterfaceTransfers transfers = .ok ()) :
    transfers.length ≤ maxInterfaceTransfers := by
  unfold validateInterfaceTransfers at h
  split at h
  · cases h
  · omega

variable {ix : TransactIxData}

theorem settlesAccounts_of_parseTransactTail {payer outputTree : AccountView}
    {inputTrees accounts whole : List AccountView} {allowOwnerSigners : Bool}
    {parsed : ParsedTransactAccounts} (hsuffix : accounts <:+ whole)
    (h : (parseTransactTail splInterfaceAddress chain ix payer inputTrees outputTree
      allowOwnerSigners).run accounts = .ok parsed rest) :
    SettlesAccounts ix whole parsed.settlements := by
  obtain ⟨_, s₁, hcheck, h⟩ := of_run_bind h
  obtain ⟨hvalid, rfl⟩ := run_mapErr_eq_ok_iff.mp hcheck
  obtain ⟨pdas, s₂, hpdas, h⟩ := of_run_bind h
  obtain ⟨remaining, s₃, hget, h⟩ := of_run_bind h
  cases hget
  obtain ⟨passed, hpassed⟩ := advances_pushMuts _ _ _ _ whole hpdas hsuffix
  dsimp only at h
  split at h
  case isTrue => cases h
  case isFalse =>
  split at h
  case isTrue => cases h
  case isFalse hlength =>
  push Not at hlength
  obtain ⟨_, s₄, hset, h⟩ := of_run_bind h
  cases hset
  obtain ⟨settlements, caches, hsettlements, h⟩ := of_run_bind h
  obtain ⟨cache, s₅, hcache, h⟩ := of_run_bind h
  cases h
  obtain ⟨served, hserved, hserves, haccounts⟩ := run_parseSettlements_eq_ok hsettlements
  rw [List.nil_append] at hserved
  subst hserved
  refine ⟨length_le_of_validateInterfaceTransfers hvalid, hserves,
    passed ++ s₂.takeWhile (·.isSigner), caches, ?_, ?_⟩
  · rw [List.append_assoc, List.append_assoc, ← haccounts, List.takeWhile_append_dropWhile, hpassed]
  · rw [haccounts, List.length_append, length_flatMap_accounts hserves] at hlength
    omega

theorem settlesAccounts_of_parseTransactAccounts {accounts : List AccountView} {parsed : ParsedTransactAccounts}
    (h : (parseTransactAccounts splInterfaceAddress chain ix).run accounts = .ok parsed rest) :
    SettlesAccounts ix accounts parsed.settlements := by
  obtain ⟨_, s₁, hpayer, h⟩ := of_run_bind h
  obtain ⟨_, s₂, houtputTree, h⟩ := of_run_bind h
  obtain ⟨_, s₃, hprograms, h⟩ := of_run_bind h
  obtain ⟨_, s₄, hinputTrees, h⟩ := of_run_bind h
  refine settlesAccounts_of_parseTransactTail ?_ h
  apply advances_parseInputTrees _ _ accounts hinputTrees
  apply advances_validateProgramPrefix accounts hprograms
  apply advances_nextMut accounts houtputTree
  exact advances_nextSigner accounts hpayer (List.suffix_refl _)

theorem settlesAccounts_of_parseRingTransactAccounts {accounts : List AccountView}
    {parsed : ParsedTransactAccounts} {ringProgramId : Address} {requireRingAuthorityEnabled : Bool}
    (h : (parseRingTransactAccounts splInterfaceAddress chain ix requireRingAuthorityEnabled).run accounts =
      .ok (parsed, ringProgramId) rest) :
    SettlesAccounts ix accounts parsed.settlements := by
  obtain ⟨_, s₁, hpayer, h⟩ := of_run_bind h
  obtain ⟨_, s₂, houtputTree, h⟩ := of_run_bind h
  obtain ⟨_, s₃, hprograms, h⟩ := of_run_bind h
  obtain ⟨_, s₄, hringConfig, h⟩ := of_run_bind h
  obtain ⟨_, s₅, hconfig, h⟩ := of_run_bind h
  split at h
  case isTrue => cases h
  case isFalse =>
  obtain ⟨_, s₆, hinputTrees, h⟩ := of_run_bind h
  obtain ⟨accountsParsed, s₇, htail, h⟩ := of_run_bind h
  cases h
  refine settlesAccounts_of_parseTransactTail ?_ htail
  apply advances_parseInputTrees _ _ accounts hinputTrees
  apply Advances.mapErr _ _ accounts hconfig
  apply advances_nextSigner accounts hringConfig
  apply advances_validateProgramPrefix accounts hprograms
  apply advances_nextMut accounts houtputTree
  exact advances_nextSigner accounts hpayer (List.suffix_refl _)

end Zolana
