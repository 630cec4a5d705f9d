import Zolana.Pool.ProcessTransact
import Zolana.Proof.PoolTransact
import Zolana.Proof.PublicSlots

/-!
# The steps of a transact

One inversion for the processor: what every step of an accepted transact was given and what it answered.
The proofs about a transact read its steps off here and never unfold the processor.
-/

namespace Zolana

open Fallible

variable {HEIGHT K : Nat} {env : ChainEnv} {instruction : InstructionTag} {accounts : List AccountView}
  {data : List UInt8} {clock : Clock} {chain chain' : Chain HEIGHT K} {transact : AssembledTransact}

theorem run_onChainLedger_ok {α : Type} {act : PoolM HEIGHT K α} {a : α}
    (h : (onChainLedger act).run chain = .ok a chain') :
    ∃ ledger, act.run chain.ledger = .ok a ledger ∧ chain' = { chain with ledger } :=
  run_within_eq_ok_iff.mp h

/-- What the steps of `process_transact_ix` up to the proof were given and answered. -/
structure TransactSteps (env : ChainEnv) (instruction : InstructionTag) (accounts : List AccountView)
    (data : List UInt8) (clock : Clock) (chain : Chain HEIGHT K) (transact : AssembledTransact)
    (chain' : Chain HEIGHT K) where
  treeInputCounts : List Nat
  /-- The proof inputs behind the account parser, the amounts, and the cached inputs. -/
  parsedInputs : Verify.TransactProofInputs
  ownedInputs : Verify.TransactProofInputs
  boundInputs : Verify.TransactProofInputs
  queued : List QueuedInputs
  inputFlags : Bytes32
  /-- The ledger behind the input trees, and behind the output tree. -/
  spent : Ledger HEIGHT K
  appended : Ledger HEIGHT K
  paid : Ledger HEIGHT K
  treeWrite : TreeWrite
  outputTreeFee : Nat
  externalDataHash : Bytes32
  parsed : parseWithExternalDataPrefix data = some (transact.ix, transact.externalDataPrefix)
  selector : validateSelector env instruction transact.ix = .ok ()
  fields : (validateTransact transact.ix.treePart).run chain.ledger = .ok () chain.ledger
  selection : validateCacheSelection transact.ix = .ok ()
  contexts : validateInputTreeContexts transact.ix.inputs transact.ix.treeContexts = .ok treeInputCounts
  notExpired : (checkNotExpired transact.ix.expiryUnixTs.toNat clock).run chain.ledger = .ok () chain.ledger
  resolved : resolveOutputs (accounts.map (·.address)) transact.ix.outputs = .ok transact.resolvedOutputs
  parsedAccounts : parseTransact env chain transact.ix accounts (.new transact.ix.circuit) =
    .ok (transact.accounts, parsedInputs)
  loadedCache : TransactCache.load chain transact.accounts.cache clock.unixTimestamp = .ok transact.cache
  owned : assignOwnersAndAmounts env.tree.hashv transact.ix transact.accounts transact.resolvedOutputs
    parsedInputs = .ok ownedInputs
  inputs : (applyInputTrees env.pool transact.accounts.treePart transact.ix.treePart treeInputCounts).run
    chain.ledger = .ok (queued, inputFlags) spent
  cachedInputs : bindCachedInputs env.tree.hashv { chain with ledger := spent } transact.cache
    transact.ix.circuit (ownedInputs.assignInputTrees (queued.map (·.slot)) inputFlags) = .ok boundInputs
  outputs : (applyOutputTree env.tree.hashv transact.accounts.outputTree.address
    (transact.ix.outputs.map (·.utxoHash)) clock.slot
    (transact.accounts.outputTree.address ∈ transact.accounts.inputTrees.map (·.address))).run spent =
      .ok (treeWrite, outputTreeFee) appended
  fee : (collectTreeFee transact.accounts.payer.address transact.accounts.outputTree.address
    outputTreeFee).run appended = .ok () paid
  outputTree : checkCacheOutputTree { chain with ledger := paid } transact.cache
    treeWrite.outputTreeId = .ok ()
  externalData : boundExternalDataHash env.sha256 instruction transact.ix transact.externalDataPrefix
    transact.accounts.settlements transact.resolvedOutputs transact.cache = .ok externalDataHash
  proofInputs_eq : transact.proofInputs =
    (boundInputs.assignOutputTreeId treeWrite.outputTreeId).assignExternalDataHash externalDataHash
  complete : transact.proofInputs.ensureComplete = .ok ()
  event_eq : transact.event =
    { inputTrees := queued.map fun tree => (tree.result.tree, tree.result.firstInputQueueSeq)
      outputTree := transact.accounts.outputTree.address
      firstOutputLeafIndex := treeWrite.firstOutputLeafIndex }
  chain_eq : chain' = { chain with ledger := paid }

theorem run_assembleTransact_ok
    (h : (assembleTransact env instruction accounts data clock).run chain = .ok transact chain') :
    Nonempty (TransactSteps env instruction accounts data clock chain transact chain') := by
  obtain ⟨⟨ix, externalDataPrefix⟩, _, hstep, h⟩ := of_run_bind h
  obtain ⟨hparsed, rfl⟩ := run_okOr_eq_ok_iff.mp hstep
  obtain ⟨_, _, hvalidate, h⟩ := of_run_bind h
  obtain ⟨_, hselector, hvalidate⟩ := of_run_mapErr_bind hvalidate
  obtain ⟨_, _, hstep, hvalidate⟩ := of_run_bind hvalidate
  obtain ⟨ledger, hfields, rfl⟩ := run_onChainLedger_ok hstep
  cases (keeps_validateTransact ix.treePart).state_eq hfields
  obtain ⟨hselection, rfl⟩ := run_mapErr_eq_ok_iff.mp hvalidate
  obtain ⟨treeInputCounts, hcontexts, h⟩ := of_run_mapErr_bind h
  obtain ⟨_, _, hstep, h⟩ := of_run_bind h
  obtain ⟨ledger, hexpiry, rfl⟩ := run_onChainLedger_ok hstep
  cases (keeps_checkNotExpired _ clock).state_eq hexpiry
  obtain ⟨resolvedOutputs, hresolved, h⟩ := of_run_mapErr_bind h
  -- the accounts are parsed, the trees are written and the public inputs are bound
  replace h := of_run_get_bind h
  obtain ⟨⟨transactAccounts, parsedInputs⟩, _, hstep, h⟩ := of_run_bind h
  obtain ⟨hparsedAccounts, rfl⟩ := run_mapErr_eq_ok_iff.mp hstep
  replace h := of_run_get_bind h
  obtain ⟨cache, hcache, h⟩ := of_run_mapErr_bind h
  obtain ⟨ownedInputs, howned, h⟩ := of_run_mapErr_bind h
  obtain ⟨⟨queued, inputFlags⟩, _, hstep, h⟩ := of_run_bind h
  obtain ⟨spent, hinputs, rfl⟩ := run_onChainLedger_ok hstep
  replace h := of_run_get_bind h
  obtain ⟨boundInputs, hbound, h⟩ := of_run_mapErr_bind h
  obtain ⟨⟨treeWrite, outputTreeFee⟩, _, hstep, h⟩ := of_run_bind h
  obtain ⟨appended, houtputs, rfl⟩ := run_onChainLedger_ok hstep
  obtain ⟨_, _, hstep, h⟩ := of_run_bind h
  obtain ⟨paid, hfee, rfl⟩ := run_onChainLedger_ok hstep
  replace h := of_run_get_bind h
  obtain ⟨_, houtputTree, h⟩ := of_run_mapErr_bind h
  obtain ⟨externalDataHash, hexternalData, h⟩ := of_run_mapErr_bind h
  obtain ⟨_, hcomplete, h⟩ := of_run_mapErr_bind h
  cases h
  exact ⟨{ treeInputCounts, parsedInputs, ownedInputs, boundInputs, queued, inputFlags, spent, appended,
           paid, treeWrite, outputTreeFee, externalDataHash
           parsed := hparsed
           selector := hselector
           fields := hfields
           selection := hselection
           contexts := hcontexts
           notExpired := hexpiry
           resolved := hresolved
           parsedAccounts := hparsedAccounts
           loadedCache := hcache
           owned := howned
           inputs := hinputs
           cachedInputs := hbound
           outputs := houtputs
           fee := hfee
           outputTree := houtputTree
           externalData := hexternalData
           proofInputs_eq := rfl
           complete := hcomplete
           event_eq := rfl
           chain_eq := rfl }⟩

theorem assignOwnersAndAmounts_eq_ok {hashv : Hashv} {ix : TransactIxData}
    {parsedAccounts : ParsedTransactAccounts} {resolvedOutputs : List ResolvedOutput}
    {proofInputs ownedInputs : Verify.TransactProofInputs}
    (h : assignOwnersAndAmounts hashv ix parsedAccounts resolvedOutputs proofInputs = .ok ownedInputs) :
    ∃ signers ownerHashes owners slots,
      Verify.signerHashes hashv ⟨[]⟩ [] (if ix.circuit.requiresInputSignatures then
        parsedAccounts.ownerSigners.map (·.address) else [parsedAccounts.payer.address]) =
          .ok (signers, ownerHashes) ∧
      resolvedOutputs.length ≤ maxOutputs ∧
      Verify.outputOwnerHashes hashv ix.circuit.outputOwnerMode ownerHashes resolvedOutputs = .ok owners ∧
      Verify.publicSlots hashv ix.interfaceTransfers parsedAccounts.settlements
        ix.circuit.numPublicAssetSlots = .ok slots ∧
      ownedInputs =
        { proofInputs with
          signerPkHashes := signers
          outputOwnerPkHashes := owners ++ List.replicate (maxOutputs - owners.length) 0
          publicSlotAssets := slots.map (·.1) ++ List.replicate (nPublicSlots - slots.length) 0
          publicSlotAmounts := slots.map (·.2) ++ List.replicate (nPublicSlots - slots.length) 0
          assignments := proofInputs.assignments ||| Verify.assignedOwnerSigners |||
            Verify.assignedOutputOwners ||| Verify.assignedPublicTransfers } := by
  obtain ⟨⟨signed, ownerHashes⟩, hsigned, h⟩ := of_bind_ok h
  obtain ⟨published, hpublished, h⟩ := of_bind_ok h
  rw [Verify.TransactProofInputs.fillOwnerSignerHashes, if_neg (by simp)] at hsigned
  obtain ⟨⟨signers, _⟩, hsigners, hsigned⟩ := of_bind_ok hsigned
  cases hsigned
  unfold Verify.TransactProofInputs.fillOutputOwnerPkHashes at hpublished
  split at hpublished
  case isTrue => cases hpublished
  case isFalse hlength =>
  obtain ⟨owners, howners, hpublished⟩ := of_bind_ok hpublished
  cases hpublished
  obtain ⟨slots, hslots, h⟩ := of_bind_ok h
  cases h
  exact ⟨signers, ownerHashes, owners, slots, hsigners, Nat.le_of_not_lt hlength, howners, hslots, rfl⟩

namespace TransactSteps

variable (steps : TransactSteps env instruction accounts data clock chain transact chain')
include steps

theorem settlements_length : transact.ix.interfaceTransfers.length = transact.accounts.settlements.length := by
  obtain ⟨_, _, _, _, _, _, _, hslots, _⟩ := assignOwnersAndAmounts_eq_ok steps.owned
  exact (Verify.publicSlots_eq_ok hslots).1

end TransactSteps

theorem run_processTransactIx_ok
    (h : (processTransactIx env instruction accounts data clock).run chain = .ok transact chain') :
    ∃ assembled written,
      (assembleTransact env instruction accounts data clock).run chain = .ok transact assembled ∧
      verifyTransactProof env transact.ix transact.proofInputs = .ok () ∧
      (writeCachedOutputs transact.cache transact.ix).run assembled = .ok () written ∧
      (settleInterfaceTransfers env.token transact.legs).run written = .ok () chain' := by
  obtain ⟨authorized, written, hauthorize, h⟩ := of_run_bind h
  obtain ⟨_, _, hsettle, h⟩ := of_run_bind h
  cases h
  obtain ⟨_, assembled, hassemble, hauthorize⟩ := of_run_bind hauthorize
  obtain ⟨_, hverify, hauthorize⟩ := of_run_mapErr_bind hauthorize
  obtain ⟨_, _, hwrite, hauthorize⟩ := of_run_bind hauthorize
  cases hauthorize
  exact ⟨assembled, written, hassemble, hverify, hwrite, hsettle⟩

end Zolana
