import Zolana.Properties.PublicInputs

/-!
# The external data hash binds what a transact does outside the pool

Two accepted transacts whose proofs were made for one external data hash send the same prefix, settle with
the same accounts, resolve the same owners and write the same cache.
-/

namespace Zolana

open Codec Fallible

variable {HEIGHT K : Nat}

/-- What two transacts share when they commit to the same external data. -/
structure SameExternalData (instruction instruction' : InstructionTag)
    (transact transact' : AssembledTransact) : Prop where
  instruction : instruction = instruction'
  externalDataPrefix : transact.externalDataPrefix = transact'.externalDataPrefix
  fields : transact.ix.toExternalData = transact'.ix.toExternalData
  committedAccounts : transact.accounts.settlements.map (·.committedAccounts) =
    transact'.accounts.settlements.map (·.committedAccounts)
  ownerTags : transact.resolvedOutputs.map (·.ownerTag) = transact'.resolvedOutputs.map (·.ownerTag)
  cacheDestination : cacheDestination transact.cache transact.ix.circuit =
    cacheDestination transact'.cache transact'.ix.circuit

theorem externalDataPrefix_eq {data externalDataPrefix : List UInt8} {ix : TransactIxData}
    (h : parseWithExternalDataPrefix data = some (ix, externalDataPrefix)) :
    externalDataPrefix = ix.toExternalData.write ∧
      ∃ rest, data = externalDataPrefix ++ (writeBytes32 ix.privateTxHash ++ rest) := by
  obtain ⟨hpre, rest, hread⟩ := parseWithExternalDataPrefix_eq_some h
  refine ⟨hpre, rest, ?_⟩
  rw [hpre]
  exact (exact_externalData.mp hread).2

/-- The external data hash of an accepted transact determines everything the hash speaks about. -/
theorem external_data_hash_binds {env : ChainEnv} (hfree : env.sha256.CollisionFree) :
    (∀ {data externalDataPrefix : List UInt8} {ix : TransactIxData},
      parseWithExternalDataPrefix data = some (ix, externalDataPrefix) →
        externalDataPrefix = ix.toExternalData.write ∧
          ∃ rest, data = externalDataPrefix ++ (writeBytes32 ix.privateTxHash ++ rest)) ∧
      ∀ {instruction instruction' : InstructionTag} {accounts accounts' : List AccountView}
        {data data' : List UInt8} {clock clock' : Clock} {chain chain' final final' : Chain HEIGHT K}
        {transact transact' : AssembledTransact},
        (processTransactIx env instruction accounts data clock).run chain = .ok transact final →
        (processTransactIx env instruction' accounts' data' clock').run chain' = .ok transact' final' →
        transact.proofInputs.externalDataHash = transact'.proofInputs.externalDataHash →
          SameExternalData instruction instruction' transact transact' := by
  refine ⟨externalDataPrefix_eq, ?_⟩
  intro instruction instruction' accounts accounts' data data' clock clock' chain chain' final final'
    transact transact' h h' hhash
  obtain ⟨_, _, hassemble, _⟩ := run_processTransactIx_ok h
  obtain ⟨_, _, hassemble', _⟩ := run_processTransactIx_ok h'
  obtain ⟨steps⟩ := run_assembleTransact_ok hassemble
  obtain ⟨steps'⟩ := run_assembleTransact_ok hassemble'
  obtain ⟨hbytes, hdestination⟩ := steps.externalDataHash_inj hfree steps' hhash
  obtain ⟨hinstruction, hfields, hcommitted, hownerTags⟩ := steps.externalDataBytes_inj steps' hbytes
  have hpre := (externalDataPrefix_eq steps.parsed).1
  have hpre' := (externalDataPrefix_eq steps'.parsed).1
  exact {
    instruction := hinstruction
    externalDataPrefix := by rw [hpre, hpre', hfields]
    fields := hfields
    committedAccounts := hcommitted
    ownerTags := hownerTags
    cacheDestination := hdestination }

theorem collisionFree_sha256Log : transferEnv.sha256.CollisionFree := by
  have hnodup : (sha256Log.map fun entry => entry.2 &&& BitVec.allOnes 256 >>> 8).Nodup := by
    decide +kernel
  intro bytes bytes' digest h h'
  obtain ⟨first, hfirst, h⟩ := of_bind_ok h
  obtain ⟨second, hsecond, h'⟩ := of_bind_ok h'
  exact Oracle.answer_inj (· &&& BitVec.allOnes 256 >>> 8) hnodup hfirst hsecond
    (Except.ok.inj (h.trans h'.symm))

theorem processes_transfer {proof : Bytes32} (h : proof = 9 ∨ proof = 10) : ∃ transact final,
      (processTransactIx transferEnv .transact transferAccounts (transferData proof) ⟨7, 50⟩).run
        transferChain = .ok transact final ∧
      transact.ix.proof.a = proof ∧
      transact.proofInputs.externalDataHash = 42 := by
  have hsucceeds : succeeds
      (processTransactIx transferEnv .transact transferAccounts (transferData proof) ⟨7, 50⟩)
      transferChain (fun transact _ =>
        decide (transact.ix.proof.a = proof ∧ transact.proofInputs.externalDataHash = 42)) = true := by
    rcases h with rfl | rfl <;> decide +kernel
  obtain ⟨transact, final, hrun, hfacts⟩ := exists_of_succeeds hsucceeds
  exact ⟨transact, final, hrun, of_decide_eq_true hfacts⟩

/-- The transfer is accepted with either proof, and has one external data hash. -/
theorem transfer_external_data_bound :
    (∃ ix rest, parseWithExternalDataPrefix (transferData 9) = some (ix, transferExternalData.write) ∧
      transferData 9 = transferExternalData.write ++ (writeBytes32 ix.privateTxHash ++ rest)) ∧
    ∃ (transact transact' : AssembledTransact) (final final' : Chain 32 1),
      (processTransactIx transferEnv .transact transferAccounts (transferData 9) ⟨7, 50⟩).run
        transferChain = .ok transact final ∧
      (processTransactIx transferEnv .transact transferAccounts (transferData 10) ⟨7, 50⟩).run
        transferChain = .ok transact' final' ∧
      transact.ix.proof.a ≠ transact'.ix.proof.a ∧
      SameExternalData .transact .transact transact transact' := by
  obtain ⟨hparses, hbinds⟩ := @external_data_hash_binds 32 1 transferEnv collisionFree_sha256Log
  constructor
  · have hparsed : (parseWithExternalDataPrefix (transferData 9)).map (·.2) =
        some transferExternalData.write := by decide +kernel
    obtain ⟨⟨ix, _⟩, hix, rfl⟩ := Option.map_eq_some_iff.mp hparsed
    obtain ⟨_, rest, hdata⟩ := hparses hix
    exact ⟨ix, rest, hix, hdata⟩
  · obtain ⟨transact, final, hrun, hproof, hhash⟩ := processes_transfer (.inl rfl)
    obtain ⟨transact', final', hrun', hproof', hhash'⟩ := processes_transfer (.inr rfl)
    refine ⟨transact, transact', final, final', hrun, hrun', ?_, ?_⟩
    · rw [hproof, hproof']
      decide
    · exact hbinds hrun hrun' (hhash.trans hhash'.symm)

end Zolana
