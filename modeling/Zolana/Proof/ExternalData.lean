import Zolana.Proof.Assemble
import Zolana.Proof.Wire

/-!
# What the external data hash determines

The preimage is the tag, the prefix, the committed accounts and the owners that the prefix names by
position, one behind another. The prefix delimits itself and says how many addresses follow, so the bytes
determine every part.
-/

namespace Zolana

open Codec Fallible

/-! ### The bytes of the preimage -/

theorem writeBytes32_injective : Function.Injective writeBytes32 := writeArray_injective 32

/-- The committed accounts of a leg. -/
def writePair (pair : Bytes32 × Bytes32) : List UInt8 := writeBytes32 pair.1 ++ writeBytes32 pair.2

theorem length_writePair (pair : Bytes32 × Bytes32) : (writePair pair).length = 64 := by
  simp [writePair]

theorem writePair_injective : Function.Injective writePair := by
  intro pair pair' h
  obtain ⟨hfirst, hsecond⟩ := List.append_inj h (by simp)
  exact Prod.ext (writeBytes32_injective hfirst) (writeBytes32_injective hsecond)

/-- The owners that the prefix names by position. -/
def accountTags (outputs : List (TransactOutput × ResolvedOutput)) : List Bytes32 :=
  (outputs.filter (·.1.ownerTag.isAccount)).map (·.2.ownerTag)

variable {outputs : List TransactOutput}

theorem length_accountTags {resolvedOutputs : List ResolvedOutput}
    (h : outputs.length = resolvedOutputs.length) : (accountTags (outputs.zip resolvedOutputs)).length =
      outputs.countP (·.ownerTag.isAccount) := by
  rw [accountTags, List.length_map, ← List.countP_eq_length_filter]
  conv_rhs => rw [← List.map_fst_zip (Nat.le_of_eq h)]
  rw [List.countP_map]
  rfl

namespace ExternalDataPreimage

variable {preimage preimage' : ExternalDataPreimage}

theorem flatten_pushAddress {address : Bytes32} (h : preimage.pushAddress address = .ok preimage') :
    preimage'.slices.flatten = preimage.slices.flatten ++ writeBytes32 address := by
  unfold pushAddress at h
  split at h
  case isTrue =>
    cases h
    simp
  case isFalse => cases h

theorem flatten_pushSettlements {committed : List (Bytes32 × Bytes32)}
    (h : preimage.pushSettlements committed = .ok preimage') :
    preimage'.slices.flatten = preimage.slices.flatten ++ committed.flatMap writePair := by
  induction committed generalizing preimage with
  | nil =>
      cases h
      simp
  | cons pair committed ih =>
      obtain ⟨pushed, hpush, hrest⟩ := of_bind_ok h
      obtain ⟨asset, hasset, huser⟩ := of_bind_ok hpush
      rw [ih hrest, flatten_pushAddress huser, flatten_pushAddress hasset]
      simp [writePair]

theorem flatten_pushOwnerTags {outputs : List (TransactOutput × ResolvedOutput)}
    (h : preimage.pushOwnerTags outputs = .ok preimage') : preimage'.slices.flatten =
      preimage.slices.flatten ++ (accountTags outputs).flatMap writeBytes32 := by
  induction outputs generalizing preimage with
  | nil =>
      cases h
      simp [accountTags]
  | cons pair outputs ih =>
      obtain ⟨output, resolved⟩ := pair
      obtain ⟨pushed, hpush, hrest⟩ := of_bind_ok h
      rw [ih hrest]
      cases htag : output.ownerTag with
      | inline tag =>
          rw [htag] at hpush
          cases hpush
          simp [accountTags, htag, OwnerTag.isAccount]
      | account index =>
          rw [htag] at hpush
          rw [flatten_pushAddress hpush]
          simp [accountTags, htag, OwnerTag.isAccount]

end ExternalDataPreimage

variable {sha256 : Sha256}

theorem hashExternalData_eq_ok {tag : UInt8} {externalDataPrefix : List UInt8}
    {committed : List (Bytes32 × Bytes32)} {resolvedOutputs : List ResolvedOutput} {externalDataHash : Bytes32}
    (h : hashExternalData sha256 tag externalDataPrefix outputs committed resolvedOutputs =
      .ok externalDataHash) :
    sha256Be sha256 (tag :: (externalDataPrefix ++ (committed.flatMap writePair ++
      (accountTags (outputs.zip resolvedOutputs)).flatMap writeBytes32))) = .ok externalDataHash := by
  obtain ⟨settled, hsettled, h⟩ := of_bind_ok h
  obtain ⟨owned, howned, h⟩ := of_bind_ok h
  rw [ExternalDataPreimage.finish, ExternalDataPreimage.flatten_pushOwnerTags howned,
    ExternalDataPreimage.flatten_pushSettlements hsettled] at h
  simpa [ExternalDataPreimage.new] using h

/-! ### Resolved owners -/

theorem resolveOutputsFrom_eq_ok {accounts : List Address} {before resolved : List ResolvedOutput}
    (h : resolveOutputsFrom accounts before outputs = .ok resolved) : ∃ added, resolved = before ++ added ∧
      List.Forall₂ (fun output next => output.intoResolved (fun index => accounts[index.toNat]?) = .ok next)
        outputs added := by
  induction outputs generalizing before with
  | nil =>
      cases h
      exact ⟨[], (List.append_nil _).symm, .nil⟩
  | cons output outputs ih =>
      obtain ⟨next, hnext, hrest⟩ := of_bind_ok h
      split at hrest
      case isTrue =>
        obtain ⟨added, rfl, hadded⟩ := ih hrest
        exact ⟨next :: added, by simp, .cons hnext hadded⟩
      case isFalse => cases hrest

theorem ownerTags_eq_of_accountTags {accounts accounts' : List Address}
    {resolved resolved' : List ResolvedOutput}
    (h : List.Forall₂ (fun output next => output.intoResolved (fun index => accounts[index.toNat]?) = .ok next)
      outputs resolved)
    (h' : List.Forall₂ (fun output next => output.intoResolved (fun index => accounts'[index.toNat]?) = .ok next)
      outputs resolved')
    (htags : accountTags (outputs.zip resolved) = accountTags (outputs.zip resolved')) :
    resolved.map (·.ownerTag) = resolved'.map (·.ownerTag) := by
  induction h generalizing resolved' with
  | nil =>
      cases h'
      rfl
  | @cons output next outputs resolved hnext _ ih =>
      cases h' with
      | @cons _ next' _ resolved' hnext' hrest' =>
          obtain ⟨tag, htag, hnext⟩ := of_bind_ok hnext
          obtain ⟨tag', htag', hnext'⟩ := of_bind_ok hnext'
          cases hnext
          cases hnext'
          cases hownerTag : output.ownerTag with
          | inline bytes =>
              rw [hownerTag] at htag htag'
              cases htag
              cases htag'
              simp only [accountTags, List.zip_cons_cons, List.filter_cons, hownerTag,
                OwnerTag.isAccount, Bool.false_eq_true, if_false] at htags
              rw [List.map_cons, List.map_cons, ih hrest' htags]
          | account index =>
              simp only [accountTags, List.zip_cons_cons, List.filter_cons, hownerTag,
                OwnerTag.isAccount, if_true, List.map_cons, List.cons.injEq] at htags
              rw [List.map_cons, List.map_cons, ih hrest' htags.2, htags.1]

/-! ### The cache write -/

theorem InstructionTag.toByte_injective : Function.Injective InstructionTag.toByte := by
  intro a b h
  cases a <;> cases b <;> first | rfl | cases h

theorem InstructionTag.cons_ne_cacheWriteDomain (instruction : InstructionTag)
    (bytes tail : List UInt8) : instruction.toByte :: bytes ≠ cacheWriteDomain ++ tail := by
  intro h
  cases instruction <;> exact absurd (List.cons.inj h).1 (by decide)

def writeCacheSlots (writeSlots : Vector CacheWrite maxCacheWrites) : List UInt8 :=
  writeSlots.toList.flatMap fun entry => [entry.output, entry.slot]

theorem writeCacheSlots_injective : Function.Injective writeCacheSlots := by
  intro writeSlots writeSlots' h
  have hpair : Function.Injective fun entry : CacheWrite => [entry.output, entry.slot] := by
    intro entry entry' hentry
    cases entry
    cases entry'
    simpa using hentry
  have hwidth : ∀ entry : CacheWrite, [entry.output, entry.slot].length = 2 := fun _ => rfl
  have hlength : writeSlots.toList.length = writeSlots'.toList.length := by simp
  obtain ⟨hlists, _⟩ := flatMap_append_inj hwidth hpair hlength (congrArg (· ++ []) h)
  exact Vector.toList_inj.mp hlists

/-- The bytes under the hash of a transact that writes no cache. -/
def externalDataBytes (instruction : InstructionTag) (transact : AssembledTransact) : List UInt8 :=
  instruction.toByte :: (transact.externalDataPrefix ++
    ((transact.accounts.settlements.map (·.committedAccounts)).flatMap writePair ++
      (accountTags (transact.ix.outputs.zip transact.resolvedOutputs)).flatMap writeBytes32))

theorem bindCacheWrite_inj (hfree : sha256.CollisionFree) {instruction instruction' : InstructionTag}
    {bytes bytes' : List UInt8} {inner inner' bound : Bytes32}
    {destination destination' : Option (Bytes32 × Vector CacheWrite maxCacheWrites)}
    (hinner : sha256Be sha256 (instruction.toByte :: bytes) = .ok inner)
    (hinner' : sha256Be sha256 (instruction'.toByte :: bytes') = .ok inner')
    (hbound : bindCacheWrite sha256 inner destination = .ok bound)
    (hbound' : bindCacheWrite sha256 inner' destination' = .ok bound) :
    instruction.toByte :: bytes = instruction'.toByte :: bytes' ∧ destination = destination' := by
  cases destination with
  | none =>
      cases hbound
      cases destination' with
      | none =>
          cases hbound'
          exact ⟨hfree _ _ _ hinner hinner', rfl⟩
      | some written' =>
          have hbytes := hfree _ _ _ hinner hbound'
          rw [List.append_assoc, List.append_assoc] at hbytes
          exact absurd hbytes (instruction.cons_ne_cacheWriteDomain _ _)
  | some written =>
      cases destination' with
      | none =>
          cases hbound'
          have hbytes := hfree _ _ _ hinner' hbound
          rw [List.append_assoc, List.append_assoc] at hbytes
          exact absurd hbytes (instruction'.cons_ne_cacheWriteDomain _ _)
      | some written' =>
          obtain ⟨cache, writeSlots⟩ := written
          obtain ⟨cache', writeSlots'⟩ := written'
          obtain ⟨hfront, hslots⟩ := List.append_inj (hfree _ _ _ hbound hbound') (by simp)
          obtain ⟨hfront, hcache⟩ := List.append_inj' hfront (by simp)
          have hdigest := List.append_cancel_left hfront
          cases writeBytes32_injective hdigest
          cases writeBytes32_injective hcache
          cases writeCacheSlots_injective hslots
          exact ⟨hfree _ _ _ hinner hinner', rfl⟩

/-! ### A transact -/

section Transact

variable {HEIGHT K : Nat} {env : ChainEnv} {instruction instruction' : InstructionTag}
  {accounts accounts' : List AccountView} {data data' : List UInt8} {clock clock' : Clock}
  {chain chain' assembled assembled' : Chain HEIGHT K} {transact transact' : AssembledTransact}

theorem TransactSteps.externalDataHash_eq
    (steps : TransactSteps env instruction accounts data clock chain transact assembled) :
    ∃ inner, sha256Be env.sha256 (externalDataBytes instruction transact) = .ok inner ∧
      bindCacheWrite env.sha256 inner (cacheDestination transact.cache transact.ix.circuit) =
        .ok transact.proofInputs.externalDataHash := by
  have h := steps.externalData
  unfold boundExternalDataHash at h
  split at h
  case h_1 => cases h
  case h_2 inner hinner =>
    split at h
    case h_1 => cases h
    case h_2 bound hbound =>
      cases h
      refine ⟨inner, hashExternalData_eq_ok hinner, ?_⟩
      rw [hbound, steps.proofInputs_eq]
      rfl

theorem TransactSteps.externalDataBytes_inj
    (steps : TransactSteps env instruction accounts data clock chain transact assembled)
    (steps' : TransactSteps env instruction' accounts' data' clock' chain' transact' assembled')
    (h : externalDataBytes instruction transact = externalDataBytes instruction' transact') :
    instruction = instruction' ∧ transact.ix.toExternalData = transact'.ix.toExternalData ∧
      transact.accounts.settlements.map (·.committedAccounts) =
        transact'.accounts.settlements.map (·.committedAccounts) ∧
      transact.resolvedOutputs.map (·.ownerTag) = transact'.resolvedOutputs.map (·.ownerTag) := by
  obtain ⟨hpre, rest, hread⟩ := parseWithExternalDataPrefix_eq_some steps.parsed
  obtain ⟨hpre', rest', hread'⟩ := parseWithExternalDataPrefix_eq_some steps'.parsed
  unfold externalDataBytes at h
  rw [hpre, hpre'] at h
  obtain ⟨htag, h⟩ := List.cons.inj h
  -- the prefix delimits itself
  obtain ⟨hfields, h⟩ := exact_externalData.reads.append_inj hread hread' h
  -- and has one pair of accounts for each leg
  have hlegs : (transact.accounts.settlements.map (·.committedAccounts)).length =
      (transact'.accounts.settlements.map (·.committedAccounts)).length := by
    rw [List.length_map, List.length_map, ← steps.settlements_length, ← steps'.settlements_length,
      hfields]
  obtain ⟨hcommitted, h⟩ := flatMap_append_inj length_writePair writePair_injective hlegs h
  obtain ⟨_, rfl, hresolved⟩ := resolveOutputsFrom_eq_ok steps.resolved
  obtain ⟨_, rfl, hresolved'⟩ := resolveOutputsFrom_eq_ok steps'.resolved
  have houtputs : transact.ix.outputs = transact'.ix.outputs := congrArg ExternalData.outputs hfields
  -- and one owner for each output that names an account
  have hcount : (accountTags (transact.ix.outputs.zip transact.resolvedOutputs)).length =
      (accountTags (transact'.ix.outputs.zip transact'.resolvedOutputs)).length := by
    rw [length_accountTags hresolved.length_eq, length_accountTags hresolved'.length_eq, houtputs]
  obtain ⟨htags, _⟩ := flatMap_append_inj length_writeBytes32 writeBytes32_injective hcount
    (congrArg (· ++ []) h)
  rw [houtputs] at hresolved htags
  exact ⟨InstructionTag.toByte_injective htag, hfields, hcommitted,
    ownerTags_eq_of_accountTags hresolved hresolved' htags⟩

theorem TransactSteps.externalDataHash_inj (hfree : env.sha256.CollisionFree)
    (steps : TransactSteps env instruction accounts data clock chain transact assembled)
    (steps' : TransactSteps env instruction' accounts' data' clock' chain' transact' assembled')
    (h : transact.proofInputs.externalDataHash = transact'.proofInputs.externalDataHash) :
    externalDataBytes instruction transact = externalDataBytes instruction' transact' ∧
      cacheDestination transact.cache transact.ix.circuit =
        cacheDestination transact'.cache transact'.ix.circuit := by
  obtain ⟨inner, hinner, hbound⟩ := steps.externalDataHash_eq
  obtain ⟨inner', hinner', hbound'⟩ := steps'.externalDataHash_eq
  exact bindCacheWrite_inj hfree hinner hinner' hbound (h ▸ hbound')

end Transact

end Zolana
