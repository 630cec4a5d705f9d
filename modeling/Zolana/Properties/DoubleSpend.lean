import Zolana.Proof.PoolInvariant

/-!
# No double spend

Over any interleaving of spends, batch updates and PDA closings on any trees, no nullifier is accepted
twice for the same tree. Nothing is assumed of the batch updates and closings that are attempted, and two
nullifiers may even share a PDA address: the record in a PDA names its tree and its queue index.
-/

namespace Zolana

variable {HEIGHT K : Nat} {env : PoolEnv} {run : PoolRun HEIGHT K}

/-- The batch updates of a run are sound for the values queued in their tree. -/
def PoolRun.BatchProofsSound (env : PoolEnv) (commits : Bytes32 → Set Bytes32)
    (run : PoolRun HEIGHT K) : Prop :=
  ∀ address tree, run.ledger.tree address = some tree →
    Run.BatchProofsSound env.tree tree.nullifier.zkpBatchSize commits
      ⟨tree.nullifier, ofTree address run.accepted, [], ofTree address run.submitted⟩

/-- The spend proofs of a run are sound: a verified one proves each of its nullifiers absent from the
set that the nullifier root of its tree slot commits. -/
def PoolRun.SpendProofsSound (env : PoolEnv) (commits : Bytes32 → Set Bytes32)
    (run : PoolRun HEIGHT K) : Prop :=
  ∀ proof ∈ run.verified, env.Verifies proof → ∀ nullifier slot, proof.Input nullifier slot →
    nullifier ∉ commits slot.nullifierRoot

theorem mem_ofTree {α : Type} {address : Address} {value : α} {entries : List (Address × α)} :
    value ∈ ofTree address entries ↔ (address, value) ∈ entries := by
  simp [ofTree]

theorem nodup_of_ofTree {α : Type} {entries : List (Address × α)}
    (h : ∀ address, (ofTree address entries).Nodup) : entries.Nodup := by
  induction entries with
  | nil => exact List.nodup_nil
  | cons entry entries ih =>
      obtain ⟨address, value⟩ := entry
      have hhead : (value :: ofTree address entries).Nodup := by
        simpa [ofTree] using h address
      refine List.nodup_cons.mpr ⟨?_, ih ?_⟩
      · intro hmem
        exact (List.nodup_cons.mp hhead).1 (mem_ofTree.mpr hmem)
      · intro other
        have hsublist : List.Sublist (ofTree other entries)
            (ofTree other ((address, value) :: entries)) :=
          ((List.sublist_cons_self _ _).filter _).map _
        exact (h other).sublist hsublist

section Trace

variable {commits : Bytes32 → Set Bytes32} {genesis : Ledger HEIGHT K} {events : List PoolEvent}

theorem PoolFollows.batchProofsSound {reserve : Nat}
    (h : PoolFollows env reserve genesis.spendView run.ledger.spendView events run.accepted
      run.submitted run.verified) (hbatch : run.BatchProofsSound env commits) :
    BatchProofsSound env commits events run.ledger.spendView := by
  intro address side hside
  obtain ⟨tree, htree, rfl⟩ := Option.map_eq_some_iff.mp hside
  rw [h.queued, h.submitted]
  exact hbatch address tree htree

theorem PoolFollows.absent {reserve : Nat}
    (h : PoolFollows env reserve genesis.spendView run.ledger.spendView events run.accepted
      run.submitted run.verified) (hspend : run.SpendProofsSound env commits)
    (group : SpendGroup) (hgroup : .queue group ∈ events) (nullifier : Bytes32)
    (hmem : nullifier ∈ group.nullifiers) : nullifier ∉ commits group.slot.nullifierRoot := by
  obtain ⟨proof, hproof, hjustifies⟩ := h.justified group hgroup
  exact hspend proof hproof hjustifies.verifies nullifier group.slot
    (hjustifies.input nullifier hmem)

theorem PoolReachable.nodup_ofTree (h : PoolReachable env run)
    (hbatch : run.BatchProofsSound env commits) (hspend : run.SpendProofsSound env commits)
    (address : Address) : (ofTree address run.accepted).Nodup := by
  obtain ⟨genesis, events, hgenesis, hfollows⟩ := h.follows
  rw [← hfollows.queued]
  exact hfollows.trace.nodup_queuedIn hgenesis.initialView (hfollows.batchProofsSound hbatch)
    (hfollows.absent hspend) address

end Trace

/-- No nullifier is accepted twice for the same tree. -/
theorem no_double_spend {commits : Bytes32 → Set Bytes32} (h : PoolReachable env run)
    (hbatch : run.BatchProofsSound env commits) (hspend : run.SpendProofsSound env commits) :
    run.accepted.Nodup := by
  apply nodup_of_ofTree
  intro address
  exact h.nodup_ofTree hbatch hspend address

/-! ### A nullifier whose PDA was closed -/

def sampleFees : TreeFeeSchedule := ⟨5, 0, 0⟩

def sampleParams : NullifierTreeInitParams := ⟨10, 10, 40⟩

/-- A tree of the source's heights whose queue batches are one ZKP batch of ten. -/
def sampleTree : TreeAccountLayout 32 1 :=
  match (TreeAccountLayout.init 32 3 sampleParams sampleFees).run (.zeroed 32 1) with
  | .ok () tree => tree
  | .error _ tree => tree

/-- A tree at address 1 and a payer at address 2. -/
def sampleLedger : Ledger 32 1 := fun address =>
  if address = 1 then ⟨1000, .tree sampleTree⟩
  else if address = 2 then ⟨100, .unused⟩
  else ⟨0, .unused⟩

def firstTen : List Bytes32 := [1, 2, 3, 4, 5, 6, 7, 8, 9, 10]

def secondTen : List Bytes32 := [11, 12, 13, 14, 15, 16, 17, 18, 19, 20]

/-- The values behind a root: none at first, ten after the root 101, all after the root 102. -/
def sampleCommitted (root : Bytes32) : List Bytes32 :=
  if root = 101 then firstTen else if root = 102 then firstTen ++ secondTen else []

def sampleHashv : Hashv := fun inputs => .ok (inputs.foldl (fun digest input => 31 * digest + input) 7)

def samplePublicInput (oldRoot newRoot : Bytes32) (values : List Bytes32) (start : Nat) :
    Except HasherError Bytes32 := do
  let chain ← createHashChain4 sampleHashv values
  sampleHashv [oldRoot, newRoot, chain, u64ToBytes32 start]

/-- Accepts the two batch updates, and the spends whose nullifiers their roots do not commit. The PDA of
a nullifier is at a thousand plus its value. -/
def sampleEnv : PoolEnv where
  tree :=
    { hashv := sampleHashv
      verifyBatchUpdate := fun _ publicInputHash _ =>
        if .ok publicInputHash = samplePublicInput nullifierTreeInitRoot40 101 firstTen 1 ∨
            .ok publicInputHash = samplePublicInput 101 102 secondTen 11 then
          .ok ()
        else
          .error .proofVerificationFailed }
  runtime := ⟨fun _ nullifier => some (nullifier + 1000), 500, 10⟩
  verifyTransact inputs _ :=
    if inputs.nullifiers.any fun nullifier =>
        inputs.treeSlots.any fun slot => nullifier ∈ sampleCommitted slot.nullifierRoot then
      .error .transactProofVerificationFailed
    else
      .ok ()
  verifyMerge _ _ := .error .transactProofVerificationFailed

def sampleTransact (nullifiers : List Bytes32) : Instruction :=
  .transact ⟨2, [1], 1, nullifiers.map (· + 1000)⟩
    ⟨100, nullifiers.map (⟨·, 0⟩), [⟨noUtxoRoot, 0⟩], [], 0, []⟩ ⟨7, 50⟩

/-- Twenty spends, with the first ten tried twice, and both batch updates. Then the PDA of the nullifier
1 is closed and the nullifier tried again. -/
def sampleInstructions : List Instruction :=
  [sampleTransact firstTen, sampleTransact firstTen, sampleTransact secondTen,
    .batchUpdateNullifierTree 1 2 ⟨101, nullifierTreeInitRoot40, 0, ⟨0, 0, 0⟩⟩,
    .batchUpdateNullifierTree 1 2 ⟨102, 101, 0, ⟨0, 0, 0⟩⟩,
    .closeNullifierPdas 1 2 [1001], sampleTransact [1]]

def sampleRun : PoolRun 32 1 :=
  sampleInstructions.foldl (PoolRun.step sampleEnv) ⟨sampleLedger, [], [], []⟩

theorem tree_sampleLedger {address : Address} {tree : TreeAccountLayout 32 1}
    (h : sampleLedger.tree address = some tree) : address = 1 ∧ tree = sampleTree := by
  have hdata := Ledger.tree_eq_some.mp h
  unfold sampleLedger at hdata
  split at hdata
  case isTrue haddress => exact ⟨haddress, (AccountData.tree.inj hdata).symm⟩
  case isFalse => split at hdata <;> cases hdata

theorem genesis_sampleLedger : Genesis sampleLedger where
  init address tree h := by
    rw [(tree_sampleLedger h).2]
    exact ⟨32, 3, sampleParams, sampleFees, rfl⟩
  treeId a b tree tree' ha hb _ := (tree_sampleLedger ha).1.trans (tree_sampleLedger hb).1.symm

theorem reachable_foldl {start : PoolRun HEIGHT K} (h : PoolReachable env start)
    (instructions : List Instruction) : PoolReachable env (instructions.foldl (PoolRun.step env) start) := by
  induction instructions generalizing start with
  | nil => exact h
  | cons instruction instructions ih => exact ih (h.step instruction)

theorem reachable_sampleRun : PoolReachable sampleEnv sampleRun :=
  reachable_foldl (.genesis genesis_sampleLedger) sampleInstructions

theorem accepted_sampleRun :
    sampleRun.accepted = (firstTen ++ secondTen).map fun nullifier => (1, nullifier) := by
  decide +kernel

theorem submitted_sampleRun : sampleRun.submitted
    = [⟨101, nullifierTreeInitRoot40, 0, ⟨0, 0, 0⟩⟩, ⟨102, 101, 0, ⟨0, 0, 0⟩⟩].map fun data =>
        (1, data) := by
  decide +kernel

def sampleCommits (root : Bytes32) : Set Bytes32 := {value | value ∈ sampleCommitted root}

/-- An accepted batch update is one of the two that the sample verifier knows. -/
theorem accepts_sampleEnv {oldRoot newRoot : Bytes32} {values : List Bytes32} {start : Nat}
    {proof : NullifierTreeProof} (h : sampleEnv.tree.Accepts oldRoot newRoot values start proof) :
    samplePublicInput oldRoot newRoot values start = samplePublicInput nullifierTreeInitRoot40 101 firstTen 1 ∨
      samplePublicInput oldRoot newRoot values start = samplePublicInput 101 102 secondTen 11 := by
  obtain ⟨chain, publicInputHash, hchain, hhash, hverify⟩ := h
  have hinput : samplePublicInput oldRoot newRoot values start = .ok publicInputHash := by
    rw [samplePublicInput, show createHashChain4 sampleHashv values = .ok chain from hchain]
    exact hhash
  rw [hinput]
  by_contra hunknown
  have hrejects : sampleEnv.tree.verifyBatchUpdate values.length publicInputHash proof
      = .error .proofVerificationFailed := if_neg hunknown
  rw [hrejects] at hverify
  cases hverify

theorem batchProofsSound_sampleRun : sampleRun.BatchProofsSound sampleEnv sampleCommits := by
  intro address tree htree
  by_cases haddress : address = 1
  · subst haddress
    have hsize : tree.nullifier.zkpBatchSize = 10 := by
      have hmap : (sampleRun.ledger.tree 1).map (·.nullifier.zkpBatchSize) = some 10 := by
        decide +kernel
      rw [htree] at hmap
      exact Option.some.inj hmap
    rw [accepted_sampleRun, submitted_sampleRun, ofTree_map_pair, ofTree_map_pair, if_pos rfl,
      if_pos rfl, hsize]
    intro data hdata n hn haccepts
    have hcases : n = 0 ∨ n = 1 := by
      simp only [firstTen, secondTen, List.length_append, List.length_cons, List.length_nil] at hn
      omega
    have hknown := accepts_sampleEnv haccepts
    dsimp only at hknown
    -- Each update is known for its own window only.
    rcases List.mem_cons.mp hdata with rfl | hdata
    · rcases hcases with rfl | rfl
      · ext value
        simp [sampleCommits, sampleCommitted, queueWindow, firstTen, secondTen,
          nullifierTreeInitRoot40]
      · exact absurd hknown (by decide +kernel)
    · obtain rfl := List.mem_singleton.mp hdata
      rcases hcases with rfl | rfl
      · exact absurd hknown (by decide +kernel)
      · ext value
        simp [sampleCommits, sampleCommitted, queueWindow, firstTen, secondTen, or_assoc]
  · have hnone : ofTree address sampleRun.submitted = [] := by
      rw [submitted_sampleRun, ofTree_map_pair, if_neg fun h => haddress h.symm]
    intro data hdata
    rw [hnone] at hdata
    cases hdata

def SpendProof.readsInitialRoots : SpendProof → Bool
  | .transact inputs _ => inputs.treeSlots.all (sampleCommitted ·.nullifierRoot = [])
  | .merge _ _ => false

theorem spendProofsSound_sampleRun : sampleRun.SpendProofsSound sampleEnv sampleCommits := by
  have hinitial : sampleRun.verified.all SpendProof.readsInitialRoots = true := by decide +kernel
  intro proof hproof _ nullifier slot hinput
  have hslots := List.all_eq_true.mp hinitial proof hproof
  cases proof with
  | merge inputs proof => cases hslots
  | transact inputs proof =>
      obtain ⟨i, _, hslot⟩ := hinput
      have hempty := of_decide_eq_true
        (List.all_eq_true.mp hslots slot (List.mem_of_getElem? hslot))
      change nullifier ∉ sampleCommitted slot.nullifierRoot
      rw [hempty]
      exact List.not_mem_nil

/-- The PDA of the nullifier 1 is gone, and the nullifier is still accepted only once. -/
theorem no_double_spend_sampleRun : sampleRun.ledger.nullifierPda 1001 = none ∧
    (1, 1) ∈ sampleRun.accepted ∧ sampleRun.accepted.length = 20 ∧ sampleRun.accepted.Nodup :=
  ⟨by decide +kernel, by decide +kernel, by decide +kernel,
    no_double_spend reachable_sampleRun batchProofsSound_sampleRun spendProofsSound_sampleRun⟩

end Zolana
