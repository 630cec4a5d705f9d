import Zolana.Proof.CreationRun

/-!
# Invariants of the ledger

An invariant of all runs only has to be kept by the groups of steps the instructions are made of. A spend
is a queueing for each of its input trees, with the PDAs, and one output with its fee; the other
instructions are one group each.
-/

namespace Zolana

open Fallible

variable {HEIGHT K : Nat}

/-! ### Spends -/

structure SpendInvariant (env : PoolEnv) (P : Ledger HEIGHT K → Prop) : Prop where
  queue : ∀ {payer address : Address} {resolve : TreeAccountLayout HEIGHT K → Except TreeError TreeSlot}
    {nullifierPdas : List (Address × Bytes32)} {queued : QueuedInputs}
    {ledger mid ledger' : Ledger HEIGHT K}, nullifierPdas ≠ [] → ResolvesSlot resolve →
    (withTree treeError address (queueInputs env.tree.hashv address resolve (nullifierPdas.map (·.2))
      nullifierPdas.length)).run ledger = .ok queued mid →
    (createNullifierPdas env.runtime payer nullifierPdas queued.result).run mid = .ok () ledger' →
    P ledger → P ledger'
  output : ∀ {payer address : Address} {tree : TreeAccountLayout HEIGHT K} {utxo : UtxoTreeLayout HEIGHT}
    {outputs : List Bytes32} {slot : Nat} {isInputTree : Bool} {ledger ledger' : Ledger HEIGHT K},
    ledger.tree address = some tree →
    (UtxoTreeLayout.appendBatch env.tree.hashv outputs slot).run tree.utxo = .ok () utxo →
    (collectTreeFee payer address (outputFee tree outputs isInputTree)).run (ledger.setData address
      (.tree (tree.afterAppend utxo (outputFee tree outputs isInputTree)))) = .ok () ledger' →
    P ledger → P ledger'

namespace SpendInvariant

variable {env : PoolEnv} {P : Ledger HEIGHT K → Prop}

theorem applyTrees (h : SpendInvariant env P) {payer : Address} {inputs : List InputUtxo}
    {nullifierPdas : List Address} (hpdas : nullifierPdas.length = inputs.length) {treeIndex : Nat}
    {trees : List (Address × TreeContext × Nat)}
    (htrees : ∀ (i : Nat) tree, trees[i]? = some tree →
      tree.2.2 = (treeNullifiers inputs (treeIndex + i)).length ∧
        treeNullifiers inputs (treeIndex + i) ≠ []) :
    Maintains P (Zolana.applyTrees env payer inputs nullifierPdas treeIndex trees) := by
  induction trees generalizing treeIndex with
  | nil => exact .pure _
  | cons entry trees ih =>
      obtain ⟨address, context, count⟩ := entry
      intro ledger result ledger' hrun hbefore
      obtain ⟨queued, queuedLedger, hqueue, hrun⟩ := of_run_bind hrun
      obtain ⟨_, created, hcreate, hrun⟩ := of_run_bind hrun
      obtain ⟨rest, _, hrest, hpure⟩ := of_run_bind hrun
      cases hpure
      obtain ⟨hcount, hsome⟩ := htrees 0 _ rfl
      have hsnd := map_snd_treeNullifierPdas hpdas treeIndex
      have hlength : count = (treeNullifierPdas nullifierPdas inputs treeIndex).length := by
        rw [← List.length_map (·.2), hsnd]
        exact hcount
      rw [hlength, ← hsnd] at hqueue
      have hne : treeNullifierPdas nullifierPdas inputs treeIndex ≠ [] := by
        intro hnil
        rw [hnil] at hsnd
        exact hsome hsnd.symm
      refine ih ?_ hrest
        (h.queue hne (resolvesSlot_resolveInputTreeSlot context) hqueue hcreate hbefore)
      intro i tree hi
      rw [show treeIndex + 1 + i = treeIndex + (i + 1) by omega]
      exact htrees (i + 1) tree hi

theorem processTransact (h : SpendInvariant env P) (accounts : TransactAccounts) (ix : TransactIx)
    (clock : Clock) : Maintains P (Zolana.processTransact env accounts ix clock) := by
  intro ledger result ledger' hrun hbefore
  obtain ⟨event, proof⟩ := result
  obtain ⟨counts, queued, flags, applied, write, fee, appended, proofInputs, hcounts, _, hinputs,
    houtput, hfee, _, _, _, _⟩ := run_processTransact_ok hrun
  obtain ⟨trees, hfst, htrees, hpdas, hcontexts, happly, _⟩ := run_applyInputTrees_cases hcounts hinputs
  obtain ⟨tree, utxo, htree, happend, rfl, _, rfl⟩ := run_applyOutputTree_ok houtput
  refine h.output htree happend hfee (h.applyTrees hpdas ?_ happly hbefore)
  intro i tree hi
  rw [Nat.zero_add]
  refine ⟨htrees i tree hi, treeNullifiers_ne_nil hcounts ?_⟩
  have hlt := (List.getElem?_eq_some_iff.mp hi).1
  rwa [← List.length_map (·.1), hfst, hcontexts] at hlt

theorem processMerge (h : SpendInvariant env P) (accounts : MergeAccounts) (ix : MergeIx)
    (clock : Clock) : Maintains P (Zolana.processMerge env accounts ix clock) := by
  intro ledger result ledger' hrun hbefore
  obtain ⟨event, proof⟩ := result
  have hsome := run_processMerge_nullifiers hrun
  obtain ⟨queued, queuedLedger, created, write, fee, appended, proofInputs, hpdas, hqueue, hcreate,
    houtput, hfee, _, _, _, _⟩ := run_processMerge_ok hrun
  obtain ⟨tree, utxo, htree, happend, rfl, _, rfl⟩ := run_applyMergeOutput_ok houtput
  have hsnd : (accounts.nullifierPdas.zip ix.nullifiers).map (·.2) = ix.nullifiers :=
    List.map_snd_zip (Nat.le_of_eq hpdas.symm)
  have hlength : (accounts.nullifierPdas.zip ix.nullifiers).length = ix.nullifiers.length := by
    rw [← List.length_map (·.2), hsnd]
  have hne : accounts.nullifierPdas.zip ix.nullifiers ≠ [] := by
    intro hnil
    rw [hnil] at hsnd
    exact hsome hsnd.symm
  rw [← hsnd, List.length_map] at hqueue
  exact h.output htree happend hfee
    (h.queue hne (resolvesSlot_resolveTreeSlot ix.context) hqueue hcreate hbefore)

end SpendInvariant

/-! ### Runs -/

structure LedgerInvariant (env : SystemEnv HEIGHT K) (P : Ledger HEIGHT K → Prop) : Prop where
  spends : SpendInvariant env.pool P
  batchUpdate : ∀ tree recipient data,
    Maintains P (processBatchUpdateNullifierTree env.pool tree recipient data)
  close : ∀ tree recipient nullifierPdas,
    Maintains P (processCloseNullifierPdas env.pool tree recipient nullifierPdas)
  setTreeFees : ∀ tree fees, Maintains P (processSetTreeFees tree fees)
  claimTreeLamports : ∀ tree recipient,
    Maintains P (processClaimTreeLamports env.pool.runtime tree recipient)
  pauseTree : ∀ tree paused, Maintains P (processPauseTree tree paused)
  transfer : ∀ sender receiver lamports, Maintains P (Zolana.transfer sender receiver lamports)
  /-- A tree is initialised from zeros. -/
  createTree : ∀ {payer authority tree : Address} {data : List UInt8} {result : CreateTreeResult}
    {system system' : System HEIGHT K},
    (processCreateTree env.create payer authority tree data).run system = .ok result system' →
    (∀ bytes, result.initialised = some bytes →
      bytes = List.replicate (treeAccountSize HEIGHT K) 0) →
    P system.ledger → P system'.ledger

namespace LedgerInvariant

variable {env : SystemEnv HEIGHT K} {P : Ledger HEIGHT K → Prop}

theorem process (h : LedgerInvariant env P) (instruction : Instruction) :
    Maintains P (Zolana.process env.pool instruction) := by
  cases instruction with
  | transact accounts ix clock => exact .bind (h.spends.processTransact _ _ _) fun _ => .pure _
  | merge accounts ix clock => exact .bind (h.spends.processMerge _ _ _) fun _ => .pure _
  | batchUpdateNullifierTree tree recipient data => exact .bind (h.batchUpdate _ _ _) fun _ => .pure _
  | closeNullifierPdas tree recipient nullifierPdas => exact .bind (h.close _ _ _) fun _ => .pure _

theorem onLedger {α : Type} {act : PoolM HEIGHT K α} (h : Maintains P act) :
    Maintains (fun system : System HEIGHT K => P system.ledger) (Zolana.onLedger act) :=
  .within (fun _ _ => rfl) h

theorem step (h : LedgerInvariant env P) {run : SystemRun HEIGHT K} (hrun : SystemReachable env run)
    {instruction : SystemInstruction} {call : Option TreeCall} {system' : System HEIGHT K}
    (hprocess : (System.process env instruction).run run.system = .ok call system')
    (hbefore : P run.system.ledger) : P system'.ledger := by
  cases instruction with
  | pool instruction =>
      obtain ⟨_, _, hact, hpure⟩ := of_run_bind hprocess
      cases hpure
      exact onLedger (h.process instruction) hact hbefore
  | createTree payer authority tree data =>
      obtain ⟨_, _, hact, hpure⟩ := of_run_bind hprocess
      cases hpure
      refine h.createTree hact ?_ hbefore
      intro bytes hbytes
      exact (((hrun.creationInvariant.phase tree).after_call hact).2 bytes hbytes).1
  | setTreeFees tree fees =>
      obtain ⟨_, _, hact, hpure⟩ := of_run_bind hprocess
      cases hpure
      exact onLedger (h.setTreeFees tree fees) hact hbefore
  | claimTreeLamports tree recipient =>
      obtain ⟨_, _, hact, hpure⟩ := of_run_bind hprocess
      cases hpure
      exact onLedger (h.claimTreeLamports tree recipient) hact hbefore
  | pauseTree tree paused =>
      obtain ⟨_, _, hact, hpure⟩ := of_run_bind hprocess
      cases hpure
      exact onLedger (h.pauseTree tree paused) hact hbefore
  | updateTreeCreation authority permissionless =>
      obtain ⟨_, _, hact, hpure⟩ := of_run_bind hprocess
      cases hpure
      cases hact
      exact hbefore
  | transfer sender receiver lamports =>
      obtain ⟨_, _, hact, hpure⟩ := of_run_bind hprocess
      cases hpure
      exact onLedger (h.transfer sender receiver lamports) hact hbefore

theorem reachable (h : LedgerInvariant env P)
    (hgenesis : ∀ system : System HEIGHT K, system.Genesis → P system.ledger)
    {run : SystemRun HEIGHT K} (hrun : SystemReachable env run) : P run.system.ledger := by
  induction hrun with
  | genesis hstart => exact hgenesis _ hstart
  | @step run hreachable instruction ih =>
      unfold SystemRun.step
      split
      case h_1 call system hprocess => exact h.step hreachable hprocess ih
      case h_2 => exact ih

end LedgerInvariant

end Zolana
