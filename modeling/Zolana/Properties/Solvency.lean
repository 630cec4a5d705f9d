import Zolana.Proof.Solvency
import Zolana.Properties.Fees

/-!
# Trees stay solvent

Over any run, from before the first tree on, a tree account holds the lamports of its rent and of its
recorded fee balance. So a reimbursement that was taken off the balance can always be paid.
-/

namespace Zolana

variable {HEIGHT K : Nat} {env : SystemEnv HEIGHT K} {run : SystemRun HEIGHT K}

/-- A tree holds its rent and its fee balance, a reimbursement never exceeds the balance, and neither
forester instruction fails for lack of lamports. -/
theorem trees_stay_solvent (h : SystemReachable env run) :
    (∀ address tree, run.system.ledger.tree address = some tree →
      env.pool.runtime.treeRentMinimum + tree.feeBalance ≤ (run.system.ledger address).lamports) ∧
    (∀ address tree rate count, run.system.ledger.tree address = some tree →
      ∃ paid tree', (TreeAccountLayout.takeReimbursement rate count).run tree = .ok paid tree' ∧
        tree'.feeBalance + paid = tree.feeBalance) ∧
    ∀ tree recipient e after,
      (∀ data, (processBatchUpdateNullifierTree env.pool tree recipient data).run run.system.ledger
        = .error e after → e ≠ .custom .insufficientForesterFeeBalance) ∧
      ∀ nullifierPdas,
        (processCloseNullifierPdas env.pool tree recipient nullifierPdas).run run.system.ledger
          = .error e after → e ≠ .custom .insufficientForesterFeeBalance := by
  have hsolvent := h.solvent
  refine ⟨hsolvent, ?_, ?_⟩
  · intro address tree rate count _
    exact ⟨_, _, rfl, Nat.sub_add_cancel (tree.reimbursement_le rate count)⟩
  · intro tree recipient e after
    exact ⟨fun data herror => raisesFrom_processBatchUpdate hsolvent herror,
      fun nullifierPdas herror => raisesFrom_processClose hsolvent herror⟩

/-! ### A run from before the first tree -/

/-- On zero bytes, the only ones it reads here, it is the layout of fresh account data. -/
def zeroCodec : TreeCodec 32 1 := ⟨fun _ => .zeroed 32 1, rfl⟩

/-- Trees are at a hundred plus their id. -/
def creationEnv : SystemEnv 32 1 := ⟨feesEnv, fun id => some (BitVec.ofNat 256 (100 + id.toNat)), zeroCodec⟩

/-- A payer at address 2, and nothing else. -/
def emptySystem : System 32 1 where
  ledger address := ⟨if address = 2 then 100000 else 0, .unused⟩
  config := ⟨0, true, 0⟩
  creating _ := []

theorem genesis_emptySystem : emptySystem.Genesis where
  tree _ := rfl
  nullifierPda _ := rfl
  creating _ := rfl
  nextTreeId := rfl

/-- The tree id, the queue and ZKP batch sizes and the height, and the fee schedule. -/
def creationData : List UInt8 :=
  Bytes.toLE 2 0 ++ Bytes.toLE 8 10 ++ Bytes.toLE 8 10 ++ Bytes.toLE 4 40 ++ Bytes.toLE 8 5 ++
    Bytes.toLE 8 2 ++ Bytes.toLE 8 1

theorem reachable_foldl_system {start : SystemRun HEIGHT K} (h : SystemReachable env start)
    (instructions : List SystemInstruction) :
    SystemReachable env (instructions.foldl (SystemRun.step env) start) := by
  induction instructions generalizing start with
  | nil => exact h
  | cons instruction instructions ih => exact ih (h.step instruction)

/-- A tree created over two calls, a spend from it, and a claim. -/
def solventInstructions : List SystemInstruction :=
  [.createTree 2 0 100 creationData, .createTree 2 0 100 creationData,
    .pool (.transact ⟨2, [100], 100, [1021]⟩
      ⟨100, [⟨21, 0⟩], [⟨noUtxoRoot, 0⟩], [77], 0, []⟩ ⟨7, 50⟩),
    .transfer 2 100 1000, .claimTreeLamports 100 2]

def solventRun : SystemRun 32 1 :=
  solventInstructions.foldl (SystemRun.step creationEnv) ⟨emptySystem, []⟩

theorem reachable_solventRun : SystemReachable creationEnv solventRun :=
  reachable_foldl_system (.genesis genesis_emptySystem) solventInstructions

theorem trees_stay_solvent_solventRun :
    (∃ tree, solventRun.system.ledger.tree 100 = some tree ∧ tree.feeBalance = 3 ∧
      500 + tree.feeBalance ≤ (solventRun.system.ledger 100).lamports) ∧
    ∀ data e after,
      (processBatchUpdateNullifierTree feesEnv 100 2 data).run solventRun.system.ledger
        = .error e after → e ≠ .custom .insufficientForesterFeeBalance := by
  obtain ⟨hsolvent, _, hpays⟩ := trees_stay_solvent reachable_solventRun
  have hbalance : (solventRun.system.ledger.tree 100).map (·.feeBalance) = some 3 := by
    decide +kernel
  obtain ⟨tree, htree, hfee⟩ := Option.map_eq_some_iff.mp hbalance
  exact ⟨⟨tree, htree, hfee, hsolvent 100 tree htree⟩, fun data e after =>
    (hpays 100 2 e after).1 data⟩

end Zolana
