import Zolana.Properties.Solvency

/-!
# Tree creation over several calls

Whoever calls `create_tree`, with whatever data and in whatever order, and whatever happens between the
calls: ids are given out one after the other, and a tree is initialised at most once, from zeros, by a
call that repeats the one that allocated it.
-/

namespace Zolana

open Fallible

variable {HEIGHT K : Nat} {env : SystemEnv HEIGHT K} {run : SystemRun HEIGHT K}
variable {system : System HEIGHT K} {address : Address}

theorem nodup_map_ofNat_range {n : Nat} (h : n ≤ 2 ^ 16) : ((List.range n).map UInt16.ofNat).Nodup := by
  refine List.Nodup.map_on ?_ List.nodup_range
  intro i hi j hj heq
  rw [List.mem_range] at hi hj
  have hmod := congrArg UInt16.toNat heq
  rwa [UInt16.toNat_ofNat', UInt16.toNat_ofNat', Nat.mod_eq_of_lt (by omega),
    Nat.mod_eq_of_lt (by omega)] at hmod

namespace Phase

variable {calls : List TreeCall}

theorem allocations_length_le (h : Phase calls system address) : (allocations calls address).length ≤ 1 := by
  cases h with
  | absent _ _ hfirst _ => simp [hfirst]
  | pending first hfirst _ _ => rw [hfirst.only, List.length_singleton]
  | created first last _ hfirst _ => rw [hfirst.only, List.length_singleton]

theorem initialisations_length_le (h : Phase calls system address) :
    (initialisations calls address).length ≤ 1 := by
  cases h with
  | absent _ _ _ hlast => simp [hlast]
  | pending first _ _ hlast => simp [hlast]
  | created first last _ _ hlast => rw [hlast, List.length_singleton]

theorem tree_eq_none (h : Phase calls system address) (hlast : initialisations calls address = []) :
    system.ledger.tree address = none := by
  rw [← Option.not_isSome_iff_eq_none, ← Ledger.kinds_eq_tree]
  cases h with
  | absent hkind _ _ _ => exact hkind
  | pending first _ hcreation _ =>
      rw [hcreation.kind]
      intro hkind
      cases hkind
  | created first last _ _ hsome =>
      rw [hlast] at hsome
      cases hsome

theorem inCreation (h : Phase calls system address) (hfirst : allocations calls address ≠ [])
    (hlast : initialisations calls address = []) : ∃ record, InCreation record address system := by
  cases h with
  | absent _ _ hnone _ => exact absurd hnone hfirst
  | pending first _ hcreation _ => exact ⟨_, hcreation⟩
  | created first last _ _ hsome =>
      rw [hlast] at hsome
      cases hsome

end Phase

theorem load_of_program {ledger : Ledger HEIGHT K} (h : (ledger address).data = .other true)
    {α : Type} (mapError : TreeError → ProgramError)
    (act : EStateM ProgramError (TreeAccountLayout HEIGHT K) α) :
    (withTree mapError address act).run ledger = .error (mapError .invalidDiscriminator) ledger ∧
      (withTreeAllowPaused mapError address act).run ledger
        = .error (mapError .invalidDiscriminator) ledger := by
  have hload : (loadChecked mapError address).run ledger = .error (mapError .invalidDiscriminator) ledger := by
    refine run_bind_eq_error_iff.mpr (.inr ⟨ledger, ledger, rfl, ?_⟩)
    rw [h]
    rfl
  exact ⟨run_bind_of_error (run_bind_of_error hload), run_bind_of_error hload⟩

/-- Ids are allocated one after the other, and every tree is allocated once and initialised once. The
initialising call finds every byte zero and repeats the payer and the data of the call that allocated the
tree. Until then no instruction can load the account. -/
theorem trees_are_created_once (h : SystemReachable env run) :
    (run.calls.filterMap (·.result.allocated)
        = (List.range run.system.config.nextTreeId.toNat).map UInt16.ofNat ∧
      (run.calls.filterMap (·.result.allocated)).Nodup ∧
      ∀ call ∈ run.calls, ∀ id, call.result.allocated = some id →
        env.treeAddress id = some call.tree) ∧
    (∀ address, (allocations run.calls address).length ≤ 1 ∧
      (initialisations run.calls address).length ≤ 1) ∧
    (∀ before call after bytes, run.calls = before ++ call :: after →
      call.result.initialised = some bytes →
      bytes = List.replicate (treeAccountSize HEIGHT K) 0 ∧
        ∃ first ∈ before ++ [call], first.tree = call.tree ∧ first.result.allocated.isSome ∧
          first.payer = call.payer ∧ first.data = call.data) ∧
    ∀ address, initialisations run.calls address = [] →
      run.system.ledger.tree address = none ∧
      (allocations run.calls address ≠ [] →
        (run.system.creating address)[0]? = some 0 ∧ (run.system.creating address)[1]? = some 0 ∧
        ∀ (α : Type) (mapError : TreeError → ProgramError)
          (act : EStateM ProgramError (TreeAccountLayout HEIGHT K) α),
          (withTree mapError address act).run run.system.ledger
              = .error (mapError .invalidDiscriminator) run.system.ledger ∧
            (withTreeAllowPaused mapError address act).run run.system.ledger
              = .error (mapError .invalidDiscriminator) run.system.ledger) := by
  have hinv := h.creationInvariant
  refine ⟨⟨hinv.ids, ?_, hinv.addresses⟩, ?_, ?_, ?_⟩
  · rw [hinv.ids]
    exact nodup_map_ofNat_range (Nat.le_of_lt (UInt16.toNat_lt _))
  · intro address
    exact ⟨(hinv.phase address).allocations_length_le, (hinv.phase address).initialisations_length_le⟩
  · intro before call after bytes hsplit hbytes
    obtain ⟨hzeros, hrepeats⟩ := hinv.initialised before call after bytes hsplit hbytes
    exact ⟨hzeros, hrepeats⟩
  · intro address hlast
    refine ⟨(hinv.phase address).tree_eq_none hlast, ?_⟩
    intro hfirst
    obtain ⟨record, hcreation⟩ := (hinv.phase address).inCreation hfirst hlast
    refine ⟨hcreation.head (by decide), hcreation.head (by decide), ?_⟩
    intro α mapError act
    exact load_of_program (AccountData.kind_eq_program.mp hcreation.kind) mapError act

/-! ### Two trees at once -/

/-- The data of a second tree, with other fees. -/
def secondCreationData : List UInt8 :=
  Bytes.toLE 2 1 ++ Bytes.toLE 8 10 ++ Bytes.toLE 8 10 ++ Bytes.toLE 4 40 ++ Bytes.toLE 8 7 ++
    Bytes.toLE 8 2 ++ Bytes.toLE 8 1

/-- Between the two calls for tree 0 somebody else tries to finish it, its address gets lamports, and
tree 1 is begun. -/
def creationInstructions : List SystemInstruction :=
  [.createTree 2 0 100 creationData, .createTree 3 0 100 creationData, .transfer 2 100 7,
    .createTree 2 0 101 secondCreationData, .createTree 2 0 100 creationData]

def creationRun : SystemRun 32 1 :=
  creationInstructions.foldl (SystemRun.step creationEnv) ⟨emptySystem, []⟩

theorem reachable_creationRun : SystemReachable creationEnv creationRun :=
  reachable_foldl_system (.genesis genesis_emptySystem) creationInstructions

theorem trees_are_created_once_creationRun :
    creationRun.calls.map (fun call => (call.tree, call.result.allocated,
        call.result.initialised.isSome))
      = [(100, some 0, false), (101, some 1, false), (100, none, true)] ∧
    (creationRun.calls.filterMap (·.result.allocated)).Nodup ∧
    (∀ bytes ∈ creationRun.calls.filterMap (·.result.initialised),
      bytes = List.replicate (treeAccountSize 32 1) 0) ∧
    ∀ act : EStateM ProgramError (TreeAccountLayout 32 1) Unit,
      (withTree treeError 101 act).run creationRun.system.ledger
        = .error (.custom .invalidTreeAccounts) creationRun.system.ledger := by
  obtain ⟨⟨_, hnodup, _⟩, _, hinitialised, hloads⟩ := trees_are_created_once reachable_creationRun
  have hpending : initialisations creationRun.calls 101 = [] ∧
      (allocations creationRun.calls 101).isEmpty = false := by
    decide +kernel
  refine ⟨by decide +kernel, hnodup, ?_, ?_⟩
  · intro bytes hmem
    obtain ⟨call, hcall, hbytes⟩ := List.mem_filterMap.mp hmem
    obtain ⟨before, after, hsplit⟩ := List.append_of_mem hcall
    exact (hinitialised before call after bytes hsplit hbytes).1
  · have hallocated : allocations creationRun.calls 101 ≠ [] := by
      intro hnone
      rw [hnone] at hpending
      cases hpending.2
    exact fun act => ((hloads 101 hpending.1).2 hallocated).2.2 Unit treeError act |>.1

end Zolana
