import Zolana.NullifierTree.Layout
import Zolana.Proof.BatchAppend
import Zolana.Properties.SpendCircuit

/-!
# The batch append circuit

A satisfying assignment leads from the tree of a sorted set to the tree of that set with the new values, and
every list of new values has one.
-/

namespace Zolana

open Circuits BatchAddressTreeAppendCircuit

/-- Whoever proves chooses the low elements and all paths. Poseidon without collisions and without the
digest zero, which is the empty leaf, leaves no choice but the right one. Poseidon that answers every
input leaves one choice. -/
theorem batch_append_circuit :
    (∀ (poseidon : Poseidon) (c : BatchAddressTreeAppendCircuit) (top : Fr) (elements : List (Fr × Fr)),
      poseidon.CollisionFree → poseidon.NeverZero →
      elements.length = c.startIndex.val →
      IndexedTree poseidon top c.treeHeight.toNat elements c.oldRoot →
      c.define poseidon = some () →
      c.newElementValues.length = c.batchSize.toNat ∧
      c.newElementValues.Nodup ∧
      (∀ value ∈ c.newElementValues,
        value ∉ elements.map Prod.fst ∧ 0 < value.val ∧ value.val < top.val) ∧
      c.startIndex.val + c.batchSize.toNat ≤ 2 ^ c.treeHeight.toNat ∧
      (∃ elements', elements'.map Prod.fst = elements.map Prod.fst ++ c.newElementValues ∧
        IndexedTree poseidon top c.treeHeight.toNat elements' c.newRoot) ∧
      ∃ leavesHashChain, hashChain4 poseidon c.newElementValues = some leavesHashChain ∧
        hashChain4 poseidon [c.oldRoot, c.newRoot, leavesHashChain, c.startIndex] =
          some c.publicInputHash) ∧
    (∀ (poseidon : Poseidon) (batchSize treeHeight : UInt32) (top oldRoot : Fr)
        (elements : List (Fr × Fr)) (values : List Fr),
      poseidon.Total → batchSize ≠ 0 → treeHeight ≠ 0 →
      IndexedTree poseidon top treeHeight.toNat elements oldRoot →
      values.length = batchSize.toNat →
      values.Nodup →
      (∀ value ∈ values, value ∉ elements.map Prod.fst ∧ 0 < value.val ∧ value.val < top.val) →
      elements.length + batchSize.toNat ≤ 2 ^ treeHeight.toNat →
      ∃ c : BatchAddressTreeAppendCircuit, c.batchSize = batchSize ∧ c.treeHeight = treeHeight ∧
        c.oldRoot = oldRoot ∧ c.startIndex = (elements.length : Nat) ∧ c.newElementValues = values ∧
        c.define poseidon = some ()) := by
  constructor
  · intro poseidon c top elements hfree hzero hstart htree hdefine
    have hlayout : c.Layout := by
      rw [define, Gates.bind_unit_eq_some, Gates.assertIsEqual_eq_some] at hdefine
      exact validateLayout_eq_true.mp hdefine.1
    obtain ⟨rows, hlength, hrows⟩ := hlayout.exists_rows
    obtain ⟨hrounds, hchain, hinputs⟩ := (define_eq_some hlayout hlength hrows).mp hdefine
    have hstartIndex : c.startIndex = (elements.length : Nat) := by
      rw [hstart, ZMod.natCast_zmod_val]
    rw [hstartIndex] at hrounds
    obtain ⟨hfit, hbetween, elements', hvalues, htree'⟩ := hrounds.sound hfree hzero htree
    have hnewValues := map_newValue_eq (hlength.trans hlayout.newElementValues.symm) hrows
    rw [hnewValues] at hvalues
    have hnodup := htree'.nodup
    rw [hvalues] at hnodup
    obtain ⟨-, hnew, hdisjoint⟩ := List.nodup_append'.mp hnodup
    have hrowsNe : rows ≠ [] := by
      rintro rfl
      exact hlayout.batchSize_ne (UInt32.toNat_inj.mp hlength.symm)
    refine ⟨hlayout.newElementValues, hnew, ?_, ?_, ⟨elements', hvalues, htree'⟩, c.hashchainHash, hchain,
      hinputs⟩
    · intro value hmem
      refine ⟨fun hold => hdisjoint hold hmem, ?_⟩
      rw [← hnewValues] at hmem
      obtain ⟨row, hrow, rfl⟩ := List.mem_map.mp hmem
      exact hbetween row hrow
    · rw [← hstart, ← hlength]
      exact hfit hrowsNe
  · intro poseidon batchSize treeHeight top oldRoot elements values htotal hbatch hheight htree hlength hnodup
      hvalues hfit
    obtain ⟨rows, newRoot, hrows, hproofs, hrounds⟩ := exists_rounds htotal htree hnodup
      (fun value hmem => (hvalues value hmem).1) (fun value hmem => (hvalues value hmem).2.1)
      (fun value hmem => (hvalues value hmem).2.2) (hlength ▸ hfit)
    have hlength' : rows.length = batchSize.toNat := by
      rw [← hlength, ← hrows, List.length_map]
    obtain ⟨chain, hchain⟩ := htotal.hashChain4 values
    obtain ⟨inputs, hinputs⟩ := htotal.hashChain4 [oldRoot, newRoot, chain, (elements.length : Nat)]
    rw [← hrows] at hchain
    exact ⟨ofRows rows batchSize treeHeight (elements.length : Nat) oldRoot newRoot chain inputs, rfl, rfl, rfl,
      rfl, hrows, define_ofRows hbatch hheight hlength' hproofs hrounds hchain hinputs⟩

/-! ### Two values, the first before the second -/

/-- The digests of the tree that holds zero only, and of what five and nine make of it. -/
def appendDigests : NatLog where
  entries := [([0, fieldModulus - 1], 11), ([0, 5], 12), ([5, fieldModulus - 1], 13), ([5, 9], 14), ([9, fieldModulus - 1], 15),
    ([5, 9, 0, 0], 16), ([nullifierTreeInitRoot40.toNat, 940, 16, 1], 17),
    ([nullifierTreeInitRoot40.toNat, 640, 5, 1], 18), ([640, 940, 9, 2], 19)] ++
  (List.range 40).map (fun k => ([emptyNode k, emptyNode k], emptyNode (k + 1))) ++ climbDigests 12 500 40 ++
  ([12, 13], 601) :: (climbDigests 0 600 40).tail ++ ([12, 14], 701) :: (climbDigests 0 700 40).tail ++
  ([15, 0], 801) :: ([701, 801], 902) :: (climbDigests 0 900 40).drop 2 ++
  climbDigests 11 (nullifierTreeInitRoot40.toNat - 40) 40
  bounds := by decide +kernel
  ascending := by decide +kernel

/-- The siblings on the way up: some that hold leaves, and empty ones above them. -/
def pathAbove (siblings : List Fr) : List Fr :=
  siblings ++ ((List.range 40).drop siblings.length).map fun level => (emptyNode level : Fr)

def rowFive : AppendRow := ⟨0, (5 : Nat), -1, 0, pathAbove [], pathAbove [(12 : Nat)]⟩

def rowNine : AppendRow :=
  ⟨(5 : Nat), (9 : Nat), -1, (1 : Nat), pathAbove [(12 : Nat)], pathAbove [0, (701 : Nat)]⟩

theorem round_rowFive : Round (.ofNatLog appendDigests) 40 rowFive 1 nullifierTreeInitRoot40.toNat (640 : Nat) := by
  refine ⟨?_, ?_, ?_, ?_, rfl, rfl, (11 : Nat), (12 : Nat), (13 : Nat), (540 : Nat), ?_⟩ <;> decide +kernel

theorem round_rowNine : Round (.ofNatLog appendDigests) 40 rowNine (1 + 1) (640 : Nat) (940 : Nat) := by
  refine ⟨?_, ?_, ?_, ?_, rfl, rfl, (13 : Nat), (14 : Nat), (15 : Nat), (740 : Nat), ?_⟩ <;> decide +kernel

theorem indexedTree_initRoot : IndexedTree (.ofNatLog appendDigests) (-1) nullifierTreeHeight [(0, -1)]
    nullifierTreeInitRoot40.toNat := by
  have hopens : Circuits.Opens (.ofNatLog appendDigests) (11 : Nat) 0
      (fun level : Fin nullifierTreeHeight => (emptyNode level : Fr)) nullifierTreeInitRoot40.toNat :=
    ⟨by decide +kernel, by decide +kernel⟩
  exact indexedTree_singleton rfl (by decide +kernel) (by decide +kernel) (by decide +kernel) hopens

/-- The second value enters behind the first. -/
def appendTwo : BatchAddressTreeAppendCircuit :=
  ofRows [rowFive, rowNine] 2 40 1 nullifierTreeInitRoot40.toNat (940 : Nat) (16 : Nat) (17 : Nat)

theorem define_appendTwo : appendTwo.define (.ofNatLog appendDigests) = some () :=
  define_ofRows (by decide) (by decide) rfl (by simp [rowFive, rowNine, pathAbove])
    ⟨_, round_rowFive, _, round_rowNine, rfl⟩ (by decide +kernel) (by decide +kernel)

theorem batch_append_circuit_two : appendTwo.newElementValues.Nodup ∧
    (∃ elements', elements'.map Prod.fst = 0 :: appendTwo.newElementValues ∧
      IndexedTree (.ofNatLog appendDigests) (-1) nullifierTreeHeight elements' (940 : Nat)) ∧
    ∃ c : BatchAddressTreeAppendCircuit, c.newElementValues = [5, 9] ∧ c.define (fun _ => some 7) = some () := by
  have hsound := batch_append_circuit.1 (.ofNatLog appendDigests) appendTwo (-1) [(0, -1)]
    (Poseidon.collisionFree_ofNatLog _) (Poseidon.neverZero_ofNatLog _) rfl indexedTree_initRoot define_appendTwo
  have hstart : IndexedTree (fun _ => some 7) (-1) 2 [(0, -1)] 7 :=
    @indexedTree_singleton _ 2 7 7 (fun level => if level = 0 then 0 else 7) rfl (by decide +kernel) _
      (by decide +kernel) rfl ⟨by decide, rfl⟩
  obtain ⟨c, -, -, -, -, hvalues, hdefine⟩ := batch_append_circuit.2 (fun _ => some 7) 2 2 (-1) 7 [(0, -1)] [5, 9]
    (fun inputs _ _ => ⟨7, rfl⟩) (by decide) (by decide) hstart rfl (by decide +kernel)
    (List.forall_mem_cons.mpr ⟨by decide +kernel, List.forall_mem_singleton.mpr (by decide +kernel)⟩) (by decide)
  exact ⟨hsound.2.1, hsound.2.2.2.2.1, c, hvalues, hdefine⟩

end Zolana
