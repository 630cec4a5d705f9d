import Zolana.Proof.Commitment
import Zolana.Proof.MergeRecovery
import Zolana.Proof.ReferenceAppend
import Zolana.Properties.BatchAppend
import Zolana.Properties.Representation

/-!
# What the roots of a tree commit

With a verifier that accepts only what satisfies the batch append circuit, each root that a tree keeps is the root of
an indexed tree over the first values of its queue, at least those below the watermark. So what a circuit proves
absent under such a root was not queued below the watermark.
-/

namespace Zolana

open Circuits BatchAddressTreeAppendCircuit NullifierTreeLayout

variable {K Z : Nat} {env : Env} {run : Run K} {poseidon : Poseidon} {top : Fr}

/-- Some assignment with this public input satisfies the circuit for a ZKP batch size. -/
def Provable (poseidon : Poseidon) (size : Nat) (digest : Bytes32) : Prop :=
  ∃ c : BatchAddressTreeAppendCircuit, c.batchSize.toNat = size ∧ c.treeHeight.toNat = nullifierTreeHeight ∧
    bytesOf c.publicInputHash = digest ∧ c.define poseidon = some ()

def Env.SoundFor (env : Env) (poseidon : Poseidon) : Prop :=
  ∀ size digest proof, env.verifyBatchUpdate size digest proof = .ok () → Provable poseidon size digest

/-- The root of an indexed tree over zero and some values, in their order. -/
def Committed (poseidon : Poseidon) (top : Fr) (values : List Bytes32) (root : Bytes32) : Prop :=
  ∃ elements, elements.map Prod.fst = 0 :: values.map fieldOf ∧
    IndexedTree poseidon top nullifierTreeHeight elements (fieldOf root)

section Sound

variable (hverifier : env.SoundFor poseidon) (hcomputes : env.hashv.Computes poseidon)
  (hhashv : env.hashv.CollisionFree) (hzero : poseidon.NeverZero)

include hcomputes hhashv in
theorem Hashv.Computes.collisionFree : poseidon.CollisionFree := fun _ _ _ h h' =>
  List.map_injective_iff.mpr bytesOf_injective (hhashv _ _ _ (hcomputes _ _ h) (hcomputes _ _ h'))

include hverifier hcomputes hhashv hzero

theorem Env.Accepts.committed {oldRoot newRoot : Bytes32} {values batch : List Bytes32} {n : Nat}
    {proof : NullifierTreeProof} (h : env.Accepts oldRoot newRoot batch (n + 1) proof) (hlength : values.length = n)
    (hfits : n + 1 < fieldModulus) (hold : Committed poseidon top values oldRoot) :
    Committed poseidon top (values ++ batch) newRoot := by
  obtain ⟨chain, digest, hchain, hdigest, hverify⟩ := h
  obtain ⟨c, hsize, hheight, rfl, hdefine⟩ := hverifier _ _ _ hverify
  obtain ⟨elements, hvalues, htree⟩ := hold
  have hlayout : c.Layout := by
    rw [define, Gates.bind_unit_eq_some, Gates.assertIsEqual_eq_some] at hdefine
    exact validateLayout_eq_true.mp hdefine.1
  obtain ⟨rows, hrowsLength, hrows⟩ := hlayout.exists_rows
  obtain ⟨hrounds, hleaves, hinputs⟩ := (define_eq_some hlayout hrowsLength hrows).mp hdefine
  -- the public input names the roots, the values and the position
  have hcircuit : poseidon [c.oldRoot, c.newRoot, c.hashchainHash, c.startIndex] = some c.publicInputHash := by
    simpa [computePublicInputHash, hashChain4, Circuits.absorbGroups] using hinputs
  have hfields := hhashv _ _ _ hdigest (hcomputes _ _ hcircuit)
  simp only [List.map_cons, List.map_nil, List.cons.injEq, and_true] at hfields
  obtain ⟨rfl, rfl, rfl, hstart⟩ := hfields
  obtain rfl : batch = c.newElementValues.map bytesOf := by
    refine createHashChain4_inj hhashv ?_ hchain (createHashChain4_bytesOf hcomputes hleaves)
    rw [List.length_map, hlayout.newElementValues, hsize]
  have hposition : c.startIndex = (elements.length : Nat) := by
    rw [← fieldOf_bytesOf c.startIndex, ← hstart, u64ToBytes32, Forester.fieldOf_ofNat hfits, ← hlength]
    simpa using congrArg (Nat.cast : Nat → Fr) (congrArg List.length hvalues.symm)
  rw [hposition, hheight] at hrounds
  rw [fieldOf_bytesOf] at htree
  obtain ⟨-, -, elements', hvalues', htree'⟩ := hrounds.sound (hcomputes.collisionFree hhashv) hzero htree
  refine ⟨elements', ?_, by rwa [fieldOf_bytesOf]⟩
  rw [hvalues', hvalues, map_newValue_eq (hrowsLength.trans hlayout.newElementValues.symm) hrows]
  simp [Function.comp_def]

theorem Consistent.committed (h : Consistent env Z run) (hinit : Committed poseidon top [] nullifierTreeInitRoot40)
    {i : Nat} {root : Bytes32} (hroot : (rootLog run.applied)[i]? = some root) :
    Committed poseidon top (run.queued.take (i * Z)) root := by
  induction i generalizing root with
  | zero =>
      obtain rfl := Option.some.inj hroot
      rwa [Nat.zero_mul]
  | succ i ih =>
      rw [rootLog, List.getElem?_cons_succ, List.getElem?_map] at hroot
      obtain ⟨update, hupdate, rfl⟩ := Option.map_eq_some_iff.mp hroot
      have hat := h.log i update hupdate
      obtain ⟨data, -, -, -, -, haccepts⟩ := hat.verified
      have hwindow := hat.window_le
      have hlength : (run.queued.take (i * Z)).length = i * Z := by
        rw [List.length_take]
        omega
      have hfits : i * Z + 1 < fieldModulus := by
        have hqueue := h.queue_le
        have hcapacity := h.capacity_lt
        have hsmall := @two_pow_lt_fieldModulus 64 (by decide)
        rw [h.queueNextIndex] at hqueue
        omega
      rw [Nat.succ_mul, List.take_add]
      exact Env.Accepts.committed hverifier hcomputes hhashv hzero haccepts hlength hfits (ih hat.oldRoot)

end Sound

/-- Every root by which a spend may be proved commits the values below the watermark, after which their PDAs may be
closed: no value of them is absent under it. -/
theorem kept_roots_commit_the_queue {testOnly : Bool} {batchSize height : Nat}
    (h : Reachable env testOnly batchSize Z height run) (hverifier : env.SoundFor poseidon)
    (hcomputes : env.hashv.Computes poseidon) (hhashv : env.hashv.CollisionFree) (hzero : poseidon.NeverZero)
    (hinit : Committed poseidon top [] nullifierTreeInitRoot40) {index : UInt16} {root : Bytes32}
    (hroot : run.tree.rootByIndex index = some root) :
    (∃ n ≤ run.applied.length, run.tree.closeBeforeIndex ≤ n * Z + 1 ∧
      Committed poseidon top (run.queued.take (n * Z)) root) ∧
    ∀ (value : Bytes32) (low next position : Fr) (path : Fin nullifierTreeHeight → Fr),
      Absent poseidon (fieldOf value) low next position path (fieldOf root) →
      value ∉ run.queued.take (run.tree.closeBeforeIndex - 1) := by
  have hconsistent := h.consistent
  have hkept : ∃ n ≤ run.applied.length, run.tree.closeBeforeIndex ≤ n * Z + 1 ∧
      Committed poseidon top (run.queued.take (n * Z)) root := by
    unfold rootByIndex at hroot
    split at hroot
    case h_1 => cases hroot
    case h_2 stored hstored =>
      split at hroot
      case isTrue => cases hroot
      case isFalse hne =>
        obtain rfl := Option.some.inj hroot
        obtain ⟨n, hn, hwindow, hlog⟩ := (hconsistent.roots.slot_cases hstored).resolve_right hne
        rw [length_rootLog] at hn hwindow
        refine ⟨n, by omega, ?_, hconsistent.committed hverifier hcomputes hhashv hzero hinit hlog⟩
        rw [hconsistent.closeBeforeIndex]
        by_contra hlt
        exact absurd (lt_of_lt_watermark hconsistent.K_pos (not_le.mp hlt) hwindow) (lt_irrefl _)
  refine ⟨hkept, fun value low next position path habsent hmem => ?_⟩
  obtain ⟨n, -, hbound, elements, hvalues, htree⟩ := hkept
  refine (habsent.not_mem (hcomputes.collisionFree hhashv) hzero htree).1 ?_
  rw [hvalues]
  exact .tail _ (List.mem_map_of_mem ((List.take_sublist_take_left (by omega)).subset hmem))

/-! ### Two batches of one value -/

/-- The verifier takes the proofs of two batches. -/
def appendEnv : Env where
  hashv := .ofNatLog appendDigests.entries
  verifyBatchUpdate size digest _ :=
    if size = 1 ∧ (digest = bytesOf (18 : Nat) ∨ digest = bytesOf (19 : Nat)) then .ok ()
    else .error .proofVerificationFailed

theorem soundFor_appendEnv : appendEnv.SoundFor (.ofNatLog appendDigests) := by
  intro size digest proof h
  simp only [appendEnv] at h
  split at h
  case isTrue hbatch =>
    obtain ⟨rfl, rfl | rfl⟩ := hbatch
    · exact ⟨ofRows [rowFive] 1 40 1 nullifierTreeInitRoot40.toNat (640 : Nat) (5 : Nat) (18 : Nat), rfl, rfl, rfl,
        define_ofRows (by decide) (by decide) rfl (by simp [rowFive, pathAbove]) ⟨_, round_rowFive, rfl⟩ rfl
          (by decide +kernel)⟩
    · exact ⟨ofRows [rowNine] 1 40 (1 + 1) (640 : Nat) (940 : Nat) (9 : Nat) (19 : Nat), rfl, rfl, rfl,
        define_ofRows (by decide) (by decide) rfl (by simp [rowNine, pathAbove]) ⟨_, round_rowNine, rfl⟩ rfl
          (by decide +kernel)⟩
  case isFalse => cases h

/-- Five and nine are queued and applied, one after the other. The history keeps one root. -/
def appendRun : Run 1 := Run.calls appendEnv ⟨initialised Nat.one_pos 1 40, [], [], []⟩
  [.insert 5, .insert 9, .update 0 ⟨640, nullifierTreeInitRoot40, 0, ⟨0, 0, 0⟩⟩, .update 0 ⟨940, 640, 0, ⟨0, 0, 0⟩⟩]

theorem reachable_appendRun : Reachable appendEnv true 1 1 40 appendRun := (Reachable.init rfl).calls _

/-- The root that is left commits at least five, whose PDA may be closed, and leaves no proof that five is absent. -/
theorem kept_roots_commit_the_queue_two : appendRun.applied.length = 2 ∧ appendRun.tree.closeBeforeIndex = 2 ∧
    appendRun.tree.rootByIndex 0 = some 940 ∧
    (∃ n, 1 ≤ n ∧ n ≤ 2 ∧ Committed (.ofNatLog appendDigests) (-1) ([5, 9].take n) 940) ∧
    ∀ (low next position : Fr) (path : Fin nullifierTreeHeight → Fr),
      ¬Absent (.ofNatLog appendDigests) (fieldOf 5) low next position path (fieldOf 940) := by
  have hcomputes := Hashv.computes_ofNatLog appendDigests []
  rw [List.append_nil] at hcomputes
  have hlength : appendRun.applied.length = 2 := by decide +kernel
  have hclose : appendRun.tree.closeBeforeIndex = 2 := by decide +kernel
  have hqueued : appendRun.queued = [5, 9] := by decide +kernel
  have hroot : appendRun.tree.rootByIndex 0 = some 940 := by decide +kernel
  obtain ⟨⟨n, hn, hbound, hcommitted⟩, habsent⟩ := kept_roots_commit_the_queue reachable_appendRun soundFor_appendEnv
    hcomputes (Hashv.collisionFree_ofNatLog (fun entry hmem => (appendDigests.bounds entry hmem).2) appendDigests.nodup)
    (Poseidon.neverZero_ofNatLog _)
    ⟨[(0, -1)], rfl, indexedTree_initRoot⟩ hroot
  rw [hqueued, Nat.mul_one] at hcommitted
  refine ⟨hlength, hclose, hroot, ⟨n, by omega, by omega, hcommitted⟩, fun low next position path h => ?_⟩
  have hnot := habsent 5 low next position path h
  rw [hqueued, hclose] at hnot
  exact hnot (by decide)

end Zolana
