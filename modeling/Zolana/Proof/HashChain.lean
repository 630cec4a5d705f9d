import Zolana.NullifierTree.Batch

/-!
# Building a hash chain one value at a time

`create_hash_chain_4` folds a whole list. The queue sees one value at a time and keeps the chain so far
with a buffer of at most two values. `Absorbed` relates the two, whatever the rest of the buffer contains:
each way a value can be taken up keeps it or completes the fold.
-/

namespace Zolana

variable {hashv : Hashv}

variable {chain value : Bytes32} {pending : Vector Bytes32 2} {values inputs : List Bytes32}

theorem absorbGroups_append {left right : List Bytes32} (hleft : 3 ∣ left.length) :
    absorbGroups hashv chain (left ++ right)
      = (absorbGroups hashv chain left >>= fun chain => absorbGroups hashv chain right) := by
  fun_induction absorbGroups hashv chain left with
  | case1 => rfl
  | case2 chain g0 => simp at hleft
  | case3 chain g0 g1 => simp at hleft
  | case4 chain g0 g1 g2 inputs ih =>
      simp only [List.length_cons] at hleft
      have hinputs : 3 ∣ inputs.length := by omega
      rw [List.cons_append, List.cons_append, List.cons_append, absorbGroups]
      cases hashv [chain, g0, g1, g2] with
      | error e => rfl
      | ok next => exact ih next hinputs

/-- The chain has absorbed all but the last few values, and those wait in the buffer in order. -/
def Absorbed (hashv : Hashv) (chain : Bytes32) (pending : Vector Bytes32 2) (values : List Bytes32) : Prop :=
  ∃ head absorbed waiting, values = head :: (absorbed ++ waiting) ∧ 3 ∣ absorbed.length ∧
    waiting.length = (values.length - 1) % 3 ∧ absorbGroups hashv head absorbed = .ok chain ∧
    ∀ i, i < waiting.length → pending[i]? = waiting[i]?

theorem Absorbed.head (value : Bytes32) (pending : Vector Bytes32 2) : Absorbed hashv value pending [value] :=
  ⟨value, [], [], rfl, by simp, by simp, rfl, by simp⟩

theorem Absorbed.wait (h : Absorbed hashv chain pending values) (value : Bytes32)
    (hslot : (values.length - 1) % 3 < 2) :
    Absorbed hashv chain (pending.set ((values.length - 1) % 3) value) (values ++ [value]) := by
  obtain ⟨head, absorbed, waiting, rfl, hdvd, hwaiting, hchain, hpending⟩ := h
  rw [← hwaiting] at hslot
  refine ⟨head, absorbed, waiting ++ [value], by simp, hdvd, ?_, hchain, ?_⟩
  · simp only [List.length_append, List.length_cons, List.length_nil] at hwaiting ⊢
    omega
  · intro i hi
    simp only [← hwaiting]
    rw [List.length_append, List.length_singleton] at hi
    by_cases hlast : i = waiting.length
    · subst hlast
      simp [hslot]
    · have hold : i < waiting.length := by omega
      rw [Vector.getElem?_set_ne hslot (Ne.symm hlast), List.getElem?_append_left hold]
      exact hpending i hold

theorem getElem_of_pending {waiting : List Bytes32} {i : Nat} (hi : i < 2)
    (hlt : i < waiting.length) (hpending : ∀ i, i < waiting.length → pending[i]? = waiting[i]?) :
    waiting[i]? = some pending[i] := by
  rw [← hpending i hlt, Vector.getElem?_eq_getElem hi]

theorem Absorbed.group {next : Bytes32} {pending' : Vector Bytes32 2}
    (h : Absorbed hashv chain pending values) (hfull : (values.length - 1) % 3 = 2)
    (hhash : hashv [chain, pending[0], pending[1], value] = .ok next) :
    Absorbed hashv next pending' (values ++ [value]) := by
  obtain ⟨head, absorbed, waiting, rfl, hdvd, hwaiting, hchain, hpending⟩ := h
  rw [hfull] at hwaiting
  obtain ⟨g0, g1, rfl⟩ := List.length_eq_two.mp hwaiting
  have hg0 := getElem_of_pending (i := 0) (by omega) (by simp) hpending
  have hg1 := getElem_of_pending (i := 1) (by omega) (by simp) hpending
  simp only [List.getElem?_cons_zero, List.getElem?_cons_succ, Option.some.injEq] at hg0 hg1
  refine ⟨head, absorbed ++ [g0, g1, value], [], by simp, ?_, ?_, ?_, by simp⟩
  · simp only [List.length_append, List.length_cons, List.length_nil]
    omega
  · simp only [List.length_append, List.length_cons, List.length_nil] at hfull ⊢
    omega
  · rw [absorbGroups_append hdvd, hchain, hg0, hg1]
    simp only [absorbGroups, bind, Except.bind, hhash]

/-- The value that completes the ZKP batch completes the fold, whatever is left of the last group. -/
theorem Absorbed.finish {digest : Bytes32} (h : Absorbed hashv chain pending values)
    (hhash : hashv (absorbInputs chain pending ((values.length - 1) % 3) value) = .ok digest) :
    createHashChain4 hashv (values ++ [value]) = .ok digest := by
  obtain ⟨head, absorbed, waiting, rfl, hdvd, hwaiting, hchain, hpending⟩ := h
  rw [← hwaiting] at hhash
  have hlt : waiting.length < 3 := by omega
  have hfold : createHashChain4 hashv (head :: (absorbed ++ waiting) ++ [value])
      = absorbGroups hashv chain (waiting ++ [value]) := by
    rw [List.cons_append, createHashChain4, List.append_assoc, absorbGroups_append hdvd, hchain]
    rfl
  rw [hfold]
  match waiting, hlt with
  | [], _ => exact hhash
  | [g0], _ =>
      have hg0 := getElem_of_pending (i := 0) (by omega) (by simp) hpending
      simp only [List.getElem?_cons_zero, Option.some.injEq] at hg0
      rw [hg0]
      exact hhash
  | [g0, g1], _ =>
      have hg0 := getElem_of_pending (i := 0) (by omega) (by simp) hpending
      have hg1 := getElem_of_pending (i := 1) (by omega) (by simp) hpending
      simp only [List.getElem?_cons_zero, List.getElem?_cons_succ, Option.some.injEq] at hg0 hg1
      simp only [absorbInputs, List.length_cons, List.length_nil] at hhash
      rw [hg0, hg1]
      simp only [List.cons_append, List.nil_append, absorbGroups, bind, Except.bind, hhash]

/-! ### Canonical values -/

theorem absorbGroups_total (htotal : hashv.Total) (hchain : isCanonicalBn254ScalarBe chain = true)
    (hinputs : ∀ input ∈ inputs, isCanonicalBn254ScalarBe input = true) :
    ∃ digest, absorbGroups hashv chain inputs = .ok digest ∧ isCanonicalBn254ScalarBe digest = true := by
  fun_induction absorbGroups hashv chain inputs with
  | case1 chain => exact ⟨chain, rfl, hchain⟩
  | case2 chain g0 => exact htotal [chain, g0, 0, 0] (by simp) (by simp) (by simp_all)
  | case3 chain g0 g1 => exact htotal [chain, g0, g1, 0] (by simp) (by simp) (by simp_all)
  | case4 chain g0 g1 g2 inputs ih =>
      obtain ⟨next, hnext, hcanonical⟩ := htotal [chain, g0, g1, g2] (by simp) (by simp) (by simp_all)
      simp only [hnext, bind, Except.bind]
      exact ih next hcanonical fun input hmem => hinputs input (by simp [hmem])

theorem createHashChain4_total (htotal : hashv.Total)
    (hinputs : ∀ input ∈ inputs, isCanonicalBn254ScalarBe input = true) :
    ∃ digest, createHashChain4 hashv inputs = .ok digest ∧ isCanonicalBn254ScalarBe digest = true := by
  cases inputs with
  | nil => exact ⟨0, rfl, isCanonicalBn254ScalarBe_zero⟩
  | cons first inputs =>
      obtain ⟨hfirst, hinputs⟩ := List.forall_mem_cons.mp hinputs
      exact absorbGroups_total htotal hfirst hinputs

/-- The closing call cannot fail when every value is canonical. -/
theorem Absorbed.closing_total (htotal : hashv.Total) (h : Absorbed hashv chain pending values)
    (hvalues : ∀ value ∈ values, isCanonicalBn254ScalarBe value = true)
    (hvalue : isCanonicalBn254ScalarBe value = true) :
    ∃ digest, hashv (absorbInputs chain pending ((values.length - 1) % 3) value) = .ok digest := by
  obtain ⟨head, absorbed, waiting, rfl, hdvd, hwaiting, hchain, hpending⟩ := h
  obtain ⟨next, hnext, hcanonical⟩ := absorbGroups_total htotal (hvalues head (by simp))
    fun input (hmem : input ∈ absorbed) => hvalues input (by simp [hmem])
  obtain rfl := Except.ok.inj (hchain.symm.trans hnext)
  have hslot : ∀ i (hi : i < 2), i < waiting.length →
      isCanonicalBn254ScalarBe pending[i] = true := by
    intro i hi hlt
    have hget := getElem_of_pending hi hlt hpending
    exact hvalues _ (by simp [List.mem_of_getElem? hget])
  rw [← hwaiting]
  have hlt : waiting.length < 3 := by omega
  have hcases : waiting.length = 0 ∨ waiting.length = 1 ∨ waiting.length = 2 := by omega
  rcases hcases with hlen | hlen | hlen <;> rw [hlen] at hslot ⊢
  · obtain ⟨digest, hdigest, _⟩ := htotal [chain, value, 0, 0] (by simp) (by simp)
      (by simp [hcanonical, hvalue])
    exact ⟨digest, hdigest⟩
  · have h0 := hslot 0 (by omega) (by omega)
    obtain ⟨digest, hdigest, _⟩ :=
      htotal [chain, pending[0], value, 0] (by simp) (by simp)
        (by simp [hcanonical, h0, hvalue])
    exact ⟨digest, hdigest⟩
  · have h0 := hslot 0 (by omega) (by omega)
    have h1 := hslot 1 (by omega) (by omega)
    obtain ⟨digest, hdigest, _⟩ :=
      htotal [chain, pending[0], pending[1], value] (by simp) (by simp)
        (by simp [hcanonical, h0, h1, hvalue])
    exact ⟨digest, hdigest⟩

end Zolana
