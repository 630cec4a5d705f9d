import Zolana.Lib.Fold
import Zolana.Lib.Results
import Zolana.Pool.Verify

/-!
# What the hash chains determine

For a hash without collisions a chain over a fixed number of slots determines them. The program hashes the
slots in use and takes the rest from a table, but the chain is the one over all slots, so it also determines
how many are in use, as long as none of them looks like an unused one.
-/

namespace Zolana

open Fallible Fold

variable {hashv : Hashv}

theorem exists_eq_cons_three {α : Type} {elements : List α} {count : Nat}
    (h : elements.length = count + 1 + 1 + 1) :
    ∃ a b c rest, elements = a :: b :: c :: rest ∧ rest.length = count := by
  match elements, h with
  | a :: b :: c :: rest, h => exact ⟨a, b, c, rest, rfl, by simpa using h⟩

/-! ### Groups of three from the left -/

variable {chain digest : Bytes32} {inputs inputs' sent hashes : List Bytes32} {width : Nat}
  {slots populated : List TreeSlot}

theorem absorbGroups_inj (hfree : hashv.CollisionFree) {chain' : Bytes32}
    (hlength : inputs.length = inputs'.length) (h : absorbGroups hashv chain inputs = .ok digest)
    (h' : absorbGroups hashv chain' inputs' = .ok digest) : chain = chain' ∧ inputs = inputs' := by
  fun_induction absorbGroups hashv chain inputs generalizing chain' inputs' with
  | case1 chain =>
      obtain rfl := List.length_eq_zero_iff.mp hlength.symm
      cases h
      cases h'
      exact ⟨rfl, rfl⟩
  | case2 chain g0 =>
      obtain ⟨g0', rfl⟩ := List.length_eq_one_iff.mp hlength.symm
      simpa using hfree _ _ _ h h'
  | case3 chain g0 g1 =>
      obtain ⟨g0', g1', rfl⟩ := List.length_eq_two.mp hlength.symm
      simpa using hfree _ _ _ h h'
  | case4 chain g0 g1 g2 inputs ih =>
      obtain ⟨g0', g1', g2', inputs', rfl, hrestLength⟩ := exists_eq_cons_three hlength.symm
      obtain ⟨next, hnext, hrest⟩ := of_bind_ok h
      obtain ⟨next', hnext', hrest'⟩ := of_bind_ok h'
      obtain ⟨rfl, rfl⟩ := ih next hrestLength.symm hrest hrest'
      have hgroup := hfree _ _ _ hnext hnext'
      simp only [List.cons.injEq, and_true] at hgroup
      obtain ⟨rfl, rfl, rfl, rfl⟩ := hgroup
      exact ⟨rfl, rfl⟩

theorem createHashChain4_inj (hfree : hashv.CollisionFree)
    (hlength : inputs.length = inputs'.length) (h : createHashChain4 hashv inputs = .ok digest)
    (h' : createHashChain4 hashv inputs' = .ok digest) : inputs = inputs' := by
  cases inputs with
  | nil => exact (List.length_eq_zero_iff.mp hlength.symm).symm
  | cons first inputs =>
      cases inputs' with
      | nil => cases hlength
      | cons first' inputs' =>
          obtain ⟨rfl, rfl⟩ := absorbGroups_inj hfree (Nat.succ.inj hlength) h h'
          rfl

/-! ### Groups of three from the right -/

/-- The groups that the fold takes up, nearest first. -/
def rightGroups : List Bytes32 → List (Bytes32 × Bytes32 × Bytes32)
  | [] => []
  | [g0] => [(g0, 0, 0)]
  | [g1, g0] => [(g0, g1, 0)]
  | g2 :: g1 :: g0 :: inputs => (g0, g1, g2) :: rightGroups inputs

def groupStep (hashv : Hashv) (group : Bytes32 × Bytes32 × Bytes32) (chain : Bytes32) :
    Except HasherError Bytes32 :=
  hashv [group.1, group.2.1, group.2.2, chain]

theorem groupStep_injective (hfree : hashv.CollisionFree) : Injective (groupStep hashv) := by
  intro group group' chain chain' next h h'
  obtain ⟨g0, g1, g2⟩ := group
  obtain ⟨g0', g1', g2'⟩ := group'
  have hgroup := hfree _ _ _ h h'
  simp only [List.cons.injEq, and_true] at hgroup
  obtain ⟨rfl, rfl, rfl, rfl⟩ := hgroup
  exact ⟨rfl, rfl⟩

theorem absorbRightGroups_eq_absorb (chain : Bytes32) (inputs : List Bytes32) :
    absorbRightGroups hashv chain inputs = absorb (groupStep hashv) chain (rightGroups inputs) := by
  fun_induction absorbRightGroups hashv chain inputs with
  | case1 => rfl
  | case2 chain g0 =>
      rw [rightGroups, absorb, groupStep]
      cases hashv [g0, 0, 0, chain] <;> rfl
  | case3 chain g1 g0 =>
      rw [rightGroups, absorb, groupStep]
      cases hashv [g0, g1, 0, chain] <;> rfl
  | case4 chain g2 g1 g0 inputs ih =>
      rw [rightGroups, absorb, groupStep]
      cases hashv [g0, g1, g2, chain] with
      | error e => rfl
      | ok next => exact ih next

theorem length_rightGroups (h : inputs.length = inputs'.length) :
    (rightGroups inputs).length = (rightGroups inputs').length := by
  fun_induction rightGroups inputs generalizing inputs' with
  | case1 =>
      obtain rfl := List.length_eq_zero_iff.mp h.symm
      rfl
  | case2 g0 =>
      obtain ⟨g0', rfl⟩ := List.length_eq_one_iff.mp h.symm
      rfl
  | case3 g1 g0 =>
      obtain ⟨g1', g0', rfl⟩ := List.length_eq_two.mp h.symm
      rfl
  | case4 g2 g1 g0 inputs ih =>
      obtain ⟨g2', g1', g0', inputs', rfl, hrestLength⟩ := exists_eq_cons_three h.symm
      rw [List.length_cons, rightGroups, List.length_cons, ih hrestLength.symm]

theorem rightGroups_inj (hlength : inputs.length = inputs'.length)
    (h : rightGroups inputs = rightGroups inputs') : inputs = inputs' := by
  fun_induction rightGroups inputs generalizing inputs' with
  | case1 => exact (List.length_eq_zero_iff.mp hlength.symm).symm
  | case2 g0 =>
      obtain ⟨g0', rfl⟩ := List.length_eq_one_iff.mp hlength.symm
      simpa [rightGroups] using h
  | case3 g1 g0 =>
      obtain ⟨g1', g0', rfl⟩ := List.length_eq_two.mp hlength.symm
      simpa [rightGroups, and_comm] using h
  | case4 g2 g1 g0 inputs ih =>
      obtain ⟨g2', g1', g0', inputs', rfl, hrestLength⟩ := exists_eq_cons_three hlength.symm
      rw [rightGroups, List.cons.injEq, Prod.mk.injEq, Prod.mk.injEq] at h
      obtain ⟨⟨rfl, rfl, rfl⟩, hrest⟩ := h
      rw [ih hrestLength.symm hrest]

theorem rightGroups_eq_zeros (inputs : List Bytes32) :
    rightGroups inputs = List.replicate (zeroGroups inputs) (0, 0, 0) ++
      rightGroups (inputs.drop (3 * zeroGroups inputs)) := by
  fun_induction zeroGroups inputs with
  | case1 => rfl
  | case2 => rfl
  | case3 g0 hzero => simp
  | case4 g1 g0 hzero =>
      obtain ⟨rfl, rfl⟩ := hzero
      rfl
  | case5 g1 g0 hzero => simp
  | case6 g2 g1 g0 inputs hzero ih =>
      obtain ⟨rfl, rfl, rfl⟩ := hzero
      rw [rightGroups, ih, List.replicate_succ]
      rfl
  | case7 g2 g1 g0 inputs hzero => simp

theorem tabled_zeroSuffixChains (hderives : hashv.DerivesZeroSuffixChains) :
    Tabled (groupStep hashv) (0, 0, 0) zeroSuffixChains := hderives

theorem absorbRightGroups_inj (hfree : hashv.CollisionFree) {chain' : Bytes32}
    (hlength : inputs.length = inputs'.length) (h : absorbRightGroups hashv chain inputs = .ok digest)
    (h' : absorbRightGroups hashv chain' inputs' = .ok digest) : chain = chain' ∧ inputs = inputs' := by
  rw [absorbRightGroups_eq_absorb] at h h'
  obtain ⟨rfl, hgroups⟩ := absorb_inj (groupStep_injective hfree) (length_rightGroups hlength) h h'
  exact ⟨rfl, rightGroups_inj hlength hgroups⟩

theorem createRightHashChain4_eq_fromRight (inputs : List Bytes32) :
    createRightHashChain4 hashv inputs = fromRight (absorbRightGroups hashv) (.ok 0) inputs := by
  unfold createRightHashChain4 fromRight
  cases inputs.reverse <;> rfl

theorem createRightHashChain4_inj (hfree : hashv.CollisionFree)
    (hlength : inputs.length = inputs'.length) (h : createRightHashChain4 hashv inputs = .ok digest)
    (h' : createRightHashChain4 hashv inputs' = .ok digest) : inputs = inputs' := by
  rw [createRightHashChain4_eq_fromRight] at h h'
  exact fromRight_inj (fun _ _ _ _ => absorbRightGroups_inj hfree) hlength h h'

theorem three_mul_zeroGroups_le (inputs : List Bytes32) : 3 * zeroGroups inputs ≤ inputs.length + 2 := by
  fun_induction zeroGroups inputs with
  | case6 g2 g1 g0 inputs hzero ih =>
      rw [List.length_cons, List.length_cons, List.length_cons]
      omega
  | _ => simp

theorem createZeroSuffixRightHashChain4_eq (hderives : hashv.DerivesZeroSuffixChains)
    {values : List Bytes32} (hlength : values.length ≤ zeroSuffixChainMaxWidth) :
    createZeroSuffixRightHashChain4 hashv values = createRightHashChain4 hashv values := by
  rw [← List.length_reverse] at hlength
  unfold createZeroSuffixRightHashChain4 createRightHashChain4
  cases hvalues : values.reverse with
  | nil => rfl
  | cons last leading =>
      rw [hvalues, List.length_cons] at hlength
      by_cases hlast : last = 0
      · subst hlast
        have hlt : zeroGroups leading < zeroSuffixChains.length := by
          have hgroups := three_mul_zeroGroups_le leading
          change leading.length + 1 ≤ 54 at hlength
          change zeroGroups leading < 19
          omega
        have hzero : zeroSuffixChains[0]? = some 0 := rfl
        simp only [ne_eq, not_true_eq_false, if_false, List.getElem?_eq_getElem hlt]
        rw [absorbRightGroups_eq_absorb, absorbRightGroups_eq_absorb, rightGroups_eq_zeros leading,
          absorb_append, absorb_replicate_first (tabled_zeroSuffixChains hderives) hzero hlt]
        rfl
      · exact if_pos hlast

theorem createPaddedRightHashChain4_eq (hderives : hashv.DerivesZeroSuffixChains)
    (hwidth : width ≤ zeroSuffixChainMaxWidth) (hlength : sent.length ≤ width) :
    createPaddedRightHashChain4 hashv sent width =
      createRightHashChain4 hashv (sent ++ List.replicate (width - sent.length) 0) := by
  rw [createPaddedRightHashChain4, if_neg (Nat.not_lt.mpr hwidth), if_neg (Nat.not_lt.mpr hlength)]
  apply createZeroSuffixRightHashChain4_eq hderives
  rw [List.length_append, List.length_replicate]
  omega

theorem createPaddedRightHashChain4_eq_ok (hderives : hashv.DerivesZeroSuffixChains)
    (h : createPaddedRightHashChain4 hashv sent width = .ok digest) : sent.length ≤ width ∧
      createRightHashChain4 hashv (sent ++ List.replicate (width - sent.length) 0) = .ok digest := by
  have hbounds : width ≤ zeroSuffixChainMaxWidth ∧ sent.length ≤ width := by
    unfold createPaddedRightHashChain4 at h
    obtain ⟨hwidth, h⟩ := of_check_eq_ok h
    exact ⟨Nat.le_of_not_lt hwidth, Nat.le_of_not_lt (of_check_eq_ok h).1⟩
  exact ⟨hbounds.2, createPaddedRightHashChain4_eq hderives hbounds.1 hbounds.2 ▸ h⟩

theorem width_le_of_createPaddedRightHashChain4
    (h : createPaddedRightHashChain4 hashv sent width = .ok digest) : width ≤ zeroSuffixChainMaxWidth := by
  unfold createPaddedRightHashChain4 at h
  split at h
  case isTrue => cases h
  case isFalse hwidth => exact Nat.le_of_not_lt hwidth

theorem createPaddedRightHashChain4_inj (hfree : hashv.CollisionFree)
    (hderives : hashv.DerivesZeroSuffixChains) {sent' : List Bytes32}
    (h : createPaddedRightHashChain4 hashv sent width = .ok digest)
    (h' : createPaddedRightHashChain4 hashv sent' width = .ok digest) :
    sent ++ List.replicate (width - sent.length) 0 = sent' ++ List.replicate (width - sent'.length) 0 := by
  obtain ⟨hlength, hchain⟩ := createPaddedRightHashChain4_eq_ok hderives h
  obtain ⟨hlength', hchain'⟩ := createPaddedRightHashChain4_eq_ok hderives h'
  refine createRightHashChain4_inj hfree ?_ hchain hchain'
  rw [List.length_append, List.length_append, List.length_replicate, List.length_replicate]
  omega

/-- The padding never reaches into the sent values. -/
theorem eq_of_createPaddedRightHashChain4 (hfree : hashv.CollisionFree)
    (hderives : hashv.DerivesZeroSuffixChains) {sent' : List Bytes32} (hsent : 0 ∉ sent)
    (hsent' : 0 ∉ sent') (h : createPaddedRightHashChain4 hashv sent width = .ok digest)
    (h' : createPaddedRightHashChain4 hashv sent' width = .ok digest) : sent = sent' :=
  append_replicate_inj hsent hsent' (createPaddedRightHashChain4_inj hfree hderives h h')

/-! ### Signers -/

/-- A step of the chains that take up one element at a time. -/
def pairStep (hashv : Hashv) (input chain : Bytes32) : Except HasherError Bytes32 := hashv [input, chain]

theorem pairStep_injective (hfree : hashv.CollisionFree) : Injective (pairStep hashv) := by
  intro input input' chain chain' next h h'
  have hpair := hfree _ _ _ h h'
  simp only [List.cons.injEq, and_true] at hpair
  exact hpair

theorem absorbRight_eq_absorb (chain : Bytes32) (inputs : List Bytes32) :
    absorbRight hashv chain inputs = absorb (pairStep hashv) chain inputs := by
  induction inputs generalizing chain with
  | nil => rfl
  | cons input inputs ih =>
      rw [absorbRight, absorb, pairStep]
      cases hashv [input, chain] with
      | error e => rfl
      | ok next => exact ih next

theorem createRightHashChain_eq_fromRight (inputs : List Bytes32) :
    createRightHashChain hashv inputs = fromRight (absorbRight hashv) (.ok 0) inputs := by
  unfold createRightHashChain fromRight
  cases inputs.reverse <;> rfl

theorem createRightHashChain_inj (hfree : hashv.CollisionFree)
    (hlength : inputs.length = inputs'.length) (h : createRightHashChain hashv inputs = .ok digest)
    (h' : createRightHashChain hashv inputs' = .ok digest) : inputs = inputs' := by
  rw [createRightHashChain_eq_fromRight] at h h'
  refine fromRight_inj (fun last last' leading leading' hleading hlast hlast' => ?_) hlength h h'
  rw [absorbRight_eq_absorb] at hlast hlast'
  exact absorb_inj (pairStep_injective hfree) hleading hlast hlast'

section

variable (hderives : Verify.DerivesSignerZeroSuffixChains hashv)

include hderives

theorem tabled_signerZeroSuffixChains : Tabled (pairStep hashv) 0 Verify.signerZeroSuffixChains := hderives

theorem fixedSignerHashChain_eq (hpositive : width ≠ 0)
    (hwidth : width ≤ Verify.signerZeroSuffixChains.length) (hlength : hashes.length ≤ width) :
    Verify.fixedSignerHashChain hashv hashes width =
      (createRightHashChain hashv (hashes ++ List.replicate (width - hashes.length) 0)).mapError
        fun _ => .custom .transactProofVerificationFailed := by
  unfold Verify.fixedSignerHashChain createRightHashChain
  dsimp only
  rw [if_neg (by omega), List.reverse_append, List.reverse_replicate]
  split
  case isTrue hfull =>
    rw [hfull, Nat.sub_self, List.replicate_zero, List.nil_append]
    cases hreverse : hashes.reverse with
    | nil =>
        rw [List.reverse_eq_nil_iff.mp hreverse] at hfull
        exact absurd hfull.symm hpositive
    | cons last leading =>
        dsimp only
        cases absorbRight hashv last leading <;> rfl
  case isFalse hpartial =>
    have hcount : width - hashes.length = width - hashes.length - 1 + 1 := by omega
    have hlt : width - hashes.length - 1 < Verify.signerZeroSuffixChains.length := by omega
    have hzero : Verify.signerZeroSuffixChains[0]? = some 0 := rfl
    rw [hcount, List.replicate_succ, List.cons_append, Nat.add_sub_cancel, List.getElem?_eq_getElem hlt]
    dsimp only
    rw [absorbRight_eq_absorb, absorbRight_eq_absorb, absorb_append,
      absorb_replicate_first (tabled_signerZeroSuffixChains hderives) hzero hlt]
    change _ = (absorb (pairStep hashv) _ hashes.reverse).mapError _
    cases absorb (pairStep hashv) _ hashes.reverse <;> rfl

theorem fixedSignerHashChain_eq_ok (h : Verify.fixedSignerHashChain hashv hashes width = .ok digest) :
    hashes.length ≤ width ∧
      createRightHashChain hashv (hashes ++ List.replicate (width - hashes.length) 0) = .ok digest := by
  have hbounds : ¬(width = 0 ∨ Verify.signerZeroSuffixChains.length < width ∨ width < hashes.length) := by
    unfold Verify.fixedSignerHashChain at h
    exact (of_check_eq_ok h).1
  push Not at hbounds
  obtain ⟨hpositive, hwidth, hlength⟩ := hbounds
  rw [fixedSignerHashChain_eq hderives hpositive hwidth hlength] at h
  exact ⟨hlength, mapError_eq_ok.mp h⟩

end

theorem eq_of_fixedSignerHashChain (hfree : hashv.CollisionFree)
    (hderives : Verify.DerivesSignerZeroSuffixChains hashv) {hashes' : List Bytes32}
    (hhashes : 0 ∉ hashes) (hhashes' : 0 ∉ hashes')
    (h : Verify.fixedSignerHashChain hashv hashes width = .ok digest)
    (h' : Verify.fixedSignerHashChain hashv hashes' width = .ok digest) : hashes = hashes' := by
  obtain ⟨hlength, hchain⟩ := fixedSignerHashChain_eq_ok hderives h
  obtain ⟨hlength', hchain'⟩ := fixedSignerHashChain_eq_ok hderives h'
  refine append_replicate_inj hhashes hhashes' (createRightHashChain_inj hfree ?_ hchain hchain')
  rw [List.length_append, List.length_append, List.length_replicate, List.length_replicate]
  omega

/-! ### Tree slots -/

def unusedTreeSlot : TreeSlot := ⟨0, 0, 0⟩

def slotStep (hashv : Hashv) (slot : TreeSlot) (chain : Bytes32) : Except HasherError Bytes32 := do
  let hash ← slot.hash hashv
  hashv [hash, chain]

theorem TreeSlot.hash_inj (hfree : hashv.CollisionFree) {slot slot' : TreeSlot}
    (h : slot.hash hashv = .ok digest) (h' : slot'.hash hashv = .ok digest) : slot = slot' := by
  have hfields := hfree _ _ _ h h'
  simp only [List.cons.injEq, and_true] at hfields
  obtain ⟨hid, hutxo, hnullifier⟩ := hfields
  cases slot
  cases slot'
  congr

theorem slotStep_injective (hfree : hashv.CollisionFree) : Injective (slotStep hashv) := by
  intro slot slot' chain chain' next h h'
  obtain ⟨hash, hhash, hnext⟩ := of_bind_ok h
  obtain ⟨hash', hhash', hnext'⟩ := of_bind_ok h'
  have hpair := hfree _ _ _ hnext hnext'
  simp only [List.cons.injEq, and_true] at hpair
  obtain ⟨rfl, rfl⟩ := hpair
  exact ⟨TreeSlot.hash_inj hfree hhash hhash', rfl⟩

theorem absorbTreeSlots_eq_absorb (chain : Bytes32) (slots : List TreeSlot) :
    absorbTreeSlots hashv chain slots = absorb (slotStep hashv) chain slots := by
  induction slots generalizing chain with
  | nil => rfl
  | cons slot slots ih =>
      rw [absorbTreeSlots, absorb, slotStep]
      cases slot.hash hashv with
      | error e => rfl
      | ok hash =>
          dsimp only [bind, Except.bind]
          cases hashv [hash, chain] with
          | error e => rfl
          | ok next => exact ih next

theorem tabled_zeroTreeSlotSuffixChains (hderives : hashv.DerivesZeroTreeSlots) :
    Tabled (slotStep hashv) unusedTreeSlot zeroTreeSlotSuffixChains := by
  obtain ⟨unused, hunused, _⟩ := hderives.first
  intro k chain next hchain hnext
  rw [slotStep, TreeSlot.hash, unusedTreeSlot, hunused]
  exact hderives.next k unused chain next hunused hchain hnext

/-- The chain over slots, all of them written out. -/
def treeSlotsHashChain (hashv : Hashv) : List TreeSlot → Except HasherError Bytes32 :=
  fromRight (fun last leading => last.hash hashv >>= fun chain => absorb (slotStep hashv) chain leading)
    (.error (.invalidInputLength 0 inputTreeSlots))

theorem treeSlotsHashChain_inj (hfree : hashv.CollisionFree) {slots' : List TreeSlot}
    (hlength : slots.length = slots'.length) (h : treeSlotsHashChain hashv slots = .ok digest)
    (h' : treeSlotsHashChain hashv slots' = .ok digest) : slots = slots' := by
  refine fromRight_inj (fun last last' leading leading' hleading hlast hlast' => ?_) hlength h h'
  obtain ⟨chain, hchain, hrest⟩ := of_bind_ok hlast
  obtain ⟨chain', hchain', hrest'⟩ := of_bind_ok hlast'
  obtain ⟨rfl, rfl⟩ := absorb_inj (slotStep_injective hfree) hleading hrest hrest'
  exact ⟨TreeSlot.hash_inj hfree hchain hchain', rfl⟩

theorem populatedTreeSlotsHashChain_eq (hderives : hashv.DerivesZeroTreeSlots)
    (hpositive : populated.length ≠ 0) (hlength : populated.length ≤ inputTreeSlots) :
    populatedTreeSlotsHashChain hashv populated = treeSlotsHashChain hashv
        (populated ++ List.replicate (inputTreeSlots - populated.length) unusedTreeSlot) := by
  rw [populatedTreeSlotsHashChain, if_neg (by omega), treeSlotsHashChain, fromRight, List.reverse_append,
    List.reverse_replicate]
  cases hunused : inputTreeSlots - populated.length with
  | zero =>
      rw [List.replicate_zero, List.nil_append]
      dsimp only [zeroTreeSlotSuffix]
      cases hreverse : populated.reverse with
      | nil => exact absurd (List.length_eq_zero_iff.mpr (List.reverse_eq_nil_iff.mp hreverse)) hpositive
      | cons last slots => simp only [absorbTreeSlots_eq_absorb]
  | succ count =>
      have hlt : count < zeroTreeSlotSuffixChains.length := by
        have : inputTreeSlots = 5 := rfl
        change count < 4
        omega
      obtain ⟨unused, hhash, hfirst⟩ := hderives.first
      have hunusedHash : unusedTreeSlot.hash hashv = .ok unused := hhash
      rw [zeroTreeSlotSuffix, List.getElem?_eq_getElem hlt, List.replicate_succ, List.cons_append]
      dsimp only
      rw [bind_of_eq_ok hunusedHash, absorb_append,
        absorb_replicate_first (tabled_zeroTreeSlotSuffixChains hderives) hfirst hlt,
        absorbTreeSlots_eq_absorb]
      rfl

theorem populatedTreeSlotsHashChain_eq_ok (hderives : hashv.DerivesZeroTreeSlots)
    (h : populatedTreeSlotsHashChain hashv populated = .ok digest) : populated.length ≤ inputTreeSlots ∧
      treeSlotsHashChain hashv
        (populated ++ List.replicate (inputTreeSlots - populated.length) unusedTreeSlot) = .ok digest := by
  have hbounds : ¬(populated.length = 0 ∨ inputTreeSlots < populated.length) := by
    unfold populatedTreeSlotsHashChain at h
    exact (of_check_eq_ok h).1
  push Not at hbounds
  exact ⟨hbounds.2, populatedTreeSlotsHashChain_eq hderives hbounds.1 hbounds.2 ▸ h⟩

def SlotHashes (hashv : Hashv) : List TreeSlot → List Bytes32 → Prop :=
  List.Forall₂ fun slot hash => slot.hash hashv = .ok hash

theorem absorb_slotStep_eq_ok_iff : absorb (slotStep hashv) chain slots = .ok digest ↔
      ∃ hashes, SlotHashes hashv slots hashes ∧ absorbRight hashv chain hashes = .ok digest := by
  induction slots generalizing chain with
  | nil => simp [SlotHashes, absorb, absorbRight]
  | cons slot slots ih =>
      simp only [absorb, slotStep, bind_eq_ok_iff, ih, SlotHashes, List.forall₂_cons_left_iff]
      constructor
      · rintro ⟨next, ⟨hash, hslot, hnext⟩, hashes, hhashes, hrest⟩
        exact ⟨hash :: hashes, ⟨hash, hashes, hslot, hhashes, rfl⟩, bind_eq_ok_iff.mpr ⟨next, hnext, hrest⟩⟩
      · rintro ⟨_, ⟨hash, hashes, hslot, hhashes, rfl⟩, hchain⟩
        obtain ⟨next, hnext, hrest⟩ := of_bind_ok hchain
        exact ⟨next, ⟨hash, hslot, hnext⟩, hashes, hhashes, hrest⟩

theorem treeSlotsHashChain_eq_ok_iff (hslots : slots ≠ []) :
    treeSlotsHashChain hashv slots = .ok digest ↔ TreeSlot.treeSlotsHashChain hashv slots = .ok digest := by
  have hreversed (hashes : List Bytes32) :
      slots.mapM (TreeSlot.hash hashv) = .ok hashes ↔ SlotHashes hashv slots.reverse hashes.reverse := by
    rw [mapM_eq_ok_iff, SlotHashes, List.forall₂_reverse_iff]
  obtain ⟨last, leading, hreverse⟩ := List.exists_cons_of_ne_nil (List.reverse_ne_nil_iff.mpr hslots)
  simp only [treeSlotsHashChain, fromRight, TreeSlot.treeSlotsHashChain, bind_eq_ok_iff, hreversed, hreverse,
    absorb_slotStep_eq_ok_iff, createRightHashChain, SlotHashes, List.forall₂_cons_left_iff]
  constructor
  · rintro ⟨hash, hlast, hashes, hhashes, hchain⟩
    refine ⟨(hash :: hashes).reverse, ⟨hash, hashes, hlast, hhashes, List.reverse_reverse _⟩, ?_⟩
    rwa [List.reverse_reverse]
  · rintro ⟨_, ⟨hash, hashes, hlast, hhashes, heq⟩, hchain⟩
    rw [heq] at hchain
    exact ⟨hash, hlast, hashes, hhashes, hchain⟩

theorem eq_of_populatedTreeSlotsHashChain (hfree : hashv.CollisionFree)
    (hderives : hashv.DerivesZeroTreeSlots) {populated' : List TreeSlot}
    (hused : unusedTreeSlot ∉ populated) (hused' : unusedTreeSlot ∉ populated')
    (h : populatedTreeSlotsHashChain hashv populated = .ok digest)
    (h' : populatedTreeSlotsHashChain hashv populated' = .ok digest) : populated = populated' := by
  obtain ⟨hlength, hchain⟩ := populatedTreeSlotsHashChain_eq_ok hderives h
  obtain ⟨hlength', hchain'⟩ := populatedTreeSlotsHashChain_eq_ok hderives h'
  refine append_replicate_inj hused hused' (treeSlotsHashChain_inj hfree ?_ hchain hchain')
  rw [List.length_append, List.length_append, List.length_replicate, List.length_replicate]
  omega

/-! ### Hashes that answer more -/

section Mono

variable {hashv' : Hashv} (hle : ∀ inputs digest, hashv inputs = .ok digest → hashv' inputs = .ok digest)
include hle

theorem Hashv.DerivesZeroSuffixChains.mono (h : hashv.DerivesZeroSuffixChains) :
    hashv'.DerivesZeroSuffixChains :=
  fun k seed next hseed hnext => hle _ _ (h k seed next hseed hnext)

theorem Verify.DerivesSignerZeroSuffixChains.mono (h : Verify.DerivesSignerZeroSuffixChains hashv) :
    Verify.DerivesSignerZeroSuffixChains hashv' :=
  fun k suffix chain hsuffix hchain => hle _ _ (h k suffix chain hsuffix hchain)

theorem Hashv.DerivesZeroTreeSlots.mono (h : hashv.DerivesZeroTreeSlots) : hashv'.DerivesZeroTreeSlots := by
  obtain ⟨unused, hunused, hfirst⟩ := h.first
  refine ⟨⟨unused, hle _ _ hunused, hfirst⟩, ?_⟩
  intro k unused' suffix chain hunused' hsuffix hchain
  obtain rfl := Except.ok.inj ((hle _ _ hunused).symm.trans hunused')
  exact hle _ _ (h.next k unused suffix chain hunused hsuffix hchain)

end Mono

end Zolana
