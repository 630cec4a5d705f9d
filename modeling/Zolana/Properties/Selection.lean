import Mathlib.Data.Finset.Card
import Zolana.Lib.Results
import Zolana.Wallet.Selection

/-!
# Spends take the fewest utxos

The selection is the shortest run of the largest utxos that covers the amount, so no fewer utxos do. Which trees they
lie in is looked at afterwards: a run over too many trees is refused, also where other utxos would do.
-/

namespace Zolana.Wallet

open Fallible Greedy

variable {utxos : List WalletUtxo} {asset : Address}

def value (utxos : List WalletUtxo) : Nat := total WalletUtxo.amount utxos

@[simp] theorem value_nil : value [] = 0 := rfl

@[simp] theorem value_cons (utxo : WalletUtxo) (utxos : List WalletUtxo) :
    value (utxo :: utxos) = utxo.amount + value utxos := rfl

theorem value_le {t : List WalletUtxo} (h : t.Subperm utxos) : value t ≤ value utxos := by
  obtain ⟨t', hperm, hsub⟩ := h
  rw [value, ← total_perm hperm]
  exact (hsub.map _).sum_le_sum fun _ _ => Nat.zero_le _

def trees (utxos : List WalletUtxo) : Finset UInt16 := (utxos.map (·.treeId)).toFinset

/-- The shortest run of the largest utxos that covers an amount. -/
structure Covers (utxos : List WalletUtxo) (amount : Nat) (run : List WalletUtxo) : Prop where
  largest : run <+: largestFirst WalletUtxo.amount utxos
  enough : amount ≤ value run
  tight : value run.dropLast < amount

namespace Covers

variable {utxos' run run' : List WalletUtxo} {amount : Nat}

section

variable (h : Covers utxos amount run)

include h

theorem subperm : run.Subperm utxos :=
  h.largest.sublist.subperm.trans (largestFirst_perm ..).subperm

theorem le_value : amount ≤ value utxos := h.enough.trans (value_le h.subperm)

theorem length_le {t : List WalletUtxo} (ht : t.Subperm utxos) (henough : amount ≤ value t) :
    run.length ≤ t.length := by
  by_contra hfewer
  obtain ⟨rest, hrest⟩ := h.largest
  have hle : value t ≤ value ((largestFirst WalletUtxo.amount utxos).take (run.length - 1)) :=
    total_le_take ht (by omega)
  rw [← hrest, List.take_append_of_le_length (by omega), ← List.dropLast_eq_take] at hle
  exact absurd (henough.trans hle) (Nat.not_le.mpr h.tight)

theorem length_eq (h' : Covers utxos' amount run') (hperm : utxos.Perm utxos') : run.length = run'.length :=
  Nat.le_antisymm (h.length_le (h'.subperm.trans hperm.symm.subperm) h'.enough)
    (h'.length_le (h.subperm.trans hperm.subperm) h.enough)

theorem unique (h' : Covers utxos amount run') : run = run' := by
  rw [List.prefix_iff_eq_take.mp h.largest, List.prefix_iff_eq_take.mp h'.largest, h.length_eq h' (.refl _)]

theorem map_amount_eq (h' : Covers utxos' amount run') (hperm : utxos.Perm utxos') :
    run.map WalletUtxo.amount = run'.map WalletUtxo.amount := by
  rw [List.prefix_iff_eq_take.mp h.largest, List.prefix_iff_eq_take.mp h'.largest, List.map_take, List.map_take,
    map_largestFirst_congr hperm, h.length_eq h' hperm]

end

end Covers

/-! ### The steps of the selection -/

theorem length_selectedTrees (selected : List WalletUtxo) :
    (selectedTrees selected).length = (trees selected).card := by
  have hnodup : (selectedTrees selected).Nodup :=
    (Sorting.strict_distinct fun _ _ => UInt16.toNat_inj.mp).imp fun hlt heq => by simp [heq] at hlt
  rw [← List.toFinset_card_of_nodup hnodup]
  congr 1
  ext treeId
  simp [selectedTrees, trees]

theorem foldlM_checkedAdd {start : Nat} (hstart : start < 2 ^ 64) (utxos : List WalletUtxo) :
    utxos.foldlM (fun total utxo => checkedAdd total utxo.amount) start =
      if start + value utxos < 2 ^ 64 then some (start + value utxos) else none := by
  induction utxos generalizing start with
  | nil => exact (if_pos hstart).symm
  | cons utxo utxos ih =>
      rw [List.foldlM_cons, value_cons, ← Nat.add_assoc]
      by_cases hnext : start + utxo.amount < 2 ^ 64
      · rw [checkedAdd_of_lt hnext]
        exact ih hnext
      · rw [checkedAdd, if_neg hnext, if_neg (by omega)]
        rfl

theorem selectFrom_cases {amount covered : Nat} (selected : List WalletUtxo) (hcovered : covered < amount)
    (utxos : List WalletUtxo) :
    (covered + value utxos < amount ∧
      selectFrom amount selected covered utxos = .error (.spendNeedsMerge amount maxSpendInputs)) ∨
    ∃ run, run <+: utxos ∧ amount ≤ covered + value run ∧ covered + value run.dropLast < amount ∧
      selectFrom amount selected covered utxos = finishSelection (selected ++ run) := by
  induction utxos generalizing selected covered with
  | nil => exact .inl ⟨hcovered, rfl⟩
  | cons utxo utxos ih =>
      rw [selectFrom]
      split
      case isTrue henough =>
        exact .inr ⟨[utxo], List.prefix_append [utxo] utxos, henough, hcovered, rfl⟩
      case isFalse hshort =>
        obtain ⟨hall, hselect⟩ | ⟨run, hrun, henough, htight, hselect⟩ :=
          ih (selected ++ [utxo]) (Nat.lt_of_not_le hshort)
        · refine .inl ⟨?_, hselect⟩
          rwa [value_cons, ← Nat.add_assoc]
        · refine .inr ⟨utxo :: run, List.cons_prefix_cons.mpr ⟨rfl, hrun⟩, ?_, ?_, ?_⟩
          · rwa [value_cons, ← Nat.add_assoc]
          · cases run with
            | nil => exact absurd henough hshort
            | cons next run => rwa [List.dropLast_cons_cons, value_cons, ← Nat.add_assoc]
          · rw [hselect, List.append_assoc, List.singleton_append]

/-- How a selection can end, when the amounts add up to a `u64`. -/
inductive Outcome (utxos : List WalletUtxo) (asset : Address) (amount : Nat) :
    Except TransactionError (List WalletUtxo) → Prop
  | empty (hempty : utxos = []) : Outcome utxos asset amount (.error (.noSpendableBalance asset))
  | short (hsome : utxos ≠ []) (hshort : value utxos < amount) :
      Outcome utxos asset amount (.error (.insufficientBalance amount (value utxos)))
  | merge (henough : amount ≤ value utxos)
      (hfew : ∀ t : List WalletUtxo, t.Subperm utxos → t.length ≤ maxSpendInputs → value t < amount) :
      Outcome utxos asset amount (.error (.spendNeedsMerge amount maxSpendInputs))
  | spread {run : List WalletUtxo} (hrun : Covers utxos amount run) (hlength : run.length ≤ maxSpendInputs)
      (htrees : maxInputTrees < (trees run).card) :
      Outcome utxos asset amount (.error (.tooManyInputTrees (trees run).card maxInputTrees))
  | ok {run : List WalletUtxo} (hrun : Covers utxos amount run) (hlength : run.length ≤ maxSpendInputs)
      (htrees : (trees run).card ≤ maxInputTrees) : Outcome utxos asset amount (.ok run)

theorem outcome_finishSelection {run : List WalletUtxo} {amount : Nat} (hrun : Covers utxos amount run)
    (hlength : run.length ≤ maxSpendInputs) : Outcome utxos asset amount (finishSelection run) := by
  rw [finishSelection, length_selectedTrees]
  split
  case isTrue hmany => exact .spread hrun hlength hmany
  case isFalse hfew => exact .ok hrun hlength (Nat.le_of_not_lt hfew)

theorem select_eq {amount : UInt64} (hamount : amount ≠ 0) (hsome : utxos ≠ []) : select utxos asset amount =
      if 2 ^ 64 ≤ value utxos then .error .selectedBalanceOverflow
      else if value utxos < amount.toNat then .error (.insufficientBalance amount.toNat (value utxos))
      else selectFrom amount.toNat [] 0 ((largestFirst WalletUtxo.amount utxos).take maxSpendInputs) := by
  rw [select, if_neg hamount, if_neg (by simpa using hsome), foldlM_checkedAdd (by decide), Nat.zero_add]
  by_cases hvalue : value utxos < 2 ^ 64
  · rw [if_pos hvalue, if_neg (Nat.not_le.mpr hvalue)]
  · rw [if_neg hvalue, if_pos (Nat.le_of_not_lt hvalue)]

theorem toNat_pos {amount : UInt64} (h : amount ≠ 0) : 0 < amount.toNat :=
  Nat.pos_of_ne_zero fun hzero => h (UInt64.toNat_inj.mp hzero)

theorem outcome_select {amount : UInt64} (hamount : amount ≠ 0) (hvalue : value utxos < 2 ^ 64) :
    Outcome utxos asset amount.toNat (select utxos asset amount) := by
  by_cases hsome : utxos = []
  · subst hsome
    rw [select, if_neg hamount]
    exact .empty rfl
  rw [select_eq hamount hsome, if_neg (Nat.not_le.mpr hvalue)]
  split
  case isTrue hshort => exact .short hsome hshort
  case isFalse henough =>
    obtain ⟨hall, hselect⟩ | ⟨run, hrun, hcovers, htight, hselect⟩ := selectFrom_cases [] (toNat_pos hamount)
      ((largestFirst WalletUtxo.amount utxos).take maxSpendInputs)
    · rw [hselect]
      refine .merge (Nat.le_of_not_lt henough) fun t ht hlength => ?_
      rw [Nat.zero_add] at hall
      exact Nat.lt_of_le_of_lt (total_le_take ht hlength) hall
    · rw [Nat.zero_add] at hcovers htight
      rw [hselect]
      exact outcome_finishSelection ⟨hrun.trans (List.take_prefix _ _), hcovers, htight⟩
        (hrun.length_le.trans (List.length_take_le _ _))

namespace Outcome

variable {amount : Nat} {result : Except TransactionError (List WalletUtxo)}

theorem of_ok {s : List WalletUtxo} (h : Outcome utxos asset amount (.ok s)) :
    Covers utxos amount s ∧ s.length ≤ maxSpendInputs ∧ (trees s).card ≤ maxInputTrees := by
  cases h with
  | ok hrun hlength htrees => exact ⟨hrun, hlength, htrees⟩

theorem insufficientBalance_iff (h : Outcome utxos asset amount result) :
    (∃ requested available, result = .error (.insufficientBalance requested available)) ↔
      utxos ≠ [] ∧ value utxos < amount := by
  cases h with
  | empty hempty => simp [hempty]
  | short hsome hshort => simp [hsome, hshort]
  | merge henough => simp [henough]
  | spread hrun => simp [hrun.le_value]
  | ok hrun => simp [hrun.le_value]

theorem spendNeedsMerge_iff (h : Outcome utxos asset amount result) :
    (∃ requested maxInputs, result = .error (.spendNeedsMerge requested maxInputs)) ↔ amount ≤ value utxos ∧
        ∀ t : List WalletUtxo, t.Subperm utxos → t.length ≤ maxSpendInputs → value t < amount := by
  cases h with
  | empty hempty =>
      subst hempty
      refine iff_of_false (by simp) fun ⟨henough, hfew⟩ => ?_
      exact absurd henough (Nat.not_le.mpr (hfew [] (.refl _) (Nat.zero_le _)))
  | short hsome hshort => simp [Nat.not_le.mpr hshort]
  | merge henough hfew => exact iff_of_true ⟨_, _, rfl⟩ ⟨henough, hfew⟩
  | spread hrun hlength | ok hrun hlength =>
      refine iff_of_false (by simp) fun ⟨_, hfew⟩ => ?_
      exact absurd hrun.enough (Nat.not_le.mpr (hfew _ hrun.subperm hlength))

theorem mapError_eq_spendNeedsExcludedUtxos_iff {succeeds : Bool} {requested : Nat} (hpositive : 0 < amount)
    (h : Outcome utxos asset amount result) :
    (∃ a, result.mapError (fun error => if isShort error ∧ succeeds then .spendNeedsExcludedUtxos requested else error) =
      .error (.spendNeedsExcludedUtxos a)) ↔ value utxos < amount ∧ succeeds = true := by
  cases h with
  | empty hempty => cases succeeds <;> simp [Except.mapError, isShort, hempty, hpositive]
  | short hsome hshort => cases succeeds <;> simp [Except.mapError, isShort, hshort]
  | merge henough => simp [Except.mapError, isShort, henough]
  | spread hrun => simp [Except.mapError, isShort, hrun.le_value]
  | ok hrun => simp [Except.mapError, hrun.le_value]

/-- Where enough utxos are few enough, only the trees of the largest decide. -/
theorem of_coverable (h : Outcome utxos asset amount result) (hpositive : 0 < amount) {t : List WalletUtxo}
    (ht : t.Subperm utxos) (hfew : t.length ≤ maxSpendInputs) (henough : amount ≤ value t) :
    ∃ run, Covers utxos amount run ∧ run.length ≤ maxSpendInputs ∧
      result = if (trees run).card ≤ maxInputTrees then .ok run
        else .error (.tooManyInputTrees (trees run).card maxInputTrees) := by
  have hvalue := henough.trans (value_le ht)
  cases h with
  | empty hempty =>
      subst hempty
      exact absurd hvalue (Nat.not_le.mpr hpositive)
  | short _ hshort => exact absurd hvalue (Nat.not_le.mpr hshort)
  | merge _ hnone => exact absurd henough (Nat.not_le.mpr (hnone t ht hfew))
  | spread hrun hlength htrees => exact ⟨_, hrun, hlength, (if_neg (Nat.not_le.mpr htrees)).symm⟩
  | ok hrun hlength htrees => exact ⟨_, hrun, hlength, (if_pos htrees).symm⟩

theorem of_covers (h : Outcome utxos asset amount result) (hpositive : 0 < amount) {run : List WalletUtxo}
    (hrun : Covers utxos amount run) (hlength : run.length ≤ maxSpendInputs) :
    result = if (trees run).card ≤ maxInputTrees then .ok run
      else .error (.tooManyInputTrees (trees run).card maxInputTrees) := by
  obtain ⟨run', hrun', -, hresult⟩ := h.of_coverable hpositive hrun.subperm hlength hrun.enough
  rw [hresult, hrun'.unique hrun]

theorem tooManyInputTrees_iff (h : Outcome utxos asset amount result) (hpositive : 0 < amount) :
    (∃ got max, result = .error (.tooManyInputTrees got max)) ↔
      ∃ run, Covers utxos amount run ∧ run.length ≤ maxSpendInputs ∧ maxInputTrees < (trees run).card := by
  constructor
  · rintro ⟨got, max, rfl⟩
    cases h with
    | spread hrun hlength htrees => exact ⟨_, hrun, hlength, htrees⟩
  · rintro ⟨run, hrun, hlength, htrees⟩
    exact ⟨_, _, (h.of_covers hpositive hrun hlength).trans (if_neg (Nat.not_le.mpr htrees))⟩

end Outcome

/-! ### Spends -/

theorem candidates_perm {utxos' : List WalletUtxo} (h : utxos'.Perm utxos) (asset : Address) :
    (candidates utxos' asset).Perm (candidates utxos asset) := h.filter _

/-- What a spend selects is sound, and no fewer utxos would do; every refusal of a short balance says what is missing. -/
theorem spend_selection_takes_the_fewest (utxos : List WalletUtxo) (asset : Address) (amount : UInt64)
    (hamount : amount ≠ 0) (hvalue : value (candidates utxos asset) < 2 ^ 64) :
    (∀ s, selectSpend utxos asset amount = .ok s →
      s.Subperm utxos ∧
      (∀ utxo ∈ s, utxo.utxo.asset.asset = asset ∧ utxo.isDefaultRingSpendable = true ∧ 0 < utxo.amount) ∧
      s.length ≤ maxSpendInputs ∧ (trees s).card ≤ maxInputTrees ∧ amount.toNat ≤ value s ∧
      ∀ t : List WalletUtxo, t.Subperm (candidates utxos asset) → t.length < s.length → value t < amount.toNat) ∧
    ((∃ requested available, selectSpend utxos asset amount = .error (.insufficientBalance requested available)) ↔
      candidates utxos asset ≠ [] ∧ value (candidates utxos asset) < amount.toNat) ∧
    ((∃ requested maxInputs, selectSpend utxos asset amount = .error (.spendNeedsMerge requested maxInputs)) ↔
      amount.toNat ≤ value (candidates utxos asset) ∧ ∀ t : List WalletUtxo, t.Subperm (candidates utxos asset) →
        t.length ≤ maxSpendInputs → value t < amount.toNat) ∧
    (∀ utxos' : List WalletUtxo, utxos'.Perm utxos → ∀ s s', selectSpend utxos asset amount = .ok s →
      selectSpend utxos' asset amount = .ok s' → s.map WalletUtxo.amount = s'.map WalletUtxo.amount) ∧
    ∀ excluded : List Bytes32,
      (∀ s, selectSpendExcluding utxos asset amount excluded = .ok s → ∀ utxo ∈ s, utxo.nullifier ∉ excluded) ∧
      ((∃ requested, selectSpendExcluding utxos asset amount excluded = .error (.spendNeedsExcludedUtxos requested)) ↔
        value ((candidates utxos asset).filter fun utxo => utxo.nullifier ∉ excluded) < amount.toNat ∧
          ∃ s, selectSpend utxos asset amount = .ok s) := by
  have houtcome : Outcome (candidates utxos asset) asset amount.toNat (selectSpend utxos asset amount) :=
    outcome_select hamount hvalue
  refine ⟨?_, houtcome.insufficientBalance_iff, houtcome.spendNeedsMerge_iff, ?_, ?_⟩
  · intro s hs
    obtain ⟨hcovers, hlength, htrees⟩ := (hs ▸ houtcome).of_ok
    have hcandidates := hcovers.subperm
    refine ⟨hcandidates.trans List.filter_sublist.subperm, ?_, hlength, htrees, hcovers.enough, ?_⟩
    · intro utxo hutxo
      have hcandidate := (List.mem_filter.mp (hcandidates.subset hutxo)).2
      simpa [and_comm, and_assoc, and_left_comm] using hcandidate
    · intro t ht hfewer
      exact Nat.lt_of_not_le fun henough => absurd (hcovers.length_le ht henough) (Nat.not_le.mpr hfewer)
  · intro utxos' hperm s s' hs hs'
    have hperm' := candidates_perm hperm asset
    have houtcome' : Outcome (candidates utxos' asset) asset amount.toNat (selectSpend utxos' asset amount) :=
      outcome_select hamount (by rwa [value, total_perm hperm'])
    exact (hs ▸ houtcome).of_ok.1.map_amount_eq (hs' ▸ houtcome').of_ok.1 hperm'.symm
  · intro excluded
    have hfree : Outcome ((candidates utxos asset).filter fun utxo => utxo.nullifier ∉ excluded) asset amount.toNat
        (select ((candidates utxos asset).filter fun utxo => utxo.nullifier ∉ excluded) asset amount) :=
      outcome_select hamount (Nat.lt_of_le_of_lt (value_le List.filter_sublist.subperm) hvalue)
    constructor
    · intro s hs utxo hutxo
      have hselected := (mapError_eq_ok.mp hs ▸ hfree).of_ok.1.subperm.subset hutxo
      simpa using (List.mem_filter.mp hselected).2
    · refine (hfree.mapError_eq_spendNeedsExcludedUtxos_iff (toNat_pos hamount)).trans (and_congr_right fun _ => ?_)
      change (selectSpend utxos asset amount).isOk = true ↔ _
      cases selectSpend utxos asset amount <;> simp [Except.isOk, Except.toBool]

/-- A wallet of SOL, with the amounts of its utxos as their nullifiers. -/
def walletOf (amounts : List (UInt64 × UInt16)) : List WalletUtxo :=
  amounts.map fun (amount, treeId) =>
    ⟨⟨.key .ed25519 1, .sol, amount, 0, none, .empty⟩, BitVec.ofNat 256 amount.toNat, none, treeId⟩

theorem selectSpend_of_covers (amount : UInt64) (hamount : amount ≠ 0) (hvalue : value (candidates utxos asset) < 2 ^ 64)
    {run : List WalletUtxo} (hrun : Covers (candidates utxos asset) amount.toNat run)
    (hlength : run.length ≤ maxSpendInputs) : selectSpend utxos asset amount =
      if (trees run).card ≤ maxInputTrees then .ok run
      else .error (.tooManyInputTrees (trees run).card maxInputTrees) :=
  (outcome_select hamount hvalue).of_covers (toNat_pos hamount) hrun hlength

theorem spend_selection_takes_the_fewest_three :
    selectSpend (walletOf [(50, 0), (30, 1), (20, 0)]) solMint 60 = .ok (walletOf [(50, 0), (30, 1)]) ∧
    ∀ t : List WalletUtxo, t.Subperm (candidates (walletOf [(50, 0), (30, 1), (20, 0)]) solMint) →
      t.length < 2 → value t < 60 := by
  have hselect : selectSpend (walletOf [(50, 0), (30, 1), (20, 0)]) solMint 60 =
      .ok (walletOf [(50, 0), (30, 1)]) := by
    have hcovers : Covers (candidates (walletOf [(50, 0), (30, 1), (20, 0)]) solMint) 60
        (walletOf [(50, 0), (30, 1)]) := by
      refine ⟨?_, by decide, by decide⟩
      rw [largestFirst_of_sorted (by decide)]
      decide
    rw [selectSpend_of_covers 60 (by decide) (by decide) hcovers (by decide)]
    exact if_pos (by decide)
  obtain ⟨-, -, -, -, -, hfewest⟩ := (spend_selection_takes_the_fewest _ _ _ (by decide) (by decide)).1 _ hselect
  exact ⟨hselect, hfewest⟩

/-- A spend that few utxos cover is refused only for the trees of the largest of them. -/
theorem coverable_spends_fail_on_trees_only (utxos : List WalletUtxo) (asset : Address) (amount : UInt64)
    (hamount : amount ≠ 0) :
    (2 ^ 64 ≤ value (candidates utxos asset) → selectSpend utxos asset amount = .error .selectedBalanceOverflow) ∧
    (value (candidates utxos asset) < 2 ^ 64 →
      (∀ t : List WalletUtxo, t.Subperm (candidates utxos asset) → t.length ≤ maxSpendInputs →
        amount.toNat ≤ value t →
        ∃ run, Covers (candidates utxos asset) amount.toNat run ∧ run.length ≤ maxSpendInputs ∧
          selectSpend utxos asset amount = if (trees run).card ≤ maxInputTrees then .ok run
            else .error (.tooManyInputTrees (trees run).card maxInputTrees)) ∧
      ((∃ got max, selectSpend utxos asset amount = .error (.tooManyInputTrees got max)) ↔
        ∃ run, Covers (candidates utxos asset) amount.toNat run ∧ run.length ≤ maxSpendInputs ∧
          maxInputTrees < (trees run).card)) := by
  refine ⟨fun hvalue => ?_, fun hvalue => ?_⟩
  · have hsome : candidates utxos asset ≠ [] := by
      intro hempty
      rw [hempty] at hvalue
      exact absurd hvalue (by decide)
    rw [selectSpend, select_eq hamount hsome, if_pos hvalue]
  · have houtcome : Outcome (candidates utxos asset) asset amount.toNat (selectSpend utxos asset amount) :=
      outcome_select hamount hvalue
    exact ⟨fun t => houtcome.of_coverable (toNat_pos hamount), houtcome.tooManyInputTrees_iff (toNat_pos hamount)⟩

theorem coverable_spends_fail_on_trees_only_two :
    ∃ run, Covers (candidates (walletOf [(10, 0), (9, 1), (8, 2)]) solMint) 19 run ∧
      selectSpend (walletOf [(10, 0), (9, 1), (8, 2)]) solMint 19 =
        if (trees run).card ≤ maxInputTrees then .ok run
        else .error (.tooManyInputTrees (trees run).card maxInputTrees) := by
  have hselect := ((coverable_spends_fail_on_trees_only (walletOf [(10, 0), (9, 1), (8, 2)]) solMint 19
    (by decide)).2 (by decide)).1 _ (List.take_sublist 2 _).subperm (by decide) (by decide)
  obtain ⟨run, hrun, -, hselect⟩ := hselect
  exact ⟨run, hrun, hselect⟩

/-- Three trees hold the largest utxos, and two of them hold enough. -/
theorem spread_spend_is_refused :
    selectSpend (walletOf [(10, 0), (9, 1), (8, 2), (7, 0)]) solMint 26 = .error (.tooManyInputTrees 3 2) ∧
    ∃ t : List WalletUtxo, t.Subperm (candidates (walletOf [(10, 0), (9, 1), (8, 2), (7, 0)]) solMint) ∧
      t.length ≤ maxSpendInputs ∧ (trees t).card ≤ maxInputTrees ∧ 26 ≤ value t := by
  constructor
  · have hcovers : Covers (candidates (walletOf [(10, 0), (9, 1), (8, 2), (7, 0)]) solMint) 26
        (walletOf [(10, 0), (9, 1), (8, 2)]) := by
      refine ⟨?_, by decide, by decide⟩
      rw [largestFirst_of_sorted (by decide)]
      decide
    rw [selectSpend_of_covers 26 (by decide) (by decide) hcovers (by decide)]
    exact if_neg (by decide)
  · refine ⟨walletOf [(10, 0), (9, 1), (7, 0)], List.Sublist.subperm ?_, by decide, by decide, by decide⟩
    decide

end Zolana.Wallet
