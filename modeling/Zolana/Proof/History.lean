import Zolana.Lib.Results
import Zolana.Photon.History

/-!
# One page

The rows of a page are the events of its transactions, one transaction after the other. So cutting them off after a
number of transactions, and grouping what is left, gives whole transactions in order.
-/

namespace Zolana.Photon

open Fallible Sorting

/-! ### Positions -/

theorem PaginationToken.rank_injective : Function.Injective PaginationToken.rank := by
  rintro ⟨slot, signature⟩ ⟨slot', signature'⟩ h
  have h := congrArg ofLex h
  simp only [PaginationToken.rank, ofLex_toLex, Prod.mk.injEq] at h
  rw [h.1, BitVec.eq_of_toNat_eq h.2]

theorem rank_lt_of_position {row row' : RingsRow} (h : row.position.rank < row'.position.rank) : row.rank < row'.rank :=
  Prod.Lex.toLex_lt_toLex.mpr (.inl h)

theorem History.nodup_rank (history : History) : (history.rows.map RingsRow.rank).Nodup := by
  have hunique : (history.rows.map fun row => (row.signature, row.eventIndex)).Nodup := history.unique
  rw [List.Nodup, List.pairwise_map] at hunique ⊢
  refine hunique.imp fun {row row'} hne heq => hne ?_
  have heq := congrArg ofLex heq
  simp only [RingsRow.rank, ofLex_toLex, Prod.mk.injEq] at heq
  have hposition := PaginationToken.rank_injective heq.1
  rw [Prod.mk.injEq]
  exact ⟨congrArg PaginationToken.signature hposition, heq.2⟩

/-! ### What a query is about -/

section Spec

variable (rows : List RingsRow) (query : RingsQuery) (filters : SlotFilter)

def matchingPositions : List PaginationToken :=
  distinct PaginationToken.rank ((rows.filter fun row =>
    query.matches row && filters.contains row.slot && query.inRing row).map RingsRow.position)

def eventsAt (position : PaginationToken) : List RingsRow :=
  sortBy RingsRow.rank (rows.filter fun row => row.position = position && query.inRing row)

def transactionAt (position : PaginationToken) : TransactionEvents :=
  ⟨position.slot, position.signature, eventsAt rows query position⟩

variable {rows query filters} {position : PaginationToken}

theorem mem_matchingPositions : position ∈ matchingPositions rows query filters ↔
    ∃ row ∈ rows, (query.matches row = true ∧ filters.contains row.slot = true ∧ query.inRing row = true) ∧
      row.position = position := by
  simp only [matchingPositions, mem_distinct, List.mem_map, List.mem_filter, Bool.and_eq_true, and_assoc]

theorem strict_matchingPositions : (matchingPositions rows query filters).Pairwise fun p q => p.rank < q.rank :=
  strict_distinct PaginationToken.rank_injective

theorem mem_eventsAt {row : RingsRow} : row ∈ eventsAt rows query position ↔
    row ∈ rows ∧ row.position = position ∧ query.inRing row = true := by
  simp only [eventsAt, mem_sortBy, List.mem_filter, Bool.and_eq_true, decide_eq_true_eq]

theorem strict_eventsAt (h : (rows.map RingsRow.rank).Nodup) :
    (eventsAt rows query position).Pairwise fun row row' => row.rank < row'.rank :=
  strict_sortBy (h.sublist (List.filter_sublist.map _))

theorem eventsAt_ne_nil (h : position ∈ matchingPositions rows query filters) : eventsAt rows query position ≠ [] := by
  obtain ⟨row, hrow, ⟨-, -, hring⟩, hposition⟩ := mem_matchingPositions.mp h
  exact List.ne_nil_of_mem (mem_eventsAt.mpr ⟨hrow, hposition, hring⟩)

end Spec

/-! ### Rows in groups -/

section Groups

variable {events : PaginationToken → List RingsRow} {positions : List PaginationToken}

theorem truncateFrom_append {limit count : Nat} {position : PaginationToken} {same rest : List RingsRow}
    (h : ∀ row ∈ same, row.position = position) : truncateFrom limit count (some position) (same ++ rest) =
      (truncateFrom limit count (some position) rest).map fun kept => (same ++ kept.1, kept.2) := by
  induction same with
  | nil =>
      rw [List.nil_append]
      cases truncateFrom limit count (some position) rest <;> rfl
  | cons row same ih =>
      rw [List.forall_mem_cons] at h
      rw [List.cons_append, truncateFrom, if_pos (by rw [h.1]), ih h.2]
      cases truncateFrom limit count (some position) rest <;> rfl

theorem truncateFrom_flatMap {limit count : Nat} {previous : Option PaginationToken}
    (hevents : ∀ p ∈ positions, events p ≠ [] ∧ ∀ row ∈ events p, row.position = p)
    (hstrict : positions.Pairwise fun p q => p.rank < q.rank)
    (hprevious : ∀ p ∈ positions, ∀ q, previous = some q → q.rank < p.rank) (hcount : count ≤ limit) :
    truncateFrom limit count previous (positions.flatMap events) =
      .ok ((positions.take (limit - count)).flatMap events,
        if positions.length ≤ limit - count then none else (positions.take (limit - count)).getLast?.or previous) := by
  induction positions generalizing count previous with
  | nil => simp [truncateFrom]
  | cons p positions ih =>
      obtain ⟨hfirst, hstrict⟩ := List.pairwise_cons.mp hstrict
      rw [List.forall_mem_cons] at hevents hprevious
      obtain ⟨⟨hne, hposition⟩, hevents⟩ := hevents
      obtain ⟨row, same, hsame⟩ := List.exists_cons_of_ne_nil hne
      rw [hsame, List.forall_mem_cons] at hposition
      have hnew : previous ≠ some row.position := by
        rw [hposition.1]
        intro heq
        exact absurd (hprevious.1 p heq) (lt_irrefl _)
      have hordered : ¬(previous.any fun previous => decide (row.position.rank < previous.rank)) = true := by
        rw [hposition.1]
        cases previous with
        | none => simp
        | some q => simpa using (hprevious.1 q rfl).le
      rw [List.flatMap_cons, hsame, List.cons_append, truncateFrom, if_neg hnew, if_neg hordered]
      by_cases hfull : limit < count + 1
      · obtain rfl : count = limit := by omega
        simp
      · have hnext := @ih (count + 1) (some p) hevents hstrict (fun q hq _ heq => Option.some.inj heq ▸ hfirst q hq)
          (by omega)
        obtain ⟨left, hleft⟩ : ∃ left, limit - count = left + 1 := ⟨limit - (count + 1), by omega⟩
        rw [if_neg hfull, hposition.1, truncateFrom_append hposition.2, hnext, hleft,
          show limit - (count + 1) = left by omega, List.take_succ_cons, List.flatMap_cons, hsame]
        have htoken : ((p :: positions.take left).getLast?.or previous) = (positions.take left).getLast?.or (some p) := by
          cases hlast : positions.take left with
          | nil => simp
          | cons q rest => simp [List.getLast?_eq_some_getLast]
        simp only [List.length_cons, Nat.add_le_add_iff_right, htoken]
        rfl

theorem filter_flatMap_position (hevents : ∀ p ∈ positions, ∀ row ∈ events p, row.position = p)
    (hnodup : positions.Nodup) {position : PaginationToken} (hmem : position ∈ positions) :
    (positions.flatMap events).filter (fun row => row.position = position) = events position := by
  have hself : ∀ p ∈ positions, (events p).filter (fun row => decide (row.position = position)) =
      if p = position then events p else [] := by
    intro p hp
    split
    case isTrue heq =>
      refine List.filter_eq_self.mpr fun row hrow => ?_
      simpa [heq] using hevents p hp row hrow
    case isFalse hne =>
      refine List.filter_eq_nil_iff.mpr fun row hrow => ?_
      simpa [hevents p hp row hrow] using hne
  induction positions with
  | nil => cases hmem
  | cons p positions ih =>
      rw [List.forall_mem_cons] at hevents hself
      obtain ⟨hnew, hnodup⟩ := List.nodup_cons.mp hnodup
      rw [List.flatMap_cons, List.filter_append, hself.1]
      by_cases heq : p = position
      · subst heq
        have hrest : (positions.flatMap events).filter (fun row => decide (row.position = p)) = [] := by
          refine List.filter_eq_nil_iff.mpr fun row hrow => ?_
          obtain ⟨q, hq, hrow⟩ := List.mem_flatMap.mp hrow
          rw [hevents.2 q hq row hrow, decide_eq_true_eq]
          rintro rfl
          exact hnew hq
        rw [if_pos rfl, hrest, List.append_nil]
      · have hmem := List.mem_of_ne_of_mem (Ne.symm heq) hmem
        rw [if_neg heq, List.nil_append]
        exact ih hevents.2 hnodup hmem hself.2

theorem groupTransactions_flatMap (hevents : ∀ p ∈ positions, events p ≠ [] ∧ ∀ row ∈ events p, row.position = p)
    (hstrict : positions.Pairwise fun p q => p.rank < q.rank) :
    groupTransactions (positions.flatMap events) = positions.map fun p => ⟨p.slot, p.signature, events p⟩ := by
  have hposition : ∀ p ∈ positions, ∀ row ∈ events p, row.position = p := fun p hp => (hevents p hp).2
  have hpositions : distinct PaginationToken.rank ((positions.flatMap events).map RingsRow.position) = positions := by
    refine eq_of_strict (strict_distinct PaginationToken.rank_injective) hstrict fun p => ?_
    rw [mem_distinct, List.mem_map]
    constructor
    · rintro ⟨row, hrow, rfl⟩
      obtain ⟨q, hq, hrow⟩ := List.mem_flatMap.mp hrow
      rwa [hposition q hq row hrow]
    · intro hp
      obtain ⟨row, rest, hrow⟩ := List.exists_cons_of_ne_nil (hevents p hp).1
      have hmem : row ∈ events p := by simp [hrow]
      exact ⟨row, List.mem_flatMap.mpr ⟨p, hp, hmem⟩, hposition p hp row hmem⟩
  have hnodup : positions.Nodup := hstrict.imp fun hlt heq => absurd (heq ▸ hlt) (lt_irrefl _)
  rw [groupTransactions, hpositions]
  refine List.map_congr_left fun p hp => ?_
  rw [filter_flatMap_position hposition hnodup hp]

end Groups

/-! ### The page -/

section Page

variable {history : History} {query : RingsQuery} {request : PageRequest} {page : Page}

/-- The transactions that match and come after the request's token. -/
def positionsAfter (rows : List RingsRow) (query : RingsQuery) (filters : SlotFilter)
    (token : Option PaginationToken) : List PaginationToken :=
  (matchingPositions rows query filters).filter fun p => token.all fun token => token.rank < p.rank

theorem selected_eq {rows : List RingsRow} : selected rows query request =
      (positionsAfter rows query request.filters request.paginationToken).take (request.limit + 1) := by
  rw [selected]
  congr 1
  refine eq_of_strict (strict_distinct PaginationToken.rank_injective) (strict_matchingPositions.filter _) fun p => ?_
  simp only [positionsAfter, mem_distinct, List.mem_map, List.mem_filter, mem_matchingPositions, Bool.and_eq_true,
    PageRequest.contains]
  constructor
  · rintro ⟨row, ⟨hrow, ⟨hmatches, htoken, hslot⟩, hring⟩, rfl⟩
    exact ⟨⟨row, hrow, ⟨hmatches, hslot, hring⟩, rfl⟩, htoken⟩
  · rintro ⟨⟨row, hrow, ⟨hmatches, hslot, hring⟩, rfl⟩, htoken⟩
    exact ⟨row, ⟨hrow, ⟨hmatches, htoken, hslot⟩, hring⟩, rfl⟩

theorem fetch_eq : fetchMatchingRingsTransactions history.rows query request =
    (selected history.rows query request).flatMap (eventsAt history.rows query) := by
  have hselected : (selected history.rows query request).Pairwise fun p q => p.rank < q.rank := by
    rw [selected_eq]
    exact (strict_matchingPositions.filter _).sublist (List.take_sublist ..)
  refine eq_of_strict (strict_sortBy (history.nodup_rank.sublist (List.filter_sublist.map _)))
    (List.pairwise_flatMap.mpr ⟨fun p _ => strict_eventsAt history.nodup_rank, ?_⟩) fun row => ?_
  · refine hselected.imp fun {p q} hlt row hrow row' hrow' => rank_lt_of_position ?_
    rwa [(mem_eventsAt.mp hrow).2.1, (mem_eventsAt.mp hrow').2.1]
  · simp only [fetchMatchingRingsTransactions, mem_sortBy, List.mem_filter, Bool.and_eq_true, decide_eq_true_eq,
      List.mem_flatMap, mem_eventsAt]
    constructor
    · rintro ⟨hrow, hmem, hring⟩
      exact ⟨_, hmem, hrow, rfl, hring⟩
    · rintro ⟨p, hmem, hrow, rfl, hring⟩
      exact ⟨hrow, hmem, hring⟩

/-- The page of a request is what comes next, and its token says where it ends if something is left. -/
theorem getShieldedTransactions_eq : getShieldedTransactions history query request = (do
    query.validate
    match (history.blocks.map Block.slot).max? with
    | none => .error (.recordNotFound "No data has been indexed")
    | some contextSlot => do
      requireContext contextSlot request
      ensureResumeIndexed history request
      let after := positionsAfter history.rows query request.filters request.paginationToken
      pure ⟨contextSlot, (after.take request.limit).map (transactionAt history.rows query),
        if after.length ≤ request.limit then none else (after.take request.limit).getLast?⟩) := by
  set after := positionsAfter history.rows query request.filters request.paginationToken with hafter
  have hstrict : after.Pairwise fun p q => p.rank < q.rank := strict_matchingPositions.filter _
  have hevents : ∀ p ∈ after, eventsAt history.rows query p ≠ [] ∧
      ∀ row ∈ eventsAt history.rows query p, row.position = p := fun p hp =>
    ⟨eventsAt_ne_nil (List.mem_filter.mp hp).1, fun row hrow => (mem_eventsAt.mp hrow).2.1⟩
  have hgroup := groupTransactions_flatMap (fun p hp => hevents p (List.mem_of_mem_take hp))
    (hstrict.sublist (List.take_sublist request.limit _))
  have htruncate : truncateTransactions (fetchMatchingRingsTransactions history.rows query request) request.limit =
      .ok ((after.take request.limit).flatMap (eventsAt history.rows query),
        if after.length ≤ request.limit then none else (after.take request.limit).getLast?) := by
    rw [truncateTransactions, fetch_eq, selected_eq, ← hafter,
      truncateFrom_flatMap (fun p hp => hevents p (List.mem_of_mem_take hp))
        (hstrict.sublist (List.take_sublist ..)) (by simp) (Nat.zero_le _), Nat.sub_zero, List.take_take,
      min_eq_left (Nat.le_succ _), List.length_take, Option.or_none]
    simp only [show (min (request.limit + 1) after.length ≤ request.limit) ↔ after.length ≤ request.limit by omega]
  simp only [getShieldedTransactions, bind_of_eq_ok htruncate, hgroup]
  rfl

theorem getShieldedTransactions_eq_ok (h : getShieldedTransactions history query request = .ok page) :
    page.data = ((positionsAfter history.rows query request.filters request.paginationToken).take request.limit).map
        (transactionAt history.rows query) ∧
      page.paginationToken =
        if (positionsAfter history.rows query request.filters request.paginationToken).length ≤ request.limit then none
        else ((positionsAfter history.rows query request.filters request.paginationToken).take
          request.limit).getLast? := by
  rw [getShieldedTransactions_eq] at h
  obtain ⟨_, -, h⟩ := of_bind_ok h
  split at h
  case h_1 => cases h
  case h_2 =>
    obtain ⟨_, -, h⟩ := of_bind_ok h
    obtain ⟨_, -, h⟩ := of_bind_ok h
    obtain rfl := Except.ok.inj h
    exact ⟨rfl, rfl⟩

end Page

end Zolana.Photon
