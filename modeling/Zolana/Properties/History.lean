import Zolana.Proof.History

/-!
# Paged reads

A client that passes each token on reads every transaction that matches once, whatever is committed between its
requests.
-/

namespace Zolana.Photon

open Fallible Sorting

/-- A history and what a client has read of it. -/
structure Session where
  history : History
  token : Option PaginationToken
  finished : Bool
  pages : List (List TransactionEvents)

/-- Batches of blocks are committed, with slots above all earlier ones, and the client asks for its next page, with any
limit and context, until it gets no token. -/
inductive Session.Reached (query : RingsQuery) (filters : SlotFilter) : Session → Prop
  | start (history : History) : Reached query filters ⟨history, none, false, []⟩
  | commit {s : Session} {history : History} {batch : List Block} : Reached query filters s →
      history.blocks = s.history.blocks ++ batch →
      (∀ block ∈ batch, ∀ earlier ∈ s.history.blocks, earlier.slot < block.slot) →
      Reached query filters { s with history }
  | request {s : Session} {limit : Nat} {minContextSlot : Option Nat} {page : Page} : Reached query filters s →
      s.finished = false → 1 ≤ limit →
      getShieldedTransactions s.history query ⟨s.token, limit, filters, minContextSlot⟩ = .ok page →
      Reached query filters ⟨s.history, page.paginationToken, page.paginationToken.isNone, s.pages ++ [page.data]⟩

def upTo (token : Option PaginationToken) (p : PaginationToken) : Bool := token.any fun token => p.rank ≤ token.rank

theorem filter_upTo_none (positions : List PaginationToken) : positions.filter (upTo none) = [] :=
  List.filter_eq_nil_iff.mpr fun _ _ => Bool.false_ne_true

variable {query : RingsQuery} {filters : SlotFilter} {s : Session}

structure Session.HasRead (query : RingsQuery) (filters : SlotFilter) (s : Session) : Prop where
  pages : s.pages.flatten = ((matchingPositions s.history.rows query filters).filter (upTo s.token)).map
    (transactionAt s.history.rows query)
  token : ∀ token, s.token = some token → token ∈ matchingPositions s.history.rows query filters

/-! ### Commits -/

section Commit

variable {history history' : History} {batch : List Block} {token : PaginationToken}

section

variable (hblocks : history'.blocks = history.blocks ++ batch)
  (hslots : ∀ block ∈ batch, ∀ earlier ∈ history.blocks, earlier.slot < block.slot)
  (htoken : ∃ row ∈ history.rows, row.position = token)

include hblocks hslots htoken

theorem mem_rows_commit {row : RingsRow} (hrow : row.position.rank ≤ token.rank) :
    row ∈ history'.rows ↔ row ∈ history.rows := by
  rw [History.rows, History.rows, hblocks, List.flatMap_append, List.mem_append]
  refine ⟨fun h => h.resolve_right fun hnew => ?_, .inl⟩
  obtain ⟨old, hold, rfl⟩ := htoken
  obtain ⟨earlier, hearlier, hold⟩ := List.mem_flatMap.mp hold
  obtain ⟨block, hblock, hnew⟩ := List.mem_flatMap.mp hnew
  obtain ⟨_, -, rfl⟩ := List.mem_map.mp hold
  obtain ⟨_, -, rfl⟩ := List.mem_map.mp hnew
  exact absurd hrow (not_le_of_gt (Prod.Lex.toLex_lt_toLex.mpr (.inl (hslots block hblock earlier hearlier))))

theorem filter_matchingPositions_commit :
    (matchingPositions history'.rows query filters).filter (upTo (some token)) =
      (matchingPositions history.rows query filters).filter (upTo (some token)) := by
  refine eq_of_strict (strict_matchingPositions.filter _) (strict_matchingPositions.filter _) fun p => ?_
  simp only [List.mem_filter, mem_matchingPositions, upTo, Option.any_some, decide_eq_true_eq]
  refine and_congr_left fun hle => exists_congr fun row => ?_
  constructor
  · rintro ⟨hrow, hmatches, rfl⟩
    exact ⟨(mem_rows_commit hblocks hslots htoken hle).mp hrow, hmatches, rfl⟩
  · rintro ⟨hrow, hmatches, rfl⟩
    exact ⟨(mem_rows_commit hblocks hslots htoken hle).mpr hrow, hmatches, rfl⟩

theorem transactionAt_commit {p : PaginationToken} (hle : p.rank ≤ token.rank) :
    transactionAt history'.rows query p = transactionAt history.rows query p := by
  rw [transactionAt, transactionAt]
  congr 1
  refine eq_of_strict (strict_eventsAt history'.nodup_rank) (strict_eventsAt history.nodup_rank) fun row => ?_
  rw [mem_eventsAt, mem_eventsAt]
  refine and_congr_left fun h => mem_rows_commit hblocks hslots htoken ?_
  rwa [h.1]

end

theorem Session.HasRead.commit (h : s.HasRead query filters) (hblocks : history.blocks = s.history.blocks ++ batch)
    (hslots : ∀ block ∈ batch, ∀ earlier ∈ s.history.blocks, earlier.slot < block.slot) :
    Session.HasRead query filters { s with history } := by
  cases htoken : s.token with
  | none =>
      refine ⟨?_, fun token heq => by cases heq⟩
      rw [h.pages, htoken, filter_upTo_none, filter_upTo_none, List.map_nil, List.map_nil]
  | some token =>
      obtain ⟨row, hrow, hmatches, hposition⟩ := mem_matchingPositions.mp (h.token token htoken)
      have hold : ∃ row ∈ s.history.rows, row.position = token := ⟨row, hrow, hposition⟩
      refine ⟨?_, ?_⟩
      · rw [h.pages, htoken, filter_matchingPositions_commit hblocks hslots hold]
        refine List.map_congr_left fun p hp => ?_
        have hle : p.rank ≤ token.rank := by simpa [upTo] using (List.mem_filter.mp hp).2
        rw [transactionAt_commit hblocks hslots hold hle]
      · intro other heq
        obtain rfl := Option.some.inj heq
        exact mem_matchingPositions.mpr
          ⟨row, (mem_rows_commit hblocks hslots hold (by rw [hposition])).mpr hrow, hmatches, hposition⟩

end Commit

/-! ### Requests -/

section Request

variable {rows : List RingsRow} {token : Option PaginationToken}

theorem filter_append_positionsAfter : (matchingPositions rows query filters).filter (upTo token) ++
    positionsAfter rows query filters token = matchingPositions rows query filters := by
  cases token with
  | none =>
      rw [filter_upTo_none, List.nil_append]
      exact List.filter_eq_self.mpr fun _ _ => rfl
  | some token =>
      have hcross : ∀ p ∈ (matchingPositions rows query filters).filter (upTo (some token)),
          ∀ q ∈ positionsAfter rows query filters (some token), p.rank < q.rank := by
        intro p hp q hq
        have hle : p.rank ≤ token.rank := by simpa [upTo] using (List.mem_filter.mp hp).2
        have hlt : token.rank < q.rank := by simpa [positionsAfter] using (List.mem_filter.mp hq).2
        exact hle.trans_lt hlt
      refine eq_of_strict (List.pairwise_append.mpr ⟨strict_matchingPositions.filter _,
        strict_matchingPositions.filter _, hcross⟩) strict_matchingPositions fun p => ?_
      simp only [positionsAfter, List.mem_append, List.mem_filter, upTo, Option.any_some, Option.all_some,
        decide_eq_true_eq, ← and_or_left]
      exact and_iff_left (le_or_gt _ _)

theorem Session.HasRead.request (h : s.HasRead query filters) {limit : Nat} {minContextSlot : Option Nat} {page : Page}
    (hlimit : 1 ≤ limit)
    (hpage : getShieldedTransactions s.history query ⟨s.token, limit, filters, minContextSlot⟩ = .ok page) :
    (page.paginationToken = none → (s.pages ++ [page.data]).flatten =
      (matchingPositions s.history.rows query filters).map (transactionAt s.history.rows query)) ∧
    ∀ next, page.paginationToken = some next →
      Session.HasRead query filters ⟨s.history, some next, false, s.pages ++ [page.data]⟩ ∧
      ∀ requested, s.token = some requested → requested.rank < next.rank := by
  obtain ⟨hdata, htoken⟩ := getShieldedTransactions_eq_ok hpage
  dsimp only at hdata htoken
  set after := positionsAfter s.history.rows query filters s.token with hafter
  have hsplit : (matchingPositions s.history.rows query filters).filter (upTo s.token) ++ after =
      matchingPositions s.history.rows query filters := filter_append_positionsAfter
  have hread : (s.pages ++ [page.data]).flatten =
      ((matchingPositions s.history.rows query filters).filter (upTo s.token) ++ after.take limit).map
        (transactionAt s.history.rows query) := by
    rw [List.flatten_append, List.flatten_singleton, h.pages, hdata, List.map_append]
  refine ⟨?_, ?_⟩
  · intro hnone
    have hlength : after.length ≤ limit := by
      by_contra hlong
      rw [if_neg hlong, hnone, eq_comm, List.getLast?_eq_none_iff] at htoken
      have := congrArg List.length htoken
      rw [List.length_take, List.length_nil] at this
      omega
    rw [hread, List.take_of_length_le hlength, hsplit]
  · intro next hnext
    have hlast : (after.take limit).getLast? = some next := by
      rw [hnext] at htoken
      split at htoken
      case isTrue => cases htoken
      case isFalse => exact htoken.symm
    have hmem : next ∈ after := List.mem_of_mem_take (List.mem_of_getLast? hlast)
    have hwhole : (matchingPositions s.history.rows query filters).filter (upTo s.token) ++ after.take limit ++
        after.drop limit = matchingPositions s.history.rows query filters := by
      rw [List.append_assoc, List.take_append_drop, hsplit]
    have hstrict : ((matchingPositions s.history.rows query filters).filter (upTo s.token) ++ after.take limit ++
        after.drop limit).Pairwise fun p q => p.rank < q.rank := by
      rw [hwhole]
      exact strict_matchingPositions
    have hupTo := filter_le_getLast hstrict (by rw [List.getLast?_append, hlast, Option.some_or])
    rw [hwhole] at hupTo
    refine ⟨⟨?_, ?_⟩, ?_⟩
    · change (s.pages ++ [page.data]).flatten = _
      rw [hread, ← hupTo]
      rfl
    · intro token heq
      obtain rfl := Option.some.inj heq
      exact (List.mem_filter.mp hmem).1
    · intro requested hrequested
      have hall := (List.mem_filter.mp hmem).2
      simpa [hrequested] using hall

end Request

/-! ### Whole reads -/

theorem Session.Reached.hasRead (h : s.Reached query filters) (hfinished : s.finished = false) :
    s.HasRead query filters := by
  induction h with
  | start history => exact ⟨by rw [filter_upTo_none]; rfl, fun token heq => by cases heq⟩
  | commit _ hblocks hslots ih => exact (ih hfinished).commit hblocks hslots
  | @request s limit minContextSlot page _ hopen hlimit hpage ih =>
      cases htoken : page.paginationToken with
      | none =>
          rw [htoken] at hfinished
          cases hfinished
      | some next => exact ((ih hopen).request hlimit hpage).2 next htoken |>.1

theorem pairwise_transactionAt {rows : List RingsRow} {positions : List PaginationToken}
    (h : positions.Pairwise fun p q => p.rank < q.rank) :
    (positions.map (transactionAt rows query)).Pairwise fun a b =>
      (⟨a.slot, a.signature⟩ : PaginationToken).rank < (⟨b.slot, b.signature⟩ : PaginationToken).rank :=
  List.pairwise_map.mpr h

/-- Whatever a client has read, its next page goes on from there: the transactions of all pages are in strictly
increasing order, each with all its events of the ring, and a token is greater than the one of the request. Without a
token the pages hold exactly the transactions that match in the snapshot of the last one. -/
theorem paged_reads_are_complete (h : s.Reached query filters) (hopen : s.finished = false) {limit : Nat}
    (hlimit : 1 ≤ limit) {minContextSlot : Option Nat} {page : Page}
    (hpage : getShieldedTransactions s.history query ⟨s.token, limit, filters, minContextSlot⟩ = .ok page) :
    ((s.pages ++ [page.data]).flatten.Pairwise fun a b =>
      (⟨a.slot, a.signature⟩ : PaginationToken).rank < (⟨b.slot, b.signature⟩ : PaginationToken).rank) ∧
    (∀ transaction ∈ (s.pages ++ [page.data]).flatten,
      (⟨transaction.slot, transaction.signature⟩ : PaginationToken) ∈
        matchingPositions s.history.rows query filters ∧
      (∀ row, row ∈ transaction.events ↔ row ∈ s.history.rows ∧
        row.position = ⟨transaction.slot, transaction.signature⟩ ∧ query.inRing row = true) ∧
      transaction.events.Pairwise fun a b => a.eventIndex < b.eventIndex) ∧
    page.continuation s.token = .ok page.paginationToken ∧
    (∀ next requested, page.paginationToken = some next → s.token = some requested → requested.rank < next.rank) ∧
    (page.paginationToken = none → (s.pages ++ [page.data]).flatten =
      (matchingPositions s.history.rows query filters).map (transactionAt s.history.rows query)) := by
  obtain ⟨hend, hnext⟩ := (h.hasRead hopen).request hlimit hpage
  -- in either case the pages are transactions that match, in order
  obtain ⟨positions, hpages, hmem, hstrict⟩ : ∃ positions : List PaginationToken, (s.pages ++ [page.data]).flatten =
      positions.map (transactionAt s.history.rows query) ∧
      (∀ p ∈ positions, p ∈ matchingPositions s.history.rows query filters) ∧
      positions.Pairwise fun p q => p.rank < q.rank := by
    cases htoken : page.paginationToken with
    | none => exact ⟨_, hend htoken, fun _ => id, strict_matchingPositions⟩
    | some next =>
        exact ⟨_, (hnext next htoken).1.pages, fun p hp => (List.mem_filter.mp hp).1, strict_matchingPositions.filter _⟩
  refine ⟨?_, ?_, ?_, fun next requested htoken => (hnext next htoken).2 requested, hend⟩
  · rw [hpages]
    exact pairwise_transactionAt hstrict
  · intro transaction htransaction
    rw [hpages] at htransaction
    obtain ⟨p, hp, rfl⟩ := List.mem_map.mp htransaction
    refine ⟨hmem p hp, fun row => mem_eventsAt, ?_⟩
    refine (strict_eventsAt s.history.nodup_rank).imp_of_mem fun {a b} ha hb hlt => ?_
    have hposition : a.position = b.position := (mem_eventsAt.mp ha).2.1.trans (mem_eventsAt.mp hb).2.1.symm
    obtain hlt | ⟨-, hlt⟩ := Prod.Lex.toLex_lt_toLex.mp hlt
    · rw [hposition] at hlt
      exact absurd hlt (lt_irrefl _)
    · exact hlt
  · rw [Page.continuation]
    cases htoken : page.paginationToken with
    | none => rfl
    | some next =>
        refine if_neg ?_
        cases hrequested : s.token with
        | none => simp
        | some requested => simpa using (hnext next htoken).2 requested hrequested

theorem matchingPositions_eq {rows : List RingsRow} {positions : List PaginationToken}
    (hstrict : positions.Pairwise fun p q => p.rank < q.rank) (hperm : ((rows.filter fun row =>
      query.matches row && filters.contains row.slot && query.inRing row).map RingsRow.position).Perm positions) :
    matchingPositions rows query filters = positions :=
  eq_of_strict strict_matchingPositions hstrict fun _ => mem_distinct.trans hperm.mem_iff

theorem eventsAt_eq {history : History} {position : PaginationToken} {events : List RingsRow}
    (hstrict : events.Pairwise fun row row' => row.rank < row'.rank)
    (hperm : (history.rows.filter fun row => row.position = position && query.inRing row).Perm events) :
    eventsAt history.rows query position = events :=
  eq_of_strict (strict_eventsAt history.nodup_rank) hstrict fun _ => mem_sortBy.trans hperm.mem_iff

/-- Two transactions, one of them with two events. -/
def firstBlock : Block := ⟨5, [⟨2, 1, none, [7], [], []⟩, ⟨2, 0, none, [], [], []⟩, ⟨1, 0, none, [], [7], []⟩]⟩

def nextBlock : Block := ⟨6, [⟨3, 0, none, [7], [], []⟩]⟩

def firstHistory : History := ⟨[firstBlock], by decide +kernel⟩

def nextHistory : History := ⟨[firstBlock, nextBlock], by decide +kernel⟩

def tagQuery : RingsQuery := ⟨[7], .tags, none⟩

def anySlot : SlotFilter := ⟨none, none, none, none⟩

/-- The second block is committed after the first page. -/
theorem paged_reads_are_complete_twoBlocks : ∃ s : Session, s.Reached tagQuery anySlot ∧ s.history = nextHistory ∧
    s.pages.length = 1 ∧ ∃ page, getShieldedTransactions s.history tagQuery ⟨s.token, 2, anySlot, none⟩ = .ok page ∧
      page.paginationToken = none ∧ (s.pages ++ [page.data]).flatten =
        [⟨5, 1, [⟨⟨1, 0, none, [], [7], []⟩, 5⟩]⟩,
          ⟨5, 2, [⟨⟨2, 0, none, [], [], []⟩, 5⟩, ⟨⟨2, 1, none, [7], [], []⟩, 5⟩]⟩,
          ⟨6, 3, [⟨⟨3, 0, none, [7], [], []⟩, 6⟩]⟩] := by
  have hfirst : matchingPositions firstHistory.rows tagQuery anySlot = [⟨5, 1⟩, ⟨5, 2⟩] :=
    matchingPositions_eq (by decide +kernel) (by decide +kernel)
  have hnext : matchingPositions nextHistory.rows tagQuery anySlot = [⟨5, 1⟩, ⟨5, 2⟩, ⟨6, 3⟩] :=
    matchingPositions_eq (by decide +kernel) (by decide +kernel)
  have hpage : getShieldedTransactions firstHistory tagQuery ⟨none, 1, anySlot, none⟩ =
      .ok ⟨5, [transactionAt firstHistory.rows tagQuery ⟨5, 1⟩], some ⟨5, 1⟩⟩ := by
    rw [getShieldedTransactions_eq, positionsAfter, hfirst]
    rfl
  have hlast : getShieldedTransactions nextHistory tagQuery ⟨some ⟨5, 1⟩, 2, anySlot, none⟩ =
      .ok ⟨6, [⟨5, 2⟩, ⟨6, 3⟩].map (transactionAt nextHistory.rows tagQuery), none⟩ := by
    have hafter : positionsAfter nextHistory.rows tagQuery anySlot (some ⟨5, 1⟩) = [⟨5, 2⟩, ⟨6, 3⟩] := by
      rw [positionsAfter, hnext]
      decide +kernel
    rw [getShieldedTransactions_eq, hafter]
    rfl
  have hreached := Session.Reached.commit (.request (.start firstHistory) rfl le_rfl hpage)
    (show nextHistory.blocks = _ ++ [nextBlock] from rfl) (by decide)
  refine ⟨_, hreached, rfl, rfl, _, hlast, rfl, ?_⟩
  rw [(paged_reads_are_complete hreached rfl (by decide) hlast).2.2.2.2 rfl, hnext]
  simp only [List.map_cons, List.map_nil, transactionAt, List.cons.injEq, TransactionEvents.mk.injEq, true_and, and_true]
  exact ⟨eventsAt_eq (by decide +kernel) (by decide +kernel), eventsAt_eq (by decide +kernel) (by decide +kernel),
    eventsAt_eq (by decide +kernel) (by decide +kernel)⟩

end Zolana.Photon
