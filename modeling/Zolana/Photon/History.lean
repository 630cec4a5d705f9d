import Mathlib.Data.Prod.Lex
import Zolana.Hasher.Field
import Zolana.Lib.Sorting

/-!
# Paged history reads

`get_shielded_transactions_by_tags.rs`, the paging of `common.rs` and the `Page` of the client. The history is what the
index holds of the blocks it was given: for each transaction its events, with what the queries read of them. A
signature is a number, whose order is the order of its bytes, and the order of the database is the same. What is joined
from other tables is left out, as are the bounds of the columns.
-/

namespace Zolana.Photon

open Sorting

abbrev Signature := BitVec 512

/-- An event of a transaction, with its view tags and nullifiers. -/
structure RingsEvent where
  signature : Signature
  eventIndex : Nat
  ringConfig : Option Bytes32
  outputTags : List Bytes32
  messageTags : List Bytes32
  nullifiers : List Bytes32
  deriving DecidableEq, Repr

structure Block where
  slot : Nat
  events : List RingsEvent
  deriving DecidableEq, Repr

/-- A row of `rings_transactions`. -/
structure RingsRow extends RingsEvent where
  slot : Nat
  deriving DecidableEq, Repr

def Block.rows (block : Block) : List RingsRow := block.events.map fun event => { event with slot := block.slot }

/-- The blocks that were committed. The table has a unique index over signatures and event indices. -/
structure History where
  blocks : List Block
  unique : ((blocks.flatMap Block.rows).map fun row => (row.signature, row.eventIndex)).Nodup

def History.rows (history : History) : List RingsRow := history.blocks.flatMap Block.rows

/-! ### Requests -/

structure PaginationToken where
  slot : Nat
  signature : Signature
  deriving DecidableEq, Repr

def PaginationToken.rank (token : PaginationToken) : ℕ ×ₗ ℕ := toLex (token.slot, token.signature.toNat)

structure SlotFilter where
  gt : Option Nat
  gte : Option Nat
  lt : Option Nat
  lte : Option Nat
  deriving DecidableEq, Repr

def SlotFilter.contains (filter : SlotFilter) (slot : Nat) : Bool :=
  filter.gt.all (fun bound => bound < slot) && filter.gte.all (fun bound => bound ≤ slot) &&
    filter.lt.all (fun bound => slot < bound) && filter.lte.all (fun bound => slot ≤ bound)

/-- The greater of two values that may be missing. -/
def maxOption : Option Nat → Option Nat → Option Nat
  | none, b => b
  | a, none => a
  | some a, some b => some (max a b)

def SlotFilter.floor (filter : SlotFilter) : Option Nat :=
  maxOption filter.gt (filter.gte.bind fun bound => if bound = 0 then none else some (bound - 1))

structure PageRequest where
  paginationToken : Option PaginationToken
  limit : Nat
  filters : SlotFilter
  minContextSlot : Option Nat
  deriving DecidableEq, Repr

def PageRequest.contextFloor (page : PageRequest) : Option Nat :=
  maxOption (maxOption page.minContextSlot (page.paginationToken.map PaginationToken.slot)) page.filters.floor

inductive MatchBy where
  | tags
  | nullifiers
  deriving DecidableEq, Repr

structure RingsQuery where
  values : List Bytes32
  matchBy : MatchBy
  ringConfig : Option Bytes32
  deriving DecidableEq, Repr

inductive HistoryError where
  | validationError (message : String)
  | recordNotFound (message : String)
  | unexpectedError (message : String)
  | minimumContextSlot (contextSlot : Nat)
  deriving DecidableEq, Repr

def pageLimit : Nat := 1000

def tooMany (what : String) (count : Nat) : HistoryError :=
  .validationError s!"Too many {what} requested {count}. Maximum allowed: {pageLimit}"

/-- `validate_tags` and `validate_nullifiers`. -/
def RingsQuery.validate (query : RingsQuery) : Except HistoryError Unit :=
  match query.matchBy with
  | .tags =>
    if query.values = [] ∧ query.ringConfig = none then
      .error (.validationError "At least one tag or an explicit ring program must be provided")
    else if pageLimit < query.values.length then .error (tooMany "tags" query.values.length)
    else .ok ()
  | .nullifiers =>
    if query.values = [] then .error (.validationError "At least one nullifier must be provided")
    else if pageLimit < query.values.length then .error (tooMany "nullifiers" query.values.length)
    else .ok ()

/-! ### The query -/

def RingsRow.position (row : RingsRow) : PaginationToken := ⟨row.slot, row.signature⟩

/-- `ORDER BY slot, signature, event_index`. -/
def RingsRow.rank (row : RingsRow) : (ℕ ×ₗ ℕ) ×ₗ ℕ := toLex (row.position.rank, row.eventIndex)

/-- `match_by_sql`. -/
def RingsQuery.matches (query : RingsQuery) (row : RingsRow) : Bool :=
  match query.matchBy with
  | .tags =>
    if query.values = [] ∧ query.ringConfig.isSome then true
    else row.outputTags.any (fun tag => tag ∈ query.values) || row.messageTags.any (fun tag => tag ∈ query.values)
  | .nullifiers => row.nullifiers.any fun nullifier => nullifier ∈ query.values

/-- `ring_filter_sql`. -/
def RingsQuery.inRing (query : RingsQuery) (row : RingsRow) : Bool :=
  match query.ringConfig with
  | some config => row.ringConfig = some config
  | none => true

/-- `page_sql_conditions`. -/
def PageRequest.contains (page : PageRequest) (row : RingsRow) : Bool :=
  page.paginationToken.all (fun token => token.rank < row.position.rank) && page.filters.contains row.slot

/-- The transactions of the page and one more, in order. -/
def selected (rows : List RingsRow) (query : RingsQuery) (page : PageRequest) : List PaginationToken :=
  (distinct PaginationToken.rank ((rows.filter fun row =>
    query.matches row && page.contains row && query.inRing row).map RingsRow.position)).take (page.limit + 1)

def fetchMatchingRingsTransactions (rows : List RingsRow) (query : RingsQuery) (page : PageRequest) : List RingsRow :=
  sortBy RingsRow.rank (rows.filter fun row => row.position ∈ selected rows query page && query.inRing row)

/-- The loop of `truncate_transactions` from a row on. -/
def truncateFrom (limit : Nat) : (count : Nat) → (previous : Option PaginationToken) → List RingsRow →
    Except HistoryError (List RingsRow × Option PaginationToken)
  | _, _, [] => .ok ([], none)
  | count, previous, row :: rows =>
    if previous = some row.position then do
      let (kept, token) ← truncateFrom limit count previous rows
      pure (row :: kept, token)
    else if previous.any fun previous => row.position.rank < previous.rank then
      .error (.unexpectedError "unordered transaction page")
    else if limit < count + 1 then .ok ([], previous)
    else do
      let (kept, token) ← truncateFrom limit (count + 1) (some row.position) rows
      pure (row :: kept, token)

def truncateTransactions (rows : List RingsRow) (limit : Nat) :
    Except HistoryError (List RingsRow × Option PaginationToken) :=
  truncateFrom limit 0 none rows

structure TransactionEvents where
  slot : Nat
  signature : Signature
  events : List RingsRow
  deriving DecidableEq, Repr

/-- `TransactionEvents::group`: by position, the events of each in the order they come. -/
def groupTransactions (rows : List RingsRow) : List TransactionEvents :=
  (distinct PaginationToken.rank (rows.map RingsRow.position)).map fun position =>
    ⟨position.slot, position.signature, rows.filter fun row => row.position = position⟩

structure Page where
  contextSlot : Nat
  data : List TransactionEvents
  paginationToken : Option PaginationToken
  deriving DecidableEq, Repr

def requireContext (contextSlot : Nat) (page : PageRequest) : Except HistoryError Unit :=
  if page.contextFloor.any fun required => contextSlot < required then .error (.minimumContextSlot contextSlot)
  else .ok ()

def ensureResumeIndexed (history : History) (page : PageRequest) : Except HistoryError Unit :=
  match maxOption (page.paginationToken.map PaginationToken.slot) (page.filters.floor.map (· + 1)) with
  | none => .ok ()
  | some needed =>
    if (history.blocks.map Block.slot).min?.any fun firstBlock => firstBlock ≤ needed then .ok ()
    else .error (.validationError "the requested history precedes the indexed history")

def getShieldedTransactions (history : History) (query : RingsQuery) (page : PageRequest) :
    Except HistoryError Page := do
  query.validate
  match (history.blocks.map Block.slot).max? with
  | none => .error (.recordNotFound "No data has been indexed")
  | some contextSlot => do
    requireContext contextSlot page
    ensureResumeIndexed history page
    let (rows, paginationToken) ←
      truncateTransactions (fetchMatchingRingsTransactions history.rows query page) page.limit
    pure ⟨contextSlot, groupTransactions rows, paginationToken⟩

/-- `Page::continuation` of the client. -/
def Page.continuation (page : Page) (requested : Option PaginationToken) :
    Except HistoryError (Option PaginationToken) :=
  match page.paginationToken with
  | some token =>
    if requested.any fun requested => token.rank ≤ requested.rank then
      .error (.unexpectedError "invalid pagination response")
    else .ok (some token)
  | none => .ok none

end Zolana.Photon
