import Zolana.Lib.Gates

/-!
# Row lookups

`crypto/lookup/table.go`. A table of rows, the queries made to it, and what `build` leaves to check once all of them and
the counts are committed: one challenge is the point at which the reciprocals are compared, and its powers, squared
`rowSeparationLog` times for each column, combine the columns.
-/

namespace Zolana.Circuits.Crypto.Lookup

def lookupSecurityBits : Nat := 100

structure Table (F : Type) (nbRows nbCols nbQueries : Nat) where
  rows : Fin nbRows → Fin nbCols → F
  indices : Fin nbQueries → F
  results : Fin nbQueries → Fin nbCols → F

variable {F : Type} [Field F] {nbRows nbCols nbQueries : Nat}

/-- The running power of the challenge after some columns. -/
def alpha (rowSeparationLog : Nat) (ch : F) : Nat → F
  | 0 => ch
  | j + 1 => (fun x => x * x)^[rowSeparationLog] (alpha rowSeparationLog ch j)

namespace Table

variable (t : Table F nbRows nbCols nbQueries)

def rowSeparationLog (_ : Table F nbRows nbCols nbQueries) : Nat := (nbQueries + nbRows).size

/-- `build` does not panic. Without a query it looks at nothing. -/
def Builds (fieldBitLen : Nat) : Prop :=
  0 < nbQueries → (nbCols + 1) * t.rowSeparationLog + 1 + lookupSecurityBits ≤ fieldBitLen

def coeffs (ch : F) (j : Fin nbCols) : F := alpha t.rowSeparationLog ch (j + 1)

def encode (ch index : F) (vals : Fin nbCols → F) : F := ch - (index + ∑ j, t.coeffs ch j * vals j)

/-- What the closure asserts of the challenge, for wires of the prover's choice: `DivUnchecked` binds its result by the
product alone, and an inverse by the product that is one. -/
def Closure (counts : Fin nbRows → F) (ch : F) : Prop :=
  ∃ (quotients : Fin nbRows → F) (inverses : Fin nbQueries → F),
    (∀ r, quotients r * t.encode ch (r.val : F) (t.rows r) = counts r) ∧
    (∀ i, inverses i * t.encode ch (t.indices i) (t.results i) = 1) ∧
    ∑ r, quotients r = ∑ i, inverses i

/-- The query is answered with the row. -/
def Matches (i : Fin nbQueries) (r : Fin nbRows) : Prop := t.indices i = (r.val : F) ∧ t.results i = t.rows r

/-- `RowCountHint`. -/
def rowCounts [DecidableEq F] (r : Fin nbRows) : F :=
  ((Finset.univ.filter fun i => t.indices i = (r.val : F)).card : F)

end Table

end Zolana.Circuits.Crypto.Lookup
