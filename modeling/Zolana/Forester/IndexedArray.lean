import Mathlib.Data.List.MinMax
import Mathlib.Data.Nat.Size
import Zolana.Hasher.HashChain
import Zolana.Lib.Fallible

/-!
# The indexed array

`protocol-ops/merkle-tree/src/indexed_array/array.rs`: the elements of a sorted set in the order in which they came,
each with the index of the next greater one. The index type is `usize`, a value is a `BigUint`. An index that is out of
range panics, which is an error of its own here.
-/

namespace Zolana.Forester

open Fallible

structure IndexedElement where
  index : Nat
  value : Nat
  nextIndex : Nat
  deriving DecidableEq, Repr

inductive IndexedArrayError where
  | integerOverflow
  | lowElementGreaterOrEqualToNewElement
  | newElementGreaterOrEqualToNextElement
  | elementAlreadyExists
  | hasher (error : HasherError)
  | panicked
  deriving DecidableEq, Repr

def bigintToBeBytesArray (bigint : Nat) : Except HasherError Bytes32 :=
  if bigint < 2 ^ 256 then .ok (BitVec.ofNat 256 bigint)
  else .error (.invalidInputLength 32 ((bigint.size + 7) / 8))

def IndexedElement.hash (hashv : Hashv) (element : IndexedElement) (nextValue : Nat) :
    Except IndexedArrayError Bytes32 := do
  let value ← (bigintToBeBytesArray element.value).mapError .hasher
  let nextValue ← (bigintToBeBytesArray nextValue).mapError .hasher
  (hashv [value, nextValue]).mapError .hasher

structure IndexedElementBundle where
  newLowElement : IndexedElement
  newElement : IndexedElement
  newElementNextValue : Nat
  deriving DecidableEq, Repr

structure IndexedArray where
  elements : List IndexedElement
  currentNodeIndex : Nat
  highestElementIndex : Nat
  highestValue : Nat
  /-- The map from values to positions, as its entries. -/
  byValue : List (Nat × Nat)
  deriving DecidableEq, Repr

namespace IndexedArray

def new (value nextValue : Nat) : IndexedArray where
  elements := [⟨0, value, 0⟩]
  currentNodeIndex := 0
  highestElementIndex := 0
  highestValue := nextValue
  byValue := [(value, 0)]

def element (array : IndexedArray) (index : Nat) : Except IndexedArrayError IndexedElement :=
  match array.elements[index]? with
  | some element => .ok element
  | none => .error .panicked

/-- The value an element points to, which behind the greatest element is `highest_value`. -/
def nextValue (array : IndexedArray) (element : IndexedElement) : Except IndexedArrayError Nat :=
  if element.nextIndex = 0 then .ok array.highestValue
  else (array.element element.nextIndex).map IndexedElement.value

/-- The entry with the greatest key below the value is `by_value.range(..value).next_back()`. -/
def findLowElementIndexForNonexistent (array : IndexedArray) (value : Nat) : Except IndexedArrayError Nat :=
  if array.byValue.any (fun entry => entry.1 = value) then .error .elementAlreadyExists
  else .ok (((array.byValue.filter fun entry => entry.1 < value).argmax Prod.fst).elim
    array.highestElementIndex Prod.snd)

def findLowElementForNonexistent (array : IndexedArray) (value : Nat) :
    Except IndexedArrayError (IndexedElement × Nat) := do
  let lowElementIndex ← array.findLowElementIndexForNonexistent value
  let lowElement ← array.element lowElementIndex
  let nextValue ← array.nextValue lowElement
  pure (lowElement, nextValue)

def newElementWithLowElementIndex (array : IndexedArray) (lowElementIndex value : Nat) :
    Except IndexedArrayError IndexedElementBundle := do
  let newLowElement ← array.element lowElementIndex
  match checkedAdd array.currentNodeIndex 1 with
  | none => .error .integerOverflow
  | some newElementIndex =>
    let newElement : IndexedElement := ⟨newElementIndex, value, newLowElement.nextIndex⟩
    let newElementNextValue ← array.nextValue newElement
    pure ⟨{ newLowElement with nextIndex := newElementIndex }, newElement, newElementNextValue⟩

/-- The checks of `append_with_low_element_index` on the range of the low element. -/
def checkRange (array : IndexedArray) (oldLowElement : IndexedElement) (value : Nat) : Except IndexedArrayError Unit :=
  if value ≤ oldLowElement.value then .error .lowElementGreaterOrEqualToNewElement
  else if oldLowElement.nextIndex = 0 then .ok ()
  else do
    let next ← array.element oldLowElement.nextIndex
    if next.value ≤ value then .error .newElementGreaterOrEqualToNextElement else .ok ()

def insertBundle (array : IndexedArray) (lowElementIndex : Nat) (oldLowElement : IndexedElement)
    (bundle : IndexedElementBundle) : IndexedArray where
  elements := (array.elements ++ [bundle.newElement]).set lowElementIndex bundle.newLowElement
  currentNodeIndex := bundle.newElement.index
  highestElementIndex := if oldLowElement.nextIndex = 0 then bundle.newElement.index else array.highestElementIndex
  highestValue := array.highestValue
  byValue := array.byValue.filter (fun entry => entry.1 ≠ bundle.newElement.value) ++
    [(bundle.newElement.value, bundle.newElement.index)]

def appendWithLowElementIndex (lowElementIndex value : Nat) :
    EStateM IndexedArrayError IndexedArray IndexedElementBundle := do
  let array ← get
  let oldLowElement ← mapErr id (array.element lowElementIndex)
  mapErr id (array.checkRange oldLowElement value)
  let bundle ← mapErr id (array.newElementWithLowElementIndex lowElementIndex value)
  set (array.insertBundle lowElementIndex oldLowElement bundle)
  pure bundle

def append (value : Nat) : EStateM IndexedArrayError IndexedArray IndexedElementBundle := do
  let array ← get
  let lowElementIndex ← mapErr id (array.findLowElementIndexForNonexistent value)
  appendWithLowElementIndex lowElementIndex value

end IndexedArray

end Zolana.Forester
