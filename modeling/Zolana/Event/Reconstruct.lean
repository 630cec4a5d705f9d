import Zolana.Pool.Run

/-!
# The inputs of a spend, as an indexer rebuilds them

`sdk-libs/event/src/reconstruct.rs`: the emitted event has one first queue index for each input tree, and
the instruction data has the inputs. Only the inputs of the rebuilt event are modelled.
-/

namespace Zolana.Event

open Fallible

structure Input where
  tree : Address
  inputQueueSeq : Nat
  nullifier : Bytes32
  deriving DecidableEq, Repr

inductive EventDecodeError where
  | unsupportedInputTreeCount (count : Nat)
  | inputTreeIndexOutOfRange (treeIndex : Nat)
  | indexOverflow
  | unsupportedSourceInstruction
  deriving DecidableEq, Repr

/-- The iterator of `inputs_from_tree_indexes`, with the inputs already counted for each tree. -/
def countInputQueueSeqs (inputTrees : List (Address × Nat)) :
    List Nat → List InputUtxo → Except EventDecodeError (List Input)
  | _, [] => .ok []
  | spentPerTree, input :: inputs =>
    match inputTrees[input.treeIndex]?, spentPerTree[input.treeIndex]? with
    | some (tree, firstInputQueueSeq), some spent =>
      match checkedAdd firstInputQueueSeq spent, checkedAdd spent 1 with
      | some inputQueueSeq, some next =>
        match countInputQueueSeqs inputTrees (spentPerTree.set input.treeIndex next) inputs with
        | .ok rest => .ok (⟨tree, inputQueueSeq, input.nullifierHash⟩ :: rest)
        | .error e => .error e
      | _, _ => .error .indexOverflow
    | _, _ => .error (.inputTreeIndexOutOfRange input.treeIndex)

def inputsFromTreeIndexes (inputTrees : List (Address × Nat)) (inputs : List InputUtxo) :
    Except EventDecodeError (List Input) :=
  if inputTrees = [] then
    .error (.unsupportedInputTreeCount 0)
  else
    countInputQueueSeqs inputTrees (List.replicate inputTrees.length 0) inputs

def singleInputTree : List (Address × Nat) → Except EventDecodeError (Address × Nat)
  | [tree] => .ok tree
  | inputTrees => .error (.unsupportedInputTreeCount inputTrees.length)

/-- The iterator of `inputs_from_nullifiers`, from a position on. -/
def inputsFromNullifiers (tree : Address × Nat) : Nat → List Bytes32 → Except EventDecodeError (List Input)
  | _, [] => .ok []
  | position, nullifier :: nullifiers =>
    match checkedAdd tree.2 position with
    | some inputQueueSeq =>
      match inputsFromNullifiers tree (position + 1) nullifiers with
      | .ok rest => .ok (⟨tree.1, inputQueueSeq, nullifier⟩ :: rest)
      | .error e => .error e
    | none => .error .indexOverflow

/-- The inputs of `transact_general_event` and `merge_general_event`. -/
def reconstructInputs (event : SpendEvent) : Instruction → Except EventDecodeError (List Input)
  | .transact _ ix _ => inputsFromTreeIndexes event.inputTrees ix.inputs
  | .merge _ ix _ => do
    let inputTree ← singleInputTree event.inputTrees
    inputsFromNullifiers inputTree 0 ix.nullifiers
  | .batchUpdateNullifierTree _ _ _ | .closeNullifierPdas _ _ _ =>
    .error .unsupportedSourceInstruction

end Zolana.Event
