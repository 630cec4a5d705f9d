import Zolana.Pool.Run

/-!
# The spend protocol

What the pool is for, as a protocol over what decides which nullifiers can still be spent: the nullifier
tree and id of each tree account, and the nullifier PDAs. A spend queues the nullifiers of one tree and
creates their PDAs, a batch update applies queued values to a tree, and a PDA below the watermark of its
tree is closed. Fees, rent and outputs do not appear.
-/

namespace Zolana

variable {HEIGHT K : Nat}

/-- The part of a tree account the protocol reads. -/
structure NullifierSide (K : Nat) where
  nullifier : NullifierTreeLayout K
  treeId : UInt16

structure SpendView (K : Nat) where
  side : Address → Option (NullifierSide K)
  pda : Address → Option NullifierPda

def TreeAccountLayout.side (tree : TreeAccountLayout HEIGHT K) : NullifierSide K :=
  ⟨tree.nullifier, tree.treeId⟩

def Ledger.spendView (ledger : Ledger HEIGHT K) : SpendView K where
  side address := (ledger.tree address).map TreeAccountLayout.side
  pda := ledger.nullifierPda

/-- The inputs of a spend that come from one tree, with what the proof is told about the tree. -/
structure SpendGroup where
  tree : Address
  nullifiers : List Bytes32
  slot : TreeSlot
  allowDummyInputs : Bool

inductive PoolEvent where
  | queue (group : SpendGroup)
  | update (tree : Address) (data : InstructionDataBatchNullifyInputs)
  | close (nullifierPda : Address)

/-- Every nullifier gets a PDA of its own, which did not exist before. -/
structure CreatesPdas (runtime : Runtime) (tree : Address) (treeId : UInt16) (first : Nat)
    (nullifiers : List Bytes32) (pda pda' : Address → Option NullifierPda) : Prop where
  nodup : nullifiers.Nodup
  created : ∀ k nullifier, nullifiers[k]? = some nullifier →
    ∃ address, runtime.nullifierPdaAddress tree nullifier = some address ∧ pda address = none ∧
      pda' address = some ⟨first + k, treeId⟩
  kept : ∀ address record, pda address = some record → pda' address = some record

/-- The queueing of one group. Root and policy are those of the tree before. -/
structure Queues (env : PoolEnv) (reserve : Nat) (group : SpendGroup) (before after : NullifierSide K)
    (pda pda' : Address → Option NullifierPda) : Prop where
  inserted : (insertNullifiers env.tree.hashv group.nullifiers).run before.nullifier = .ok () after.nullifier
  treeId : after.treeId = before.treeId
  slotId : group.slot.id = treeIdField before.treeId
  root : ∃ index, before.nullifier.rootByIndex index = some group.slot.nullifierRoot
  allow : group.allowDummyInputs = true → group.nullifiers.length
    ≤ before.nullifier.capacity - before.nullifier.queueNextIndex - reserve
  pdas : CreatesPdas env.runtime group.tree before.treeId before.nullifier.queueNextIndex
    group.nullifiers pda pda'

inductive PoolStep (env : PoolEnv) (reserve : Nat) : SpendView K → PoolEvent → SpendView K → Prop
  | queue {view : SpendView K} {group : SpendGroup} {before after : NullifierSide K}
      {pda : Address → Option NullifierPda} (hside : view.side group.tree = some before)
      (h : Queues env reserve group before after view.pda pda) :
      PoolStep env reserve view (.queue group)
        ⟨Function.update view.side group.tree (some after), pda⟩
  | update {view : SpendView K} {address : Address} {before : NullifierSide K}
      {data : InstructionDataBatchNullifyInputs} {cascade : NullifierTreeLayout.Cascade}
      {tree : NullifierTreeLayout K} (hside : view.side address = some before)
      (h : (NullifierTreeLayout.updateTreeFromQueue env.tree address data).run before.nullifier
        = .ok cascade tree) :
      PoolStep env reserve view (.update address data)
        ⟨Function.update view.side address (some { before with nullifier := tree }), view.pda⟩
  | close {view : SpendView K} {address nullifierPda : Address} {side : NullifierSide K}
      {record : NullifierPda} (hside : view.side address = some side)
      (hrecord : view.pda nullifierPda = some record) (hid : record.treeId = side.treeId)
      (hclosable : record.queueIndex < side.nullifier.closeBeforeIndex) :
      PoolStep env reserve view (.close nullifierPda)
        ⟨view.side, Function.update view.pda nullifierPda none⟩

inductive PoolTrace (env : PoolEnv) (reserve : Nat) (start : SpendView K) : List PoolEvent → SpendView K → Prop
  | start : PoolTrace env reserve start [] start
  | step {events : List PoolEvent} {event : PoolEvent} {view view' : SpendView K}
      (h : PoolTrace env reserve start events view) (hstep : PoolStep env reserve view event view') :
      PoolTrace env reserve start (events ++ [event]) view'

theorem PoolTrace.single {env : PoolEnv} {reserve : Nat} {view view' : SpendView K} {event : PoolEvent}
    (h : PoolStep env reserve view event view') : PoolTrace env reserve view [event] view' :=
  .step .start h

theorem PoolTrace.append {env : PoolEnv} {reserve : Nat} {first second third : SpendView K}
    {events events' : List PoolEvent} (h : PoolTrace env reserve first events second)
    (h' : PoolTrace env reserve second events' third) :
    PoolTrace env reserve first (events ++ events') third := by
  induction h' with
  | start => rwa [List.append_nil]
  | step _ hstep ih =>
      rw [← List.append_assoc]
      exact .step ih hstep

/-! ### Spend proofs -/

/-- The public inputs pair a nullifier with a tree slot, read as the circuit reads them. -/
def SpendProof.Input (nullifier : Bytes32) (slot : TreeSlot) : SpendProof → Prop
  | .transact inputs _ => ∃ i, inputs.nullifiers[i]? = some nullifier ∧
      inputs.treeSlots[inputFlagsTreeIndex inputs.inputFlags i]? = some slot
  | .merge inputs _ => nullifier ∈ inputs.nullifiers ∧ slot = inputs.treeSlot

def SpendProof.allowsDummyInputs : SpendProof → Bool
  | .transact inputs _ => inputFlagsAllowDummy inputs.inputFlags
  | .merge inputs _ => inputs.allowDummyInputs ≠ 0

def PoolEnv.Verifies (env : PoolEnv) : SpendProof → Prop
  | .transact inputs proof => env.verifyTransact inputs proof = .ok ()
  | .merge inputs proof => env.verifyMerge inputs proof = .ok ()

/-- A verified proof that covers a queued group. -/
structure Justifies (env : PoolEnv) (proof : SpendProof) (group : SpendGroup) : Prop where
  verifies : env.Verifies proof
  input : ∀ nullifier ∈ group.nullifiers, proof.Input nullifier group.slot
  allow : proof.allowsDummyInputs = true → group.allowDummyInputs = true

/-! ### What a trace queues and submits -/

def PoolEvent.queued (tree : Address) : PoolEvent → List Bytes32
  | .queue group => if group.tree = tree then group.nullifiers else []
  | .update _ _ | .close _ => []

def PoolEvent.submitted (tree : Address) : PoolEvent → List InstructionDataBatchNullifyInputs
  | .update address data => if address = tree then [data] else []
  | .queue _ | .close _ => []

/-- The values a trace queued in a tree, in order. -/
def queuedIn (tree : Address) (events : List PoolEvent) : List Bytes32 :=
  events.flatMap (PoolEvent.queued tree)

def submittedTo (tree : Address) (events : List PoolEvent) : List InstructionDataBatchNullifyInputs :=
  events.flatMap (PoolEvent.submitted tree)

end Zolana
