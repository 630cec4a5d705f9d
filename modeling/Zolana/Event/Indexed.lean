import Zolana.Pool.Ledger

/-!
# Events and the instructions that emitted them

`sdk-libs/event/src/indexed.rs` and Photon's `event_site.rs`: an event is an inner `EMIT_EVENT` instruction
of the pool program, and the indexers look for the instruction that invoked it. What
`reconstruct_general_event` makes of an event and its source is a parameter.
-/

namespace Zolana.Event

/-! ### Instruction tags -/

/-- `InstructionTag` of `program-libs/event`, with the value of each tag as its constructor's position. -/
inductive Tag where
  | createProtocolConfig | updateProtocolConfig | createTree | pauseTree | setTreeFees
  | claimTreeLamports | createAssetCounter | createSplInterface | createRingConfig | updateRingConfig
  | updateRingConfigOwner | setRingActivation | batchUpdateNullifierTree | closeNullifierPdas
  | emitEvent | deposit | transact | mergeTransact | ringDeposit | ringTransact | ringMergeTransact
  | ringAuthorityTransact | createCache | closeCache
  deriving DecidableEq, Repr

namespace Tag

def all : List Tag :=
  [createProtocolConfig, updateProtocolConfig, createTree, pauseTree, setTreeFees, claimTreeLamports,
    createAssetCounter, createSplInterface, createRingConfig, updateRingConfig, updateRingConfigOwner,
    setRingActivation, batchUpdateNullifierTree, closeNullifierPdas, emitEvent, deposit, transact,
    mergeTransact, ringDeposit, ringTransact, ringMergeTransact, ringAuthorityTransact, createCache,
    closeCache]

def tryFrom (byte : UInt8) : Option Tag := all[byte.toNat]?

def EMIT_EVENT : UInt8 := 14
def DEPOSIT : UInt8 := 15
def TRANSACT : UInt8 := 16
def MERGE_TRANSACT : UInt8 := 17
def RING_DEPOSIT : UInt8 := 18
def RING_TRANSACT : UInt8 := 19
def RING_MERGE_TRANSACT : UInt8 := 20
def RING_AUTHORITY_TRANSACT : UInt8 := 21

example : tryFrom EMIT_EVENT = some emitEvent ∧ tryFrom RING_AUTHORITY_TRANSACT = some ringAuthorityTransact ∧
    tryFrom 24 = none := by
  decide

end Tag

/-- The checks of `process_instruction` before it hands the payload to a processor. -/
def dispatchTag : List UInt8 → Except ProgramError Tag
  | [] => .error .invalidInstructionData
  | ixTag :: _ =>
    match Tag.tryFrom ixTag with
    | none => .error .invalidInstructionData
    | some ixTag => .ok ixTag

/-! ### Instruction groups -/

/-- One instruction of a confirmed transaction. -/
structure ParsedInstruction where
  programId : Address
  accounts : List Address
  data : List UInt8
  stackHeight : Nat
  deriving DecidableEq, Repr

/-- A top-level instruction with the inner instructions it caused, in execution order. -/
structure InstructionGroup where
  outer : ParsedInstruction
  inner : List ParsedInstruction
  deriving DecidableEq, Repr

def eventParent (group : InstructionGroup) (eventIndex : Nat) : Option ParsedInstruction := do
  let event ← group.inner[eventIndex]?
  let parentHeight ← if event.stackHeight = 0 then none else some (event.stackHeight - 1)
  let preceding := group.inner.take eventIndex
  (preceding.reverse.find? (·.stackHeight = parentHeight)).or
    (if group.outer.stackHeight = parentHeight then some group.outer else none)

def isEmitEvent (shieldedPoolProgramId : Address) (instruction : ParsedInstruction) : Bool :=
  instruction.programId = shieldedPoolProgramId ∧ instruction.data.head? = some Tag.EMIT_EVENT

/-- The inner instructions of all groups, each with its group and its index. -/
def enumerated (groups : List InstructionGroup) : List (InstructionGroup × ParsedInstruction × Nat) :=
  groups.flatMap fun group => group.inner.zipIdx.map fun entry => (group, entry)

/-! ### The events of `spr_event_parser` -/

def isGeneralEventSourceTag (tagByte : UInt8) : Bool :=
  tagByte = Tag.DEPOSIT ∨ tagByte = Tag.RING_DEPOSIT ∨ tagByte = Tag.TRANSACT ∨
    tagByte = Tag.RING_TRANSACT ∨ tagByte = Tag.RING_AUTHORITY_TRANSACT ∨
    tagByte = Tag.MERGE_TRANSACT ∨ tagByte = Tag.RING_MERGE_TRANSACT

def isEventSource (shieldedPoolProgramId : Address) (instruction : ParsedInstruction) : Bool :=
  instruction.programId = shieldedPoolProgramId ∧ instruction.data.head?.any isGeneralEventSourceTag

def eventSourceParent (shieldedPoolProgramId : Address) (group : InstructionGroup) (eventIndex : Nat) :
    Option ParsedInstruction := do
  let parent ← eventParent group eventIndex
  if isEventSource shieldedPoolProgramId parent then some parent else none

structure IndexedEvent (α : Type) where
  tag : UInt8
  payload : List UInt8
  decoded : α
  deriving DecidableEq, Repr

variable {α : Type} (reconstructGeneralEvent : ParsedInstruction → List UInt8 → α)

def indexedEvent (source : ParsedInstruction) (data : List UInt8) : IndexedEvent α where
  tag := Tag.EMIT_EVENT
  payload := data.drop 1
  decoded := reconstructGeneralEvent source data

/-- The body of the loops of `indexed_events_from_instruction_groups`. -/
def indexedEventAt (shieldedPoolProgramId : Address) (group : InstructionGroup)
    (instruction : ParsedInstruction) (index : Nat) : Option (IndexedEvent α) :=
  if isEmitEvent shieldedPoolProgramId instruction then
    (eventSourceParent shieldedPoolProgramId group index).map fun source =>
      indexedEvent reconstructGeneralEvent source instruction.data
  else none

def indexedEventsFromInstructionGroups (shieldedPoolProgramId : Address)
    (groups : List InstructionGroup) : List (IndexedEvent α) :=
  (enumerated groups).filterMap fun (group, instruction, index) =>
    indexedEventAt reconstructGeneralEvent shieldedPoolProgramId group instruction index

/-! ### The event sites of Photon -/

inductive IngesterError where
  | parserError (message : String)
  deriving DecidableEq, Repr

structure EventSite where
  sourceInstructionTag : UInt8
  ringConfig : Option Address
  payload : List UInt8
  source : ParsedInstruction
  deriving DecidableEq, Repr

def ringConfigIndex (sourceInstructionTag : UInt8) : Option Nat :=
  match Tag.tryFrom sourceInstructionTag with
  | some .ringTransact | some .ringAuthorityTransact => some 4
  | some .ringDeposit => some 2
  | some .ringMergeTransact => some 2
  | _ => none

def eventSite (sourceInstructionTag : UInt8) (parent instruction : ParsedInstruction) : EventSite where
  sourceInstructionTag
  ringConfig := (ringConfigIndex sourceInstructionTag).bind (parent.accounts[·]?)
  payload := instruction.data.drop 1
  source := parent

/-- The body of the loops of `find_event_sites`. -/
def eventSiteAt (ringsProgramId : Address) (isSourceTag : UInt8 → Bool) (group : InstructionGroup)
    (instruction : ParsedInstruction) (index : Nat) : Except IngesterError (Option EventSite) :=
  if ¬ isEmitEvent ringsProgramId instruction then .ok none
  else
    match eventParent group index with
    | none => .ok none
    | some parent =>
      if parent.programId ≠ ringsProgramId then .ok none
      else
        match parent.data.head? with
        | none => .error (.parserError "Rings event parent instruction is missing source tag")
        | some sourceInstructionTag =>
          if isSourceTag sourceInstructionTag then
            .ok (some (eventSite sourceInstructionTag parent instruction))
          else .ok none

def findEventSites (groups : List InstructionGroup) (ringsProgramId : Address)
    (isSourceTag : UInt8 → Bool) : Except IngesterError (List EventSite) :=
  (enumerated groups).filterMapM fun (group, instruction, index) =>
    eventSiteAt ringsProgramId isSourceTag group instruction index

end Zolana.Event
