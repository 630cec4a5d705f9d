import Zolana.Event.Indexed
import Zolana.Lib.Calls

/-!
# Events belong to the instruction that invoked them

Whatever programs a transaction calls, the indexers find the direct caller of each inner instruction, so an
event is taken exactly where a pool instruction with a source tag invoked `EMIT_EVENT` itself.
-/

namespace Zolana.Event

/-- An instruction as it is invoked, without its place in the call tree. -/
structure Invoked where
  programId : Address
  accounts : List Address
  data : List UInt8

def Invoked.placed (height : Nat) (instruction : Invoked) : ParsedInstruction :=
  ⟨instruction.programId, instruction.accounts, instruction.data, height⟩

/-- What one outer instruction at a stack height executes. -/
structure CallTree where
  outer : Invoked
  height : Nat
  calls : Calls Invoked

namespace CallTree

/-- The group a validator reports: the calls in execution order, each with its stack height. -/
def group (tree : CallTree) : InstructionGroup :=
  ⟨tree.outer.placed tree.height, tree.calls.log Invoked.placed tree.height⟩

def invocations (tree : CallTree) : List (Invocation Invoked) :=
  tree.calls.invocations tree.outer tree.height

/-- Every pool instruction that got to invoke another one passed the checks of `process_instruction`. -/
def Executed (pool : Address) (tree : CallTree) : Prop :=
  ∀ call ∈ tree.invocations, call.caller.programId = pool →
    ∃ tag, dispatchTag call.caller.data = .ok tag

end CallTree

/-- The instruction that made a call, as the indexers see it. -/
def source (call : Invocation Invoked) : ParsedInstruction := call.caller.placed call.depth

/-- The instruction that was called, as the indexers see it. -/
def target (call : Invocation Invoked) : ParsedInstruction := call.callee.placed (call.depth + 1)

/-- An `EMIT_EVENT` of the pool that a pool instruction with an accepted tag invoked. -/
def isGenuine (pool : Address) (isSourceTag : UInt8 → Bool) (call : Invocation Invoked) : Bool :=
  isEmitEvent pool (target call) ∧ call.caller.programId = pool ∧ call.caller.data.head?.any isSourceTag

/-! ### Parents -/

theorem eventParent_eq (group : InstructionGroup) (i : Nat) :
    eventParent group i = group.inner[i]?.bind fun event =>
      if event.stackHeight = 0 then none
      else Calls.nearest ParsedInstruction.stackHeight (event.stackHeight - 1)
        ([group.outer] ++ group.inner.take i) := by
  unfold eventParent Calls.nearest
  cases group.inner[i]? with
  | none => rfl
  | some event =>
      by_cases hzero : event.stackHeight = 0
      · simp [hzero]
      · simp only [Option.bind_eq_bind, Option.bind_some, if_neg hzero, List.reverse_append,
          List.find?_append, List.reverse_singleton, List.find?_singleton, decide_eq_true_eq]

theorem stackHeight_placed (height : Nat) (instruction : Invoked) :
    (instruction.placed height).stackHeight = height := rfl

theorem eventParent_group (tree : CallTree) (i : Nat) :
    eventParent tree.group i = tree.invocations[i]?.map source := by
  have houter : Calls.nearest ParsedInstruction.stackHeight tree.height
      [tree.outer.placed tree.height] = some (tree.outer.placed tree.height) := by
    simp [Calls.nearest, Invoked.placed]
  rw [eventParent_eq]
  refine Eq.trans ?_ (Calls.nearest_log stackHeight_placed tree.calls houter i)
  refine Option.bind_congr fun event hevent => ?_
  have hheight : tree.height < event.stackHeight :=
    Calls.lt_height_of_mem_log stackHeight_placed (List.mem_of_getElem? hevent)
  rw [if_neg (by omega)]
  rfl

/-- What the loops read of an instruction: the instruction and its parent. -/
def resolved (entry : InstructionGroup × ParsedInstruction × Nat) :
    ParsedInstruction × Option ParsedInstruction :=
  (entry.2.1, eventParent entry.1 entry.2.2)

theorem map_resolved_enumerated (trees : List CallTree) : (enumerated (trees.map CallTree.group)).map resolved =
      (trees.flatMap CallTree.invocations).map fun call => (target call, some (source call)) := by
  have htree : ∀ tree : CallTree, (tree.group.inner.zipIdx.map fun entry => resolved (tree.group, entry)) =
        tree.invocations.map fun call => (target call, some (source call)) := by
    intro tree
    apply List.ext_getElem?
    intro i
    have hinner : tree.group.inner[i]? = tree.invocations[i]?.map target :=
      Calls.getElem?_log tree.outer tree.height tree.calls i
    rw [List.getElem?_map, List.getElem?_zipIdx, List.getElem?_map, hinner]
    cases hcall : tree.invocations[i]? with
    | none => rfl
    | some call => simp [resolved, eventParent_group, hcall]
  induction trees with
  | nil => rfl
  | cons tree trees ih =>
      rw [enumerated] at ih ⊢
      rw [List.map_cons, List.flatMap_cons, List.map_append, ih, List.map_map, List.flatMap_cons,
        List.map_append]
      exact congrArg (· ++ _) (htree tree)

/-! ### Events -/

variable {α : Type} {reconstructGeneralEvent : ParsedInstruction → List UInt8 → α} {pool : Address}

variable {isSourceTag : UInt8 → Bool}

theorem isGenuine_iff {call : Invocation Invoked} : isGenuine pool isSourceTag call = true ↔
      isEmitEvent pool (target call) = true ∧ call.caller.programId = pool ∧
        ∃ tag, call.caller.data.head? = some tag ∧ isSourceTag tag = true := by
  rw [isGenuine, decide_eq_true_eq, Option.any_eq_true]

/-- The event of a call, if it is genuine. -/
def indexedFrom (reconstructGeneralEvent : ParsedInstruction → List UInt8 → α) (pool : Address)
    (call : Invocation Invoked) : Option (IndexedEvent α) :=
  if isGenuine pool isGeneralEventSourceTag call then
    some (indexedEvent reconstructGeneralEvent (source call) call.callee.data)
  else none

/-- The account a ring instruction names its config with. -/
def ringConfigOf (tag : UInt8) (accounts : List Address) : Option Address :=
  if tag = Tag.RING_TRANSACT ∨ tag = Tag.RING_AUTHORITY_TRANSACT then accounts[4]?
  else if tag = Tag.RING_DEPOSIT ∨ tag = Tag.RING_MERGE_TRANSACT then accounts[2]?
  else none

/-- The site of a call, if it is genuine: who called it, and the event after its tag. -/
def siteFrom (pool : Address) (isSourceTag : UInt8 → Bool) (call : Invocation Invoked) : Option EventSite :=
  if isGenuine pool isSourceTag call then
    call.caller.data.head?.map fun tag =>
      ⟨tag, ringConfigOf tag call.caller.accounts, call.callee.data.tail, source call⟩
  else none

/-- `enumerated` visits the calls of the trees, so a loop over it is a loop over the calls. -/
theorem filterMap_enumerated {γ : Type} (trees : List CallTree)
    (body : ParsedInstruction → Option ParsedInstruction → Option γ) :
    ((enumerated (trees.map CallTree.group)).filterMap fun entry =>
        body entry.2.1 (eventParent entry.1 entry.2.2)) =
      (trees.flatMap CallTree.invocations).filterMap fun call => body (target call) (some (source call)) := by
  have hresolved := congrArg (List.filterMap fun entry => body entry.1 entry.2)
    (map_resolved_enumerated trees)
  rwa [List.filterMap_map, List.filterMap_map] at hresolved

theorem exists_call_of_mem_enumerated {trees : List CallTree}
    {entry : InstructionGroup × ParsedInstruction × Nat}
    (hentry : entry ∈ enumerated (trees.map CallTree.group)) :
    ∃ tree ∈ trees, ∃ call ∈ tree.invocations, eventParent entry.1 entry.2.2 = some (source call) := by
  have hmem : resolved entry ∈ (enumerated (trees.map CallTree.group)).map resolved :=
    List.mem_map_of_mem hentry
  rw [map_resolved_enumerated, List.mem_map] at hmem
  obtain ⟨call, hcall, hresolved⟩ := hmem
  obtain ⟨tree, htree, hcall⟩ := List.mem_flatMap.mp hcall
  exact ⟨tree, htree, call, hcall, (congrArg Prod.snd hresolved).symm⟩

theorem indexedEventsFromInstructionGroups_eq (trees : List CallTree) :
    indexedEventsFromInstructionGroups reconstructGeneralEvent pool (trees.map CallTree.group) =
      (trees.flatMap CallTree.invocations).filterMap (indexedFrom reconstructGeneralEvent pool) := by
  refine (filterMap_enumerated trees fun instruction parent =>
    if isEmitEvent pool instruction then
      (parent.bind fun parent => if isEventSource pool parent then some parent else none).map
        fun source => indexedEvent reconstructGeneralEvent source instruction.data
    else none).trans (List.filterMap_congr fun call _ => ?_)
  unfold indexedFrom
  by_cases hemit : isEmitEvent pool (target call) = true
  · have hsource : isEventSource pool (source call) = isGenuine pool isGeneralEventSourceTag call := by
      rw [isGenuine, hemit, isEventSource]
      exact decide_eq_decide.mpr ⟨fun h => ⟨rfl, h⟩, fun h => h.2⟩
    rw [if_pos hemit, Option.bind_some, hsource]
    split
    · rfl
    · rfl
  · rw [if_neg hemit, if_neg fun hgenuine => hemit (isGenuine_iff.mp hgenuine).1]

/-- The site `find_event_sites` collects for an instruction with a given parent. -/
def acceptedSite (pool : Address) (isSourceTag : UInt8 → Bool) (instruction : ParsedInstruction)
    (parent : Option ParsedInstruction) : Option EventSite := do
  let parent ← parent
  let tag ← parent.data.head?
  if isEmitEvent pool instruction ∧ parent.programId = pool ∧ isSourceTag tag then
    some (eventSite tag parent instruction)
  else none

theorem eventSiteAt_eq_ok {group : InstructionGroup} {instruction : ParsedInstruction} {index : Nat}
    {site : Option EventSite} (h : eventSiteAt pool isSourceTag group instruction index = .ok site) :
    site = acceptedSite pool isSourceTag instruction (eventParent group index) := by
  unfold eventSiteAt at h
  unfold acceptedSite
  cases hparent : eventParent group index with
  | none =>
      rw [hparent] at h
      split at h <;> exact (Except.ok.inj h).symm
  | some parent =>
      rw [hparent] at h
      cases htag : parent.data.head? with
      | none =>
          simp only [htag] at h
          split at h
          · simpa [htag] using h.symm
          · split at h
            · simpa [htag] using h.symm
            · cases h
      | some tag =>
          simp only [htag] at h
          split at h
          case isTrue hemit => simpa [htag, hemit] using h.symm
          case isFalse hemit =>
          split at h
          case isTrue hprogram => simpa [htag, hprogram] using h.symm
          case isFalse hprogram =>
          push Not at hemit hprogram
          split at h
          case isTrue hsource => simpa [htag, hemit, hprogram, hsource] using h.symm
          case isFalse hsource => simpa [htag, hsource] using h.symm

theorem eventSite_call (tag : UInt8) (call : Invocation Invoked) : eventSite tag (source call) (target call) =
    ⟨tag, ringConfigOf tag call.caller.accounts, call.callee.data.tail, source call⟩ := by
  have hindex : ∀ byte : BitVec 8, ringConfigIndex ⟨byte⟩ =
      if UInt8.ofBitVec byte = Tag.RING_TRANSACT ∨ UInt8.ofBitVec byte = Tag.RING_AUTHORITY_TRANSACT then some 4
      else if UInt8.ofBitVec byte = Tag.RING_DEPOSIT ∨ UInt8.ofBitVec byte = Tag.RING_MERGE_TRANSACT then some 2
      else none := by
    decide +kernel
  have htag : ringConfigIndex tag = _ := hindex tag.toBitVec
  rw [eventSite, htag, ringConfigOf, List.drop_one]
  congr 1
  split
  · rfl
  · split <;> rfl

theorem acceptedSite_target (isSourceTag : UInt8 → Bool) (call : Invocation Invoked) :
    acceptedSite pool isSourceTag (target call) (some (source call)) = siteFrom pool isSourceTag call := by
  unfold acceptedSite siteFrom isGenuine
  simp only [← eventSite_call]
  cases htag : call.caller.data.head? with
  | none => simp [source, Invoked.placed, htag]
  | some tag =>
      simp [source, Invoked.placed, htag]

/-- A pool instruction that was dispatched has a tag, so its events do not make `find_event_sites` fail. -/
theorem eventSiteAt_of_dispatched {group : InstructionGroup}
    {instruction parent : ParsedInstruction} {index : Nat} (hparent : eventParent group index = some parent)
    (hdispatched : parent.programId = pool → ∃ tag, dispatchTag parent.data = .ok tag) :
    ∃ site, eventSiteAt pool isSourceTag group instruction index = .ok site := by
  unfold eventSiteAt
  rw [hparent]
  split
  · exact ⟨_, rfl⟩
  · dsimp only
    split
    case isTrue => exact ⟨_, rfl⟩
    case isFalse hprogram =>
      push Not at hprogram
      obtain ⟨tag, htag⟩ := hdispatched hprogram
      cases hdata : parent.data with
      | nil =>
          rw [hdata] at htag
          cases htag
      | cons byte rest =>
          dsimp only [List.head?_cons]
          split
          · exact ⟨_, rfl⟩
          · exact ⟨_, rfl⟩

theorem findEventSites_eq_ok_iff {groups : List InstructionGroup} {sites : List EventSite} :
    findEventSites groups pool isSourceTag = .ok sites ↔
      (∀ entry ∈ enumerated groups,
        ∃ site, eventSiteAt pool isSourceTag entry.1 entry.2.1 entry.2.2 = .ok site) ∧
      sites = (enumerated groups).filterMap fun entry =>
        acceptedSite pool isSourceTag entry.2.1 (eventParent entry.1 entry.2.2) := by
  have hbody : ∀ (entry : InstructionGroup × ParsedInstruction × Nat) (site : Option EventSite),
      eventSiteAt pool isSourceTag entry.1 entry.2.1 entry.2.2 = .ok site →
        site = acceptedSite pool isSourceTag entry.2.1 (eventParent entry.1 entry.2.2) :=
    fun _ _ => eventSiteAt_eq_ok
  refine (Fallible.filterMapM_eq_ok_iff hbody).trans (and_congr_left fun _ => ?_)
  refine forall₂_congr fun entry _ => ⟨fun h => ⟨_, h⟩, fun ⟨site, hsite⟩ => ?_⟩
  rw [← hbody entry site hsite]
  exact hsite

end Zolana.Event

namespace Zolana

open Event

/-- The parent found for an inner instruction is the instruction that invoked it. Both indexers return an
event exactly for the `EMIT_EVENT` instructions of the pool that a pool instruction with an accepted tag
invoked, in execution order. Photon refuses no transaction whose pool instructions were dispatched. -/
theorem event_attribution {α : Type} (reconstructGeneralEvent : ParsedInstruction → List UInt8 → α)
    (pool : Address) (trees : List CallTree) :
    (∀ tree ∈ trees, ∀ i, tree.group.inner[i]? = tree.invocations[i]?.map target ∧
      eventParent tree.group i = tree.invocations[i]?.map source) ∧
    indexedEventsFromInstructionGroups reconstructGeneralEvent pool (trees.map CallTree.group) =
      (trees.flatMap CallTree.invocations).filterMap (indexedFrom reconstructGeneralEvent pool) ∧
    ∀ isSourceTag : UInt8 → Bool,
      (∀ sites, findEventSites (trees.map CallTree.group) pool isSourceTag = .ok sites →
        sites = (trees.flatMap CallTree.invocations).filterMap (siteFrom pool isSourceTag)) ∧
      ((∀ tree ∈ trees, tree.Executed pool) →
        findEventSites (trees.map CallTree.group) pool isSourceTag =
          .ok ((trees.flatMap CallTree.invocations).filterMap (siteFrom pool isSourceTag))) := by
  have hsites : ∀ isSourceTag, ((enumerated (trees.map CallTree.group)).filterMap fun entry =>
      acceptedSite pool isSourceTag entry.2.1 (eventParent entry.1 entry.2.2)) =
        (trees.flatMap CallTree.invocations).filterMap (siteFrom pool isSourceTag) := by
    intro isSourceTag
    rw [filterMap_enumerated trees (acceptedSite pool isSourceTag)]
    exact List.filterMap_congr fun call _ => acceptedSite_target isSourceTag call
  refine ⟨fun tree _ i => ⟨?_, eventParent_group tree i⟩,
    indexedEventsFromInstructionGroups_eq trees, fun isSourceTag => ⟨fun sites h => ?_, fun h => ?_⟩⟩
  · exact Calls.getElem?_log tree.outer tree.height tree.calls i
  · rw [(findEventSites_eq_ok_iff.mp h).2, hsites]
  · refine findEventSites_eq_ok_iff.mpr ⟨?_, (hsites isSourceTag).symm⟩
    intro entry hentry
    obtain ⟨tree, htree, call, hcall, hparent⟩ := exists_call_of_mem_enumerated hentry
    exact eventSiteAt_of_dispatched hparent (h tree htree call hcall)

/-- A foreign program calls the pool's ring transact, which pays and emits, then forges an event directly and
through another program. -/
def forgingTree : CallTree where
  outer := ⟨9, [], [0]⟩
  height := 1
  calls :=
    .call ⟨1, [5, 6, 7, 8, 4], [Tag.RING_TRANSACT, 7]⟩
      (.call ⟨0, [5], [2]⟩ .done (.call ⟨1, [], [Tag.EMIT_EVENT, 1, 2]⟩ .done .done))
      (.call ⟨1, [], [Tag.EMIT_EVENT, 1, 3]⟩ .done
        (.call ⟨8, [], []⟩ (.call ⟨1, [], [Tag.EMIT_EVENT, 1, 4]⟩ .done .done) .done))

theorem executed_forgingTree : forgingTree.Executed 1 := by
  have hdispatched : forgingTree.invocations.all (fun call =>
      decide (call.caller.programId = 1 → dispatchTag call.caller.data = .ok .ringTransact)) = true := by
    decide +kernel
  intro call hcall hprogram
  exact ⟨.ringTransact, of_decide_eq_true (List.all_eq_true.mp hdispatched call hcall) hprogram⟩

theorem event_attribution_forgingTree : (∀ tree ∈ [forgingTree], tree.Executed 1) ∧
    findEventSites ([forgingTree].map CallTree.group) 1 (· = Tag.RING_TRANSACT) =
      .ok [⟨Tag.RING_TRANSACT, some 4, [1, 2], ⟨1, [5, 6, 7, 8, 4], [Tag.RING_TRANSACT, 7], 2⟩⟩] := by
  have hexecuted : ∀ tree ∈ [forgingTree], tree.Executed 1 :=
    List.forall_mem_singleton.mpr executed_forgingTree
  refine ⟨hexecuted, ?_⟩
  rw [((event_attribution (fun _ _ => ()) 1 [forgingTree]).2.2 _).2 hexecuted]
  decide +kernel

end Zolana
