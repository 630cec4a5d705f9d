import Zolana.Proof.Kinds

/-!
# The life of a tree account in creation

At every point of a run an account is absent, in creation or created. One in creation is all zeros but
for the record of the call that allocated it, so growing it keeps that shape, checking it compares with
that call, and clearing it leaves only zeros.
-/

namespace Zolana

open Fallible

variable {HEIGHT K : Nat} {system system' mid : System HEIGHT K}
variable {payer tree : Address} {record : List UInt8}

/-! ### The bytes -/

theorem CreateTreeData.length_of_tryFromSlice {bytes : List UInt8} {data : CreateTreeData}
    (h : tryFromSlice bytes = some data) : bytes.length = 46 := by
  simp only [tryFromSlice] at h
  split at h
  case isTrue hlength => exact hlength
  case isFalse => cases h

theorem length_pendingCreation (payer : Address) (data : List UInt8) :
    (pendingCreation payer data).length = 32 + data.length := by
  rw [pendingCreation, List.length_append, Bytes.length_toBE]

theorem pendingCreation_injective {payer payer' : Address} {data data' : List UInt8}
    (h : pendingCreation payer data = pendingCreation payer' data') : payer = payer' ∧ data = data' := by
  obtain ⟨hpayer, hdata⟩ := List.append_inj h (by rw [Bytes.length_toBE, Bytes.length_toBE])
  have hlt : ∀ address : Address, address.toNat < 256 ^ 32 := fun address => address.isLt
  exact ⟨BitVec.eq_of_toNat_eq (Bytes.toBE_injective (hlt payer) (hlt payer') hpayer), hdata⟩

/-- The account belongs to the program, and holds a record among zeros. -/
structure InCreation (record : List UInt8) (tree : Address) (system : System HEIGHT K) : Prop where
  kind : system.ledger.kinds tree = .program
  bytes : ∃ size, utxoTreeOffset + record.length ≤ size ∧
    system.creating tree = Bytes.overwrite utxoTreeOffset record (List.replicate size 0)

theorem Begins.inCreation {treeId : UInt16} (h : Begins payer tree record treeId system system') :
    InCreation record tree system' := by
  obtain ⟨amount, hmoved, _⟩ := h.ledger
  refine ⟨?_, _, h.fits, ?_⟩
  · rw [hmoved.kinds, Ledger.kinds, Ledger.setData_self]
    rfl
  · rw [h.creating, Function.update_self]

theorem InCreation.head (h : InCreation record tree system) {i : Nat} (hi : i < utxoTreeOffset) :
    (system.creating tree)[i]? = some 0 := by
  obtain ⟨size, hfits, hbytes⟩ := h.bytes
  have hlength : utxoTreeOffset + record.length ≤ (List.replicate size (0 : UInt8)).length := by
    rwa [List.length_replicate]
  have hhead := congrArg (·[i]?) (Bytes.take_overwrite hlength)
  simp only [List.getElem?_take, if_pos hi] at hhead
  rw [hbytes, hhead, List.getElem?_replicate, if_pos (by omega)]

theorem Continues.inCreation {recorded : List UInt8} (h : Continues tree record system system')
    (hbefore : InCreation recorded tree system) (hlength : record.length = recorded.length) :
    record = recorded ∧ InCreation recorded tree system' := by
  obtain ⟨size, hfits, hbytes⟩ := hbefore.bytes
  obtain ⟨more, hmore⟩ : ∃ more, system'.creating tree
      = system.creating tree ++ List.replicate more 0 := ⟨_, by rw [h.creating, Function.update_self]⟩
  have hgrown : system'.creating tree
      = Bytes.overwrite utxoTreeOffset recorded (List.replicate (size + more) 0) := by
    rw [hmore, hbytes, Bytes.overwrite_append (by rwa [List.length_replicate]),
      List.replicate_append_replicate]
  have hroom : utxoTreeOffset + recorded.length ≤ size + more := by omega
  have hrecord := h.record
  rw [hgrown, hlength, Bytes.slice_overwrite (by rwa [List.length_replicate])] at hrecord
  refine ⟨hrecord.symm, ?_, _, hroom, hgrown⟩
  rw [h.ledger]
  exact hbefore.kind

theorem Finishes.zeros {create : CreateEnv HEIGHT K} {data : CreateTreeData} {lamports : Nat}
    {bytes : List UInt8} {layout : TreeAccountLayout HEIGHT K} {funded : Ledger HEIGHT K}
    (h : Finishes create payer tree record data lamports system bytes layout funded system')
    (hbefore : InCreation record tree system) : bytes = List.replicate (treeAccountSize HEIGHT K) 0 := by
  obtain ⟨size, hfits, hbytes⟩ := hbefore.bytes
  have hcleared : bytes = List.replicate size 0 := by
    rw [h.cleared, hbytes, Bytes.overwrite_overwrite (by rwa [List.length_replicate])
      (List.length_replicate ..), Bytes.overwrite_replicate_zero hfits]
  have hsize := h.size
  rw [hcleared, List.length_replicate] at hsize
  rw [hcleared, hsize]

/-! ### The calls about one tree -/

def allocations (calls : List TreeCall) (address : Address) : List TreeCall :=
  calls.filter fun call => call.tree = address ∧ call.result.allocated.isSome

def initialisations (calls : List TreeCall) (address : Address) : List TreeCall :=
  calls.filter fun call => call.tree = address ∧ call.result.initialised.isSome

variable {calls : List TreeCall} {call : TreeCall} {address : Address}

theorem allocations_snoc : allocations (calls ++ [call]) address = allocations calls address
      ++ if call.tree = address ∧ call.result.allocated.isSome then [call] else [] := by
  simp only [allocations, List.filter_append, List.filter_cons, List.filter_nil, decide_eq_true_eq]

theorem initialisations_snoc : initialisations (calls ++ [call]) address = initialisations calls address
      ++ if call.tree = address ∧ call.result.initialised.isSome then [call] else [] := by
  simp only [initialisations, List.filter_append, List.filter_cons, List.filter_nil,
    decide_eq_true_eq]

/-- The first call of a tree, as the account records it. -/
structure Allocates (calls : List TreeCall) (address : Address) (first : TreeCall) : Prop where
  only : allocations calls address = [first]
  length : first.data.length = 46

inductive Phase (calls : List TreeCall) (system : System HEIGHT K) (address : Address) : Prop
  | absent (hkind : system.ledger.kinds address ≠ .tree) (hbytes : system.creating address = [])
      (hfirst : allocations calls address = []) (hlast : initialisations calls address = [])
  | pending (first : TreeCall) (hfirst : Allocates calls address first)
      (hcreation : InCreation (pendingCreation first.payer first.data) address system)
      (hlast : initialisations calls address = [])
  | created (first last : TreeCall) (hkind : system.ledger.kinds address = .tree)
      (hfirst : Allocates calls address first) (hlast : initialisations calls address = [last])

theorem Phase.congr {calls' : List TreeCall} (h : Phase calls system address)
    (hkind : system'.ledger.kinds address = system.ledger.kinds address)
    (hbytes : system'.creating address = system.creating address)
    (hallocations : allocations calls' address = allocations calls address)
    (hinitialisations : initialisations calls' address = initialisations calls address) :
    Phase calls' system' address := by
  cases h with
  | absent hnot hempty hfirst hlast =>
      exact .absent (hkind ▸ hnot) (hbytes.trans hempty) (hallocations.trans hfirst)
        (hinitialisations.trans hlast)
  | pending first hfirst hcreation hlast =>
      obtain ⟨size, hfits, hshape⟩ := hcreation.bytes
      exact .pending first ⟨hallocations.trans hfirst.only, hfirst.length⟩
        ⟨hkind.trans hcreation.kind, size, hfits, hbytes.trans hshape⟩ (hinitialisations.trans hlast)
  | created first last htree hfirst hlast =>
      exact .created first last (hkind.trans htree)
        ⟨hallocations.trans hfirst.only, hfirst.length⟩ (hinitialisations.trans hlast)

/-! ### One call -/

section Call

variable {create : CreateEnv HEIGHT K} {authority : Address} {ixData : List UInt8}
variable {result : CreateTreeResult}

theorem treeAccountSize_pos (HEIGHT K : Nat) : 0 < treeAccountSize HEIGHT K := by
  simp only [treeAccountSize, utxoTreeOffset]
  omega

theorem Allocates.mem {first : TreeCall} (h : Allocates calls address first) :
    first ∈ calls ∧ first.tree = address ∧ first.result.allocated.isSome := by
  have hmem : first ∈ allocations calls address := by
    rw [h.only]
    exact List.mem_singleton_self first
  obtain ⟨hcalls, hfirst⟩ := List.mem_filter.mp hmem
  exact ⟨hcalls, of_decide_eq_true hfirst⟩

theorem Phase.halfway {treeId : UInt16} (h : Phase calls system tree) (hlength : ixData.length = 46)
    (hhalf : (Begins payer tree (pendingCreation payer ixData) treeId system mid ∧
        result.allocated = some treeId) ∨
      (Continues tree (pendingCreation payer ixData) system mid ∧ result.allocated = none)) :
    InCreation (pendingCreation payer ixData) tree mid ∧ initialisations calls tree = [] ∧
      ∃ first, Allocates (calls ++ [⟨payer, tree, ixData, result⟩]) tree first ∧
        first.payer = payer ∧ first.data = ixData := by
  rcases hhalf with ⟨hbegins, hallocated⟩ | ⟨hcontinues, hallocated⟩
  · have hkind : system.ledger.kinds tree = .plain := by
      rw [Ledger.kinds, hbegins.unused]
      rfl
    cases h with
    | absent _ _ hfirst hlast =>
        refine ⟨hbegins.inCreation, hlast, ⟨payer, tree, ixData, result⟩, ⟨?_, hlength⟩, rfl, rfl⟩
        rw [allocations_snoc, hfirst, hallocated]
        simp
    | pending first _ hcreation _ =>
        have hprogram := hcreation.kind
        rw [hkind] at hprogram
        cases hprogram
    | created first last htree _ _ =>
        rw [hkind] at htree
        cases htree
  · have hkind : system.ledger.kinds tree = .program :=
      AccountData.kind_eq_program.mpr hcontinues.owned
    cases h with
    | absent _ hbytes _ _ =>
        -- an account of the program that no call allocated has no bytes to grow
        have hstarted := hcontinues.started
        rw [hbytes] at hstarted
        have hpos := treeAccountSize_pos HEIGHT K
        simp only [List.length_nil, List.getElem?_nil, reduceCtorEq, or_false] at hstarted
        omega
    | pending first hfirst hcreation hlast =>
        obtain ⟨hrecord, hmid⟩ := hcontinues.inCreation hcreation (by
          rw [length_pendingCreation, length_pendingCreation, hlength, hfirst.length])
        obtain ⟨rfl, rfl⟩ := pendingCreation_injective hrecord
        refine ⟨hmid, hlast, first, ⟨?_, hlength⟩, rfl, rfl⟩
        rw [allocations_snoc, hfirst.only, hallocated]
        simp
    | created first last htree _ _ =>
        rw [hkind] at htree
        cases htree

theorem Phase.after_call (h : Phase calls system tree)
    (hrun : (processCreateTree create payer authority tree ixData).run system = .ok result system') :
    Phase (calls ++ [⟨payer, tree, ixData, result⟩]) system' tree ∧
      ∀ bytes, result.initialised = some bytes →
        bytes = List.replicate (treeAccountSize HEIGHT K) 0 ∧
        ∃ first, Allocates (calls ++ [⟨payer, tree, ixData, result⟩]) tree first ∧
          first.payer = payer ∧ first.data = ixData := by
  obtain ⟨data, lamports, mid, hslice, _, _, hhalf, hfinish⟩ := run_processCreateTree_ok hrun
  obtain ⟨hcreation, hlast, first, hfirst, hpayer, hdata⟩ :=
    h.halfway (CreateTreeData.length_of_tryFromSlice hslice) hhalf
  rcases run_finishTree_ok hfinish with ⟨hnone, rfl, _⟩ | ⟨bytes, layout, funded, hsome, hfinishes⟩
  · refine ⟨.pending first hfirst ?_ ?_, ?_⟩
    · rwa [hpayer, hdata]
    · rw [initialisations_snoc, hlast, hnone]
      simp
    · intro bytes hbytes
      rw [hnone] at hbytes
      cases hbytes
  · refine ⟨.created first ⟨payer, tree, ixData, result⟩ ?_ hfirst ?_, ?_⟩
    · rw [hfinishes.result, Ledger.kinds, Ledger.setData_self]
      rfl
    · rw [initialisations_snoc, hlast, hsome]
      simp
    · intro bytes' hbytes
      obtain rfl := Option.some.inj (hsome.symm.trans hbytes)
      exact ⟨hfinishes.zeros hcreation, first, hfirst, hpayer, hdata⟩

theorem run_processCreateTree_others
    (hrun : (processCreateTree create payer authority tree ixData).run system = .ok result system')
    (hne : address ≠ tree) : system'.ledger.kinds address = system.ledger.kinds address ∧
      system'.creating address = system.creating address := by
  obtain ⟨data, lamports, mid, _, _, _, hhalf, hfinish⟩ := run_processCreateTree_ok hrun
  have hmid : mid.ledger.kinds address = system.ledger.kinds address ∧
      mid.creating address = system.creating address := by
    rcases hhalf with ⟨hbegins, _⟩ | ⟨hcontinues, _⟩
    · obtain ⟨amount, hmoved, _⟩ := hbegins.ledger
      refine ⟨?_, ?_⟩
      · rw [hmoved.kinds, Ledger.kinds, Ledger.setData_of_ne hne, Ledger.kinds]
      · rw [hbegins.creating, Function.update_of_ne hne]
    · refine ⟨?_, ?_⟩
      · rw [hcontinues.ledger]
      · rw [hcontinues.creating, Function.update_of_ne hne]
  rcases run_finishTree_ok hfinish with ⟨_, rfl, _⟩ | ⟨bytes, layout, funded, _, hfinishes⟩
  · exact hmid
  · obtain ⟨amount, hmoved, _⟩ := hfinishes.funds
    rw [hfinishes.result]
    refine ⟨?_, ?_⟩
    · rw [← hmid.1, ← hmoved.kinds]
      dsimp only
      rw [Ledger.kinds, Ledger.setData_of_ne hne, Ledger.kinds]
    · rw [← hmid.2]
      exact Function.update_of_ne hne _ _

theorem run_processCreateTree_ids
    (hrun : (processCreateTree create payer authority tree ixData).run system = .ok result system') :
    (result.allocated = some system.config.nextTreeId ∧
      create.treeAddress system.config.nextTreeId = some tree ∧
      system'.config.nextTreeId.toNat = system.config.nextTreeId.toNat + 1) ∨
    (result.allocated = none ∧ system'.config.nextTreeId = system.config.nextTreeId) := by
  obtain ⟨data, lamports, mid, _, haddress, _, hhalf, hfinish⟩ := run_processCreateTree_ok hrun
  have hconfig : system'.config = mid.config := by
    rcases run_finishTree_ok hfinish with ⟨_, rfl, _⟩ | ⟨bytes, layout, funded, _, hfinishes⟩
    · rfl
    · rw [hfinishes.result]
  rw [hconfig]
  rcases hhalf with ⟨hbegins, hallocated⟩ | ⟨hcontinues, hallocated⟩
  · obtain hnext := hbegins.next
    rw [hnext] at haddress hallocated
    refine .inl ⟨hallocated, haddress, ?_⟩
    have hroom := hbegins.room
    rw [hnext] at hroom
    rw [hbegins.config, hnext, UInt16.toNat_add]
    exact Nat.mod_eq_of_lt hroom
  · exact .inr ⟨hallocated, by rw [hcontinues.config]⟩

end Call

/-! ### Runs -/

/-- What tree creation looks at. -/
def System.creationView (system : System HEIGHT K) :
    (Address → AccountKind) × (Address → List UInt8) × UInt16 :=
  (system.ledger.kinds, system.creating, system.config.nextTreeId)

theorem keepsCreation_onLedger {α : Type} {act : PoolM HEIGHT K α} (h : Keeps Ledger.kinds act) :
    Keeps System.creationView (onLedger act) := by
  intro system a system' hrun
  obtain ⟨ledger, hact, rfl⟩ := run_onLedger_ok hrun
  rw [System.creationView, h hact, System.creationView]

variable {env : SystemEnv HEIGHT K}

/-- An instruction is a call of `create_tree`, or leaves alone what tree creation looks at. -/
theorem run_systemProcess_cases {instruction : SystemInstruction} {call : Option TreeCall}
    (h : (System.process env instruction).run system = .ok call system') :
    (call = none ∧ system'.creationView = system.creationView) ∨
    ∃ payer authority tree data result, call = some ⟨payer, tree, data, result⟩ ∧
      (processCreateTree env.create payer authority tree data).run system = .ok result system' := by
  cases instruction with
  | pool instruction =>
      obtain ⟨_, _, hrun, hpure⟩ := of_run_bind h
      cases hpure
      exact .inl ⟨rfl, keepsCreation_onLedger (keepsKinds_process instruction) hrun⟩
  | createTree payer authority tree data =>
      obtain ⟨result, _, hrun, hpure⟩ := of_run_bind h
      cases hpure
      exact .inr ⟨payer, authority, tree, data, result, rfl, hrun⟩
  | setTreeFees tree fees =>
      obtain ⟨_, _, hrun, hpure⟩ := of_run_bind h
      cases hpure
      exact .inl ⟨rfl, keepsCreation_onLedger keepsKinds_withTreeAllowPaused hrun⟩
  | claimTreeLamports tree recipient =>
      obtain ⟨_, _, hrun, hpure⟩ := of_run_bind h
      cases hpure
      exact .inl ⟨rfl, keepsCreation_onLedger (keepsKinds_processClaim _ tree recipient) hrun⟩
  | pauseTree tree paused =>
      obtain ⟨_, _, hrun, hpure⟩ := of_run_bind h
      cases hpure
      exact .inl ⟨rfl, keepsCreation_onLedger keepsKinds_withTreeAllowPaused hrun⟩
  | updateTreeCreation authority permissionless =>
      obtain ⟨_, _, hrun, hpure⟩ := of_run_bind h
      cases hpure
      cases hrun
      exact .inl ⟨rfl, rfl⟩
  | transfer sender receiver lamports =>
      obtain ⟨_, _, hrun, hpure⟩ := of_run_bind h
      cases hpure
      exact .inl ⟨rfl, keepsCreation_onLedger (lamportFree_kinds.transfer _ _ _) hrun⟩

/-- An initialising call: it starts from zeros, and repeats the call that allocated the tree. -/
structure Initialises (HEIGHT K : Nat) (before : List TreeCall) (call : TreeCall)
    (bytes : List UInt8) : Prop where
  zeros : bytes = List.replicate (treeAccountSize HEIGHT K) 0
  repeats : ∃ first ∈ before ++ [call], first.tree = call.tree ∧ first.result.allocated.isSome ∧
    first.payer = call.payer ∧ first.data = call.data

structure CreationInvariant (env : SystemEnv HEIGHT K) (run : SystemRun HEIGHT K) : Prop where
  ids : run.calls.filterMap (·.result.allocated)
    = (List.range run.system.config.nextTreeId.toNat).map UInt16.ofNat
  addresses : ∀ call ∈ run.calls, ∀ id, call.result.allocated = some id →
    env.treeAddress id = some call.tree
  phase : ∀ address, Phase run.calls run.system address
  initialised : ∀ before call after bytes, run.calls = before ++ call :: after →
    call.result.initialised = some bytes → Initialises HEIGHT K before call bytes

theorem CreationInvariant.genesis (h : system.Genesis) : CreationInvariant env ⟨system, []⟩ where
  ids := by
    rw [h.nextTreeId]
    rfl
  addresses := by
    intro call hmem
    cases hmem
  phase := by
    intro address
    refine .absent ?_ (h.creating address) rfl rfl
    intro hkind
    rw [Ledger.kinds_eq_tree, h.tree address] at hkind
    cases hkind
  initialised := by
    intro before call after bytes hsplit
    have hlength := congrArg List.length hsplit
    simp at hlength

section Step

variable {env : SystemEnv HEIGHT K} {calls : List TreeCall}

theorem CreationInvariant.of_view (h : CreationInvariant env ⟨system, calls⟩)
    (hview : system'.creationView = system.creationView) : CreationInvariant env ⟨system', calls⟩ := by
  simp only [System.creationView, Prod.mk.injEq] at hview
  obtain ⟨hkinds, hbytes, hnext⟩ := hview
  refine ⟨?_, h.addresses, ?_, h.initialised⟩
  · rw [hnext]
    exact h.ids
  · intro address
    exact (h.phase address).congr (congrFun hkinds address) (congrFun hbytes address) rfl rfl

theorem CreationInvariant.after_call {payer authority tree : Address} {data : List UInt8}
    {result : CreateTreeResult} (h : CreationInvariant env ⟨system, calls⟩)
    (hrun : (processCreateTree env.create payer authority tree data).run system
      = .ok result system') :
    CreationInvariant env ⟨system', calls ++ [⟨payer, tree, data, result⟩]⟩ := by
  obtain ⟨hphase, hinitialised⟩ := (h.phase tree).after_call hrun
  have hids := h.ids
  refine ⟨?_, ?_, ?_, ?_⟩
  · rw [List.filterMap_append, hids]
    rcases run_processCreateTree_ids hrun with ⟨hsome, _, hnext⟩ | ⟨hnone, hnext⟩
    · simp [hsome, hnext, List.range_succ]
    · simp [hnone, hnext]
  · intro call hmem id hid
    rcases List.mem_append.mp hmem with hbefore | hnew
    · exact h.addresses call hbefore id hid
    · obtain rfl := List.mem_singleton.mp hnew
      rcases run_processCreateTree_ids hrun with ⟨hsome, haddress, _⟩ | ⟨hnone, _⟩
      · obtain rfl := Option.some.inj (hsome.symm.trans hid)
        exact haddress
      · rw [hnone] at hid
        cases hid
  · intro address
    by_cases haddress : address = tree
    · subst haddress
      exact hphase
    · obtain ⟨hkind, hbytes⟩ := run_processCreateTree_others hrun haddress
      refine (h.phase address).congr hkind hbytes ?_ ?_
      · rw [allocations_snoc, if_neg fun hcall => haddress hcall.1.symm, List.append_nil]
      · rw [initialisations_snoc, if_neg fun hcall => haddress hcall.1.symm, List.append_nil]
  · intro before call after bytes hsplit hbytes
    rcases List.eq_nil_or_concat after with rfl | ⟨after, last, rfl⟩
    · obtain ⟨rfl, hcall⟩ := List.append_inj' hsplit rfl
      obtain rfl := List.singleton_inj.mp hcall
      obtain ⟨hzeros, first, hfirst, hpayer, hdata⟩ := hinitialised bytes hbytes
      obtain ⟨hmem, htree, hallocated⟩ := hfirst.mem
      exact ⟨hzeros, first, hmem, htree, hallocated, hpayer, hdata⟩
    · rw [List.concat_eq_append, ← List.cons_append, ← List.append_assoc] at hsplit
      exact h.initialised before call after bytes (List.append_inj' hsplit rfl).1 hbytes

end Step

theorem SystemReachable.creationInvariant {run : SystemRun HEIGHT K} (h : SystemReachable env run) :
    CreationInvariant env run := by
  induction h with
  | genesis hgenesis => exact .genesis hgenesis
  | @step run h instruction ih =>
      unfold SystemRun.step
      split
      case h_1 call system hrun =>
        rcases run_systemProcess_cases hrun with ⟨rfl, hview⟩ | ⟨_, _, _, _, _, rfl, hcreate⟩
        · rw [Option.toList_none, List.append_nil]
          exact ih.of_view hview
        · exact ih.after_call hcreate
      case h_2 => exact ih

end Zolana
