import Zolana.Forester.ReferenceCache
import Zolana.Properties.Forester

/-!
# The tree carried between passes

A cache carries the tree of a prefix of the queue, as long as no call fails while the counter stands above zero: such a
call drops the tree and keeps the counter, and what is appended later starts a tree in the middle of the queue.
-/

namespace Zolana.Forester

open Fallible

/-- Values that a tree can take: new nonzero field elements that fit. -/
structure IndexedMerkleTree.Accepts (tree : IndexedMerkleTree) (values : List Bytes32) : Prop where
  nodup : values.Nodup
  new : ∀ value ∈ values, 0 < value.toNat ∧ value.toNat < fieldModulus ∧
    value.toNat ∉ tree.indexedArray.elements.map IndexedElement.value
  fits : tree.merkleTree.rightmostIndex + values.length ≤ tree.merkleTree.capacity

namespace ReferenceCache

/-- A call of `advance_to` that starts over, or that extends the tree by values it can take. -/
def Extends (cache : ReferenceCache) (applied : Nat) (values : List Bytes32) : Prop :=
  cache.appended = 0 ∨ applied < cache.appended ∨
    (cache.appended ≤ values.length ∧ ∃ tree, cache.tree = some tree ∧ tree.Accepts (values.drop cache.appended))

/-- The caches that calls lead to. A call that fails may be given any list. -/
inductive Calls (hashv : Hashv) (queue : List Bytes32) (height : UInt32) : ReferenceCache → Prop
  | start : Calls hashv queue height .new
  | advanceTo {cache cache' : ReferenceCache} {applied : Nat} : Calls hashv queue height cache →
      applied ≤ queue.length → (advanceTo hashv applied (queue.take applied) height).run cache = .ok () cache' →
      Calls hashv queue height cache'
  | failed {cache cache' : ReferenceCache} {applied : Nat} {values : List Bytes32} {error : ReferenceCacheError} :
      Calls hashv queue height cache → cache.Extends applied values →
      (advanceTo hashv applied values height).run cache = .error error cache' → Calls hashv queue height cache'
  | appendNext {cache cache' : ReferenceCache} {values : List Bytes32} : Calls hashv queue height cache →
      values <+: queue.drop cache.appended → (appendNext hashv values).run cache = .ok () cache' →
      Calls hashv queue height (cache'.advancedBy values.length)
  | invalidate {cache : ReferenceCache} : Calls hashv queue height cache → Calls hashv queue height cache.invalidate

/-- A cache with the tree of the values it counts. -/
inductive Carries (hashv : Hashv) (queue : List Bytes32) (height : UInt32) : ReferenceCache → Prop
  | new : Carries hashv queue height .new
  | tree {start tree : IndexedMerkleTree} {pairs : List (Nat × Nat)} {appended : Nat} : appended ≤ queue.length →
      referenceNullifierTree hashv height = .ok start →
      Grows hashv ((queue.take appended).map BitVec.toNat) start [(0, nullifierInitNextValue)] tree pairs →
      Carries hashv queue height ⟨some tree, appended⟩

variable {hashv : Hashv} {queue values : List Bytes32} {height : UInt32} {cache cache' : ReferenceCache} {applied : Nat}

theorem rewound_of_lt (h : applied < cache.appended) : cache.rewound applied = .new := if_pos h

theorem rewound_of_le (h : cache.appended ≤ applied) : cache.rewound applied = cache := if_neg (not_lt.mpr h)

theorem run_advanceTo (hashv : Hashv) (applied : Nat) (values : List Bytes32) (height : UInt32)
    (cache : ReferenceCache) : (advanceTo hashv applied values height).run cache =
      match (cache.rewound applied).replay hashv values height with
      | .ok tree => .ok () ⟨some tree, applied⟩
      | .error error => .error error ⟨none, (cache.rewound applied).appended⟩ := by
  rw [advanceTo]
  simp only [EStateM.run_bind, EStateM.run_modify, EStateM.run_get, EStateM.run_set]
  cases (cache.rewound applied).replay hashv values height <;> rfl

theorem replay_eq_ok_iff {tree' : IndexedMerkleTree} : cache.replay hashv values height = .ok tree' ↔
      ∃ tree, cache.tree.elim (referenceNullifierTree hashv height) .ok = .ok tree ∧
        cache.appended ≤ values.length ∧
        (appendValues hashv ((values.drop cache.appended).map BitVec.toNat)).run tree = .ok () tree' := by
  simp only [replay, bind_eq_ok_iff, mapError_eq_ok]
  refine exists_congr fun tree => and_congr_right fun _ => ?_
  by_cases hlength : values.length < cache.appended
  · simp [hlength]
  · rw [if_neg hlength]
    cases (appendValues hashv ((values.drop cache.appended).map BitVec.toNat)).run tree <;> simp [not_lt.mp hlength]

theorem of_run_advanceTo (h : (advanceTo hashv applied values height).run cache = .ok () cache') :
    ∃ tree, (cache.rewound applied).replay hashv values height = .ok tree ∧ cache' = ⟨some tree, applied⟩ := by
  rw [run_advanceTo] at h
  split at h
  case h_1 tree htree =>
    cases h
    exact ⟨tree, htree, rfl⟩
  case h_2 => cases h

theorem Carries.rewound (h : Carries hashv queue height cache) (applied : Nat) :
    Carries hashv queue height (cache.rewound applied) ∧ (cache.rewound applied).appended ≤ applied := by
  obtain hlt | hle := lt_or_ge applied cache.appended
  · rw [rewound_of_lt hlt]
    exact ⟨.new, Nat.zero_le applied⟩
  · rw [rewound_of_le hle]
    exact ⟨h, hle⟩

section Total

variable (hHashv : hashv.Total) (hZero : hashv.DerivesZeroBytes) (hfields : HashesFieldElements hashv)

include hHashv hZero

theorem Carries.grows (h : Carries hashv queue height cache) {tree : IndexedMerkleTree}
    (htree : cache.tree.elim (referenceNullifierTree hashv height) .ok = .ok tree) :
    cache.appended ≤ queue.length ∧ ∃ start pairs, referenceNullifierTree hashv height = .ok start ∧
      Grows hashv ((queue.take cache.appended).map BitVec.toNat) start [(0, nullifierInitNextValue)] tree pairs := by
  cases h with
  | new =>
      obtain ⟨-, htracks⟩ := IndexedMerkleTree.tracks_start hHashv hZero htree
      exact ⟨Nat.zero_le _, tree, _, htree, .refl htracks⟩
  | tree hbound hstart hgrows =>
      obtain rfl := Except.ok.inj htree
      exact ⟨hbound, _, _, hstart, hgrows⟩

theorem Carries.replay_of_accepts (h : Carries hashv queue height cache) (hlength : cache.appended ≤ values.length)
    {tree : IndexedMerkleTree} (hcache : cache.tree = some tree)
    (haccepts : tree.Accepts (values.drop cache.appended)) : ∃ tree', cache.replay hashv values height = .ok tree' := by
  have htree : cache.tree.elim (referenceNullifierTree hashv height) .ok = .ok tree := by
    rw [hcache]
    rfl
  obtain ⟨-, _, pairs, -, hgrows⟩ := h.grows hHashv hZero htree
  have htracks := hgrows.tracks
  have hfits := haccepts.fits
  rw [htracks.rightmostIndex, htracks.holds.capacity] at hfits
  obtain ⟨tree', pairs', hgrows'⟩ := Grows.exists_of_new hHashv hZero htracks
    (haccepts.nodup.map fun _ _ => BitVec.eq_of_toNat_eq)
    (List.forall_mem_map.mpr fun value hmem => htracks.linked.map_value ▸ haccepts.new value hmem)
    (by rwa [List.length_map])
  exact ⟨tree', replay_eq_ok_iff.mpr ⟨tree, htree, hlength, hgrows'.append⟩⟩

include hfields

/-- What is appended behind the values a cache counts. -/
theorem Carries.extend (h : Carries hashv queue height cache) {tree tree' : IndexedMerkleTree}
    (htree : cache.tree.elim (referenceNullifierTree hashv height) .ok = .ok tree)
    (hvalues : values <+: queue.drop cache.appended)
    (hrun : (appendValues hashv (values.map BitVec.toNat)).run tree = .ok () tree') :
    Carries hashv queue height ⟨some tree', cache.appended + values.length⟩ ∧
      cache.appended + values.length < 2 ^ 64 := by
  obtain ⟨hbound, start, pairs, hstart, hgrows⟩ := h.grows hHashv hZero htree
  obtain ⟨pairs', hgrows'⟩ := Grows.of_run hHashv hZero hfields hgrows.tracks hrun
  have hlength := hvalues.length_le
  rw [List.length_drop] at hlength
  have htake : queue.take (cache.appended + values.length) = queue.take cache.appended ++ values := by
    rw [List.take_add, ← List.prefix_iff_eq_take.mp hvalues]
  have hall := hgrows.trans hgrows'
  rw [← List.map_append, ← htake] at hall
  have hsize := hall.tracks.length_lt
  rw [hall.length_eq, List.length_map, List.length_take_of_le (by omega)] at hsize
  exact ⟨.tree (by omega) hstart hall, by omega⟩

theorem Carries.advanceTo (h : Carries hashv queue height cache) (happlied : applied ≤ queue.length)
    (hrun : (advanceTo hashv applied (queue.take applied) height).run cache = .ok () cache') :
    Carries hashv queue height cache' := by
  obtain ⟨hrewound, hle⟩ := h.rewound applied
  obtain ⟨_, hreplay, rfl⟩ := of_run_advanceTo hrun
  obtain ⟨tree, htree, -, happend⟩ := replay_eq_ok_iff.mp hreplay
  have hrest : (queue.take applied).drop (cache.rewound applied).appended <+:
      queue.drop (cache.rewound applied).appended := by
    rw [List.drop_take]
    exact List.take_prefix ..
  obtain ⟨hcarries, -⟩ := hrewound.extend hHashv hZero hfields htree hrest happend
  rwa [List.length_drop, List.length_take_of_le happlied, Nat.add_sub_cancel' hle] at hcarries

theorem Calls.carries (h : Calls hashv queue height cache) : Carries hashv queue height cache := by
  induction h with
  | start => exact .new
  | advanceTo _ happlied hrun ih => exact ih.advanceTo hHashv hZero hfields happlied hrun
  | @failed cache cache' applied values error _ hextends hrun ih =>
      rw [run_advanceTo] at hrun
      split at hrun
      case h_1 => cases hrun
      case h_2 hreplay =>
        cases hrun
        suffices hzero : (cache.rewound applied).appended = 0 by
          rw [hzero]
          exact .new
        obtain hlt | hle := lt_or_ge applied cache.appended
        · rw [rewound_of_lt hlt]
          rfl
        · rw [rewound_of_le hle] at hreplay ⊢
          obtain hzero | hlt | ⟨hlength, tree, hcache, haccepts⟩ := hextends
          · exact hzero
          · exact absurd hlt (not_lt.mpr hle)
          · obtain ⟨_, hok⟩ := ih.replay_of_accepts hHashv hZero hlength hcache haccepts
            rw [hok] at hreplay
            cases hreplay
  | appendNext _ hvalues hrun ih =>
      obtain ⟨tree, _, htree, hwithin, rfl⟩ := run_zoom_eq_ok_iff.mp hrun
      obtain ⟨tree', happend, rfl⟩ := run_within_eq_ok_iff.mp hwithin
      obtain ⟨hcarries, hlt⟩ := ih.extend hHashv hZero hfields (by rw [htree]; rfl) hvalues happend
      have hsum := min_eq_left (Nat.le_sub_one_of_lt hlt)
      rw [← hsum] at hcarries
      exact hcarries
  | invalidate => exact .new

end Total

/-- After any calls none of which fails while there is a tree to lose, an `advance_to` over a prefix of the queue that
returns leaves the root of a fresh tree with these values. -/
theorem carried_root_is_the_fresh_one (hHashv : hashv.Total) (hZero : hashv.DerivesZeroBytes)
    (hfields : HashesFieldElements hashv) (hcalls : Calls hashv queue height cache) (happlied : applied ≤ queue.length)
    (hrun : (advanceTo hashv applied (queue.take applied) height).run cache = .ok () cache') :
    ∃ start tree root, referenceNullifierTree hashv height = .ok start ∧
      (appendValues hashv ((queue.take applied).map BitVec.toNat)).run start = .ok () tree ∧
      tree.root = .ok root ∧ cache'.root = .ok root := by
  have hcarries := (hcalls.carries hHashv hZero hfields).advanceTo hHashv hZero hfields happlied hrun
  obtain ⟨tree, -, rfl⟩ := of_run_advanceTo hrun
  cases hcarries with
  | tree _ hstart hgrows =>
      exact ⟨_, _, _, hstart, hgrows.append, hgrows.tracks.root, congrArg (Except.mapError _) hgrows.tracks.root⟩

/-! ### A tree that is lost -/

/-- A call that fails behind one value loses the tree and keeps the counter, and the next one leaves a root without that
value. -/
theorem lost_tree_is_continued : Hashv.digits.Total ∧ Hashv.digits.DerivesZeroBytes ∧ HashesFieldElements Hashv.digits ∧
    ∃ first second third error start tree root root',
      (advanceTo Hashv.digits 1 ([1, 2].take 1) 2).run .new = .ok () first ∧
      (advanceTo Hashv.digits 1 [] 2).run first = .error error second ∧
      (advanceTo Hashv.digits 2 ([1, 2].take 2) 2).run second = .ok () third ∧
      referenceNullifierTree Hashv.digits 2 = .ok start ∧
      (appendValues Hashv.digits (([1, 2].take 2 : List Bytes32).map BitVec.toNat)).run start = .ok () tree ∧
      tree.root = .ok root ∧ third.root = .ok root' ∧ root' ≠ root := by
  have hroots : (match (advanceTo Hashv.digits 1 ([1, 2].take 1) 2).run .new, referenceNullifierTree Hashv.digits 2 with
      | .ok () first, .ok start =>
        match (advanceTo Hashv.digits 1 [] 2).run first,
          (appendValues Hashv.digits (([1, 2].take 2 : List Bytes32).map BitVec.toNat)).run start with
        | .error _ second, .ok () tree =>
          match (advanceTo Hashv.digits 2 ([1, 2].take 2) 2).run second with
          | .ok () third =>
            match tree.root, third.root with
            | .ok root, .ok root' => decide (root' ≠ root)
            | _, _ => false
          | _ => false
        | _, _ => false
      | _, _ => false) = true := by decide +kernel
  split at hroots
  case h_1 first start hfirst hstart =>
    split at hroots
    case h_1 error second tree hsecond htree =>
      split at hroots
      case h_1 third hthird =>
        split at hroots
        case h_1 root root' hroot hroot' =>
          exact ⟨total_digits, derivesZeroBytes_digits, hashesFieldElements_digits, first, second, third, error, start,
            tree, root, root', hfirst, hsecond, hthird, hstart, htree, hroot, hroot', of_decide_eq_true hroots⟩
        case h_2 => cases hroots
      case h_2 => cases hroots
    case h_2 => cases hroots
  case h_2 => cases hroots

theorem carried_root_is_the_fresh_one_two : ∃ cache cache' start tree root,
      Calls Hashv.digits [1, 2] 2 cache ∧ (advanceTo Hashv.digits 2 ([1, 2].take 2) 2).run cache = .ok () cache' ∧
      referenceNullifierTree Hashv.digits 2 = .ok start ∧
      (appendValues Hashv.digits (([1, 2].take 2 : List Bytes32).map BitVec.toNat)).run start = .ok () tree ∧
      tree.root = .ok root ∧ cache'.root = .ok root := by
  have hcalls : (match (advanceTo Hashv.digits 1 ([1, 2].take 1) 2).run .new with
      | .error _ _ => false
      | .ok _ first => match (advanceTo Hashv.digits 2 ([1, 2].take 2) 2).run first with
        | .error _ _ => false
        | .ok _ _ => true) = true := by decide +kernel
  split at hcalls
  case h_1 => cases hcalls
  case h_2 first hfirst =>
    split at hcalls
    case h_1 => cases hcalls
    case h_2 second hsecond =>
      have hreached : Calls Hashv.digits [1, 2] 2 first := .advanceTo .start (by decide) hfirst
      obtain ⟨start, tree, root, hresult⟩ := carried_root_is_the_fresh_one total_digits derivesZeroBytes_digits
        hashesFieldElements_digits hreached (by decide) hsecond
      exact ⟨first, second, start, tree, root, hreached, hsecond, hresult⟩

end ReferenceCache

end Zolana.Forester
