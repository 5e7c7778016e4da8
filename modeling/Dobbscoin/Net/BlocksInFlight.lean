import Dobbscoin.Lib.Maps
import Dobbscoin.Net.NetBase

/-!
# Blocks in flight

The bookkeeping of block downloads in `main.cpp`: per peer a list of the blocks requested from it, and over
all peers a map from the hash of each such block to its place, and the number of them with a validated
header.  The lists and the map agree in every run; `accounting_exact_iff` says in which runs the number is
right as well.
-/

namespace Dobbscoin

variable {m : AList fun _ : NodeId => CNodeState} {nodeid : NodeId} {s s' : Downloads}
  {state : CNodeState} {hash : UInt256} {d : Nat}

/-! ## The state -/

abbrev NodeId := Int

structure QueuedBlock where
  hash : UInt256
  pindex : Option UInt256
  nTime : Int
  nValidatedQueuedBefore : Int
  fValidatedHeaders : Bool
  deriving DecidableEq

/-- A node of a `std::list`: where it is in memory, and its element.  An iterator is the place. -/
abbrev ListNode := Nat × QueuedBlock

structure CNodeState where
  name : String := ""
  address : CService := ⟨[], 0⟩
  fCurrentlyConnected : Bool := false
  nMisbehavior : Int := 0
  fSyncStarted : Bool := false
  nStallingSince : Int := 0
  vBlocksInFlight : List ListNode := []
  nBlocksInFlight : Int := 0
  fPreferredDownload : Bool := false

structure Downloads where
  mapNodeState : AList fun _ : NodeId => CNodeState := ∅
  mapBlocksInFlight : AList fun _ : UInt256 => NodeId × Nat := ∅
  nQueuedValidatedHeaders : Int := 0
  nSyncStarted : Int := 0
  nPreferredDownload : Int := 0
  /-- What was given to `AddressCurrentlyConnected`, the last one first. -/
  connected : List CService := []

/-- The list nodes of a peer. -/
def placed (nodeid : NodeId) (state : CNodeState) : List (NodeId × ListNode) :=
  state.vBlocksInFlight.map fun node => (nodeid, node)

def nodesOf (m : AList fun _ : NodeId => CNodeState) : List (NodeId × ListNode) :=
  m.entries.flatMap fun p => placed p.1 p.2

namespace Downloads

/-! ## The functions -/

def initializeNode (s : Downloads) (nodeid : NodeId) (addrName : String) (addr : CService) : Downloads :=
  -- `insert` leaves a state alone that is there already.
  let state := (s.mapNodeState.lookup nodeid).getD {}
  { s with mapNodeState := s.mapNodeState.insert nodeid { state with name := addrName, address := addr } }

/-- None when the state is missing, and the null pointer to it is used. -/
def finalizeNode (s : Downloads) (nodeid : NodeId) : Option Downloads := do
  let state ← s.mapNodeState.lookup nodeid
  pure { s with
    nSyncStarted := if state.fSyncStarted then s.nSyncStarted - 1 else s.nSyncStarted
    connected :=
      if state.nMisbehavior = 0 ∧ state.fCurrentlyConnected = true then state.address :: s.connected
      else s.connected
    mapBlocksInFlight := state.vBlocksInFlight.foldl (fun m entry => m.erase entry.2.hash)
      s.mapBlocksInFlight
    nPreferredDownload := s.nPreferredDownload - state.fPreferredDownload.toNat
    mapNodeState := s.mapNodeState.erase nodeid }

/-- None when an iterator or a pointer in the map is dangling. -/
def markBlockAsReceived (s : Downloads) (hash : UInt256) : Option Downloads :=
  match s.mapBlocksInFlight.lookup hash with
  | none => some s
  | some (nodeid, it) => do
    let state ← s.mapNodeState.lookup nodeid
    let entry ← state.vBlocksInFlight.lookup it
    pure { s with
      nQueuedValidatedHeaders := s.nQueuedValidatedHeaders - entry.fValidatedHeaders.toNat
      mapNodeState := s.mapNodeState.insert nodeid { state with
        vBlocksInFlight := state.vBlocksInFlight.eraseP fun node => node.1 == it
        nBlocksInFlight := state.nBlocksInFlight - 1
        nStallingSince := 0 }
      mapBlocksInFlight := s.mapBlocksInFlight.erase hash }

/-- The list nodes that exist, each with the peer whose list it is in. -/
def inFlight (s : Downloads) : List (NodeId × ListNode) :=
  nodesOf s.mapNodeState

/-- None when the assertion fails.  The new list node is at `it`, where no other one may be. -/
def markBlockAsInFlight (s : Downloads) (nodeid : NodeId) (hash : UInt256) (pindex : Option UInt256)
    (nNow : Int) (it : Nat) : Option Downloads := do
  guard (s.mapNodeState.lookup nodeid).isSome
  -- Make sure it's not listed somewhere already.
  let s ← s.markBlockAsReceived hash
  let state ← s.mapNodeState.lookup nodeid
  guard (it ∉ s.inFlight.map fun x => x.2.1)
  let newentry : QueuedBlock := ⟨hash, pindex, nNow, s.nQueuedValidatedHeaders, pindex.isSome⟩
  pure { s with
    nQueuedValidatedHeaders := s.nQueuedValidatedHeaders + newentry.fValidatedHeaders.toNat
    mapNodeState := s.mapNodeState.insert nodeid { state with
      vBlocksInFlight := state.vBlocksInFlight ++ [(it, newentry)]
      nBlocksInFlight := state.nBlocksInFlight + 1 }
    mapBlocksInFlight := s.mapBlocksInFlight.insert hash (nodeid, it) }

inductive Call where
  | initializeNode (nodeid : NodeId) (addrName : String) (addr : CService)
  | finalizeNode (nodeid : NodeId)
  | markBlockAsReceived (hash : UInt256)
  | markBlockAsInFlight (nodeid : NodeId) (hash : UInt256) (pindex : Option UInt256) (nNow : Int) (it : Nat)

def perform (s : Downloads) : Call → Option Downloads
  | .initializeNode nodeid addrName addr => some (s.initializeNode nodeid addrName addr)
  | .finalizeNode nodeid => s.finalizeNode nodeid
  | .markBlockAsReceived hash => s.markBlockAsReceived hash
  | .markBlockAsInFlight nodeid hash pindex nNow it => s.markBlockAsInFlight nodeid hash pindex nNow it

def run : Downloads → List Call → Option Downloads
  | s, [] => some s
  | s, call :: calls => do
    let s ← s.perform call
    s.run calls

/-! ## What the accounts say -/

def Counted (m : AList fun _ : NodeId => CNodeState) : Prop :=
  ∀ nodeid state, m.lookup nodeid = some state →
    state.nBlocksInFlight = state.vBlocksInFlight.length

/-- Every list node has its hash in the map, and the map leads to it; each count is the length of its
list. -/
structure Linked (s : Downloads) : Prop where
  map : MapIndex.Indexes (fun x : NodeId × ListNode => x.2.2.hash) (fun x => (x.1, x.2.1)) s.inFlight
    s.mapBlocksInFlight
  places : (s.inFlight.map fun x => x.2.1).Nodup
  counts : Counted s.mapNodeState

/-- How many blocks in flight have a validated header. -/
def validated (s : Downloads) : Nat :=
  s.inFlight.countP fun x => x.2.2.fValidatedHeaders

/-- All accounts are right. -/
structure Exact (s : Downloads) : Prop extends Linked s where
  queued : s.nQueuedValidatedHeaders = s.validated

/-- The blocks with a validated header that a call forgets without counting them down. -/
def dropped (s : Downloads) : Call → Nat
  | .finalizeNode nodeid =>
    match s.mapNodeState.lookup nodeid with
    | none => 0
    | some state => state.vBlocksInFlight.countP fun node => node.2.fValidatedHeaders
  | _ => 0

end Downloads

/-! ## Lists of one peer and of the others -/

theorem nodesOf_of_lookup (h : m.lookup nodeid = some state) :
    (nodesOf m : Multiset (NodeId × ListNode)) = placed nodeid state + nodesOf (m.erase nodeid) := by
  have hperm := Multiset.coe_eq_coe.1 (MapIndex.entries_of_lookup h)
  rw [Multiset.coe_add, Multiset.coe_eq_coe]
  exact hperm.flatMap_right _

theorem nodesOf_insert (m : AList fun _ : NodeId => CNodeState) (nodeid : NodeId) (state : CNodeState) :
    (nodesOf (m.insert nodeid state) : Multiset (NodeId × ListNode)) =
      placed nodeid state + nodesOf (m.erase nodeid) :=
  rfl

/-- A list node that an iterator leads to, and the others. -/
theorem eraseP_of_lookup {nodes : List ListNode} {it : Nat} {entry : QueuedBlock}
    (h : nodes.lookup it = some entry) :
    nodes.Perm ((it, entry) :: nodes.eraseP fun node => node.1 == it) := by
  induction nodes with
  | nil => cases h
  | cons node nodes ih =>
    rcases node with ⟨at', entry'⟩
    by_cases hat : it = at'
    · subst hat
      rw [List.lookup_cons_self] at h
      have hentry : entry' = entry := Option.some.inj h
      subst hentry
      simp only [List.eraseP_cons, beq_self_eq_true, cond_true]
      exact List.Perm.refl _
    · have hbeq : (it == at') = false := beq_false_of_ne hat
      have hbeq' : (at' == it) = false := beq_false_of_ne (Ne.symm hat)
      rw [List.lookup_cons, hbeq] at h
      simp only [List.eraseP_cons, hbeq', cond_false]
      exact ((ih h).cons _).trans (List.Perm.swap _ _ _)

namespace Downloads

/-! ## One call -/

/-- Nothing is in flight from a peer that is not there. -/
theorem nodesOf_erase_of_none
    (h : m.lookup nodeid = none) : nodesOf (m.erase nodeid) = nodesOf m := by
  rw [MapIndex.erase_of_lookup_none h]

theorem inFlight_initializeNode (s : Downloads) (nodeid : NodeId) (addrName : String) (addr : CService) :
    ((s.initializeNode nodeid addrName addr).inFlight : Multiset (NodeId × ListNode)) = s.inFlight := by
  have hnew : ((s.initializeNode nodeid addrName addr).inFlight : Multiset (NodeId × ListNode)) =
      placed nodeid ((s.mapNodeState.lookup nodeid).getD {}) + nodesOf (s.mapNodeState.erase nodeid) :=
    nodesOf_insert _ _ _
  rw [hnew]
  cases hstate : s.mapNodeState.lookup nodeid with
  | none =>
    rw [nodesOf_erase_of_none hstate]
    exact zero_add _
  | some state => exact (nodesOf_of_lookup hstate).symm

/-- The block is in no list, or in one, and then it is taken out of it. -/
theorem markBlockAsReceived_cases (h : s.markBlockAsReceived hash = some s') :
    (s' = s ∧ s.mapBlocksInFlight.lookup hash = none) ∨
      ∃ (nodeid : NodeId) (it : Nat) (entry : QueuedBlock) (state : CNodeState),
        s.mapBlocksInFlight.lookup hash = some (nodeid, it) ∧
        s.mapNodeState.lookup nodeid = some state ∧ state.vBlocksInFlight.lookup it = some entry ∧
        s' = { s with
          nQueuedValidatedHeaders := s.nQueuedValidatedHeaders - entry.fValidatedHeaders.toNat
          mapNodeState := s.mapNodeState.insert nodeid { state with
            vBlocksInFlight := state.vBlocksInFlight.eraseP fun node => node.1 == it
            nBlocksInFlight := state.nBlocksInFlight - 1
            nStallingSince := 0 }
          mapBlocksInFlight := s.mapBlocksInFlight.erase hash } := by
  unfold markBlockAsReceived at h
  cases hplace : s.mapBlocksInFlight.lookup hash with
  | none =>
    rw [hplace] at h
    exact Or.inl ⟨(Option.some.inj h).symm, rfl⟩
  | some place =>
    rcases place with ⟨nodeid, it⟩
    rw [hplace] at h
    right
    rcases Option.bind_eq_some_iff.1 h with ⟨state, hstate, h⟩
    rcases Option.bind_eq_some_iff.1 h with ⟨entry, hentry, h⟩
    exact ⟨nodeid, it, entry, state, rfl, hstate, hentry, (Option.some.inj h).symm⟩

theorem Counted.insert (h : Counted m)
    (hstate : state.nBlocksInFlight = state.vBlocksInFlight.length) :
    Counted (m.insert nodeid state) := by
  intro other state' hother
  by_cases heq : other = nodeid
  · subst heq
    rw [AList.lookup_insert] at hother
    rw [← Option.some.inj hother]
    exact hstate
  · rw [AList.lookup_insert_ne heq] at hother
    exact h other state' hother

theorem Counted.erase (h : Counted m) (nodeid : NodeId) :
    Counted (m.erase nodeid) := by
  intro other state hother
  by_cases heq : other = nodeid
  · subst heq
    rw [AList.lookup_erase] at hother
    cases hother
  · rw [AList.lookup_erase_ne heq] at hother
    exact h other state hother

theorem mem_inFlight {s : Downloads} {node : ListNode}
    (hstate : s.mapNodeState.lookup nodeid = some state) (hnode : node ∈ state.vBlocksInFlight) :
    (nodeid, node) ∈ s.inFlight := by
  have hsplit := nodesOf_of_lookup hstate
  rw [← Multiset.mem_coe, inFlight, hsplit]
  exact Multiset.mem_add.2 (Or.inl (Multiset.mem_coe.2 (List.mem_map_of_mem hnode)))

/-- The node at a place is the one that the map leads to. -/
theorem Linked.hash_eq {s : Downloads} (hs : s.Linked) {it : Nat}
    {entry : QueuedBlock} (hplace : s.mapBlocksInFlight.lookup hash = some (nodeid, it))
    (hmem : (nodeid, it, entry) ∈ s.inFlight) : entry.hash = hash := by
  rcases (hs.map.lookup _ _).1 hplace with ⟨x, hx, hhash, hat⟩
  have hsame : x = (nodeid, it, entry) :=
    List.inj_on_of_nodup_map hs.places (Multiset.mem_coe.1 hx) hmem (Prod.mk.inj hat).2
  rw [hsame] at hhash
  exact hhash

/-- The lists with one node less, in the list of one peer. -/
theorem nodesOf_eraseP {it : Nat} {entry : QueuedBlock} (hstate : m.lookup nodeid = some state)
    (hentry : state.vBlocksInFlight.lookup it = some entry) {state' : CNodeState}
    (hnodes : state'.vBlocksInFlight = state.vBlocksInFlight.eraseP fun node => node.1 == it) :
    (nodesOf m : Multiset (NodeId × ListNode)) =
      (nodeid, it, entry) ::ₘ nodesOf (m.insert nodeid state') := by
  have hplaced : (placed nodeid state : Multiset (NodeId × ListNode)) =
      (nodeid, it, entry) ::ₘ placed nodeid state' := by
    unfold placed
    rw [hnodes, Multiset.cons_coe, Multiset.coe_eq_coe]
    exact (eraseP_of_lookup hentry).map _
  calc (nodesOf m : Multiset (NodeId × ListNode))
      = placed nodeid state + nodesOf (m.erase nodeid) := nodesOf_of_lookup hstate
    _ = (nodeid, it, entry) ::ₘ (placed nodeid state' + nodesOf (m.erase nodeid)) := by
        rw [hplaced, Multiset.cons_add]
    _ = (nodeid, it, entry) ::ₘ nodesOf (m.insert nodeid state') := by rw [nodesOf_insert]

/-- The lists with one node more, at the end of the list of one peer. -/
theorem nodesOf_append
    (hstate : m.lookup nodeid = some state) {node : ListNode} {state' : CNodeState}
    (hnodes : state'.vBlocksInFlight = state.vBlocksInFlight ++ [node]) :
    (nodesOf (m.insert nodeid state') : Multiset (NodeId × ListNode)) = (nodeid, node) ::ₘ nodesOf m := by
  have hplaced : (placed nodeid state' : Multiset (NodeId × ListNode)) =
      (nodeid, node) ::ₘ placed nodeid state := by
    unfold placed
    rw [hnodes, Multiset.cons_coe, Multiset.coe_eq_coe, List.map_append]
    exact List.perm_append_singleton _ _
  rw [nodesOf_insert, hplaced, Multiset.cons_add, ← nodesOf_of_lookup hstate]

/-- The lists and the map agree, and `d` blocks with a validated header have been forgotten. -/
structure Balanced (s : Downloads) (d : Nat) : Prop extends Linked s where
  queued : s.nQueuedValidatedHeaders = s.validated + d

theorem validated_cons {x : NodeId × ListNode}
    (h : (s.inFlight : Multiset (NodeId × ListNode)) = x ::ₘ s'.inFlight) :
    s.validated = s'.validated + x.2.2.fValidatedHeaders.toNat := by
  have hperm : s.inFlight.Perm (x :: s'.inFlight) := Multiset.coe_eq_coe.1 h
  unfold validated
  rw [hperm.countP_eq, List.countP_cons]
  cases x.2.2.fValidatedHeaders <;> rfl

theorem Balanced.markBlockAsReceived (hs : s.Balanced d)
    (h : s.markBlockAsReceived hash = some s') :
    s'.Balanced d ∧ s'.mapBlocksInFlight.lookup hash = none := by
  rcases markBlockAsReceived_cases h with ⟨rfl, hnone⟩ | ⟨nodeid, it, entry, state, hplace, hstate, hentry, hs'⟩
  · exact ⟨hs, hnone⟩
  · have hnode : (it, entry) ∈ state.vBlocksInFlight :=
      (eraseP_of_lookup hentry).mem_iff.2 List.mem_cons_self
    have hhash := hs.hash_eq hplace (mem_inFlight hstate hnode)
    have hlists : (s.inFlight : Multiset (NodeId × ListNode)) = (nodeid, it, entry) ::ₘ s'.inFlight := by
      rw [hs']
      exact nodesOf_eraseP hstate hentry rfl
    have hvalid := validated_cons hlists
    have hlength := (eraseP_of_lookup hentry).length_eq
    have hcount := hs.counts nodeid state hstate
    have hmap := hs.map
    rw [hlists] at hmap
    have hplaces := (Multiset.coe_eq_coe.1 hlists).map (fun x => x.2.1)
    refine ⟨⟨⟨?_, ?_, ?_⟩, ?_⟩, ?_⟩
    · have herase := hmap.erase
      rw [hs'] at herase ⊢
      rw [← hhash]
      exact herase
    · exact (List.nodup_cons.1 (hplaces.nodup_iff.1 hs.places)).2
    · rw [hs']
      apply hs.counts.insert
      rw [List.length_cons] at hlength
      dsimp only
      omega
    · have hqueued := hs.queued
      have hdown : s'.nQueuedValidatedHeaders = s.nQueuedValidatedHeaders - entry.fValidatedHeaders.toNat := by
        rw [hs']
      dsimp only at hvalid
      omega
    · rw [hs']
      exact AList.lookup_erase _ _

theorem Balanced.markBlockAsInFlight
    {pindex : Option UInt256} {nNow : Int} {it : Nat} (hs : s.Balanced d)
    (h : s.markBlockAsInFlight nodeid hash pindex nNow it = some s') : s'.Balanced d := by
  simp only [Downloads.markBlockAsInFlight, Option.bind_eq_bind, Option.bind_eq_some_iff,
    Option.pure_def] at h
  rcases h with ⟨_, -, r, hr, state, hstate, _, hfresh, hs'⟩
  rcases hs.markBlockAsReceived hr with ⟨hr, hnone⟩
  have hit := (Option.guard_eq_some' _).1 hfresh
  have hlists : (s'.inFlight : Multiset (NodeId × ListNode)) =
      (nodeid, it, ⟨hash, pindex, nNow, r.nQueuedValidatedHeaders, pindex.isSome⟩) ::ₘ r.inFlight := by
    rw [← Option.some.inj hs']
    exact nodesOf_append hstate rfl
  have hvalid := validated_cons hlists
  have hplaces := (Multiset.coe_eq_coe.1 hlists).map (fun x => x.2.1)
  obtain rfl := Option.some.inj hs'
  refine ⟨⟨?_, ?_, ?_⟩, ?_⟩
  · rw [hlists]
    exact hr.map.insert hnone
  · exact hplaces.nodup_iff.2 (List.nodup_cons.2 ⟨hit, hr.places⟩)
  · apply hr.counts.insert
    have hcount := hr.counts nodeid state hstate
    rw [List.length_append, List.length_singleton, hcount]
    rfl
  · have hqueued := hr.queued
    dsimp only at hvalid hqueued ⊢
    omega

theorem Balanced.initializeNode {s : Downloads} (hs : s.Balanced d) (nodeid : NodeId)
    (addrName : String) (addr : CService) : (s.initializeNode nodeid addrName addr).Balanced d := by
  have hlists := inFlight_initializeNode s nodeid addrName addr
  have hperm := Multiset.coe_eq_coe.1 hlists
  refine ⟨⟨?_, ?_, ?_⟩, ?_⟩
  · rw [hlists]
    exact hs.map
  · exact (hperm.map _).nodup_iff.2 hs.places
  · apply hs.counts.insert
    cases hstate : s.mapNodeState.lookup nodeid with
    | none => rfl
    | some state => exact hs.counts nodeid state hstate
  · have hvalid : (s.initializeNode nodeid addrName addr).validated = s.validated := hperm.countP_eq _
    rw [hvalid]
    exact hs.queued

theorem Balanced.finalizeNode (hs : s.Balanced d)
    (h : s.finalizeNode nodeid = some s') : s'.Balanced (d + s.dropped (.finalizeNode nodeid)) := by
  rcases Option.bind_eq_some_iff.1 h with ⟨state, hstate, h⟩
  have hlists := nodesOf_of_lookup hstate
  have hperm : s.inFlight.Perm (placed nodeid state ++ s'.inFlight) := by
    rw [← Option.some.inj h]
    exact Multiset.coe_eq_coe.1 hlists
  have hplaces := hperm.map (fun x => x.2.1)
  have hvalid : s.validated = s'.validated + s.dropped (.finalizeNode nodeid) := by
    have hdropped : s.dropped (.finalizeNode nodeid) =
        (placed nodeid state).countP fun x => x.2.2.fValidatedHeaders := by
      simp only [dropped, hstate, placed, List.countP_map]
      rfl
    unfold validated
    rw [hperm.countP_eq, List.countP_append, hdropped, Nat.add_comm]
  have hmap := hs.map
  have hboth : (s.inFlight : Multiset (NodeId × ListNode)) = placed nodeid state + s'.inFlight := by
    rw [Multiset.coe_add, Multiset.coe_eq_coe]
    exact hperm
  rw [hboth] at hmap
  have hqueued := hs.queued
  have herased : s'.mapBlocksInFlight =
      (placed nodeid state).foldl (fun m x => m.erase x.2.2.hash) s.mapBlocksInFlight := by
    rw [← Option.some.inj h, placed, List.foldl_map]
  refine ⟨⟨?_, ?_, ?_⟩, ?_⟩
  · rw [herased]
    exact hmap.eraseAll
  · rw [List.map_append] at hplaces
    exact (List.nodup_append.1 (hplaces.nodup_iff.1 hs.places)).2.1
  · rw [← Option.some.inj h]
    exact hs.counts.erase nodeid
  · have hsame : s'.nQueuedValidatedHeaders = s.nQueuedValidatedHeaders := by
      rw [← Option.some.inj h]
    omega

/-! ## Runs -/

theorem balanced_start : ({} : Downloads).Balanced 0 :=
  ⟨⟨MapIndex.indexes_empty, List.nodup_nil, fun _ _ h => by cases h⟩, rfl⟩

/-- What a call forgets is added to what has been forgotten. -/
theorem Balanced.perform {call : Call} (hs : s.Balanced d)
    (h : s.perform call = some s') : s'.Balanced (d + s.dropped call) := by
  cases call with
  | initializeNode nodeid addrName addr =>
    rw [← Option.some.inj h]
    exact hs.initializeNode nodeid addrName addr
  | finalizeNode nodeid => exact hs.finalizeNode h
  | markBlockAsReceived hash => exact (hs.markBlockAsReceived h).1
  | markBlockAsInFlight nodeid hash pindex nNow it => exact hs.markBlockAsInFlight h

/-- No peer is finalized while a block with a validated header is in flight from it. -/
def NothingDropped (s : Downloads) : List Call → Prop
  | [] => True
  | call :: calls => s.dropped call = 0 ∧ ∀ s', s.perform call = some s' → s'.NothingDropped calls

instance decidableNothingDropped : ∀ (s : Downloads) (calls : List Call), Decidable (s.NothingDropped calls)
  | _, [] => isTrue trivial
  | s, call :: calls =>
    match h : s.perform call with
    | none =>
      decidable_of_iff (s.dropped call = 0)
        ⟨fun hcall => ⟨hcall, fun _ hs' => by rw [h] at hs'; cases hs'⟩, fun hall => hall.1⟩
    | some r =>
      have := decidableNothingDropped r calls
      decidable_of_iff (s.dropped call = 0 ∧ r.NothingDropped calls)
        ⟨fun hall => ⟨hall.1, fun _ hs' => by rw [h] at hs'; cases hs'; exact hall.2⟩,
          fun hall => ⟨hall.1, hall.2 r h⟩⟩

/-- The number is too large by the blocks that have been forgotten, at the start of a run and after it. -/
theorem Balanced.run {calls : List Call} (hs : s.Balanced d)
    (h : s.run calls = some s') :
    ∃ d', s'.Balanced d' ∧ (d' = 0 ↔ d = 0 ∧ s.NothingDropped calls) := by
  induction calls generalizing s d with
  | nil =>
    rw [← Option.some.inj h]
    exact ⟨d, hs, (and_iff_left trivial).symm⟩
  | cons call calls ih =>
    rcases Option.bind_eq_some_iff.1 h with ⟨r, hr, hrest⟩
    rcases ih (hs.perform hr) hrest with ⟨d', hd', hzero⟩
    refine ⟨d', hd', ?_⟩
    rw [hzero, Nat.add_eq_zero_iff]
    constructor
    · rintro ⟨⟨hd, hcall⟩, hcalls⟩
      refine ⟨hd, hcall, ?_⟩
      intro r' hr'
      rw [Option.some.inj (hr'.symm.trans hr)]
      exact hcalls
    · rintro ⟨hd, hcall, hcalls⟩
      exact ⟨⟨hd, hcall⟩, hcalls r hr⟩

/-- **The lists and the map agree** after every run, and all accounts are exact if and only if no peer was
finalized while a block with a validated header was in flight from it. -/
theorem accounting_exact_iff {calls : List Call} {s : Downloads} (h : ({} : Downloads).run calls = some s) :
    s.Linked ∧ (s.Exact ↔ ({} : Downloads).NothingDropped calls) := by
  rcases balanced_start.run h with ⟨d, hs, hzero⟩
  have hqueued := hs.queued
  refine ⟨hs.toLinked, ?_⟩
  calc s.Exact
      ↔ s.nQueuedValidatedHeaders = s.validated := ⟨fun hexact => hexact.queued, fun hq => ⟨hs.toLinked, hq⟩⟩
    _ ↔ d = 0 := by omega
    _ ↔ ({} : Downloads).NothingDropped calls := by rw [hzero, and_iff_right rfl]

/-- A block goes over from one peer to another, which delivers it after the first is gone. -/
def reassigned : List Call :=
  [.initializeNode 1 "a" ⟨[], 0⟩, .initializeNode 2 "b" ⟨[], 0⟩, .markBlockAsInFlight 1 7 (some 7) 0 0,
    .markBlockAsInFlight 2 7 (some 7) 1 0, .finalizeNode 1, .markBlockAsReceived 7]

theorem accounting_exact_iff_reassigned : ∃ s, ({} : Downloads).run reassigned = some s ∧ s.Exact := by
  have hrun : (({} : Downloads).run reassigned).isSome := by decide
  rcases Option.isSome_iff_exists.1 hrun with ⟨s, hs⟩
  exact ⟨s, hs, (accounting_exact_iff hs).2.2 (by decide)⟩

/-- A peer disconnects while a block with a validated header is in flight from it. -/
theorem disconnect_not_counted_down : ∃ s, ({} : Downloads).run
    [.initializeNode 1 "a" ⟨[], 0⟩, .markBlockAsInFlight 1 7 (some 7) 0 0, .finalizeNode 1] = some s ∧
      s.inFlight = [] ∧ s.nQueuedValidatedHeaders = 1 ∧ ¬ s.Exact := by
  refine ⟨_, rfl, by decide, by decide, fun h => ?_⟩
  exact absurd h.queued (by decide)

end Downloads

end Dobbscoin
