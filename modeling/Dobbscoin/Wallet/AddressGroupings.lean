import Dobbscoin.Lib.Components
import Dobbscoin.Script.Destinations

/-!
# The groupings of the addresses

`CWallet::GetAddressGroupings` of `wallet.cpp`: the destinations that a wallet has shown to be its own together.
-/

namespace Dobbscoin

/-- What the groupings ask of the rest of the program. -/
structure GroupingEnv extends BalanceEnv where
  /-- The order in which a `set< set<CTxDestination> >` is gone through. -/
  orderGroups : List (List CTxDestination) → List (List CTxDestination)
  orderGroups_perm : ∀ groupings, (orderGroups groupings).Perm groupings
  /-- The order in which a set of pointers is gone through. -/
  orderPointers : List Nat → List Nat
  orderPointers_perm : ∀ pointers, (orderPointers pointers).Perm pointers
  /-- Where `new set<CTxDestination>(grouping)` puts the copy, beside what is allocated. -/
  allocate : List Nat → List CTxDestination → Nat
  allocate_fresh : ∀ live grouping, allocate live grouping ∉ live

namespace WalletNode

variable (E : GroupingEnv) (w : WalletNode)

/-! ## The groups of the transactions -/

/-- The destination of an output that `IsMine` accepts. -/
def ownDestination (txout : CTxOut) : Option CTxDestination :=
  if E.isMine w.keys.keystore txout.scriptPubKey = ismineNo then none else E.extractDestination txout.scriptPubKey

/-- The destination of an input: of the output of the wallet that it spends. -/
def inputDestination (txin : CTxIn) : Option CTxDestination :=
  (w.prevOut txin).bind (ownDestination E w)

/-- The destination of an output that `IsChange` accepts. -/
def changeDestination (txout : CTxOut) : Option CTxDestination :=
  if isChange E.toBalanceEnv w txout then E.extractDestination txout.scriptPubKey else none

/-- One input, with `any_mine`. -/
def addInput (s : List CTxDestination × Bool) (txin : CTxIn) : List CTxDestination × Bool :=
  match inputDestination E w txin with
  | none => s
  | some address => (s.1.insert address, true)

def addChange (grouping : List CTxDestination) (txout : CTxOut) : List CTxDestination :=
  match changeDestination E w txout with
  | none => grouping
  | some address => grouping.insert address

/-- The input addresses of a transaction with each other, and with the change addresses. -/
def txGrouping (tx : CTransaction) : List CTxDestination :=
  let s := tx.vin.foldl (addInput E w) ([], false)
  if s.2 then tx.vout.foldl (addChange E w) s.1 else s.1

def sameSet (g g' : List CTxDestination) : Bool :=
  g.all (g'.contains ·) && g'.all (g.contains ·)

/-- The insertion into a `set< set<CTxDestination> >`. -/
def insertGrouping (groupings : List (List CTxDestination)) (g : List CTxDestination) : List (List CTxDestination) :=
  if groupings.any (sameSet g) then groupings else groupings ++ [g]

/-- A lone address, by itself. -/
def addOwnOutput (groupings : List (List CTxDestination)) (txout : CTxOut) : List (List CTxDestination) :=
  match ownDestination E w txout with
  | none => groupings
  | some address => insertGrouping groupings [address]

def addTx (groupings : List (List CTxDestination)) (tx : CTransaction) : List (List CTxDestination) :=
  let grouping := if tx.vin.length > 0 then txGrouping E w tx else []
  tx.vout.foldl (addOwnOutput E w) (if grouping.length > 0 then insertGrouping groupings grouping else groupings)

def walletTxs : List CTransaction :=
  w.mapWallet.entries.map fun walletEntry => walletEntry.2.tx

def allGroupings : List (List CTxDestination) :=
  w.walletTxs.foldl (addTx E w) []

/-! ## Merging them, with pointers to the sets -/

/-- `uniqueGroupings` and `setmap`, with the sets that they point to. -/
structure MergeState where
  heap : Heap (List CTxDestination)
  uniqueGroupings : List Nat
  setmap : Table CTxDestination Nat

def hitsOf (s : MergeState) (grouping : List CTxDestination) : List Nat :=
  grouping.foldl (fun hits address =>
    match s.setmap.lookup address with
    | none => hits
    | some p => hits.insert p) []

/-- `merged->insert(hit->begin(), hit->end()); uniqueGroupings.erase(hit); delete hit;` -/
def mergeHit (merged : Nat) (s : MergeState) (hit : Nat) : Option MergeState := do
  let elements ← s.heap.read hit
  let old ← s.heap.read merged
  let heap ← s.heap.write merged (elements.foldl (fun l a => l.insert a) old)
  let freed ← heap.free hit
  return { s with heap := freed, uniqueGroupings := s.uniqueGroupings.erase hit }

def mergeGrouping (s : MergeState) (grouping : List CTxDestination) : Option MergeState := do
  let hits := hitsOf s grouping
  let merged := E.allocate s.heap.keys grouping
  let s ← (E.orderPointers hits).foldlM (mergeHit merged) { s with heap := s.heap.allocate merged grouping }
  let elements ← s.heap.read merged
  return { s with
    uniqueGroupings := s.uniqueGroupings.insert merged
    setmap := elements.foldl (fun setmap element => setmap.insert element merged) s.setmap }

/-- `ret.insert(*uniqueGrouping); delete uniqueGrouping;` -/
def takeGrouping (s : List (List CTxDestination) × Heap (List CTxDestination)) (uniqueGrouping : Nat) :
    Option (List (List CTxDestination) × Heap (List CTxDestination)) := do
  let elements ← s.2.read uniqueGrouping
  let freed ← s.2.free uniqueGrouping
  return (insertGrouping s.1 elements, freed)

/-- The groupings, and what is still allocated; it is `none` when a pointer to a deleted set is followed. -/
def getAddressGroupings : Option (List (List CTxDestination) × Heap (List CTxDestination)) := do
  let s ← (E.orderGroups (allGroupings E w)).foldlM (mergeGrouping E) ⟨∅, [], ∅⟩
  (E.orderPointers s.uniqueGroupings).foldlM takeGrouping ([], s.heap)

end WalletNode

end Dobbscoin

/-!
# The groupings are the components
-/

namespace Dobbscoin.WalletNode

open Components Relation

variable {E : GroupingEnv} {w : WalletNode}

/-! ## Sets as lists -/

theorem mem_foldl_insert {α : Type} [DecidableEq α] {l l' : List α} {a : α} :
    a ∈ l'.foldl (fun l a => l.insert a) l ↔ a ∈ l ∨ a ∈ l' := by
  induction l' generalizing l with
  | nil => simp
  | cons b l' ih =>
    rw [List.foldl_cons, ih, List.mem_insert_iff, List.mem_cons, or_comm (a := a = b), or_assoc]

theorem sameSet_iff {g g' : List CTxDestination} : sameSet g g' = true ↔ ∀ a, a ∈ g ↔ a ∈ g' := by
  simp only [sameSet, Bool.and_eq_true, List.all_eq_true, List.contains_iff_mem]
  exact ⟨fun h a => ⟨h.1 a, h.2 a⟩, fun h => ⟨fun a => (h a).1, fun a => (h a).2⟩⟩

/-- Two destinations are in one group: of those before, or the new one. -/
theorem shares_insertGrouping {groupings : List (List CTxDestination)} {g : List CTxDestination} {a b : CTxDestination} :
    Shares (insertGrouping groupings g) a b ↔ Shares groupings a b ∨ a ∈ g ∧ b ∈ g := by
  unfold insertGrouping
  split_ifs with hany
  · refine ⟨Or.inl, fun h => h.elim id fun hg => ?_⟩
    rcases List.any_eq_true.1 hany with ⟨g', hg', hsame⟩
    have hsame := sameSet_iff.1 hsame
    exact ⟨g', hg', (hsame a).1 hg.1, (hsame b).1 hg.2⟩
  · constructor
    · rintro ⟨g', hg', hab⟩
      rcases List.mem_append.1 hg' with hold | hnew
      · exact Or.inl ⟨g', hold, hab⟩
      · exact Or.inr (List.mem_singleton.1 hnew ▸ hab)
    · rintro (hold | hnew)
      · exact hold.mono (List.subset_append_left groupings [g])
      · exact ⟨g, List.mem_append_right groupings List.mem_cons_self, hnew⟩

theorem ne_nil_of_mem_insertGrouping {groupings : List (List CTxDestination)} {g : List CTxDestination} (hg : g ≠ [])
    (hold : ∀ g' ∈ groupings, g' ≠ []) : ∀ g' ∈ insertGrouping groupings g, g' ≠ [] := by
  intro g' hg'
  unfold insertGrouping at hg'
  split_ifs at hg' with hany
  · exact hold g' hg'
  · rcases List.mem_append.1 hg' with hin | hnew
    · exact hold g' hin
    · rw [List.mem_singleton.1 hnew]
      exact hg

/-! ## The groups -/

/-- The transaction spends from the destination. -/
def SpendsFrom (E : GroupingEnv) (w : WalletNode) (tx : CTransaction) (a : CTxDestination) : Prop :=
  ∃ txin ∈ tx.vin, inputDestination E w txin = some a

def SendsChangeTo (E : GroupingEnv) (w : WalletNode) (tx : CTransaction) (a : CTxDestination) : Prop :=
  ∃ txout ∈ tx.vout, changeDestination E w txout = some a

def PaysOwn (E : GroupingEnv) (w : WalletNode) (tx : CTransaction) (a : CTxDestination) : Prop :=
  ∃ txout ∈ tx.vout, ownDestination E w txout = some a

def Touches (E : GroupingEnv) (w : WalletNode) (tx : CTransaction) (a : CTxDestination) : Prop :=
  SpendsFrom E w tx a ∨ SendsChangeTo E w tx a

theorem foldl_addInput {vin : List CTxIn} {s : List CTxDestination × Bool} :
    (∀ a, a ∈ (vin.foldl (addInput E w) s).1 ↔ a ∈ s.1 ∨ ∃ txin ∈ vin, inputDestination E w txin = some a) ∧
      ((vin.foldl (addInput E w) s).2 = true ↔ s.2 = true ∨ ∃ txin ∈ vin, ∃ a, inputDestination E w txin = some a) := by
  induction vin generalizing s with
  | nil => simp
  | cons txin vin ih =>
    rw [List.foldl_cons]
    cases hin : inputDestination E w txin with
    | none =>
      have hstep : addInput E w s txin = s := by simp only [addInput, hin]
      rw [hstep]
      simpa [hin] using ih (s := s)
    | some b =>
      have hstep : addInput E w s txin = (s.1.insert b, true) := by simp only [addInput, hin]
      rw [hstep]
      refine ⟨fun a => (ih.1 a).trans ?_, ih.2.trans ?_⟩
      · rw [List.mem_insert_iff, List.exists_mem_cons_iff, hin, Option.some.injEq, eq_comm (a := b), or_assoc]
        exact or_left_comm
      · simp [hin]

theorem mem_foldl_addChange {vout : List CTxOut} {grouping : List CTxDestination} {a : CTxDestination} :
    a ∈ vout.foldl (addChange E w) grouping ↔ a ∈ grouping ∨ ∃ txout ∈ vout, changeDestination E w txout = some a := by
  induction vout generalizing grouping with
  | nil => simp
  | cons txout vout ih =>
    rw [List.foldl_cons, ih, List.exists_mem_cons_iff]
    cases hchange : changeDestination E w txout with
    | none => simp [addChange, hchange]
    | some b => simp [addChange, hchange, List.mem_insert_iff, eq_comm (a := b), or_assoc, or_left_comm]

/-- The group of a transaction that spends from a destination; the others have none. -/
theorem mem_txGrouping {tx : CTransaction} {a : CTxDestination} :
    a ∈ txGrouping E w tx ↔ (∃ c, SpendsFrom E w tx c) ∧ Touches E w tx a := by
  have hinputs : (∀ a, a ∈ (tx.vin.foldl (addInput E w) ([], false)).1 ↔
        a ∈ ([] : List CTxDestination) ∨ ∃ txin ∈ tx.vin, inputDestination E w txin = some a) ∧
      ((tx.vin.foldl (addInput E w) ([], false)).2 = true ↔
        false = true ∨ ∃ txin ∈ tx.vin, ∃ a, inputDestination E w txin = some a) := foldl_addInput
  have hmine : (tx.vin.foldl (addInput E w) ([], false)).2 = true ↔ ∃ c, SpendsFrom E w tx c := by
    rw [hinputs.2]
    constructor
    · rintro (hfalse | ⟨txin, htxin, c, hc⟩)
      · cases hfalse
      · exact ⟨c, txin, htxin, hc⟩
    · rintro ⟨c, txin, htxin, hc⟩
      exact Or.inr ⟨txin, htxin, c, hc⟩
  have hspent : ∀ b, b ∈ (tx.vin.foldl (addInput E w) ([], false)).1 ↔ SpendsFrom E w tx b := fun b => by
    rw [hinputs.1]
    exact or_iff_right List.not_mem_nil
  unfold txGrouping
  dsimp only
  split_ifs with hany
  · rw [mem_foldl_addChange, hspent]
    exact (and_iff_right (hmine.1 hany)).symm
  · rw [hspent]
    refine ⟨fun h => absurd (hmine.2 ⟨a, h⟩) hany, fun h => absurd (hmine.2 h.1) hany⟩

/-- What one transaction links. -/
def LinkedBy (E : GroupingEnv) (w : WalletNode) (tx : CTransaction) (a b : CTxDestination) : Prop :=
  (∃ c, SpendsFrom E w tx c) ∧ Touches E w tx a ∧ Touches E w tx b

theorem shares_addOwnOutputs {vout : List CTxOut} {groupings : List (List CTxDestination)} {a b : CTxDestination} :
    Shares (vout.foldl (addOwnOutput E w) groupings) a b ↔
      Shares groupings a b ∨ a = b ∧ ∃ txout ∈ vout, ownDestination E w txout = some a := by
  induction vout generalizing groupings with
  | nil => simp
  | cons txout vout ih =>
    rw [List.foldl_cons, ih, List.exists_mem_cons_iff]
    cases hown : ownDestination E w txout with
    | none => simp [addOwnOutput, hown]
    | some c =>
      have hlone : Shares (addOwnOutput E w groupings txout) a b ↔ Shares groupings a b ∨ a = b ∧ c = a := by
        simp only [addOwnOutput, hown]
        rw [shares_insertGrouping, List.mem_singleton, List.mem_singleton]
        refine or_congr_right ⟨fun h => ⟨h.1.trans h.2.symm, h.1.symm⟩, fun h => ⟨h.2.symm, h.1 ▸ h.2.symm⟩⟩
      rw [hlone, Option.some.injEq, or_assoc, ← and_or_left]

theorem shares_addTx {groupings : List (List CTxDestination)} {tx : CTransaction} {a b : CTxDestination} :
    Shares (addTx E w groupings tx) a b ↔
      Shares groupings a b ∨ LinkedBy E w tx a b ∨ a = b ∧ PaysOwn E w tx a := by
  unfold addTx
  dsimp only
  rw [shares_addOwnOutputs, ← or_assoc]
  refine or_congr_left ?_
  have hlinked : LinkedBy E w tx a b ↔ a ∈ txGrouping E w tx ∧ b ∈ txGrouping E w tx := by
    rw [mem_txGrouping, mem_txGrouping]
    exact ⟨fun h => ⟨⟨h.1, h.2.1⟩, h.1, h.2.2⟩, fun h => ⟨h.1.1, h.1.2, h.2.2⟩⟩
  by_cases hvin : tx.vin.length > 0
  · rw [if_pos hvin, hlinked]
    split_ifs with hsize
    · exact shares_insertGrouping
    · have hnil : txGrouping E w tx = [] := List.eq_nil_of_length_eq_zero (Nat.eq_zero_of_not_pos hsize)
      rw [hnil]
      exact (or_iff_left fun h => List.not_mem_nil h.1).symm
  · have hempty : ¬([] : List CTxDestination).length > 0 := Nat.lt_irrefl 0
    rw [if_neg hvin, if_neg hempty]
    -- Without inputs nothing is spent.
    refine (or_iff_left ?_).symm
    rintro ⟨⟨c, txin, htxin, -⟩, -⟩
    exact hvin (List.length_pos_of_mem htxin)

theorem shares_foldl_addTx {txs : List CTransaction} {groupings : List (List CTxDestination)} {a b : CTxDestination} :
    Shares (txs.foldl (addTx E w) groupings) a b ↔
      Shares groupings a b ∨ ∃ tx ∈ txs, LinkedBy E w tx a b ∨ a = b ∧ PaysOwn E w tx a := by
  induction txs generalizing groupings with
  | nil => simp
  | cons tx txs ih => rw [List.foldl_cons, ih, shares_addTx, List.exists_mem_cons_iff, or_assoc]

theorem shares_allGroupings {a b : CTxDestination} :
    Shares (allGroupings E w) a b ↔ ∃ tx ∈ w.walletTxs, LinkedBy E w tx a b ∨ a = b ∧ PaysOwn E w tx a := by
  rw [allGroupings, shares_foldl_addTx]
  exact or_iff_right fun ⟨_, h, _⟩ => absurd h List.not_mem_nil

theorem ne_nil_of_mem_addTx {groupings : List (List CTxDestination)} {tx : CTransaction}
    (hold : ∀ g ∈ groupings, g ≠ []) : ∀ g ∈ addTx E w groupings tx, g ≠ [] := by
  have hlone : ∀ (vout : List CTxOut) (groupings : List (List CTxDestination)), (∀ g ∈ groupings, g ≠ []) →
      ∀ g ∈ vout.foldl (addOwnOutput E w) groupings, g ≠ [] := by
    intro vout
    induction vout with
    | nil => exact fun groupings h => h
    | cons txout vout ih =>
      intro groupings h
      refine ih _ ?_
      unfold addOwnOutput
      split
      · exact h
      · exact ne_nil_of_mem_insertGrouping (List.cons_ne_nil _ _) h
  unfold addTx
  dsimp only
  refine hlone _ _ ?_
  split_ifs with hvin hsize hsize
  · exact ne_nil_of_mem_insertGrouping (List.ne_nil_of_length_pos hsize) hold
  · exact hold
  · exact absurd hsize (Nat.lt_irrefl 0)
  · exact hold

theorem ne_nil_of_mem_allGroupings : ∀ g ∈ allGroupings E w, g ≠ [] := by
  have hrun : ∀ (txs : List CTransaction) (groupings : List (List CTxDestination)), (∀ g ∈ groupings, g ≠ []) →
      ∀ g ∈ txs.foldl (addTx E w) groupings, g ≠ [] := by
    intro txs
    induction txs with
    | nil => exact fun groupings h => h
    | cons tx txs ih => exact fun groupings h => ih _ (ne_nil_of_mem_addTx h)
  exact hrun _ [] fun g hg => absurd hg List.not_mem_nil

/-! ## Merging -/

/-- The set that a pointer points to. -/
def MergeState.content (s : MergeState) (p : Nat) : List CTxDestination :=
  (s.heap.read p).getD []

/-- The state after some groups: exactly the unique groups are allocated, they are the components, and the map leads
from every destination to its component. -/
structure Tracks (groups : List (List CTxDestination)) (s : MergeState) : Prop where
  live : ∀ p, p ∈ s.uniqueGroupings ↔ ∃ g, s.heap.read p = some g
  nodup : s.uniqueGroupings.Nodup
  components : IsComponents groups s.uniqueGroupings s.content
  setmap : ∀ a p, s.setmap.lookup a = some p ↔ p ∈ s.uniqueGroupings ∧ a ∈ s.content p

theorem Tracks.read {groups : List (List CTxDestination)} {s : MergeState} (h : Tracks groups s) {p : Nat}
    (hp : p ∈ s.uniqueGroupings) : s.heap.read p = some (s.content p) := by
  rcases (h.live p).1 hp with ⟨g, hg⟩
  rw [MergeState.content, hg]
  rfl

theorem foldl_hits {setmap : Table CTxDestination Nat} {grouping : List CTxDestination} {hits : List Nat}
    (hnodup : hits.Nodup) :
    (grouping.foldl (fun hits address =>
        match setmap.lookup address with
        | none => hits
        | some p => hits.insert p) hits).Nodup ∧
      ∀ p, p ∈ grouping.foldl (fun hits address =>
        match setmap.lookup address with
        | none => hits
        | some p => hits.insert p) hits ↔ p ∈ hits ∨ ∃ a ∈ grouping, setmap.lookup a = some p := by
  induction grouping generalizing hits with
  | nil => exact ⟨hnodup, by simp⟩
  | cons address grouping ih =>
    rw [List.foldl_cons]
    cases hlookup : setmap.lookup address with
    | none =>
      refine ⟨(ih hnodup).1, fun p => ((ih hnodup).2 p).trans ?_⟩
      simp [hlookup]
    | some q =>
      refine ⟨(ih (List.Nodup.insert hnodup)).1, fun p => ((ih (List.Nodup.insert hnodup)).2 p).trans ?_⟩
      simp [hlookup, List.mem_insert_iff, eq_comm (a := q), or_assoc, or_left_comm]

/-- The hits are the unique groups that meet the new one. -/
theorem Tracks.hits {groups : List (List CTxDestination)} {s : MergeState} (h : Tracks groups s)
    (grouping : List CTxDestination) :
    (hitsOf s grouping).Nodup ∧
      ∀ p, p ∈ hitsOf s grouping ↔ p ∈ s.uniqueGroupings ∧ ¬(s.content p).Disjoint grouping := by
  have hfold : (hitsOf s grouping).Nodup ∧
      ∀ p, p ∈ hitsOf s grouping ↔ p ∈ ([] : List Nat) ∨ ∃ a ∈ grouping, s.setmap.lookup a = some p :=
    foldl_hits List.nodup_nil
  refine ⟨hfold.1, fun p => (hfold.2 p).trans ⟨?_, ?_⟩⟩
  · rintro (hnil | ⟨a, ha, hlookup⟩)
    · cases hnil
    · have hin := (h.setmap a p).1 hlookup
      exact ⟨hin.1, fun hdisjoint => hdisjoint hin.2 ha⟩
  · rintro ⟨hp, hmeets⟩
    by_contra hnone
    exact hmeets fun a ha ha' => hnone (Or.inr ⟨a, ha', (h.setmap a p).2 ⟨hp, ha⟩⟩)

/-- The hits have been merged into the new set, whose elements were `old`. -/
structure MergedHits (m : Nat) (hits : List Nat) (old : List CTxDestination) (s s' : MergeState) : Prop where
  read : ∃ elements, s'.heap.read m = some elements ∧ ∀ a, a ∈ elements ↔ a ∈ old ∨ ∃ p ∈ hits, a ∈ s.content p
  freed : ∀ p ∈ hits, s'.heap.read p = none
  kept : ∀ p, p ≠ m → p ∉ hits → s'.heap.read p = s.heap.read p
  unique : ∀ p, p ∈ s'.uniqueGroupings ↔ p ∈ s.uniqueGroupings ∧ p ∉ hits
  nodup : s'.uniqueGroupings.Nodup
  setmap : s'.setmap = s.setmap

theorem mergeHit_spec {m hit : Nat} {old elements : List CTxDestination} {s : MergeState} (hne : hit ≠ m)
    (hm : s.heap.read m = some old) (hhit : s.heap.read hit = some elements) (hnodup : s.uniqueGroupings.Nodup) :
    ∃ s', mergeHit m s hit = some s' ∧ MergedHits m [hit] old s s' := by
  have hwritten : (s.heap.allocate m (elements.foldl (fun l a => l.insert a) old)).read hit = some elements :=
    (Heap.read_allocate_ne hne).trans hhit
  rcases Heap.free_spec hwritten with ⟨freed, hfree, hgone, hkept⟩
  refine ⟨{ s with heap := freed, uniqueGroupings := s.uniqueGroupings.erase hit }, ?_, ?_⟩
  · simp only [mergeHit, hhit, hm, Heap.write_eq hm, hfree, Option.bind_eq_bind, Option.bind_some, Option.pure_def]
  · refine ⟨⟨_, (hkept m hne.symm).trans Heap.read_allocate, fun a => ?_⟩, fun p hp => ?_, fun p hpm hp => ?_,
      fun p => ?_, hnodup.erase hit, rfl⟩
    · rw [mem_foldl_insert]
      simp only [List.mem_singleton, exists_eq_left, MergeState.content, hhit, Option.getD_some]
    · rw [List.mem_singleton.1 hp]
      exact hgone
    · have hph : p ≠ hit := fun heq => hp (List.mem_singleton.2 heq)
      exact (hkept p hph).trans (Heap.read_allocate_ne hpm)
    · rw [hnodup.mem_erase_iff, List.mem_singleton]
      exact and_comm

/-- No pointer to a deleted set is followed while the hits are merged, and none is deleted twice. -/
theorem foldlM_mergeHit {m : Nat} {hits : List Nat} (hhits : hits.Nodup) (hfresh : m ∉ hits) :
    ∀ {old : List CTxDestination} {s : MergeState}, s.heap.read m = some old →
      (∀ p ∈ hits, ∃ g, s.heap.read p = some g) → s.uniqueGroupings.Nodup →
      ∃ s', hits.foldlM (mergeHit m) s = some s' ∧ MergedHits m hits old s s' := by
  induction hits with
  | nil =>
    intro old s hm _ hnodup
    refine ⟨s, rfl, ⟨old, hm, fun a => ?_⟩, fun p hp => absurd hp List.not_mem_nil, fun _ _ _ => rfl, fun p => ?_, hnodup,
      rfl⟩
    · simp
    · simp
  | cons hit hits ih =>
    intro old s hm hlive hnodup
    have hne : hit ≠ m := fun heq => hfresh (heq ▸ List.mem_cons_self)
    rcases hlive hit List.mem_cons_self with ⟨elements, hhit⟩
    rcases mergeHit_spec hne hm hhit hnodup with ⟨s₁, hstep, h₁⟩
    rcases h₁.read with ⟨old₁, hm₁, hold₁⟩
    rcases List.nodup_cons.1 hhits with ⟨hnotin, hhits'⟩
    -- The other hits are still there.
    have hsame : ∀ p ∈ hits, s₁.heap.read p = s.heap.read p := fun p hp =>
      h₁.kept p (fun heq => hfresh (heq ▸ List.mem_cons_of_mem hit hp)) fun hin =>
        hnotin (List.mem_singleton.1 hin ▸ hp)
    have hlive₁ : ∀ p ∈ hits, ∃ g, s₁.heap.read p = some g := fun p hp => by
      rw [hsame p hp]
      exact hlive p (List.mem_cons_of_mem hit hp)
    rcases ih hhits' (fun hin => hfresh (List.mem_cons_of_mem hit hin)) hm₁ hlive₁ h₁.nodup with ⟨s', hrun, h'⟩
    refine ⟨s', ?_, ?_⟩
    · rw [List.foldlM_cons, hstep]
      exact hrun
    · rcases h'.read with ⟨elements', hread', hmem'⟩
      refine ⟨⟨elements', hread', fun a => ?_⟩, fun p hp => ?_, fun p hpm hp => ?_, fun p => ?_, h'.nodup,
        h'.setmap.trans h₁.setmap⟩
      · have hcontent : (∃ p ∈ hits, a ∈ s₁.content p) ↔ ∃ p ∈ hits, a ∈ s.content p :=
          exists_congr fun p => and_congr_right fun hp => by rw [MergeState.content, hsame p hp, MergeState.content]
        rw [hmem', hold₁, hcontent]
        simp only [List.exists_mem_cons_iff, List.mem_singleton, exists_eq_left, or_assoc]
      · by_cases hin : p ∈ hits
        · exact h'.freed p hin
        · have heq : p = hit := (List.mem_cons.1 hp).resolve_right hin
          have hpm : p ≠ m := heq ▸ hne
          rw [h'.kept p hpm hin, heq]
          exact h₁.freed hit List.mem_cons_self
      · rw [List.mem_cons, not_or] at hp
        rw [h'.kept p hpm hp.2]
        exact h₁.kept p hpm fun hin => hp.1 (List.mem_singleton.1 hin)
      · rw [h'.unique, h₁.unique, List.mem_singleton, List.mem_cons, not_or, and_assoc]

theorem lookup_foldl_insert {elements : List CTxDestination} {m : Nat} {setmap : Table CTxDestination Nat}
    (a : CTxDestination) :
    (elements.foldl (fun setmap element => setmap.insert element m) setmap).lookup a =
      if a ∈ elements then some m else setmap.lookup a := by
  induction elements generalizing setmap with
  | nil => rfl
  | cons b elements ih =>
    rw [List.foldl_cons, ih]
    by_cases hin : a ∈ elements
    · rw [if_pos hin, if_pos (List.mem_cons_of_mem b hin)]
    · rw [if_neg hin]
      by_cases heq : a = b
      · subst heq
        rw [AList.lookup_insert, if_pos List.mem_cons_self]
      · have hnot : a ∉ b :: elements := fun h => (List.mem_cons.1 h).elim heq hin
        rw [AList.lookup_insert_ne heq, if_neg hnot]

/-- **Step.** A new group is merged with all of the groups that it hits. -/
theorem Tracks.merge {groups : List (List CTxDestination)} {s : MergeState} (h : Tracks groups s)
    {grouping : List CTxDestination} (hne : grouping ≠ []) :
    ∃ s', mergeGrouping E s grouping = some s' ∧ Tracks (grouping :: groups) s' := by
  rcases h.hits grouping with ⟨hhits, hmem⟩
  have hperm := E.orderPointers_perm (hitsOf s grouping)
  generalize hm : E.allocate s.heap.keys grouping = m
  have hunread : ∀ g, s.heap.read m ≠ some g := fun g hg =>
    E.allocate_fresh s.heap.keys grouping (hm ▸ Heap.mem_keys.2 ⟨g, hg⟩)
  have hfresh : m ∉ s.uniqueGroupings := fun hin => hunread _ (h.read hin)
  have hmemPointers : ∀ p, p ∈ E.orderPointers (hitsOf s grouping) ↔
      p ∈ s.uniqueGroupings ∧ ¬(s.content p).Disjoint grouping := fun p => hperm.mem_iff.trans (hmem p)
  have hapart : m ∉ E.orderPointers (hitsOf s grouping) := fun hin => hfresh ((hmemPointers m).1 hin).1
  have hother : ∀ p, p ≠ m → (s.heap.allocate m grouping).read p = s.heap.read p := fun p hpm =>
    Heap.read_allocate_ne hpm
  have hlive : ∀ p ∈ E.orderPointers (hitsOf s grouping), ∃ g, (s.heap.allocate m grouping).read p = some g :=
    fun p hp => by
      rw [hother p fun heq => hapart (heq ▸ hp)]
      exact ⟨_, h.read ((hmemPointers p).1 hp).1⟩
  rcases foldlM_mergeHit (hperm.nodup_iff.2 hhits) hapart
    (s := { s with heap := s.heap.allocate m grouping }) Heap.read_allocate hlive h.nodup with ⟨s₁, hrun, h₁⟩
  rcases h₁.read with ⟨elements, hread, helements⟩
  have hcontent : ∀ p ∈ s.uniqueGroupings, MergeState.content { s with heap := s.heap.allocate m grouping } p =
      s.content p := fun p hp => by
    rw [MergeState.content, hother p fun heq => hfresh (heq ▸ hp), MergeState.content]
  obtain ⟨s', hs'⟩ : ∃ s', s' = MergeState.mk s₁.heap (s₁.uniqueGroupings.insert m)
      (elements.foldl (fun setmap element => setmap.insert element m) s₁.setmap) := ⟨_, rfl⟩
  have hrun' : mergeGrouping E s grouping = some s' := by
    simp only [mergeGrouping, hm, hrun, hread, Option.bind_eq_bind, Option.bind_some, Option.pure_def, hs']
  have hcontentNew : s'.content m = elements := by
    rw [hs', MergeState.content, hread]
    rfl
  have hcontentOld : ∀ p, p ≠ m → p ∉ E.orderPointers (hitsOf s grouping) → s'.content p = s.content p :=
    fun p hpm hp => by
      rw [hs', MergeState.content, h₁.kept p hpm hp, hother p hpm, MergeState.content]
  have hunique : ∀ p, p ∈ s'.uniqueGroupings ↔ p = m ∨ p ∈ s.uniqueGroupings ∧ (s.content p).Disjoint grouping :=
    fun p => by
      rw [hs', List.mem_insert_iff, h₁.unique, hmemPointers]
      exact or_congr_right ⟨fun hp => ⟨hp.1, not_not.1 fun hmeets => hp.2 ⟨hp.1, hmeets⟩⟩,
        fun hp => ⟨hp.1, fun hmeets => hmeets.2 hp.2⟩⟩
  have hmerges : Merges grouping m s.uniqueGroupings s.content s'.uniqueGroupings s'.content := by
    refine ⟨hfresh, hunique, fun p hp hpm => ?_, fun a => ?_⟩
    · have hold := ((hunique p).1 hp).resolve_left hpm
      exact hcontentOld p hpm fun hin => ((hmemPointers p).1 hin).2 hold.2
    · rw [hcontentNew, helements]
      refine or_congr_right (exists_congr fun p => ?_)
      rw [hmemPointers, and_assoc]
      exact and_congr_right fun hp => by rw [hcontent p hp]
  have hcomponents := h.components.merge hne hmerges
  refine ⟨s', hrun', fun p => ?_, ?_, hcomponents, fun a p => ?_⟩
  · by_cases hpm : p = m
    · subst hpm
      refine ⟨fun _ => ⟨elements, ?_⟩, fun _ => (hunique p).2 (Or.inl rfl)⟩
      rw [hs']
      exact hread
    · by_cases hin : p ∈ E.orderPointers (hitsOf s grouping)
      · have hgone : s'.heap.read p = none := by
          rw [hs']
          exact h₁.freed p hin
        rw [hunique, hgone]
        have hmeets := ((hmemPointers p).1 hin).2
        refine ⟨fun hp => absurd (hp.resolve_left hpm).2 hmeets, ?_⟩
        rintro ⟨g, hg⟩
        cases hg
      · have hsame : s'.heap.read p = s.heap.read p := by
          rw [hs', h₁.kept p hpm hin, hother p hpm]
        rw [hunique, hsame, ← h.live]
        exact ⟨fun hp => (hp.resolve_left hpm).1, fun hp =>
          Or.inr ⟨hp, not_not.1 fun hmeets => hin ((hmemPointers p).2 ⟨hp, hmeets⟩)⟩⟩
  · rw [hs']
    exact List.Nodup.insert h₁.nodup
  · have hlookup : s'.setmap.lookup a = if a ∈ elements then some m else s.setmap.lookup a := by
      rw [hs', lookup_foldl_insert, h₁.setmap]
    have hmin : m ∈ s'.uniqueGroupings := (hunique m).2 (Or.inl rfl)
    rw [hlookup]
    split_ifs with hin
    · rw [Option.some.injEq]
      constructor
      · rintro rfl
        exact ⟨hmin, hcontentNew ▸ hin⟩
      · rintro ⟨hp, ha⟩
        by_contra hpm
        exact hcomponents.disjoint m hmin p hp hpm (hcontentNew ▸ hin) ha
    · rw [h.setmap]
      constructor
      · rintro ⟨hp, ha⟩
        have hpm : p ≠ m := fun heq => hfresh (heq ▸ hp)
        -- A group that was hit has all of its destinations in the new one.
        have hnohit : p ∉ E.orderPointers (hitsOf s grouping) := fun hhit =>
          hin ((helements a).2 (Or.inr ⟨p, hhit, (hcontent p hp).symm ▸ ha⟩))
        refine ⟨(hunique p).2 (Or.inr ⟨hp, not_not.1 fun hmeets => hnohit ((hmemPointers p).2 ⟨hp, hmeets⟩)⟩), ?_⟩
        rw [hcontentOld p hpm hnohit]
        exact ha
      · rintro ⟨hp, ha⟩
        have hpm : p ≠ m := by
          rintro rfl
          exact hin (hcontentNew ▸ ha)
        have hold := ((hunique p).1 hp).resolve_left hpm
        have hnohit : p ∉ E.orderPointers (hitsOf s grouping) := fun hhit => ((hmemPointers p).1 hhit).2 hold.2
        rw [hcontentOld p hpm hnohit] at ha
        exact ⟨hold.1, ha⟩

theorem tracks_empty : Tracks [] ⟨∅, [], ∅⟩ where
  live := fun p => ⟨fun h => absurd h List.not_mem_nil, fun ⟨g, hg⟩ => by
    rw [Heap.read, AList.lookup_empty] at hg
    cases hg⟩
  nodup := List.nodup_nil
  components := isComponents_nil _
  setmap := fun a p => by
    rw [AList.lookup_empty]
    exact ⟨fun h => (nomatch h), fun h => absurd h.1 List.not_mem_nil⟩

/-- **Run.** Whatever the order of the groups, and wherever the sets are put. -/
theorem Tracks.mergeAll {rest groups : List (List CTxDestination)} {s : MergeState} (h : Tracks groups s)
    (hne : ∀ g ∈ rest, g ≠ []) :
    ∃ s', rest.foldlM (mergeGrouping E) s = some s' ∧ Tracks (rest.reverse ++ groups) s' := by
  induction rest generalizing groups s with
  | nil => exact ⟨s, rfl, h⟩
  | cons g rest ih =>
    rcases h.merge (E := E) (hne g List.mem_cons_self) with ⟨s₁, hstep, h₁⟩
    rcases ih h₁ fun g' hg' => hne g' (List.mem_cons_of_mem g hg') with ⟨s', hrun, h'⟩
    refine ⟨s', ?_, ?_⟩
    · rw [List.foldlM_cons, hstep]
      exact hrun
    · rw [List.reverse_cons, List.append_assoc]
      exact h'

/-! ## Handing them over -/

/-- The result has one set for each pointer, and what was pointed to is gone. -/
theorem foldlM_takeGrouping {pointers : List Nat} (hnodup : pointers.Nodup) :
    ∀ {ret : List (List CTxDestination)} {heap : Heap (List CTxDestination)} {content : Nat → List CTxDestination},
      (∀ p ∈ pointers, heap.read p = some (content p)) → (∀ p ∈ pointers, content p ≠ []) →
      (∀ p ∈ pointers, ∀ g ∈ ret, (content p).Disjoint g) →
      (∀ p ∈ pointers, ∀ q ∈ pointers, p ≠ q → (content p).Disjoint (content q)) →
      ∃ heap', pointers.foldlM takeGrouping (ret, heap) = some (ret ++ pointers.map content, heap') ∧
        (∀ p ∈ pointers, heap'.read p = none) ∧ ∀ p, p ∉ pointers → heap'.read p = heap.read p := by
  induction pointers with
  | nil =>
    intro ret heap content _ _ _ _
    refine ⟨heap, ?_, fun p hp => absurd hp List.not_mem_nil, fun _ _ => rfl⟩
    rw [List.map_nil, List.append_nil]
    rfl
  | cons p pointers ih =>
    intro ret heap content hread hne hapart hdisjoint
    rcases List.nodup_cons.1 hnodup with ⟨hnotin, hnodup'⟩
    have hp := hread p List.mem_cons_self
    rcases Heap.free_spec hp with ⟨freed, hfree, hgone, hkept⟩
    have hnew : insertGrouping ret (content p) = ret ++ [content p] := by
      refine if_neg fun hany => ?_
      rcases List.any_eq_true.1 hany with ⟨g, hg, hsame⟩
      rcases List.exists_mem_of_ne_nil _ (hne p List.mem_cons_self) with ⟨a, ha⟩
      exact hapart p List.mem_cons_self g hg ha ((sameSet_iff.1 hsame a).1 ha)
    have hstep : takeGrouping (ret, heap) p = some (ret ++ [content p], freed) := by
      simp only [takeGrouping, hp, hfree, hnew, Option.bind_eq_bind, Option.bind_some, Option.pure_def]
    have hother : ∀ q ∈ pointers, q ≠ p := fun q hq heq => hnotin (heq ▸ hq)
    have hread' : ∀ q ∈ pointers, freed.read q = some (content q) := fun q hq =>
      (hkept q (hother q hq)).trans (hread q (List.mem_cons_of_mem p hq))
    have hapart' : ∀ q ∈ pointers, ∀ g ∈ ret ++ [content p], (content q).Disjoint g := by
      intro q hq g hg
      rcases List.mem_append.1 hg with hin | hlast
      · exact hapart q (List.mem_cons_of_mem p hq) g hin
      · rw [List.mem_singleton.1 hlast]
        exact hdisjoint q (List.mem_cons_of_mem p hq) p List.mem_cons_self (hother q hq)
    rcases ih hnodup' hread' (fun q hq => hne q (List.mem_cons_of_mem p hq)) hapart'
      (fun q hq r hr => hdisjoint q (List.mem_cons_of_mem p hq) r (List.mem_cons_of_mem p hr)) with
      ⟨heap', hrun, hnone, hsame⟩
    refine ⟨heap', ?_, fun q hq => ?_, fun q hq => ?_⟩
    · rw [List.foldlM_cons, hstep, List.map_cons, List.append_cons ret (content p) (pointers.map content)]
      exact hrun
    · by_cases hin : q ∈ pointers
      · exact hnone q hin
      · have heq : q = p := (List.mem_cons.1 hq).resolve_right hin
        rw [hsame q hin, heq]
        exact hgone
    · rw [List.mem_cons, not_or] at hq
      exact (hsame q hq.2).trans (hkept q hq.1)

/-! ## The whole function -/

/-- A destination of an own output, of a spent own output, or of change. -/
def IsOwn (E : GroupingEnv) (w : WalletNode) (a : CTxDestination) : Prop :=
  ∃ hash wtx, w.mapWallet.lookup hash = some wtx ∧ (PaysOwn E w wtx.tx a ∨ Touches E w wtx.tx a)

/-- A transaction that spends from a destination of the wallet spends from, or sends change to, both. -/
def Linked (E : GroupingEnv) (w : WalletNode) (a b : CTxDestination) : Prop :=
  ∃ hash wtx, w.mapWallet.lookup hash = some wtx ∧ LinkedBy E w wtx.tx a b

theorem mem_walletTxs {tx : CTransaction} :
    tx ∈ w.walletTxs ↔ ∃ hash wtx, w.mapWallet.lookup hash = some wtx ∧ wtx.tx = tx := by
  rw [walletTxs, List.mem_map]
  constructor
  · rintro ⟨⟨hash, wtx⟩, hin, rfl⟩
    exact ⟨hash, wtx, AList.mem_lookup_iff.2 hin, rfl⟩
  · rintro ⟨hash, wtx, hlookup, rfl⟩
    exact ⟨⟨hash, wtx⟩, AList.mem_lookup_iff.1 hlookup, rfl⟩

/-- Change goes to an output of the wallet. -/
theorem ownDestination_of_change {txout : CTxOut} {a : CTxDestination}
    (h : changeDestination E w txout = some a) : ownDestination E w txout = some a := by
  unfold changeDestination at h
  split_ifs at h with hchange
  unfold ownDestination
  split_ifs with hmine
  · rw [isChange, if_pos hmine] at hchange
    cases hchange
  · exact h

theorem isOwn_iff {a : CTxDestination} : IsOwn E w a ↔ Shares (allGroupings E w) a a := by
  rw [shares_allGroupings]
  constructor
  · rintro ⟨hash, wtx, hlookup, hpays | hspends | ⟨txout, htxout, hchange⟩⟩
    · exact ⟨wtx.tx, mem_walletTxs.2 ⟨hash, wtx, hlookup, rfl⟩, Or.inr ⟨rfl, hpays⟩⟩
    · exact ⟨wtx.tx, mem_walletTxs.2 ⟨hash, wtx, hlookup, rfl⟩, Or.inl ⟨⟨a, hspends⟩, Or.inl hspends, Or.inl hspends⟩⟩
    · exact ⟨wtx.tx, mem_walletTxs.2 ⟨hash, wtx, hlookup, rfl⟩,
        Or.inr ⟨rfl, txout, htxout, ownDestination_of_change hchange⟩⟩
  · rintro ⟨tx, htx, hlink⟩
    rcases mem_walletTxs.1 htx with ⟨hash, wtx, hlookup, rfl⟩
    rcases hlink with ⟨-, htouches, -⟩ | ⟨-, hpays⟩
    · exact ⟨hash, wtx, hlookup, Or.inr htouches⟩
    · exact ⟨hash, wtx, hlookup, Or.inl hpays⟩

/-- The lone addresses link nothing. -/
theorem chain_iff {a b : CTxDestination} :
    ReflTransGen (Shares (allGroupings E w)) a b ↔ ReflTransGen (Linked E w) a b := by
  constructor
  · intro h
    induction h with
    | refl => exact ReflTransGen.refl
    | tail _ hshares ih =>
      rcases shares_allGroupings.1 hshares with ⟨tx, htx, hlinked | ⟨heq, -⟩⟩
      · rcases mem_walletTxs.1 htx with ⟨hash, wtx, hlookup, rfl⟩
        exact ReflTransGen.tail ih ⟨hash, wtx, hlookup, hlinked⟩
      · exact heq ▸ ih
  · intro h
    induction h with
    | refl => exact ReflTransGen.refl
    | tail _ hlinked ih =>
      rcases hlinked with ⟨hash, wtx, hlookup, hlinked⟩
      exact ReflTransGen.tail ih
        (shares_allGroupings.2 ⟨wtx.tx, mem_walletTxs.2 ⟨hash, wtx, hlookup, rfl⟩, Or.inl hlinked⟩)

/-- `GetAddressGroupings` returns the components of the own destinations, and deletes every set that it has allocated. -/
theorem getAddressGroupings_components (E : GroupingEnv) (w : WalletNode) :
    ∃ ret heap, getAddressGroupings E w = some (ret, heap) ∧ heap.keys = [] ∧ (∀ g ∈ ret, g ≠ []) ∧
      ret.Pairwise List.Disjoint ∧ (∀ a, (∃ g ∈ ret, a ∈ g) ↔ IsOwn E w a) ∧
      ∀ a b, (∃ g ∈ ret, a ∈ g ∧ b ∈ g) ↔ IsOwn E w a ∧ ReflTransGen (Linked E w) a b := by
  have horder : ∀ g, g ∈ E.orderGroups (allGroupings E w) ↔ g ∈ allGroupings E w := fun g =>
    (E.orderGroups_perm _).mem_iff
  have hne : ∀ g ∈ E.orderGroups (allGroupings E w), g ≠ [] := fun g hg =>
    ne_nil_of_mem_allGroupings g ((horder g).1 hg)
  have hrun := tracks_empty.mergeAll (E := E) hne
  rcases hrun with ⟨s, hmerge, h⟩
  have hcomponents : IsComponents (allGroupings E w) s.uniqueGroupings s.content :=
    h.components.congr fun g => by rw [List.append_nil, List.mem_reverse, horder]
  have hperm := E.orderPointers_perm s.uniqueGroupings
  have hnodup : (E.orderPointers s.uniqueGroupings).Nodup := hperm.nodup_iff.2 h.nodup
  have hdisjoint : ∀ p ∈ E.orderPointers s.uniqueGroupings, ∀ q ∈ E.orderPointers s.uniqueGroupings, p ≠ q →
      (s.content p).Disjoint (s.content q) := fun p hp q hq =>
    hcomponents.disjoint p (hperm.mem_iff.1 hp) q (hperm.mem_iff.1 hq)
  have hfresh : ∀ p ∈ E.orderPointers s.uniqueGroupings, ∀ g ∈ ([] : List (List CTxDestination)),
      (s.content p).Disjoint g := fun _ _ g hg => absurd hg List.not_mem_nil
  rcases foldlM_takeGrouping hnodup (fun p hp => h.read (hperm.mem_iff.1 hp))
    (fun p hp => hcomponents.nonempty p (hperm.mem_iff.1 hp)) hfresh hdisjoint with
    ⟨heap, htake, hfreed, hkept⟩
  have hnone : ∀ p, heap.read p = none := by
    intro p
    by_cases hp : p ∈ s.uniqueGroupings
    · exact hfreed p (hperm.mem_iff.2 hp)
    · rw [hkept p fun hin => hp (hperm.mem_iff.1 hin)]
      cases hread : s.heap.read p with
      | none => rfl
      | some g => exact absurd ((h.live p).2 ⟨g, hread⟩) hp
  have hmem : ∀ P : List CTxDestination → Prop,
      (∃ g ∈ [] ++ (E.orderPointers s.uniqueGroupings).map s.content, P g) ↔ ∃ p ∈ s.uniqueGroupings, P (s.content p) := by
    intro P
    rw [List.nil_append]
    constructor
    · rintro ⟨g, hg, hP⟩
      rcases List.mem_map.1 hg with ⟨p, hp, rfl⟩
      exact ⟨p, hperm.mem_iff.1 hp, hP⟩
    · rintro ⟨p, hp, hP⟩
      exact ⟨s.content p, List.mem_map_of_mem (hperm.mem_iff.2 hp), hP⟩
  have hown : ∀ a, (∃ g ∈ allGroupings E w, a ∈ g) ↔ IsOwn E w a := fun a => by
    rw [isOwn_iff]
    exact exists_congr fun g => and_congr_right fun _ => (and_self_iff).symm
  refine ⟨[] ++ (E.orderPointers s.uniqueGroupings).map s.content, heap, ?_, Heap.keys_eq_nil hnone, fun g hg => ?_, ?_,
    fun a => ?_, fun a b => ?_⟩
  · simp only [getAddressGroupings, hmerge, Option.bind_eq_bind, Option.bind_some]
    exact htake
  · rw [List.nil_append] at hg
    rcases List.mem_map.1 hg with ⟨p, hp, rfl⟩
    exact hcomponents.nonempty p (hperm.mem_iff.1 hp)
  · rw [List.nil_append, List.pairwise_map]
    exact hnodup.imp_of_mem fun hp hq hne => hdisjoint _ hp _ hq hne
  · exact (hmem fun g => a ∈ g).trans ((hcomponents.cover a).trans (hown a))
  · refine (hmem fun g => a ∈ g ∧ b ∈ g).trans (hcomponents.sameBlock_iff.trans ?_)
    rw [hown, chain_iff]

/-! ## Change without an input that has a destination -/

/-- The keys `1` and `2` are in the wallet; the script `OP_1`, which has no destination, is watched. -/
def groupingEnv : GroupingEnv where
  toBalanceEnv :=
    { AccountWallet.balanceEnv with
      isMine := fun _ script =>
        if script = [0x51] then ismineWatchOnly
        else if script = (CTxDestination.keyID 1).script ∨ script = (CTxDestination.keyID 2).script then ismineSpendable
        else ismineNo
      extractDestination := extractDestination DataCarrier.default fun _ => 0 }
  orderGroups := id
  orderGroups_perm := List.Perm.refl
  orderPointers := id
  orderPointers_perm := List.Perm.refl
  allocate := fun live _ => live.sum + 1
  allocate_fresh := fun _ _ hin => Nat.not_succ_le_self _ (List.le_sum_of_mem hin)

/-- Spends what the watched script has received, and pays two keys that are not in the address book. -/
def changeTx : CTransaction where
  nVersion := 2
  vin := [⟨⟨1, 0⟩, [], 0⟩]
  vout := [⟨20, (CTxDestination.keyID 1).script⟩, ⟨19, (CTxDestination.keyID 2).script⟩]
  nLockTime := 0

def changeWallet : WalletNode :=
  pendingWallet [orphanTx 1 [7], changeTx]

theorem changeWallet_checked :
    changeTx ∈ changeWallet.walletTxs ∧
      changeWallet.prevOut ⟨⟨1, 0⟩, [], 0⟩ = some ⟨40, [0x51]⟩ ∧
      changeTx.vout.map (changeDestination groupingEnv changeWallet) = [some (.keyID 1), some (.keyID 2)] ∧
      (getAddressGroupings groupingEnv changeWallet).map Prod.fst = some [[.keyID 2], [.keyID 1]] := by
  decide

/-- A transaction that spends an own output and sends change to two destinations does not link them, when the output
has no destination itself. -/
theorem getAddressGroupings_splits_change :
    changeTx ∈ changeWallet.walletTxs ∧
      (∃ txin ∈ changeTx.vin, ∃ txout, changeWallet.prevOut txin = some txout ∧
        groupingEnv.isMine changeWallet.keys.keystore txout.scriptPubKey ≠ ismineNo) ∧
      SendsChangeTo groupingEnv changeWallet changeTx (.keyID 1) ∧
      SendsChangeTo groupingEnv changeWallet changeTx (.keyID 2) ∧
      ∃ ret heap, getAddressGroupings groupingEnv changeWallet = some (ret, heap) ∧
        ¬∃ g ∈ ret, CTxDestination.keyID 1 ∈ g ∧ CTxDestination.keyID 2 ∈ g := by
  rcases changeWallet_checked with ⟨hin, hprev, hchange, hret⟩
  rcases List.cons_eq_cons.1 hchange with ⟨hfirst, hrest⟩
  have hsecond := (List.cons_eq_cons.1 hrest).1
  refine ⟨hin, ⟨_, List.mem_cons_self, _, hprev, by decide⟩, ⟨_, List.mem_cons_self, hfirst⟩,
    ⟨_, List.mem_cons_of_mem _ List.mem_cons_self, hsecond⟩, ?_⟩
  rcases Option.map_eq_some_iff.1 hret with ⟨⟨ret, heap⟩, hrun, rfl⟩
  exact ⟨_, heap, hrun, by decide⟩

end Dobbscoin.WalletNode
