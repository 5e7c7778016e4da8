import Dobbscoin.Chain.Locator
import Dobbscoin.Net.GetHeaders
import Dobbscoin.Validation.NodeInv

/-!
# Locators read by another node

`FindForkInGlobalIndex` on a locator that another node has built.  It finds a block of the branch that is
on the reader's active chain and not above the fork, and the fork itself when that is near the start of the
locator.  `activeChain_locators` collects what `CChain` promises.
-/

namespace Dobbscoin

/-- The highest block of the branch of `p` on a chain. -/
def BlockMap.ForkPoint (m : BlockMap) (chain : CChain) (p f : UInt256) : Prop :=
  m.Ancestor f p ∧ f ∈ chain ∧ ∀ c, m.Ancestor c p → c ∈ chain → m.Ancestor c f

namespace NodeState

variable {W : Type} {m : BlockMap} {s : NodeState W}

/-- The reader: its active chain is linked, stored, and starts with the first block of the branch. -/
structure Reads (m : BlockMap) (p : UInt256) (s : NodeState W) : Prop where
  linked : CChain.Linked s.mapBlockIndex s.chainActive
  stored : ChainStored s
  genesis : ∃ g ∈ s.chainActive, m.Ancestor g p ∧ (m.entry g).nHeight = 0

/-- The test of `FindForkInGlobalIndex` is membership. -/
theorem Reads.found_iff {p : UInt256} (h : s.Reads m p) {hash : UInt256} :
    ((s.mapBlockIndex.lookup hash).isSome && s.chainActive.contains s.mapBlockIndex hash) = true ↔
      hash ∈ s.chainActive := by
  rw [Bool.and_eq_true, h.linked.contains_iff]
  exact ⟨And.right, fun hmem => ⟨h.stored hash hmem, hmem⟩⟩

/-- The loop stops at the first hash that is on the chain. -/
theorem Reads.findFork_first {p : UInt256} (h : s.Reads m p) {vHave : List UInt256}
    (hfound : ∃ x ∈ vHave, x ∈ s.chainActive) :
    ∃ before f after, vHave = before ++ f :: after ∧ s.findForkInGlobalIndex vHave = some f ∧
      f ∈ s.chainActive ∧ ∀ b ∈ before, b ∉ s.chainActive := by
  induction vHave with
  | nil => simp at hfound
  | cons hash vHave ih =>
    rw [findForkInGlobalIndex]
    by_cases hhash : hash ∈ s.chainActive
    · rw [if_pos (h.found_iff.2 hhash)]
      exact ⟨[], hash, vHave, rfl, rfl, hhash, by simp⟩
    · rw [if_neg (mt h.found_iff.1 hhash)]
      have hrest : ∃ x ∈ vHave, x ∈ s.chainActive := by
        rcases hfound with ⟨x, hx, hxc⟩
        rcases List.mem_cons.1 hx with rfl | hx
        · exact absurd hxc hhash
        · exact ⟨x, hx, hxc⟩
      rcases ih hrest with ⟨before, f, after, rfl, hf, hfc, hbefore⟩
      refine ⟨hash :: before, f, after, rfl, hf, hfc, fun b hb => ?_⟩
      rcases List.mem_cons.1 hb with rfl | hb
      · exact hhash
      · exact hbefore b hb

/-- There is a fork point. -/
theorem Reads.exists_forkPoint (hm : m.WellFormed) {p : UInt256} (h : s.Reads m p) :
    ∃ f, m.ForkPoint s.chainActive p f := by
  classical
  rcases h.genesis with ⟨g, hgc, hgp, hg⟩
  let P : Nat → Prop := fun n => ∃ c, m.Ancestor c p ∧ c ∈ s.chainActive ∧ (m.entry c).nHeight = n
  have hzero : P 0 := ⟨g, hgp, hgc, hg⟩
  rcases Nat.findGreatest_spec (Nat.zero_le (m.entry p).nHeight) hzero with ⟨f, hfp, hfc, hf⟩
  refine ⟨f, hfp, hfc, fun c hcp hcc => BlockMap.Ancestor.of_height_le hm hcp hfp ?_⟩
  rw [hf]
  exact Nat.le_findGreatest (BlockMap.Ancestor.height_le hm hcp) ⟨c, hcp, hcc, rfl⟩

/-- **`FindForkInGlobalIndex`** on a locator of the block `p`. -/
theorem Reads.findFork_spec (hm : m.WellFormed) {p : UInt256} (h : s.Reads m p) {vHave : List UInt256}
    (hloc : CChain.LocatorTail m (m.entry p).nHeight 0 p vHave) :
    ∃ f F, s.findForkInGlobalIndex vHave = some f ∧ m.Ancestor f p ∧ f ∈ s.chainActive ∧
      m.ForkPoint s.chainActive p F ∧ m.Ancestor f F ∧
      ((m.entry p).nHeight ≤ (m.entry F).nHeight + 10 → f = F) := by
  rcases h.exists_forkPoint hm with ⟨F, hF⟩
  have hfound : ∃ x ∈ vHave, x ∈ s.chainActive := by
    rcases h.genesis with ⟨g, hgc, hgp, hg⟩
    rcases hloc.genesis with ⟨x, hx, hxh⟩
    have hxmem := List.mem_of_getLast? hx
    have hsame : g = x := BlockMap.Ancestor.eq_of_height hm
      (BlockMap.Ancestor.of_height_le hm hgp (hloc.branch x hxmem) (by omega)) (by omega)
    exact ⟨x, hxmem, hsame ▸ hgc⟩
  rcases h.findFork_first hfound with ⟨before, f, after, rfl, hf, hfc, hbefore⟩
  have hfp : m.Ancestor f p := hloc.branch f (by simp)
  have hfF : m.Ancestor f F := hF.2.2 f hfp hfc
  refine ⟨f, F, hf, hfp, hfc, hF, hfF, fun hnear => ?_⟩
  -- The fork is in the locator, and what comes before the hit is not on the chain.
  have hmem := hloc.dense F hF.1 (by omega)
  rcases List.mem_append.1 hmem with hin | hin
  · exact absurd hF.2.1 (hbefore F hin)
  rcases List.mem_cons.1 hin with heq | hin
  · exact heq.symm
  have hlower := List.rel_of_pairwise_cons (List.pairwise_append.1 hloc.decreasing).2.1 hin
  have hle := BlockMap.Ancestor.height_le hm hfF
  omega

end NodeState

/-- **The active chain and locators.**  In a tree with one first block, after any sequence of `SetTip`
calls the vector lists the ancestors of the tip by height, `FindFork` finds the highest common ancestor, and
a locator of any block leads any reader to a block of the branch at or below the fork. -/
theorem activeChain_locators {m : BlockMap} (hm : m.WellFormed) (hskip : m.SkipList)
    (hheight : ∀ p, (m.entry p).nHeight < 2 ^ 31)
    (hgenesis : ∀ p q, (m.lookup p).isSome → (m.lookup q).isSome →
      (m.entry p).pprev = none → (m.entry q).pprev = none → p = q)
    (tips : List (Option UInt256)) {t : UInt256} (ht : (m.lookup t).isSome) :
    ∃ chain : CChain, VChain.setTips m [] (tips ++ [some t]) = .ok (chain.map some) ∧
      (chain.length = (m.entry t).nHeight + 1 ∧
        ∀ i a, chain[i]? = some a ↔ m.Ancestor a t ∧ (m.entry a).nHeight = i) ∧
      (∀ p, chain.contains m p = true ↔ m.Ancestor p t) ∧
      (∀ p q, chain.next m p = some q ↔ m.Ancestor q t ∧ (m.entry q).pprev = some p) ∧
      (∀ (nHeight : Int) a, chain.atHeight nHeight = some a ↔
        m.Ancestor a t ∧ ((m.entry a).nHeight : Int) = nHeight) ∧
      (∀ p, (m.lookup p).isSome → ∃ f, chain.findFork m p = some f ∧ m.Ancestor f p ∧ m.Ancestor f t ∧
        ∀ c, m.Ancestor c p → m.Ancestor c t → m.Ancestor c f) ∧
      ∀ p, (m.lookup p).isSome → ∃ vHave, chain.getLocator m (some p) = .ok vHave ∧
        (∃ g, vHave.getLast? = some g ∧ (m.entry g).pprev = none) ∧
        (∀ a ∈ vHave, m.Ancestor a p) ∧
        (vHave.Pairwise fun a b => (m.entry b).nHeight < (m.entry a).nHeight) ∧
        vHave.length ≤ 12 + Nat.log2 ((m.entry p).nHeight + 2) ∧
        ∀ {W : Type} (s : NodeState W), s.Reads m p →
          ∃ f F, s.findForkInGlobalIndex vHave = some f ∧ m.Ancestor f p ∧ f ∈ s.chainActive ∧
            m.ForkPoint s.chainActive p F ∧ m.Ancestor f F ∧
            ((m.entry p).nHeight ≤ (m.entry F).nHeight + 10 → f = F) := by
  have hempty : VChain.OfTip m [] none := rfl
  rcases VChain.setTips_spec hm (tips ++ [some t]) hempty with ⟨v, hrun, hv⟩
  rw [List.getLastD_concat] at hv
  rcases CChain.exists_of_vector hm hv with ⟨chain, rfl, hchain⟩
  have hlinked := hchain.linked hm
  have hroot : ∀ a, (m.entry a).nHeight = 0 → (m.entry a).pprev = none := by
    intro a ha
    cases hprev : (m.entry a).pprev with
    | none => rfl
    | some q =>
      have hq := hm.height a q hprev
      omega
  refine ⟨chain, hrun, ⟨hchain.length, hchain.getElem?_iff⟩, fun p => hchain.contains_iff hm,
    fun p q => hchain.next_iff hm, fun nHeight a => hchain.atHeight_iff, fun p hp => ?_, fun p hp => ?_⟩
  · -- The first blocks of the two branches are the same.
    rcases hm.exists_ancestor p (Nat.zero_le _) with ⟨g, hgp, hg⟩
    rcases hm.exists_ancestor t (Nat.zero_le _) with ⟨g', hgt, hg'⟩
    have hsame : g = g' := hgenesis g g' (hm.stored_of_ancestor hgp hp) (hm.stored_of_ancestor hgt ht)
      (hroot g hg) (hroot g' hg')
    rcases hlinked.findFork_spec hm hskip ⟨g, hgp, hchain.mem_iff.2 (hsame ▸ hgt)⟩ with
      ⟨f, hf, hfp, hfc, hhigh⟩
    exact ⟨f, hf, hfp, hchain.mem_iff.1 hfc, fun c hcp hct => hhigh c hcp (hchain.mem_iff.2 hct)⟩
  · rcases CChain.getLocator_spec hm hskip hlinked hp (hheight p) with ⟨vHave, hloc, htail, hlength⟩
    rcases htail.genesis with ⟨g, hg, hgh⟩
    exact ⟨vHave, hloc, ⟨g, hg, hroot g hgh⟩, htail.branch, htail.decreasing, hlength,
      fun s hs => hs.findFork_spec hm htail⟩

/-! ## A reader on another branch -/

/-- A tree with a fork on top of its third block, skip pointers in place. -/
def forkedTree : BlockMap :=
  [(1, none, none, 0), (2, some 1, some 1, 1), (3, some 2, some 1, 2), (4, some 3, some 2, 3),
    (5, some 3, some 2, 3)].map
    fun (hash, pprev, pskip, nHeight) =>
      { CBlockIndex.null with phashBlock := hash, pprev := pprev, pskip := pskip, nHeight := nHeight }

/-- A node with one branch of the tree as its active chain. -/
def forkedNode : NodeState Unit where
  mapBlockIndex := forkedTree
  chainActive := [1, 2, 3, 4]
  setBlockIndexCandidates := []
  pindexBestInvalid := none
  pindexBestHeader := none
  mapBlocksUnlinked := []
  nBlockSequenceId := 0
  world := ()

/-- A run to a branch and to the other one; the locator of the second tip leads the reader to the fork. -/
theorem forkedTree_locator : ∃ chain : CChain,
    VChain.setTips forkedTree [] ([some 4] ++ [some 5]) = .ok (chain.map some) ∧
    ∃ vHave, chain.getLocator forkedTree (some 5) = .ok vHave ∧
      ∃ f F, forkedNode.findForkInGlobalIndex vHave = some f ∧
        forkedTree.ForkPoint forkedNode.chainActive 5 F ∧ f = F := by
  have hinv : NodeState.NodeInv forkedNode := NodeState.nodeInv_of_check (by decide)
  have hlow : ∀ p, (forkedTree.entry p).nHeight ≤ 3 := by
    intro p
    unfold BlockMap.entry
    cases hp : forkedTree.lookup p with
    | none => exact Nat.zero_le 3
    | some i =>
      have hall : ∀ i ∈ forkedTree, i.nHeight ≤ 3 := by decide
      exact hall i (BlockMap.lookup_mem hp).1
  have hroots : ∀ p, (forkedTree.lookup p).isSome → (forkedTree.entry p).pprev = none → p = 1 := by
    intro p hp hprev
    rcases Option.isSome_iff_exists.1 hp with ⟨i, hi⟩
    rcases BlockMap.lookup_mem hi with ⟨hmem, rfl⟩
    rw [BlockMap.entry_of_lookup hi] at hprev
    have hall : ∀ i ∈ forkedTree, i.pprev = none → i.phashBlock = 1 := by decide
    exact hall i hmem hprev
  have htree : forkedTree.WellFormed := hinv.tree.tree
  have hskips : forkedTree.SkipList := hinv.skips
  rcases activeChain_locators htree hskips (fun p => Nat.lt_of_le_of_lt (hlow p) (by decide))
    (fun p q hp hq hpp hqp => (hroots p hp hpp).trans (hroots q hq hqp).symm) [some 4]
    (t := 5) (by decide) with ⟨chain, hrun, -, -, -, -, -, hloc⟩
  rcases hloc 5 (by decide) with ⟨vHave, hv, -, -, -, -, hreads⟩
  have hreader : forkedNode.Reads forkedTree 5 := by
    refine ⟨hinv.tree.chain, hinv.chainStored, 1, by decide, ?_, rfl⟩
    have h5 : forkedTree.Ancestor 3 5 := BlockMap.ancestor_pprev rfl
    have h3 : forkedTree.Ancestor 2 3 := BlockMap.ancestor_pprev rfl
    exact ((BlockMap.ancestor_pprev rfl : forkedTree.Ancestor 1 2).trans h3).trans h5
  rcases hreads forkedNode hreader with ⟨f, F, hf, -, -, hF, -, hnear⟩
  have h5 : (forkedTree.entry 5).nHeight = 3 := rfl
  exact ⟨chain, hrun, vHave, hv, f, F, hf, hF, hnear (by omega)⟩

end Dobbscoin
