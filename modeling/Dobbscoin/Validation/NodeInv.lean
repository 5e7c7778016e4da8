import Dobbscoin.Chain.SkipList
import Dobbscoin.Validation.Moves
import Dobbscoin.Validation.Reconsider

/-!
# The invariant of the chain state

The entries form a tree, the active chain is a path in it, and everything the chain state points to is
stored.  Every operation keeps this, whatever blocks, clocks and disks it meets.
-/

namespace Dobbscoin

namespace BlockMap

variable {m : BlockMap} {f : CBlockIndex → CBlockIndex}

theorem lookup_modify (m : BlockMap) (h p : UInt256) (hf : ∀ i, (f i).phashBlock = i.phashBlock) :
    (m.modify h f).lookup p = (m.lookup p).map fun i => if p = h then f i else i :=
  lookup_map m h p hf

theorem entry_modify_of_ne {h p : UInt256} (hf : ∀ i, (f i).phashBlock = i.phashBlock) (hp : p ≠ h) :
    (m.modify h f).entry p = m.entry p := by
  simp [entry, lookup_modify m h p hf, hp]

theorem entry_modify_self {h : UInt256} (hf : ∀ i, (f i).phashBlock = i.phashBlock)
    (hh : (m.lookup h).isSome) : (m.modify h f).entry h = f (m.entry h) := by
  rcases Option.isSome_iff_exists.1 hh with ⟨i, hi⟩
  simp [entry, lookup_modify m h h hf, hi]

/-- An assignment that leaves the links, the height and the work alone. -/
structure KeepsShape (f : CBlockIndex → CBlockIndex) : Prop where
  phashBlock : ∀ i, (f i).phashBlock = i.phashBlock
  pprev : ∀ i, (f i).pprev = i.pprev
  pskip : ∀ i, (f i).pskip = i.pskip
  nHeight : ∀ i, (f i).nHeight = i.nHeight
  nChainWork : ∀ i, (f i).nChainWork = i.nChainWork

theorem sameShape_modify (m : BlockMap) (h : UInt256) (hf : KeepsShape f) :
    m.SameShape (m.modify h f) := by
  have hcases : ∀ p, (m.modify h f).entry p = m.entry p ∨ (m.modify h f).entry p = f (m.entry p) := by
    intro p
    by_cases hp : p = h
    · subst hp
      cases hl : m.lookup p with
      | none => exact Or.inl (by simp [entry, lookup_modify m p p hf.phashBlock, hl])
      | some i => exact Or.inr (entry_modify_self hf.phashBlock (by simp [hl]))
    · exact Or.inl (entry_modify_of_ne hf.phashBlock hp)
  constructor
  · intro p
    rw [lookup_modify m h p hf.phashBlock, Option.isSome_map]
  all_goals
    intro p
    rcases hcases p with heq | heq
    · rw [heq]
    · simp only [heq, hf.pprev, hf.pskip, hf.nHeight, hf.nChainWork]

end BlockMap

namespace NodeState

variable {W : Type} {s s' : NodeState W}

/-- The entry exists. -/
def Stored (s : NodeState W) (p : UInt256) : Prop :=
  (s.mapBlockIndex.lookup p).isSome = true

structure NodeInv (s : NodeState W) : Prop where
  tree : TreeInv s
  skips : s.mapBlockIndex.SkipList
  chainStored : ∀ p ∈ s.chainActive, s.Stored p
  candidatesStored : ∀ p ∈ s.setBlockIndexCandidates, s.Stored p
  unlinkedStored : ∀ e ∈ s.mapBlocksUnlinked, s.Stored e.2

/-- An update that leaves the shape of the tree alone. -/
structure Update (s s' : NodeState W) : Prop where
  shape : s.mapBlockIndex.SameShape s'.mapBlockIndex
  chain : CChain.Linked s.mapBlockIndex s'.chainActive
  chainStored : ∀ p ∈ s'.chainActive, s.Stored p
  candidates : ∀ p ∈ s'.setBlockIndexCandidates, s.Stored p
  unlinked : ∀ e ∈ s'.mapBlocksUnlinked, s.Stored e.2

theorem NodeInv.update (h : NodeInv s) (hu : Update s s') : NodeInv s' := by
  have hstored : ∀ p, s.Stored p → s'.Stored p := by
    intro p hp
    unfold Stored
    rw [hu.shape.stored]
    exact hp
  exact ⟨⟨hu.shape.wellFormed h.tree.tree, hu.shape.linked hu.chain⟩, hu.shape.skipList h.skips,
    fun p hp => hstored p (hu.chainStored p hp), fun p hp => hstored p (hu.candidates p hp),
    fun e he => hstored e.2 (hu.unlinked e he)⟩

/-- Chain and unlinked blocks stay, candidates may only come from what is stored. -/
theorem NodeInv.update_same (h : NodeInv s) (hshape : s.mapBlockIndex.SameShape s'.mapBlockIndex)
    (hchain : s'.chainActive = s.chainActive)
    (hcands : ∀ p ∈ s'.setBlockIndexCandidates, p ∈ s.setBlockIndexCandidates ∨ s.Stored p)
    (hunlinked : ∀ e ∈ s'.mapBlocksUnlinked, e ∈ s.mapBlocksUnlinked ∨ s.Stored e.2) : NodeInv s' := by
  apply h.update
  refine ⟨hshape, ?_, ?_, ?_, ?_⟩
  · rw [hchain]
    exact h.tree.chain
  · rw [hchain]
    exact h.chainStored
  · intro p hp
    exact (hcands p hp).elim (h.candidatesStored p) id
  · intro e he
    exact (hunlinked e he).elim (h.unlinkedStored e) id

/-! ## ActivateBestChain -/

theorem mapBlocksUnlinked_noteInvalid (s : NodeState W) (p : UInt256) :
    (s.noteInvalid p).mapBlocksUnlinked = s.mapBlocksUnlinked := by
  unfold noteInvalid
  split
  · rfl
  · split_ifs <;> rfl

/-- What marking a branch leaves of the rest of the state. -/
theorem markFailedChild_frame (t : UInt256) (fuel : Nat) (start : Option UInt256)
    (s : NodeState W) :
    (markFailedChild t fuel start s).mapBlocksUnlinked = s.mapBlocksUnlinked ∧
      (markFailedChild t fuel start s).setBlockIndexCandidates ⊆ s.setBlockIndexCandidates := by
  induction fuel generalizing start s with
  | zero => exact ⟨rfl, fun _ hp => hp⟩
  | succ fuel ih =>
    cases start with
    | none => exact ⟨rfl, fun _ hp => hp⟩
    | some p =>
      rw [markFailedChild]
      split_ifs
      · exact ⟨rfl, fun _ hp => hp⟩
      · rcases ih (s.idx p).pprev
          ((s.setStatus p fun n => { n with failedChild := true }).eraseCandidate p) with ⟨hu, hc⟩
        exact ⟨hu, fun q hq => (List.mem_filter.1 (hc hq)).1⟩

theorem markConnected_unlinked (P : CChainParams) (s : NodeState W) (p : UInt256) :
    (s.markConnected P p).mapBlocksUnlinked = s.mapBlocksUnlinked := by
  unfold markConnected
  split_ifs <;> rfl

/-- Disconnecting the tip. -/
theorem NodeInv.disconnected {t : UInt256} (hs : NodeInv s) (tip : s.tip = some t) (w : W) :
    NodeInv (({ s with world := w } : NodeState W).updateTip (s.idx t).pprev) := by
  have hchain : s.chainActive.setTip s.mapBlockIndex (s.idx t).pprev = s.chainActive.dropLast :=
    CChain.setTip_parent hs.tree.chain tip
  apply hs.update
  refine ⟨.refl _, ?_, ?_, hs.candidatesStored, hs.unlinkedStored⟩
  · simp only [updateTip, hchain]
    exact hs.tree.chain.dropLast
  · intro q hq
    simp only [updateTip, hchain] at hq
    exact hs.chainStored q (List.dropLast_subset _ hq)

/-- **Step.** -/
theorem Move.nodeInv {H : Crypto} {ops : TipOps W} {P : CChainParams} {given : Option CBlock}
    {Ready : NodeState W → UInt256 → Prop} (hready : ∀ s p, Ready s p → Stored s p) (hs : NodeInv s)
    (h : Move H ops P given Ready s s') : NodeInv s' := by
  cases h with
  | world w => exact hs.update_same (.refl _) rfl (fun _ hp => Or.inl hp) fun _ he => Or.inl he
  | note p =>
    have hsame := sameChain_noteInvalid s p
    refine hs.update_same hsame.tree.sameShape hsame.chain ?_ ?_
    · intro q hq
      rw [noteInvalid_candidates] at hq
      exact Or.inl hq
    · intro e he
      rw [mapBlocksUnlinked_noteInvalid] at he
      exact Or.inl he
  | @dropFailed p t best found =>
    have hsame := ((sameChain_noteInvalid s p).trans (sameChain_markFailedChild t
      ((s.idx p).nHeight + 1) (some p) (s.noteInvalid p))).trans (sameChain_eraseCandidate _ t)
    rcases markFailedChild_frame t ((s.idx p).nHeight + 1) (some p) (s.noteInvalid p) with ⟨hu, hc⟩
    refine hs.update_same hsame.tree.sameShape hsame.chain ?_ ?_
    · intro q hq
      have hq' := hc (List.mem_filter.1 hq).1
      rw [noteInvalid_candidates] at hq'
      exact Or.inl hq'
    · intro e he
      refine Or.inl ?_
      rw [← mapBlocksUnlinked_noteInvalid s p, ← hu]
      exact he
  | @disconnect t w tip ok => exact hs.disconnected tip w
  | @connect _ p pblock w source ready parent ok pruned =>
    rcases connected_spec (P := P) hs.tree parent w with ⟨htree, hchain, -⟩
    rcases pruneBlockIndexCandidates_eq pruned with ⟨tip, -, rfl⟩
    apply hs.update
    refine ⟨htree.sameShape, ?_, ?_, ?_, ?_⟩
    · show CChain.Linked s.mapBlockIndex (s.connected P w p).chainActive
      rw [hchain]
      exact hs.tree.chain.concat hs.tree.tree parent
    · intro q hq
      have hq' : q ∈ s.chainActive ++ [p] := by rw [← hchain]; exact hq
      rcases List.mem_append.1 hq' with hold | hnew
      · exact hs.chainStored q hold
      · rw [List.mem_singleton.1 hnew]
        exact hready s p ready
    · intro q hq
      have hq' := (List.mem_filter.1 hq).1
      rw [(connected_flags P s w p).2] at hq'
      exact hs.candidatesStored q hq'
    · intro e he
      have he' : e ∈ (({ s with world := w } : NodeState W).markConnected P p).mapBlocksUnlinked := he
      rw [markConnected_unlinked] at he'
      exact hs.unlinkedStored e he'
  | @refuse p pblock nDoS code reason w source ready parent invalid =>
    have hsame := (sameChain_world s w).trans (sameChain_invalidBlockFound _ p)
    refine hs.update_same hsame.tree.sameShape hsame.chain ?_ ?_
    · intro q hq
      exact Or.inl (invalidBlockFound_candidates ({ s with world := w } : NodeState W) p hq)
    · intro e he
      unfold invalidBlockFound at he
      rw [mapBlocksUnlinked_noteInvalid] at he
      exact Or.inl he

/-- The block that is returned is the best candidate, and the walk down from it has found nothing. -/
theorem findMostWorkChainLoop_result {fuel : Nat} {most : Option UInt256}
    (h : findMostWorkChainLoop fuel s = .ok (most, s')) :
    s'.bestCandidate = most ∧
      ∀ p, most = some p → s'.firstFailed ((s'.idx p).nHeight + 1) (some p) = .ok none :=
  findMostWorkChainLoop_induct (motive := fun _ => _) h And.intro fun _ _ _ _ _ hrest => hrest

/-- Blocks are taken from the tree: that is enough to follow a call. -/
theorem nodeInv_guide (H : Crypto) (ops : TipOps W) (P : CChainParams) (given : Option CBlock) :
    Guide H ops P given NodeInv Stored where
  tree _ hs := hs.tree
  keeps _ _ hs hmove := Move.nodeInv (fun _ _ hp => hp) hs hmove
  found s s' most _ hmost hs' :=
    hs'.candidatesStored most (bestOf_spec (findMostWorkChainLoop_result hmost).1).1
  branch s most nHeight k fuel hs hmost p hp := by
    have hanc : s.mapBlockIndex.Ancestor p most :=
      branchDown_ancestor (fun q hq => hs.tree.tree.getAncestor_ancestor hq) p hp
    exact hs.tree.tree.stored_of_ancestor hanc hmost
  sameFlags s s' p hflags hp := by
    unfold Stored
    rw [hflags.tree.sameShape.stored]
    exact hp

/-! ## Checking the invariant -/

/-- What holds of the stored entries and of the empty one holds behind every pointer. -/
theorem forall_idx {Q : UInt256 → CBlockIndex → Prop} (hnull : ∀ p, Q p CBlockIndex.null)
    (h : ∀ i ∈ s.mapBlockIndex, Q i.phashBlock i) (p : UInt256) : Q p (s.idx p) := by
  cases hl : s.mapBlockIndex.lookup p with
  | none =>
    have hp : s.idx p = CBlockIndex.null := by simp [idx, BlockMap.entry, hl]
    rw [hp]
    exact hnull p
  | some i =>
    rcases BlockMap.lookup_mem hl with ⟨hi, rfl⟩
    rw [idx, BlockMap.entry_of_lookup hl]
    exact h i hi

/-- The skip pointer of one entry. -/
def checkSkip (m : BlockMap) (i : CBlockIndex) : Bool :=
  match i.pprev, i.pskip with
  | none, none => true
  | some _, some a =>
    (m.entry a).nHeight == BlockMap.getSkipHeight i.nHeight &&
      (branchDown m (-1) (i.nHeight + 1) (some i.phashBlock)).contains a
  | _, _ => false

theorem checkSkip_spec {m : BlockMap} {i : CBlockIndex} {q : UInt256}
    (h : checkSkip m i = true) (hq : i.pskip = some q) :
    (m.entry q).nHeight = BlockMap.getSkipHeight i.nHeight ∧ m.Ancestor q i.phashBlock := by
  unfold checkSkip at h
  cases hp : i.pprev with
  | none => simp [hp, hq] at h
  | some p =>
    simp only [hp, hq, Bool.and_eq_true, beq_iff_eq, List.contains_iff_mem] at h
    refine ⟨h.1, branchDown_ancestor ?_ q h.2⟩
    intro r hr
    rw [← Option.some.inj hr]
    exact BlockMap.Ancestor.refl m i.phashBlock

/-- The invariant of a state can be computed. -/
def checkNodeInv (s : NodeState W) : Bool :=
  s.mapBlockIndex.all s.mapBlockIndex.checkLink &&
    s.mapBlockIndex.all (checkSkip s.mapBlockIndex) &&
    (s.chainActive ++ s.setBlockIndexCandidates ++ s.mapBlocksUnlinked.map Prod.snd).all
      (fun p => (s.mapBlockIndex.lookup p).isSome) &&
    decide (∀ i < s.chainActive.length,
      (s.mapBlockIndex.entry (s.chainActive.getD i 0)).nHeight = i ∧
        (s.mapBlockIndex.entry (s.chainActive.getD i 0)).pprev =
          if i = 0 then none else s.chainActive[i - 1]?)

theorem nodeInv_of_check (h : s.checkNodeInv = true) : NodeInv s := by
  simp only [checkNodeInv, Bool.and_eq_true, decide_eq_true_eq, List.all_append] at h
  rcases h with ⟨⟨⟨hlink, hskip⟩, ⟨hchain, hcands⟩, hunlinked⟩, hlinked⟩
  have hskip' : ∀ i ∈ s.mapBlockIndex, checkSkip s.mapBlockIndex i = true := List.all_eq_true.1 hskip
  refine ⟨⟨BlockMap.wellFormed_of_check hlink ?_, CChain.linked_of_check hlinked⟩, ?_,
    List.all_eq_true.1 hchain, List.all_eq_true.1 hcands, ?_⟩
  · intro i hi q hq
    exact (checkSkip_spec (hskip' i hi) hq).2
  · intro p q hq
    rcases Option.isSome_iff_exists.1 (BlockMap.lookup_of_pprev hq) with ⟨i, hi⟩
    rw [BlockMap.entry_of_lookup hi] at hq ⊢
    have hcheck := hskip' i (BlockMap.lookup_mem hi).1
    cases hp : i.pskip with
    | none => simp [checkSkip, hq, hp] at hcheck
    | some a => exact ⟨a, rfl, (checkSkip_spec hcheck hp).1⟩
  · intro e he
    exact List.all_eq_true.1 hunlinked e.2 (List.mem_map_of_mem he)

end NodeState

end Dobbscoin
