import Dobbscoin.Chain.SkipWalk
import Dobbscoin.Validation.FlagEffects

/-!
# Failure flags

A block is flagged only if it, or a block it builds on, is invalid itself.  `ReconsiderBlock` can break
this: it takes `BLOCK_FAILED_VALID` from the ancestors of its block and leaves `BLOCK_FAILED_CHILD` on
their other descendants.
-/

namespace Dobbscoin

open Guard

namespace NodeState

variable {W : Type} {s s' : NodeState W} {J : Prop}

/-- Every flagged block is, or builds on, a block that is marked `BLOCK_FAILED_VALID`. -/
def Justified (s : NodeState W) : Prop :=
  ∀ p, (s.idx p).nStatus.failed = true →
    ∃ a, s.mapBlockIndex.Ancestor a p ∧ (s.idx a).nStatus.failedValid = true

/-- Flags are only added, and each new one is justified. -/
structure Raises (s s' : NodeState W) : Prop where
  shape : s.mapBlockIndex.SameShape s'.mapBlockIndex
  failedValid : ∀ p, (s.idx p).nStatus.failedValid = true → (s'.idx p).nStatus.failedValid = true
  failed : ∀ p, (s'.idx p).nStatus.failed = true → (s.idx p).nStatus.failed = true ∨
    ∃ a, s.mapBlockIndex.Ancestor a p ∧ (s'.idx a).nStatus.failedValid = true

theorem Justified.raises (hs : Justified s) (h : Raises s s') : Justified s' := by
  intro p hp
  rcases h.failed p hp with hold | ⟨a, ha, hvalid⟩
  · rcases hs p hold with ⟨a, ha, hvalid⟩
    exact ⟨a, h.shape.ancestor.2 ha, h.failedValid a hvalid⟩
  · exact ⟨a, h.shape.ancestor.2 ha, hvalid⟩

theorem Raises.trans {s₁ s₂ s₃ : NodeState W} (h₁ : Raises s₁ s₂) (h₂ : Raises s₂ s₃) :
    Raises s₁ s₃ := by
  refine ⟨h₁.shape.trans h₂.shape, fun p hp => h₂.failedValid p (h₁.failedValid p hp), ?_⟩
  intro p hp
  rcases h₂.failed p hp with hmid | ⟨a, ha, hvalid⟩
  · rcases h₁.failed p hmid with hold | ⟨a, ha, hvalid⟩
    · exact Or.inl hold
    · exact Or.inr ⟨a, ha, h₂.failedValid a hvalid⟩
  · exact Or.inr ⟨a, h₁.shape.ancestor.1 ha, hvalid⟩

/-- No flag has changed. -/
theorem raises_of_flags (hshape : s.mapBlockIndex.SameShape s'.mapBlockIndex)
    (hvalid : ∀ p, (s'.idx p).nStatus.failedValid = (s.idx p).nStatus.failedValid)
    (hchild : ∀ p, (s'.idx p).nStatus.failedChild = (s.idx p).nStatus.failedChild) :
    Raises s s' := by
  refine ⟨hshape, fun p hp => (hvalid p).trans hp, ?_⟩
  intro p hp
  refine Or.inl ?_
  rw [BlockStatus.failed, hvalid, hchild] at hp
  exact hp

theorem raises_of_map (h : s'.mapBlockIndex = s.mapBlockIndex) : Raises s s' := by
  refine raises_of_flags ?_ ?_ ?_
  · rw [h]
    exact .refl _
  · intro p
    simp only [idx, h]
  · intro p
    simp only [idx, h]

/-- A block marked as invalid. -/
theorem raises_failedValid (s : NodeState W) (p : UInt256) :
    Raises s (s.setStatus p fun n => { n with failedValid := true }) := by
  refine ⟨(sameChain_setStatus s p _).tree.sameShape, ?_, ?_⟩
  · intro q hq
    rcases idx_setStatus s p q fun n => { n with failedValid := true } with h | ⟨-, h⟩
    · rw [h]
      exact hq
    · rw [h]
  · intro q hq
    rcases idx_setStatus s p q fun n => { n with failedValid := true } with h | ⟨-, h⟩
    · rw [h] at hq
      exact Or.inl hq
    · refine Or.inr ⟨q, BlockMap.Ancestor.refl _ q, ?_⟩
      rw [h]

theorem raises_markBlock (s : NodeState W) (p : UInt256) : Raises s (s.markBlock p) :=
  (raises_failedValid s p).trans (raises_of_map rfl)

/-- A descendant of an invalid block marked as such. -/
theorem raises_failedChild {a p : UInt256} (ha : s.mapBlockIndex.Ancestor a p)
    (hvalid : (s.idx a).nStatus.failedValid = true) :
    Raises s (s.setStatus p fun n => { n with failedChild := true }) := by
  have hkeep : ∀ q, ((s.setStatus p fun n => { n with failedChild := true }).idx q).nStatus.failedValid
      = (s.idx q).nStatus.failedValid := by
    intro q
    rcases idx_setStatus s p q fun n => { n with failedChild := true } with h | ⟨-, h⟩ <;> rw [h]
  refine ⟨(sameChain_setStatus s p _).tree.sameShape, fun q hq => (hkeep q).trans hq, ?_⟩
  intro q hq
  rcases idx_setStatus s p q fun n => { n with failedChild := true } with h | ⟨rfl, -⟩
  · rw [h] at hq
    exact Or.inl hq
  · exact Or.inr ⟨a, ha, (hkeep a).trans hvalid⟩

/-! ## ActivateBestChain -/

/-- The marking walk goes down to the failed block, which builds on an invalid one. -/
theorem raises_markFailedChild {a t : UInt256} (fuel : Nat) (start : Option UInt256)
    (hvalid : (s.idx a).nStatus.failedValid = true) (hat : s.mapBlockIndex.Ancestor a t)
    (hstart : ∀ p ∈ start, s.mapBlockIndex.Ancestor t p) :
    Raises s (markFailedChild t fuel start s) := by
  induction fuel generalizing start s with
  | zero => exact raises_of_map rfl
  | succ fuel ih =>
    cases start with
    | none => exact raises_of_map rfl
    | some p =>
      rw [markFailedChild]
      split_ifs with heq
      · exact raises_of_map rfl
      have htp : s.mapBlockIndex.Ancestor t p := hstart p rfl
      have hmark : Raises s ((s.setStatus p fun n => { n with failedChild := true }).eraseCandidate p) :=
        (raises_failedChild (hat.trans htp) hvalid).trans (raises_of_map rfl)
      refine hmark.trans (ih (s.idx p).pprev (hmark.failedValid a hvalid)
        (hmark.shape.ancestor.2 hat) ?_)
      intro q hq
      rw [hmark.shape.ancestor]
      -- The failed block is below `p`, hence at or below its parent.
      rcases Relation.ReflTransGen.cases_tail htp with hself | ⟨b, htb, hb⟩
      · exact absurd hself heq
      · have hb' : (s.idx p).pprev = some b := hb
        rw [Option.mem_def, hb'] at hq
        rw [← Option.some.inj hq]
        exact htb

theorem raises_noteInvalid (s : NodeState W) (p : UInt256) : Raises s (s.noteInvalid p) :=
  raises_of_map (noteInvalid_mapBlockIndex s p)

theorem raises_connected (P : CChainParams) (s : NodeState W) (w : W) (p : UInt256) :
    Raises s (s.connected P w p) := by
  have hmark : Raises ({ s with world := w } : NodeState W)
      (({ s with world := w } : NodeState W).markConnected P p) := by
    unfold markConnected
    split_ifs
    · exact raises_of_map rfl
    · refine raises_of_flags (sameChain_setStatus _ p _).tree.sameShape ?_ ?_
      · intro q
        rcases idx_setStatus ({ s with world := w } : NodeState W) p q fun n =>
          ({ n with haveUndo := true } : BlockStatus).raiseValidity BlockStatus.validScripts with
          h | ⟨-, h⟩
        · rw [h]
        · rw [h]
          exact (BlockStatus_raiseValidity_flags _ _).1
      · intro q
        rcases idx_setStatus ({ s with world := w } : NodeState W) p q fun n =>
          ({ n with haveUndo := true } : BlockStatus).raiseValidity BlockStatus.validScripts with
          h | ⟨-, h⟩
        · rw [h]
        · rw [h]
          exact (BlockStatus_raiseValidity_flags _ _).2
  exact ((raises_of_map rfl : Raises s ({ s with world := w } : NodeState W)).trans hmark).trans
    (raises_of_map rfl)

/-- **Step.** -/
theorem Move.raises {H : Crypto} {ops : TipOps W} {P : CChainParams} {given : Option CBlock}
    {Ready : NodeState W → UInt256 → Prop} (hs : NodeInv s) (hj : Justified s)
    (h : Move H ops P given Ready s s') : Raises s s' := by
  cases h with
  | world w => exact raises_of_map rfl
  | note p => exact raises_noteInvalid s p
  | @dropFailed p t best found =>
    have hnote := raises_noteInvalid s p
    rcases (firstFailed_spec hs.tree found p rfl).1 t rfl with ⟨htp, hfailed⟩
    rcases hj t hfailed with ⟨a, hat, hvalid⟩
    refine (hnote.trans (raises_markFailedChild ((s.idx p).nHeight + 1) (some p)
      (hnote.failedValid a hvalid) (hnote.shape.ancestor.2 hat) ?_)).trans (raises_of_map rfl)
    intro q hq
    rw [← Option.some.inj hq, hnote.shape.ancestor]
    exact htp
  | @disconnect t w tip ok => exact raises_of_map rfl
  | @connect _ p pblock w source ready parent ok pruned =>
    rcases pruneBlockIndexCandidates_eq pruned with ⟨tip, -, rfl⟩
    exact (raises_connected P s w p).trans (raises_of_map rfl)
  | @refuse p pblock nDoS code reason w source ready parent invalid =>
    exact (raises_of_map rfl : Raises s ({ s with world := w } : NodeState W)).trans
      ((raises_markBlock _ p).trans (raises_noteInvalid _ p))

theorem activateBestChain_justified {H : Crypto} {ops : TipOps W} {P : CChainParams}
    {given : Option CBlock} {fuel : Nat} {r : Except CValidationError Unit} (hs : NodeInv s)
    (hj : J → Justified s) (h : activateBestChain H ops P given fuel s = .ok (r, s')) :
    NodeInv s' ∧ (J → Justified s') := by
  have hmoves := activateBestChain_moves (nodeInv_guide H ops P given) hs h
  refine hmoves.keeps (Q := fun t => NodeInv t ∧ (J → Justified t)) ?_ ⟨hs, hj⟩
  intro t u ht hmove
  exact ⟨Move.nodeInv (fun _ _ hp => hp) ht.1 hmove,
    fun j => (ht.2 j).raises (Move.raises ht.1 (ht.2 j) hmove)⟩

/-! ## The other operations -/

theorem markTip_frame (s : NodeState W) (t : UInt256) : SameChain s (s.markTip t) :=
  (sameChain_setStatus s t _).trans (sameChain_eraseCandidate _ t)

theorem markBlock_frame (s : NodeState W) (p : UInt256) : SameChain s (s.markBlock p) :=
  (sameChain_setStatus s p _).trans (sameChain_eraseCandidate _ p)

theorem NodeInv.markTip (hs : NodeInv s) (t : UInt256) : NodeInv (s.markTip t) :=
  hs.update_same (markTip_frame s t).tree.sameShape rfl
    (fun _ hp => Or.inl (List.mem_filter.1 hp).1) fun _ he => Or.inl he

theorem NodeInv.markBlock (hs : NodeInv s) (p : UInt256) : NodeInv (s.markBlock p) :=
  hs.update_same (markBlock_frame s p).tree.sameShape rfl
    (fun _ hq => Or.inl (List.mem_filter.1 hq).1) fun _ he => Or.inl he

/-- The tip that is marked builds on the block that was marked first. -/
theorem invalidateBlock_justified {ops : TipOps W} {pindex : UInt256}
    {r : Except CValidationError Unit} (hs : NodeInv s) (hj : J → Justified s) (hp : s.Stored pindex)
    (h : s.invalidateBlock ops pindex = .ok (r, s')) : NodeInv s' ∧ (J → Justified s') := by
  rcases invalidateBlock_cases h with ⟨t, hloop, hend⟩
  have hmarked := failedValid_markBlock_self hp
  have hstart : NodeInv (s.markBlock pindex) ∧ (J → Justified (s.markBlock pindex)) ∧
      ((s.markBlock pindex).idx pindex).nStatus.failedValid = true :=
    ⟨hs.markBlock pindex, fun j => (hj j).raises (raises_markBlock s pindex), hmarked⟩
  have hkeep : (NodeInv t ∧ (J → Justified t) ∧ (t.idx pindex).nStatus.failedValid = true) ∧
      (r = .ok () → t.chainActive.contains t.mapBlockIndex pindex = false) := by
    refine invalidateLoop_keeps
      (Q := fun u => NodeInv u ∧ (J → Justified u) ∧ (u.idx pindex).nStatus.failedValid = true)
      ?_ ?_ ?_ hstart hloop
    · intro u tip hu hcontains htip
      rcases hu with ⟨hnode, hjust, hvalid⟩
      have hmem := hnode.tree.chain.contains_iff.1 hcontains
      have hraise : Raises u (u.markTip tip) :=
        (raises_failedChild (hnode.tree.chain.tip_ancestor hmem htip) hvalid).trans
          (raises_of_map rfl)
      exact ⟨⟨hnode.markTip tip, fun j => (hjust j).raises hraise, hraise.failedValid pindex hvalid⟩, htip⟩
    · intro u w hu
      exact ⟨hu.1.update_same (.refl _) rfl (fun _ hq => Or.inl hq) fun _ he => Or.inl he, hu.2⟩
    · intro u tip w hu htip
      exact ⟨hu.1.disconnected htip w, hu.2⟩
  rcases hkeep.1 with ⟨hnode, hjust, -⟩
  rcases hend with ⟨-, rfl⟩ | ⟨-, -, rfl⟩
  · exact ⟨hnode, hjust⟩
  · have hsame := (sameChain_noteInvalid t.addCandidatesAgain pindex)
    refine ⟨hnode.update_same hsame.tree.sameShape hsame.chain ?_ ?_,
      fun j => (hjust j).raises ((raises_of_map rfl : Raises t t.addCandidatesAgain).trans
        (raises_noteInvalid t.addCandidatesAgain pindex))⟩
    · intro q hq
      rw [noteInvalid_candidates] at hq
      rcases mem_addCandidatesAgain.1 hq with hold | ⟨hstored, -⟩
      · exact Or.inl hold
      · exact Or.inr hstored
    · intro e he
      rw [mapBlocksUnlinked_noteInvalid] at he
      exact Or.inl he

/-- A new entry is not flagged. -/
theorem Grown.justified {E : Env} {block : CBlockHeader} (h : Grown E block s s') (hs : NodeInv s)
    (hj : Justified s) : Justified s' := by
  intro p hp
  have hne : p ≠ block.getHash E.crypto := by
    rintro rfl
    rw [h.status_self.1] at hp
    exact Bool.noConfusion hp
  rw [h.idx_of_ne hne] at hp
  rcases hj p hp with ⟨a, ha, hvalid⟩
  have hane : a ≠ block.getHash E.crypto := by
    rintro rfl
    simp [idx, BlockMap.entry, h.fresh, CBlockIndex.null, BlockStatus.null] at hvalid
  refine ⟨a, (h.ancestor_of_ne hs.tree.tree hne).2 ha, ?_⟩
  rw [h.idx_of_ne hane]
  exact hvalid

theorem acceptBlockHeader_justified {E : Env} {block : CBlockHeader} {p : UInt256} (hs : NodeInv s)
    (hj : Justified s) (h : s.acceptBlockHeader E block = .ok (p, s')) : Justified s' := by
  rcases acceptBlockHeader_cases h with ⟨-, ⟨rfl, -⟩ | ⟨hgrown, -⟩⟩
  · exact hj
  · exact hgrown.justified hs hj

theorem acceptBlock_justified (E : Env) (store : BlockStore W) (block : CBlock) (hs : NodeInv s)
    (hj : J → Justified s) :
    NodeInv (s.acceptBlock E store block).2 ∧ (J → Justified (s.acceptBlock E store block).2) := by
  rcases acceptBlock_cases E store s block with ⟨e, -, hsame⟩ | ⟨p, t, hheader, hend⟩
  · rw [hsame]
    exact ⟨hs, hj⟩
  rcases acceptBlockHeader_nodeInv hs hheader with ⟨ht, hp⟩
  have htj : J → Justified t := fun j => acceptBlockHeader_justified hs (hj j) hheader
  have hworld : ∀ w, NodeInv ({ t with world := w } : NodeState W) ∧
      (J → Justified ({ t with world := w } : NodeState W)) := fun w =>
    ⟨ht.update_same (.refl _) rfl (fun _ hq => Or.inl hq) fun _ he => Or.inl he,
      fun j => (htj j).raises (raises_of_map rfl)⟩
  generalize (s.acceptBlock E store block).2 = u at hend ⊢
  cases hend with
  | known data => exact ⟨ht, htj⟩
  | dropped data check => exact ⟨ht, htj⟩
  | notStored w => exact hworld w
  | condemned data check condemns =>
    exact ⟨ht.update_same (sameChain_setStatus t p _).tree.sameShape rfl (fun _ hq => Or.inl hq)
      fun _ he => Or.inl he, fun j => (htj j).raises (raises_failedValid t p)⟩
  | stored w data check =>
    have hrec := received_receivedBlockTransactions ({ t with world := w } : NodeState W) block p
    exact ⟨receivedBlockTransactions_nodeInv (hworld w).1 hp,
      fun j => ((hworld w).2 j).raises (raises_of_flags hrec.shape hrec.failedValid hrec.failedChild)⟩

/-! ## ReconsiderBlock -/

/-- Every flagged block off the branch of `pindex` builds on an invalid block off that branch. -/
def SideJustified (s : NodeState W) (pindex : UInt256) : Prop :=
  ∀ p, (s.idx p).nStatus.failed = true → ¬ s.mapBlockIndex.Ancestor pindex p →
    ¬ s.mapBlockIndex.Ancestor p pindex →
    ∃ a, s.mapBlockIndex.Ancestor a p ∧ (s.idx a).nStatus.failedValid = true ∧
      ¬ s.mapBlockIndex.Ancestor a pindex

/-- What is off the branch has lost its reason if and only if the reason was an ancestor. -/
theorem reconsiders_justified_iff {pindex : UInt256} (h : Reconsiders pindex s s') :
    Justified s' ↔ SideJustified s pindex := by
  have hanc : ∀ a b, s'.mapBlockIndex.Ancestor a b ↔ s.mapBlockIndex.Ancestor a b :=
    fun a b => h.same.tree.ancestor
  have hoff : ∀ p, (s'.idx p).nStatus.failed = true →
      ¬ (s.mapBlockIndex.Ancestor pindex p ∨ s.mapBlockIndex.Ancestor p pindex) := by
    intro p hp hbranch
    rw [h.cleared p hbranch] at hp
    exact Bool.noConfusion hp
  constructor
  · intro hj p hp hdown hup
    have hside : ¬ (s.mapBlockIndex.Ancestor pindex p ∨ s.mapBlockIndex.Ancestor p pindex) :=
      fun hbranch => hbranch.elim hdown hup
    rw [← h.kept p hside] at hp
    rcases hj p hp with ⟨a, ha, hvalid⟩
    have haside := hoff a (by simp [BlockStatus.failed, hvalid])
    rw [h.kept a haside] at hvalid
    exact ⟨a, (hanc a p).1 ha, hvalid, fun hbelow => haside (Or.inr hbelow)⟩
  · intro hside p hp
    have hpoff := hoff p hp
    rw [h.kept p hpoff] at hp
    rcases hside p hp (fun hdown => hpoff (Or.inl hdown)) (fun hup => hpoff (Or.inr hup)) with
      ⟨a, ha, hvalid, hbelow⟩
    refine ⟨a, (hanc a p).2 ha, ?_⟩
    have haoff : ¬ (s.mapBlockIndex.Ancestor pindex a ∨ s.mapBlockIndex.Ancestor a pindex) := by
      rintro (hdown | hup)
      · exact hpoff (Or.inl (hdown.trans ha))
      · exact hbelow hup
    rw [h.kept a haoff]
    exact hvalid

/-! ## Runs -/

/-- When an operation keeps the flags justified: only `ReconsiderBlock` has a condition. -/
def KeepsFlagsJustified : NodeOp W → NodeState W → Prop
  | .reconsiderBlock pindex, s => SideJustified s pindex
  | _, _ => True

/-- **Step.** -/
theorem apply_keeps {op : NodeOp W} (hs : NodeInv s) (hj : J → Justified s)
    (hop : J → KeepsFlagsJustified op s) (h : op.apply s = .ok s') :
    NodeInv s' ∧ (J → Justified s') := by
  cases op with
  | acceptBlockHeader E block =>
    simp only [NodeOp.apply] at h
    split at h
    · rw [← Except.ok.inj h]
      exact ⟨hs, hj⟩
    · next p t hheader =>
      rw [← Except.ok.inj h]
      exact ⟨(acceptBlockHeader_nodeInv hs hheader).1,
        fun j => acceptBlockHeader_justified hs (hj j) hheader⟩
  | acceptBlock E store block =>
    rw [← Except.ok.inj h]
    exact acceptBlock_justified E store block hs hj
  | activateBestChain H ops P pblock fuel =>
    rcases map_eq_ok.1 h with ⟨⟨r, t⟩, hrun, rfl⟩
    exact activateBestChain_justified hs hj hrun
  | invalidateBlock ops pindex =>
    simp only [NodeOp.apply] at h
    split_ifs at h with hnone
    · rw [← Except.ok.inj h]
      exact ⟨hs, hj⟩
    · rcases map_eq_ok.1 h with ⟨⟨r, t⟩, hrun, rfl⟩
      exact invalidateBlock_justified hs hj (by simpa [Stored, Option.isSome_iff_ne_none] using hnone) hrun
  | reconsiderBlock pindex =>
    simp only [NodeOp.apply] at h
    split_ifs at h with hnone
    · rw [← Except.ok.inj h]
      exact ⟨hs, hj⟩
    · have hspec := reconsiderBlock_spec hs h
      exact ⟨hspec.nodeInv hs, fun j => (reconsiders_justified_iff hspec).2 (hop j)⟩

theorem apply_justified {op : NodeOp W} (hs : NodeInv s ∧ Justified s)
    (hop : KeepsFlagsJustified op s) (h : op.apply s = .ok s') : NodeInv s' ∧ Justified s' :=
  have hkeep := apply_keeps (J := True) hs.1 (fun _ => hs.2) (fun _ => hop) h
  ⟨hkeep.1, hkeep.2 trivial⟩

/-- **Failure flags are justified** in every state that is reached by operations in any order, with
any blocks, clocks and disks, as long as no `ReconsiderBlock` takes away the reason of a flag it
leaves. -/
theorem failure_flags_justified (s s' : NodeState W) (hs : NodeInv s) (hj : Justified s)
    (h : RunsTo KeepsFlagsJustified s s') : Justified s' :=
  (h.keeps (Q := fun t => NodeInv t ∧ Justified t)
    (fun _ _ _ ht hop happly => apply_justified ht hop happly) ⟨hs, hj⟩).2

/-- **The chain state stays well formed** whatever is called in whatever order. -/
theorem run_keeps_nodeInv (s s' : NodeState W) (hs : NodeInv s) (h : RunsTo (fun _ _ => True) s s') :
    NodeInv s' :=
  h.keeps (fun _ _ _ ht _ happly => (apply_keeps (J := False) ht False.elim False.elim happly).1) hs

open BlockMap in
/-- **`GetAncestor` finds the block at the height** in every state of a run: no pointer on its way is null, and it stops. -/
theorem run_getAncestor (s s' : NodeState W) (hs : NodeInv s) (h : RunsTo (fun _ _ => True) s s') (b : UInt256)
    (hbound : (s'.mapBlockIndex.entry b).nHeight < 2 ^ 31) (height : BitVec 32) :
    (0 ≤ height.toInt → height.toInt ≤ (s'.mapBlockIndex.entry b).nHeight →
      ∃ a, Walk.getAncestor s'.mapBlockIndex b height = .ok (some a) ∧
        s'.mapBlockIndex.parentSteps ((s'.mapBlockIndex.entry b).nHeight - height.toInt.toNat) b = some a) ∧
    (height.toInt < 0 ∨ (s'.mapBlockIndex.entry b).nHeight < height.toInt →
      Walk.getAncestor s'.mapBlockIndex b height = .ok none) := by
  have hinv : NodeInv s' :=
    h.keeps (fun _ _ _ ht _ happly => (apply_keeps (J := False) ht False.elim False.elim happly).1) hs
  have hm := hinv.tree.tree
  refine ⟨fun hlow hhigh => ?_, walk_getAncestor_none hbound⟩
  rcases hm.exists_ancestor b (n := height.toInt.toNat) (by omega) with ⟨a, hab, ha⟩
  have hheight : BitVec.ofNat 32 (s'.mapBlockIndex.entry a).nHeight = height := by
    rw [ha, ← BitVec.ofInt_natCast, Int.toNat_of_nonneg hlow, BitVec.ofInt_toInt]
  refine ⟨a, ?_, parentSteps_ancestor hm _ hab (by omega)⟩
  rw [← hheight]
  exact walk_getAncestor hm (fun c _ => hinv.skips.built hm c) hbound hab

/-! ## A sibling that stays flagged -/

/-- Genesis 1000, block 1001 on it, and on that the siblings 1002 and 2002; 1002 is the tip. -/
def siblingState : NodeState Unit :=
  let s := sampleState 2 [sampleSideBlock 2002 1001 2 6] [1002]
  { s with
    mapBlockIndex := s.mapBlockIndex.map fun i =>
      { i with pskip := i.pprev.map fun _ => 1000, address := i.phashBlock.toNat } }

theorem siblingState_inv : NodeInv siblingState ∧ Justified siblingState := by
  refine ⟨nodeInv_of_check (by decide), ?_⟩
  have hclear : siblingState.mapBlockIndex.all (fun i => !i.nStatus.failed) = true := by
    decide
  intro p hp
  have hunfailed := forall_idx (s := siblingState) (Q := fun _ i => i.nStatus.failed = false)
    (fun _ => rfl) (fun i hi => by simpa using List.all_eq_true.1 hclear i hi) p
  rw [hunfailed] at hp
  exact Bool.noConfusion hp

/-- Block 1001 is invalidated and the node moves on, which flags 2002; then block `pindex` is
reconsidered. -/
def siblingRun (pindex : UInt256) : List (NodeOp Unit) :=
  [.invalidateBlock (sampleOps []) 1001,
    .activateBestChain sampleCrypto (sampleOps []) testNetParams none 2,
    .reconsiderBlock pindex]

/-- When 1001 itself is reconsidered the flag of 2002 goes with it. -/
theorem failure_flags_justified_siblingState :
    ∃ t s', runOps ((siblingRun 1001).take 2) siblingState = .ok t ∧
      (NodeOp.reconsiderBlock 1001).apply t = .ok s' ∧ Justified s' := by
  have hrun : (runOps ((siblingRun 1001).take 2) siblingState).toOption.any (fun t =>
      (t.mapBlockIndex.all fun i => !i.nStatus.failed ||
        (branchDown t.mapBlockIndex (-1) 3 (some i.phashBlock)).contains 1001) &&
      ((NodeOp.reconsiderBlock 1001).apply t).toOption.any fun _ => true) = true := by
    decide
  rcases exists_of_toOption_any hrun with ⟨t, ht, hcheck⟩
  rw [Bool.and_eq_true] at hcheck
  rcases exists_of_toOption_any hcheck.2 with ⟨s', hs', -⟩
  have hfirst : RunsTo KeepsFlagsJustified siblingState t := by
    refine runsTo_of_runOps ht ?_
    intro pre op post u hops _
    have hmem : op ∈ (siblingRun 1001).take 2 := by
      rw [hops]
      exact List.mem_append_right _ List.mem_cons_self
    simp only [siblingRun, List.take_succ_cons, List.take_zero, List.mem_cons, List.not_mem_nil,
      or_false] at hmem
    rcases hmem with rfl | rfl
    · trivial
    · trivial
  -- Everything that is flagged builds on 1001.
  have hside : SideJustified t 1001 := by
    intro p hp hdown
    have hmem : (1001 : UInt256) ∈ branchDown t.mapBlockIndex (-1) 3 (some p) :=
      forall_idx (s := t) (Q := fun p i => i.nStatus.failed = true →
        (1001 : UInt256) ∈ branchDown t.mapBlockIndex (-1) 3 (some p)) (fun _ hnull => by cases hnull)
        (fun i hi hfailed => by simpa [hfailed] using List.all_eq_true.1 hcheck.1 i hi) p hp
    refine absurd (branchDown_ancestor ?_ 1001 hmem) hdown
    intro q hq
    rw [← Option.some.inj hq]
    exact BlockMap.Ancestor.refl _ p
  have hmeets : KeepsFlagsJustified (.reconsiderBlock 1001) t := hside
  exact ⟨t, s', ht, hs', failure_flags_justified siblingState s' siblingState_inv.1 siblingState_inv.2
    (.step hfirst hmeets hs')⟩

/-- When 1002 is reconsidered, 1001 is cleared as its ancestor and 2002 stays flagged. -/
theorem sibling_stays_flagged :
    NodeInv siblingState ∧ Justified siblingState ∧
      ∃ s', runOps (siblingRun 1002) siblingState = .ok s' ∧
        (s'.idx 2002).nStatus.failedChild = true ∧ ¬ Justified s' := by
  have hrun : (runOps (siblingRun 1002) siblingState).toOption.any (fun t =>
      (t.idx 2002).nStatus.failedChild && t.mapBlockIndex.all fun i => !i.nStatus.failedValid) =
        true := by
    decide
  rcases exists_of_toOption_any hrun with ⟨s', hs', hcheck⟩
  rw [Bool.and_eq_true] at hcheck
  refine ⟨siblingState_inv.1, siblingState_inv.2, s', hs', hcheck.1, ?_⟩
  intro hj
  rcases hj 2002 (by rw [BlockStatus.failed, hcheck.1, Bool.or_true]) with ⟨a, -, hvalid⟩
  have hnone := forall_idx (s := s') (Q := fun _ i => i.nStatus.failedValid = false)
    (fun _ => rfl) (fun i hi => by simpa using List.all_eq_true.1 hcheck.2 i hi) a
  rw [hnone] at hvalid
  exact Bool.noConfusion hvalid

theorem run_keeps_nodeInv_siblingState :
    ∃ s', runOps (siblingRun 1002) siblingState = .ok s' ∧ NodeInv s' := by
  have hrun : (runOps (siblingRun 1002) siblingState).toOption.any (fun _ => true) = true := by decide
  rcases exists_of_toOption_any hrun with ⟨s', hs', -⟩
  exact ⟨s', hs', run_keeps_nodeInv siblingState s' siblingState_inv.1
    (runsTo_of_runOps hs' fun _ _ _ _ _ _ => trivial)⟩

theorem run_getAncestor_siblingState :
    ∃ a, BlockMap.Walk.getAncestor siblingState.mapBlockIndex 2002 0 = .ok (some a) ∧
      siblingState.mapBlockIndex.parentSteps 2 2002 = some a :=
  (run_getAncestor siblingState siblingState siblingState_inv.1 (.refl _) 2002 (by decide) 0).1 (by decide) (by decide)

end NodeState

end Dobbscoin
