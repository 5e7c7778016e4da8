import Dobbscoin.Validation.ActivateBestChain

/-!
# What ActivateBestChain does to the chain

One lemma for each function: which part of the active chain it keeps.  None of them changes the
block tree beyond the status flags, so `TreeInv` is an invariant of every pass, and a step never
takes the chain below the fork with its candidate (`activateBestChainStep_keeps`).
-/

namespace Dobbscoin

variable {r : Except CValidationError Unit} {c : CChain} {fuel : Nat}

namespace NodeState

variable {W : Type} {s s' : NodeState W}

/-- The entries form a tree and the active chain is a path in it. -/
structure TreeInv (s : NodeState W) : Prop where
  tree : s.mapBlockIndex.WellFormed
  chain : CChain.Linked s.mapBlockIndex s.chainActive

/-- Same tree, same chain: only flags, candidates and the world may differ. -/
structure SameChain (s s' : NodeState W) : Prop where
  tree : s.mapBlockIndex.SameTree s'.mapBlockIndex
  chain : s'.chainActive = s.chainActive

theorem SameChain.refl (s : NodeState W) : SameChain s s :=
  ⟨BlockMap.SameTree.refl _, rfl⟩

theorem SameChain.trans {s₁ s₂ s₃ : NodeState W} (h₁ : SameChain s₁ s₂) (h₂ : SameChain s₂ s₃) :
    SameChain s₁ s₃ :=
  ⟨h₁.tree.trans h₂.tree, h₂.chain.trans h₁.chain⟩

theorem SameChain.treeInv (h : SameChain s s') (hs : TreeInv s) : TreeInv s' := by
  refine ⟨h.tree.wellFormed hs.tree, ?_⟩
  rw [h.chain]
  exact hs.chain.sameTree h.tree

theorem SameChain.nHeight (h : SameChain s s') (p : UInt256) :
    (s'.idx p).nHeight = (s.idx p).nHeight :=
  h.tree.nHeight p

/-! ## Bookkeeping -/

theorem sameChain_setStatus (s : NodeState W) (p : UInt256) (f : BlockStatus → BlockStatus) :
    SameChain s (s.setStatus p f) :=
  ⟨BlockMap.sameTree_setStatus _ _ _, rfl⟩

theorem sameChain_eraseCandidate (s : NodeState W) (p : UInt256) :
    SameChain s (s.eraseCandidate p) :=
  ⟨BlockMap.SameTree.refl _, rfl⟩

theorem sameChain_noteInvalid (s : NodeState W) (p : UInt256) : SameChain s (s.noteInvalid p) := by
  unfold noteInvalid
  cases s.pindexBestInvalid with
  | none => exact ⟨BlockMap.SameTree.refl _, rfl⟩
  | some q =>
    simp only
    split_ifs
    · exact ⟨BlockMap.SameTree.refl _, rfl⟩
    · exact SameChain.refl s

theorem sameChain_world (s : NodeState W) (w : W) : SameChain s { s with world := w } :=
  ⟨BlockMap.SameTree.refl _, rfl⟩

theorem sameChain_invalidBlockFound (s : NodeState W) (p : UInt256) :
    SameChain s (s.invalidBlockFound p) :=
  ((sameChain_setStatus s p _).trans (sameChain_eraseCandidate _ p)).trans
    (sameChain_noteInvalid _ p)

theorem sameChain_markConnected (P : CChainParams) (s : NodeState W) (p : UInt256) :
    SameChain s (s.markConnected P p) := by
  unfold markConnected
  split_ifs
  · exact SameChain.refl s
  · exact sameChain_setStatus s p _

theorem sameChain_markFailedChild (pindexTest : UInt256) (fuel : Nat) (p : Option UInt256)
    (s : NodeState W) : SameChain s (markFailedChild pindexTest fuel p s) := by
  induction fuel generalizing p s with
  | zero => exact SameChain.refl s
  | succ fuel ih =>
    cases p with
    | none => exact SameChain.refl s
    | some p =>
      rw [markFailedChild]
      split_ifs
      · exact SameChain.refl s
      · exact ((sameChain_setStatus s p _).trans (sameChain_eraseCandidate _ p)).trans (ih _ _)

/-! ## Rules for the loops -/

/-- The search ends with the best candidate; before that it drops branches that have failed. -/
theorem findMostWorkChainLoop_induct {motive : NodeState W → Prop} {most : Option UInt256}
    (h : findMostWorkChainLoop fuel s = .ok (most, s'))
    (hend : s'.bestCandidate = most →
      (∀ p, most = some p → s'.firstFailed ((s'.idx p).nHeight + 1) (some p) = .ok none) → motive s')
    (hdrop : ∀ s p t, s.firstFailed ((s.idx p).nHeight + 1) (some p) = .ok (some t) → s.bestCandidate = some p →
      motive ((markFailedChild t ((s.idx p).nHeight + 1) (some p) (s.noteInvalid p)).eraseCandidate t) →
      motive s) : motive s := by
  induction fuel generalizing s with
  | zero => simp [findMostWorkChainLoop] at h
  | succ fuel ih =>
    rw [findMostWorkChainLoop] at h
    cases hbest : s.bestCandidate with
    | none =>
      simp only [hbest, Except.ok.injEq, Prod.mk.injEq] at h
      rcases h with ⟨rfl, rfl⟩
      exact hend hbest (by simp)
    | some p =>
      simp only [hbest] at h
      cases hwalk : s.firstFailed ((s.idx p).nHeight + 1) (some p) with
      | error e => simp [hwalk] at h
      | ok found =>
        cases found with
        | none =>
          simp only [hwalk, Except.ok.injEq, Prod.mk.injEq] at h
          rcases h with ⟨rfl, rfl⟩
          refine hend hbest fun q hq => ?_
          rw [← Option.some.inj hq]
          exact hwalk
        | some t =>
          simp only [hwalk] at h
          exact hdrop s p t hwalk hbest (ih h)

section Loops

variable {ops : TipOps W} {P : CChainParams} {most : UInt256} {pblock : Option CBlock} {oldTip : Option UInt256}
  {exit : LoopExit}

/-- Tips are disconnected down to the fork, or until that fails. -/
theorem disconnectLoop_induct {motive : NodeState W → Prop} {fork : Option UInt256}
    (h : disconnectLoop ops fork fuel s = .ok (r, s'))
    (hend : r = .ok () → motive s')
    (hfail : ∀ s t e w, s.tip = some t → some t ≠ fork → ops.disconnect s t = (.error e, w) → r = .error e →
      s' = { s with world := w } → motive s)
    (hstep : ∀ s t w, s.tip = some t → some t ≠ fork → ops.disconnect s t = (.ok (), w) →
      motive (({ s with world := w } : NodeState W).updateTip (s.idx t).pprev) → motive s) : motive s := by
  induction fuel generalizing s with
  | zero => simp [disconnectLoop] at h
  | succ fuel ih =>
    rw [disconnectLoop] at h
    cases htip : s.tip with
    | none =>
      simp only [htip, Except.ok.injEq, Prod.mk.injEq] at h
      rcases h with ⟨rfl, rfl⟩
      exact hend rfl
    | some t =>
      simp only [htip] at h
      split_ifs at h with hdone
      · simp only [Except.ok.injEq, Prod.mk.injEq] at h
        rcases h with ⟨rfl, rfl⟩
        exact hend rfl
      · rcases hd : ops.disconnect s t with ⟨e | _, w⟩
        · simp only [disconnectTip, hd, Except.ok.injEq, Prod.mk.injEq] at h
          exact hfail s t e w htip hdone hd h.1.symm h.2.symm
        · simp only [disconnectTip, hd] at h
          exact hstep s t w htip hdone hd (ih h)

/-- What the next block of a branch can lead to. -/
theorem connectBlocks_cases {back p : UInt256} {ps : List UInt256}
    (h : connectBlocks ops P most pblock oldTip back (p :: ps) s = .ok (exit, s')) :
    ∃ r s₁, s.connectTip ops P p (if p = most then pblock else none) = .ok (r, s₁) ∧
      ((∃ nDoS code reason corruption, r = .error (.invalid nDoS code reason corruption) ∧ exit = .stop ∧
          s' = if corruption then s₁ else s₁.noteInvalid back) ∨
        (∃ reason, r = .error (.error reason) ∧ exit = .fail (.error reason) ∧ s' = s₁) ∨
        r = .ok () ∧ ∃ s₂, s₁.pruneBlockIndexCandidates = .ok s₂ ∧
          (exit = .stop ∧ s' = s₂ ∨ connectBlocks ops P most pblock oldTip back ps s₂ = .ok (exit, s'))) := by
  rw [connectBlocks] at h
  cases hconn : s.connectTip ops P p (if p = most then pblock else none) with
  | error e => simp [hconn] at h
  | ok res =>
    rcases res with ⟨r, s₁⟩
    refine ⟨r, s₁, rfl, ?_⟩
    rcases r with (⟨nDoS, code, reason, corruption⟩ | reason) | _
    · simp only [hconn, Except.ok.injEq, Prod.mk.injEq] at h
      exact .inl ⟨nDoS, code, reason, corruption, rfl, h.1.symm, h.2.symm⟩
    · simp only [hconn, Except.ok.injEq, Prod.mk.injEq] at h
      exact .inr (.inl ⟨reason, rfl, h.1.symm, h.2.symm⟩)
    · simp only [hconn] at h
      cases hprune : s₁.pruneBlockIndexCandidates with
      | error e => simp [hprune] at h
      | ok s₂ =>
        refine .inr (.inr ⟨rfl, s₂, rfl, ?_⟩)
        simp only [hprune] at h
        split at h
        · split_ifs at h
          · obtain ⟨rfl, rfl⟩ := Prod.mk.inj (Except.ok.inj h)
            exact .inl ⟨rfl, rfl⟩
          · exact .inr h
        · obtain ⟨rfl, rfl⟩ := Prod.mk.inj (Except.ok.inj h)
          exact .inl ⟨rfl, rfl⟩

/-- The branch is connected one chunk after another. -/
theorem connectLoop_induct {motive : NodeState W → Prop} {nHeight : Int}
    (h : connectLoop ops P most pblock oldTip fuel nHeight s = .ok (exit, s')) (hend : exit = .goOn → motive s')
    (hlast : ∀ s back nHeight k, connectBlocks ops P most pblock oldTip back
      (branchDown s.mapBlockIndex nHeight ((s.idx most).nHeight + 1)
        (s.mapBlockIndex.getAncestor most k)).reverse s = .ok (exit, s') → motive s)
    (hstep : ∀ s s₁ back nHeight k, connectBlocks ops P most pblock oldTip back
      (branchDown s.mapBlockIndex nHeight ((s.idx most).nHeight + 1)
        (s.mapBlockIndex.getAncestor most k)).reverse s = .ok (.goOn, s₁) → motive s₁ → motive s) : motive s := by
  induction fuel generalizing s nHeight with
  | zero => simp [connectLoop] at h
  | succ fuel ih =>
    simp only [connectLoop] at h
    split_ifs at h
    · obtain ⟨rfl, rfl⟩ := Prod.mk.inj (Except.ok.inj h)
      exact hend rfl
    · split at h
      · simp at h
      · next s₁ hblocks => exact hstep s s₁ _ _ _ hblocks (ih h)
      · next exit₁ s₁ _ hblocks =>
        obtain ⟨rfl, rfl⟩ := Prod.mk.inj (Except.ok.inj h)
        exact hlast s _ _ _ hblocks

end Loops

theorem findMostWorkChainLoop_sameChain {most : Option UInt256}
    (h : findMostWorkChainLoop fuel s = .ok (most, s')) : SameChain s s' := by
  refine findMostWorkChainLoop_induct (motive := fun s => SameChain s s') h (fun _ _ => SameChain.refl s') ?_
  intro s p t _ _ hrest
  exact (((sameChain_noteInvalid s p).trans (sameChain_markFailedChild t _ _ _)).trans
    (sameChain_eraseCandidate _ t)).trans hrest

theorem findMostWorkChain_sameChain {most : Option UInt256}
    (h : s.findMostWorkChain = .ok (most, s')) : SameChain s s' :=
  findMostWorkChainLoop_sameChain h

theorem pruneBlockIndexCandidates_sameChain (h : s.pruneBlockIndexCandidates = .ok s') :
    SameChain s s' := by
  unfold pruneBlockIndexCandidates at h
  cases htip : s.tip with
  | none => simp [htip] at h
  | some tip =>
    simp only [htip] at h
    split_ifs at h
    obtain rfl := Except.ok.inj h
    exact ⟨BlockMap.SameTree.refl _, rfl⟩

/-! ## Moves of the tip -/

/-- `s'` has the same tree and its chain still has the prefix `c`. -/
structure Keeps (c : CChain) (s s' : NodeState W) : Prop where
  tree : s.mapBlockIndex.SameTree s'.mapBlockIndex
  inv : TreeInv s'
  kept : c <+: s'.chainActive

theorem SameChain.keeps (h : SameChain s s') (hs : TreeInv s)
    (hc : c <+: s.chainActive) : Keeps c s s' := by
  refine ⟨h.tree, h.treeInv hs, ?_⟩
  rw [h.chain]
  exact hc

theorem Keeps.trans {s₁ s₂ s₃ : NodeState W} (h₁ : Keeps c s₁ s₂)
    (h₂ : Keeps c s₂ s₃) : Keeps c s₁ s₃ :=
  ⟨h₁.tree.trans h₂.tree, h₂.inv, h₂.kept⟩

theorem disconnectTip_keeps (ops : TipOps W) {t : UInt256} (hs : TreeInv s)
    (ht : s.tip = some t) (hc : c <+: s.chainActive) (hlen : c.length < s.chainActive.length) :
    Keeps c s (s.disconnectTip ops t).2 := by
  unfold disconnectTip
  rcases ops.disconnect s t with ⟨_ | _, w⟩
  · exact (sameChain_world s w).keeps hs hc
  · have hchain : s.chainActive.setTip s.mapBlockIndex (s.idx t).pprev = s.chainActive.dropLast :=
      CChain.setTip_parent hs.chain ht
    refine ⟨BlockMap.SameTree.refl _, ⟨hs.tree, ?_⟩, ?_⟩
    · simp only [updateTip, hchain]
      exact hs.chain.dropLast
    · simp only [updateTip, hchain]
      rcases hc with ⟨rest, hrest⟩
      have hne : rest ≠ [] := by
        intro hnil
        simp [← hrest, hnil] at hlen
      rw [← hrest, List.dropLast_append_of_ne_nil hne]
      exact List.prefix_append _ _

/-- Everything `ConnectTip` can do. -/
theorem connectTip_cases {ops : TipOps W} {P : CChainParams} {p : UInt256} {pblock : Option CBlock}
    (h : s.connectTip ops P p pblock = .ok (r, s')) :
    (s.idx p).pprev = s.tip ∧ (ops.connect s p pblock).1 = r ∧
      ∃ w, (r = .ok () ∧ s' = s.connected P w p) ∨
        (∃ e, r = .error e ∧ s' = { s with world := w }) ∨
        ∃ nDoS code reason, r = .error (.invalid nDoS code reason false) ∧
          s' = ({ s with world := w } : NodeState W).invalidBlockFound p := by
  unfold connectTip at h
  split_ifs at h with hprev
  refine ⟨not_not.1 hprev, ?_⟩
  rcases hops : ops.connect s p pblock with ⟨(⟨nDoS, code, reason, corruption⟩ | reason) | _, w⟩
  · simp only [hops] at h
    split_ifs at h with hcorr
    · obtain ⟨rfl, rfl⟩ := Prod.mk.inj (Except.ok.inj h)
      exact ⟨rfl, w, Or.inr (Or.inl ⟨_, rfl, rfl⟩)⟩
    · obtain ⟨rfl, rfl⟩ := Prod.mk.inj (Except.ok.inj h)
      have hfalse : corruption = false := by simpa using hcorr
      subst hfalse
      exact ⟨rfl, w, Or.inr (Or.inr ⟨nDoS, code, reason, rfl, rfl⟩)⟩
  · simp only [hops] at h
    obtain ⟨rfl, rfl⟩ := Prod.mk.inj (Except.ok.inj h)
    exact ⟨rfl, w, Or.inr (Or.inl ⟨_, rfl, rfl⟩)⟩
  · simp only [hops] at h
    obtain ⟨rfl, rfl⟩ := Prod.mk.inj (Except.ok.inj h)
    exact ⟨rfl, w, Or.inl ⟨rfl, rfl⟩⟩

/-- A block connected on top of the tip: same tree, one more block. -/
theorem connected_spec {P : CChainParams} {p : UInt256} (hs : TreeInv s)
    (hparent : (s.idx p).pprev = s.tip) (w : W) :
    s.mapBlockIndex.SameTree (s.connected P w p).mapBlockIndex ∧
      (s.connected P w p).chainActive = s.chainActive ++ [p] ∧ TreeInv (s.connected P w p) := by
  have hmark : SameChain s (({ s with world := w } : NodeState W).markConnected P p) :=
    (sameChain_world s w).trans (sameChain_markConnected P _ p)
  have hinv := hmark.treeInv hs
  have htip : (((({ s with world := w } : NodeState W).markConnected P p)).mapBlockIndex.entry
      p).pprev = (({ s with world := w } : NodeState W).markConnected P p).chainActive.tip := by
    rw [hmark.tree.pprev, hmark.chain]
    exact hparent
  have hchain : (s.connected P w p).chainActive = s.chainActive ++ [p] := by
    have happend := CChain.setTip_child hinv.chain hinv.tree htip
    rw [hmark.chain] at happend
    simp only [connected, updateTip, hmark.chain]
    exact happend
  refine ⟨hmark.tree, hchain, hmark.tree.wellFormed hs.tree, ?_⟩
  rw [hchain]
  exact (hs.chain.concat hs.tree hparent).sameTree hmark.tree

/-- Connecting a block appends it or leaves the chain as it is. -/
theorem connectTip_keeps {ops : TipOps W} {P : CChainParams} {p : UInt256} {pblock : Option CBlock}
    (hs : TreeInv s) (hc : c <+: s.chainActive)
    (h : s.connectTip ops P p pblock = .ok (r, s')) : Keeps c s s' := by
  rcases connectTip_cases h with ⟨hparent, -, w, ⟨-, rfl⟩ | ⟨e, -, rfl⟩ | ⟨_, _, _, -, rfl⟩⟩
  · rcases connected_spec (P := P) hs hparent w with ⟨htree, hchain, hinv⟩
    refine ⟨htree, hinv, ?_⟩
    rw [hchain]
    exact hc.trans (List.prefix_append _ _)
  · exact (sameChain_world s w).keeps hs hc
  · exact ((sameChain_world s w).trans (sameChain_invalidBlockFound _ p)).keeps hs hc

/-! ## The loops of a step -/

theorem disconnectLoop_keeps {ops : TipOps W} {fork : Option UInt256}
    (hs : TreeInv s) (hc : c <+: s.chainActive)
    (hfork : c.getLast? = fork) (h : disconnectLoop ops fork fuel s = .ok (r, s')) :
    Keeps c s s' := by
  have hkeep : ∀ s t, s.tip = some t → some t ≠ fork → TreeInv s → c <+: s.chainActive →
      Keeps c s (s.disconnectTip ops t).2 := by
    intro s t htip hdone hs hc
    -- The tip is above the fork, so dropping it stays within the kept prefix.
    have hlen : c.length < s.chainActive.length := by
      refine lt_of_le_of_ne hc.length_le ?_
      intro heq
      have hsame : c = s.chainActive := hc.eq_of_length heq
      apply hdone
      rw [← hfork, hsame]
      exact htip.symm
    exact disconnectTip_keeps ops hs htip hc hlen
  refine disconnectLoop_induct (motive := fun s => TreeInv s → c <+: s.chainActive → Keeps c s s') h
    (fun _ => (SameChain.refl s').keeps) ?_ ?_ hs hc
  · intro s t e w htip hdone hd _ heq hs hc
    have hone := hkeep s t htip hdone hs hc
    rw [disconnectTip, hd] at hone
    rw [heq]
    exact hone
  · intro s t w htip hdone hd ih hs hc
    have hone := hkeep s t htip hdone hs hc
    rw [disconnectTip, hd] at hone
    exact hone.trans (ih hone.inv hone.kept)

theorem connectBlocks_keeps {ops : TipOps W} {P : CChainParams} {most : UInt256}
    {pblock : Option CBlock} {oldTip : Option UInt256} {back : UInt256} {ps : List UInt256}
    {exit : LoopExit} (hs : TreeInv s) (hc : c <+: s.chainActive)
    (h : connectBlocks ops P most pblock oldTip back ps s = .ok (exit, s')) : Keeps c s s' := by
  induction ps generalizing s with
  | nil =>
    simp only [connectBlocks, Except.ok.injEq, Prod.mk.injEq] at h
    rw [← h.2]
    exact (SameChain.refl s).keeps hs hc
  | cons p ps ih =>
    rcases connectBlocks_cases h with ⟨r, s₁, hconn, hcases⟩
    have hkeep := connectTip_keeps hs hc hconn
    rcases hcases with ⟨_, _, _, _, -, -, rfl⟩ | ⟨_, -, -, rfl⟩ | ⟨-, s₂, hprune, hrest⟩
    · split_ifs
      · exact hkeep
      · exact hkeep.trans ((sameChain_noteInvalid s₁ back).keeps hkeep.inv hkeep.kept)
    · exact hkeep
    · have hkeep₂ := hkeep.trans
        ((pruneBlockIndexCandidates_sameChain hprune).keeps hkeep.inv hkeep.kept)
      rcases hrest with ⟨-, rfl⟩ | hrest
      · exact hkeep₂
      · exact hkeep₂.trans (ih hkeep₂.inv hkeep₂.kept hrest)

theorem connectLoop_keeps {ops : TipOps W} {P : CChainParams} {most : UInt256}
    {pblock : Option CBlock} {oldTip : Option UInt256} {nHeight : Int}
    {exit : LoopExit} (hs : TreeInv s) (hc : c <+: s.chainActive)
    (h : connectLoop ops P most pblock oldTip fuel nHeight s = .ok (exit, s')) : Keeps c s s' := by
  refine connectLoop_induct (motive := fun s => TreeInv s → c <+: s.chainActive → Keeps c s s') h
    (fun _ => (SameChain.refl s').keeps) ?_ ?_ hs hc
  · intro s back nHeight k hblocks hs hc
    exact connectBlocks_keeps hs hc hblocks
  · intro s s₁ back nHeight k hblocks ih hs hc
    have hkeep := connectBlocks_keeps hs hc hblocks
    exact hkeep.trans (ih hkeep.inv hkeep.kept)

/-- The height of the fork with the candidate; `-1` when the two have no block in common. -/
def forkHeight (s : NodeState W) (pindexMostWork : UInt256) : Int :=
  match s.chainActive.findFork s.mapBlockIndex pindexMostWork with
  | some fork => (s.idx fork).nHeight
  | none => -1

/-- **One step.**  A refused step changes nothing; any other keeps the chain up to the fork. -/
theorem activateBestChainStep_keeps {ops : TipOps W} {P : CChainParams} {most : UInt256}
    {pblock : Option CBlock} (hs : TreeInv s)
    (h : activateBestChainStep ops P s most pblock = .ok (r, s')) :
    if s.reorgTooDeep P (s.chainActive.findFork s.mapBlockIndex most) then s' = s
    else Keeps (s.chainActive.take (s.forkHeight most + 1).toNat) s s' := by
  simp only [activateBestChainStep] at h
  by_cases hdeep : s.reorgTooDeep P (s.chainActive.findFork s.mapBlockIndex most) = true
  · simp only [hdeep, if_true] at h ⊢
    exact (Prod.mk.inj (Except.ok.inj h)).2.symm
  · simp only [hdeep, if_false, Bool.false_eq_true] at h ⊢
    -- The kept prefix ends with the fork.
    have hlast : (s.chainActive.take (s.forkHeight most + 1).toNat).getLast? =
        s.chainActive.findFork s.mapBlockIndex most := by
      cases hfork : s.chainActive.findFork s.mapBlockIndex most with
      | none => simp [forkHeight, hfork]
      | some f =>
        have hget := hs.chain.getElem? (hs.chain.findFork_mem hfork)
        have htoNat : (((s.idx f).nHeight : Int) + 1).toNat = (s.idx f).nHeight + 1 := by omega
        have hget' : s.chainActive[(s.idx f).nHeight]? = some f := hget
        simp only [forkHeight, hfork, htoNat, List.take_add_one, hget', Option.toList_some,
          List.getLast?_concat]
    have hinitial : s.chainActive.take (s.forkHeight most + 1).toNat <+: s.chainActive :=
      List.take_prefix _ _
    cases hdisc : disconnectLoop ops (s.chainActive.findFork s.mapBlockIndex most)
        (s.chainActive.length + 1) s with
    | error e => simp [hdisc] at h
    | ok res =>
      rcases res with ⟨_ | _, s₁⟩
      · simp only [hdisc] at h
        obtain ⟨-, rfl⟩ := Prod.mk.inj (Except.ok.inj h)
        exact disconnectLoop_keeps hs hinitial hlast hdisc
      · have hkeep := disconnectLoop_keeps hs hinitial hlast hdisc
        simp only [hdisc] at h
        split at h
        · simp at h
        · next hloop =>
          obtain ⟨-, rfl⟩ := Prod.mk.inj (Except.ok.inj h)
          exact hkeep.trans (connectLoop_keeps hkeep.inv hkeep.kept hloop)
        · next hloop =>
          obtain ⟨-, rfl⟩ := Prod.mk.inj (Except.ok.inj h)
          exact hkeep.trans (connectLoop_keeps hkeep.inv hkeep.kept hloop)

end NodeState

end Dobbscoin
