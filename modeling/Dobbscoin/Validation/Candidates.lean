import Dobbscoin.Validation.Finality

/-!
# Candidates across a call

`LoopInv` is what the loop of `ActivateBestChain` keeps about `setBlockIndexCandidates`: some block
that will connect is in the set, and so is every unfailed block with all its data that is not worse.
The functions that take blocks out of the set only take out blocks with a failed ancestor
(`FindMostWorkChain`), blocks that do not connect (`ConnectTip`) and blocks worse than the tip
(`PruneBlockIndexCandidates`).
-/

namespace Dobbscoin

variable {verdict : UInt256 → Except CValidationError Unit} {p : UInt256} {P : CChainParams}
  {pblock : Option CBlock} {most : UInt256} {fuel : Nat}

namespace NodeState

variable {W : Type} {s s' : NodeState W}

/-- No block from `p` down to its root is marked as failed. -/
def Unfailed (s : NodeState W) (p : UInt256) : Prop :=
  ∀ a, s.mapBlockIndex.Ancestor a p → (s.idx a).nStatus.failed = false

/-- The data of every block from `p` down to its root is stored. -/
def HasData (s : NodeState W) (p : UInt256) : Prop :=
  ∀ a, s.mapBlockIndex.Ancestor a p → (s.idx a).nStatus.haveData = true

/-- Whether a block connects is a property of the block: `verdict`.  There are no system errors. -/
structure Deterministic (ops : TipOps W) (verdict : UInt256 → Except CValidationError Unit) :
    Prop where
  connect : ∀ s p pblock, (ops.connect s p pblock).1 = verdict p
  disconnect : ∀ s p, (ops.disconnect s p).1 = .ok ()
  noError : ∀ p reason, verdict p ≠ .error (.error reason)

/-- The block connects, is not marked as failed and has its data. -/
structure GoodBlock (verdict : UInt256 → Except CValidationError Unit) (m : BlockMap)
    (p : UInt256) : Prop where
  connects : verdict p = .ok ()
  unfailed : (m.entry p).nStatus.failed = false
  haveData : (m.entry p).nStatus.haveData = true

structure LoopInv (verdict : UInt256 → Except CValidationError Unit) (s : NodeState W) : Prop where
  inv : TreeInv s
  chainGood : ∀ p ∈ s.chainActive, GoodBlock verdict s.mapBlockIndex p
  complete : ∃ best, (∀ a, s.mapBlockIndex.Ancestor a best → GoodBlock verdict s.mapBlockIndex a) ∧
    ∀ p, HasData s p → Unfailed s p → worse (s.idx p) (s.idx best) = false →
      p ∈ s.setBlockIndexCandidates

/-! ## Status updates -/

theorem idx_setStatus (s : NodeState W) (p q : UInt256) (f : BlockStatus → BlockStatus) :
    ((s.setStatus p f).idx q) = s.idx q ∨
      q = p ∧ ((s.setStatus p f).idx q) = { s.idx q with nStatus := f (s.idx q).nStatus } := by
  by_cases hq : q = p
  · subst hq
    cases hl : s.mapBlockIndex.lookup q with
    | none =>
      refine Or.inl ?_
      simp [idx, setStatus, BlockMap.entry, BlockMap.lookup_setStatus, hl]
    | some i =>
      exact Or.inr ⟨rfl, BlockMap.entry_setStatus_self (by simp [hl]) f⟩
  · exact Or.inl (BlockMap.entry_setStatus_ne hq f)

/-- What an update of flags keeps: the data flags; failed blocks stay failed. -/
structure Marks (s s' : NodeState W) : Prop where
  same : SameChain s s'
  haveData : ∀ p, (s'.idx p).nStatus.haveData = (s.idx p).nStatus.haveData
  failed : ∀ p, (s.idx p).nStatus.failed = true → (s'.idx p).nStatus.failed = true

theorem Marks.refl (s : NodeState W) : Marks s s :=
  ⟨SameChain.refl s, fun _ => rfl, fun _ h => h⟩

theorem Marks.trans {s₁ s₂ s₃ : NodeState W} (h₁ : Marks s₁ s₂) (h₂ : Marks s₂ s₃) : Marks s₁ s₃ :=
  ⟨h₁.same.trans h₂.same, fun p => (h₂.haveData p).trans (h₁.haveData p),
    fun p h => h₂.failed p (h₁.failed p h)⟩

theorem Marks.ancestor (h : Marks s s') {a b : UInt256} :
    s'.mapBlockIndex.Ancestor a b ↔ s.mapBlockIndex.Ancestor a b :=
  h.same.tree.ancestor

theorem Marks.hasData (h : Marks s s') : HasData s' p ↔ HasData s p := by
  simp only [HasData, h.ancestor, h.haveData]

theorem Marks.unfailed (h : Marks s s') (hp : Unfailed s' p) : Unfailed s p := by
  intro a ha
  cases hf : (s.idx a).nStatus.failed with
  | false => rfl
  | true =>
    have hcontra := hp a (h.ancestor.2 ha)
    rw [h.failed a hf] at hcontra
    exact hcontra

/-- The order of candidates does not look at flags. -/
theorem worse_sameTree (h : s.mapBlockIndex.SameTree s'.mapBlockIndex) (p q : UInt256) :
    worse (s'.idx p) (s'.idx q) = worse (s.idx p) (s.idx q) := by
  have hp := h.entry p
  have hq := h.entry q
  simp only [idx]
  rw [hp, hq]
  rfl

theorem marks_setStatus (s : NodeState W) (p : UInt256) {f : BlockStatus → BlockStatus}
    (hdata : ∀ n, (f n).haveData = n.haveData) (hfailed : ∀ n, n.failed = true → (f n).failed = true) :
    Marks s (s.setStatus p f) := by
  refine ⟨sameChain_setStatus s p f, ?_, ?_⟩
  · intro q
    rcases idx_setStatus s p q f with hq | ⟨-, hq⟩
    · rw [hq]
    · rw [hq]
      exact hdata _
  · intro q hfail
    rcases idx_setStatus s p q f with hq | ⟨-, hq⟩
    · rw [hq]
      exact hfail
    · rw [hq]
      exact hfailed _ hfail

theorem marks_of_eq (hm : s'.mapBlockIndex = s.mapBlockIndex)
    (hc : s'.chainActive = s.chainActive) : Marks s s' := by
  refine ⟨⟨?_, hc⟩, ?_, ?_⟩
  · rw [hm]
    exact BlockMap.SameTree.refl _
  · intro p
    simp only [idx, hm]
  · intro p hp
    simpa only [idx, hm] using hp

/-! ## Keeping the invariant -/

theorem LoopInv.chain_unfailed (h : LoopInv verdict s) (hp : p ∈ s.chainActive) : Unfailed s p := by
  intro a ha
  exact (h.chainGood a (h.inv.chain.ancestor_mem hp ha)).unfailed

/-- Nothing the invariant talks about has changed, and no candidate it needs was dropped. -/
theorem LoopInv.of_marks (h : LoopInv verdict s) (hm : Marks s s')
    (hgood : ∀ p, GoodBlock verdict s.mapBlockIndex p → Unfailed s p → (s'.idx p).nStatus.failed = false)
    (hcand : ∀ p ∈ s.setBlockIndexCandidates, HasData s' p → Unfailed s' p →
      p ∈ s'.setBlockIndexCandidates) : LoopInv verdict s' := by
  have hgood' : ∀ p, GoodBlock verdict s.mapBlockIndex p → Unfailed s p → GoodBlock verdict s'.mapBlockIndex p := by
    intro p hp hu
    exact ⟨hp.connects, hgood p hp hu, (hm.haveData p).trans hp.haveData⟩
  refine ⟨hm.same.treeInv h.inv, ?_, ?_⟩
  · intro p hp
    rw [hm.same.chain] at hp
    exact hgood' p (h.chainGood p hp) (h.chain_unfailed hp)
  · rcases h.complete with ⟨best, hbest, hcomplete⟩
    refine ⟨best, ?_, ?_⟩
    · intro a ha
      have ha' := hm.ancestor.1 ha
      refine hgood' a (hbest a ha') ?_
      intro b hb
      exact (hbest b (hb.trans ha')).unfailed
    · intro p hdata hu hworse
      rw [worse_sameTree hm.same.tree] at hworse
      exact hcand p (hcomplete p (hm.hasData.1 hdata) (hm.unfailed hu) hworse) hdata hu

/-- Marking a block that has a failed ancestor or does not connect, and dropping it from the set. -/
theorem LoopInv.mark (h : LoopInv verdict s)
    {f : BlockStatus → BlockStatus} (hdata : ∀ n, (f n).haveData = n.haveData)
    (hf : ∀ n, (f n).failed = true) (hbad : ¬ Unfailed s p ∨ verdict p ≠ .ok ()) :
    LoopInv verdict ((s.setStatus p f).eraseCandidate p) := by
  have hmarks : Marks s ((s.setStatus p f).eraseCandidate p) :=
    (marks_setStatus s p hdata fun n _ => hf n).trans (marks_of_eq rfl rfl)
  refine h.of_marks hmarks ?_ ?_
  · intro q hq hu
    have hne : q ≠ p := by
      rintro rfl
      rcases hbad with hnot | hverdict
      · exact hnot hu
      · exact hverdict hq.connects
    rcases idx_setStatus s p q f with heq | ⟨heq, -⟩
    · have hidx : ((s.setStatus p f).eraseCandidate p).idx q = s.idx q := heq
      rw [hidx]
      exact hq.unfailed
    · exact absurd heq hne
  · intro q hq hqdata hqu
    have hne : q ≠ p := by
      rintro rfl
      -- A stored block carries the mark now; a pointer without an entry has no data.
      have hnow := hqu q (BlockMap.Ancestor.refl _ _)
      have hdat := hqdata q (BlockMap.Ancestor.refl _ _)
      cases hl : s.mapBlockIndex.lookup q with
      | none =>
        simp [idx, eraseCandidate, setStatus, BlockMap.entry, BlockMap.lookup_setStatus, hl,
          CBlockIndex.null, BlockStatus.null] at hdat
      | some i =>
        have hself := BlockMap.entry_setStatus_self (m := s.mapBlockIndex) (h := q) (by simp [hl]) f
        simp only [idx, eraseCandidate, setStatus, hself, hf] at hnow
        exact Bool.noConfusion hnow
    simp only [eraseCandidate, List.mem_filter]
    exact ⟨hq, by simpa using hne⟩

/-! ## FindMostWorkChain -/

/-- The walk from a candidate either finds a failed ancestor or has seen the whole branch. -/
theorem firstFailed_spec {start : Option UInt256} {r : Option UInt256}
    (hs : TreeInv s) (h : s.firstFailed fuel start = .ok r) :
    ∀ p ∈ start,
      (∀ q, r = some q → s.mapBlockIndex.Ancestor q p ∧ (s.idx q).nStatus.failed = true) ∧
      (r = none → ∀ a, s.mapBlockIndex.Ancestor a p →
        a ∈ s.chainActive ∨
          (s.idx a).nStatus.haveData = true ∧ (s.idx a).nStatus.failed = false) := by
  intro p hp
  obtain rfl := Option.mem_def.1 hp
  induction fuel generalizing p with
  | zero => simp [firstFailed] at h
  | succ fuel ih =>
    rw [firstFailed] at h
    split_ifs at h with hchain hdata htx hfail
    · obtain rfl := Except.ok.inj h
      refine ⟨by simp, fun _ a ha => Or.inl ?_⟩
      exact hs.chain.ancestor_mem (hs.chain.contains_iff.1 hchain) ha
    · obtain rfl := Except.ok.inj h
      refine ⟨?_, by simp⟩
      intro q hq
      rw [← Option.some.inj hq]
      exact ⟨BlockMap.Ancestor.refl _ _, hfail⟩
    · have hself : (s.idx p).nStatus.haveData = true ∧ (s.idx p).nStatus.failed = false := by
        refine ⟨by simpa using hdata, by simpa using hfail⟩
      cases hprev : (s.idx p).pprev with
      | none =>
        rw [hprev] at h
        have hr : r = none := by
          cases fuel with
          | zero => simpa [firstFailed] using h.symm
          | succ fuel => simpa [firstFailed] using h.symm
        refine ⟨by simp [hr], fun _ a ha => ?_⟩
        rcases Relation.ReflTransGen.cases_tail ha with rfl | ⟨b, -, hb⟩
        · exact Or.inr hself
        · have hb' : (s.idx p).pprev = some b := hb
          simp [hprev] at hb'
      | some q =>
        rw [hprev] at h
        rcases ih q h rfl with ⟨hfound, hclear⟩
        refine ⟨?_, ?_⟩
        · intro t ht
          rcases hfound t ht with ⟨hanc, hfailed⟩
          exact ⟨hanc.trans (BlockMap.ancestor_pprev hprev), hfailed⟩
        · intro hnone a ha
          rcases Relation.ReflTransGen.cases_tail ha with rfl | ⟨b, hab, hb⟩
          · exact Or.inr hself
          · have hb' : (s.idx p).pprev = some b := hb
            rw [hprev] at hb'
            obtain rfl := Option.some.inj hb'
            exact hclear hnone a hab

/-- The marking walk only touches blocks above the failed one. -/
theorem markFailedChild_spec
    {pindexTest : UInt256} (fuel : Nat) (start : Option UInt256) (h : LoopInv verdict s)
    (hfailed : (s.idx pindexTest).nStatus.failed = true)
    (hstart : ∀ p ∈ start, s.mapBlockIndex.Ancestor pindexTest p) :
    LoopInv verdict (markFailedChild pindexTest fuel start s) ∧
      Marks s (markFailedChild pindexTest fuel start s) ∧
      ∀ p, Unfailed s p → Unfailed (markFailedChild pindexTest fuel start s) p := by
  induction fuel generalizing start s with
  | zero => exact ⟨h, Marks.refl s, fun _ hp => hp⟩
  | succ fuel ih =>
    cases start with
    | none => exact ⟨h, Marks.refl s, fun _ hp => hp⟩
    | some p =>
      rw [markFailedChild]
      split_ifs with heq
      · exact ⟨h, Marks.refl s, fun _ hp => hp⟩
      have hanc : s.mapBlockIndex.Ancestor pindexTest p := hstart p rfl
      have htaint : ¬ Unfailed s p := by
        intro hu
        have hcontra := hu pindexTest hanc
        rw [hfailed] at hcontra
        exact Bool.noConfusion hcontra
      -- One block marked, then the walk goes on from its parent.
      have hdata : ∀ n : BlockStatus, ({ n with failedChild := true } : BlockStatus).haveData =
          n.haveData := fun _ => rfl
      have hmark : ∀ n : BlockStatus, ({ n with failedChild := true } : BlockStatus).failed =
          true := by
        intro n
        simp [BlockStatus.failed]
      have hmarks : Marks s ((s.setStatus p fun n => { n with failedChild := true }).eraseCandidate
          p) := (marks_setStatus s p hdata fun n _ => hmark n).trans (marks_of_eq rfl rfl)
      have hkeep : ∀ q, Unfailed s q →
          Unfailed ((s.setStatus p fun n => { n with failedChild := true }).eraseCandidate p) q := by
        intro q hq a ha
        have ha' := hmarks.ancestor.1 ha
        have hne : a ≠ p := by
          rintro rfl
          exact htaint fun b hb => hq b (hb.trans ha')
        rcases idx_setStatus s p a fun n => { n with failedChild := true } with hidx | ⟨hidx, -⟩
        · have hidx' : ((s.setStatus p fun n => { n with failedChild := true }).eraseCandidate p).idx
              a = s.idx a := hidx
          rw [hidx']
          exact hq a ha'
        · exact absurd hidx hne
      have hbelow : ∀ q ∈ (s.idx p).pprev, ((s.setStatus p fun n =>
          { n with failedChild := true }).eraseCandidate p).mapBlockIndex.Ancestor pindexTest q := by
        intro q hq
        rw [hmarks.ancestor]
        -- The failed block is below `p`, hence at or below its parent.
        rcases Relation.ReflTransGen.cases_tail hanc with hself | ⟨b, hb, hbp⟩
        · exact absurd hself heq
        · have hbp' : (s.idx p).pprev = some b := hbp
          rw [Option.mem_def, hbp'] at hq
          rw [← Option.some.inj hq]
          exact hb
      have hnext := ih (s.idx p).pprev (h.mark hdata hmark (Or.inl htaint))
        (hmarks.failed _ hfailed) hbelow
      rcases hnext with ⟨hinv, hm, hu⟩
      exact ⟨hinv, hmarks.trans hm, fun q hq => hu q (hkeep q hq)⟩

@[simp] theorem noteInvalid_mapBlockIndex (s : NodeState W) (p : UInt256) :
    (s.noteInvalid p).mapBlockIndex = s.mapBlockIndex := by
  unfold noteInvalid
  split
  · rfl
  · split_ifs <;> rfl

@[simp] theorem noteInvalid_candidates (s : NodeState W) (p : UInt256) :
    (s.noteInvalid p).setBlockIndexCandidates = s.setBlockIndexCandidates := by
  unfold noteInvalid
  split
  · rfl
  · split_ifs <;> rfl

/-- The invariant does not look at the world, and candidates may only be gained. -/
theorem LoopInv.of_eq (h : LoopInv verdict s)
    (hm : s'.mapBlockIndex = s.mapBlockIndex) (hc : s'.chainActive = s.chainActive)
    (hcand : ∀ p ∈ s.setBlockIndexCandidates, Unfailed s p → p ∈ s'.setBlockIndexCandidates) :
    LoopInv verdict s' := by
  have hmarks := marks_of_eq hm hc
  refine h.of_marks hmarks ?_ ?_
  · intro q hq _
    simpa only [idx, hm] using hq.unfailed
  · intro q hq _ hu
    exact hcand q hq (hmarks.unfailed hu)

theorem LoopInv.noteInvalid
    (h : LoopInv verdict s) (p : UInt256) : LoopInv verdict (s.noteInvalid p) :=
  h.of_eq (by simp) (sameChain_noteInvalid s p).chain fun _ hq _ => by simpa using hq

/-- Dropping a failed block from the set. -/
theorem LoopInv.erase_failed (h : LoopInv verdict s) (hp : (s.idx p).nStatus.failed = true) :
    LoopInv verdict (s.eraseCandidate p) := by
  refine h.of_eq rfl rfl ?_
  intro q hq hu
  have hne : q ≠ p := by
    rintro rfl
    have hcontra := hu q (BlockMap.Ancestor.refl _ _)
    rw [hp] at hcontra
    exact Bool.noConfusion hcontra
  simp only [eraseCandidate, List.mem_filter]
  exact ⟨hq, by simpa using hne⟩

/-- **`FindMostWorkChain`.**  It keeps the invariant, fails no branch that was unfailed, and what it
returns is the greatest candidate, with its whole branch stored and unfailed. -/
theorem findMostWorkChainLoop_spec {most : Option UInt256} (h : LoopInv verdict s)
    (hrun : findMostWorkChainLoop fuel s = .ok (most, s')) :
    LoopInv verdict s' ∧ Marks s s' ∧ (∀ p, Unfailed s p → Unfailed s' p) ∧
      s'.bestCandidate = most ∧ ∀ p, most = some p → HasData s' p ∧ Unfailed s' p := by
  refine findMostWorkChainLoop_induct (motive := fun s => LoopInv verdict s → LoopInv verdict s' ∧ Marks s s' ∧
    (∀ p, Unfailed s p → Unfailed s' p) ∧ s'.bestCandidate = most ∧
      ∀ p, most = some p → HasData s' p ∧ Unfailed s' p) hrun ?_ ?_ h
  · intro hbest hwalk h
    have hclear : ∀ p, most = some p → ∀ a, s'.mapBlockIndex.Ancestor a p →
        (s'.idx a).nStatus.haveData = true ∧ (s'.idx a).nStatus.failed = false := by
      intro p hp a ha
      rcases (firstFailed_spec h.inv (hwalk p hp) p rfl).2 rfl a ha with hmem | hseen
      · exact ⟨(h.chainGood a hmem).haveData, (h.chainGood a hmem).unfailed⟩
      · exact hseen
    exact ⟨h, Marks.refl s', fun _ hp => hp, hbest,
      fun p hp => ⟨fun a ha => (hclear p hp a ha).1, fun a ha => (hclear p hp a ha).2⟩⟩
  · intro s p t hwalk _ ih h
    rcases (firstFailed_spec h.inv hwalk p rfl).1 t rfl with ⟨hanc, hfailed⟩
    have hm₁ : Marks s (s.noteInvalid p) :=
      marks_of_eq (by simp) (sameChain_noteInvalid s p).chain
    have hstart : ∀ q ∈ some p, (s.noteInvalid p).mapBlockIndex.Ancestor t q := by
      intro q hq
      rw [← Option.some.inj hq]
      exact hm₁.ancestor.2 hanc
    rcases markFailedChild_spec ((s.idx p).nHeight + 1) (some p) (h.noteInvalid p)
      (hm₁.failed t hfailed) hstart with ⟨hinv₂, hm₂, hu₂⟩
    have hm₃ : Marks (markFailedChild t ((s.idx p).nHeight + 1) (some p) (s.noteInvalid p))
        ((markFailedChild t ((s.idx p).nHeight + 1) (some p)
          (s.noteInvalid p)).eraseCandidate t) := marks_of_eq rfl rfl
    have hfailed₂ := hm₂.failed t (hm₁.failed t hfailed)
    rcases ih (hinv₂.erase_failed hfailed₂) with ⟨hinv, hm, hu, hbest', hclear⟩
    refine ⟨hinv, ((hm₁.trans hm₂).trans hm₃).trans hm, ?_, hbest', hclear⟩
    intro q hq
    exact hu q (hu₂ q (by simpa only [Unfailed, idx, noteInvalid_mapBlockIndex] using hq))

/-! ## The steps -/

/-- Same tree and same flags; the chain may have moved, and candidates may have been dropped. -/
structure SameFlags (s s' : NodeState W) : Prop where
  tree : s.mapBlockIndex.SameTree s'.mapBlockIndex
  haveData : ∀ p, (s'.idx p).nStatus.haveData = (s.idx p).nStatus.haveData
  failed : ∀ p, (s'.idx p).nStatus.failed = (s.idx p).nStatus.failed

theorem SameFlags.of_map (h : s'.mapBlockIndex = s.mapBlockIndex) : SameFlags s s' := by
  refine ⟨?_, ?_, ?_⟩
  · rw [h]
    exact BlockMap.SameTree.refl _
  · intro p
    simp only [idx, h]
  · intro p
    simp only [idx, h]

theorem SameFlags.trans {s₁ s₂ s₃ : NodeState W} (h₁ : SameFlags s₁ s₂) (h₂ : SameFlags s₂ s₃) :
    SameFlags s₁ s₃ :=
  ⟨h₁.tree.trans h₂.tree, fun p => (h₂.haveData p).trans (h₁.haveData p),
    fun p => (h₂.failed p).trans (h₁.failed p)⟩

theorem SameFlags.hasData (h : SameFlags s s') : HasData s' p ↔ HasData s p := by
  simp only [HasData, h.tree.ancestor, h.haveData]

theorem SameFlags.unfailed (h : SameFlags s s') : Unfailed s' p ↔ Unfailed s p := by
  simp only [Unfailed, h.tree.ancestor, h.failed]

theorem SameFlags.goodBlock (h : SameFlags s s')
    (hp : GoodBlock verdict s.mapBlockIndex p) : GoodBlock verdict s'.mapBlockIndex p :=
  ⟨hp.connects, (h.failed p).trans hp.unfailed, (h.haveData p).trans hp.haveData⟩

theorem sameFlags_markConnected (P : CChainParams) (s : NodeState W) (p : UInt256) :
    SameFlags s (s.markConnected P p) := by
  unfold markConnected
  split_ifs
  · exact SameFlags.of_map rfl
  · refine ⟨(sameChain_setStatus s p _).tree, ?_, ?_⟩
    · intro q
      rcases idx_setStatus s p q _ with hq | ⟨-, hq⟩
      · rw [hq]
      · rw [hq]
        simp
    · intro q
      rcases idx_setStatus s p q _ with hq | ⟨-, hq⟩
      · rw [hq]
      · rw [hq]
        exact BlockStatus.raiseValidity_failed _ _

theorem markConnected_candidates (P : CChainParams) (s : NodeState W) (p : UInt256) :
    (s.markConnected P p).setBlockIndexCandidates = s.setBlockIndexCandidates := by
  unfold markConnected
  split_ifs <;> rfl

theorem pruneBlockIndexCandidates_eq (h : s.pruneBlockIndexCandidates = .ok s') :
    ∃ tip, s.tip = some tip ∧
      s' = { s with setBlockIndexCandidates :=
        s.setBlockIndexCandidates.filter fun p => !worse (s.idx p) (s.idx tip) } := by
  unfold pruneBlockIndexCandidates at h
  cases htip : s.tip with
  | none => simp [htip] at h
  | some tip =>
    simp only [htip] at h
    split_ifs at h
    exact ⟨tip, rfl, (Except.ok.inj h).symm⟩

theorem connected_flags (P : CChainParams) (s : NodeState W) (w : W) (p : UInt256) :
    SameFlags s (s.connected P w p) ∧
      (s.connected P w p).setBlockIndexCandidates = s.setBlockIndexCandidates := by
  have hmark := sameFlags_markConnected P ({ s with world := w } : NodeState W) p
  have hworld : SameFlags s ({ s with world := w } : NodeState W) := SameFlags.of_map rfl
  have htip : SameFlags (({ s with world := w } : NodeState W).markConnected P p)
      (s.connected P w p) := SameFlags.of_map rfl
  exact ⟨(hworld.trans hmark).trans htip,
    markConnected_candidates P ({ s with world := w } : NodeState W) p⟩

/-- A good block connected on top of the tip. -/
theorem LoopInv.connected (h : LoopInv verdict s) (hparent : (s.idx p).pprev = s.tip)
    (hp : GoodBlock verdict s.mapBlockIndex p) (w : W) : LoopInv verdict (s.connected P w p) := by
  rcases connected_spec (P := P) h.inv hparent w with ⟨-, hchain, hinv⟩
  rcases connected_flags P s w p with ⟨hflags, hcands⟩
  refine ⟨hinv, ?_, ?_⟩
  · intro q hq
    rw [hchain] at hq
    rcases List.mem_append.1 hq with hold | hnew
    · exact hflags.goodBlock (h.chainGood q hold)
    · rw [List.mem_singleton.1 hnew]
      exact hflags.goodBlock hp
  · rcases h.complete with ⟨best, hbest, hcomplete⟩
    refine ⟨best, fun a ha => hflags.goodBlock (hbest a (hflags.tree.ancestor.1 ha)), ?_⟩
    intro q hdata hu hq
    rw [worse_sameTree hflags.tree] at hq
    rw [hcands]
    exact hcomplete q (hflags.hasData.1 hdata) (hflags.unfailed.1 hu) hq

/-- Dropping the candidates that are worse than the tip: the better of the tip and the old best
block takes over. -/
theorem LoopInv.prune (h : LoopInv verdict s)
    (hprune : s.pruneBlockIndexCandidates = .ok s') :
    LoopInv verdict s' ∧ SameFlags s s' ∧
      s'.setBlockIndexCandidates ⊆ s.setBlockIndexCandidates := by
  rcases pruneBlockIndexCandidates_eq hprune with ⟨tip, htip, rfl⟩
  refine ⟨⟨⟨h.inv.tree, h.inv.chain⟩, h.chainGood, ?_⟩, SameFlags.of_map rfl, ?_⟩
  · have hmem : tip ∈ s.chainActive := List.mem_of_getLast? htip
    have htipGood : ∀ a, s.mapBlockIndex.Ancestor a tip → GoodBlock verdict s.mapBlockIndex a :=
      fun a ha => h.chainGood a (h.inv.chain.ancestor_mem hmem ha)
    have hkept : ∀ q ∈ s.setBlockIndexCandidates, worse (s.idx q) (s.idx tip) = false →
        q ∈ s.setBlockIndexCandidates.filter fun q => !worse (s.idx q) (s.idx tip) := by
      intro q hq hworse
      rw [List.mem_filter]
      exact ⟨hq, by simp [hworse]⟩
    rcases h.complete with ⟨best, hbest, hcomplete⟩
    cases hcmp : worse (s.idx tip) (s.idx best) with
    | true =>
      refine ⟨best, hbest, ?_⟩
      intro q hdata hu hq
      exact hkept q (hcomplete q hdata hu hq) (not_worse_trans hq (not_worse_of_worse hcmp))
    | false =>
      refine ⟨tip, htipGood, ?_⟩
      intro q hdata hu hq
      exact hkept q (hcomplete q hdata hu (not_worse_trans hq hcmp)) hq
  · intro q hq
    exact (List.mem_filter.1 hq).1

/-- A block that does not connect, found by `ConnectTip`. -/
theorem LoopInv.invalidBlockFound (h : LoopInv verdict s) (hp : verdict p ≠ .ok ()) :
    LoopInv verdict (s.invalidBlockFound p) := by
  have hmark : ∀ n : BlockStatus, ({ n with failedValid := true } : BlockStatus).failed = true := by
    intro n
    simp [BlockStatus.failed]
  exact (h.mark (f := fun n => { n with failedValid := true }) (fun _ => rfl) hmark
    (Or.inr hp)).noteInvalid p

theorem invalidBlockFound_candidates (s : NodeState W) (p : UInt256) :
    (s.invalidBlockFound p).setBlockIndexCandidates ⊆ s.setBlockIndexCandidates := by
  intro q hq
  simp only [NodeState.invalidBlockFound, noteInvalid_candidates, eraseCandidate, setStatus,
    List.mem_filter] at hq
  exact hq.1

/-! ## The loops -/

theorem disconnectLoop_spec {ops : TipOps W}
    (hops : Deterministic ops verdict) {fork : Option UInt256}
    {r : Except CValidationError Unit} (h : LoopInv verdict s)
    (hrun : disconnectLoop ops fork fuel s = .ok (r, s')) :
    r = .ok () ∧ LoopInv verdict s' ∧ s'.mapBlockIndex = s.mapBlockIndex ∧
      s'.setBlockIndexCandidates = s.setBlockIndexCandidates := by
  refine disconnectLoop_induct (motive := fun s => LoopInv verdict s → r = .ok () ∧ LoopInv verdict s' ∧
    s'.mapBlockIndex = s.mapBlockIndex ∧ s'.setBlockIndexCandidates = s.setBlockIndexCandidates) hrun
    (fun hr h => ⟨hr, h, rfl, rfl⟩) ?_ ?_ h
  · intro s t e w _ _ hd _ _ _
    have hok := hops.disconnect s t
    rw [hd] at hok
    cases hok
  · intro s t w htip _ hd ih h
    have hne : s.chainActive ≠ [] := by
      intro hnil
      simp [NodeState.tip, CChain.tip, hnil] at htip
    have hkeep := disconnectTip_keeps ops h.inv htip List.nil_prefix (List.length_pos_iff.2 hne)
    have hchain : s.chainActive.setTip s.mapBlockIndex (s.idx t).pprev = s.chainActive.dropLast :=
      CChain.setTip_parent h.inv.chain htip
    rw [disconnectTip, hd] at hkeep
    refine ih ⟨hkeep.inv, ?_, h.complete⟩
    intro q hq
    simp only [updateTip, hchain] at hq
    exact h.chainGood q (List.dropLast_subset _ hq)

/-- The branch that is being connected: ancestors of the candidate. -/
theorem branchDown_ancestor {m : BlockMap} {nHeight : Int} {start : Option UInt256}
    (hstart : ∀ p ∈ start, m.Ancestor p most) :
    ∀ p ∈ branchDown m nHeight fuel start, m.Ancestor p most := by
  induction fuel generalizing start with
  | zero => simp [branchDown]
  | succ fuel ih =>
    cases start with
    | none => simp [branchDown]
    | some q =>
      rw [branchDown]
      split_ifs
      · simp
      · intro p hp
        rcases List.mem_cons.1 hp with rfl | hp
        · exact hstart p rfl
        · refine ih ?_ p hp
          intro r hr
          exact (BlockMap.ancestor_pprev hr).trans (hstart q rfl)

/-- What connecting leaves for the rest of the call. -/
structure Connected (verdict : UInt256 → Except CValidationError Unit) (s s' : NodeState W) :
    Prop where
  inv : LoopInv verdict s'
  tree : s.mapBlockIndex.SameTree s'.mapBlockIndex
  candidates : s'.setBlockIndexCandidates ⊆ s.setBlockIndexCandidates

theorem connectBlocks_spec {ops : TipOps W}
    (hops : Deterministic ops verdict)
    {oldTip : Option UInt256} {back : UInt256} {ps : List UInt256}
    {exit : LoopExit} (h : LoopInv verdict s) (hps : ∀ p ∈ ps, HasData s p ∧ Unfailed s p)
    (hrun : connectBlocks ops P most pblock oldTip back ps s = .ok (exit, s')) :
    Connected verdict s s' ∧ (∀ e, exit ≠ .fail e) ∧ (exit = .goOn → SameFlags s s') := by
  induction ps generalizing s with
  | nil =>
    simp only [connectBlocks, Except.ok.injEq, Prod.mk.injEq] at hrun
    rcases hrun with ⟨rfl, rfl⟩
    exact ⟨⟨h, BlockMap.SameTree.refl _, fun _ hq => hq⟩, by simp, fun _ => SameFlags.of_map rfl⟩
  | cons p ps ih =>
    rcases connectBlocks_cases hrun with ⟨r, s₁, hconn, hends⟩
    rcases connectTip_cases hconn with ⟨hparent, hr, w, hcases⟩
    rw [hops.connect] at hr
    rcases hends with ⟨nDoS, code, reason, corruption, rfl, rfl, rfl⟩ | ⟨reason, rfl, -, -⟩ | ⟨rfl, s₂, hprune, hrest⟩
    · -- The block does not connect.
      have hbad : verdict p ≠ .ok () := by
        rw [hr]
        simp
      have hfail : Connected verdict s s₁ := by
        rcases hcases with ⟨hok, -⟩ | ⟨e, -, rfl⟩ | ⟨_, _, _, -, rfl⟩
        · simp at hok
        · exact ⟨h.of_eq rfl rfl fun _ hq _ => hq, BlockMap.SameTree.refl _, fun _ hq => hq⟩
        · have hw : LoopInv verdict ({ s with world := w } : NodeState W) :=
            h.of_eq rfl rfl fun _ hq _ => hq
          exact ⟨hw.invalidBlockFound hbad, (sameChain_invalidBlockFound _ p).tree,
            invalidBlockFound_candidates _ p⟩
      refine ⟨?_, by simp, by simp⟩
      split_ifs
      · exact hfail
      · exact ⟨hfail.inv.noteInvalid back, hfail.tree.trans (sameChain_noteInvalid s₁ back).tree,
          by simpa using hfail.candidates⟩
    · exact absurd hr (hops.noError p reason)
    · have hgood : GoodBlock verdict s.mapBlockIndex p := by
        rcases hps p List.mem_cons_self with ⟨hdata, hu⟩
        exact ⟨hr, hu p (BlockMap.Ancestor.refl _ _), hdata p (BlockMap.Ancestor.refl _ _)⟩
      have hs₁ : s₁ = s.connected P w p := by
        rcases hcases with ⟨-, heq⟩ | ⟨e, herr, -⟩ | ⟨_, _, _, herr, -⟩
        · exact heq
        · simp at herr
        · simp at herr
      subst hs₁
      rcases (h.connected (P := P) hparent hgood w).prune hprune with ⟨hinv₂, hflags₂, hsub₂⟩
      rcases connected_flags P s w p with ⟨hflags₁, hcands₁⟩
      have hflags : SameFlags s s₂ := hflags₁.trans hflags₂
      have hsub : s₂.setBlockIndexCandidates ⊆ s.setBlockIndexCandidates := by
        rw [← hcands₁]
        exact hsub₂
      rcases hrest with ⟨rfl, rfl⟩ | hrest
      · exact ⟨⟨hinv₂, hflags.tree, hsub⟩, by simp, by simp⟩
      · have hps' : ∀ q ∈ ps, HasData s₂ q ∧ Unfailed s₂ q := by
          intro q hq
          rcases hps q (List.mem_cons_of_mem _ hq) with ⟨hdata, hu⟩
          exact ⟨hflags.hasData.2 hdata, hflags.unfailed.2 hu⟩
        rcases ih hinv₂ hps' hrest with ⟨hc, hnf, hgo⟩
        exact ⟨⟨hc.inv, hflags.tree.trans hc.tree, fun _ hq => hsub (hc.candidates hq)⟩, hnf,
          fun he => hflags.trans (hgo he)⟩

theorem connectLoop_spec {ops : TipOps W}
    (hops : Deterministic ops verdict)
    {oldTip : Option UInt256} {nHeight : Int}
    {exit : LoopExit} (h : LoopInv verdict s) (hdata : HasData s most) (hu : Unfailed s most)
    (hrun : connectLoop ops P most pblock oldTip fuel nHeight s = .ok (exit, s')) :
    Connected verdict s s' ∧ ∀ e, exit ≠ .fail e := by
  have hbranch : ∀ (s : NodeState W) (nHeight k : Int), LoopInv verdict s → HasData s most → Unfailed s most →
      ∀ p ∈ (branchDown s.mapBlockIndex nHeight ((s.idx most).nHeight + 1)
        (s.mapBlockIndex.getAncestor most k)).reverse, HasData s p ∧ Unfailed s p := by
    intro s nHeight k h hdata hu p hp
    have hanc : s.mapBlockIndex.Ancestor p most :=
      branchDown_ancestor (fun q hq => h.inv.tree.getAncestor_ancestor hq) p (List.mem_reverse.1 hp)
    exact ⟨fun a ha => hdata a (ha.trans hanc), fun a ha => hu a (ha.trans hanc)⟩
  refine connectLoop_induct (motive := fun s => LoopInv verdict s → HasData s most → Unfailed s most →
    Connected verdict s s' ∧ ∀ e, exit ≠ .fail e) hrun ?_ ?_ ?_ h hdata hu
  · rintro rfl h - -
    exact ⟨⟨h, BlockMap.SameTree.refl _, fun _ hq => hq⟩, by simp⟩
  · intro s back nHeight k hblocks h hdata hu
    rcases connectBlocks_spec hops h (hbranch s nHeight k h hdata hu) hblocks with ⟨hc, hnf, -⟩
    exact ⟨hc, hnf⟩
  · intro s s₁ back nHeight k hblocks ih h hdata hu
    rcases connectBlocks_spec hops h (hbranch s nHeight k h hdata hu) hblocks with ⟨hc, -, hgo⟩
    have hflags := hgo rfl
    rcases ih hc.inv (hflags.hasData.2 hdata) (hflags.unfailed.2 hu) with ⟨hc', hnf⟩
    exact ⟨⟨hc'.inv, hc.tree.trans hc'.tree, fun _ hq => hc.candidates (hc'.candidates hq)⟩, hnf⟩

/-- **One step.**  Refused, or carried out without a system error. -/
theorem activateBestChainStep_spec {ops : TipOps W}
    (hops : Deterministic ops verdict)
        {r : Except CValidationError Unit} (h : LoopInv verdict s) (hdata : HasData s most)
    (hu : Unfailed s most) (hrun : activateBestChainStep ops P s most pblock = .ok (r, s')) :
    (s.reorgTooDeep P (s.chainActive.findFork s.mapBlockIndex most) = true ∧
        r = .error badReorgDepth ∧ s' = s) ∨
      (s.reorgTooDeep P (s.chainActive.findFork s.mapBlockIndex most) = false ∧
        r = .ok () ∧ Connected verdict s s') := by
  simp only [activateBestChainStep] at hrun
  cases hdeep : s.reorgTooDeep P (s.chainActive.findFork s.mapBlockIndex most) with
  | true =>
    simp only [hdeep, if_true] at hrun
    obtain ⟨rfl, rfl⟩ := Prod.mk.inj (Except.ok.inj hrun)
    exact Or.inl ⟨rfl, rfl, rfl⟩
  | false =>
    simp only [hdeep, if_false, Bool.false_eq_true] at hrun
    refine Or.inr ⟨rfl, ?_⟩
    cases hdisc : disconnectLoop ops (s.chainActive.findFork s.mapBlockIndex most)
        (s.chainActive.length + 1) s with
    | error e => simp [hdisc] at hrun
    | ok res =>
      rcases res with ⟨r₁, s₁⟩
      rcases disconnectLoop_spec hops h hdisc with ⟨rfl, hinv₁, hmap₁, hcands₁⟩
      have hflags : SameFlags s s₁ := SameFlags.of_map hmap₁
      simp only [hdisc] at hrun
      split at hrun
      · simp at hrun
      · next hloop =>
        have hspec := connectLoop_spec hops hinv₁ (hflags.hasData.2 hdata)
          (hflags.unfailed.2 hu) hloop
        exact absurd rfl (hspec.2 _)
      · next hloop =>
        have hspec := connectLoop_spec hops hinv₁ (hflags.hasData.2 hdata)
          (hflags.unfailed.2 hu) hloop
        obtain ⟨rfl, rfl⟩ := Prod.mk.inj (Except.ok.inj hrun)
        refine ⟨rfl, hspec.1.inv, hflags.tree.trans hspec.1.tree, ?_⟩
        intro q hq
        have hmem := hspec.1.candidates hq
        rwa [hcands₁] at hmem

end NodeState

end Dobbscoin
