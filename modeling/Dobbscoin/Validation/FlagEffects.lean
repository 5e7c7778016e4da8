import Dobbscoin.Validation.OpEffects

/-!
# What InvalidateBlock and ReconsiderBlock do

`InvalidateBlock` is followed by an invariant rule for its loop.  `ReconsiderBlock` has a closed form:
it clears the flags on the branch of its block, up and down, and on nothing else.
-/

namespace Dobbscoin

@[simp] theorem BlockStatus.clearFailed_failed (n : BlockStatus) : n.clearFailed.failed = false :=
  rfl

@[simp] theorem BlockStatus.clearFailed_failedValid (n : BlockStatus) :
    n.clearFailed.failedValid = false :=
  rfl

@[simp] theorem BlockStatus.clearFailed_haveData (n : BlockStatus) :
    n.clearFailed.haveData = n.haveData :=
  rfl

@[simp] theorem BlockStatus.clearFailed_valid (n : BlockStatus) : n.clearFailed.valid = n.valid :=
  rfl

theorem BlockStatus.clearFailed_of_not_failed {n : BlockStatus} (h : n.failed = false) :
    n.clearFailed = n := by
  rcases n with ⟨valid, haveData, haveUndo, failedValid, failedChild⟩
  simp only [BlockStatus.failed, Bool.or_eq_false_iff] at h
  rw [BlockStatus.clearFailed, h.1, h.2]

theorem BlockStatus.isValid_iff {n : BlockStatus} {k : Nat} :
    n.isValid k = true ↔ n.failed = false ∧ k ≤ n.valid := by
  unfold BlockStatus.isValid
  split_ifs with h
  · simp [h]
  · simp [Bool.eq_false_iff.2 h]

theorem CChain.Linked.tip_ancestor {m : BlockMap} {chain : CChain} (h : chain.Linked m)
    {p t : UInt256} (hp : p ∈ chain) (ht : chain.tip = some t) : m.Ancestor p t := by
  rcases List.mem_iff_getElem?.1 hp with ⟨i, hi⟩
  have hi' : i < chain.length := (List.getElem?_eq_some_iff.1 hi).1
  -- Every block from `p` on has `p` below it.
  have hup : ∀ k q, chain[i + k]? = some q → m.Ancestor p q := by
    intro k
    induction k with
    | zero =>
      intro q hq
      have heq : some p = some q := hi.symm.trans hq
      rw [Option.some.inj heq]
      exact BlockMap.Ancestor.refl m q
    | succ k ih =>
      intro q hq
      have hk : i + k < chain.length := by
        have hlt := (List.getElem?_eq_some_iff.1 hq).1
        omega
      have hprev := h.pprev (i + k) q hq
      rw [List.getElem?_eq_getElem hk] at hprev
      exact (ih _ (List.getElem?_eq_getElem hk)).trans (BlockMap.ancestor_pprev hprev)
  refine hup (chain.length - 1 - i) t ?_
  have hlast : i + (chain.length - 1 - i) = chain.length - 1 := by omega
  rw [hlast, ← List.getLast?_eq_getElem?]
  exact ht

namespace NodeState

variable {W : Type} {s s' : NodeState W}

/-! ## InvalidateBlock -/

/-- The tip is taken out of the set and marked, before it is disconnected. -/
def markTip (s : NodeState W) (t : UInt256) : NodeState W :=
  (s.setStatus t fun n => { n with failedChild := true }).eraseCandidate t

/-- **Invariant rule of the loop.**  A pass marks the tip, which descends from the block, and
disconnects it. -/
theorem invalidateLoop_keeps {ops : TipOps W} {pindex : UInt256} {Q : NodeState W → Prop}
    (hmark : ∀ s t, Q s → s.chainActive.contains s.mapBlockIndex pindex = true → s.tip = some t →
      Q (s.markTip t) ∧ (s.markTip t).tip = some t)
    (hworld : ∀ (s : NodeState W) w, Q s → Q { s with world := w })
    (hdisconnect : ∀ (s : NodeState W) t w, Q s → s.tip = some t →
      Q (({ s with world := w } : NodeState W).updateTip (s.idx t).pprev))
    {fuel : Nat} {r : Except CValidationError Unit} (hs : Q s)
    (h : invalidateLoop ops pindex fuel s = .ok (r, s')) :
    Q s' ∧ (r = .ok () → s'.chainActive.contains s'.mapBlockIndex pindex = false) := by
  induction fuel generalizing s with
  | zero => simp [invalidateLoop] at h
  | succ fuel ih =>
    rw [invalidateLoop] at h
    split_ifs at h with hcontains
    · cases htip : s.tip with
      | none => simp [htip] at h
      | some t =>
        rcases hmark s t hs hcontains htip with ⟨hmarked, htip'⟩
        simp only [htip] at h
        rcases hd : ops.disconnect (s.markTip t) t with ⟨e | u, w⟩
        · have hstep : (s.markTip t).disconnectTip ops t =
              (.error e, { s.markTip t with world := w }) := by
            simp [disconnectTip, hd]
          unfold markTip at hstep
          rw [hstep] at h
          obtain ⟨rfl, rfl⟩ := Prod.mk.inj (Except.ok.inj h)
          exact ⟨hworld _ w hmarked, fun hr => by cases hr⟩
        · have hstep : (s.markTip t).disconnectTip ops t = (.ok (),
              ({ s.markTip t with world := w } : NodeState W).updateTip
                ((s.markTip t).idx t).pprev) := by
            simp [disconnectTip, hd]
          unfold markTip at hstep
          rw [hstep] at h
          exact ih (hdisconnect _ t w hmarked htip') h
    · obtain ⟨rfl, rfl⟩ := Prod.mk.inj (Except.ok.inj h)
      exact ⟨hs, fun _ => by simpa using hcontains⟩

/-- The block itself, before the loop. -/
def markBlock (s : NodeState W) (p : UInt256) : NodeState W :=
  (s.setStatus p fun n => { n with failedValid := true }).eraseCandidate p

/-- The call: mark the block, run the loop, and on success add candidates again. -/
theorem invalidateBlock_cases {ops : TipOps W} {pindex : UInt256}
    {r : Except CValidationError Unit} (h : s.invalidateBlock ops pindex = .ok (r, s')) :
    ∃ t, invalidateLoop ops pindex (s.chainActive.length + 1) (s.markBlock pindex) = .ok (r, t) ∧
      ((r ≠ .ok () ∧ s' = t) ∨
        (r = .ok () ∧ t.tip ≠ none ∧ s' = t.addCandidatesAgain.noteInvalid pindex)) := by
  unfold invalidateBlock at h
  have hlen : (s.markBlock pindex).chainActive.length = s.chainActive.length := rfl
  simp only at h
  rw [← markBlock, hlen] at h
  cases hloop : invalidateLoop ops pindex (s.chainActive.length + 1) (s.markBlock pindex) with
  | error e => simp [hloop] at h
  | ok res =>
    rcases res with ⟨e | u, t⟩
    · simp only [hloop] at h
      obtain ⟨rfl, rfl⟩ := Prod.mk.inj (Except.ok.inj h)
      exact ⟨t, rfl, Or.inl ⟨by simp, rfl⟩⟩
    · simp only [hloop] at h
      split_ifs at h with htip
      obtain ⟨rfl, rfl⟩ := Prod.mk.inj (Except.ok.inj h)
      exact ⟨t, rfl, Or.inr ⟨rfl, htip, rfl⟩⟩

theorem mem_phashBlock {p : UInt256} :
    p ∈ s.mapBlockIndex.map CBlockIndex.phashBlock ↔ s.Stored p := by
  simp [Stored, BlockMap.lookup, List.find?_isSome]

theorem mem_addCandidatesAgain {p : UInt256} :
    p ∈ s.addCandidatesAgain.setBlockIndexCandidates ↔
      p ∈ s.setBlockIndexCandidates ∨
        (s.Stored p ∧ s.eligible p = true ∧ s.notWorseThanTip p = true) := by
  have hfold : ∀ ps : List UInt256,
      p ∈ ps.foldr (fun q candidates =>
          if s.eligible q && s.notWorseThanTip q then List.insert q candidates else candidates)
          s.setBlockIndexCandidates ↔
        p ∈ s.setBlockIndexCandidates ∨
          (p ∈ ps ∧ s.eligible p = true ∧ s.notWorseThanTip p = true) := by
    intro ps
    induction ps with
    | nil => simp
    | cons q ps ih =>
      rw [List.foldr_cons]
      split_ifs with hq
      · rw [List.mem_insert_iff, ih]
        simp only [Bool.and_eq_true] at hq
        constructor
        · rintro (rfl | hold | ⟨hp, he⟩)
          · exact Or.inr ⟨List.mem_cons_self, hq⟩
          · exact Or.inl hold
          · exact Or.inr ⟨List.mem_cons_of_mem _ hp, he⟩
        · rintro (hold | ⟨hp, he⟩)
          · exact Or.inr (Or.inl hold)
          · rcases List.mem_cons.1 hp with rfl | hp
            · exact Or.inl rfl
            · exact Or.inr (Or.inr ⟨hp, he⟩)
      · rw [ih]
        simp only [Bool.and_eq_true] at hq
        constructor
        · rintro (hold | ⟨hp, he⟩)
          · exact Or.inl hold
          · exact Or.inr ⟨List.mem_cons_of_mem _ hp, he⟩
        · rintro (hold | ⟨hp, he⟩)
          · exact Or.inl hold
          · rcases List.mem_cons.1 hp with rfl | hp
            · exact absurd he hq
            · exact Or.inr ⟨hp, he⟩
  rw [← mem_phashBlock]
  exact hfold _

/-! ## ReconsiderBlock -/

/-- What makes the loop put a block back into the set. -/
structure Readmitted (s : NodeState W) (p : UInt256) : Prop where
  invalid : (s.idx p).nStatus.isValid BlockStatus.validTransactions = false
  received : BlockStatus.validTransactions ≤ (s.idx p).nStatus.valid
  nChainTx : (s.idx p).nChainTx ≠ 0
  better : ∃ tip, s.tip = some tip ∧ worse (s.idx tip) (s.idx p) = true

/-- The loop over the entries `ps`, in closed form. -/
structure Reconsidered (pindex : UInt256) (ps : List UInt256) (s s' : NodeState W) : Prop where
  same : SameChain s s'
  unlinked : s'.mapBlocksUnlinked = s.mapBlocksUnlinked
  cleared : ∀ q ∈ ps, s.mapBlockIndex.Ancestor pindex q →
    (s'.idx q).nStatus = (s.idx q).nStatus.clearFailed
  kept : ∀ q, ¬ (q ∈ ps ∧ s.mapBlockIndex.Ancestor pindex q) →
    (s'.idx q).nStatus = (s.idx q).nStatus
  candidates : ∀ q, q ∈ s'.setBlockIndexCandidates ↔
    q ∈ s.setBlockIndexCandidates ∨
      (q ∈ ps ∧ s.mapBlockIndex.Ancestor pindex q ∧ Readmitted s q)

theorem nStatus_setStatus_of_ne {p q : UInt256} {f : BlockStatus → BlockStatus} (hq : q ≠ p) :
    ((s.setStatus p f).idx q).nStatus = (s.idx q).nStatus := by
  rcases idx_setStatus s p q f with h | ⟨h, -⟩
  · rw [h]
  · exact absurd h hq

theorem nStatus_markBlock_of_ne {p q : UInt256} (hq : q ≠ p) :
    ((s.markBlock p).idx q).nStatus = (s.idx q).nStatus :=
  nStatus_setStatus_of_ne (f := fun n => { n with failedValid := true }) hq

theorem failedValid_markBlock_self {p : UInt256} (hp : s.Stored p) :
    ((s.markBlock p).idx p).nStatus.failedValid = true := by
  have hself : (s.setStatus p fun n => { n with failedValid := true }).idx p =
      { s.idx p with nStatus := { (s.idx p).nStatus with failedValid := true } } :=
    BlockMap.entry_setStatus_self hp fun n => { n with failedValid := true }
  have hidx : (s.markBlock p).idx p = (s.setStatus p fun n => { n with failedValid := true }).idx p :=
    rfl
  rw [hidx, hself]

/-- Clearing works for a block without an entry as well: there is nothing to clear. -/
theorem nStatus_clearFailed_self (s : NodeState W) (p : UInt256) :
    ((s.setStatus p BlockStatus.clearFailed).idx p).nStatus =
      (s.idx p).nStatus.clearFailed := by
  cases hl : s.mapBlockIndex.lookup p with
  | none =>
    simp only [idx, setStatus, BlockMap.entry, BlockMap.lookup_setStatus, hl]
    rfl
  | some i =>
    have hself : (s.setStatus p BlockStatus.clearFailed).idx p =
        { s.idx p with nStatus := (s.idx p).nStatus.clearFailed } :=
      BlockMap.entry_setStatus_self (by simp [hl]) BlockStatus.clearFailed
    rw [hself]

/-- An entry that is valid has no flag to clear. -/
theorem reconsiderEntry_spec {pindex p : UInt256} (hs : NodeInv s)
    (h : s.reconsiderEntry pindex p = .ok s') : Reconsidered pindex [p] s s' := by
  have hanc : s.mapBlockIndex.getAncestor p (s.idx pindex).nHeight = some pindex ↔
      s.mapBlockIndex.Ancestor pindex p := BlockMap.getAncestor_iff hs.tree.tree hs.skips
  unfold reconsiderEntry at h
  by_cases htest : (s.idx p).nStatus.isValid BlockStatus.validTransactions = false ∧
      s.mapBlockIndex.getAncestor p (s.idx pindex).nHeight = some pindex
  · rw [if_pos htest] at h
    rcases htest with ⟨hinvalid, hfound⟩
    have hdesc := hanc.1 hfound
    have hself := nStatus_clearFailed_self s p
    have hsame := sameChain_setStatus s p BlockStatus.clearFailed
    have hchainTx : ((s.setStatus p BlockStatus.clearFailed).idx p).nChainTx =
        (s.idx p).nChainTx := by
      have hentry := hsame.tree.entry p
      simp only [idx]
      rw [hentry]
    have heligible : (s.setStatus p BlockStatus.clearFailed).eligible p = true ↔
        BlockStatus.validTransactions ≤ (s.idx p).nStatus.valid ∧ (s.idx p).nChainTx ≠ 0 := by
      rw [eligible, hself, hchainTx, Bool.and_eq_true, BlockStatus.isValid_iff]
      simp
    -- What the end state has in common with the cleared state, however it is reached.
    have hfinish : ∀ t : NodeState W,
        t.mapBlockIndex = (s.setStatus p BlockStatus.clearFailed).mapBlockIndex →
        t.chainActive = s.chainActive → t.mapBlocksUnlinked = s.mapBlocksUnlinked →
        (∀ q, q ∈ t.setBlockIndexCandidates ↔
          q ∈ s.setBlockIndexCandidates ∨ (q = p ∧ Readmitted s p)) →
        Reconsidered pindex [p] s t := by
      intro t hmap hchain hunlinked hcands
      refine ⟨⟨?_, hchain⟩, hunlinked, ?_, ?_, ?_⟩
      · rw [hmap]
        exact hsame.tree
      · intro q hq hqanc
        rw [List.mem_singleton.1 hq]
        simpa only [idx, hmap] using hself
      · intro q hq
        have hne : q ≠ p := by
          rintro rfl
          exact hq ⟨List.mem_singleton_self q, hdesc⟩
        simpa only [idx, hmap] using nStatus_setStatus_of_ne (s := s)
          (f := BlockStatus.clearFailed) hne
      · intro q
        rw [hcands q, List.mem_singleton]
        constructor
        · rintro (hold | ⟨rfl, hread⟩)
          · exact Or.inl hold
          · exact Or.inr ⟨rfl, hdesc, hread⟩
        · rintro (hold | ⟨rfl, -, hread⟩)
          · exact Or.inl hold
          · exact Or.inr ⟨rfl, hread⟩
    have hreset : ∀ t u : NodeState W,
        u = (if t.pindexBestInvalid = some p then { t with pindexBestInvalid := none } else t) →
        u.mapBlockIndex = t.mapBlockIndex ∧ u.chainActive = t.chainActive ∧
          u.mapBlocksUnlinked = t.mapBlocksUnlinked ∧
          u.setBlockIndexCandidates = t.setBlockIndexCandidates := by
      rintro t u rfl
      split_ifs <;> exact ⟨rfl, rfl, rfl, rfl⟩
    simp only at h
    by_cases hel : (s.setStatus p BlockStatus.clearFailed).eligible p = true
    · rw [if_pos hel] at h
      have htip : (s.setStatus p BlockStatus.clearFailed).tip = s.tip := rfl
      rw [htip] at h
      cases htip' : s.tip with
      | none => simp [htip'] at h
      | some tip =>
        simp only [htip', Except.ok.injEq] at h
        rcases hreset _ s' h.symm with ⟨hmap, hchain, hunlinked, hcands⟩
        rw [worse_sameTree hsame.tree] at hmap hchain hunlinked hcands
        rcases heligible.1 hel with ⟨hreceived, hnonzero⟩
        by_cases hworse : worse (s.idx tip) (s.idx p) = true
        · rw [if_pos hworse] at hmap hchain hunlinked hcands
          refine hfinish s' hmap hchain hunlinked ?_
          intro q
          rw [hcands]
          have hread : Readmitted s p := ⟨hinvalid, hreceived, hnonzero, tip, htip', hworse⟩
          simp only [insertCandidate, List.mem_insert_iff, setStatus]
          constructor
          · rintro (rfl | hold)
            · exact Or.inr ⟨rfl, hread⟩
            · exact Or.inl hold
          · rintro (hold | ⟨rfl, -⟩)
            · exact Or.inr hold
            · exact Or.inl rfl
        · rw [if_neg hworse] at hmap hchain hunlinked hcands
          refine hfinish s' hmap hchain hunlinked ?_
          intro q
          rw [hcands]
          refine ⟨Or.inl, ?_⟩
          rintro (hold | ⟨rfl, hread⟩)
          · exact hold
          · rcases hread.better with ⟨tip', ht, hbetter⟩
            rw [htip'] at ht
            rw [← Option.some.inj ht] at hbetter
            exact absurd hbetter hworse
    · rw [if_neg hel, Except.ok.injEq] at h
      rcases hreset _ s' h.symm with ⟨hmap, hchain, hunlinked, hcands⟩
      refine hfinish s' hmap hchain hunlinked ?_
      intro q
      rw [hcands]
      refine ⟨Or.inl, ?_⟩
      rintro (hold | ⟨rfl, hread⟩)
      · exact hold
      · exact absurd (heligible.2 ⟨hread.received, hread.nChainTx⟩) hel
  · rw [if_neg htest, Except.ok.injEq] at h
    subst h
    refine ⟨SameChain.refl s, rfl, ?_, fun _ _ => rfl, ?_⟩
    · intro q hq hqanc
      rw [List.mem_singleton.1 hq] at hqanc ⊢
      have hvalid : (s.idx p).nStatus.isValid BlockStatus.validTransactions = true := by
        by_contra hnot
        exact htest ⟨by simpa using hnot, hanc.2 hqanc⟩
      exact (BlockStatus.clearFailed_of_not_failed (BlockStatus.isValid_iff.1 hvalid).1).symm
    · intro q
      refine ⟨Or.inl, ?_⟩
      rintro (hold | ⟨hq, hqanc, hread⟩)
      · exact hold
      · rw [List.mem_singleton.1 hq] at hqanc hread
        exact absurd ⟨hread.invalid, hanc.2 hqanc⟩ htest

theorem stored_of_nChainTx {p : UInt256} (h : (s.idx p).nChainTx ≠ 0) : s.Stored p := by
  unfold Stored
  cases hl : s.mapBlockIndex.lookup p with
  | none => simp [idx, BlockMap.entry, hl, CBlockIndex.null] at h
  | some i => rfl

theorem SameChain.nChainTx (h : SameChain s s') (p : UInt256) :
    (s'.idx p).nChainTx = (s.idx p).nChainTx := by
  have hentry := h.tree.entry p
  simp only [idx]
  rw [hentry]

theorem Reconsidered.nodeInv {pindex : UInt256} {ps : List UInt256}
    (h : Reconsidered pindex ps s s') (hs : NodeInv s) : NodeInv s' := by
  refine hs.update_same h.same.tree.sameShape h.same.chain ?_ ?_
  · intro p hp
    rcases (h.candidates p).1 hp with hold | ⟨-, -, hread⟩
    · exact Or.inl hold
    · exact Or.inr (stored_of_nChainTx hread.nChainTx)
  · intro e he
    rw [h.unlinked] at he
    exact Or.inl he

/-- A block that was cleared is not readmitted a second time. -/
theorem Reconsidered.cons {pindex p : UInt256} {ps : List UInt256} {t : NodeState W}
    (hp : Reconsidered pindex [p] s t) (hps : Reconsidered pindex ps t s') :
    Reconsidered pindex (p :: ps) s s' := by
  have hanc : ∀ q, t.mapBlockIndex.Ancestor pindex q ↔ s.mapBlockIndex.Ancestor pindex q :=
    fun q => hp.same.tree.ancestor
  have hkept : ∀ q, q ≠ p → (t.idx q).nStatus = (s.idx q).nStatus := by
    intro q hq
    exact hp.kept q fun hmem => hq (List.mem_singleton.1 hmem.1)
  have htip : t.tip = s.tip := by simp only [tip, hp.same.chain]
  have hread : ∀ q, (t.idx q).nStatus = (s.idx q).nStatus → (Readmitted t q ↔ Readmitted s q) := by
    intro q hq
    have hworse : ∀ a b, worse (t.idx a) (t.idx b) = worse (s.idx a) (s.idx b) :=
      worse_sameTree hp.same.tree
    constructor
    · rintro ⟨hi, hr, hn, hb⟩
      rw [hq] at hi hr
      rw [hp.same.nChainTx] at hn
      simp only [htip, hworse] at hb
      exact ⟨hi, hr, hn, hb⟩
    · rintro ⟨hi, hr, hn, hb⟩
      refine ⟨by rw [hq, hi], by rw [hq]; exact hr, by rw [hp.same.nChainTx]; exact hn, ?_⟩
      simp only [htip, hworse]
      exact hb
  refine ⟨hp.same.trans hps.same, hps.unlinked.trans hp.unlinked, ?_, ?_, ?_⟩
  · intro q hq hqanc
    by_cases hqps : q ∈ ps
    · rw [hps.cleared q hqps ((hanc q).2 hqanc)]
      by_cases hqp : q = p
      · subst hqp
        rw [hp.cleared q List.mem_cons_self hqanc]
        rfl
      · rw [hkept q hqp]
    · rcases List.mem_cons.1 hq with rfl | hmem
      · rw [hps.kept q fun hmem => hqps hmem.1, hp.cleared q List.mem_cons_self hqanc]
      · exact absurd hmem hqps
  · intro q hq
    have hqps : ¬ (q ∈ ps ∧ t.mapBlockIndex.Ancestor pindex q) := by
      rintro ⟨hmem, hqanc⟩
      exact hq ⟨List.mem_cons_of_mem _ hmem, (hanc q).1 hqanc⟩
    have hqp : ¬ (q ∈ [p] ∧ s.mapBlockIndex.Ancestor pindex q) := by
      rintro ⟨hmem, hqanc⟩
      rw [List.mem_singleton.1 hmem] at hq hqanc
      exact hq ⟨List.mem_cons_self, hqanc⟩
    rw [hps.kept q hqps, hp.kept q hqp]
  · intro q
    rw [hps.candidates q, hp.candidates q, hanc q]
    constructor
    · rintro ((hold | ⟨hmem, hqanc, hr⟩) | ⟨hmem, hqanc, hr⟩)
      · exact Or.inl hold
      · rw [List.mem_singleton.1 hmem] at hqanc hr ⊢
        exact Or.inr ⟨List.mem_cons_self, hqanc, hr⟩
      · refine Or.inr ⟨List.mem_cons_of_mem _ hmem, hqanc, ?_⟩
        by_cases hqp : q = p
        · -- Its flags are gone, so it would have to be valid by now.
          subst hqp
          have hclear := hp.cleared q List.mem_cons_self hqanc
          have hvalid : (t.idx q).nStatus.isValid BlockStatus.validTransactions = true :=
            BlockStatus.isValid_iff.2 ⟨by rw [hclear]; rfl, hr.received⟩
          rw [hr.invalid] at hvalid
          exact Bool.noConfusion hvalid
        · exact (hread q (hkept q hqp)).1 hr
    · rintro (hold | ⟨hmem, hqanc, hr⟩)
      · exact Or.inl (Or.inl hold)
      · by_cases hqp : q = p
        · subst hqp
          exact Or.inl (Or.inr ⟨List.mem_cons_self, hqanc, hr⟩)
        · rcases List.mem_cons.1 hmem with heq | hmem
          · exact absurd heq hqp
          · exact Or.inr ⟨hmem, hqanc, (hread q (hkept q hqp)).2 hr⟩

theorem reconsiderEntries_spec {pindex : UInt256} {ps : List UInt256} (hs : NodeInv s)
    (h : reconsiderEntries pindex ps s = .ok s') : Reconsidered pindex ps s s' := by
  induction ps generalizing s with
  | nil =>
    rw [reconsiderEntries, Except.ok.injEq] at h
    subst h
    exact ⟨SameChain.refl s, rfl, by simp, fun _ _ => rfl, by simp⟩
  | cons p ps ih =>
    rw [reconsiderEntries] at h
    cases hentry : s.reconsiderEntry pindex p with
    | error e => simp [hentry] at h
    | ok t =>
      simp only [hentry] at h
      have hp := reconsiderEntry_spec hs hentry
      exact hp.cons (ih (hp.nodeInv hs) h)

/-- The walk over the ancestors clears them all. -/
theorem reconsiderAncestors_spec (fuel : Nat) (start : Option UInt256) (hs : TreeInv s)
    (hfuel : ∀ p ∈ start, (s.idx p).nHeight < fuel) :
    SameChain s (reconsiderAncestors fuel start s) ∧
      (reconsiderAncestors fuel start s).mapBlocksUnlinked = s.mapBlocksUnlinked ∧
      (reconsiderAncestors fuel start s).setBlockIndexCandidates = s.setBlockIndexCandidates ∧
      (∀ q, (∃ p ∈ start, s.mapBlockIndex.Ancestor q p) →
        ((reconsiderAncestors fuel start s).idx q).nStatus = (s.idx q).nStatus.clearFailed) ∧
      ∀ q, (¬ ∃ p ∈ start, s.mapBlockIndex.Ancestor q p) →
        ((reconsiderAncestors fuel start s).idx q).nStatus = (s.idx q).nStatus := by
  induction fuel generalizing start s with
  | zero =>
    have hnone : start = none := by
      cases start with
      | none => rfl
      | some p => exact absurd (hfuel p rfl) (Nat.not_lt_zero _)
    subst hnone
    exact ⟨SameChain.refl s, rfl, rfl, by simp, fun _ _ => rfl⟩
  | succ fuel ih =>
    cases start with
    | none => exact ⟨SameChain.refl s, rfl, rfl, by simp, fun _ _ => rfl⟩
    | some p =>
      rw [reconsiderAncestors]
      have hsame := sameChain_setStatus s p BlockStatus.clearFailed
      have hanc : ∀ a b, (s.setStatus p BlockStatus.clearFailed).mapBlockIndex.Ancestor a b ↔
          s.mapBlockIndex.Ancestor a b := fun a b => hsame.tree.ancestor
      have hfuel' : ∀ q ∈ (s.idx p).pprev,
          ((s.setStatus p BlockStatus.clearFailed).idx q).nHeight < fuel := by
        intro q hq
        rw [hsame.nHeight]
        have hparent := hs.tree.height p q hq
        have hp := hfuel p rfl
        simp only [idx] at hp ⊢
        omega
      rcases ih (s.idx p).pprev (hsame.treeInv hs) hfuel' with ⟨hs', hu, hc, hcleared, hkept⟩
      -- The branch below `p`, with `p` itself.
      have hbranch : ∀ q, (∃ r ∈ some p, s.mapBlockIndex.Ancestor q r) ↔
          q = p ∨ ∃ r ∈ (s.idx p).pprev, s.mapBlockIndex.Ancestor q r := by
        intro q
        constructor
        · rintro ⟨r, hr, hqr⟩
          rw [← Option.some.inj hr] at hqr
          rcases Relation.ReflTransGen.cases_tail hqr with rfl | ⟨b, hqb, hb⟩
          · exact Or.inl rfl
          · exact Or.inr ⟨b, hb, hqb⟩
        · rintro (rfl | ⟨r, hr, hqr⟩)
          · exact ⟨q, rfl, BlockMap.Ancestor.refl _ q⟩
          · exact ⟨p, rfl, hqr.trans (BlockMap.ancestor_pprev hr)⟩
      refine ⟨hsame.trans hs', hu, hc, ?_, ?_⟩
      · intro q hq
        by_cases hlow : ∃ r ∈ (s.idx p).pprev, s.mapBlockIndex.Ancestor q r
        · have hlow' : ∃ r ∈ (s.idx p).pprev,
              (s.setStatus p BlockStatus.clearFailed).mapBlockIndex.Ancestor q r := by
            simpa only [hanc] using hlow
          rw [hcleared q hlow']
          by_cases hqp : q = p
          · rw [hqp, nStatus_clearFailed_self]
            rfl
          · rw [nStatus_setStatus_of_ne hqp]
        · have hlow' : ¬ ∃ r ∈ (s.idx p).pprev,
              (s.setStatus p BlockStatus.clearFailed).mapBlockIndex.Ancestor q r := by
            simpa only [hanc] using hlow
          rw [hkept q hlow']
          rcases (hbranch q).1 hq with rfl | hbelow
          · exact nStatus_clearFailed_self s q
          · exact absurd hbelow hlow
      · intro q hq
        rw [hbranch] at hq
        have hlow' : ¬ ∃ r ∈ (s.idx p).pprev,
            (s.setStatus p BlockStatus.clearFailed).mapBlockIndex.Ancestor q r := by
          simpa only [hanc] using fun hlow => hq (Or.inr hlow)
        rw [hkept q hlow']
        exact nStatus_setStatus_of_ne fun hqp => hq (Or.inl hqp)

/-- **`ReconsiderBlock` in closed form.** -/
structure Reconsiders (pindex : UInt256) (s s' : NodeState W) : Prop where
  same : SameChain s s'
  unlinked : s'.mapBlocksUnlinked = s.mapBlocksUnlinked
  cleared : ∀ q, (s.mapBlockIndex.Ancestor pindex q ∨ s.mapBlockIndex.Ancestor q pindex) →
    (s'.idx q).nStatus = (s.idx q).nStatus.clearFailed
  kept : ∀ q, ¬ (s.mapBlockIndex.Ancestor pindex q ∨ s.mapBlockIndex.Ancestor q pindex) →
    (s'.idx q).nStatus = (s.idx q).nStatus
  candidates : ∀ q, q ∈ s'.setBlockIndexCandidates ↔
    q ∈ s.setBlockIndexCandidates ∨ (s.mapBlockIndex.Ancestor pindex q ∧ Readmitted s q)

theorem reconsiderBlock_spec {pindex : UInt256} (hs : NodeInv s)
    (h : s.reconsiderBlock pindex = .ok s') : Reconsiders pindex s s' := by
  unfold reconsiderBlock at h
  cases hloop : reconsiderEntries pindex (s.mapBlockIndex.map CBlockIndex.phashBlock) s with
  | error e => simp [hloop] at h
  | ok t =>
    simp only [hloop, Except.ok.injEq] at h
    have hentries := reconsiderEntries_spec hs hloop
    have ht := hentries.nodeInv hs
    have hanc : ∀ a b, t.mapBlockIndex.Ancestor a b ↔ s.mapBlockIndex.Ancestor a b :=
      fun a b => hentries.same.tree.ancestor
    rcases reconsiderAncestors_spec ((t.idx pindex).nHeight + 1) (some pindex) ht.tree
      (fun p hp => by rw [← Option.some.inj hp]; exact Nat.lt_succ_self _) with
      ⟨hsame, hu, hc, hcleared, hkept⟩
    rw [h] at hsame hu hc hcleared hkept
    have hup : ∀ q, (∃ p ∈ some pindex, t.mapBlockIndex.Ancestor q p) ↔
        s.mapBlockIndex.Ancestor q pindex := by
      intro q
      simp [hanc]
    -- After the loop over the entries the descendants are clear, stored or not.
    have hdown : ∀ q, s.mapBlockIndex.Ancestor pindex q →
        (t.idx q).nStatus = (s.idx q).nStatus.clearFailed := by
      intro q hq
      by_cases hmem : q ∈ s.mapBlockIndex.map CBlockIndex.phashBlock
      · exact hentries.cleared q hmem hq
      · rw [hentries.kept q fun hboth => hmem hboth.1]
        have hnone : s.mapBlockIndex.lookup q = none := by
          rw [mem_phashBlock, Stored] at hmem
          simpa using hmem
        simp only [idx, BlockMap.entry, hnone]
        rfl
    refine ⟨hentries.same.trans hsame, hu.trans hentries.unlinked, ?_, ?_, ?_⟩
    · intro q hq
      by_cases hlow : s.mapBlockIndex.Ancestor q pindex
      · rw [hcleared q ((hup q).2 hlow)]
        by_cases hhigh : s.mapBlockIndex.Ancestor pindex q
        · rw [hdown q hhigh]
          rfl
        · rw [hentries.kept q fun hboth => hhigh hboth.2]
      · rw [hkept q fun hex => hlow ((hup q).1 hex)]
        exact hdown q (hq.resolve_right hlow)
    · intro q hq
      rw [hkept q fun hex => hq (Or.inr ((hup q).1 hex)),
        hentries.kept q fun hboth => hq (Or.inl hboth.2)]
    · intro q
      rw [hc, hentries.candidates q, mem_phashBlock]
      constructor
      · rintro (hold | ⟨-, hqanc, hread⟩)
        · exact Or.inl hold
        · exact Or.inr ⟨hqanc, hread⟩
      · rintro (hold | ⟨hqanc, hread⟩)
        · exact Or.inl hold
        · exact Or.inr ⟨stored_of_nChainTx hread.nChainTx, hqanc, hread⟩

theorem Reconsiders.nodeInv {pindex : UInt256} (h : Reconsiders pindex s s') (hs : NodeInv s) :
    NodeInv s' := by
  refine hs.update_same h.same.tree.sameShape h.same.chain ?_ ?_
  · intro p hp
    rcases (h.candidates p).1 hp with hold | ⟨-, hread⟩
    · exact Or.inl hold
    · exact Or.inr (stored_of_nChainTx hread.nChainTx)
  · intro e he
    rw [h.unlinked] at he
    exact Or.inl he

end NodeState

end Dobbscoin
