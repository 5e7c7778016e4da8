import Dobbscoin.Validation.NodeInv

/-!
# What the operations do

One lemma for each operation on the block tree: all it can do to the entries, the candidates and the
chain, with the guards under which it does so.
-/

namespace Dobbscoin

open Guard

namespace NodeState

variable {W : Type} {s s' : NodeState W}

/-! ## Headers -/

/-- The state with one entry more. -/
structure Grown (E : Env) (block : CBlockHeader) (s s' : NodeState W) : Prop where
  fresh : s.mapBlockIndex.lookup (block.getHash E.crypto) = none
  map : s'.mapBlockIndex = newEntry E s.mapBlockIndex block :: s.mapBlockIndex
  chain : s'.chainActive = s.chainActive
  candidates : s'.setBlockIndexCandidates = s.setBlockIndexCandidates
  unlinked : s'.mapBlocksUnlinked = s.mapBlocksUnlinked
  world : s'.world = s.world

theorem grown_addToBlockIndex {E : Env} {block : CBlockHeader}
    (hfresh : s.mapBlockIndex.lookup (block.getHash E.crypto) = none) :
    Grown E block s (s.addToBlockIndex E block) := by
  have hadd : s.addToBlockIndex E block =
      { s with
        mapBlockIndex := newEntry E s.mapBlockIndex block :: s.mapBlockIndex
        pindexBestHeader := (s.addToBlockIndex E block).pindexBestHeader } := by
    simp [addToBlockIndex, hfresh]
  refine ⟨hfresh, ?_, ?_, ?_, ?_, ?_⟩ <;> rw [hadd]

/-- A header that is accepted was known and not marked, or it is new, and so are its links. -/
theorem acceptBlockHeader_cases {E : Env} {block : CBlockHeader} {p : UInt256}
    (h : s.acceptBlockHeader E block = .ok (p, s')) :
    p = block.getHash E.crypto ∧
      ((s' = s ∧ s.Stored p ∧ (s.idx p).nStatus.failed = false) ∨
        (Grown E block s s' ∧ checkBlockHeader E block true = .ok () ∧
          (p = E.params.hashGenesisBlock ∨
            (s.Stored block.hashPrevBlock ∧ (s.idx block.hashPrevBlock).nStatus.failed = false ∧
              contextualCheckBlockHeader E s.mapBlockIndex block block.hashPrevBlock = .ok ())))) := by
  unfold acceptBlockHeader at h
  cases hl : s.mapBlockIndex.lookup (block.getHash E.crypto) with
  | some i =>
    simp only [hl] at h
    split_ifs at h with hfailed
    obtain ⟨rfl, rfl⟩ := Prod.mk.inj (Except.ok.inj h)
    refine ⟨rfl, Or.inl ⟨rfl, by simp [Stored, hl], ?_⟩⟩
    rw [idx, BlockMap.entry_of_lookup hl]
    simpa using hfailed
  | none =>
    simp only [hl, bind_eq_ok, exists_unit] at h
    rcases h with ⟨hheader, h⟩
    split_ifs at h with hgenesis
    · obtain ⟨rfl, rfl⟩ := Prod.mk.inj (Except.ok.inj h)
      exact ⟨rfl, Or.inr ⟨grown_addToBlockIndex hl, hheader, Or.inl hgenesis⟩⟩
    · cases hprev : s.mapBlockIndex.lookup block.hashPrevBlock with
      | none => simp [hprev] at h
      | some q =>
        simp only [hprev, bind_eq_ok, exists_unit, rejectIf_eq_ok, Bool.not_eq_true] at h
        rcases h with ⟨hfailed, hcontext, h⟩
        obtain ⟨rfl, rfl⟩ := Prod.mk.inj (Except.ok.inj h)
        refine ⟨rfl, Or.inr ⟨grown_addToBlockIndex hl, hheader, Or.inr ⟨?_, ?_, hcontext⟩⟩⟩
        · simp [Stored, hprev]
        · rw [idx, BlockMap.entry_of_lookup hprev]
          exact hfailed

namespace Grown

variable {E : Env} {block : CBlockHeader}

theorem idx_of_ne (h : Grown E block s s') {p : UInt256} (hp : p ≠ block.getHash E.crypto) :
    s'.idx p = s.idx p := by
  rw [idx, idx, h.map]
  exact BlockMap.entry_cons_of_ne hp

theorem idx_self (h : Grown E block s s') :
    s'.idx (block.getHash E.crypto) = newEntry E s.mapBlockIndex block := by
  rw [idx, h.map]
  exact BlockMap.entry_cons_self (i := newEntry E s.mapBlockIndex block)

theorem ne_of_stored (h : Grown E block s s') {p : UInt256} (hp : s.Stored p) :
    p ≠ block.getHash E.crypto := by
  rintro rfl
  simp [Stored, h.fresh] at hp

theorem stored (h : Grown E block s s') {p : UInt256} (hp : s.Stored p) : s'.Stored p := by
  unfold Stored
  rw [h.map]
  exact BlockMap.isSome_lookup_cons hp

/-- The new entry has neither flags nor data. -/
theorem status_self (h : Grown E block s s') :
    (s'.idx (block.getHash E.crypto)).nStatus = ⟨2, false, false, false, false⟩ ∧
      (s'.idx (block.getHash E.crypto)).nChainTx = 0 := by
  rw [h.idx_self]
  exact ⟨rfl, rfl⟩

theorem pprev_self (h : Grown E block s s') {q : UInt256}
    (hq : (s'.idx (block.getHash E.crypto)).pprev = some q) :
    q = block.hashPrevBlock ∧ s.Stored q := by
  rw [h.idx_self] at hq
  simp only [newEntry] at hq
  rcases Option.map_eq_some_iff.1 hq with ⟨i, hi, rfl⟩
  exact ⟨rfl, by simp [Stored, hi]⟩

/-- The parent of the new entry is stored, one below it. -/
theorem parent (h : Grown E block s s') {q : UInt256}
    (hq : (newEntry E s.mapBlockIndex block).pprev = some q) :
    (s.mapBlockIndex.lookup q).isSome ∧
      (newEntry E s.mapBlockIndex block).nHeight = (s.mapBlockIndex.entry q).nHeight + 1 := by
  rcases h.pprev_self (by rw [h.idx_self]; exact hq) with ⟨rfl, hstored⟩
  refine ⟨hstored, ?_⟩
  have hq' : (s.mapBlockIndex.lookup block.hashPrevBlock).map (fun _ => block.hashPrevBlock) =
      some block.hashPrevBlock := hq
  simp only [newEntry, hq', Option.map_some, Option.getD_some]

theorem wellFormed (h : Grown E block s s') (hs : s.mapBlockIndex.WellFormed) :
    s'.mapBlockIndex.WellFormed := by
  rw [h.map]
  apply hs.cons h.fresh
  · intro hnone
    simp only [newEntry] at hnone ⊢
    rw [hnone]
    rfl
  · exact fun q hq => h.parent hq
  · intro a ha
    rcases Option.bind_eq_some_iff.1 ha with ⟨q, hq, hqa⟩
    exact ⟨q, hq, hs.getAncestor_ancestor hqa⟩

theorem skipList (h : Grown E block s s') (hs : s.mapBlockIndex.WellFormed)
    (hskip : s.mapBlockIndex.SkipList) : s'.mapBlockIndex.SkipList := by
  rw [h.map]
  exact BlockMap.SkipList.cons hs hskip h.fresh (fun q hq => h.parent hq) rfl

theorem ancestor_of_ne (h : Grown E block s s') (hs : s.mapBlockIndex.WellFormed) {a b : UInt256}
    (hb : b ≠ block.getHash E.crypto) :
    s'.mapBlockIndex.Ancestor a b ↔ s.mapBlockIndex.Ancestor a b := by
  rw [h.map]
  exact BlockMap.ancestor_cons hs h.fresh hb

theorem nodeInv (h : Grown E block s s') (hs : NodeInv s) : NodeInv s' := by
  have hlinked : CChain.Linked s'.mapBlockIndex s.chainActive := by
    have hsame : ∀ p ∈ s.chainActive, s'.mapBlockIndex.entry p = s.mapBlockIndex.entry p :=
      fun p hp => h.idx_of_ne (h.ne_of_stored (hs.chainStored p hp))
    refine ⟨?_, ?_, ?_⟩
    · intro i p hp
      rw [hsame p (List.mem_of_getElem? hp)]
      exact hs.tree.chain.nHeight i p hp
    · intro p hp
      rw [hsame p (List.mem_of_getElem? hp)]
      exact hs.tree.chain.root p hp
    · intro i p hp
      rw [hsame p (List.mem_of_getElem? hp)]
      exact hs.tree.chain.pprev i p hp
  refine ⟨⟨h.wellFormed hs.tree.tree, ?_⟩, h.skipList hs.tree.tree hs.skips, ?_, ?_, ?_⟩
  · rw [h.chain]
    exact hlinked
  · rw [h.chain]
    exact fun p hp => h.stored (hs.chainStored p hp)
  · rw [h.candidates]
    exact fun p hp => h.stored (hs.candidatesStored p hp)
  · rw [h.unlinked]
    exact fun e he => h.stored (hs.unlinkedStored e he)

end Grown

/-! ## Data -/

/-- What linking blocks leaves alone: the tree, the flags, the chain and the world. -/
structure Relinked (s s' : NodeState W) : Prop where
  shape : s.mapBlockIndex.SameShape s'.mapBlockIndex
  status : ∀ p, (s'.idx p).nStatus = (s.idx p).nStatus
  chain : s'.chainActive = s.chainActive
  world : s'.world = s.world

theorem Relinked.refl (s : NodeState W) : Relinked s s :=
  ⟨.refl _, fun _ => rfl, rfl, rfl⟩

theorem Relinked.trans {s₁ s₂ s₃ : NodeState W} (h₁ : Relinked s₁ s₂) (h₂ : Relinked s₂ s₃) :
    Relinked s₁ s₃ :=
  ⟨h₁.shape.trans h₂.shape, fun p => (h₂.status p).trans (h₁.status p), h₂.chain.trans h₁.chain,
    h₂.world.trans h₁.world⟩

theorem idx_modify (s : NodeState W) (p q : UInt256) {f : CBlockIndex → CBlockIndex}
    (hf : ∀ i, (f i).phashBlock = i.phashBlock) :
    (s.modify p f).idx q = s.idx q ∨ q = p ∧ (s.modify p f).idx q = f (s.idx q) := by
  by_cases hq : q = p
  · subst hq
    cases hl : s.mapBlockIndex.lookup q with
    | none =>
      refine Or.inl ?_
      simp [idx, modify, BlockMap.entry, BlockMap.lookup_modify _ q q hf, hl]
    | some i => exact Or.inr ⟨rfl, BlockMap.entry_modify_self hf (by simp [hl])⟩
  · exact Or.inl (BlockMap.entry_modify_of_ne hf hq)

theorem relinked_linkBlock (s : NodeState W) (p : UInt256) : Relinked s (s.linkBlock p) := by
  have hshape : s.mapBlockIndex.SameShape (s.linkBlock p).mapBlockIndex := by
    unfold linkBlock
    simp only
    split_ifs
    all_goals
      apply BlockMap.sameShape_modify
      exact ⟨fun _ => rfl, fun _ => rfl, fun _ => rfl, fun _ => rfl, fun _ => rfl⟩
  refine ⟨hshape, ?_, ?_, ?_⟩
  · intro q
    have hmap : (s.linkBlock p).mapBlockIndex = (s.modify p fun i =>
        { i with
          nChainTx := s.parentChainTx p + i.nTx
          nSequenceId := s.nBlockSequenceId }).mapBlockIndex := by
      unfold linkBlock
      simp only
      split_ifs <;> rfl
    have hidx : (s.linkBlock p).idx q = (s.modify p fun i =>
        { i with
          nChainTx := s.parentChainTx p + i.nTx
          nSequenceId := s.nBlockSequenceId }).idx q := by
      simp only [idx, hmap]
    rw [hidx]
    rcases idx_modify s p q (f := fun i =>
        { i with
          nChainTx := s.parentChainTx p + i.nTx
          nSequenceId := s.nBlockSequenceId }) (fun _ => rfl) with h | ⟨-, h⟩ <;> rw [h]
  · unfold linkBlock
    simp only
    split_ifs <;> rfl
  · unfold linkBlock
    simp only
    split_ifs <;> rfl

theorem linkBlock_unlinked (s : NodeState W) (p : UInt256) :
    (s.linkBlock p).mapBlocksUnlinked = s.mapBlocksUnlinked := by
  unfold linkBlock
  simp only
  split_ifs <;> rfl

theorem linkBlock_candidates {s : NodeState W} {p q : UInt256}
    (hq : q ∈ (s.linkBlock p).setBlockIndexCandidates) :
    q ∈ s.setBlockIndexCandidates ∨ q = p := by
  unfold linkBlock at hq
  simp only at hq
  split_ifs at hq
  · exact (List.mem_insert_iff.1 hq).symm
  · exact Or.inl hq

/-- **Invariant rule of the queue.**  Every pass links the block at the front. -/
theorem linkLoop_keeps {Q : List UInt256 → NodeState W → Prop}
    (hstep : ∀ p queue s, Q (p :: queue) s →
      Q (queue ++ (s.linkBlock p).unlinkedAt p) ((s.linkBlock p).dropUnlinked p))
    (fuel : Nat) (queue : List UInt256) (s : NodeState W) (hs : Q queue s) :
    ∃ queue', Q queue' (linkLoop fuel queue s) := by
  induction fuel generalizing queue s with
  | zero => exact ⟨queue, hs⟩
  | succ fuel ih =>
    cases queue with
    | nil => exact ⟨[], hs⟩
    | cons p queue => exact ih _ _ (hstep p queue s hs)

theorem relinked_linkLoop (fuel : Nat) (queue : List UInt256) (s : NodeState W) :
    Relinked s (linkLoop fuel queue s) := by
  rcases linkLoop_keeps (Q := fun _ t => Relinked s t) (fun p queue t ht =>
    (ht.trans (relinked_linkBlock t p)).trans ⟨.refl _, fun _ => rfl, rfl, rfl⟩) fuel queue s
    (.refl s) with ⟨-, h⟩
  exact h

theorem relinked_stored (h : Relinked s s') {p : UInt256} : s'.Stored p ↔ s.Stored p := by
  unfold Stored
  rw [h.shape.stored]

theorem linkLoop_nodeInv (fuel : Nat) (queue : List UInt256) (s : NodeState W) (hs : NodeInv s)
    (hqueue : ∀ p ∈ queue, s.Stored p) : NodeInv (linkLoop fuel queue s) := by
  have hstep : ∀ p queue (t : NodeState W), (NodeInv t ∧ ∀ q ∈ p :: queue, t.Stored q) →
      NodeInv ((t.linkBlock p).dropUnlinked p) ∧
        ∀ q ∈ queue ++ (t.linkBlock p).unlinkedAt p, ((t.linkBlock p).dropUnlinked p).Stored q := by
    intro p queue t ht
    rcases ht with ⟨ht, hq⟩
    have hlink := relinked_linkBlock t p
    have hnode : NodeInv (t.linkBlock p) := by
      refine ht.update_same hlink.shape hlink.chain ?_ ?_
      · intro q hq'
        rcases linkBlock_candidates hq' with hold | rfl
        · exact Or.inl hold
        · exact Or.inr (hq q List.mem_cons_self)
      · intro e he
        rw [linkBlock_unlinked] at he
        exact Or.inl he
    refine ⟨hnode.update_same (.refl _) rfl (fun _ hc => Or.inl hc) ?_, ?_⟩
    · intro e he
      exact Or.inl (List.mem_filter.1 he).1
    · intro q hq'
      rcases List.mem_append.1 hq' with hold | hnew
      · exact (relinked_stored hlink).2 (hq q (List.mem_cons_of_mem _ hold))
      · rcases List.mem_map.1 hnew with ⟨e, he, rfl⟩
        exact hnode.unlinkedStored e (List.mem_filter.1 he).1
  rcases linkLoop_keeps (Q := fun queue t => NodeInv t ∧ ∀ q ∈ queue, t.Stored q) hstep fuel queue s
    ⟨hs, hqueue⟩ with ⟨-, h, -⟩
  exact h

/-- What receiving a block leaves alone. -/
structure Received (p : UInt256) (s s' : NodeState W) : Prop where
  shape : s.mapBlockIndex.SameShape s'.mapBlockIndex
  status : ∀ q, q ≠ p → (s'.idx q).nStatus = (s.idx q).nStatus
  failedValid : ∀ q, (s'.idx q).nStatus.failedValid = (s.idx q).nStatus.failedValid
  failedChild : ∀ q, (s'.idx q).nStatus.failedChild = (s.idx q).nStatus.failedChild
  chain : s'.chainActive = s.chainActive
  world : s'.world = s.world

theorem BlockStatus_raiseValidity_flags (n : BlockStatus) (k : Nat) :
    (n.raiseValidity k).failedValid = n.failedValid ∧
      (n.raiseValidity k).failedChild = n.failedChild := by
  unfold BlockStatus.raiseValidity
  split_ifs <;> exact ⟨rfl, rfl⟩

theorem received_markReceived (s : NodeState W) (block : CBlock) (p : UInt256) :
    Received p s (s.markReceived block p) := by
  have hcases := fun q => idx_modify s p q (f := fun i =>
    { i with
      nTx := block.vtx.length
      nChainTx := 0
      nStatus := ({ i.nStatus with haveData := true } : BlockStatus).raiseValidity
        BlockStatus.validTransactions }) (fun _ => rfl)
  refine ⟨BlockMap.sameShape_modify _ _
    ⟨fun _ => rfl, fun _ => rfl, fun _ => rfl, fun _ => rfl, fun _ => rfl⟩, ?_, ?_, ?_, rfl, rfl⟩
  · intro q hq
    rcases hcases q with h | ⟨heq, -⟩
    · exact congrArg CBlockIndex.nStatus h
    · exact absurd heq hq
  · intro q
    rcases hcases q with h | ⟨-, h⟩
    · exact congrArg (fun i => i.nStatus.failedValid) h
    · have hflag := congrArg (fun i => i.nStatus.failedValid) h
      exact hflag.trans (BlockStatus_raiseValidity_flags _ _).1
  · intro q
    rcases hcases q with h | ⟨-, h⟩
    · exact congrArg (fun i => i.nStatus.failedChild) h
    · have hflag := congrArg (fun i => i.nStatus.failedChild) h
      exact hflag.trans (BlockStatus_raiseValidity_flags _ _).2

theorem Received.relink {p : UInt256} {s₁ s₂ s₃ : NodeState W} (h : Received p s₁ s₂)
    (hr : Relinked s₂ s₃) : Received p s₁ s₃ :=
  ⟨h.shape.trans hr.shape, fun q hq => (hr.status q).trans (h.status q hq),
    fun q => (congrArg BlockStatus.failedValid (hr.status q)).trans (h.failedValid q),
    fun q => (congrArg BlockStatus.failedChild (hr.status q)).trans (h.failedChild q),
    hr.chain.trans h.chain, hr.world.trans h.world⟩

theorem received_receivedBlockTransactions (s : NodeState W) (block : CBlock) (p : UInt256) :
    Received p s (s.receivedBlockTransactions block p) := by
  have hmark := received_markReceived s block p
  unfold receivedBlockTransactions
  simp only
  split
  · exact hmark.relink (relinked_linkLoop _ _ _)
  · split_ifs
    · exact hmark.relink (relinked_linkLoop _ _ _)
    · exact hmark.relink ⟨.refl _, fun _ => rfl, rfl, rfl⟩
    · exact hmark

theorem receivedBlockTransactions_nodeInv {block : CBlock} {p : UInt256} (hs : NodeInv s)
    (hp : s.Stored p) : NodeInv (s.receivedBlockTransactions block p) := by
  have hmark := received_markReceived s block p
  have hnode : NodeInv (s.markReceived block p) :=
    hs.update_same hmark.shape hmark.chain (fun _ hc => Or.inl hc) fun _ he => Or.inl he
  have hp' : (s.markReceived block p).Stored p := by
    unfold Stored
    rw [hmark.shape.stored]
    exact hp
  have hqueue : ∀ q ∈ [p], (s.markReceived block p).Stored q := by
    intro q hq
    rw [List.mem_singleton.1 hq]
    exact hp'
  unfold receivedBlockTransactions
  simp only
  split
  · exact linkLoop_nodeInv _ _ _ hnode hqueue
  · split_ifs
    · exact linkLoop_nodeInv _ _ _ hnode hqueue
    · refine hnode.update_same (.refl _) rfl (fun _ hc => Or.inl hc) ?_
      intro e he
      rcases List.mem_append.1 he with hold | hnew
      · exact Or.inl hold
      · rw [List.mem_singleton.1 hnew]
        exact Or.inr hp'
    · exact hnode

/-- How a call of `AcceptBlock` ends, after its header was accepted. -/
inductive AcceptEnd (E : Env) (block : CBlock) (p : UInt256) (t : NodeState W) :
    NodeState W → Prop
  | known (data : (t.idx p).nStatus.haveData = true) : AcceptEnd E block p t t
  | condemned {e : CValidationError} (data : (t.idx p).nStatus.haveData = false)
      (check : checkNewBlock E t block p = .error e) (condemns : condemns e = true) :
      AcceptEnd E block p t (t.setStatus p fun n => { n with failedValid := true })
  | dropped {e : CValidationError} (data : (t.idx p).nStatus.haveData = false)
      (check : checkNewBlock E t block p = .error e) : AcceptEnd E block p t t
  | notStored (w : W) : AcceptEnd E block p t { t with world := w }
  | stored (w : W) (data : (t.idx p).nStatus.haveData = false)
      (check : checkNewBlock E t block p = .ok ()) :
      AcceptEnd E block p t
        (({ t with world := w } : NodeState W).receivedBlockTransactions block p)

theorem acceptBlock_cases (E : Env) (store : BlockStore W) (s : NodeState W) (block : CBlock) :
    (∃ e, s.acceptBlockHeader E block.toCBlockHeader = .error e ∧
        (s.acceptBlock E store block).2 = s) ∨
      ∃ p t, s.acceptBlockHeader E block.toCBlockHeader = .ok (p, t) ∧
        AcceptEnd E block p t (s.acceptBlock E store block).2 := by
  unfold acceptBlock
  rcases hheader : s.acceptBlockHeader E block.toCBlockHeader with e | ⟨p, t⟩
  · exact Or.inl ⟨e, rfl, rfl⟩
  refine Or.inr ⟨p, t, rfl, ?_⟩
  simp only
  split_ifs with hdata
  · exact AcceptEnd.known hdata
  have hdata' : (t.idx p).nStatus.haveData = false := by simpa using hdata
  rcases hcheck : checkNewBlock E t block p with e | u
  · simp only
    split_ifs with hcond
    · exact AcceptEnd.condemned hdata' hcheck hcond
    · exact AcceptEnd.dropped hdata' hcheck
  · rcases hstore : store.store t.world p block with ⟨e | u', w⟩
    · exact AcceptEnd.notStored w
    · exact AcceptEnd.stored w hdata' hcheck

/-- The header's part of `AcceptBlock` keeps the invariant, and its pointer is stored. -/
theorem acceptBlockHeader_nodeInv {E : Env} {block : CBlockHeader} {p : UInt256} (hs : NodeInv s)
    (h : s.acceptBlockHeader E block = .ok (p, s')) : NodeInv s' ∧ s'.Stored p := by
  rcases acceptBlockHeader_cases h with ⟨rfl, ⟨rfl, hstored, -⟩ | ⟨hgrown, -⟩⟩
  · exact ⟨hs, hstored⟩
  · refine ⟨hgrown.nodeInv hs, ?_⟩
    unfold Stored
    rw [hgrown.map]
    have hkey : (newEntry E s.mapBlockIndex block).phashBlock = block.getHash E.crypto := rfl
    simp [BlockMap.lookup, hkey]

end NodeState

end Dobbscoin
