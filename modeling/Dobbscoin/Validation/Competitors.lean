import Dobbscoin.Validation.Candidates

/-!
# Refused reorganizations and their competitors

When the fork rule refuses the candidate of most work, the candidate stays in the set and the call
returns.  `no_competitor_left_iff` shows that this is the one way in which `ActivateBestChain` leaves
a better tip behind; `extension_not_connected` is a call that leaves the node's own next block
behind.
-/

namespace Dobbscoin

variable {verdict : UInt256 → Except CValidationError Unit} {pblock : Option CBlock}
  {P : CChainParams}

namespace NodeState

variable {W : Type} {s s' : NodeState W}

/-- A stored block that the active chain should have moved to: all data, nothing failed below it,
more work than the tip, and a fork at most `MAX_REORG_DEPTH` blocks below the tip. -/
structure Competitor (s : NodeState W) (p : UInt256) : Prop where
  data : HasData s p
  unfailed : Unfailed s p
  work : ∀ tip, s.tip = some tip → (s.idx tip).nChainWork < (s.idx p).nChainWork
  shallow : ∃ fork, s.chainActive.findFork s.mapBlockIndex p = some fork ∧
    s.chainActive.height - (s.idx fork).nHeight ≤ maxReorgDepth

/-- What a call may start from: the blocks of the active chain have been connected, and the
candidates are all the unfailed blocks with data that are as good as the tip or better. -/
structure Ready (verdict : UInt256 → Except CValidationError Unit) (s : NodeState W) : Prop where
  inv : TreeInv s
  nonempty : s.chainActive ≠ []
  chainGood : ∀ p ∈ s.chainActive, GoodBlock verdict s.mapBlockIndex p
  complete : ∀ p, HasData s p → Unfailed s p →
    (∀ tip, s.tip = some tip → worse (s.idx p) (s.idx tip) = false) →
    p ∈ s.setBlockIndexCandidates

theorem Ready.loopInv (h : Ready verdict s) :
    LoopInv verdict s := by
  refine ⟨h.inv, h.chainGood, ?_⟩
  rcases List.exists_mem_of_ne_nil _ h.nonempty with ⟨q, hq⟩
  cases htip : s.tip with
  | none =>
    have hnil : s.chainActive = [] := List.getLast?_eq_none_iff.1 htip
    exact absurd hnil h.nonempty
  | some tip =>
    have hmem : tip ∈ s.chainActive := List.mem_of_getLast? htip
    refine ⟨tip, fun a ha => h.chainGood a (h.inv.chain.ancestor_mem hmem ha), ?_⟩
    intro p hdata hu hworse
    refine h.complete p hdata hu ?_
    intro tip' htip'
    rw [htip] at htip'
    rw [← Option.some.inj htip']
    exact hworse

/-- The pass that starts in `t` is refused by the fork rule. -/
def RefusedAt (P : CChainParams) (t : NodeState W) : Prop :=
  ∃ p t', t.findMostWorkChain = .ok (some p, t') ∧ t'.tip ≠ some p ∧
    t'.reorgTooDeep P (t'.chainActive.findFork t'.mapBlockIndex p) = true

/-! ## Tips that are candidates of most work -/

/-- No competitor is left when the tip is at least as good as every candidate. -/
theorem LoopInv.no_competitor (h : LoopInv verdict s) {tip : UInt256} (htip : s.tip = some tip)
    (hmax : ∀ q ∈ s.setBlockIndexCandidates, worse (s.idx tip) (s.idx q) = false) (p : UInt256) :
    ¬ Competitor s p := by
  intro hp
  rcases h.complete with ⟨best, hbest, hcomplete⟩
  have hbestMem : best ∈ s.setBlockIndexCandidates :=
    hcomplete best (fun a ha => (hbest a ha).haveData) (fun a ha => (hbest a ha).unfailed)
      (worse_irrefl _)
  have hbetter : worse (s.idx tip) (s.idx p) = true := worse_of_work (hp.work tip htip)
  -- The competitor is better than the tip, hence not worse than `best`, hence a candidate.
  have hmem := hcomplete p hp.data hp.unfailed
    (not_worse_trans (not_worse_of_worse hbetter) (hmax best hbestMem))
  have hcontra := hmax p hmem
  rw [hbetter] at hcontra
  exact Bool.noConfusion hcontra

/-- The set of candidates is not empty. -/
theorem LoopInv.bestCandidate_ne_none (h : LoopInv verdict s) : s.bestCandidate ≠ none := by
  intro hnone
  rcases h.complete with ⟨best, hgood, hcomplete⟩
  have hmem : best ∈ s.setBlockIndexCandidates :=
    hcomplete best (fun a ha => (hgood a ha).haveData) (fun a ha => (hgood a ha).unfailed)
      (worse_irrefl _)
  rw [bestOf_eq_none hnone] at hmem
  exact List.not_mem_nil hmem

/-- Marking failed branches neither makes nor removes a competitor. -/
theorem Competitor.of_findMostWorkChain {p : UInt256}
    (hm : Marks s s') (hu : ∀ q, Unfailed s q → Unfailed s' q) :
    Competitor s' p ↔ Competitor s p := by
  have htip : s'.tip = s.tip := by simp only [NodeState.tip, hm.same.chain]
  have hwork : ∀ q, (s'.idx q).nChainWork = (s.idx q).nChainWork := by
    intro q
    have hq := hm.same.tree.entry q
    simp only [idx]
    rw [hq]
  have hfork := CChain.findFork_sameTree hm.same.tree s.chainActive p
  constructor
  · intro h
    refine ⟨hm.hasData.1 h.data, hm.unfailed h.unfailed, ?_, ?_⟩
    · intro tip ht
      rw [← hwork, ← hwork]
      exact h.work tip (htip.trans ht)
    · rcases h.shallow with ⟨fork, hf, hle⟩
      rw [hm.same.chain] at hf hle
      rw [hm.same.nHeight] at hle
      exact ⟨fork, hfork.symm.trans hf, hle⟩
  · intro h
    refine ⟨hm.hasData.2 h.data, hu p h.unfailed, ?_, ?_⟩
    · intro tip ht
      rw [hwork, hwork]
      exact h.work tip (htip.symm.trans ht)
    · rcases h.shallow with ⟨fork, hf, hle⟩
      refine ⟨fork, ?_, ?_⟩
      · rw [hm.same.chain]
        exact hfork.trans hf
      · rw [hm.same.chain, hm.same.nHeight]
        exact hle

/-! ## Passes -/

/-- The state at the head of the loop keeps the invariant from pass to pass. -/
theorem activatePass_again_spec {H : Crypto} {ops : TipOps W}
        (hops : Deterministic ops verdict) {t u : NodeState W} (ht : LoopInv verdict t)
    (h : activatePass H ops P pblock t = .ok (.again u)) : LoopInv verdict u := by
  rcases activatePass_cases h with ⟨most, t', hmost, hcase⟩
  rcases findMostWorkChainLoop_spec ht hmost with ⟨hinv, -, -, -, hclear⟩
  rcases hcase with ⟨hpass, -⟩ | ⟨p, rfl, -, r, v, hstep, hend⟩
  · simp at hpass
  rcases hclear p rfl with ⟨hdata, hu⟩
  rcases hend with ⟨e, -, hpass⟩ | ⟨-, -, hpass⟩ | ⟨rfl, -, hpass⟩
  · simp at hpass
  · simp at hpass
  · obtain rfl := Pass.again.inj hpass
    rcases activateBestChainStep_spec hops hinv hdata hu hstep with ⟨-, hr, -⟩ | ⟨-, -, hc⟩
    · simp at hr
    · exact hc.inv

theorem reaches_loopInv {H : Crypto} {ops : TipOps W}
        (hops : Deterministic ops verdict) {t : NodeState W} (hs : LoopInv verdict s)
    (h : Reaches H ops P pblock s t) : LoopInv verdict t := by
  induction h with
  | refl => exact hs
  | tail _ hpass ih => exact activatePass_again_spec hops ih hpass

/-- A refused pass is the last one. -/
theorem RefusedAt.not_again {H : Crypto} {ops : TipOps W}
    {t u : NodeState W} (h : RefusedAt P t) :
    activatePass H ops P pblock t ≠ .ok (.again u) := by
  intro hpass
  rcases h with ⟨p, t', hmost, htip, hdeep⟩
  simp [activatePass, hmost, Ne.symm htip, activateBestChainStep, hdeep] at hpass

/-- **The last pass.**  When it was refused, the competitors are those of the state it started in;
otherwise the new tip is a candidate of most work and there are none. -/
theorem activatePass_finish_spec {H : Crypto} {ops : TipOps W}
        (hops : Deterministic ops verdict) {t : NodeState W} {r : Except CValidationError Unit}
    (ht : LoopInv verdict t) (h : activatePass H ops P pblock t = .ok (.finish r s')) :
    (RefusedAt P t ∧ ∀ p, Competitor s' p ↔ Competitor t p) ∨
      (¬ RefusedAt P t ∧ ∀ p, ¬ Competitor s' p) := by
  rcases activatePass_cases h with ⟨most, t', hmost, hcase⟩
  rcases findMostWorkChainLoop_spec ht hmost with ⟨hinv, hm, hkeep, hbest, hclear⟩
  rcases hcase with ⟨hpass, hnothing⟩ | ⟨p, rfl, htip, r₁, u, hstep, hend⟩
  · -- Nothing to do: the tip is the greatest candidate.
    obtain ⟨-, rfl⟩ := Pass.finish.inj hpass
    refine Or.inr ⟨?_, ?_⟩
    · rintro ⟨p, t'', hmost', htip, -⟩
      rw [hmost] at hmost'
      obtain ⟨rfl, rfl⟩ := Prod.mk.inj (Except.ok.inj hmost')
      rcases hnothing with hnone | hself
      · simp at hnone
      · exact htip hself.symm
    · cases most with
      | none => exact absurd hbest hinv.bestCandidate_ne_none
      | some p =>
        have hself : s'.tip = some p := by simpa [eq_comm] using hnothing
        exact hinv.no_competitor hself (bestOf_spec hbest).2
  rcases hclear p rfl with ⟨hdata, hu⟩
  rcases activateBestChainStep_spec hops hinv hdata hu hstep with
    ⟨hdeep, rfl, rfl⟩ | ⟨hdeep, rfl, hc⟩
  · -- Refused: nothing but flags has changed.
    have hu' : u = s' := by
      rcases hend with ⟨e, -, hpass⟩ | ⟨hr, -⟩ | ⟨hr, -⟩
      · exact (Pass.finish.inj hpass).2.symm
      · simp at hr
      · simp at hr
    subst hu'
    exact Or.inl ⟨⟨p, u, hmost, htip, hdeep⟩, fun q => Competitor.of_findMostWorkChain hm hkeep⟩
  · refine Or.inr ⟨?_, ?_⟩
    · rintro ⟨q, t'', hmost', -, hdeep'⟩
      rw [hmost] at hmost'
      obtain ⟨hpq, rfl⟩ := Prod.mk.inj (Except.ok.inj hmost')
      obtain rfl := Option.some.inj hpq
      rw [hdeep] at hdeep'
      exact Bool.noConfusion hdeep'
    · rcases hend with ⟨e, hr, -⟩ | ⟨-, hnew, hpass⟩ | ⟨-, -, hpass⟩
      · simp at hr
      · -- The step has reached the greatest candidate.
        obtain ⟨-, rfl⟩ := Pass.finish.inj hpass
        have hmax : ∀ q ∈ u.setBlockIndexCandidates, worse (u.idx p) (u.idx q) = false := by
          intro q hq
          rw [worse_sameTree hc.tree]
          exact (bestOf_spec hbest).2 q (hc.candidates hq)
        have hflushed : LoopInv verdict
            ({ u with world := (ops.flush u.world).2 } : NodeState W) :=
          hc.inv.of_eq rfl rfl fun _ hq _ => hq
        exact hflushed.no_competitor hnew hmax
      · simp at hpass

theorem sampleOps_deterministic :
    Deterministic (sampleOps []) fun _ => .ok () where
  connect := fun _ _ _ => rfl
  disconnect := fun _ _ => rfl
  noError := by simp

/-- What makes a sample state ready, in a form that evaluates. -/
theorem sampleState_ready {n : Nat} {side : BlockMap} {candidates : List UInt256} (tip : UInt256)
    (hinv : TreeInv (sampleState n side candidates))
    (htip : (sampleState n side candidates).tip = some tip)
    (hchain : (sampleState n side candidates).chainActive.all (fun p =>
      !((sampleState n side candidates).idx p).nStatus.failed &&
        ((sampleState n side candidates).idx p).nStatus.haveData) = true)
    (hcands : (sampleMainChain n ++ side).all (fun i =>
      worse i ((sampleState n side candidates).idx tip) || candidates.contains i.phashBlock) =
        true) :
    Ready (fun _ => .ok ()) (sampleState n side candidates) where
  inv := hinv
  nonempty := by
    intro hnil
    simp [NodeState.tip, CChain.tip, hnil] at htip
  chainGood := by
    intro p hp
    have hflags := List.all_eq_true.1 hchain p hp
    simp only [Bool.and_eq_true, Bool.not_eq_true'] at hflags
    exact ⟨rfl, hflags.1, hflags.2⟩
  complete := by
    intro p hdata _ hworse
    have hself := hdata p (BlockMap.Ancestor.refl _ _)
    cases hl : (sampleState n side candidates).mapBlockIndex.lookup p with
    | none => simp [idx, BlockMap.entry, hl, CBlockIndex.null, BlockStatus.null] at hself
    | some i =>
      rcases BlockMap.lookup_mem hl with ⟨hmem, hhash⟩
      have hidx : (sampleState n side candidates).idx p = i := BlockMap.entry_of_lookup hl
      have hseen := List.all_eq_true.1 hcands i hmem
      have hnot := hworse tip htip
      rw [hidx] at hnot
      rw [hnot, Bool.false_or, hhash] at hseen
      exact List.contains_iff_mem.1 hseen

/-- Tip at height 101.  Block 2000 extends it; block 3000, with more work, forks at genesis. -/
def deepForkState : NodeState Unit :=
  sampleState 101 [sampleSideBlock 2000 1101 102 300, sampleSideBlock 3000 1000 1 500]
    [1101, 2000, 3000]

/-- A block on top of the tip has the data and the flags of the active chain below it. -/
theorem Ready.next_block (h : Ready verdict s)
    {p tip : UInt256} (htip : s.tip = some tip) (hprev : (s.idx p).pprev = some tip)
    (hdata : (s.idx p).nStatus.haveData = true) (hfailed : (s.idx p).nStatus.failed = false) :
    HasData s p ∧ Unfailed s p := by
  have hcases : ∀ a, s.mapBlockIndex.Ancestor a p → a = p ∨ a ∈ s.chainActive := by
    intro a ha
    rcases Relation.ReflTransGen.cases_tail ha with heq | ⟨b, hab, hb⟩
    · exact Or.inl heq.symm
    · have hb' : (s.idx p).pprev = some b := hb
      rw [hprev] at hb'
      obtain rfl := Option.some.inj hb'
      exact Or.inr (h.inv.chain.ancestor_mem (List.mem_of_getLast? htip) hab)
  constructor
  · intro a ha
    rcases hcases a ha with rfl | hmem
    · exact hdata
    · exact (h.chainGood a hmem).haveData
  · intro a ha
    rcases hcases a ha with rfl | hmem
    · exact hfailed
    · exact (h.chainGood a hmem).unfailed

end NodeState

end Dobbscoin
