import Dobbscoin.Validation.Candidates

/-!
# The moves of ActivateBestChain

Everything a call does to the chain state is a sequence of `Move`s, and each of these says what it was
that let it happen.  An invariant of the call is one case for each move.
-/

namespace Dobbscoin

variable {r : Except CValidationError Unit} {pblock : Option CBlock} {most : UInt256}

namespace NodeState

variable {W : Type} {s s' : NodeState W}

/-- One move.  `Ready` is what is known of the blocks on the branch that is being connected. -/
inductive Move (H : Crypto) (ops : TipOps W) (P : CChainParams) (given : Option CBlock)
    (Ready : NodeState W → UInt256 → Prop) : NodeState W → NodeState W → Prop
  | world (s : NodeState W) (w : W) : Move H ops P given Ready s { s with world := w }
  | note (s : NodeState W) (p : UInt256) : Move H ops P given Ready s (s.noteInvalid p)
  /-- `FindMostWorkChain` has found an invalid ancestor of the best candidate. -/
  | dropFailed {s : NodeState W} {p t : UInt256} (best : s.bestCandidate = some p)
      (found : s.firstFailed ((s.idx p).nHeight + 1) (some p) = .ok (some t)) :
      Move H ops P given Ready s
        ((markFailedChild t ((s.idx p).nHeight + 1) (some p) (s.noteInvalid p)).eraseCandidate t)
  | disconnect {s : NodeState W} {t : UInt256} (w : W) (tip : s.tip = some t)
      (ok : (ops.disconnect s t).1 = .ok ()) :
      Move H ops P given Ready s (({ s with world := w } : NodeState W).updateTip (s.idx t).pprev)
  | connect {s s' : NodeState W} {p : UInt256} {pblock : Option CBlock} (w : W)
      (source : ∀ b ∈ pblock, given = some b ∧ b.getHash H = p) (ready : Ready s p)
      (parent : (s.idx p).pprev = s.tip) (ok : (ops.connect s p pblock).1 = .ok ())
      (pruned : (s.connected P w p).pruneBlockIndexCandidates = .ok s') :
      Move H ops P given Ready s s'
  /-- `ConnectBlock` has found a rule that the block breaks. -/
  | refuse {s : NodeState W} {p : UInt256} {pblock : Option CBlock} {nDoS : Nat} {code : UInt8}
      {reason : String} (w : W) (source : ∀ b ∈ pblock, given = some b ∧ b.getHash H = p)
      (ready : Ready s p) (parent : (s.idx p).pprev = s.tip)
      (invalid : (ops.connect s p pblock).1 = .error (.invalid nDoS code reason false)) :
      Move H ops P given Ready s (({ s with world := w } : NodeState W).invalidBlockFound p)

/-- What has to be known about `Ready` to follow a call with an invariant `I`. -/
structure Guide (H : Crypto) (ops : TipOps W) (P : CChainParams) (given : Option CBlock)
    (I : NodeState W → Prop) (Ready : NodeState W → UInt256 → Prop) : Prop where
  tree : ∀ s, I s → TreeInv s
  keeps : ∀ s s', I s → Move H ops P given Ready s s' → I s'
  found : ∀ s s' most, I s → s.findMostWorkChain = .ok (some most, s') → I s' → Ready s' most
  branch : ∀ (s : NodeState W) most (nHeight k : Int) fuel, I s → Ready s most →
    ∀ p ∈ branchDown s.mapBlockIndex nHeight fuel (s.mapBlockIndex.getAncestor most k), Ready s p
  sameFlags : ∀ s s' p, SameFlags s s' → Ready s p → Ready s' p

section

variable {H : Crypto} {ops : TipOps W} {P : CChainParams} {given : Option CBlock}
  {I : NodeState W → Prop} {Ready : NodeState W → UInt256 → Prop}

/-- A sequence of moves that keeps the invariant. -/
def Moves (H : Crypto) (ops : TipOps W) (P : CChainParams) (given : Option CBlock)
    (Ready : NodeState W → UInt256 → Prop) : NodeState W → NodeState W → Prop :=
  Relation.ReflTransGen (Move H ops P given Ready)

/-- A move of the connecting loops: it leaves the chain as it is or adds to it. -/
def Climb (H : Crypto) (ops : TipOps W) (P : CChainParams) (given : Option CBlock)
    (Ready : NodeState W → UInt256 → Prop) (s s' : NodeState W) : Prop :=
  Move H ops P given Ready s s' ∧ s.chainActive <+: s'.chainActive

/-- A sequence of such moves. -/
def Climbs (H : Crypto) (ops : TipOps W) (P : CChainParams) (given : Option CBlock)
    (Ready : NodeState W → UInt256 → Prop) : NodeState W → NodeState W → Prop :=
  Relation.ReflTransGen (Climb H ops P given Ready)

theorem Climbs.moves (h : Climbs H ops P given Ready s s') : Moves H ops P given Ready s s' := by
  induction h with
  | refl => exact Relation.ReflTransGen.refl
  | tail _ hclimb ih => exact Relation.ReflTransGen.tail ih hclimb.1

theorem Moves.keeps {Q : NodeState W → Prop}
    (hmove : ∀ s s', Q s → Move H ops P given Ready s s' → Q s')
    (h : Moves H ops P given Ready s s') (hs : Q s) : Q s' := by
  induction h with
  | refl => exact hs
  | tail _ hstep ih => exact hmove _ _ ih hstep

/-- `FindMostWorkChain` leaves the chain as it is. -/
theorem findMostWorkChainLoop_climbs {fuel : Nat} {most : Option UInt256}
    (h : findMostWorkChainLoop fuel s = .ok (most, s')) : Climbs H ops P given Ready s s' := by
  refine findMostWorkChainLoop_induct (motive := fun s => Climbs H ops P given Ready s s') h
    (fun _ _ => Relation.ReflTransGen.refl) ?_
  intro s p t hwalk hbest hrest
  refine Relation.ReflTransGen.head ⟨Move.dropFailed hbest hwalk, ?_⟩ hrest
  have hsame := ((sameChain_noteInvalid s p).trans (sameChain_markFailedChild t
    ((s.idx p).nHeight + 1) (some p) (s.noteInvalid p))).trans (sameChain_eraseCandidate _ t)
  rw [hsame.chain]

theorem disconnectLoop_moves {fork : Option UInt256} {fuel : Nat}
    (h : disconnectLoop ops fork fuel s = .ok (r, s')) :
    Moves H ops P given Ready s s' ∧ (r = .ok () → SameFlags s s') := by
  refine disconnectLoop_induct
    (motive := fun s => Moves H ops P given Ready s s' ∧ (r = .ok () → SameFlags s s')) h
    (fun _ => ⟨Relation.ReflTransGen.refl, fun _ => SameFlags.of_map rfl⟩) ?_ ?_
  · intro s t e w _ _ _ herr heq
    rw [heq]
    exact ⟨Relation.ReflTransGen.single (Move.world s w), fun hr => by rw [herr] at hr; cases hr⟩
  · intro s t w htip _ hd ih
    have hok : (ops.disconnect s t).1 = .ok () := by rw [hd]
    have hone : SameFlags s (({ s with world := w } : NodeState W).updateTip (s.idx t).pprev) :=
      SameFlags.of_map rfl
    exact ⟨Relation.ReflTransGen.head (Move.disconnect w htip hok) ih.1, fun hr => hone.trans (ih.2 hr)⟩

/-- A chunk of the branch; as long as it goes on, no flag has changed. -/
theorem connectBlocks_climbs {oldTip : Option UInt256}
    {back : UInt256} {ps : List UInt256} {exit : LoopExit}
    (hG : Guide H ops P given I Ready) (hs : I s) (hready : ∀ p ∈ ps, Ready s p)
    (hsource : ∀ b ∈ pblock, given = some b ∧ b.getHash H = most)
    (h : connectBlocks ops P most pblock oldTip back ps s = .ok (exit, s')) :
    Climbs H ops P given Ready s s' ∧ (exit = .goOn → SameFlags s s') := by
  induction ps generalizing s with
  | nil =>
    simp only [connectBlocks, Except.ok.injEq, Prod.mk.injEq] at h
    rw [h.2]
    exact ⟨Relation.ReflTransGen.refl, fun _ => SameFlags.of_map rfl⟩
  | cons p ps ih =>
    have hsource' : ∀ b ∈ (if p = most then pblock else none), given = some b ∧ b.getHash H = p := by
      intro b hb
      split_ifs at hb with hp
      · rw [hp]
        exact hsource b hb
      · cases hb
    have hp := hready p List.mem_cons_self
    rcases connectBlocks_cases h with ⟨r, s₁, hconn, hends⟩
    rcases connectTip_cases hconn with ⟨hparent, hr, w, hcases⟩
    rcases hends with ⟨nDoS, code, reason, corruption, rfl, rfl, rfl⟩ | ⟨reason, rfl, rfl, rfl⟩ | ⟨rfl, s₂, hprune, hrest⟩
    · -- The block breaks a rule.
      have hfail : Climbs H ops P given Ready s s₁ := by
        rcases hcases with ⟨hok, -⟩ | ⟨e, -, rfl⟩ | ⟨_, _, _, herr, rfl⟩
        · simp at hok
        · exact Relation.ReflTransGen.single ⟨Move.world s w, List.prefix_rfl⟩
        · rw [herr] at hr
          refine Relation.ReflTransGen.single ⟨Move.refuse w hsource' hp hparent hr, ?_⟩
          rw [(sameChain_invalidBlockFound _ p).chain]
      refine ⟨?_, fun hgo => by cases hgo⟩
      split_ifs
      · exact hfail
      · refine Relation.ReflTransGen.tail hfail ⟨Move.note s₁ back, ?_⟩
        rw [(sameChain_noteInvalid s₁ back).chain]
    · refine ⟨?_, fun hgo => by cases hgo⟩
      rcases hcases with ⟨hok, -⟩ | ⟨e, -, rfl⟩ | ⟨_, _, _, herr, -⟩
      · simp at hok
      · exact Relation.ReflTransGen.single ⟨Move.world s w, List.prefix_rfl⟩
      · simp at herr
    · have hs₁ : s₁ = s.connected P w p := by
        rcases hcases with ⟨-, heq⟩ | ⟨e, herr, -⟩ | ⟨_, _, _, herr, -⟩
        · exact heq
        · simp at herr
        · simp at herr
      subst hs₁
      have hmove : Climb H ops P given Ready s s₂ := by
        refine ⟨Move.connect w hsource' hp hparent hr hprune, ?_⟩
        rcases connected_spec (P := P) (hG.tree s hs) hparent w with ⟨-, hchain, -⟩
        rw [(pruneBlockIndexCandidates_sameChain hprune).chain, hchain]
        exact List.prefix_append _ _
      have hflags : SameFlags s s₂ := by
        rcases pruneBlockIndexCandidates_eq hprune with ⟨tip, -, rfl⟩
        exact (connected_flags P s w p).1.trans (SameFlags.of_map rfl)
      rcases hrest with ⟨rfl, rfl⟩ | hrest
      · exact ⟨Relation.ReflTransGen.single hmove, fun _ => hflags⟩
      · have hready' : ∀ q ∈ ps, Ready s₂ q := fun q hq =>
          hG.sameFlags s s₂ q hflags (hready q (List.mem_cons_of_mem _ hq))
        rcases ih (hG.keeps s s₂ hs hmove.1) hready' hrest with ⟨hmoves, hgo⟩
        exact ⟨Relation.ReflTransGen.head hmove hmoves, fun he => hflags.trans (hgo he)⟩

theorem connectLoop_climbs {oldTip : Option UInt256}
    {fuel : Nat} {nHeight : Int} {exit : LoopExit} (hG : Guide H ops P given I Ready) (hs : I s)
    (hready : Ready s most) (hsource : ∀ b ∈ pblock, given = some b ∧ b.getHash H = most)
    (h : connectLoop ops P most pblock oldTip fuel nHeight s = .ok (exit, s')) :
    Climbs H ops P given Ready s s' := by
  have hbranch : ∀ (s : NodeState W) (nHeight k : Int), I s → Ready s most → ∀ p ∈ (branchDown s.mapBlockIndex nHeight
      ((s.idx most).nHeight + 1) (s.mapBlockIndex.getAncestor most k)).reverse, Ready s p :=
    fun s nHeight k hs hready p hp => hG.branch s most _ _ _ hs hready p (List.mem_reverse.1 hp)
  refine connectLoop_induct (motive := fun s => I s → Ready s most → Climbs H ops P given Ready s s') h
    (fun _ _ _ => Relation.ReflTransGen.refl) ?_ ?_ hs hready
  · intro s back nHeight k hblocks hs hready
    exact (connectBlocks_climbs hG hs (hbranch s nHeight k hs hready) hsource hblocks).1
  · intro s s₁ back nHeight k hblocks ih hs hready
    rcases connectBlocks_climbs hG hs (hbranch s nHeight k hs hready) hsource hblocks with ⟨hmoves, hgo⟩
    exact Relation.ReflTransGen.trans hmoves
      (ih (hmoves.moves.keeps hG.keeps hs) (hG.sameFlags s s₁ most (hgo rfl) hready))

/-- A step is refused, or it goes down and then, if that works, up. -/
theorem activateBestChainStep_climbs (hG : Guide H ops P given I Ready) (hs : I s)
    (hready : Ready s most) (hsource : ∀ b ∈ pblock, given = some b ∧ b.getHash H = most)
    (h : activateBestChainStep ops P s most pblock = .ok (r, s')) :
    (r = .error badReorgDepth ∧ s' = s) ∨
      ∃ r₁ v, disconnectLoop ops (s.chainActive.findFork s.mapBlockIndex most)
          (s.chainActive.length + 1) s = .ok (r₁, v) ∧ Moves H ops P given Ready s v ∧
        ((r₁ ≠ .ok () ∧ s' = v) ∨ (r₁ = .ok () ∧ Climbs H ops P given Ready v s')) := by
  simp only [activateBestChainStep] at h
  split_ifs at h
  · obtain ⟨rfl, rfl⟩ := Prod.mk.inj (Except.ok.inj h)
    exact Or.inl ⟨rfl, rfl⟩
  refine Or.inr ?_
  cases hdisc : disconnectLoop ops (s.chainActive.findFork s.mapBlockIndex most)
      (s.chainActive.length + 1) s with
  | error e => simp [hdisc] at h
  | ok res =>
    rcases res with ⟨r₁, v⟩
    have hboth : Moves H ops P given Ready s v ∧ (r₁ = .ok () → SameFlags s v) :=
      disconnectLoop_moves hdisc
    rcases hboth with ⟨hmoves, hflags⟩
    refine ⟨r₁, v, rfl, hmoves, ?_⟩
    rcases r₁ with e | u
    · simp only [hdisc] at h
      obtain ⟨rfl, rfl⟩ := Prod.mk.inj (Except.ok.inj h)
      exact Or.inl ⟨by simp, rfl⟩
    · refine Or.inr ⟨rfl, ?_⟩
      have hv := hmoves.keeps hG.keeps hs
      have hready' := hG.sameFlags s v most (hflags rfl) hready
      simp only [hdisc] at h
      split at h
      · simp at h
      · next hloop =>
        obtain ⟨rfl, rfl⟩ := Prod.mk.inj (Except.ok.inj h)
        exact connectLoop_climbs hG hv hready' hsource hloop
      · next hloop =>
        obtain ⟨rfl, rfl⟩ := Prod.mk.inj (Except.ok.inj h)
        exact connectLoop_climbs hG hv hready' hsource hloop

theorem activateBestChainStep_moves (hG : Guide H ops P given I Ready) (hs : I s)
    (hready : Ready s most) (hsource : ∀ b ∈ pblock, given = some b ∧ b.getHash H = most)
    (h : activateBestChainStep ops P s most pblock = .ok (r, s')) :
    Moves H ops P given Ready s s' := by
  rcases activateBestChainStep_climbs hG hs hready hsource h with
    ⟨-, rfl⟩ | ⟨r₁, v, -, hmoves, ⟨-, rfl⟩ | ⟨-, hclimbs⟩⟩
  · exact Relation.ReflTransGen.refl
  · exact hmoves
  · exact Relation.ReflTransGen.trans hmoves hclimbs.moves

/-- The block at hand is passed on for its own entry only. -/
theorem filter_source {p : UInt256} :
    ∀ b ∈ given.filter (fun b => b.getHash H = p), given = some b ∧ b.getHash H = p := by
  intro b hb
  rcases Option.filter_eq_some_iff.1 (Option.mem_def.1 hb) with ⟨hgiven, hhash⟩
  exact ⟨hgiven, by simpa using hhash⟩

theorem activatePass_moves {pass : Pass W} (hG : Guide H ops P given I Ready) (hs : I s)
    (h : activatePass H ops P given s = .ok pass) : Moves H ops P given Ready s pass.state := by
  rcases activatePass_cases h with ⟨most, t, hmost, hcase⟩
  have hfound : Moves H ops P given Ready s t := (findMostWorkChainLoop_climbs hmost).moves
  have ht := hfound.keeps hG.keeps hs
  rcases hcase with ⟨rfl, -⟩ | ⟨p, rfl, -, r, u, hstep, hend⟩
  · exact hfound
  have hmoves : Moves H ops P given Ready s u := Relation.ReflTransGen.trans hfound
    (activateBestChainStep_moves hG ht (hG.found s t p hs hmost ht) filter_source hstep)
  rcases hend with ⟨e, -, rfl⟩ | ⟨-, -, rfl⟩ | ⟨-, -, rfl⟩
  · exact hmoves
  · exact Relation.ReflTransGen.tail hmoves (Move.world u _)
  · exact hmoves

/-- **A call is a sequence of moves.** -/
theorem activateBestChain_moves {fuel : Nat}
    (hG : Guide H ops P given I Ready) (hs : I s)
    (h : activateBestChain H ops P given fuel s = .ok (r, s')) :
    Moves H ops P given Ready s s' := by
  induction fuel generalizing s with
  | zero => simp [activateBestChain] at h
  | succ fuel ih =>
    rw [activateBestChain] at h
    cases hpass : activatePass H ops P given s with
    | error e => simp [hpass] at h
    | ok pass =>
      have hmoves := activatePass_moves hG hs hpass
      cases pass with
      | finish r₁ s₁ =>
        simp only [hpass, Except.ok.injEq, Prod.mk.injEq] at h
        rw [← h.2]
        exact hmoves
      | again s₁ =>
        simp only [hpass] at h
        exact Relation.ReflTransGen.trans hmoves (ih (hmoves.keeps hG.keeps hs) h)

end

end NodeState

end Dobbscoin
