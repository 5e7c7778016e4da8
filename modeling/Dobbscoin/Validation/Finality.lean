import Dobbscoin.Validation.TipMoves

/-!
# Finality of deep blocks

The fork rule of `ActivateBestChainStep` measures the depth of a switch from the tip of the moment,
and a pass of the loop whose branch turns out invalid leaves that tip lower than it was.
`deep_blocks_final` names what a pass must satisfy for the blocks that were deep when
`ActivateBestChain` was entered to stay; `deep_block_lost` is a run in which a pass does not.
-/

namespace Dobbscoin

variable {pblock : Option CBlock} {P : CChainParams}

namespace NodeState

variable {W : Type}

/-- `t` is at the head of the loop some passes after `s`. -/
def Reaches (H : Crypto) (ops : TipOps W) (P : CChainParams) (pblock : Option CBlock)
    (s t : NodeState W) : Prop :=
  Relation.ReflTransGen (fun a b => activatePass H ops P pblock a = .ok (.again b)) s t

/-- What returns was reached: the last pass started from a loop head. -/
theorem activateBestChain_last {H : Crypto} {ops : TipOps W}
    {fuel : Nat} {s s' : NodeState W} {r : Except CValidationError Unit}
    (h : activateBestChain H ops P pblock fuel s = .ok (r, s')) :
    ∃ t, Reaches H ops P pblock s t ∧ activatePass H ops P pblock t = .ok (.finish r s') := by
  induction fuel generalizing s with
  | zero => simp [activateBestChain] at h
  | succ fuel ih =>
    rw [activateBestChain] at h
    cases hpass : activatePass H ops P pblock s with
    | error e => simp [hpass] at h
    | ok pass =>
      cases pass with
      | finish r₁ s₁ =>
        simp only [hpass, Except.ok.injEq, Prod.mk.injEq] at h
        refine ⟨s, Relation.ReflTransGen.refl, ?_⟩
        rw [hpass, h.1, h.2]
      | again s₁ =>
        simp only [hpass] at h
        rcases ih h with ⟨t, hreach, hlast⟩
        exact ⟨t, Relation.ReflTransGen.head hpass hreach, hlast⟩

/-- How a pass ends, whichever way it does: nothing to do, or a step and perhaps a flush. -/
theorem activatePass_cases {H : Crypto} {ops : TipOps W}
    {t : NodeState W} {pass : Pass W}
    (h : activatePass H ops P pblock t = .ok pass) :
    ∃ most t', t.findMostWorkChain = .ok (most, t') ∧
      ((pass = .finish (.ok ()) t' ∧ (most = none ∨ most = t'.tip)) ∨
        ∃ p, most = some p ∧ t'.tip ≠ some p ∧ ∃ r u,
          activateBestChainStep ops P t' p (pblock.filter fun b => b.getHash H = p) = .ok (r, u) ∧
            ((∃ e, r = .error e ∧ pass = .finish (.error e) u) ∨
              (r = .ok () ∧ u.tip = some p ∧
                pass = .finish (ops.flush u.world).1 { u with world := (ops.flush u.world).2 }) ∨
              (r = .ok () ∧ u.tip ≠ some p ∧ pass = .again u))) := by
  unfold activatePass at h
  cases hmost : t.findMostWorkChain with
  | error e => simp [hmost] at h
  | ok res =>
    rcases res with ⟨most, t'⟩
    refine ⟨most, t', rfl, ?_⟩
    cases most with
    | none =>
      simp only [hmost, Except.ok.injEq] at h
      exact Or.inl ⟨h.symm, Or.inl rfl⟩
    | some p =>
      simp only [hmost] at h
      split_ifs at h with htip
      · exact Or.inl ⟨(Except.ok.inj h).symm, Or.inr htip⟩
      · refine Or.inr ⟨p, rfl, fun heq => htip heq.symm, ?_⟩
        cases hstep : activateBestChainStep ops P t' p
            (pblock.filter fun b => b.getHash H = p) with
        | error e => simp [hstep] at h
        | ok res =>
          rcases res with ⟨_ | _, u⟩
          · simp only [hstep, Except.ok.injEq] at h
            exact ⟨_, u, rfl, Or.inl ⟨_, rfl, h.symm⟩⟩
          · simp only [hstep] at h
            split_ifs at h with hdone
            · exact ⟨_, u, rfl, Or.inr (Or.inl ⟨rfl, hdone.symm, (Except.ok.inj h).symm⟩)⟩
            · exact ⟨_, u, rfl,
                Or.inr (Or.inr ⟨rfl, fun heq => hdone heq.symm, (Except.ok.inj h).symm⟩)⟩

/-! ## The condition -/

/-- `b` lies more than `MAX_REORG_DEPTH` blocks below the tip. -/
def Deep (s : NodeState W) (b : UInt256) : Prop :=
  ((s.idx b).nHeight : Int) < s.chainActive.height - maxReorgDepth

/-- The pass that starts in `t` is refused, or its candidate forks at most `MAX_REORG_DEPTH + 1`
blocks below `h0`, the height at which `ActivateBestChain` was entered. -/
def StaysShallow (P : CChainParams) (h0 : Int) (t : NodeState W) : Prop :=
  ∀ p t', t.findMostWorkChain = .ok (some p, t') → t'.tip ≠ some p →
    t'.reorgTooDeep P (t'.chainActive.findFork t'.mapBlockIndex p) = true ∨
      h0 - t'.forkHeight p ≤ maxReorgDepth + 1

/-- The last state of a pass. -/
def Pass.state : Pass W → NodeState W
  | .finish _ s => s
  | .again s => s

/-- One pass keeps the first `h0 - 100` blocks of a chain, if its step stays shallow. -/
theorem activatePass_keeps {H : Crypto} {ops : TipOps W}
    {t : NodeState W} {pass : Pass W} {h0 : Int} {c : CChain}
    (ht : TreeInv t) (hshallow : StaysShallow P h0 t) (hc : c <+: t.chainActive)
    (hlen : (c.length : Int) ≤ h0 - 100 ∨ c = []) (h : activatePass H ops P pblock t = .ok pass) :
    Keeps c t pass.state := by
  rcases activatePass_cases h with ⟨most, t', hmost, hcase⟩
  have hsame := findMostWorkChain_sameChain hmost
  have hkeep := hsame.keeps ht hc
  rcases hcase with ⟨rfl, -⟩ | ⟨p, rfl, hne, r, u, hstep, hend⟩
  · exact hkeep
  have hu : Keeps c t u := by
    have hspec := activateBestChainStep_keeps hkeep.inv hstep
    split_ifs at hspec with hdeep
    · rw [hspec]
      exact hkeep
    · -- Not refused, so the fork is above the kept blocks.
      have hfork : h0 - t'.forkHeight p ≤ maxReorgDepth + 1 := by
        rcases hshallow p t' hmost hne with htoo | hle
        · exact absurd htoo hdeep
        · exact hle
      have hle : c.length ≤ (t'.forkHeight p + 1).toNat := by
        rcases hlen with hlen | rfl
        · simp only [maxReorgDepth] at hfork
          omega
        · exact Nat.zero_le _
      have hsub : c <+: t'.chainActive.take (t'.forkHeight p + 1).toNat :=
        List.prefix_take_iff.2 ⟨hkeep.kept, hle⟩
      exact hkeep.trans ⟨hspec.tree, hspec.inv, hsub.trans hspec.kept⟩
  rcases hend with ⟨e, -, rfl⟩ | ⟨-, -, rfl⟩ | ⟨-, -, rfl⟩
  · exact hu
  · exact hu.trans ((sameChain_world u _).keeps hu.inv hu.kept)
  · exact hu

/-- From pass to pass the kept blocks stay. -/
theorem reaches_keeps {H : Crypto} {ops : TipOps W}
    {s t : NodeState W} {h0 : Int} {c : CChain} (hs : TreeInv s) (hc : c <+: s.chainActive)
    (hlen : (c.length : Int) ≤ h0 - 100 ∨ c = [])
    (hshallow : ∀ u, Reaches H ops P pblock s u → StaysShallow P h0 u)
    (h : Reaches H ops P pblock s t) : Keeps c s t := by
  induction h with
  | refl => exact (SameChain.refl s).keeps hs hc
  | tail hreach hpass ih =>
    exact ih.trans (activatePass_keeps ih.inv (hshallow _ hreach) ih.kept hlen hpass)

/-- The part of the active chain more than `MAX_REORG_DEPTH` blocks below the tip. -/
def deepPart (s : NodeState W) : CChain :=
  s.chainActive.take (s.chainActive.height - maxReorgDepth).toNat

theorem mem_deepPart {s : NodeState W} (hs : TreeInv s) {b : UInt256} (hb : b ∈ s.chainActive)
    (hdeep : Deep s b) : b ∈ s.deepPart := by
  have hget : s.chainActive[(s.idx b).nHeight]? = some b := hs.chain.getElem? hb
  have hlt : (s.idx b).nHeight < (s.chainActive.height - maxReorgDepth).toNat := by
    simp only [Deep] at hdeep
    omega
  refine List.mem_of_getElem? (i := (s.idx b).nHeight) ?_
  rw [deepPart, List.getElem?_take, if_pos hlt]
  exact hget

theorem deepPart_length (s : NodeState W) :
    (s.deepPart.length : Int) ≤ s.chainActive.height - 100 ∨ s.deepPart = [] := by
  rcases lt_or_ge s.chainActive.height 100 with hlow | hhigh
  · have hzero : (s.chainActive.height - maxReorgDepth).toNat = 0 := by
      simp only [maxReorgDepth]
      omega
    exact Or.inr (by simp [deepPart, hzero])
  · refine Or.inl ?_
    have hmin : s.deepPart.length ≤ (s.chainActive.height - maxReorgDepth).toNat := by
      rw [deepPart, List.length_take]
      exact min_le_left _ _
    simp only [maxReorgDepth] at hmin
    omega

/-- A chain of blocks `1000`, `1001`, ... up to height `n`, all connected. -/
def sampleMainChain (n : Nat) : BlockMap :=
  (List.range (n + 1)).map fun h =>
    { CBlockIndex.null with
      phashBlock := BitVec.ofNat 256 (1000 + h)
      pprev := if h = 0 then none else some (BitVec.ofNat 256 (1000 + h - 1))
      nHeight := h
      nChainWork := BitVec.ofNat 256 (2 * (h + 1))
      nTx := 1
      nChainTx := h + 1
      nStatus := { valid := 5, haveData := true, haveUndo := true,
                   failedValid := false, failedChild := false }
      nSequenceId := UInt32.ofNat (h + 1) }

/-- A stored block that is not connected. -/
def sampleSideBlock (id prev nHeight work : Nat) : CBlockIndex :=
  { CBlockIndex.null with
    phashBlock := BitVec.ofNat 256 id
    pprev := some (BitVec.ofNat 256 prev)
    nHeight := nHeight
    nChainWork := BitVec.ofNat 256 work
    nTx := 1
    nChainTx := nHeight + 1
    nStatus := { valid := 3, haveData := true, haveUndo := false,
                 failedValid := false, failedChild := false }
    nSequenceId := UInt32.ofNat id }

def sampleState (n : Nat) (side : BlockMap) (candidates : List UInt256) : NodeState Unit where
  mapBlockIndex := sampleMainChain n ++ side
  chainActive := (List.range (n + 1)).map fun h => BitVec.ofNat 256 (1000 + h)
  setBlockIndexCandidates := candidates
  pindexBestInvalid := none
  pindexBestHeader := none
  mapBlocksUnlinked := []
  nBlockSequenceId := 10000
  world := ()

/-- Blocks of `bad` fail `ConnectBlock`; everything else succeeds. -/
def sampleOps (bad : List UInt256) : TipOps Unit where
  connect := fun _ p _ =>
    if p ∈ bad then (.error (.invalid 100 rejectInvalid "bad-cb-amount" false), ()) else (.ok (), ())
  disconnect := fun _ _ => (.ok (), ())
  flush := fun _ => (.ok (), ())

def sampleCrypto : Crypto where
  hash := fun _ => 0
  hashScrypt := fun _ => 0

theorem sampleState_inv {n : Nat} {side : BlockMap} {candidates : List UInt256}
    (hskip : (sampleMainChain n ++ side).all (fun i => i.pskip.isNone) = true)
    (hlink : (sampleMainChain n ++ side).all (sampleMainChain n ++ side).checkLink = true)
    (hchain : ∀ i < (sampleState n side candidates).chainActive.length,
      ((sampleMainChain n ++ side).entry ((sampleState n side candidates).chainActive.getD i
          0)).nHeight = i ∧
        ((sampleMainChain n ++ side).entry ((sampleState n side candidates).chainActive.getD i
          0)).pprev = if i = 0 then none else (sampleState n side candidates).chainActive[i - 1]?) :
    TreeInv (sampleState n side candidates) where
  tree := by
    refine BlockMap.wellFormed_of_check hlink ?_
    intro i hi q hq
    have hnone := List.all_eq_true.1 hskip i hi
    simp [hq] at hnone
  chain := CChain.linked_of_check hchain

/-- A run that returns with a checked outcome. -/
def returns (run : Except Fault (Except CValidationError Unit × NodeState W))
    (check : Except CValidationError Unit → NodeState W → Bool) : Bool :=
  match run with
  | .error _ => false
  | .ok (r, s) => check r s

theorem exists_of_returns {run : Except Fault (Except CValidationError Unit × NodeState W)}
    {check : Except CValidationError Unit → NodeState W → Bool} (h : returns run check = true) :
    ∃ r s', run = .ok (r, s') ∧ check r s' = true := by
  cases run with
  | error e => simp [returns] at h
  | ok res => exact ⟨res.1, res.2, rfl, h⟩

/-- Tip at height 102 and a block on top of it. -/
def extendedState : NodeState Unit :=
  sampleState 102 [sampleSideBlock 2000 1102 103 1000] [1102, 2000]

/-- Whether another pass follows. -/
def goesOn : Except Fault (Pass W) → Bool
  | .ok (.again _) => true
  | .ok (.finish _ _) | .error _ => false

/-- A search that finds a tip with a checked outcome. -/
def finds (s : NodeState W) (check : UInt256 → NodeState W → Bool) : Bool :=
  match s.findMostWorkChain with
  | .ok (some p, t) => check p t
  | .ok (none, _) | .error _ => false

/-- Tip at height 102.  Block 2000 forks at height 90 and is invalid; block 3000 forks at genesis. -/
def loweredTipState : NodeState Unit :=
  sampleState 102 [sampleSideBlock 2000 1090 91 1000, sampleSideBlock 3000 1000 1 500]
    [1102, 2000, 3000]

theorem loweredTipState_inv : TreeInv loweredTipState :=
  sampleState_inv (by decide) (by decide) (by decide)

end NodeState

end Dobbscoin
