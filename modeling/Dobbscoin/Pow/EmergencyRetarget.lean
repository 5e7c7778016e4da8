import Dobbscoin.Pow.LWMA3

/-!
# The retarget after an emergency block

An emergency block enters the LWMA-3 window with the limit as its target.  The window averages
targets, so that one term can outweigh the other 59.  `eases_at_most_sixfold_iff` gives the exact
condition on those 59 under which it does not.
-/

namespace Dobbscoin

variable {chain : List CBlockIndex}

/-- What `nBits` of an emergency block decodes to: the limit, rounded to its compact form. -/
def powLimitTarget : UInt256 :=
  setCompact (getCompact mainParams.bnProofOfWorkLimit)

/-- The window of a mainnet chain, newest block first, with one emergency block `e` blocks below the
tip and 59 blocks whose targets are in the range `CheckProofOfWork` asks for. -/
structure EmergencyWindow (chain : List CBlockIndex) (e : Nat) : Prop where
  position : e < lwmaWindow
  full : lwmaWindow + 1 ≤ chain.length
  pastBootstrap : ∀ tip ∈ chain.head?,
    lwma3ForkHeight mainParams + lwmaWindow ≤ tip.nHeight + 1
  pastFork : ∀ prev ∈ chain[e + 1]?, emergencyDiffForkHeight mainParams ≤ prev.nHeight + 1
  emergencyBits : ∀ b ∈ chain[e]?, b.nBits = getCompact mainParams.bnProofOfWorkLimit
  below : ∀ b ∈ (chain.take lwmaWindow).eraseIdx e,
    setCompact b.nBits ≤ mainParams.bnProofOfWorkLimit

/-- The sum of the targets of the 59 other blocks. -/
def otherTargets (chain : List CBlockIndex) (e : Nat) : Nat :=
  (((chain.take lwmaWindow).eraseIdx e).map fun b => (setCompact b.nBits).toNat).sum

/-- The chain with other timestamps; position 0 is the tip. -/
def retime (time : Nat → UInt32) (chain : List CBlockIndex) : List CBlockIndex :=
  chain.mapIdx fun j b => { b with nTime := time j }

/-- The block `e` below the tip passes `IsEmergencyDifficultyBlock` on its parent. -/
def EmergencyAt (chain : List CBlockIndex) (e : Nat) : Prop :=
  ∀ b ∈ chain[e]?, isEmergencyDifficultyBlock mainParams b.getBlockHeader (chain.drop (e + 1)) = true

/-- The next target is at most six times the average of the 59 other targets. -/
def EasesAtMostSixfold (chain : List CBlockIndex) (e : Nat) : Prop :=
  59 * (setCompact (getNextWorkRequiredLWMA3 mainParams chain)).toNat ≤ 6 * otherTargets chain e

/-! ## The limit in compact form -/

theorem powLimit_toNat : mainParams.bnProofOfWorkLimit.toNat = 2 ^ 236 - 1 := by
  decide

theorem powLimitTarget_toNat : powLimitTarget.toNat = (2 ^ 236 - 1) / 2 ^ 216 * 2 ^ 216 := by
  decide

/-- No number up to the limit encodes to more than the limit does. -/
theorem setCompact_getCompact_le_powLimit {x : UInt256}
    (hx : x.toNat ≤ mainParams.bnProofOfWorkLimit.toNat) :
    (setCompact (getCompact x)).toNat ≤ powLimitTarget.toNat := by
  rw [powLimit_toNat] at hx
  rw [powLimitTarget_toNat]
  rcases setCompact_getCompact x with ⟨q, hq, hwide, -⟩
  rcases Nat.lt_or_ge x.toNat (2 ^ 235) with hlt | hge
  · have hle : (setCompact (getCompact x)).toNat ≤ x.toNat := setCompact_getCompact_le x
    omega
  · -- A number of 236 bits keeps its top 24 bits at most.
    have hexp : 235 < 24 + 8 * q := (Nat.pow_lt_pow_iff_right (by decide)).1 (lt_of_le_of_lt hge hwide)
    have hq27 : 216 ≤ 8 * q := by omega
    rcases Nat.exists_eq_add_of_le hq27 with ⟨r, hr⟩
    have hcoarse : x.toNat / 2 ^ (216 + r) * 2 ^ (216 + r) ≤ x.toNat / 2 ^ 216 * 2 ^ 216 := by
      rw [pow_add, ← Nat.div_div_eq_div_mul, ← mul_assoc, mul_right_comm]
      exact Nat.mul_le_mul_right _ (Nat.div_mul_le_self _ _)
    have hmono : x.toNat / 2 ^ 216 ≤ (2 ^ 236 - 1) / 2 ^ 216 := Nat.div_le_div_right hx
    calc (setCompact (getCompact x)).toNat
        = x.toNat / 2 ^ (216 + r) * 2 ^ (216 + r) := by rw [hq, hr]
      _ ≤ x.toNat / 2 ^ 216 * 2 ^ 216 := hcoarse
      _ ≤ (2 ^ 236 - 1) / 2 ^ 216 * 2 ^ 216 := Nat.mul_le_mul_right _ hmono

theorem lwmaNextTarget_le (powLimit : UInt256) (st : LwmaState) :
    (lwmaNextTarget powLimit st).toNat ≤ powLimit.toNat := by
  simp only [lwmaNextTarget]
  generalize st.sumTarget * _ = nextTarget
  by_cases hcap : nextTarget > powLimit
  · simp [hcap]
  · simp only [hcap, if_false]
    exact BitVec.not_lt.1 hcap

/-! ## Timestamps -/

theorem retime_getElem? (time : Nat → UInt32) (chain : List CBlockIndex) (j : Nat) :
    (retime time chain)[j]? = chain[j]?.map fun b => { b with nTime := time j } := by
  simp [retime]

theorem retime_length (time : Nat → UInt32) (chain : List CBlockIndex) :
    (retime time chain).length = chain.length := by
  simp [retime]

theorem retime_nBits (time : Nat → UInt32) (chain : List CBlockIndex) :
    (retime time chain).map CBlockIndex.nBits = chain.map CBlockIndex.nBits := by
  apply List.ext_getElem?
  intro j
  rw [List.getElem?_map, List.getElem?_map, retime_getElem?, Option.map_map]
  rfl

theorem map_eraseIdx {α β : Type} (f : α → β) (l : List α) (n : Nat) :
    (l.eraseIdx n).map f = (l.map f).eraseIdx n := by
  induction l generalizing n with
  | nil => simp
  | cons a l ih =>
    cases n with
    | zero => simp
    | succ n => simp [ih]

theorem otherTargets_eq (chain : List CBlockIndex) (e : Nat) :
    otherTargets chain e =
      ((((chain.map CBlockIndex.nBits).take lwmaWindow).eraseIdx e).map
        fun bits => (setCompact bits).toNat).sum := by
  rw [← List.map_take, ← map_eraseIdx, List.map_map]
  rfl

theorem otherTargets_retime (time : Nat → UInt32) (chain : List CBlockIndex) (e : Nat) :
    otherTargets (retime time chain) e = otherTargets chain e := by
  rw [otherTargets_eq, otherTargets_eq, retime_nBits]

/-- Neither the position nor the targets of a window depend on its timestamps. -/
theorem EmergencyWindow.retime {e : Nat} (h : EmergencyWindow chain e)
    (time : Nat → UInt32) : EmergencyWindow (retime time chain) e where
  position := h.position
  full := by
    rw [retime_length]
    exact h.full
  pastBootstrap := by
    intro tip htip
    rw [List.head?_eq_getElem?, retime_getElem?, Option.mem_map] at htip
    rcases htip with ⟨b, hb, rfl⟩
    rw [Option.mem_def, ← List.head?_eq_getElem?] at hb
    exact h.pastBootstrap b hb
  pastFork := by
    intro prev hprev
    rw [retime_getElem?, Option.mem_map] at hprev
    rcases hprev with ⟨b, hb, rfl⟩
    exact h.pastFork b hb
  emergencyBits := by
    intro b hb
    rw [retime_getElem?, Option.mem_map] at hb
    rcases hb with ⟨b', hb', rfl⟩
    exact h.emergencyBits b' hb'
  below := by
    intro b hb
    have hmem : b.nBits ∈ (((Dobbscoin.retime time chain).take lwmaWindow).eraseIdx e).map
        CBlockIndex.nBits := List.mem_map_of_mem hb
    rw [map_eraseIdx, List.map_take, retime_nBits, ← List.map_take, ← map_eraseIdx] at hmem
    rcases List.mem_map.1 hmem with ⟨b', hb', hbits⟩
    rw [← hbits]
    exact h.below b' hb'

/-- Twelve minutes between blocks, and six hours and a second more before the emergency block. -/
def stalledTimes (e : Nat) (j : Nat) : UInt32 :=
  UInt32.ofNat (720 * (60 - j) + if j ≤ e then 21601 else 0)

theorem stalledTimes_toNat (e j : Nat) :
    (stalledTimes e j).toNat = 720 * (60 - j) + if j ≤ e then 21601 else 0 := by
  have hlt : 720 * (60 - j) + (if j ≤ e then 21601 else 0) < 2 ^ 32 := by
    split_ifs <;> omega
  simpa [stalledTimes] using Nat.mod_eq_of_lt hlt

theorem emergencyAt_stalled {e : Nat} (h : EmergencyWindow chain e) :
    EmergencyAt (retime (stalledTimes e) chain) e := by
  intro b hb
  have hlen : e + 1 < (retime (stalledTimes e) chain).length := by
    have hpos := h.position
    have hfull := (h.retime (stalledTimes e)).full
    simp only [lwmaWindow] at hpos hfull
    omega
  rw [List.drop_eq_getElem_cons hlen, isEmergencyDifficultyBlock_iff]
  have hprev : (retime (stalledTimes e) chain)[e + 1]? =
      some (retime (stalledTimes e) chain)[e + 1] := List.getElem?_eq_getElem hlen
  have hbtime : b.nTime = stalledTimes e e := by
    rw [retime_getElem?, Option.mem_map] at hb
    rcases hb with ⟨b', -, rfl⟩
    rfl
  have hprevTime : (retime (stalledTimes e) chain)[e + 1].nTime = stalledTimes e (e + 1) := by
    simp [retime]
  refine ⟨(h.retime _).pastFork _ hprev, ?_, (h.retime _).emergencyBits b hb⟩
  have hpos := h.position
  have hblock : b.getBlockHeader.nTime = stalledTimes e e := hbtime
  have hle : ¬ e + 1 ≤ e := by omega
  simp only [CBlockIndex.getBlockTime, hprevTime, hblock, stalledTimes_toNat, le_refl, if_true, hle,
    if_false, emergencyDifficultyGap, lwmaWindow] at hpos ⊢
  omega

/-- With these times every block of the window counts as a solvetime of `6T`. -/
theorem isChain_stalled (e : Nat) (hfull : lwmaWindow < chain.length) :
    List.IsChain (fun s t => s + 6 * lwmaSpacing ≤ t)
      (((retime (stalledTimes e) chain).take (lwmaWindow + 1)).reverse.map
        CBlockIndex.getBlockTime) := by
  have htimes : ((retime (stalledTimes e) chain).take (lwmaWindow + 1)).reverse.map
      CBlockIndex.getBlockTime =
        (List.range 61).map fun m => ((stalledTimes e (60 - m)).toNat : Int) := by
    simp only [lwmaWindow] at hfull ⊢
    apply List.ext_getElem
    · simp [retime]
      omega
    · intro m hm hm'
      have hmin : min 61 chain.length = 61 := by omega
      simp [retime, CBlockIndex.getBlockTime, hmin]
  rw [htimes, List.isChain_iff_getElem]
  intro m hm
  simp only [List.length_map, List.length_range] at hm
  simp only [List.getElem_map, List.getElem_range, stalledTimes_toNat, lwmaSpacing]
  split_ifs <;> omega

/-! ## The window's sums -/

/-- A sum over the window is the emergency block's term plus that of the others. -/
theorem window_sum {e : Nat} (h : EmergencyWindow chain e)
    (f : CBlockIndex → Nat) :
    ∃ b, chain[e]? = some b ∧
      ((chain.take lwmaWindow).map f).sum =
        f b + (((chain.take lwmaWindow).eraseIdx e).map f).sum := by
  have hlen : e < (chain.take lwmaWindow).length := by
    have hpos := h.position
    have hfull := h.full
    simp only [List.length_take]
    omega
  have hlt : e < chain.length := by
    simp only [List.length_take] at hlen
    omega
  refine ⟨chain[e], List.getElem?_eq_getElem hlt, ?_⟩
  have hperm := (List.getElem_cons_eraseIdx_perm hlen).map f
  have hsum := hperm.sum_eq
  simp only [List.map_cons, List.sum_cons, List.getElem_take] at hsum
  exact hsum.symm

theorem otherTargets_le {e : Nat} (h : EmergencyWindow chain e) :
    otherTargets chain e ≤ 59 * (2 ^ 236 - 1) := by
  have hlen : ((chain.take lwmaWindow).eraseIdx e).length = 59 := by
    have hpos := h.position
    have hfull := h.full
    have htake : (chain.take lwmaWindow).length = lwmaWindow := by
      simp only [List.length_take]
      omega
    rw [List.length_eraseIdx, htake, if_pos hpos]
    rfl
  have hle : ∀ t ∈ ((chain.take lwmaWindow).eraseIdx e).map
      (fun b => (setCompact b.nBits).toNat), t ≤ 2 ^ 236 - 1 := by
    intro t ht
    rcases List.mem_map.1 ht with ⟨b, hb, rfl⟩
    have hbelow := BitVec.le_def.1 (h.below b hb)
    rwa [powLimit_toNat] at hbelow
  have hsum := List.sum_le_card_nsmul _ _ hle
  rw [List.length_map, hlen] at hsum
  exact hsum

/-- With every solvetime clamped from above, the product before the cap is a tenth of the sum of
the targets, short of what scaling loses. -/
theorem stalled_nextTarget {e : Nat} (h : EmergencyWindow chain e) :
    ∃ next : UInt256,
      getNextWorkRequiredLWMA3 mainParams (retime (stalledTimes e) chain) =
        getCompact (if next > mainParams.bnProofOfWorkLimit then mainParams.bnProofOfWorkLimit
          else next) ∧
      powLimitTarget.toNat + otherTargets chain e ≤ 10 * next.toNat + 60 * lwmaDivisor := by
  have hw := h.retime (stalledTimes e)
  have hfull : lwmaWindow < chain.length := h.full
  have hfull' : lwmaWindow < (retime (stalledTimes e) chain).length := hw.full
  -- What the loop computes on the retimed window.
  have hchain := isChain_stalled e hfull
  rw [List.take_succ_eq_append_getElem hfull', List.reverse_append, List.reverse_singleton,
    List.singleton_append, List.map_cons] at hchain
  rcases window_sum hw scaledTarget with ⟨b, hb, hscaled⟩
  rcases window_sum hw (fun b => (setCompact b.nBits).toNat) with ⟨b', hb', htargets⟩
  obtain rfl : b = b' := by
    rw [hb] at hb'
    exact Option.some.inj hb'
  have hbits : setCompact b.nBits = powLimitTarget := by
    rw [hw.emergencyBits b hb]
    rfl
  have hothers : (((((retime (stalledTimes e) chain).take lwmaWindow).eraseIdx e).map
      fun b => (setCompact b.nBits).toNat)).sum = otherTargets chain e :=
    otherTargets_retime (stalledTimes e) chain e
  rw [hothers, hbits] at htargets
  have hbounds := scaledTarget_bounds ((retime (stalledTimes e) chain).take lwmaWindow)
  have hlen : ((retime (stalledTimes e) chain).take lwmaWindow).length = lwmaWindow := by
    rw [List.length_take]
    omega
  rw [htargets, hlen] at hbounds
  have hle := otherTargets_le h
  have hlimit := powLimitTarget_toNat
  generalize hsum : ((((retime (stalledTimes e) chain).take lwmaWindow).map scaledTarget).sum) = sum
    at hbounds
  have hloopSum := toNat_sumTarget ((retime (stalledTimes e) chain).take lwmaWindow).reverse
    ⟨0, 0, (retime (stalledTimes e) chain)[lwmaWindow].getBlockTime⟩ 1
  have hloopTime := weightedTime_of_slow ((retime (stalledTimes e) chain).take lwmaWindow).reverse
    ⟨0, 0, (retime (stalledTimes e) chain)[lwmaWindow].getBlockTime⟩ 1 hchain
  rw [List.map_reverse, List.sum_reverse, hsum] at hloopSum
  rw [List.length_reverse, hlen] at hloopTime
  rw [getNextWorkRequiredLWMA3_window hfull' hw.pastBootstrap]
  generalize lwmaLoop _ 1 _ = st at hloopSum hloopTime
  have hsumTarget : st.sumTarget.toNat = sum := by
    simp only [lwmaDivisor, lwmaWindow] at hbounds
    have hzero : (0 : UInt256).toNat = 0 := rfl
    have hfits := hloopSum (by rw [hzero]; omega)
    simpa using hfits
  have hweighted : st.weightedTime = 1317600 := by
    have hnorm : 6 * lwmaSpacing * ((List.range' 1 lwmaWindow).sum : Nat) = 1317600 := by decide
    rw [hloopTime, hnorm]
    rfl
  have hmul : (st.sumTarget * BitVec.ofNat 256 1317600).toNat = sum * 1317600 := by
    have hfactor : (BitVec.ofNat 256 1317600).toNat = 1317600 := by decide
    rw [BitVec.toNat_mul, hsumTarget, hfactor]
    simp only [lwmaDivisor, lwmaWindow] at hbounds
    exact Nat.mod_eq_of_lt (by omega)
  refine ⟨st.sumTarget * BitVec.ofNat 256 1317600, ?_, ?_⟩
  · have hfloor : ¬ (1317600 : Int) < lwmaNorm / 3 := by decide
    have hcast : ((1317600 : Int).toNat % 2 ^ 32) = 1317600 := by decide
    simp only [lwmaNextTarget, hweighted, hfloor, if_false, hcast]
  · rw [hmul]
    simp only [lwmaDivisor, lwmaWindow] at hbounds ⊢
    omega

/-! ## The bound -/

/-- **When the relaxation stays in its block.**  The next target is at most six times the average of
the 59 others, whatever the timestamps, exactly when six times that average reaches the limit. -/
theorem eases_at_most_sixfold_iff (chain : List CBlockIndex) (e : Nat)
    (h : EmergencyWindow chain e) :
    (∀ time, EmergencyAt (retime time chain) e → EasesAtMostSixfold (retime time chain) e) ↔
      59 * powLimitTarget.toNat ≤ 6 * otherTargets chain e := by
  constructor
  · intro heases
    have hbound := heases (stalledTimes e) (emergencyAt_stalled h)
    rcases stalled_nextTarget h with ⟨next, hnext, hlarge⟩
    rw [EasesAtMostSixfold, otherTargets_retime, hnext] at hbound
    by_contra hnot
    by_cases hcap : next > mainParams.bnProofOfWorkLimit
    · -- The cap was hit: the next target is the limit itself.
      rw [if_pos hcap] at hbound
      exact hnot hbound
    · rw [if_neg hcap] at hbound
      have hround := lt_setCompact_getCompact next
      have hlimit := powLimitTarget_toNat
      simp only [lwmaDivisor] at hlarge
      omega
  · intro hcond time _
    have hw := h.retime time
    have hpast := hw.pastBootstrap
    have hle : (setCompact (getNextWorkRequiredLWMA3 mainParams (retime time chain))).toNat ≤
        powLimitTarget.toNat := by
      rw [getNextWorkRequiredLWMA3_window hw.full hpast]
      exact setCompact_getCompact_le_powLimit (lwmaNextTarget_le _ _)
    rw [EasesAtMostSixfold, otherTargets_retime]
    omega

/-! ## One emergency block at the tip -/

/-- A healthy mainnet chain at two-minute spacing, then an emergency block at height 2,000,000. -/
def stuckChain : List CBlockIndex :=
  { CBlockIndex.null with
    nHeight := 2000000, nTime := 28801, nBits := getCompact mainParams.bnProofOfWorkLimit } ::
    (List.range 60).map fun j =>
      { CBlockIndex.null with
        nHeight := 1999999 - j, nTime := UInt32.ofNat (7200 - 120 * j), nBits := 0x1b0fffff }

theorem stuckChain_window : EmergencyWindow stuckChain 0 where
  position := by decide
  full := by decide
  pastBootstrap := by decide
  pastFork := by decide
  emergencyBits := by decide
  below := by decide

theorem eases_at_most_sixfold_stuckChain :
    (∀ time, EmergencyAt (retime time stuckChain) 0 →
        EasesAtMostSixfold (retime time stuckChain) 0) ↔
      59 * powLimitTarget.toNat ≤ 6 * otherTargets stuckChain 0 :=
  eases_at_most_sixfold_iff stuckChain 0 stuckChain_window

set_option maxRecDepth 20000 in
/-- The block after the emergency block may be mined at a target a fiftieth of the limit, more than
300,000 times the target of the blocks before it. -/
theorem stuckChain_collapses :
    EmergencyWindow stuckChain 0 ∧ EmergencyAt stuckChain 0 ∧
      ¬ EasesAtMostSixfold stuckChain 0 ∧
      powLimitTarget.toNat <
        52 * (setCompact (getNextWorkRequiredLWMA3 mainParams stuckChain)).toNat ∧
      59 * (setCompact (getNextWorkRequiredLWMA3 mainParams stuckChain)).toNat >
        300000 * otherTargets stuckChain 0 := by
  have hat : EmergencyAt stuckChain 0 := by
    intro b hb
    obtain rfl := Option.some.inj hb
    decide
  have hnot : ¬ EasesAtMostSixfold stuckChain 0 := by
    unfold EasesAtMostSixfold
    decide
  exact ⟨stuckChain_window, hat, hnot, by decide, by decide⟩

end Dobbscoin
