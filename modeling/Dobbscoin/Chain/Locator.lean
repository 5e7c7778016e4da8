import Dobbscoin.Chain.ActiveChain

/-!
# Locators

`CChain::GetLocator`: the hashes of a block and of ancestors of it, the first eleven steps back one block
long and every later one twice as long as the one before, down to the first block.  `getLocator_spec` is
the shape of the list.
-/

namespace Dobbscoin

namespace CChain

variable {m : BlockMap} {chain : CChain}

/-- The loop of `GetLocator`, for a number of passes; `size` is the number of hashes pushed so far. -/
def getLocatorLoop (chain : CChain) (m : BlockMap) :
    Nat → Option UInt256 → BitVec 32 → Nat → Except WalkError (List UInt256)
  | 0, _, _, _ => .error .notEnded
  | _ + 1, none, _, _ => .ok []
  | passes + 1, some pindex, nStep, size =>
    -- Stop when we have added the genesis block.
    if (m.entry pindex).nHeight = 0 then .ok [(m.entry pindex).phashBlock]
    else do
      -- Exponentially larger steps back, plus the genesis block.
      let nHeight := max (BitVec.ofNat 32 (m.entry pindex).nHeight - nStep).toInt 0
      let next := if chain.contains m pindex then chain.atHeight nHeight else m.getAncestor pindex nHeight
      let vHave ← getLocatorLoop chain m passes next (if size + 1 > 10 then nStep * 2 else nStep) (size + 1)
      return (m.entry pindex).phashBlock :: vHave

/-- `GetLocator`. -/
def getLocator (chain : CChain) (m : BlockMap) (pindex : Option UInt256) :
    Except WalkError (List UInt256) :=
  match pindex.or chain.tip with
  | none => .ok []
  | some start => getLocatorLoop chain m ((m.entry start).nHeight + 1) (some start) 1 0

/-! ## The steps -/

/-- The step after `n` hashes. -/
def locatorStep (n : Nat) : Nat :=
  if n ≤ 10 then 1 else 2 ^ (n - 10)

/-- How far below the first block the hash number `n` is. -/
def locatorDepth (n : Nat) : Nat :=
  if n ≤ 11 then n else 9 + 2 ^ (n - 10)

theorem locatorStep_low {n : Nat} (hn : n ≤ 10) : locatorStep n = 1 :=
  if_pos hn

theorem locatorStep_high {n : Nat} (hn : 10 < n) : locatorStep n = 2 ^ (n - 10) :=
  if_neg (Nat.not_le_of_lt hn)

theorem locatorDepth_low {n : Nat} (hn : n ≤ 11) : locatorDepth n = n :=
  if_pos hn

/-- From the hash number 11 on both forms count the same depth. -/
theorem locatorDepth_high {n : Nat} (hn : 11 ≤ n) : locatorDepth n = 9 + 2 ^ (n - 10) := by
  rcases Nat.eq_or_lt_of_le hn with rfl | hlt
  · rfl
  · exact if_neg (Nat.not_le_of_lt hlt)

theorem locatorDepth_succ (n : Nat) : locatorDepth (n + 1) = locatorDepth n + locatorStep n := by
  rcases Nat.lt_or_ge n 11 with hlow | hhigh
  · rw [locatorDepth_low hlow, locatorDepth_low (Nat.le_of_lt hlow), locatorStep_low (Nat.le_of_lt_succ hlow)]
  · have hpow : 2 ^ (n + 1 - 10) = 2 * 2 ^ (n - 10) := by
      rw [← pow_succ', Nat.succ_sub (by omega)]
    rw [locatorDepth_high (by omega), locatorDepth_high hhigh, locatorStep_high hhigh, hpow]
    omega

theorem locatorStep_succ (n : Nat) :
    BitVec.ofNat 32 (locatorStep (n + 1)) =
      if n + 1 > 10 then BitVec.ofNat 32 (locatorStep n) * 2 else BitVec.ofNat 32 (locatorStep n) := by
  rcases Nat.lt_trichotomy n 10 with hlow | rfl | hhigh
  · rw [if_neg (by omega), locatorStep_low hlow, locatorStep_low (Nat.le_of_lt hlow)]
  · rfl
  · have hpow : 2 ^ (n + 1 - 10) = 2 ^ (n - 10) * 2 := by
      rw [← pow_succ, Nat.succ_sub (by omega)]
    rw [if_pos (by omega), locatorStep_high (by omega), locatorStep_high hhigh, hpow, BitVec.ofNat_mul]
    rfl

/-- A step that is taken from a height is a positive int. -/
theorem locatorStep_le {n height : Nat} (hdepth : locatorDepth n < height) (hheight : height < 2 ^ 31) :
    0 < locatorStep n ∧ locatorStep n ≤ 2 ^ 30 := by
  rcases Nat.lt_or_ge 10 n with hhigh | hlow
  · rw [locatorDepth_high hhigh] at hdepth
    rw [locatorStep_high hhigh]
    refine ⟨Nat.two_pow_pos _, Nat.pow_le_pow_right (by decide) ?_⟩
    by_contra hlong
    have hpow : 2 ^ 31 ≤ 2 ^ (n - 10) := Nat.pow_le_pow_right (by decide) (by omega)
    omega
  · rw [locatorStep_low hlow]
    decide

theorem locatorDepth_mono {n k : Nat} (h : n ≤ k) : locatorDepth n ≤ locatorDepth k := by
  induction k, h using Nat.le_induction with
  | base => exact Nat.le_refl _
  | succ k _ ih =>
    calc
      locatorDepth n ≤ locatorDepth k := ih
      _ ≤ locatorDepth k + locatorStep k := Nat.le_add_right _ _
      _ = locatorDepth (k + 1) := (locatorDepth_succ k).symm

theorem locatorDepth_log (height : Nat) : height ≤ locatorDepth (11 + Nat.log2 (height + 2)) := by
  have hlog : height + 2 < 2 ^ (Nat.log2 (height + 2) + 1) := Nat.lt_log2_self
  have hpos : 1 ≤ Nat.log2 (height + 2) := (Nat.le_log2 (by omega)).2 (by omega)
  rw [locatorDepth_high (by omega), show 11 + Nat.log2 (height + 2) - 10 = Nat.log2 (height + 2) + 1 by omega]
  omega

/-! ## The loop -/

/-- On the chain and off it the next block is the ancestor at the next height. -/
theorem locatorNext_spec (hm : m.WellFormed) (hskip : m.SkipList) (hc : Linked m chain) {p : UInt256}
    {n : Nat} (hn : n ≤ (m.entry p).nHeight) :
    ∃ a, (if chain.contains m p then chain.atHeight n else m.getAncestor p n) = some a ∧
      m.Ancestor a p ∧ (m.entry a).nHeight = n := by
  rcases hm.exists_ancestor p hn with ⟨a, hap, rfl⟩
  refine ⟨a, ?_, hap, rfl⟩
  by_cases hp : chain.contains m p = true
  · have ha := hc.getElem? (hc.ancestor_mem (hc.contains_iff.1 hp) hap)
    have hlt := (List.getElem?_eq_some_iff.1 ha).1
    rw [if_pos hp, atHeight, if_neg (by omega)]
    exact ha
  · rw [if_neg hp]
    exact BlockMap.getAncestor_eq hm hskip hap

/-- What the loop leaves from the hash number `n` on, when the locator is for a block at `height`. -/
structure LocatorTail (m : BlockMap) (height n : Nat) (p : UInt256) (vHave : List UInt256) : Prop where
  head : vHave.head? = some p
  branch : ∀ a ∈ vHave, m.Ancestor a p
  decreasing : vHave.Pairwise fun a b => (m.entry b).nHeight < (m.entry a).nHeight
  genesis : ∃ g, vHave.getLast? = some g ∧ (m.entry g).nHeight = 0
  /-- The list ends once a depth reaches the height. -/
  length : ∀ N, height ≤ locatorDepth N → n + vHave.length ≤ max n N + 1
  /-- The first blocks are all there. -/
  dense : ∀ a, m.Ancestor a p → height ≤ (m.entry a).nHeight + 11 → a ∈ vHave

/-- **Run.**  Every pass pushes the block at the next depth; the step doubles, and is an int as long as a
step is taken. -/
theorem getLocatorLoop_spec (hm : m.WellFormed) (hskip : m.SkipList) (hc : Linked m chain) {height : Nat}
    (hheight : height < 2 ^ 31) (passes n : Nat) (p : UInt256) (hp : (m.lookup p).isSome)
    (hpasses : (m.entry p).nHeight < passes) (hdepth : (m.entry p).nHeight = height - locatorDepth n) :
    ∃ vHave, getLocatorLoop chain m passes (some p) (BitVec.ofNat 32 (locatorStep n)) n = .ok vHave ∧
      LocatorTail m height n p vHave := by
  induction passes generalizing n p with
  | zero => omega
  | succ passes ih =>
    rw [getLocatorLoop, BlockMap.entry_phashBlock hp]
    by_cases hzero : (m.entry p).nHeight = 0
    · rw [if_pos hzero]
      refine ⟨[p], rfl, rfl, ?_, List.pairwise_singleton _ _, ⟨p, rfl, hzero⟩, ?_, ?_⟩
      · intro a ha
        rw [List.mem_singleton.1 ha]
        exact BlockMap.Ancestor.refl m p
      · intro N _
        rw [List.length_singleton]
        omega
      · intro a ha _
        have hle := BlockMap.Ancestor.height_le hm ha
        rw [BlockMap.Ancestor.eq_of_height hm ha (by omega)]
        exact List.mem_singleton_self p
    rw [if_neg hzero]
    have hbelow : locatorDepth n < height := by omega
    rcases locatorStep_le hbelow hheight with ⟨hpos, hint⟩
    -- The difference is computed on ints; it is negative when the step leads below the first block.
    have hnext : max (BitVec.ofNat 32 (m.entry p).nHeight - BitVec.ofNat 32 (locatorStep n)).toInt 0 =
        ((m.entry p).nHeight - locatorStep n : Nat) := by
      have hsub := BlockMap.toInt_ofNat_sub (show (m.entry p).nHeight < 2 ^ 31 by omega)
        (show locatorStep n < 2 ^ 31 by omega)
      rw [hsub]
      omega
    rcases locatorNext_spec hm hskip hc (Nat.sub_le (m.entry p).nHeight (locatorStep n)) with
      ⟨q, hq, hqp, hqh⟩
    have hsucc := locatorDepth_succ n
    rcases ih (n + 1) q (hm.stored_of_ancestor hqp hp) (by omega) (by omega) with ⟨vHave, hrest, htail⟩
    have hlower : ∀ a ∈ vHave, (m.entry a).nHeight < (m.entry p).nHeight := by
      intro a ha
      have hle := BlockMap.Ancestor.height_le hm (htail.branch a ha)
      omega
    refine ⟨p :: vHave, ?_, rfl, ?_, List.pairwise_cons.2 ⟨hlower, htail.decreasing⟩, ?_, ?_, ?_⟩
    · rw [hnext]
      dsimp only
      rw [hq, ← locatorStep_succ, hrest]
      rfl
    · intro a ha
      rcases List.mem_cons.1 ha with rfl | ha
      · exact BlockMap.Ancestor.refl m a
      · exact (htail.branch a ha).trans hqp
    · rcases htail.genesis with ⟨g, hg, hgh⟩
      refine ⟨g, ?_, hgh⟩
      rw [List.getLast?_cons, hg]
      rfl
    · intro N hN
      have hlt : n < N := by
        by_contra hge
        have hmono : locatorDepth N ≤ locatorDepth n := locatorDepth_mono (Nat.le_of_not_lt hge)
        omega
      have hlen := htail.length N hN
      rw [List.length_cons]
      omega
    · intro a ha hnear
      have hle := BlockMap.Ancestor.height_le hm ha
      by_cases hsame : (m.entry a).nHeight = (m.entry p).nHeight
      · rw [BlockMap.Ancestor.eq_of_height hm ha hsame]
        exact List.mem_cons_self
      · -- The block is lower and not deeper than 11, so the step that is taken is one block long.
        have hlow : n ≤ 10 := by
          by_contra hhigh
          have hdeep : locatorDepth 11 ≤ locatorDepth n := locatorDepth_mono (by omega)
          have heleven : locatorDepth 11 = 11 := rfl
          omega
        rw [locatorStep_low hlow] at hqh
        exact List.mem_cons_of_mem p
          (htail.dense a (BlockMap.Ancestor.of_height_le hm ha hqp (by omega)) hnear)

/-- **`GetLocator`.**  The locator of a block starts with the block, goes down its branch to the first
block, has all of the twelve highest blocks of the branch and logarithmic length. -/
theorem getLocator_spec (hm : m.WellFormed) (hskip : m.SkipList) (hc : Linked m chain) {p : UInt256}
    (hp : (m.lookup p).isSome) (hheight : (m.entry p).nHeight < 2 ^ 31) :
    ∃ vHave, chain.getLocator m (some p) = .ok vHave ∧ LocatorTail m (m.entry p).nHeight 0 p vHave ∧
      vHave.length ≤ 12 + Nat.log2 ((m.entry p).nHeight + 2) := by
  rcases getLocatorLoop_spec hm hskip hc hheight ((m.entry p).nHeight + 1) 0 p hp (Nat.lt_succ_self _) rfl with
    ⟨vHave, hrun, htail⟩
  refine ⟨vHave, hrun, htail, ?_⟩
  have hlen := htail.length _ (locatorDepth_log (m.entry p).nHeight)
  omega

end CChain

end Dobbscoin
