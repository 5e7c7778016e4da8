import Dobbscoin.Chain.BlockMap
import Mathlib.Tactic

/-!
# The active chain

`CChain`: a vector of pointers by height.  `Linked` is its invariant; under it `SetTip` to the
parent of the tip drops the tip, and `SetTip` to a child of the tip appends it.
-/

namespace Dobbscoin

/-- `vChain`. -/
abbrev CChain := List UInt256

namespace CChain

variable {m : BlockMap} {chain : CChain}

def genesis (chain : CChain) : Option UInt256 :=
  chain.head?

def tip (chain : CChain) : Option UInt256 :=
  chain.getLast?

/-- `Contains`: the entry at the block's height is the block. -/
def contains (chain : CChain) (m : BlockMap) (pindex : UInt256) : Bool :=
  chain[(m.entry pindex).nHeight]? == some pindex

def next (chain : CChain) (m : BlockMap) (pindex : UInt256) : Option UInt256 :=
  if chain.contains m pindex then chain[(m.entry pindex).nHeight + 1]? else none

def height (chain : CChain) : Int :=
  chain.length - 1

/-- The loop of `SetTip`: walk back to the first entry that is already in place; `fresh` is what
has been written above it. -/
def setTipLoop (m : BlockMap) (vChain : CChain) : Nat → Option UInt256 → List UInt256 → CChain
  | 0, _, fresh => fresh
  | _ + 1, none, fresh => fresh
  | fuel + 1, some pindex, fresh =>
    if vChain[(m.entry pindex).nHeight]? = some pindex then
      vChain.take ((m.entry pindex).nHeight + 1) ++ fresh
    else setTipLoop m vChain fuel (m.entry pindex).pprev (pindex :: fresh)

def setTip (chain : CChain) (m : BlockMap) : Option UInt256 → CChain
  | none => []
  | some pindex =>
    setTipLoop m (chain.take ((m.entry pindex).nHeight + 1)) ((m.entry pindex).nHeight + 1)
      (some pindex) []

def findForkLoop (chain : CChain) (m : BlockMap) : Nat → Option UInt256 → Option UInt256
  | 0, _ => none
  | _ + 1, none => none
  | fuel + 1, some pindex =>
    if chain.contains m pindex then some pindex else findForkLoop chain m fuel (m.entry pindex).pprev

/-- `FindFork`: the last common block of the chain and the branch of `pindex`. -/
def findFork (chain : CChain) (m : BlockMap) (pindex : UInt256) : Option UInt256 :=
  let start :=
    if ((m.entry pindex).nHeight : Int) > chain.height then m.getAncestor pindex chain.height
    else some pindex
  findForkLoop chain m ((m.entry pindex).nHeight + 1) start

/-! ## The invariant -/

/-- Every entry is at its own height, on top of its parent. -/
structure Linked (m : BlockMap) (chain : CChain) : Prop where
  nHeight : ∀ i p, chain[i]? = some p → (m.entry p).nHeight = i
  root : ∀ p, chain[0]? = some p → (m.entry p).pprev = none
  pprev : ∀ i p, chain[i + 1]? = some p → (m.entry p).pprev = chain[i]?

/-- The invariant as a check of finitely many positions. -/
theorem linked_of_check
    (h : ∀ i < chain.length, (m.entry (chain.getD i 0)).nHeight = i ∧
      (m.entry (chain.getD i 0)).pprev = if i = 0 then none else chain[i - 1]?) : Linked m chain := by
  have hat : ∀ i p, chain[i]? = some p →
      (m.entry p).nHeight = i ∧ (m.entry p).pprev = if i = 0 then none else chain[i - 1]? := by
    intro i p hp
    have hlt : i < chain.length := (List.getElem?_eq_some_iff.1 hp).1
    have hgetD : chain.getD i 0 = p := by simp [List.getD_eq_getElem?_getD, hp]
    rw [← hgetD]
    exact h i hlt
  constructor
  · exact fun i p hp => (hat i p hp).1
  · exact fun p hp => by simpa using (hat 0 p hp).2
  · exact fun i p hp => by simpa using (hat (i + 1) p hp).2

theorem Linked.take (h : Linked m chain) (n : Nat) : Linked m (chain.take n) where
  nHeight := by
    intro i p hp
    rw [List.getElem?_take] at hp
    split_ifs at hp
    exact h.nHeight i p hp
  root := by
    intro p hp
    rw [List.getElem?_take] at hp
    split_ifs at hp
    exact h.root p hp
  pprev := by
    intro i p hp
    rw [List.getElem?_take] at hp
    split_ifs at hp with hlt
    rw [List.getElem?_take, if_pos (by omega)]
    exact h.pprev i p hp

theorem Linked.dropLast (h : Linked m chain) : Linked m chain.dropLast := by
  rw [List.dropLast_eq_take]
  exact h.take _

theorem Linked.sameTree {m' : BlockMap} (h : Linked m chain) (hm : m.SameTree m') : Linked m' chain where
  nHeight := by
    intro i p hp
    rw [hm.nHeight]
    exact h.nHeight i p hp
  root := by
    intro p hp
    rw [hm.pprev]
    exact h.root p hp
  pprev := by
    intro i p hp
    rw [hm.pprev]
    exact h.pprev i p hp

/-- A child of the tip sits one above it. -/
theorem Linked.height_child (h : Linked m chain) (hm : m.WellFormed) {p : UInt256}
    (hp : (m.entry p).pprev = chain.tip) : (m.entry p).nHeight = chain.length := by
  rcases List.eq_nil_or_concat chain with rfl | ⟨c', t, rfl⟩
  · exact hm.root p hp
  · have htip : (m.entry p).pprev = some t := by simpa [tip] using hp
    have ht : (m.entry t).nHeight = c'.length := h.nHeight c'.length t (by simp)
    rw [hm.height p t htip, ht]
    simp

theorem Linked.concat (h : Linked m chain) (hm : m.WellFormed) {p : UInt256}
    (hp : (m.entry p).pprev = chain.tip) : Linked m (chain ++ [p]) where
  nHeight := by
    intro i q hq
    rcases Nat.lt_or_ge i chain.length with hlt | hge
    · rw [List.getElem?_append_left hlt] at hq
      exact h.nHeight i q hq
    · rw [List.getElem?_append_right hge, List.getElem?_singleton] at hq
      split_ifs at hq with hi
      obtain rfl := Option.some.inj hq
      rw [h.height_child hm hp]
      omega
  root := by
    intro q hq
    cases chain with
    | nil =>
      obtain rfl : p = q := by simpa using hq
      simpa [tip] using hp
    | cons g chain => exact h.root q (by simpa using hq)
  pprev := by
    intro i q hq
    rcases Nat.lt_or_ge (i + 1) chain.length with hlt | hge
    · rw [List.getElem?_append_left hlt] at hq
      rw [List.getElem?_append_left (by omega)]
      exact h.pprev i q hq
    · rw [List.getElem?_append_right hge, List.getElem?_singleton] at hq
      split_ifs at hq with hi
      obtain rfl := Option.some.inj hq
      have hi' : i = chain.length - 1 := by omega
      rw [hp, List.getElem?_append_left (by omega), hi', tip, List.getLast?_eq_getElem?]

/-! ## SetTip -/

theorem setTip_parent (h : Linked m chain) {t : UInt256} (ht : chain.tip = some t) :
    chain.setTip m (m.entry t).pprev = chain.dropLast := by
  rcases List.eq_nil_or_concat chain with rfl | ⟨c', t', rfl⟩
  · simp [tip] at ht
  have heq : t' = t := by simpa [tip] using ht
  subst heq
  rcases List.eq_nil_or_concat c' with rfl | ⟨c'', q, rfl⟩
  · have hroot := h.root t' (by simp)
    simp [hroot, setTip]
  · have hprev : (m.entry t').pprev = some q := by
      have hp := h.pprev c''.length t' (by simp)
      simpa using hp
    have hq : (m.entry q).nHeight = c''.length := h.nHeight c''.length q (by simp)
    -- The parent is in place already, so the loop stops at once.
    simp [hprev, setTip, setTipLoop, hq, List.take_take, List.take_append]

theorem setTip_child (h : Linked m chain) (hm : m.WellFormed) {p : UInt256}
    (hp : (m.entry p).pprev = chain.tip) : chain.setTip m (some p) = chain ++ [p] := by
  have hheight := h.height_child hm hp
  rcases List.eq_nil_or_concat chain with rfl | ⟨c', t, rfl⟩
  · have hnone : (m.entry p).pprev = none := by simpa [tip] using hp
    simp [setTip, setTipLoop, hheight]
  · have htip : (m.entry p).pprev = some t := by simpa [tip] using hp
    have ht : (m.entry t).nHeight = c'.length := h.nHeight c'.length t (by simp)
    have hlen : (m.entry p).nHeight = c'.length + 1 := by simpa using hheight
    have htake : (c'.concat t).take ((m.entry p).nHeight + 1) = c' ++ [t] := by
      rw [List.take_of_length_le (by simp [hlen]), List.concat_eq_append]
    -- The new tip has no entry yet; its parent does.
    simp only [setTip, htake]
    simp [setTipLoop, hlen, htip, ht, List.take_append]

/-! ## Membership -/

theorem Linked.contains_iff (h : Linked m chain) {p : UInt256} : chain.contains m p = true ↔ p ∈ chain := by
  simp only [contains, beq_iff_eq]
  constructor
  · exact List.mem_of_getElem?
  · intro hp
    rcases List.mem_iff_getElem?.1 hp with ⟨i, hi⟩
    rwa [h.nHeight i p hi]

theorem Linked.getElem? (h : Linked m chain) {p : UInt256} (hp : p ∈ chain) :
    chain[(m.entry p).nHeight]? = some p := by
  have hc := h.contains_iff.2 hp
  simpa [contains] using hc

/-- The chain holds the ancestors of its blocks. -/
theorem Linked.ancestor_mem (h : Linked m chain) {a p : UInt256} (hp : p ∈ chain)
    (ha : m.Ancestor a p) : a ∈ chain := by
  induction ha using Relation.ReflTransGen.head_induction_on with
  | refl => exact hp
  | head hstep _ ih =>
    rcases List.mem_iff_getElem?.1 ih with ⟨i, hi⟩
    cases i with
    | zero =>
      have hroot := h.root _ hi
      simp [hroot] at hstep
    | succ i =>
      have hprev := h.pprev i _ hi
      rw [hstep] at hprev
      exact List.mem_of_getElem? hprev.symm

theorem findForkLoop_mem {fuel : Nat} {start : Option UInt256} {f : UInt256}
    (hf : findForkLoop chain m fuel start = some f) : chain.contains m f = true := by
  induction fuel generalizing start with
  | zero => simp [findForkLoop] at hf
  | succ fuel ih =>
    cases start with
    | none => simp [findForkLoop] at hf
    | some p =>
      rw [findForkLoop] at hf
      split_ifs at hf with hp
      · obtain rfl := Option.some.inj hf
        exact hp
      · exact ih hf

/-- The fork is on the chain. -/
theorem Linked.findFork_mem (h : Linked m chain) {p f : UInt256} (hf : chain.findFork m p = some f) :
    f ∈ chain :=
  h.contains_iff.1 (findForkLoop_mem hf)

/-- `FindFork` does not look at flags. -/
theorem findFork_sameTree {m' : BlockMap} (h : m.SameTree m') (chain : CChain) (p : UInt256) :
    chain.findFork m' p = chain.findFork m p := by
  have hloop : ∀ (fuel : Nat) (start : Option UInt256),
      findForkLoop chain m' fuel start = findForkLoop chain m fuel start := by
    intro fuel
    induction fuel with
    | zero => intro start; rfl
    | succ fuel ih =>
      intro start
      cases start with
      | none => rfl
      | some q =>
        have hcontains : chain.contains m' q = chain.contains m q := by
          simp only [contains, h.nHeight]
        rw [findForkLoop, findForkLoop, hcontains, h.pprev, ih]
  simp only [findFork, hloop, h.nHeight, h.getAncestor]

end CChain

end Dobbscoin
