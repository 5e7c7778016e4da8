import Dobbscoin.Chain.SkipWalk

/-!
# The active chain as a branch

`SetTip` as it runs, on a vector of pointers.  It stops at the first entry that is already in place, so it
relies on what a resize has left of the old chain; `setTips_spec` says that after every sequence of calls
the vector holds the ancestors of the tip by height.  For such a chain `Contains`, `Next` and `operator[]`
speak about ancestors, and `FindFork` finds the highest common ancestor.
-/

namespace Dobbscoin

/-- `vChain` as it is in memory: for each height a pointer, null where nothing has been written. -/
abbrev VChain := List (Option UInt256)

namespace VChain

variable {m : BlockMap} {v : VChain}

/-- `vChain.resize`. -/
def resize (v : VChain) (n : Nat) : VChain :=
  v.take n ++ List.replicate (n - v.length) none

/-- The loop of `SetTip`, for a number of passes. -/
def setTipLoop (m : BlockMap) : Nat → Option UInt256 → VChain → Except WalkError VChain
  | 0, _, _ => .error .notEnded
  | _ + 1, none, vChain => .ok vChain
  | passes + 1, some pindex, vChain =>
    match vChain[(m.entry pindex).nHeight]? with
    | none => .error .outOfRange
    | some slot =>
      if slot ≠ some pindex then
        setTipLoop m passes (m.entry pindex).pprev (vChain.set (m.entry pindex).nHeight (some pindex))
      else .ok vChain

/-- `SetTip`.  The loop is given one pass for each height and one to end with. -/
def setTip (m : BlockMap) (vChain : VChain) : Option UInt256 → Except WalkError VChain
  | none => .ok []
  | some pindex =>
    setTipLoop m ((m.entry pindex).nHeight + 2) (some pindex)
      (vChain.resize ((m.entry pindex).nHeight + 1))

/-- One `SetTip` after the other. -/
def setTips (m : BlockMap) (vChain : VChain) (tips : List (Option UInt256)) : Except WalkError VChain :=
  tips.foldlM (setTip m) vChain

/-! ## What the vector holds -/

/-- The branch of a block is in place. -/
def HasBranch (m : BlockMap) (v : VChain) (b : UInt256) : Prop :=
  ∀ c, m.Ancestor c b → v[(m.entry c).nHeight]? = some (some c)

/-- An entry is null, or it is at its own height with its branch below it. -/
def Sound (m : BlockMap) (v : VChain) (i : Nat) : Prop :=
  v[i]? = some none ∨ ∃ b, v[i]? = some (some b) ∧ (m.entry b).nHeight = i ∧ v.HasBranch m b

/-- The vector is the branch of the tip. -/
def OfTip (m : BlockMap) (v : VChain) : Option UInt256 → Prop
  | none => v = []
  | some t => v.length = (m.entry t).nHeight + 1 ∧ v.HasBranch m t

theorem OfTip.sound (hm : m.WellFormed) {tip : Option UInt256} (h : v.OfTip m tip) {i : Nat}
    (hi : i < v.length) : v.Sound m i := by
  cases tip with
  | none =>
    have hnil : v = [] := h
    subst hnil
    simp at hi
  | some t =>
    rcases hm.exists_ancestor t (n := i) (by have hlen := h.1; omega) with ⟨b, hbt, hb⟩
    exact Or.inr ⟨b, hb ▸ h.2 b hbt, hb, fun c hc => h.2 c (hc.trans hbt)⟩

theorem length_resize (v : VChain) (n : Nat) : (v.resize n).length = n := by
  simp only [resize, List.length_append, List.length_take, List.length_replicate]
  omega

theorem getElem?_resize_of_lt {n i : Nat} (hn : i < n) (hv : i < v.length) : (v.resize n)[i]? = v[i]? := by
  rw [resize, List.getElem?_append_left (by rw [List.length_take]; omega), List.getElem?_take, if_pos hn]

theorem getElem?_resize_of_ge {n i : Nat} (hn : i < n) (hv : v.length ≤ i) :
    (v.resize n)[i]? = some none := by
  have hlen : (v.take n).length = v.length := by
    rw [List.length_take]
    omega
  rw [resize, List.getElem?_append_right (by omega), List.getElem?_replicate, if_pos (by omega)]

/-- What a resize leaves of a branch is a branch; above it there is nothing. -/
theorem Sound.resize (hm : m.WellFormed) (hv : ∀ i < v.length, v.Sound m i) {n i : Nat} (hn : i < n) :
    (v.resize n).Sound m i := by
  rcases Nat.lt_or_ge i v.length with hlt | hge
  · rcases hv i hlt with hnull | ⟨b, hb, hbi, hbranch⟩
    · exact Or.inl (by rw [getElem?_resize_of_lt hn hlt]; exact hnull)
    · refine Or.inr ⟨b, by rw [getElem?_resize_of_lt hn hlt]; exact hb, hbi, fun c hc => ?_⟩
      have hle := BlockMap.Ancestor.height_le hm hc
      rw [getElem?_resize_of_lt (by omega) (by omega)]
      exact hbranch c hc
  · exact Or.inl (getElem?_resize_of_ge hn hge)

/-! ## SetTip -/

/-- **Step.**  The walk writes the branch of the tip from above; what it has not reached is sound.  It ends
where an entry is in place, and then the entries below are the rest of the branch. -/
theorem setTipLoop_spec (hm : m.WellFormed) {t : UInt256} (passes : Nat) (p : UInt256) (v : VChain)
    (hpasses : (m.entry p).nHeight + 2 ≤ passes) (hlen : v.length = (m.entry t).nHeight + 1)
    (hpt : m.Ancestor p t)
    (habove : ∀ a, m.Ancestor a t → (m.entry p).nHeight < (m.entry a).nHeight →
      v[(m.entry a).nHeight]? = some (some a))
    (hbelow : ∀ i ≤ (m.entry p).nHeight, v.Sound m i) :
    ∃ v', setTipLoop m passes (some p) v = .ok v' ∧ v'.OfTip m (some t) := by
  induction passes generalizing p v with
  | zero => omega
  | succ passes ih =>
    have hheight := BlockMap.Ancestor.height_le hm hpt
    have hin : (m.entry p).nHeight < v.length := by omega
    obtain ⟨slot, hslot⟩ : ∃ slot, v[(m.entry p).nHeight]? = some slot :=
      ⟨_, List.getElem?_eq_getElem hin⟩
    simp only [setTipLoop, hslot]
    by_cases hplace : slot = some p
    case pos =>
      subst hplace
      rw [if_neg (not_not.2 rfl)]
      refine ⟨v, rfl, hlen, fun a ha => ?_⟩
      rcases Nat.lt_or_ge (m.entry p).nHeight (m.entry a).nHeight with hhigh | hlow
      · exact habove a ha hhigh
      · -- The entry in place heads its branch, and `a` is on it.
        rcases hbelow _ (Nat.le_refl _) with hnull | ⟨b, hb, -, hbranch⟩
        · rw [hslot] at hnull
          cases hnull
        · rw [hslot] at hb
          rw [← Option.some.inj (Option.some.inj hb)] at hbranch
          exact hbranch a (BlockMap.Ancestor.of_height_le hm ha hpt hlow)
    rw [if_pos hplace]
    have hset : ∀ i, i ≠ (m.entry p).nHeight → (v.set (m.entry p).nHeight (some p))[i]? = v[i]? :=
      fun i hi => List.getElem?_set_ne (Ne.symm hi)
    have hwritten : ∀ a, m.Ancestor a t → (m.entry p).nHeight ≤ (m.entry a).nHeight →
        (v.set (m.entry p).nHeight (some p))[(m.entry a).nHeight]? = some (some a) := by
      intro a ha hle
      rcases Nat.eq_or_lt_of_le hle with heq | hlt
      · have hap : a = p := BlockMap.Ancestor.eq_of_height hm
          (BlockMap.Ancestor.of_height_le hm ha hpt (Nat.le_of_eq heq.symm)) heq.symm
        rw [hap, List.getElem?_set_self (by omega)]
      · rw [hset _ (by omega)]
        exact habove a ha hlt
    have hlen' : (v.set (m.entry p).nHeight (some p)).length = (m.entry t).nHeight + 1 := by
      rw [List.length_set]
      exact hlen
    cases hprev : (m.entry p).pprev with
    | none =>
      have hroot := hm.root p hprev
      rcases Nat.exists_eq_succ_of_ne_zero (show passes ≠ 0 by omega) with ⟨rest, rfl⟩
      exact ⟨_, rfl, hlen', fun a ha => hwritten a ha (by omega)⟩
    | some q =>
      have hqh := hm.height p q hprev
      refine ih q _ (by omega) hlen' ((BlockMap.ancestor_pprev hprev).trans hpt)
        (fun a ha hlt => hwritten a ha (by omega)) (fun i hi => ?_)
      rcases hbelow i (by omega) with hnull | ⟨b, hb, hbi, hbranch⟩
      · exact Or.inl (by rw [hset i (by omega)]; exact hnull)
      · refine Or.inr ⟨b, by rw [hset i (by omega)]; exact hb, hbi, fun c hc => ?_⟩
        have hle := BlockMap.Ancestor.height_le hm hc
        rw [hset _ (by omega)]
        exact hbranch c hc

theorem setTip_spec (hm : m.WellFormed) {old : Option UInt256} (hv : v.OfTip m old)
    (tip : Option UInt256) : ∃ v', v.setTip m tip = .ok v' ∧ v'.OfTip m tip := by
  cases tip with
  | none => exact ⟨[], rfl, rfl⟩
  | some t =>
    refine setTipLoop_spec hm _ t _ (Nat.le_refl _) (length_resize v _) (BlockMap.Ancestor.refl m t)
      (fun a ha hlt => ?_) (fun i hi => Sound.resize hm (fun i hi => hv.sound hm hi) (by omega))
    have hle := BlockMap.Ancestor.height_le hm ha
    omega

/-- **Run.**  After any sequence of calls the vector is the branch of the last tip. -/
theorem setTips_spec (hm : m.WellFormed) (tips : List (Option UInt256)) {old : Option UInt256}
    (hv : v.OfTip m old) : ∃ v', v.setTips m tips = .ok v' ∧ v'.OfTip m (tips.getLastD old) := by
  induction tips generalizing v old with
  | nil => exact ⟨v, rfl, hv⟩
  | cons tip tips ih =>
    rcases setTip_spec hm hv tip with ⟨v₁, hstep, hv₁⟩
    rcases ih hv₁ with ⟨v', hrest, hv'⟩
    refine ⟨v', ?_, ?_⟩
    · calc
        v.setTips m (tip :: tips) = (v.setTip m tip >>= fun v₁ => v₁.setTips m tips) := rfl
        _ = .ok v' := by rw [hstep]; exact hrest
    · cases tips with
      | nil => exact hv'
      | cons next rest => exact hv'

end VChain

namespace CChain

variable {m : BlockMap} {chain : CChain}

/-- `operator[]`. -/
def atHeight (chain : CChain) (nHeight : Int) : Option UInt256 :=
  if nHeight < 0 ∨ nHeight ≥ chain.length then none else chain[nHeight.toNat]?

/-- The chain lists the ancestors of `t` by height. -/
structure OfTip (m : BlockMap) (chain : CChain) (t : UInt256) : Prop where
  length : chain.length = (m.entry t).nHeight + 1
  getElem?_iff : ∀ i a, chain[i]? = some a ↔ m.Ancestor a t ∧ (m.entry a).nHeight = i

/-- The vector of a branch has no null pointer. -/
theorem exists_of_vector (hm : m.WellFormed) {v : VChain} {t : UInt256} (hv : v.OfTip m (some t)) :
    ∃ chain : CChain, v = chain.map some ∧ chain.OfTip m t := by
  have hbranch : ∀ i < v.length, ∃ a, v[i]? = some (some a) ∧ m.Ancestor a t ∧ (m.entry a).nHeight = i := by
    intro i hi
    rcases hm.exists_ancestor t (n := i) (by have hlen := hv.1; omega) with ⟨a, hat, ha⟩
    exact ⟨a, ha ▸ hv.2 a hat, hat, ha⟩
  have hsome : ∀ slot ∈ v, slot.isSome := by
    intro slot hslot
    rcases List.mem_iff_getElem?.1 hslot with ⟨i, hi⟩
    rcases hbranch i (List.getElem?_eq_some_iff.1 hi).1 with ⟨a, ha, -⟩
    rw [hi] at ha
    rw [Option.some.inj ha]
    rfl
  have hmap : (v.filterMap id).map some = v := by
    clear hv hbranch
    induction v with
    | nil => rfl
    | cons slot v ih =>
      rcases Option.isSome_iff_exists.1 (hsome slot List.mem_cons_self) with ⟨a, rfl⟩
      simpa using ih fun s hs => hsome s (List.mem_cons_of_mem _ hs)
  refine ⟨v.filterMap id, hmap.symm, ?_, fun i a => ?_⟩
  · rw [← List.length_map (f := some), hmap]
    exact hv.1
  · have hget : (v.filterMap id)[i]? = some a ↔ v[i]? = some (some a) := by
      conv_rhs => rw [← hmap, List.getElem?_map]
      cases (v.filterMap id)[i]? <;> simp
    rw [hget]
    constructor
    · intro ha
      rcases hbranch i (List.getElem?_eq_some_iff.1 ha).1 with ⟨b, hb, hbt, hbi⟩
      rw [ha] at hb
      rw [Option.some.inj (Option.some.inj hb)]
      exact ⟨hbt, hbi⟩
    · rintro ⟨hat, rfl⟩
      exact hv.2 a hat

namespace OfTip

variable {t : UInt256}

theorem mem_iff (h : chain.OfTip m t) {a : UInt256} : a ∈ chain ↔ m.Ancestor a t := by
  constructor
  · intro ha
    rcases List.mem_iff_getElem?.1 ha with ⟨i, hi⟩
    exact ((h.getElem?_iff i a).1 hi).1
  · intro ha
    exact List.mem_of_getElem? ((h.getElem?_iff _ a).2 ⟨ha, rfl⟩)

theorem linked (h : chain.OfTip m t) (hm : m.WellFormed) : Linked m chain where
  nHeight i p hp := ((h.getElem?_iff i p).1 hp).2
  root p hp := by
    have hzero := ((h.getElem?_iff 0 p).1 hp).2
    cases hprev : (m.entry p).pprev with
    | none => rfl
    | some q =>
      have hq := hm.height p q hprev
      omega
  pprev i p hp := by
    rcases (h.getElem?_iff (i + 1) p).1 hp with ⟨hpt, hi⟩
    cases hprev : (m.entry p).pprev with
    | none =>
      have hroot := hm.root p hprev
      omega
    | some q =>
      have hq := hm.height p q hprev
      exact ((h.getElem?_iff i q).2 ⟨(BlockMap.ancestor_pprev hprev).trans hpt, by omega⟩).symm

theorem atHeight_iff (h : chain.OfTip m t) {nHeight : Int} {a : UInt256} :
    chain.atHeight nHeight = some a ↔ m.Ancestor a t ∧ ((m.entry a).nHeight : Int) = nHeight := by
  unfold atHeight
  by_cases hout : nHeight < 0 ∨ nHeight ≥ chain.length
  · rw [if_pos hout]
    constructor
    · intro ha
      cases ha
    · rintro ⟨hat, rfl⟩
      have hlt := (List.getElem?_eq_some_iff.1 ((h.getElem?_iff _ a).2 ⟨hat, rfl⟩)).1
      omega
  · rw [if_neg hout, h.getElem?_iff]
    refine and_congr_right fun _ => ?_
    omega

theorem contains_iff (h : chain.OfTip m t) (hm : m.WellFormed) {p : UInt256} :
    chain.contains m p = true ↔ m.Ancestor p t :=
  (h.linked hm).contains_iff.trans h.mem_iff

theorem next_iff (h : chain.OfTip m t) (hm : m.WellFormed) {p q : UInt256} :
    chain.next m p = some q ↔ m.Ancestor q t ∧ (m.entry q).pprev = some p := by
  unfold next
  constructor
  · intro hq
    split_ifs at hq with hp
    have hpprev := (h.linked hm).pprev _ q hq
    rw [(h.linked hm).getElem? ((h.linked hm).contains_iff.1 hp)] at hpprev
    exact ⟨((h.getElem?_iff _ q).1 hq).1, hpprev⟩
  · rintro ⟨hqt, hprev⟩
    rw [if_pos ((h.contains_iff hm).2 ((BlockMap.ancestor_pprev hprev).trans hqt))]
    exact (h.getElem?_iff _ q).2 ⟨hqt, hm.height q p hprev⟩

end OfTip

/-! ## FindFork -/

/-- The walk down from a block finds its highest ancestor on the chain. -/
theorem findForkLoop_spec (hm : m.WellFormed) (hc : Linked m chain) (fuel : Nat) (w : UInt256)
    (hfuel : (m.entry w).nHeight < fuel) (hcommon : ∃ c, m.Ancestor c w ∧ c ∈ chain) :
    ∃ f, findForkLoop chain m fuel (some w) = some f ∧ m.Ancestor f w ∧ f ∈ chain ∧
      ∀ c, m.Ancestor c w → c ∈ chain → m.Ancestor c f := by
  induction fuel generalizing w with
  | zero => omega
  | succ fuel ih =>
    rw [findForkLoop]
    split_ifs with hw
    · exact ⟨w, rfl, BlockMap.Ancestor.refl m w, hc.contains_iff.1 hw, fun c hcw _ => hcw⟩
    have hout : w ∉ chain := mt hc.contains_iff.2 hw
    -- The common ancestor is not `w` itself, so it is an ancestor of the parent.
    have hparent : ∀ c, m.Ancestor c w → c ∈ chain → ∃ q, (m.entry w).pprev = some q ∧ m.Ancestor c q := by
      intro c hcw hmem
      rcases Relation.ReflTransGen.cases_tail hcw with rfl | ⟨q, hcq, hq⟩
      · exact absurd hmem hout
      · exact ⟨q, hq, hcq⟩
    rcases hcommon with ⟨c, hcw, hmem⟩
    rcases hparent c hcw hmem with ⟨q, hq, hcq⟩
    have hqh := hm.height w q hq
    rcases ih q (by omega) ⟨c, hcq, hmem⟩ with ⟨f, hf, hfq, hfc, hhigh⟩
    refine ⟨f, by rw [hq]; exact hf, hfq.trans (BlockMap.ancestor_pprev hq), hfc, fun d hdw hd => ?_⟩
    rcases hparent d hdw hd with ⟨q', hq', hdq⟩
    rw [hq] at hq'
    exact hhigh d (Option.some.inj hq' ▸ hdq) hd

/-- **`FindFork`** finds the highest ancestor on the chain. -/
theorem Linked.findFork_spec (hc : Linked m chain) (hm : m.WellFormed) (hskip : m.SkipList) {p : UInt256}
    (hcommon : ∃ c, m.Ancestor c p ∧ c ∈ chain) :
    ∃ f, chain.findFork m p = some f ∧ m.Ancestor f p ∧ f ∈ chain ∧
      ∀ c, m.Ancestor c p → c ∈ chain → m.Ancestor c f := by
  unfold findFork
  dsimp only
  split_ifs with habove
  · -- The walk starts at the ancestor at the height of the tip; what is on the chain is not above it.
    rcases hcommon with ⟨c, hcp, hcm⟩
    have hheight : ∀ d ∈ chain, (m.entry d).nHeight < chain.length := by
      intro d hd
      exact (List.getElem?_eq_some_iff.1 (hc.getElem? hd)).1
    have hpos := hheight c hcm
    rcases hm.exists_ancestor p (n := chain.length - 1)
      (by simp only [height] at habove; omega) with ⟨w, hwp, hw⟩
    have hstart : m.getAncestor p chain.height = some w := by
      have hint : chain.height = (m.entry w).nHeight := by
        simp only [height]
        omega
      rw [hint]
      exact BlockMap.getAncestor_eq hm hskip hwp
    have hdown : ∀ d, m.Ancestor d p → d ∈ chain → m.Ancestor d w := by
      intro d hdp hd
      have hlt := hheight d hd
      exact BlockMap.Ancestor.of_height_le hm hdp hwp (by omega)
    have hle := BlockMap.Ancestor.height_le hm hwp
    rw [hstart]
    rcases findForkLoop_spec hm hc ((m.entry p).nHeight + 1) w (by omega) ⟨c, hdown c hcp hcm, hcm⟩ with
      ⟨f, hf, hfw, hfc, hhigh⟩
    exact ⟨f, hf, hfw.trans hwp, hfc, fun d hdp hd => hhigh d (hdown d hdp hd) hd⟩
  · exact findForkLoop_spec hm hc _ p (Nat.lt_succ_self _) hcommon

end CChain

end Dobbscoin
