import Dobbscoin.Chain.SkipList

/-!
# The walk over skip pointers

`GetSkipHeight`, `GetAncestor` and `BuildSkip` as they run: heights are 32-bit ints, and a null pointer
that is followed ends the run with an error.  `buildSkips_getAncestor` says that after `BuildSkip` in
height order the walk is the walk over parents.
-/

namespace Dobbscoin

/-- What a walk over block indexes can end with instead of a result: it has followed a null pointer, read a
vector outside its range, failed an assertion, or not ended in the passes it is given. -/
inductive WalkError
  | nullPointer
  | outOfRange
  | assertion
  | notEnded
  deriving DecidableEq

namespace BlockMap

variable {m m' : BlockMap}

namespace Walk

/-- `InvertLowestOne`, on an int. -/
def invertLowestOne (n : BitVec 32) : BitVec 32 :=
  n &&& (n - 1)

/-- `GetSkipHeight`, on an int. -/
def getSkipHeight (height : BitVec 32) : BitVec 32 :=
  if height.slt 2 then 0
  else if height &&& 1 ≠ 0 then invertLowestOne (invertLowestOne (height - 1)) + 1
  else invertLowestOne height

/-- A field of the entry a pointer refers to; the pointer must not be null. -/
def follow (m : BlockMap) (field : CBlockIndex → Option UInt256) :
    Option UInt256 → Except WalkError (Option UInt256)
  | none => .error .nullPointer
  | some p => .ok (field (m.entry p))

/-- The loop of `GetAncestor`, for a number of passes. -/
def getAncestorLoop (m : BlockMap) (height : BitVec 32) :
    Nat → Option UInt256 → BitVec 32 → Except WalkError (Option UInt256)
  | 0, _, _ => .error .notEnded
  | passes + 1, pindexWalk, heightWalk =>
    if height.slt heightWalk then
      let heightSkip := getSkipHeight heightWalk
      let heightSkipPrev := getSkipHeight (heightWalk - 1)
      if heightSkip = height ∨ height.slt heightSkip ∧
          ¬ (heightSkipPrev.slt (heightSkip - 2) ∧ height.sle heightSkipPrev) then do
        -- Only follow pskip if pprev->pskip isn't better than pskip->pprev.
        let next ← follow m CBlockIndex.pskip pindexWalk
        getAncestorLoop m height passes next heightSkip
      else do
        let next ← follow m CBlockIndex.pprev pindexWalk
        getAncestorLoop m height passes next (heightWalk - 1)
    else .ok pindexWalk

/-- `GetAncestor`.  The loop is given one pass for each height it could stop at. -/
def getAncestor (m : BlockMap) (pindex : UInt256) (height : BitVec 32) :
    Except WalkError (Option UInt256) :=
  let nHeight := BitVec.ofNat 32 (m.entry pindex).nHeight
  if nHeight.slt height ∨ height.slt 0 then .ok none
  else getAncestorLoop m height ((m.entry pindex).nHeight + 1) (some pindex) nHeight

end Walk

/-- Assignment to the `pskip` of an entry. -/
def setSkip (m : BlockMap) (h : UInt256) (pskip : Option UInt256) : BlockMap :=
  m.map fun i => if i.phashBlock = h then { i with pskip := pskip } else i

/-- `BuildSkip`. -/
def buildSkip (m : BlockMap) (pindex : UInt256) : Except WalkError BlockMap :=
  match (m.entry pindex).pprev with
  | none => .ok m
  | some pprev => do
    let pskip ← Walk.getAncestor m pprev (Walk.getSkipHeight (BitVec.ofNat 32 (m.entry pindex).nHeight))
    return m.setSkip pindex pskip

/-- `BuildSkip` on one block after the other. -/
def buildSkips (m : BlockMap) (order : List UInt256) : Except WalkError BlockMap :=
  order.foldlM buildSkip m

/-- `n` parent steps. -/
def parentSteps (m : BlockMap) : Nat → UInt256 → Option UInt256
  | 0, p => some p
  | n + 1, p => (m.entry p).pprev.bind (m.parentSteps n)

/-! ## Ints that are heights -/

section Heights

variable {a b n : Nat}

theorem toInt_ofNat (hn : n < 2 ^ 31) : (BitVec.ofNat 32 n).toInt = n := by
  rw [BitVec.toInt_eq_toNat_cond, BitVec.toNat_ofNat, Nat.mod_eq_of_lt (by omega), if_pos (by omega)]

theorem toInt_ofNat_sub (ha : a < 2 ^ 31) (hb : b < 2 ^ 31) :
    (BitVec.ofNat 32 a - BitVec.ofNat 32 b).toInt = (a : Int) - b := by
  rw [BitVec.toInt_sub, toInt_ofNat ha, toInt_ofNat hb, Int.bmod_eq_of_le (by omega) (by omega)]

theorem slt_ofNat (ha : a < 2 ^ 31) (hb : b < 2 ^ 31) :
    (BitVec.ofNat 32 a).slt (BitVec.ofNat 32 b) = decide (a < b) := by
  simp only [BitVec.slt, toInt_ofNat ha, toInt_ofNat hb, Nat.cast_lt]

theorem ofNat_sub_one (hn : 0 < n) : BitVec.ofNat 32 n - 1 = BitVec.ofNat 32 (n - 1) := by
  have hcast : BitVec.ofNat 32 n = BitVec.ofNat 32 (n - 1) + 1 := by
    rw [show (1 : BitVec 32) = BitVec.ofNat 32 1 from rfl, ← BitVec.ofNat_add, Nat.sub_add_cancel hn]
  rw [hcast, BitVec.add_sub_cancel]

theorem walk_invertLowestOne (hn : 0 < n) :
    Walk.invertLowestOne (BitVec.ofNat 32 n) = BitVec.ofNat 32 (invertLowestOne n) := by
  rw [Walk.invertLowestOne, ofNat_sub_one hn, invertLowestOne, BitVec.ofNat_and]

theorem odd_ofNat : (BitVec.ofNat 32 n &&& 1 ≠ 0) ↔ n % 2 = 1 := by
  have hbit : (BitVec.ofNat 32 n &&& 1).toNat = n % 2 := by
    rw [show (1 : BitVec 32) = BitVec.ofNat 32 1 from rfl, ← BitVec.ofNat_and, BitVec.toNat_ofNat,
      Nat.and_one_is_mod]
    omega
  rw [ne_eq, ← BitVec.toNat_inj, hbit]
  change ¬ n % 2 = 0 ↔ _
  omega

/-- The skip height of a height, as an int. -/
theorem walk_getSkipHeight (hn : n < 2 ^ 31) :
    Walk.getSkipHeight (BitVec.ofNat 32 n) = BitVec.ofNat 32 (getSkipHeight n) := by
  have hsmall : (BitVec.ofNat 32 n).slt 2 = decide (n < 2) := slt_ofNat hn (by decide)
  unfold Walk.getSkipHeight getSkipHeight
  rw [hsmall]
  by_cases htwo : n < 2
  · rw [if_pos (decide_eq_true htwo), if_pos htwo]
    rfl
  rw [if_neg (by simpa using htwo), if_neg htwo]
  by_cases hodd : n % 2 = 1
  · -- An odd height is at least 3, so there is a bit left after the lowest one.
    have hpos : 0 < invertLowestOne (n - 1) ∨ invertLowestOne (n - 1) = 0 := Nat.eq_zero_or_pos _ |>.symm
    rw [if_pos ((odd_ofNat).2 hodd), if_pos hodd, ofNat_sub_one (by omega),
      walk_invertLowestOne (by omega), BitVec.ofNat_add]
    rcases hpos with hpos | hzero
    · rw [walk_invertLowestOne hpos]
      rfl
    · rw [hzero]
      rfl
  · rw [if_neg (mt (odd_ofNat).1 hodd), if_neg hodd, walk_invertLowestOne (by omega)]

end Heights

/-! ## The loop -/

/-- The skip pointer of a block with a parent leads to its ancestor at the skip height. -/
def Built (m : BlockMap) (p : UInt256) : Prop :=
  ∀ q, (m.entry p).pprev = some q →
    ∃ a, (m.entry p).pskip = some a ∧ m.Ancestor a p ∧
      (m.entry a).nHeight = getSkipHeight (m.entry p).nHeight

theorem SkipList.built (hskip : m.SkipList) (hm : m.WellFormed) (p : UInt256) : m.Built p := by
  intro q hq
  rcases hskip p q hq with ⟨a, ha, hah⟩
  exact ⟨a, ha, hm.skip p a ha, hah⟩

/-- The skip pointer does not lead past an ancestor that is at most at the skip height. -/
theorem Built.toward (hm : m.WellFormed) {a w : UInt256} (hbuilt : m.Built w) (haw : m.Ancestor a w)
    (hlt : (m.entry a).nHeight < (m.entry w).nHeight)
    (hle : (m.entry a).nHeight ≤ getSkipHeight (m.entry w).nHeight) :
    ∃ b, (m.entry w).pskip = some b ∧ m.Ancestor b w ∧ m.Ancestor a b ∧
      (m.entry b).nHeight = getSkipHeight (m.entry w).nHeight := by
  rcases Ancestor.below haw hlt with ⟨q, hq, -⟩
  rcases hbuilt q hq with ⟨b, hb, hbw, hbh⟩
  exact ⟨b, hb, hbw, Ancestor.of_height_le hm haw hbw (by omega), hbh⟩

/-- On a branch whose skip pointers are built the walk ends at the ancestor: every pass follows a
pointer that is not null, to a lower block that is still above or at the ancestor. -/
theorem walkLoop_eq (hm : m.WellFormed) {a : UInt256} (passes : Nat) (w : UInt256)
    (hbuilt : ∀ b, m.Ancestor b w → m.Built b) (hbound : (m.entry w).nHeight < 2 ^ 31)
    (hpasses : (m.entry w).nHeight < (m.entry a).nHeight + passes) (haw : m.Ancestor a w) :
    Walk.getAncestorLoop m (BitVec.ofNat 32 (m.entry a).nHeight) passes (some w)
      (BitVec.ofNat 32 (m.entry w).nHeight) = .ok (some a) := by
  have hle := Ancestor.height_le hm haw
  induction passes generalizing w with
  | zero => exact absurd hle (by omega)
  | succ passes ih =>
    have hslt : (BitVec.ofNat 32 (m.entry a).nHeight).slt (BitVec.ofNat 32 (m.entry w).nHeight) =
        decide ((m.entry a).nHeight < (m.entry w).nHeight) := slt_ofNat (by omega) hbound
    rw [Walk.getAncestorLoop, hslt]
    by_cases hlt : (m.entry a).nHeight < (m.entry w).nHeight
    case neg =>
      have hsame : (m.entry a).nHeight = (m.entry w).nHeight := by omega
      rw [if_neg (by simpa using hlt), Ancestor.eq_of_height hm haw hsame]
    have hlower : getSkipHeight (m.entry w).nHeight < (m.entry w).nHeight :=
      getSkipHeight_lt (by omega)
    rw [if_pos (decide_eq_true hlt), walk_getSkipHeight hbound]
    dsimp only
    split_ifs with hfollow
    · -- The skip height is the height that is asked for, or above it.
      have hskip : (m.entry a).nHeight ≤ getSkipHeight (m.entry w).nHeight := by
        rcases hfollow with heq | ⟨habove, -⟩
        · have hnat := congrArg BitVec.toNat heq
          rw [BitVec.toNat_ofNat, BitVec.toNat_ofNat, Nat.mod_eq_of_lt (by omega),
            Nat.mod_eq_of_lt (by omega)] at hnat
          exact Nat.le_of_eq hnat.symm
        · rw [slt_ofNat (by omega) (by omega)] at habove
          exact Nat.le_of_lt (of_decide_eq_true habove)
      rcases (hbuilt w (Ancestor.refl m w)).toward hm haw hlt hskip with ⟨b, hb, hbw, hab, hbh⟩
      calc
        _ = Walk.getAncestorLoop m (BitVec.ofNat 32 (m.entry a).nHeight) passes (some b)
              (BitVec.ofNat 32 (m.entry b).nHeight) := by rw [Walk.follow, hb, hbh]; rfl
        _ = .ok (some a) :=
              ih b (fun c hc => hbuilt c (hc.trans hbw)) (by omega) (by omega) hab
                (Ancestor.height_le hm hab)
    · rcases Ancestor.below haw hlt with ⟨q, hq, haq⟩
      have hqh : (m.entry w).nHeight = (m.entry q).nHeight + 1 := hm.height w q hq
      have hprev : (m.entry w).nHeight - 1 = (m.entry q).nHeight := by omega
      calc
        _ = Walk.getAncestorLoop m (BitVec.ofNat 32 (m.entry a).nHeight) passes (some q)
              (BitVec.ofNat 32 (m.entry q).nHeight) := by
            rw [Walk.follow, hq, ofNat_sub_one (by omega), hprev]; rfl
        _ = .ok (some a) :=
              ih q (fun c hc => hbuilt c (hc.trans (ancestor_pprev hq))) (by omega) (by omega) haq
                (Ancestor.height_le hm haq)

/-- **`GetAncestor` inside its range.** -/
theorem walk_getAncestor (hm : m.WellFormed) {a b : UInt256}
    (hbuilt : ∀ c, m.Ancestor c b → m.Built c) (hbound : (m.entry b).nHeight < 2 ^ 31)
    (hab : m.Ancestor a b) :
    Walk.getAncestor m b (BitVec.ofNat 32 (m.entry a).nHeight) = .ok (some a) := by
  have hle := Ancestor.height_le hm hab
  have hbelow : (BitVec.ofNat 32 (m.entry b).nHeight).slt (BitVec.ofNat 32 (m.entry a).nHeight) = false := by
    rw [slt_ofNat hbound (by omega)]
    exact decide_eq_false (by omega)
  have hnonneg : (BitVec.ofNat 32 (m.entry a).nHeight).slt 0 = false :=
    slt_ofNat (a := (m.entry a).nHeight) (b := 0) (by omega) (by decide)
  unfold Walk.getAncestor
  dsimp only
  rw [if_neg (not_or.2 ⟨ne_true_of_eq_false hbelow, ne_true_of_eq_false hnonneg⟩)]
  exact walkLoop_eq hm _ b hbuilt hbound (by omega) hab

/-- **`GetAncestor` outside its range.** -/
theorem walk_getAncestor_none {b : UInt256} {height : BitVec 32} (hbound : (m.entry b).nHeight < 2 ^ 31)
    (hout : height.toInt < 0 ∨ (m.entry b).nHeight < height.toInt) :
    Walk.getAncestor m b height = .ok none := by
  have hint : (BitVec.ofNat 32 (m.entry b).nHeight).toInt = (m.entry b).nHeight := toInt_ofNat hbound
  unfold Walk.getAncestor
  dsimp only
  rw [if_pos]
  rcases hout with hneg | habove
  · exact Or.inr (by simpa [BitVec.slt] using hneg)
  · exact Or.inl (by simpa [BitVec.slt, hint] using habove)

/-! ## Building the pointers -/

/-- The hash of a stored block is what it is filed under. -/
theorem entry_phashBlock {p : UInt256} (hp : (m.lookup p).isSome) :
    (m.entry p).phashBlock = p := by
  rcases Option.isSome_iff_exists.1 hp with ⟨i, hi⟩
  rw [entry_of_lookup hi]
  exact (lookup_mem hi).2

/-- The two maps hold the same blocks, with the same parents and heights. -/
structure SameLinks (m m' : BlockMap) : Prop where
  stored : ∀ p, (m'.lookup p).isSome = (m.lookup p).isSome
  pprev : ∀ p, (m'.entry p).pprev = (m.entry p).pprev
  nHeight : ∀ p, (m'.entry p).nHeight = (m.entry p).nHeight

theorem SameLinks.refl (m : BlockMap) : m.SameLinks m :=
  ⟨fun _ => rfl, fun _ => rfl, fun _ => rfl⟩

theorem SameLinks.trans {m₁ m₂ m₃ : BlockMap} (h₁ : m₁.SameLinks m₂) (h₂ : m₂.SameLinks m₃) :
    m₁.SameLinks m₃ :=
  ⟨fun p => (h₂.stored p).trans (h₁.stored p), fun p => (h₂.pprev p).trans (h₁.pprev p),
    fun p => (h₂.nHeight p).trans (h₁.nHeight p)⟩

theorem SameLinks.ancestor (h : m.SameLinks m') {a b : UInt256} : m'.Ancestor a b ↔ m.Ancestor a b :=
  ancestor_congr h.pprev

theorem lookup_setSkip (m : BlockMap) (h p : UInt256) (pskip : Option UInt256) :
    (m.setSkip h pskip).lookup p =
      (m.lookup p).map fun i => if p = h then { i with pskip := pskip } else i :=
  lookup_map m h p fun _ => rfl

theorem entry_setSkip_ne {h p : UInt256} (hp : p ≠ h) (pskip : Option UInt256) :
    (m.setSkip h pskip).entry p = m.entry p := by
  simp [entry, lookup_setSkip, hp]

theorem entry_setSkip_self {h : UInt256} (hh : (m.lookup h).isSome) (pskip : Option UInt256) :
    (m.setSkip h pskip).entry h = { m.entry h with pskip := pskip } := by
  rcases Option.isSome_iff_exists.1 hh with ⟨i, hi⟩
  simp [entry, lookup_setSkip, hi]

theorem sameLinks_setSkip (m : BlockMap) (h : UInt256) (pskip : Option UInt256) :
    m.SameLinks (m.setSkip h pskip) := by
  have hentry : ∀ p, ∃ s, (m.setSkip h pskip).entry p = { m.entry p with pskip := s } := by
    intro p
    by_cases hp : p = h
    · cases hl : m.lookup p with
      | none => exact ⟨none, by simp [entry, lookup_setSkip, hl, CBlockIndex.null]⟩
      | some i => exact ⟨pskip, by rw [← hp]; exact entry_setSkip_self (by simp [hl]) pskip⟩
    · exact ⟨(m.entry p).pskip, entry_setSkip_ne hp pskip⟩
  refine ⟨fun p => by simp [lookup_setSkip], fun p => ?_, fun p => ?_⟩
  · rcases hentry p with ⟨s, hs⟩
    rw [hs]
  · rcases hentry p with ⟨s, hs⟩
    rw [hs]

/-- A skip pointer that leads to an ancestor keeps the tree well formed. -/
theorem WellFormed.setSkip (hm : m.WellFormed) {h a : UInt256} (ha : m.Ancestor a h) :
    (m.setSkip h (some a)).WellFormed := by
  have hlinks := sameLinks_setSkip m h (some a)
  constructor
  · intro p hp
    rw [hlinks.nHeight]
    exact hm.root p (by rwa [hlinks.pprev] at hp)
  · intro p q hq
    rw [hlinks.stored]
    exact hm.stored p q (by rwa [hlinks.pprev] at hq)
  · intro p q hq
    rw [hlinks.nHeight, hlinks.nHeight]
    exact hm.height p q (by rwa [hlinks.pprev] at hq)
  · intro p q hq
    rw [hlinks.ancestor]
    by_cases hp : p = h
    · cases hl : m.lookup p with
      | none => simp [entry, lookup_setSkip, hl, CBlockIndex.null] at hq
      | some i =>
        subst hp
        rw [entry_setSkip_self (by simp [hl])] at hq
        rw [← Option.some.inj hq]
        exact ha
    · rw [entry_setSkip_ne hp] at hq
      exact hm.skip p q hq

/-- The pointers of other blocks stay built. -/
theorem Built.setSkip {h p : UInt256} (hbuilt : m.Built p) (hp : p ≠ h) (pskip : Option UInt256) :
    (m.setSkip h pskip).Built p := by
  have hlinks := sameLinks_setSkip m h pskip
  intro q hq
  rw [hlinks.pprev] at hq
  rcases hbuilt q hq with ⟨a, ha, hap, hah⟩
  refine ⟨a, ?_, hlinks.ancestor.2 hap, ?_⟩
  · rw [entry_setSkip_ne hp]
    exact ha
  · rw [hlinks.nHeight, hlinks.nHeight]
    exact hah

/-- **Step.**  `BuildSkip` on a block whose branch below it is built. -/
theorem buildSkip_spec (hm : m.WellFormed) {p : UInt256} (hbound : (m.entry p).nHeight < 2 ^ 31)
    (hbelow : ∀ b, m.Ancestor b p → b ≠ p → m.Built b) :
    ∃ m', m.buildSkip p = .ok m' ∧ m'.WellFormed ∧ m.SameLinks m' ∧ m'.Built p ∧
      ((m.entry p).pprev = none → m' = m) ∧ ∀ b, b ≠ p → m.Built b → m'.Built b := by
  cases hprev : (m.entry p).pprev with
  | none =>
    refine ⟨m, by simp [buildSkip, hprev], hm, SameLinks.refl m, ?_, fun _ => rfl, fun _ _ hb => hb⟩
    intro q hq
    simp [hprev] at hq
  | some q =>
    have hheight := hm.height p q hprev
    have hlow : getSkipHeight (m.entry p).nHeight ≤ (m.entry q).nHeight := by
      have hlt : getSkipHeight (m.entry p).nHeight < (m.entry p).nHeight := getSkipHeight_lt (by omega)
      omega
    rcases hm.exists_ancestor q hlow with ⟨a, haq, ha⟩
    have hap : m.Ancestor a p := haq.trans (ancestor_pprev hprev)
    have hwalk : Walk.getAncestor m q (Walk.getSkipHeight (BitVec.ofNat 32 (m.entry p).nHeight)) =
        .ok (some a) := by
      rw [walk_getSkipHeight hbound, ← ha]
      refine walk_getAncestor hm (fun c hc => hbelow c (hc.trans (ancestor_pprev hprev)) ?_) (by omega) haq
      rintro rfl
      have hle := Ancestor.height_le hm hc
      omega
    have hlinks := sameLinks_setSkip m p (some a)
    refine ⟨m.setSkip p (some a), ?_, hm.setSkip hap, hlinks, ?_, fun h => by simp at h,
      fun b hb hbuilt => hbuilt.setSkip hb _⟩
    · simp only [buildSkip, hprev, hwalk]
      rfl
    · intro q' _
      refine ⟨a, ?_, hlinks.ancestor.2 hap, ?_⟩
      · rw [entry_setSkip_self (lookup_of_pprev hprev)]
      · rw [hlinks.nHeight, hlinks.nHeight]
        exact ha

/-- The order of the calls: no block before a lower one, and no block without its parent. -/
structure HeightOrder (m : BlockMap) (order : List UInt256) : Prop where
  sorted : order.Pairwise fun p q => (m.entry p).nHeight ≤ (m.entry q).nHeight
  closed : ∀ p ∈ order, ∀ q, (m.entry p).pprev = some q → q ∈ order

/-- The branch below a block comes before it. -/
theorem HeightOrder.below (hm : m.WellFormed) {done rest : List UInt256} {p : UInt256}
    (horder : m.HeightOrder (done ++ p :: rest)) {b : UInt256} (hb : m.Ancestor b p) (hne : b ≠ p) :
    b ∈ done := by
  have hmem : b ∈ done ++ p :: rest := by
    have hclosed : ∀ c, m.Ancestor c p → c ∈ done ++ p :: rest := by
      intro c hc
      induction hc using Relation.ReflTransGen.head_induction_on with
      | refl => exact List.mem_append_right _ List.mem_cons_self
      | head hstep _ ih => exact horder.closed _ ih _ hstep
    exact hclosed b hb
  have hlt : (m.entry b).nHeight < (m.entry p).nHeight := by
    have hle := Ancestor.height_le hm hb
    have hheight : (m.entry b).nHeight ≠ (m.entry p).nHeight :=
      fun heq => hne (Ancestor.eq_of_height hm hb heq)
    omega
  rcases List.mem_append.1 hmem with hdone | hrest
  · exact hdone
  · -- From `p` on nothing is lower than `p`.
    have hsorted := (List.pairwise_append.1 horder.sorted).2.1
    rcases List.mem_cons.1 hrest with rfl | htail
    · exact absurd rfl hne
    · exact absurd (List.rel_of_pairwise_cons hsorted htail) (by omega)

/-- **Run.**  After the calls every pointer is built. -/
theorem buildSkips_spec (hm : m.WellFormed) (done rest : List UInt256)
    (horder : m.HeightOrder (done ++ rest)) (hbound : ∀ p ∈ rest, (m.entry p).nHeight < 2 ^ 31)
    (hdone : ∀ p ∈ done, m.Built p) :
    ∃ m', m.buildSkips rest = .ok m' ∧ m'.WellFormed ∧ m.SameLinks m' ∧ ∀ p ∈ done ++ rest, m'.Built p := by
  induction rest generalizing m done with
  | nil => exact ⟨m, rfl, hm, SameLinks.refl m, by simpa using hdone⟩
  | cons p rest ih =>
    rcases buildSkip_spec hm (hbound p List.mem_cons_self)
      (fun b hb hne => hdone b (horder.below hm hb hne)) with ⟨m₁, hstep, hm₁, hlinks, hp, -, hkeep⟩
    have hbuilt : ∀ b ∈ done ++ [p], m₁.Built b := by
      intro b hb
      by_cases hbp : b = p
      · exact hbp ▸ hp
      · have hmem : b ∈ done := by simpa [hbp] using hb
        exact hkeep b hbp (hdone b hmem)
    have horder₁ : m₁.HeightOrder ((done ++ [p]) ++ rest) := by
      rw [List.append_assoc]
      refine ⟨horder.sorted.imp fun hle => ?_, fun b hb q hq => ?_⟩
      · rw [hlinks.nHeight, hlinks.nHeight]
        exact hle
      · exact horder.closed b hb q (by rwa [hlinks.pprev] at hq)
    have hbound₁ : ∀ b ∈ rest, (m₁.entry b).nHeight < 2 ^ 31 := by
      intro b hb
      rw [hlinks.nHeight]
      exact hbound b (List.mem_cons_of_mem p hb)
    rcases ih hm₁ (done ++ [p]) horder₁ hbound₁ hbuilt with ⟨m', hrest, hm', hlinks', hall⟩
    refine ⟨m', ?_, hm', hlinks.trans hlinks', by simpa using hall⟩
    calc
      m.buildSkips (p :: rest) = (m.buildSkip p >>= fun m₁ => m₁.buildSkips rest) := rfl
      _ = .ok m' := by rw [hstep]; exact hrest

/-- An ancestor is as many parent steps away as it is lower. -/
theorem parentSteps_ancestor (hm : m.WellFormed) {a : UInt256} (n : Nat) {p : UInt256}
    (hap : m.Ancestor a p) (hn : (m.entry p).nHeight = (m.entry a).nHeight + n) :
    m.parentSteps n p = some a := by
  induction n generalizing p with
  | zero => rw [parentSteps, Ancestor.eq_of_height hm hap hn.symm]
  | succ n ih =>
    rcases Ancestor.below hap (by omega) with ⟨q, hq, haq⟩
    have hqh := hm.height p q hq
    rw [parentSteps, hq, Option.bind_some]
    exact ih haq (by omega)

/-- **The skip list agrees with walking parents.**  After `BuildSkip` in height order `GetAncestor`
follows no null pointer, and finds the block as many parent steps back as it is lower; every block with a
parent has its skip pointer. -/
theorem buildSkips_getAncestor (hm : m.WellFormed) {order : List UInt256} (horder : m.HeightOrder order)
    (hbound : ∀ p ∈ order, (m.entry p).nHeight < 2 ^ 31) :
    ∃ m', m.buildSkips order = .ok m' ∧ m.SameLinks m' ∧ ∀ p ∈ order,
      (∀ height : BitVec 32, 0 ≤ height.toInt → height.toInt ≤ (m.entry p).nHeight →
        ∃ a, Walk.getAncestor m' p height = .ok (some a) ∧
          m.parentSteps ((m.entry p).nHeight - height.toInt.toNat) p = some a) ∧
      (∀ height : BitVec 32, height.toInt < 0 ∨ (m.entry p).nHeight < height.toInt →
        Walk.getAncestor m' p height = .ok none) ∧
      ∀ q, (m.entry p).pprev = some q → ∃ a, (m'.entry p).pskip = some a ∧
        m.parentSteps ((m.entry p).nHeight -
          (Walk.getSkipHeight (BitVec.ofNat 32 (m.entry p).nHeight)).toInt.toNat) p = some a ∧
        (Walk.getSkipHeight (BitVec.ofNat 32 (m.entry p).nHeight)).toInt = (m.entry a).nHeight ∧
        (m.entry a).nHeight < (m.entry p).nHeight := by
  rcases buildSkips_spec hm [] order horder hbound (by simp) with ⟨m', hrun, hm', hlinks, hbuilt⟩
  have hbranch : ∀ p ∈ order, ∀ b, m'.Ancestor b p → m'.Built b := by
    intro p hp b hb
    rw [hlinks.ancestor] at hb
    refine hbuilt b ?_
    induction hb using Relation.ReflTransGen.head_induction_on with
    | refl => exact hp
    | head hstep _ ih => exact horder.closed _ ih _ hstep
  refine ⟨m', hrun, hlinks, fun p hp => ⟨fun height hlow hhigh => ?_, fun height hout => ?_, fun q hq => ?_⟩⟩
  · rcases hm.exists_ancestor p (n := height.toInt.toNat) (by omega) with ⟨a, hap, ha⟩
    have hheight : BitVec.ofNat 32 (m'.entry a).nHeight = height := by
      rw [hlinks.nHeight, ha, ← BitVec.ofInt_natCast, Int.toNat_of_nonneg hlow, BitVec.ofInt_toInt]
    refine ⟨a, ?_, parentSteps_ancestor hm _ hap (by omega)⟩
    rw [← hheight]
    exact walk_getAncestor hm' (hbranch p hp) (by rw [hlinks.nHeight]; exact hbound p hp)
      (hlinks.ancestor.2 hap)
  · have hbound' : (m'.entry p).nHeight < 2 ^ 31 := by
      rw [hlinks.nHeight]
      exact hbound p hp
    exact walk_getAncestor_none hbound' (by rwa [hlinks.nHeight])
  · rcases hbuilt p hp q (by rwa [hlinks.pprev]) with ⟨a, hskip, hap, ha⟩
    rw [hlinks.ancestor] at hap
    rw [hlinks.nHeight, hlinks.nHeight] at ha
    have hheight := hm.height p q hq
    have hlt : getSkipHeight (m.entry p).nHeight < (m.entry p).nHeight := getSkipHeight_lt (by omega)
    have hlong := hbound p hp
    have hint : (Walk.getSkipHeight (BitVec.ofNat 32 (m.entry p).nHeight)).toInt = (m.entry a).nHeight := by
      rw [walk_getSkipHeight hlong, toInt_ofNat (by omega), ha]
    refine ⟨a, hskip, ?_, hint, by omega⟩
    rw [hint]
    exact parentSteps_ancestor hm _ hap (by omega)

/-! ## A small tree -/

/-- A chain of four blocks and a fork on top of its third one. -/
def skipTree : BlockMap :=
  [(1, none, 0), (2, some 1, 1), (3, some 2, 2), (4, some 3, 3), (5, some 3, 3)].map
    fun (hash, pprev, nHeight) =>
      { CBlockIndex.null with phashBlock := hash, pprev := pprev, nHeight := nHeight }

theorem skipTree_wellFormed : skipTree.WellFormed := by
  refine wellFormed_of_check (by decide) fun i hi q hq => ?_
  have hnull : ∀ i ∈ skipTree, i.pskip = none := by decide
  simp [hnull i hi] at hq

theorem skipTree_order : skipTree.HeightOrder [1, 2, 3, 4, 5] where
  sorted := by decide
  closed p hp q hq := by
    have hparents : ([1, 2, 3, 4, 5] : List UInt256).all (fun p =>
        (skipTree.entry p).pprev.all fun q => [1, 2, 3, 4, 5].contains q) = true := by decide
    have hparent := List.all_eq_true.1 hparents p hp
    rw [hq] at hparent
    exact List.contains_iff_mem.1 hparent

/-- The block at height 3 of the fork finds the first block by its skip pointers. -/
theorem skipTree_getAncestor : ∃ m', skipTree.buildSkips [1, 2, 3, 4, 5] = .ok m' ∧
    ∃ a, Walk.getAncestor m' 5 0 = .ok (some a) ∧ skipTree.parentSteps 3 5 = some a := by
  have hlow : ([1, 2, 3, 4, 5] : List UInt256).all (fun p =>
      decide ((skipTree.entry p).nHeight < 2 ^ 31)) = true := by decide
  rcases buildSkips_getAncestor skipTree_wellFormed skipTree_order
    (fun p hp => of_decide_eq_true (List.all_eq_true.1 hlow p hp)) with ⟨m', hrun, -, hall⟩
  exact ⟨m', hrun, (hall 5 (by decide)).1 0 (by decide) (by decide)⟩

/-- The first block has no ancestor below it, and no skip pointer. -/
theorem genesis_pskip : ¬ ∀ (m m' : BlockMap) (order : List UInt256), m.WellFormed → m.HeightOrder order →
    m.buildSkips order = .ok m' → ∀ p ∈ order, ∃ a, (m'.entry p).pskip = some a ∧
      (m'.entry a).nHeight < (m'.entry p).nHeight := by
  intro hall
  have hroot : (skipTree.entry 1).pprev = none := rfl
  have horder : skipTree.HeightOrder [1] := by
    refine ⟨List.pairwise_singleton _ _, fun p hp q hq => ?_⟩
    rw [List.mem_singleton.1 hp, hroot] at hq
    cases hq
  have hrun : skipTree.buildSkips [1] = .ok skipTree := rfl
  rcases hall skipTree skipTree [1] skipTree_wellFormed horder hrun 1 List.mem_cons_self with ⟨a, ha, -⟩
  have hnull : (skipTree.entry 1).pskip = none := rfl
  rw [hnull] at ha
  cases ha

end BlockMap

end Dobbscoin
