import Dobbscoin.Chain.BlockIndex

/-!
# The block map

`mapBlockIndex`, and the walks along `pprev` and `pskip`.  Updates that leave everything but
`nStatus` alone are related by `SameTree`; the ancestor relation only depends on what such updates
keep.
-/

namespace Dobbscoin

variable {m m' : BlockMap}

/-- `mapBlockIndex`: the entries, each filed under its `phashBlock`. -/
abbrev BlockMap := List CBlockIndex

namespace BlockMap

/-- `mapBlockIndex.find`. -/
def lookup (m : BlockMap) (h : UInt256) : Option CBlockIndex :=
  m.find? fun i => i.phashBlock == h

/-- The entry a pointer refers to. -/
def entry (m : BlockMap) (h : UInt256) : CBlockIndex :=
  (m.lookup h).getD CBlockIndex.null

/-- Assignment to the `nStatus` of an entry. -/
def setStatus (m : BlockMap) (h : UInt256) (f : BlockStatus → BlockStatus) : BlockMap :=
  m.map fun i => if i.phashBlock = h then { i with nStatus := f i.nStatus } else i

/-- `a` is `b` or one of its ancestors. -/
def Ancestor (m : BlockMap) (a b : UInt256) : Prop :=
  Relation.ReflTransGen (fun x y => (m.entry y).pprev = some x) a b

/-- The tree the entries form: a block is one higher than its parent, parents are stored, roots are
at height 0 and skip pointers lead to ancestors.  A pointer without an entry counts as a root. -/
structure WellFormed (m : BlockMap) : Prop where
  root : ∀ h, (m.entry h).pprev = none → (m.entry h).nHeight = 0
  stored : ∀ h p, (m.entry h).pprev = some p → (m.lookup p).isSome
  height : ∀ h p, (m.entry h).pprev = some p → (m.entry h).nHeight = (m.entry p).nHeight + 1
  skip : ∀ h q, (m.entry h).pskip = some q → m.Ancestor q h

/-! ## Lookup -/

theorem lookup_mem {m : BlockMap} {h : UInt256} {i : CBlockIndex} (hi : m.lookup h = some i) :
    i ∈ m ∧ i.phashBlock = h := by
  refine ⟨List.mem_of_find?_eq_some hi, ?_⟩
  simpa using List.find?_some hi

theorem entry_of_lookup {m : BlockMap} {h : UInt256} {i : CBlockIndex}
    (hi : m.lookup h = some i) : m.entry h = i := by
  simp [entry, hi]

/-- Assignment to one entry, which keeps its hash. -/
theorem lookup_map (m : BlockMap) (h p : UInt256) {f : CBlockIndex → CBlockIndex}
    (hf : ∀ i, (f i).phashBlock = i.phashBlock) :
    BlockMap.lookup (m.map fun i => if i.phashBlock = h then f i else i) p =
      (m.lookup p).map fun i => if p = h then f i else i := by
  induction m with
  | nil => rfl
  | cons i m ih =>
    have hkey : (if i.phashBlock = h then f i else i).phashBlock = i.phashBlock := by
      split_ifs
      · exact hf i
      · rfl
    simp only [lookup, List.map_cons, List.find?_cons, hkey] at ih ⊢
    by_cases hp : i.phashBlock = p
    · subst hp
      simp
    · have hbeq : (i.phashBlock == p) = false := by simpa using hp
      simp only [hbeq]
      exact ih

theorem lookup_setStatus (m : BlockMap) (h p : UInt256) (f : BlockStatus → BlockStatus) :
    (m.setStatus h f).lookup p =
      (m.lookup p).map fun i => if p = h then { i with nStatus := f i.nStatus } else i :=
  lookup_map m h p fun _ => rfl

/-- Outside the updated entry nothing changes. -/
theorem entry_setStatus_ne {m : BlockMap} {h p : UInt256} (hp : p ≠ h)
    (f : BlockStatus → BlockStatus) : (m.setStatus h f).entry p = m.entry p := by
  simp [entry, lookup_setStatus, hp]

theorem entry_setStatus_self {m : BlockMap} {h : UInt256} (hh : (m.lookup h).isSome)
    (f : BlockStatus → BlockStatus) :
    (m.setStatus h f).entry h = { m.entry h with nStatus := f (m.entry h).nStatus } := by
  rcases Option.isSome_iff_exists.1 hh with ⟨i, hi⟩
  simp [entry, lookup_setStatus, hi]

/-! ## Updates of the flags -/

/-- The two maps hold the same entries up to `nStatus`. -/
def SameTree (m m' : BlockMap) : Prop :=
  ∀ p, (m'.lookup p).map (fun i => { i with nStatus := BlockStatus.null }) =
    (m.lookup p).map fun i => { i with nStatus := BlockStatus.null }

theorem SameTree.refl (m : BlockMap) : m.SameTree m :=
  fun _ => rfl

theorem SameTree.trans {m₁ m₂ m₃ : BlockMap} (h₁ : m₁.SameTree m₂) (h₂ : m₂.SameTree m₃) :
    m₁.SameTree m₃ :=
  fun p => (h₂ p).trans (h₁ p)

theorem sameTree_setStatus (m : BlockMap) (h : UInt256) (f : BlockStatus → BlockStatus) :
    m.SameTree (m.setStatus h f) := by
  intro p
  rw [lookup_setStatus, Option.map_map]
  congr 1
  funext i
  by_cases hp : p = h <;> simp [hp]

/-- Everything but `nStatus` agrees. -/
theorem SameTree.entry (h : m.SameTree m') (p : UInt256) :
    m'.entry p = { m.entry p with nStatus := (m'.entry p).nStatus } := by
  have hp := h p
  cases hm : m.lookup p with
  | none =>
    have hm' : m'.lookup p = none := by simpa [hm] using hp
    simp [BlockMap.entry, hm, hm']
  | some i =>
    cases hm' : m'.lookup p with
    | none => simp [hm, hm'] at hp
    | some i' =>
      simp only [hm, hm', Option.map_some, Option.some.injEq] at hp
      rw [entry_of_lookup hm, entry_of_lookup hm']
      cases i
      cases i'
      simp_all

theorem SameTree.pprev (h : m.SameTree m') (p : UInt256) :
    (m'.entry p).pprev = (m.entry p).pprev := by
  rw [h.entry p]

theorem SameTree.pskip (h : m.SameTree m') (p : UInt256) :
    (m'.entry p).pskip = (m.entry p).pskip := by
  rw [h.entry p]

theorem SameTree.nHeight (h : m.SameTree m') (p : UInt256) :
    (m'.entry p).nHeight = (m.entry p).nHeight := by
  rw [h.entry p]

theorem ancestor_congr (h : ∀ p, (m'.entry p).pprev = (m.entry p).pprev) {a b : UInt256} :
    m'.Ancestor a b ↔ m.Ancestor a b := by
  simp only [Ancestor, h]

theorem SameTree.ancestor (h : m.SameTree m') {a b : UInt256} :
    m'.Ancestor a b ↔ m.Ancestor a b :=
  ancestor_congr h.pprev

/-! ## Walking back -/

theorem Ancestor.refl (m : BlockMap) (a : UInt256) : m.Ancestor a a :=
  Relation.ReflTransGen.refl

theorem Ancestor.trans {m : BlockMap} {a b c : UInt256} (hab : m.Ancestor a b)
    (hbc : m.Ancestor b c) : m.Ancestor a c :=
  Relation.ReflTransGen.trans hab hbc

theorem ancestor_pprev {m : BlockMap} {a b : UInt256} (h : (m.entry b).pprev = some a) :
    m.Ancestor a b :=
  Relation.ReflTransGen.single h

/-- The link of one entry to its parent. -/
def checkLink (m : BlockMap) (i : CBlockIndex) : Bool :=
  match i.pprev with
  | none => i.nHeight == 0
  | some p =>
    match m.lookup p with
    | none => false
    | some q => i.nHeight == q.nHeight + 1

/-- The links of the stored entries are all there is to check. -/
theorem wellFormed_of_check {m : BlockMap} (hcheck : m.all m.checkLink = true)
    (hskip : ∀ i ∈ m, ∀ q, i.pskip = some q → m.Ancestor q i.phashBlock) : m.WellFormed := by
  have hlink : ∀ i ∈ m, m.checkLink i = true := List.all_eq_true.1 hcheck
  have hentry : ∀ h, m.entry h = CBlockIndex.null ∨
      ∃ i ∈ m, m.entry h = i ∧ i.phashBlock = h := by
    intro h
    cases hl : m.lookup h with
    | none => simp [entry, hl]
    | some i => exact Or.inr ⟨i, (lookup_mem hl).1, entry_of_lookup hl, (lookup_mem hl).2⟩
  constructor
  · intro h hp
    rcases hentry h with hnull | ⟨i, hi, hih, -⟩
    · simp [hnull, CBlockIndex.null]
    · have hi' := hlink i hi
      rw [hih] at hp ⊢
      simpa [checkLink, hp] using hi'
  · intro h p hp
    rcases hentry h with hnull | ⟨i, hi, hih, -⟩
    · simp [hnull, CBlockIndex.null] at hp
    · have hi' := hlink i hi
      rw [hih] at hp
      cases hl : m.lookup p with
      | none => simp [checkLink, hp, hl] at hi'
      | some q => rfl
  · intro h p hp
    rcases hentry h with hnull | ⟨i, hi, hih, -⟩
    · simp [hnull, CBlockIndex.null] at hp
    · have hi' := hlink i hi
      rw [hih] at hp ⊢
      cases hl : m.lookup p with
      | none => simp [checkLink, hp, hl] at hi'
      | some q =>
        rw [entry_of_lookup hl]
        simpa [checkLink, hp, hl] using hi'
  · intro h q hq
    rcases hentry h with hnull | ⟨i, hi, hih, hkey⟩
    · simp [hnull, CBlockIndex.null] at hq
    · rw [hih] at hq
      rw [← hkey]
      exact hskip i hi q hq

theorem SameTree.wellFormed (h : m.SameTree m') (hm : m.WellFormed) :
    m'.WellFormed where
  root := by
    intro p hp
    rw [h.pprev] at hp
    rw [h.nHeight]
    exact hm.root p hp
  stored := by
    intro p q hq
    rw [h.pprev] at hq
    have hsome := congrArg Option.isSome (h q)
    simp only [Option.isSome_map] at hsome
    rw [hsome]
    exact hm.stored p q hq
  height := by
    intro p q hq
    rw [h.pprev] at hq
    rw [h.nHeight, h.nHeight]
    exact hm.height p q hq
  skip := by
    intro p q hq
    rw [h.pskip] at hq
    exact h.ancestor.2 (hm.skip p q hq)

/-- `InvertLowestOne`. -/
def invertLowestOne (n : Nat) : Nat :=
  n &&& (n - 1)

/-- `GetSkipHeight`: the height `pskip` points to. -/
def getSkipHeight (height : Nat) : Nat :=
  if height < 2 then 0
  else if height % 2 = 1 then invertLowestOne (invertLowestOne (height - 1)) + 1
  else invertLowestOne height

/-- The loop of `GetAncestor`; each pass lowers the height. -/
def getAncestorLoop (m : BlockMap) (height : Nat) :
    Nat → Option UInt256 → Nat → Option UInt256
  | 0, pindexWalk, _ => pindexWalk
  | fuel + 1, pindexWalk, heightWalk =>
    if heightWalk ≤ height then pindexWalk
    else
      let heightSkip := getSkipHeight heightWalk
      let heightSkipPrev := getSkipHeight (heightWalk - 1)
      if heightSkip = height ∨
          heightSkip > height ∧ ¬ (heightSkipPrev + 2 < heightSkip ∧ heightSkipPrev ≥ height) then
        -- Only follow pskip if pprev->pskip isn't better than pskip->pprev.
        getAncestorLoop m height fuel (pindexWalk.bind fun p => (m.entry p).pskip) heightSkip
      else
        getAncestorLoop m height fuel (pindexWalk.bind fun p => (m.entry p).pprev) (heightWalk - 1)

def getAncestor (m : BlockMap) (pindex : UInt256) (height : Int) : Option UInt256 :=
  if height > (m.entry pindex).nHeight ∨ height < 0 then none
  else getAncestorLoop m height.toNat (m.entry pindex).nHeight (some pindex)
    (m.entry pindex).nHeight

/-- Whatever `GetAncestor` returns is an ancestor. -/
theorem WellFormed.getAncestorLoop_ancestor {m : BlockMap} (hm : m.WellFormed) (height : Nat)
    (fuel : Nat) (walk : Option UInt256) (heightWalk : Nat) (b : UInt256)
    (hwalk : ∀ p ∈ walk, m.Ancestor p b) :
    ∀ a ∈ getAncestorLoop m height fuel walk heightWalk, m.Ancestor a b := by
  induction fuel generalizing walk heightWalk with
  | zero => exact hwalk
  | succ fuel ih =>
    have hstep : ∀ next : UInt256 → Option UInt256,
        (∀ p q, next p = some q → m.Ancestor q p) →
        ∀ q ∈ walk.bind next, m.Ancestor q b := by
      intro next hnext q hq
      rcases Option.bind_eq_some_iff.1 (Option.mem_def.1 hq) with ⟨p, hp, hpq⟩
      exact Ancestor.trans (hnext p q hpq) (hwalk p hp)
    simp only [getAncestorLoop]
    by_cases hdone : heightWalk ≤ height
    · simpa [hdone] using hwalk
    · simp only [hdone, if_false]
      split
      · exact ih _ _ (hstep _ fun p q => hm.skip p q)
      · exact ih _ _ (hstep _ fun p q => ancestor_pprev)

theorem WellFormed.getAncestor_ancestor {m : BlockMap} (hm : m.WellFormed) {b : UInt256}
    {height : Int} {a : UInt256} (ha : m.getAncestor b height = some a) : m.Ancestor a b := by
  unfold getAncestor at ha
  split_ifs at ha
  refine hm.getAncestorLoop_ancestor height.toNat _ (some b) _ b ?_ a ha
  intro p hp
  rw [← Option.some.inj hp]
  exact Ancestor.refl m b

/-- `GetAncestor` does not look at flags. -/
theorem SameTree.getAncestor (h : m.SameTree m') (b : UInt256) (height : Int) :
    m'.getAncestor b height = m.getAncestor b height := by
  have hloop : ∀ (n : Nat) (fuel : Nat) (walk : Option UInt256) (heightWalk : Nat),
      getAncestorLoop m' n fuel walk heightWalk = getAncestorLoop m n fuel walk heightWalk := by
    intro n fuel
    induction fuel with
    | zero => intro walk heightWalk; rfl
    | succ fuel ih =>
      intro walk heightWalk
      simp only [getAncestorLoop, ih, h.pskip, h.pprev]
  simp only [BlockMap.getAncestor, h.nHeight, hloop]

end BlockMap

end Dobbscoin
