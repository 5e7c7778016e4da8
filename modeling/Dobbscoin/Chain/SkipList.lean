import Dobbscoin.Chain.TreeShape

/-!
# Skip pointers

`BuildSkip` points every entry at its ancestor at height `GetSkipHeight`.  With all pointers in place
`GetAncestor` finds the ancestor at any height.
-/

namespace Dobbscoin

namespace BlockMap

variable {m m' : BlockMap}

theorem invertLowestOne_le (n : Nat) : invertLowestOne n ≤ n - 1 :=
  Nat.and_le_right

theorem getSkipHeight_lt {height : Nat} (h : 0 < height) : getSkipHeight height < height := by
  unfold getSkipHeight
  split_ifs with hsmall hodd
  · exact h
  · have hinner := invertLowestOne_le (height - 1)
    have houter := invertLowestOne_le (invertLowestOne (height - 1))
    omega
  · have hle := invertLowestOne_le height
    omega

/-- Every block but the roots has its skip pointer. -/
def SkipList (m : BlockMap) : Prop :=
  ∀ p q, (m.entry p).pprev = some q →
    ∃ a, (m.entry p).pskip = some a ∧ (m.entry a).nHeight = getSkipHeight (m.entry p).nHeight

/-- An ancestor that is lower than the block is an ancestor of its parent. -/
theorem Ancestor.below {a b : UInt256} (h : m.Ancestor a b)
    (hlt : (m.entry a).nHeight < (m.entry b).nHeight) :
    ∃ q, (m.entry b).pprev = some q ∧ m.Ancestor a q := by
  rcases Relation.ReflTransGen.cases_tail h with rfl | ⟨q, haq, hq⟩
  · exact absurd hlt (Nat.lt_irrefl _)
  · exact ⟨q, hq, haq⟩

/-- Of two ancestors the one that is not higher is below the other. -/
theorem Ancestor.of_height_le (hm : m.WellFormed) {a b p : UInt256} (ha : m.Ancestor a p)
    (hb : m.Ancestor b p) (hle : (m.entry a).nHeight ≤ (m.entry b).nHeight) : m.Ancestor a b := by
  rcases Ancestor.total ha hb with hab | hba
  · exact hab
  · have hge := Ancestor.height_le hm hba
    rw [Ancestor.eq_of_height hm hba (Nat.le_antisymm hge hle)]
    exact Ancestor.refl m a

/-- Every step of the walk stays on the way to the ancestor and does not pass it. -/
theorem getAncestorLoop_eq (hm : m.WellFormed) (hskip : m.SkipList) {a : UInt256} (fuel : Nat)
    (w : UInt256) (hfuel : (m.entry w).nHeight ≤ (m.entry a).nHeight + fuel) (haw : m.Ancestor a w) :
    getAncestorLoop m (m.entry a).nHeight fuel (some w) (m.entry w).nHeight = some a := by
  induction fuel generalizing w with
  | zero =>
    have hle := Ancestor.height_le hm haw
    rw [getAncestorLoop, Ancestor.eq_of_height hm haw (Nat.le_antisymm hle hfuel)]
  | succ fuel ih =>
    rw [getAncestorLoop]
    by_cases hdone : (m.entry w).nHeight ≤ (m.entry a).nHeight
    · have hle := Ancestor.height_le hm haw
      rw [if_pos hdone, Ancestor.eq_of_height hm haw (Nat.le_antisymm hle hdone)]
    rw [if_neg hdone]
    rcases Ancestor.below haw (Nat.lt_of_not_le hdone) with ⟨q, hq, haq⟩
    have hqh := hm.height w q hq
    rcases hskip w q hq with ⟨b, hb, hbh⟩
    simp only [Option.bind_some]
    split_ifs with hfollow
    · -- The skip pointer does not lead below the height that is asked for.
      have hlower : (m.entry b).nHeight < (m.entry w).nHeight := by
        rw [hbh]
        exact getSkipHeight_lt (by omega)
      have hab : m.Ancestor a b := Ancestor.of_height_le hm haw (hm.skip w b hb) (by omega)
      rw [hb, ← hbh]
      exact ih b (by omega) hab
    · have hheight : (m.entry w).nHeight - 1 = (m.entry q).nHeight := by omega
      rw [hq, hheight]
      exact ih q (by omega) haq

/-- **`GetAncestor` finds every ancestor.** -/
theorem getAncestor_eq (hm : m.WellFormed) (hskip : m.SkipList) {a b : UInt256}
    (h : m.Ancestor a b) : m.getAncestor b (m.entry a).nHeight = some a := by
  have hle := Ancestor.height_le hm h
  have hrange : ¬ ((m.entry a).nHeight > ((m.entry b).nHeight : Int) ∨
      ((m.entry a).nHeight : Int) < 0) := by
    omega
  rw [getAncestor, if_neg hrange]
  exact getAncestorLoop_eq hm hskip _ b (Nat.le_add_left _ _) h

theorem getAncestor_iff (hm : m.WellFormed) (hskip : m.SkipList) {a b : UInt256} :
    m.getAncestor b (m.entry a).nHeight = some a ↔ m.Ancestor a b :=
  ⟨hm.getAncestor_ancestor, getAncestor_eq hm hskip⟩

/-- A branch has a block at every height up to its own. -/
theorem WellFormed.exists_ancestor (hm : m.WellFormed) (p : UInt256) {n : Nat}
    (hn : n ≤ (m.entry p).nHeight) : ∃ a, m.Ancestor a p ∧ (m.entry a).nHeight = n := by
  induction hd : (m.entry p).nHeight - n generalizing p with
  | zero => exact ⟨p, Ancestor.refl m p, by omega⟩
  | succ d ih =>
    cases hprev : (m.entry p).pprev with
    | none =>
      have hroot := hm.root p hprev
      omega
    | some q =>
      have hqh := hm.height p q hprev
      rcases ih q (by omega) (by omega) with ⟨a, haq, ha⟩
      exact ⟨a, haq.trans (ancestor_pprev hprev), ha⟩

theorem SameShape.skipList (h : m.SameShape m') (hskip : m.SkipList) : m'.SkipList := by
  intro p q hq
  rw [h.pprev] at hq
  rcases hskip p q hq with ⟨a, ha, hah⟩
  exact ⟨a, by rw [h.pskip, ha], by rw [h.nHeight, h.nHeight, hah]⟩

/-- A new entry whose skip pointer is built from its parent. -/
theorem SkipList.cons {i : CBlockIndex} (hm : m.WellFormed) (hskip : m.SkipList)
    (hnew : m.lookup i.phashBlock = none)
    (hparent : ∀ q, i.pprev = some q → (m.lookup q).isSome ∧ i.nHeight = (m.entry q).nHeight + 1)
    (hbuild : i.pskip = i.pprev.bind fun q => m.getAncestor q (getSkipHeight i.nHeight)) :
    SkipList (i :: m) := by
  have hne : ∀ r, (m.lookup r).isSome → r ≠ i.phashBlock := by
    rintro r hr rfl
    simp [hnew] at hr
  intro p q hq
  by_cases heq : p = i.phashBlock
  · subst heq
    rw [entry_cons_self] at hq ⊢
    rcases hparent q hq with ⟨hstored, hheight⟩
    have hlow : getSkipHeight i.nHeight ≤ (m.entry q).nHeight := by
      have hlt : getSkipHeight i.nHeight < i.nHeight := getSkipHeight_lt (by omega)
      omega
    rcases hm.exists_ancestor q hlow with ⟨a, haq, ha⟩
    refine ⟨a, ?_, ?_⟩
    · rw [hbuild, hq, Option.bind_some, ← ha]
      exact getAncestor_eq hm hskip haq
    · rw [entry_cons_of_ne (hne a (hm.stored_of_ancestor haq hstored))]
      exact ha
  · rw [entry_cons_of_ne heq] at hq ⊢
    rcases hskip p q hq with ⟨a, ha, hah⟩
    have hp : (m.lookup p).isSome := lookup_of_pprev hq
    refine ⟨a, ha, ?_⟩
    rw [entry_cons_of_ne (hne a (hm.stored_of_ancestor (hm.skip p a ha) hp))]
    exact hah

end BlockMap

end Dobbscoin
