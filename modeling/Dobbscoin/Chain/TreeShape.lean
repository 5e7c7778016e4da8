import Dobbscoin.Chain.Chain

/-!
# The shape of the block tree

Updates of entries that leave the links, the heights and the work alone (`SameShape`), and the tree with
one entry more.
-/

namespace Dobbscoin

namespace BlockMap

variable {m m' : BlockMap}

/-- The two maps store the same blocks, with the same links, heights and work. -/
structure SameShape (m m' : BlockMap) : Prop where
  stored : ∀ p, (m'.lookup p).isSome = (m.lookup p).isSome
  pprev : ∀ p, (m'.entry p).pprev = (m.entry p).pprev
  pskip : ∀ p, (m'.entry p).pskip = (m.entry p).pskip
  nHeight : ∀ p, (m'.entry p).nHeight = (m.entry p).nHeight
  nChainWork : ∀ p, (m'.entry p).nChainWork = (m.entry p).nChainWork

theorem SameShape.refl (m : BlockMap) : m.SameShape m :=
  ⟨fun _ => rfl, fun _ => rfl, fun _ => rfl, fun _ => rfl, fun _ => rfl⟩

theorem SameShape.trans {m₁ m₂ m₃ : BlockMap} (h₁ : m₁.SameShape m₂) (h₂ : m₂.SameShape m₃) :
    m₁.SameShape m₃ :=
  ⟨fun p => (h₂.stored p).trans (h₁.stored p), fun p => (h₂.pprev p).trans (h₁.pprev p),
    fun p => (h₂.pskip p).trans (h₁.pskip p), fun p => (h₂.nHeight p).trans (h₁.nHeight p),
    fun p => (h₂.nChainWork p).trans (h₁.nChainWork p)⟩

theorem SameTree.sameShape (h : m.SameTree m') : m.SameShape m' where
  stored p := by simpa using congrArg Option.isSome (h p)
  pprev := h.pprev
  pskip := h.pskip
  nHeight := h.nHeight
  nChainWork p := by rw [h.entry p]

theorem SameShape.ancestor (h : m.SameShape m') {a b : UInt256} : m'.Ancestor a b ↔ m.Ancestor a b :=
  ancestor_congr h.pprev

theorem SameShape.wellFormed (h : m.SameShape m') (hm : m.WellFormed) : m'.WellFormed where
  root p hp := by
    rw [h.pprev] at hp
    rw [h.nHeight]
    exact hm.root p hp
  stored p q hq := by
    rw [h.pprev] at hq
    rw [h.stored]
    exact hm.stored p q hq
  height p q hq := by
    rw [h.pprev] at hq
    rw [h.nHeight, h.nHeight]
    exact hm.height p q hq
  skip p q hq := by
    rw [h.pskip] at hq
    exact h.ancestor.2 (hm.skip p q hq)

theorem SameShape.linked (h : m.SameShape m') {chain : CChain} (hc : CChain.Linked m chain) :
    CChain.Linked m' chain where
  nHeight i p hp := by
    rw [h.nHeight]
    exact hc.nHeight i p hp
  root p hp := by
    rw [h.pprev]
    exact hc.root p hp
  pprev i p hp := by
    rw [h.pprev]
    exact hc.pprev i p hp

/-- A block that is not stored has no parent. -/
theorem lookup_of_pprev {p q : UInt256} (h : (m.entry p).pprev = some q) : (m.lookup p).isSome := by
  cases hl : m.lookup p with
  | none => simp [entry, hl, CBlockIndex.null] at h
  | some i => rfl

theorem WellFormed.stored_of_ancestor (hm : m.WellFormed) {a b : UInt256} (h : m.Ancestor a b)
    (hb : (m.lookup b).isSome) : (m.lookup a).isSome := by
  rcases Relation.ReflTransGen.cases_head h with rfl | ⟨c, hac, -⟩
  · exact hb
  · exact hm.stored c a hac

theorem Ancestor.height_le (hm : m.WellFormed) {a b : UInt256} (h : m.Ancestor a b) :
    (m.entry a).nHeight ≤ (m.entry b).nHeight := by
  induction h with
  | refl => exact Nat.le_refl _
  | @tail b c hab hbc ih =>
    have hstep := hm.height c b hbc
    omega

/-- An ancestor at the same height is the block itself. -/
theorem Ancestor.eq_of_height (hm : m.WellFormed) {a b : UInt256} (h : m.Ancestor a b)
    (hh : (m.entry a).nHeight = (m.entry b).nHeight) : a = b := by
  rcases Relation.ReflTransGen.cases_tail h with rfl | ⟨c, hac, hcb⟩
  · rfl
  · have hle := Ancestor.height_le hm hac
    have hstep := hm.height b c hcb
    omega

/-- Two ancestors of one block are on one branch. -/
theorem Ancestor.total {a b p : UInt256} (ha : m.Ancestor a p) (hb : m.Ancestor b p) :
    m.Ancestor a b ∨ m.Ancestor b a := by
  induction ha with
  | refl => exact Or.inr hb
  | @tail c d hac hcd ih =>
    rcases Relation.ReflTransGen.cases_tail hb with rfl | ⟨e, hbe, hed⟩
    · exact Or.inl (Relation.ReflTransGen.tail hac hcd)
    · have hce : (m.entry d).pprev = some c := hcd
      have hee : (m.entry d).pprev = some e := hed
      rw [hce] at hee
      obtain rfl := Option.some.inj hee
      exact ih hbe

/-! ## One entry more -/

section Cons

variable {i : CBlockIndex}

theorem entry_cons_self : entry (i :: m) i.phashBlock = i := by
  simp [entry, lookup]

theorem lookup_cons_of_ne {p : UInt256} (hp : p ≠ i.phashBlock) :
    lookup (i :: m) p = m.lookup p := by
  have hbeq : (i.phashBlock == p) = false := by simpa using Ne.symm hp
  simp [lookup, hbeq]

theorem entry_cons_of_ne {p : UInt256} (hp : p ≠ i.phashBlock) : entry (i :: m) p = m.entry p := by
  simp [entry, lookup_cons_of_ne hp]

theorem isSome_lookup_cons {p : UInt256} (hp : (m.lookup p).isSome) :
    (lookup (i :: m) p).isSome := by
  by_cases heq : p = i.phashBlock
  · simp [heq, lookup]
  · rw [lookup_cons_of_ne heq]
    exact hp

/-- The branch of an old block is what it was. -/
theorem ancestor_cons (hm : m.WellFormed) (hnew : m.lookup i.phashBlock = none) {a b : UInt256}
    (hb : b ≠ i.phashBlock) : Ancestor (i :: m) a b ↔ m.Ancestor a b := by
  have hstored : ∀ p q, (m.entry p).pprev = some q → q ≠ i.phashBlock := by
    rintro p q hq rfl
    have hsome := hm.stored p _ hq
    simp [hnew] at hsome
  constructor
  · intro h
    induction h using Relation.ReflTransGen.head_induction_on with
    | refl => exact Ancestor.refl m b
    | @head a c hac hcb ih =>
      have hc : c ≠ i.phashBlock := by
        rcases Relation.ReflTransGen.cases_head ih with rfl | ⟨d, hcd, -⟩
        · exact hb
        · exact hstored d c hcd
      have hac' : (m.entry c).pprev = some a := by rw [← entry_cons_of_ne hc]; exact hac
      exact Relation.ReflTransGen.head hac' ih
  · intro h
    induction h using Relation.ReflTransGen.head_induction_on with
    | refl => exact Ancestor.refl _ b
    | @head a c hac hcb ih =>
      have hc : c ≠ i.phashBlock := by
        rcases Relation.ReflTransGen.cases_head hcb with rfl | ⟨d, hcd, -⟩
        · exact hb
        · exact hstored d c hcd
      have hac' : (entry (i :: m) c).pprev = some a := by rw [entry_cons_of_ne hc]; exact hac
      exact Relation.ReflTransGen.head hac' ih

theorem ancestor_cons_self (hm : m.WellFormed) (hnew : m.lookup i.phashBlock = none)
    (hstored : ∀ q, i.pprev = some q → (m.lookup q).isSome) {a : UInt256} :
    Ancestor (i :: m) a i.phashBlock ↔
      a = i.phashBlock ∨ ∃ q, i.pprev = some q ∧ m.Ancestor a q := by
  have hne : ∀ q, i.pprev = some q → q ≠ i.phashBlock := by
    rintro q hq rfl
    have hsome := hstored _ hq
    simp [hnew] at hsome
  constructor
  · intro h
    rcases Relation.ReflTransGen.cases_tail h with heq | ⟨q, haq, hq⟩
    · exact Or.inl heq.symm
    · have hq' : i.pprev = some q := by
        have hlink : (entry (i :: m) i.phashBlock).pprev = some q := hq
        rwa [entry_cons_self] at hlink
      exact Or.inr ⟨q, hq', (ancestor_cons hm hnew (hne q hq')).1 haq⟩
  · rintro (rfl | ⟨q, hq, haq⟩)
    · exact Ancestor.refl _ _
    · have hlink : (entry (i :: m) i.phashBlock).pprev = some q := by
        rw [entry_cons_self]
        exact hq
      exact ((ancestor_cons hm hnew (hne q hq)).2 haq).trans (ancestor_pprev hlink)

/-- An entry that is linked to a stored parent. -/
theorem WellFormed.cons (hm : m.WellFormed) (hnew : m.lookup i.phashBlock = none)
    (hroot : i.pprev = none → i.nHeight = 0)
    (hparent : ∀ q, i.pprev = some q → (m.lookup q).isSome ∧ i.nHeight = (m.entry q).nHeight + 1)
    (hskip : ∀ a, i.pskip = some a → ∃ q, i.pprev = some q ∧ m.Ancestor a q) :
    WellFormed (i :: m) where
  root p hp := by
    by_cases heq : p = i.phashBlock
    · subst heq
      rw [entry_cons_self] at hp ⊢
      exact hroot hp
    · rw [entry_cons_of_ne heq] at hp ⊢
      exact hm.root p hp
  stored p q hq := by
    apply isSome_lookup_cons
    by_cases heq : p = i.phashBlock
    · subst heq
      rw [entry_cons_self] at hq
      exact (hparent q hq).1
    · rw [entry_cons_of_ne heq] at hq
      exact hm.stored p q hq
  height p q hq := by
    have hne : ∀ r, (m.lookup r).isSome → r ≠ i.phashBlock := by
      rintro r hr rfl
      simp [hnew] at hr
    by_cases heq : p = i.phashBlock
    · subst heq
      rw [entry_cons_self] at hq ⊢
      rw [entry_cons_of_ne (hne q (hparent q hq).1)]
      exact (hparent q hq).2
    · rw [entry_cons_of_ne heq] at hq ⊢
      rw [entry_cons_of_ne (hne q (hm.stored p q hq))]
      exact hm.height p q hq
  skip p a ha := by
    by_cases heq : p = i.phashBlock
    · subst heq
      rw [entry_cons_self] at ha
      exact (ancestor_cons_self hm hnew fun q hq => (hparent q hq).1).2 (Or.inr (hskip a ha))
    · rw [entry_cons_of_ne heq] at ha
      exact (ancestor_cons hm hnew heq).2 (hm.skip p a ha)

end Cons

end BlockMap

end Dobbscoin
