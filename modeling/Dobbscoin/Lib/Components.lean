import Mathlib.Data.List.Basic
import Mathlib.Logic.Relation

/-!
# Components — merging groups that overlap

Some groups of items are given one after another.  A new group is merged with all of the blocks that it meets; then the
blocks are the classes of the equivalence that the groups generate (`IsComponents.sameBlock_iff`).
-/

namespace Components

open Relation

variable {α ι : Type}

/-- Two items are in one group. -/
def Shares (groups : List (List α)) (a b : α) : Prop :=
  ∃ g ∈ groups, a ∈ g ∧ b ∈ g

theorem Shares.symm {groups : List (List α)} {a b : α} (h : Shares groups a b) : Shares groups b a := by
  rcases h with ⟨g, hg, ha, hb⟩
  exact ⟨g, hg, hb, ha⟩

theorem Shares.mono {groups groups' : List (List α)} (hsub : groups ⊆ groups') {a b : α} (h : Shares groups a b) :
    Shares groups' a b := by
  rcases h with ⟨g, hg, hab⟩
  exact ⟨g, hsub hg, hab⟩

theorem reflTransGen_mono {groups groups' : List (List α)} (hsub : groups ⊆ groups') {a b : α}
    (h : ReflTransGen (Shares groups) a b) : ReflTransGen (Shares groups') a b := by
  induction h with
  | refl => exact ReflTransGen.refl
  | tail _ hshares ih => exact ReflTransGen.tail ih (Shares.mono hsub hshares)

theorem reflTransGen_symm {groups : List (List α)} {a b : α} (h : ReflTransGen (Shares groups) a b) :
    ReflTransGen (Shares groups) b a := by
  induction h with
  | refl => exact ReflTransGen.refl
  | tail _ hshares ih => exact ReflTransGen.head hshares.symm ih

/-- The blocks, by their names, are the components of the groups. -/
structure IsComponents (groups : List (List α)) (ids : List ι) (block : ι → List α) : Prop where
  nonempty : ∀ i ∈ ids, block i ≠ []
  disjoint : ∀ i ∈ ids, ∀ j ∈ ids, i ≠ j → (block i).Disjoint (block j)
  cover : ∀ a, (∃ i ∈ ids, a ∈ block i) ↔ ∃ g ∈ groups, a ∈ g
  linked : ∀ i ∈ ids, ∀ a ∈ block i, ∀ b ∈ block i, ReflTransGen (Shares groups) a b
  closed : ∀ i ∈ ids, ∀ a ∈ block i, ∀ b, Shares groups a b → b ∈ block i

section

variable {groups : List (List α)} {ids : List ι} {block : ι → List α}

theorem isComponents_nil (block : ι → List α) : IsComponents [] [] block where
  nonempty := fun _ h => absurd h List.not_mem_nil
  disjoint := fun _ h => absurd h List.not_mem_nil
  cover := fun _ => ⟨fun ⟨_, h, _⟩ => absurd h List.not_mem_nil, fun ⟨_, h, _⟩ => absurd h List.not_mem_nil⟩
  linked := fun _ h => absurd h List.not_mem_nil
  closed := fun _ h => absurd h List.not_mem_nil

/-- Two items are in one block if and only if a chain of groups leads from one to the other. -/
theorem IsComponents.sameBlock_iff (h : IsComponents groups ids block) {a b : α} :
    (∃ i ∈ ids, a ∈ block i ∧ b ∈ block i) ↔ (∃ g ∈ groups, a ∈ g) ∧ ReflTransGen (Shares groups) a b := by
  constructor
  · rintro ⟨i, hi, ha, hb⟩
    exact ⟨(h.cover a).1 ⟨i, hi, ha⟩, h.linked i hi a ha b hb⟩
  · rintro ⟨hgroup, hchain⟩
    rcases (h.cover a).2 hgroup with ⟨i, hi, ha⟩
    refine ⟨i, hi, ha, ?_⟩
    -- By induction on the chain: no group leads out of a block.
    induction hchain with
    | refl => exact ha
    | tail _ hshares ih => exact h.closed i hi _ ih _ hshares

/-- Only which groups there are matters, not their order. -/
theorem IsComponents.congr (h : IsComponents groups ids block) {groups' : List (List α)}
    (hsame : ∀ g, g ∈ groups ↔ g ∈ groups') : IsComponents groups' ids block := by
  have hshares : Shares groups = Shares groups' := by
    funext a b
    exact propext ⟨Shares.mono fun g hg => (hsame g).1 hg, Shares.mono fun g hg => (hsame g).2 hg⟩
  refine ⟨h.nonempty, h.disjoint, fun a => (h.cover a).trans ?_, hshares ▸ h.linked, hshares ▸ h.closed⟩
  exact exists_congr fun g => and_congr_left fun _ => hsame g

end

/-! ## A new group -/

section Merge

variable {groups : List (List α)} {ids ids' : List ι} {block block' : ι → List α} {g : List α} {m : ι}

/-- The block of a new group, with all that it meets; the other blocks stay. -/
structure Merges (g : List α) (m : ι) (ids : List ι) (block : ι → List α) (ids' : List ι) (block' : ι → List α) :
    Prop where
  fresh : m ∉ ids
  mem_iff : ∀ i, i ∈ ids' ↔ i = m ∨ i ∈ ids ∧ (block i).Disjoint g
  same : ∀ i ∈ ids', i ≠ m → block' i = block i
  merged : ∀ a, a ∈ block' m ↔ a ∈ g ∨ ∃ i ∈ ids, ¬(block i).Disjoint g ∧ a ∈ block i

theorem Merges.cases (h : Merges g m ids block ids' block') {i : ι} (hi : i ∈ ids') :
    i = m ∨ i ≠ m ∧ i ∈ ids ∧ (block i).Disjoint g ∧ block' i = block i := by
  by_cases hm : i = m
  · exact Or.inl hm
  · rcases (h.mem_iff i).1 hi with heq | ⟨hold, hapart⟩
    · exact absurd heq hm
    · exact Or.inr ⟨hm, hold, hapart, h.same i hi hm⟩

/-- A block that stays is disjoint from the new one. -/
theorem Merges.disjoint (h : Merges g m ids block ids' block') (hold : IsComponents groups ids block) {i : ι}
    (hi : i ∈ ids) (hapart : (block i).Disjoint g) : (block i).Disjoint (block' m) := by
  intro a ha hmerged
  rcases (h.merged a).1 hmerged with hg | ⟨j, hj, hmeets, hj'⟩
  · exact hapart ha hg
  · have hne : i ≠ j := by
      rintro rfl
      exact hmeets hapart
    exact hold.disjoint i hi j hj hne ha hj'

/-- Every item of the new block is linked to one of the new group. -/
theorem Merges.linked_group (h : Merges g m ids block ids' block') (hold : IsComponents groups ids block) {a : α}
    (ha : a ∈ block' m) : ∃ c ∈ g, ReflTransGen (Shares (g :: groups)) a c := by
  rcases (h.merged a).1 ha with hg | ⟨i, hi, hmeets, ha'⟩
  · exact ⟨a, hg, ReflTransGen.refl⟩
  · obtain ⟨c, hc, hcg⟩ : ∃ c, c ∈ block i ∧ c ∈ g := by
      by_contra hnone
      exact hmeets fun c hc hcg => hnone ⟨c, hc, hcg⟩
    have hsub := List.subset_cons_self g groups
    exact ⟨c, hcg, reflTransGen_mono hsub (hold.linked i hi a ha' c hc)⟩

/-- **Step.** -/
theorem IsComponents.merge (hold : IsComponents groups ids block) (hg : g ≠ [])
    (h : Merges g m ids block ids' block') : IsComponents (g :: groups) ids' block' := by
  have hsub := List.subset_cons_self g groups
  refine ⟨fun i hi => ?_, fun i hi j hj hne => ?_, fun a => ⟨?_, ?_⟩, fun i hi a ha b hb => ?_,
    fun i hi a ha b hshares => ?_⟩
  · rcases h.cases hi with rfl | ⟨-, hi', -, hsame⟩
    · rcases List.exists_mem_of_ne_nil g hg with ⟨a, ha⟩
      exact List.ne_nil_of_mem ((h.merged a).2 (Or.inl ha))
    · rw [hsame]
      exact hold.nonempty i hi'
  · rcases h.cases hi with rfl | ⟨-, hi', hapart, hsame⟩ <;> rcases h.cases hj with rfl | ⟨-, hj', hapart', hsame'⟩
    · exact absurd rfl hne
    · rw [hsame']
      exact fun a ha ha' => h.disjoint hold hj' hapart' ha' ha
    · rw [hsame]
      exact h.disjoint hold hi' hapart
    · rw [hsame, hsame']
      exact hold.disjoint i hi' j hj' hne
  · rintro ⟨i, hi, ha⟩
    have hwide : (∃ j ∈ ids, a ∈ block j) → ∃ g' ∈ g :: groups, a ∈ g' := by
      intro hin
      rcases (hold.cover a).1 hin with ⟨g', hg', hag'⟩
      exact ⟨g', hsub hg', hag'⟩
    rcases h.cases hi with rfl | ⟨-, hi', -, hsame⟩
    · rcases (h.merged a).1 ha with hag | ⟨j, hj, -, haj⟩
      · exact ⟨g, List.mem_cons_self, hag⟩
      · exact hwide ⟨j, hj, haj⟩
    · exact hwide ⟨i, hi', hsame ▸ ha⟩
  · rintro ⟨g', hg', hag'⟩
    have hm : m ∈ ids' := (h.mem_iff m).2 (Or.inl rfl)
    rcases List.mem_cons.1 hg' with rfl | hg'
    · exact ⟨m, hm, (h.merged a).2 (Or.inl hag')⟩
    · rcases (hold.cover a).2 ⟨g', hg', hag'⟩ with ⟨i, hi, ha⟩
      by_cases hapart : (block i).Disjoint g
      · have hi' : i ∈ ids' := (h.mem_iff i).2 (Or.inr ⟨hi, hapart⟩)
        have hne : i ≠ m := by
          rintro rfl
          exact h.fresh hi
        exact ⟨i, hi', (h.same i hi' hne).symm ▸ ha⟩
      · exact ⟨m, hm, (h.merged a).2 (Or.inr ⟨i, hi, hapart, ha⟩)⟩
  · rcases h.cases hi with rfl | ⟨-, hi', -, hsame⟩
    · rcases h.linked_group hold ha with ⟨c, hc, hac⟩
      rcases h.linked_group hold hb with ⟨d, hd, hbd⟩
      have hcd : Shares (g :: groups) c d := ⟨g, List.mem_cons_self, hc, hd⟩
      exact ReflTransGen.trans (ReflTransGen.tail hac hcd) (reflTransGen_symm hbd)
    · rw [hsame] at ha hb
      exact reflTransGen_mono hsub (hold.linked i hi' a ha b hb)
  · rcases hshares with ⟨g', hg', hag', hbg'⟩
    rcases h.cases hi with rfl | ⟨-, hi', hapart, hsame⟩
    · rcases List.mem_cons.1 hg' with rfl | hg'
      · exact (h.merged b).2 (Or.inl hbg')
      · have hshares : Shares groups a b := ⟨g', hg', hag', hbg'⟩
        rcases (h.merged a).1 ha with hag | ⟨j, hj, hmeets, haj⟩
        · -- The item was in a block before, which the new group meets at the item.
          rcases (hold.cover a).2 ⟨g', hg', hag'⟩ with ⟨j, hj, haj⟩
          exact (h.merged b).2 (Or.inr ⟨j, hj, fun hapart => hapart haj hag, hold.closed j hj a haj b hshares⟩)
        · exact (h.merged b).2 (Or.inr ⟨j, hj, hmeets, hold.closed j hj a haj b hshares⟩)
    · rw [hsame] at ha ⊢
      rcases List.mem_cons.1 hg' with rfl | hg'
      · exact absurd hag' (hapart ha)
      · exact hold.closed i hi' a ha b ⟨g', hg', hag', hbg'⟩

end Merge

end Components
