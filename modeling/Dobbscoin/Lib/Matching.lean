import Mathlib.Data.List.Forall2

/-!
# Matching — items against keys

Two ways to match items with the keys that accept them: in the order of both, each item with the first key
left; and item by item, each with a key that has none yet.
-/

namespace Matching

variable {α β : Type}

/-! ## In order -/

/-- Every item finds a key behind the one of the item before. -/
def inOrder (check : α → β → Bool) : List α → List β → Bool
  | [], _ => true
  | _ :: _, [] => false
  | a :: as, b :: bs => if check a b then inOrder check as bs else inOrder check (a :: as) bs

variable {check : α → β → Bool}

/-- One item less is no harder. -/
theorem inOrder_tail {a : α} {as : List α} {bs : List β} (h : inOrder check (a :: as) bs = true) :
    inOrder check as bs = true := by
  induction bs generalizing a as with
  | nil => cases h
  | cons b bs ih =>
    -- In both cases some item in front goes, from the rest of the keys.
    have hrest : inOrder check as bs = true := by
      rw [inOrder] at h
      split_ifs at h
      · exact h
      · exact ih h
    cases as with
    | nil => rfl
    | cons a' as =>
      rw [inOrder]
      split_ifs
      · exact ih hrest
      · exact hrest

/-- An item with the first key that accepts it leaves the most keys to the others. -/
theorem inOrder_of_sublist {as : List α} {bs bs' : List β} (hsub : bs'.Sublist bs)
    (h : List.Forall₂ (fun a b => check a b = true) as bs') : inOrder check as bs = true := by
  induction hsub generalizing as with
  | slnil =>
    cases h
    rfl
  | @cons bs' bs b hsub ih =>
    cases h with
    | nil => rfl
    | @cons a b' as bs' hab hrest =>
      rw [inOrder]
      split_ifs
      · -- The key is used earlier than it has to be.
        have hlater := ih (List.Forall₂.cons hab hrest)
        exact inOrder_tail hlater
      · exact ih (List.Forall₂.cons hab hrest)
  | @cons_cons bs' bs b hsub ih =>
    cases h with
    | @cons a b' as bs' hab hrest =>
      rw [inOrder, if_pos hab]
      exact ih hrest

theorem inOrder_eq_false {a : α} {as : List α} {bs : List β} (h : ∀ b ∈ bs, check a b = false) :
    inOrder check (a :: as) bs = false := by
  induction bs with
  | nil => rfl
  | cons b bs ih =>
    rw [inOrder, h b List.mem_cons_self, if_neg Bool.false_ne_true]
    exact ih fun b' hb' => h b' (List.mem_cons_of_mem _ hb')

theorem inOrder_length {as : List α} {bs : List β} (h : inOrder check as bs = true) : as.length ≤ bs.length := by
  induction bs generalizing as with
  | nil =>
    cases as with
    | nil => exact Nat.le_refl 0
    | cons a as => cases h
  | cons b bs ih =>
    cases as with
    | nil => exact Nat.zero_le _
    | cons a as =>
      rw [inOrder] at h
      split_ifs at h
      · exact Nat.succ_le_succ (ih h)
      · exact Nat.le_succ_of_le (ih h)

/-! ## Item by item -/

/-- No item is accepted by two keys. -/
def AcceptedOnce (check : α → β → Bool) (keys : List β) : Prop :=
  ∀ a, ∀ b ∈ keys, ∀ b' ∈ keys, check a b = true → check a b' = true → b = b'

section

variable [BEq β]

/-- An item goes to the first key that has none yet and accepts it. -/
def assign (check : α → β → Bool) (keys : List β) (held : List (β × α)) (a : α) : List (β × α) :=
  match keys.find? fun b => (held.lookup b).isNone && check a b with
  | some b => (b, a) :: held
  | none => held

/-- What keys hold after the items have been assigned. -/
structure Assigned (check : α → β → Bool) (keys : List β) (items : List α) (held : List (β × α)) : Prop where
  accepted : ∀ b a, held.lookup b = some a → a ∈ items ∧ check a b = true
  complete : ∀ b ∈ keys, ∀ a ∈ items, check a b = true → (held.lookup b).isSome = true

variable [LawfulBEq β]

/-- Where no item is accepted by two keys, no key that could have an item is left without one. -/
theorem Assigned.assign {keys : List β} {items : List α} {held : List (β × α)} (h : Assigned check keys items held)
    (hunique : AcceptedOnce check keys) (a : α) :
    Assigned check keys (items ++ [a]) (Matching.assign check keys held a) := by
  have hold : ∀ b a', held.lookup b = some a' → a' ∈ items ++ [a] ∧ check a' b = true := fun b a' hb =>
    ⟨List.mem_append_left _ (h.accepted b a' hb).1, (h.accepted b a' hb).2⟩
  unfold Matching.assign
  cases hfind : keys.find? fun b => (held.lookup b).isNone && check a b with
  | none =>
    refine ⟨hold, fun b hb a' ha' hcheck => ?_⟩
    rcases List.mem_append.1 ha' with ha' | ha'
    · exact h.complete b hb a' ha' hcheck
    · obtain rfl := List.mem_singleton.1 ha'
      have hnot := List.find?_eq_none.1 hfind b hb
      rw [hcheck, Bool.and_true, Option.isNone_iff_eq_none] at hnot
      exact Option.isSome_iff_ne_none.2 hnot
  | some b₀ =>
    have hb₀ := List.find?_some hfind
    have hmem := List.mem_of_find?_eq_some hfind
    rw [Bool.and_eq_true, Option.isNone_iff_eq_none] at hb₀
    have hlookup : ∀ b, ((b₀, a) :: held).lookup b = if b == b₀ then some a else held.lookup b := by
      intro b
      rw [List.lookup_cons]
      cases b == b₀ <;> rfl
    refine ⟨fun b a' hb => ?_, fun b hb a' ha' hcheck => ?_⟩
    · rw [hlookup] at hb
      split_ifs at hb with heq
      · obtain rfl := Option.some.inj hb
        rw [eq_of_beq heq]
        exact ⟨List.mem_append_right _ List.mem_cons_self, hb₀.2⟩
      · exact hold b a' hb
    · rw [hlookup]
      split_ifs with heq
      · rfl
      · rcases List.mem_append.1 ha' with ha' | ha'
        · exact h.complete b hb a' ha' hcheck
        · obtain rfl := List.mem_singleton.1 ha'
          have hsame := hunique a' b hb b₀ hmem hcheck hb₀.2
          exact absurd (beq_iff_eq.2 hsame) heq

theorem assigned_foldl {keys : List β}
    (hunique : AcceptedOnce check keys) (items : List α) :
    Assigned check keys items (items.foldl (assign check keys) []) := by
  suffices hrun : ∀ rest done held, Assigned check keys done held →
      Assigned check keys (done ++ rest) (rest.foldl (assign check keys) held) from
    hrun items [] [] ⟨nofun, nofun⟩
  intro rest
  induction rest with
  | nil =>
    intro done held h
    rw [List.append_nil]
    exact h
  | cons a rest ih =>
    intro done held h
    have hnext := ih (done ++ [a]) _ (h.assign hunique a)
    rw [List.append_assoc, List.singleton_append] at hnext
    exact hnext

end

/-! ## First keys -/

/-- The keys that accept one of the items. -/
def covered (check : α → β → Bool) (keys : List β) (items : List α) : List β :=
  keys.filter fun b => items.any fun a => check a b

section

variable {keys : List β} {items items' more : List α} {n : Nat}

theorem mem_covered {b : β} : b ∈ covered check keys items ↔ b ∈ keys ∧ ∃ a ∈ items, check a b = true := by
  rw [covered, List.mem_filter, List.any_eq_true]

theorem covered_congr
    (h : ∀ b ∈ keys, (∃ a ∈ items, check a b = true) ↔ ∃ a ∈ items', check a b = true) :
    covered check keys items = covered check keys items' := by
  refine List.filter_congr fun b hb => ?_
  rw [Bool.eq_iff_iff, List.any_eq_true, List.any_eq_true]
  exact h b hb

theorem covered_of_mem_iff (h : ∀ a, a ∈ items ↔ a ∈ items') : covered check keys items = covered check keys items' :=
  covered_congr fun b _ => exists_congr fun a => by rw [h a]

/-- What all of the first ones have does not change which ones are first. -/
theorem take_filter_of_forall {bs : List β} {p : β → Bool} (h : ∀ b ∈ bs.take n, p b = true) :
    (bs.filter p).take n = bs.take n := by
  have hfilter : (bs.take n).filter p = bs.take n := List.filter_eq_self.2 h
  have hsplit : bs.filter p = bs.take n ++ (bs.drop n).filter p := by
    rw [← hfilter, ← List.filter_append, List.take_append_drop]
  rw [hsplit]
  by_cases hlen : n ≤ bs.length
  · exact List.take_left' (List.length_take_of_le hlen)
  · have hshort := Nat.le_of_not_le hlen
    rw [List.drop_eq_nil_of_le hshort, List.filter_nil, List.append_nil, List.take_take, Nat.min_self]

/-- For each of the first `n` keys that accept an item, one that it accepts. -/
def Placed [Inhabited α] (check : α → β → Bool) (keys : List β) (items : List α) (n : Nat) (placed : List α) : Prop :=
  ∃ f : β → α, placed = ((covered check keys items).take n).map f ∧
    ∀ b ∈ (covered check keys items).take n, f b ∈ items ∧ check (f b) b = true

namespace Placed

variable [Inhabited α] {placed : List α} (h : Placed check keys items n placed)
include h

theorem congr (hsub : ∀ a ∈ items, a ∈ items') (hcovered : covered check keys items = covered check keys items') :
    Placed check keys items' n placed := by
  rcases h with ⟨f, rfl, hf⟩
  rw [hcovered] at hf ⊢
  exact ⟨f, rfl, fun b hb => ⟨hsub _ (hf b hb).1, (hf b hb).2⟩⟩

theorem length : placed.length = min n (covered check keys items).length := by
  rcases h with ⟨f, rfl, -⟩
  rw [List.length_map, List.length_take]

theorem sound : ∀ a ∈ placed, a ∈ items ∧ ∃ b ∈ keys, check a b = true := by
  rcases h with ⟨f, rfl, hf⟩
  intro a ha
  rcases List.mem_map.1 ha with ⟨b, hb, rfl⟩
  exact ⟨(hf b hb).1, b, (mem_covered.1 (List.mem_of_mem_take hb)).1, (hf b hb).2⟩

theorem forall₂ : List.Forall₂ (fun a b => a ∈ items ∧ check a b = true) placed ((covered check keys items).take n) := by
  rcases h with ⟨f, rfl, hf⟩
  rw [List.forall₂_map_left_iff, List.forall₂_same]
  exact hf

/-- With an item for each of `n` keys, the items are in the order of the keys. -/
theorem inOrder_reverse : inOrder check placed.reverse keys.reverse = true := by
  have hrel := h.forall₂.imp fun _ _ hab => hab.2
  have hsub : ((covered check keys items).take n).Sublist keys :=
    (List.take_sublist _ _).trans List.filter_sublist
  exact inOrder_of_sublist hsub.reverse (List.forall₂_reverse_iff.2 hrel)

variable (hunique : AcceptedOnce check keys)
include hunique

/-- The items placed are accepted by the keys that they are placed for, and by no other ones. -/
theorem covers {b : β} (hb : b ∈ keys) :
    (∃ a ∈ placed, check a b = true) ↔ b ∈ (covered check keys items).take n := by
  rcases h with ⟨f, rfl, hf⟩
  constructor
  · rintro ⟨a, ha, hab⟩
    rcases List.mem_map.1 ha with ⟨b', hb', rfl⟩
    have hkey := (mem_covered.1 (List.mem_of_mem_take hb')).1
    rw [hunique (f b') b hb b' hkey hab (hf b' hb').2]
    exact hb'
  · intro hmem
    exact ⟨f b, List.mem_map_of_mem hmem, (hf b hmem).2⟩

/-- Items that are placed for the same keys cover the same keys. -/
theorem covered_eq {placed' : List α} (h' : Placed check keys items' n placed')
    (hfirst : (covered check keys items).take n = (covered check keys items').take n) :
    covered check keys placed = covered check keys placed' := by
  refine covered_congr fun b hb => ?_
  rw [h.covers hunique hb, h'.covers hunique hb, hfirst]

/-- What was not placed makes no difference to the first keys. -/
theorem take_covered_append (more : List α) :
    (covered check keys (placed ++ more)).take n = (covered check keys (items ++ more)).take n := by
  have hfilter : covered check keys (placed ++ more) =
      (covered check keys (items ++ more)).filter fun b => (placed ++ more).any fun a => check a b := by
    rw [covered, covered, List.filter_filter]
    refine List.filter_congr fun b hb => ?_
    rw [Bool.eq_iff_iff, Bool.and_eq_true, List.any_eq_true, List.any_eq_true]
    refine ⟨fun hb' => ⟨hb', ?_⟩, fun hb' => hb'.1⟩
    rcases hb' with ⟨a, ha, hab⟩
    rcases List.mem_append.1 ha with ha | ha
    · exact ⟨a, List.mem_append_left _ (h.sound a ha).1, hab⟩
    · exact ⟨a, List.mem_append_right _ ha, hab⟩
  rw [hfilter]
  refine take_filter_of_forall fun b hb => ?_
  rcases mem_covered.1 (List.mem_of_mem_take hb) with ⟨hkey, a, ha, hab⟩
  rw [List.any_eq_true]
  rcases List.mem_append.1 ha with ha | ha
  · -- Among the first keys of both, this one is among the first keys of the items.
    have hprefix : ((covered check keys (items ++ more)).take n).filter (fun b => items.any fun a => check a b) <+:
        (covered check keys items).take n := by
      have hall : (covered check keys (items ++ more)).filter (fun b => items.any fun a => check a b) =
          covered check keys items := by
        rw [covered, covered, List.filter_filter]
        refine List.filter_congr fun b hb => ?_
        rw [List.any_append]
        cases items.any fun a => check a b <;> rfl
      rw [List.prefix_take_iff, ← hall]
      exact ⟨(List.take_prefix _ _).filter _, Nat.le_trans (List.length_filter_le _ _) (List.length_take_le _ _)⟩
    have hmem := hprefix.subset (List.mem_filter.2 ⟨hb, List.any_eq_true.2 ⟨a, ha, hab⟩⟩)
    rcases (h.covers hunique hkey).2 hmem with ⟨a', ha', hab'⟩
    exact ⟨a', List.mem_append_left _ ha', hab'⟩
  · exact ⟨a, List.mem_append_right _ ha, hab⟩

/-- From what has been placed the same is placed again. -/
theorem again {placed' : List α} (h' : Placed check keys placed n placed') : placed' = placed := by
  have hfirst := h.take_covered_append hunique []
  rw [List.append_nil, List.append_nil] at hfirst
  rcases h' with ⟨f', rfl, hf'⟩
  rw [hfirst] at hf' ⊢
  rcases h with ⟨f, rfl, hf⟩
  refine List.map_congr_left fun b hb => ?_
  have hkey := (mem_covered.1 (List.mem_of_mem_take hb)).1
  rcases List.mem_map.1 (hf' b hb).1 with ⟨b', hb', heq⟩
  have hkey' := (mem_covered.1 (List.mem_of_mem_take hb')).1
  have hcheck := (hf b' hb').2
  rw [heq] at hcheck
  rw [← heq, hunique (f' b) b' hkey' b hkey hcheck (hf' b hb).2]

end Placed

/-- What the first keys hold is placed for them. -/
theorem Assigned.placed [BEq β] [Inhabited α] {held : List (β × α)} (h : Assigned check keys items held) (n : Nat) :
    Placed check keys items n
      (((keys.filter fun b => (held.lookup b).isSome).take n).map fun b => (held.lookup b).getD default) := by
  have hfilter : (keys.filter fun b => (held.lookup b).isSome) = covered check keys items := by
    refine List.filter_congr fun b hb => ?_
    rw [Bool.eq_iff_iff, List.any_eq_true]
    constructor
    · intro hsome
      rcases Option.isSome_iff_exists.1 hsome with ⟨a, ha⟩
      exact ⟨a, h.accepted b a ha⟩
    · rintro ⟨a, ha, hab⟩
      exact h.complete b hb a ha hab
  rw [hfilter]
  refine ⟨_, rfl, fun b hb => ?_⟩
  rcases mem_covered.1 (List.mem_of_mem_take hb) with ⟨hkey, a, ha, hab⟩
  rcases Option.isSome_iff_exists.1 (h.complete b hkey a ha hab) with ⟨a', ha'⟩
  rw [ha']
  exact h.accepted b a' ha'

end

end Matching
