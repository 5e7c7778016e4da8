import Mathlib.Data.List.Nodup
import Mathlib.Data.List.Pairwise
import Mathlib.Data.List.ProdSigma
import Mathlib.Order.Lattice

/-!
# Numbering with insertions

Some items of a list have a number, and the others are to be put between them.  One pass gives the items without a
number the next one that is free, and moves an item with a number up by the places at or below it that have been given
so far.  The order of the numbered items is kept, and two items have the same number in the end if and only if a
numbered one has been moved to a place.
-/

namespace Numbering

variable {α : Type} (number : α → Option Nat)

/-- The next free number, and the places that have been given. -/
structure Marks where
  next : Nat
  places : List Nat

/-- A number is moved up by the places at or below it. -/
def shifted (places : List Nat) (p : Nat) : Nat :=
  p + places.countP (· ≤ p)

namespace Marks

def place (s : Marks) : Option Nat → Nat × Marks
  | none => (s.next, ⟨s.next + 1, s.places ++ [s.next]⟩)
  | some p => (shifted s.places p, ⟨max s.next (shifted s.places p + 1), s.places⟩)

/-- The items with their new numbers, and the marks in the end. -/
def placeAll : Marks → List α → List (α × Nat) × Marks
  | s, [] => ([], s)
  | s, a :: l =>
    let r := s.place (number a)
    let rest := r.2.placeAll l
    ((a, r.1) :: rest.1, rest.2)

def start : Marks :=
  ⟨0, []⟩

end Marks

/-- The places that are given in a pass over the list. -/
def placesOf (l : List α) : List Nat :=
  (Marks.start.placeAll number l).2.places

/-- No numbered item is moved to a place. -/
def NoClash (l : List α) : Prop :=
  ∀ a ∈ l, ∀ p, number a = some p → shifted (placesOf number l) p ∉ placesOf number l

variable {number}

theorem shifted_lt {places : List Nat} {p q : Nat} (h : p < q) : shifted places p < shifted places q := by
  have hcount : places.countP (· ≤ p) ≤ places.countP (· ≤ q) :=
    List.countP_mono_left fun o _ ho => decide_eq_true ((of_decide_eq_true ho).trans h.le)
  exact Nat.add_lt_add_of_lt_of_le h hcount

theorem le_shifted (places : List Nat) (p : Nat) : p ≤ shifted places p :=
  Nat.le_add_right p _

/-- Places above a number do not move it. -/
theorem shifted_append {places more : List Nat} {p : Nat} (h : ∀ o ∈ more, p < o) :
    shifted (places ++ more) p = shifted places p := by
  have hzero : more.countP (· ≤ p) = 0 :=
    List.countP_eq_zero.2 fun o ho => by rw [decide_eq_true_iff]; exact Nat.not_le.2 (h o ho)
  rw [shifted, List.countP_append, hzero, Nat.add_zero, shifted]

theorem Marks.placeAll_cons (s : Marks) (a : α) (l : List α) :
    s.placeAll number (a :: l) =
      ((a, (s.place (number a)).1) :: ((s.place (number a)).2.placeAll number l).1,
        ((s.place (number a)).2.placeAll number l).2) :=
  rfl

/-- **Step.**  What has been numbered is below the next number, and so are the places. -/
theorem Marks.place_spec (s : Marks) (hs : ∀ o ∈ s.places, o < s.next) (o : Option Nat) :
    (s.place o).1 < (s.place o).2.next ∧ s.next ≤ (s.place o).2.next ∧
      (∀ x ∈ (s.place o).2.places, x < (s.place o).2.next) ∧
      ∃ more, (s.place o).2.places = s.places ++ more ∧ ∀ x ∈ more, s.next ≤ x := by
  cases o with
  | none =>
    refine ⟨Nat.lt_succ_self _, Nat.le_succ _, fun x hx => ?_, [s.next], rfl, fun x hx => ?_⟩
    · rcases List.mem_append.1 hx with hold | hnew
      · exact Nat.lt_succ_of_lt (hs x hold)
      · rw [List.mem_singleton.1 hnew]
        exact Nat.lt_succ_self _
    · exact (List.mem_singleton.1 hx).ge
  | some p =>
    refine ⟨?_, le_max_left _ _, fun x hx => (hs x hx).trans_le (le_max_left _ _), [], ?_, ?_⟩
    · exact (Nat.lt_succ_self _).trans_le (le_max_right _ _)
    · exact (List.append_nil _).symm
    · intro x hx
      cases hx

/-- **Run.**  All that the pass does. -/
structure Placed (number : α → Option Nat) (s : Marks) (l : List α) (out : List (α × Nat)) (t : Marks) : Prop where
  items : out.map Prod.fst = l
  next : s.next ≤ t.next
  below : ∀ x ∈ t.places, x < t.next
  more : ∃ more, t.places = s.places ++ more ∧ ∀ x ∈ more, s.next ≤ x ∧ ∃ a, (a, x) ∈ out ∧ number a = none
  bound : ∀ x ∈ out, x.2 < t.next
  moved : ∀ x ∈ out, ∀ p, number x.1 = some p → x.2 = shifted t.places p
  placed : ∀ x ∈ out, number x.1 = none → x.2 ∈ t.places ∧ s.next ≤ x.2
  later : out.Pairwise fun x y => number y.1 = none → x.2 < y.2

theorem Marks.placeAll_spec (l : List α) (s : Marks) (hs : ∀ o ∈ s.places, o < s.next) :
    Placed number s l (s.placeAll number l).1 (s.placeAll number l).2 := by
  induction l generalizing s with
  | nil =>
    exact
      { items := rfl
        next := le_refl _
        below := hs
        more := ⟨[], (List.append_nil _).symm, fun x hx => absurd hx List.not_mem_nil⟩
        bound := fun x hx => absurd hx List.not_mem_nil
        moved := fun x hx => absurd hx List.not_mem_nil
        placed := fun x hx => absurd hx List.not_mem_nil
        later := List.Pairwise.nil }
  | cons a l ih =>
    rcases s.place_spec hs (number a) with ⟨hbound, hnext, hbelow, more₁, hmore₁, hnew₁⟩
    have rest := ih (s.place (number a)).2 hbelow
    rcases rest.more with ⟨more₂, hmore₂, hnew₂⟩
    rw [placeAll_cons]
    refine
      { items := congrArg (a :: ·) rest.items
        next := hnext.trans rest.next
        below := rest.below
        more := ⟨more₁ ++ more₂, ?_, fun x hx => ?_⟩
        bound := fun x hx => ?_
        moved := fun x hx p hp => ?_
        placed := fun x hx hnone => ?_
        later := List.pairwise_cons.2 ⟨fun y hy hnone => ?_, rest.later⟩ }
    · rw [hmore₂, hmore₁, List.append_assoc]
    · rcases List.mem_append.1 hx with hx | hx
      · refine ⟨hnew₁ x hx, a, ?_⟩
        cases hnumber : number a with
        | none =>
          rw [hnumber] at hmore₁
          have hsingle : more₁ = [s.next] := (List.append_cancel_left hmore₁).symm
          rw [hsingle] at hx
          rw [List.mem_singleton.1 hx]
          exact ⟨List.mem_cons_self, rfl⟩
        | some p =>
          rw [hnumber] at hmore₁
          have hnil : more₁ = [] := List.append_right_eq_self.1 hmore₁.symm
          rw [hnil] at hx
          cases hx
      · rcases hnew₂ x hx with ⟨hle, b, hb, hnone⟩
        exact ⟨hnext.trans hle, b, List.mem_cons_of_mem _ hb, hnone⟩
    · rcases List.mem_cons.1 hx with rfl | hx
      · exact hbound.trans_le rest.next
      · exact rest.bound x hx
    · rcases List.mem_cons.1 hx with rfl | hx
      · have habove : ∀ o ∈ more₂, p < o := by
          intro o ho
          have hle := (hnew₂ o ho).1
          rw [hp] at hbound hle
          exact (le_shifted s.places p).trans_lt (hbound.trans_le hle)
        rw [hmore₂, shifted_append habove]
        dsimp only at hp ⊢
        rw [hp]
        rfl
      · exact rest.moved x hx p hp
    · rcases List.mem_cons.1 hx with rfl | hx
      · dsimp only at hnone ⊢
        rw [hnone] at hmore₂ ⊢
        refine ⟨?_, le_refl _⟩
        rw [hmore₂]
        exact List.mem_append_left _ (List.mem_append_right _ (List.mem_singleton_self _))
      · rcases rest.placed x hx hnone with ⟨hmem, hle⟩
        exact ⟨hmem, hnext.trans hle⟩
    · exact hbound.trans_le (rest.placed y hy hnone).2

/-- Everything that has been placed has been placed by the pass. -/
theorem Placed.exists_of_place {l : List α} {out : List (α × Nat)} {t : Marks}
    (h : Placed number Marks.start l out t) {x : Nat} (hx : x ∈ t.places) : ∃ a, (a, x) ∈ out ∧ number a = none := by
  rcases h.more with ⟨more, hplaces, hmore⟩
  rw [hplaces] at hx
  exact (hmore x hx).2

theorem placed_start (l : List α) :
    Placed number Marks.start l (Marks.start.placeAll number l).1 (Marks.start.placeAll number l).2 :=
  Marks.placeAll_spec l Marks.start fun _ ho => absurd ho List.not_mem_nil

/-- The numbers are different if and only if no numbered item is moved to a place. -/
theorem nodup_iff {l : List α} (hdistinct : l.Pairwise fun a b => ∀ p, number a = some p → number b ≠ some p) :
    ((Marks.start.placeAll number l).1.map Prod.snd).Nodup ↔ NoClash number l := by
  have h : Placed number Marks.start l (Marks.start.placeAll number l).1 (Marks.start.placeAll number l).2 :=
    placed_start l
  have hpairs : (Marks.start.placeAll number l).1.Pairwise fun x y =>
      ∀ p, number x.1 = some p → number y.1 ≠ some p := by
    rw [← List.pairwise_map (f := Prod.fst) (R := fun a b => ∀ p, number a = some p → number b ≠ some p), h.items]
    exact hdistinct
  constructor
  · intro hnodup a ha p hp hclash
    have hmoved : ∃ f, (a, f) ∈ (Marks.start.placeAll number l).1 := by
      rw [← h.items] at ha
      rcases List.mem_map.1 ha with ⟨x, hx, rfl⟩
      exact ⟨x.2, hx⟩
    rcases hmoved with ⟨f, hf⟩
    rcases h.exists_of_place hclash with ⟨b, hb, hnone⟩
    have hsame : (a, f) = (b, shifted (placesOf number l) p) :=
      List.inj_on_of_nodup_map hnodup hf hb (h.moved _ hf p hp)
    rw [(Prod.mk.inj hsame).1, hnone] at hp
    cases hp
  · intro hclash
    refine List.pairwise_map.2 ((h.later.and hpairs).imp_of_mem fun {x y} hx hy hxy => ?_)
    have hy' : y.1 ∈ l := h.items ▸ List.mem_map_of_mem hy
    cases hnumber : number y.1 with
    | none => exact (hxy.1 hnumber).ne
    | some q =>
      rw [h.moved y hy q hnumber]
      intro heq
      cases hnumber' : number x.1 with
      | none =>
        refine hclash y.1 hy' q hnumber ?_
        rw [← show x.2 = shifted (placesOf number l) q from heq]
        exact (h.placed x hx hnumber').1
      | some p =>
        rw [h.moved x hx p hnumber'] at heq
        have hne : p ≠ q := fun hpq => hxy.2 p hnumber' (hpq ▸ hnumber)
        rcases Nat.lt_or_gt_of_ne hne with hlt | hlt
        · exact absurd heq (shifted_lt hlt).ne
        · exact absurd heq (shifted_lt hlt).ne'

end Numbering
