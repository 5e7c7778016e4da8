import Mathlib.Data.List.Lex
import Mathlib.Data.List.Pairwise
import Mathlib.Data.List.TakeWhile
import Mathlib.Order.Bounds.Defs
import Mathlib.Order.Lattice

/-!
# Range scans — rows in key order, read from a key on

A table that is ordered by its keys is read from a start key on, until a row comes that is not wanted.  When no row that
is not wanted lies between the start key and one that is, the scan finds all rows that are wanted.
-/

namespace RangeScan

variable {K α β : Type} [LinearOrder K]

/-- Rows in the order of their keys, which are all different. -/
def Ordered (key : α → K) (rows : List α) : Prop :=
  rows.Pairwise fun a b => key a < key b

/-- What is read of the rows, until one is not wanted. -/
def collect (take : α → Option β) : List α → List β
  | [] => []
  | row :: rows =>
    match take row with
    | none => []
    | some b => b :: collect take rows

/-- From the first row whose key is not below `start`. -/
def scanFrom (key : α → K) (take : α → Option β) (start : K) (rows : List α) : List β :=
  collect take (rows.dropWhile fun row => key row < start)

/-- The same with a query for each row: the first one whose key is `after` the last one. -/
def cursorLoop (key : α → K) (take : α → Option β) (rows : List α) : Nat → (K → Bool) → Option (List β)
  | 0, _ => none
  | fuel + 1, after =>
    match rows.find? fun row => after (key row) with
    | none => some []
    | some row =>
      match take row with
      | none => some []
      | some b => (cursorLoop key take rows fuel fun k => key row < k).map (b :: ·)

/-- What is wanted of an ordered table begins at `start` or later, and is in one piece from there on. -/
structure Selects (key : α → K) (take : α → Option β) (start : K) (rows : List α) : Prop where
  start_le : ∀ row ∈ rows, (take row).isSome → start ≤ key row
  between : ∀ row ∈ rows, ∀ row' ∈ rows, start ≤ key row → key row ≤ key row' → (take row').isSome → (take row).isSome

variable {key : α → K} {take : α → Option β} {start : K} {rows : List α}

theorem collect_eq_filterMap (h : rows.Pairwise fun row row' => (take row').isSome → (take row).isSome) :
    collect take rows = rows.filterMap take := by
  induction rows with
  | nil => rfl
  | cons row rows ih =>
    rw [List.pairwise_cons] at h
    rw [collect]
    cases htake : take row with
    | some b => rw [List.filterMap_cons_some htake, ih h.2]
    | none =>
      rw [List.filterMap_cons_none htake]
      -- Nothing is wanted after a row that is not.
      refine (List.filterMap_eq_nil_iff.2 fun row' hin => ?_).symm
      have hnot : ¬(take row').isSome := fun hsome => by
        have hrow := h.1 row' hin hsome
        rw [htake] at hrow
        cases hrow
      exact Option.not_isSome_iff_eq_none.1 hnot

theorem Ordered.start_le_of_mem (h : Ordered key rows) :
    ∀ row ∈ rows.dropWhile fun row => key row < start, start ≤ key row := by
  induction rows with
  | nil => exact fun _ hin => absurd hin List.not_mem_nil
  | cons row rows ih =>
    rcases List.pairwise_cons.1 h with ⟨hfirst, hrest⟩
    intro row' hin
    by_cases hlt : key row < start
    · have hdrop : decide (key row < start) = true := decide_eq_true hlt
      rw [List.dropWhile_cons, if_pos hdrop] at hin
      exact ih hrest row' hin
    · have hkeep : ¬decide (key row < start) = true := mt of_decide_eq_true hlt
      rw [List.dropWhile_cons, if_neg hkeep] at hin
      rcases List.mem_cons.1 hin with rfl | hin
      · exact not_lt.1 hlt
      · exact (not_lt.1 hlt).trans (hfirst row' hin).le

/-- The rows that are passed over are not wanted. -/
theorem Selects.filterMap_dropWhile (h : Selects key take start rows) :
    (rows.dropWhile fun row => key row < start).filterMap take = rows.filterMap take := by
  have hsplit := List.takeWhile_append_dropWhile (p := fun row => decide (key row < start)) (l := rows)
  have hnone : (rows.takeWhile fun row => key row < start).filterMap take = [] := by
    refine List.filterMap_eq_nil_iff.2 fun row hin => Option.not_isSome_iff_eq_none.1 fun hsome => ?_
    have hbelow : decide (key row < start) = true := List.mem_takeWhile_imp (p := fun row => decide (key row < start)) hin
    have hlt := of_decide_eq_true hbelow
    exact absurd (h.start_le row ((List.takeWhile_sublist _).subset hin) hsome) (not_le.2 hlt)
  calc (rows.dropWhile fun row => key row < start).filterMap take
      = ((rows.takeWhile fun row => key row < start) ++ rows.dropWhile fun row => key row < start).filterMap take := by
        rw [List.filterMap_append, hnone, List.nil_append]
    _ = rows.filterMap take := by rw [hsplit]

theorem Selects.scanFrom_eq (h : Selects key take start rows) (hordered : Ordered key rows) :
    scanFrom key take start rows = rows.filterMap take := by
  rw [← h.filterMap_dropWhile, scanFrom]
  have hsub := List.dropWhile_sublist (fun row => decide (key row < start)) (l := rows)
  refine collect_eq_filterMap ?_
  refine (hordered.sublist hsub).imp_of_mem fun {row row'} hin hin' hlt hsome => ?_
  exact h.between row (hsub.subset hin) row' (hsub.subset hin') (hordered.start_le_of_mem row hin) hlt.le hsome

/-- A query for the next row comes to the row that follows. -/
theorem Ordered.cursorLoop_eq (hordered : Ordered key rows) (post : List α) :
    ∀ {pre : List α} {fuel : Nat} {after : K → Bool}, rows = pre ++ post → post.length < fuel →
      (∀ row ∈ pre, after (key row) = false) → (∀ row ∈ post, after (key row) = true) →
      cursorLoop key take rows fuel after = some (collect take post) := by
  induction post with
  | nil =>
    intro pre fuel after hrows hfuel hpre hpost
    obtain ⟨fuel, rfl⟩ := Nat.exists_eq_succ_of_ne_zero (Nat.ne_of_gt hfuel)
    have hfind : rows.find? (fun row => after (key row)) = none := by
      rw [hrows, List.append_nil]
      exact List.find?_eq_none.2 fun row hin => by rw [hpre row hin]; exact Bool.false_ne_true
    rw [cursorLoop, hfind]
    rfl
  | cons row post ih =>
    intro pre fuel after hrows hfuel hpre hpost
    obtain ⟨fuel, rfl⟩ := Nat.exists_eq_succ_of_ne_zero (Nat.ne_of_gt (Nat.zero_lt_of_lt hfuel))
    have hfind : rows.find? (fun row => after (key row)) = some row := by
      have hnone : pre.find? (fun row => after (key row)) = none :=
        List.find?_eq_none.2 fun row hin => by rw [hpre row hin]; exact Bool.false_ne_true
      rw [hrows, List.find?_append, hnone, Option.none_or, List.find?_cons, hpost row List.mem_cons_self]
    have hparts := hordered
    rw [hrows] at hparts
    rcases List.pairwise_append.1 hparts with ⟨-, hcons, hacross⟩
    have hnext : cursorLoop key take rows fuel (fun k => key row < k) = some (collect take post) := by
      have hsplit : rows = (pre ++ [row]) ++ post := by rw [hrows, List.append_assoc, List.singleton_append]
      refine ih hsplit (Nat.lt_of_succ_lt_succ hfuel) (fun row' hin => ?_) fun row' hin => ?_
      · rcases List.mem_append.1 hin with hin | hin
        · exact decide_eq_false (not_lt.2 (hacross row' hin row List.mem_cons_self).le)
        · rw [List.mem_singleton.1 hin]
          exact decide_eq_false (lt_irrefl _)
      · exact decide_eq_true ((List.pairwise_cons.1 hcons).1 row' hin)
    rw [cursorLoop, hfind, collect]
    dsimp only
    cases take row with
    | none => rfl
    | some b =>
      dsimp only
      rw [hnext, Option.map_some]

/-- A cursor finds all rows that are wanted. -/
theorem Selects.cursorLoop_eq (h : Selects key take start rows) (hordered : Ordered key rows) {fuel : Nat}
    (hfuel : rows.length < fuel) :
    cursorLoop key take rows fuel (fun k => decide (start ≤ k)) = some (rows.filterMap take) := by
  rw [← h.scanFrom_eq hordered, scanFrom]
  have hsub := List.dropWhile_sublist (fun row => decide (key row < start)) (l := rows)
  refine hordered.cursorLoop_eq _ (List.takeWhile_append_dropWhile).symm (lt_of_le_of_lt hsub.length_le hfuel)
    (fun row hin => ?_) fun row hin => ?_
  · have hbelow : decide (key row < start) = true := List.mem_takeWhile_imp (p := fun row => decide (key row < start)) hin
    exact decide_eq_false (not_le.2 (of_decide_eq_true hbelow))
  · exact decide_eq_true (hordered.start_le_of_mem row hin)

/-! ## A table that changes -/

/-- Each step finds the least key that comes `after` the last one, in the table as it is then; `last` is what comes after
all steps. -/
inductive LiveScan : (K → Prop) → List (Set K × K) → (K → Prop) → Prop
  | nil (after : K → Prop) : LiveScan after [] after
  | cons {after last : K → Prop} {table : Set K} {k : K} {steps : List (Set K × K)}
      (least : IsLeast { k | k ∈ table ∧ after k } k) (rest : LiveScan (fun k' => k < k') steps last) :
      LiveScan after ((table, k) :: steps) last

namespace LiveScan

variable {after last : K → Prop} {steps : List (Set K × K)}

theorem after_of_mem (h : LiveScan after steps last) (hup : ∀ a b, after a → a < b → after b) :
    ∀ step ∈ steps, after step.2 := by
  induction h with
  | nil => exact fun _ hin => absurd hin List.not_mem_nil
  | cons least rest ih =>
    have hrest := ih fun _ _ => lt_trans
    intro step hin
    rcases List.mem_cons.1 hin with rfl | hin
    · exact least.1.2
    · exact hup _ _ least.1.2 (hrest step hin)

/-- The keys that are found get larger and larger. -/
theorem pairwise_lt (h : LiveScan after steps last) : (steps.map Prod.snd).Pairwise (· < ·) := by
  induction h with
  | nil => exact List.Pairwise.nil
  | cons least rest ih =>
    have hrest := rest.after_of_mem fun _ _ => lt_trans
    refine List.pairwise_cons.2 ⟨fun k' hin => ?_, ih⟩
    rcases List.mem_map.1 hin with ⟨step, hstep, rfl⟩
    exact hrest step hstep

/-- A key that is there at every step is found, or is still to come. -/
theorem found_or_last (h : LiveScan after steps last) {k : K} (hk : after k) (hin : ∀ step ∈ steps, k ∈ step.1) :
    k ∈ steps.map Prod.snd ∨ last k := by
  induction h with
  | nil => exact Or.inr hk
  | cons least rest ih =>
    have hle := least.2 ⟨hin _ List.mem_cons_self, hk⟩
    rcases hle.eq_or_lt with rfl | hlt
    · exact Or.inl List.mem_cons_self
    · rcases ih hlt fun step hstep => hin step (List.mem_cons_of_mem _ hstep) with hfound | hlast
      · exact Or.inl (List.mem_cons_of_mem _ hfound)
      · exact Or.inr hlast

end LiveScan

/-- The first row of an ordered table that is `after` has the least such key. -/
theorem Ordered.isLeast_of_find? {after : K → Bool} {row : α} (h : Ordered key rows)
    (hfind : (rows.find? fun row => after (key row)) = some row) :
    IsLeast { k | k ∈ { k | ∃ row ∈ rows, key row = k } ∧ after k = true } (key row) := by
  rcases List.find?_eq_some_iff_append.1 hfind with ⟨hafter, front, back, rfl, hfront⟩
  refine ⟨⟨⟨row, List.mem_append_right _ List.mem_cons_self, rfl⟩, hafter⟩, ?_⟩
  rintro _ ⟨⟨row', hin, rfl⟩, hafter'⟩
  rcases List.mem_append.1 hin with hin | hin
  · have hnot := hfront row' hin
    rw [hafter'] at hnot
    cases hnot
  · rcases List.mem_cons.1 hin with rfl | hin
    · exact le_rfl
    · have hpair := (List.pairwise_append.1 h).2.1
      exact ((List.pairwise_cons.1 hpair).1 row' hin).le

/-- A row is the only one with its key. -/
theorem Ordered.filter_key {row : α} (h : Ordered key rows) (hin : row ∈ rows) :
    (rows.filter fun row' => key row' = key row) = [row] := by
  rcases List.append_of_mem hin with ⟨front, back, rfl⟩
  rcases List.pairwise_append.1 h with ⟨-, hback, hcross⟩
  have hfront : (front.filter fun row' => key row' = key row) = [] := by
    refine List.filter_eq_nil_iff.2 fun row' hin' => ?_
    rw [decide_eq_true_iff]
    exact (hcross row' hin' row List.mem_cons_self).ne
  have hafter : (back.filter fun row' => key row' = key row) = [] := by
    refine List.filter_eq_nil_iff.2 fun row' hin' => ?_
    rw [decide_eq_true_iff]
    exact ((List.pairwise_cons.1 hback).1 row' hin').ne'
  have hrow : decide (key row = key row) = true := decide_eq_true rfl
  rw [List.filter_append, hfront, List.nil_append, List.filter_cons, hrow, if_pos rfl, hafter]

/-! ## Writing a row -/

/-- A row is put in its place; it takes the place of a row with the same key. -/
def upsert (key : α → K) (row : α) : List α → List α
  | [] => [row]
  | row' :: rows =>
    if key row < key row' then row :: row' :: rows
    else if key row = key row' then row :: rows
    else row' :: upsert key row rows

theorem mem_upsert {row row' : α} (hordered : Ordered key rows) :
    row' ∈ upsert key row rows ↔ row' = row ∨ row' ∈ rows ∧ key row' ≠ key row := by
  induction rows with
  | nil => simp [upsert]
  | cons first rows ih =>
    rcases List.pairwise_cons.1 hordered with ⟨hfirst, hrest⟩
    rw [upsert]
    by_cases hlt : key row < key first
    · have hapart : ∀ row' ∈ first :: rows, key row' ≠ key row := fun row' hin => by
        rcases List.mem_cons.1 hin with rfl | hin
        · exact hlt.ne'
        · exact (hlt.trans (hfirst row' hin)).ne'
      rw [if_pos hlt, List.mem_cons]
      exact or_congr_right ⟨fun hin => ⟨hin, hapart row' hin⟩, fun h => h.1⟩
    · rw [if_neg hlt]
      by_cases heq : key row = key first
      · have hapart : ∀ row' ∈ rows, key row' ≠ key row := fun row' hin => heq ▸ (hfirst row' hin).ne'
        rw [if_pos heq, List.mem_cons]
        refine or_congr_right ⟨fun hin => ⟨List.mem_cons_of_mem _ hin, hapart row' hin⟩, fun h => ?_⟩
        rcases List.mem_cons.1 h.1 with rfl | hin
        · exact absurd heq.symm h.2
        · exact hin
      · rw [if_neg heq, List.mem_cons, ih hrest, List.mem_cons]
        constructor
        · rintro (rfl | rfl | ⟨hin, hne⟩)
          · exact .inr ⟨.inl rfl, Ne.symm heq⟩
          · exact .inl rfl
          · exact .inr ⟨.inr hin, hne⟩
        · rintro (rfl | ⟨rfl | hin, hne⟩)
          · exact .inr (.inl rfl)
          · exact .inl rfl
          · exact .inr (.inr ⟨hin, hne⟩)

theorem Ordered.upsert (hordered : Ordered key rows) (row : α) : Ordered key (upsert key row rows) := by
  induction rows with
  | nil => exact List.pairwise_singleton _ row
  | cons first rows ih =>
    rcases List.pairwise_cons.1 hordered with ⟨hfirst, hrest⟩
    rw [RangeScan.upsert]
    by_cases hlt : key row < key first
    · rw [if_pos hlt]
      refine List.pairwise_cons.2 ⟨fun row' hin => ?_, hordered⟩
      rcases List.mem_cons.1 hin with rfl | hin
      · exact hlt
      · exact hlt.trans (hfirst row' hin)
    · rw [if_neg hlt]
      by_cases heq : key row = key first
      · rw [if_pos heq]
        exact List.pairwise_cons.2 ⟨fun row' hin => heq ▸ hfirst row' hin, hrest⟩
      · rw [if_neg heq]
        refine List.pairwise_cons.2 ⟨fun row' hin => ?_, ih hrest⟩
        rcases (mem_upsert hrest).1 hin with rfl | ⟨hin, -⟩
        · exact lt_of_le_of_ne (not_lt.1 hlt) (Ne.symm heq)
        · exact hfirst row' hin

/-- A row behind all others is put at the end. -/
theorem upsert_of_last {row : α} (h : ∀ row' ∈ rows, key row' < key row) : upsert key row rows = rows ++ [row] := by
  induction rows with
  | nil => rfl
  | cons first rows ih =>
    have hfirst := h first List.mem_cons_self
    rw [RangeScan.upsert, if_neg hfirst.le.not_gt, if_neg hfirst.ne', ih fun row' hin => h row' (List.mem_cons_of_mem _ hin)]
    rfl

/-! ## Keys that are strings -/

section Strings

variable [LinearOrder α] {p k x y : List α}

theorem cons_le_cons_iff {a b : α} : a :: x ≤ b :: y ↔ a < b ∨ a = b ∧ x ≤ y := by
  rw [← not_lt, List.cons_lt_cons_iff, ← not_lt]
  constructor
  · intro h
    rcases lt_trichotomy a b with hlt | heq | hgt
    · exact .inl hlt
    · exact .inr ⟨heq, fun hlt => h (.inr ⟨heq.symm, hlt⟩)⟩
    · exact absurd (.inl hgt) h
  · rintro (hlt | ⟨rfl, hle⟩) (hgt | ⟨heq, hgt⟩)
    · exact lt_asymm hlt hgt
    · exact lt_irrefl _ (heq ▸ hlt)
    · exact lt_irrefl _ hgt
    · exact hle hgt

theorem append_le_append_iff : p ++ x ≤ p ++ y ↔ x ≤ y := by
  induction p with
  | nil => rfl
  | cons a p ih =>
    rw [List.cons_append, List.cons_append, cons_le_cons_iff, ih]
    simp

/-- Between strings that begin with `p` there are only such strings. -/
theorem exists_eq_append (hlow : p ++ x ≤ k) (hhigh : k ≤ p ++ y) : ∃ z, k = p ++ z := by
  induction p generalizing k with
  | nil => exact ⟨k, rfl⟩
  | cons a p ih =>
    cases k with
    | nil => exact absurd hlow (not_le.2 .nil)
    | cons b k =>
      rw [List.cons_append, cons_le_cons_iff] at hlow hhigh
      rcases hlow with hlt | ⟨rfl, hlow⟩
      · rcases hhigh with hgt | ⟨rfl, -⟩
        · exact absurd hlt (lt_asymm hgt)
        · exact absurd hlt (lt_irrefl _)
      · rcases hhigh with hgt | ⟨-, hhigh⟩
        · exact absurd hgt (lt_irrefl _)
        · rcases ih hlow hhigh with ⟨z, rfl⟩
          exact ⟨z, rfl⟩

end Strings

end RangeScan
