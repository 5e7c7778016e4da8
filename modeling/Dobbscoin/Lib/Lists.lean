import Mathlib.Algebra.BigOperators.Group.List.Basic

/-!
# Search — the first occurrence of a pattern in a list

`offset pat s` is where the first occurrence of `pat` in `s` starts, and `s.length` when there is
none: the contract of `std::search`, with `s.length` in the place of the end iterator.
-/

namespace Search

variable {α : Type} [DecidableEq α]

/-- Offset of the first occurrence of `pat`, or the length of the list. -/
def offset (pat : List α) : List α → Nat
  | [] => 0
  | b :: bs => if pat.isPrefixOf (b :: bs) then 0 else offset pat bs + 1

/-- Where the search stops before the end, the pattern is there. -/
theorem isPrefixOf_drop_offset {pat s : List α} (h : offset pat s ≠ s.length) :
    pat.isPrefixOf (s.drop (offset pat s)) = true := by
  induction s with
  | nil => exact absurd rfl h
  | cons b bs ih =>
      by_cases hp : pat.isPrefixOf (b :: bs) = true
      · simp [offset, hp]
      · have hne : offset pat bs ≠ bs.length := by
          intro heq
          exact h (by simp [offset, hp, heq])
        simpa [offset, hp] using ih hne

/-- The elements at the place where the search stops are the pattern itself. -/
theorem take_drop_offset {pat s : List α} (h : offset pat s ≠ s.length) :
    (s.drop (offset pat s)).take pat.length = pat := by
  have hinitial : pat <+: s.drop (offset pat s) :=
    List.isPrefixOf_iff_prefix.1 (isPrefixOf_drop_offset h)
  exact (List.prefix_iff_eq_take.1 hinitial).symm

end Search

/-!
# Marked items

A list of marks, one for each item of another list, as a search over subsets keeps them: which items are marked, and
what one more mark adds to the sum.
-/

namespace Marked

variable {α M : Type}

/-- The items whose mark is set, in their order. -/
def marked : List Bool → List α → List α
  | true :: marks, a :: items => a :: marked marks items
  | false :: marks, _ :: items => marked marks items
  | _, _ => []

theorem marked_sublist (marks : List Bool) (items : List α) : (marked marks items).Sublist items := by
  induction items generalizing marks with
  | nil =>
    cases marks with
    | nil => exact List.Sublist.slnil
    | cons mark marks => cases mark <;> exact List.Sublist.slnil
  | cons a items ih =>
    cases marks with
    | nil => exact List.nil_sublist _
    | cons mark marks =>
      cases mark with
      | true => exact (ih marks).cons_cons a
      | false => exact (ih marks).cons a

theorem marked_all (items : List α) : marked (List.replicate items.length true) items = items := by
  induction items with
  | nil => rfl
  | cons a items ih => exact congrArg (a :: ·) ih

theorem marked_none (n : Nat) (items : List α) : marked (List.replicate n false) items = [] := by
  induction items generalizing n with
  | nil => cases n <;> rfl
  | cons a items ih =>
    cases n with
    | zero => rfl
    | succ n => exact ih n

/-- One more mark adds the value of its item. -/
theorem sum_marked_set [AddCommMonoid M] (f : α → M) {marks : List Bool} {items : List α} {i : Nat} {a : α}
    (hmark : marks[i]? = some false) (hitem : items[i]? = some a) :
    ((marked (marks.set i true) items).map f).sum = ((marked marks items).map f).sum + f a := by
  induction marks generalizing items i with
  | nil => cases hmark
  | cons mark marks ih =>
    cases items with
    | nil => cases hitem
    | cons b items =>
      cases i with
      | zero =>
        obtain rfl : mark = false := Option.some.inj hmark
        obtain rfl : b = a := Option.some.inj hitem
        rw [List.set_cons_zero, marked, marked, List.map_cons, List.sum_cons]
        exact add_comm _ _
      | succ i =>
        have hrest := ih hmark hitem
        cases mark with
        | true =>
          calc ((marked ((true :: marks).set (i + 1) true) (b :: items)).map f).sum
              = f b + ((marked (marks.set i true) items).map f).sum := by
                rw [List.set_cons_succ, marked, List.map_cons, List.sum_cons]
            _ = f b + (((marked marks items).map f).sum + f a) := by rw [hrest]
            _ = ((marked (true :: marks) (b :: items)).map f).sum + f a := by
                rw [marked, List.map_cons, List.sum_cons, add_assoc]
        | false => exact hrest

end Marked
