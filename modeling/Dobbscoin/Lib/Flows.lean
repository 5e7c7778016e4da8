import Mathlib.Algebra.BigOperators.Group.List.Basic
import Mathlib.Tactic.Linarith

/-!
# Coins that entries make and use

What is left to some of the entries can be computed in two ways: as the coins that they have made and that nobody has
used, or as what they have made minus what they have used.  `Flow.balance` says by how much the two differ.
-/

namespace Dobbscoin.Flows

variable {ι κ : Type}

def total (value : κ → Int) (coins : List κ) : Int :=
  (coins.map value).sum

section

variable [DecidableEq κ]

def inside (made coins : List κ) : List κ :=
  coins.filter fun coin => coin ∈ made

def outside (made coins : List κ) : List κ :=
  coins.filter fun coin => coin ∉ made

end

/-- Entries, and the coins that each of them makes and uses. -/
structure Flow (ι κ : Type) where
  entries : List ι
  made : ι → List κ
  used : ι → List κ

namespace Flow

variable (F : Flow ι κ)

def madeBy (p : ι → Bool) : List κ :=
  (F.entries.filter p).flatMap F.made

def usedBy (p : ι → Bool) : List κ :=
  (F.entries.filter p).flatMap F.used

end Flow

/-! ## Totals -/

variable {value : κ → Int}

theorem total_append (coins coins' : List κ) : total value (coins ++ coins') = total value coins + total value coins' := by
  rw [total, List.map_append, List.sum_append]
  rfl

theorem total_perm {coins coins' : List κ} (h : coins.Perm coins') : total value coins = total value coins' :=
  (h.map value).sum_eq

theorem total_flatMap (f : ι → List κ) (l : List ι) :
    total value (l.flatMap f) = (l.map fun i => total value (f i)).sum := by
  induction l with
  | nil => rfl
  | cons i l ih => rw [List.flatMap_cons, total_append, ih, List.map_cons, List.sum_cons]

theorem total_inside_add_outside [DecidableEq κ] (value : κ → Int) (made coins : List κ) :
    total value (inside made coins) + total value (outside made coins) = total value coins := by
  have hperm := List.filter_append_perm (fun coin => decide (coin ∈ made)) coins
  have hnot : (fun coin => !decide (coin ∈ made)) = fun coin => decide (coin ∉ made) :=
    funext fun coin => (decide_not).symm
  rw [hnot] at hperm
  rw [← total_perm hperm, total_append]
  rfl

/-- The coins of one list that are in another, counted in either of them. -/
theorem total_inside_comm [DecidableEq κ] {made used : List κ} (hmade : made.Nodup) (hused : used.Nodup) :
    total value (inside used made) = total value (inside made used) := by
  refine total_perm ((List.perm_ext_iff_of_nodup (hmade.filter _) (hused.filter _)).2 fun coin => ?_)
  rw [List.mem_filter, List.mem_filter, decide_eq_true_iff, decide_eq_true_iff, and_comm]

namespace Flow

variable (F : Flow ι κ) {counted live : ι → Bool}

/-- What the live entries use is what the counted ones use and what the others use. -/
theorem usedBy_perm (hlive : ∀ i, counted i = true → live i = true) :
    (F.usedBy counted ++ F.usedBy fun i => live i && !counted i).Perm (F.usedBy live) := by
  have hsplit := List.filter_append_perm counted (F.entries.filter live)
  have hcounted : (F.entries.filter live).filter counted = F.entries.filter counted := by
    rw [List.filter_filter]
    refine List.filter_congr fun i _ => ?_
    cases hi : counted i with
    | false => rfl
    | true => rw [hlive i hi]; rfl
  have hothers : (F.entries.filter live).filter (fun i => !counted i) =
      F.entries.filter fun i => live i && !counted i := by
    rw [List.filter_filter]
    exact List.filter_congr fun i _ => Bool.and_comm _ _
  rw [hcounted, hothers] at hsplit
  have hused := hsplit.flatMap_right F.used
  rwa [List.flatMap_append] at hused

/-- The two computations differ by what others use of the counted coins, and by what the counted entries use of the coins
of others. -/
theorem balance [DecidableEq κ] (value : κ → Int) (hlive : ∀ i, counted i = true → live i = true) (hmade : (F.madeBy counted).Nodup)
    (hused : (F.usedBy live).Nodup) :
    total value (F.madeBy counted) - total value (F.usedBy counted) =
      total value (outside (F.usedBy live) (F.madeBy counted)) +
        total value (inside (F.madeBy counted) (F.usedBy fun i => live i && !counted i)) -
        total value (outside (F.madeBy counted) (F.usedBy counted)) := by
  have hmadeSplit := total_inside_add_outside value (F.usedBy live) (F.madeBy counted)
  have husedSplit := total_inside_add_outside value (F.madeBy counted) (F.usedBy counted)
  have hspent : total value (inside (F.usedBy live) (F.madeBy counted)) =
      total value (inside (F.madeBy counted) (F.usedBy counted)) +
        total value (inside (F.madeBy counted) (F.usedBy fun i => live i && !counted i)) := by
    have hperm := (F.usedBy_perm hlive).filter fun coin => decide (coin ∈ F.madeBy counted)
    rw [List.filter_append] at hperm
    rw [total_inside_comm hmade hused, ← total_append]
    exact (total_perm hperm).symm
  linarith

end Flow

end Dobbscoin.Flows
