import Mathlib.Algebra.BigOperators.Group.List.Basic
import Mathlib.Algebra.Ring.Nat
import Mathlib.Data.List.Sort

/-!
# Samples — what is picked from samples by rank

Samples are kept in buffers that hold the last of them.  All samples are sorted from the largest on, and the one for a
buffer is found by its rank: the number of samples in the buffers before, and half of its own.
-/

namespace Samples

/-! ## Buffers -/

/-- The last `n` items. -/
def lastOf {α : Type} (n : Nat) (items : List α) : List α :=
  items.drop (items.length - n)

theorem length_lastOf {α : Type} (n : Nat) (items : List α) : (lastOf n items).length ≤ n := by
  rw [lastOf, List.length_drop]
  omega

/-- A buffer that forgets the first samples when it is full. -/
structure Buffer (α : Type) (capacity : Nat) where
  items : List α
  bound : items.length ≤ capacity

namespace Buffer

variable {α : Type} {capacity : Nat}

def empty : Buffer α capacity :=
  ⟨[], Nat.zero_le _⟩

/-- Many samples are put in behind those that are there. -/
def append (buffer : Buffer α capacity) (samples : List α) : Buffer α capacity :=
  ⟨lastOf capacity (buffer.items ++ samples), length_lastOf _ _⟩

def push (buffer : Buffer α capacity) (sample : α) : Buffer α capacity :=
  buffer.append [sample]

end Buffer

/-! ## Ranks -/

variable {α K : Type} [LinearOrder K]

/-- The samples from the largest on. -/
def descending (key : α → K) (samples : List α) : List α :=
  samples.insertionSort fun a b => key b ≤ key a

theorem mem_descending {key : α → K} {samples : List α} {a : α} : a ∈ descending key samples ↔ a ∈ samples :=
  List.mem_insertionSort _

theorem descending_pairwise (key : α → K) (samples : List α) :
    (descending key samples).Pairwise fun a b => key b ≤ key a := by
  have htotal : Std.Total fun a b : α => key b ≤ key a := ⟨fun a b => le_total (key b) (key a)⟩
  have htrans : IsTrans α fun a b => key b ≤ key a := ⟨fun _ _ _ h h' => h'.trans h⟩
  exact List.pairwise_insertionSort _ samples

/-- The samples in the buffers before the `n`-th one, and half of its own. -/
def rank (sizes : List Nat) (n : Nat) : Nat :=
  (sizes.take n).sum + sizes.getD n 0 / 2

theorem rank_mono (sizes : List Nat) {m n : Nat} (h : m ≤ n) : rank sizes m ≤ rank sizes n := by
  rcases h.eq_or_lt with rfl | hlt
  · exact le_rfl
  · have hhalf : sizes.getD m 0 / 2 ≤ sizes.getD m 0 := Nat.div_le_self _ _
    have hnext : (sizes.take (m + 1)).sum = (sizes.take m).sum + sizes.getD m 0 := by
      rw [List.take_add_one, List.sum_append, List.getD_eq_getElem?_getD]
      cases sizes[m]? <;> rfl
    have htake : (sizes.take n).take (m + 1) = sizes.take (m + 1) := by
      rw [List.take_take, min_eq_left hlt]
    have hsplit := congrArg List.sum (List.take_append_drop (m + 1) (sizes.take n))
    rw [htake, List.sum_append] at hsplit
    calc rank sizes m
        ≤ (sizes.take m).sum + sizes.getD m 0 := Nat.add_le_add_left hhalf _
      _ = (sizes.take (m + 1)).sum := hnext.symm
      _ ≤ (sizes.take n).sum := by rw [← hsplit]; exact Nat.le_add_right _ _
      _ ≤ rank sizes n := Nat.le_add_right _ _

/-- The sample of this rank, or the last one. -/
def pick (sorted : List α) (i : Nat) : Option α :=
  sorted[min i (sorted.length - 1)]?

/-- The index is always inside the list. -/
theorem exists_pick {sorted : List α} (h : sorted ≠ []) (i : Nat) : ∃ a ∈ sorted, pick sorted i = some a := by
  have hlt : min i (sorted.length - 1) < sorted.length := by
    have hpos := List.length_pos_iff.2 h
    omega
  exact ⟨_, List.getElem_mem hlt, List.getElem?_eq_getElem hlt⟩

/-- A later rank picks no larger sample. -/
theorem pick_antitone {key : α → K} {sorted : List α} (h : sorted.Pairwise fun a b => key b ≤ key a) {i j : Nat}
    (hij : i ≤ j) {a b : α} (ha : pick sorted i = some a) (hb : pick sorted j = some b) : key b ≤ key a := by
  have hle : min i (sorted.length - 1) ≤ min j (sorted.length - 1) := by omega
  rcases List.getElem?_eq_some_iff.1 ha with ⟨hi, rfl⟩
  rcases List.getElem?_eq_some_iff.1 hb with ⟨hj, rfl⟩
  rcases hle.eq_or_lt with heq | hlt
  · exact le_of_eq (congrArg key (by congr 1; exact heq.symm))
  · exact List.pairwise_iff_getElem.1 h _ _ hi hj hlt

end Samples
