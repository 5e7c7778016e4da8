import Mathlib.Data.List.Basic
import Mathlib.Data.Nat.ModEq

/-!
# Ring buffers

A stream is read in chunks into a ring of places, each item at its position modulo the size of the ring.  As long as no
chunk runs over the end of the ring, the ring holds the last items of the stream.
-/

namespace RingBuffer

variable {α : Type}

/-- The items from the place `pos` on are replaced. -/
def store (buf : Nat → α) (pos : Nat) (chunk : List α) : Nat → α := fun i =>
  if pos ≤ i then (chunk[i - pos]?).getD (buf i) else buf i

/-- The ring holds the items of the stream before `stop`, as far as it reaches back. -/
structure Window (size : Nat) (stream : List α) (buf : Nat → α) (stop : Nat) : Prop where
  le : stop ≤ stream.length
  holds : ∀ q < stop, stop ≤ q + size → stream[q]? = some (buf (q % size))

variable {size stop count : Nat} {stream : List α} {buf : Nat → α}

theorem window_zero : Window size stream buf 0 :=
  ⟨Nat.zero_le _, fun _ hq => absurd hq (Nat.not_lt_zero _)⟩

/-- Two positions less than a round apart are at different places. -/
theorem mod_ne {a b : Nat} (hlt : a < b) (hnear : b < a + size) : a % size ≠ b % size := by
  intro heq
  have hdvd : size ∣ b - a := (Nat.modEq_iff_dvd' hlt.le).1 heq
  have hle : size ≤ b - a := Nat.le_of_dvd (Nat.sub_pos_of_lt hlt) hdvd
  omega

/-- The next chunk is stored behind the last item. -/
theorem Window.store (h : Window size stream buf stop) (hfits : stop % size + count ≤ size)
    (hle : stop + count ≤ stream.length) :
    Window size stream (store buf (stop % size) ((stream.drop stop).take count)) (stop + count) := by
  have hlength : ((stream.drop stop).take count).length = count := by
    rw [List.length_take, List.length_drop]
    omega
  refine ⟨hle, fun q hq hnear => ?_⟩
  rcases Nat.lt_or_ge q stop with hold | hnew
  · -- An item that is still held is not at one of the places that are written.
    have hplace : ∀ j < count, q % size ≠ stop % size + j := by
      intro j hj heq
      have hmod : (stop + j) % size = stop % size + j := by
        rw [Nat.add_mod, Nat.mod_eq_of_lt (by omega : j < size), Nat.mod_eq_of_lt (by omega)]
      exact mod_ne (by omega : q < stop + j) (by omega) (heq.trans hmod.symm)
    have hkept : RingBuffer.store buf (stop % size) ((stream.drop stop).take count) (q % size) = buf (q % size) := by
      rw [RingBuffer.store]
      split
      · next hge =>
        have hout : count ≤ q % size - stop % size := by
          by_contra hin
          exact hplace (q % size - stop % size) (by omega) (by omega)
        rw [List.getElem?_eq_none (by omega), Option.getD_none]
      · rfl
    rw [hkept]
    exact h.holds q hold (by omega)
  · have hmod : q % size = stop % size + (q - stop) := by
      have hsplit : q = stop + (q - stop) := by omega
      calc q % size
          = (stop + (q - stop)) % size := by rw [← hsplit]
        _ = (stop % size + (q - stop)) % size := by rw [Nat.mod_add_mod]
        _ = stop % size + (q - stop) := Nat.mod_eq_of_lt (by omega)
    have hitem : ((stream.drop stop).take count)[q - stop]? = stream[q]? := by
      rw [List.getElem?_take_of_lt (by omega), List.getElem?_drop]
      congr 1
      omega
    have hin : q < stream.length := by omega
    rw [hmod, RingBuffer.store, if_pos (Nat.le_add_right _ _), Nat.add_sub_cancel_left, hitem,
      List.getElem?_eq_getElem hin, Option.getD_some]

end RingBuffer
