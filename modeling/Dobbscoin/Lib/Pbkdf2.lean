import Dobbscoin.Lib.Regions
import Mathlib.Algebra.Group.Nat.Defs
import Mathlib.Data.List.Range

/-!
# PBKDF2

A key of any length is the first bytes of blocks that follow each other.  Each block is the exclusive or of the values that
a keyed hash gives when it is applied again and again; the keyed hash is HMAC.
-/

namespace Pbkdf2

open Regions

/-! ## Blocks that are cut off -/

section Blocks

variable {α : Type}

/-- The cells from block `i` on, of `n` cells in blocks of `w`. -/
def keyFrom (block : Nat → List α) (w n i : Nat) : List α :=
  ((List.range' i ((n + w - 1) / w - i)).flatMap block).take (n - i * w)

def key (block : Nat → List α) (w n : Nat) : List α :=
  ((List.range ((n + w - 1) / w)).flatMap block).take n

variable {block : Nat → List α} {w n i : Nat}

theorem keyFrom_zero (block : Nat → List α) (w n : Nat) : keyFrom block w n 0 = key block w n := by
  rw [keyFrom, key, List.range_eq_range', Nat.sub_zero, Nat.zero_mul, Nat.sub_zero]

theorem keyFrom_end (h : n ≤ i * w) : keyFrom block w n i = [] := by
  rw [keyFrom, Nat.sub_eq_zero_of_le h, List.take_zero]

theorem keyFrom_step (hw : 0 < w) (hblock : (block i).length = w) (h : i * w < n) :
    keyFrom block w n i = (block i).take (n - i * w) ++ keyFrom block w n (i + 1) := by
  have hmore : i < (n + w - 1) / w := by
    rw [Nat.lt_div_iff_mul_lt hw]
    omega
  have hcount : (n + w - 1) / w - i = ((n + w - 1) / w - (i + 1)) + 1 := by omega
  rw [keyFrom, hcount, List.range'_succ, List.flatMap_cons, List.take_append, hblock, keyFrom, Nat.sub_sub,
    Nat.succ_mul]

theorem length_keyFrom (hw : 0 < w) (hblock : ∀ i, (block i).length = w) (i : Nat) :
    (keyFrom block w n i).length = n - i * w := by
  rcases Nat.lt_or_ge (i * w) n with hlt | hge
  · have hrest : (keyFrom block w n (i + 1)).length = n - (i + 1) * w := length_keyFrom hw hblock (i + 1)
    rw [keyFrom_step hw (hblock i) hlt, List.length_append, List.length_take, hblock, hrest, Nat.succ_mul]
    omega
  · rw [keyFrom_end hge, List.length_nil, Nat.sub_eq_zero_of_le hge]
termination_by n - i * w
decreasing_by
  rw [Nat.succ_mul]
  omega

theorem length_key (hw : 0 < w) (hblock : ∀ i, (block i).length = w) : (key block w n).length = n := by
  have hlength := length_keyFrom (n := n) hw hblock 0
  rwa [keyFrom_zero, Nat.zero_mul, Nat.sub_zero] at hlength

/-- A round of a loop that writes the key: the bytes of block `i`, and the rest behind them. -/
theorem put_keyFrom (hw : 0 < w) (hblock : ∀ i, (block i).length = w) {mem : List α} {off : Nat}
    (hfits : off + n ≤ mem.length) (h : i * w < n) :
    put (put mem (off + i * w) ((block i).take (n - i * w))) (off + (i + 1) * w) (keyFrom block w n (i + 1)) =
      put mem (off + i * w) (keyFrom block w n i) := by
  rw [keyFrom_step hw (hblock i) h]
  rcases Nat.lt_or_ge n ((i + 1) * w) with hcut | hwhole
  · rw [keyFrom_end hcut.le, put_nil, List.append_nil]
  · have hplace : off + (i + 1) * w = off + i * w + ((block i).take (n - i * w)).length := by
      rw [Nat.succ_mul] at hwhole ⊢
      rw [List.length_take, hblock]
      omega
    rw [hplace]
    apply put_put
    rw [← hplace]
    omega

end Blocks

/-! ## The keyed hash -/

/-- `K` over the first cells of a block that is filled with `b`. -/
def pad (b : UInt8) (K : List UInt8) : List UInt8 :=
  List.zipWith (· ^^^ ·) (List.replicate 64 b) K ++ List.replicate (64 - K.length) b

/-- HMAC for a hash with blocks of 64 bytes. -/
def hmac (hash : List UInt8 → List UInt8) (K message : List UInt8) : List UInt8 :=
  let K := if K.length > 64 then hash K else K
  hash (pad 0x5c K ++ hash (pad 0x36 K ++ message))

/-! ## The key -/

/-- The exclusive or of `T` and the next `rounds` values after `U`. -/
def fold (prf : List UInt8 → List UInt8) : Nat → List UInt8 → List UInt8 → List UInt8
  | 0, _, T => T
  | rounds + 1, U, T => fold prf rounds (prf U) (List.zipWith (· ^^^ ·) T (prf U))

/-- The number of a block, most significant byte first. -/
def blockNumber (n : Nat) : List UInt8 :=
  [UInt8.ofNat (n / 2 ^ 24), UInt8.ofNat (n / 2 ^ 16), UInt8.ofNat (n / 2 ^ 8), UInt8.ofNat n]

/-- `PBKDF2(passwd, salt, c, dkLen)`. -/
def pbkdf2 (hash : List UInt8 → List UInt8) (passwd salt : List UInt8) (c dkLen : Nat) : List UInt8 :=
  key (fun i =>
    let U := hmac hash passwd (salt ++ blockNumber (i + 1))
    fold (hmac hash passwd) (c - 1) U U) 32 dkLen

end Pbkdf2
