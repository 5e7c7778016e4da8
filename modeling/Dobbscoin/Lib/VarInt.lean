import Dobbscoin.Lib.ByteCodec

/-!
# Variable-length integers

Base 128, the most significant digits first; all bytes but the last one have the high bit set.  One is subtracted for each
further byte, so that every number has a single encoding.
-/

namespace ByteCodec

/-- `flag` is added to the last byte. -/
def writeVarInt (flag n : Nat) : Bytes :=
  (if n ≤ 0x7f then [] else writeVarInt 0x80 (n / 128 - 1)) ++ [UInt8.ofNat (n % 128 + flag)]
termination_by n
decreasing_by omega

def readVarInt : Nat → Bytes → Option (Nat × Bytes)
  | _, [] => none
  | n, chData :: rest =>
    let n := n * 128 + chData.toNat % 128
    if chData.toNat < 0x80 then some (n, rest) else readVarInt (n + 1) rest

theorem writeVarInt_small {flag n : Nat} (h : n ≤ 0x7f) : writeVarInt flag n = [UInt8.ofNat (n % 128 + flag)] := by
  rw [writeVarInt, if_pos h, List.nil_append]

theorem writeVarInt_large {flag n : Nat} (h : ¬n ≤ 0x7f) :
    writeVarInt flag n = writeVarInt 0x80 (n / 128 - 1) ++ [UInt8.ofNat (n % 128 + flag)] := by
  rw [writeVarInt, if_neg h]

theorem toNat_last (n : Nat) : (UInt8.ofNat (n % 128 + 0)).toNat = n % 128 := by
  rw [add_zero, UInt8.toNat_ofNat']
  exact Nat.mod_eq_of_lt (by omega)

theorem toNat_lead (n : Nat) : (UInt8.ofNat (n % 128 + 0x80)).toNat = n % 128 + 128 := by
  rw [UInt8.toNat_ofNat']
  exact Nat.mod_eq_of_lt (by omega)

/-- What stands before the last byte is one less than the digits that it encodes. -/
theorem readVarInt_lead (n : Nat) (rest : Bytes) : readVarInt 0 (writeVarInt 0x80 n ++ rest) = readVarInt (n + 1) rest := by
  induction n using Nat.strongRecOn generalizing rest with
  | ind n ih =>
    have hlead := toNat_lead n
    have hflag : ¬n % 128 + 128 < 0x80 := by omega
    by_cases hsmall : n ≤ 0x7f
    · have hn : 0 * 128 + (n % 128 + 128) % 128 = n := by omega
      rw [writeVarInt_small hsmall, List.singleton_append, readVarInt]
      rw [hlead, if_neg hflag, hn]
    · have hn : (n / 128 - 1 + 1) * 128 + (n % 128 + 128) % 128 = n := by omega
      rw [writeVarInt_large hsmall, List.append_assoc, ih (n / 128 - 1) (by omega), List.singleton_append, readVarInt]
      rw [hlead, if_neg hflag, hn]

theorem readVarInt_write (n : Nat) (rest : Bytes) : readVarInt 0 (writeVarInt 0 n ++ rest) = some (n, rest) := by
  have hlast := toNat_last n
  have hflag : n % 128 < 0x80 := by omega
  by_cases hsmall : n ≤ 0x7f
  · have hn : 0 * 128 + n % 128 % 128 = n := by omega
    rw [writeVarInt_small hsmall, List.singleton_append, readVarInt]
    rw [hlast, if_pos hflag, hn]
  · have hn : (n / 128 - 1 + 1) * 128 + n % 128 % 128 = n := by omega
    rw [writeVarInt_large hsmall, List.append_assoc, readVarInt_lead, List.singleton_append, readVarInt]
    rw [hlast, if_pos hflag, hn]

/-- The induction is on the bytes that are still to be read; `k` stands for those before them. -/
theorem write_of_readVarInt {bs rest : Bytes} {n : Nat} : ∀ {k : Nat}, readVarInt (k + 1) bs = some (n, rest) →
    writeVarInt 0x80 k ++ bs = writeVarInt 0 n ++ rest := by
  induction bs with
  | nil => exact fun h => by cases h
  | cons b bs ih =>
    intro k h
    have hb := b.toNat_lt
    rw [readVarInt] at h
    by_cases hflag : b.toNat < 0x80
    · rw [if_pos hflag, Option.some.injEq, Prod.mk.injEq] at h
      rcases h with ⟨rfl, rfl⟩
      have hsmall : ¬(k + 1) * 128 + b.toNat % 128 ≤ 0x7f := by omega
      have hdigits : ((k + 1) * 128 + b.toNat % 128) / 128 - 1 = k := by omega
      have hlast : ((k + 1) * 128 + b.toNat % 128) % 128 + 0 = b.toNat := by omega
      rw [writeVarInt_large hsmall, hdigits, hlast, UInt8.ofNat_toNat, List.append_assoc, List.singleton_append]
    · rw [if_neg hflag] at h
      have hsmall : ¬(k + 1) * 128 + b.toNat % 128 ≤ 0x7f := by omega
      have hdigits : ((k + 1) * 128 + b.toNat % 128) / 128 - 1 = k := by omega
      have hlead : ((k + 1) * 128 + b.toNat % 128) % 128 + 0x80 = b.toNat := by omega
      rw [← ih h, writeVarInt_large hsmall, hdigits, hlead, UInt8.ofNat_toNat, List.append_assoc, List.singleton_append]

def varInt : ByteCodec Nat where
  put := writeVarInt 0
  get := readVarInt 0
  Fits _ := True
  get_put := fun {n} _ rest => readVarInt_write n rest
  put_get := by
    intro bs n rest h
    refine ⟨trivial, ?_⟩
    cases bs with
    | nil => cases h
    | cons b bs =>
      have hb := b.toNat_lt
      rw [readVarInt] at h
      by_cases hflag : b.toNat < 0x80
      · rw [if_pos hflag, Option.some.injEq, Prod.mk.injEq] at h
        rcases h with ⟨rfl, rfl⟩
        have hsmall : 0 * 128 + b.toNat % 128 ≤ 0x7f := by omega
        have hlast : (0 * 128 + b.toNat % 128) % 128 + 0 = b.toNat := by omega
        rw [writeVarInt_small hsmall, hlast, UInt8.ofNat_toNat, List.singleton_append]
      · rw [if_neg hflag] at h
        have hsmall : 0 * 128 + b.toNat % 128 ≤ 0x7f := by omega
        have hlead : (0 * 128 + b.toNat % 128) % 128 + 0x80 = b.toNat := by omega
        rw [← write_of_readVarInt h, writeVarInt_small hsmall, hlead, UInt8.ofNat_toNat, List.singleton_append]

/-! ## Types of a fixed width -/

/-- What is read into an unsigned type of `w` bits. -/
def readVarIntMod (w : Nat) : Nat → Bytes → Option (Nat × Bytes)
  | _, [] => none
  | n, chData :: rest =>
    let n := (n * 128 + chData.toNat % 128) % 2 ^ w
    if chData.toNat < 0x80 then some (n, rest) else readVarIntMod w ((n + 1) % 2 ^ w) rest

theorem readVarInt_ge {bs rest : Bytes} {k n : Nat} (h : readVarInt k bs = some (n, rest)) : k * 128 ≤ n := by
  induction bs generalizing k with
  | nil => cases h
  | cons b bs ih =>
    rw [readVarInt] at h
    by_cases hflag : b.toNat < 0x80
    · rw [if_pos hflag] at h
      cases h
      omega
    · rw [if_neg hflag] at h
      have hrest := ih h
      omega

/-- What fits into the type is read without an overflow. -/
theorem readVarIntMod_of_readVarInt {w : Nat} {bs rest : Bytes} {k n : Nat} (h : readVarInt k bs = some (n, rest))
    (hn : n < 2 ^ w) : readVarIntMod w k bs = some (n, rest) := by
  induction bs generalizing k with
  | nil => cases h
  | cons b bs ih =>
    rw [readVarInt] at h
    rw [readVarIntMod]
    by_cases hflag : b.toNat < 0x80
    · rw [if_pos hflag] at h
      cases h
      rw [if_pos hflag, Nat.mod_eq_of_lt hn]
    · rw [if_neg hflag] at h
      have hnext := readVarInt_ge h
      have hfits : k * 128 + b.toNat % 128 < 2 ^ w := by omega
      have hfits' : k * 128 + b.toNat % 128 + 1 < 2 ^ w := by omega
      rw [if_neg hflag, Nat.mod_eq_of_lt hfits, Nat.mod_eq_of_lt hfits', ih h]

theorem readVarIntMod_write {w n : Nat} (hn : n < 2 ^ w) (rest : Bytes) :
    readVarIntMod w 0 (writeVarInt 0 n ++ rest) = some (n, rest) :=
  readVarIntMod_of_readVarInt (readVarInt_write n rest) hn

theorem writeVarInt_inj {m n : Nat} (h : writeVarInt 0 m = writeVarInt 0 n) : m = n :=
  varInt.put_inj trivial trivial h

/-! ## Sizes -/

def sizeOfVarInt (n : Nat) : Nat :=
  if n ≤ 0x7f then 1 else sizeOfVarInt (n / 128 - 1) + 1
termination_by n
decreasing_by omega

theorem length_writeVarInt (flag n : Nat) : (writeVarInt flag n).length = sizeOfVarInt n := by
  induction n using Nat.strongRecOn generalizing flag with
  | ind n ih =>
    rw [sizeOfVarInt]
    by_cases hsmall : n ≤ 0x7f
    · rw [writeVarInt_small hsmall, if_pos hsmall]
      rfl
    · rw [writeVarInt_large hsmall, if_neg hsmall, List.length_append, ih (n / 128 - 1) (by omega)]
      rfl

theorem sizeOfVarInt_le {k n : Nat} (h : n < 128 ^ (k + 1)) : sizeOfVarInt n ≤ k + 1 := by
  induction k generalizing n with
  | zero =>
    rw [sizeOfVarInt, if_pos (by omega)]
  | succ k ih =>
    rw [sizeOfVarInt]
    by_cases hsmall : n ≤ 0x7f
    · rw [if_pos hsmall]
      omega
    · have hrest : n / 128 - 1 < 128 ^ (k + 1) := by
        rw [Nat.pow_succ] at h
        omega
      have hle := ih hrest
      rw [if_neg hsmall]
      omega

/-- A number of `w` bits takes `(w + 6) / 7` bytes at most. -/
theorem sizeOfVarInt_le_width {w n : Nat} (hw : 1 ≤ w) (hn : n < 2 ^ w) : sizeOfVarInt n ≤ (w + 6) / 7 := by
  obtain ⟨k, hk⟩ : ∃ k, (w + 6) / 7 = k + 1 := ⟨(w + 6) / 7 - 1, by omega⟩
  rw [hk]
  refine sizeOfVarInt_le (hn.trans_le ?_)
  calc
    2 ^ w ≤ 2 ^ (7 * (k + 1)) := Nat.pow_le_pow_right (by decide) (by omega)
    _ = 128 ^ (k + 1) := by rw [Nat.pow_mul]

end ByteCodec
