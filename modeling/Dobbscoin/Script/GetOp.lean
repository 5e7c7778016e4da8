import Dobbscoin.Script.SignatureHash

/-!
# Reading opcodes

`GetOp` cuts a script into opcodes.  What an opcode is depends on its own bytes alone, as long as the script
is shorter than 2^32 bytes: the distance to the end is compared as an `unsigned int`.
-/

namespace Dobbscoin

open ByteCodec

variable {pc rest data : Bytes} {opcode : Nat}

namespace CScript

/-! ## One opcode -/

/-- The size of an operand is in a stretch of bytes that comes first. -/
theorem pushSize_split {opcode n : Nat} {pc pc' : Bytes} (h : pushSize opcode pc = some (n, pc')) :
    ∃ size, pc = size ++ pc' ∧ ∀ x, pushSize opcode (size ++ x) = some (n, x) := by
  -- A size of `w` bytes.
  have hwide : ∀ w, ¬ pc.length < w → (leNat (pc.take w), pc.drop w) = (n, pc') →
      ∃ size : Bytes, size.length = w ∧ leNat size = n ∧ pc = size ++ pc' := by
    intro w hw heq
    rw [Prod.mk.injEq] at heq
    refine ⟨pc.take w, ?_, heq.1, ?_⟩
    · rw [List.length_take, Nat.min_eq_left (Nat.not_lt.1 hw)]
    · rw [← heq.2, List.take_append_drop]
  have hread : ∀ (size x : Bytes) (w : Nat), size.length = w → ¬ (size ++ x).length < w ∧
      (size ++ x).take w = size ∧ (size ++ x).drop w = x := by
    rintro size x w rfl
    exact ⟨by simp, List.take_left, List.drop_left⟩
  unfold pushSize at h
  split_ifs at h with h0 h1 hlen1 h2 hlen2 h4 hlen4
  · rw [Option.some.injEq, Prod.mk.injEq] at h
    refine ⟨[], by rw [h.2, List.nil_append], fun x => ?_⟩
    rw [pushSize, if_pos h0, h.1, List.nil_append]
  · rcases hwide 1 hlen1 (Option.some.inj h) with ⟨size, hsize, hn, hpc⟩
    refine ⟨size, hpc, fun x => ?_⟩
    rcases hread size x 1 hsize with ⟨hlen, htake, hdrop⟩
    rw [pushSize, if_neg h0, if_pos h1, if_neg hlen, htake, hdrop, hn]
  · rcases hwide 2 hlen2 (Option.some.inj h) with ⟨size, hsize, hn, hpc⟩
    refine ⟨size, hpc, fun x => ?_⟩
    rcases hread size x 2 hsize with ⟨hlen, htake, hdrop⟩
    rw [pushSize, if_neg h0, if_neg h1, if_pos h2, if_neg hlen, htake, hdrop, hn]
  · rcases hwide 4 hlen4 (Option.some.inj h) with ⟨size, hsize, hn, hpc⟩
    refine ⟨size, hpc, fun x => ?_⟩
    rcases hread size x 4 hsize with ⟨hlen, htake, hdrop⟩
    rw [pushSize, if_neg h0, if_neg h1, if_neg h2, if_pos h4, if_neg hlen, htake, hdrop, hn]
  · rw [Option.some.injEq, Prod.mk.injEq] at h
    refine ⟨[], by rw [h.2, List.nil_append], fun x => ?_⟩
    rw [pushSize, if_neg h0, if_neg h1, if_neg h2, if_neg h4, h.1, List.nil_append]

/-- Opcodes above `OP_PUSHDATA4` have no operand. -/
theorem pushSize_op (h : opPushData4 < opcode) (pc : Bytes) : pushSize opcode pc = some (0, pc) := by
  unfold pushSize opPushData1 opPushData2 opPushData4 at *
  rw [if_neg (by omega), if_neg (by omega), if_neg (by omega), if_neg (by omega)]

theorem getOp_head {b : UInt8}
    (h : getOp (b :: pc) = some (opcode, data, rest)) : b.toNat = opcode := by
  rw [getOp] at h
  cases hpush : pushSize b.toNat pc with
  | none => simp [hpush] at h
  | some res =>
    simp only [hpush] at h
    split_ifs at h
    rw [Option.some.injEq, Prod.mk.injEq] at h
    exact h.1

theorem getOp_data_nil (h : getOp pc = some (opcode, data, rest))
    (hop : opPushData4 < opcode) : data = [] := by
  cases pc with
  | nil => cases h
  | cons b pc =>
    have hsize : pushSize b.toNat pc = some (0, pc) := pushSize_op (by rw [getOp_head h]; exact hop) pc
    rw [getOp, hsize] at h
    simp only [List.take_zero] at h
    split_ifs at h
    rw [Option.some.injEq, Prod.mk.injEq, Prod.mk.injEq] at h
    exact h.2.1.symm

/-- An opcode is a stretch of bytes of its own, whatever follows. -/
theorem getOp_split (h : getOp pc = some (opcode, data, rest)) :
    ∃ op, op ≠ [] ∧ pc = op ++ rest ∧
      ∀ x, (op ++ x).length < 2 ^ 32 → getOp (op ++ x) = some (opcode, data, x) := by
  cases pc with
  | nil => simp [getOp] at h
  | cons b pc =>
    rw [getOp] at h
    cases hpush : pushSize b.toNat pc with
    | none => simp [hpush] at h
    | some res =>
      rcases res with ⟨n, pc'⟩
      simp only [hpush] at h
      split_ifs at h with hlen
      rw [Option.some.injEq, Prod.mk.injEq, Prod.mk.injEq] at h
      rcases h with ⟨rfl, rfl, rfl⟩
      rcases pushSize_split hpush with ⟨size, rfl, hsize⟩
      have hn : n ≤ pc'.length := (Nat.not_lt.1 hlen).trans (Nat.mod_le _ _)
      have htake : (pc'.take n).length = n := by rw [List.length_take, Nat.min_eq_left hn]
      refine ⟨b :: (size ++ pc'.take n), List.cons_ne_nil _ _, ?_, fun x hx => ?_⟩
      · rw [List.cons_append, List.append_assoc, List.take_append_drop]
      · have hfits : ¬ (pc'.take n ++ x).length % 2 ^ 32 < n := by
          rw [List.cons_append, List.append_assoc, List.length_cons, List.length_append] at hx
          rw [Nat.mod_eq_of_lt (by omega), List.length_append, htake]
          omega
        have hdata : (pc'.take n ++ x).take n = pc'.take n := List.take_left' htake
        have hrest : (pc'.take n ++ x).drop n = x := List.drop_left' htake
        rw [List.cons_append, List.append_assoc, getOp, hsize]
        dsimp only
        rw [if_neg hfits, hdata, hrest]

theorem pushSize_length_le {opcode n : Nat} {pc pc' : Bytes} (h : pushSize opcode pc = some (n, pc')) :
    pc.length ≤ pc'.length + 4 := by
  unfold pushSize at h
  split_ifs at h <;>
    · rw [Option.some.injEq, Prod.mk.injEq] at h
      have hlen := congrArg List.length h.2
      first
        | rw [List.length_drop] at hlen; omega
        | omega

/-- An opcode is its data and at most five bytes. -/
theorem getOp_length_le (h : getOp pc = some (opcode, data, rest)) :
    data.length + rest.length < pc.length ∧ pc.length ≤ data.length + rest.length + 5 := by
  cases pc with
  | nil => cases h
  | cons b pc =>
    rw [getOp] at h
    cases hpush : pushSize b.toNat pc with
    | none => simp [hpush] at h
    | some res =>
      rcases res with ⟨n, pc'⟩
      have hle := pushSize_length hpush
      have hge := pushSize_length_le hpush
      have hsum := congrArg List.length (List.take_append_drop n pc')
      simp only [hpush] at h
      split_ifs at h
      rw [Option.some.injEq, Prod.mk.injEq, Prod.mk.injEq] at h
      rw [List.length_append, h.2.1, h.2.2] at hsum
      rw [List.length_cons]
      omega

/-- The bytes of the opcode that was read. -/
theorem getOp_take (h : getOp pc = some (opcode, data, rest)) :
    pc.take (pc.length - rest.length) ++ rest = pc := by
  rcases getOp_split h with ⟨op, -, rfl, -⟩
  rw [List.length_append, Nat.add_sub_cancel, List.take_left]

/-- A failed `GetOp` leaves the iterator inside of the script, too. -/
theorem getOpStop_suffix (pc : Bytes) : getOpStop pc <:+ pc := by
  cases pc with
  | nil => exact List.suffix_refl []
  | cons b pc =>
    rw [getOpStop]
    cases hpush : pushSize b.toNat pc with
    | none => exact List.suffix_cons b pc
    | some res =>
      rcases res with ⟨n, pc'⟩
      rcases pushSize_split hpush with ⟨size, rfl, -⟩
      exact (List.suffix_append size pc').trans (List.suffix_cons b _)

/-! ## The loop -/

/-- `while (GetOp(pc, opcode, data))`: what was read, and where it stopped. -/
def getOps : Nat → Bytes → List (Nat × Bytes) × Bytes
  | 0, pc => ([], pc)
  | fuel + 1, pc =>
    match getOp pc with
    | none => ([], pc)
    | some (opcode, data, pc') =>
      let (ops, rest) := getOps fuel pc'
      ((opcode, data) :: ops, rest)

/-- `GetOp` comes from one position to the other. -/
inductive Reads : Bytes → Bytes → Prop
  | here (pc : Bytes) : Reads pc pc
  | next {pc pc' rest data : Bytes} {opcode : Nat} (op : getOp pc = some (opcode, data, pc'))
    (more : Reads pc' rest) : Reads pc rest

theorem Reads.suffix {pc rest : Bytes} (h : Reads pc rest) : rest <:+ pc := by
  induction h with
  | here pc => exact List.suffix_refl pc
  | next op more ih =>
    rcases getOp_split op with ⟨bytes, -, rfl, -⟩
    exact ih.trans (List.suffix_append bytes _)

theorem getOps_of_none {pc : Bytes} (h : getOp pc = none) (fuel : Nat) : getOps fuel pc = ([], pc) := by
  cases fuel with
  | zero => rfl
  | succ fuel => rw [getOps, h]

/-- Every round reads a byte at least, so that the length of the script is fuel enough. -/
theorem getOps_stops {fuel : Nat} {pc : Bytes} (h : pc.length ≤ fuel) :
    getOps fuel pc = getOps pc.length pc ∧ Reads pc (getOps fuel pc).2 ∧ getOp (getOps fuel pc).2 = none := by
  induction fuel using Nat.strong_induction_on generalizing pc with
  | _ fuel ih =>
    cases fuel with
    | zero =>
      have hnil : pc = [] := List.length_eq_zero_iff.1 (Nat.le_zero.1 h)
      subst hnil
      exact ⟨rfl, .here [], rfl⟩
    | succ fuel =>
      cases hop : getOp pc with
      | none =>
        rw [getOps_of_none hop, getOps_of_none hop]
        exact ⟨rfl, .here pc, hop⟩
      | some op =>
        rcases op with ⟨opcode, data, pc'⟩
        have hlt := getOp_length hop
        obtain ⟨n, hn⟩ : ∃ n, pc.length = n + 1 := ⟨pc.length - 1, by omega⟩
        have hle : pc'.length ≤ fuel ∧ pc'.length ≤ n ∧ n < fuel + 1 := by omega
        have hfuel := ih fuel (Nat.lt_succ_self fuel) hle.1
        have hlen := ih n hle.2.2 hle.2.1
        rw [hn, getOps, getOps, hop]
        dsimp only
        rw [hfuel.1, hlen.1]
        refine ⟨rfl, ?_, ?_⟩
        · rw [← hfuel.1]
          exact .next hop hfuel.2.1
        · rw [← hfuel.1]
          exact hfuel.2.2

end CScript

end Dobbscoin
