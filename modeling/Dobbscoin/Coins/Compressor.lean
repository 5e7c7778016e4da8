import Dobbscoin.Lib.VarInt
import Dobbscoin.Primitives.Transaction

/-!
# Compressed outputs

`compressor.h` and `compressor.cpp`: amounts without their zeros, and short forms for common scripts.
-/

namespace Dobbscoin

open ByteCodec

variable {script : CScript} {K : PubKeyOps}

/-! ## Amounts -/

/-- The loop that divides by ten, for `fuel` more times at most. -/
def stripZeros : Nat → UInt64 → Nat → UInt64 × Nat
  | 0, n, e => (n, e)
  | fuel + 1, n, e => if n % 10 = 0 then stripZeros fuel (n / 10) (e + 1) else (n, e)

def compressAmount (n : UInt64) : UInt64 :=
  if n = 0 then 0
  else
    let (n, e) := stripZeros 9 n 0
    if e < 9 then
      -- The loop has stopped at a digit that is not zero, which is what the source asserts.
      let d := n % 10
      let n := n / 10
      1 + (n * 9 + d - 1) * 10 + UInt64.ofNat e
    else 1 + (n - 1) * 10 + 9

/-- The loop that multiplies by ten. -/
def appendZeros : Nat → UInt64 → UInt64
  | 0, n => n
  | e + 1, n => appendZeros e (n * 10)

def decompressAmount (x : UInt64) : UInt64 :=
  if x = 0 then 0
  else
    let x := x - 1
    let e := x % 10
    let x := x / 10
    let n :=
      if e < 9 then
        let d := x % 9 + 1
        x / 9 * 10 + d
      else x + 1
    appendZeros e.toNat n

/-! ## Scripts -/

/-- What `CPubKey` does with the curve: whether a key is fully valid, and the uncompressed form of a key. -/
structure PubKeyOps where
  isFullyValid : Bytes → Bool
  decompress : Bytes → Option Bytes

namespace CScriptCompressor

def nSpecialScripts : Nat := 6

def isToKeyID (script : CScript) : Option Bytes :=
  if script.length = 25 ∧ script.take 3 = [0x76, 0xa9, 20] ∧ script.drop 23 = [0x88, 0xac] then
    some ((script.drop 3).take 20)
  else none

def isToScriptID (script : CScript) : Option Bytes :=
  if script.length = 23 ∧ script.take 2 = [0xa9, 20] ∧ script.drop 22 = [0x87] then some ((script.drop 2).take 20)
  else none

def isToPubKey (K : PubKeyOps) (script : CScript) : Option Bytes :=
  if script.length = 35 ∧ script.take 1 = [33] ∧ script.drop 34 = [0xac] ∧
      (script.getD 1 0 = 0x02 ∨ script.getD 1 0 = 0x03) then
    some ((script.drop 1).take 33)
  else if script.length = 67 ∧ script.take 1 = [65] ∧ script.drop 66 = [0xac] ∧ script.getD 1 0 = 0x04 then
    let pubkey := (script.drop 1).take 65
    if K.isFullyValid pubkey then some pubkey else none
  else none

def compress (K : PubKeyOps) (script : CScript) : Option Bytes :=
  match isToKeyID script with
  | some keyID => some (0x00 :: keyID)
  | none =>
    match isToScriptID script with
    | some scriptID => some (0x01 :: scriptID)
    | none =>
      match isToPubKey K script with
      | some pubkey =>
        let x := (pubkey.drop 1).take 32
        if pubkey.getD 0 0 = 0x02 ∨ pubkey.getD 0 0 = 0x03 then some (pubkey.getD 0 0 :: x)
        else if pubkey.getD 0 0 = 0x04 then some ((0x04 ||| (pubkey.getD 64 0 &&& 0x01)) :: x)
        else none
      | none => none

def getSpecialSize (nSize : Nat) : Nat :=
  if nSize = 0 ∨ nSize = 1 then 20 else if nSize = 2 ∨ nSize = 3 ∨ nSize = 4 ∨ nSize = 5 then 32 else 0

/-- The script, unless the key cannot be decompressed. -/
def decompress (K : PubKeyOps) (nSize : Nat) (vch : Bytes) : Option CScript :=
  match nSize with
  | 0 => some ([0x76, 0xa9, 20] ++ vch ++ [0x88, 0xac])
  | 1 => some ([0xa9, 20] ++ vch ++ [0x87])
  | 2 | 3 => some ([33, UInt8.ofNat nSize] ++ vch ++ [0xac])
  | 4 | 5 => (K.decompress (UInt8.ofNat (nSize - 2) :: vch)).map fun pubkey => [65] ++ pubkey ++ [0xac]
  | _ => none

/-- Sizes are an `unsigned int`.  A script that cannot be decompressed stays as it was, which is empty. -/
def format (K : PubKeyOps) : Format CScript where
  put script :=
    match compress K script with
    | some compr => compr
    | none => writeVarInt 0 ((script.length + nSpecialScripts) % 2 ^ 32) ++ script
  get bs := do
    let (nSize, bs) ← readVarIntMod 32 0 bs
    if nSize < nSpecialScripts then do
      let (vch, bs) ← (block (getSpecialSize nSize)).get bs
      return ((decompress K nSize vch).getD [], bs)
    else (block (nSize - nSpecialScripts)).get bs

end CScriptCompressor

namespace CTxOutCompressor

def format (K : PubKeyOps) : Format CTxOut where
  put txout :=
    writeVarInt 0 (compressAmount txout.nValue.toUInt64).toNat ++ (CScriptCompressor.format K).put txout.scriptPubKey
  get bs := do
    let (nVal, bs) ← readVarIntMod 64 0 bs
    let (scriptPubKey, bs) ← (CScriptCompressor.format K).get bs
    return (⟨(decompressAmount (UInt64.ofNat nVal)).toInt64, scriptPubKey⟩, bs)

end CTxOutCompressor

/-! ## Amounts without a bound -/

namespace Exact

def stripZeros : Nat → Nat → Nat → Nat × Nat
  | 0, n, e => (n, e)
  | fuel + 1, n, e => if n % 10 = 0 then stripZeros fuel (n / 10) (e + 1) else (n, e)

def compressAmount (n : Nat) : Nat :=
  if n = 0 then 0
  else
    let (n, e) := stripZeros 9 n 0
    if e < 9 then 1 + (n / 10 * 9 + n % 10 - 1) * 10 + e else 1 + (n - 1) * 10 + 9

def decompressAmount (x : Nat) : Nat :=
  if x = 0 then 0
  else
    let e := (x - 1) % 10
    let x := (x - 1) / 10
    (if e < 9 then x / 9 * 10 + (x % 9 + 1) else x + 1) * 10 ^ e

theorem stripZeros_spec (fuel n e : Nat) :
    ∃ m k, stripZeros fuel n e = (m, e + k) ∧ k ≤ fuel ∧ n = m * 10 ^ k ∧ (k < fuel → m % 10 ≠ 0) := by
  induction fuel generalizing n e with
  | zero => exact ⟨n, 0, rfl, le_rfl, by simp, fun h => absurd h (lt_irrefl 0)⟩
  | succ fuel ih =>
    rw [stripZeros]
    by_cases hzero : n % 10 = 0
    · rcases ih (n / 10) (e + 1) with ⟨m, k, hloop, hk, hvalue, hlast⟩
      refine ⟨m, k + 1, ?_, by omega, ?_, fun h => hlast (by omega)⟩
      · rw [if_pos hzero, hloop, Nat.add_assoc, Nat.add_comm 1 k]
      · rw [Nat.pow_succ, ← Nat.mul_assoc, ← hvalue]
        omega
    · exact ⟨n, 0, if_neg hzero, Nat.zero_le _, by simp, fun _ => hzero⟩

/-- What a number that is not zero is compressed to. -/
theorem compressAmount_spec {n : Nat} (hn : n ≠ 0) :
    ∃ m e, stripZeros 9 n 0 = (m, e) ∧ e ≤ 9 ∧ n = m * 10 ^ e ∧ 0 < m ∧ (e < 9 → m % 10 ≠ 0) := by
  rcases stripZeros_spec 9 n 0 with ⟨m, e, hloop, he, hvalue, hlast⟩
  rw [Nat.zero_add] at hloop
  refine ⟨m, e, hloop, he, hvalue, Nat.pos_of_ne_zero ?_, hlast⟩
  rintro rfl
  rw [Nat.zero_mul] at hvalue
  exact hn hvalue

theorem decompressAmount_compressAmount (n : Nat) : decompressAmount (compressAmount n) = n := by
  by_cases hn : n = 0
  · subst hn
    rfl
  rcases compressAmount_spec hn with ⟨m, e, hloop, he, hvalue, hpos, hlast⟩
  rw [compressAmount, if_neg hn, hloop]
  dsimp only
  by_cases hdigits : e < 9
  · have hlast' := hlast hdigits
    have hcode : 1 + (m / 10 * 9 + m % 10 - 1) * 10 + e ≠ 0 := by omega
    have hexp : (1 + (m / 10 * 9 + m % 10 - 1) * 10 + e - 1) % 10 = e := by omega
    have hrest : (1 + (m / 10 * 9 + m % 10 - 1) * 10 + e - 1) / 10 = m / 10 * 9 + m % 10 - 1 := by omega
    have hback : (m / 10 * 9 + m % 10 - 1) / 9 * 10 + ((m / 10 * 9 + m % 10 - 1) % 9 + 1) = m := by omega
    rw [if_pos hdigits, decompressAmount, if_neg hcode]
    dsimp only
    rw [hexp, hrest, if_pos hdigits, hback, ← hvalue]
  · have hnine : e = 9 := by omega
    subst hnine
    have hcode : 1 + (m - 1) * 10 + 9 ≠ 0 := by omega
    have hexp : (1 + (m - 1) * 10 + 9 - 1) % 10 = 9 := by omega
    have hback : (1 + (m - 1) * 10 + 9 - 1) / 10 + 1 = m := by omega
    rw [if_neg hdigits, decompressAmount, if_neg hcode]
    dsimp only
    rw [hexp, if_neg hdigits, hback, ← hvalue]

end Exact

/-! ## Amounts do not overflow -/

theorem stripZeros_exact (fuel : Nat) (n : UInt64) (e : Nat) :
    Exact.stripZeros fuel n.toNat e = ((stripZeros fuel n e).1.toNat, (stripZeros fuel n e).2) := by
  induction fuel generalizing n e with
  | zero => rfl
  | succ fuel ih =>
    have hdigit : n % 10 = 0 ↔ n.toNat % 10 = 0 := by
      rw [← UInt64.toNat_inj, UInt64.toNat_mod]
      exact Iff.rfl
    have hdiv : (n / 10).toNat = n.toNat / 10 := UInt64.toNat_div n 10
    rw [Exact.stripZeros, stripZeros]
    by_cases hzero : n % 10 = 0
    · rw [if_pos hzero, if_pos (hdigit.1 hzero), ← hdiv, ih]
    · rw [if_neg hzero, if_neg fun h => hzero (hdigit.2 h)]

/-- The largest amount. -/
theorem maxMoney_eq : maxMoney = 10 ^ 18 := by
  decide

theorem compressAmount_exact {n : UInt64} (hn : n.toNat ≤ 10 ^ 18) :
    (compressAmount n).toNat = Exact.compressAmount n.toNat := by
  unfold compressAmount Exact.compressAmount
  by_cases hzero : n = 0
  · subst hzero
    rfl
  have hzero' : n.toNat ≠ 0 := fun h => hzero (UInt64.toNat_inj.1 h)
  rcases Exact.compressAmount_spec hzero' with ⟨m, e, hloop, he, hvalue, hpos, hlast⟩
  have hsmall : m ≤ 10 ^ 18 := (Nat.le_mul_of_pos_right m (Nat.pow_pos (by decide : 0 < 10))).trans (hvalue ▸ hn)
  rw [if_neg hzero, if_neg hzero', hloop]
  rw [stripZeros_exact, Prod.mk.injEq] at hloop
  rcases hloop with ⟨hm, he'⟩
  have hten : (10 : UInt64).toNat = 10 := rfl
  have hnine : (9 : UInt64).toNat = 9 := rfl
  have hone : (1 : UInt64).toNat = 1 := rfl
  dsimp only
  rw [he']
  by_cases hdigits : e < 9
  · have hlast' := hlast hdigits
    have hexp : (UInt64.ofNat e).toNat = e := UInt64.toNat_ofNat_of_lt' (show e < 2 ^ 64 by omega)
    rw [if_pos hdigits, if_pos hdigits]
    simp only [UInt64.toNat_add, UInt64.toNat_mul, UInt64.toNat_sub, UInt64.toNat_div, UInt64.toNat_mod, hten, hnine,
      hone, hexp, hm]
    omega
  · rw [if_neg hdigits, if_neg hdigits]
    simp only [UInt64.toNat_add, UInt64.toNat_mul, UInt64.toNat_sub, hten, hnine, hone, hm]
    omega

theorem appendZeros_exact (e : Nat) (n : UInt64) (h : n.toNat * 10 ^ e < 2 ^ 64) :
    (appendZeros e n).toNat = n.toNat * 10 ^ e := by
  induction e generalizing n with
  | zero => simp [appendZeros]
  | succ e ih =>
    have hpos : 0 < 10 ^ e := Nat.pow_pos (by decide)
    have hle : n.toNat * 10 ≤ n.toNat * 10 * 10 ^ e := Nat.le_mul_of_pos_right _ hpos
    have hpow : n.toNat * 10 ^ (e + 1) = n.toNat * 10 * 10 ^ e := by ring
    rw [hpow] at h
    have hten : (n * 10).toNat = n.toNat * 10 := by
      have hmul : (n * 10).toNat = n.toNat * 10 % 2 ^ 64 := UInt64.toNat_mul n 10
      rw [hmul, Nat.mod_eq_of_lt (hle.trans_lt h)]
    rw [appendZeros, ih (n * 10) (by rwa [hten]), hten, hpow]

/-- Any code of an amount in range is expanded without an overflow. -/
theorem decompressAmount_exact {x : UInt64} (hx : Exact.decompressAmount x.toNat ≤ 10 ^ 18) :
    (decompressAmount x).toNat = Exact.decompressAmount x.toNat := by
  unfold decompressAmount
  unfold Exact.decompressAmount at hx ⊢
  by_cases hzero : x = 0
  · subst hzero
    rfl
  have hzero' : x.toNat ≠ 0 := fun h => hzero (UInt64.toNat_inj.1 h)
  have hx64 := x.toNat_lt
  have hten : (10 : UInt64).toNat = 10 := rfl
  have hnine : (9 : UInt64).toNat = 9 := rfl
  have hone : (1 : UInt64).toNat = 1 := rfl
  have hpred : (x - 1).toNat = x.toNat - 1 := by
    rw [UInt64.toNat_sub, hone]
    omega
  have hexp : ((x - 1) % 10).toNat = (x.toNat - 1) % 10 := by rw [UInt64.toNat_mod, hpred, hten]
  have hrest : ((x - 1) / 10).toNat = (x.toNat - 1) / 10 := by rw [UInt64.toNat_div, hpred, hten]
  have hcut : (x - 1) % 10 < 9 ↔ (x.toNat - 1) % 10 < 9 := by
    rw [UInt64.lt_iff_toNat_lt, hexp, hnine]
  rw [if_neg hzero'] at hx ⊢
  rw [if_neg hzero]
  dsimp only at hx ⊢
  have hnumber : (if (x - 1) % 10 < 9 then (x - 1) / 10 / 9 * 10 + ((x - 1) / 10 % 9 + 1) else (x - 1) / 10 + 1).toNat =
      if (x.toNat - 1) % 10 < 9 then (x.toNat - 1) / 10 / 9 * 10 + ((x.toNat - 1) / 10 % 9 + 1)
      else (x.toNat - 1) / 10 + 1 := by
    by_cases hdigits : (x - 1) % 10 < 9
    · rw [if_pos hdigits, if_pos (hcut.1 hdigits)]
      simp only [UInt64.toNat_add, UInt64.toNat_mul, UInt64.toNat_div, UInt64.toNat_mod, hrest, hten, hnine, hone]
      rw [if_pos (hcut.1 hdigits)] at hx
      have hpos : 0 < 10 ^ ((x.toNat - 1) % 10) := Nat.pow_pos (by decide)
      have hle := (Nat.le_mul_of_pos_right ((x.toNat - 1) / 10 / 9 * 10 + ((x.toNat - 1) / 10 % 9 + 1)) hpos).trans hx
      omega
    · rw [if_neg hdigits, if_neg fun h => hdigits (hcut.2 h), UInt64.toNat_add, hrest, hone]
      omega
  rw [hexp, appendZeros_exact _ _ (by rw [hnumber]; omega), hnumber]

theorem decompressAmount_compressAmount {n : UInt64} (hn : n.toNat ≤ 10 ^ 18) :
    decompressAmount (compressAmount n) = n := by
  have hback := Exact.decompressAmount_compressAmount n.toNat
  have hcode := compressAmount_exact hn
  refine UInt64.toNat_inj.1 ?_
  rw [decompressAmount_exact (by rw [hcode, hback]; exact hn), hcode, hback]

/-! ## Scripts are read back -/

namespace CScriptCompressor

/-- Decompression finds the key again from its first coordinate and the last bit of the second one. -/
def Inverts (K : PubKeyOps) : Prop :=
  ∀ pubkey : Bytes, pubkey.length = 65 → pubkey.getD 0 0 = 0x04 → K.isFullyValid pubkey = true →
    K.decompress ((0x02 ||| (pubkey.getD 64 0 &&& 0x01)) :: (pubkey.drop 1).take 32) = some pubkey

theorem isToKeyID_eq_some {keyID : Bytes} (h : isToKeyID script = some keyID) :
    keyID.length = 20 ∧ script = [0x76, 0xa9, 20] ++ keyID ++ [0x88, 0xac] := by
  unfold isToKeyID at h
  split_ifs at h with hform
  rcases hform with ⟨hlength, hstart, hend⟩
  cases h
  refine ⟨by rw [List.length_take, List.length_drop, hlength]; rfl, ?_⟩
  have hsplit : script.drop 3 = (script.drop 3).take 20 ++ script.drop 23 := by
    have hdrop : (script.drop 3).drop 20 = script.drop 23 := List.drop_drop
    rw [← hdrop, List.take_append_drop]
  rw [← hstart, ← hend, List.append_assoc, ← hsplit, List.take_append_drop]

theorem isToScriptID_eq_some {scriptID : Bytes} (h : isToScriptID script = some scriptID) :
    scriptID.length = 20 ∧ script = [0xa9, 20] ++ scriptID ++ [0x87] := by
  unfold isToScriptID at h
  split_ifs at h with hform
  rcases hform with ⟨hlength, hstart, hend⟩
  cases h
  refine ⟨by rw [List.length_take, List.length_drop, hlength]; rfl, ?_⟩
  have hsplit : script.drop 2 = (script.drop 2).take 20 ++ script.drop 22 := by
    have hdrop : (script.drop 2).drop 20 = script.drop 22 := List.drop_drop
    rw [← hdrop, List.take_append_drop]
  rw [← hstart, ← hend, List.append_assoc, ← hsplit, List.take_append_drop]

/-- A key of 33 bytes or a valid key of 65 bytes, with the size before it and `OP_CHECKSIG` behind it. -/
theorem isToPubKey_eq_some {pubkey : Bytes}
    (h : isToPubKey K script = some pubkey) :
    (pubkey.length = 33 ∧ (pubkey.getD 0 0 = 0x02 ∨ pubkey.getD 0 0 = 0x03) ∧ script = [33] ++ pubkey ++ [0xac]) ∨
      pubkey.length = 65 ∧ pubkey.getD 0 0 = 0x04 ∧ K.isFullyValid pubkey = true ∧ script = [65] ++ pubkey ++ [0xac] := by
  have hhead : ∀ n, ((script.drop 1).take (n + 1)).getD 0 0 = script.getD 1 0 := fun n => by
    rw [List.getD_eq_getElem?_getD, List.getD_eq_getElem?_getD, List.getElem?_take_of_lt (Nat.succ_pos n), List.getElem?_drop]
  have hparts : ∀ n : Nat, ∀ size : UInt8, script.take 1 = [size] → script.drop (1 + n) = [0xac] →
      script = [size] ++ (script.drop 1).take n ++ [0xac] := by
    intro n size hstart hend
    have hsplit : script.drop 1 = (script.drop 1).take n ++ script.drop (1 + n) := by
      rw [← List.drop_drop, List.take_append_drop]
    rw [← hstart, ← hend, List.append_assoc, ← hsplit, List.take_append_drop]
  unfold isToPubKey at h
  split_ifs at h with hshort hlong
  · rcases hshort with ⟨hlength, hstart, hend, hbyte⟩
    cases h
    refine .inl ⟨by rw [List.length_take, List.length_drop, hlength]; rfl, ?_, hparts 33 33 hstart hend⟩
    rwa [hhead 32]
  · rcases hlong with ⟨hlength, hstart, hend, hbyte⟩
    dsimp only at h
    by_cases hvalid : K.isFullyValid ((script.drop 1).take 65) = true
    · rw [if_pos hvalid] at h
      cases h
      refine .inr ⟨by rw [List.length_take, List.length_drop, hlength]; rfl, ?_, hvalid, hparts 65 65 hstart hend⟩
      rwa [hhead 64]
    · rw [if_neg hvalid] at h
      cases h

theorem and_one (x : UInt8) : x &&& 0x01 = 0 ∨ x &&& 0x01 = 1 := by
  have hmod : (x &&& 0x01).toNat = x.toNat % 2 := by
    rw [UInt8.toNat_and]
    exact Nat.and_one_is_mod x.toNat
  rcases Nat.mod_two_eq_zero_or_one x.toNat with hbit | hbit
  · exact .inl (UInt8.toNat_inj.1 (hmod.trans hbit))
  · exact .inr (UInt8.toNat_inj.1 (hmod.trans hbit))

/-- A short form is a special size and what belongs to it. -/
theorem compress_eq_some (hK : Inverts K) {compr : Bytes}
    (h : compress K script = some compr) :
    ∃ nSize : UInt8, ∃ vch : Bytes, compr = nSize :: vch ∧ nSize.toNat < nSpecialScripts ∧
      vch.length = getSpecialSize nSize.toNat ∧ decompress K nSize.toNat vch = some script := by
  unfold compress at h
  cases hkey : isToKeyID script with
  | some keyID =>
    rw [hkey] at h
    cases h
    rcases isToKeyID_eq_some hkey with ⟨hlength, hscript⟩
    exact ⟨0x00, keyID, rfl, by decide, hlength, by rw [hscript]; rfl⟩
  | none =>
    rw [hkey] at h
    cases hid : isToScriptID script with
    | some scriptID =>
      rw [hid] at h
      cases h
      rcases isToScriptID_eq_some hid with ⟨hlength, hscript⟩
      exact ⟨0x01, scriptID, rfl, by decide, hlength, by rw [hscript]; rfl⟩
    | none =>
      rw [hid] at h
      cases hpub : isToPubKey K script with
      | none =>
        rw [hpub] at h
        cases h
      | some pubkey =>
        rw [hpub] at h
        dsimp only at h
        rcases isToPubKey_eq_some hpub with ⟨hlength, hbyte, hscript⟩ | ⟨hlength, hbyte, hvalid, hscript⟩
        · rw [if_pos hbyte] at h
          cases h
          obtain ⟨b, x, rfl⟩ : ∃ b x, pubkey = b :: x := List.exists_cons_of_length_pos (hlength ▸ Nat.succ_pos 32)
          have hx : x.length = 32 := Nat.succ.inj hlength
          have htake : ((b :: x).drop 1).take 32 = x := List.take_of_length_le hx.le
          rw [htake]
          refine ⟨b, x, rfl, ?_⟩
          rw [hscript, hx]
          rcases hbyte with hbyte | hbyte
          · obtain rfl : b = 0x02 := hbyte
            exact ⟨by decide, rfl, rfl⟩
          · obtain rfl : b = 0x03 := hbyte
            exact ⟨by decide, rfl, rfl⟩
        · have hnot : ¬(pubkey.getD 0 0 = 0x02 ∨ pubkey.getD 0 0 = 0x03) := by
            rw [hbyte]
            decide
          rw [if_neg hnot, if_pos hbyte] at h
          cases h
          have hvch : ((pubkey.drop 1).take 32).length = 32 := by rw [List.length_take, List.length_drop, hlength]; rfl
          have hback := hK pubkey hlength hbyte hvalid
          have hparity := and_one (pubkey.getD 64 0)
          refine ⟨0x04 ||| (pubkey.getD 64 0 &&& 0x01), (pubkey.drop 1).take 32, rfl, ?_, ?_, ?_⟩
          · rcases hparity with hparity | hparity <;> rw [hparity] <;> decide
          · rcases hparity with hparity | hparity <;> rw [hparity, hvch] <;> rfl
          · rw [hscript]
            rcases hparity with hparity | hparity
            · rw [hparity] at hback ⊢
              exact congrArg (Option.map _) hback
            · rw [hparity] at hback ⊢
              exact congrArg (Option.map _) hback

theorem format_roundTrips (hK : Inverts K)
    (hsize : script.length + nSpecialScripts < 2 ^ 32) : (format K).RoundTrips script := by
  intro rest
  dsimp only [format]
  cases hcompr : compress K script with
  | some compr =>
    rcases compress_eq_some hK hcompr with ⟨nSize, vch, rfl, hspecial, hlength, hscript⟩
    have hsmall : nSize.toNat < 0x80 := hspecial.trans (by decide)
    have hvalue : (0 * 128 + nSize.toNat % 128) % 2 ^ 32 = nSize.toNat := by omega
    have hblock : (block (getSpecialSize nSize.toNat)).get (vch ++ rest) = some (vch, rest) :=
      (block (getSpecialSize nSize.toNat)).get_put hlength rest
    rw [List.cons_append, readVarIntMod]
    rw [if_pos hsmall, hvalue, Option.bind_eq_bind, Option.bind_some]
    dsimp only
    rw [if_pos hspecial, hblock, Option.bind_eq_bind, Option.bind_some]
    dsimp only
    rw [hscript]
    rfl
  | none =>
    have hlarge : ¬script.length + nSpecialScripts < nSpecialScripts := by omega
    have hblock := (block script.length).get_put rfl rest
    rw [Nat.mod_eq_of_lt hsize, List.append_assoc, readVarIntMod_write hsize, Option.bind_eq_bind, Option.bind_some]
    dsimp only
    rw [if_neg hlarge, Nat.add_sub_cancel]
    exact hblock

end CScriptCompressor

namespace CTxOutCompressor

theorem format_roundTrips (hK : CScriptCompressor.Inverts K) {txout : CTxOut}
    (hvalue : moneyRange txout.nValue.toInt)
    (hsize : txout.scriptPubKey.length + CScriptCompressor.nSpecialScripts < 2 ^ 32) :
    (format K).RoundTrips txout := by
  intro rest
  have hmoney : txout.nValue.toUInt64.toNat ≤ 10 ^ 18 := by
    have hnonneg : 0 ≤ txout.nValue := Int64.le_iff_toInt_le.2 hvalue.1
    have hle : txout.nValue.toInt ≤ 10 ^ 18 := maxMoney_eq ▸ hvalue.2
    have hclamp : txout.nValue.toNatClampNeg = txout.nValue.toInt.toNat := rfl
    rw [Int64.toNat_toUInt64_of_le hnonneg, hclamp]
    omega
  have hback := decompressAmount_compressAmount hmoney
  have hscript := CScriptCompressor.format_roundTrips hK hsize rest
  dsimp only [format]
  rw [List.append_assoc, readVarIntMod_write (compressAmount txout.nValue.toUInt64).toNat_lt, Option.bind_eq_bind,
    Option.bind_some]
  dsimp only
  rw [hscript, Option.bind_eq_bind, Option.bind_some]
  dsimp only
  rw [UInt64.ofNat_toNat, hback, Int64.toInt64_toUInt64]
  rfl

end CTxOutCompressor

end Dobbscoin
