import Dobbscoin.Lib.ByteCodec
import Dobbscoin.Lib.Pbkdf2

/-!
# The generic scrypt

`crypto/scrypt.cpp`: HMAC and PBKDF2 over an incremental SHA-256, the mixing of a block of 32 words through a scratchpad,
and the hash of a header.
-/

namespace Dobbscoin

open Regions ByteCodec

/-! ## Words in memory -/

/-- `be32enc`. -/
def be32enc (x : UInt32) : Bytes :=
  [(x >>> 24 &&& 0xff).toUInt8, (x >>> 16 &&& 0xff).toUInt8, (x >>> 8 &&& 0xff).toUInt8, (x &&& 0xff).toUInt8]

/-- `le32dec`. -/
def le32dec (p : Nat → UInt8) : UInt32 :=
  (p 0).toUInt32 + (p 1).toUInt32 <<< 8 + (p 2).toUInt32 <<< 16 + (p 3).toUInt32 <<< 24

/-- `le32enc`. -/
def le32enc (x : UInt32) : Bytes :=
  [(x &&& 0xff).toUInt8, (x >>> 8 &&& 0xff).toUInt8, (x >>> 16 &&& 0xff).toUInt8, (x >>> 24 &&& 0xff).toUInt8]

/-- `for (i = 0; i < n; i++) pad[i] ^= K[i];` -/
def xorLoop (pad K : Bytes) (n : Nat) : Bytes :=
  List.zipWith (· ^^^ ·) (pad.take n) (K.take n) ++ pad.drop n

/-! ## SHA-256 in pieces -/

/-- `SHA256_Init`, `SHA256_Update` and `SHA256_Final`. -/
structure Sha256 where
  Ctx : Type
  init : Ctx
  update : Ctx → Bytes → Ctx
  final : Ctx → Bytes
  final_length : ∀ ctx, (final ctx).length = 32

/-- The digest is a hash of all bytes, whatever the pieces were. -/
def Sha256.Incremental (S : Sha256) (hash : Bytes → Bytes) : Prop :=
  ∀ pieces : List Bytes, S.final (pieces.foldl S.update S.init) = hash pieces.flatten

variable {S : Sha256}

/-- `HMAC_SHA256_CTX`. -/
structure HmacCtx (S : Sha256) where
  ictx : S.Ctx
  octx : S.Ctx

/-- `HMAC_SHA256_Init`. -/
def HmacCtx.init (S : Sha256) (K : Bytes) : HmacCtx S :=
  let K := if K.length > 64 then S.final (S.update S.init K) else K
  { ictx := S.update S.init (xorLoop (List.replicate 64 0x36) K K.length)
    octx := S.update S.init (xorLoop (List.replicate 64 0x5c) K K.length) }

/-- `HMAC_SHA256_Update`. -/
def HmacCtx.update (ctx : HmacCtx S) (bs : Bytes) : HmacCtx S :=
  { ctx with ictx := S.update ctx.ictx bs }

/-- `HMAC_SHA256_Final`. -/
def HmacCtx.final (ctx : HmacCtx S) : Bytes :=
  S.final (S.update ctx.octx (S.final ctx.ictx))

/-! ## PBKDF2 -/

/-- The rounds of `j`: `rounds` of them are left. -/
def innerRounds (S : Sha256) (passwd : Bytes) : Nat → Bytes → Bytes → Bytes
  | 0, _, T => T
  | rounds + 1, U, T =>
    let U := ((HmacCtx.init S passwd).update U).final
    innerRounds S passwd rounds U (xorLoop T U 32)

/-- The loop over the blocks, from `i` on; `buf` is the memory at `off`.  The caller's buffer has `dkLen` bytes, so that
`i * 32` is a `size_t`. -/
def pbkdf2Loop (PShctx : HmacCtx S) (passwd : Bytes) (c : UInt64) (buf : Bytes) (off dkLen i : Nat) : Bytes :=
  if i * 32 < dkLen then
    let ivec := be32enc (UInt32.ofNat (i + 1))
    let U := (PShctx.update ivec).final
    let T := innerRounds S passwd (c.toNat - 1) U U
    let clen := dkLen - i * 32
    let clen := if clen > 32 then 32 else clen
    pbkdf2Loop PShctx passwd c (put buf (off + i * 32) (T.take clen)) off dkLen (i + 1)
  else buf
termination_by dkLen - i * 32

/-- `PBKDF2_SHA256`. -/
def pbkdf2Sha256 (S : Sha256) (passwd salt : Bytes) (c : UInt64) (buf : Bytes) (off dkLen : Nat) : Bytes :=
  pbkdf2Loop ((HmacCtx.init S passwd).update salt) passwd c buf off dkLen 0

/-! ## Mixing -/

/-- `ROTL`. -/
def rotl (a b : UInt32) : UInt32 :=
  a <<< b ||| a >>> (32 - b)

/-- `x[a] ^= ROTL(x[b] + x[c], k)` for each row, in the order of the source: four columns by columns, four rows by rows. -/
def salsaSteps : List (Fin 16 × Fin 16 × Fin 16 × UInt32) :=
  [(4, 0, 12, 7), (9, 5, 1, 7), (14, 10, 6, 7), (3, 15, 11, 7),
   (8, 4, 0, 9), (13, 9, 5, 9), (2, 14, 10, 9), (7, 3, 15, 9),
   (12, 8, 4, 13), (1, 13, 9, 13), (6, 2, 14, 13), (11, 7, 3, 13),
   (0, 12, 8, 18), (5, 1, 13, 18), (10, 6, 2, 18), (15, 11, 7, 18),
   (1, 0, 3, 7), (6, 5, 4, 7), (11, 10, 9, 7), (12, 15, 14, 7),
   (2, 1, 0, 9), (7, 6, 5, 9), (8, 11, 10, 9), (13, 12, 15, 9),
   (3, 2, 1, 13), (4, 7, 6, 13), (9, 8, 11, 13), (14, 13, 12, 13),
   (0, 3, 2, 18), (5, 4, 7, 18), (10, 9, 8, 18), (15, 14, 13, 18)]

def salsaStep (x : Vector UInt32 16) (s : Fin 16 × Fin 16 × Fin 16 × UInt32) : Vector UInt32 16 :=
  x.set s.1 (x[s.1] ^^^ rotl (x[s.2.1] + x[s.2.2.1]) s.2.2.2)

/-- `xor_salsa8`. -/
def xorSalsa8 (B Bx : Vector UInt32 16) : Vector UInt32 16 :=
  let B := B.zipWith (· ^^^ ·) Bx
  let x := (List.replicate 4 salsaSteps).flatten.foldl salsaStep B
  B.zipWith (· + ·) x

/-- `xor_salsa8(&X[0], &X[16]); xor_salsa8(&X[16], &X[0]);` -/
def blockMix (X : Vector UInt32 32) : Vector UInt32 32 :=
  let front := xorSalsa8 (Vector.ofFn fun k => X[k.val]) (Vector.ofFn fun k => X[16 + k.val])
  let back := xorSalsa8 (Vector.ofFn fun k => X[16 + k.val]) front
  (front ++ back : Vector UInt32 (16 + 16))

/-- The memory a caller gives to `scrypt_1024_1_1_256_sp`. -/
structure Scratchpad where
  addr : UInt64
  size : Nat
  enough : 131072 + 63 ≤ size
  inMemory : addr.toNat + size ≤ 2 ^ 64

namespace Scratchpad

/-- `V = (uint32_t *)(((uintptr_t)(scratchpad) + 63) & ~ (uintptr_t)(63))`. -/
def V (pad : Scratchpad) : UInt64 :=
  (pad.addr + 63) &&& ~~~63

/-- The four bytes of `V[n]` are in the scratchpad. -/
def inside (pad : Scratchpad) (n : Nat) : Bool :=
  pad.addr.toNat ≤ pad.V.toNat + 4 * n && pad.V.toNat + 4 * n + 4 ≤ pad.addr.toNat + pad.size

/-- `memcpy(&V[n], X, 128)`; a cell that was not written holds `none`. -/
def store (pad : Scratchpad) (cells : Nat → Option UInt32) (n : Nat) (X : Vector UInt32 32) :
    Option (Nat → Option UInt32) :=
  if (List.range 32).all fun k => pad.inside (n + k) then
    some fun m => if n ≤ m ∧ m < n + 32 then X[m - n]? else cells m
  else none

/-- `V[n]`. -/
def load (pad : Scratchpad) (cells : Nat → Option UInt32) (n : Nat) : Option UInt32 :=
  if pad.inside n then cells n else none

/-- The first loop: `n` rounds are left. -/
def fill (pad : Scratchpad) : Nat → (Nat → Option UInt32) → Vector UInt32 32 →
    Option ((Nat → Option UInt32) × Vector UInt32 32)
  | 0, cells, X => some (cells, X)
  | n + 1, cells, X => do
    let cells ← pad.store cells ((1024 - (n + 1)) * 32) X
    fill pad n cells (blockMix X)

/-- `X[k] ^= V[j + k]` for each `k`. -/
def xorEntry (pad : Scratchpad) (cells : Nat → Option UInt32) (X : Vector UInt32 32) : Option (Vector UInt32 32) :=
  let j := (32 : UInt32) * (X[16] &&& 1023)
  Vector.ofFnM fun k => do
    let v ← pad.load cells (j.toNat + k)
    some (X[k] ^^^ v)

/-- The second loop: `n` rounds are left. -/
def mix (pad : Scratchpad) (cells : Nat → Option UInt32) : Nat → Vector UInt32 32 → Option (Vector UInt32 32)
  | 0, X => some X
  | n + 1, X => do
    let X ← xorEntry pad cells X
    mix pad cells n (blockMix X)

/-- Both loops; nothing of `V` is written before them. -/
def roMix (pad : Scratchpad) (X : Vector UInt32 32) : Option (Vector UInt32 32) := do
  let (cells, X) ← pad.fill 1024 (fun _ => none) X
  pad.mix cells 1024 X

end Scratchpad

/-! ## The hash -/

/-- What an array on the stack holds before it is written. -/
def uninit (stack : Nat → UInt8) (n : Nat) : Bytes :=
  (List.range n).map stack

/-- `for (k = 0; k < 32; k++) X[k] = le32dec(&B[4 * k]);` -/
def decodeWords (B : Bytes) : Vector UInt32 32 :=
  Vector.ofFn fun k => le32dec fun i => B.getD (4 * k + i) 0

/-- `for (k = 0; k < 32; k++) le32enc(&B[4 * k], X[k]);` -/
def encodeWords (B : Bytes) (X : Vector UInt32 32) : Bytes :=
  lanes 4 (fun k => le32enc (X.toList.getD k 0)) B 32

/-- `scrypt_1024_1_1_256_sp`: what `output` holds then. -/
def scrypt_1024_1_1_256_sp (S : Sha256) (stack : Nat → UInt8) (input output : Bytes) (pad : Scratchpad) : Option Bytes := do
  let B := pbkdf2Sha256 S (get input 0 80) (get input 0 80) 1 (uninit stack 128) 0 128
  let X ← pad.roMix (decodeWords B)
  let B := encodeWords B X
  some (pbkdf2Sha256 S (get input 0 80) B 1 output 0 32)

/-- `scrypt_1024_1_1_256`: the scratchpad is on the stack. -/
def scrypt_1024_1_1_256 (S : Sha256) (stack : Nat → UInt8) (input output : Bytes) (pad : Scratchpad) : Option Bytes :=
  scrypt_1024_1_1_256_sp S stack input output pad

/-! ## Words and bytes -/

theorem le32enc_length (x : UInt32) : (le32enc x).length = 4 :=
  rfl

theorem toUInt8_low (x : UInt32) : (x &&& 0xff).toUInt8 = x.toUInt8 := by
  apply UInt8.toNat_inj.1
  rw [UInt32.toNat_toUInt8, UInt32.toNat_toUInt8, UInt32.toNat_and]
  have hmask : (0xff : UInt32).toNat = 2 ^ 8 - 1 := rfl
  rw [hmask, Nat.and_two_pow_sub_one_eq_mod, Nat.mod_mod]

/-- The encoded word, as the machine stores it. -/
theorem le32enc_eq (x : UInt32) : le32enc x = leBytes 4 x.toNat := by
  have hbyte : ∀ y : UInt32, (y &&& 0xff).toUInt8 = UInt8.ofNat (y.toNat % 256) := by
    intro y
    apply UInt8.toNat_inj.1
    rw [toUInt8_low, UInt32.toNat_toUInt8, UInt8.toNat_ofNat', Nat.mod_mod]
  have h1 : (x >>> 8).toNat = x.toNat / 256 := by
    rw [UInt32.toNat_shiftRight, Nat.shiftRight_eq_div_pow]
    rfl
  have h2 : (x >>> 16).toNat = x.toNat / 256 / 256 := by
    rw [UInt32.toNat_shiftRight, Nat.shiftRight_eq_div_pow, Nat.div_div_eq_div_mul]
    rfl
  have h3 : (x >>> 24).toNat = x.toNat / 256 / 256 / 256 := by
    rw [UInt32.toNat_shiftRight, Nat.shiftRight_eq_div_pow, Nat.div_div_eq_div_mul, Nat.div_div_eq_div_mul]
    rfl
  rw [le32enc, hbyte, hbyte, hbyte, hbyte, h1, h2, h3]
  rfl

/-- The decoded word, as the machine loads it. -/
theorem le32dec_eq (p : Nat → UInt8) : (le32dec p).toNat = leNat [p 0, p 1, p 2, p 3] := by
  have hbound : ∀ i, (p i).toNat < 256 := fun i => (p i).toNat_lt
  have h0 := hbound 0
  have h1 := hbound 1
  have h2 := hbound 2
  have h3 := hbound 3
  simp only [le32dec, leNat, UInt32.toNat_add, UInt32.toNat_shiftLeft, UInt8.toNat_toUInt32, Nat.shiftLeft_eq]
  have hshift8 : ((8 : UInt32).toNat % 32) = 8 := rfl
  have hshift16 : ((16 : UInt32).toNat % 32) = 16 := rfl
  have hshift24 : ((24 : UInt32).toNat % 32) = 24 := rfl
  rw [hshift8, hshift16, hshift24]
  omega

/-! ## The derived key -/

theorem length_xorLoop {pad K : Bytes} {n : Nat} (hpad : n ≤ pad.length) (hK : n ≤ K.length) :
    (xorLoop pad K n).length = pad.length := by
  simp only [xorLoop, List.length_append, List.length_zipWith, List.length_take, List.length_drop]
  omega

theorem length_innerRounds (S : Sha256) (passwd : Bytes) (rounds : Nat) {U T : Bytes} (hU : U.length = 32)
    (hT : T.length = 32) : (innerRounds S passwd rounds U T).length = 32 := by
  induction rounds generalizing U T with
  | zero => exact hT
  | succ rounds ih =>
    have hnext : (((HmacCtx.init S passwd).update U).final).length = 32 := S.final_length _
    apply ih hnext
    rw [length_xorLoop (by omega) (by omega), hT]

/-- Block `i` of the key. -/
def keyBlock (PShctx : HmacCtx S) (passwd : Bytes) (c : UInt64) (i : Nat) : Bytes :=
  let U := (PShctx.update (be32enc (UInt32.ofNat (i + 1)))).final
  innerRounds S passwd (c.toNat - 1) U U

theorem length_keyBlock (PShctx : HmacCtx S) (passwd : Bytes) (c : UInt64) (i : Nat) :
    (keyBlock PShctx passwd c i).length = 32 :=
  length_innerRounds S passwd _ (S.final_length _) (S.final_length _)

/-- The loop over the blocks writes the rest of the key. -/
theorem pbkdf2Loop_eq (PShctx : HmacCtx S) (passwd : Bytes) (c : UInt64) (buf : Bytes) (off dkLen i : Nat)
    (hfits : off + dkLen ≤ buf.length) :
    pbkdf2Loop PShctx passwd c buf off dkLen i =
      put buf (off + i * 32) (Pbkdf2.keyFrom (keyBlock PShctx passwd c) 32 dkLen i) := by
  rw [pbkdf2Loop]
  split
  · next hmore =>
    have hcut : (keyBlock PShctx passwd c i).take (if dkLen - i * 32 > 32 then 32 else dkLen - i * 32) =
        (keyBlock PShctx passwd c i).take (dkLen - i * 32) := by
      split
      · next hlong =>
        rw [List.take_of_length_le (Nat.le_of_eq (length_keyBlock _ _ _ _)),
          List.take_of_length_le (by rw [length_keyBlock]; omega)]
      · rfl
    have hround := Pbkdf2.put_keyFrom (by decide) (length_keyBlock PShctx passwd c) hfits hmore
    have hkept : off + dkLen ≤
        (put buf (off + i * 32) ((keyBlock PShctx passwd c i).take (dkLen - i * 32))).length := by
      rw [length_put]
      · exact hfits
      · rw [List.length_take, length_keyBlock]
        omega
    calc pbkdf2Loop PShctx passwd c (put buf (off + i * 32) ((keyBlock PShctx passwd c i).take
            (if dkLen - i * 32 > 32 then 32 else dkLen - i * 32))) off dkLen (i + 1)
        = pbkdf2Loop PShctx passwd c (put buf (off + i * 32) ((keyBlock PShctx passwd c i).take (dkLen - i * 32)))
            off dkLen (i + 1) := by rw [hcut]
      _ = put (put buf (off + i * 32) ((keyBlock PShctx passwd c i).take (dkLen - i * 32))) (off + (i + 1) * 32)
            (Pbkdf2.keyFrom (keyBlock PShctx passwd c) 32 dkLen (i + 1)) :=
          pbkdf2Loop_eq PShctx passwd c _ off dkLen (i + 1) hkept
      _ = put buf (off + i * 32) (Pbkdf2.keyFrom (keyBlock PShctx passwd c) 32 dkLen i) := hround
  · next hend => rw [Pbkdf2.keyFrom_end (Nat.not_lt.1 hend), put_nil]
termination_by dkLen - i * 32

/-- The key that `PBKDF2_SHA256` writes. -/
def derivedKey (S : Sha256) (passwd salt : Bytes) (c : UInt64) (dkLen : Nat) : Bytes :=
  Pbkdf2.key (keyBlock ((HmacCtx.init S passwd).update salt) passwd c) 32 dkLen

theorem length_derivedKey (S : Sha256) (passwd salt : Bytes) (c : UInt64) (dkLen : Nat) :
    (derivedKey S passwd salt c dkLen).length = dkLen :=
  Pbkdf2.length_key (by decide) (length_keyBlock _ _ _)

theorem pbkdf2Sha256_eq (S : Sha256) (passwd salt : Bytes) (c : UInt64) {buf : Bytes} {off dkLen : Nat}
    (hfits : off + dkLen ≤ buf.length) :
    pbkdf2Sha256 S passwd salt c buf off dkLen = put buf off (derivedKey S passwd salt c dkLen) := by
  rw [pbkdf2Sha256, pbkdf2Loop_eq _ _ _ _ _ _ _ hfits, Pbkdf2.keyFrom_zero, Nat.zero_mul, Nat.add_zero]
  rfl

/-! ## PBKDF2 over an incremental hash -/

theorem xorLoop_replicate (b : UInt8) {K : Bytes} (hK : K.length ≤ 64) :
    xorLoop (List.replicate 64 b) K K.length = Pbkdf2.pad b K := by
  have hzip : List.zipWith (· ^^^ ·) (List.replicate 64 b) K =
      List.zipWith (· ^^^ ·) ((List.replicate 64 b).take K.length) (K.take K.length) := by
    have hmin : min (List.replicate 64 b).length K.length = K.length := by
      rw [List.length_replicate]
      omega
    rw [List.zipWith_eq_zipWith_take_min, hmin]
  rw [xorLoop, Pbkdf2.pad, hzip, List.drop_replicate]

theorem xorLoop_whole {T U : Bytes} (hT : T.length = 32) (hU : U.length = 32) :
    xorLoop T U 32 = List.zipWith (· ^^^ ·) T U := by
  rw [xorLoop, List.take_of_length_le (Nat.le_of_eq hT), List.take_of_length_le (Nat.le_of_eq hU),
    List.drop_of_length_le (Nat.le_of_eq hT), List.append_nil]

theorem be32enc_ofNat (n : Nat) : be32enc (UInt32.ofNat n) = Pbkdf2.blockNumber n := by
  have hshift : ∀ k : UInt32, k.toNat ≤ 24 →
      (UInt32.ofNat n >>> k &&& 0xff).toUInt8 = UInt8.ofNat (n / 2 ^ k.toNat) := by
    intro k hk
    apply UInt8.toNat_inj.1
    have hsplit : (2 : Nat) ^ 32 = 2 ^ k.toNat * 2 ^ (32 - k.toNat) := by
      rw [← Nat.pow_add]
      congr 1
      omega
    rw [toUInt8_low, UInt32.toNat_toUInt8, UInt32.toNat_shiftRight, Nat.mod_eq_of_lt (by omega : k.toNat < 32),
      UInt32.toNat_ofNat', UInt8.toNat_ofNat', Nat.shiftRight_eq_div_pow, hsplit, Nat.mod_mul_right_div_self]
    exact Nat.mod_mod_of_dvd _ (Nat.pow_dvd_pow 2 (by omega : 8 ≤ 32 - k.toNat))
  have hlow : (UInt32.ofNat n &&& 0xff).toUInt8 = UInt8.ofNat n := by
    have hzero := hshift 0 (by decide)
    rwa [UInt32.shiftRight_zero, UInt32.toNat_zero, Nat.pow_zero, Nat.div_one] at hzero
  rw [be32enc, hshift 24 (by decide), hshift 16 (by decide), hshift 8 (by decide), hlow]
  rfl

section Incremental

variable {hash : Bytes → Bytes} (hS : S.Incremental hash)

include hS

theorem final_update (bs : Bytes) : S.final (S.update S.init bs) = hash bs := by
  have hpieces := hS [bs]
  rwa [List.flatten_singleton] at hpieces

theorem length_hash (bs : Bytes) : (hash bs).length = 32 := by
  rw [← final_update hS]
  exact S.final_length _

/-- The two states of HMAC, and the message in pieces. -/
theorem final_foldl_update (K : Bytes) (pieces : List Bytes) :
    (pieces.foldl HmacCtx.update (HmacCtx.init S K)).final = Pbkdf2.hmac hash K pieces.flatten := by
  have hpieces : ∀ (pieces : List Bytes) (ctx : HmacCtx S), pieces.foldl HmacCtx.update ctx =
      { ictx := pieces.foldl S.update ctx.ictx, octx := ctx.octx } := by
    intro pieces
    induction pieces with
    | nil => exact fun ctx => rfl
    | cons piece pieces ih => exact fun ctx => ih (ctx.update piece)
  have hkey : (if K.length > 64 then S.final (S.update S.init K) else K) = if K.length > 64 then hash K else K := by
    rw [final_update hS]
  have hshort : (if K.length > 64 then hash K else K).length ≤ 64 := by
    split
    · rw [length_hash hS]
      decide
    · next hle => exact Nat.not_lt.1 hle
  have hinner := hS (Pbkdf2.pad 0x36 (if K.length > 64 then hash K else K) :: pieces)
  have houter := hS [Pbkdf2.pad 0x5c (if K.length > 64 then hash K else K),
    hash (Pbkdf2.pad 0x36 (if K.length > 64 then hash K else K) ++ pieces.flatten)]
  rw [hpieces, HmacCtx.final, HmacCtx.init, Pbkdf2.hmac]
  dsimp only
  rw [hkey, xorLoop_replicate _ hshort, xorLoop_replicate _ hshort]
  rw [List.foldl_cons, List.flatten_cons] at hinner
  rw [hinner]
  simpa only [List.foldl_cons, List.foldl_nil, List.flatten_cons, List.flatten_nil, List.append_nil] using houter

theorem innerRounds_eq (passwd : Bytes) (rounds : Nat) {U T : Bytes} (hT : T.length = 32) :
    innerRounds S passwd rounds U T = Pbkdf2.fold (Pbkdf2.hmac hash passwd) rounds U T := by
  induction rounds generalizing U T with
  | zero => rfl
  | succ rounds ih =>
    have hnext : ((HmacCtx.init S passwd).update U).final = Pbkdf2.hmac hash passwd U := by
      have hmac := final_foldl_update hS passwd [U]
      rwa [List.flatten_singleton] at hmac
    have hlength : (Pbkdf2.hmac hash passwd U).length = 32 := length_hash hS _
    have hxor : (List.zipWith (· ^^^ ·) T (Pbkdf2.hmac hash passwd U)).length = 32 := by
      rw [List.length_zipWith, hT, hlength, Nat.min_self]
    rw [innerRounds, Pbkdf2.fold, hnext, xorLoop_whole hT hlength]
    exact ih hxor

/-- `PBKDF2_SHA256` is PBKDF2 with HMAC of the hash. -/
theorem derivedKey_eq (passwd salt : Bytes) (c : UInt64) (dkLen : Nat) :
    derivedKey S passwd salt c dkLen = Pbkdf2.pbkdf2 hash passwd salt c.toNat dkLen := by
  have hblock : keyBlock ((HmacCtx.init S passwd).update salt) passwd c = fun i =>
      Pbkdf2.fold (Pbkdf2.hmac hash passwd) (c.toNat - 1) (Pbkdf2.hmac hash passwd (salt ++ Pbkdf2.blockNumber (i + 1)))
        (Pbkdf2.hmac hash passwd (salt ++ Pbkdf2.blockNumber (i + 1))) := by
    funext i
    have hU := final_foldl_update hS passwd [salt, be32enc (UInt32.ofNat (i + 1))]
    rw [List.flatten_cons, List.flatten_singleton, be32enc_ofNat] at hU
    rw [keyBlock, be32enc_ofNat]
    rw [List.foldl_cons, List.foldl_cons, List.foldl_nil] at hU
    rw [hU]
    exact innerRounds_eq hS passwd _ (length_hash hS _)
  rw [derivedKey, hblock, Pbkdf2.pbkdf2]

end Incremental

/-! ## Mixing without a memory -/

/-- A round of the second loop: the entry is computed again from the words that the first loop began with. -/
def mixRound (X Y : Vector UInt32 32) : Vector UInt32 32 :=
  blockMix (Vector.ofFn fun k => Y[k] ^^^ (blockMix^[Y[16].toNat % 1024] X)[k])

/-- ROMix. -/
def roMixed (X : Vector UInt32 32) : Vector UInt32 32 :=
  (mixRound X)^[1024] (blockMix^[1024] X)

theorem ofFnM_some {α : Type} {n : Nat} (f : Fin n → α) : Vector.ofFnM (fun k => some (f k)) = some (Vector.ofFn f) := by
  induction n with
  | zero =>
    rw [Vector.ofFnM_zero]
    exact congrArg some (Vector.ext fun i hi => absurd hi (Nat.not_lt_zero i))
  | succ n ih =>
    rw [Vector.ofFnM_succ, ih, Vector.ofFn_succ]
    rfl

namespace Scratchpad

variable {pad : Scratchpad} {cells : Nat → Option UInt32} {X Y : Vector UInt32 32}

theorem V_toNat (pad : Scratchpad) : pad.V.toNat = (pad.addr.toNat + 63) / 64 * 64 := by
  have hbound : pad.addr.toNat + 63 < 2 ^ 64 := by
    have henough := pad.enough
    have hmemory := pad.inMemory
    omega
  have hsum : (pad.addr + 63).toNat = pad.addr.toNat + 63 := by
    rw [UInt64.toNat_add]
    exact Nat.mod_eq_of_lt hbound
  rw [V, UInt64.toNat_and, hsum]
  apply Nat.eq_of_testBit_eq
  intro i
  have hmask : (~~~(63 : UInt64)).toNat.testBit i = (decide (6 ≤ i) && decide (i < 64)) := by
    have hvalue : (~~~(63 : UInt64)).toNat = (2 ^ 58 - 1) * 2 ^ 6 := rfl
    rw [hvalue, Nat.testBit_mul_two_pow, Nat.testBit_two_pow_sub_one]
    congr 1
    apply decide_eq_decide.2
    omega
  have hfloor : ((pad.addr.toNat + 63) / 64 * 64).testBit i =
      (decide (6 ≤ i) && (pad.addr.toNat + 63).testBit (i - 6 + 6)) := by
    have hpow : (pad.addr.toNat + 63) / 64 * 64 = (pad.addr.toNat + 63) / 2 ^ 6 * 2 ^ 6 := rfl
    rw [hpow, Nat.testBit_mul_two_pow, Nat.testBit_div_two_pow]
  rw [Nat.testBit_and, hmask, hfloor]
  rcases Nat.lt_or_ge i 6 with hlow | hhigh
  · rw [decide_eq_false (Nat.not_le.2 hlow), Bool.false_and, Bool.and_false, Bool.false_and]
  · rw [decide_eq_true hhigh, Bool.true_and, Bool.true_and, Nat.sub_add_cancel hhigh]
    rcases Nat.lt_or_ge i 64 with hin | hout
    · rw [decide_eq_true hin, Bool.and_true]
    · rw [Nat.testBit_lt_two_pow (lt_of_lt_of_le hbound (Nat.pow_le_pow_right (by decide) hout)), Bool.false_and]

/-- `V` has room for 1024 entries of 32 words. -/
theorem inside_of_lt (pad : Scratchpad) {n : Nat} (hn : n < 32768) : pad.inside n = true := by
  have henough := pad.enough
  rw [inside, V_toNat, Bool.and_eq_true, decide_eq_true_iff, decide_eq_true_iff]
  omega

/-- The first `n` entries are written: entry `i` holds the words after `i` rounds. -/
def Filled (X : Vector UInt32 32) (n : Nat) (cells : Nat → Option UInt32) : Prop :=
  ∀ i < n, ∀ k : Fin 32, cells (i * 32 + k) = some (blockMix^[i] X)[k]

theorem store_filled (pad : Scratchpad) {n : Nat} (hn : n < 1024) (h : Filled X n cells) :
    ∃ cells', pad.store cells (n * 32) (blockMix^[n] X) = some cells' ∧ Filled X (n + 1) cells' := by
  have hinside : ((List.range 32).all fun k => pad.inside (n * 32 + k)) = true := by
    rw [List.all_eq_true]
    intro k hk
    exact pad.inside_of_lt (by rw [List.mem_range] at hk; omega)
  refine ⟨_, by rw [store, if_pos hinside], ?_⟩
  intro i hi k
  dsimp only
  rcases Nat.lt_or_eq_of_le (Nat.lt_succ_iff.1 hi) with hearlier | hlast
  · rw [if_neg (by omega)]
    exact h i hearlier k
  · rw [hlast, if_pos ⟨Nat.le_add_right _ _, by omega⟩, Nat.add_sub_cancel_left]
    exact Vector.getElem?_eq_getElem k.isLt

theorem fill_filled (pad : Scratchpad) {n : Nat} (hn : n ≤ 1024) (h : Filled X (1024 - n) cells) :
    ∃ cells', pad.fill n cells (blockMix^[1024 - n] X) = some (cells', blockMix^[1024] X) ∧ Filled X 1024 cells' := by
  induction n generalizing cells with
  | zero => exact ⟨cells, rfl, h⟩
  | succ n ih =>
    rcases store_filled pad (by omega) h with ⟨cells', hstore, hfilled⟩
    have hround : 1024 - (n + 1) + 1 = 1024 - n := by omega
    rw [hround] at hfilled
    rcases ih (by omega) hfilled with ⟨last, hlast, hall⟩
    have hnext : blockMix (blockMix^[1024 - (n + 1)] X) = blockMix^[1024 - n] X := by
      rw [← hround]
      exact (Function.iterate_succ_apply' blockMix _ X).symm
    refine ⟨last, ?_, hall⟩
    rw [fill, hstore, Option.bind_eq_bind, Option.bind_some, hnext]
    exact hlast

/-- Every entry that is read was written. -/
theorem xorEntry_filled (h : Filled X 1024 cells) (Y : Vector UInt32 32) :
    pad.xorEntry cells Y = some (Vector.ofFn fun k => Y[k] ^^^ (blockMix^[Y[16].toNat % 1024] X)[k]) := by
  have hindex : ((32 : UInt32) * (Y[16] &&& 1023)).toNat = Y[16].toNat % 1024 * 32 := by
    have hmask : (1023 : UInt32).toNat = 2 ^ 10 - 1 := rfl
    have hwords : (32 : UInt32).toNat = 32 := rfl
    rw [UInt32.toNat_mul, UInt32.toNat_and, hmask, hwords, Nat.and_two_pow_sub_one_eq_mod]
    exact (Nat.mod_eq_of_lt (by omega)).trans (Nat.mul_comm _ _)
  have hentry : Y[16].toNat % 1024 < 1024 := Nat.mod_lt _ (by decide)
  have hload : ∀ k : Fin 32, pad.load cells (((32 : UInt32) * (Y[16] &&& 1023)).toNat + k) =
      some (blockMix^[Y[16].toNat % 1024] X)[k] := by
    intro k
    rw [hindex, load, if_pos (pad.inside_of_lt (by omega))]
    exact h _ hentry k
  rw [xorEntry, ← ofFnM_some]
  congr 1
  funext k
  rw [hload k]
  rfl

theorem mix_filled (h : Filled X 1024 cells) (n : Nat) (Y : Vector UInt32 32) :
    pad.mix cells n Y = some ((mixRound X)^[n] Y) := by
  induction n generalizing Y with
  | zero => rfl
  | succ n ih =>
    rw [mix, xorEntry_filled h, Option.bind_eq_bind, Option.bind_some, ih, Function.iterate_succ_apply]
    rfl

/-- The loops stay in the scratchpad, and read no word that was not written: the result depends on the words alone. -/
theorem roMix_eq (pad : Scratchpad) (X : Vector UInt32 32) : pad.roMix X = some (roMixed X) := by
  have hnone : Filled X (1024 - 1024) fun _ => none := fun i hi => absurd hi (Nat.not_lt_zero _)
  rcases fill_filled pad (Nat.le_refl 1024) hnone with ⟨cells, hfill, hfilled⟩
  have hstart : pad.fill 1024 (fun _ => none) X = some (cells, blockMix^[1024] X) := hfill
  rw [roMix, hstart, Option.bind_eq_bind, Option.bind_some]
  exact mix_filled hfilled 1024 _

end Scratchpad

end Dobbscoin
