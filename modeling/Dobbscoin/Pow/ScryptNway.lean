import Dobbscoin.Pow.ScanHash
import Dobbscoin.Pow.Scrypt

/-!
# Scrypt in lanes

`crypto/scrypt_nway.cpp`: several headers are hashed at once, by a SIMD core between two PBKDF2 calls that share the keyed
states of HMAC.
-/

namespace Dobbscoin

open Regions ByteCodec

variable {S : Sha256}

/-! ## PBKDF2 with a keyed state -/

structure HmacKey (S : Sha256) where
  ictx : S.Ctx
  octx : S.Ctx

/-- `HmacKeyInit`. -/
def hmacKeyInit (S : Sha256) (header80 : Bytes) : HmacKey S :=
  let khash := S.final (S.update S.init (header80.take 80))
  { ictx := S.update S.init (xorLoop (List.replicate 64 0x36) khash 32)
    octx := S.update S.init (xorLoop (List.replicate 64 0x5c) khash 32) }

/-- The loop of `Pbkdf2Sha256C1`, from `i` on; `out` is the memory at `off`. -/
def pbkdf2C1Loop (key : HmacKey S) (salted : S.Ctx) (out : Bytes) (off dklen i : Nat) : Bytes :=
  if i * 32 < dklen then
    let n := UInt32.ofNat (i + 1)
    let ivec := [(n >>> 24).toUInt8, (n >>> 16).toUInt8, (n >>> 8).toUInt8, n.toUInt8]
    let ihash := S.final (S.update salted ivec)
    let u := S.final (S.update key.octx ihash)
    let clen := if dklen - i * 32 < 32 then dklen - i * 32 else 32
    pbkdf2C1Loop key salted (put out (off + i * 32) (u.take clen)) off dklen (i + 1)
  else out
termination_by dklen - i * 32

/-- `Pbkdf2Sha256C1`. -/
def pbkdf2Sha256C1 (key : HmacKey S) (salt out : Bytes) (off dklen : Nat) : Bytes :=
  pbkdf2C1Loop key (S.update key.ictx salt) out off dklen 0

/-! ## The lanes -/

def scryptN : Nat := 1024

/-- A `ScryptCoreFn`: what it makes of the words of `X`. -/
abbrev ScryptCoreFn := List UInt32 → Nat → List UInt32

/-- The bytes of `X` as the words that the machine loads. -/
def loadWords (X : Bytes) : List UInt32 :=
  (List.range (X.length / 4)).map fun k => UInt32.ofNat (leNat (get X (4 * k) 4))

/-- The words of `X` as the bytes that the machine stores. -/
def storeWords (words : List UInt32) : Bytes :=
  words.flatMap fun x => leBytes 4 x.toNat

/-- `ScryptSimd`: what `output` holds then. -/
def scryptSimd (S : Sha256) (stack : Nat → UInt8) (LANES : Nat) (core : ScryptCoreFn) (input output : Bytes) : Bytes :=
  let keys := fun l => hmacKeyInit S (get input (80 * l) 80)
  let X := (List.range LANES).foldl
    (fun X l => pbkdf2Sha256C1 (keys l) (get input (80 * l) 80) X (128 * l) 128) (uninit stack (128 * LANES))
  let X := storeWords (core (loadWords X) scryptN)
  (List.range LANES).foldl (fun output l => pbkdf2Sha256C1 (keys l) (get X (128 * l) 128) output (32 * l) 32) output

/-- The CPU features that `ScryptImplSupported` asks for. -/
structure CpuFeatures where
  sse2 : Bool
  avx : Bool
  avx2 : Bool

/-- `ScryptImplSupported`. -/
def scryptImplSupported (cpu : CpuFeatures) : ScryptImpl → Bool
  | .generic => true
  | .sse2 => cpu.sse2
  | .avx => cpu.avx
  | .avx2 => cpu.avx2

/-- The cores of `crypto/scrypt-x64.S`. -/
structure ScryptCores where
  scryptCore3waySse2 : ScryptCoreFn
  scryptCore3way : ScryptCoreFn
  scryptCore6way : ScryptCoreFn

/-- `scrypt_1024_1_1_256_nway`; an implementation that is not supported fails the assertion. -/
def scrypt_1024_1_1_256_nway (S : Sha256) (stack : Nat → UInt8) (cpu : CpuFeatures) (cores : ScryptCores) (impl : ScryptImpl)
    (input output : Bytes) (pad : Scratchpad) : Option Bytes :=
  if !scryptImplSupported cpu impl then none
  else match impl with
    | .sse2 => some (scryptSimd S stack 3 cores.scryptCore3waySse2 input output)
    | .avx => some (scryptSimd S stack 3 cores.scryptCore3way input output)
    | .avx2 => some (scryptSimd S stack 6 cores.scryptCore6way input output)
    | .generic => scrypt_1024_1_1_256_sp S stack input output pad

/-- The core does in each lane what the generic loops do with the lane's words. -/
def LaneWise (core : ScryptCoreFn) (LANES : Nat) : Prop :=
  ∀ words : List UInt32, words.length = 32 * LANES →
    (core words scryptN).length = 32 * LANES ∧
    ∀ l < LANES, ∀ X : Vector UInt32 32, X.toList = get words (32 * l) 32 → ∀ pad : Scratchpad,
      (pad.roMix X).map Vector.toList = some (get (core words scryptN) (32 * l) 32)

/-! ## The same keys -/

theorem ivec_eq (n : UInt32) : [(n >>> 24).toUInt8, (n >>> 16).toUInt8, (n >>> 8).toUInt8, n.toUInt8] = be32enc n := by
  rw [be32enc, toUInt8_low, toUInt8_low, toUInt8_low, toUInt8_low]

/-- The rounds with the cached states are the rounds of `PBKDF2_SHA256` with `c = 1`. -/
theorem pbkdf2C1Loop_eq (key : HmacKey S) (salted : S.Ctx) (passwd out : Bytes) (off dklen i : Nat) :
    pbkdf2C1Loop key salted out off dklen i = pbkdf2Loop (HmacCtx.mk salted key.octx) passwd 1 out off dklen i := by
  rw [pbkdf2C1Loop, pbkdf2Loop]
  split
  · have hclen : (if dklen - i * 32 < 32 then dklen - i * 32 else 32) =
        if dklen - i * 32 > 32 then 32 else dklen - i * 32 := by
      split <;> split <;> omega
    -- With `c = 1` there is no round of `j`.
    have hrounds : ∀ U : Bytes, innerRounds S passwd ((1 : UInt64).toNat - 1) U U = U := fun U => rfl
    dsimp only
    rw [ivec_eq, hclen, hrounds]
    exact pbkdf2C1Loop_eq key salted passwd _ off dklen (i + 1)
  · rfl
termination_by dklen - i * 32

/-- The keyed states, when the header is the password. -/
theorem hmacKeyInit_eq (S : Sha256) {header80 : Bytes} (hlength : header80.length = 80) :
    HmacCtx.init S header80 = ⟨(hmacKeyInit S header80).ictx, (hmacKeyInit S header80).octx⟩ := by
  have htake : header80.take 80 = header80 := List.take_of_length_le (Nat.le_of_eq hlength)
  have hlong : header80.length > 64 := by
    rw [hlength]
    decide
  rw [HmacCtx.init, hmacKeyInit, if_pos hlong, htake, S.final_length]

/-- `Pbkdf2Sha256C1` is `PBKDF2_SHA256` with `c = 1`. -/
theorem pbkdf2Sha256C1_eq (S : Sha256) {header80 : Bytes} (hlength : header80.length = 80) (salt out : Bytes)
    (off dklen : Nat) :
    pbkdf2Sha256C1 (hmacKeyInit S header80) salt out off dklen = pbkdf2Sha256 S header80 salt 1 out off dklen := by
  rw [pbkdf2Sha256C1, pbkdf2C1Loop_eq (hmacKeyInit S header80) _ header80, pbkdf2Sha256, hmacKeyInit_eq S hlength]
  rfl

/-! ## Words in memory -/

theorem getElem?_loadWords (X : Bytes) (k : Nat) :
    (loadWords X)[k]? = if k < X.length / 4 then some (UInt32.ofNat (leNat (get X (4 * k) 4))) else none := by
  rw [loadWords, List.getElem?_map]
  split
  · next hk => rw [List.getElem?_range hk, Option.map_some]
  · next hk =>
    rw [List.getElem?_eq_none (by rw [List.length_range]; exact Nat.not_lt.1 hk), Option.map_none]

/-- The words of a lane. -/
theorem get_loadWords {X : Bytes} {l LANES : Nat} (hX : X.length = 128 * LANES) (hl : l < LANES) :
    get (loadWords X) (32 * l) 32 = loadWords (get X (128 * l) 128) := by
  have hlane : (get X (128 * l) 128).length = 128 := length_get (by omega)
  apply List.ext_getElem?
  intro k
  rw [getElem?_get, getElem?_loadWords, getElem?_loadWords, hlane, hX]
  split
  · next hk =>
    rw [if_pos (by omega), get_get (by omega)]
    congr 4
    omega
  · rfl

theorem length_leBytes_word (x : UInt32) : (leBytes 4 x.toNat).length = 4 :=
  leBytes_length 4 _

/-- The bytes of a lane. -/
theorem get_storeWords (words : List UInt32) (l : Nat) :
    get (storeWords words) (128 * l) 128 = storeWords (get words (32 * l) 32) := by
  have hcells := get_flatMap length_leBytes_word words (32 * l) 32
  rwa [← Nat.mul_assoc] at hcells

/-- What the generic code decodes is what the machine loads. -/
theorem decodeWords_toList {B : Bytes} (hB : B.length = 128) : (decodeWords B).toList = loadWords B := by
  apply List.ext_getElem?
  intro k
  rw [getElem?_loadWords, hB]
  split
  · next hk =>
    have hcell : ∀ j < 4, B[4 * k + j]? = some (B.getD (4 * k + j) 0) := fun j hj => by
      rw [List.getD_eq_getElem?_getD, List.getElem?_eq_getElem (by omega), Option.getD_some]
    have hget : get B (4 * k) 4 =
        [B.getD (4 * k + 0) 0, B.getD (4 * k + 1) 0, B.getD (4 * k + 2) 0, B.getD (4 * k + 3) 0] := by
      apply List.ext_getElem?
      intro j
      rw [getElem?_get]
      match j with
      | 0 => exact hcell 0 (by decide)
      | 1 => exact hcell 1 (by decide)
      | 2 => exact hcell 2 (by decide)
      | 3 => exact hcell 3 (by decide)
      | j + 4 => exact if_neg (by omega)
    have hword : (le32dec fun i => B.getD (4 * k + i) 0) = UInt32.ofNat (leNat (get B (4 * k) 4)) := by
      apply UInt32.toNat_inj.1
      have hlt : leNat (get B (4 * k) 4) < 2 ^ 32 := by
        have hbound := leNat_lt (get B (4 * k) 4)
        rwa [length_get (by omega)] at hbound
      rw [le32dec_eq, UInt32.toNat_ofNat', Nat.mod_eq_of_lt hlt, hget]
    rw [← hword, Vector.getElem?_toList, decodeWords, Vector.getElem?_ofFn, dif_pos (by omega)]
  · next hk =>
    rw [List.getElem?_eq_none]
    rw [Vector.length_toList]
    omega

/-- What the generic code encodes is what the machine stores. -/
theorem encodeWords_eq {B : Bytes} (hB : B.length = 128) (X : Vector UInt32 32) :
    encodeWords B X = storeWords X.toList := by
  have hwords : X.toList = (List.range 32).map fun k => X.toList.getD k 0 := by
    apply List.ext_getElem?
    intro k
    rw [List.getElem?_map]
    rcases Nat.lt_or_ge k 32 with hk | hk
    · rw [List.getElem?_range hk, Option.map_some, List.getD_eq_getElem?_getD,
        List.getElem?_eq_getElem (by rw [Vector.length_toList]; exact hk), Option.getD_some]
    · rw [List.getElem?_eq_none (by rw [Vector.length_toList]; exact hk),
        List.getElem?_eq_none (by rw [List.length_range]; exact hk), Option.map_none]
  calc encodeWords B X
      = (List.range 32).flatMap fun k => le32enc (X.toList.getD k 0) := lanes_whole (fun k => le32enc_length _) hB.symm
    _ = (List.range 32).flatMap fun k => leBytes 4 (X.toList.getD k 0).toNat :=
        congrArg (fun f => (List.range 32).flatMap f) (funext fun k => le32enc_eq _)
    _ = ((List.range 32).map fun k => X.toList.getD k 0).flatMap fun x => leBytes 4 x.toNat :=
        (List.flatMap_map ..).symm
    _ = storeWords X.toList := by rw [← hwords, storeWords]

/-! ## The same hashes -/

/-- The hash of a header, without the buffers it is computed in. -/
def scryptHash (S : Sha256) (header80 : Bytes) : Bytes :=
  derivedKey S header80 (storeWords (roMixed (decodeWords (derivedKey S header80 header80 1 128))).toList) 1 32

theorem length_scryptHash (S : Sha256) (header80 : Bytes) : (scryptHash S header80).length = 32 :=
  length_derivedKey _ _ _ _ _

/-- Over an incremental hash it is scrypt: ROMix between two keys of PBKDF2 with HMAC. -/
theorem scryptHash_eq {hash : Bytes → Bytes} (hS : S.Incremental hash) (header80 : Bytes) :
    scryptHash S header80 = Pbkdf2.pbkdf2 hash header80
      (storeWords (roMixed (decodeWords (Pbkdf2.pbkdf2 hash header80 header80 1 128))).toList) 1 32 := by
  rw [scryptHash, derivedKey_eq hS, derivedKey_eq hS]
  rfl

theorem length_uninit (stack : Nat → UInt8) (n : Nat) : (uninit stack n).length = n := by
  rw [uninit, List.length_map, List.length_range]

/-- What the stack and the scratchpad hold before does not matter. -/
theorem scrypt_1024_1_1_256_sp_eq (S : Sha256) (stack : Nat → UInt8) (input : Bytes) {output : Bytes}
    (hout : 32 ≤ output.length) (pad : Scratchpad) :
    scrypt_1024_1_1_256_sp S stack input output pad = some (put output 0 (scryptHash S (get input 0 80))) := by
  have hkey := length_derivedKey S (get input 0 80) (get input 0 80) 1 128
  have hB : pbkdf2Sha256 S (get input 0 80) (get input 0 80) 1 (uninit stack 128) 0 128 =
      derivedKey S (get input 0 80) (get input 0 80) 1 128 := by
    rw [pbkdf2Sha256_eq _ _ _ _ (by rw [length_uninit]), put_whole]
    rw [hkey, length_uninit]
  rw [scrypt_1024_1_1_256_sp, hB]
  dsimp only
  rw [Scratchpad.roMix_eq, Option.bind_eq_bind, Option.bind_some, encodeWords_eq hkey,
    pbkdf2Sha256_eq _ _ _ _ (by rw [Nat.zero_add]; exact hout), scryptHash]

/-- Every lane of the output holds the hash of its header. -/
theorem get_scryptSimd (S : Sha256) (stack : Nat → UInt8) {LANES : Nat} {core : ScryptCoreFn} (hcore : LaneWise core LANES)
    (pad : Scratchpad) {input output : Bytes} (hin : 80 * LANES ≤ input.length) (hout : 32 * LANES ≤ output.length)
    {l : Nat} (hl : l < LANES) :
    get (scryptSimd S stack LANES core input output) (32 * l) 32 = scryptHash S (get input (80 * l) 80) := by
  have hheader : ∀ l < LANES, (get input (80 * l) 80).length = 80 := fun l hl => length_get (by omega)
  -- The first loop: the words of a lane are those of its header's key.
  let keys := fun l => derivedKey S (get input (80 * l) 80) (get input (80 * l) 80) 1 128
  have hkeys : ∀ l, (keys l).length = 128 := fun l => length_derivedKey _ _ _ _ _
  have hX : (List.range LANES).foldl (fun X l => pbkdf2Sha256C1 (hmacKeyInit S (get input (80 * l) 80))
      (get input (80 * l) 80) X (128 * l) 128) (uninit stack (128 * LANES)) =
        lanes 128 keys (uninit stack (128 * LANES)) LANES := by
    apply foldl_eq_lanes
    · intro l hl mem hmem
      rw [length_uninit] at hmem
      rw [pbkdf2Sha256C1_eq S (hheader l hl), pbkdf2Sha256_eq _ _ _ _ (by omega)]
    · exact hkeys
    · rw [length_uninit]
  have hlength : (lanes 128 keys (uninit stack (128 * LANES)) LANES).length = 128 * LANES := by
    rw [length_lanes hkeys (by rw [length_uninit]), length_uninit]
  have hwords : (loadWords (lanes 128 keys (uninit stack (128 * LANES)) LANES)).length = 32 * LANES := by
    rw [loadWords, List.length_map, List.length_range, hlength]
    omega
  -- The core mixes each lane as the generic code does.
  rcases hcore _ hwords with ⟨hmixed, hlane⟩
  have hstored : ∀ l < LANES, get (storeWords (core (loadWords (lanes 128 keys (uninit stack (128 * LANES)) LANES)) scryptN))
      (128 * l) 128 = storeWords (roMixed (decodeWords (keys l))).toList := by
    intro l hl
    have hload : (decodeWords (keys l)).toList =
        get (loadWords (lanes 128 keys (uninit stack (128 * LANES)) LANES)) (32 * l) 32 := by
      rw [get_loadWords hlength hl, get_lanes hkeys (by rw [length_uninit]) hl, decodeWords_toList (hkeys l)]
    have hmix := hlane l hl _ hload pad
    rw [Scratchpad.roMix_eq, Option.map_some] at hmix
    rw [get_storeWords, ← Option.some_inj.1 hmix]
  -- The second loop: the hash of each lane.
  have houtput : scryptSimd S stack LANES core input output =
      lanes 32 (fun l => scryptHash S (get input (80 * l) 80)) output LANES := by
    rw [scryptSimd, hX]
    apply foldl_eq_lanes
    · intro l hl mem hmem
      rw [hstored l hl, pbkdf2Sha256C1_eq S (hheader l hl), pbkdf2Sha256_eq _ _ _ _ (by omega), scryptHash]
    · exact fun l => length_scryptHash _ _
    · exact hout
  rw [houtput]
  exact get_lanes (fun l => length_scryptHash _ _) hout hl

/-! ## The wrapper -/

/-- The core of an implementation does in each lane what the generic loops do. -/
def ScryptCores.Sound (cores : ScryptCores) : Prop :=
  LaneWise cores.scryptCore3waySse2 3 ∧ LaneWise cores.scryptCore3way 3 ∧ LaneWise cores.scryptCore6way 6

/-- Each lane of `scrypt_1024_1_1_256_nway` is the hash of its header. -/
theorem scrypt_1024_1_1_256_nway_lane (S : Sha256) (stack : Nat → UInt8) {cpu : CpuFeatures} {cores : ScryptCores}
    (hcores : cores.Sound) {impl : ScryptImpl} (hsupported : scryptImplSupported cpu impl = true) (pad : Scratchpad)
    {input output : Bytes} (hin : 80 * impl.lanes ≤ input.length) (hout : 32 * impl.lanes ≤ output.length) :
    ∃ out, scrypt_1024_1_1_256_nway S stack cpu cores impl input output pad = some out ∧
      ∀ l < impl.lanes, get out (32 * l) 32 = scryptHash S (get input (80 * l) 80) := by
  rcases hcores with ⟨hsse2, havx, havx2⟩
  unfold scrypt_1024_1_1_256_nway
  rw [hsupported, Bool.not_true, if_neg Bool.false_ne_true]
  cases impl with
  | generic =>
    have hroom : 32 ≤ output.length := hout
    refine ⟨_, scrypt_1024_1_1_256_sp_eq S stack input hroom pad, fun l hl => ?_⟩
    have hzero : l = 0 := Nat.lt_one_iff.1 hl
    have hback : get (put output 0 (scryptHash S (get input 0 80))) 0 (scryptHash S (get input 0 80)).length =
        scryptHash S (get input 0 80) := get_put (by rw [length_scryptHash, Nat.zero_add]; exact hout)
    rw [length_scryptHash] at hback
    rw [hzero]
    exact hback
  | sse2 => exact ⟨_, rfl, fun l hl => get_scryptSimd S stack hsse2 pad hin hout hl⟩
  | avx => exact ⟨_, rfl, fun l hl => get_scryptSimd S stack havx pad hin hout hl⟩
  | avx2 => exact ⟨_, rfl, fun l hl => get_scryptSimd S stack havx2 pad hin hout hl⟩

/-- The generic hash of one header. -/
theorem scrypt_1024_1_1_256_eq (S : Sha256) (stack : Nat → UInt8) {header80 output : Bytes} (hheader : header80.length = 80)
    (hout : output.length = 32) (pad : Scratchpad) :
    scrypt_1024_1_1_256 S stack header80 output pad = some (scryptHash S header80) := by
  have hwhole : get header80 0 80 = header80 := by
    rw [Regions.get, List.drop_zero, List.take_of_length_le (Nat.le_of_eq hheader)]
  rw [scrypt_1024_1_1_256, scrypt_1024_1_1_256_sp_eq S stack header80 (Nat.le_of_eq hout.symm) pad, hwhole, put_whole]
  rw [length_scryptHash, hout]

/-- The wrapper and the generic code.  Whatever the buffers, the stack and the scratchpads hold, each lane of the SIMD code is
the generic hash of its header; the keyed PBKDF2 is the generic one with `c = 1`; the generic loops read nothing but what
they wrote inside the scratchpad. -/
theorem scryptNway_exact (S : Sha256) :
    (∀ (LANES : Nat) (core : ScryptCoreFn), LaneWise core LANES →
      ∀ (stack stack' : Nat → UInt8) (pad : Scratchpad) (input output out' : Bytes),
        input.length = 80 * LANES → output.length = 32 * LANES → out'.length = 32 → ∀ l < LANES,
          scrypt_1024_1_1_256 S stack' (get input (80 * l) 80) out' pad =
            some (get (scryptSimd S stack LANES core input output) (32 * l) 32)) ∧
    (∀ (cpu : CpuFeatures) (cores : ScryptCores), cores.Sound →
      ∀ (impl : ScryptImpl), scryptImplSupported cpu impl = true →
        ∀ (stack stack' : Nat → UInt8) (pad pad' : Scratchpad) (input output out' : Bytes),
          input.length = 80 * impl.lanes → output.length = 32 * impl.lanes → out'.length = 32 →
            ∃ out, scrypt_1024_1_1_256_nway S stack cpu cores impl input output pad = some out ∧
              ∀ l < impl.lanes, scrypt_1024_1_1_256 S stack' (get input (80 * l) 80) out' pad' =
                some (get out (32 * l) 32)) ∧
    (∀ header80 : Bytes, header80.length = 80 → ∀ (salt out : Bytes) (off dkLen : Nat),
      pbkdf2Sha256C1 (hmacKeyInit S header80) salt out off dkLen = pbkdf2Sha256 S header80 salt 1 out off dkLen) ∧
    (∀ (pad : Scratchpad) (X : Vector UInt32 32), ∃ Y, pad.roMix X = some Y) := by
  refine ⟨?_, ?_, ?_, fun pad X => ⟨_, Scratchpad.roMix_eq pad X⟩⟩
  · intro LANES core hcore stack stack' pad input output out' hin hout hout' l hl
    have hlane := get_scryptSimd S stack hcore pad (Nat.le_of_eq hin.symm) (Nat.le_of_eq hout.symm) hl
    rw [hlane]
    exact scrypt_1024_1_1_256_eq S stack' (length_get (by omega)) hout' pad
  · intro cpu cores hcores impl hsupported stack stack' pad pad' input output out' hin hout hout'
    rcases scrypt_1024_1_1_256_nway_lane S stack hcores hsupported pad (Nat.le_of_eq hin.symm) (Nat.le_of_eq hout.symm)
      with ⟨out, hrun, hlanes⟩
    refine ⟨out, hrun, fun l hl => ?_⟩
    rw [hlanes l hl]
    exact scrypt_1024_1_1_256_eq S stack' (length_get (by omega)) hout' pad'
  · intro header80 hlength salt out off dkLen
    exact pbkdf2Sha256C1_eq S hlength salt out off dkLen

/-- The generic loops in each lane. -/
def genericCore : ScryptCoreFn := fun words _ =>
  (List.range (words.length / 32)).flatMap fun l => (roMixed (Vector.ofFn fun k => words.getD (32 * l + k) 0)).toList

theorem laneWise_genericCore (LANES : Nat) : LaneWise genericCore LANES := by
  intro words hwords
  have hlanes : words.length / 32 = LANES := by omega
  have hpiece : ∀ l : Nat, (roMixed (Vector.ofFn fun k => words.getD (32 * l + k) 0)).toList.length = 32 :=
    fun l => Vector.length_toList
  constructor
  · rw [genericCore, hlanes, List.length_flatMap, List.map_congr_left fun l _ => hpiece l, List.map_const',
      List.sum_replicate_nat, List.length_range, Nat.mul_comm]
  · intro l hl X hX pad
    have hcells := get_flatMap hpiece (List.range LANES) l 1
    have hsingle : get (List.range LANES) l 1 = [l] := by
      rw [Regions.get, List.drop_eq_getElem_cons (by rw [List.length_range]; exact hl), List.getElem_range]
      rfl
    have hwordsX : (Vector.ofFn fun k : Fin 32 => words.getD (32 * l + k) 0) = X := by
      apply Vector.ext
      intro k hk
      have hcell : X.toList[k]? = words[32 * l + k]? := by
        rw [hX, getElem?_get, if_pos hk]
      rw [Vector.getElem?_toList, Vector.getElem?_eq_getElem hk] at hcell
      rw [Vector.getElem_ofFn, List.getD_eq_getElem?_getD, ← hcell, Option.getD_some]
    rw [hsingle, List.flatMap_singleton, hwordsX, Nat.mul_one] at hcells
    rw [Scratchpad.roMix_eq, Option.map_some, genericCore, hlanes, hcells]

/-- A digest that takes all bytes at once, fed in pieces. -/
def Sha256.ofDigest (digest : Bytes → Vector UInt8 32) : Sha256 where
  Ctx := Bytes
  init := []
  update ctx bs := ctx ++ bs
  final ctx := (digest ctx).toList
  final_length _ := Vector.length_toList

theorem Sha256.ofDigest_incremental (digest : Bytes → Vector UInt8 32) :
    (Sha256.ofDigest digest).Incremental fun bs => (digest bs).toList := by
  have hbytes : ∀ (pieces : List Bytes) (ctx : Bytes),
      pieces.foldl (fun ctx bs => ctx ++ bs) ctx = ctx ++ pieces.flatten := by
    intro pieces
    induction pieces with
    | nil => exact fun ctx => (List.append_nil ctx).symm
    | cons piece pieces ih =>
      intro ctx
      rw [List.foldl_cons, ih, List.flatten_cons, List.append_assoc]
  intro pieces
  exact congrArg (fun bs => (digest bs).toList) (hbytes pieces [])

/-- A digest of zeros. -/
def zeroSha256 : Sha256 :=
  Sha256.ofDigest fun _ => Vector.replicate 32 0

def zeroPad : Scratchpad where
  addr := 0x1000
  size := 131072 + 127
  enough := by decide
  inMemory := by decide

theorem scryptNway_exact_sixLanes :
    ∃ out, scrypt_1024_1_1_256_nway zeroSha256 (fun _ => 0) ⟨true, true, true⟩ ⟨genericCore, genericCore, genericCore⟩ .avx2
        (List.replicate 480 7) (List.replicate 192 0) zeroPad = some out ∧
      ∀ l < ScryptImpl.avx2.lanes, scrypt_1024_1_1_256 zeroSha256 (fun _ => 1) (get (List.replicate 480 7) (80 * l) 80)
        (List.replicate 32 0) zeroPad = some (get out (32 * l) 32) :=
  (scryptNway_exact zeroSha256).2.1 ⟨true, true, true⟩ ⟨genericCore, genericCore, genericCore⟩
    ⟨laneWise_genericCore 3, laneWise_genericCore 3, laneWise_genericCore 6⟩ .avx2 rfl (fun _ => 0) (fun _ => 1) zeroPad
    zeroPad (List.replicate 480 7) (List.replicate 192 0) (List.replicate 32 0) List.length_replicate
    List.length_replicate List.length_replicate

/-! ## The standard functions -/

/-- `scrypt_1024_1_1_256` is ROMix between two such keys, whatever the stack, the scratchpad and its alignment. -/
theorem scrypt_standard (S : Sha256) (hash : Bytes → Bytes) (hS : S.Incremental hash) (stack : Nat → UInt8)
    (input output : Bytes) (hout : 32 ≤ output.length) (pad : Scratchpad) :
    scrypt_1024_1_1_256 S stack input output pad = some (put output 0 (Pbkdf2.pbkdf2 hash (get input 0 80)
      (storeWords (roMixed (decodeWords (Pbkdf2.pbkdf2 hash (get input 0 80) (get input 0 80) 1 128))).toList) 1 32)) := by
  rw [scrypt_1024_1_1_256, scrypt_1024_1_1_256_sp_eq S stack input hout, scryptHash_eq hS]

theorem scrypt_standard_zeroSha256 :
    ∃ key salt, scrypt_1024_1_1_256 zeroSha256 (fun _ => 5) (List.replicate 80 7) (List.replicate 40 0) zeroPad =
      some (put (List.replicate 40 0) 0 (Pbkdf2.pbkdf2 (fun _ => (Vector.replicate 32 (0 : UInt8)).toList) key salt 1 32)) :=
  ⟨_, _, scrypt_standard zeroSha256 _ (Sha256.ofDigest_incremental _) (fun _ => 5) _ _ (by decide) zeroPad⟩

end Dobbscoin
