import Dobbscoin.Primitives.Block

/-!
# The search for a nonce

`ScanHash` and the search loop of `miner.cpp`: consecutive nonces are hashed in lanes, by code that may be faster than the
generic `scrypt` and that is checked against it.
-/

namespace Dobbscoin

open ByteCodec

variable {start : UInt32} {r : ScanResult}

/-! ## The scan -/

inductive ScryptImpl where
  | generic
  | sse2
  | avx
  | avx2
  deriving DecidableEq

/-- `ScryptImplLanes`. -/
def ScryptImpl.lanes : ScryptImpl → Nat
  | .generic => 1
  | .sse2 => 3
  | .avx => 3
  | .avx2 => 6

/-- One call: the header, the target, the implementation that is selected at each step, and what the fast code puts out
for a lane of a step. -/
structure ScanCall where
  header : CPureBlockHeader
  hashTarget : UInt256
  impl : Nat → ScryptImpl
  fast : Nat → Nat → Bytes → UInt256

/-- `nNonce` and `*phash` after the call, and the nonces that were hashed. -/
structure ScanResult where
  fFound : Bool
  nNonce : UInt32
  phash : Option UInt256
  hashed : List UInt32

namespace ScanCall

/-- The serialized header with another nonce in its last four bytes. -/
def laneHeader (c : ScanCall) (nNonce : UInt32) : Bytes :=
  c.header.bytes.take 76 ++ uint32Codec.put nNonce

/-- One lane of `scrypt_1024_1_1_256_nway`. -/
def nway (c : ScanCall) (H : Crypto) (i l : Nat) (header80 : Bytes) : UInt256 :=
  match c.impl i with
  | .generic => H.hashScrypt header80
  | _ => c.fast i l header80

/-- `MinerScryptCheck`. -/
def minerScryptCheck (H : Crypto) (impl : ScryptImpl) (header80 : Bytes) (hash32 : UInt256) : Bool :=
  impl = .generic || H.hashScrypt header80 = hash32

/-- The loop of `ScanHash`; `i` is the number of the step.  Without a result it does not end within the given steps. -/
def scanLoop (c : ScanCall) (H : Crypto) : Nat → Nat → UInt32 → Option ScanResult
  | 0, _, _ => none
  | fuel + 1, i, nPrev =>
    let nLanes := (c.impl i).lanes
    let nonce := fun l : Nat => nPrev + 1 + UInt32.ofNat l
    let hash := fun l : Nat => c.nway H i l (c.laneHeader (nonce l))
    let nNonce := nPrev + UInt32.ofNat nLanes
    let hashed := (List.range nLanes).map nonce
    match (List.range nLanes).find? fun l => !decide (hash l > c.hashTarget) with
    | some l =>
      if minerScryptCheck H (c.impl i) (c.laneHeader (nonce l)) (hash l) then
        some ⟨true, nonce l, some (hash l), hashed⟩
      else some ⟨false, nNonce, none, hashed⟩
    | none =>
      if nPrev >>> 12 ≠ nNonce >>> 12 then some ⟨false, nNonce, none, hashed⟩
      else (scanLoop c H fuel (i + 1) nNonce).map fun r => { r with hashed := hashed ++ r.hashed }

/-- `ScanHash`: no slice has more than 4096 nonces. -/
def scanHash (c : ScanCall) (H : Crypto) (nNonce : UInt32) : Option ScanResult :=
  c.scanLoop H 4096 0 nNonce

/-- The search loop of the miner, for as long as the block is not rebuilt: the nonce at which each call starts, and its
result. -/
def search (H : Crypto) : List ScanCall → UInt32 → Option (List (UInt32 × ScanResult))
  | [], _ => some []
  | c :: calls, nNonce => do
    let r ← c.scanHash H nNonce
    if r.fFound && r.phash.any (· ≤ c.hashTarget) then some [(nNonce, r)]
    else if r.nNonce ≥ 0xffff0000 then some [(nNonce, r)]
    else
      let rest ← search H calls r.nNonce
      some ((nNonce, r) :: rest)

/-- The generic `scrypt` of the header with this nonce. -/
def powHash (c : ScanCall) (H : Crypto) (nNonce : UInt32) : UInt256 :=
  { c.header with nNonce := nNonce }.getPoWHash H

/-- The fast code puts out what the generic code does. -/
def Agrees (c : ScanCall) (H : Crypto) : Prop :=
  ∀ i l header80, c.fast i l header80 = H.hashScrypt header80

/-! ## One step -/

variable {c : ScanCall} {H : Crypto}

/-- Patching the nonce gives the bytes of the header with that nonce. -/
theorem laneHeader_eq (c : ScanCall) (nNonce : UInt32) :
    c.laneHeader nNonce = ({ c.header with nNonce := nNonce } : CPureBlockHeader).bytes := by
  have hbytes : ∀ h : CPureBlockHeader, h.bytes = (leBytes 4 h.nVersion.toBitVec.toNat ++
      leBytes 32 h.hashPrevBlock.toNat ++ leBytes 32 h.hashMerkleRoot.toNat ++ leBytes 4 h.nTime.toNat ++
        leBytes 4 h.nBits.toNat) ++ uint32Codec.put h.nNonce := fun h => by
    have hput : h.bytes = leBytes 4 h.nVersion.toBitVec.toNat ++ (leBytes 32 h.hashPrevBlock.toNat ++
        (leBytes 32 h.hashMerkleRoot.toNat ++ (leBytes 4 h.nTime.toNat ++ (leBytes 4 h.nBits.toNat ++
          uint32Codec.put h.nNonce)))) := rfl
    simp only [hput, List.append_assoc]
  rw [laneHeader, hbytes, hbytes, List.take_left']
  simp only [List.length_append, leBytes_length]

theorem hashScrypt_laneHeader (c : ScanCall) (H : Crypto) (nNonce : UInt32) :
    H.hashScrypt (c.laneHeader nNonce) = c.powHash H nNonce := by
  rw [laneHeader_eq]
  rfl

theorem nway_of_agrees (h : c.Agrees H) (i l : Nat) (nNonce : UInt32) :
    c.nway H i l (c.laneHeader nNonce) = c.powHash H nNonce := by
  rw [← hashScrypt_laneHeader, nway]
  cases c.impl i with
  | generic => rfl
  | _ => exact h i l _

/-- A hash that passed the check is the generic one. -/
theorem nway_of_check {i l : Nat} {nNonce : UInt32}
    (h : minerScryptCheck H (c.impl i) (c.laneHeader nNonce) (c.nway H i l (c.laneHeader nNonce)) = true) :
    c.nway H i l (c.laneHeader nNonce) = c.powHash H nNonce := by
  rw [← hashScrypt_laneHeader]
  rw [minerScryptCheck, Bool.or_eq_true] at h
  rcases h with hgeneric | hsame
  · rw [nway, of_decide_eq_true hgeneric]
  · exact (of_decide_eq_true hsame).symm

theorem lanes_bounds (impl : ScryptImpl) : 1 ≤ impl.lanes ∧ impl.lanes ≤ 6 := by
  cases impl <;> exact ⟨by decide, by decide⟩

theorem toNat_add_ofNat {a : UInt32} {n : Nat} (h : a.toNat + n < 2 ^ 32) : (a + UInt32.ofNat n).toNat = a.toNat + n := by
  rw [UInt32.toNat_add, UInt32.toNat_ofNat']
  omega

theorem toNat_nonce {a : UInt32} {l : Nat} (h : a.toNat + 1 + l < 2 ^ 32) :
    (a + 1 + UInt32.ofNat l).toNat = a.toNat + 1 + l := by
  have hone : (a + 1).toNat = a.toNat + 1 := toNat_add_ofNat (n := 1) (by omega)
  rw [toNat_add_ofNat (by omega), hone]

theorem slice_eq_iff (a b : UInt32) : a >>> 12 = b >>> 12 ↔ a.toNat / 4096 = b.toNat / 4096 := by
  rw [← UInt32.toNat_inj, UInt32.toNat_shiftRight, UInt32.toNat_shiftRight, Nat.shiftRight_eq_div_pow,
    Nat.shiftRight_eq_div_pow]
  rfl

/-! ## One call -/

/-- The nonces `hashed` follow `start` one after the other, without wrapping around. -/
structure Consecutive (start : UInt32) (hashed : List UInt32) : Prop where
  nonces : hashed.map UInt32.toNat = List.range' (start.toNat + 1) hashed.length
  noWrap : start.toNat + hashed.length < 2 ^ 32

theorem Consecutive.append {start mid : UInt32} {xs ys : List UInt32} (h : Consecutive start xs)
    (hmid : mid.toNat = start.toNat + xs.length) (h' : Consecutive mid ys) : Consecutive start (xs ++ ys) := by
  have hbound := h'.noWrap
  refine ⟨?_, by rw [List.length_append]; omega⟩
  rw [List.map_append, h.nonces, h'.nonces, List.length_append, hmid, ← List.range'_append_1]
  congr 2
  omega

/-- The nonces of one step. -/
theorem consecutive_step {nPrev : UInt32} {nLanes : Nat} (h : nPrev.toNat + nLanes < 2 ^ 32) :
    Consecutive nPrev ((List.range nLanes).map fun l => nPrev + 1 + UInt32.ofNat l) := by
  refine ⟨?_, by rw [List.length_map, List.length_range]; exact h⟩
  rw [List.length_map, List.length_range, List.map_map, List.range'_eq_map_range]
  refine List.map_congr_left fun l hin => ?_
  have hl := List.mem_range.1 hin
  exact toNat_nonce (by omega)

/-- What a call does.  If it finds something, that is the generic hash and meets the target.  If the fast code agrees with
the generic one, all nonces before the one that is returned have been tried, and the last one too if nothing was found. -/
structure Scanned (c : ScanCall) (H : Crypto) (start : UInt32) (r : ScanResult) : Prop where
  hashed : Consecutive start r.hashed
  mem : r.nNonce ∈ r.hashed
  sound : r.fFound = true → r.phash = some (c.powHash H r.nNonce) ∧ c.powHash H r.nNonce ≤ c.hashTarget
  least : c.Agrees H → ∀ n : UInt32, start < n → n < r.nNonce → c.hashTarget < c.powHash H n
  exhausted : c.Agrees H → r.fFound = false → r.nNonce.toNat = start.toNat + r.hashed.length ∧
    ∀ n : UInt32, start < n → n ≤ r.nNonce → c.hashTarget < c.powHash H n

theorem Consecutive.mem_iff {hashed : List UInt32} (h : Consecutive start hashed) (n : UInt32) :
    n ∈ hashed ↔ start < n ∧ n.toNat ≤ start.toNat + hashed.length := by
  have hmap : n ∈ hashed ↔ n.toNat ∈ hashed.map UInt32.toNat := by
    rw [List.mem_map]
    constructor
    · exact fun hin => ⟨n, hin, rfl⟩
    · rintro ⟨m, hin, heq⟩
      exact UInt32.toNat_inj.1 heq ▸ hin
  rw [hmap, h.nonces, List.mem_range'_1, UInt32.lt_iff_toNat_lt]
  omega

/-- The end of a step from which no lane is returned, and the rest of the call. -/
theorem Scanned.after {start mid : UInt32} {xs : List UInt32} (hxs : Consecutive start xs)
    (hmid : mid.toNat = start.toNat + xs.length) (hnone : c.Agrees H → ∀ n ∈ xs, c.hashTarget < c.powHash H n)
    (h : Scanned c H mid r) : Scanned c H start { r with hashed := xs ++ r.hashed } := by
  refine ⟨hxs.append hmid h.hashed, List.mem_append_right _ h.mem, h.sound, fun hagrees n hlow hhigh => ?_, ?_⟩
  · by_cases hin : n.toNat ≤ start.toNat + xs.length
    · exact hnone hagrees n ((hxs.mem_iff n).2 ⟨hlow, hin⟩)
    · refine h.least hagrees n ?_ hhigh
      rw [UInt32.lt_iff_toNat_lt, hmid]
      omega
  · intro hagrees hfound
    rcases h.exhausted hagrees hfound with ⟨hlast, hall⟩
    refine ⟨by rw [hlast, hmid, List.length_append, Nat.add_assoc], fun n hlow hhigh => ?_⟩
    by_cases hin : n.toNat ≤ start.toNat + xs.length
    · exact hnone hagrees n ((hxs.mem_iff n).2 ⟨hlow, hin⟩)
    · refine hall n ?_ hhigh
      rw [UInt32.lt_iff_toNat_lt, hmid]
      omega

theorem scanLoop_scanned (c : ScanCall) (H : Crypto) {fuel i : Nat} {nPrev : UInt32} (hbound : nPrev.toNat < 0xffff0000)
    (hfuel : 4096 ≤ nPrev.toNat % 4096 + fuel) : ∃ r, c.scanLoop H fuel i nPrev = some r ∧ Scanned c H nPrev r := by
  induction fuel generalizing i nPrev with
  | zero =>
    have hmod : nPrev.toNat % 4096 < 4096 := Nat.mod_lt _ (by decide)
    omega
  | succ fuel ih =>
    rcases lanes_bounds (c.impl i) with ⟨hpos, hsix⟩
    rw [scanLoop]
    dsimp only
    generalize hlanes : (c.impl i).lanes = nLanes at hpos hsix ⊢
    have hstep : Consecutive nPrev ((List.range nLanes).map fun l => nPrev + 1 + UInt32.ofNat l) :=
      consecutive_step (by omega)
    have hlength : ((List.range nLanes).map fun l => nPrev + 1 + UInt32.ofNat l).length = nLanes := by
      rw [List.length_map, List.length_range]
    have hnext : (nPrev + UInt32.ofNat nLanes).toNat = nPrev.toNat + nLanes := toNat_add_ofNat (by omega)
    have hlast : nPrev + UInt32.ofNat nLanes ∈ (List.range nLanes).map fun l => nPrev + 1 + UInt32.ofNat l :=
      (hstep.mem_iff _).2 ⟨by rw [UInt32.lt_iff_toNat_lt]; omega, by rw [hlength, hnext]⟩
    cases hfind : (List.range nLanes).find? fun l =>
        !decide (c.nway H i l (c.laneHeader (nPrev + 1 + UInt32.ofNat l)) > c.hashTarget) with
    | some l =>
      rcases List.find?_range_eq_some.1 hfind with ⟨hmeets, hrange, hfront⟩
      have hl : l < nLanes := List.mem_range.1 hrange
      have hle : c.nway H i l (c.laneHeader (nPrev + 1 + UInt32.ofNat l)) ≤ c.hashTarget := by
        rw [Bool.not_eq_true', decide_eq_false_iff_not] at hmeets
        exact BitVec.not_lt.1 hmeets
      have hbefore : c.Agrees H → ∀ n : UInt32, nPrev < n → n < nPrev + 1 + UInt32.ofNat l →
          c.hashTarget < c.powHash H n := by
        intro hagrees n hlow hhigh
        rw [UInt32.lt_iff_toNat_lt] at hlow hhigh
        rw [toNat_nonce (by omega)] at hhigh
        have hn : n = nPrev + 1 + UInt32.ofNat (n.toNat - nPrev.toNat - 1) := by
          rw [← UInt32.toNat_inj, toNat_nonce (by omega)]
          omega
        have hmiss := hfront (n.toNat - nPrev.toNat - 1) (by omega)
        rw [← hn, nway_of_agrees hagrees, Bool.not_not, decide_eq_true_iff] at hmiss
        exact hmiss
      dsimp only
      split
      · next hcheck =>
        have hhash := nway_of_check hcheck
        rw [hhash] at hle ⊢
        exact ⟨_, rfl, hstep, List.mem_map_of_mem (List.mem_range.2 hl), fun _ => ⟨rfl, hle⟩, hbefore,
          fun _ hfound => nomatch hfound⟩
      · next hcheck =>
        -- Fast code that agrees passes the check.
        have hwrong : ¬c.Agrees H := fun hagrees => hcheck (by
          rw [minerScryptCheck, hashScrypt_laneHeader, nway_of_agrees hagrees, Bool.or_eq_true]
          exact Or.inr (decide_eq_true rfl))
        exact ⟨_, rfl, hstep, hlast, fun hfound => (nomatch hfound), fun hagrees => absurd hagrees hwrong,
          fun hagrees => absurd hagrees hwrong⟩
    | none =>
      have hmissed : c.Agrees H → ∀ n ∈ (List.range nLanes).map fun l => nPrev + 1 + UInt32.ofNat l,
          c.hashTarget < c.powHash H n := by
        intro hagrees n hin
        rcases List.mem_map.1 hin with ⟨l, hl, rfl⟩
        have hmiss := List.find?_range_eq_none.1 hfind l (List.mem_range.1 hl)
        rw [nway_of_agrees hagrees, Bool.not_not, decide_eq_true_iff] at hmiss
        exact hmiss
      dsimp only
      split
      · have hall : c.Agrees H → ∀ n : UInt32, nPrev < n → n ≤ nPrev + UInt32.ofNat nLanes →
            c.hashTarget < c.powHash H n := by
          intro hagrees n hlow hhigh
          refine hmissed hagrees n ((hstep.mem_iff n).2 ⟨hlow, ?_⟩)
          rw [UInt32.le_iff_toNat_le, hnext] at hhigh
          rw [hlength]
          exact hhigh
        refine ⟨_, rfl, hstep, hlast, fun hfound => (nomatch hfound), fun hagrees n hlow hhigh => ?_,
          fun hagrees _ => ?_⟩
        · exact hall hagrees n hlow (UInt32.le_of_lt hhigh)
        · exact ⟨by rw [hlength, hnext], hall hagrees⟩
      · next hslice =>
        have hsame : nPrev.toNat / 4096 = (nPrev + UInt32.ofNat nLanes).toNat / 4096 :=
          (slice_eq_iff _ _).1 (not_not.1 hslice)
        rw [hnext] at hsame
        have hbound' : (nPrev + UInt32.ofNat nLanes).toNat < 0xffff0000 := by
          rw [hnext]
          omega
        have hfuel' : 4096 ≤ (nPrev + UInt32.ofNat nLanes).toNat % 4096 + fuel := by
          rw [hnext]
          omega
        rcases ih hbound' hfuel' with ⟨r, hloop, hscanned⟩
        rw [hloop]
        exact ⟨_, rfl, hscanned.after hstep (by rw [hlength, hnext]) hmissed⟩

/-! ## The search -/

/-- The nonces that the calls are about: those after the start of a call, up to the one that it returns. -/
def covered (calls : List (UInt32 × ScanResult)) : List Nat :=
  calls.flatMap fun p => List.range' (p.1.toNat + 1) (p.2.nNonce.toNat - p.1.toNat)

/-- Where the search is after the calls. -/
def lastNonce (start : UInt32) (calls : List (UInt32 × ScanResult)) : UInt32 :=
  calls.foldl (fun _ p => p.2.nNonce) start

theorem Scanned.lt (h : Scanned c H start r) : start < r.nNonce :=
  ((h.hashed.mem_iff _).1 h.mem).1

theorem covered_single (h : start < r.nNonce) :
    ∃ n, covered [(start, r)] = List.range' (start.toNat + 1) n ∧
      (lastNonce start [(start, r)]).toNat = start.toNat + n := by
  rw [UInt32.lt_iff_toNat_lt] at h
  exact ⟨r.nNonce.toNat - start.toNat, List.append_nil _, (Nat.add_sub_cancel' h.le).symm⟩

theorem covered_cons {rest : List (UInt32 × ScanResult)} {n : Nat}
    (h : start < r.nNonce) (hrest : covered rest = List.range' (r.nNonce.toNat + 1) n)
    (hlast : (lastNonce r.nNonce rest).toNat = r.nNonce.toNat + n) :
    ∃ n, covered ((start, r) :: rest) = List.range' (start.toNat + 1) n ∧
      (lastNonce start ((start, r) :: rest)).toNat = start.toNat + n := by
  rw [UInt32.lt_iff_toNat_lt] at h
  refine ⟨r.nNonce.toNat - start.toNat + n, ?_, ?_⟩
  · have hsplit : covered ((start, r) :: rest) =
        List.range' (start.toNat + 1) (r.nNonce.toNat - start.toNat) ++ covered rest := List.flatMap_cons
    have hmid : start.toNat + 1 + (r.nNonce.toNat - start.toNat) = r.nNonce.toNat + 1 := by omega
    rw [hsplit, hrest, ← List.range'_append_1, hmid]
  · have hcons : lastNonce start ((start, r) :: rest) = lastNonce r.nNonce rest := rfl
    rw [hcons, hlast]
    omega

theorem scanHash_scanned (c : ScanCall) (H : Crypto) (hstart : start.toNat < 0xffff0000) :
    ∃ r, c.scanHash H start = some r ∧ Scanned c H start r :=
  scanLoop_scanned c H hstart (Nat.le_add_left _ _)

theorem search_scanned (H : Crypto) (calls : List ScanCall) (hstart : start.toNat < 0xffff0000) :
    ∃ results : List (UInt32 × ScanResult), search H calls start = some results ∧
      (∀ (k : Nat) s r, results[k]? = some (s, r) → s.toNat < 0xffff0000 ∧
        ∃ c, calls[k]? = some c ∧ Scanned c H s r) ∧
      ∃ n, covered results = List.range' (start.toNat + 1) n ∧ (lastNonce start results).toNat = start.toNat + n := by
  induction calls generalizing start with
  | nil => exact ⟨[], rfl, fun k s r hin => (nomatch hin), 0, rfl, rfl⟩
  | cons c calls ih =>
    rcases scanHash_scanned c H hstart with ⟨r, hr, hscanned⟩
    have hfirst : ∀ (k : Nat) s r', [(start, r)][k]? = some (s, r') → s.toNat < 0xffff0000 ∧
        ∃ c', (c :: calls)[k]? = some c' ∧ Scanned c' H s r' := by
      intro k s r' hin
      cases k with
      | zero =>
        cases hin
        exact ⟨hstart, c, rfl, hscanned⟩
      | succ k => cases hin
    rw [search, hr, Option.bind_eq_bind, Option.bind_some]
    split
    · exact ⟨_, rfl, hfirst, covered_single hscanned.lt⟩
    · split
      · exact ⟨_, rfl, hfirst, covered_single hscanned.lt⟩
      · next hgo =>
        have hnext : r.nNonce.toNat < 0xffff0000 := by
          rw [ge_iff_le, UInt32.le_iff_toNat_le] at hgo
          exact Nat.not_le.1 hgo
        rcases ih hnext with ⟨rest, hrest, hall, n, hcovered, hlast⟩
        rw [hrest]
        refine ⟨(start, r) :: rest, rfl, fun k s r' hin => ?_, covered_cons hscanned.lt hcovered hlast⟩
        cases k with
        | zero => exact hfirst 0 s r' hin
        | succ k => exact hall k s r' hin

/-- The miner's search.  Every call ends, and does what it should; the calls go on where the ones before stopped, so that
each nonce up to the last one that was returned is in exactly one of them. -/
theorem search_exact (H : Crypto) (calls : List ScanCall) {start : UInt32} (hstart : start.toNat < 0xffff0000) :
    ∃ results : List (UInt32 × ScanResult), search H calls start = some results ∧
      (∀ (k : Nat) s r, results[k]? = some (s, r) → s.toNat < 0xffff0000 ∧
        ∃ c, calls[k]? = some c ∧ Scanned c H s r) ∧
      covered results = List.range' (start.toNat + 1) ((lastNonce start results).toNat - start.toNat) := by
  rcases search_scanned H calls hstart with ⟨results, hresults, hall, n, hcovered, hlast⟩
  refine ⟨results, hresults, hall, ?_⟩
  rw [hlast, Nat.add_sub_cancel_left]
  exact hcovered

/-- All hashes are 0, and the code has six lanes. -/
def zeroHash : Crypto where
  hash _ := 0
  hashScrypt _ := 0

def sixLanes : ScanCall where
  header := ⟨1, 0, 0, 0, 0, 0⟩
  hashTarget := 1
  impl _ := .avx2
  fast _ _ _ := 0

theorem search_exact_sixLanes :
    ∃ results : List (UInt32 × ScanResult), search zeroHash [sixLanes] 0 = some results ∧
      (∀ (k : Nat) s r, results[k]? = some (s, r) → s.toNat < 0xffff0000 ∧
        ∃ c, [sixLanes][k]? = some c ∧ Scanned c zeroHash s r) ∧
      covered results = List.range' ((0 : UInt32).toNat + 1) ((lastNonce 0 results).toNat - (0 : UInt32).toNat) :=
  search_exact zeroHash [sixLanes] (by decide)

end ScanCall

end Dobbscoin
