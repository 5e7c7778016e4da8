import Dobbscoin.Lib.ByteBits
import Dobbscoin.Script.Standard

/-!
# Bloom filters

`bloom.cpp`, with `MurmurHash3` of `hash.cpp`.  `none` is a division by zero, or an access outside of `vData`.
-/

namespace Dobbscoin

open ByteBits (lsb)

/-! ## MurmurHash3 -/

def rotl32 (x : UInt32) (r : UInt32) : UInt32 :=
  x <<< r ||| x >>> (32 - r)

namespace Murmur

/-- What is done to the words of the data. -/
def mixKey (k1 : UInt32) : UInt32 :=
  rotl32 (k1 * 0xcc9e2d51) 15 * 0x1b873593

/-- The loop over the words. -/
def body : Bytes → UInt32 → UInt32 × Bytes
  | b₀ :: b₁ :: b₂ :: b₃ :: data, h1 =>
    let k1 := UInt32.ofNat (ByteCodec.leNat [b₀, b₁, b₂, b₃])
    body data (rotl32 (h1 ^^^ mixKey k1) 13 * 5 + 0xe6546b64)
  | tail, h1 => (h1, tail)

def tailWord (tail : Bytes) (h1 : UInt32) : UInt32 :=
  match tail with
  | [] => h1
  | _ => h1 ^^^ mixKey (UInt32.ofNat (ByteCodec.leNat tail))

def finalize (h1 : UInt32) (size : Nat) : UInt32 :=
  let h1 := h1 ^^^ UInt32.ofNat size
  let h1 := (h1 ^^^ h1 >>> 16) * 0x85ebca6b
  let h1 := (h1 ^^^ h1 >>> 13) * 0xc2b2ae35
  h1 ^^^ h1 >>> 16

end Murmur

def murmurHash3 (nHashSeed : UInt32) (vDataToHash : Bytes) : UInt32 :=
  let (h1, tail) := Murmur.body vDataToHash nHashSeed
  Murmur.finalize (Murmur.tailWord tail h1) vDataToHash.length

example : murmurHash3 0 [0x00, 0x11, 0x22, 0x33, 0x44, 0x55, 0x66] = 0xb074502c := by decide

/-! ## CBloomFilter -/

def maxBloomFilterSize : Nat := 36000

def maxHashFuncs : UInt32 := 50

structure CBloomFilter where
  vData : Bytes
  isFull : Bool
  isEmpty : Bool
  nHashFuncs : UInt32
  nTweak : UInt32
  nFlags : UInt8
  deriving DecidableEq

namespace CBloomFilter

/-- `Hash`: the bit of a key for one of the hash functions. -/
def hash (filter : CBloomFilter) (nHashNum : UInt32) (vDataToHash : Bytes) : Option Nat :=
  let size := filter.vData.length * 8
  if size = 0 then none
  else some ((murmurHash3 (nHashNum * 0xFBA4C795 + filter.nTweak) vDataToHash).toNat % size)

/-- `vData[nIndex >> 3] |= (1 << (7 & nIndex))` -/
def setBit (filter : CBloomFilter) (nIndex : Nat) : Option CBloomFilter :=
  if nIndex / 8 < filter.vData.length then some { filter with vData := ByteBits.set filter.vData nIndex } else none

/-- `vData[nIndex >> 3] & (1 << (7 & nIndex))` -/
def testBit (filter : CBloomFilter) (nIndex : Nat) : Option Bool :=
  filter.vData[nIndex / 8]?.map fun byte => decide (byte &&& ByteBits.single (nIndex % 8) ≠ 0)

/-- The numbers of the hash functions. -/
def hashNums (filter : CBloomFilter) : List UInt32 :=
  (List.range filter.nHashFuncs.toNat).map UInt32.ofNat

def setLoop (vKey : Bytes) (filter : CBloomFilter) : List UInt32 → Option CBloomFilter
  | [] => some filter
  | i :: is => do
    let nIndex ← filter.hash i vKey
    let filter ← filter.setBit nIndex
    setLoop vKey filter is

def insert (filter : CBloomFilter) (vKey : Bytes) : Option CBloomFilter :=
  if filter.isFull then some filter
  else (filter.setLoop vKey filter.hashNums).map fun filter => { filter with isEmpty := false }

def testLoop (filter : CBloomFilter) (vKey : Bytes) : List UInt32 → Option Bool
  | [] => some true
  | i :: is => do
    let nIndex ← filter.hash i vKey
    let isSet ← filter.testBit nIndex
    if isSet then testLoop filter vKey is else some false

def contains (filter : CBloomFilter) (vKey : Bytes) : Option Bool :=
  if filter.isFull then some true
  else if filter.isEmpty then some false
  else filter.testLoop vKey filter.hashNums

def isWithinSizeConstraints (filter : CBloomFilter) : Bool :=
  filter.vData.length ≤ maxBloomFilterSize && filter.nHashFuncs ≤ maxHashFuncs

def updateEmptyFull (filter : CBloomFilter) : CBloomFilter :=
  { filter with isFull := filter.vData.all (· = 0xff), isEmpty := filter.vData.all (· = 0) }

/-- The loop over the data of a script: whether the filter contains some of it. -/
def containsData (filter : CBloomFilter) : List (Nat × Bytes) → Option Bool
  | [] => some false
  | (_, data) :: ops =>
    if data.length ≠ 0 then do
      if ← filter.contains data then some true else containsData filter ops
    else containsData filter ops

/-- What `GetOp` reads of a script before it fails. -/
def parsable (script : CScript) : List (Nat × Bytes) :=
  (CScript.getOps script.length script).1

/-- Whether the outpoint of a matched output is added. -/
def updates (carrier : DataCarrier) (filter : CBloomFilter) (scriptPubKey : CScript) : Bool :=
  if filter.nFlags &&& 3 = 1 then true
  else if filter.nFlags &&& 3 = 2 then
    let solved := solver carrier scriptPubKey
    solved.ret && (solved.typeRet = .pubKey || solved.typeRet = .multiSig)
  else false

/-- The loop over the outputs, from the index `i` on. -/
def outputLoop (carrier : DataCarrier) (hash : UInt256) :
    List CTxOut → Nat → Bool → CBloomFilter → Option (Bool × CBloomFilter)
  | [], _, fFound, filter => some (fFound, filter)
  | txout :: vout, i, fFound, filter => do
    if ← filter.containsData (parsable txout.scriptPubKey) then
      if updates carrier filter txout.scriptPubKey then
        let filter ← filter.insert (COutPoint.codec.put ⟨hash, UInt32.ofNat i⟩)
        outputLoop carrier hash vout (i + 1) true filter
      else outputLoop carrier hash vout (i + 1) true filter
    else outputLoop carrier hash vout (i + 1) fFound filter

def inputLoop (filter : CBloomFilter) : List CTxIn → Option Bool
  | [] => some false
  | txin :: vin => do
    if ← filter.contains (COutPoint.codec.put txin.prevout) then some true
    else if ← filter.containsData (parsable txin.scriptSig) then some true
    else inputLoop filter vin

def isRelevantAndUpdate (H : Crypto) (carrier : DataCarrier) (filter : CBloomFilter) (tx : CTransaction) :
    Option (Bool × CBloomFilter) :=
  if filter.isFull then some (true, filter)
  else if filter.isEmpty then some (false, filter)
  else do
    let hash := tx.getHash H
    let fFound ← filter.contains (UInt256.bytes hash)
    let (fFound, filter) ← outputLoop carrier hash tx.vout 0 fFound filter
    if fFound then return (true, filter)
    let found ← filter.inputLoop tx.vin
    return (found, filter)

/-! ## Messages -/

/-- A filter from the network. -/
def read (vRecv : Bytes) : Option CBloomFilter :=
  ((scriptCodec.pair (uint32Codec.pair (uint32Codec.pair ByteCodec.byte))).get vRecv).map fun r =>
    { vData := r.1.1, isFull := true, isEmpty := false, nHashFuncs := r.1.2.1, nTweak := r.1.2.2.1, nFlags := r.1.2.2.2 }

/-- The filter of a peer after `filterload`. -/
def filterLoad (vRecv : Bytes) : Option CBloomFilter :=
  match read vRecv with
  | none => none
  | some filter => if filter.isWithinSizeConstraints then some filter.updateEmptyFull else none

/-- `filteradd`: nothing is added when the data is too large. -/
def filterAdd (filter : CBloomFilter) (vData : Bytes) : Option CBloomFilter :=
  if vData.length > maxScriptElementSize then some filter else filter.insert vData

/-- The loop of the constructor of `CMerkleBlock`: which transactions match, and the filter. -/
def merkleBlockLoop (H : Crypto) (carrier : DataCarrier) :
    CBloomFilter → List CTransaction → Option (List Bool × CBloomFilter)
  | filter, [] => some ([], filter)
  | filter, tx :: vtx => do
    let (isMatch, filter) ← filter.isRelevantAndUpdate H carrier tx
    let (vMatch, filter) ← merkleBlockLoop H carrier filter vtx
    return (isMatch :: vMatch, filter)

/-! ## Bits -/

variable {filter filter' : CBloomFilter} {e : Bytes}

/-- The bit of a key, where there are any. -/
def index (filter : CBloomFilter) (nHashNum : UInt32) (e : Bytes) : Nat :=
  (murmurHash3 (nHashNum * 0xFBA4C795 + filter.nTweak) e).toNat % (filter.vData.length * 8)

theorem hash_eq (hne : filter.vData ≠ []) (i : UInt32) (e : Bytes) : filter.hash i e = some (filter.index i e) := by
  have hpos := List.length_pos_iff.2 hne
  exact if_neg (by omega)

theorem index_lt (hne : filter.vData ≠ []) (i : UInt32) (e : Bytes) : filter.index i e < 8 * filter.vData.length := by
  have hpos := List.length_pos_iff.2 hne
  rw [Nat.mul_comm]
  exact Nat.mod_lt _ (by omega)

theorem testBit_eq {p : Nat} (hp : p < 8 * filter.vData.length) : filter.testBit p = some (lsb filter.vData p) := by
  have hbyte : p / 8 < filter.vData.length := by omega
  rw [testBit, List.getElem?_eq_getElem hbyte, Option.map_some, lsb, List.getD_eq_getElem?_getD,
    List.getElem?_eq_getElem hbyte, Option.getD_some]
  simp only [ByteBits.and_single_ne_zero (Nat.mod_lt p (by decide)), Bool.decide_eq_true]

/-! ## What stays -/

/-- A filter that is not full has a byte. -/
def Sound (filter : CBloomFilter) : Prop :=
  filter.isFull = false → filter.vData ≠ []

/-- What a query for the element looks at. -/
def Holds (filter : CBloomFilter) (e : Bytes) : Prop :=
  filter.isFull = true ∨
    filter.isEmpty = false ∧ ∀ i ∈ filter.hashNums, lsb filter.vData (filter.index i e) = true

/-- Bits are set, and nothing else changes but that the filter is not empty any more. -/
structure Grows (filter filter' : CBloomFilter) : Prop where
  length : filter'.vData.length = filter.vData.length
  full : filter'.isFull = filter.isFull
  funcs : filter'.nHashFuncs = filter.nHashFuncs
  tweak : filter'.nTweak = filter.nTweak
  flags : filter'.nFlags = filter.nFlags
  empty : filter.isEmpty = false → filter'.isEmpty = false
  bits : ∀ p, lsb filter.vData p = true → lsb filter'.vData p = true

theorem Grows.refl (filter : CBloomFilter) : Grows filter filter :=
  ⟨rfl, rfl, rfl, rfl, rfl, id, fun _ => id⟩

theorem Grows.trans {filter'' : CBloomFilter} (h : Grows filter filter') (h' : Grows filter' filter'') :
    Grows filter filter'' where
  length := h'.length.trans h.length
  full := h'.full.trans h.full
  funcs := h'.funcs.trans h.funcs
  tweak := h'.tweak.trans h.tweak
  flags := h'.flags.trans h.flags
  empty hempty := h'.empty (h.empty hempty)
  bits p hp := h'.bits p (h.bits p hp)

theorem Grows.index_eq (h : Grows filter filter') (i : UInt32) (e : Bytes) : filter'.index i e = filter.index i e := by
  rw [index, index, h.length, h.tweak]

theorem Grows.sound (h : Grows filter filter') (hsound : filter.Sound) : filter'.Sound := by
  intro hfull
  rw [h.full] at hfull
  rw [← List.length_pos_iff, h.length, List.length_pos_iff]
  exact hsound hfull

/-- What a filter holds it holds when it has grown. -/
theorem Grows.holds (h : Grows filter filter') (he : filter.Holds e) : filter'.Holds e := by
  rcases he with hfull | ⟨hempty, hbits⟩
  · exact .inl (h.full.trans hfull)
  · refine .inr ⟨h.empty hempty, fun i hi => ?_⟩
    rw [hashNums, h.funcs] at hi
    rw [h.index_eq]
    exact h.bits _ (hbits i hi)

theorem updateEmptyFull_sound (filter : CBloomFilter) : filter.updateEmptyFull.Sound := by
  intro hfull hnil
  have hnil' : filter.vData = [] := hnil
  rw [updateEmptyFull, hnil'] at hfull
  cases hfull

theorem filterLoad_sound {vRecv : Bytes} (h : filterLoad vRecv = some filter) : filter.Sound := by
  unfold filterLoad at h
  cases hread : read vRecv with
  | none =>
    rw [hread] at h
    cases h
  | some raw =>
    rw [hread] at h
    dsimp only at h
    split_ifs at h
    cases h
    exact updateEmptyFull_sound raw

/-! ## Insertion -/

theorem setLoop_spec (hne : filter.vData ≠ []) (e : Bytes) (is : List UInt32) :
    ∃ filter', filter.setLoop e is = some filter' ∧ Grows filter filter' ∧
      ∀ i ∈ is, lsb filter'.vData (filter.index i e) = true := by
  induction is generalizing filter with
  | nil => exact ⟨filter, rfl, Grows.refl filter, fun i hi => (nomatch hi)⟩
  | cons i is ih =>
    have hp := index_lt hne i e
    let next : CBloomFilter := { filter with vData := ByteBits.set filter.vData (filter.index i e) }
    have hset : filter.setBit (filter.index i e) = some next := if_pos (by omega)
    have hlength : next.vData.length = filter.vData.length := List.length_modify ..
    have hgrows : Grows filter next := by
      refine ⟨hlength, rfl, rfl, rfl, rfl, id, fun p hbit => ?_⟩
      rw [ByteBits.lsb_set hp, hbit, Bool.true_or]
    have hne' : next.vData ≠ [] := by
      rw [← List.length_pos_iff, hlength, List.length_pos_iff]
      exact hne
    rcases ih hne' with ⟨filter', hloop, hgrows', hbits⟩
    refine ⟨filter', ?_, hgrows.trans hgrows', fun j hj => ?_⟩
    · rw [setLoop, hash_eq hne, Option.bind_eq_bind, Option.bind_some, hset, Option.bind_eq_bind, Option.bind_some, hloop]
    · rcases List.mem_cons.1 hj with rfl | hj
      · refine hgrows'.bits _ ?_
        rw [ByteBits.lsb_set hp, decide_eq_true rfl, Bool.or_true]
      · rw [← hgrows.index_eq]
        exact hbits j hj

/-- After an insertion the filter holds the element, and all that it held before. -/
theorem insert_spec (hsound : filter.Sound) (e : Bytes) :
    ∃ filter', filter.insert e = some filter' ∧ Grows filter filter' ∧ filter'.Holds e := by
  unfold insert
  cases hfull : filter.isFull with
  | true => exact ⟨filter, rfl, Grows.refl filter, .inl hfull⟩
  | false =>
    rcases setLoop_spec (hsound hfull) e filter.hashNums with ⟨filled, hloop, hgrows, hbits⟩
    have hgrows' : Grows filter { filled with isEmpty := false } :=
      ⟨hgrows.length, hgrows.full, hgrows.funcs, hgrows.tweak, hgrows.flags, fun _ => rfl, hgrows.bits⟩
    refine ⟨{ filled with isEmpty := false }, ?_, hgrows', .inr ⟨rfl, fun i hi => ?_⟩⟩
    · rw [hloop]
      rfl
    · rw [hashNums, hgrows.funcs] at hi
      rw [hgrows'.index_eq]
      exact hbits i hi

/-! ## Queries -/

theorem testLoop_spec (hne : filter.vData ≠ []) (e : Bytes) (is : List UInt32) :
    ∃ found, filter.testLoop e is = some found ∧
      (found = true ↔ ∀ i ∈ is, lsb filter.vData (filter.index i e) = true) := by
  induction is with
  | nil => exact ⟨true, rfl, fun _ i hi => (nomatch hi), fun _ => rfl⟩
  | cons i is ih =>
    rw [testLoop, hash_eq hne, Option.bind_eq_bind, Option.bind_some, testBit_eq (index_lt hne i e), Option.bind_eq_bind,
      Option.bind_some]
    cases hbit : lsb filter.vData (filter.index i e) with
    | false =>
      refine ⟨false, rfl, fun h => (nomatch h), fun h => ?_⟩
      rw [h i List.mem_cons_self] at hbit
      cases hbit
    | true =>
      rcases ih with ⟨found, hloop, hfound⟩
      refine ⟨found, hloop, ?_⟩
      rw [hfound, List.forall_mem_cons, hbit, eq_self, true_and]

theorem contains_spec (hsound : filter.Sound) (e : Bytes) :
    ∃ found, filter.contains e = some found ∧ (found = true ↔ filter.Holds e) := by
  unfold contains Holds
  cases hfull : filter.isFull with
  | true => exact ⟨true, rfl, fun _ => .inl rfl, fun _ => rfl⟩
  | false =>
    cases hempty : filter.isEmpty with
    | true => exact ⟨false, rfl, fun h => (nomatch h), fun h => h.elim (fun h => (nomatch h)) fun h => (nomatch h.1)⟩
    | false =>
      rcases testLoop_spec (hsound hfull) e filter.hashNums with ⟨found, hloop, hfound⟩
      refine ⟨found, hloop, hfound.trans ⟨fun h => .inr ⟨rfl, h⟩, fun h => ?_⟩⟩
      rcases h with h | h
      · cases h
      · exact h.2

theorem contains_of_holds (hsound : filter.Sound) (h : filter.Holds e) : filter.contains e = some true := by
  rcases contains_spec hsound e with ⟨found, hcontains, hfound⟩
  rw [hcontains, hfound.2 h]

theorem holds_of_contains (hsound : filter.Sound) (h : filter.contains e = some true) : filter.Holds e := by
  rcases contains_spec hsound e with ⟨found, hcontains, hfound⟩
  rw [hcontains] at h
  exact hfound.1 (Option.some.inj h)

/-- The non-empty data of a script, as far as it can be parsed. -/
def pushed (script : CScript) : List Bytes :=
  ((parsable script).map Prod.snd).filter fun data => data.length ≠ 0

theorem containsData_spec (hsound : filter.Sound) (ops : List (Nat × Bytes)) :
    ∃ found, filter.containsData ops = some found ∧
      (found = true ↔ ∃ data ∈ (ops.map Prod.snd).filter fun data => data.length ≠ 0, filter.Holds data) := by
  induction ops with
  | nil => exact ⟨false, rfl, fun h => (nomatch h), fun ⟨data, h, _⟩ => (nomatch h)⟩
  | cons op ops ih =>
    rcases op with ⟨opcode, data⟩
    rcases ih with ⟨rest, hrest, hiff⟩
    rw [containsData, List.map_cons]
    by_cases hempty : data.length ≠ 0
    · rw [if_pos hempty, List.filter_cons, if_pos (decide_eq_true hempty)]
      rcases contains_spec hsound data with ⟨found, hcontains, hfound⟩
      rw [hcontains, Option.bind_eq_bind, Option.bind_some]
      cases found with
      | true => exact ⟨true, rfl, fun _ => ⟨data, List.mem_cons_self, hfound.1 rfl⟩, fun _ => rfl⟩
      | false =>
        refine ⟨rest, hrest, ?_⟩
        rw [hiff]
        constructor
        · rintro ⟨data', hmem, hholds⟩
          exact ⟨data', List.mem_cons_of_mem data hmem, hholds⟩
        · rintro ⟨data', hmem, hholds⟩
          rcases List.mem_cons.1 hmem with rfl | hmem
          · exact nomatch hfound.2 hholds
          · exact ⟨data', hmem, hholds⟩
    · rw [if_neg hempty, List.filter_cons, if_neg fun h => hempty (of_decide_eq_true h)]
      exact ⟨rest, hrest, hiff⟩

/-! ## Transactions -/

section

variable {carrier : DataCarrier} {hash : UInt256}

/-- One output: its outpoint is added when the output matches, and the flags ask for all of them. -/
theorem outputStep_spec (carrier : DataCarrier) (hash : UInt256) (hsound : filter.Sound) (txout : CTxOut) (vout : List CTxOut) (i : Nat) (fFound : Bool) :
    ∃ found next, outputLoop carrier hash (txout :: vout) i fFound filter =
        outputLoop carrier hash vout (i + 1) (fFound || found) next ∧ Grows filter next ∧
      ((∃ data ∈ pushed txout.scriptPubKey, filter.Holds data) →
        found = true ∧ (filter.nFlags &&& 3 = 1 → next.Holds (COutPoint.codec.put ⟨hash, UInt32.ofNat i⟩))) := by
  rcases containsData_spec hsound (parsable txout.scriptPubKey) with ⟨found, hdata, hfound⟩
  rw [outputLoop, hdata, Option.bind_eq_bind, Option.bind_some]
  cases found with
  | false =>
    refine ⟨false, filter, by rw [Bool.or_false]; rfl, Grows.refl filter, fun h => ?_⟩
    exact nomatch hfound.2 h
  | true =>
    rw [if_pos rfl]
    by_cases hupdates : updates carrier filter txout.scriptPubKey = true
    · rcases insert_spec hsound (COutPoint.codec.put ⟨hash, UInt32.ofNat i⟩) with ⟨next, hinsert, hgrows, hholds⟩
      refine ⟨true, next, ?_, hgrows, fun _ => ⟨rfl, fun _ => hholds⟩⟩
      rw [if_pos hupdates, hinsert, Option.bind_eq_bind, Option.bind_some, Bool.or_true]
    · refine ⟨true, filter, ?_, Grows.refl filter, fun _ => ⟨rfl, fun hall => ?_⟩⟩
      · rw [if_neg hupdates, Bool.or_true]
      · exact absurd (if_pos hall) hupdates

theorem outputLoop_spec (carrier : DataCarrier) (hash : UInt256) (hsound : filter.Sound) (vout : List CTxOut) (i : Nat) (fFound : Bool) :
    ∃ found filter', outputLoop carrier hash vout i fFound filter = some (found, filter') ∧ Grows filter filter' ∧
      (fFound = true → found = true) ∧
      ∀ txout ∈ vout, ∀ data ∈ pushed txout.scriptPubKey, filter.Holds data → found = true := by
  induction vout generalizing i fFound filter with
  | nil => exact ⟨fFound, filter, rfl, Grows.refl filter, id, fun txout h => (nomatch h)⟩
  | cons txout vout ih =>
    rcases outputStep_spec carrier hash hsound txout vout i fFound with
      ⟨found, next, hstep, hgrows, hmatch⟩
    rcases ih (hgrows.sound hsound) (i + 1) (fFound || found) with ⟨found', filter', hloop, hgrows', hkept, hrest⟩
    refine ⟨found', filter', hstep.trans hloop, hgrows.trans hgrows', fun h => hkept (by rw [h, Bool.true_or]), ?_⟩
    intro txout' htxout data hdata hholds
    rcases List.mem_cons.1 htxout with rfl | htxout
    · exact hkept (by rw [(hmatch ⟨data, hdata, hholds⟩).1, Bool.or_true])
    · exact hrest txout' htxout data hdata (hgrows.holds hholds)

theorem outputLoop_append (pre post : List CTxOut) (i : Nat) (fFound : Bool) (filter : CBloomFilter) :
    outputLoop carrier hash (pre ++ post) i fFound filter =
      (outputLoop carrier hash pre i fFound filter).bind fun r =>
        outputLoop carrier hash post (i + pre.length) r.1 r.2 := by
  induction pre generalizing i fFound filter with
  | nil => rfl
  | cons txout pre ih =>
    have hplace : i + (txout :: pre).length = i + 1 + pre.length := by rw [List.length_cons]; omega
    rw [List.cons_append, outputLoop, outputLoop, hplace]
    cases filter.containsData (parsable txout.scriptPubKey) with
    | none => rfl
    | some found =>
      simp only [Option.bind_eq_bind, Option.bind_some]
      split_ifs
      · cases filter.insert (COutPoint.codec.put ⟨hash, UInt32.ofNat i⟩) with
        | none => rfl
        | some next => exact ih (i + 1) true next
      · exact ih (i + 1) true filter
      · exact ih (i + 1) fFound filter

/-- A matched output is in the filter afterwards. -/
theorem outputLoop_adds (hsound : filter.Sound) {pre : List CTxOut} {txout : CTxOut} {fFound found : Bool}
    {mid : CBloomFilter} (hmid : outputLoop carrier hash pre 0 fFound filter = some (found, mid)) {data : Bytes}
    (hdata : data ∈ pushed txout.scriptPubKey) (hholds : mid.Holds data) (hflags : filter.nFlags &&& 3 = 1)
    (post : List CTxOut) :
    ∃ found' filter', outputLoop carrier hash (pre ++ txout :: post) 0 fFound filter = some (found', filter') ∧
      filter'.Holds (COutPoint.codec.put ⟨hash, UInt32.ofNat pre.length⟩) := by
  rcases outputLoop_spec carrier hash hsound pre 0 fFound with ⟨found₀, mid₀, hloop, hgrows, -, -⟩
  rw [hmid] at hloop
  cases hloop
  have hsound' := hgrows.sound hsound
  rcases outputStep_spec carrier hash hsound' txout post (0 + pre.length) found with
    ⟨here, next, hstep, hgrows', hmatch⟩
  have hadded := (hmatch ⟨data, hdata, hholds⟩).2 (by rwa [hgrows.flags])
  rcases outputLoop_spec carrier hash (hgrows'.sound hsound') post (0 + pre.length + 1)
      (found || here) with ⟨found', filter', hrest, hgrows'', -, -⟩
  refine ⟨found', filter', ?_, ?_⟩
  · rw [outputLoop_append, hmid, Option.bind_some, hstep, hrest]
  · rw [Nat.zero_add] at hadded
    exact hgrows''.holds hadded

end

theorem inputLoop_spec (hsound : filter.Sound) (vin : List CTxIn) :
    ∃ found, filter.inputLoop vin = some found ∧
      ∀ txin ∈ vin, filter.Holds (COutPoint.codec.put txin.prevout) ∨
        (∃ data ∈ pushed txin.scriptSig, filter.Holds data) → found = true := by
  induction vin with
  | nil => exact ⟨false, rfl, fun txin h => (nomatch h)⟩
  | cons txin vin ih =>
    rcases contains_spec hsound (COutPoint.codec.put txin.prevout) with ⟨spent, hspent, hspent'⟩
    rcases containsData_spec hsound (parsable txin.scriptSig) with ⟨found, hdata, hfound⟩
    rcases ih with ⟨rest, hrest, hvin⟩
    rw [inputLoop, hspent, Option.bind_eq_bind, Option.bind_some, hdata, hrest]
    cases spent with
    | true => exact ⟨true, rfl, fun _ _ _ => rfl⟩
    | false =>
      cases found with
      | true => exact ⟨true, rfl, fun _ _ _ => rfl⟩
      | false =>
        refine ⟨rest, rfl, fun txin' htxin h => ?_⟩
        rcases List.mem_cons.1 htxin with rfl | htxin
        · rcases h with h | h
          · exact nomatch hspent'.2 h
          · exact nomatch hfound.2 h
        · exact hvin txin' htxin h

/-- What a transaction is looked up by. -/
inductive Names (H : Crypto) (tx : CTransaction) : Bytes → Prop
  | txid : Names H tx (UInt256.bytes (tx.getHash H))
  | output {txout : CTxOut} {data : Bytes} (htxout : txout ∈ tx.vout) (hdata : data ∈ pushed txout.scriptPubKey) :
      Names H tx data
  | input {txin : CTxIn} {data : Bytes} (htxin : txin ∈ tx.vin) (hdata : data ∈ pushed txin.scriptSig) :
      Names H tx data
  | spent {txin : CTxIn} (htxin : txin ∈ tx.vin) : Names H tx (COutPoint.codec.put txin.prevout)

theorem not_holds_of_isEmpty (hfull : filter.isFull = false) (hempty : filter.isEmpty = true) (e : Bytes) :
    ¬filter.Holds e := by
  rintro (h | h)
  · rw [hfull] at h
    cases h
  · rw [hempty] at h
    cases h.1

theorem isRelevantAndUpdate_spec (hsound : filter.Sound) (H : Crypto) (carrier : DataCarrier) (tx : CTransaction) :
    ∃ found filter', filter.isRelevantAndUpdate H carrier tx = some (found, filter') ∧ Grows filter filter' ∧
      ∀ e, Names H tx e → filter.Holds e → found = true := by
  unfold isRelevantAndUpdate
  cases hfull : filter.isFull with
  | true => exact ⟨true, filter, rfl, Grows.refl filter, fun _ _ _ => rfl⟩
  | false =>
    cases hempty : filter.isEmpty with
    | true =>
      exact ⟨false, filter, rfl, Grows.refl filter, fun e _ h => absurd h (not_holds_of_isEmpty hfull hempty e)⟩
    | false =>
      rcases contains_spec hsound (UInt256.bytes (tx.getHash H)) with ⟨hashFound, hhash, hhash'⟩
      rcases outputLoop_spec carrier (tx.getHash H) hsound tx.vout 0 hashFound with
        ⟨found, filter', hloop, hgrows, hkept, houtputs⟩
      simp only [Bool.false_eq_true, if_false, hhash, hloop, Option.bind_eq_bind, Option.bind_some]
      cases found with
      | true => exact ⟨true, filter', rfl, hgrows, fun _ _ _ => rfl⟩
      | false =>
        rcases inputLoop_spec (hgrows.sound hsound) tx.vin with ⟨found, hinputs, hvin⟩
        refine ⟨found, filter', ?_, hgrows, fun e he hholds => ?_⟩
        · rw [hinputs]
          rfl
        · cases he with
          | txid => exact nomatch hkept (hhash'.2 hholds)
          | output htxout hdata => exact nomatch houtputs _ htxout _ hdata hholds
          | input htxin hdata => exact hvin _ htxin (.inr ⟨_, hdata, hgrows.holds hholds⟩)
          | spent htxin => exact hvin _ htxin (.inl (hgrows.holds hholds))

/-! ## Runs -/

inductive Op where
  | insert (vKey : Bytes)
  | insertOutPoint (outpoint : COutPoint)
  | insertHash (hash : UInt256)
  | filterAdd (vData : Bytes)
  | isRelevantAndUpdate (tx : CTransaction)

def Op.step (H : Crypto) (carrier : DataCarrier) (filter : CBloomFilter) : Op → Option CBloomFilter
  | .insert vKey => filter.insert vKey
  | .insertOutPoint outpoint => filter.insert (COutPoint.codec.put outpoint)
  | .insertHash hash => filter.insert (UInt256.bytes hash)
  | .filterAdd vData => filter.filterAdd vData
  | .isRelevantAndUpdate tx => (filter.isRelevantAndUpdate H carrier tx).map Prod.snd

/-- The element that a call inserts. -/
def Op.inserted : Op → List Bytes
  | .insert vKey => [vKey]
  | .insertOutPoint outpoint => [COutPoint.codec.put outpoint]
  | .insertHash hash => [UInt256.bytes hash]
  | .filterAdd vData => if vData.length > maxScriptElementSize then [] else [vData]
  | .isRelevantAndUpdate _ => []

def run (H : Crypto) (carrier : DataCarrier) (filter : CBloomFilter) (ops : List Op) : Option CBloomFilter :=
  ops.foldlM (Op.step H carrier) filter

theorem Op.step_spec (hsound : filter.Sound) (H : Crypto) (carrier : DataCarrier) (op : Op) :
    ∃ filter', op.step H carrier filter = some filter' ∧ Grows filter filter' ∧ ∀ e ∈ op.inserted, filter'.Holds e := by
  have hinsert : ∀ e, ∃ filter', filter.insert e = some filter' ∧ Grows filter filter' ∧ ∀ e' ∈ [e], filter'.Holds e' := by
    intro e
    rcases insert_spec hsound e with ⟨filter', hinsert, hgrows, hholds⟩
    refine ⟨filter', hinsert, hgrows, fun e' he' => ?_⟩
    rwa [List.mem_singleton.1 he']
  cases op with
  | insert vKey => exact hinsert vKey
  | insertOutPoint outpoint => exact hinsert _
  | insertHash hash => exact hinsert _
  | filterAdd vData =>
    by_cases hlarge : vData.length > maxScriptElementSize
    · refine ⟨filter, if_pos hlarge, Grows.refl filter, fun e he => ?_⟩
      rw [inserted, if_pos hlarge] at he
      cases he
    · rw [inserted, if_neg hlarge]
      rcases hinsert vData with ⟨filter', hadd, hrest⟩
      exact ⟨filter', (if_neg hlarge).trans hadd, hrest⟩
  | isRelevantAndUpdate tx =>
    rcases isRelevantAndUpdate_spec hsound H carrier tx with ⟨found, filter', hcall, hgrows, -⟩
    refine ⟨filter', ?_, hgrows, fun e he => nomatch he⟩
    rw [step, hcall]
    rfl

theorem run_spec (hsound : filter.Sound) (H : Crypto) (carrier : DataCarrier) (ops : List Op) :
    ∃ filter', filter.run H carrier ops = some filter' ∧ Grows filter filter' ∧
      ∀ e ∈ ops.flatMap Op.inserted, filter'.Holds e := by
  induction ops generalizing filter with
  | nil => exact ⟨filter, rfl, Grows.refl filter, fun e he => nomatch he⟩
  | cons op ops ih =>
    rcases op.step_spec hsound H carrier with ⟨next, hstep, hgrows, hholds⟩
    rcases ih (hgrows.sound hsound) with ⟨filter', hrun, hgrows', hholds'⟩
    refine ⟨filter', ?_, hgrows.trans hgrows', fun e he => ?_⟩
    · rw [run, List.foldlM_cons, hstep]
      exact hrun
    · rw [List.flatMap_cons] at he
      rcases List.mem_append.1 he with he | he
      · exact hgrows'.holds (hholds e he)
      · exact hholds' e he

theorem outputLoop_of_isEmpty (hfull : filter.isFull = false) (hempty : filter.isEmpty = true)
    {carrier : DataCarrier} {hash : UInt256} (vout : List CTxOut) (i : Nat) (fFound : Bool) :
    outputLoop carrier hash vout i fFound filter = some (fFound, filter) := by
  have hnone : filter.containsData = fun _ => some false := by
    funext ops
    induction ops with
    | nil => rfl
    | cons op ops ih =>
      rw [containsData, contains, hfull, hempty, ih]
      exact ite_self _
  induction vout generalizing i with
  | nil => rfl
  | cons txout vout ih =>
    rw [outputLoop, hnone]
    exact ih (i + 1)

/-- The outpoint of an output that matches during a call is in the filter after the call. -/
theorem isRelevantAndUpdate_adds (hsound : filter.Sound) (H : Crypto) (carrier : DataCarrier)
    (hflags : filter.nFlags &&& 3 = 1) {tx : CTransaction} {pre post : List CTxOut} {txout : CTxOut}
    (hvout : tx.vout = pre ++ txout :: post) {hashFound found : Bool} {mid : CBloomFilter}
    (hhash : filter.contains (UInt256.bytes (tx.getHash H)) = some hashFound)
    (hmid : outputLoop carrier (tx.getHash H) pre 0 hashFound filter = some (found, mid)) {data : Bytes}
    (hdata : data ∈ pushed txout.scriptPubKey) (hcontains : mid.contains data = some true) :
    ∃ found' next, filter.isRelevantAndUpdate H carrier tx = some (found', next) ∧ Grows filter next ∧
      next.Holds (COutPoint.codec.put ⟨tx.getHash H, UInt32.ofNat pre.length⟩) := by
  rcases isRelevantAndUpdate_spec hsound H carrier tx with ⟨found', next, hcall, hgrows, -⟩
  refine ⟨found', next, hcall, hgrows, ?_⟩
  cases hfull : filter.isFull with
  | true => exact .inl (hgrows.full.trans hfull)
  | false =>
    rcases outputLoop_spec carrier (tx.getHash H) hsound pre 0 hashFound with ⟨found₀, mid₀, hloop, hgrows', -, -⟩
    rw [hmid] at hloop
    cases hloop
    have hholds := holds_of_contains (hgrows'.sound hsound) hcontains
    cases hempty : filter.isEmpty with
    | true =>
      rw [outputLoop_of_isEmpty hfull hempty] at hmid
      cases hmid
      exact absurd hholds (not_holds_of_isEmpty hfull hempty data)
    | false =>
      rcases outputLoop_adds hsound hmid hdata hholds hflags post with ⟨found'', filter', hall, hadded⟩
      have hnext : next = filter' := by
        unfold isRelevantAndUpdate at hcall
        rw [← hvout] at hall
        simp only [hfull, hempty, Bool.false_eq_true, if_false, hhash, hall, Option.bind_eq_bind, Option.bind_some] at hcall
        cases found'' with
        | true =>
          cases hcall
          rfl
        | false =>
          rcases Option.bind_eq_some_iff.1 hcall with ⟨inputs, -, hreturn⟩
          cases hreturn
          rfl
      rw [hnext]
      exact hadded

/-- Every transaction that names something in the filter is marked. -/
theorem merkleBlockLoop_spec (hsound : filter.Sound) (H : Crypto) (carrier : DataCarrier)
    (vtx : List CTransaction) :
    ∃ vMatch next, merkleBlockLoop H carrier filter vtx = some (vMatch, next) ∧ vMatch.length = vtx.length ∧
      ∀ p ∈ vtx.zip vMatch, ∀ e, Names H p.1 e → filter.Holds e → p.2 = true := by
  induction vtx generalizing filter with
  | nil => exact ⟨[], filter, rfl, rfl, fun p hp => nomatch hp⟩
  | cons tx vtx ih =>
    rcases isRelevantAndUpdate_spec hsound H carrier tx with ⟨found, called, hcall, hgrows, hfound⟩
    rcases ih (hgrows.sound hsound) with ⟨vMatch, next, hloop, hlength, hmarked⟩
    refine ⟨found :: vMatch, next, ?_, by rw [List.length_cons, List.length_cons, hlength], fun p hp e hnames he => ?_⟩
    · simp only [merkleBlockLoop, hcall, hloop, Option.bind_eq_bind, Option.bind_some, Option.pure_def]
    · rcases List.mem_cons.1 hp with rfl | hp
      · exact hfound e hnames he
      · exact hmarked p hp e hnames (hgrows.holds he)

/-- The constructor of `CMerkleBlock` makes one call for each transaction, in order. -/
theorem merkleBlockLoop_run (H : Crypto) (carrier : DataCarrier) (filter : CBloomFilter) (vtx : List CTransaction) :
    (merkleBlockLoop H carrier filter vtx).map Prod.snd =
      filter.run H carrier (vtx.map Op.isRelevantAndUpdate) := by
  induction vtx generalizing filter with
  | nil => rfl
  | cons tx vtx ih =>
    rw [merkleBlockLoop, List.map_cons, run, List.foldlM_cons, Op.step]
    cases filter.isRelevantAndUpdate H carrier tx with
    | none => rfl
    | some r =>
      have hrest := ih r.2
      rw [run] at hrest
      simp only [Option.bind_eq_bind, Option.bind_some, Option.map_some, ← hrest]
      cases merkleBlockLoop H carrier r.2 vtx with
      | none => rfl
      | some rest => rfl

/-- After `filterload` no call divides by zero or leaves `vData`, the filter contains all that was inserted, a
transaction with something inserted is relevant, and so is one that spends an output that matched when the flags ask
for all of them. -/
theorem filterLoad_exact (H : Crypto) (carrier : DataCarrier) (vRecv : Bytes) (loaded : CBloomFilter)
    (hload : filterLoad vRecv = some loaded) (ops : List Op) :
    ∃ filter, loaded.run H carrier ops = some filter ∧
      (∀ e ∈ ops.flatMap Op.inserted, filter.contains e = some true) ∧
      (∀ tx, ∃ found next, filter.isRelevantAndUpdate H carrier tx = some (found, next) ∧
        ((∃ e ∈ ops.flatMap Op.inserted, Names H tx e) → found = true)) ∧
      (filter.nFlags &&& 3 = 1 → ∀ (tx : CTransaction) (pre post : List CTxOut) (txout : CTxOut),
        tx.vout = pre ++ txout :: post → ∀ (hashFound found : Bool) (mid : CBloomFilter),
        filter.contains (UInt256.bytes (tx.getHash H)) = some hashFound →
        outputLoop carrier (tx.getHash H) pre 0 hashFound filter = some (found, mid) →
        (∃ data ∈ pushed txout.scriptPubKey, mid.contains data = some true) → ∀ (ops' : List Op) (tx' : CTransaction),
        (∃ txin ∈ tx'.vin, txin.prevout = ⟨tx.getHash H, UInt32.ofNat pre.length⟩) →
        ∃ later next, filter.run H carrier (.isRelevantAndUpdate tx :: ops') = some later ∧
          later.isRelevantAndUpdate H carrier tx' = some (true, next)) := by
  have hstart := filterLoad_sound hload
  rcases run_spec hstart H carrier ops with ⟨filter, hrun, hgrows, hinserted⟩
  have hsound := hgrows.sound hstart
  refine ⟨filter, hrun, fun e he => contains_of_holds hsound (hinserted e he), fun tx => ?_, ?_⟩
  · rcases isRelevantAndUpdate_spec hsound H carrier tx with ⟨found, next, hcall, -, hfound⟩
    exact ⟨found, next, hcall, fun ⟨e, he, hnames⟩ => hfound e hnames (hinserted e he)⟩
  · intro hflags tx pre post txout hvout hashFound found mid hhash hmid hmatch ops' tx' hspends
    rcases hmatch with ⟨data, hdata, hcontains⟩
    rcases hspends with ⟨txin, htxin, hprevout⟩
    rcases isRelevantAndUpdate_adds hsound H carrier hflags hvout hhash hmid hdata hcontains with
      ⟨found', called, hcall, hgrows', hadded⟩
    have hsound' := hgrows'.sound hsound
    rcases run_spec hsound' H carrier ops' with ⟨later, hlater, hgrows'', -⟩
    rcases isRelevantAndUpdate_spec (hgrows''.sound hsound') H carrier tx' with ⟨relevant, next, hcall', -, hfound⟩
    have hspent : relevant = true := by
      refine hfound _ (.spent htxin) ?_
      rw [hprevout]
      exact hgrows''.holds hadded
    refine ⟨later, next, ?_, hspent ▸ hcall'⟩
    rw [run, List.foldlM_cons, Op.step, hcall]
    exact hlater

def nullCrypto : Crypto where
  hash _ := 0
  hashScrypt _ := 0

/-- Two bytes of zeros, and one hash function. -/
def sampleLoad : Bytes := [2, 0, 0, 1, 0, 0, 0, 0, 0, 0, 0, 1]

theorem filterLoad_exact_sample :
    ∃ filter, (⟨[0, 0], false, true, 1, 0, 1⟩ : CBloomFilter).run nullCrypto .default [.insert [7], .filterAdd [8, 9]] =
        some filter ∧ ∀ e ∈ [[7], [8, 9]], filter.contains e = some true := by
  rcases filterLoad_exact nullCrypto .default sampleLoad ⟨[0, 0], false, true, 1, 0, 1⟩ (by decide)
    [.insert [7], .filterAdd [8, 9]] with ⟨filter, hrun, hcontains, -⟩
  exact ⟨filter, hrun, hcontains⟩

end CBloomFilter

end Dobbscoin
