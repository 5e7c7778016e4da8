import Dobbscoin.Net.AddrCheck

/-!
# The file of the address manager

`CAddrMan::Serialize` and `Unserialize` of `addrman.h`, as `peers.dat` has them.
-/

namespace Dobbscoin

open ByteCodec

/-! ## An entry -/

def clientVersion : Int := 140000

/-- The fields of a `CAddrInfo` on disk: the version, the time, the services, the address and port, the source, and the
statistics. -/
def addrInfoCodec : ByteCodec (Int × Nat × Nat × CNetAddr × Nat × CNetAddr × Int × Int) :=
  (twos 4).pair ((le 4).pair ((le 8).pair ((block 16).pair ((be 2).pair ((block 16).pair ((twos 8).pair (twos 4)))))))

namespace CAddrInfo

/-- `s << info`. -/
def put (info : CAddrInfo) : Bytes :=
  addrInfoCodec.put (clientVersion, info.addr.nTime, info.addr.nServices, info.addr.service.ip, info.addr.service.port,
    info.source, info.nLastSuccess, info.nAttempts)

/-- `s >> info`: what is memory only stays, but the last try. -/
def get (info : CAddrInfo) (s : Bytes) : Option (CAddrInfo × Bytes) :=
  (addrInfoCodec.get s).map fun read => match read with
    | ((_, nTime, nServices, ip, port, source, nLastSuccess, nAttempts), s) =>
      ({ info with addr := ⟨⟨ip, port⟩, nServices, nTime, 0⟩, source, nLastSuccess, nAttempts }, s)

end CAddrInfo

namespace CAddrMan

/-! ## `Serialize` -/

/-- The entries that have references, from a list of ids on: the ids in the file, and what is written; `none` when the
assertion fails. -/
def writeNew (s : CAddrMan) : List Nat → (Nat → Nat) → Nat → Option ((Nat → Nat) × Bytes)
  | [], mapUnkIds, _ => some (mapUnkIds, [])
  | nId :: rest, mapUnkIds, nIds =>
    match s.mapInfo nId with
    | none => writeNew s rest mapUnkIds nIds
    | some info =>
      let mapUnkIds := Function.update mapUnkIds nId nIds
      if info.nRefCount ≠ 0 then
        if (nIds : Int) = s.nNew then none
        else (writeNew s rest mapUnkIds (nIds + 1)).map fun out => (out.1, info.put ++ out.2)
      else writeNew s rest mapUnkIds nIds

/-- The entries that are tried. -/
def writeTried (s : CAddrMan) : List Nat → Nat → Option Bytes
  | [], _ => some []
  | nId :: rest, nIds =>
    match s.mapInfo nId with
    | none => writeTried s rest nIds
    | some info =>
      if info.fInTried then
        if (nIds : Int) = s.nTried then none
        else (writeTried s rest (nIds + 1)).map fun out => info.put ++ out
      else writeTried s rest nIds

/-- A new bucket: how many of its places are taken, and the entries there. -/
def writeBucket (s : CAddrMan) (mapUnkIds : Nat → Nat) (bucket : Nat) : Bytes :=
  let held := (List.range addrmanBucketSize).filterMap (s.vvNew bucket)
  (twos 4).put held.length ++ putAll (twos 4) (held.map fun nId => (mapUnkIds nId : Int))

def serialize (s : CAddrMan) : Option Bytes := do
  let (mapUnkIds, sNew) ← s.writeNew (List.range s.nIdCount) (fun _ => 0) 0
  let sTried ← s.writeTried (List.range s.nIdCount) 0
  pure (byte.put 1 ++ (byte.put 32 ++ (uint256Codec.put s.nKey ++ ((twos 4).put s.nNew ++ ((twos 4).put s.nTried ++
    ((twos 4).put (addrmanNewBucketCount ^^^ 2 ^ 30 : Nat) ++ (sNew ++ (sTried ++
      (List.range addrmanNewBucketCount).flatMap (s.writeBucket mapUnkIds)))))))))

/-! ## `Unserialize` -/

/-- One entry of the new table.  Without usable positions it goes to the bucket of its source. -/
def readNew (env : AddrEnv) (fPositions : Bool) (s : CAddrMan) (n : Nat) (bs : Bytes) : Option (CAddrMan × Bytes) := do
  let (info, bs) ← ((s.mapInfo n).getD .default).get bs
  let info := { info with nRandomPos := s.vRandom.length }
  let s := { s.setInfo n info with
    mapAddr := Function.update s.mapAddr info.ip (some n)
    vRandom := s.vRandom ++ [n] }
  if fPositions then pure (s, bs)
  else
    let nUBucket := info.getNewBucket env s.nKey info.source
    let nUBucketPos := info.getBucketPosition env s.nKey true nUBucket
    if s.vvNew nUBucket nUBucketPos = none then
      pure ((s.setNew nUBucket nUBucketPos (some n)).setInfo n { info with nRefCount := info.nRefCount + 1 }, bs)
    else pure (s, bs)

def readNews (env : AddrEnv) (fPositions : Bool) : List Nat → CAddrMan → Bytes → Option (CAddrMan × Bytes)
  | [], s, bs => some (s, bs)
  | n :: ns, s, bs => do
    let (s, bs) ← readNew env fPositions s n bs
    readNews env fPositions ns s bs

/-- One entry of the tried table, which is lost when its place is taken. -/
def readTried (env : AddrEnv) (s : CAddrMan) (nLost : Nat) (bs : Bytes) : Option (CAddrMan × Nat × Bytes) := do
  let (info, bs) ← CAddrInfo.default.get bs
  let nKBucket := info.getTriedBucket env s.nKey
  let nKBucketPos := info.getBucketPosition env s.nKey false nKBucket
  if s.vvTried nKBucket nKBucketPos = none then
    let info := { info with nRandomPos := s.vRandom.length, fInTried := true }
    pure ({ (s.setInfo s.nIdCount info).setTried nKBucket nKBucketPos (some s.nIdCount) with
      vRandom := s.vRandom ++ [s.nIdCount]
      mapAddr := Function.update s.mapAddr info.ip (some s.nIdCount)
      nIdCount := s.nIdCount + 1 }, nLost, bs)
  else pure (s, nLost + 1, bs)

def readTrieds (env : AddrEnv) : Nat → CAddrMan → Nat → Bytes → Option (CAddrMan × Nat × Bytes)
  | 0, s, nLost, bs => some (s, nLost, bs)
  | rounds + 1, s, nLost, bs => do
    let (s, nLost, bs) ← readTried env s nLost bs
    readTrieds env rounds s nLost bs

/-- One place of a new bucket. -/
def readPosition (env : AddrEnv) (fPositions : Bool) (bucket : Nat) (s : CAddrMan) (bs : Bytes) :
    Option (CAddrMan × Bytes) := do
  let (nIndex, bs) ← (twos 4).get bs
  if 0 ≤ nIndex ∧ nIndex < s.nNew then
    let info := (s.mapInfo nIndex.toNat).getD .default
    let nUBucketPos := info.getBucketPosition env s.nKey true bucket
    if fPositions = true ∧ s.vvNew bucket nUBucketPos = none ∧ info.nRefCount < addrmanNewBucketsPerAddress then
      pure ((s.setInfo nIndex.toNat { info with nRefCount := info.nRefCount + 1 }).setNew bucket nUBucketPos
        (some nIndex.toNat), bs)
    else pure (s, bs)
  else pure (s, bs)

def readPositions (env : AddrEnv) (fPositions : Bool) (bucket : Nat) : Nat → CAddrMan → Bytes → Option (CAddrMan × Bytes)
  | 0, s, bs => some (s, bs)
  | rounds + 1, s, bs => do
    let (s, bs) ← readPosition env fPositions bucket s bs
    readPositions env fPositions bucket rounds s bs

def readBuckets (env : AddrEnv) (fPositions : Bool) : List Nat → CAddrMan → Bytes → Option (CAddrMan × Bytes)
  | [], s, bs => some (s, bs)
  | bucket :: buckets, s, bs => do
    let (nSize, bs) ← (twos 4).get bs
    let (s, bs) ← readPositions env fPositions bucket nSize.toNat s bs
    readBuckets env fPositions buckets s bs

/-- A new entry without references is deleted. -/
def prune (s : CAddrMan) (nId : Nat) : Option CAddrMan :=
  match s.mapInfo nId with
  | none => some s
  | some info => if info.fInTried = false ∧ info.nRefCount = 0 then s.delete nId else some s

/-- `Unserialize` into an address manager as it is constructed; `none` when an exception is thrown. -/
def unserialize (env : AddrEnv) (bs : Bytes) : Option CAddrMan := do
  let (nVersion, bs) ← byte.get bs
  let (nKeySize, bs) ← byte.get bs
  if nKeySize ≠ 32 then none
  else
    let (nKey, bs) ← uint256Codec.get bs
    let (nNew, bs) ← (twos 4).get bs
    let (nTried, bs) ← (twos 4).get bs
    let (nUBuckets, bs) ← (twos 4).get bs
    let nUBuckets := if nVersion ≠ 0 then (BitVec.ofInt 32 nUBuckets ^^^ BitVec.ofNat 32 (2 ^ 30)).toInt else nUBuckets
    let fPositions := decide (nVersion = 1 ∧ nUBuckets = addrmanNewBucketCount)
    let s := { start nKey with nNew := nNew, nTried := nTried }
    let (s, bs) ← readNews env fPositions (List.range nNew.toNat) s bs
    let s := { s with nIdCount := nNew.toNat }
    let (s, nLost, bs) ← readTrieds env nTried.toNat s 0 bs
    let s := { s with nTried := s.nTried - nLost }
    let (s, _) ← readBuckets env fPositions (List.range nUBuckets.toNat) s bs
    (List.range s.nIdCount).foldlM prune s

end CAddrMan

end Dobbscoin
