import Dobbscoin.Net.NetBase

/-!
# The address manager

`CAddrMan` of `addrman.h` and `addrman.cpp`: the tables, and what is done to them.  The bucket functions are
given, as is what random numbers and the clock say.
-/

namespace Dobbscoin

/-- `CAddress`: a service with what is known of it. -/
structure CAddress where
  service : CService
  nServices : Nat
  nTime : Nat
  nLastTry : Int
  deriving DecidableEq

structure CAddrInfo where
  addr : CAddress
  source : CNetAddr
  nLastSuccess : Int
  nAttempts : Int
  nRefCount : Int
  fInTried : Bool
  nRandomPos : Nat
  deriving DecidableEq

def addrmanTriedBucketCount : Nat := 256
def addrmanNewBucketCount : Nat := 1024
def addrmanBucketSize : Nat := 64
def addrmanHorizonDays : Int := 30
def addrmanRetries : Int := 3
def addrmanMaxFailures : Int := 10
def addrmanMinFailDays : Int := 7
def addrmanNewBucketsPerAddress : Int := 8
def addrmanGetaddrMaxPct : Nat := 23
def addrmanGetaddrMax : Nat := 2500
def addrmanSelectMaxTries : Nat := 10000

/-- The functions of other files: the hashes that choose buckets and positions, and `IsRoutable`. -/
structure AddrEnv where
  triedBucket : UInt256 → CService → Nat
  newBucket : UInt256 → CNetAddr → CNetAddr → Nat
  bucketPosition : UInt256 → Bool → Nat → CService → Nat
  isRoutable : CNetAddr → Bool

namespace CAddrInfo

def ip (info : CAddrInfo) : CNetAddr :=
  info.addr.service.ip

def getTriedBucket (env : AddrEnv) (nKey : UInt256) (info : CAddrInfo) : Nat :=
  env.triedBucket nKey info.addr.service % addrmanTriedBucketCount

def getNewBucket (env : AddrEnv) (nKey : UInt256) (info : CAddrInfo) (src : CNetAddr) : Nat :=
  env.newBucket nKey info.ip src % addrmanNewBucketCount

def getBucketPosition (env : AddrEnv) (nKey : UInt256) (fNew : Bool) (nBucket : Nat) (info : CAddrInfo) : Nat :=
  env.bucketPosition nKey fNew nBucket info.addr.service % addrmanBucketSize

def isTerrible (info : CAddrInfo) (nNow : Int) : Bool :=
  if info.addr.nLastTry ≠ 0 ∧ info.addr.nLastTry ≥ nNow - 60 then false
  else if (info.addr.nTime : Int) > nNow + 10 * 60 then true
  else if info.addr.nTime = 0 ∨ nNow - info.addr.nTime > addrmanHorizonDays * 24 * 60 * 60 then true
  else if info.nLastSuccess = 0 ∧ info.nAttempts ≥ addrmanRetries then true
  else decide (nNow - info.nLastSuccess > addrmanMinFailDays * 24 * 60 * 60 ∧ info.nAttempts ≥ addrmanMaxFailures)

/-- `CAddrInfo(addrIn, addrSource)`. -/
def new (addrIn : CAddress) (addrSource : CNetAddr) : CAddrInfo where
  addr := { addrIn with nLastTry := 0 }
  source := addrSource
  nLastSuccess := 0
  nAttempts := 0
  nRefCount := 0
  fInTried := false
  nRandomPos := 2 ^ 32 - 1

/-- `CAddrInfo()`. -/
def default : CAddrInfo :=
  new ⟨⟨List.replicate 16 0, 0⟩, 1, 100000000, 0⟩ (List.replicate 16 0)

end CAddrInfo

/-- The tables.  An empty place of a bucket, -1 in the source, is `none`. -/
structure CAddrMan where
  nKey : UInt256
  nIdCount : Nat
  mapInfo : Nat → Option CAddrInfo
  mapAddr : CNetAddr → Option Nat
  vRandom : List Nat
  nTried : Int
  vvTried : Nat → Nat → Option Nat
  nNew : Int
  vvNew : Nat → Nat → Option Nat

/-- A place of a bucket gets another value. -/
def setSlot (vv : Nat → Nat → Option Nat) (nBucket nPos : Nat) (value : Option Nat) : Nat → Nat → Option Nat :=
  fun b i => if b = nBucket ∧ i = nPos then value else vv b i

namespace CAddrMan

/-- `CAddrMan()`, with the key that `Clear` draws. -/
def start (nKey : UInt256) : CAddrMan where
  nKey := nKey
  nIdCount := 0
  mapInfo _ := none
  mapAddr _ := none
  vRandom := []
  nTried := 0
  vvTried _ _ := none
  nNew := 0
  vvNew _ _ := none

def setInfo (s : CAddrMan) (nId : Nat) (info : CAddrInfo) : CAddrMan :=
  { s with mapInfo := Function.update s.mapInfo nId (some info) }

def setNew (s : CAddrMan) (nBucket nPos : Nat) (value : Option Nat) : CAddrMan :=
  { s with vvNew := setSlot s.vvNew nBucket nPos value }

def setTried (s : CAddrMan) (nBucket nPos : Nat) (value : Option Nat) : CAddrMan :=
  { s with vvTried := setSlot s.vvTried nBucket nPos value }

/-- `Find`. -/
def find (s : CAddrMan) (addr : CNetAddr) : Option (Nat × CAddrInfo) := do
  let nId ← s.mapAddr addr
  let info ← s.mapInfo nId
  pure (nId, info)

/-- `Create`. -/
def create (s : CAddrMan) (addr : CAddress) (addrSource : CNetAddr) : Nat × CAddrInfo × CAddrMan :=
  let nId := s.nIdCount
  let info := { CAddrInfo.new addr addrSource with nRandomPos := s.vRandom.length }
  (nId, info,
    { s with
      nIdCount := s.nIdCount + 1
      mapInfo := Function.update s.mapInfo nId (some info)
      mapAddr := Function.update s.mapAddr addr.service.ip (some nId)
      vRandom := s.vRandom ++ [nId] })

/-- `SwapRandom`; the outcome is `none` here and below when an assertion fails. -/
def swapRandom (s : CAddrMan) (nRndPos1 nRndPos2 : Nat) : Option CAddrMan :=
  if nRndPos1 = nRndPos2 then some s
  else do
    let nId1 ← s.vRandom[nRndPos1]?
    let nId2 ← s.vRandom[nRndPos2]?
    let info1 ← s.mapInfo nId1
    let info2 ← s.mapInfo nId2
    let s := s.setInfo nId1 { info1 with nRandomPos := nRndPos2 }
    let s := s.setInfo nId2 { info2 with nRandomPos := nRndPos1 }
    pure { s with vRandom := (s.vRandom.set nRndPos1 nId2).set nRndPos2 nId1 }

/-- `Delete`. -/
def delete (s : CAddrMan) (nId : Nat) : Option CAddrMan := do
  let info ← s.mapInfo nId
  if info.fInTried = true ∨ info.nRefCount ≠ 0 then none
  else
    let s ← s.swapRandom info.nRandomPos (s.vRandom.length - 1)
    pure { s with
      vRandom := s.vRandom.dropLast
      mapAddr := Function.update s.mapAddr info.ip none
      mapInfo := Function.update s.mapInfo nId none
      nNew := s.nNew - 1 }

/-- `ClearNew`. -/
def clearNew (s : CAddrMan) (nUBucket nUBucketPos : Nat) : Option CAddrMan :=
  match s.vvNew nUBucket nUBucketPos with
  | none => some s
  | some nIdDelete => do
    let infoDelete ← s.mapInfo nIdDelete
    if infoDelete.nRefCount ≤ 0 then none
    else
      let s := s.setInfo nIdDelete { infoDelete with nRefCount := infoDelete.nRefCount - 1 }
      let s := s.setNew nUBucket nUBucketPos none
      if infoDelete.nRefCount - 1 = 0 then s.delete nIdDelete else pure s

/-- One round of the first loop of `MakeTried`. -/
def clearBucket (env : AddrEnv) (nId : Nat) (s : CAddrMan) (bucket : Nat) : CAddrMan :=
  match s.mapInfo nId with
  | none => s
  | some info =>
    let pos := info.getBucketPosition env s.nKey true bucket
    if s.vvNew bucket pos = some nId then
      (s.setNew bucket pos none).setInfo nId { info with nRefCount := info.nRefCount - 1 }
    else s

/-- The entry of a tried place goes back to new. -/
def evict (env : AddrEnv) (s : CAddrMan) (nKBucket nKBucketPos : Nat) : Option CAddrMan :=
  match s.vvTried nKBucket nKBucketPos with
  | none => some s
  | some nIdEvict => do
    let infoOld ← s.mapInfo nIdEvict
    let s := s.setInfo nIdEvict { infoOld with fInTried := false }
    let s := { s.setTried nKBucket nKBucketPos none with nTried := s.nTried - 1 }
    let nUBucket := infoOld.getNewBucket env s.nKey infoOld.source
    let nUBucketPos := infoOld.getBucketPosition env s.nKey true nUBucket
    let s ← s.clearNew nUBucket nUBucketPos
    if (s.vvNew nUBucket nUBucketPos).isSome then none
    else
      let infoOld ← s.mapInfo nIdEvict
      let s := s.setInfo nIdEvict { infoOld with nRefCount := 1 }
      pure { s.setNew nUBucket nUBucketPos (some nIdEvict) with nNew := s.nNew + 1 }

/-- `MakeTried`. -/
def makeTried (env : AddrEnv) (s : CAddrMan) (nId : Nat) : Option CAddrMan := do
  let s := (List.range addrmanNewBucketCount).foldl (clearBucket env nId) s
  let s := { s with nNew := s.nNew - 1 }
  let info ← s.mapInfo nId
  if info.nRefCount ≠ 0 then none
  else
    let nKBucket := info.getTriedBucket env s.nKey
    let nKBucketPos := info.getBucketPosition env s.nKey false nKBucket
    let s ← s.evict env nKBucket nKBucketPos
    if (s.vvTried nKBucket nKBucketPos).isSome then none
    else
      let s := { s.setTried nKBucket nKBucketPos (some nId) with nTried := s.nTried + 1 }
      let info ← s.mapInfo nId
      pure (s.setInfo nId { info with fInTried := true })

/-- `Good_`, with the bucket at which its search begins. -/
def good (env : AddrEnv) (s : CAddrMan) (addr : CService) (nTime : Int) (nRnd : Nat) : Option CAddrMan :=
  match s.find addr.ip with
  | none => some s
  | some (nId, info) =>
    if info.addr.service ≠ addr then some s
    else
      let info := { info with
        nLastSuccess := nTime
        addr := { info.addr with nLastTry := nTime }
        nAttempts := 0 }
      let s := s.setInfo nId info
      if info.fInTried then some s
      else
        let found := (List.range addrmanNewBucketCount).any fun n =>
          let nB := (n + nRnd) % addrmanNewBucketCount
          decide (s.vvNew nB (info.getBucketPosition env s.nKey true nB) = some nId)
        if found then s.makeTried env nId else some s

/-- The last part of `Add_`: an entry is entered into a new bucket. -/
def enter (env : AddrEnv) (s : CAddrMan) (nId : Nat) (source : CNetAddr) (nNow : Int) : Option CAddrMan := do
  let info ← s.mapInfo nId
  let nUBucket := info.getNewBucket env s.nKey source
  let nUBucketPos := info.getBucketPosition env s.nKey true nUBucket
  if s.vvNew nUBucket nUBucketPos = some nId then pure s
  else
    let fInsert := match s.vvNew nUBucket nUBucketPos with
      | none => true
      | some nIdExisting =>
        let infoExisting := (s.mapInfo nIdExisting).getD .default
        infoExisting.isTerrible nNow || decide (infoExisting.nRefCount > 1 ∧ info.nRefCount = 0)
    if fInsert then
      let s ← s.clearNew nUBucket nUBucketPos
      let info ← s.mapInfo nId
      let s := s.setInfo nId { info with nRefCount := info.nRefCount + 1 }
      pure (s.setNew nUBucket nUBucketPos (some nId))
    else if info.nRefCount = 0 then s.delete nId
    else pure s

/-- The part of `Add_` that updates an entry; nothing more is done when it returns `none`. -/
def refresh (info : CAddrInfo) (addr : CAddress) (nTimePenalty nNow : Int) (fRandom : Bool) : CAddrInfo × Bool :=
  let fCurrentlyOnline := decide (nNow - addr.nTime < 24 * 60 * 60)
  let nUpdateInterval : Int := if fCurrentlyOnline then 60 * 60 else 24 * 60 * 60
  let nTime :=
    if addr.nTime ≠ 0 ∧ (info.addr.nTime = 0 ∨ (info.addr.nTime : Int) < addr.nTime - nUpdateInterval - nTimePenalty) then
      (max 0 ((addr.nTime : Int) - nTimePenalty)).toNat % 2 ^ 32
    else info.addr.nTime
  let info := { info with addr := { info.addr with nTime, nServices := info.addr.nServices ||| addr.nServices } }
  let fMore :=
    if addr.nTime = 0 ∨ (nTime ≠ 0 ∧ addr.nTime ≤ nTime) then false
    else if info.fInTried then false
    else if info.nRefCount = addrmanNewBucketsPerAddress then false
    -- With `nRefCount` references the draw among `2 ^ nRefCount` has to be 0.
    else decide (info.nRefCount ≤ 0) || fRandom
  (info, fMore)

/-- `Add_`, with the outcome of the stochastic test. -/
def add (env : AddrEnv) (s : CAddrMan) (addr : CAddress) (source : CNetAddr) (nTimePenalty nNow : Int)
    (fRandom : Bool) : Option (Bool × CAddrMan) :=
  if env.isRoutable addr.service.ip = false then some (false, s)
  else
    match s.find addr.service.ip with
    | some (nId, info) =>
      let refreshed := refresh info addr nTimePenalty nNow fRandom
      let s := s.setInfo nId refreshed.1
      if refreshed.2 = false then some (false, s)
      else (s.enter env nId source nNow).map fun s => (false, s)
    | none =>
      let created := s.create addr source
      let nTime := (max 0 ((created.2.1.addr.nTime : Int) - nTimePenalty)).toNat % 2 ^ 32
      let s := created.2.2.setInfo created.1 { created.2.1 with addr := { created.2.1.addr with nTime } }
      let s := { s with nNew := s.nNew + 1 }
      (s.enter env created.1 source nNow).map fun s => (true, s)

/-- `Attempt_`. -/
def attempt (s : CAddrMan) (addr : CService) (nTime : Int) : CAddrMan :=
  match s.find addr.ip with
  | none => s
  | some (nId, info) =>
    if info.addr.service ≠ addr then s
    else s.setInfo nId { info with addr := { info.addr with nLastTry := nTime }, nAttempts := info.nAttempts + 1 }

/-- `Connected_`. -/
def connected (s : CAddrMan) (addr : CService) (nTime : Int) : CAddrMan :=
  match s.find addr.ip with
  | none => s
  | some (nId, info) =>
    if info.addr.service ≠ addr then s
    else if nTime - info.addr.nTime > 20 * 60 then
      s.setInfo nId { info with addr := { info.addr with nTime := (nTime % 2 ^ 32).toNat } }
    else s

/-- One draw of `Select_`. -/
structure SelectDraw where
  nBucket : Nat
  nPos : Nat
  /-- The chance of the entry is taken. -/
  fTaken : Bool

/-- The loops of `Select_` over the draws; the empty answer is `some none`. -/
def selectLoop (s : CAddrMan) (vv : Nat → Nat → Option Nat) : List SelectDraw → Option (Option CAddress)
  | [] => some none
  | draw :: draws =>
    match vv draw.nBucket draw.nPos with
    | none => selectLoop s vv draws
    | some nId =>
      match s.mapInfo nId with
      | none => none
      | some info => if draw.fTaken then some (some info.addr) else selectLoop s vv draws

/-- `Select_`, with the draw between tried and new. -/
def select (s : CAddrMan) (fTriedDrawn : Bool) (draws : List SelectDraw) : Option (Option CAddress) :=
  if s.vRandom.length = 0 then some none
  else if s.nTried > 0 ∧ (s.nNew = 0 ∨ fTriedDrawn = true) then
    s.selectLoop (fun b i => s.vvTried (b % addrmanTriedBucketCount) (i % addrmanBucketSize))
      (draws.take addrmanSelectMaxTries)
  else
    s.selectLoop (fun b i => s.vvNew (b % addrmanNewBucketCount) (i % addrmanBucketSize))
      (draws.take addrmanSelectMaxTries)

/-- The loop of `GetAddr_` from `n` on, for `rounds` more entries. -/
def getAddrLoop (nNow : Int) (draw : Nat → Nat) (nNodes : Nat) :
    Nat → Nat → CAddrMan → List CAddress → Option (List CAddress × CAddrMan)
  | 0, _, s, vAddr => some (vAddr, s)
  | rounds + 1, n, s, vAddr =>
    if nNodes ≤ vAddr.length then some (vAddr, s)
    else do
      let nRndPos := draw n % (s.vRandom.length - n) + n
      let s ← s.swapRandom n nRndPos
      let nId ← s.vRandom[n]?
      let ai ← s.mapInfo nId
      getAddrLoop nNow draw nNodes rounds (n + 1) s (if ai.isTerrible nNow then vAddr else vAddr ++ [ai.addr])

/-- `GetAddr_`. -/
def getAddr (s : CAddrMan) (nNow : Int) (draw : Nat → Nat) : Option (List CAddress × CAddrMan) :=
  let nNodes := min (addrmanGetaddrMaxPct * s.vRandom.length / 100) addrmanGetaddrMax
  getAddrLoop nNow draw nNodes s.vRandom.length 0 s []

end CAddrMan

end Dobbscoin
