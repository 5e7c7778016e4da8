import Dobbscoin.Net.AddrMan

/-!
# Consistency of the address tables

What each update of the tables preserves.  An entry that is between two tables is floating: it is not tried, and
no bucket refers to it.
-/

namespace Dobbscoin

namespace CAddrMan

/-- `mapInfo`, `mapAddr` and `vRandom` hold the same entries. -/
structure Indexed (s : CAddrMan) : Prop where
  bounded : ∀ nId info, s.mapInfo nId = some info → nId < s.nIdCount
  random : ∀ nId info, s.mapInfo nId = some info → s.vRandom[info.nRandomPos]? = some nId
  listed : ∀ n nId, s.vRandom[n]? = some nId → ∃ info, s.mapInfo nId = some info ∧ info.nRandomPos = n
  addr : ∀ ip nId, s.mapAddr ip = some nId ↔ ∃ info, s.mapInfo nId = some info ∧ info.ip = ip

/-- The new buckets that refer to an entry. -/
def refs (env : AddrEnv) (s : CAddrMan) (nId : Nat) (info : CAddrInfo) : Finset Nat :=
  (Finset.range addrmanNewBucketCount).filter fun b =>
    s.vvNew b (info.getBucketPosition env s.nKey true b) = some nId

/-- An entry is in the table that it says, and counts its references. -/
structure EntryOk (env : AddrEnv) (triedIds newIds floating : Finset Nat) (s : CAddrMan) (nId : Nat)
    (info : CAddrInfo) : Prop where
  tried : nId ∈ triedIds ↔ info.fInTried = true
  new : nId ∈ newIds ↔ info.fInTried = false
  triedAt : ∀ b i, s.vvTried b i = some nId ↔ info.fInTried = true ∧ b = info.getTriedBucket env s.nKey ∧
    i = info.getBucketPosition env s.nKey false b
  newAt : ∀ b i, s.vvNew b i = some nId →
    b < addrmanNewBucketCount ∧ info.fInTried = false ∧ i = info.getBucketPosition env s.nKey true b
  refCount : info.nRefCount = (s.refs env nId info).card
  refCount_le : info.nRefCount ≤ addrmanNewBucketsPerAddress
  floating : nId ∈ floating ↔ info.fInTried = false ∧ info.nRefCount = 0
  lastTry : 0 ≤ info.addr.nLastTry
  lastSuccess : 0 ≤ info.nLastSuccess
  succeeded : info.fInTried = true → info.nLastSuccess ≠ 0

/-- The tables agree with each other, `nNew` is off by `e`, and there are floating entries. -/
structure Core (env : AddrEnv) (triedIds newIds floating : Finset Nat) (e : Int) (s : CAddrMan) : Prop where
  indexed : s.Indexed
  entries : ∀ nId info, s.mapInfo nId = some info → EntryOk env triedIds newIds floating s nId info
  unknown : ∀ nId, s.mapInfo nId = none → nId ∉ triedIds ∧ nId ∉ newIds ∧ nId ∉ floating ∧
    ∀ b i, s.vvTried b i ≠ some nId ∧ s.vvNew b i ≠ some nId
  nTried : s.nTried = triedIds.card
  nNew : s.nNew = newIds.card + e
  key : s.nKey ≠ 0

variable {env : AddrEnv} {triedIds newIds floating triedIds' newIds' floating' : Finset Nat} {e e' : Int}
  {s s' : CAddrMan} {nId : Nat} {info info' : CAddrInfo}

/-! ## Updates of one entry -/

theorem getTriedBucket_congr (h : info'.addr.service = info.addr.service) (nKey : UInt256) :
    info'.getTriedBucket env nKey = info.getTriedBucket env nKey := by
  rw [CAddrInfo.getTriedBucket, h, CAddrInfo.getTriedBucket]

theorem getBucketPosition_congr (h : info'.addr.service = info.addr.service) (nKey : UInt256) (fNew : Bool)
    (b : Nat) : info'.getBucketPosition env nKey fNew b = info.getBucketPosition env nKey fNew b := by
  rw [CAddrInfo.getBucketPosition, h, CAddrInfo.getBucketPosition]

theorem refs_congr (h : info'.addr.service = info.addr.service) (hkey : s'.nKey = s.nKey)
    (hnew : ∀ b i, s'.vvNew b i = some nId ↔ s.vvNew b i = some nId) :
    s'.refs env nId info' = s.refs env nId info := by
  unfold refs
  refine Finset.filter_congr fun b _ => ?_
  rw [hkey, getBucketPosition_congr h, hnew]

/-- The tables and the service of an entry are as before. -/
theorem EntryOk.congr (h : EntryOk env triedIds newIds floating s nId info) (hkey : s'.nKey = s.nKey)
    (hservice : info'.addr.service = info.addr.service) (hin : info'.fInTried = info.fInTried)
    (hcount : info'.nRefCount = info.nRefCount)
    (htried : ∀ b i, s'.vvTried b i = some nId ↔ s.vvTried b i = some nId)
    (hnew : ∀ b i, s'.vvNew b i = some nId ↔ s.vvNew b i = some nId)
    (hsetTried : nId ∈ triedIds' ↔ nId ∈ triedIds) (hsetNew : nId ∈ newIds' ↔ nId ∈ newIds)
    (hfloating : nId ∈ floating' ↔ nId ∈ floating) (htry : 0 ≤ info'.addr.nLastTry)
    (hsuccess : 0 ≤ info'.nLastSuccess) (hsucceeded : info'.fInTried = true → info'.nLastSuccess ≠ 0) :
    EntryOk env triedIds' newIds' floating' s' nId info' where
  tried := by rw [hsetTried, hin, h.tried]
  new := by rw [hsetNew, hin, h.new]
  triedAt b i := by
    rw [htried, hin, hkey, getTriedBucket_congr hservice, getBucketPosition_congr hservice]
    exact h.triedAt b i
  newAt b i hslot := by
    rw [hin, hkey, getBucketPosition_congr hservice]
    exact h.newAt b i ((hnew b i).1 hslot)
  refCount := by rw [hcount, refs_congr hservice hkey hnew, h.refCount]
  refCount_le := by rw [hcount]; exact h.refCount_le
  floating := by rw [hfloating, hin, hcount, h.floating]
  lastTry := htry
  lastSuccess := hsuccess
  succeeded := hsucceeded

/-- An entry that is not touched, with tables that are the same for it. -/
theorem EntryOk.other (h : EntryOk env triedIds newIds floating s nId info) (hkey : s'.nKey = s.nKey)
    (htried : ∀ b i, s'.vvTried b i = some nId ↔ s.vvTried b i = some nId)
    (hnew : ∀ b i, s'.vvNew b i = some nId ↔ s.vvNew b i = some nId)
    (hsetTried : nId ∈ triedIds' ↔ nId ∈ triedIds) (hsetNew : nId ∈ newIds' ↔ nId ∈ newIds)
    (hfloating : nId ∈ floating' ↔ nId ∈ floating) : EntryOk env triedIds' newIds' floating' s' nId info :=
  h.congr hkey rfl rfl rfl htried hnew hsetTried hsetNew hfloating h.lastTry h.lastSuccess h.succeeded

/-- What stays the same when one entry changes, and only places that hold it. -/
structure Updates (s : CAddrMan) (nId : Nat) (info' : CAddrInfo) (s' : CAddrMan) : Prop where
  nKey : s'.nKey = s.nKey
  nIdCount : s'.nIdCount = s.nIdCount
  mapInfo : s'.mapInfo = Function.update s.mapInfo nId (some info')
  mapAddr : s'.mapAddr = s.mapAddr
  vRandom : s'.vRandom = s.vRandom
  vvTried : ∀ nId', nId' ≠ nId → ∀ b i, s'.vvTried b i = some nId' ↔ s.vvTried b i = some nId'
  vvNew : ∀ nId', nId' ≠ nId → ∀ b i, s'.vvNew b i = some nId' ↔ s.vvNew b i = some nId'

theorem Updates.self (h : Updates s nId info' s') : s'.mapInfo nId = some info' := by
  rw [h.mapInfo, Function.update_self]

theorem Updates.ne (h : Updates s nId info' s') {nId' : Nat} (hne : nId' ≠ nId) :
    s'.mapInfo nId' = s.mapInfo nId' := by
  rw [h.mapInfo, Function.update_of_ne hne]

theorem Indexed.update (h : s.Indexed) (hupdates : Updates s nId info' s') (hinfo : s.mapInfo nId = some info)
    (hservice : info'.addr.service = info.addr.service) (hpos : info'.nRandomPos = info.nRandomPos) :
    s'.Indexed where
  bounded nId' info'' hsome := by
    rw [hupdates.nIdCount]
    by_cases heq : nId' = nId
    · subst heq
      exact h.bounded _ _ hinfo
    · rw [hupdates.ne heq] at hsome
      exact h.bounded _ _ hsome
  random nId' info'' hsome := by
    rw [hupdates.vRandom]
    by_cases heq : nId' = nId
    · subst heq
      rw [hupdates.self] at hsome
      rw [← Option.some.inj hsome, hpos]
      exact h.random _ _ hinfo
    · rw [hupdates.ne heq] at hsome
      exact h.random _ _ hsome
  listed n nId' hlisted := by
    rw [hupdates.vRandom] at hlisted
    rcases h.listed n nId' hlisted with ⟨info'', hsome, hn⟩
    by_cases heq : nId' = nId
    · subst heq
      rw [hinfo] at hsome
      obtain rfl := Option.some.inj hsome
      exact ⟨info', hupdates.self, hpos.trans hn⟩
    · exact ⟨info'', by rw [hupdates.ne heq, hsome], hn⟩
  addr ip nId' := by
    rw [hupdates.mapAddr, h.addr]
    by_cases heq : nId' = nId
    · subst heq
      have hip : info'.ip = info.ip := congrArg CService.ip hservice
      simp only [hinfo, hupdates.self, Option.some.injEq, exists_eq_left', hip]
    · rw [hupdates.ne heq]

/-- One entry changes, together with the sets that it is in. -/
theorem Core.update (h : Core env triedIds newIds floating e s) (hupdates : Updates s nId info' s')
    (hinfo : s.mapInfo nId = some info) (hservice : info'.addr.service = info.addr.service)
    (hpos : info'.nRandomPos = info.nRandomPos) (hentry : EntryOk env triedIds' newIds' floating' s' nId info')
    (hsets : ∀ nId', nId' ≠ nId → (nId' ∈ triedIds' ↔ nId' ∈ triedIds) ∧ (nId' ∈ newIds' ↔ nId' ∈ newIds) ∧
      (nId' ∈ floating' ↔ nId' ∈ floating))
    (hnTried : s'.nTried = triedIds'.card) (hnNew : s'.nNew = newIds'.card + e') :
    Core env triedIds' newIds' floating' e' s' where
  indexed := h.indexed.update hupdates hinfo hservice hpos
  entries nId' info'' hsome := by
    by_cases heq : nId' = nId
    · subst heq
      rw [hupdates.self] at hsome
      obtain rfl := Option.some.inj hsome
      exact hentry
    · rw [hupdates.ne heq] at hsome
      rcases hsets nId' heq with ⟨htried, hnew, hfloating⟩
      exact (h.entries nId' info'' hsome).other hupdates.nKey (hupdates.vvTried nId' heq) (hupdates.vvNew nId' heq)
        htried hnew hfloating
  unknown nId' hnone := by
    have heq : nId' ≠ nId := by
      rintro rfl
      rw [hupdates.self] at hnone
      cases hnone
    rw [hupdates.ne heq] at hnone
    rcases h.unknown nId' hnone with ⟨htried, hnew, hfloating, hslots⟩
    rcases hsets nId' heq with ⟨htried', hnew', hfloating'⟩
    refine ⟨mt htried'.1 htried, mt hnew'.1 hnew, mt hfloating'.1 hfloating, fun b i => ⟨?_, ?_⟩⟩
    · exact mt (hupdates.vvTried nId' heq b i).1 (hslots b i).1
    · exact mt (hupdates.vvNew nId' heq b i).1 (hslots b i).2
  nTried := hnTried
  nNew := hnNew
  key := by
    rw [hupdates.nKey]
    exact h.key

/-- The count of `nNew` moves on its own. -/
theorem Core.shift (h : Core env triedIds newIds floating e s) (d : Int) :
    Core env triedIds newIds floating (e + d) { s with nNew := s.nNew + d } := by
  refine ⟨⟨h.indexed.1, h.indexed.2, h.indexed.3, h.indexed.4⟩, ?_, h.unknown, h.nTried, ?_, h.key⟩
  · intro nId info hinfo
    exact (h.entries nId info hinfo).other rfl (fun _ _ => Iff.rfl) (fun _ _ => Iff.rfl) Iff.rfl Iff.rfl Iff.rfl
  · show s.nNew + d = newIds.card + (e + d)
    rw [h.nNew, Int.add_assoc]

/-- An entry whose statistics change, and nothing that the tables are about. -/
theorem Core.touch (h : Core env triedIds newIds floating e s) (hinfo : s.mapInfo nId = some info)
    (hservice : info'.addr.service = info.addr.service) (hin : info'.fInTried = info.fInTried)
    (hcount : info'.nRefCount = info.nRefCount) (hpos : info'.nRandomPos = info.nRandomPos)
    (htry : 0 ≤ info'.addr.nLastTry) (hsuccess : 0 ≤ info'.nLastSuccess)
    (hsucceeded : info'.fInTried = true → info'.nLastSuccess ≠ 0) :
    Core env triedIds newIds floating e (s.setInfo nId info') := by
  have hupdates : Updates s nId info' (s.setInfo nId info') :=
    ⟨rfl, rfl, rfl, rfl, rfl, fun _ _ _ _ => Iff.rfl, fun _ _ _ _ => Iff.rfl⟩
  have hentry : EntryOk env triedIds newIds floating (s.setInfo nId info') nId info' :=
    (h.entries nId info hinfo).congr rfl hservice hin hcount (fun _ _ => Iff.rfl) (fun _ _ => Iff.rfl) Iff.rfl Iff.rfl
      Iff.rfl htry hsuccess hsucceeded
  exact h.update hupdates hinfo hservice hpos hentry (fun _ _ => ⟨Iff.rfl, Iff.rfl, Iff.rfl⟩) h.nTried h.nNew

/-! ## Places of buckets -/

/-- A place is emptied; other entries are where they were. -/
theorem setSlot_none_iff {vv : Nat → Nat → Option Nat} {b i nId nId' : Nat} (hslot : vv b i = some nId) (hne : nId' ≠ nId)
    (b' i' : Nat) : setSlot vv b i none b' i' = some nId' ↔ vv b' i' = some nId' := by
  unfold setSlot
  split_ifs with h
  · rw [h.1, h.2, hslot]
    simp only [Option.some.injEq, false_iff]
    exact fun heq => hne heq.symm
  · rfl

/-- An empty place is taken; other entries are where they were. -/
theorem setSlot_some_iff {vv : Nat → Nat → Option Nat} {b i nId nId' : Nat} (hslot : vv b i = none) (hne : nId' ≠ nId)
    (b' i' : Nat) : setSlot vv b i (some nId) b' i' = some nId' ↔ vv b' i' = some nId' := by
  unfold setSlot
  split_ifs with h
  · rw [h.1, h.2, hslot]
    simp only [Option.some.injEq, reduceCtorEq, iff_false]
    exact fun heq => hne heq.symm
  · rfl

@[simp] theorem setSlot_self (vv : Nat → Nat → Option Nat) (b i : Nat) (value : Option Nat) :
    setSlot vv b i value b i = value :=
  if_pos ⟨rfl, rfl⟩

/-- A reference counts when it is there. -/
theorem Core.mem_refs (h : Core env triedIds newIds floating e s) (hinfo : s.mapInfo nId = some info) {b i : Nat}
    (hslot : s.vvNew b i = some nId) : b ∈ s.refs env nId info := by
  rcases (h.entries nId info hinfo).newAt b i hslot with ⟨hb, -, rfl⟩
  exact Finset.mem_filter.2 ⟨Finset.mem_range.2 hb, hslot⟩

theorem Core.refCount_pos (h : Core env triedIds newIds floating e s) (hinfo : s.mapInfo nId = some info) {b i : Nat}
    (hslot : s.vvNew b i = some nId) : 0 < info.nRefCount := by
  rw [(h.entries nId info hinfo).refCount]
  exact_mod_cast Finset.card_pos.2 ⟨b, h.mem_refs hinfo hslot⟩

/-- A reference is dropped; with the last one the entry floats. -/
theorem Core.dropRef (h : Core env triedIds newIds floating e s) (hinfo : s.mapInfo nId = some info) {b i : Nat}
    (hslot : s.vvNew b i = some nId) :
    Core env triedIds newIds (if info.nRefCount - 1 = 0 then insert nId floating else floating) e
      ((s.setInfo nId { info with nRefCount := info.nRefCount - 1 }).setNew b i none) := by
  have hold := h.entries nId info hinfo
  rcases hold.newAt b i hslot with ⟨hb, hin, hi⟩
  have hupdates : Updates s nId { info with nRefCount := info.nRefCount - 1 }
      ((s.setInfo nId { info with nRefCount := info.nRefCount - 1 }).setNew b i none) :=
    ⟨rfl, rfl, rfl, rfl, rfl, fun _ _ _ _ => Iff.rfl, fun nId' hne => setSlot_none_iff hslot hne⟩
  have hpos := h.refCount_pos hinfo hslot
  refine h.update hupdates hinfo rfl rfl ?_ ?_ h.nTried h.nNew
  · refine ⟨hold.tried, hold.new, hold.triedAt, ?_, ?_, ?_, ?_, hold.lastTry, hold.lastSuccess, hold.succeeded⟩
    · intro b' i' hslot'
      simp only [setNew, setSlot] at hslot'
      split_ifs at hslot'
      exact hold.newAt b' i' hslot'
    · have hrefs : ((s.setInfo nId { info with nRefCount := info.nRefCount - 1 }).setNew b i none).refs env nId
          { info with nRefCount := info.nRefCount - 1 } = (s.refs env nId info).erase b := by
        ext b'
        simp only [refs, Finset.mem_erase, Finset.mem_filter]
        constructor
        · rintro ⟨hrange, hslot'⟩
          simp only [setNew, setSlot] at hslot'
          split_ifs at hslot' with heq
          refine ⟨fun hb' => heq ⟨hb', ?_⟩, hrange, hslot'⟩
          rw [hi, hb']
          rfl
        · rintro ⟨hne, hrange, hslot'⟩
          exact ⟨hrange, (if_neg fun heq => hne heq.1).trans hslot'⟩
      rw [hrefs, Finset.card_erase_of_mem (h.mem_refs hinfo hslot)]
      have hcard := hold.refCount
      dsimp only
      omega
    · exact (Int.sub_le_self _ (by decide)).trans hold.refCount_le
    · dsimp only
      split_ifs with hzero
      · simp [hin, hzero]
      · rw [hold.floating]
        constructor
        · rintro ⟨-, hzero'⟩
          omega
        · rintro ⟨-, hzero'⟩
          exact absurd hzero' hzero
  · intro nId' hne
    refine ⟨Iff.rfl, Iff.rfl, ?_⟩
    split_ifs
    · simp [hne]
    · rfl

/-- An entry that is not tried gets one more reference. -/
theorem Core.addRef (h : Core env triedIds newIds floating e s) (hinfo : s.mapInfo nId = some info)
    (hin : info.fInTried = false) {b i : Nat} (hb : b < addrmanNewBucketCount)
    (hi : i = info.getBucketPosition env s.nKey true b) (hslot : s.vvNew b i = none)
    (hless : info.nRefCount < addrmanNewBucketsPerAddress) :
    Core env triedIds newIds (floating.erase nId) e
      ((s.setInfo nId { info with nRefCount := info.nRefCount + 1 }).setNew b i (some nId)) := by
  have hold := h.entries nId info hinfo
  have hupdates : Updates s nId { info with nRefCount := info.nRefCount + 1 }
      ((s.setInfo nId { info with nRefCount := info.nRefCount + 1 }).setNew b i (some nId)) :=
    ⟨rfl, rfl, rfl, rfl, rfl, fun _ _ _ _ => Iff.rfl, fun nId' hne => setSlot_some_iff hslot hne⟩
  have hfresh : b ∉ s.refs env nId info := by
    intro hmem
    have hslot' := (Finset.mem_filter.1 hmem).2
    rw [← hi, hslot] at hslot'
    cases hslot'
  have hcard := hold.refCount
  refine h.update hupdates hinfo rfl rfl ?_ ?_ h.nTried h.nNew
  · refine ⟨hold.tried, hold.new, hold.triedAt, ?_, ?_, ?_, ?_, hold.lastTry, hold.lastSuccess, hold.succeeded⟩
    · intro b' i' hslot'
      simp only [setNew, setSlot] at hslot'
      split_ifs at hslot' with heq
      · rw [heq.1, heq.2]
        exact ⟨hb, hin, hi⟩
      · exact hold.newAt b' i' hslot'
    · have hrefs : ((s.setInfo nId { info with nRefCount := info.nRefCount + 1 }).setNew b i (some nId)).refs env nId
          { info with nRefCount := info.nRefCount + 1 } = insert b (s.refs env nId info) := by
        ext b'
        simp only [refs, Finset.mem_insert, Finset.mem_filter]
        constructor
        · rintro ⟨hrange, hslot'⟩
          simp only [setNew, setSlot] at hslot'
          split_ifs at hslot' with heq
          · exact .inl heq.1
          · exact .inr ⟨hrange, hslot'⟩
        · rintro (rfl | ⟨hrange, hslot'⟩)
          · refine ⟨Finset.mem_range.2 hb, ?_⟩
            rw [hi]
            exact if_pos ⟨rfl, rfl⟩
          · refine ⟨hrange, ?_⟩
            simp only [setNew, setSlot]
            split_ifs
            · rfl
            · exact hslot'
      rw [hrefs, Finset.card_insert_of_notMem hfresh]
      push_cast
      rw [← hcard]
    · exact hless
    · simp only [Finset.mem_erase, ne_eq, not_true_eq_false, false_and, false_iff, not_and]
      intro _
      omega
  · intro nId' hne
    exact ⟨Iff.rfl, Iff.rfl, by simp [hne]⟩

/-- A tried entry has no references. -/
theorem EntryOk.refs_of_tried (h : EntryOk env triedIds newIds floating s nId info) (hin : info.fInTried = true) :
    info.nRefCount = 0 := by
  have hempty : s.refs env nId info = ∅ := by
    refine Finset.filter_eq_empty_iff.2 fun b _ hslot => ?_
    rw [(h.newAt _ _ hslot).2.1] at hin
    cases hin
  rw [h.refCount, hempty]
  rfl

/-- An entry is taken out of the tried table. -/
theorem Core.untry (h : Core env triedIds newIds floating e s) (hinfo : s.mapInfo nId = some info) {b i : Nat}
    (hslot : s.vvTried b i = some nId) :
    Core env (triedIds.erase nId) (insert nId newIds) (insert nId floating) (e - 1)
      { (s.setInfo nId { info with fInTried := false }).setTried b i none with nTried := s.nTried - 1 } := by
  have hold := h.entries nId info hinfo
  rcases (hold.triedAt b i).1 hslot with ⟨hin, hb, hi⟩
  have hupdates : Updates s nId { info with fInTried := false }
      { (s.setInfo nId { info with fInTried := false }).setTried b i none with nTried := s.nTried - 1 } :=
    ⟨rfl, rfl, rfl, rfl, rfl, fun nId' hne => setSlot_none_iff hslot hne, fun _ _ _ _ => Iff.rfl⟩
  have hmem : nId ∈ triedIds := hold.tried.2 hin
  have hnotNew : nId ∉ newIds := by
    rw [hold.new, hin]
    exact Bool.noConfusion
  refine h.update hupdates hinfo rfl rfl ?_ ?_ ?_ ?_
  · refine ⟨?_, ?_, ?_, ?_, hold.refCount, hold.refCount_le, ?_, hold.lastTry, hold.lastSuccess, ?_⟩
    · simp
    · simp
    · intro b' i'
      simp only [setTried, setSlot, Bool.false_eq_true, false_and, iff_false]
      split_ifs with heq
      · exact id
      · intro hslot'
        rcases (hold.triedAt b' i').1 hslot' with ⟨-, hb', hi'⟩
        have hbb : b' = b := hb'.trans hb.symm
        exact heq ⟨hbb, by rw [hi', hi, hbb]⟩
    · intro b' i' hslot'
      have hnotIn := (hold.newAt b' i' hslot').2.1
      rw [hin] at hnotIn
      cases hnotIn
    · simp [hold.refs_of_tried hin]
    · intro hfalse
      cases hfalse
  · intro nId' hne
    simp [hne]
  · show s.nTried - 1 = ((triedIds.erase nId).card : Int)
    rw [h.nTried, Finset.card_erase_of_mem hmem]
    have hpos := Finset.card_pos.2 ⟨nId, hmem⟩
    omega
  · show s.nNew = ((insert nId newIds).card : Int) + (e - 1)
    rw [h.nNew, Finset.card_insert_of_notMem hnotNew]
    push_cast
    omega

/-- A floating entry that has been connected to is put into the tried table. -/
theorem Core.enterTried (h : Core env triedIds newIds floating e s) (hinfo : s.mapInfo nId = some info)
    (hfloating : nId ∈ floating) (hslot : s.vvTried (info.getTriedBucket env s.nKey)
      (info.getBucketPosition env s.nKey false (info.getTriedBucket env s.nKey)) = none)
    (hsuccess : info.nLastSuccess ≠ 0) :
    Core env (insert nId triedIds) (newIds.erase nId) (floating.erase nId) (e + 1)
      (setInfo { s.setTried (info.getTriedBucket env s.nKey)
        (info.getBucketPosition env s.nKey false (info.getTriedBucket env s.nKey)) (some nId) with
          nTried := s.nTried + 1 } nId { info with fInTried := true }) := by
  have hold := h.entries nId info hinfo
  rcases hold.floating.1 hfloating with ⟨hin, hzero⟩
  have hmem : nId ∈ newIds := hold.new.2 hin
  have hnotTried : nId ∉ triedIds := by
    rw [hold.tried, hin]
    exact Bool.noConfusion
  -- A floating entry is in no new bucket.
  have hnone : ∀ b i, s.vvNew b i ≠ some nId := fun b i hslot' => by
    have hpos := h.refCount_pos hinfo hslot'
    omega
  have hupdates : Updates s nId { info with fInTried := true }
      (setInfo { s.setTried (info.getTriedBucket env s.nKey)
        (info.getBucketPosition env s.nKey false (info.getTriedBucket env s.nKey)) (some nId) with
          nTried := s.nTried + 1 } nId { info with fInTried := true }) :=
    ⟨rfl, rfl, rfl, rfl, rfl, fun nId' hne => setSlot_some_iff hslot hne, fun _ _ _ _ => Iff.rfl⟩
  refine h.update hupdates hinfo rfl rfl ?_ ?_ ?_ ?_
  · refine ⟨?_, ?_, ?_, ?_, hold.refCount, hold.refCount_le, ?_, hold.lastTry, hold.lastSuccess, fun _ => hsuccess⟩
    · simp
    · simp
    · intro b' i'
      simp only [setInfo, setTried, setSlot, true_and]
      split_ifs with heq
      · simp only [true_iff]
        rcases heq with ⟨rfl, rfl⟩
        exact ⟨rfl, rfl⟩
      · constructor
        · intro hslot'
          rw [((hold.triedAt b' i').1 hslot').1] at hin
          cases hin
        · rintro ⟨rfl, rfl⟩
          exact absurd ⟨rfl, rfl⟩ heq
    · intro b' i' hslot'
      exact absurd hslot' (hnone b' i')
    · simp
  · intro nId' hne
    simp [hne]
  · show s.nTried + 1 = ((insert nId triedIds).card : Int)
    rw [h.nTried, Finset.card_insert_of_notMem hnotTried]
    push_cast
    rfl
  · show s.nNew = ((newIds.erase nId).card : Int) + (e + 1)
    rw [h.nNew, Finset.card_erase_of_mem hmem]
    have hpos := Finset.card_pos.2 ⟨nId, hmem⟩
    omega

end CAddrMan

end Dobbscoin
