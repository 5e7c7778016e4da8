import Dobbscoin.Net.AddrTables

/-!
# Entries of the address manager come and go

`SwapRandom`, `Delete`, `Create`, `ClearNew` and `MakeTried` on consistent tables: their assertions hold, and the
tables are consistent after them.
-/

namespace Dobbscoin

namespace CAddrMan

variable {env : AddrEnv} {triedIds newIds floating : Finset Nat} {e : Int} {s s' : CAddrMan} {nId : Nat}
  {info : CAddrInfo}

/-! ## `SwapRandom` -/

/-- The state with two positions of `vRandom` exchanged. -/
structure Swapped (s : CAddrMan) (p q : Nat) (s' : CAddrMan) : Prop where
  nKey : s'.nKey = s.nKey
  nIdCount : s'.nIdCount = s.nIdCount
  mapInfo : ∀ nId, s'.mapInfo nId =
    (s.mapInfo nId).map fun info => { info with nRandomPos := Equiv.swap p q info.nRandomPos }
  mapAddr : s'.mapAddr = s.mapAddr
  length : s'.vRandom.length = s.vRandom.length
  vRandom : ∀ k, s'.vRandom[k]? = s.vRandom[Equiv.swap p q k]?
  nTried : s'.nTried = s.nTried
  vvTried : s'.vvTried = s.vvTried
  nNew : s'.nNew = s.nNew
  vvNew : s'.vvNew = s.vvNew

/-- Exchanging two places of a list reads it at exchanged positions. -/
theorem getElem?_exchange {α : Type*} {l : List α} {p q : Nat} {a b : α} (hp : l[p]? = some a) (hq : l[q]? = some b)
    (k : Nat) : ((l.set p b).set q a)[k]? = l[Equiv.swap p q k]? := by
  have hplt : p < l.length := (List.getElem?_eq_some_iff.1 hp).1
  have hqlt : q < l.length := (List.getElem?_eq_some_iff.1 hq).1
  by_cases hkq : k = q
  · subst hkq
    rw [Equiv.swap_apply_right, List.getElem?_set_self (by rwa [List.length_set]), hp]
  · rw [List.getElem?_set_ne (Ne.symm hkq)]
    by_cases hkp : k = p
    · subst hkp
      rw [Equiv.swap_apply_left, List.getElem?_set_self hplt, hq]
    · rw [List.getElem?_set_ne (Ne.symm hkp), Equiv.swap_apply_of_ne_of_ne hkp hkq]

theorem swapRandom_eq {p q nId1 nId2 : Nat} {info1 info2 : CAddrInfo} (hpq : p ≠ q)
    (hp : s.vRandom[p]? = some nId1) (hq : s.vRandom[q]? = some nId2) (hinfo1 : s.mapInfo nId1 = some info1)
    (hinfo2 : s.mapInfo nId2 = some info2) :
    s.swapRandom p q = some { s with
      mapInfo := Function.update (Function.update s.mapInfo nId1 (some { info1 with nRandomPos := q })) nId2
        (some { info2 with nRandomPos := p })
      vRandom := (s.vRandom.set p nId2).set q nId1 } := by
  rw [swapRandom, if_neg hpq, hp, hq]
  simp only [Option.bind_eq_bind, Option.bind_some, hinfo1, hinfo2]
  rfl

/-- The assertions of `SwapRandom` hold at two positions of `vRandom`. -/
theorem Indexed.swapRandom (h : s.Indexed) {p q : Nat} (hp : p < s.vRandom.length) (hq : q < s.vRandom.length) :
    ∃ s', s.swapRandom p q = some s' ∧ Swapped s p q s' := by
  by_cases hpq : p = q
  · subst hpq
    refine ⟨s, if_pos rfl, rfl, rfl, fun nId => ?_, rfl, rfl, fun k => ?_, rfl, rfl, rfl, rfl⟩
    · cases s.mapInfo nId <;> simp
    · simp
  · have hpat := List.getElem?_eq_getElem hp
    have hqat := List.getElem?_eq_getElem hq
    rcases h.listed p _ hpat with ⟨info1, hinfo1, hpos1⟩
    rcases h.listed q _ hqat with ⟨info2, hinfo2, hpos2⟩
    refine ⟨_, swapRandom_eq hpq hpat hqat hinfo1 hinfo2, rfl, rfl, fun nId => ?_, rfl, ?_,
      getElem?_exchange hpat hqat, rfl, rfl, rfl, rfl⟩
    · simp only [Function.update_apply]
      split_ifs with hq' hp'
      · rw [hq', hinfo2, Option.map_some, hpos2, Equiv.swap_apply_right]
      · rw [hp', hinfo1, Option.map_some, hpos1, Equiv.swap_apply_left]
      · -- Another entry is at neither of the positions.
        cases hinfo : s.mapInfo nId with
        | none => rfl
        | some info =>
          have hat := h.random nId info hinfo
          have hne1 : info.nRandomPos ≠ p := fun heq => hp' (by
            rw [heq, hpat] at hat
            exact (Option.some.inj hat).symm)
          have hne2 : info.nRandomPos ≠ q := fun heq => hq' (by
            rw [heq, hqat] at hat
            exact (Option.some.inj hat).symm)
          rw [Option.map_some, Equiv.swap_apply_of_ne_of_ne hne1 hne2]
    · rw [List.length_set, List.length_set]

theorem Swapped.indexed {p q : Nat} (hs : Swapped s p q s') (h : s.Indexed) : s'.Indexed where
  bounded nId info hinfo := by
    rw [hs.mapInfo] at hinfo
    rcases Option.map_eq_some_iff.1 hinfo with ⟨info', hinfo', -⟩
    rw [hs.nIdCount]
    exact h.bounded nId info' hinfo'
  random nId info hinfo := by
    rw [hs.mapInfo] at hinfo
    rcases Option.map_eq_some_iff.1 hinfo with ⟨info', hinfo', rfl⟩
    rw [hs.vRandom, Equiv.swap_apply_self]
    exact h.random nId info' hinfo'
  listed n nId hlisted := by
    rw [hs.vRandom] at hlisted
    rcases h.listed _ nId hlisted with ⟨info, hinfo, hpos⟩
    refine ⟨{ info with nRandomPos := Equiv.swap p q info.nRandomPos }, ?_, ?_⟩
    · rw [hs.mapInfo, hinfo, Option.map_some]
    · show Equiv.swap p q info.nRandomPos = n
      rw [hpos, Equiv.swap_apply_self]
  addr ip nId := by
    rw [hs.mapAddr, h.addr, hs.mapInfo]
    constructor
    · rintro ⟨info, hinfo, hip⟩
      exact ⟨{ info with nRandomPos := Equiv.swap p q info.nRandomPos }, by rw [hinfo, Option.map_some], hip⟩
    · rintro ⟨info, hinfo, hip⟩
      rcases Option.map_eq_some_iff.1 hinfo with ⟨info', hinfo', rfl⟩
      exact ⟨info', hinfo', hip⟩

theorem Core.swapped (h : Core env triedIds newIds floating e s) {p q : Nat} (hs : Swapped s p q s') :
    Core env triedIds newIds floating e s' where
  indexed := hs.indexed h.indexed
  entries nId info hinfo := by
    rw [hs.mapInfo] at hinfo
    rcases Option.map_eq_some_iff.1 hinfo with ⟨info', hinfo', rfl⟩
    have hentry := h.entries nId info' hinfo'
    exact hentry.congr hs.nKey rfl rfl rfl (by simp [hs.vvTried]) (by simp [hs.vvNew]) Iff.rfl Iff.rfl Iff.rfl
      hentry.lastTry hentry.lastSuccess hentry.succeeded
  unknown nId hnone := by
    rw [hs.mapInfo, Option.map_eq_none_iff] at hnone
    rw [hs.vvTried, hs.vvNew]
    exact h.unknown nId hnone
  nTried := by rw [hs.nTried, h.nTried]
  nNew := by rw [hs.nNew, h.nNew]
  key := by
    rw [hs.nKey]
    exact h.key

/-! ## `Delete` and `Create` -/

/-- An entry is the same but for its place in `vRandom`. -/
def Moved (info info' : CAddrInfo) : Prop :=
  ∃ p, info' = { info with nRandomPos := p }

theorem Moved.refl (info : CAddrInfo) : Moved info info :=
  ⟨info.nRandomPos, rfl⟩

/-- The state without the entry at the end of `vRandom`. -/
def dropEntry (s : CAddrMan) (nId : Nat) (info : CAddrInfo) : CAddrMan :=
  { s with
    vRandom := s.vRandom.dropLast
    mapAddr := Function.update s.mapAddr info.ip none
    mapInfo := Function.update s.mapInfo nId none
    nNew := s.nNew - 1 }

theorem Indexed.dropEntry (h : s.Indexed) (hinfo : s.mapInfo nId = some info)
    (hlast : info.nRandomPos = s.vRandom.length - 1) : (s.dropEntry nId info).Indexed := by
  have hat := h.random nId info hinfo
  have hlt : info.nRandomPos < s.vRandom.length := (List.getElem?_eq_some_iff.1 hat).1
  have hother : ∀ nId' info', (s.dropEntry nId info).mapInfo nId' = some info' ↔
      nId' ≠ nId ∧ s.mapInfo nId' = some info' := by
    intro nId' info'
    simp only [CAddrMan.dropEntry, Function.update_apply]
    split_ifs with heq <;> simp [heq]
  refine ⟨?_, ?_, ?_, ?_⟩
  · intro nId' info' hinfo'
    exact h.bounded nId' info' ((hother nId' info').1 hinfo').2
  · intro nId' info' hinfo'
    rcases (hother nId' info').1 hinfo' with ⟨hne, hinfo'⟩
    have hat' := h.random nId' info' hinfo'
    have hlt' : info'.nRandomPos < s.vRandom.length := (List.getElem?_eq_some_iff.1 hat').1
    have hpos : info'.nRandomPos ≠ s.vRandom.length - 1 := by
      intro heq
      rw [heq, ← hlast, hat] at hat'
      exact hne (Option.some.inj hat').symm
    show s.vRandom.dropLast[info'.nRandomPos]? = some nId'
    rw [List.getElem?_dropLast, if_pos (by omega), hat']
  · intro n nId' hlisted
    have hlisted' : s.vRandom.dropLast[n]? = some nId' := hlisted
    rw [List.getElem?_dropLast] at hlisted'
    split_ifs at hlisted' with hn
    rcases h.listed n nId' hlisted' with ⟨info', hinfo', hpos⟩
    refine ⟨info', (hother nId' info').2 ⟨?_, hinfo'⟩, hpos⟩
    rintro rfl
    rw [hinfo] at hinfo'
    obtain rfl := Option.some.inj hinfo'
    omega
  · intro ip nId'
    have haddr := (h.addr info.ip nId).2 ⟨info, hinfo, rfl⟩
    simp only [hother]
    show Function.update s.mapAddr info.ip none ip = some nId' ↔ _
    rw [Function.update_apply]
    split_ifs with heq
    · simp only [false_iff]
      rintro ⟨info', ⟨hne, hinfo'⟩, hip⟩
      have haddr' := (h.addr ip nId').2 ⟨info', hinfo', hip⟩
      rw [heq, haddr] at haddr'
      exact hne (Option.some.inj haddr').symm
    · rw [h.addr]
      constructor
      · rintro ⟨info', hinfo', hip⟩
        refine ⟨info', ⟨?_, hinfo'⟩, hip⟩
        rintro rfl
        rw [hinfo] at hinfo'
        obtain rfl := Option.some.inj hinfo'
        exact heq hip.symm
      · rintro ⟨info', ⟨-, hinfo'⟩, hip⟩
        exact ⟨info', hinfo', hip⟩

/-- A floating entry is nowhere but in the indexes, and goes away with them. -/
theorem Core.dropEntry (h : Core env triedIds newIds floating e s) (hinfo : s.mapInfo nId = some info)
    (hfloating : nId ∈ floating) (hlast : info.nRandomPos = s.vRandom.length - 1) :
    Core env triedIds (newIds.erase nId) (floating.erase nId) e (s.dropEntry nId info) := by
  have hold := h.entries nId info hinfo
  rcases hold.floating.1 hfloating with ⟨hin, hzero⟩
  have hmem : nId ∈ newIds := hold.new.2 hin
  refine ⟨h.indexed.dropEntry hinfo hlast, ?_, ?_, h.nTried, ?_, h.key⟩
  · intro nId' info' hinfo'
    simp only [CAddrMan.dropEntry, Function.update_apply] at hinfo'
    split_ifs at hinfo' with hne
    exact (h.entries nId' info' hinfo').other rfl (fun _ _ => Iff.rfl) (fun _ _ => Iff.rfl) Iff.rfl (by simp [hne])
      (by simp [hne])
  · intro nId' hnone
    simp only [CAddrMan.dropEntry, Function.update_apply] at hnone
    split_ifs at hnone with heq
    · subst heq
      refine ⟨?_, by simp, by simp, fun b i => ⟨fun hslot => ?_, fun hslot => ?_⟩⟩
      · rw [hold.tried, hin]
        exact Bool.noConfusion
      · rw [((hold.triedAt b i).1 hslot).1] at hin
        cases hin
      · have hpos := h.refCount_pos hinfo hslot
        omega
    · rcases h.unknown nId' hnone with ⟨htried, hnew, hfloat, hslots⟩
      exact ⟨htried, fun hin' => hnew (Finset.mem_of_mem_erase hin'),
        fun hin' => hfloat (Finset.mem_of_mem_erase hin'), hslots⟩
  · show s.nNew - 1 = ((newIds.erase nId).card : Int) + e
    rw [h.nNew, Finset.card_erase_of_mem hmem]
    have hpos := Finset.card_pos.2 ⟨nId, hmem⟩
    omega

/-- What an operation leaves alone that may remove entries. -/
structure Spares (kept : Nat → Prop) (s s' : CAddrMan) : Prop where
  nKey : s'.nKey = s.nKey
  vvTried : s'.vvTried = s.vvTried
  mapInfo : ∀ nId info, kept nId → s.mapInfo nId = some info → ∃ info', s'.mapInfo nId = some info' ∧ Moved info info'

/-- The assertions of `Delete` hold for a floating entry. -/
theorem Core.delete (h : Core env triedIds newIds floating e s) (hinfo : s.mapInfo nId = some info)
    (hfloating : nId ∈ floating) :
    ∃ s', s.delete nId = some s' ∧ Core env triedIds (newIds.erase nId) (floating.erase nId) e s' ∧
      s'.vvNew = s.vvNew ∧ Spares (· ≠ nId) s s' := by
  rcases (h.entries nId info hinfo).floating.1 hfloating with ⟨hin, hzero⟩
  have hlt : info.nRandomPos < s.vRandom.length := (List.getElem?_eq_some_iff.1 (h.indexed.random nId info hinfo)).1
  rcases h.indexed.swapRandom hlt (q := s.vRandom.length - 1) (by omega) with ⟨s1, hswap, hswapped⟩
  have hinfo1 : s1.mapInfo nId = some { info with nRandomPos := s.vRandom.length - 1 } := by
    rw [hswapped.mapInfo, hinfo, Option.map_some, Equiv.swap_apply_left]
  refine ⟨s1.dropEntry nId { info with nRandomPos := s.vRandom.length - 1 }, ?_, ?_, hswapped.vvNew, hswapped.nKey,
    hswapped.vvTried, ?_⟩
  · have hif : ¬(info.fInTried = true ∨ info.nRefCount ≠ 0) := by simp [hin, hzero]
    simp only [CAddrMan.delete, hinfo, Option.bind_eq_bind, Option.bind_some, if_neg hif, hswap]
    rfl
  · exact (h.swapped hswapped).dropEntry hinfo1 hfloating (by rw [hswapped.length])
  · intro nId' info' hne hinfo'
    refine ⟨{ info' with nRandomPos := Equiv.swap info.nRandomPos (s.vRandom.length - 1) info'.nRandomPos }, ?_, _, rfl⟩
    show Function.update s1.mapInfo nId none nId' = _
    rw [Function.update_of_ne hne, hswapped.mapInfo, hinfo', Option.map_some]

theorem Indexed.create (h : s.Indexed) {addr : CAddress} (haddr : s.mapAddr addr.service.ip = none)
    (source : CNetAddr) : (s.create addr source).2.2.Indexed := by
  have hfresh : s.mapInfo s.nIdCount = none := by
    cases hinfo : s.mapInfo s.nIdCount with
    | none => rfl
    | some info => exact absurd (h.bounded _ info hinfo) (Nat.lt_irrefl _)
  refine ⟨?_, ?_, ?_, ?_⟩
  · intro nId info hinfo
    simp only [CAddrMan.create, Function.update_apply] at hinfo
    show nId < s.nIdCount + 1
    split_ifs at hinfo with heq
    · omega
    · exact (h.bounded nId info hinfo).trans (Nat.lt_succ_self _)
  · intro nId info hinfo
    simp only [CAddrMan.create, Function.update_apply] at hinfo
    show (s.vRandom ++ [s.nIdCount])[info.nRandomPos]? = some nId
    split_ifs at hinfo with heq
    · obtain rfl := Option.some.inj hinfo
      rw [heq, List.getElem?_concat_length]
    · have hat := h.random nId info hinfo
      rw [List.getElem?_append_left (List.getElem?_eq_some_iff.1 hat).1, hat]
  · intro n nId hlisted
    have hlisted' : (s.vRandom ++ [s.nIdCount])[n]? = some nId := hlisted
    simp only [CAddrMan.create, Function.update_apply]
    rw [List.getElem?_append] at hlisted'
    split_ifs at hlisted' with hn
    · rcases h.listed n nId hlisted' with ⟨info, hinfo, hpos⟩
      have hne : nId ≠ s.nIdCount := (h.bounded nId info hinfo).ne
      exact ⟨info, by rw [if_neg hne, hinfo], hpos⟩
    · rcases List.getElem?_eq_some_iff.1 hlisted' with ⟨hlt, heq⟩
      have hzero : n - s.vRandom.length = 0 := by simpa using hlt
      simp only [hzero, List.getElem_cons_zero] at heq
      exact ⟨_, if_pos heq.symm, by show s.vRandom.length = n; omega⟩
  · intro ip nId
    simp only [CAddrMan.create, Function.update_apply]
    by_cases hid : nId = s.nIdCount
    · subst hid
      rw [if_pos rfl]
      split_ifs with hip
      · simp only [true_iff]
        exact ⟨_, rfl, hip.symm⟩
      · constructor
        · intro hat
          rcases (h.addr ip _).1 hat with ⟨info, hinfo, -⟩
          rw [hfresh] at hinfo
          cases hinfo
        · rintro ⟨info, hinfo, hip'⟩
          obtain rfl := Option.some.inj hinfo
          exact absurd hip'.symm hip
    · simp only [if_neg hid]
      split_ifs with hip
      · constructor
        · intro heq
          exact absurd (Option.some.inj heq).symm hid
        · intro hat
          rw [← h.addr, hip, haddr] at hat
          cases hat
      · exact h.addr ip nId

/-- `Create` makes a floating entry. -/
theorem Core.create (h : Core env triedIds newIds floating e s) {addr : CAddress}
    (haddr : s.mapAddr addr.service.ip = none) (source : CNetAddr) :
    Core env triedIds (insert s.nIdCount newIds) (insert s.nIdCount floating) (e - 1) (s.create addr source).2.2 := by
  have hfresh : s.mapInfo s.nIdCount = none := by
    cases hinfo : s.mapInfo s.nIdCount with
    | none => rfl
    | some info => exact absurd (h.indexed.bounded _ info hinfo) (Nat.lt_irrefl _)
  rcases h.unknown _ hfresh with ⟨htried, hnew, hfloat, hslots⟩
  refine ⟨h.indexed.create haddr source, ?_, ?_, h.nTried, ?_, h.key⟩
  · intro nId info hinfo
    simp only [CAddrMan.create, Function.update_apply] at hinfo
    split_ifs at hinfo with heq
    · subst heq
      obtain rfl := Option.some.inj hinfo
      refine ⟨?_, ?_, ?_, ?_, ?_, Int.natCast_nonneg 8, ?_, le_refl _, le_refl _, ?_⟩
      · simp [htried, CAddrInfo.new]
      · simp [CAddrInfo.new]
      · intro b i
        constructor
        · exact fun hslot => absurd hslot (hslots b i).1
        · rintro ⟨hfalse, -⟩
          cases hfalse
      · exact fun b i hslot => absurd hslot (hslots b i).2
      · have hempty : ∀ info', refs env (s.create addr source).2.2 s.nIdCount info' = ∅ :=
          fun info' => Finset.filter_eq_empty_iff.2 fun b _ hslot => (hslots b _).2 hslot
        rw [hempty]
        rfl
      · simp [CAddrInfo.new]
      · intro hfalse
        cases hfalse
    · exact (h.entries nId info hinfo).other rfl (fun _ _ => Iff.rfl) (fun _ _ => Iff.rfl) Iff.rfl (by simp [heq])
        (by simp [heq])
  · intro nId hnone
    simp only [CAddrMan.create, Function.update_apply] at hnone
    split_ifs at hnone with heq
    rcases h.unknown nId hnone with ⟨htried', hnew', hfloat', hslots'⟩
    exact ⟨htried', by simp [heq, hnew'], by simp [heq, hfloat'], hslots'⟩
  · show s.nNew = ((insert s.nIdCount newIds).card : Int) + (e - 1)
    rw [h.nNew, Finset.card_insert_of_notMem hnew]
    push_cast
    omega

/-! ## `ClearNew` and `MakeTried` -/

theorem Core.new_known (h : Core env triedIds newIds floating e s) {b i : Nat} (hslot : s.vvNew b i = some nId) :
    ∃ info, s.mapInfo nId = some info := by
  cases hinfo : s.mapInfo nId with
  | none => exact absurd hslot ((h.unknown nId hinfo).2.2.2 b i).2
  | some info => exact ⟨info, rfl⟩

theorem Core.tried_known (h : Core env triedIds newIds floating e s) {b i : Nat} (hslot : s.vvTried b i = some nId) :
    ∃ info, s.mapInfo nId = some info := by
  cases hinfo : s.mapInfo nId with
  | none => exact absurd hslot ((h.unknown nId hinfo).2.2.2 b i).1
  | some info => exact ⟨info, rfl⟩

/-- An entry that a new bucket refers to does not float. -/
theorem Core.not_floating (h : Core env triedIds newIds floating e s) {b i : Nat} (hslot : s.vvNew b i = some nId) :
    nId ∉ floating := by
  rcases h.new_known hslot with ⟨info, hinfo⟩
  intro hfloating
  have hzero := ((h.entries nId info hinfo).floating.1 hfloating).2
  exact (h.refCount_pos hinfo hslot).ne' hzero

/-- The assertions of `ClearNew` hold, and the place is empty after it. -/
theorem Core.clearNew (h : Core env triedIds newIds floating e s) (b i : Nat) :
    ∃ s' newIds', s.clearNew b i = some s' ∧ Core env triedIds newIds' floating e s' ∧
      s'.vvNew = setSlot s.vvNew b i none ∧ Spares (fun nId => s.vvNew b i ≠ some nId) s s' := by
  cases hslot : s.vvNew b i with
  | none =>
    refine ⟨s, newIds, by rw [CAddrMan.clearNew, hslot], h, ?_, rfl, rfl, fun nId info _ hinfo => ⟨info, hinfo, .refl info⟩⟩
    funext b' i'
    unfold setSlot
    split_ifs with heq
    · rw [heq.1, heq.2, hslot]
    · rfl
  | some nIdDelete =>
    rcases h.new_known hslot with ⟨info, hinfo⟩
    have hpos := h.refCount_pos hinfo hslot
    have hdrop := h.dropRef hinfo hslot
    by_cases hlast : info.nRefCount - 1 = 0
    · -- It was the last reference, and the entry is deleted.
      rw [if_pos hlast] at hdrop
      rcases hdrop.delete (Function.update_self ..) (Finset.mem_insert_self ..) with ⟨s', hdelete, hcore, hnew, hspares⟩
      rw [Finset.erase_insert (h.not_floating hslot)] at hcore
      refine ⟨s', _, ?_, hcore, hnew, hspares.nKey, hspares.vvTried, fun nId info' hkept hinfo' => ?_⟩
      · simp only [CAddrMan.clearNew, hslot, hinfo, Option.bind_eq_bind, Option.bind_some, if_neg (not_le.2 hpos),
          if_pos hlast]
        exact hdelete
      · have hne : nId ≠ nIdDelete := fun heq => hkept (by rw [heq])
        exact hspares.mapInfo nId info' hne ((Function.update_of_ne hne ..).trans hinfo')
    · rw [if_neg hlast] at hdrop
      refine ⟨_, newIds, ?_, hdrop, rfl, rfl, rfl, fun nId info' hkept hinfo' => ⟨info', ?_, .refl info'⟩⟩
      · simp only [CAddrMan.clearNew, hslot, hinfo, Option.bind_eq_bind, Option.bind_some, if_neg (not_le.2 hpos),
          if_neg hlast]
        rfl
      · have hne : nId ≠ nIdDelete := fun heq => hkept (by rw [heq])
        exact (Function.update_of_ne hne ..).trans hinfo'

/-- While `MakeTried` clears the new buckets: the entry has some references left. -/
def Clearing (env : AddrEnv) (triedIds newIds floating : Finset Nat) (e : Int) (nId : Nat) (info : CAddrInfo)
    (s : CAddrMan) : Prop :=
  ∃ n, s.mapInfo nId = some { info with nRefCount := n } ∧
    Core env triedIds newIds (if n = 0 then insert nId floating else floating) e s

/-- One bucket is cleared: the entry is not in it, and in no bucket in which it was not. -/
theorem Clearing.clearBucket (h : Clearing env triedIds newIds floating e nId info s) (b : Nat) :
    Clearing env triedIds newIds floating e nId info (clearBucket env nId s b) ∧
      (∀ i, (CAddrMan.clearBucket env nId s b).vvNew b i ≠ some nId) ∧
      ∀ b' i, (CAddrMan.clearBucket env nId s b).vvNew b' i = some nId → s.vvNew b' i = some nId := by
  rcases h with ⟨n, hinfo, hcore⟩
  have hat : ∀ i, s.vvNew b i = some nId → i = info.getBucketPosition env s.nKey true b := fun i hslot =>
    ((hcore.entries nId _ hinfo).newAt b i hslot).2.2
  simp only [CAddrMan.clearBucket, hinfo]
  split_ifs with hslot
  · have hpos : 0 < n := hcore.refCount_pos hinfo hslot
    have hdrop := hcore.dropRef hinfo hslot
    rw [if_neg hpos.ne'] at hdrop
    refine ⟨⟨n - 1, Function.update_self .., hdrop⟩, fun i hslot' => ?_, fun b' i hslot' => ?_⟩
    · simp only [setInfo, CAddrMan.setNew, setSlot] at hslot'
      split_ifs at hslot' with heq
      exact heq ⟨trivial, hat i hslot'⟩
    · simp only [setInfo, CAddrMan.setNew, setSlot] at hslot'
      split_ifs at hslot' with heq
      exact hslot'
  · refine ⟨⟨n, hinfo, hcore⟩, fun i hslot' => hslot ?_, fun _ _ hslot' => hslot'⟩
    rw [hat i hslot'] at hslot'
    exact hslot'

theorem Clearing.foldl (buckets : List Nat) :
    ∀ {s : CAddrMan}, Clearing env triedIds newIds floating e nId info s →
      Clearing env triedIds newIds floating e nId info (buckets.foldl (CAddrMan.clearBucket env nId) s) ∧
      (∀ b ∈ buckets, ∀ i, (buckets.foldl (CAddrMan.clearBucket env nId) s).vvNew b i ≠ some nId) ∧
      ∀ b i, (buckets.foldl (CAddrMan.clearBucket env nId) s).vvNew b i = some nId → s.vvNew b i = some nId := by
  induction buckets with
  | nil => exact fun h => ⟨h, fun _ hb => absurd hb List.not_mem_nil, fun _ _ hslot => hslot⟩
  | cons bucket buckets ih =>
    intro s h
    rcases h.clearBucket bucket with ⟨hstep, hgone, hless⟩
    rcases ih hstep with ⟨hrun, hgone', hless'⟩
    refine ⟨hrun, fun b hb i hslot => ?_, fun b i hslot => hless b i (hless' b i hslot)⟩
    rcases List.mem_cons.1 hb with rfl | hb
    · exact hgone i (hless' b i hslot)
    · exact hgone' b hb i hslot

/-- After its loop over the new buckets the entry floats: the assertion that no reference is left holds. -/
theorem Core.clearBuckets (h : Core env triedIds newIds floating e s) (hinfo : s.mapInfo nId = some info)
    (hin : info.fInTried = false) :
    let s' := (List.range addrmanNewBucketCount).foldl (CAddrMan.clearBucket env nId) s
    s'.mapInfo nId = some { info with nRefCount := 0 } ∧ Core env triedIds newIds (insert nId floating) e s' := by
  have hstart : Clearing env triedIds newIds floating e nId info s := by
    refine ⟨info.nRefCount, hinfo, ?_⟩
    split_ifs with hzero
    · rwa [Finset.insert_eq_of_mem ((h.entries nId info hinfo).floating.2 ⟨hin, hzero⟩)]
    · exact h
  rcases hstart.foldl (List.range addrmanNewBucketCount) with ⟨⟨n, hinfo', hcore⟩, hgone, -⟩
  have hn : n = 0 := by
    have hcount := (hcore.entries nId _ hinfo').refCount
    have hempty : refs env ((List.range addrmanNewBucketCount).foldl (CAddrMan.clearBucket env nId) s) nId
        { info with nRefCount := n } = ∅ :=
      Finset.filter_eq_empty_iff.2 fun b hb => hgone b (List.mem_range.2 (Finset.mem_range.1 hb)) _
    rw [hempty] at hcount
    exact hcount
  subst hn
  exact ⟨hinfo', by rwa [if_pos rfl] at hcore⟩

theorem evict_some {b i nIdEvict : Nat} (hslot : s.vvTried b i = some nIdEvict) (hinfo : s.mapInfo nIdEvict = some info) :
    s.evict env b i =
      (clearNew
        { (s.setInfo nIdEvict { info with fInTried := false }).setTried b i none with nTried := s.nTried - 1 }
        (info.getNewBucket env s.nKey info.source)
        (info.getBucketPosition env s.nKey true (info.getNewBucket env s.nKey info.source))).bind fun s1 =>
          if (s1.vvNew (info.getNewBucket env s.nKey info.source)
              (info.getBucketPosition env s.nKey true (info.getNewBucket env s.nKey info.source))).isSome then none
          else (s1.mapInfo nIdEvict).bind fun infoOld =>
            some { (s1.setInfo nIdEvict { infoOld with nRefCount := 1 }).setNew
              (info.getNewBucket env s.nKey info.source)
              (info.getBucketPosition env s.nKey true (info.getNewBucket env s.nKey info.source)) (some nIdEvict) with
                nNew := s1.nNew + 1 } := by
  rw [evict, hslot]
  simp only [hinfo, Option.bind_eq_bind, Option.bind_some]
  rfl

/-- The place of an entry that goes to tried is made free; the entry that was there is new again. -/
theorem Core.evict (h : Core env triedIds newIds floating e s) (b i : Nat) :
    ∃ s' triedIds' newIds', s.evict env b i = some s' ∧ Core env triedIds' newIds' floating e s' ∧
      s'.nKey = s.nKey ∧ s'.vvTried b i = none ∧
      ∀ nId info, nId ∈ floating → s.mapInfo nId = some info → ∃ info', s'.mapInfo nId = some info' ∧ Moved info info' := by
  cases hslot : s.vvTried b i with
  | none =>
    exact ⟨s, triedIds, newIds, by rw [CAddrMan.evict, hslot], h, rfl, hslot,
      fun nId info _ hinfo => ⟨info, hinfo, .refl info⟩⟩
  | some nIdEvict =>
    rcases h.tried_known hslot with ⟨infoOld, hinfo⟩
    have hold := h.entries nIdEvict infoOld hinfo
    have hin := ((hold.triedAt b i).1 hslot).1
    have hnotFloating : nIdEvict ∉ floating := by
      rw [hold.floating, hin]
      rintro ⟨hfalse, -⟩
      cases hfalse
    -- First it leaves the tried table, then the place in the new table is cleared, then it goes there.
    have huntry := h.untry hinfo hslot
    let nUBucket := infoOld.getNewBucket env s.nKey infoOld.source
    let nUBucketPos := infoOld.getBucketPosition env s.nKey true nUBucket
    rcases huntry.clearNew nUBucket nUBucketPos with ⟨s1, newIds1, hclear, hcore1, hnew1, hspares1⟩
    rcases hspares1.mapInfo nIdEvict { infoOld with fInTried := false }
      (fun hslot' => huntry.not_floating hslot' (Finset.mem_insert_self ..)) (Function.update_self ..)
      with ⟨info1, hinfo1, p, rfl⟩
    have hempty : s1.vvNew nUBucket nUBucketPos = none := by rw [hnew1, setSlot_self]
    have hzero : infoOld.nRefCount = 0 := hold.refs_of_tried hin
    have hadd := hcore1.addRef hinfo1 rfl (Nat.mod_lt _ (by decide)) (b := nUBucket) (i := nUBucketPos)
      (by rw [hspares1.nKey]; rfl) hempty (by rw [hzero]; decide)
    rw [Finset.erase_insert hnotFloating] at hadd
    have hshift := hadd.shift 1
    rw [Int.sub_add_cancel] at hshift
    refine ⟨_, _, _, ?_, hshift, hspares1.nKey, ?_, fun nId info hfloating hinfo' => ?_⟩
    · rw [evict_some hslot hinfo, hclear, Option.bind_some, hempty, Option.isSome_none,
        if_neg Bool.false_ne_true, hinfo1, Option.bind_some]
      simp only [hzero]
      rfl
    · show s1.vvTried b i = none
      rw [hspares1.vvTried]
      exact setSlot_self ..
    · have hne : nId ≠ nIdEvict := fun heq => hnotFloating (heq ▸ hfloating)
      rcases hspares1.mapInfo nId info
        (fun hslot' => huntry.not_floating hslot' (Finset.mem_insert_of_mem hfloating))
        ((Function.update_of_ne hne ..).trans hinfo') with ⟨info', hinfo', hmoved⟩
      exact ⟨info', (Function.update_of_ne hne ..).trans hinfo', hmoved⟩

theorem makeTried_eq (hs' : (List.range addrmanNewBucketCount).foldl (clearBucket env nId) s = s')
    (hinfo : s'.mapInfo nId = some info) (hzero : info.nRefCount = 0) :
    s.makeTried env nId =
      (evict env { s' with nNew := s'.nNew - 1 } (info.getTriedBucket env s'.nKey)
        (info.getBucketPosition env s'.nKey false (info.getTriedBucket env s'.nKey))).bind fun s1 =>
          if (s1.vvTried (info.getTriedBucket env s'.nKey)
              (info.getBucketPosition env s'.nKey false (info.getTriedBucket env s'.nKey))).isSome then none
          else (s1.mapInfo nId).bind fun info1 =>
            some (setInfo { s1.setTried (info.getTriedBucket env s'.nKey)
              (info.getBucketPosition env s'.nKey false (info.getTriedBucket env s'.nKey)) (some nId) with
                nTried := s1.nTried + 1 } nId { info1 with fInTried := true }) := by
  unfold makeTried
  simp only [hs', hinfo, Option.bind_eq_bind, Option.bind_some, hzero, ne_eq, not_true_eq_false, if_false]
  rfl

/-- The assertions of `MakeTried` hold for a new entry that has been connected to. -/
theorem Core.makeTried (h : Core env triedIds newIds ∅ 0 s) (hinfo : s.mapInfo nId = some info)
    (hin : info.fInTried = false) (hsuccess : info.nLastSuccess ≠ 0) :
    ∃ s' triedIds' newIds', s.makeTried env nId = some s' ∧ Core env triedIds' newIds' ∅ 0 s' := by
  rcases h.clearBuckets hinfo hin with ⟨hinfo1, hcore1⟩
  generalize hs1 : (List.range addrmanNewBucketCount).foldl (CAddrMan.clearBucket env nId) s = s1 at hinfo1 hcore1
  have hcore2 : Core env triedIds newIds (insert nId ∅) (-1) { s1 with nNew := s1.nNew - 1 } := by
    have hshift := hcore1.shift (-1)
    rwa [Int.zero_add, ← Int.sub_eq_add_neg] at hshift
  let nKBucket := info.getTriedBucket env s1.nKey
  rcases hcore2.evict nKBucket (info.getBucketPosition env s1.nKey false nKBucket)
    with ⟨s2, triedIds2, newIds2, hevict, hcore3, hkey, hslot, hspares⟩
  have hmem : nId ∈ insert nId (∅ : Finset Nat) := Finset.mem_insert_self ..
  rcases hspares nId _ hmem hinfo1 with ⟨info2, hinfo2, p, rfl⟩
  have htried := hcore3.enterTried hinfo2 hmem (by rw [hkey]; exact hslot) hsuccess
  rw [Finset.erase_insert (Finset.notMem_empty nId), hkey] at htried
  refine ⟨_, _, _, ?_, htried⟩
  rw [makeTried_eq hs1 hinfo1 rfl]
  show Option.bind (CAddrMan.evict env _ nKBucket (info.getBucketPosition env s1.nKey false nKBucket)) _ = _
  rw [hevict, Option.bind_some]
  show (if (s2.vvTried nKBucket (info.getBucketPosition env s1.nKey false nKBucket)).isSome = true then _ else _) = _
  rw [hslot, Option.isSome_none, if_neg Bool.false_ne_true, hinfo2, Option.bind_some]
  rfl

end CAddrMan

end Dobbscoin
