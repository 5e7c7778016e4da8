import Dobbscoin.Lib.Guard
import Dobbscoin.Net.AddrRuns
import Mathlib.Data.List.AList
import Mathlib.Data.Set.Card

/-!
# `CAddrMan::Check_`

The consistency check of the address manager, and what a state has to be for it to find nothing.
-/

namespace Dobbscoin

open Guard

namespace CAddrMan

/-! ## The check -/

/-- What the loop over `mapInfo` collects. -/
structure CheckSets where
  setTried : Finset Nat
  mapNew : AList fun _ : Nat => Int

/-- One round of the loop over `mapInfo`. -/
def checkEntry (s : CAddrMan) (sets : CheckSets) (n : Nat) : Except Int CheckSets :=
  match s.mapInfo n with
  | none => pure sets
  | some info => do
    let sets ← (if info.fInTried then do
        rejectIf (info.nLastSuccess = 0) (-1)
        rejectIf (info.nRefCount ≠ 0) (-2)
        pure { sets with setTried := insert n sets.setTried }
      else do
        rejectIf (info.nRefCount < 0 ∨ info.nRefCount > addrmanNewBucketsPerAddress) (-3)
        rejectIf (info.nRefCount = 0) (-4)
        pure { sets with mapNew := sets.mapNew.insert n info.nRefCount })
    -- An address that `mapAddr` does not have reads as 0.
    rejectIf ((s.mapAddr info.ip).getD 0 ≠ n) (-5)
    rejectIf (s.vRandom[info.nRandomPos]? ≠ some n) (-14)
    rejectIf (info.addr.nLastTry < 0) (-6)
    rejectIf (info.nLastSuccess < 0) (-8)
    pure sets

/-- One place of the tried table. -/
def checkTriedSlot (env : AddrEnv) (s : CAddrMan) (setTried : Finset Nat) (slot : Nat × Nat) :
    Except Int (Finset Nat) :=
  match s.vvTried slot.1 slot.2 with
  | none => pure setTried
  | some nId => do
    rejectIf (nId ∉ setTried) (-11)
    let info := (s.mapInfo nId).getD .default
    rejectIf (info.getTriedBucket env s.nKey ≠ slot.1) (-17)
    rejectIf (info.getBucketPosition env s.nKey false slot.1 ≠ slot.2) (-18)
    pure (setTried.erase nId)

/-- One place of the new table. -/
def checkNewSlot (env : AddrEnv) (s : CAddrMan) (mapNew : AList fun _ : Nat => Int) (slot : Nat × Nat) :
    Except Int (AList fun _ : Nat => Int) :=
  match s.vvNew slot.1 slot.2 with
  | none => pure mapNew
  | some nId =>
    match mapNew.lookup nId with
    | none => throw (-12)
    | some nRefs => do
      let info := (s.mapInfo nId).getD .default
      rejectIf (info.getBucketPosition env s.nKey true slot.1 ≠ slot.2) (-19)
      pure (if nRefs - 1 = 0 then mapNew.erase nId else mapNew.insert nId (nRefs - 1))

/-- The places of a table, bucket after bucket. -/
def slots (nBuckets : Nat) : List (Nat × Nat) :=
  List.range nBuckets ×ˢ List.range addrmanBucketSize

/-- `Check_`; an error is the code that it returns. -/
def check (env : AddrEnv) (s : CAddrMan) : Except Int Unit := do
  rejectIf ((s.vRandom.length : Int) ≠ s.nTried + s.nNew) (-7)
  let sets ← (List.range s.nIdCount).foldlM s.checkEntry ⟨∅, ∅⟩
  rejectIf ((sets.setTried.card : Int) ≠ s.nTried) (-9)
  rejectIf ((sets.mapNew.keys.length : Int) ≠ s.nNew) (-10)
  let setTried ← (slots addrmanTriedBucketCount).foldlM (s.checkTriedSlot env) sets.setTried
  let mapNew ← (slots addrmanNewBucketCount).foldlM (s.checkNewSlot env) sets.mapNew
  rejectIf (setTried.card ≠ 0) (-13)
  rejectIf (mapNew.keys.length ≠ 0) (-15)
  rejectIf (s.nKey = 0) (-16)

variable {env : AddrEnv} {triedIds newIds floating : Finset Nat} {e : Int} {s : CAddrMan} {nId : Nat}
  {info : CAddrInfo}

/-! ## The loop over `mapInfo` -/

/-- What the loop has collected of the ids done so far. -/
def Collected (s : CAddrMan) (triedIds newIds : Finset Nat) (done : List Nat) (sets : CheckSets) : Prop :=
  (∀ nId, nId ∈ sets.setTried ↔ nId ∈ done ∧ nId ∈ triedIds) ∧
    ∀ nId nRefs, sets.mapNew.lookup nId = some nRefs ↔
      nId ∈ done ∧ nId ∈ newIds ∧ ∃ info, s.mapInfo nId = some info ∧ info.nRefCount = nRefs

/-- One more element that lacks a property. -/
theorem mem_concat_and {α : Type*} {P : α → Prop} {done : List α} {a : α} (h : ¬P a) (a' : α) :
    a' ∈ done ++ [a] ∧ P a' ↔ a' ∈ done ∧ P a' := by
  rw [List.mem_append, List.mem_singleton]
  constructor
  · rintro ⟨hdone | rfl, hP⟩
    · exact ⟨hdone, hP⟩
    · exact absurd hP h
  · exact fun h' => ⟨.inl h'.1, h'.2⟩

theorem Core.checkEntry (h : Core env triedIds newIds ∅ 0 s) {done : List Nat} {n : Nat} {sets : CheckSets}
    (hsets : Collected s triedIds newIds done sets) :
    ∃ sets', s.checkEntry sets n = .ok sets' ∧ Collected s triedIds newIds (done ++ [n]) sets' := by
  rcases hsets with ⟨htried, hnew⟩
  unfold CAddrMan.checkEntry
  cases hinfo : s.mapInfo n with
  | none =>
    rcases h.unknown n hinfo with ⟨hnotTried, hnotNew, -, -⟩
    refine ⟨sets, rfl, fun nId => ?_, fun nId nRefs => ?_⟩
    · rw [htried, mem_concat_and hnotTried]
    · rw [hnew, mem_concat_and (P := fun nId => nId ∈ newIds ∧ _) (not_and_of_not_left _ hnotNew)]
  | some info =>
    have hentry := h.entries n info hinfo
    have haddr : (s.mapAddr info.ip).getD 0 = n := by
      rw [(h.indexed.addr info.ip n).2 ⟨info, hinfo, rfl⟩, Option.getD_some]
    have hat := h.indexed.random n info hinfo
    have htry := not_lt.2 hentry.lastTry
    have hsuccess := not_lt.2 hentry.lastSuccess
    cases hin : info.fInTried with
    | true =>
      have hmem : n ∈ triedIds := hentry.tried.2 hin
      have hnotMem : n ∉ newIds := fun hmem' => by
        rw [hentry.new, hin] at hmem'
        cases hmem'
      refine ⟨{ sets with setTried := insert n sets.setTried }, ?_, fun nId => ?_, fun nId nRefs => ?_⟩
      · simp [rejectIf, hin, haddr, hat, htry, hsuccess, hentry.succeeded hin, hentry.refs_of_tried hin, bind, Except.bind,
          pure, Except.pure]
      · rw [Finset.mem_insert, htried, List.mem_append, List.mem_singleton]
        constructor
        · rintro (rfl | hin')
          · exact ⟨.inr rfl, hmem⟩
          · exact ⟨.inl hin'.1, hin'.2⟩
        · rintro ⟨hdone | rfl, hin'⟩
          · exact .inr ⟨hdone, hin'⟩
          · exact .inl rfl
      · rw [hnew, mem_concat_and (P := fun nId => nId ∈ newIds ∧ _) (not_and_of_not_left _ hnotMem)]
    | false =>
      have hmem : n ∈ newIds := hentry.new.2 hin
      have hnotMem : n ∉ triedIds := fun hmem' => by
        rw [hentry.tried, hin] at hmem'
        cases hmem'
      have hzero : info.nRefCount ≠ 0 := fun hzero =>
        Finset.notMem_empty n (hentry.floating.2 ⟨hin, hzero⟩)
      have hrange : ¬(info.nRefCount < 0 ∨ info.nRefCount > addrmanNewBucketsPerAddress) := by
        have hnonneg : 0 ≤ info.nRefCount := by
          rw [hentry.refCount]
          exact Int.natCast_nonneg _
        exact not_or.2 ⟨not_lt.2 hnonneg, not_lt.2 hentry.refCount_le⟩
      refine ⟨{ sets with mapNew := sets.mapNew.insert n info.nRefCount }, ?_, fun nId => ?_, fun nId nRefs => ?_⟩
      · simp only [hin, Bool.false_eq_true, if_false, rejectIf_of_not _ hrange, rejectIf_of_not _ hzero]
        simp [rejectIf, haddr, hat, htry, hsuccess, bind, Except.bind, pure, Except.pure]
      · rw [htried, mem_concat_and hnotMem]
      · rw [List.mem_append, List.mem_singleton]
        by_cases heq : nId = n
        · subst heq
          rw [AList.lookup_insert, Option.some.injEq]
          constructor
          · exact fun hcount => ⟨.inr rfl, hmem, info, hinfo, hcount⟩
          · rintro ⟨-, -, info', hinfo', hcount⟩
            rw [hinfo] at hinfo'
            rwa [Option.some.inj hinfo']
        · rw [AList.lookup_insert_ne heq, hnew]
          simp [heq]

theorem Core.lt_nIdCount (h : Core env triedIds newIds floating e s) (hin : nId ∈ triedIds ∨ nId ∈ newIds) :
    nId < s.nIdCount ∧ ∃ info, s.mapInfo nId = some info := by
  cases hinfo : s.mapInfo nId with
  | none =>
    rcases h.unknown nId hinfo with ⟨hnotTried, hnotNew, -⟩
    exact absurd hin (not_or.2 ⟨hnotTried, hnotNew⟩)
  | some info => exact ⟨h.indexed.bounded nId info hinfo, info, rfl⟩

/-- At the end of the loop all entries are collected. -/
theorem Core.checkEntries (h : Core env triedIds newIds ∅ 0 s) :
    ∃ sets, (List.range s.nIdCount).foldlM s.checkEntry ⟨∅, ∅⟩ = .ok sets ∧ sets.setTried = triedIds ∧
      ∀ nId nRefs, sets.mapNew.lookup nId = some nRefs ↔
        nId ∈ newIds ∧ ∃ info, s.mapInfo nId = some info ∧ info.nRefCount = nRefs := by
  have hstart : Collected s triedIds newIds [] ⟨∅, ∅⟩ := by
    refine ⟨fun nId => ?_, fun nId nRefs => ?_⟩
    · simp
    · simp
  rcases foldlM_ok (Collected s triedIds newIds) hstart (l := List.range s.nIdCount)
    (fun _ _ _ _ _ hsets => h.checkEntry hsets) with ⟨sets, hloop, htried, hnew⟩
  refine ⟨sets, hloop, ?_, fun nId nRefs => ?_⟩
  · ext nId
    rw [htried, List.mem_range]
    exact ⟨fun hin => hin.2, fun hin => ⟨(h.lt_nIdCount (.inl hin)).1, hin⟩⟩
  · rw [hnew, List.mem_range]
    exact ⟨fun hin => hin.2, fun hin => ⟨(h.lt_nIdCount (.inr hin.1)).1, hin⟩⟩

/-! ## The loops over the buckets -/

theorem slots_nodup (nBuckets : Nat) : (slots nBuckets).Nodup :=
  List.nodup_range.product List.nodup_range

theorem mem_slots {nBuckets b i : Nat} : (b, i) ∈ slots nBuckets ↔ b < nBuckets ∧ i < addrmanBucketSize := by
  rw [slots, List.mem_product, List.mem_range, List.mem_range]

theorem Core.checkTriedSlot (h : Core env triedIds newIds ∅ 0 s) {done : List (Nat × Nat)} {slot : Nat × Nat}
    {setTried : Finset Nat}
    (hset : ∀ nId, nId ∈ setTried ↔ nId ∈ triedIds ∧ ∀ slot' ∈ done, s.vvTried slot'.1 slot'.2 ≠ some nId)
    (hfresh : slot ∉ done) :
    ∃ setTried', s.checkTriedSlot env setTried slot = .ok setTried' ∧ ∀ nId, nId ∈ setTried' ↔
      nId ∈ triedIds ∧ ∀ slot' ∈ done ++ [slot], s.vvTried slot'.1 slot'.2 ≠ some nId := by
  unfold CAddrMan.checkTriedSlot
  cases hslot : s.vvTried slot.1 slot.2 with
  | none =>
    refine ⟨setTried, rfl, fun nId => ?_⟩
    rw [hset, List.forall_mem_append]
    simp [hslot]
  | some nId =>
    rcases h.tried_known hslot with ⟨info, hinfo⟩
    have hentry := h.entries nId info hinfo
    rcases (hentry.triedAt _ _).1 hslot with ⟨hin, hbucket, hpos⟩
    -- The place of an entry is determined, so that none of the places before held it.
    have hmem : nId ∈ setTried := by
      refine (hset nId).2 ⟨hentry.tried.2 hin, fun slot' hslot' hheld => hfresh ?_⟩
      rcases (hentry.triedAt _ _).1 hheld with ⟨-, hbucket', hpos'⟩
      have hb : slot'.1 = slot.1 := hbucket'.trans hbucket.symm
      have hi : slot'.2 = slot.2 := by rw [hpos', hpos, hb]
      rwa [← Prod.ext hb hi]
    refine ⟨setTried.erase nId, ?_, fun nId' => ?_⟩
    · simp [rejectIf, hmem, hinfo, ← hbucket, ← hpos, bind, Except.bind, pure, Except.pure]
    · rw [Finset.mem_erase, hset, List.forall_mem_append]
      simp only [List.mem_singleton, forall_eq, hslot, ne_eq, Option.some.injEq]
      constructor
      · exact fun hin' => ⟨hin'.2.1, hin'.2.2, fun heq => hin'.1 heq.symm⟩
      · exact fun hin' => ⟨fun heq => hin'.2.2 heq.symm, hin'.1, hin'.2.1⟩

/-- Every tried entry is found in its place. -/
theorem Core.checkTriedSlots (h : Core env triedIds newIds ∅ 0 s) :
    (slots addrmanTriedBucketCount).foldlM (s.checkTriedSlot env) triedIds = .ok ∅ := by
  rcases foldlM_ok (fun done (setTried : Finset Nat) => ∀ nId, nId ∈ setTried ↔
      nId ∈ triedIds ∧ ∀ slot ∈ done, s.vvTried slot.1 slot.2 ≠ some nId)
    (l := slots addrmanTriedBucketCount) (b := triedIds) (by simp)
    (fun done slot rest setTried hslots hset => by
      have hnodup := slots_nodup addrmanTriedBucketCount
      rw [hslots] at hnodup
      exact h.checkTriedSlot hset fun hin =>
        (List.nodup_append.1 hnodup).2.2 slot hin slot (List.mem_cons_self ..) rfl)
    with ⟨setTried, hloop, hset⟩
  have hempty : setTried = ∅ := by
    refine Finset.eq_empty_of_forall_notMem fun nId hin => ?_
    rcases (hset nId).1 hin with ⟨htried, hheld⟩
    rcases (h.lt_nIdCount (.inl htried)).2 with ⟨info, hinfo⟩
    have hentry := h.entries nId info hinfo
    exact hheld (info.getTriedBucket env s.nKey, info.getBucketPosition env s.nKey false (info.getTriedBucket env s.nKey))
      (mem_slots.2 ⟨Nat.mod_lt _ (by decide), Nat.mod_lt _ (by decide)⟩)
      ((hentry.triedAt _ _).2 ⟨hentry.tried.1 htried, rfl, rfl⟩)
  rw [hloop, hempty]

/-- An entry has as many places in the new table as it counts. -/
theorem Core.countP_slots (h : Core env triedIds newIds floating e s) (hinfo : s.mapInfo nId = some info) :
    (((slots addrmanNewBucketCount).countP fun slot => decide (s.vvNew slot.1 slot.2 = some nId) : Nat) : Int) =
      info.nRefCount := by
  have hentry := h.entries nId info hinfo
  have hfilter : ((slots addrmanNewBucketCount).filter fun slot => decide (s.vvNew slot.1 slot.2 = some nId)).toFinset =
      (s.refs env nId info).image fun b => (b, info.getBucketPosition env s.nKey true b) := by
    ext ⟨b, i⟩
    simp only [List.mem_toFinset, List.mem_filter, mem_slots, decide_eq_true_eq, Finset.mem_image, Prod.mk.injEq]
    constructor
    · rintro ⟨-, hslot⟩
      exact ⟨b, h.mem_refs hinfo hslot, rfl, (hentry.newAt b i hslot).2.2.symm⟩
    · rintro ⟨b', hb, rfl, rfl⟩
      rcases Finset.mem_filter.1 hb with ⟨hrange, hslot⟩
      exact ⟨⟨Finset.mem_range.1 hrange, Nat.mod_lt _ (by decide)⟩, hslot⟩
  rw [hentry.refCount, List.countP_eq_length_filter, ← List.toFinset_card_of_nodup ((slots_nodup _).filter _), hfilter,
    Finset.card_image_of_injective _ fun b b' heq => (Prod.mk.inj heq).1]

/-- What is left to be found of the entries of `mapNew`, when some places have been seen. -/
def LeftOver (s : CAddrMan) (newIds : Finset Nat) (done : List (Nat × Nat)) (mapNew : AList fun _ : Nat => Int) : Prop :=
  ∀ nId nRefs, mapNew.lookup nId = some nRefs ↔ nId ∈ newIds ∧ 0 < nRefs ∧ ∃ info, s.mapInfo nId = some info ∧
    nRefs = info.nRefCount - (done.countP fun slot => decide (s.vvNew slot.1 slot.2 = some nId) : Nat)

theorem Core.checkNewSlot (h : Core env triedIds newIds ∅ 0 s) {done rest : List (Nat × Nat)} {slot : Nat × Nat}
    (hslots : slots addrmanNewBucketCount = done ++ slot :: rest) {mapNew : AList fun _ : Nat => Int}
    (hmap : LeftOver s newIds done mapNew) :
    ∃ mapNew', s.checkNewSlot env mapNew slot = .ok mapNew' ∧ LeftOver s newIds (done ++ [slot]) mapNew' := by
  unfold CAddrMan.checkNewSlot
  cases hslot : s.vvNew slot.1 slot.2 with
  | none =>
    refine ⟨mapNew, rfl, fun nId nRefs => ?_⟩
    rw [hmap, List.countP_append, List.countP_singleton, hslot]
    simp
  | some nId =>
    rcases h.new_known hslot with ⟨info, hinfo⟩
    have hentry := h.entries nId info hinfo
    rcases hentry.newAt _ _ hslot with ⟨-, hin, hpos⟩
    have hmem : nId ∈ newIds := hentry.new.2 hin
    let left : Int := info.nRefCount - (done.countP fun slot => decide (s.vvNew slot.1 slot.2 = some nId) : Nat)
    -- This place is counted, and was not among those before it.
    have hleft : 0 < left := by
      have hcount := h.countP_slots hinfo
      rw [hslots, List.countP_append, List.countP_cons, if_pos (decide_eq_true hslot)] at hcount
      show 0 < info.nRefCount - _
      omega
    have hlookup : mapNew.lookup nId = some left := (hmap nId left).2 ⟨hmem, hleft, info, hinfo, rfl⟩
    have hother : ∀ nId', nId' ≠ nId → decide (s.vvNew slot.1 slot.2 = some nId') = false := fun nId' hne => by
      simp [hslot, Ne.symm hne]
    have hself : ((done ++ [slot]).countP fun slot => decide (s.vvNew slot.1 slot.2 = some nId)) =
        (done.countP fun slot => decide (s.vvNew slot.1 slot.2 = some nId)) + 1 := by
      rw [List.countP_append, List.countP_singleton, if_pos (decide_eq_true hslot)]
    refine ⟨if left - 1 = 0 then mapNew.erase nId else mapNew.insert nId (left - 1), ?_, fun nId' nRefs => ?_⟩
    · simp [hlookup, rejectIf, hinfo, ← hpos, bind, Except.bind, pure, Except.pure]
    · by_cases heq : nId' = nId
      · subst heq
        rw [hself]
        constructor
        · split_ifs with hlast
          · rw [AList.lookup_erase]
            exact fun hnone => by cases hnone
          · rw [AList.lookup_insert, Option.some.injEq]
            intro heq
            refine ⟨hmem, by omega, info, hinfo, ?_⟩
            rw [← heq]
            show info.nRefCount - _ - 1 = _
            push_cast
            omega
        · rintro ⟨-, hpositive, info', hinfo', heq⟩
          rw [hinfo] at hinfo'
          obtain rfl := Option.some.inj hinfo'
          have hless : nRefs = left - 1 := by
            rw [heq]
            show _ = info.nRefCount - _ - 1
            push_cast
            omega
          rw [if_neg (by omega), AList.lookup_insert, hless]
      · have hkept : (if left - 1 = 0 then mapNew.erase nId else mapNew.insert nId (left - 1)).lookup nId' =
            mapNew.lookup nId' := by
          split_ifs
          · exact AList.lookup_erase_ne heq
          · exact AList.lookup_insert_ne heq
        rw [hkept, hmap, List.countP_append, List.countP_singleton, if_neg (by rw [hother nId' heq]; exact Bool.false_ne_true),
          Nat.add_zero]

theorem keys_of_lookup {m : AList fun _ : Nat => Int} {ids : Finset Nat}
    (h : ∀ nId, (∃ nRefs, m.lookup nId = some nRefs) ↔ nId ∈ ids) : m.keys.length = ids.card := by
  have hkeys : m.keys.toFinset = ids := by
    ext nId
    rw [List.mem_toFinset, ← AList.mem_keys, ← AList.lookup_isSome, Option.isSome_iff_exists, h]
  rw [← hkeys, List.toFinset_card_of_nodup m.keys_nodup]

/-- Every reference of an entry is found. -/
theorem Core.checkNewSlots (h : Core env triedIds newIds ∅ 0 s) {mapNew : AList fun _ : Nat => Int}
    (hmap : ∀ nId nRefs, mapNew.lookup nId = some nRefs ↔
      nId ∈ newIds ∧ ∃ info, s.mapInfo nId = some info ∧ info.nRefCount = nRefs) :
    ∃ mapNew', (slots addrmanNewBucketCount).foldlM (s.checkNewSlot env) mapNew = .ok mapNew' ∧
      mapNew'.keys.length = 0 := by
  have hstart : LeftOver s newIds [] mapNew := by
    intro nId nRefs
    rw [hmap]
    constructor
    · rintro ⟨hin, info, hinfo, rfl⟩
      have hentry := h.entries nId info hinfo
      have hne : info.nRefCount ≠ 0 := fun hzero =>
        Finset.notMem_empty nId (hentry.floating.2 ⟨hentry.new.1 hin, hzero⟩)
      have hnonneg : 0 ≤ info.nRefCount := by
        rw [hentry.refCount]
        exact Int.natCast_nonneg _
      exact ⟨hin, lt_of_le_of_ne hnonneg hne.symm, info, hinfo, by simp⟩
    · rintro ⟨hin, -, info, hinfo, heq⟩
      exact ⟨hin, info, hinfo, by simpa using heq.symm⟩
  rcases foldlM_ok (LeftOver s newIds) hstart (fun done slot rest map hslots hleft => h.checkNewSlot hslots hleft)
    with ⟨mapNew', hloop, hleft⟩
  refine ⟨mapNew', hloop, ?_⟩
  refine (keys_of_lookup fun nId => ?_).trans Finset.card_empty
  constructor
  · rintro ⟨nRefs, hlookup⟩
    rcases (hleft nId nRefs).1 hlookup with ⟨-, hpositive, info, hinfo, heq⟩
    rw [h.countP_slots hinfo] at heq
    omega
  · exact fun hin => absurd hin (Finset.notMem_empty nId)

/-- The addresses of `vRandom` are those of the two tables. -/
theorem Core.length_vRandom (h : Core env triedIds newIds ∅ 0 s) : (s.vRandom.length : Int) = s.nTried + s.nNew := by
  have hnodup : s.vRandom.Nodup := by
    refine List.nodup_iff_injective_get.2 fun n m heq => ?_
    rcases h.indexed.listed n _ (List.getElem?_eq_getElem n.2) with ⟨info, hinfo, hn⟩
    rcases h.indexed.listed m _ (List.getElem?_eq_getElem m.2) with ⟨info', hinfo', hm⟩
    have hsame : s.mapInfo s.vRandom[(n : Nat)] = s.mapInfo s.vRandom[(m : Nat)] := congrArg s.mapInfo heq
    rw [hinfo, hinfo'] at hsame
    rw [Option.some.inj hsame] at hn
    exact Fin.ext (hn.symm.trans hm)
  have hids : s.vRandom.toFinset = triedIds ∪ newIds := by
    ext nId
    rw [List.mem_toFinset, Finset.mem_union]
    constructor
    · intro hlisted
      rcases List.mem_iff_getElem?.1 hlisted with ⟨n, hn⟩
      rcases h.indexed.listed n nId hn with ⟨info, hinfo, -⟩
      have hentry := h.entries nId info hinfo
      rw [hentry.tried, hentry.new]
      exact (Bool.eq_false_or_eq_true info.fInTried)
    · intro hin
      rcases (h.lt_nIdCount hin).2 with ⟨info, hinfo⟩
      exact List.mem_of_getElem? (h.indexed.random nId info hinfo)
  have hdisjoint : Disjoint triedIds newIds := by
    refine Finset.disjoint_left.2 fun nId htried hnew => ?_
    rcases (h.lt_nIdCount (.inl htried)).2 with ⟨info, hinfo⟩
    have hentry := h.entries nId info hinfo
    rw [hentry.new, hentry.tried.1 htried] at hnew
    cases hnew
  rw [h.nTried, h.nNew, ← List.toFinset_card_of_nodup hnodup, hids, Finset.card_union_of_disjoint hdisjoint]
  push_cast
  omega

/-- `Check_` finds nothing. -/
theorem Sound.check (h : Sound env s) : s.check env = .ok () := by
  rcases h with ⟨triedIds, newIds, h⟩
  rcases h.checkEntries with ⟨sets, hentries, htried, hnew⟩
  rcases h.checkNewSlots hnew with ⟨mapNew, hslots, hkeys⟩
  have hnNew : ((sets.mapNew.keys.length : Nat) : Int) = s.nNew := by
    rw [h.nNew, Int.add_zero, keys_of_lookup fun nId => ?_]
    constructor
    · rintro ⟨nRefs, hlookup⟩
      exact ((hnew nId nRefs).1 hlookup).1
    · intro hin
      rcases (h.lt_nIdCount (.inr hin)).2 with ⟨info, hinfo⟩
      exact ⟨info.nRefCount, (hnew nId _).2 ⟨hin, info, hinfo, rfl⟩⟩
  unfold CAddrMan.check
  rw [rejectIf_of_not _ (not_not.2 h.length_vRandom), hentries]
  simp only [bind, Except.bind, htried, h.checkTriedSlots, hslots, rejectIf_of_not _ (not_not.2 h.nTried.symm),
    rejectIf_of_not _ (not_not.2 hnNew), rejectIf_of_not _ (not_not.2 hkeys), rejectIf_of_not _ h.key,
    rejectIf_of_not _ (not_not.2 Finset.card_empty)]

/-! ## Consistent states -/

/-- The indexes and the two tables say the same. -/
structure Consistent (env : AddrEnv) (s : CAddrMan) : Prop where
  key : s.nKey ≠ 0
  bounded : ∀ nId info, s.mapInfo nId = some info → nId < s.nIdCount
  random : ∀ nId info, s.mapInfo nId = some info → s.vRandom[info.nRandomPos]? = some nId
  listed : ∀ n nId, s.vRandom[n]? = some nId → ∃ info, s.mapInfo nId = some info ∧ info.nRandomPos = n
  addr : ∀ ip nId, s.mapAddr ip = some nId ↔ ∃ info, s.mapInfo nId = some info ∧ info.ip = ip
  lastTry : ∀ nId info, s.mapInfo nId = some info → 0 ≤ info.addr.nLastTry
  lastSuccess : ∀ nId info, s.mapInfo nId = some info → 0 ≤ info.nLastSuccess
  /-- A tried entry has been connected to, and is in its place of the tried table and nowhere else. -/
  tried : ∀ nId info, s.mapInfo nId = some info → info.fInTried = true → info.nLastSuccess ≠ 0 ∧ info.nRefCount = 0 ∧
    ∀ b i, s.vvTried b i = some nId ↔
      b = info.getTriedBucket env s.nKey ∧ i = info.getBucketPosition env s.nKey false b
  /-- Any other entry has between one and eight places, and counts them. -/
  new : ∀ nId info, s.mapInfo nId = some info → info.fInTried = false →
    1 ≤ info.nRefCount ∧ info.nRefCount ≤ addrmanNewBucketsPerAddress ∧
    info.nRefCount = {slot : Nat × Nat | s.vvNew slot.1 slot.2 = some nId}.ncard
  triedSlot : ∀ b i nId, s.vvTried b i = some nId → ∃ info, s.mapInfo nId = some info ∧ info.fInTried = true
  newSlot : ∀ b i nId, s.vvNew b i = some nId → ∃ info, s.mapInfo nId = some info ∧ info.fInTried = false ∧
    b < addrmanNewBucketCount ∧ i = info.getBucketPosition env s.nKey true b
  nTried : s.nTried = {nId | ∃ info, s.mapInfo nId = some info ∧ info.fInTried = true}.ncard
  nNew : s.nNew = {nId | ∃ info, s.mapInfo nId = some info ∧ info.fInTried = false}.ncard

/-- The places of an entry, as many as the buckets that refer to it. -/
theorem ncard_slots (hat : ∀ b i, s.vvNew b i = some nId →
      b < addrmanNewBucketCount ∧ i = info.getBucketPosition env s.nKey true b) :
    {slot : Nat × Nat | s.vvNew slot.1 slot.2 = some nId}.ncard = (s.refs env nId info).card := by
  have himage : {slot : Nat × Nat | s.vvNew slot.1 slot.2 = some nId} =
      ((s.refs env nId info).image fun b => (b, info.getBucketPosition env s.nKey true b) : Finset (Nat × Nat)) := by
    ext ⟨b, i⟩
    simp only [Set.mem_ofPred_eq, Finset.coe_image, Set.mem_image, Finset.mem_coe, Prod.mk.injEq]
    constructor
    · intro hslot
      rcases hat b i hslot with ⟨hb, rfl⟩
      exact ⟨b, Finset.mem_filter.2 ⟨Finset.mem_range.2 hb, hslot⟩, rfl, rfl⟩
    · rintro ⟨b', hb, rfl, rfl⟩
      exact (Finset.mem_filter.1 hb).2
  rw [himage, Set.ncard_coe_finset, Finset.card_image_of_injective _ fun b b' heq => (Prod.mk.inj heq).1]

theorem Sound.consistent (h : Sound env s) : Consistent env s := by
  rcases h with ⟨triedIds, newIds, h⟩
  have htriedIds : {nId | ∃ info, s.mapInfo nId = some info ∧ info.fInTried = true} = (triedIds : Set Nat) := by
    ext nId
    constructor
    · rintro ⟨info, hinfo, hin⟩
      exact (h.entries nId info hinfo).tried.2 hin
    · intro hin
      rcases (h.lt_nIdCount (.inl hin)).2 with ⟨info, hinfo⟩
      exact ⟨info, hinfo, (h.entries nId info hinfo).tried.1 hin⟩
  have hnewIds : {nId | ∃ info, s.mapInfo nId = some info ∧ info.fInTried = false} = (newIds : Set Nat) := by
    ext nId
    constructor
    · rintro ⟨info, hinfo, hin⟩
      exact (h.entries nId info hinfo).new.2 hin
    · intro hin
      rcases (h.lt_nIdCount (.inr hin)).2 with ⟨info, hinfo⟩
      exact ⟨info, hinfo, (h.entries nId info hinfo).new.1 hin⟩
  refine ⟨h.key, h.indexed.bounded, h.indexed.random, h.indexed.listed, h.indexed.addr,
    fun nId info hinfo => (h.entries nId info hinfo).lastTry, fun nId info hinfo => (h.entries nId info hinfo).lastSuccess,
    ?_, ?_, ?_, ?_, ?_, ?_⟩
  · intro nId info hinfo hin
    have hentry := h.entries nId info hinfo
    refine ⟨hentry.succeeded hin, hentry.refs_of_tried hin, fun b i => ?_⟩
    rw [hentry.triedAt b i]
    constructor
    · rintro ⟨-, rfl, rfl⟩
      exact ⟨rfl, rfl⟩
    · rintro ⟨rfl, rfl⟩
      exact ⟨hin, rfl, rfl⟩
  · intro nId info hinfo hin
    have hentry := h.entries nId info hinfo
    have hcount := ncard_slots fun b i hslot => ⟨(hentry.newAt b i hslot).1, (hentry.newAt b i hslot).2.2⟩
    have hne : info.nRefCount ≠ 0 := fun hzero => Finset.notMem_empty nId (hentry.floating.2 ⟨hin, hzero⟩)
    refine ⟨?_, hentry.refCount_le, by rw [hcount, hentry.refCount]⟩
    have hrefCount := hentry.refCount
    omega
  · intro b i nId hslot
    rcases h.tried_known hslot with ⟨info, hinfo⟩
    exact ⟨info, hinfo, (((h.entries nId info hinfo).triedAt b i).1 hslot).1⟩
  · intro b i nId hslot
    rcases h.new_known hslot with ⟨info, hinfo⟩
    rcases (h.entries nId info hinfo).newAt b i hslot with ⟨hb, hin, hi⟩
    exact ⟨info, hinfo, hin, hb, hi⟩
  · rw [h.nTried, htriedIds, Set.ncard_coe_finset]
  · rw [h.nNew, hnewIds, Set.ncard_coe_finset, Int.add_zero]

/-- The ids of the entries that are tried, and of those that are not. -/
def idsOf (s : CAddrMan) (fInTried : Bool) : Finset Nat :=
  (Finset.range s.nIdCount).filter fun nId => (s.mapInfo nId).map CAddrInfo.fInTried = some fInTried

theorem Consistent.mem_idsOf (h : Consistent env s) {fInTried : Bool} :
    nId ∈ s.idsOf fInTried ↔ ∃ info, s.mapInfo nId = some info ∧ info.fInTried = fInTried := by
  simp only [idsOf, Finset.mem_filter, Finset.mem_range, Option.map_eq_some_iff]
  exact ⟨fun hin => hin.2, fun ⟨info, hinfo, hin⟩ => ⟨h.bounded nId info hinfo, info, hinfo, hin⟩⟩

theorem Consistent.card_idsOf (h : Consistent env s) (fInTried : Bool) :
    {nId | ∃ info, s.mapInfo nId = some info ∧ info.fInTried = fInTried}.ncard = (s.idsOf fInTried).card := by
  rw [← Set.ncard_coe_finset]
  congr 1
  ext nId
  exact h.mem_idsOf.symm

/-- The tables of a consistent state are those that the operations keep. -/
theorem Consistent.core (h : Consistent env s) : Core env (s.idsOf true) (s.idsOf false) ∅ 0 s := by
  refine ⟨⟨h.bounded, h.random, h.listed, h.addr⟩, ?_, ?_, ?_, ?_, h.key⟩
  · intro nId info hinfo
    have htable : ∀ fInTried, nId ∈ s.idsOf fInTried ↔ info.fInTried = fInTried := by
      intro fInTried
      rw [h.mem_idsOf, hinfo]
      simp
    have hat : ∀ b i, s.vvNew b i = some nId →
        b < addrmanNewBucketCount ∧ info.fInTried = false ∧ i = info.getBucketPosition env s.nKey true b := by
      intro b i hslot
      rcases h.newSlot b i nId hslot with ⟨info', hinfo', hin, hb, hi⟩
      rw [hinfo] at hinfo'
      obtain rfl := Option.some.inj hinfo'
      exact ⟨hb, hin, hi⟩
    have hcount := ncard_slots fun b i hslot => ⟨(hat b i hslot).1, (hat b i hslot).2.2⟩
    have hlastTry := h.lastTry nId info hinfo
    have hlastSuccess := h.lastSuccess nId info hinfo
    cases hin : info.fInTried with
    | true =>
      rcases h.tried nId info hinfo hin with ⟨hsucceeded, hzero, htriedAt⟩
      refine ⟨by rw [htable], by rw [htable], ?_, hat, ?_, ?_, ?_, hlastTry, hlastSuccess, fun _ => hsucceeded⟩
      · intro b i
        rw [htriedAt, hin]
        simp
      · -- No bucket refers to it, since those that do have entries that are not tried.
        have hempty : s.refs env nId info = ∅ := Finset.filter_eq_empty_iff.2 fun b _ hslot => by
          rw [(hat b _ hslot).2.1] at hin
          cases hin
        rw [hzero, hempty]
        rfl
      · rw [hzero]
        exact Int.natCast_nonneg 8
      · simp [hin]
    | false =>
      rcases h.new nId info hinfo hin with ⟨hpos, hle, hrefCount⟩
      refine ⟨by rw [htable], by rw [htable], ?_, hat, by rw [hrefCount, hcount], hle, ?_, hlastTry, hlastSuccess, ?_⟩
      · intro b i
        constructor
        · intro hslot
          rcases h.triedSlot b i nId hslot with ⟨info', hinfo', hin'⟩
          rw [hinfo] at hinfo'
          rw [← Option.some.inj hinfo', hin] at hin'
          cases hin'
        · rintro ⟨hin', -⟩
          rw [hin] at hin'
          cases hin'
      · simp only [Finset.notMem_empty, false_iff, not_and]
        intro _
        omega
      · intro hin'
        rw [hin] at hin'
        cases hin'
  · intro nId hnone
    refine ⟨fun hin => ?_, fun hin => ?_, Finset.notMem_empty nId, fun b i => ⟨fun hslot => ?_, fun hslot => ?_⟩⟩
    · rcases h.mem_idsOf.1 hin with ⟨info, hinfo, -⟩
      rw [hnone] at hinfo
      cases hinfo
    · rcases h.mem_idsOf.1 hin with ⟨info, hinfo, -⟩
      rw [hnone] at hinfo
      cases hinfo
    · rcases h.triedSlot b i nId hslot with ⟨info, hinfo, -⟩
      rw [hnone] at hinfo
      cases hinfo
    · rcases h.newSlot b i nId hslot with ⟨info, hinfo, -⟩
      rw [hnone] at hinfo
      cases hinfo
  · rw [h.nTried, h.card_idsOf]
  · rw [h.nNew, h.card_idsOf, Int.add_zero]

/-! ## Every run -/

/-- From an empty address manager, with times that are set: no assertion fails, `Check_` finds nothing at the end, and
the state is consistent. -/
theorem run_consistent (env : AddrEnv) {nKey : UInt256} (hkey : nKey ≠ 0) (ops : List Op) (hops : ∀ op ∈ ops, op.Timed) :
    ∃ s, (start nKey).run env ops = some s ∧ s.check env = .ok () ∧ Consistent env s := by
  rcases (sound_start env hkey).run ops hops with ⟨s, hrun, hsound⟩
  exact ⟨s, hrun, hsound.check, hsound.consistent⟩

/-- All addresses are routable, and go to one bucket of each table. -/
def oneBucketEnv : AddrEnv where
  triedBucket _ _ := 0
  newBucket _ _ _ := 0
  bucketPosition _ _ _ service := service.port
  isRoutable _ := true

def sampleService : CService := ⟨pchIPv4 ++ [8, 8, 8, 8], 19985⟩

def collidingService : CService := ⟨pchIPv4 ++ [8, 8, 4, 4], 19985⟩

def sampleSource : CNetAddr := pchIPv4 ++ [9, 9, 9, 9]

/-- Two addresses with one place: the second is made tried, and the first takes its place when it is. -/
def sampleOps : List Op :=
  [.add ⟨sampleService, 1, 1400000000, 0⟩ sampleSource 0 1400000000 false,
    .good sampleService 1400000100 0,
    .add ⟨collidingService, 1, 1400000000, 0⟩ sampleSource 0 1400000000 false,
    .attempt collidingService 1400000200,
    .good collidingService 1400000300 7,
    .connected sampleService 1400005000,
    .getAddr 1400005000 fun n => n]

theorem run_consistent_sampleOps :
    ∃ s, (start 1).run oneBucketEnv sampleOps = some s ∧ s.check oneBucketEnv = .ok () ∧ Consistent oneBucketEnv s :=
  run_consistent oneBucketEnv (by decide) sampleOps (by simp [sampleOps, Op.Timed])

/-- An attempt at a time before 1970 is recorded, and `Check_` finds it. -/
theorem attempt_before_epoch :
    ((start 1).run oneBucketEnv
        [.add ⟨sampleService, 1, 1400000000, 0⟩ sampleSource 0 1400000000 false, .attempt sampleService (-1)]).map
      (fun s => s.check oneBucketEnv) = some (.error (-6)) := by
  decide

end CAddrMan

end Dobbscoin
