import Dobbscoin.Net.AddrOps

/-!
# Runs of the address manager

The public operations keep the tables consistent, and none of their assertions fails.
-/

namespace Dobbscoin

namespace CAddrMan

variable {env : AddrEnv} {triedIds newIds floating : Finset Nat} {s s' : CAddrMan} {nId : Nat}
  {info : CAddrInfo}

/-- The tables are consistent, as they are between two operations. -/
def Sound (env : AddrEnv) (s : CAddrMan) : Prop :=
  ∃ triedIds newIds, Core env triedIds newIds ∅ 0 s

theorem sound_start (env : AddrEnv) {nKey : UInt256} (hkey : nKey ≠ 0) : Sound env (start nKey) := by
  refine ⟨∅, ∅, ⟨?_, ?_, ?_, ?_⟩, ?_, ?_, rfl, rfl, hkey⟩
  · exact fun _ _ hinfo => by cases hinfo
  · exact fun _ _ hinfo => by cases hinfo
  · exact fun _ _ hlisted => by cases hlisted
  · intro ip nId
    constructor
    · intro haddr
      cases haddr
    · rintro ⟨info, hinfo, -⟩
      cases hinfo
  · exact fun _ _ hinfo => by cases hinfo
  · exact fun nId _ => ⟨Finset.notMem_empty nId, Finset.notMem_empty nId, Finset.notMem_empty nId,
      fun b i => ⟨(Option.some_ne_none nId).symm, (Option.some_ne_none nId).symm⟩⟩

/-! ## `Find` -/

theorem find_some {addr : CNetAddr} (h : s.find addr = some (nId, info)) :
    s.mapAddr addr = some nId ∧ s.mapInfo nId = some info := by
  simp only [find, Option.bind_eq_bind, Option.bind_eq_some_iff, Option.pure_def, Option.some.injEq,
    Prod.mk.injEq] at h
  rcases h with ⟨nId', haddr, info', hinfo, rfl, rfl⟩
  exact ⟨haddr, hinfo⟩

theorem Indexed.find_none (h : s.Indexed) {addr : CNetAddr} (hnone : s.find addr = none) : s.mapAddr addr = none := by
  cases haddr : s.mapAddr addr with
  | none => rfl
  | some nId =>
    rcases (h.addr addr nId).1 haddr with ⟨info, hinfo, -⟩
    simp [find, haddr, hinfo] at hnone

/-! ## Operations that change one entry -/

theorem Sound.good (h : Sound env s) (addr : CService) {nTime : Int} (htime : 0 < nTime) (nRnd : Nat) :
    ∃ s', s.good env addr nTime nRnd = some s' ∧ Sound env s' := by
  rcases h with ⟨triedIds, newIds, hcore⟩
  unfold CAddrMan.good
  cases hfind : s.find addr.ip with
  | none => exact ⟨s, rfl, triedIds, newIds, hcore⟩
  | some found =>
    rcases found with ⟨nId, info⟩
    have hinfo := (find_some hfind).2
    dsimp only
    split_ifs with hservice hin hfound
    · exact ⟨s, rfl, triedIds, newIds, hcore⟩
    all_goals
      have htouch : Core env triedIds newIds ∅ 0 (s.setInfo nId { info with
          nLastSuccess := nTime, addr := { info.addr with nLastTry := nTime }, nAttempts := 0 }) :=
        hcore.touch hinfo rfl rfl rfl rfl htime.le htime.le fun _ => htime.ne'
    · exact ⟨_, rfl, triedIds, newIds, htouch⟩
    · rcases htouch.makeTried (Function.update_self ..) (by simpa using hin) htime.ne'
        with ⟨s', triedIds', newIds', hmake, hcore'⟩
      exact ⟨s', hmake, triedIds', newIds', hcore'⟩
    · exact ⟨_, rfl, triedIds, newIds, htouch⟩

theorem Sound.attempt (h : Sound env s) (addr : CService) {nTime : Int} (htime : 0 ≤ nTime) :
    Sound env (s.attempt addr nTime) := by
  rcases h with ⟨triedIds, newIds, hcore⟩
  refine ⟨triedIds, newIds, ?_⟩
  unfold CAddrMan.attempt
  cases hfind : s.find addr.ip with
  | none => exact hcore
  | some found =>
    rcases found with ⟨nId, info⟩
    have hinfo := (find_some hfind).2
    have hentry := hcore.entries nId info hinfo
    dsimp only
    split_ifs with hservice
    · exact hcore
    · exact hcore.touch hinfo rfl rfl rfl rfl htime hentry.lastSuccess hentry.succeeded

theorem Sound.connected (h : Sound env s) (addr : CService) (nTime : Int) : Sound env (s.connected addr nTime) := by
  rcases h with ⟨triedIds, newIds, hcore⟩
  refine ⟨triedIds, newIds, ?_⟩
  unfold CAddrMan.connected
  cases hfind : s.find addr.ip with
  | none => exact hcore
  | some found =>
    rcases found with ⟨nId, info⟩
    have hinfo := (find_some hfind).2
    have hentry := hcore.entries nId info hinfo
    dsimp only
    split_ifs with hservice hlate
    · exact hcore
    · exact hcore.touch hinfo rfl rfl rfl rfl hentry.lastTry hentry.lastSuccess hentry.succeeded
    · exact hcore

/-! ## `Add_` -/

/-- An entry is entered into a new bucket, or goes away when it has none. -/
theorem Core.enter (h : Core env triedIds newIds floating 0 s) (hfloating : floating.erase nId = ∅)
    (hinfo : s.mapInfo nId = some info) (hin : info.fInTried = false)
    (hless : info.nRefCount < addrmanNewBucketsPerAddress) (source : CNetAddr) (nNow : Int) :
    ∃ s', s.enter env nId source nNow = some s' ∧ Sound env s' := by
  have hnone : nId ∉ floating → floating = ∅ := fun hnot => by rwa [Finset.erase_eq_of_notMem hnot] at hfloating
  simp only [CAddrMan.enter, hinfo, Option.bind_eq_bind, Option.bind_some]
  split_ifs with hslot hinsert hzero
  · exact ⟨s, rfl, triedIds, newIds, hnone (h.not_floating hslot) ▸ h⟩
  · rcases h.clearNew (info.getNewBucket env s.nKey source)
      (info.getBucketPosition env s.nKey true (info.getNewBucket env s.nKey source))
      with ⟨s1, newIds1, hclear, hcore1, hnew1, hspares⟩
    rcases hspares.mapInfo nId info hslot hinfo with ⟨info1, hinfo1, p, rfl⟩
    have hadd := hcore1.addRef hinfo1 hin (b := info.getNewBucket env s.nKey source) (Nat.mod_lt _ (by decide))
      (by rw [hspares.nKey]) (by rw [hnew1]; exact setSlot_self ..) hless
    rw [hfloating] at hadd
    refine ⟨_, ?_, triedIds, newIds1, hadd⟩
    rw [hclear, Option.bind_some, hinfo1, Option.bind_some]
    rfl
  · rcases h.delete hinfo ((h.entries nId info hinfo).floating.2 ⟨hin, hzero⟩) with ⟨s1, hdelete, hcore1, -, -⟩
    rw [hfloating] at hcore1
    exact ⟨s1, hdelete, triedIds, _, hcore1⟩
  · have hnot : nId ∉ floating := fun hmem => hzero ((h.entries nId info hinfo).floating.1 hmem).2
    exact ⟨s, rfl, triedIds, newIds, hnone hnot ▸ h⟩

theorem refresh_more {addr : CAddress} {nTimePenalty nNow : Int} {fRandom : Bool}
    (h : (refresh info addr nTimePenalty nNow fRandom).2 ≠ false) :
    info.fInTried = false ∧ info.nRefCount ≠ addrmanNewBucketsPerAddress := by
  refine ⟨?_, fun hcount => h (by simp [refresh, hcount])⟩
  by_contra hin
  exact h (by simp [refresh, (Bool.not_eq_false _).mp hin])

theorem Sound.add (h : Sound env s) (addr : CAddress) (source : CNetAddr) (nTimePenalty nNow : Int) (fRandom : Bool) :
    ∃ fNew s', s.add env addr source nTimePenalty nNow fRandom = some (fNew, s') ∧ Sound env s' := by
  have hsound := h
  rcases h with ⟨triedIds, newIds, hcore⟩
  unfold CAddrMan.add
  split_ifs with hroutable
  · exact ⟨false, s, rfl, hsound⟩
  · cases hfind : s.find addr.service.ip with
    | some found =>
      rcases found with ⟨nId, info⟩
      have hinfo := (find_some hfind).2
      have hentry := hcore.entries nId info hinfo
      have htouch : Core env triedIds newIds ∅ 0 (s.setInfo nId (refresh info addr nTimePenalty nNow fRandom).1) :=
        hcore.touch hinfo rfl rfl rfl rfl hentry.lastTry hentry.lastSuccess hentry.succeeded
      dsimp only
      split_ifs with hmore
      · exact ⟨false, _, rfl, triedIds, newIds, htouch⟩
      · rcases refresh_more hmore with ⟨hin, hcount⟩
        rcases htouch.enter (Finset.erase_empty nId) (Function.update_self ..) hin
          (lt_of_le_of_ne hentry.refCount_le hcount) source nNow with ⟨s', henter, hsound'⟩
        exact ⟨false, s', by rw [henter, Option.map_some], hsound'⟩
    | none =>
      have hcreate := hcore.create (hcore.indexed.find_none hfind) source
      have hinfo : (s.create addr source).2.2.mapInfo (s.create addr source).1 = some (s.create addr source).2.1 :=
        Function.update_self ..
      let nTime := (max 0 (((s.create addr source).2.1.addr.nTime : Int) - nTimePenalty)).toNat % 2 ^ 32
      let info' : CAddrInfo := { (s.create addr source).2.1 with
        addr := { (s.create addr source).2.1.addr with nTime := nTime } }
      have hservice : info'.addr.service = (s.create addr source).2.1.addr.service := rfl
      have htouch := (hcreate.touch hinfo hservice rfl rfl rfl (le_refl _) (le_refl _)
        (fun hfalse => by cases hfalse)).shift 1
      rw [Int.sub_add_cancel] at htouch
      rcases htouch.enter (Finset.erase_insert (Finset.notMem_empty _)) (Function.update_self ..) rfl
        (show (0 : Int) < 8 by decide)
        source nNow with ⟨s', henter, hsound'⟩
      refine ⟨true, s', ?_, hsound'⟩
      show Option.map _ (CAddrMan.enter env _ s.nIdCount source nNow) = _
      rw [henter, Option.map_some]

/-! ## `Select_` and `GetAddr_` -/

theorem selectLoop_some {vv : Nat → Nat → Option Nat}
    (hknown : ∀ b i nId, vv b i = some nId → ∃ info, s.mapInfo nId = some info) (draws : List SelectDraw) :
    ∃ found, s.selectLoop vv draws = some found := by
  induction draws with
  | nil => exact ⟨none, rfl⟩
  | cons draw draws ih =>
    unfold selectLoop
    cases hslot : vv draw.nBucket draw.nPos with
    | none => exact ih
    | some nId =>
      rcases hknown _ _ nId hslot with ⟨info, hinfo⟩
      simp only [hinfo]
      split_ifs
      · exact ⟨_, rfl⟩
      · exact ih

/-- The assertions of `Select_` hold. -/
theorem Sound.select (h : Sound env s) (fTriedDrawn : Bool) (draws : List SelectDraw) :
    ∃ found, s.select fTriedDrawn draws = some found := by
  rcases h with ⟨triedIds, newIds, hcore⟩
  unfold CAddrMan.select
  split_ifs
  · exact ⟨none, rfl⟩
  · exact selectLoop_some (fun b i nId hslot => hcore.tried_known hslot) _
  · exact selectLoop_some (fun b i nId hslot => hcore.new_known hslot) _

theorem Core.getAddrLoop (nNow : Int) (draw : Nat → Nat) (nNodes : Nat) (rounds : Nat) :
    ∀ {n : Nat} {s : CAddrMan} (vAddr : List CAddress), Core env triedIds newIds ∅ 0 s →
      n + rounds = s.vRandom.length →
      ∃ found s', CAddrMan.getAddrLoop nNow draw nNodes rounds n s vAddr = some (found, s') ∧
        Core env triedIds newIds ∅ 0 s' := by
  induction rounds with
  | zero => exact fun vAddr hcore _ => ⟨vAddr, _, rfl, hcore⟩
  | succ rounds ih =>
    intro n s vAddr hcore hlength
    unfold CAddrMan.getAddrLoop
    split_ifs with hfull
    · exact ⟨vAddr, s, rfl, hcore⟩
    · have hn : n < s.vRandom.length := by omega
      have hdraw : draw n % (s.vRandom.length - n) < s.vRandom.length - n := Nat.mod_lt _ (by omega)
      rcases hcore.indexed.swapRandom hn (q := draw n % (s.vRandom.length - n) + n) (by omega) with ⟨s1, hswap, hswapped⟩
      have hcore1 := hcore.swapped hswapped
      have hat := List.getElem?_eq_getElem (l := s1.vRandom) (i := n) (by rw [hswapped.length]; exact hn)
      rcases hcore1.indexed.listed n _ hat with ⟨info, hinfo, -⟩
      simp only [hswap, Option.bind_eq_bind, Option.bind_some, hat, hinfo]
      exact ih _ hcore1 (by rw [hswapped.length]; omega)

/-- The assertions of `GetAddr_` hold. -/
theorem Sound.getAddr (h : Sound env s) (nNow : Int) (draw : Nat → Nat) :
    ∃ found s', s.getAddr nNow draw = some (found, s') ∧ Sound env s' := by
  rcases h with ⟨triedIds, newIds, hcore⟩
  rcases hcore.getAddrLoop nNow draw (min (addrmanGetaddrMaxPct * s.vRandom.length / 100) addrmanGetaddrMax)
    s.vRandom.length [] (Nat.zero_add _) with ⟨found, s', hloop, hcore'⟩
  exact ⟨found, s', hloop, triedIds, newIds, hcore'⟩

/-! ## Runs -/

/-- The operations of the address manager, with what they draw and the time that they see. -/
inductive Op where
  | add (addr : CAddress) (source : CNetAddr) (nTimePenalty nNow : Int) (fRandom : Bool)
  | good (addr : CService) (nTime : Int) (nRnd : Nat)
  | attempt (addr : CService) (nTime : Int)
  | connected (addr : CService) (nTime : Int)
  | select (fTriedDrawn : Bool) (draws : List SelectDraw)
  | getAddr (nNow : Int) (draw : Nat → Nat)

/-- One operation; `none` when an assertion fails. -/
def step (env : AddrEnv) (s : CAddrMan) : Op → Option CAddrMan
  | .add addr source nTimePenalty nNow fRandom => (s.add env addr source nTimePenalty nNow fRandom).map Prod.snd
  | .good addr nTime nRnd => s.good env addr nTime nRnd
  | .attempt addr nTime => some (s.attempt addr nTime)
  | .connected addr nTime => some (s.connected addr nTime)
  | .select fTriedDrawn draws => (s.select fTriedDrawn draws).map fun _ => s
  | .getAddr nNow draw => (s.getAddr nNow draw).map Prod.snd

def run (env : AddrEnv) (s : CAddrMan) (ops : List Op) : Option CAddrMan :=
  ops.foldlM (step env) s

/-- The time of a success is positive, and that of an attempt is not negative. -/
def Op.Timed : Op → Prop
  | .good _ nTime _ => 0 < nTime
  | .attempt _ nTime => 0 ≤ nTime
  | _ => True

theorem Sound.step (h : Sound env s) {op : Op} (hop : op.Timed) : ∃ s', s.step env op = some s' ∧ Sound env s' := by
  cases op with
  | add addr source nTimePenalty nNow fRandom =>
    rcases h.add addr source nTimePenalty nNow fRandom with ⟨fNew, s', hadd, hsound⟩
    exact ⟨s', by rw [CAddrMan.step, hadd, Option.map_some], hsound⟩
  | good addr nTime nRnd => exact h.good addr hop nRnd
  | attempt addr nTime => exact ⟨_, rfl, h.attempt addr hop⟩
  | connected addr nTime => exact ⟨_, rfl, h.connected addr nTime⟩
  | select fTriedDrawn draws =>
    rcases h.select fTriedDrawn draws with ⟨found, hselect⟩
    exact ⟨s, by rw [CAddrMan.step, hselect, Option.map_some], h⟩
  | getAddr nNow draw =>
    rcases h.getAddr nNow draw with ⟨found, s', hget, hsound⟩
    exact ⟨s', by rw [CAddrMan.step, hget, Option.map_some], hsound⟩

theorem Sound.run (ops : List Op) : ∀ {s : CAddrMan}, Sound env s → (∀ op ∈ ops, op.Timed) →
    ∃ s', s.run env ops = some s' ∧ Sound env s' := by
  induction ops with
  | nil => exact fun h _ => ⟨_, rfl, h⟩
  | cons op ops ih =>
    intro s h hops
    rcases h.step (hops op (List.mem_cons_self ..)) with ⟨s1, hstep, hsound⟩
    rcases ih hsound fun op' hop' => hops op' (List.mem_cons_of_mem _ hop') with ⟨s', hrun, hsound'⟩
    refine ⟨s', ?_, hsound'⟩
    unfold CAddrMan.run at hrun ⊢
    rw [List.foldlM_cons, hstep]
    exact hrun

end CAddrMan

end Dobbscoin
