import Dobbscoin.Chain.ActiveChain
import Dobbscoin.Net.BlocksInFlight
import Dobbscoin.Validation.NodeInv

/-!
# Which blocks to download

`FindNextBlocksToDownload`: the successors of the last common block on the branch of the peer's best block,
fetched backwards in chunks and scanned forwards.  `findNextBlocksToDownload_spec` says which blocks are
returned, where the last common block moves and whom a stall is blamed on.
-/

namespace Dobbscoin

open BlockMap

/-- `BLOCK_DOWNLOAD_WINDOW`. -/
def blockDownloadWindow : Nat := 1024

/-- What `CNodeState` says about the blocks a peer has. -/
structure BlockAvailability where
  pindexBestKnownBlock : Option UInt256
  hashLastUnknownBlock : UInt256
  pindexLastCommonBlock : Option UInt256

/-- `ProcessBlockAvailability`. -/
def processBlockAvailability (m : BlockMap) (state : BlockAvailability) : BlockAvailability :=
  if state.hashLastUnknownBlock = 0 then state
  else
    match m.lookup state.hashLastUnknownBlock with
    | none => state
    | some itOld =>
      if itOld.nChainWork > 0 then
        { state with
          pindexBestKnownBlock :=
            match state.pindexBestKnownBlock with
            | none => some state.hashLastUnknownBlock
            | some best =>
              if itOld.nChainWork ≥ (m.entry best).nChainWork then some state.hashLastUnknownBlock
              else some best
          hashLastUnknownBlock := 0 }
      else state

/-- The loop of `LastCommonAncestor`, for a number of passes. -/
def lastCommonAncestorLoop (m : BlockMap) :
    Nat → Option UInt256 → Option UInt256 → Except WalkError (Option UInt256)
  | 0, _, _ => .error .notEnded
  | passes + 1, pa, pb =>
    match pa, pb with
    | some a, some b =>
      if a ≠ b then lastCommonAncestorLoop m passes (m.entry a).pprev (m.entry b).pprev else .ok pa
    | _, _ =>
      -- Eventually all chain branches meet at the genesis block.
      if pa = pb then .ok pa else .error .assertion

/-- `LastCommonAncestor`. -/
def lastCommonAncestor (m : BlockMap) : Option UInt256 → Option UInt256 → Except WalkError (Option UInt256)
  | some a, some b =>
    let pa := if (m.entry a).nHeight > (m.entry b).nHeight then m.getAncestor a (m.entry b).nHeight else some a
    let pb := if (m.entry b).nHeight > (m.entry a).nHeight then m.getAncestor b (m.entry a).nHeight else some b
    lastCommonAncestorLoop m ((m.entry a).nHeight + 2) pa pb
  | _, _ => .error .nullPointer

/-- The variables of the loops of `FindNextBlocksToDownload`. -/
structure Fetch where
  vBlocks : List UInt256
  nodeStaller : NodeId
  waitingfor : NodeId
  pindexLastCommonBlock : Option UInt256

/-- `vToFetch`, filled from its last pointer down; `rest` is what is in place above. -/
def fillToFetch (m : BlockMap) : Nat → Option UInt256 → List (Option UInt256) →
    Except WalkError (List (Option UInt256))
  | 0, pindex, rest => .ok (pindex :: rest)
  | i + 1, pindex, rest => do
    let pprev ← Walk.follow m CBlockIndex.pprev pindex
    fillToFetch m i pprev (pindex :: rest)

section Loops

variable (m : BlockMap) (mapBlocksInFlight : AList fun _ : UInt256 => NodeId × Nat) (nodeid : NodeId)
  (count : UInt32) (nWindowEnd : Int)

/-- The body of the loop over `vToFetch`.  The second component says that the function returns. -/
def scanBlock (s : Fetch) (pindex : UInt256) : Fetch × Bool :=
  if (m.entry pindex).nStatus.isValid BlockStatus.validTree = false then
    -- We consider the chain that this peer is on invalid.
    (s, true)
  else if (m.entry pindex).nStatus.haveData then
    (if (m.entry pindex).nChainTx ≠ 0 then { s with pindexLastCommonBlock := some pindex } else s, false)
  else
    match mapBlocksInFlight.lookup (m.entry pindex).phashBlock with
    | none =>
      -- The block is not already downloaded, and not yet in flight.
      if ((m.entry pindex).nHeight : Int) > nWindowEnd then
        -- We reached the end of the window.
        (if s.vBlocks.length = 0 ∧ s.waitingfor ≠ nodeid then { s with nodeStaller := s.waitingfor } else s,
          true)
      else ({ s with vBlocks := s.vBlocks ++ [pindex] }, (s.vBlocks ++ [pindex]).length = count.toNat)
    | some (first, _) =>
      -- This is the first already-in-flight block.
      (if s.waitingfor = -1 then { s with waitingfor := first } else s, false)

/-- The loop over `vToFetch`. -/
def scanToFetch (s : Fetch) : List (Option UInt256) → Except WalkError (Fetch × Bool)
  | [] => .ok (s, false)
  | none :: _ => .error .nullPointer
  | some pindex :: rest =>
    if (scanBlock m mapBlocksInFlight nodeid count nWindowEnd s pindex).2 then
      .ok (scanBlock m mapBlocksInFlight nodeid count nWindowEnd s pindex)
    else scanToFetch (scanBlock m mapBlocksInFlight nodeid count nWindowEnd s pindex).1 rest

/-- The loop over the chunks, for a number of passes. -/
def fetchLoop (best : UInt256) (nMaxHeight : Int) :
    Nat → Option UInt256 → Fetch → Except WalkError Fetch
  | 0, _, _ => .error .notEnded
  | _ + 1, none, _ => .error .nullPointer
  | passes + 1, some pindexWalk, s =>
    if ((m.entry pindexWalk).nHeight : Int) < nMaxHeight then do
      let nToFetch := min (nMaxHeight - (m.entry pindexWalk).nHeight)
        (max (BitVec.ofNat 32 (count.toNat - s.vBlocks.length)).toInt 128)
      let pindexWalk := m.getAncestor best ((m.entry pindexWalk).nHeight + nToFetch)
      let vToFetch ← fillToFetch m (nToFetch - 1).toNat pindexWalk []
      let (s, returned) ← scanToFetch m mapBlocksInFlight nodeid count nWindowEnd s vToFetch
      if returned then return s else fetchLoop best nMaxHeight passes pindexWalk s
    else .ok s

end Loops

/-- What `FindNextBlocksToDownload` leaves. -/
structure Downloadable where
  vBlocks : List UInt256
  nodeStaller : NodeId
  state : BlockAvailability

/-- `FindNextBlocksToDownload`, on an empty `vBlocks`.  The loop is given one pass for each height. -/
def findNextBlocksToDownload (m : BlockMap) (chainActive : CChain)
    (mapBlocksInFlight : AList fun _ : UInt256 => NodeId × Nat) (nodeid : NodeId) (count : UInt32)
    (state : BlockAvailability) (nodeStaller : NodeId) : Except WalkError Downloadable :=
  if count = 0 then .ok ⟨[], nodeStaller, state⟩
  else
    -- Make sure pindexBestKnownBlock is up to date, we'll need it.
    let state := processBlockAvailability m state
    match state.pindexBestKnownBlock, chainActive.tip with
    | none, _ => .ok ⟨[], nodeStaller, state⟩
    | some _, none => .error .nullPointer
    | some best, some tip =>
      if (m.entry best).nChainWork < (m.entry tip).nChainWork then
        -- This peer has nothing interesting.
        .ok ⟨[], nodeStaller, state⟩
      else do
        -- Bootstrap quickly by guessing a parent of our best tip is the forking point.
        let pindexLastCommonBlock :=
          state.pindexLastCommonBlock.or
            (chainActive.atHeight (min (m.entry best).nHeight chainActive.height))
        -- If the peer reorganized, our previous pindexLastCommonBlock may not be an ancestor of their
        -- current tip anymore.
        let pindexLastCommonBlock ← lastCommonAncestor m pindexLastCommonBlock (some best)
        let state := { state with pindexLastCommonBlock := pindexLastCommonBlock }
        if pindexLastCommonBlock = some best then return ⟨[], nodeStaller, state⟩
        else
          match pindexLastCommonBlock with
          | none => .error .nullPointer
          | some common => do
            let nWindowEnd : Int := (m.entry common).nHeight + blockDownloadWindow
            let nMaxHeight := min ((m.entry best).nHeight : Int) (nWindowEnd + 1)
            let s ← fetchLoop m mapBlocksInFlight nodeid count nWindowEnd best nMaxHeight
              ((m.entry best).nHeight + 1) (some common) ⟨[], nodeStaller, -1, some common⟩
            return ⟨s.vBlocks, s.nodeStaller, { state with pindexLastCommonBlock := s.pindexLastCommonBlock }⟩

/-! ## The branch above a height -/

/-- The `n` blocks of the branch of `best` above the height `lo`, the lowest one first. -/
def branchFrom (m : BlockMap) (best : UInt256) : Nat → Nat → List UInt256
  | _, 0 => []
  | lo, n + 1 => (m.getAncestor best (lo + 1 : Nat)).toList ++ branchFrom m best (lo + 1) n

section Branch

variable {m : BlockMap} {best : UInt256}

theorem branchFrom_append (lo a b : Nat) :
    branchFrom m best lo (a + b) = branchFrom m best lo a ++ branchFrom m best (lo + a) b := by
  induction a generalizing lo with
  | zero => simp [branchFrom]
  | succ a ih =>
    rw [Nat.succ_add, branchFrom, branchFrom, ih, List.append_assoc]
    congr 3
    omega

/-- The blocks of the branch are those of its heights. -/
theorem mem_branchFrom (hm : m.WellFormed) (hskip : m.SkipList) {lo n : Nat}
    (hn : lo + n ≤ (m.entry best).nHeight) {p : UInt256} :
    p ∈ branchFrom m best lo n ↔
      m.Ancestor p best ∧ lo < (m.entry p).nHeight ∧ (m.entry p).nHeight ≤ lo + n := by
  induction n generalizing lo with
  | zero =>
    simp only [branchFrom, List.not_mem_nil, false_iff]
    omega
  | succ n ih =>
    rcases hm.exists_ancestor best (n := lo + 1) (by omega) with ⟨a, hab, ha⟩
    have hget : m.getAncestor best (lo + 1 : Nat) = some a := by
      rw [← ha]
      exact getAncestor_eq hm hskip hab
    rw [branchFrom, hget, Option.toList_some, List.singleton_append, List.mem_cons, ih (by omega)]
    constructor
    · rintro (rfl | ⟨hp, hlow, hhigh⟩)
      · exact ⟨hab, by omega, by omega⟩
      · exact ⟨hp, by omega, by omega⟩
    · rintro ⟨hp, hlow, hhigh⟩
      by_cases hsame : (m.entry p).nHeight = lo + 1
      · exact Or.inl (Ancestor.eq_of_height hm (Ancestor.of_height_le hm hp hab (by omega)) (by omega))
      · exact Or.inr ⟨hp, by omega, by omega⟩

theorem branchFrom_sorted (hm : m.WellFormed) (hskip : m.SkipList) {lo n : Nat}
    (hn : lo + n ≤ (m.entry best).nHeight) :
    (branchFrom m best lo n).Pairwise fun a b => (m.entry a).nHeight < (m.entry b).nHeight := by
  induction n generalizing lo with
  | zero => exact List.Pairwise.nil
  | succ n ih =>
    rcases hm.exists_ancestor best (n := lo + 1) (by omega) with ⟨a, hab, ha⟩
    have hget : m.getAncestor best (lo + 1 : Nat) = some a := by
      rw [← ha]
      exact getAncestor_eq hm hskip hab
    rw [branchFrom, hget, Option.toList_some, List.singleton_append, List.pairwise_cons]
    refine ⟨fun b hb => ?_, ih (by omega)⟩
    have hlow := ((mem_branchFrom hm hskip (by omega)).1 hb).2.1
    omega

/-- The parents of a block, filled in backwards, are the branch below it. -/
theorem fillToFetch_eq (hm : m.WellFormed) (hskip : m.SkipList) (n : Nat) {lo : Nat} {w : UInt256}
    (hw : m.Ancestor w best) (hh : (m.entry w).nHeight = lo + n + 1) (rest : List (Option UInt256)) :
    fillToFetch m n (some w) rest = .ok ((branchFrom m best lo (n + 1)).map some ++ rest) := by
  induction n generalizing w rest with
  | zero =>
    have hget : m.getAncestor best (lo + 1 : Nat) = some w := by
      rw [show lo + 1 = (m.entry w).nHeight by omega]
      exact getAncestor_eq hm hskip hw
    rw [fillToFetch, branchFrom, hget]
    rfl
  | succ n ih =>
    rcases hm.exists_ancestor w (n := lo + n + 1) (by omega) with ⟨a, haw, ha⟩
    rcases Ancestor.below haw (by omega) with ⟨q, hq, haq⟩
    have hqh := hm.height w q hq
    have hqb : m.Ancestor q best := (ancestor_pprev hq).trans hw
    have hget : m.getAncestor best (lo + (n + 1) + 1 : Nat) = some w := by
      rw [← hh]
      exact getAncestor_eq hm hskip hw
    calc
      fillToFetch m (n + 1) (some w) rest = fillToFetch m n (some q) (some w :: rest) := by
        rw [fillToFetch, Walk.follow, hq]
        rfl
      _ = .ok ((branchFrom m best lo (n + 1)).map some ++ some w :: rest) := ih hqb (by omega) _
      _ = .ok ((branchFrom m best lo (n + 1 + 1)).map some ++ rest) := by
        have hlast : branchFrom m best (lo + (n + 1)) 1 = [w] := by
          rw [branchFrom, hget]
          rfl
        rw [branchFrom_append lo (n + 1) 1, hlast, List.map_append, List.append_assoc]
        rfl

end Branch

/-! ## The loops -/

section Loops

variable {m : BlockMap} {mapBlocksInFlight : AList fun _ : UInt256 => NodeId × Nat} {nodeid : NodeId}
  {count : UInt32} {nWindowEnd : Int}

/-- Scanning in chunks is scanning the whole. -/
theorem scanToFetch_append (s : Fetch) (xs ys : List (Option UInt256)) :
    scanToFetch m mapBlocksInFlight nodeid count nWindowEnd s (xs ++ ys) =
      (scanToFetch m mapBlocksInFlight nodeid count nWindowEnd s xs >>= fun r =>
        if r.2 then .ok r else scanToFetch m mapBlocksInFlight nodeid count nWindowEnd r.1 ys) := by
  induction xs generalizing s with
  | nil => rfl
  | cons x xs ih =>
    cases x with
    | none => rfl
    | some p =>
      rw [List.cons_append, scanToFetch, scanToFetch]
      by_cases hreturn : (scanBlock m mapBlocksInFlight nodeid count nWindowEnd s p).2 = true
      · rw [if_pos hreturn, if_pos hreturn]
        exact (if_pos hreturn).symm
      · rw [if_neg hreturn, if_neg hreturn]
        exact ih _

/-- A scan over pointers that are not null ends. -/
theorem scanToFetch_ok (s : Fetch) (path : List UInt256) :
    ∃ r, scanToFetch m mapBlocksInFlight nodeid count nWindowEnd s (path.map some) = .ok r := by
  induction path generalizing s with
  | nil => exact ⟨_, rfl⟩
  | cons p path ih =>
    rw [List.map_cons, scanToFetch]
    split_ifs
    · exact ⟨_, rfl⟩
    · exact ih _

/-- **Run.**  The loop over the chunks is the scan of the branch up to the highest block it looks at. -/
theorem fetchLoop_eq (hm : m.WellFormed) (hskip : m.SkipList) {best : UInt256} {nMaxHeight : Nat}
    (hmax : nMaxHeight ≤ (m.entry best).nHeight) (passes : Nat) {w : UInt256} (hw : m.Ancestor w best)
    (hpasses : nMaxHeight < (m.entry w).nHeight + passes) (s : Fetch) {r : Fetch × Bool}
    (hr : scanToFetch m mapBlocksInFlight nodeid count nWindowEnd s
      ((branchFrom m best (m.entry w).nHeight (nMaxHeight - (m.entry w).nHeight)).map some) = .ok r)
    (hpos : 0 < passes) :
    fetchLoop m mapBlocksInFlight nodeid count nWindowEnd best nMaxHeight passes (some w) s = .ok r.1 := by
  induction passes generalizing w s with
  | zero => omega
  | succ passes ih =>
    rw [fetchLoop]
    by_cases hdone : (m.entry w).nHeight < nMaxHeight
    case neg =>
      rw [if_neg (by exact_mod_cast hdone)]
      rw [Nat.sub_eq_zero_of_le (Nat.le_of_not_lt hdone)] at hr
      have hrs : (s, false) = r := Except.ok.inj hr
      rw [← hrs]
    rw [if_pos (by exact_mod_cast hdone)]
    dsimp only
    -- A chunk has at least one block, and none above the highest one.
    obtain ⟨k, hk, hpositive, hle⟩ : ∃ k : Nat, min ((nMaxHeight : Int) - (m.entry w).nHeight)
        (max (BitVec.ofNat 32 (count.toNat - s.vBlocks.length)).toInt 128) = (k + 1 : Nat) ∧
        (m.entry w).nHeight + (k + 1) ≤ nMaxHeight ∧ 0 < k + 1 := by
      refine ⟨(min ((nMaxHeight : Int) - (m.entry w).nHeight)
        (max (BitVec.ofNat 32 (count.toNat - s.vBlocks.length)).toInt 128)).toNat - 1, ?_, ?_, ?_⟩
      all_goals omega
    rcases hm.exists_ancestor best (n := (m.entry w).nHeight + (k + 1)) (by omega) with ⟨w', hw', hwh⟩
    have hget : m.getAncestor best ((m.entry w).nHeight + ((k + 1 : Nat) : Int)) = some w' := by
      rw [← Nat.cast_add, ← hwh]
      exact getAncestor_eq hm hskip hw'
    have hfill : fillToFetch m k (some w') [] =
        .ok ((branchFrom m best (m.entry w).nHeight (k + 1)).map some) := by
      rw [fillToFetch_eq hm hskip k hw' (by omega), List.append_nil]
    have hsplit : nMaxHeight - (m.entry w).nHeight = (k + 1) + (nMaxHeight - (m.entry w').nHeight) := by omega
    have hkeep : ((k + 1 : Nat) - 1 : Int).toNat = k := by omega
    rw [hsplit, branchFrom_append, List.map_append, scanToFetch_append] at hr
    rw [hk, hget, hkeep, hfill]
    obtain ⟨r', hscan⟩ : ∃ r', scanToFetch m mapBlocksInFlight nodeid count nWindowEnd s
        ((branchFrom m best (m.entry w).nHeight (k + 1)).map some) = .ok r' := scanToFetch_ok s _
    rw [hscan] at hr
    change (if r'.2 = true then .ok r' else scanToFetch m mapBlocksInFlight nodeid count nWindowEnd r'.1
      ((branchFrom m best ((m.entry w).nHeight + (k + 1)) (nMaxHeight - (m.entry w').nHeight)).map some)) =
      .ok r at hr
    calc
      _ = (scanToFetch m mapBlocksInFlight nodeid count nWindowEnd s
            ((branchFrom m best (m.entry w).nHeight (k + 1)).map some) >>= fun r =>
            if r.2 = true then .ok r.1
            else fetchLoop m mapBlocksInFlight nodeid count nWindowEnd best nMaxHeight passes (some w') r.1) :=
          rfl
      _ = (if r'.2 = true then .ok r'.1
            else fetchLoop m mapBlocksInFlight nodeid count nWindowEnd best nMaxHeight passes (some w')
              r'.1) := by rw [hscan]; rfl
      _ = .ok r.1 := ?_
    by_cases hreturn : r'.2 = true
    · rw [if_pos hreturn] at hr ⊢
      rw [Except.ok.inj hr]
    · rw [if_neg hreturn] at hr ⊢
      rw [← hwh] at hr
      exact ih hw' (by omega) r'.1 hr (by omega)

/-! ## What a scan returns -/

/-- The block is not downloaded and not in flight. -/
def missing (m : BlockMap) (mapBlocksInFlight : AList fun _ : UInt256 => NodeId × Nat) (p : UInt256) : Bool :=
  !(m.entry p).nStatus.haveData && (mapBlocksInFlight.lookup (m.entry p).phashBlock).isNone

/-- `IsValid(BLOCK_VALID_TREE)`. -/
def validTree (m : BlockMap) (p : UInt256) : Bool :=
  (m.entry p).nStatus.isValid BlockStatus.validTree

theorem not_missing_of_haveData {p : UInt256} (h : (m.entry p).nStatus.haveData = true) :
    missing m mapBlocksInFlight p = false := by
  simp [missing, h]

theorem not_missing_of_inFlight {p : UInt256} {entry : NodeId × Nat}
    (h : mapBlocksInFlight.lookup (m.entry p).phashBlock = some entry) :
    missing m mapBlocksInFlight p = false := by
  simp [missing, h]

variable (m mapBlocksInFlight nodeid count nWindowEnd) in
/-- The scan of a path from one state to the last one, with a rule for each way through the body. -/
inductive Scans : Fetch → List UInt256 → Fetch → Prop
  | nil (s : Fetch) : Scans s [] s
  | invalid (s : Fetch) (p : UInt256) (path : List UInt256) (hvalid : validTree m p = false) :
      Scans s (p :: path) s
  | downloaded (s : Fetch) (p : UInt256) (path : List UInt256) (r : Fetch) (hvalid : validTree m p = true)
      (hdata : (m.entry p).nStatus.haveData = true)
      (hrest : Scans (if (m.entry p).nChainTx ≠ 0 then { s with pindexLastCommonBlock := some p } else s)
        path r) :
      Scans s (p :: path) r
  | inFlight (s : Fetch) (p : UInt256) (path : List UInt256) (r : Fetch) (first : NodeId) (it : Nat)
      (hvalid : validTree m p = true) (hdata : (m.entry p).nStatus.haveData = false)
      (hflight : mapBlocksInFlight.lookup (m.entry p).phashBlock = some (first, it))
      (hrest : Scans (if s.waitingfor = -1 then { s with waitingfor := first } else s) path r) :
      Scans s (p :: path) r
  | windowEnd (s : Fetch) (p : UInt256) (path : List UInt256) (hvalid : validTree m p = true)
      (hmissing : missing m mapBlocksInFlight p = true) (hend : nWindowEnd < (m.entry p).nHeight) :
      Scans s (p :: path)
        (if s.vBlocks.length = 0 ∧ s.waitingfor ≠ nodeid then { s with nodeStaller := s.waitingfor } else s)
  | full (s : Fetch) (p : UInt256) (path : List UInt256) (hvalid : validTree m p = true)
      (hmissing : missing m mapBlocksInFlight p = true) (hin : ((m.entry p).nHeight : Int) ≤ nWindowEnd)
      (hfull : s.vBlocks.length + 1 = count.toNat) :
      Scans s (p :: path) { s with vBlocks := s.vBlocks ++ [p] }
  | push (s : Fetch) (p : UInt256) (path : List UInt256) (r : Fetch) (hvalid : validTree m p = true)
      (hmissing : missing m mapBlocksInFlight p = true) (hin : ((m.entry p).nHeight : Int) ≤ nWindowEnd)
      (hroom : s.vBlocks.length + 1 ≠ count.toNat)
      (hrest : Scans { s with vBlocks := s.vBlocks ++ [p] } path r) :
      Scans s (p :: path) r

/-- The loop follows the rules. -/
theorem scans_of_scanToFetch (path : List UInt256) (s : Fetch) {r : Fetch × Bool}
    (hr : scanToFetch m mapBlocksInFlight nodeid count nWindowEnd s (path.map some) = .ok r) :
    Scans m mapBlocksInFlight nodeid count nWindowEnd s path r.1 := by
  induction path generalizing s with
  | nil =>
    have hrs : (s, false) = r := Except.ok.inj hr
    rw [← hrs]
    exact Scans.nil s
  | cons p path ih =>
    rw [List.map_cons, scanToFetch, scanBlock] at hr
    by_cases hvalid : (m.entry p).nStatus.isValid BlockStatus.validTree = false
    · rw [if_pos hvalid] at hr
      have hrs : (s, true) = r := Except.ok.inj hr
      rw [← hrs]
      exact Scans.invalid s p path hvalid
    have hvalid' : validTree m p = true := Bool.not_eq_false _ ▸ hvalid
    rw [if_neg hvalid] at hr
    by_cases hdata : (m.entry p).nStatus.haveData = true
    · rw [if_pos hdata] at hr
      exact Scans.downloaded s p path r.1 hvalid' hdata (ih _ hr)
    have hdata' : (m.entry p).nStatus.haveData = false := Bool.not_eq_true _ ▸ hdata
    rw [if_neg hdata] at hr
    cases hflight : mapBlocksInFlight.lookup (m.entry p).phashBlock with
    | some entry =>
      rw [hflight] at hr
      exact Scans.inFlight s p path r.1 entry.1 entry.2 hvalid' hdata' hflight (ih _ hr)
    | none =>
      have hmissing : missing m mapBlocksInFlight p = true := by simp [missing, hdata', hflight]
      rw [hflight] at hr
      dsimp only at hr
      by_cases hend : ((m.entry p).nHeight : Int) > nWindowEnd
      · rw [if_pos hend] at hr
        have hrs := Except.ok.inj hr
        rw [← hrs]
        exact Scans.windowEnd s p path hvalid' hmissing hend
      rw [if_neg hend] at hr
      have hin : ((m.entry p).nHeight : Int) ≤ nWindowEnd := Int.not_lt.1 hend
      have hlen : (s.vBlocks ++ [p]).length = s.vBlocks.length + 1 := by simp
      by_cases hfull : (s.vBlocks ++ [p]).length = count.toNat
      · have hrs : (({ s with vBlocks := s.vBlocks ++ [p] }, true) : Fetch × Bool) = r := by
          simpa [hfull] using hr
        rw [← hrs]
        exact Scans.full s p path hvalid' hmissing hin (hlen ▸ hfull)
      · have hroom : s.vBlocks.length + 1 ≠ count.toNat := hlen ▸ hfull
        exact Scans.push s p path r.1 hvalid' hmissing hin hroom (ih _ (by simpa [hroom] using hr))

/-- **The blocks.**  A scan adds the first missing blocks below the end of the window and below the first
block that is not valid. -/
theorem Scans.vBlocks {s r : Fetch} {path : List UInt256}
    (h : Scans m mapBlocksInFlight nodeid count nWindowEnd s path r)
    (hsorted : path.Pairwise fun a b => (m.entry a).nHeight < (m.entry b).nHeight)
    (hroom : s.vBlocks.length < count.toNat) :
    r.vBlocks = s.vBlocks ++ ((path.takeWhile (validTree m)).filter fun p =>
      missing m mapBlocksInFlight p && decide (((m.entry p).nHeight : Int) ≤ nWindowEnd)).take
        (count.toNat - s.vBlocks.length) := by
  induction h with
  | nil s => simp
  | invalid s p path hvalid => simp [hvalid]
  | downloaded s p path r hvalid hdata _ ih =>
    rw [ih hsorted.of_cons (by split_ifs <;> exact hroom)]
    have hskip : missing m mapBlocksInFlight p = false := not_missing_of_haveData hdata
    rw [List.takeWhile_cons_of_pos hvalid, List.filter_cons_of_neg (by simp [hskip])]
    split_ifs <;> rfl
  | inFlight s p path r first it hvalid hdata hflight _ ih =>
    rw [ih hsorted.of_cons (by split_ifs <;> exact hroom)]
    have hskip := not_missing_of_inFlight hflight
    rw [List.takeWhile_cons_of_pos hvalid, List.filter_cons_of_neg (by simp [hskip])]
    split_ifs <;> rfl
  | windowEnd s p path hvalid hmissing hend =>
    -- This block and the ones after it are above the window.
    have hnone : ((p :: path).takeWhile (validTree m)).filter (fun p =>
        missing m mapBlocksInFlight p && decide (((m.entry p).nHeight : Int) ≤ nWindowEnd)) = [] := by
      refine List.filter_eq_nil_iff.2 fun q hq hin => ?_
      have hlow : ((m.entry q).nHeight : Int) ≤ nWindowEnd := by
        rw [Bool.and_eq_true] at hin
        exact of_decide_eq_true hin.2
      rcases List.mem_cons.1 ((List.takeWhile_sublist _).mem hq) with rfl | hq
      · omega
      · have hlt := List.rel_of_pairwise_cons hsorted hq
        omega
    rw [hnone, List.take_nil, List.append_nil]
    split_ifs <;> rfl
  | full s p path hvalid hmissing hin hfull =>
    have hone : count.toNat - s.vBlocks.length = 1 := by omega
    rw [List.takeWhile_cons_of_pos hvalid, List.filter_cons_of_pos (by simp [hmissing, hin]), hone]
    rfl
  | push s p path r hvalid hmissing hin hfull _ ih =>
    have hlen : (s.vBlocks ++ [p]).length = s.vBlocks.length + 1 := by simp
    have hsucc : count.toNat - s.vBlocks.length = (count.toNat - (s.vBlocks.length + 1)) + 1 := by omega
    rw [ih hsorted.of_cons (by rw [hlen]; omega), List.takeWhile_cons_of_pos hvalid,
      List.filter_cons_of_pos (by simp [hmissing, hin]), hsucc, List.take_succ_cons, hlen,
      List.append_assoc]
    rfl

/-- The last common block moves to downloaded blocks only. -/
theorem Scans.lastCommon {s r : Fetch} {path : List UInt256}
    (h : Scans m mapBlocksInFlight nodeid count nWindowEnd s path r) :
    r.pindexLastCommonBlock = s.pindexLastCommonBlock ∨
      ∃ p ∈ path, r.pindexLastCommonBlock = some p ∧ (m.entry p).nChainTx ≠ 0 := by
  induction h with
  | nil s => exact Or.inl rfl
  | invalid s p path hvalid => exact Or.inl rfl
  | downloaded s p path r hvalid hdata _ ih =>
    rcases ih with hsame | ⟨q, hq, hlast, htx⟩
    · split_ifs at hsame with hchain
      · exact Or.inr ⟨p, List.mem_cons_self, hsame, hchain⟩
      · exact Or.inl hsame
    · exact Or.inr ⟨q, List.mem_cons_of_mem p hq, hlast, htx⟩
  | inFlight s p path r first it hvalid hdata hflight _ ih =>
    rcases ih with hsame | ⟨q, hq, hlast, htx⟩
    · refine Or.inl (hsame.trans ?_)
      split_ifs <;> rfl
    · exact Or.inr ⟨q, List.mem_cons_of_mem p hq, hlast, htx⟩
  | windowEnd s p path hvalid hmissing hend =>
    refine Or.inl ?_
    split_ifs <;> rfl
  | full s p path hvalid hmissing hin hfull => exact Or.inl rfl
  | push s p path r hvalid hmissing hin hfull _ ih =>
    rcases ih with hsame | ⟨q, hq, hlast, htx⟩
    · exact Or.inl hsame
    · exact Or.inr ⟨q, List.mem_cons_of_mem p hq, hlast, htx⟩

/-- The first block of a path that is in flight and not downloaded is in flight from the peer. -/
def FirstInFlight (m : BlockMap) (mapBlocksInFlight : AList fun _ : UInt256 => NodeId × Nat)
    (path : List UInt256) (id : NodeId) : Prop :=
  ∃ before b after it, path = before ++ b :: after ∧ (∀ a ∈ before, (m.entry a).nStatus.haveData = true) ∧
    (m.entry b).nStatus.haveData = false ∧ mapBlocksInFlight.lookup (m.entry b).phashBlock = some (id, it)

theorem FirstInFlight.cons {path : List UInt256} {id : NodeId} {p : UInt256}
    (h : FirstInFlight m mapBlocksInFlight path id) (hp : (m.entry p).nStatus.haveData = true) :
    FirstInFlight m mapBlocksInFlight (p :: path) id := by
  rcases h with ⟨before, b, after, it, rfl, hbefore, hb, hflight⟩
  refine ⟨p :: before, b, after, it, rfl, fun a ha => ?_, hb, hflight⟩
  rcases List.mem_cons.1 ha with rfl | ha
  · exact hp
  · exact hbefore a ha

/-- **The staller.**  It is set when nothing is returned and the first missing block is above the window;
the peer that is waited for is the one that the first block in flight is requested from. -/
theorem Scans.staller {s r : Fetch} {path : List UInt256}
    (h : Scans m mapBlocksInFlight nodeid count nWindowEnd s path r)
    (hids : ∀ hash id it, mapBlocksInFlight.lookup hash = some (id, it) → 0 ≤ id) :
    r.nodeStaller = s.nodeStaller ∨
      r.vBlocks = [] ∧ s.vBlocks = [] ∧
        (∃ p ∈ path, nWindowEnd < (m.entry p).nHeight ∧ missing m mapBlocksInFlight p = true) ∧
        r.nodeStaller ≠ nodeid ∧
        (r.nodeStaller = s.waitingfor ∨
          s.waitingfor = -1 ∧ FirstInFlight m mapBlocksInFlight path r.nodeStaller) := by
  induction h with
  | nil s => exact Or.inl rfl
  | invalid s p path hvalid => exact Or.inl rfl
  | downloaded s p path r hvalid hdata _ ih =>
    rcases ih with hsame | ⟨hr, hs, ⟨q, hq, hend⟩, hother, hwait⟩
    · refine Or.inl (hsame.trans ?_)
      split_ifs <;> rfl
    · refine Or.inr ⟨hr, ?_, ⟨q, List.mem_cons_of_mem p hq, hend⟩, hother, ?_⟩
      · split_ifs at hs <;> exact hs
      · rcases hwait with hwait | ⟨hwait, hfirst⟩
        · exact Or.inl (by split_ifs at hwait <;> exact hwait)
        · exact Or.inr ⟨by split_ifs at hwait <;> exact hwait, hfirst.cons hdata⟩
  | inFlight s p path r first it hvalid hdata hflight _ ih =>
    have hid := hids _ first it hflight
    rcases ih with hsame | ⟨hr, hs, ⟨q, hq, hend⟩, hother, hwait⟩
    · refine Or.inl (hsame.trans ?_)
      split_ifs <;> rfl
    · refine Or.inr ⟨hr, ?_, ⟨q, List.mem_cons_of_mem p hq, hend⟩, hother, ?_⟩
      · split_ifs at hs <;> exact hs
      · split_ifs at hwait with hnone
        · -- This is the block that is waited for.
          rcases hwait with hwait | ⟨hwait, -⟩
          · exact Or.inr ⟨hnone, [], p, path, it, rfl, by simp, hdata, hwait ▸ hflight⟩
          · have hneg : first = -1 := hwait
            rw [hneg] at hid
            exact absurd hid (by decide)
        · rcases hwait with hwait | ⟨hwait, -⟩
          · exact Or.inl hwait
          · exact absurd hwait hnone
  | windowEnd s p path hvalid hmissing hend =>
    split_ifs with hempty
    · exact Or.inr ⟨List.length_eq_zero_iff.1 hempty.1, List.length_eq_zero_iff.1 hempty.1,
        ⟨p, List.mem_cons_self, hend, hmissing⟩, hempty.2, Or.inl rfl⟩
    · exact Or.inl rfl
  | full s p path hvalid hmissing hin hfull => exact Or.inl rfl
  | push s p path r hvalid hmissing hin hfull _ ih =>
    rcases ih with hsame | ⟨-, hs, -⟩
    · exact Or.inl hsame
    · exact absurd hs (by simp)

end Loops

/-! ## The last common ancestor -/

section Common

variable {m : BlockMap} {a b : UInt256}

/-- The highest block that is on both branches. -/
def IsLastCommon (m : BlockMap) (a b c : UInt256) : Prop :=
  m.Ancestor c a ∧ m.Ancestor c b ∧ ∀ d, m.Ancestor d a → m.Ancestor d b → m.Ancestor d c

/-- From blocks at one height the two walks meet. -/
theorem lastCommonAncestorLoop_spec (hm : m.WellFormed) (passes : Nat) {a b : UInt256}
    (hsame : (m.entry a).nHeight = (m.entry b).nHeight) (hpasses : (m.entry a).nHeight < passes)
    (hcommon : ∃ d, m.Ancestor d a ∧ m.Ancestor d b) :
    ∃ c, lastCommonAncestorLoop m passes (some a) (some b) = .ok (some c) ∧ IsLastCommon m a b c := by
  induction passes generalizing a b with
  | zero => omega
  | succ passes ih =>
    rw [lastCommonAncestorLoop]
    by_cases heq : a = b
    · subst heq
      rw [if_neg (not_not.2 rfl)]
      exact ⟨a, rfl, Ancestor.refl m a, Ancestor.refl m a, fun d hd _ => hd⟩
    rw [if_pos heq]
    -- A common ancestor is below both blocks, so both have a parent on its branch.
    have hbelow : ∀ d, m.Ancestor d a → m.Ancestor d b →
        (m.entry d).nHeight < (m.entry a).nHeight ∧ (m.entry d).nHeight < (m.entry b).nHeight := by
      intro d hda hdb
      have hle := Ancestor.height_le hm hda
      by_contra hge
      have hdh : (m.entry d).nHeight = (m.entry a).nHeight := by omega
      exact heq ((Ancestor.eq_of_height hm hda hdh).symm.trans
        (Ancestor.eq_of_height hm hdb (hdh.trans hsame)))
    rcases hcommon with ⟨d, hda, hdb⟩
    rcases Ancestor.below hda (hbelow d hda hdb).1 with ⟨p, hp, hdp⟩
    rcases Ancestor.below hdb (hbelow d hda hdb).2 with ⟨q, hq, hdq⟩
    have hph := hm.height a p hp
    have hqh := hm.height b q hq
    rcases ih (a := p) (b := q) (by omega) (by omega) ⟨d, hdp, hdq⟩ with ⟨c, hc, hcp, hcq, hhigh⟩
    rw [hp, hq]
    refine ⟨c, hc, hcp.trans (ancestor_pprev hp), hcq.trans (ancestor_pprev hq), fun e hea heb => ?_⟩
    rcases Ancestor.below hea (hbelow e hea heb).1 with ⟨p', hp', hep⟩
    rcases Ancestor.below heb (hbelow e hea heb).2 with ⟨q', hq', heq'⟩
    rw [hp] at hp'
    rw [hq] at hq'
    exact hhigh e (Option.some.inj hp' ▸ hep) (Option.some.inj hq' ▸ heq')

/-- The higher block is taken down to the height of the lower one. -/
theorem lowered_spec (hm : m.WellFormed) (hskip : m.SkipList) (a b : UInt256) :
    ∃ w, (if (m.entry a).nHeight > (m.entry b).nHeight then m.getAncestor a (m.entry b).nHeight else some a) =
        some w ∧
      m.Ancestor w a ∧ (m.entry w).nHeight = min (m.entry a).nHeight (m.entry b).nHeight ∧
      ∀ d, m.Ancestor d a → m.Ancestor d b → m.Ancestor d w := by
  by_cases hab : (m.entry a).nHeight > (m.entry b).nHeight
  · rcases hm.exists_ancestor a (Nat.le_of_lt hab) with ⟨w, hwa, hwh⟩
    refine ⟨w, ?_, hwa, by omega, fun d hda hdb => ?_⟩
    · rw [if_pos hab, ← hwh]
      exact getAncestor_eq hm hskip hwa
    · exact Ancestor.of_height_le hm hda hwa (hwh ▸ Ancestor.height_le hm hdb)
  · exact ⟨a, if_neg hab, Ancestor.refl m a, by omega, fun d hda _ => hda⟩

theorem lastCommonAncestor_spec (hm : m.WellFormed) (hskip : m.SkipList) {a b : UInt256}
    (hcommon : ∃ d, m.Ancestor d a ∧ m.Ancestor d b) :
    ∃ c, lastCommonAncestor m (some a) (some b) = .ok (some c) ∧ IsLastCommon m a b c := by
  rcases lowered_spec hm hskip a b with ⟨pa, hpa, haa, hah, hadown⟩
  rcases lowered_spec hm hskip b a with ⟨pb, hpb, hbb, hbh, hbdown⟩
  rcases hcommon with ⟨d, hda, hdb⟩
  rcases lastCommonAncestorLoop_spec hm ((m.entry a).nHeight + 2) (a := pa) (b := pb) (by omega) (by omega)
    ⟨d, hadown d hda hdb, hbdown d hdb hda⟩ with ⟨c, hc, hca, hcb, hhigh⟩
  refine ⟨c, ?_, hca.trans haa, hcb.trans hbb, fun e hea heb => hhigh e (hadown e hea heb) (hbdown e heb hea)⟩
  unfold lastCommonAncestor
  dsimp only
  rw [hpa, hpb]
  exact hc

end Common

/-! ## The function -/

/-- The block tree and the active chain: one first block, skip pointers in place, and `nChainTx` set for the
blocks that are received with all of their ancestors. -/
structure DownloadTree (m : BlockMap) (chainActive : CChain) : Prop where
  tree : m.WellFormed
  skips : m.SkipList
  genesis : ∀ p q, (m.lookup p).isSome → (m.lookup q).isSome →
    (m.entry p).pprev = none → (m.entry q).pprev = none → p = q
  linked : CChain.Linked m chainActive
  stored : ∀ p ∈ chainActive, (m.lookup p).isSome
  nonempty : chainActive ≠ []
  received : ∀ p, (m.lookup p).isSome →
    ((m.entry p).nChainTx ≠ 0 ↔ ∀ a, m.Ancestor a p → (m.entry a).nStatus.haveData = true)

/-- The pointers of a peer lead into the tree. -/
structure BlockAvailability.Stored (m : BlockMap) (state : BlockAvailability) : Prop where
  best : ∀ p ∈ state.pindexBestKnownBlock, (m.lookup p).isSome
  last : ∀ p ∈ state.pindexLastCommonBlock, (m.lookup p).isSome

/-- What is returned for a peer whose best block is `best`, when the common ancestor at entry is `common`. -/
structure Downloadable.From (m : BlockMap) (mapBlocksInFlight : AList fun _ : UInt256 => NodeId × Nat)
    (nodeid : NodeId) (count : UInt32) (nodeStaller : NodeId) (best common : UInt256) (d : Downloadable) :
    Prop where
  atMost : d.vBlocks.length ≤ count.toNat
  increasing : d.vBlocks.Pairwise fun a b => (m.entry a).nHeight < (m.entry b).nHeight
  mem : ∀ p ∈ d.vBlocks, m.Ancestor p best ∧ (m.entry p).nStatus.haveData = false ∧
    mapBlocksInFlight.lookup p = none ∧ (m.entry common).nHeight < (m.entry p).nHeight ∧
    (m.entry p).nHeight ≤ (m.entry common).nHeight + blockDownloadWindow
  /-- The first ones of the branch above the common ancestor, up to the first one that is not valid. -/
  first : d.vBlocks = (((branchFrom m best (m.entry common).nHeight
      ((m.entry best).nHeight - (m.entry common).nHeight)).takeWhile (validTree m)).filter fun p =>
        missing m mapBlocksInFlight p &&
          decide ((m.entry p).nHeight ≤ (m.entry common).nHeight + blockDownloadWindow)).take count.toNat
  lastCommon : ∃ c, d.state.pindexLastCommonBlock = some c ∧
    (c = common ∨ m.Ancestor c best ∧ ∀ a, m.Ancestor a c → (m.entry a).nStatus.haveData = true)
  staller : d.nodeStaller = nodeStaller ∨
    d.vBlocks = [] ∧
      (∃ p, m.Ancestor p best ∧ missing m mapBlocksInFlight p = true ∧
        (m.entry p).nHeight = (m.entry common).nHeight + blockDownloadWindow + 1) ∧
      d.nodeStaller ≠ nodeid ∧
      (d.nodeStaller = -1 ∨ FirstInFlight m mapBlocksInFlight (branchFrom m best (m.entry common).nHeight
        ((m.entry best).nHeight - (m.entry common).nHeight)) d.nodeStaller)

section Function

variable {m : BlockMap} {chainActive : CChain} {mapBlocksInFlight : AList fun _ : UInt256 => NodeId × Nat}
  {nodeid : NodeId} {count : UInt32} {state : BlockAvailability} {nodeStaller : NodeId}

theorem DownloadTree.exists_common (h : DownloadTree m chainActive) {a b : UInt256}
    (ha : (m.lookup a).isSome) (hb : (m.lookup b).isSome) : ∃ d, m.Ancestor d a ∧ m.Ancestor d b := by
  have hroot : ∀ c, (m.entry c).nHeight = 0 → (m.entry c).pprev = none := by
    intro c hc
    cases hprev : (m.entry c).pprev with
    | none => rfl
    | some q =>
      have hq := h.tree.height c q hprev
      omega
  rcases h.tree.exists_ancestor a (Nat.zero_le _) with ⟨g, hga, hg⟩
  rcases h.tree.exists_ancestor b (Nat.zero_le _) with ⟨g', hgb, hg'⟩
  have hsame : g = g' := h.genesis g g' (h.tree.stored_of_ancestor hga ha)
    (h.tree.stored_of_ancestor hgb hb) (hroot g hg) (hroot g' hg')
  exact ⟨g, hga, hsame ▸ hgb⟩

theorem processBlockAvailability_stored (h : state.Stored m) :
    (processBlockAvailability m state).Stored m := by
  unfold processBlockAvailability
  split_ifs with hzero
  · exact h
  · cases hold : m.lookup state.hashLastUnknownBlock with
    | none => exact h
    | some itOld =>
      have hsome : (m.lookup state.hashLastUnknownBlock).isSome := by rw [hold]; rfl
      dsimp only
      split_ifs
      · refine ⟨fun p hp => ?_, h.last⟩
        cases hbest : state.pindexBestKnownBlock with
        | none =>
          simp only [hbest, Option.mem_def, Option.some.injEq] at hp
          exact hp ▸ hsome
        | some best =>
          simp only [hbest] at hp
          split_ifs at hp
          · rw [← Option.some.inj hp]
            exact hsome
          · exact h.best p (hbest.trans hp)
      · exact h

/-- What is filtered out behind a prefix does not count. -/
theorem filter_takeWhile_append {α : Type} {valid wanted : α → Bool} (xs ys : List α)
    (hys : ∀ y ∈ ys, wanted y = false) :
    ((xs ++ ys).takeWhile valid).filter wanted = (xs.takeWhile valid).filter wanted := by
  have hnone : (ys.takeWhile valid).filter wanted = [] := by
    refine List.filter_eq_nil_iff.2 fun y hy hwanted => ?_
    rw [hys y ((List.takeWhile_sublist _).mem hy)] at hwanted
    cases hwanted
  rw [List.takeWhile_append]
  split_ifs with hall
  · have hxs : xs.takeWhile valid = xs := (List.takeWhile_sublist _).eq_of_length hall
    rw [hxs, List.filter_append, hnone, List.append_nil]
  · rfl

/-- A branch above the common ancestor, scanned. -/
theorem Scans.from (h : DownloadTree m chainActive)
    (hids : ∀ hash id it, mapBlocksInFlight.lookup hash = some (id, it) → 0 ≤ id) (hcount : 0 < count.toNat)
    {best common : UInt256} (hbest : (m.lookup best).isSome) (hcommon : m.Ancestor common best) {r : Fetch}
    (hscan : Scans m mapBlocksInFlight nodeid count ((m.entry common).nHeight + blockDownloadWindow)
      ⟨[], nodeStaller, -1, some common⟩
      (branchFrom m best (m.entry common).nHeight
        (min (m.entry best).nHeight ((m.entry common).nHeight + blockDownloadWindow + 1) -
          (m.entry common).nHeight)) r) (state : BlockAvailability) :
    Downloadable.From m mapBlocksInFlight nodeid count nodeStaller best common
      ⟨r.vBlocks, r.nodeStaller, { state with pindexLastCommonBlock := r.pindexLastCommonBlock }⟩ := by
  have hle := Ancestor.height_le h.tree hcommon
  set lo := (m.entry common).nHeight with hlo
  set n := min (m.entry best).nHeight (lo + blockDownloadWindow + 1) - lo with hn
  -- The blocks behind the ones that are scanned are above the window.
  have hwhole : branchFrom m best lo ((m.entry best).nHeight - lo) =
      branchFrom m best lo n ++ branchFrom m best (lo + n) ((m.entry best).nHeight - lo - n) := by
    rw [← branchFrom_append]
    congr 1
    omega
  have hmem : ∀ p, p ∈ branchFrom m best lo n ↔
      m.Ancestor p best ∧ lo < (m.entry p).nHeight ∧ (m.entry p).nHeight ≤ lo + n :=
    fun p => mem_branchFrom h.tree h.skips (by omega)
  have hvBlocks := hscan.vBlocks (branchFrom_sorted h.tree h.skips (by omega)) hcount
  rw [List.nil_append, List.length_nil, Nat.sub_zero] at hvBlocks
  have hfirst : r.vBlocks = (((branchFrom m best lo ((m.entry best).nHeight - lo)).takeWhile
      (validTree m)).filter fun p =>
        missing m mapBlocksInFlight p && decide ((m.entry p).nHeight ≤ lo + blockDownloadWindow)).take
          count.toNat := by
    rw [hwhole, filter_takeWhile_append _ _ fun p hp => ?_, hvBlocks]
    · congr 2
      funext p
      congr 1
      exact decide_eq_decide.2 (by omega)
    · have hhigh := ((mem_branchFrom h.tree h.skips (by omega)).1 hp).2.1
      have hbelow := ((mem_branchFrom h.tree h.skips (by omega)).1 hp).1
      have hle' := Ancestor.height_le h.tree hbelow
      rw [decide_eq_false (by omega), Bool.and_false]
  have hsub : r.vBlocks.Sublist (branchFrom m best lo ((m.entry best).nHeight - lo)) := by
    rw [hfirst]
    exact (List.take_sublist _ _).trans (List.filter_sublist.trans (List.takeWhile_sublist _))
  refine ⟨?_, ?_, fun p hp => ?_, hfirst, ?_, ?_⟩
  · change r.vBlocks.length ≤ count.toNat
    rw [hfirst, List.length_take]
    exact Nat.min_le_left _ _
  · exact (branchFrom_sorted h.tree h.skips (by omega)).sublist hsub
  · rcases (mem_branchFrom h.tree h.skips (by omega)).1 (hsub.mem hp) with ⟨hpb, hlow, -⟩
    have hwanted : (missing m mapBlocksInFlight p &&
        decide ((m.entry p).nHeight ≤ lo + blockDownloadWindow)) = true := by
      change p ∈ r.vBlocks at hp
      rw [hfirst] at hp
      exact (List.mem_filter.1 ((List.take_sublist _ _).mem hp)).2
    rw [Bool.and_eq_true, missing, Bool.and_eq_true, Bool.not_eq_true', Option.isNone_iff_eq_none] at hwanted
    rcases hwanted with ⟨⟨hdata, hflight⟩, hin⟩
    rw [entry_phashBlock (h.tree.stored_of_ancestor hpb hbest)] at hflight
    exact ⟨hpb, hdata, hflight, hlow, of_decide_eq_true hin⟩
  · rcases hscan.lastCommon with hsame | ⟨p, hp, hlast, htx⟩
    · exact ⟨common, hsame, Or.inl rfl⟩
    · have hpb := ((hmem p).1 hp).1
      exact ⟨p, hlast, Or.inr ⟨hpb, (h.received p (h.tree.stored_of_ancestor hpb hbest)).1 htx⟩⟩
  · rcases hscan.staller hids with hsame | ⟨hr, -, ⟨p, hp, hend, hmissing⟩, hother, hwait⟩
    · exact Or.inl hsame
    · rcases (hmem p).1 hp with ⟨hpb, -, hhigh⟩
      refine Or.inr ⟨hr, ⟨p, hpb, hmissing, by omega⟩, hother, ?_⟩
      rcases hwait with hnone | ⟨-, before, b, after, it, hpath, hrest⟩
      · exact Or.inl hnone
      · refine Or.inr ⟨before, b, after ++ branchFrom m best (lo + n) ((m.entry best).nHeight - lo - n), it, ?_,
          hrest⟩
        rw [hwhole, hpath, List.append_assoc]
        rfl

/-- **`FindNextBlocksToDownload`.**  The call ends; for a peer that has at least the work of the tip it
returns the first missing blocks above the common ancestor, and otherwise it leaves everything alone. -/
theorem findNextBlocksToDownload_spec (h : DownloadTree m chainActive)
    (hids : ∀ hash id it, mapBlocksInFlight.lookup hash = some (id, it) → 0 ≤ id)
    (hstate : state.Stored m) (hcount : count ≠ 0) :
    ∃ d, findNextBlocksToDownload m chainActive mapBlocksInFlight nodeid count state nodeStaller = .ok d ∧
      ((∀ best tip, (processBlockAvailability m state).pindexBestKnownBlock = some best →
          chainActive.tip = some tip → (m.entry best).nChainWork < (m.entry tip).nChainWork) →
        d = ⟨[], nodeStaller, processBlockAvailability m state⟩) ∧
      ∀ best tip, (processBlockAvailability m state).pindexBestKnownBlock = some best →
        chainActive.tip = some tip → (m.entry tip).nChainWork ≤ (m.entry best).nChainWork →
          ∃ start common,
            (processBlockAvailability m state).pindexLastCommonBlock.or
              (chainActive.atHeight (min (m.entry best).nHeight chainActive.height)) = some start ∧
            IsLastCommon m start best common ∧
            d.From m mapBlocksInFlight nodeid count nodeStaller best common := by
  have hstored := processBlockAvailability_stored hstate
  rcases List.eq_nil_or_concat chainActive with hnil | ⟨lower, tip, hchain⟩
  · exact absurd hnil h.nonempty
  have htip : chainActive.tip = some tip := by
    rw [hchain, List.concat_eq_append, CChain.tip, List.getLast?_concat]
  unfold findNextBlocksToDownload
  rw [if_neg hcount]
  dsimp only
  set state₁ := processBlockAvailability m state with hstate₁
  rw [htip]
  cases hbest : state₁.pindexBestKnownBlock with
  | none => exact ⟨_, rfl, fun _ => rfl, fun best tip hb => by cases hb⟩
  | some best =>
    have hbestStored := hstored.best best hbest
    dsimp only
    by_cases hwork : (m.entry best).nChainWork < (m.entry tip).nChainWork
    · rw [if_pos hwork]
      refine ⟨_, rfl, fun _ => rfl, fun best' tip' hb ht hle => ?_⟩
      rw [← Option.some.inj hb, ← Option.some.inj ht] at hle
      exact absurd hwork (BitVec.not_lt.2 hle)
    rw [if_neg hwork]
    -- The block to start from is stored: the peer's own one, or one of the active chain.
    obtain ⟨start, hstart, hstartStored⟩ : ∃ start, state₁.pindexLastCommonBlock.or
        (chainActive.atHeight (min (m.entry best).nHeight chainActive.height)) = some start ∧
        (m.lookup start).isSome := by
      cases hlast : state₁.pindexLastCommonBlock with
      | some start => exact ⟨start, rfl, hstored.last start hlast⟩
      | none =>
        have hpos : 0 < chainActive.length := List.length_pos_iff.2 h.nonempty
        have hlt : (min ((m.entry best).nHeight : Int) chainActive.height).toNat < chainActive.length := by
          rw [CChain.height]
          omega
        refine ⟨chainActive[(min ((m.entry best).nHeight : Int) chainActive.height).toNat], ?_,
          h.stored _ (List.getElem_mem hlt)⟩
        rw [Option.none_or, CChain.atHeight, if_neg (by rw [CChain.height]; omega)]
        exact List.getElem?_eq_getElem hlt
    rcases lastCommonAncestor_spec h.tree h.skips (h.exists_common hstartStored hbestStored) with
      ⟨common, hcommon, hlca⟩
    rw [hstart, hcommon]
    have hle := Ancestor.height_le h.tree hlca.2.1
    have hpositive : 0 < count.toNat := by
      rcases Nat.eq_zero_or_pos count.toNat with hzero | hpos
      · exact absurd (UInt32.toNat_inj.1 hzero) hcount
      · exact hpos
    obtain ⟨r, hscan⟩ : ∃ r, scanToFetch m mapBlocksInFlight nodeid count
        ((m.entry common).nHeight + blockDownloadWindow) ⟨[], nodeStaller, -1, some common⟩
        ((branchFrom m best (m.entry common).nHeight
          (min (m.entry best).nHeight ((m.entry common).nHeight + blockDownloadWindow + 1) -
            (m.entry common).nHeight)).map some) = .ok r := scanToFetch_ok _ _
    have hfrom := (scans_of_scanToFetch _ _ hscan).from h hids hpositive hbestStored hlca.2.1
      ⟨some best, state₁.hashLastUnknownBlock, some common⟩
    refine ⟨⟨r.1.vBlocks, r.1.nodeStaller,
      ⟨some best, state₁.hashLastUnknownBlock, r.1.pindexLastCommonBlock⟩⟩, ?_,
      fun hless => absurd (hless best tip rfl rfl) hwork, fun best' tip' hb _ _ => ?_⟩
    · by_cases hsame : common = best
      · -- Everything the peer has is common already; the scan has nothing to look at.
        subst hsame
        rw [Nat.min_eq_left (by omega), Nat.sub_self] at hscan
        rw [← Except.ok.inj hscan]
        change (if some common = some common then _ else _) = _
        exact if_pos rfl
      · have hfetch := fetchLoop_eq h.tree h.skips (Nat.min_le_left _ _) ((m.entry best).nHeight + 1)
          hlca.2.1 (by omega) _ hscan (Nat.succ_pos _)
        have hcast : ((min (m.entry best).nHeight ((m.entry common).nHeight + blockDownloadWindow + 1) : Nat) : Int) =
            min ((m.entry best).nHeight : Int) ((m.entry common).nHeight + blockDownloadWindow + 1) := by
          push_cast
          rfl
        rw [hcast] at hfetch
        have hne : ¬ some common = some best := fun heq => hsame (Option.some.inj heq)
        change (if some common = some best then _ else _) = _
        rw [if_neg hne]
        rw [hfetch]
        rfl
    · rw [← Option.some.inj hb]
      exact ⟨start, common, hstart, hlca, hfrom⟩

end Function

/-! ## An invalid block below the common ancestor -/

/-- A block is received with its ancestors when it is received and its parent is, with its ancestors. -/
theorem received_of_links {m : BlockMap} (hm : m.WellFormed)
    (hlinks : ∀ p, (m.lookup p).isSome → ((m.entry p).nChainTx ≠ 0 ↔
      (m.entry p).nStatus.haveData = true ∧ ∀ q, (m.entry p).pprev = some q → (m.entry q).nChainTx ≠ 0))
    {p : UInt256} (hp : (m.lookup p).isSome) :
    (m.entry p).nChainTx ≠ 0 ↔ ∀ a, m.Ancestor a p → (m.entry a).nStatus.haveData = true := by
  induction hn : (m.entry p).nHeight generalizing p with
  | zero =>
    have hself : ∀ a, m.Ancestor a p → a = p := by
      intro a ha
      have hle := Ancestor.height_le hm ha
      exact Ancestor.eq_of_height hm ha (by omega)
    have hroot : ∀ q, (m.entry p).pprev ≠ some q := by
      intro q hq
      have hh := hm.height p q hq
      omega
    rw [hlinks p hp]
    exact ⟨fun h a ha => hself a ha ▸ h.1,
      fun h => ⟨h p (Ancestor.refl m p), fun q hq => absurd hq (hroot q)⟩⟩
  | succ n ih =>
    rw [hlinks p hp]
    cases hprev : (m.entry p).pprev with
    | none =>
      have hroot := hm.root p hprev
      omega
    | some q =>
      have hqh := hm.height p q hprev
      have hparent := ih (hm.stored p q hprev) (by omega)
      constructor
      · rintro ⟨hdata, hq⟩ a ha
        rcases Relation.ReflTransGen.cases_tail ha with rfl | ⟨q', haq, hq'⟩
        · exact hdata
        · have hsame : q = q' := Option.some.inj (hprev.symm.trans hq')
          exact hparent.1 (hq q rfl) a (hsame ▸ haq)
      · intro hall
        refine ⟨hall p (Ancestor.refl m p), fun q' hq' => ?_⟩
        rw [← Option.some.inj hq']
        exact hparent.2 fun a ha => hall a (ha.trans (ancestor_pprev hprev))

/-- Two blocks that are received, the second one found invalid, and a header on top of them. -/
def invalidatedTree : BlockMap :=
  [(1, none, none, 0, 1, true, false), (2, some 1, some 1, 1, 2, true, true),
    (3, some 2, some 1, 2, 0, false, false)].map
    fun (hash, pprev, pskip, nHeight, nChainTx, haveData, failed) =>
      { CBlockIndex.null with
        phashBlock := hash
        pprev := pprev
        pskip := pskip
        nHeight := nHeight
        nChainWork := hash
        nChainTx := nChainTx
        nStatus := ⟨BlockStatus.validTree, haveData, false, failed, false⟩ }

/-- The node after `invalidateblock`: its active chain ends below the invalid block. -/
def invalidatedNode : NodeState Unit where
  mapBlockIndex := invalidatedTree
  chainActive := [1]
  setBlockIndexCandidates := []
  pindexBestInvalid := none
  pindexBestHeader := none
  mapBlocksUnlinked := []
  nBlockSequenceId := 0
  world := ()

theorem invalidatedTree_entry {p : UInt256} (hp : (invalidatedTree.lookup p).isSome) :
    invalidatedTree.entry p ∈ invalidatedTree ∧ (invalidatedTree.entry p).phashBlock = p := by
  rcases Option.isSome_iff_exists.1 hp with ⟨i, hi⟩
  rw [entry_of_lookup hi]
  exact lookup_mem hi

theorem invalidatedTree_download : DownloadTree invalidatedTree [1] := by
  have hinv : NodeState.NodeInv invalidatedNode := NodeState.nodeInv_of_check (by decide)
  refine ⟨hinv.tree.tree, hinv.skips, fun p q hp hq hpp hqp => ?_, hinv.tree.chain, hinv.chainStored,
    List.cons_ne_nil _ _, fun p hp => received_of_links hinv.tree.tree (fun p hp => ?_) hp⟩
  · have hroot : ∀ i ∈ invalidatedTree, i.pprev = none → i.phashBlock = 1 := by decide
    rcases invalidatedTree_entry hp with ⟨hpmem, hpkey⟩
    rcases invalidatedTree_entry hq with ⟨hqmem, hqkey⟩
    calc
      p = (invalidatedTree.entry p).phashBlock := hpkey.symm
      _ = 1 := hroot _ hpmem hpp
      _ = (invalidatedTree.entry q).phashBlock := (hroot _ hqmem hqp).symm
      _ = q := hqkey
  · have hlink : ∀ i ∈ invalidatedTree, i.nChainTx ≠ 0 ↔ i.nStatus.haveData = true ∧
        (i.pprev.all fun q => (invalidatedTree.entry q).nChainTx != 0) = true := by decide
    rw [show invalidatedNode.mapBlockIndex = invalidatedTree from rfl] at hp ⊢
    rw [hlink _ (invalidatedTree_entry hp).1]
    refine and_congr_right fun _ => ?_
    cases (invalidatedTree.entry p).pprev with
    | none => simp
    | some q => simp

/-- A peer that has announced the header, and has the invalid block in common with the node. -/
def invalidatedPeer : BlockAvailability := ⟨some 3, 0, some 2⟩

theorem invalidatedPeer_stored : invalidatedPeer.Stored invalidatedTree := by
  refine ⟨fun p hp => ?_, fun p hp => ?_⟩ <;> rw [← Option.some.inj hp] <;> decide

/-- The header on top of the invalid block is fetched from the peer. -/
theorem invalidatedPeer_fetch : ∃ d,
    findNextBlocksToDownload invalidatedTree [1] ∅ 7 16 invalidatedPeer (-1) = .ok d ∧
    ∃ start common, some 2 = some start ∧ IsLastCommon invalidatedTree start 3 common ∧
      d.From invalidatedTree ∅ 7 16 (-1) 3 common := by
  have hspec : ∃ d, findNextBlocksToDownload invalidatedTree [1] ∅ 7 16 invalidatedPeer (-1) = .ok d ∧ _ :=
    findNextBlocksToDownload_spec invalidatedTree_download (fun hash id it h => by simp at h)
      invalidatedPeer_stored (by decide)
  rcases hspec with ⟨d, hd, -, hfrom⟩
  rcases hfrom 3 1 rfl rfl (by decide) with ⟨start, common, hstart, hcommon, hd'⟩
  exact ⟨d, hd, start, common, hstart, hcommon, hd'⟩

/-- The branch may have an invalid block below the blocks that are returned; and a peer that has nothing
interesting need not have a last common block. -/
theorem download_above_invalid :
    (¬ ∀ (m : BlockMap) (chainActive : CChain) (state : BlockAvailability) (best : UInt256) (d : Downloadable),
      DownloadTree m chainActive → state.Stored m →
        (processBlockAvailability m state).pindexBestKnownBlock = some best →
        findNextBlocksToDownload m chainActive ∅ 7 16 state (-1) = .ok d →
        ∀ p ∈ d.vBlocks, ∀ a, m.Ancestor a best → validTree m a = false →
          (m.entry p).nHeight < (m.entry a).nHeight) ∧
    ¬ ∀ (m : BlockMap) (chainActive : CChain) (state : BlockAvailability) (d : Downloadable),
      DownloadTree m chainActive → state.Stored m →
        findNextBlocksToDownload m chainActive ∅ 7 16 state (-1) = .ok d →
        ∃ c, d.state.pindexLastCommonBlock = some c := by
  constructor
  · intro hall
    have hrun : findNextBlocksToDownload invalidatedTree [1] ∅ 7 16 invalidatedPeer (-1) =
        .ok ⟨[3], -1, invalidatedPeer⟩ := by rfl
    have hbelow := hall invalidatedTree [1] invalidatedPeer 3 _ invalidatedTree_download
      invalidatedPeer_stored rfl hrun 3 List.mem_cons_self 2 (ancestor_pprev rfl) rfl
    exact absurd hbelow (by decide)
  · intro hall
    have hrun : findNextBlocksToDownload invalidatedTree [1] ∅ 7 16 ⟨none, 0, none⟩ (-1) =
        .ok ⟨[], -1, ⟨none, 0, none⟩⟩ := by rfl
    have hstored : BlockAvailability.Stored invalidatedTree ⟨none, 0, none⟩ := by
      constructor <;> exact fun p hp => absurd hp (Option.not_mem_none p)
    rcases hall invalidatedTree [1] ⟨none, 0, none⟩ _ invalidatedTree_download hstored hrun with ⟨c, hc⟩
    cases hc

end Dobbscoin
