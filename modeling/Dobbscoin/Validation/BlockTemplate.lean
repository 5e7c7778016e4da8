import Dobbscoin.Validation.ClockMarks

/-!
# Block templates

The header half of `CreateNewBlock`, `UpdateTime`, and what `getblocktemplate` answers about the time.
The bits of a template are those of its `curtime`, and a miner may choose any time from `mintime` on.
`everyTimePasses_iff` says for which tips and clocks each of these times goes with the bits.
-/

namespace Dobbscoin

open Guard

/-- `VERSION_CHAIN_START`. -/
def versionChainStart : Int32 := 0x10000

/-- `SetChainId`. -/
def CPureBlockHeader.setChainId (h : CPureBlockHeader) (chainId : Int32) : CPureBlockHeader :=
  { h with nVersion := h.nVersion % versionChainStart ||| chainId * versionChainStart }

/-- `GetNextWorkRequiredForMining`. -/
def getNextWorkRequiredForMining (horizon : Horizon) (P : CChainParams)
    (pindexLast : List CBlockIndex) (pblock : CBlockHeader) : UInt32 :=
  if emergencyDifficultyWindow P pblock pindexLast then getCompact P.bnProofOfWorkLimit
  else getNextWorkRequired horizon P pindexLast pblock

/-- `max(GetMedianTimePast() + 1, GetAdjustedTime())`, in the 32 bits of the header. -/
def templateTime (E : Env) (pindexPrev : List CBlockIndex) : UInt32 :=
  UInt32.ofNat (max (getMedianTimePast pindexPrev + 1) E.adjustedTime % 2 ^ 32).toNat

/-- `UpdateTime`.  Updating the time can change the work required. -/
def updateTime (E : Env) (pblock : CBlockHeader) (pindexPrev : List CBlockIndex) : CBlockHeader :=
  let pblock := { pblock with nTime := templateTime E pindexPrev }
  { pblock with nBits := getNextWorkRequiredForMining E.horizon E.params pindexPrev pblock }

/-! ## The two checks of a header that depend on its time -/

/-- The first check of `ContextualCheckBlockHeader`. -/
def checkDifficulty (E : Env) (chain : List CBlockIndex) (block : CBlockHeader) :
    Except CValidationError Unit :=
  rejectIf (E.params.fSkipProofOfWorkCheck = false ∧
      block.nBits ≠ getNextWorkRequired E.horizon E.params chain block ∧
      isEmergencyDifficultyBlock E.params block chain = false)
    (.doS 100 rejectInvalid "bad-diffbits")

/-- Its check of the timestamp. -/
def checkTimestamp (chain : List CBlockIndex) (block : CBlockHeader) : Except CValidationError Unit :=
  rejectIf (block.getBlockTime ≤ getMedianTimePast chain) (.invalid 0 rejectInvalid "time-too-old" false)

section

variable {E : Env} {m : BlockMap} {block : CBlockHeader} {pindexPrev : UInt256}

/-- The two refusals that a wrong time can bring. -/
def IsTimeError (e : CValidationError) : Prop :=
  e = .doS 100 rejectInvalid "bad-diffbits" ∨ e = .invalid 0 rejectInvalid "time-too-old" false

instance (e : CValidationError) : Decidable (IsTimeError e) :=
  inferInstanceAs (Decidable (_ ∨ _))

/-- A check that refuses for another reason, before checks that do not refuse for the time. -/
theorem rejectIf_bind_ne {c : Prop} [Decidable c] {e e' : CValidationError}
    {f : Unit → Except CValidationError Unit} (he : IsTimeError e) (he' : ¬ IsTimeError e')
    (hf : f () ≠ .error e) : (rejectIf c e' >>= f) ≠ .error e := by
  refine bind_ne_error (rejectIf_ne_error ?_) fun _ _ => hf
  rintro rfl
  exact he' he

/-- A header that passes the two is not refused for its bits or its time. -/
theorem contextualCheckBlockHeader_ne_error {e : CValidationError} (he : IsTimeError e)
    (hbits : checkDifficulty E (m.chainOf pindexPrev) block = .ok ())
    (htime : checkTimestamp (m.chainOf pindexPrev) block = .ok ()) :
    contextualCheckBlockHeader E m block pindexPrev ≠ .error e := by
  rw [checkDifficulty, rejectIf_eq_ok] at hbits
  rw [checkTimestamp, rejectIf_eq_ok] at htime
  have hok : ∀ {f : Unit → Except CValidationError Unit}, f () ≠ .error e →
      ((.ok () : Except CValidationError Unit) >>= f) ≠ .error e := fun hf => hf
  unfold contextualCheckBlockHeader
  dsimp only
  rw [rejectIf_of_not _ hbits, rejectIf_of_not _ htime]
  split_ifs
  · exact fun h => by cases h
  · apply hok
    apply rejectIf_bind_ne he (by decide)
    apply rejectIf_bind_ne he (by decide)
    apply rejectIf_bind_ne he (by decide)
    apply hok
    apply rejectIf_bind_ne he (by decide)
    apply rejectIf_bind_ne he (by decide)
    apply rejectIf_bind_ne he (by decide)
    refine rejectIf_ne_error ?_
    rintro rfl
    exact absurd he (by decide)

/-- A header with wrong bits is refused for them, unless it has the hash of the genesis block. -/
theorem contextualCheckBlockHeader_bad_diffbits
    (hgenesis : block.getHash E.crypto ≠ E.params.hashGenesisBlock)
    (hbits : checkDifficulty E (m.chainOf pindexPrev) block ≠ .ok ()) :
    contextualCheckBlockHeader E m block pindexPrev =
      .error (.doS 100 rejectInvalid "bad-diffbits") := by
  rw [checkDifficulty, ne_eq, rejectIf_eq_ok, not_not] at hbits
  unfold contextualCheckBlockHeader
  dsimp only
  rw [if_neg hgenesis, rejectIf_of _ hbits]
  rfl

end

/-! ## Where the required work depends on the time -/

/-- The rule of the test network: the first retarget rule is in force between two retargets, and the
block comes more than two spacings after its parent. -/
def MinDifficultyRule (P : CChainParams) (chain : List CBlockIndex) (nTime : Int) : Prop :=
  ∃ last ∈ chain.head?, P.fPowNoRetargeting = false ∧ diffMode P (last.nHeight + 1) = 1 ∧
    ((last.nHeight : Int) + 1) % P.interval ≠ 0 ∧ P.fAllowMinDifficultyBlocks = true ∧
    nTime > last.getBlockTime + P.nTargetSpacing * 2

/-- A block with this time may be mined at the limit: by the valve, or by the rule of the test
network. -/
def Eased (P : CChainParams) (chain : List CBlockIndex) (block : CBlockHeader) : Prop :=
  emergencyDifficultyWindow P block chain = true ∨ MinDifficultyRule P chain block.getBlockTime

instance (P : CChainParams) (chain : List CBlockIndex) (nTime : Int) :
    Decidable (MinDifficultyRule P chain nTime) :=
  match chain with
  | [] => isFalse fun ⟨_, hlast, _⟩ => nomatch hlast
  | last :: _ =>
    decidable_of_iff (P.fPowNoRetargeting = false ∧ diffMode P (last.nHeight + 1) = 1 ∧
      ((last.nHeight : Int) + 1) % P.interval ≠ 0 ∧ P.fAllowMinDifficultyBlocks = true ∧
      nTime > last.getBlockTime + P.nTargetSpacing * 2) (by simp [MinDifficultyRule])

instance (P : CChainParams) (chain : List CBlockIndex) (block : CBlockHeader) :
    Decidable (Eased P chain block) :=
  inferInstanceAs (Decidable (_ ∨ _))

section

variable {horizon : Horizon} {P : CChainParams} {chain : List CBlockIndex} {b b' : CBlockHeader}

theorem emergencyDifficultyWindow_mono (hle : b.getBlockTime ≤ b'.getBlockTime)
    (h : emergencyDifficultyWindow P b chain = true) : emergencyDifficultyWindow P b' chain = true := by
  cases chain with
  | nil => exact h
  | cons prev ancestors =>
    simp only [emergencyDifficultyWindow] at h ⊢
    split_ifs at h ⊢ with hfork
    have hgap := of_decide_eq_true h
    have hle' : (b.nTime.toNat : Int) ≤ b'.nTime.toNat := hle
    exact decide_eq_true (by omega)

/-- What eases a block eases every later one. -/
theorem Eased.mono (hle : b.getBlockTime ≤ b'.getBlockTime) (h : Eased P chain b) : Eased P chain b' := by
  rcases h with hwindow | ⟨last, hlast, hretarget, hmode, hinterval, hallow, htime⟩
  · exact Or.inl (emergencyDifficultyWindow_mono hle hwindow)
  · exact Or.inr ⟨last, hlast, hretarget, hmode, hinterval, hallow, lt_of_lt_of_le htime hle⟩

/-- The rule of the test network asks for the limit. -/
theorem getNextWorkRequired_of_rule (h : MinDifficultyRule P chain b.getBlockTime) :
    getNextWorkRequired horizon P chain b = getCompact P.bnProofOfWorkLimit := by
  rcases h with ⟨last, hlast, hretarget, hmode, hinterval, hallow, htime⟩
  cases chain with
  | nil => cases hlast
  | cons first ancestors =>
    obtain rfl : first = last := Option.some.inj hlast
    have htime' : (b.nTime.toNat : Int) > first.getBlockTime + P.nTargetSpacing * 2 := htime
    simp only [getNextWorkRequired, hretarget, hmode, getNextWorkRequiredV1, hallow, Bool.false_eq_true,
      if_false, if_true, if_pos hinterval, if_pos htime']

/-- Beside that rule the required work does not depend on the block. -/
theorem getNextWorkRequired_congr (h : ¬ MinDifficultyRule P chain b.getBlockTime)
    (h' : ¬ MinDifficultyRule P chain b'.getBlockTime) :
    getNextWorkRequired horizon P chain b = getNextWorkRequired horizon P chain b' := by
  cases chain with
  | nil => rfl
  | cons last ancestors =>
    unfold getNextWorkRequired
    dsimp only
    split_ifs with hretarget
    · rfl
    · split
      next hmode =>
        -- Only the first rule reads the block.
        unfold getNextWorkRequiredV1
        dsimp only
        split_ifs with hinterval hallow htime htime' htime'
        any_goals rfl
        · exact absurd ⟨last, rfl, by simpa using hretarget, hmode, hinterval, hallow, htime⟩ h
        · exact absurd ⟨last, rfl, by simpa using hretarget, hmode, hinterval, hallow, htime'⟩ h'
      all_goals rfl

/-- **The mining side.**  An eased block is asked for the limit. -/
theorem getNextWorkRequiredForMining_of_eased (h : Eased P chain b) :
    getNextWorkRequiredForMining horizon P chain b = getCompact P.bnProofOfWorkLimit := by
  unfold getNextWorkRequiredForMining
  split_ifs with hwindow
  · rfl
  · exact getNextWorkRequired_of_rule (h.resolve_left hwindow)

theorem getNextWorkRequiredForMining_of_not_eased (h : ¬ Eased P chain b) :
    getNextWorkRequiredForMining horizon P chain b = getNextWorkRequired horizon P chain b := by
  unfold getNextWorkRequiredForMining
  rw [if_neg fun hwindow => h (Or.inl hwindow)]

end

/-! ## `getblocktemplate` -/

/-- `CBlockHeader::CURRENT_VERSION`. -/
def currentBlockVersion : Int32 := 3

/-- The options of the miner that the header depends on. -/
structure MinerArgs where
  /-- `Params().MineBlocksOnDemand()`. -/
  fMineBlocksOnDemand : Bool
  /-- `-blockversion`. -/
  blockversion : Option Int32

/-- The header that `CreateNewBlock` makes on `pindexPrev`. -/
def createNewHeader (E : Env) (args : MinerArgs) (m : BlockMap) (pindexPrev : UInt256) : CBlockHeader :=
  let chain := m.chainOf pindexPrev
  let nVersion :=
    if args.fMineBlocksOnDemand then args.blockversion.getD currentBlockVersion else currentBlockVersion
  let pure : CPureBlockHeader := ⟨nVersion, 0, 0, 0, 0, 0⟩
  let pure :=
    if (m.entry pindexPrev).nHeight + 1 ≥ auxPowForkHeight E.params then pure.setChainId auxpowChainId
    else pure
  let pblock := updateTime E ⟨{ pure with hashPrevBlock := pindexPrev }, none⟩ chain
  { pblock with
    nBits := getNextWorkRequiredForMining E.horizon E.params chain pblock
    nNonce := 0 }

/-- What the caller is told about the header. -/
structure BlockTemplate where
  version : Int32
  previousblockhash : UInt256
  target : UInt256
  mintime : Int
  curtime : Int
  bits : UInt32
  height : Nat
  deriving DecidableEq

/-- The end of `getblocktemplate`, from the block it keeps. -/
def blockTemplate (E : Env) (m : BlockMap) (pindexPrev : UInt256) (pblock : CBlockHeader) : BlockTemplate :=
  let chain := m.chainOf pindexPrev
  let pblock := updateTime E pblock chain
  { version := pblock.nVersion
    previousblockhash := pblock.hashPrevBlock
    target := setCompact pblock.nBits
    mintime := getMedianTimePast chain + 1
    curtime := pblock.getBlockTime
    bits := pblock.nBits
    height := (m.entry pindexPrev).nHeight + 1 }

/-- What one call sees. -/
structure TemplateCall where
  env : Env
  mapBlockIndex : BlockMap
  /-- `chainActive.Tip()`. -/
  tip : UInt256
  /-- There are peers, or the network does not require them. -/
  fConnected : Bool
  /-- `GetTime()`. -/
  getTime : Int
  /-- `mempool.GetTransactionsUpdated()`. -/
  transactionsUpdated : UInt32
  /-- What `TestBlockValidity` says of the transactions, after its check of the header. -/
  vtxValid : Bool

/-- The variables that `getblocktemplate` keeps between calls. -/
structure TemplateCache where
  nTransactionsUpdatedLast : UInt32
  nStart : Int
  /-- `pindexPrev` and the header of `pblocktemplate`, which are set together. -/
  template : Option (UInt256 × CBlockHeader)

def TemplateCache.empty : TemplateCache :=
  ⟨0, 0, none⟩

/-- The template of an earlier call still serves. -/
def TemplateCache.serves (cache : TemplateCache) (call : TemplateCall) (pindexPrev : UInt256) : Bool :=
  pindexPrev = call.tip ∧
    ¬ (call.transactionsUpdated ≠ cache.nTransactionsUpdatedLast ∧ call.getTime - cache.nStart > 5)

/-- Create a new block, despite any failures from here on. -/
def createTemplate (args : MinerArgs) (call : TemplateCall) : TemplateCache × Except String CBlockHeader :=
  let pblock := createNewHeader call.env args call.mapBlockIndex call.tip
  let valid := (contextualCheckBlockHeader call.env call.mapBlockIndex pblock call.tip).isOk && call.vtxValid
  if valid then (⟨call.transactionsUpdated, call.getTime, some (call.tip, pblock)⟩, .ok pblock)
  else
    (⟨call.transactionsUpdated, call.getTime, none⟩, .error "CreateNewBlock() : TestBlockValidity failed")

/-- The block that is answered from: the one that is kept, or a new one. -/
def currentTemplate (args : MinerArgs) (call : TemplateCall) (cache : TemplateCache) :
    TemplateCache × Except String CBlockHeader :=
  match cache.template with
  | some (pindexPrev, pblock) =>
    if cache.serves call pindexPrev then (cache, .ok pblock) else createTemplate args call
  | none => createTemplate args call

/-- `getblocktemplate` in the mode `template`, without long polling. -/
def getblocktemplate (args : MinerArgs) (call : TemplateCall) (cache : TemplateCache) :
    TemplateCache × Except String BlockTemplate :=
  if !call.fConnected then (cache, .error "Dobbscoin is not connected!")
  else
    match currentTemplate args call cache with
    | (cache, .error e) => (cache, .error e)
    | (cache, .ok pblock) =>
      let updated := updateTime call.env pblock (call.mapBlockIndex.chainOf call.tip)
      ({ cache with template := some (call.tip, updated) },
        .ok (blockTemplate call.env call.mapBlockIndex call.tip pblock))

/-- What is kept for a tip was made on it. -/
def TemplateCache.Current (cache : TemplateCache) : Prop :=
  ∀ t ∈ cache.template, t.2.hashPrevBlock = t.1

section

variable {args : MinerArgs} {call : TemplateCall} {cache : TemplateCache}

theorem createTemplate_current :
    (createTemplate args call).1.Current ∧
      ∀ pblock, (createTemplate args call).2 = .ok pblock → pblock.hashPrevBlock = call.tip := by
  unfold createTemplate
  dsimp only
  split_ifs
  · constructor
    · rintro t ht
      obtain rfl := Option.some.inj ht
      rfl
    · rintro pblock h
      obtain rfl := Except.ok.inj h
      rfl
  · constructor
    · rintro t ht
      cases ht
    · rintro pblock h
      cases h

theorem currentTemplate_current (hcache : cache.Current) :
    (currentTemplate args call cache).1.Current ∧
      ∀ pblock, (currentTemplate args call cache).2 = .ok pblock → pblock.hashPrevBlock = call.tip := by
  unfold currentTemplate
  split
  next pindexPrev pblock htemplate =>
    split_ifs with hserves
    · refine ⟨hcache, ?_⟩
      rintro _ h
      obtain rfl := Except.ok.inj h
      have htip := (of_decide_eq_true hserves).1
      rw [← htip]
      exact hcache _ htemplate
    · exact createTemplate_current
  · exact createTemplate_current

/-- What an answer is made of. -/
theorem getblocktemplate_ok {a : BlockTemplate} (h : (getblocktemplate args call cache).2 = .ok a) :
    ∃ pblock, (currentTemplate args call cache).2 = .ok pblock ∧
      a = blockTemplate call.env call.mapBlockIndex call.tip pblock := by
  unfold getblocktemplate at h
  split_ifs at h
  split at h
  · cases h
  next cache' pblock hcurrent =>
    exact ⟨pblock, by rw [hcurrent], (Except.ok.inj h).symm⟩

/-- **One call** keeps the template on its tip. -/
theorem getblocktemplate_current (hcache : cache.Current) :
    (getblocktemplate args call cache).1.Current := by
  rcases @currentTemplate_current args call cache hcache with ⟨hkept, htip⟩
  unfold getblocktemplate
  split_ifs
  · exact hcache
  · split
    next cache' e hcurrent =>
      rw [hcurrent] at hkept
      exact hkept
    next cache' pblock hcurrent =>
      rintro t ht
      obtain rfl := Option.some.inj ht
      exact htip pblock (by rw [hcurrent])

end

/-- The calls of a run, one after the other. -/
def TemplateCache.after (args : MinerArgs) (cache : TemplateCache) (calls : List TemplateCall) : TemplateCache :=
  calls.foldl (fun cache call => (getblocktemplate args call cache).1) cache

theorem TemplateCache.Current.after {args : MinerArgs} {cache : TemplateCache} (hcache : cache.Current)
    (calls : List TemplateCall) : (cache.after args calls).Current := by
  induction calls generalizing cache with
  | nil => exact hcache
  | cons call calls ih => exact ih (getblocktemplate_current hcache)

/-- **Every answer** names the tip as its previous block, whatever was asked before. -/
theorem answer_previousblockhash {args : MinerArgs} {calls : List TemplateCall} {call : TemplateCall}
    {a : BlockTemplate}
    (h : (getblocktemplate args call (TemplateCache.empty.after args calls)).2 = .ok a) :
    a.previousblockhash = call.tip := by
  have hcurrent : (TemplateCache.empty.after args calls).Current :=
    TemplateCache.Current.after (by rintro t ht; cases ht) calls
  rcases getblocktemplate_ok h with ⟨pblock, hpblock, rfl⟩
  exact (currentTemplate_current hcurrent).2 pblock hpblock

/-! ## Which times are valid -/

/-- Every time from `mintime` to `curtime` goes with the answer: a header with the version, the previous
block and the bits of the answer passes the two checks on the tip. -/
def EveryTimePasses (call : TemplateCall) (a : BlockTemplate) : Prop :=
  ∀ block : CBlockHeader, block.nVersion = a.version → block.hashPrevBlock = a.previousblockhash →
    block.nBits = a.bits → a.mintime ≤ block.getBlockTime → block.getBlockTime ≤ a.curtime →
    checkDifficulty call.env (call.mapBlockIndex.chainOf call.tip) block = .ok () ∧
      checkTimestamp (call.mapBlockIndex.chainOf call.tip) block = .ok ()

/-- A header of which only the time is read. -/
def headerAt (nTime : UInt32) : CBlockHeader :=
  ⟨⟨0, 0, 0, nTime, 0, 0⟩, none⟩

/-- One requirement covers the time of the template and the least time it allows. -/
def OneRequirement (E : Env) (chain : List CBlockIndex) : Prop :=
  let mintime := getMedianTimePast chain + 1
  let curtime := templateTime E chain
  let least := headerAt (UInt32.ofNat mintime.toNat)
  E.params.fSkipProofOfWorkCheck = true ∨ (curtime.toNat : Int) < mintime ∨
    ¬ Eased E.params chain (headerAt curtime) ∨ Eased E.params chain least ∨
    getNextWorkRequired E.horizon E.params chain least = getCompact E.params.bnProofOfWorkLimit

section

variable {E : Env} {chain : List CBlockIndex} {b b' : CBlockHeader}

theorem Eased.iff_of_time {P : CChainParams} (h : b.nTime = b'.nTime) : Eased P chain b ↔ Eased P chain b' := by
  have htime : b.getBlockTime = b'.getBlockTime := congrArg (fun t : UInt32 => (t.toNat : Int)) h
  exact ⟨Eased.mono (le_of_eq htime), Eased.mono (le_of_eq htime.symm)⟩

/-- The required work reads nothing of the block but its time. -/
theorem getNextWorkRequired_of_time {horizon : Horizon} {P : CChainParams} (h : b.nTime = b'.nTime) :
    getNextWorkRequired horizon P chain b = getNextWorkRequired horizon P chain b' := by
  have htime : b.getBlockTime = b'.getBlockTime := congrArg (fun t : UInt32 => (t.toNat : Int)) h
  by_cases hrule : MinDifficultyRule P chain b.getBlockTime
  · rw [getNextWorkRequired_of_rule hrule, getNextWorkRequired_of_rule (htime ▸ hrule)]
  · exact getNextWorkRequired_congr hrule (htime ▸ hrule)

theorem checkDifficulty_eq_ok :
    checkDifficulty E chain b = .ok () ↔ E.params.fSkipProofOfWorkCheck = true ∨
      b.nBits = getNextWorkRequired E.horizon E.params chain b ∨
      emergencyDifficultyWindow E.params b chain = true ∧ b.nBits = getCompact E.params.bnProofOfWorkLimit := by
  have hemergency : isEmergencyDifficultyBlock E.params b chain = true ↔
      emergencyDifficultyWindow E.params b chain = true ∧
        b.nBits = getCompact E.params.bnProofOfWorkLimit := by
    unfold isEmergencyDifficultyBlock
    split_ifs with hwindow hbits
    · simp_all
    · simp_all
    · simp_all
  rw [checkDifficulty, rejectIf_eq_ok, ← hemergency]
  cases E.params.fSkipProofOfWorkCheck <;> cases isEmergencyDifficultyBlock E.params b chain <;> simp

/-- **An eased block** passes with the bits of the limit. -/
theorem checkDifficulty_of_eased (h : Eased E.params chain b)
    (hbits : b.nBits = getCompact E.params.bnProofOfWorkLimit) : checkDifficulty E chain b = .ok () := by
  rw [checkDifficulty_eq_ok]
  rcases h with hwindow | hrule
  · exact Or.inr (Or.inr ⟨hwindow, hbits⟩)
  · exact Or.inr (Or.inl (hbits.trans (getNextWorkRequired_of_rule hrule).symm))

/-- **Another block** passes with the bits of any block that is not eased either. -/
theorem checkDifficulty_of_not_eased (h : ¬ Eased E.params chain b) (h' : ¬ Eased E.params chain b')
    (hbits : b.nBits = getNextWorkRequiredForMining E.horizon E.params chain b') :
    checkDifficulty E chain b = .ok () := by
  rw [getNextWorkRequiredForMining_of_not_eased h'] at hbits
  have hrequired : getNextWorkRequired E.horizon E.params chain b =
      getNextWorkRequired E.horizon E.params chain b' :=
    getNextWorkRequired_congr (fun hrule => h (Or.inr hrule)) fun hrule => h' (Or.inr hrule)
  rw [checkDifficulty_eq_ok]
  exact Or.inr (Or.inl (hbits.trans hrequired.symm))

/-- The bits of a template read nothing of its block but the time. -/
theorem getNextWorkRequiredForMining_of_time {horizon : Horizon} {P : CChainParams} (h : b.nTime = b'.nTime) :
    getNextWorkRequiredForMining horizon P chain b = getNextWorkRequiredForMining horizon P chain b' := by
  by_cases heased : Eased P chain b
  · rw [getNextWorkRequiredForMining_of_eased heased,
      getNextWorkRequiredForMining_of_eased ((Eased.iff_of_time h).1 heased)]
  · rw [getNextWorkRequiredForMining_of_not_eased heased,
      getNextWorkRequiredForMining_of_not_eased fun h' => heased ((Eased.iff_of_time h).2 h'),
      getNextWorkRequired_of_time h]

/-- The least time of a template, when its own time is not below it. -/
theorem headerAt_mintime {t : UInt32} (h : getMedianTimePast chain + 1 ≤ t.toNat) :
    (headerAt (UInt32.ofNat (getMedianTimePast chain + 1).toNat)).getBlockTime =
      getMedianTimePast chain + 1 := by
  have hpos := NodeState.getMedianTimePast_nonneg chain
  have hlt : t.toNat < 2 ^ 32 := t.toNat_lt
  have hfits : (UInt32.ofNat (getMedianTimePast chain + 1).toNat).toNat =
      (getMedianTimePast chain + 1).toNat := by
    simpa using Nat.mod_eq_of_lt (show (getMedianTimePast chain + 1).toNat < 2 ^ 32 by omega)
  show ((UInt32.ofNat (getMedianTimePast chain + 1).toNat).toNat : Int) = _
  rw [hfits]
  omega

end

/-- The template of a call, on the chain of its tip. -/
structure TemplateOn (E : Env) (chain : List CBlockIndex) (a : BlockTemplate) : Prop where
  mintime : a.mintime = getMedianTimePast chain + 1
  curtime : a.curtime = (headerAt (templateTime E chain)).getBlockTime
  bits : a.bits =
    getNextWorkRequiredForMining E.horizon E.params chain (headerAt (templateTime E chain))

theorem getblocktemplate_templateOn {args : MinerArgs} {call : TemplateCall} {cache : TemplateCache}
    {a : BlockTemplate} (h : (getblocktemplate args call cache).2 = .ok a) :
    TemplateOn call.env (call.mapBlockIndex.chainOf call.tip) a := by
  rcases getblocktemplate_ok h with ⟨pblock, -, rfl⟩
  exact ⟨rfl, rfl, getNextWorkRequiredForMining_of_time rfl⟩

section

variable {E : Env} {chain : List CBlockIndex} {a : BlockTemplate}

/-- With one requirement the bits of the template hold at each time. -/
theorem TemplateOn.checkDifficulty_ok (ha : TemplateOn E chain a) (hone : OneRequirement E chain)
    {block : CBlockHeader} (hbits : block.nBits = a.bits) (hfrom : a.mintime ≤ block.getBlockTime)
    (hto : block.getBlockTime ≤ a.curtime) : checkDifficulty E chain block = .ok () := by
  rw [ha.mintime] at hfrom
  rw [ha.curtime] at hto
  rw [ha.bits] at hbits
  have hle : getMedianTimePast chain + 1 ≤ (templateTime E chain).toNat := hfrom.trans hto
  have hleast : (headerAt (UInt32.ofNat (getMedianTimePast chain + 1).toNat)).getBlockTime ≤
      block.getBlockTime := (headerAt_mintime hle).le.trans hfrom
  by_cases hcur : Eased E.params chain (headerAt (templateTime E chain))
  · rw [getNextWorkRequiredForMining_of_eased hcur] at hbits
    by_cases hblock : Eased E.params chain block
    · exact checkDifficulty_of_eased hblock hbits
    · -- The least time is not eased either, so the requirement there is the one here.
      have hnot : ¬ Eased E.params chain (headerAt (UInt32.ofNat (getMedianTimePast chain + 1).toNat)) :=
        fun h => hblock (h.mono hleast)
      rw [checkDifficulty_eq_ok]
      rcases hone with hskip | hempty | hcur' | heased | hrequired
      · exact Or.inl hskip
      · exact absurd hle (not_le.2 hempty)
      · exact absurd hcur hcur'
      · exact absurd heased hnot
      · have hsame : getNextWorkRequired E.horizon E.params chain block =
            getNextWorkRequired E.horizon E.params chain
              (headerAt (UInt32.ofNat (getMedianTimePast chain + 1).toNat)) :=
          getNextWorkRequired_congr (fun h => hblock (Or.inr h)) fun h => hnot (Or.inr h)
        exact Or.inr (Or.inl (hbits.trans (hsame.trans hrequired).symm))
  · exact checkDifficulty_of_not_eased (fun h => hcur (h.mono hto)) hcur hbits

/-- Without it they do not hold at the least time. -/
theorem TemplateOn.least_fails (ha : TemplateOn E chain a) (hnot : ¬ OneRequirement E chain)
    {block : CBlockHeader} (hbits : block.nBits = a.bits)
    (htime : block.nTime = UInt32.ofNat (getMedianTimePast chain + 1).toNat) :
    checkDifficulty E chain block ≠ .ok () := by
  simp only [OneRequirement, not_or, not_not, not_lt] at hnot
  rcases hnot with ⟨hpow, -, hcur, hleast, hrequired⟩
  rw [ha.bits, getNextWorkRequiredForMining_of_eased hcur] at hbits
  rw [ne_eq, checkDifficulty_eq_ok]
  rintro (hskip | hregular | ⟨hwindow, -⟩)
  · exact hpow hskip
  · exact hrequired ((getNextWorkRequired_of_time htime.symm).trans (hregular.symm.trans hbits))
  · exact hleast ((Eased.iff_of_time htime).1 (Or.inl hwindow))

/-- **When every advertised time is valid.**  The template promises the times from the median on, with
bits that hold at its own time: they hold at all of these times exactly when one requirement covers them. -/
theorem everyTimePasses_iff {args : MinerArgs} {call : TemplateCall} {cache : TemplateCache}
    {a : BlockTemplate} (h : (getblocktemplate args call cache).2 = .ok a) :
    EveryTimePasses call a ↔ OneRequirement call.env (call.mapBlockIndex.chainOf call.tip) := by
  have ha := getblocktemplate_templateOn h
  generalize hchain : call.mapBlockIndex.chainOf call.tip = chain at ha
  unfold EveryTimePasses
  rw [hchain]
  constructor
  · intro hall
    by_contra hnot
    have hle : getMedianTimePast chain + 1 ≤ (templateTime call.env chain).toNat := by
      simp only [OneRequirement, not_or, not_lt] at hnot
      exact hnot.2.1
    let block : CBlockHeader :=
      ⟨⟨a.version, a.previousblockhash, 0, UInt32.ofNat (getMedianTimePast chain + 1).toNat, a.bits, 0⟩, none⟩
    have htime : block.getBlockTime = getMedianTimePast chain + 1 := headerAt_mintime hle
    have hto : block.getBlockTime ≤ a.curtime := by
      rw [ha.curtime, htime]
      exact hle
    have hpass := hall block rfl rfl rfl (by rw [ha.mintime, htime]) hto
    exact ha.least_fails hnot rfl rfl hpass.1
  · intro hone block _ _ hbits hfrom hto
    refine ⟨ha.checkDifficulty_ok hone hbits hfrom hto, ?_⟩
    rw [checkTimestamp, rejectIf_eq_ok]
    rw [ha.mintime] at hfrom
    omega

end

/-- **The headers of a template.**  An answer is for the tip; when one requirement covers its times, no header it allows
is refused for its bits or its time; when none does, those of the least time are. -/
theorem template_headers (args : MinerArgs) (calls : List TemplateCall) (call : TemplateCall) (a : BlockTemplate)
    (h : (getblocktemplate args call (TemplateCache.empty.after args calls)).2 = .ok a) :
    a.previousblockhash = call.tip ∧
      (OneRequirement call.env (call.mapBlockIndex.chainOf call.tip) →
        ∀ block : CBlockHeader, block.nBits = a.bits → a.mintime ≤ block.getBlockTime →
          block.getBlockTime ≤ a.curtime → ∀ e, IsTimeError e →
            contextualCheckBlockHeader call.env call.mapBlockIndex block call.tip ≠ .error e) ∧
      (¬ OneRequirement call.env (call.mapBlockIndex.chainOf call.tip) →
        ∀ block : CBlockHeader, block.nBits = a.bits → block.nTime = UInt32.ofNat a.mintime.toNat →
          block.getHash call.env.crypto ≠ call.env.params.hashGenesisBlock →
            contextualCheckBlockHeader call.env call.mapBlockIndex block call.tip =
              .error (.doS 100 rejectInvalid "bad-diffbits")) := by
  have ha := getblocktemplate_templateOn h
  refine ⟨answer_previousblockhash h, ?_, ?_⟩
  · intro hone block hbits hfrom hto e he
    refine contextualCheckBlockHeader_ne_error he (ha.checkDifficulty_ok hone hbits hfrom hto) ?_
    rw [checkTimestamp, rejectIf_eq_ok]
    rw [ha.mintime] at hfrom
    omega
  · intro hnot block hbits htime hgenesis
    rw [ha.mintime] at htime
    exact contextualCheckBlockHeader_bad_diffbits hgenesis (ha.least_fails hnot hbits htime)

/-! ## The first template of the test network -/

def genesisEnv : Env where
  params := testNetParams
  crypto := ⟨fun _ => 0, fun _ => 0⟩
  horizon := fun _ _ _ => false
  -- An hour after the genesis block.
  adjustedTime := 1393993603
  fCheckpointsEnabled := true
  newAddress := id

def genesisEntry : CBlockIndex :=
  { CBlockIndex.null with
    phashBlock := hashGenesisBlockTestNet
    nVersion := 1
    nTime := 1393990003
    nBits := 0x1e0ffff0
    nNonce := 2181768 }

/-- A node that has nothing but the genesis block. -/
def firstCall : TemplateCall where
  env := genesisEnv
  mapBlockIndex := [genesisEntry]
  tip := hashGenesisBlockTestNet
  fConnected := true
  getTime := 1393993603
  transactionsUpdated := 0
  vtxValid := true

def noArgs : MinerArgs :=
  ⟨false, none⟩

/-- The bits of the limit, which the rule of the test network asks for after twenty minutes. -/
def firstTemplate : BlockTemplate where
  version := 3
  previousblockhash := hashGenesisBlockTestNet
  target := setCompact 0x1e0fffff
  mintime := 1393990004
  curtime := 1393993603
  bits := 0x1e0fffff
  height := 1

/-- What a miner makes of it at the least time. -/
def earlyHeader : CBlockHeader :=
  ⟨⟨3, hashGenesisBlockTestNet, 0, 1393990004, 0x1e0fffff, 0⟩, none⟩

theorem firstTemplate_answered :
    (getblocktemplate noArgs firstCall TemplateCache.empty).2 = .ok firstTemplate := by
  decide

theorem everyTimePasses_iff_first :
    EveryTimePasses firstCall firstTemplate ↔
      OneRequirement genesisEnv (firstCall.mapBlockIndex.chainOf firstCall.tip) :=
  everyTimePasses_iff firstTemplate_answered

/-- The first template allows a time at which its bits are wrong. -/
theorem firstTemplate_refused :
    (getblocktemplate noArgs firstCall TemplateCache.empty).2 = .ok firstTemplate ∧
      (earlyHeader.nVersion = firstTemplate.version ∧
        earlyHeader.hashPrevBlock = firstTemplate.previousblockhash ∧
        earlyHeader.nBits = firstTemplate.bits ∧ firstTemplate.mintime ≤ earlyHeader.getBlockTime ∧
        earlyHeader.getBlockTime ≤ firstTemplate.curtime) ∧
      contextualCheckBlockHeader genesisEnv firstCall.mapBlockIndex earlyHeader firstCall.tip =
        .error (.doS 100 rejectInvalid "bad-diffbits") ∧
      ¬ EveryTimePasses firstCall firstTemplate := by
  refine ⟨firstTemplate_answered, by decide, by decide, ?_⟩
  intro hall
  have hpass := (hall earlyHeader rfl rfl rfl (by decide) (by decide)).1
  exact absurd hpass (by decide)

/-- A second call is answered with the template of the first one. -/
theorem template_headers_again :
    contextualCheckBlockHeader genesisEnv firstCall.mapBlockIndex earlyHeader firstCall.tip =
      .error (.doS 100 rejectInvalid "bad-diffbits") := by
  have hnot : ¬ OneRequirement genesisEnv (firstCall.mapBlockIndex.chainOf firstCall.tip) := by
    unfold OneRequirement
    decide
  exact (template_headers noArgs [firstCall] firstCall firstTemplate (by decide)).2.2 hnot earlyHeader rfl rfl
    (by decide)

end Dobbscoin
