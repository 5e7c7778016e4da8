import Dobbscoin.Lib.Samples
import Dobbscoin.Wallet.CreateTransaction

/-!
# Estimates of fees and priorities

`CBlockAverage` and `CMinerPolicyEstimator` of `txmempool.cpp`: samples from blocks, in buckets by the number of blocks
it took, and the estimates that are picked from them.
-/

namespace Dobbscoin

open Samples

variable {est : CMinerPolicyEstimator} {oldPriorities : List Priority} {oldFees : List CFeeRate}

/-! ## Samples of one bucket -/

/-- A number of type `double` that is not NaN. -/
abbrev Priority := WithBot (WithTop ℚ)

/-- `double`: `none` is NaN, with which every comparison is false. -/
abbrev Double := Option Priority

def feeKey (fee : CFeeRate) : Int :=
  fee.nSatoshisPerK.toInt

/-- `GetFeePerK`. -/
def CFeeRate.getFeePerK (rate : CFeeRate) : CAmount :=
  rate.getFee 1000

/-- `CFeeRate(nFeePaid, nSize)`. -/
def CFeeRate.ofPaid (nFeePaid : CAmount) (nSize : Nat) : CFeeRate :=
  if 0 < nSize then ⟨((nFeePaid * 1000).toUInt64 / UInt64.ofNat nSize).toInt64⟩ else ⟨0⟩

/-- `COIN * 144 / 250`. -/
def allowFreeThreshold : Priority := ((57600000 : ℚ) : WithTop ℚ)

def allowFree (dPriority : Double) : Bool :=
  dPriority.any fun p => decide (allowFreeThreshold < p)

structure CBlockAverage where
  feeSamples : Buffer CFeeRate 100
  prioritySamples : Buffer Priority 100

namespace CBlockAverage

def new : CBlockAverage :=
  ⟨.empty, .empty⟩

def recordFee (avg : CBlockAverage) (feeRate : CFeeRate) : CBlockAverage :=
  { avg with feeSamples := avg.feeSamples.push feeRate }

def recordPriority (avg : CBlockAverage) (priority : Priority) : CBlockAverage :=
  { avg with prioritySamples := avg.prioritySamples.push priority }

/-- `AreSane(fee, minRelayFee)`. -/
def areSaneFee (fee minRelayFee : CFeeRate) : Bool :=
  if fee.nSatoshisPerK < 0 then false
  else if fee.getFeePerK > minRelayFee.getFeePerK * 10000 then false
  else true

/-- `AreSane(priority)`. -/
def areSanePriority (priority : Double) : Bool :=
  priority.any fun p => decide (0 ≤ p)

/-- `Read`, after the two vectors have been read from the file; `none` is the exception. -/
def read (vecFee : List CFeeRate) (vecPriority : List Double) (minRelayFee : CFeeRate) : Option CBlockAverage :=
  if vecFee.all fun fee => areSaneFee fee minRelayFee then
    if vecPriority.all areSanePriority then
      some ⟨Buffer.empty.append vecFee, Buffer.empty.append (vecPriority.filterMap id)⟩
    else none
  else none

end CBlockAverage

/-! ## The estimator -/

/-- What is used of an entry of the pool; `dPriority` is `GetPriority(GetHeight())`. -/
structure CTxMemPoolEntry where
  nFee : CAmount
  nTxSize : Nat
  nHeight : UInt32
  dPriority : Double

structure CMinerPolicyEstimator where
  history : List CBlockAverage
  sortedFeeSamples : List CFeeRate
  sortedPrioritySamples : List Priority
  nBestSeenHeight : Int32

/-- The samples, sorted again if they were cleared. -/
def sortedAgain {α K : Type} [LinearOrder K] (key : α → K) (samples sorted : List α) : List α :=
  if sorted.isEmpty then descending key samples else sorted

/-- The sample for the bucket `n`, or `noData`. -/
def estimateFrom {α : Type} (sizes : List Nat) (sorted : List α) (noData : α) (n : Nat) : Option α :=
  if sorted.length < 11 then some noData else pick sorted (rank sizes n)

/-- `std::shuffle`, with a different order each time. -/
structure Shuffle (α : Type) where
  shuffle : Nat → List α → List α
  perm : ∀ i l, (shuffle i l).Perm l

/-- What is in the file of estimates. -/
structure EstimatesFile where
  nFileBestSeenHeight : Int32
  entries : List (List CFeeRate × List Double)

namespace CMinerPolicyEstimator

def new (nEntries : Nat) : CMinerPolicyEstimator :=
  ⟨List.replicate nEntries .new, [], [], 0⟩

def fees (est : CMinerPolicyEstimator) : List CFeeRate :=
  est.history.flatMap fun avg => avg.feeSamples.items

def priorities (est : CMinerPolicyEstimator) : List Priority :=
  est.history.flatMap fun avg => avg.prioritySamples.items

/-- `estimateFee`.  A result of `none` is an index outside the list. -/
def estimateFee (est : CMinerPolicyEstimator) (nBlocksToConfirm : Int) : Option CFeeRate × CMinerPolicyEstimator :=
  let nBlocksToConfirm := nBlocksToConfirm - 1
  if nBlocksToConfirm < 0 ∨ nBlocksToConfirm ≥ est.history.length then (some ⟨0⟩, est)
  else
    let est := { est with sortedFeeSamples := sortedAgain feeKey est.fees est.sortedFeeSamples }
    let sizes := est.history.map fun avg => avg.feeSamples.items.length
    (estimateFrom sizes est.sortedFeeSamples ⟨0⟩ nBlocksToConfirm.toNat, est)

/-- `estimatePriority`. -/
def estimatePriority (est : CMinerPolicyEstimator) (nBlocksToConfirm : Int) : Option Priority × CMinerPolicyEstimator :=
  let nBlocksToConfirm := nBlocksToConfirm - 1
  if nBlocksToConfirm < 0 ∨ nBlocksToConfirm ≥ est.history.length then (some ((-1 : ℚ) : WithTop ℚ), est)
  else
    let est := { est with sortedPrioritySamples := sortedAgain id est.priorities est.sortedPrioritySamples }
    let sizes := est.history.map fun avg => avg.prioritySamples.items.length
    (estimateFrom sizes est.sortedPrioritySamples ((-1 : ℚ) : WithTop ℚ) nBlocksToConfirm.toNat, est)

/-- `seenTxConfirm`. -/
def seenTxConfirm (est : CMinerPolicyEstimator) (feeRate minRelayFee : CFeeRate) (dPriority : Double) (nBlocksAgo : Nat) :
    CMinerPolicyEstimator :=
  let nBlocksTruncated := min nBlocksAgo (est.history.length - 1)
  let sufficientFee := decide (feeRate.nSatoshisPerK > minRelayFee.nSatoshisPerK)
  let sufficientPriority := allowFree dPriority
  if sufficientFee && !sufficientPriority && CBlockAverage.areSaneFee feeRate minRelayFee then
    { est with history := est.history.modify nBlocksTruncated fun avg => avg.recordFee feeRate }
  else if sufficientPriority && !sufficientFee && CBlockAverage.areSanePriority dPriority then
    { est with history := est.history.modify nBlocksTruncated fun avg =>
        dPriority.elim avg fun p => avg.recordPriority p }
  else est

/-- The bucket of an entry; none for one that came later than the block. -/
def bucketOf (nEntries : Nat) (nBlockHeight : Int32) (entry : CTxMemPoolEntry) : Option Nat :=
  let delta := (nBlockHeight.toUInt32 - entry.nHeight).toInt32.toInt
  if delta ≤ 0 then none
  else if delta - 1 ≥ nEntries then some (nEntries - 1)
  else some (delta - 1).toNat

/-- The entries of one bucket that are recorded: at most ten. -/
def chosen (shuffle : Shuffle CTxMemPoolEntry) (i : Nat) (e : List CTxMemPoolEntry) : List CTxMemPoolEntry :=
  if e.length > 10 then (shuffle.shuffle i e).take 10 else e

def recordBucket (est : CMinerPolicyEstimator) (minRelayFee : CFeeRate) (i : Nat) (e : List CTxMemPoolEntry) :
    CMinerPolicyEstimator :=
  e.foldl (fun est entry => est.seenTxConfirm (.ofPaid entry.nFee entry.nTxSize) minRelayFee entry.dPriority i) est

/-- The log at the end of `seenBlock` asks for the estimates of each bucket that is not empty. -/
def logEstimates (est : CMinerPolicyEstimator) (i : Nat) : CMinerPolicyEstimator :=
  let logged := est.history[i]?.any fun avg => decide (0 < avg.feeSamples.items.length + avg.prioritySamples.items.length)
  if logged then ((est.estimateFee (i + 1)).2.estimatePriority (i + 1)).2 else est

/-- `seenBlock`. -/
def seenBlock (est : CMinerPolicyEstimator) (entries : List CTxMemPoolEntry) (nBlockHeight : Int32)
    (minRelayFee : CFeeRate) (shuffle : Shuffle CTxMemPoolEntry) : CMinerPolicyEstimator :=
  if nBlockHeight ≤ est.nBestSeenHeight then est
  else
    let buckets := List.range est.history.length
    let est := { est with nBestSeenHeight := nBlockHeight }
    let est := buckets.foldl (fun (est' : CMinerPolicyEstimator) i =>
      est'.recordBucket minRelayFee i
        (chosen shuffle i (entries.filter fun entry => bucketOf est.history.length nBlockHeight entry = some i))) est
    let est := { est with sortedFeeSamples := [], sortedPrioritySamples := [] }
    buckets.foldl logEstimates est

/-- `Read`; a file that is not accepted changes nothing. -/
def read (est : CMinerPolicyEstimator) (file : EstimatesFile) (minRelayFee : CFeeRate) :
    Option CMinerPolicyEstimator := do
  if file.entries.length ≤ 0 ∨ file.entries.length > 10000 then none
  else
    let fileHistory ← file.entries.mapM fun entry => CBlockAverage.read entry.1 entry.2 minRelayFee
    some { est with nBestSeenHeight := file.nFileBestSeenHeight, history := fileHistory }

end CMinerPolicyEstimator

/-! ## Runs -/

inductive EstimatorEvent where
  | seenBlock (entries : List CTxMemPoolEntry) (nBlockHeight : Int32) (shuffle : Shuffle CTxMemPoolEntry)
  | estimateFee (nBlocksToConfirm : Int)
  | estimatePriority (nBlocksToConfirm : Int)
  | read (file : EstimatesFile)

/-- The estimator, with the samples that a file replaced since the last block that was counted. -/
structure EstimatorRun where
  est : CMinerPolicyEstimator
  oldFees : List CFeeRate
  oldPriorities : List Priority

namespace EstimatorRun

def step (minRelayFee : CFeeRate) (r : EstimatorRun) : EstimatorEvent → EstimatorRun
  | .seenBlock entries nBlockHeight shuffle =>
    let counted := decide (¬nBlockHeight ≤ r.est.nBestSeenHeight)
    { est := r.est.seenBlock entries nBlockHeight minRelayFee shuffle
      oldFees := if counted then [] else r.oldFees
      oldPriorities := if counted then [] else r.oldPriorities }
  | .estimateFee nBlocksToConfirm => { r with est := (r.est.estimateFee nBlocksToConfirm).2 }
  | .estimatePriority nBlocksToConfirm => { r with est := (r.est.estimatePriority nBlocksToConfirm).2 }
  | .read file =>
    match r.est.read file minRelayFee with
    | some est => ⟨est, r.est.fees ++ r.oldFees, r.est.priorities ++ r.oldPriorities⟩
    | none => r

def start (nEntries : Nat) : EstimatorRun :=
  ⟨.new nEntries, [], []⟩

/-- The estimator after these events. -/
def run (nEntries : Nat) (minRelayFee : CFeeRate) (events : List EstimatorEvent) : EstimatorRun :=
  events.foldl (step minRelayFee) (start nEntries)

end EstimatorRun

/-! ## The sorted samples -/

/-- The sorted samples are in order, and each of them was recorded. -/
structure Cached {α K : Type} [LinearOrder K] (key : α → K) (recorded sorted : List α) : Prop where
  ordered : sorted.Pairwise fun a b => key b ≤ key a
  mem : ∀ a ∈ sorted, a ∈ recorded

section

variable {α K : Type} [LinearOrder K] {key : α → K} {samples old sorted : List α}

theorem Cached.nil (recorded : List α) : Cached key recorded [] :=
  ⟨List.Pairwise.nil, fun _ hin => absurd hin List.not_mem_nil⟩

theorem Cached.sortedAgain (h : Cached key (samples ++ old) sorted) :
    Cached key (samples ++ old) (sortedAgain key samples sorted) := by
  rw [Dobbscoin.sortedAgain]
  split
  · exact ⟨descending_pairwise key samples, fun a hin => List.mem_append_left _ (mem_descending.1 hin)⟩
  · exact h

theorem sortedAgain_sortedAgain (key : α → K) (samples sorted : List α) :
    sortedAgain key samples (sortedAgain key samples sorted) = sortedAgain key samples sorted := by
  cases sorted with
  | cons a sorted => rfl
  | nil =>
    rw [sortedAgain]
    split
    · rfl
    · rfl

/-- All buckets have an estimate, and a later one has no larger one; or none has one. -/
theorem estimateFrom_spec {recorded : List α} (h : Cached key recorded sorted) (sizes : List Nat) (noData : α) :
    (∀ n, estimateFrom sizes sorted noData n = some noData) ∨
      (∀ n, ∃ a ∈ recorded, estimateFrom sizes sorted noData n = some a) ∧
        ∀ m n, m ≤ n → ∀ a b, estimateFrom sizes sorted noData m = some a →
          estimateFrom sizes sorted noData n = some b → key b ≤ key a := by
  by_cases hfew : sorted.length < 11
  · exact Or.inl fun n => if_pos hfew
  · have hne : sorted ≠ [] := fun hnil => hfew (by rw [hnil]; exact Nat.zero_lt_succ _)
    refine Or.inr ⟨fun n => ?_, fun m n hmn a b ha hb => ?_⟩
    · rcases exists_pick hne (rank sizes n) with ⟨a, hin, hpick⟩
      exact ⟨a, h.mem a hin, (if_neg hfew).trans hpick⟩
    · rw [estimateFrom, if_neg hfew] at ha hb
      exact pick_antitone h.ordered (rank_mono sizes hmn) ha hb

end

/-! ## What the steps keep -/

/-- The sorted samples come from the history or from what it replaced, and priorities are not negative. -/
structure EstimatorRun.Sound (r : EstimatorRun) : Prop where
  fees : Cached feeKey (r.est.fees ++ r.oldFees) r.est.sortedFeeSamples
  priorities : Cached id (r.est.priorities ++ r.oldPriorities) r.est.sortedPrioritySamples
  nonneg : ∀ p ∈ r.est.priorities ++ r.oldPriorities, 0 ≤ p

namespace CMinerPolicyEstimator

theorem estimateFee_cases (est : CMinerPolicyEstimator) (n : Int) :
    (est.estimateFee n).2 = est ∨
      (est.estimateFee n).2 = { est with sortedFeeSamples := sortedAgain feeKey est.fees est.sortedFeeSamples } := by
  rw [estimateFee]
  dsimp only
  split
  · exact Or.inl rfl
  · exact Or.inr rfl

theorem estimatePriority_cases (est : CMinerPolicyEstimator) (n : Int) :
    (est.estimatePriority n).2 = est ∨
      (est.estimatePriority n).2 =
        { est with sortedPrioritySamples := sortedAgain id est.priorities est.sortedPrioritySamples } := by
  rw [estimatePriority]
  dsimp only
  split
  · exact Or.inl rfl
  · exact Or.inr rfl

theorem estimateFee_sound (h : EstimatorRun.Sound ⟨est, oldFees, oldPriorities⟩) (n : Int) :
    EstimatorRun.Sound ⟨(est.estimateFee n).2, oldFees, oldPriorities⟩ := by
  rcases estimateFee_cases est n with heq | heq
  · rw [heq]
    exact h
  · rw [heq]
    exact ⟨h.fees.sortedAgain, h.priorities, h.nonneg⟩

theorem estimatePriority_sound (h : EstimatorRun.Sound ⟨est, oldFees, oldPriorities⟩) (n : Int) :
    EstimatorRun.Sound ⟨(est.estimatePriority n).2, oldFees, oldPriorities⟩ := by
  rcases estimatePriority_cases est n with heq | heq
  · rw [heq]
    exact h
  · rw [heq]
    exact ⟨h.fees, h.priorities.sortedAgain, h.nonneg⟩

/-- All priorities that are recorded are not negative. -/
def NonNeg (est : CMinerPolicyEstimator) : Prop :=
  ∀ avg ∈ est.history, ∀ p ∈ avg.prioritySamples.items, 0 ≤ p

theorem nonNeg_priorities (h : est.NonNeg) : ∀ p ∈ est.priorities, 0 ≤ p := by
  intro p hin
  rcases List.mem_flatMap.1 hin with ⟨avg, havg, hp⟩
  exact h avg havg p hp

theorem nonNeg_iff : est.NonNeg ↔ ∀ p ∈ est.priorities, 0 ≤ p :=
  ⟨nonNeg_priorities, fun h avg havg p hp => h p (List.mem_flatMap.2 ⟨avg, havg, hp⟩)⟩

end CMinerPolicyEstimator

theorem mem_modify {α : Type} {f : α → α} {i : Nat} {l : List α} {b : α} (h : b ∈ l.modify i f) :
    b ∈ l ∨ ∃ a ∈ l, b = f a := by
  rcases List.mem_iff_getElem?.1 h with ⟨j, hj⟩
  rw [List.getElem?_modify] at hj
  rcases Option.map_eq_some_iff.1 hj with ⟨a, ha, rfl⟩
  split
  · exact Or.inr ⟨a, List.mem_of_getElem? ha, rfl⟩
  · exact Or.inl (List.mem_of_getElem? ha)

theorem exists_of_mem_mapM {α β : Type} {f : α → Option β} {l : List α} {l' : List β} (h : l.mapM f = some l')
    {b : β} (hin : b ∈ l') : ∃ a ∈ l, f a = some b := by
  induction l generalizing l' with
  | nil =>
    rw [List.mapM_nil] at h
    cases Option.some.inj h
    exact absurd hin List.not_mem_nil
  | cons a l ih =>
    rw [List.mapM_cons] at h
    rcases Option.bind_eq_some_iff.1 h with ⟨b', hb', h⟩
    rcases Option.bind_eq_some_iff.1 h with ⟨bs, hbs, h⟩
    cases Option.some.inj h
    rcases List.mem_cons.1 hin with rfl | hin
    · exact ⟨a, List.mem_cons_self, hb'⟩
    · rcases ih hbs hin with ⟨a', hin', hb⟩
      exact ⟨a', List.mem_cons_of_mem a hin', hb⟩

theorem mem_lastOf {α : Type} {n : Nat} {items : List α} {a : α} (h : a ∈ lastOf n items) : a ∈ items :=
  List.mem_of_mem_drop h

namespace CMinerPolicyEstimator

/-- A priority is recorded only if it is sane. -/
theorem seenTxConfirm_nonNeg (h : est.NonNeg) (feeRate minRelayFee : CFeeRate)
    (dPriority : Double) (n : Nat) : (est.seenTxConfirm feeRate minRelayFee dPriority n).NonNeg := by
  rw [seenTxConfirm]
  split
  · intro avg havg p hp
    rcases mem_modify havg with hin | ⟨avg', hin, rfl⟩
    · exact h avg hin p hp
    · exact h avg' hin p hp
  · split
    · next hpriority =>
      rw [Bool.and_eq_true] at hpriority
      cases dPriority with
      | none => cases hpriority.2
      | some priority =>
        have hsane : 0 ≤ priority := of_decide_eq_true hpriority.2
        intro avg havg p hp
        rcases mem_modify havg with hin | ⟨avg', hin, rfl⟩
        · exact h avg hin p hp
        · rcases List.mem_append.1 (mem_lastOf hp) with hp | hp
          · exact h avg' hin p hp
          · rw [List.mem_singleton.1 hp]
            exact hsane
    · exact h

theorem recordBucket_nonNeg (h : est.NonNeg) (minRelayFee : CFeeRate) (i : Nat)
    (e : List CTxMemPoolEntry) : (est.recordBucket minRelayFee i e).NonNeg := by
  induction e generalizing est with
  | nil => exact h
  | cons entry e ih => exact ih (seenTxConfirm_nonNeg h _ _ _ _)

theorem logEstimates_sound (h : EstimatorRun.Sound ⟨est, oldFees, oldPriorities⟩) (i : Nat) :
    EstimatorRun.Sound ⟨est.logEstimates i, oldFees, oldPriorities⟩ := by
  rw [logEstimates]
  split
  · exact estimatePriority_sound (estimateFee_sound h _) _
  · exact h

/-- A block that is counted clears what was sorted before. -/
theorem seenBlock_sound (h : est.NonNeg) (entries : List CTxMemPoolEntry)
    {nBlockHeight : Int32} (hcounted : ¬nBlockHeight ≤ est.nBestSeenHeight) (minRelayFee : CFeeRate)
    (shuffle : Shuffle CTxMemPoolEntry) :
    EstimatorRun.Sound ⟨est.seenBlock entries nBlockHeight minRelayFee shuffle, [], []⟩ := by
  rw [seenBlock, if_neg hcounted]
  dsimp only
  generalize List.range est.history.length = buckets
  have hrecorded : ∀ (is : List Nat) (est' : CMinerPolicyEstimator), est'.NonNeg →
      (is.foldl (fun (est' : CMinerPolicyEstimator) i => est'.recordBucket minRelayFee i
        (chosen shuffle i (entries.filter fun entry => bucketOf est.history.length nBlockHeight entry = some i)))
        est').NonNeg := by
    intro is
    induction is with
    | nil => exact fun _ h => h
    | cons i is ih => exact fun est' h => ih _ (recordBucket_nonNeg h _ _ _)
  have hlogged : ∀ (is : List Nat) (est' : CMinerPolicyEstimator), EstimatorRun.Sound ⟨est', [], []⟩ →
      EstimatorRun.Sound ⟨is.foldl logEstimates est', [], []⟩ := by
    intro is
    induction is with
    | nil => exact fun _ h => h
    | cons i is ih => exact fun est' h => ih _ (logEstimates_sound h i)
  have hnonneg := hrecorded buckets { est with nBestSeenHeight := nBlockHeight } h
  refine hlogged buckets _ ⟨.nil _, .nil _, fun p hin => ?_⟩
  rw [List.append_nil] at hin
  exact nonNeg_priorities hnonneg p hin

/-- A file changes the history only, and all of its priorities are sane. -/
theorem read_cases {est est' : CMinerPolicyEstimator} {file : EstimatesFile} {minRelayFee : CFeeRate}
    (h : est.read file minRelayFee = some est') :
    est'.sortedFeeSamples = est.sortedFeeSamples ∧ est'.sortedPrioritySamples = est.sortedPrioritySamples ∧
      est'.NonNeg := by
  rw [read] at h
  split at h
  · cases h
  · rcases Option.bind_eq_some_iff.1 h with ⟨fileHistory, hread, h⟩
    cases Option.some.inj h
    refine ⟨rfl, rfl, fun avg havg p hp => ?_⟩
    rcases exists_of_mem_mapM hread havg with ⟨entry, -, hentry⟩
    rw [CBlockAverage.read] at hentry
    split at hentry
    · split at hentry
      · next hsane =>
        cases Option.some.inj hentry
        rcases List.mem_append.1 (mem_lastOf hp) with hp | hp
        · exact absurd hp List.not_mem_nil
        · rcases List.mem_filterMap.1 hp with ⟨priority, hin, rfl⟩
          exact of_decide_eq_true (List.all_eq_true.1 hsane (some p) hin)
      · cases hentry
    · cases hentry

end CMinerPolicyEstimator

/-! ## All runs -/

namespace EstimatorRun

theorem start_sound (nEntries : Nat) : Sound (start nEntries) := by
  refine ⟨.nil _, .nil _, fun p hin => ?_⟩
  rcases List.mem_append.1 hin with hin | hin
  · rcases List.mem_flatMap.1 hin with ⟨avg, havg, hp⟩
    rw [List.eq_of_mem_replicate havg] at hp
    exact absurd hp List.not_mem_nil
  · exact absurd hin List.not_mem_nil

theorem Sound.step {r : EstimatorRun} (h : r.Sound) (minRelayFee : CFeeRate) (event : EstimatorEvent) :
    (r.step minRelayFee event).Sound := by
  cases event with
  | seenBlock entries nBlockHeight shuffle =>
    by_cases hold : nBlockHeight ≤ r.est.nBestSeenHeight
    · -- A block of a side chain changes nothing.
      have hsame : r.est.seenBlock entries nBlockHeight minRelayFee shuffle = r.est := if_pos hold
      have hcounted : decide (¬nBlockHeight ≤ r.est.nBestSeenHeight) = false := decide_eq_false fun hne => hne hold
      rw [EstimatorRun.step, hsame, hcounted]
      exact h
    · have hcounted : decide (¬nBlockHeight ≤ r.est.nBestSeenHeight) = true := decide_eq_true hold
      rw [EstimatorRun.step, hcounted]
      have hnonneg : r.est.NonNeg := CMinerPolicyEstimator.nonNeg_iff.2 fun p hin =>
        h.nonneg p (List.mem_append_left _ hin)
      exact CMinerPolicyEstimator.seenBlock_sound hnonneg entries hold minRelayFee shuffle
  | estimateFee n => exact CMinerPolicyEstimator.estimateFee_sound h n
  | estimatePriority n => exact CMinerPolicyEstimator.estimatePriority_sound h n
  | read file =>
    rw [EstimatorRun.step]
    cases hread : r.est.read file minRelayFee with
    | none => exact h
    | some est =>
      rcases CMinerPolicyEstimator.read_cases hread with ⟨hfees, hpriorities, hnonneg⟩
      -- What was sorted before the file was read is still used.
      refine ⟨⟨?_, fun a hin => ?_⟩, ⟨?_, fun a hin => ?_⟩, fun p hin => ?_⟩
      · exact hfees ▸ h.fees.ordered
      · exact List.mem_append_right _ (h.fees.mem a (hfees ▸ hin))
      · exact hpriorities ▸ h.priorities.ordered
      · exact List.mem_append_right _ (h.priorities.mem a (hpriorities ▸ hin))
      · rcases List.mem_append.1 hin with hin | hin
        · exact CMinerPolicyEstimator.nonNeg_priorities hnonneg p hin
        · exact h.nonneg p hin

theorem run_sound (nEntries : Nat) (minRelayFee : CFeeRate) (events : List EstimatorEvent) :
    (run nEntries minRelayFee events).Sound := by
  have hfold : ∀ (events : List EstimatorEvent) (r : EstimatorRun), r.Sound →
      (events.foldl (step minRelayFee) r).Sound := by
    intro events
    induction events with
    | nil => exact fun _ h => h
    | cons event events ih => exact fun r h => ih _ (h.step minRelayFee event)
  exact hfold events _ (start_sound nEntries)

end EstimatorRun

/-! ## The estimates -/

/-- The estimates for the targets from 1 to `targets`: they are there, they do not increase with the target, and all of
them are recorded samples if not all are `noData`. -/
structure Estimates {α K : Type} [LinearOrder K] (key : α → K) (recorded : List α) (noData : α) (targets : Nat)
    (estimate : Int → Option α) : Prop where
  antitone : ∀ a b : Int, 1 ≤ a → a ≤ b → b ≤ targets →
    ∃ x y, estimate a = some x ∧ estimate b = some y ∧ key y ≤ key x
  all_or_none : (∀ n : Int, 1 ≤ n → n ≤ targets → estimate n = some noData) ∨
    ∀ n : Int, 1 ≤ n → n ≤ targets → ∃ x ∈ recorded, estimate n = some x

theorem Cached.estimates {α K : Type} [LinearOrder K] {key : α → K} {recorded sorted : List α}
    (h : Cached key recorded sorted) (sizes : List Nat) (noData : α) {targets : Nat} {estimate : Int → Option α}
    (hestimate : ∀ n : Int, 1 ≤ n → n ≤ targets → estimate n = estimateFrom sizes sorted noData (n - 1).toNat) :
    Estimates key recorded noData targets estimate := by
  rcases estimateFrom_spec h sizes noData with hnone | ⟨hall, hantitone⟩
  · have hnoData : ∀ n : Int, 1 ≤ n → n ≤ targets → estimate n = some noData := fun n hpos hle =>
      (hestimate n hpos hle).trans (hnone _)
    refine ⟨fun a b ha hab hb => ?_, Or.inl hnoData⟩
    exact ⟨noData, noData, hnoData a ha (hab.trans hb), hnoData b (ha.trans hab) hb, le_rfl⟩
  · have hrecorded : ∀ n : Int, 1 ≤ n → n ≤ targets → ∃ x ∈ recorded, estimate n = some x := fun n hpos hle => by
      rw [hestimate n hpos hle]
      exact hall _
    refine ⟨fun a b ha hab hb => ?_, Or.inr hrecorded⟩
    rcases hrecorded a ha (hab.trans hb) with ⟨x, -, hx⟩
    rcases hrecorded b (ha.trans hab) hb with ⟨y, -, hy⟩
    refine ⟨x, y, hx, hy, hantitone (a - 1).toNat (b - 1).toNat (by omega) x y ?_ ?_⟩
    · exact (hestimate a ha (hab.trans hb)).symm.trans hx
    · exact (hestimate b (ha.trans hab) hb).symm.trans hy

namespace CMinerPolicyEstimator

/-- An earlier estimate does not change a later one. -/
theorem estimateFee_after (est : CMinerPolicyEstimator) (a b : Int) :
    ((est.estimateFee a).2.estimateFee b).1 = (est.estimateFee b).1 ∧
      ((est.estimatePriority a).2.estimateFee b).1 = (est.estimateFee b).1 := by
  constructor
  · rcases estimateFee_cases est a with heq | heq
    · rw [heq]
    · rw [heq, estimateFee, estimateFee]
      have hagain := sortedAgain_sortedAgain feeKey est.fees est.sortedFeeSamples
      rw [fees] at hagain ⊢
      dsimp only
      split
      · rfl
      · dsimp only [fees] at hagain ⊢
        rw [hagain]
  · rcases estimatePriority_cases est a with heq | heq
    · rw [heq]
    · rw [heq, estimateFee, estimateFee]
      dsimp only
      split
      · rfl
      · rfl

theorem estimatePriority_after (est : CMinerPolicyEstimator) (a b : Int) :
    ((est.estimatePriority a).2.estimatePriority b).1 = (est.estimatePriority b).1 ∧
      ((est.estimateFee a).2.estimatePriority b).1 = (est.estimatePriority b).1 := by
  constructor
  · rcases estimatePriority_cases est a with heq | heq
    · rw [heq]
    · rw [heq, estimatePriority, estimatePriority]
      have hagain := sortedAgain_sortedAgain id est.priorities est.sortedPrioritySamples
      rw [priorities] at hagain ⊢
      dsimp only
      split
      · rfl
      · dsimp only [priorities] at hagain ⊢
        rw [hagain]
  · rcases estimateFee_cases est a with heq | heq
    · rw [heq]
    · rw [heq, estimatePriority, estimatePriority]
      dsimp only
      split
      · rfl
      · rfl

end CMinerPolicyEstimator

/-- In every state, the estimates do not increase with the target, and all or none of them come from samples: those in
the history, or those that a file has replaced since the last block that was counted. -/
theorem estimates_antitone (nEntries : Nat) (minRelayFee : CFeeRate) (events : List EstimatorEvent) :
    let r := EstimatorRun.run nEntries minRelayFee events
    Estimates feeKey (r.est.fees ++ r.oldFees) ⟨0⟩ r.est.history.length (fun n => (r.est.estimateFee n).1) ∧
      Estimates id (r.est.priorities ++ r.oldPriorities) ((-1 : ℚ) : WithTop ℚ) r.est.history.length
        (fun n => (r.est.estimatePriority n).1) ∧
      (∀ p ∈ r.est.priorities ++ r.oldPriorities, 0 ≤ p) ∧
      ∀ a b, ((r.est.estimateFee a).2.estimateFee b).1 = (r.est.estimateFee b).1 ∧
        ((r.est.estimatePriority a).2.estimateFee b).1 = (r.est.estimateFee b).1 ∧
        ((r.est.estimatePriority a).2.estimatePriority b).1 = (r.est.estimatePriority b).1 ∧
        ((r.est.estimateFee a).2.estimatePriority b).1 = (r.est.estimatePriority b).1 := by
  intro r
  have hsound : r.Sound := EstimatorRun.run_sound nEntries minRelayFee events
  have hvalid : ∀ n : Int, 1 ≤ n → n ≤ r.est.history.length → ¬(n - 1 < 0 ∨ n - 1 ≥ r.est.history.length) := by
    intro n hpos hle
    omega
  refine ⟨?_, ?_, hsound.nonneg, fun a b => ?_⟩
  · refine hsound.fees.sortedAgain.estimates (r.est.history.map fun avg => avg.feeSamples.items.length) _ ?_
    intro n hpos hle
    dsimp only [CMinerPolicyEstimator.estimateFee]
    rw [if_neg (hvalid n hpos hle)]
  · refine hsound.priorities.sortedAgain.estimates (r.est.history.map fun avg => avg.prioritySamples.items.length) _ ?_
    intro n hpos hle
    dsimp only [CMinerPolicyEstimator.estimatePriority]
    rw [if_neg (hvalid n hpos hle)]
  · rcases CMinerPolicyEstimator.estimateFee_after r.est a b with ⟨hfee, hfee'⟩
    rcases CMinerPolicyEstimator.estimatePriority_after r.est a b with ⟨hpriority, hpriority'⟩
    exact ⟨hfee, hfee', hpriority, hpriority'⟩

/-- A file with rates of zero, and one with many samples that is read before one without any. -/
def zeroFile : EstimatesFile :=
  ⟨0, [(List.replicate 10 ⟨5⟩, []), (List.replicate 2 ⟨0⟩, [])]⟩

def manySamples : EstimatesFile :=
  ⟨0, [(List.replicate 11 ⟨5⟩, [])]⟩

def noSamples : EstimatesFile :=
  ⟨100, [([], [])]⟩

def EstimatorRun.feeFor (r : EstimatorRun) (n : Int) : Option CAmount :=
  (r.est.estimateFee n).1.map CFeeRate.nSatoshisPerK

/-- A file can hold rates of zero, which are then the estimate of one target only; and a block that is not above the best
height of the file leaves rates that are not recorded any more. -/
theorem estimates_zero :
    let r := EstimatorRun.run 2 ⟨1000⟩ [.read zeroFile]
    let r' := EstimatorRun.run 1 ⟨1000⟩
      [.read manySamples, .estimateFee 1, .read noSamples, .seenBlock [] 50 ⟨fun _ l => l, fun _ _ => .refl _⟩]
    (r.est.history.length = 2 ∧ r.feeFor 1 = some 5 ∧ r.feeFor 2 = some 0) ∧
      r'.est.fees.length = 0 ∧ r'.feeFor 1 = some 5 := by
  decide

end Dobbscoin
