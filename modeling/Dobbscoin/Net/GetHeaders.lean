import Dobbscoin.Validation.AcceptHeader

/-!
# Serving headers

The `getheaders` handler of `ProcessMessage`.  It rebuilds each header from its entry in the block
index, and an entry keeps `nVersion` but not the AuxPoW trailer that `nVersion` announces.
`serves_headers_iff` says for which indexes every reply can be sent and is faithful;
`auxPowHeader_not_served` is a reply that cannot be sent.
-/

namespace Dobbscoin

open ByteCodec

/-- `MAX_HEADERS_RESULTS`. -/
def maxHeadersResults : Nat := 2000

namespace NodeState

variable {W : Type}

/-! ## The handler -/

/-- `FindForkInGlobalIndex`: the first block of the locator that is in the active chain. -/
def findForkInGlobalIndex (s : NodeState W) : List UInt256 → Option UInt256
  | [] => s.chainActive.genesis
  | hash :: vHave =>
    if (s.mapBlockIndex.lookup hash).isSome && s.chainActive.contains s.mapBlockIndex hash then
      some hash
    else s.findForkInGlobalIndex vHave

/-- The loop over `chainActive.Next`, up to `hashStop` or the limit. -/
def headersLoop (s : NodeState W) (hashStop : UInt256) : Nat → Option UInt256 → List UInt256
  | _, none => []
  | 0, some pindex => [pindex]
  | nLimit + 1, some pindex =>
    if nLimit = 0 ∨ (s.idx pindex).phashBlock = hashStop then [pindex]
    else pindex :: s.headersLoop hashStop nLimit (s.chainActive.next s.mapBlockIndex pindex)

/-- The blocks a `getheaders` request is answered with. -/
def getHeaders (s : NodeState W) (vHave : List UInt256) (hashStop : UInt256) : List UInt256 :=
  if vHave.isEmpty then
    -- If the locator is null, return the hashStop block.
    if (s.mapBlockIndex.lookup hashStop).isSome then
      s.headersLoop hashStop maxHeadersResults (some hashStop)
    else []
  else
    s.headersLoop hashStop maxHeadersResults
      ((s.findForkInGlobalIndex vHave).bind (s.chainActive.next s.mapBlockIndex))

/-! ## Faithful replies -/

/-- The rebuilt header can be sent, and the receiver reads a header with the block's hash and with
valid proof of work. -/
def FaithfullyServed (E : Env) (i : CBlockIndex) : Prop :=
  ∃ bytes received, i.getBlockHeader.serialize = some bytes ∧
    CBlockHeader.unserialize bytes = some (received, []) ∧
    received.getHash E.crypto = i.phashBlock ∧
    checkAuxPowProofOfWork E.crypto E.params received = true

/-- Every block that can be asked for is faithfully served. -/
def ServesHeaders (E : Env) (s : NodeState W) : Prop :=
  ∀ vHave hashStop, ∀ p ∈ s.getHeaders vHave hashStop, FaithfullyServed E (s.idx p)

/-- Without the version bit the rebuilt header is the accepted one. -/
theorem Represents.faithful {E : Env} {block : CBlockHeader} {i : CBlockIndex}
    (h : Represents E block i) (hplain : i.getBlockHeader.isAuxpow = false) :
    FaithfullyServed E i := by
  have hfits : CBlockHeader.codec.Fits i.getBlockHeader := by
    refine ⟨CPureBlockHeader.codec_fits _, ?_, ?_⟩
    · exact hplain.symm
    · intro b hb
      have hsome : i.getBlockHeader.auxpow = some b := hb
      cases hsome
  refine ⟨CBlockHeader.codec.put i.getBlockHeader, i.getBlockHeader, ?_, ?_, ?_, ?_⟩
  · simp [CBlockHeader.serialize, hplain]
  · exact CBlockHeader.codec.get_put_nil hfits
  · calc
      i.getBlockHeader.getHash E.crypto
          = block.getHash E.crypto := by rw [h.header]
      _ = i.phashBlock := h.hash.symm
  · calc
      checkAuxPowProofOfWork E.crypto E.params i.getBlockHeader
          = checkAuxPowProofOfWork E.crypto E.params block :=
            checkAuxPowProofOfWork_pure h.header hplain
      _ = true := h.pow

/-- With the version bit the assertion of the serializer fails. -/
theorem not_faithful_of_auxpow {E : Env} {i : CBlockIndex}
    (haux : i.getBlockHeader.isAuxpow = true) : ¬ FaithfullyServed E i := by
  rintro ⟨bytes, received, hser, -⟩
  have hnone : i.getBlockHeader.auxpow = none := rfl
  simp [CBlockHeader.serialize, haux, hnone] at hser

/-- The active chain holds stored blocks. -/
def ChainStored (s : NodeState W) : Prop :=
  ∀ p ∈ s.chainActive, (s.mapBlockIndex.lookup p).isSome

theorem next_mem {c : CChain} {m : BlockMap} {p q : UInt256} (h : c.next m p = some q) : q ∈ c := by
  unfold CChain.next at h
  split_ifs at h
  exact List.mem_of_getElem? h

theorem headersLoop_stored {s : NodeState W} (hs : ChainStored s) (hashStop : UInt256)
    (nLimit : Nat) {start : Option UInt256}
    (hstart : ∀ p ∈ start, (s.mapBlockIndex.lookup p).isSome) :
    ∀ p ∈ s.headersLoop hashStop nLimit start, (s.mapBlockIndex.lookup p).isSome := by
  induction nLimit generalizing start with
  | zero =>
    cases start with
    | none => simp [headersLoop]
    | some q => simpa [headersLoop] using hstart q rfl
  | succ nLimit ih =>
    cases start with
    | none => simp [headersLoop]
    | some q =>
      rw [headersLoop]
      split_ifs
      · simpa using hstart q rfl
      · intro p hp
        rcases List.mem_cons.1 hp with rfl | hp
        · exact hstart p rfl
        · apply ih _ p hp
          intro r hr
          exact hs r (next_mem hr)

/-- Only stored blocks are served. -/
theorem getHeaders_stored {s : NodeState W} (hs : ChainStored s) (vHave : List UInt256)
    (hashStop : UInt256) :
    ∀ p ∈ s.getHeaders vHave hashStop, (s.mapBlockIndex.lookup p).isSome := by
  unfold getHeaders
  split_ifs with hnull hfound
  · apply headersLoop_stored hs
    intro p hp
    rw [← Option.some.inj hp]
    exact hfound
  · simp
  · apply headersLoop_stored hs
    intro p hp
    rcases Option.bind_eq_some_iff.1 (Option.mem_def.1 hp) with ⟨f, -, hnext⟩
    exact hs p (next_mem hnext)

/-- A null locator asks for the block `hashStop`, in the active chain or not. -/
theorem mem_getHeaders_of_stored {s : NodeState W} {p : UInt256}
    (hp : (s.mapBlockIndex.lookup p).isSome) : p ∈ s.getHeaders [] p := by
  simp only [getHeaders, List.isEmpty_nil, hp, if_true, maxHeadersResults, headersLoop]
  split_ifs <;> simp

/-- **Serving headers.**  Every request is answered faithfully exactly when no indexed block
announces an AuxPoW trailer. -/
theorem serves_headers_iff (E : Env) (s : NodeState W) (hindexed : Indexed E s.mapBlockIndex)
    (hchain : ChainStored s) :
    ServesHeaders E s ↔
      ∀ p i, s.mapBlockIndex.lookup p = some i → i.getBlockHeader.isAuxpow = false := by
  constructor
  · intro hserves p i hi
    have hserved := hserves [] p p (mem_getHeaders_of_stored (by simp [hi]))
    have hidx : s.idx p = i := BlockMap.entry_of_lookup hi
    rw [hidx] at hserved
    by_contra haux
    exact not_faithful_of_auxpow (by simpa using haux) hserved
  · intro hplain vHave hashStop p hp
    rcases Option.isSome_iff_exists.1 (getHeaders_stored hchain vHave hashStop p hp) with ⟨i, hi⟩
    have hidx : s.idx p = i := BlockMap.entry_of_lookup hi
    rcases hindexed i (BlockMap.lookup_mem hi).1 with ⟨block, hblock⟩
    rw [hidx]
    exact hblock.faithful (hplain p i hi)

/-! ## A chain with a merge-mined block -/

/-- Headers accepted one after the other. -/
def acceptHeaders (E : Env) : NodeState W → List CBlockHeader →
    Except CValidationError (NodeState W)
  | s, [] => .ok s
  | s, block :: rest =>
    match s.acceptBlockHeader E block with
    | .error e => .error e
    | .ok (_, s') => acceptHeaders E s' rest

/-- The index invariant over a run of accepted headers. -/
theorem acceptHeaders_indexed {E : Env} {s s' : NodeState W} {blocks : List CBlockHeader}
    (hs : Indexed E s.mapBlockIndex)
    (hblocks : ∀ b ∈ blocks, CBlockHeader.codec.Fits b ∧ b.RootIfGenesis E)
    (h : acceptHeaders E s blocks = .ok s') : Indexed E s'.mapBlockIndex := by
  induction blocks generalizing s with
  | nil =>
    rw [← Except.ok.inj h]
    exact hs
  | cons b blocks ih =>
    rw [acceptHeaders] at h
    cases hb : s.acceptBlockHeader E b with
    | error e => simp [hb] at h
    | ok res =>
      rcases hblocks b List.mem_cons_self with ⟨hfits, hroot⟩
      simp only [hb] at h
      exact ih (acceptBlockHeader_indexed hroot hs hfits hb)
        (fun c hc => hblocks c (List.mem_cons_of_mem _ hc)) h

/-- The hash of a header is its merkle root. -/
def rootCrypto : Crypto where
  hash m := BitVec.ofNat 256 (leNat ((m.drop 36).take 32))
  hashScrypt _ := 0

def headerEnv : Env where
  params := testNetParams
  crypto := rootCrypto
  horizon := fun _ _ _ => false
  adjustedTime := 100000
  fCheckpointsEnabled := true
  newAddress := id

/-- The genesis block, and blocks ten minutes apart with the hashes `1001`, `1002`, ... -/
def plainHeader (nHeight : Nat) : CBlockHeader where
  nVersion := 3
  hashPrevBlock :=
    if nHeight = 0 then 0
    else if nHeight = 1 then hashGenesisBlockTestNet else BitVec.ofNat 256 (1000 + nHeight - 1)
  hashMerkleRoot :=
    if nHeight = 0 then hashGenesisBlockTestNet else BitVec.ofNat 256 (1000 + nHeight)
  nTime := UInt32.ofNat (1000 + 600 * nHeight)
  nBits := getCompact testNetParams.bnProofOfWorkLimit
  nNonce := 0
  auxpow := none

/-- A parent coinbase that commits to the block `1010`. -/
def parentCoinbase : CTransaction where
  nVersion := 1
  vin := [{
    prevout := ⟨0, 0xffffffff⟩
    scriptSig := mergedMiningHeader ++ (UInt256.bytes 1010).reverse ++ [1, 0, 0, 0] ++ [0, 0, 0, 0]
    nSequence := 0 }]
  vout := []
  nLockTime := 0

/-- The block at height 10, where the AuxPoW fork of the test network is: merge mined. -/
def auxPowHeader : CBlockHeader :=
  { plainHeader 10 with
    nVersion := 0x00B00103
    auxpow := some {
      tx := parentCoinbase
      hashBlock := 0
      vMerkleBranch := []
      nIndex := 0
      vChainMerkleBranch := []
      nChainIndex := 0
      parentBlock := {
        nVersion := 1
        hashPrevBlock := 0
        hashMerkleRoot := parentCoinbase.getHash rootCrypto
        nTime := 0
        nBits := 0
        nNonce := 0 } } }

def plainHeaders : List CBlockHeader :=
  (List.range 10).map plainHeader

/-- Nothing is indexed, and the active chain is given. -/
def emptyState (chain : CChain) : NodeState Unit where
  mapBlockIndex := []
  chainActive := chain
  setBlockIndexCandidates := []
  pindexBestInvalid := none
  pindexBestHeader := none
  mapBlocksUnlinked := []
  nBlockSequenceId := 1
  world := ()

def hashesOf (blocks : List CBlockHeader) : CChain :=
  blocks.map fun b => b.getHash rootCrypto

/-- A run of headers that are read off the wire and accepted, in a form that evaluates. -/
def acceptsAll (blocks : List CBlockHeader) (check : NodeState Unit → Bool) : Bool :=
  blocks.all (fun b => decide (CBlockHeader.codec.get (CBlockHeader.codec.put b) = some (b, [])) &&
      (decide (b.getHash rootCrypto ≠ hashGenesisBlockTestNet) || decide (b.hashPrevBlock = 0))) &&
    match acceptHeaders headerEnv (emptyState (hashesOf blocks)) blocks with
    | .error _ => false
    | .ok s => s.chainActive.all (fun p => (s.mapBlockIndex.lookup p).isSome) && check s

theorem exists_of_acceptsAll {blocks : List CBlockHeader} {check : NodeState Unit → Bool}
    (h : acceptsAll blocks check = true) :
    ∃ s, acceptHeaders headerEnv (emptyState (hashesOf blocks)) blocks = .ok s ∧
      Indexed headerEnv s.mapBlockIndex ∧ ChainStored s ∧ check s = true := by
  simp only [acceptsAll, Bool.and_eq_true, List.all_eq_true, Bool.or_eq_true,
    decide_eq_true_eq] at h
  rcases h with ⟨hwire, hrun⟩
  cases hs : acceptHeaders headerEnv (emptyState (hashesOf blocks)) blocks with
  | error e => simp [hs] at hrun
  | ok s =>
    simp only [hs, Bool.and_eq_true, List.all_eq_true] at hrun
    refine ⟨s, rfl, acceptHeaders_indexed ?_ ?_ hs, hrun.1, hrun.2⟩
    · simp [Indexed, emptyState]
    · intro b hb
      rcases hwire b hb with ⟨hget, hroot⟩
      refine ⟨(CBlockHeader.codec.put_get hget).1, ?_⟩
      intro hgenesis
      rcases hroot with hne | hzero
      · exact absurd hgenesis hne
      · exact hzero

/-- Ten plain blocks. -/
theorem serves_headers_iff_plainHeaders :
    ∃ s, acceptHeaders headerEnv (emptyState (hashesOf plainHeaders)) plainHeaders = .ok s ∧
      (ServesHeaders headerEnv s ↔
        ∀ p i, s.mapBlockIndex.lookup p = some i → i.getBlockHeader.isAuxpow = false) := by
  have hrun : acceptsAll plainHeaders (fun _ => true) = true := by decide
  rcases exists_of_acceptsAll hrun with ⟨s, hs, hindexed, hstored, -⟩
  exact ⟨s, hs, serves_headers_iff headerEnv s hindexed hstored⟩

set_option maxRecDepth 20000 in
/-- The next request for headers after a merge-mined block: the reply cannot be serialized. -/
theorem auxPowHeader_not_served :
    ∃ s, acceptHeaders headerEnv (emptyState (hashesOf (plainHeaders ++ [auxPowHeader])))
        (plainHeaders ++ [auxPowHeader]) = .ok s ∧
      Indexed headerEnv s.mapBlockIndex ∧ ChainStored s ∧
      s.getHeaders [1009] 0 = [1010] ∧ (s.idx 1010).getBlockHeader.serialize = none ∧
      ¬ ServesHeaders headerEnv s := by
  have hrun : acceptsAll (plainHeaders ++ [auxPowHeader]) (fun s =>
      decide (s.getHeaders [1009] 0 = [1010]) &&
        decide ((s.idx 1010).getBlockHeader.serialize = none)) = true := by
    decide
  rcases exists_of_acceptsAll hrun with ⟨s, hs, hindexed, hstored, hreply⟩
  simp only [Bool.and_eq_true, decide_eq_true_eq] at hreply
  refine ⟨s, hs, hindexed, hstored, hreply.1, hreply.2, ?_⟩
  intro hserves
  have hmem : (1010 : UInt256) ∈ s.getHeaders [1009] 0 := by
    rw [hreply.1]
    exact List.mem_singleton_self _
  rcases hserves [1009] 0 1010 hmem with ⟨bytes, received, hser, -⟩
  rw [hreply.2] at hser
  cases hser

end NodeState

end Dobbscoin
