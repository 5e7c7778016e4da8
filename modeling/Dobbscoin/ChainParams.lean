import Dobbscoin.Primitives.Transaction

/-!
# Chain parameters

`chainparams.cpp` and the activation heights of `pow.h`.  Only what validation reads is kept: seeds,
ports, address prefixes and the miner's settings are left out.
-/

namespace Dobbscoin

structure CChainParams where
  hashGenesisBlock : UInt256
  /-- `Checkpoints().mapCheckpoints`, lowest height first. -/
  mapCheckpoints : List (Nat × UInt256)
  bnProofOfWorkLimit : UInt256
  nEnforceBlockUpgradeMajority : Nat
  nRejectBlockOutdatedMajority : Nat
  nToCheckBlockUpgradeMajority : Nat
  nTargetTimespan : Int
  nTargetSpacing : Int
  fAllowMinDifficultyBlocks : Bool
  fSkipProofOfWorkCheck : Bool
  fPowNoRetargeting : Bool

def hashGenesisBlockMain : UInt256 :=
  0x6d2d7d525900712451b9697d0b5b2304ebae6efb349540da445bf575c0159969#256

def hashGenesisBlockPow : UInt256 :=
  0xb83bb8028229439a4e645a56d48ee31b884efdb0e395c8538a10a462166563f3#256

def hashGenesisBlockTestNet : UInt256 :=
  0x0d44ae9be7f13a64253c9b61dbbddc37304e1c359fd593565caf356e4fd597c7#256

def mainParams : CChainParams where
  hashGenesisBlock := hashGenesisBlockMain
  mapCheckpoints :=
    [(0, hashGenesisBlockMain),
     (2016, 0x94a9ab39b9e1e7dafdda1a5823c11556750157aa16e93ae2a59de426e185de58#256),
     (4032, 0xa29010ca0ec82b0d2d937f5d82d2e30918467b1f4b3bb51026d13782b7aac73a#256),
     (8064, 0x76ef2061b587842f424aae28fcab25fb8434612b58125258292799aaaed0f833#256),
     (12096, 0x5abe39584788a018296d97a6f00ca80c81603ebbe8ad84af5778e7d6fcdbed70#256),
     (13422, 0xc70a40fe1c53e5525636644e625d4c38c8493b180a0ca81c9d7c9801748e6b52#256),
     (14496, 0xd50a2656a6ac593ebb034c1d5ca5eac93220455727f677e7506629f61d566239#256),
     (15809, 0x31cdc96eb5510e69bf2635b76b0266c0065839685bb30d9b94224d9a5c972b78#256),
     (15882, 0xbfbbf161974b59797b5698b086fd8a5efab4786a3cee389d130da20e03d65eaf#256),
     (30800, 0x3a767fc61883f7d5adfd2b07c810ec4b065812dd40aafbda1944f8f792e2c00a#256),
     (66138, 0x8f4074d04838fb1d0914d46ee35de8b1e069f70df97e207617210469d1ebcf7e#256),
     (68900, 0xe0bef613116487194c2c823110d9b4d630ccd33d186b9dc12db03c03ae21c958#256),
     (318371, 0xabfd65da327b3b1eef32bceed1219b415e1f6d075c242dbc05d8b9d34196afb9#256),
     (1848000, 0xf4e2e967ae88e49a915ed9c3c21faa2bca15c0bb6258ac16c769ccb3962f3615#256)]
  bnProofOfWorkLimit := ~~~0#256 >>> 20
  nEnforceBlockUpgradeMajority := 2750
  nRejectBlockOutdatedMajority := 2950
  nToCheckBlockUpgradeMajority := 9000
  nTargetTimespan := 14 * 24 * 60 * 60
  nTargetSpacing := 10 * 60
  fAllowMinDifficultyBlocks := false
  fSkipProofOfWorkCheck := false
  fPowNoRetargeting := false

def testNetParams : CChainParams :=
  { mainParams with
    hashGenesisBlock := hashGenesisBlockTestNet
    mapCheckpoints := [(0, hashGenesisBlockTestNet)]
    nEnforceBlockUpgradeMajority := 51
    nRejectBlockOutdatedMajority := 75
    nToCheckBlockUpgradeMajority := 100
    fAllowMinDifficultyBlocks := true }

/-- `Interval()`. -/
def CChainParams.interval (P : CChainParams) : Int :=
  P.nTargetTimespan.tdiv P.nTargetSpacing

/-! ## Activation heights -/

def lwma3ForkHeight (P : CChainParams) : Nat :=
  if P.fAllowMinDifficultyBlocks then 100 else 1888808

def auxPowForkHeight (P : CChainParams) : Nat :=
  if P.fAllowMinDifficultyBlocks then 10 else 2000000

def cltvForkHeight (P : CChainParams) : Nat :=
  if P.fAllowMinDifficultyBlocks then 150 else 2000000

def emergencyDiffForkHeight (P : CChainParams) : Nat :=
  if P.fAllowMinDifficultyBlocks then 20 else 1888888

/-- `MAX_REORG_DEPTH`: consensus-level finality. -/
def maxReorgDepth : Int := 100

def auxpowChainId : Int32 := 0x00B0

/-- `EMERGENCY_DIFFICULTY_GAP`: six hours, in seconds. -/
def emergencyDifficultyGap : Int := 6 * 60 * 60

end Dobbscoin
