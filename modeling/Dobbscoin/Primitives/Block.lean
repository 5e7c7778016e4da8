import Dobbscoin.Primitives.Transaction

/-!
# Block headers and blocks

`primitives/pureheader.h`, `auxpow.h` (the data) and `primitives/block.h`.

A header is a pure 80-byte header plus an optional AuxPoW trailer.  The trailer is on the wire
exactly when the `VERSION_AUXPOW` bit of `nVersion` is set, and it is *not* covered by the block
hash: that is the hash of the 80 bytes alone.
-/

namespace Dobbscoin

open ByteCodec

/-! ## Pure headers -/

structure CPureBlockHeader where
  nVersion : Int32
  hashPrevBlock : UInt256
  hashMerkleRoot : UInt256
  nTime : UInt32
  nBits : UInt32
  nNonce : UInt32
  deriving DecidableEq

/-- `VERSION_AUXPOW`: the bit that announces the trailer. -/
def versionAuxpow : Int32 := 256

namespace CPureBlockHeader

def codec : ByteCodec CPureBlockHeader :=
  (int32Codec.pair (uint256Codec.pair (uint256Codec.pair
      (uint32Codec.pair (uint32Codec.pair uint32Codec))))).iso
    (fun p => ⟨p.1, p.2.1, p.2.2.1, p.2.2.2.1, p.2.2.2.2.1, p.2.2.2.2.2⟩)
    (fun h => (h.nVersion, h.hashPrevBlock, h.hashMerkleRoot, h.nTime, h.nBits, h.nNonce))
    (fun _ => rfl) (fun _ _ => rfl)

@[simp] theorem codec_fits (h : CPureBlockHeader) : codec.Fits h :=
  ⟨int32Codec_fits _, uint256Codec_fits _, uint256Codec_fits _,
    uint32Codec_fits _, uint32Codec_fits _, uint32Codec_fits _⟩

/-- The bytes from `BEGIN(nVersion)` to `END(nNonce)`. -/
def bytes (h : CPureBlockHeader) : Bytes :=
  codec.put h

theorem bytes_inj {g h : CPureBlockHeader} (hgh : g.bytes = h.bytes) : g = h :=
  codec.put_inj (codec_fits g) (codec_fits h) hgh

def getHash (H : Crypto) (h : CPureBlockHeader) : UInt256 :=
  H.hash h.bytes

def getPoWHash (H : Crypto) (h : CPureBlockHeader) : UInt256 :=
  H.hashScrypt h.bytes

def isAuxpow (h : CPureBlockHeader) : Bool :=
  h.nVersion &&& versionAuxpow != 0

def getChainId (h : CPureBlockHeader) : Int32 :=
  h.nVersion >>> 16

def getBaseVersion (h : CPureBlockHeader) : Int32 :=
  h.nVersion % versionAuxpow

theorem getHash_inj {H : Crypto} {S : Set Bytes} (hS : CollisionFreeOn H S)
    {g h : CPureBlockHeader} (hg : g.bytes ∈ S) (hh : h.bytes ∈ S)
    (hgh : getHash H g = getHash H h) : g = h :=
  bytes_inj (hS _ hg _ hh hgh)

end CPureBlockHeader

/-! ## The AuxPoW trailer -/

structure CAuxPow where
  tx : CTransaction
  hashBlock : UInt256
  vMerkleBranch : List UInt256
  nIndex : Int32
  vChainMerkleBranch : List UInt256
  nChainIndex : Int32
  parentBlock : CPureBlockHeader
  deriving DecidableEq

/-- `std::vector<uint256>`. -/
def hashesCodec : ByteCodec (List UInt256) :=
  vec compactSizeCodec uint256Codec

def CAuxPow.codec : ByteCodec CAuxPow :=
  (CTransaction.codec.pair (uint256Codec.pair (hashesCodec.pair (int32Codec.pair
      (hashesCodec.pair (int32Codec.pair CPureBlockHeader.codec)))))).iso
    (fun p => ⟨p.1, p.2.1, p.2.2.1, p.2.2.2.1, p.2.2.2.2.1, p.2.2.2.2.2.1, p.2.2.2.2.2.2⟩)
    (fun a => (a.tx, a.hashBlock, a.vMerkleBranch, a.nIndex, a.vChainMerkleBranch,
      a.nChainIndex, a.parentBlock))
    (fun _ => rfl) (fun _ _ => rfl)

/-! ## Headers with a trailer, and blocks -/

structure CBlockHeader extends CPureBlockHeader where
  auxpow : Option CAuxPow
  deriving DecidableEq

structure CBlock extends CBlockHeader where
  vtx : List CTransaction
  deriving DecidableEq

namespace CBlockHeader

/-- The wire format.  Its `Fits` asks for a trailer exactly when the version bit is set. -/
def codec : ByteCodec CBlockHeader :=
  (CPureBlockHeader.codec.trailer CPureBlockHeader.isAuxpow CAuxPow.codec).iso
    (fun p => ⟨p.1, p.2⟩) (fun h => (h.toCPureBlockHeader, h.auxpow))
    (fun _ => rfl) (fun _ _ => rfl)

/-- `Serialize`; `none` is the failed `assert(auxpow)`. -/
def serialize (h : CBlockHeader) : Option Bytes :=
  if h.isAuxpow && h.auxpow.isNone then none else some (codec.put h)

/-- `Unserialize`. -/
def unserialize (bs : Bytes) : Option (CBlockHeader × Bytes) :=
  codec.get bs

end CBlockHeader

namespace CBlock

def codec : ByteCodec CBlock :=
  (CBlockHeader.codec.pair (vec compactSizeCodec CTransaction.codec)).iso
    (fun p => ⟨p.1, p.2⟩) (fun b => (b.toCBlockHeader, b.vtx))
    (fun _ => rfl) (fun _ _ => rfl)

/-- `GetSerializeSize` of a block; unlike the hash it counts the trailer. -/
def serializeSize (b : CBlock) : Nat :=
  (codec.put b).length

end CBlock

end Dobbscoin
