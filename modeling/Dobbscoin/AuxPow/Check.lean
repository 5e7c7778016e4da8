import Dobbscoin.Lib.Guard
import Dobbscoin.Lib.Lists
import Dobbscoin.Primitives.Block

/-!
# The AuxPoW commitment

`auxpow.cpp`: the commitment of a parent coinbase to one block of this chain.  The scriptSig of
the parent coinbase carries

`fa be 'm' 'm'  root (32 bytes, reversed)  tree size (4 bytes)  nonce (4 bytes)`

and `CAuxPow::check` accepts a block hash when a chain merkle branch leads from it to that root,
at the slot that the nonce, the chain id and the tree height select.
-/

namespace Dobbscoin

open ByteCodec Guard Search

/-! ## Merkle branches -/

/-- One level of `CheckMerkleBranch`: the message that is hashed. -/
def branchMessage (hash sibling : UInt256) (nIndex : Int32) : Bytes :=
  if nIndex &&& 1 != 0 then UInt256.bytes sibling ++ UInt256.bytes hash
  else UInt256.bytes hash ++ UInt256.bytes sibling

/-- The loop of `CheckMerkleBranch`. -/
def foldMerkleBranch (H : Crypto) (hash : UInt256) : List UInt256 → Int32 → UInt256
  | [], _ => hash
  | it :: branch, nIndex =>
      foldMerkleBranch H (H.hash (branchMessage hash it nIndex)) branch (nIndex >>> 1)

/-- `CAuxPow::CheckMerkleBranch`, and `CBlock::CheckMerkleBranch`, which is the same code. -/
def checkMerkleBranch (H : Crypto) (hash : UInt256) (vMerkleBranch : List UInt256)
    (nIndex : Int32) : UInt256 :=
  if nIndex = -1 then 0 else foldMerkleBranch H hash vMerkleBranch nIndex

/-- The messages that the loop of `CheckMerkleBranch` hashes. -/
def branchMessages (H : Crypto) (hash : UInt256) : List UInt256 → Int32 → List Bytes
  | [], _ => []
  | it :: branch, nIndex =>
      branchMessage hash it nIndex ::
        branchMessages H (H.hash (branchMessage hash it nIndex)) branch (nIndex >>> 1)

theorem branchMessage_inj {h₁ h₂ s₁ s₂ : UInt256} {i : Int32}
    (h : branchMessage h₁ s₁ i = branchMessage h₂ s₂ i) : h₁ = h₂ ∧ s₁ = s₂ := by
  have hlen : ∀ x y : UInt256, (UInt256.bytes x).length = (UInt256.bytes y).length := by
    intro x y
    simp
  unfold branchMessage at h
  split at h
  · rcases List.append_inj h (hlen s₁ s₂) with ⟨hs, hh⟩
    exact ⟨UInt256.bytes_inj hh, UInt256.bytes_inj hs⟩
  · rcases List.append_inj h (hlen h₁ h₂) with ⟨hh, hs⟩
    exact ⟨UInt256.bytes_inj hh, UInt256.bytes_inj hs⟩

/-- Two branches of one length from one slot lead to one root only if they start from one hash,
unless the hash function collides on what they hash. -/
theorem foldMerkleBranch_inj {H : Crypto} {S : Set Bytes} (hS : CollisionFreeOn H S) :
    ∀ (b₁ b₂ : List UInt256) (h₁ h₂ : UInt256) (i : Int32),
      b₁.length = b₂.length →
        (∀ m ∈ branchMessages H h₁ b₁ i, m ∈ S) →
          (∀ m ∈ branchMessages H h₂ b₂ i, m ∈ S) →
            foldMerkleBranch H h₁ b₁ i = foldMerkleBranch H h₂ b₂ i → h₁ = h₂ := by
  intro b₁
  induction b₁ with
  | nil =>
      intro b₂ h₁ h₂ i hlen _ _ heq
      have hnil : b₂ = [] := List.length_eq_zero_iff.1 hlen.symm
      subst hnil
      simpa [foldMerkleBranch] using heq
  | cons s₁ b₁ ih =>
      intro b₂ h₁ h₂ i hlen hm₁ hm₂ heq
      cases b₂ with
      | nil => cases hlen
      | cons s₂ b₂ =>
          have hnext : H.hash (branchMessage h₁ s₁ i) = H.hash (branchMessage h₂ s₂ i) :=
            ih b₂ _ _ (i >>> 1) (by simpa using hlen)
              (fun m hm => hm₁ m (List.mem_cons_of_mem _ hm))
              (fun m hm => hm₂ m (List.mem_cons_of_mem _ hm)) heq
          have hmsg : branchMessage h₁ s₁ i = branchMessage h₂ s₂ i :=
            hS _ (hm₁ _ List.mem_cons_self) _ (hm₂ _ List.mem_cons_self) hnext
          exact (branchMessage_inj hmsg).1

/-! ## The commitment check -/

/-- `pchMergedMiningHeader`. -/
def mergedMiningHeader : Bytes :=
  [0xfa, 0xbe, 0x6d, 0x6d]

/-- `ReadLE32`. -/
def readLE32 (pc : Bytes) : UInt32 :=
  UInt32.ofNat (leNat (pc.take 4))

namespace CAuxPow

/-- `getExpectedIndex`; the arithmetic is that of `uint32_t`. -/
def getExpectedIndex (nNonce : UInt32) (nChainId : Int32) (h : Nat) : Int32 :=
  let rand := nNonce * 1103515245 + 12345
  let rand := rand + nChainId.toUInt32
  let rand := rand * 1103515245 + 12345
  (rand % (1 <<< UInt32.ofNat h)).toInt32

/-- `vchRootHash`: the chain merkle root, byte-reversed as it stands in the script. -/
def rootBytes (H : Crypto) (a : CAuxPow) (hashAuxBlock : UInt256) : Bytes :=
  (UInt256.bytes (checkMerkleBranch H hashAuxBlock a.vChainMerkleBranch a.nChainIndex)).reverse

/-- The part of `check` that reads the script of the parent coinbase. -/
def checkScript (a : CAuxPow) (nChainId : Int32) (script root : Bytes) : Except String Unit := do
  let pcHead := offset mergedMiningHeader script
  let pc := offset root script
  rejectIf (pc = script.length) "AuxPow missing chain merkle root in parent coinbase"
  if pcHead ≠ script.length then
    -- The modern path: one header, and the root directly behind it.
    let tail := script.drop (pcHead + 1)
    rejectIf (offset mergedMiningHeader tail ≠ tail.length)
      "Multiple merged mining headers in coinbase"
    rejectIf (pcHead + mergedMiningHeader.length ≠ pc)
      "Merged mining header is not just before chain merkle root"
  else
    rejectIf (pc > 20)
      "AuxPow chain merkle root must start in the first 20 bytes of the parent coinbase"
  let rest := script.drop (pc + root.length)
  rejectIf (rest.length < 8)
    "AuxPow missing chain merkle tree size and nonce in parent coinbase"
  let merkleHeight := a.vChainMerkleBranch.length
  rejectIf (readLE32 rest ≠ 1 <<< UInt32.ofNat merkleHeight)
    "AuxPow merkle branch size does not match parent coinbase"
  rejectIf (a.nChainIndex ≠ getExpectedIndex (readLE32 (rest.drop 4)) nChainId merkleHeight)
    "AuxPow wrong index"

/-- `CAuxPow::check`. -/
def check (H : Crypto) (a : CAuxPow) (hashAuxBlock : UInt256) (nChainId : Int32) :
    Except String Unit := do
  rejectIf (a.nIndex ≠ 0) "AuxPow is not a generate"
  rejectIf (a.parentBlock.getChainId = nChainId) "AuxPow parent has our chain ID"
  rejectIf (a.vChainMerkleBranch.length > 30) "AuxPow chain merkle branch too long"
  rejectIf (checkMerkleBranch H (a.tx.getHash H) a.vMerkleBranch a.nIndex
      ≠ a.parentBlock.hashMerkleRoot) "AuxPow merkle root incorrect"
  match a.tx.vin with
  | [] => .error "AuxPow coinbase has no inputs"
  | i :: _ => a.checkScript nChainId i.scriptSig (a.rootBytes H hashAuxBlock)

end CAuxPow

end Dobbscoin

/-!
# One parent coinbase commits to one block

Fix the parent coinbase.  Its script determines where the merged-mining header stands, hence the
32 root bytes behind it, the tree size and the nonce; the size determines the length of the chain
merkle branch and the nonce the slot.  Two accepted blocks of one chain id therefore hang below one
root at one slot of one tree, and hashing without collisions makes them the same block.
-/

namespace Dobbscoin

open Guard Search

/-! ## The fields that follow the header -/

theorem toNat_one_shiftLeft {k : Nat} (hk : k ≤ 30) :
    ((1 : UInt32) <<< UInt32.ofNat k).toNat = 2 ^ k := by
  have hlt : 2 ^ k < 4294967296 := Nat.pow_lt_pow_right (by decide) (show k < 32 by omega)
  have hmod : k % 32 = k := Nat.mod_eq_of_lt (by omega)
  simpa [UInt32.toNat_shiftLeft, Nat.one_shiftLeft, hmod] using hlt

theorem shift_inj {m n : Nat} (hm : m ≤ 30) (hn : n ≤ 30)
    (h : (1 : UInt32) <<< UInt32.ofNat m = 1 <<< UInt32.ofNat n) : m = n := by
  have hnat : 2 ^ m = 2 ^ n := by
    rw [← toNat_one_shiftLeft hm, ← toNat_one_shiftLeft hn, h]
  exact Nat.pow_right_injective (le_refl 2) hnat

namespace CAuxPow

/-- The expected slot is a position in a tree of at most `2 ^ 30` leaves, never `-1`. -/
theorem getExpectedIndex_ne_neg_one (nNonce : UInt32) (nChainId : Int32) {h : Nat} (hh : h ≤ 30) :
    getExpectedIndex nNonce nChainId h ≠ -1 := by
  intro heq
  have hbound : 2 ^ h ≤ 2 ^ 30 := Nat.pow_le_pow_right (by decide) hh
  have hpos : 0 < 2 ^ h := Nat.two_pow_pos h
  -- As an unsigned number the slot is a remainder modulo `2 ^ h`; `-1` would be `2 ^ 32 - 1`.
  have hval := congrArg (fun x : Int32 => x.toUInt32.toNat) heq
  simp only [getExpectedIndex, UInt32.toUInt32_toInt32, UInt32.toNat_mod, toNat_one_shiftLeft hh] at hval
  have hneg : ((-1 : Int32).toUInt32).toNat = 4294967295 := by decide
  rw [hneg] at hval
  have hlt := Nat.mod_lt
    (((nNonce * 1103515245 + 12345 + nChainId.toUInt32) * 1103515245 + 12345).toNat) hpos
  omega

/-- What an accepted script says when it carries the merged-mining header. -/
theorem checkScript_modern {a : CAuxPow} {c : Int32} {script root : Bytes}
    (hhead : offset mergedMiningHeader script ≠ script.length)
    (h : a.checkScript c script root = .ok ()) :
    let start := offset mergedMiningHeader script + 4
    let rest := script.drop (start + root.length)
    (script.drop start).take root.length = root ∧
      readLE32 rest = 1 <<< UInt32.ofNat a.vChainMerkleBranch.length ∧
      a.nChainIndex =
        getExpectedIndex (readLE32 (rest.drop 4)) c a.vChainMerkleBranch.length := by
  simp only [checkScript, hhead, ne_eq, not_false_eq_true, if_true, bind_eq_ok, rejectIf_eq_ok,
    exists_unit, not_not] at h
  rcases h with ⟨hfound, -, hbehind, -, hsize, hindex⟩
  have hpc : offset root script = offset mergedMiningHeader script + 4 := hbehind.symm
  have hroot := take_drop_offset hfound
  rw [hpc] at hroot hsize hindex
  exact ⟨hroot, hsize, hindex⟩

/-- What `check` accepts: the checks before the script, and the script check. -/
theorem check_ok {H : Crypto} {a : CAuxPow} {hash : UInt256} {c : Int32}
    (h : a.check H hash c = .ok ()) :
    a.vChainMerkleBranch.length ≤ 30 ∧
      ∃ i vin, a.tx.vin = i :: vin ∧
        a.checkScript c i.scriptSig (a.rootBytes H hash) = .ok () := by
  simp only [check, bind_eq_ok, rejectIf_eq_ok, exists_unit, not_not, not_lt] at h
  rcases h with ⟨-, -, hlen, -, hscript⟩
  cases hvin : a.tx.vin with
  | nil => simp [hvin] at hscript
  | cons i vin =>
      refine ⟨hlen, i, vin, rfl, ?_⟩
      simpa [hvin] using hscript

/-- The messages hashed on the way from the block hash to the chain merkle root. -/
def chainMessages (H : Crypto) (a : CAuxPow) (hash : UInt256) : List Bytes :=
  branchMessages H hash a.vChainMerkleBranch a.nChainIndex

@[simp] theorem rootBytes_length (H : Crypto) (a : CAuxPow) (hash : UInt256) :
    (a.rootBytes H hash).length = 32 := by
  simp [rootBytes]

/-- **One commitment per chain id.**  Two AuxPoW values over one parent coinbase that carries the
merged-mining header, both accepted for one chain id, are accepted for one block hash, when the
hash function does not collide on what the two chain merkle branches hash. -/
theorem check_unique_block {H : Crypto} {a₁ a₂ : CAuxPow} {h₁ h₂ : UInt256} {c : Int32}
    (hfree : CollisionFreeOn H {m | m ∈ a₁.chainMessages H h₁ ∨ m ∈ a₂.chainMessages H h₂})
    (htx : a₁.tx = a₂.tx)
    (hmagic : ∀ i ∈ a₁.tx.vin.head?, offset mergedMiningHeader i.scriptSig ≠ i.scriptSig.length)
    (hok₁ : a₁.check H h₁ c = .ok ()) (hok₂ : a₂.check H h₂ c = .ok ()) : h₁ = h₂ := by
  rcases check_ok hok₁ with ⟨hlen₁, i₁, vin₁, hvin₁, hscript₁⟩
  rcases check_ok hok₂ with ⟨hlen₂, i₂, vin₂, hvin₂, hscript₂⟩
  -- The two checks read the same script.
  have hsame : i₁ :: vin₁ = i₂ :: vin₂ := by
    rw [← hvin₁, ← hvin₂, htx]
  cases hsame
  have hhead : offset mergedMiningHeader i₁.scriptSig ≠ i₁.scriptSig.length :=
    hmagic i₁ (by simp [hvin₁])
  have hmod₁ := checkScript_modern hhead hscript₁
  have hmod₂ := checkScript_modern hhead hscript₂
  simp only [rootBytes_length] at hmod₁ hmod₂
  rcases hmod₁ with ⟨hroot₁, hsize₁, hindex₁⟩
  rcases hmod₂ with ⟨hroot₂, hsize₂, hindex₂⟩
  -- Same size field, hence the same tree height; same nonce, hence the same slot.
  have hheight : a₁.vChainMerkleBranch.length = a₂.vChainMerkleBranch.length :=
    shift_inj hlen₁ hlen₂ (hsize₁.symm.trans hsize₂)
  have hslot : a₁.nChainIndex = a₂.nChainIndex := by
    rw [hindex₁, hindex₂, hheight]
  have hne : a₁.nChainIndex ≠ -1 := by
    rw [hindex₁]
    exact getExpectedIndex_ne_neg_one _ _ hlen₁
  -- Same root bytes, hence the same chain merkle root.
  have hroots : a₁.rootBytes H h₁ = a₂.rootBytes H h₂ := hroot₁.symm.trans hroot₂
  have hmerkle : foldMerkleBranch H h₁ a₁.vChainMerkleBranch a₁.nChainIndex =
      foldMerkleBranch H h₂ a₂.vChainMerkleBranch a₁.nChainIndex := by
    have hbytes := UInt256.bytes_inj (List.reverse_injective hroots)
    simpa [checkMerkleBranch, ← hslot, hne] using hbytes
  refine foldMerkleBranch_inj hfree _ _ _ _ _ hheight ?_ ?_ hmerkle
  · intro m hm
    exact Or.inl hm
  · intro m hm
    exact Or.inr (by simpa [chainMessages, ← hslot] using hm)

/-! ## A commitment in a tree of two chains -/

/-- A hash function that returns the first 32 bytes of a message. -/
def headCrypto : Crypto where
  hash m := BitVec.ofNat 256 (ByteCodec.leNat (m.take 32))
  hashScrypt _ := 0

/-- A parent coinbase that commits to the block hash 7, with the sibling hash 9. -/
def sampleCoinbase : CTransaction where
  nVersion := 1
  vin := [{
    prevout := ⟨0, 0xffffffff⟩
    scriptSig := mergedMiningHeader ++ (UInt256.bytes 7).reverse ++ [2, 0, 0, 0] ++ [0, 0, 0, 0]
    nSequence := 0 }]
  vout := []
  nLockTime := 0

def sampleAuxPow (nNonce : UInt32) : CAuxPow where
  tx := sampleCoinbase
  hashBlock := 0
  vMerkleBranch := []
  nIndex := 0
  vChainMerkleBranch := [9]
  nChainIndex := getExpectedIndex 0 176 1
  parentBlock := {
    nVersion := 1
    hashPrevBlock := 0
    hashMerkleRoot := sampleCoinbase.getHash headCrypto
    nTime := 0
    nBits := 0
    nNonce := nNonce }

theorem check_unique_block_sample :
    (sampleAuxPow 1).check headCrypto 7 176 = .ok () ∧ (7 : UInt256) = 7 := by
  refine ⟨by decide, ?_⟩
  have hmsg : ∀ n, (sampleAuxPow n).chainMessages headCrypto 7 =
      [UInt256.bytes 7 ++ UInt256.bytes 9] := by
    intro n
    simp [chainMessages, sampleAuxPow, branchMessages, branchMessage,
      show getExpectedIndex 0 176 1 &&& 1 = 0 by decide]
  refine @check_unique_block headCrypto (sampleAuxPow 1) (sampleAuxPow 2) 7 7 176 ?_ rfl
    (by decide) (by decide) (by decide)
  intro x hx y hy _
  simp only [hmsg, List.mem_singleton, or_self, Set.mem_ofPred_eq] at hx hy
  rw [hx, hy]

end CAuxPow

end Dobbscoin
