import Dobbscoin.Validation.CheckBlock

/-!
# Merkle branches

The loops of `block.cpp` over `vMerkleTree`, which holds the levels of the merkle tree one after the other,
the transaction ids first.  A block has far less than `2^31` transactions, so the `int`s of the two loops
over the levels are natural numbers here.
-/

namespace Dobbscoin

open MerkleTree

variable {level : List UInt256} {s : List UInt256 × Bool} {H : Crypto} {j : Nat}

/-! ## The loops -/

/-- `vMerkleTree[k]`. -/
def treeAt (vMerkleTree : List UInt256) (k : Nat) : UInt256 :=
  vMerkleTree.getD k 0

/-- One round of the loop over `i`: the node above `i` and its neighbour in the level of `nSize` nodes at
`j`. -/
def pushNode (H : Crypto) (j nSize : Nat) (s : List UInt256 × Bool) (i : Nat) : List UInt256 × Bool :=
  let i2 := min (i + 1) (nSize - 1)
  -- Two identical hashes at the end of the list at a particular level.
  let twice := i2 = i + 1 ∧ i2 + 1 = nSize ∧ treeAt s.1 (j + i) = treeAt s.1 (j + i2)
  (s.1 ++ [merkleNode H (treeAt s.1 (j + i), treeAt s.1 (j + i2))], s.2 || decide twice)

/-- The loop over `i`, which goes by twos. -/
def pushLevel (H : Crypto) (j nSize : Nat) (s : List UInt256 × Bool) : List UInt256 × Bool :=
  ((List.range ((nSize + 1) / 2)).map (2 * ·)).foldl (pushNode H j nSize) s

def buildLoop (H : Crypto) : Nat → Nat → Nat → List UInt256 × Bool → List UInt256 × Bool
  | 0, _, _, s => s
  | fuel + 1, j, nSize, s =>
    if 1 < nSize then buildLoop H fuel (j + nSize) ((nSize + 1) / 2) (pushLevel H j nSize s) else s

/-- `vMerkleTree` and `mutated` after `BuildMerkleTree`. -/
def CBlock.vMerkleTree (H : Crypto) (block : CBlock) : List UInt256 × Bool :=
  buildLoop H block.vtx.length 0 block.vtx.length (block.txids H, false)

/-- What `BuildMerkleTree` returns. -/
def CBlock.merkleRoot (H : Crypto) (block : CBlock) : UInt256 :=
  (block.vMerkleTree H).1.getLastD 0

def branchLoop (vMerkleTree : List UInt256) : Nat → Nat → Nat → Int32 → List UInt256
  | 0, _, _, _ => []
  | fuel + 1, j, nSize, nIndex =>
    if 1 < nSize then
      let i := min (nIndex ^^^ 1).toInt (nSize - 1)
      treeAt vMerkleTree (j + i).toNat ::
        branchLoop vMerkleTree fuel (j + nSize) ((nSize + 1) / 2) (nIndex >>> 1)
    else []

def CBlock.getMerkleBranch (H : Crypto) (block : CBlock) (nIndex : Int32) : List UInt256 :=
  branchLoop (block.vMerkleTree H).1 block.vtx.length 0 block.vtx.length nIndex

/-! ## The tree -/

theorem treeAt_of_getElem? {tree : List UInt256} {k : Nat} {x : UInt256} (h : tree[k]? = some x) :
    treeAt tree k = x := by
  rw [treeAt, List.getD_eq_getElem?_getD, h]
  rfl

/-- The level of `nSize` nodes at `j` is this one. -/
structure LevelAt (tree : List UInt256) (j : Nat) (level : List UInt256) : Prop where
  at_ : ∀ i < level.length, tree[j + i]? = level[i]?

theorem LevelAt.treeAt_eq {tree : List UInt256} {j i : Nat} {x : UInt256}
    (h : LevelAt tree j level) (hx : level[i]? = some x) : treeAt tree (j + i) = x := by
  have hi : i < level.length := (List.getElem?_eq_some_iff.1 hx).1
  exact treeAt_of_getElem? ((h.at_ i hi).trans hx)

theorem LevelAt.append {tree : List UInt256} (h : LevelAt tree j level)
    (more : List UInt256) : LevelAt (tree ++ more) j level := by
  constructor
  intro i hi
  have hat := h.at_ i hi
  rw [List.getElem?_eq_getElem hi] at hat
  rw [List.getElem?_append_left (List.getElem?_eq_some_iff.1 hat).1]
  exact h.at_ i hi

theorem LevelAt.left {tree level above : List UInt256} (h : LevelAt tree j (level ++ above)) :
    LevelAt tree j level := by
  constructor
  intro i hi
  rw [h.at_ i (List.length_append ▸ Nat.lt_add_right _ hi), List.getElem?_append_left hi]

theorem LevelAt.right {tree level above : List UInt256} (h : LevelAt tree j (level ++ above)) :
    LevelAt tree (j + level.length) above := by
  constructor
  intro i hi
  rw [Nat.add_assoc, h.at_ _ (List.length_append ▸ Nat.add_lt_add_left hi _),
    List.getElem?_append_right (Nat.le_add_right _ _), Nat.add_sub_cancel_left]

/-- Does the level end with two equal nodes at `i`? -/
def twiceAt (level : List UInt256) (i : Nat) : Bool :=
  decide (i + 2 = level.length ∧ level[i]? = level[i + 1]?)

/-- One round appends the node above a pair. -/
theorem pushNode_eq {j t : Nat}
    (hlevel : LevelAt s.1 j level) (ht : 2 * t < level.length) :
    ∃ x, (levelUp (merkleNode H) level)[t]? = some x ∧
      pushNode H j level.length s (2 * t) = (s.1 ++ [x], s.2 || twiceAt level (2 * t)) := by
  rcases getElem?_pairUp ht with ⟨a, b, ha, hb, hpair⟩
  have hleft := hlevel.treeAt_eq ha
  have hright := hlevel.treeAt_eq hb
  refine ⟨merkleNode H (a, b), by rw [levelUp, List.getElem?_map, hpair]; rfl, ?_⟩
  have htwice : decide (min (2 * t + 1) (level.length - 1) = 2 * t + 1 ∧
      min (2 * t + 1) (level.length - 1) + 1 = level.length ∧ a = b) = twiceAt level (2 * t) := by
    unfold twiceAt
    rw [decide_eq_decide]
    constructor
    · rintro ⟨hmin, hlast, rfl⟩
      rw [hmin] at hb
      exact ⟨by omega, ha.trans hb.symm⟩
    · rintro ⟨hlast, heq⟩
      have hmin : min (2 * t + 1) (level.length - 1) = 2 * t + 1 := by omega
      rw [hmin] at hb
      refine ⟨hmin, by omega, ?_⟩
      exact Option.some.inj (ha.symm.trans (heq.trans hb))
  simp only [pushNode, hleft, hright, htwice]

theorem foldl_pushNode {ts : List Nat}
    (hlevel : LevelAt s.1 j level) (hts : ∀ t ∈ ts, 2 * t < level.length) :
    ∃ xs, ts.map (fun t => (levelUp (merkleNode H) level)[t]?) = xs.map some ∧
      (ts.map (2 * ·)).foldl (pushNode H j level.length) s =
        (s.1 ++ xs, s.2 || ts.any fun t => twiceAt level (2 * t)) := by
  induction ts generalizing s with
  | nil => exact ⟨[], rfl, by simp⟩
  | cons t ts ih =>
    rcases pushNode_eq (H := H) hlevel (hts t List.mem_cons_self) with ⟨x, hx, hpush⟩
    have hnext : LevelAt (pushNode H j level.length s (2 * t)).1 j level := by
      rw [hpush]
      exact hlevel.append [x]
    rcases ih hnext fun t' ht' => hts t' (List.mem_cons_of_mem _ ht') with ⟨xs, hxs, hfold⟩
    refine ⟨x :: xs, by rw [List.map_cons, List.map_cons, hx, hxs], ?_⟩
    rw [List.map_cons, List.foldl_cons, hfold, hpush]
    simp [Bool.or_assoc]

theorem any_twiceAt (level : List UInt256) :
    ((List.range ((level.length + 1) / 2)).any fun t => twiceAt level (2 * t)) = endsTwice level := by
  rw [Bool.eq_iff_iff, List.any_eq_true, endsTwice_iff]
  simp only [List.mem_range, twiceAt, decide_eq_true_eq]
  constructor
  · rintro ⟨t, ht, hlast, heq⟩
    have hfirst : level.length - 2 = 2 * t := by omega
    have hsecond : level.length - 1 = 2 * t + 1 := by omega
    rw [hfirst, hsecond]
    exact ⟨by omega, by omega, heq⟩
  · rintro ⟨hlen, heven, heq⟩
    have hfirst : 2 * (level.length / 2 - 1) = level.length - 2 := by omega
    have hsecond : level.length - 2 + 1 = level.length - 1 := by omega
    refine ⟨level.length / 2 - 1, by omega, ?_⟩
    rw [hfirst, hsecond]
    exact ⟨by omega, heq⟩

/-- The loop over `i` appends the level above. -/
theorem pushLevel_eq (hlevel : LevelAt s.1 j level) :
    pushLevel H j level.length s = (s.1 ++ levelUp (merkleNode H) level, s.2 || endsTwice level) := by
  have hts : ∀ t ∈ List.range ((level.length + 1) / 2), 2 * t < level.length := by
    intro t ht
    rw [List.mem_range] at ht
    omega
  rcases foldl_pushNode (H := H) hlevel hts with ⟨xs, hxs, hfold⟩
  have hlength : (levelUp (merkleNode H) level).length = (level.length + 1) / 2 := length_levelUp _ _
  have hsame : xs = levelUp (merkleNode H) level := by
    have hall : (List.range ((level.length + 1) / 2)).map (fun t => (levelUp (merkleNode H) level)[t]?) =
        (levelUp (merkleNode H) level).map some := by
      rw [← hlength]
      apply List.ext_getElem
      · simp
      · intro k hk hk'
        simp
    rw [hall] at hxs
    exact (List.map_injective_iff.2 (Option.some_injective _) hxs).symm
  rw [pushLevel, hfold, hsame, any_twiceAt]

theorem LevelAt.last {tree level above : List UInt256} (hend : tree.length = j + level.length) :
    LevelAt (tree ++ above) (j + level.length) above := by
  constructor
  intro i hi
  rw [← hend, List.getElem?_append_right (Nat.le_add_right _ _), Nat.add_sub_cancel_left]

/-- The loop over the levels appends all levels above. -/
theorem buildLoop_eq {fuel j : Nat}
    (hlevel : LevelAt s.1 j level) (hend : s.1.length = j + level.length) :
    buildLoop H fuel j level.length s = (s.1 ++ levelsAbove (merkleNode H) fuel level,
      s.2 || (build (merkleNode H) fuel level).2.1) := by
  induction fuel generalizing j s level with
  | zero => simp [buildLoop, levelsAbove, build]
  | succ fuel ih =>
    rw [buildLoop, levelsAbove, build]
    by_cases hlen : 1 < level.length
    · have hnext : (level.length + 1) / 2 = (levelUp (merkleNode H) level).length :=
        (length_levelUp _ _).symm
      rw [if_pos hlen, if_neg (Nat.not_le.2 hlen), if_neg (Nat.not_le.2 hlen), pushLevel_eq hlevel, hnext]
      rw [ih (LevelAt.last hend)]
      · simp only [List.append_assoc, Bool.or_assoc]
      · rw [List.length_append, hend]
    · rw [if_neg hlen, if_pos (Nat.not_lt.1 hlen), if_pos (Nat.not_lt.1 hlen)]
      simp

theorem CBlock.vMerkleTree_eq (H : Crypto) (block : CBlock) :
    block.vMerkleTree H = (block.txids H ++ levelsAbove (merkleNode H) (block.txids H).length (block.txids H),
      (block.merkleTree H).2.1) := by
  have hlen : block.vtx.length = (block.txids H).length := (List.length_map _).symm
  have hlevel : LevelAt (block.txids H) 0 (block.txids H) := ⟨fun i _ => by rw [Nat.zero_add]⟩
  have hloop : buildLoop H (block.txids H).length 0 (block.txids H).length (block.txids H, false) =
      (block.txids H ++ levelsAbove (merkleNode H) (block.txids H).length (block.txids H),
        false || (block.merkleTree H).2.1) := buildLoop_eq hlevel (Nat.zero_add _).symm
  rw [CBlock.vMerkleTree, hlen, hloop, Bool.false_or]

/-- The loops compute the root and the flag of the tree. -/
theorem CBlock.buildMerkleTree_eq (H : Crypto) (block : CBlock) :
    block.buildMerkleTree H = (block.merkleRoot H, (block.vMerkleTree H).2) := by
  have hlast := build_fst_getLast? (merkleNode H) (block.txids H).length (block.txids H) (Nat.le_succ _)
  rw [CBlock.buildMerkleTree, CBlock.merkleRoot, block.vMerkleTree_eq H]
  rw [List.getLastD_eq_getLast?, List.getLastD_eq_getLast?, ← hlast]
  rfl

/-! ## Branches -/

section

variable {i : Nat} (hi : i < 2 ^ 31)
include hi

theorem ofNat_shiftRight : Int32.ofNat i >>> 1 = Int32.ofNat (i / 2) := by
  apply Int32.toInt_inj.1
  have hshift : (Int32.ofNat i >>> 1).toInt = (Int32.ofNat i).toInt / 2 := by
    have hbits : (Int32.ofNat i >>> 1).toBitVec = (Int32.ofNat i).toBitVec.sshiftRight 1 := rfl
    rw [← Int32.toInt_toBitVec, hbits, BitVec.toInt_sshiftRight, Int.shiftRight_eq_div_pow]
    rfl
  rw [hshift, Int32.toInt_ofNat_of_lt hi, Int32.toInt_ofNat_of_lt (by omega)]
  omega

theorem toInt_ofNat_xor : (Int32.ofNat i ^^^ 1).toInt = (i ^^^ 1 : Nat) := by
  have hxor : Int32.ofNat i ^^^ 1 = Int32.ofNat (i ^^^ 1) := by
    apply Int32.toBitVec_inj.1
    apply BitVec.eq_of_toNat_eq
    simp
  rw [hxor, Int32.toInt_ofNat_of_lt (Nat.xor_lt_two_pow hi (by decide))]

theorem ofNat_ne_neg_one : Int32.ofNat i ≠ -1 := by
  intro heq
  have hint := congrArg Int32.toInt heq
  rw [Int32.toInt_ofNat_of_lt hi] at hint
  have hneg : (-1 : Int32).toInt = -1 := by decide
  omega

omit hi in
theorem ofNat_odd : ((Int32.ofNat i &&& 1 != 0) = true) ↔ i % 2 = 1 := by
  have hmod : (Int32.ofNat i &&& 1) = Int32.ofNat (i % 2) := by
    apply Int32.toBitVec_inj.1
    apply BitVec.eq_of_toNat_eq
    have hbit := Nat.and_one_is_mod (i % 4294967296)
    rw [Int32.toBitVec_and, BitVec.toNat_and]
    simp
    omega
  rw [hmod]
  rcases Nat.mod_two_eq_zero_or_one i with h | h
  · rw [h]
    decide
  · rw [h]
    decide

end

/-- The loop of `CheckMerkleBranch` climbs the tree. -/
theorem foldMerkleBranch_eq_climb {hash : UInt256} {branch : List UInt256} {i : Nat}
    (hi : i < 2 ^ 31) :
    foldMerkleBranch H hash branch (Int32.ofNat i) = climb (merkleNode H) hash branch i := by
  induction branch generalizing hash i with
  | nil => rfl
  | cons sibling branch ih =>
    have hnode : H.hash (branchMessage hash sibling (Int32.ofNat i)) =
        merkleNode H (if i % 2 = 1 then (sibling, hash) else (hash, sibling)) := by
      unfold branchMessage merkleNode
      simp only [ofNat_odd]
      split_ifs <;> rfl
    rw [foldMerkleBranch, climb, hnode, ofNat_shiftRight hi]
    exact ih (by omega)

/-- The loop of `GetMerkleBranch` collects the siblings. -/
theorem branchLoop_eq {tree level : List UInt256} {fuel j i : Nat} (hi : i < 2 ^ 31)
    (htree : LevelAt tree j (level ++ levelsAbove (merkleNode H) fuel level)) (hlevel : i < level.length) :
    branchLoop tree fuel j level.length (Int32.ofNat i) = branch (merkleNode H) fuel level i := by
  induction fuel generalizing j level i with
  | zero => rfl
  | succ fuel ih =>
    rw [branchLoop, branch]
    by_cases hlen : 1 < level.length
    · rw [if_pos hlen, if_neg (Nat.not_le.2 hlen)]
      have hsmall : ((min (Int32.ofNat i ^^^ 1).toInt ((level.length : Int) - 1) : Int)) =
          (min (i ^^^ 1) (level.length - 1) : Nat) := by
        rw [toInt_ofNat_xor hi]
        omega
      have hpos : min (i ^^^ 1) (level.length - 1) < level.length := by omega
      have hplace : ((j : Int) + (min (i ^^^ 1) (level.length - 1) : Nat)).toNat =
          j + min (i ^^^ 1) (level.length - 1) := by omega
      have hat : treeAt tree (j + min (i ^^^ 1) (level.length - 1)) = level[min (i ^^^ 1) (level.length - 1)] :=
        htree.left.treeAt_eq (List.getElem?_eq_getElem hpos)
      have hnext : (level.length + 1) / 2 = (levelUp (merkleNode H) level).length :=
        (length_levelUp _ _).symm
      have habove := htree.right
      rw [levelsAbove, if_neg (Nat.not_le.2 hlen)] at habove
      dsimp only
      rw [hsmall, hplace, hat, hnext, ofNat_shiftRight hi, List.getElem?_eq_getElem hpos, Option.toList_some,
        List.singleton_append]
      rw [ih (by omega) habove (by rw [← hnext]; omega)]
    · rw [if_neg hlen, if_pos (Nat.not_lt.1 hlen)]

theorem CBlock.getMerkleBranch_eq {block : CBlock} {i : Nat} (hi : i < 2 ^ 31)
    (hlen : i < block.vtx.length) :
    block.getMerkleBranch H (Int32.ofNat i) =
      branch (merkleNode H) (block.txids H).length (block.txids H) i := by
  have hlength : block.vtx.length = (block.txids H).length := (List.length_map _).symm
  have htree : LevelAt (block.vMerkleTree H).1 0
      (block.txids H ++ levelsAbove (merkleNode H) (block.txids H).length (block.txids H)) := by
    rw [block.vMerkleTree_eq H]
    exact ⟨fun k _ => by rw [Nat.zero_add]⟩
  rw [CBlock.getMerkleBranch, hlength]
  exact branchLoop_eq hi htree (hlength ▸ hlen)

/-- The branch of a transaction leads to the root. -/
theorem checkMerkleBranch_getMerkleBranch {block : CBlock} {i : Nat} (hi : i < 2 ^ 31)
    {tx : CTransaction} (htx : block.vtx[i]? = some tx) :
    checkMerkleBranch H (tx.getHash H) (block.getMerkleBranch H (Int32.ofNat i)) (Int32.ofNat i) =
      block.merkleRoot H := by
  have hne := ofNat_ne_neg_one hi
  have hid : (block.txids H)[i]? = some (tx.getHash H) := by
    rw [CBlock.txids, List.getElem?_map, htx]
    rfl
  have hclimb := climb_branch (merkleNode H) hid (Nat.le_succ _)
  have hroot : block.merkleRoot H = (block.merkleTree H).1.getLastD 0 :=
    (congrArg Prod.fst (block.buildMerkleTree_eq H)).symm
  rw [checkMerkleBranch, if_neg hne, foldMerkleBranch_eq_climb hi,
    CBlock.getMerkleBranch_eq hi (List.getElem?_eq_some_iff.1 htx).1, hroot, CBlock.merkleTree, hclimb]
  rfl

/-! ## Mutation and branches -/

/-- **Merkle roots and branches.**  Lists of transactions with one root, neither of them mutated, have the
same ids, unless one of them is empty and the root is 0; and the branch of a transaction leads from its id
to the root, and from no other id. -/
theorem merkle_tree_detects (H : Crypto) :
    (∀ a b : CBlock, CollisionFreeOn H (a.hashedMessages H ∪ b.hashedMessages H) → NoLeafIsNode H a b →
      (a.vMerkleTree H).2 = false → (b.vMerkleTree H).2 = false → a.merkleRoot H = b.merkleRoot H →
        a.txids H = b.txids H ∨ ((a.vtx = [] ∨ b.vtx = []) ∧ a.merkleRoot H = 0)) ∧
    ∀ (block : CBlock) (i : Nat) (nIndex : Int32) (tx : CTransaction), nIndex.toInt = i →
      block.vtx[i]? = some tx →
        checkMerkleBranch H (tx.getHash H) (block.getMerkleBranch H nIndex) nIndex = block.merkleRoot H ∧
        ∀ other ≠ tx.getHash H,
          CollisionFreeOn H { m | m ∈ branchMessages H (tx.getHash H) (block.getMerkleBranch H nIndex) nIndex ∨
            m ∈ branchMessages H other (block.getMerkleBranch H nIndex) nIndex } →
          checkMerkleBranch H other (block.getMerkleBranch H nIndex) nIndex ≠ block.merkleRoot H := by
  constructor
  · intro a b hH hleaf hclean hclean' hroot
    by_cases hane : a.vtx = []
    · right
      refine ⟨Or.inl hane, ?_⟩
      rw [CBlock.merkleRoot, CBlock.vMerkleTree_eq, CBlock.txids, hane]
      rfl
    by_cases hbne : b.vtx = []
    · right
      refine ⟨Or.inr hbne, ?_⟩
      rw [hroot, CBlock.merkleRoot, CBlock.vMerkleTree_eq, CBlock.txids, hbne]
      rfl
    left
    have ha := a.buildMerkleTree_eq H
    have hb := b.buildMerkleTree_eq H
    apply txids_unique hH hleaf hane hbne
    · rw [ha]
      exact hclean
    · rw [hb]
      exact hclean'
    · rw [ha, hb]
      exact hroot
  · intro block i nIndex tx hindex htx
    have hi : i < 2 ^ 31 := by
      have hlt := Int32.toInt_lt nIndex
      omega
    have hnat : nIndex = Int32.ofNat i := by
      apply Int32.toInt_inj.1
      rw [hindex, Int32.toInt_ofNat_of_lt hi]
    subst hnat
    have hroot := checkMerkleBranch_getMerkleBranch (H := H) hi htx
    refine ⟨hroot, ?_⟩
    intro other hne hH heq
    apply hne
    rw [← hroot] at heq
    have hindex' : Int32.ofNat i ≠ -1 := ofNat_ne_neg_one hi
    rw [checkMerkleBranch, checkMerkleBranch, if_neg hindex', if_neg hindex'] at heq
    exact foldMerkleBranch_inj hH _ _ _ _ _ rfl (fun m hm => Or.inr hm) (fun m hm => Or.inl hm) heq

/-- A block of which only the transactions matter. -/
def listBlock (vtx : List CTransaction) : CBlock where
  nVersion := 1
  hashPrevBlock := 0
  hashMerkleRoot := 0
  nTime := 0
  nBits := 0
  nNonce := 0
  auxpow := none
  vtx := vtx

def bareTx (nVersion : Int32) : CTransaction where
  nVersion := nVersion
  vin := []
  vout := []
  nLockTime := 0

theorem merkle_tree_detects_pair :
    checkMerkleBranch CAuxPow.headCrypto ((bareTx 1).getHash CAuxPow.headCrypto)
        ((listBlock [bareTx 1, bareTx 2]).getMerkleBranch CAuxPow.headCrypto 0) 0 =
      (listBlock [bareTx 1, bareTx 2]).merkleRoot CAuxPow.headCrypto ∧
    checkMerkleBranch CAuxPow.headCrypto 7 ((listBlock [bareTx 1, bareTx 2]).getMerkleBranch CAuxPow.headCrypto 0) 0 ≠
      (listBlock [bareTx 1, bareTx 2]).merkleRoot CAuxPow.headCrypto := by
  have hbranch := (merkle_tree_detects CAuxPow.headCrypto).2 (listBlock [bareTx 1, bareTx 2]) 0 0 (bareTx 1) rfl rfl
  refine ⟨hbranch.1, hbranch.2 7 (by decide) ?_⟩
  have hmessages : ∀ hash, branchMessages CAuxPow.headCrypto hash
      ((listBlock [bareTx 1, bareTx 2]).getMerkleBranch CAuxPow.headCrypto 0) 0 =
        [UInt256.bytes hash ++ UInt256.bytes ((bareTx 2).getHash CAuxPow.headCrypto)] := fun _ => rfl
  have hdiffer : CAuxPow.headCrypto.hash (UInt256.bytes ((bareTx 1).getHash CAuxPow.headCrypto) ++
      UInt256.bytes ((bareTx 2).getHash CAuxPow.headCrypto)) ≠
        CAuxPow.headCrypto.hash (UInt256.bytes 7 ++ UInt256.bytes ((bareTx 2).getHash CAuxPow.headCrypto)) := by decide
  intro x hx y hy hxy
  simp only [hmessages, List.mem_singleton, Set.mem_ofPred_eq] at hx hy
  rcases hx with rfl | rfl <;> rcases hy with rfl | rfl
  · rfl
  · exact absurd hxy hdiffer
  · exact absurd hxy.symm hdiffer
  · rfl

/-- The hash function that is 0 everywhere. -/
def zeroCrypto : Crypto where
  hash _ := 0
  hashScrypt _ := 0

/-- The empty list has the root of a list whose only id is 0. -/
theorem empty_list_root_not_unique :
    CollisionFreeOn zeroCrypto ((listBlock []).hashedMessages zeroCrypto ∪
      (listBlock [bareTx 1]).hashedMessages zeroCrypto) ∧
    NoLeafIsNode zeroCrypto (listBlock []) (listBlock [bareTx 1]) ∧
    ((listBlock []).vMerkleTree zeroCrypto).2 = false ∧
    ((listBlock [bareTx 1]).vMerkleTree zeroCrypto).2 = false ∧
    (listBlock []).merkleRoot zeroCrypto = (listBlock [bareTx 1]).merkleRoot zeroCrypto ∧
    (listBlock []).txids zeroCrypto ≠ (listBlock [bareTx 1]).txids zeroCrypto := by
  refine ⟨?_, ?_, rfl, rfl, rfl, by decide⟩
  · -- One message is hashed.
    have hone : ∀ m ∈ (listBlock []).hashedMessages zeroCrypto ∪
        (listBlock [bareTx 1]).hashedMessages zeroCrypto, m = CTransaction.codec.put (bareTx 1) := by
      rintro m ((⟨tx, htx, -⟩ | ⟨p, hp, -⟩) | (⟨tx, htx, rfl⟩ | ⟨p, hp, -⟩))
      · exact absurd htx List.not_mem_nil
      · exact absurd hp List.not_mem_nil
      · rw [List.mem_singleton.1 htx]
      · exact absurd hp List.not_mem_nil
    intro x hx y hy _
    rw [hone x hx, hone y hy]
  · intro x _ p hp
    exact absurd hp List.not_mem_nil

end Dobbscoin
