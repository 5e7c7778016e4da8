import Dobbscoin.Lib.ByteBits
import Dobbscoin.Validation.MerkleBranch

/-!
# Partial merkle trees

`CPartialMerkleTree` of `merkleblock.cpp`: a subset of the transaction ids of a block with the hashes that lead to the
merkle root.  One recursion over the tree stores flag bits and hashes, and the other one consumes them.

An index outside a vector is `none`, and so is a loop over the heights that does not stop.  The trees have
`maxBlockSize / 60` leaves at most, so that positions and the two counters are natural numbers here.
-/

namespace Dobbscoin

open ByteCodec MerkleTree

/-- The root of the merkle tree over transaction ids. -/
def txidsRoot (H : Crypto) (vTxid : List UInt256) : UInt256 :=
  (buildLoop H vTxid.length 0 vTxid.length (vTxid, false)).1.getLastD 0

theorem CBlock.merkleRoot_eq (H : Crypto) (block : CBlock) : block.merkleRoot H = txidsRoot H (block.txids H) := by
  rw [CBlock.merkleRoot, CBlock.vMerkleTree, txidsRoot, CBlock.txids, List.length_map]

structure CPartialMerkleTree where
  nTransactions : UInt32
  /-- Whether the node is the parent of a matched transaction id. -/
  vBits : List Bool
  vHash : List UInt256
  fBad : Bool
  deriving DecidableEq

namespace CPartialMerkleTree

/-! ## Shape -/

/-- `(nTransactions+(1 << height)-1) >> height` in `unsigned int`. -/
def calcTreeWidth (t : CPartialMerkleTree) (height : Nat) : Nat :=
  (t.nTransactions.toNat + 2 ^ height - 1) % 2 ^ 32 / 2 ^ height

/-- The loop that looks for the height of the tree. -/
def heightLoop (t : CPartialMerkleTree) : Nat → Nat → Option Nat
  | 0, _ => none
  | fuel + 1, nHeight => if t.calcTreeWidth nHeight > 1 then heightLoop t fuel (nHeight + 1) else some nHeight

/-- `1 << height` is an `int`. -/
def nHeight (t : CPartialMerkleTree) : Option Nat :=
  t.heightLoop 31 0

/-! ## Building -/

def calcHash (H : Crypto) (t : CPartialMerkleTree) (vTxid : List UInt256) : Nat → Nat → Option UInt256
  | 0, pos => vTxid[pos]?
  | height + 1, pos => do
    let left ← calcHash H t vTxid height (pos * 2)
    let right ← if pos * 2 + 1 < t.calcTreeWidth height then calcHash H t vTxid height (pos * 2 + 1) else some left
    return merkleNode H (left, right)

/-- The loop over the transactions below the node. -/
def parentOfMatch (t : CPartialMerkleTree) (vMatch : List Bool) (height pos : Nat) : Option Bool :=
  let first := pos * 2 ^ height
  let last := min ((pos + 1) * 2 ^ height) t.nTransactions.toNat
  (List.range' first (last - first)).foldlM (fun fParentOfMatch p => vMatch[p]?.map (fParentOfMatch || ·)) false

def traverseAndBuild (H : Crypto) (vTxid : List UInt256) (vMatch : List Bool) :
    Nat → Nat → CPartialMerkleTree → Option CPartialMerkleTree
  | 0, pos, t => do
    let fParentOfMatch ← t.parentOfMatch vMatch 0 pos
    let hash ← t.calcHash H vTxid 0 pos
    return { t with vBits := t.vBits ++ [fParentOfMatch], vHash := t.vHash ++ [hash] }
  | height + 1, pos, t => do
    let fParentOfMatch ← t.parentOfMatch vMatch (height + 1) pos
    if fParentOfMatch then
      let t ← traverseAndBuild H vTxid vMatch height (pos * 2) { t with vBits := t.vBits ++ [true] }
      if pos * 2 + 1 < t.calcTreeWidth height then traverseAndBuild H vTxid vMatch height (pos * 2 + 1) t else some t
    else
      -- Nothing interesting below.
      let hash ← t.calcHash H vTxid (height + 1) pos
      return { t with vBits := t.vBits ++ [false], vHash := t.vHash ++ [hash] }

/-- The constructor from the transaction ids and the ones that match. -/
def ofTxids (H : Crypto) (vTxid : List UInt256) (vMatch : List Bool) : Option CPartialMerkleTree := do
  let t : CPartialMerkleTree := ⟨UInt32.ofNat vTxid.length, [], [], false⟩
  let height ← t.nHeight
  traverseAndBuild H vTxid vMatch height 0 t

/-! ## Extracting -/

/-- What `TraverseAndExtract` changes. -/
structure ExtractState where
  nBitsUsed : Nat
  nHashUsed : Nat
  vMatch : List UInt256
  fBad : Bool
  deriving DecidableEq

/-- A node whose hash is stored. -/
def storedHash (t : CPartialMerkleTree) (height : Nat) (fParentOfMatch : Bool) (s : ExtractState) :
    Option (UInt256 × ExtractState) :=
  if s.nHashUsed ≥ t.vHash.length then some (0, { s with fBad := true })
  else do
    let hash ← t.vHash[s.nHashUsed]?
    let vMatch := if height = 0 ∧ fParentOfMatch = true then s.vMatch ++ [hash] else s.vMatch
    return (hash, { s with nHashUsed := s.nHashUsed + 1, vMatch := vMatch })

def traverseAndExtract (H : Crypto) (t : CPartialMerkleTree) :
    Nat → Nat → ExtractState → Option (UInt256 × ExtractState)
  | 0, _, s =>
    if s.nBitsUsed ≥ t.vBits.length then some (0, { s with fBad := true })
    else do
      let fParentOfMatch ← t.vBits[s.nBitsUsed]?
      t.storedHash 0 fParentOfMatch { s with nBitsUsed := s.nBitsUsed + 1 }
  | height + 1, pos, s =>
    if s.nBitsUsed ≥ t.vBits.length then some (0, { s with fBad := true })
    else do
      let fParentOfMatch ← t.vBits[s.nBitsUsed]?
      let s := { s with nBitsUsed := s.nBitsUsed + 1 }
      if fParentOfMatch then
        let (left, s) ← traverseAndExtract H t height (pos * 2) s
        let (right, s) ←
          if pos * 2 + 1 < t.calcTreeWidth height then traverseAndExtract H t height (pos * 2 + 1) s
          else some (left, s)
        return (merkleNode H (left, right), s)
      else t.storedHash (height + 1) fParentOfMatch s

/-- The hash, `vMatch` and the tree afterwards.  The hash is 0 in case of failure. -/
def extractMatches (H : Crypto) (t : CPartialMerkleTree) : Option (UInt256 × List UInt256 × CPartialMerkleTree) :=
  if t.nTransactions = 0 then some (0, [], t)
  else if t.nTransactions.toNat > maxBlockSize / 60 then some (0, [], t)
  else if t.vHash.length > t.nTransactions.toNat then some (0, [], t)
  else if t.vBits.length < t.vHash.length then some (0, [], t)
  else do
    let height ← t.nHeight
    let (hashMerkleRoot, s) ← t.traverseAndExtract H height 0 ⟨0, 0, [], t.fBad⟩
    let failed := s.fBad = true ∨ (s.nBitsUsed + 7) / 8 ≠ (t.vBits.length + 7) / 8 ∨ s.nHashUsed ≠ t.vHash.length
    return (if failed then 0 else hashMerkleRoot, s.vMatch, { t with fBad := s.fBad })

/-! ## Serialization -/

/-- `nTransactions`, `vHash` and the bytes of the flag bits. -/
def fields : ByteCodec (UInt32 × List UInt256 × Bytes) :=
  uint32Codec.pair (hashesCodec.pair (vec compactSizeCodec byte))

def serialize (t : CPartialMerkleTree) : Bytes :=
  fields.put (t.nTransactions, t.vHash, ByteBits.ofFlags t.vBits)

def unserialize (bs : Bytes) : Option (CPartialMerkleTree × Bytes) :=
  (fields.get bs).map fun r => (⟨r.1.1, ByteBits.toFlags r.1.2.2, r.1.2.1, false⟩, r.2)

/-! ## Widths and heights -/

section

variable {H : Crypto} {t : CPartialMerkleTree} {vTxid : List UInt256} {vMatch : List Bool}

/-- The tree is as wide as the levels over the leaves. -/
theorem calcTreeWidth_eq (node : UInt256 × UInt256 → UInt256) (hlength : t.nTransactions.toNat = vTxid.length)
    (hsmall : vTxid.length ≤ 2 ^ 30) {height : Nat} (hheight : height ≤ 30) :
    t.calcTreeWidth height = (level node vTxid height).length := by
  have hpow : 2 ^ height ≤ 2 ^ 30 := Nat.pow_le_pow_right (by decide) hheight
  have hfits : vTxid.length + 2 ^ height - 1 < 2 ^ 32 := by omega
  rw [calcTreeWidth, length_level, hlength, Nat.mod_eq_of_lt hfits]

theorem heightLoop_spec (node : UInt256 × UInt256 → UInt256) (hlength : t.nTransactions.toNat = vTxid.length)
    {fuel h : Nat} (hfuel : h + fuel = 30) (hsmall : vTxid.length ≤ 2 ^ 30)
    (hbelow : ∀ k < h, 1 < (level node vTxid k).length) :
    ∃ d ≤ 30, t.heightLoop (fuel + 1) h = some d ∧ (level node vTxid d).length ≤ 1 ∧
      ∀ k < d, 1 < (level node vTxid k).length := by
  induction fuel generalizing h with
  | zero =>
    have hh : h = 30 := by omega
    have htop : (level node vTxid h).length ≤ 1 := by
      rw [length_level_le_iff, hh, Nat.one_mul]
      exact hsmall
    have hwidth := calcTreeWidth_eq node hlength hsmall (le_of_eq hh)
    refine ⟨h, le_of_eq hh, ?_, htop, hbelow⟩
    rw [heightLoop, hwidth, if_neg (Nat.not_lt.2 htop)]
  | succ fuel ih =>
    have hwidth := calcTreeWidth_eq node hlength hsmall (by omega : h ≤ 30)
    rw [heightLoop, hwidth]
    by_cases hwide : (level node vTxid h).length > 1
    · rw [if_pos hwide]
      refine ih (by omega) fun k hk => ?_
      rcases Nat.lt_succ_iff_lt_or_eq.1 hk with hlt | rfl
      · exact hbelow k hlt
      · exact hwide
    · rw [if_neg hwide]
      exact ⟨h, by omega, rfl, Nat.not_lt.1 hwide, hbelow⟩

/-- The loop stops at the lowest level with one node at most. -/
theorem nHeight_spec (node : UInt256 × UInt256 → UInt256) (hlength : t.nTransactions.toNat = vTxid.length)
    (hsmall : vTxid.length ≤ 2 ^ 30) :
    ∃ d ≤ 30, t.nHeight = some d ∧ (level node vTxid d).length ≤ 1 ∧ ∀ k < d, 1 < (level node vTxid k).length :=
  heightLoop_spec node hlength (Nat.zero_add 30) hsmall fun k hk => absurd hk (Nat.not_lt_zero k)

/-- The root is the node of the top level. -/
theorem getElem?_top {d : Nat} (hne : vTxid ≠ []) (htop : (level (merkleNode H) vTxid d).length ≤ 1)
    (hbelow : ∀ k < d, 1 < (level (merkleNode H) vTxid k).length) :
    (level (merkleNode H) vTxid d)[0]? = some (txidsRoot H vTxid) ∧
      ∀ k < d, ∀ p ∈ pairUp (level (merkleNode H) vTxid k),
        p ∈ (build (merkleNode H) vTxid.length vTxid).2.2 := by
  rcases build_eq_level (merkleNode H) (Nat.le_succ vTxid.length) htop hbelow with ⟨hlevel, hpairs⟩
  rcases build_top (merkleNode H) (Nat.le_succ vTxid.length) hne with ⟨r, hr⟩
  have hstart : LevelAt vTxid 0 vTxid := ⟨fun i _ => by rw [Nat.zero_add]⟩
  have hloop : buildLoop H vTxid.length 0 vTxid.length (vTxid, false) =
      (vTxid ++ levelsAbove (merkleNode H) vTxid.length vTxid, false || (build (merkleNode H) vTxid.length vTxid).2.1) :=
    buildLoop_eq hstart (Nat.zero_add _).symm
  have hlast := build_fst_getLast? (merkleNode H) vTxid.length vTxid (Nat.le_succ _)
  have hroot : txidsRoot H vTxid = r := by
    rw [txidsRoot, hloop, List.getLastD_eq_getLast?, ← hlast, hr]
    rfl
  refine ⟨?_, hpairs⟩
  rw [← hlevel, hr, hroot]
  rfl

end

/-! ## What is built -/

/-- The matched ones of a list of transaction ids. -/
def matched (marked : List (UInt256 × Bool)) : List UInt256 :=
  (marked.filter Prod.snd).map Prod.fst

theorem matched_append (l r : List (UInt256 × Bool)) : matched (l ++ r) = matched l ++ matched r := by
  rw [matched, List.filter_append, List.map_append, matched, matched]

theorem matched_eq_nil {marked : List (UInt256 × Bool)} (h : marked.any Prod.snd = false) : matched marked = [] := by
  have hnone : marked.filter Prod.snd = [] := by
    refine List.filter_eq_nil_iff.2 fun p hp hsnd => ?_
    rw [List.any_eq_true.2 ⟨p, hp, hsnd⟩] at h
    cases h
  rw [matched, hnone, List.map_nil]

/-- The loop over the places from `first`. -/
theorem foldlM_or (vMatch : List Bool) {first n : Nat} (hend : first + n ≤ vMatch.length) (b : Bool) :
    (List.range' first n).foldlM (fun b p => vMatch[p]?.map (b || ·)) b =
      some (b || ((vMatch.drop first).take n).any id) := by
  induction n generalizing first b with
  | zero => simp
  | succ n ih =>
    have hfirst : first < vMatch.length := by omega
    have hrest := ih (by omega : first + 1 + n ≤ vMatch.length) (b || vMatch[first])
    rw [List.range'_succ, List.foldlM_cons, List.getElem?_eq_getElem hfirst, Option.map_some, Option.bind_eq_bind,
      Option.bind_some, hrest, List.drop_eq_getElem_cons hfirst, List.take_succ_cons, List.any_cons, Bool.or_assoc]
    rfl

section

variable {H : Crypto} {t : CPartialMerkleTree} {vTxid : List UInt256} {vMatch : List Bool}

theorem calcHash_eq (hlength : t.nTransactions.toNat = vTxid.length) (hsmall : vTxid.length ≤ 2 ^ 30)
    {height pos : Nat} (hheight : height ≤ 30) (hpos : pos < (level (merkleNode H) vTxid height).length) :
    t.calcHash H vTxid height pos = (level (merkleNode H) vTxid height)[pos]? := by
  induction height generalizing pos with
  | zero => rfl
  | succ height ih =>
    rcases getElem?_level_succ (merkleNode H) hpos with ⟨a, b, ha, hb, -, hnode⟩
    have hwidth := calcTreeWidth_eq (merkleNode H) hlength hsmall (by omega : height ≤ 30)
    have hleft := ih (by omega) (List.getElem?_eq_some_iff.1 ha).1
    rw [calcHash, hleft, ha, hwidth, Option.bind_eq_bind, Option.bind_some, hnode]
    by_cases hright : pos * 2 + 1 < (level (merkleNode H) vTxid height).length
    · rw [if_pos hright] at hb
      rw [if_pos hright, ih (by omega) hright, hb]
      rfl
    · rw [if_neg hright] at hb
      rw [if_neg hright, hb]
      rfl

theorem parentOfMatch_eq (hlength : t.nTransactions.toNat = vTxid.length) (hmatch : vMatch.length = vTxid.length)
    (height pos : Nat) :
    t.parentOfMatch vMatch height pos = some ((below (vTxid.zip vMatch) height pos).any Prod.snd) := by
  have hsucc : (pos + 1) * 2 ^ height = pos * 2 ^ height + 2 ^ height := Nat.succ_mul _ _
  have hsnd : (below (vTxid.zip vMatch) height pos).any Prod.snd = (below vMatch height pos).any id := by
    have hzip : (vTxid.zip vMatch).map Prod.snd = vMatch := List.map_snd_zip (le_of_eq hmatch)
    calc
      (below (vTxid.zip vMatch) height pos).any Prod.snd
          = ((below (vTxid.zip vMatch) height pos).map Prod.snd).any id := by rw [List.any_map]; rfl
      _ = (below vMatch height pos).any id := by rw [← below_map, hzip]
  unfold parentOfMatch
  dsimp only
  rw [hlength, hsnd, below, hsucc, ← hmatch]
  generalize pos * 2 ^ height = first
  generalize 2 ^ height = width
  by_cases hinside : first ≤ vMatch.length
  · have hcount : min (first + width) vMatch.length - first = min width (vMatch.drop first).length := by
      rw [List.length_drop]
      omega
    rw [foldlM_or vMatch (by omega), Bool.false_or, hcount, ← List.take_eq_take_min]
  · have hnone : min (first + width) vMatch.length - first = 0 := by omega
    rw [hnone, List.drop_eq_nil_of_le (by omega), List.take_nil]
    rfl

end

/-! ## One node that is extracted -/

section

variable {H : Crypto} {t : CPartialMerkleTree} {s : ExtractState} {height pos : Nat} {f : Bool} {hash : UInt256}

theorem storedHash_eq (hhash : t.vHash[s.nHashUsed]? = some hash) :
    t.storedHash height f s = some (hash, { s with
      nHashUsed := s.nHashUsed + 1
      vMatch := if height = 0 ∧ f = true then s.vMatch ++ [hash] else s.vMatch }) := by
  have hlt := (List.getElem?_eq_some_iff.1 hhash).1
  rw [storedHash, if_neg (Nat.not_le.2 hlt), hhash]
  rfl

theorem storedHash_cases (t : CPartialMerkleTree) (height : Nat) (f : Bool) (s : ExtractState) :
    t.storedHash height f s = some (0, { s with fBad := true }) ∨
      ∃ hash, t.vHash[s.nHashUsed]? = some hash ∧ t.storedHash height f s = some (hash, { s with
        nHashUsed := s.nHashUsed + 1
        vMatch := if height = 0 ∧ f = true then s.vMatch ++ [hash] else s.vMatch }) := by
  by_cases hend : s.nHashUsed ≥ t.vHash.length
  · refine Or.inl ?_
    rw [storedHash, if_pos hend]
  · have hhash := List.getElem?_eq_getElem (Nat.not_le.1 hend)
    exact Or.inr ⟨_, hhash, storedHash_eq hhash⟩

/-- A leaf, or a node that is not the parent of a match. -/
theorem traverseAndExtract_stored (hbit : t.vBits[s.nBitsUsed]? = some f) (hstop : height = 0 ∨ f = false) :
    t.traverseAndExtract H height pos s = t.storedHash height f { s with nBitsUsed := s.nBitsUsed + 1 } := by
  have hlt := (List.getElem?_eq_some_iff.1 hbit).1
  cases height with
  | zero =>
    rw [traverseAndExtract, if_neg (Nat.not_le.2 hlt), hbit]
    rfl
  | succ height =>
    have hf : f = false := hstop.resolve_left (Nat.succ_ne_zero height)
    rw [traverseAndExtract, if_neg (Nat.not_le.2 hlt), hbit, hf]
    rfl

/-- A node whose subtrees are extracted. -/
theorem traverseAndExtract_descend (hbit : t.vBits[s.nBitsUsed]? = some true) :
    t.traverseAndExtract H (height + 1) pos s = (do
      let (left, s) ← t.traverseAndExtract H height (pos * 2) { s with nBitsUsed := s.nBitsUsed + 1 }
      let (right, s) ←
        if pos * 2 + 1 < t.calcTreeWidth height then t.traverseAndExtract H height (pos * 2 + 1) s
        else some (left, s)
      return (merkleNode H (left, right), s)) := by
  have hlt := (List.getElem?_eq_some_iff.1 hbit).1
  rw [traverseAndExtract, if_neg (Nat.not_le.2 hlt), hbit]
  rfl

/-- How a node can be extracted: there is no flag left, its hash is stored, or its subtrees are extracted. -/
theorem traverseAndExtract_cases (H : Crypto) (t : CPartialMerkleTree) (height pos : Nat) (s : ExtractState) :
    t.traverseAndExtract H height pos s = some (0, { s with fBad := true }) ∨
      (∃ f, t.traverseAndExtract H height pos s =
        t.storedHash height f { s with nBitsUsed := s.nBitsUsed + 1 }) ∨
      (∃ h, height = h + 1 ∧ t.vBits[s.nBitsUsed]? = some true) := by
  by_cases hend : s.nBitsUsed ≥ t.vBits.length
  · refine Or.inl ?_
    cases height with
    | zero => rw [traverseAndExtract, if_pos hend]
    | succ height => rw [traverseAndExtract, if_pos hend]
  · have hbit := List.getElem?_eq_getElem (Nat.not_le.1 hend)
    cases height with
    | zero => exact Or.inr (Or.inl ⟨_, traverseAndExtract_stored hbit (Or.inl rfl)⟩)
    | succ height =>
      cases hf : t.vBits[s.nBitsUsed] with
      | false => exact Or.inr (Or.inl ⟨_, traverseAndExtract_stored hbit (Or.inr hf)⟩)
      | true =>
        rw [hf] at hbit
        exact Or.inr (Or.inr ⟨height, rfl, hbit⟩)

end

/-! ## The round trip of a node -/

theorem cons_prefix_drop {α : Type} {a : α} {as l : List α} {k : Nat} (h : a :: as <+: l.drop k) :
    l[k]? = some a ∧ as <+: l.drop (k + 1) := by
  rcases h with ⟨rest, hrest⟩
  have hdrop : l.drop k = a :: (as ++ rest) := hrest.symm
  constructor
  · rw [← List.head?_drop, hdrop, List.head?_cons]
  · rw [← List.tail_drop, hdrop, List.tail_cons]
    exact List.prefix_append as rest

theorem append_prefix_drop {α : Type} {as bs l : List α} {k : Nat} (h : as ++ bs <+: l.drop k) :
    as <+: l.drop k ∧ bs <+: l.drop (k + as.length) := by
  refine ⟨(List.prefix_append as bs).trans h, ?_⟩
  rcases h with ⟨rest, hrest⟩
  rw [← List.drop_drop, ← hrest, List.append_assoc, List.drop_left]
  exact List.prefix_append bs rest

section

variable (H : Crypto) (vTxid : List UInt256) (vMatch : List Bool) (n : UInt32)

/-- These are the flags and the hashes that are stored for a node, and from them its hash and its matches are
extracted. -/
structure Stored (height pos : Nat) (bits : List Bool) (hashes : List UInt256) : Prop where
  build : ∀ t : CPartialMerkleTree, t.nTransactions = n → traverseAndBuild H vTxid vMatch height pos t =
    some { t with vBits := t.vBits ++ bits, vHash := t.vHash ++ hashes }
  hashes_le : hashes.length ≤ (below vTxid height pos).length
  hashes_le_bits : hashes.length ≤ bits.length
  bits_lt : bits.length < 2 ^ (height + 1)
  extract : ∀ (u : CPartialMerkleTree) (s : ExtractState), u.nTransactions = n → bits <+: u.vBits.drop s.nBitsUsed →
    hashes <+: u.vHash.drop s.nHashUsed → ∃ r, (level (merkleNode H) vTxid height)[pos]? = some r ∧
      u.traverseAndExtract H height pos s = some (r, { s with
        nBitsUsed := s.nBitsUsed + bits.length
        nHashUsed := s.nHashUsed + hashes.length
        vMatch := s.vMatch ++ matched (below (vTxid.zip vMatch) height pos) })

end

section

variable {H : Crypto} {vTxid : List UInt256} {vMatch : List Bool} {n : UInt32}
variable (hlength : n.toNat = vTxid.length) (hmatch : vMatch.length = vTxid.length) (hsmall : vTxid.length ≤ 2 ^ 30)
include hlength hmatch hsmall

omit hsmall hlength in
theorem matched_stored {height pos : Nat} {r : UInt256} {f : Bool}
    (hr : (level (merkleNode H) vTxid height)[pos]? = some r)
    (hf : (below (vTxid.zip vMatch) height pos).any Prod.snd = f) (hstop : height = 0 ∨ f = false) :
    matched (below (vTxid.zip vMatch) height pos) = if height = 0 ∧ f = true then [r] else [] := by
  cases f with
  | false =>
    rw [if_neg (fun h => Bool.false_ne_true h.2)]
    exact matched_eq_nil hf
  | true =>
    have hzero : height = 0 := hstop.resolve_right Bool.false_ne_true.symm
    subst hzero
    have hid : vTxid[pos]? = some r := hr
    have hpos : pos < vMatch.length := hmatch ▸ (List.getElem?_eq_some_iff.1 hid).1
    have hpair : (vTxid.zip vMatch)[pos]? = some (r, vMatch[pos]) := by
      rw [List.getElem?_zip_eq_some]
      exact ⟨hid, List.getElem?_eq_getElem hpos⟩
    rw [below_zero, hpair, Option.toList_some, List.any_cons, List.any_nil, Bool.or_false] at hf
    rw [below_zero, hpair, if_pos ⟨rfl, rfl⟩, Option.toList_some, matched, List.filter_cons, if_pos hf]
    rfl

/-- A leaf, or a node without matches below. -/
theorem stored_hash {height pos : Nat} (hheight : height ≤ 30)
    (hpos : pos < (level (merkleNode H) vTxid height).length)
    (hstop : height = 0 ∨ (below (vTxid.zip vMatch) height pos).any Prod.snd = false) :
    ∃ bits hashes, Stored H vTxid vMatch n height pos bits hashes := by
  have hr := List.getElem?_eq_getElem hpos
  obtain ⟨f, hf⟩ : ∃ f, (below (vTxid.zip vMatch) height pos).any Prod.snd = f := ⟨_, rfl⟩
  rw [hf] at hstop
  have hmatched := matched_stored hmatch hr hf hstop
  have hinside : pos * 2 ^ height < vTxid.length := by
    rw [← Nat.not_le, ← length_level_le_iff (merkleNode H), Nat.not_le]
    exact hpos
  refine ⟨[f], [(level (merkleNode H) vTxid height)[pos]], ?_, length_below_pos hinside, le_rfl, ?_, ?_⟩
  · intro t ht
    have hparent := parentOfMatch_eq (t := t) (by rw [ht, hlength]) hmatch height pos
    have hhash := calcHash_eq (by rw [ht, hlength] : t.nTransactions.toNat = vTxid.length) hsmall hheight hpos
    rw [hf] at hparent
    rw [hr] at hhash
    cases height with
    | zero =>
      rw [traverseAndBuild, hparent, hhash]
      rfl
    | succ height =>
      have hfalse : f = false := hstop.resolve_left (Nat.succ_ne_zero height)
      rw [traverseAndBuild, hparent, hhash, hfalse]
      rfl
  · exact Nat.one_lt_two_pow (Nat.succ_ne_zero height)
  · intro u s hu hbits hhashes
    have hbit := (cons_prefix_drop hbits).1
    have hhash := (cons_prefix_drop hhashes).1
    refine ⟨_, hr, ?_⟩
    rw [traverseAndExtract_stored hbit hstop, storedHash_eq (s := { s with nBitsUsed := s.nBitsUsed + 1 }) hhash, hmatched]
    split_ifs
    · rfl
    · rw [List.append_nil]
      rfl

/-- A node with a left subtree, and with a right one where the row goes on. -/
theorem Stored.parent {height pos : Nat} {bits bits' : List Bool} {hashes hashes' : List UInt256}
    (hheight : height + 1 ≤ 30) (h : Stored H vTxid vMatch n height (pos * 2) bits hashes)
    (h' : if pos * 2 + 1 < (level (merkleNode H) vTxid height).length then
      Stored H vTxid vMatch n height (pos * 2 + 1) bits' hashes' else bits' = [] ∧ hashes' = [])
    (hpos : pos < (level (merkleNode H) vTxid (height + 1)).length)
    (hparent : (below (vTxid.zip vMatch) (height + 1) pos).any Prod.snd = true) :
    Stored H vTxid vMatch n (height + 1) pos (true :: (bits ++ bits')) (hashes ++ hashes') := by
  have hwidth : ∀ t : CPartialMerkleTree, t.nTransactions = n →
      t.calcTreeWidth height = (level (merkleNode H) vTxid height).length := fun t ht =>
    calcTreeWidth_eq (merkleNode H) (by rw [ht, hlength]) hsmall (by omega)
  have hle : hashes'.length ≤ (below vTxid height (pos * 2 + 1)).length ∧ hashes'.length ≤ bits'.length ∧
      bits'.length < 2 ^ (height + 1) := by
    split_ifs at h'
    · exact ⟨h'.hashes_le, h'.hashes_le_bits, h'.bits_lt⟩
    · rw [h'.1, h'.2]
      exact ⟨Nat.zero_le _, Nat.zero_le _, Nat.two_pow_pos _⟩
  refine ⟨?_, ?_, ?_, ?_, ?_⟩
  · intro t ht
    have hmark := parentOfMatch_eq (t := t) (by rw [ht, hlength]) hmatch (height + 1) pos
    have hbuild : traverseAndBuild H vTxid vMatch height (pos * 2) { t with vBits := t.vBits ++ [true] } =
        some { t with vBits := t.vBits ++ [true] ++ bits, vHash := t.vHash ++ hashes } := h.build _ ht
    have hwide := hwidth { t with vBits := t.vBits ++ [true] ++ bits, vHash := t.vHash ++ hashes } ht
    rw [hparent] at hmark
    rw [traverseAndBuild, hmark, Option.bind_eq_bind, Option.bind_some, if_pos rfl, hbuild, Option.bind_eq_bind,
      Option.bind_some, hwide]
    split_ifs at h' ⊢ with hright
    · have hbuild' := h'.build
        { t with vBits := t.vBits ++ [true] ++ bits, vHash := t.vHash ++ hashes } ht
      rw [hbuild']
      simp only [List.append_assoc, List.cons_append, List.nil_append]
    · rw [h'.1, h'.2]
      simp only [List.append_nil, List.append_assoc, List.singleton_append]
  · have hleft := h.hashes_le
    rw [below_succ, List.length_append, List.length_append]
    omega
  · have hleft := h.hashes_le_bits
    rw [List.length_cons, List.length_append, List.length_append]
    omega
  · have hbits := h.bits_lt
    rw [List.length_cons, List.length_append, pow_succ]
    omega
  · intro u s hu hbits hhashes
    rcases cons_prefix_drop hbits with ⟨hbit, hrest⟩
    rcases append_prefix_drop hrest with ⟨hbits, hbits'⟩
    rcases append_prefix_drop hhashes with ⟨hhashes, hhashes'⟩
    rcases h.extract u { s with nBitsUsed := s.nBitsUsed + 1 } hu hbits hhashes with ⟨a, ha, hleft⟩
    rcases getElem?_level_succ (merkleNode H) hpos with ⟨a', b, ha', hb, -, hnode⟩
    have hfst : a' = a := Option.some.inj (ha'.symm.trans ha)
    refine ⟨_, hnode, ?_⟩
    rw [traverseAndExtract_descend hbit, hleft, Option.bind_eq_bind, Option.bind_some]
    dsimp only
    rw [hwidth u hu, below_succ, hfst]
    split_ifs at h' hb ⊢ with hright
    · rcases h'.extract u { s with
        nBitsUsed := s.nBitsUsed + 1 + bits.length
        nHashUsed := s.nHashUsed + hashes.length
        vMatch := s.vMatch ++ matched (below (vTxid.zip vMatch) height (pos * 2)) } hu hbits' hhashes'
        with ⟨b', hb', hrightNode⟩
      have hsnd : b = b' := Option.some.inj (hb.symm.trans hb')
      rw [hrightNode, matched_append, hsnd]
      simp only [Option.bind_some, List.length_cons, List.length_append, List.append_assoc, Nat.add_assoc,
        Nat.add_comm 1]
      rfl
    · have hend : vTxid.length ≤ (pos * 2 + 1) * 2 ^ height :=
        (length_level_le_iff (merkleNode H) vTxid height _).1 (Nat.not_lt.1 hright)
      have hnone : below (vTxid.zip vMatch) height (pos * 2 + 1) = [] :=
        below_eq_nil (by rwa [List.length_zip, hmatch, Nat.min_self])
      have hcopy : b = a := (Option.some.inj hb).symm.trans hfst
      rw [hnone, hcopy, h'.1, h'.2]
      simp only [Option.bind_some, List.append_nil, List.length_cons, Nat.add_assoc, Nat.add_comm 1]
      rfl

/-- Both recursions over the tree, by induction on the height. -/
theorem exists_stored {height pos : Nat} (hheight : height ≤ 30)
    (hpos : pos < (level (merkleNode H) vTxid height).length) :
    ∃ bits hashes, Stored H vTxid vMatch n height pos bits hashes := by
  induction height generalizing pos with
  | zero => exact stored_hash hlength hmatch hsmall hheight hpos (Or.inl rfl)
  | succ height ih =>
    cases hparent : (below (vTxid.zip vMatch) (height + 1) pos).any Prod.snd with
    | false => exact stored_hash hlength hmatch hsmall hheight hpos (Or.inr hparent)
    | true =>
      have hleft : pos * 2 < (level (merkleNode H) vTxid height).length := by
        rw [level_succ, length_levelUp] at hpos
        omega
      rcases ih (by omega) hleft with ⟨bits, hashes, h⟩
      by_cases hright : pos * 2 + 1 < (level (merkleNode H) vTxid height).length
      · rcases ih (by omega) hright with ⟨bits', hashes', h'⟩
        exact ⟨_, _, h.parent hlength hmatch hsmall hheight (by rwa [if_pos hright]) hpos hparent⟩
      · exact ⟨_, _, h.parent hlength hmatch hsmall hheight (by rw [if_neg hright]; exact ⟨rfl, rfl⟩) hpos hparent⟩

/-- Serialized, read and extracted again. -/
theorem roundTrip (hne : vTxid ≠ []) (hcount : vTxid.length ≤ maxBlockSize / 60) (rest : Bytes) :
    ∃ t t', ofTxids H vTxid vMatch = some t ∧ unserialize (t.serialize ++ rest) = some (t', rest) ∧
      t'.extractMatches H = some (txidsRoot H vTxid, matched (vTxid.zip vMatch), t') := by
  have hofNat : UInt32.ofNat vTxid.length = n := UInt32.toNat_inj.1 (by rw [← hlength, UInt32.ofNat_toNat])
  have hmax : maxBlockSize / 60 = 16666 := rfl
  rw [hmax] at hcount
  have hpositive : 0 < vTxid.length := List.length_pos_iff.2 hne
  rcases nHeight_spec (t := ⟨n, [], [], false⟩) (merkleNode H) hlength hsmall with ⟨d, hd, hheight, htop, hbelow⟩
  rcases getElem?_top hne htop hbelow with ⟨hroot, -⟩
  have hinside : 0 < (level (merkleNode H) vTxid d).length := (List.getElem?_eq_some_iff.1 hroot).1
  rcases exists_stored hlength hmatch hsmall hd hinside with ⟨bits, hashes, h⟩
  have hleaves : vTxid.length ≤ 2 ^ d := by
    rw [length_level_le_iff, Nat.one_mul] at htop
    exact htop
  have hall : below vTxid d 0 = vTxid := below_top hleaves
  have hzip : below (vTxid.zip vMatch) d 0 = vTxid.zip vMatch := by
    refine below_top ?_
    rw [List.length_zip, hmatch, Nat.min_self]
    exact hleaves
  -- The height is the lowest one, so that the flags fit into a vector.
  have hflags : bits.length ≤ maxSize := by
    have hbits := h.bits_lt
    have hsize : maxSize = 33554432 := rfl
    cases d with
    | zero => omega
    | succ d =>
      have hbig := hbelow d (Nat.lt_succ_self d)
      rw [← Nat.not_le, length_level_le_iff, Nat.one_mul] at hbig
      rw [pow_succ, pow_succ] at hbits
      omega
  have hhashes := h.hashes_le
  rw [hall] at hhashes
  refine ⟨⟨n, bits, hashes, false⟩, ⟨n, ByteBits.toFlags (ByteBits.ofFlags bits), hashes, false⟩, ?_, ?_, ?_⟩
  · rw [ofTxids, hofNat]
    rw [hheight, Option.bind_eq_bind, Option.bind_some, h.build _ rfl]
    rfl
  · have hfits : fields.Fits (n, hashes, ByteBits.ofFlags bits) := by
      refine ⟨uint32Codec_fits n, ⟨?_, fun x _ => uint256Codec_fits x⟩, ?_, fun _ _ => trivial⟩
      · exact (hhashes.trans hcount).trans (by decide)
      · show (ByteBits.ofFlags bits).length ≤ maxSize
        rw [ByteBits.length_ofFlags]
        omega
    rw [unserialize, serialize, fields.get_put hfits, Option.map_some]
  · have hread := ByteBits.toFlags_ofFlags bits
    have hlengthBits : (ByteBits.toFlags (ByteBits.ofFlags bits)).length = (bits.length + 7) / 8 * 8 := by
      rw [ByteBits.length_toFlags, ByteBits.length_ofFlags]
    have hbits : bits <+: (ByteBits.toFlags (ByteBits.ofFlags bits)).drop 0 := by
      rw [List.drop_zero, hread]
      exact List.prefix_append _ _
    have hheight' : nHeight ⟨n, ByteBits.toFlags (ByteBits.ofFlags bits), hashes, false⟩ = some d := hheight
    rcases h.extract ⟨n, ByteBits.toFlags (ByteBits.ofFlags bits), hashes, false⟩ ⟨0, 0, [], false⟩ rfl hbits
      (List.prefix_refl hashes) with ⟨r, hr, hextract⟩
    have hsame : r = txidsRoot H vTxid := Option.some.inj (hr.symm.trans hroot)
    have hn : n ≠ 0 := by
      intro hzero
      rw [hzero] at hlength
      exact absurd hlength (Nat.ne_of_lt hpositive)
    have henough := h.hashes_le_bits
    rw [extractMatches, if_neg hn, if_neg (by rw [hmax]; dsimp only; omega), if_neg (by dsimp only; omega),
      if_neg (by dsimp only; omega), hheight', Option.bind_eq_bind, Option.bind_some, hextract, Option.bind_eq_bind,
      Option.bind_some, hzip]
    simp only [Nat.zero_add, List.nil_append, hlengthBits, hsame]
    have hdone : ¬(false = true ∨ (bits.length + 7) / 8 ≠ ((bits.length + 7) / 8 * 8 + 7) / 8 ∨
        hashes.length ≠ hashes.length) := by
      rintro (hbad | hleft | hleft)
      · cases hbad
      · omega
      · exact hleft rfl
    rw [if_neg hdone]
    rfl

end

/-! ## Termination -/

theorem storedHash_isSome (t : CPartialMerkleTree) (height : Nat) (f : Bool) (s : ExtractState) :
    (t.storedHash height f s).isSome = true := by
  rcases storedHash_cases t height f s with h | ⟨hash, -, h⟩
  · rw [h]
    rfl
  · rw [h]
    rfl

/-- No flag and no hash outside the vectors is read. -/
theorem traverseAndExtract_isSome (H : Crypto) (t : CPartialMerkleTree) (height pos : Nat) (s : ExtractState) :
    (t.traverseAndExtract H height pos s).isSome = true := by
  induction height generalizing pos s with
  | zero =>
    rcases traverseAndExtract_cases H t 0 pos s with h | ⟨f, h⟩ | ⟨height, h, -⟩
    · rw [h]
      rfl
    · rw [h]
      exact storedHash_isSome t 0 f _
    · cases h
  | succ height ih =>
    rcases traverseAndExtract_cases H t (height + 1) pos s with h | ⟨f, h⟩ | ⟨-, -, hbit⟩
    · rw [h]
      rfl
    · rw [h]
      exact storedHash_isSome t (height + 1) f _
    · rcases Option.isSome_iff_exists.1 (ih (pos * 2) { s with nBitsUsed := s.nBitsUsed + 1 }) with ⟨⟨left, s'⟩, hleft⟩
      rw [traverseAndExtract_descend hbit, hleft, Option.bind_eq_bind, Option.bind_some]
      dsimp only
      by_cases hright : pos * 2 + 1 < t.calcTreeWidth height
      · rcases Option.isSome_iff_exists.1 (ih (pos * 2 + 1) s') with ⟨⟨right, s''⟩, hrightNode⟩
        rw [if_pos hright, hrightNode]
        rfl
      · rw [if_neg hright]
        rfl

theorem extractMatches_isSome (H : Crypto) (t : CPartialMerkleTree) : (t.extractMatches H).isSome = true := by
  unfold extractMatches
  by_cases hzero : t.nTransactions = 0
  · rw [if_pos hzero]
    rfl
  rw [if_neg hzero]
  by_cases hmany : t.nTransactions.toNat > maxBlockSize / 60
  · rw [if_pos hmany]
    rfl
  rw [if_neg hmany]
  by_cases hhashes : t.vHash.length > t.nTransactions.toNat
  · rw [if_pos hhashes]
    rfl
  rw [if_neg hhashes]
  by_cases hbits : t.vBits.length < t.vHash.length
  · rw [if_pos hbits]
    rfl
  rw [if_neg hbits]
  have hmax : maxBlockSize / 60 = 16666 := rfl
  have hlength : t.nTransactions.toNat = (List.replicate t.nTransactions.toNat (0 : UInt256)).length :=
    List.length_replicate.symm
  rcases nHeight_spec (merkleNode H) hlength (by rw [← hlength]; omega) with ⟨d, -, hd, -, -⟩
  rcases Option.isSome_iff_exists.1 (traverseAndExtract_isSome H t d 0 ⟨0, 0, [], t.fBad⟩) with ⟨⟨r, s⟩, h⟩
  rw [hd, Option.bind_eq_bind, Option.bind_some, h]
  rfl

/-! ## Soundness -/

/-- The pairs that are hashed to extract a node. -/
def extractPairs (H : Crypto) (t : CPartialMerkleTree) : Nat → Nat → ExtractState → List (UInt256 × UInt256)
  | 0, _, _ => []
  | height + 1, pos, s =>
    if t.vBits[s.nBitsUsed]? = some true then
      let s := { s with nBitsUsed := s.nBitsUsed + 1 }
      match t.traverseAndExtract H height (pos * 2) s with
      | none => []
      | some (left, s') =>
        extractPairs H t height (pos * 2) s ++
          if pos * 2 + 1 < t.calcTreeWidth height then
            match t.traverseAndExtract H height (pos * 2 + 1) s' with
            | none => []
            | some (right, _) => extractPairs H t height (pos * 2 + 1) s' ++ [(left, right)]
          else [(left, left)]
    else []

/-- The messages that are hashed to extract the matches. -/
def hashedMessages (H : Crypto) (t : CPartialMerkleTree) : Set Bytes :=
  { m | ∃ height, t.nHeight = some height ∧
    ∃ p ∈ t.extractPairs H height 0 ⟨0, 0, [], t.fBad⟩, m = UInt256.bytes p.1 ++ UInt256.bytes p.2 }

section

variable {H : Crypto} {t : CPartialMerkleTree} {vTxid : List UInt256} {S : List (UInt256 × UInt256)}

theorem storedHash_sound {height pos : Nat} {f : Bool} {s s' : ExtractState} {r : UInt256}
    (h : t.storedHash height f s = some (r, s')) (hr : (level (merkleNode H) vTxid height)[pos]? = some r) :
    ∃ more, s'.vMatch = s.vMatch ++ more ∧ more.Sublist (below vTxid height pos) := by
  rcases storedHash_cases t height f s with hbad | ⟨hash, -, hstored⟩
  · rw [hbad] at h
    cases h
    exact ⟨[], (List.append_nil _).symm, List.nil_sublist _⟩
  · rw [hstored] at h
    cases h
    dsimp only
    by_cases hleaf : height = 0 ∧ f = true
    · rcases hleaf with ⟨rfl, rfl⟩
      refine ⟨[r], if_pos ⟨rfl, rfl⟩, ?_⟩
      have hid : vTxid[pos]? = some r := hr
      rw [below_zero, hid]
      exact List.Sublist.refl _
    · exact ⟨[], by rw [if_neg hleaf, List.append_nil], List.nil_sublist _⟩

/-- A node with the hash of the block's node has matches of the block, by induction on the height. -/
theorem traverseAndExtract_sound (hS : InjOn (merkleNode H) S) (hlength : t.nTransactions.toNat = vTxid.length)
    (hsmall : vTxid.length ≤ 2 ^ 30) {height pos : Nat} {s s' : ExtractState} {r : UInt256} (hheight : height ≤ 30)
    (hlevels : ∀ k < height, ∀ p ∈ pairUp (level (merkleNode H) vTxid k), p ∈ S)
    (hpairs : ∀ p ∈ t.extractPairs H height pos s, p ∈ S)
    (h : t.traverseAndExtract H height pos s = some (r, s'))
    (hr : (level (merkleNode H) vTxid height)[pos]? = some r) :
    ∃ more, s'.vMatch = s.vMatch ++ more ∧ more.Sublist (below vTxid height pos) := by
  induction height generalizing pos s s' r with
  | zero =>
    rcases traverseAndExtract_cases H t 0 pos s with hbad | ⟨f, hstored⟩ | ⟨height, hsucc, -⟩
    · rw [hbad] at h
      cases h
      exact ⟨[], (List.append_nil _).symm, List.nil_sublist _⟩
    · rw [hstored] at h
      exact storedHash_sound (s := { s with nBitsUsed := s.nBitsUsed + 1 }) h hr
    · cases hsucc
  | succ height ih =>
    rcases traverseAndExtract_cases H t (height + 1) pos s with hbad | ⟨f, hstored⟩ | ⟨-, -, hbit⟩
    · rw [hbad] at h
      cases h
      exact ⟨[], (List.append_nil _).symm, List.nil_sublist _⟩
    · rw [hstored] at h
      exact storedHash_sound (s := { s with nBitsUsed := s.nBitsUsed + 1 }) h hr
    · rcases getElem?_level_succ (merkleNode H) (List.getElem?_eq_some_iff.1 hr).1 with ⟨a, b, ha, hb, hblock, hnode⟩
      have hwidth := calcTreeWidth_eq (merkleNode H) hlength hsmall (by omega : height ≤ 30)
      have hbelow : ∀ k < height, ∀ p ∈ pairUp (level (merkleNode H) vTxid k), p ∈ S :=
        fun k hk => hlevels k (Nat.lt_succ_of_lt hk)
      rw [traverseAndExtract_descend hbit] at h
      rw [extractPairs, if_pos hbit] at hpairs
      rcases Option.bind_eq_some_iff.1 h with ⟨⟨left, s₁⟩, hleft, hrest⟩
      dsimp only at hrest hpairs
      rw [hleft] at hpairs
      dsimp only at hpairs
      rw [hwidth] at hrest hpairs
      have hpairsLeft : ∀ p ∈ t.extractPairs H height (pos * 2) { s with nBitsUsed := s.nBitsUsed + 1 }, p ∈ S :=
        fun p hp => hpairs p (List.mem_append_left _ hp)
      by_cases hright : pos * 2 + 1 < (level (merkleNode H) vTxid height).length
      · rw [if_pos hright] at hrest hpairs hb
        rcases Option.bind_eq_some_iff.1 hrest with ⟨⟨right, s₂⟩, hrightNode, hret⟩
        cases hret
        rw [hrightNode] at hpairs
        dsimp only at hpairs
        -- The two nodes are the block's, since the pairs have one hash.
        have hsame : (left, right) = (a, b) := by
          refine hS _ (hpairs _ ?_) _ (hlevels height (Nat.lt_succ_self height) _ hblock) ?_
          · exact List.mem_append_right _ (List.mem_append_right _ (List.mem_singleton_self _))
          · exact Option.some.inj (hr.symm.trans hnode)
        cases hsame
        rcases ih (by omega) hbelow hpairsLeft hleft ha with ⟨more, hmore, hsub⟩
        rcases ih (by omega) hbelow (fun p hp => hpairs p (List.mem_append_right _ (List.mem_append_left _ hp)))
          hrightNode hb with ⟨more', hmore', hsub'⟩
        refine ⟨more ++ more', ?_, ?_⟩
        · rw [hmore', hmore, List.append_assoc]
        · rw [below_succ]
          exact hsub.append hsub'
      · rw [if_neg hright] at hrest hpairs hb
        cases hrest
        have hsame : (left, left) = (a, b) := by
          refine hS _ (hpairs _ ?_) _ (hlevels height (Nat.lt_succ_self height) _ hblock) ?_
          · exact List.mem_append_right _ (List.mem_singleton_self _)
          · exact Option.some.inj (hr.symm.trans hnode)
        cases hsame
        rcases ih (by omega) hbelow hpairsLeft hleft ha with ⟨more, hmore, hsub⟩
        refine ⟨more, hmore, ?_⟩
        rw [below_succ]
        exact hsub.trans (List.sublist_append_left _ _)

end

/-- What an extraction with another result than 0 went through. -/
theorem extractMatches_cases {H : Crypto} {t t' : CPartialMerkleTree} {r : UInt256} {vMatch : List UInt256}
    (h : t.extractMatches H = some (r, vMatch, t')) (hr : r ≠ 0) :
    t.nTransactions ≠ 0 ∧ t.nTransactions.toNat ≤ maxBlockSize / 60 ∧
      ∃ d s, t.nHeight = some d ∧ t.traverseAndExtract H d 0 ⟨0, 0, [], t.fBad⟩ = some (r, s) ∧ s.vMatch = vMatch := by
  unfold extractMatches at h
  split_ifs at h with hzero hmany hhashes hbits
  · cases h
    exact absurd rfl hr
  · cases h
    exact absurd rfl hr
  · cases h
    exact absurd rfl hr
  · cases h
    exact absurd rfl hr
  · rcases Option.bind_eq_some_iff.1 h with ⟨d, hd, hrest⟩
    rcases Option.bind_eq_some_iff.1 hrest with ⟨⟨root, s⟩, hextract, hret⟩
    dsimp only at hret
    split_ifs at hret with hfailed
    · cases hret
      exact absurd rfl hr
    · cases hret
      exact ⟨hzero, Nat.not_lt.1 hmany, d, s, hd, hextract, rfl⟩

/-- The matches of a tree with the block's root are in the block. -/
theorem extractMatches_sound {H : Crypto} {block : CBlock} {t t' : CPartialMerkleTree} {vMatch : List UInt256}
    (hcount : t.nTransactions.toNat = block.vtx.length)
    (hH : CollisionFreeOn H (block.hashedMessages H ∪ t.hashedMessages H)) (hroot : block.merkleRoot H ≠ 0)
    (h : t.extractMatches H = some (block.merkleRoot H, vMatch, t')) : vMatch.Sublist (block.txids H) := by
  rcases extractMatches_cases h hroot with ⟨hn, hmany, d, s, hd, hextract, rfl⟩
  have hlength : t.nTransactions.toNat = (block.txids H).length := hcount.trans (List.length_map _).symm
  have hmax : maxBlockSize / 60 = 16666 := rfl
  have hne : block.txids H ≠ [] := by
    intro hnil
    rw [hnil] at hlength
    exact hn (UInt32.toNat_inj.1 hlength)
  rcases nHeight_spec (merkleNode H) hlength (by omega) with ⟨d', hd', hheight, htop, hbelow⟩
  have hsame : d' = d := Option.some.inj (hheight.symm.trans hd)
  subst hsame
  rcases getElem?_top hne htop hbelow with ⟨hlevel, hpairs⟩
  rw [block.merkleRoot_eq] at hextract
  have hS : InjOn (merkleNode H) ((build (merkleNode H) (block.txids H).length (block.txids H)).2.2 ++
      t.extractPairs H d' 0 ⟨0, 0, [], t.fBad⟩) := by
    refine merkleNode_injOn hH fun p hp => ?_
    rcases List.mem_append.1 hp with hp | hp
    · exact Or.inl (Or.inr ⟨p, hp, rfl⟩)
    · exact Or.inr ⟨d', hheight, p, hp, rfl⟩
  rcases traverseAndExtract_sound hS hlength (by omega) hd'
    (fun k hk p hp => List.mem_append_left _ (hpairs k hk p hp)) (fun p hp => List.mem_append_right _ hp) hextract
    hlevel with ⟨more, hmore, hsub⟩
  rw [hmore]
  exact hsub.trans ((List.take_sublist _ _).trans (List.drop_sublist _ _))

/-- **Partial merkle trees.**  What is built, serialized and read gives the root and the matched transaction ids back.
A tree of the block's size that gives the block's root, which is not 0, has matches of the block in the order of the
block only.  And no tree makes the extraction run on or read outside the vectors. -/
theorem partialMerkleTree_spec (H : Crypto) :
    (∀ (vTxid : List UInt256) (vMatch : List Bool), vTxid ≠ [] → vTxid.length ≤ maxBlockSize / 60 →
      vMatch.length = vTxid.length → ∀ rest : Bytes, ∃ t t', ofTxids H vTxid vMatch = some t ∧
        unserialize (t.serialize ++ rest) = some (t', rest) ∧
        t'.extractMatches H = some (txidsRoot H vTxid, matched (vTxid.zip vMatch), t')) ∧
    (∀ (block : CBlock) (t t' : CPartialMerkleTree) (vMatch : List UInt256),
      t.nTransactions.toNat = block.vtx.length →
      CollisionFreeOn H (block.hashedMessages H ∪ t.hashedMessages H) → block.merkleRoot H ≠ 0 →
      t.extractMatches H = some (block.merkleRoot H, vMatch, t') → vMatch.Sublist (block.txids H)) ∧
    ∀ t : CPartialMerkleTree, (t.extractMatches H).isSome = true := by
  refine ⟨fun vTxid vMatch hne hcount hmatch rest => ?_, fun block t t' vMatch => extractMatches_sound,
    extractMatches_isSome H⟩
  have hmax : maxBlockSize / 60 = 16666 := rfl
  have hlength : (UInt32.ofNat vTxid.length).toNat = vTxid.length :=
    UInt32.toNat_ofNat_of_lt' (by rw [UInt32.size]; omega)
  exact roundTrip hlength hmatch (by omega) hne hcount rest

/-- A block with one transaction. -/
def sampleBlock : CBlock :=
  ⟨⟨⟨1, 0, 0, 0, 0, 0⟩, none⟩, [⟨1, [], [], 0⟩]⟩

theorem collisionFreeOn_sample (x : UInt256) (bits : List Bool) (hashes : List UInt256) :
    CollisionFreeOn ⟨fun _ => x, fun _ => 0⟩ (sampleBlock.hashedMessages ⟨fun _ => x, fun _ => 0⟩ ∪
      hashedMessages ⟨fun _ => x, fun _ => 0⟩ ⟨1, bits, hashes, false⟩) := by
  have hzero : nHeight ⟨1, bits, hashes, false⟩ = some 0 := by
    rw [nHeight, heightLoop, if_neg (by simp [calcTreeWidth])]
  have hone : ∀ m ∈ sampleBlock.hashedMessages ⟨fun _ => x, fun _ => 0⟩ ∪
      hashedMessages ⟨fun _ => x, fun _ => 0⟩ ⟨1, bits, hashes, false⟩,
      m = CTransaction.codec.put ⟨1, [], [], 0⟩ := by
    rintro m ((⟨tx, htx, rfl⟩ | ⟨p, hp, -⟩) | ⟨height, hheight, p, hp, -⟩)
    · rw [List.mem_singleton.1 htx]
    · cases hp
    · cases hzero.symm.trans hheight
      cases hp
  intro m hm m' hm' _
  rw [hone m hm, hone m' hm']

/-- A failed extraction returns 0 and leaves the matches: a block with the root 0 is not safe. -/
theorem partialMerkleTree_not_sound :
    ¬∀ (H : Crypto) (block : CBlock) (t t' : CPartialMerkleTree) (vMatch : List UInt256),
      t.nTransactions.toNat = block.vtx.length →
      CollisionFreeOn H (block.hashedMessages H ∪ t.hashedMessages H) → NoLeafIsNode H block block →
      t.extractMatches H = some (block.merkleRoot H, vMatch, t') → ∀ x ∈ vMatch, x ∈ block.txids H := by
  intro h
  have hleaf : NoLeafIsNode ⟨fun _ => 0, fun _ => 0⟩ sampleBlock sampleBlock := by
    intro x _ p hp
    cases hp
  have hmem := h ⟨fun _ => 0, fun _ => 0⟩ sampleBlock ⟨1, List.replicate 16 true, [5], false⟩
    ⟨1, List.replicate 16 true, [5], false⟩ [5] rfl (collisionFreeOn_sample 0 _ [5]) hleaf rfl 5
    (List.mem_singleton_self 5)
  have hids : sampleBlock.txids ⟨fun _ => 0, fun _ => 0⟩ = [0] := rfl
  rw [hids, List.mem_singleton] at hmem
  exact absurd hmem (by decide)

theorem partialMerkleTree_spec_sample :
    (∃ t t', ofTxids ⟨fun _ => 1, fun _ => 0⟩ [5, 7, 9] [false, true, false] = some t ∧
      unserialize (t.serialize ++ []) = some (t', []) ∧
      t'.extractMatches ⟨fun _ => 1, fun _ => 0⟩ = some (txidsRoot ⟨fun _ => 1, fun _ => 0⟩ [5, 7, 9], [7], t')) ∧
    [(1 : UInt256)].Sublist (sampleBlock.txids ⟨fun _ => 1, fun _ => 0⟩) :=
  ⟨(partialMerkleTree_spec ⟨fun _ => 1, fun _ => 0⟩).1 [5, 7, 9] [false, true, false] (List.cons_ne_nil _ _) (by decide)
      rfl [],
    (partialMerkleTree_spec ⟨fun _ => 1, fun _ => 0⟩).2.1 sampleBlock ⟨1, true :: List.replicate 7 false, [1], false⟩
      ⟨1, true :: List.replicate 7 false, [1], false⟩ [1] rfl
      (collisionFreeOn_sample 1 _ [1]) (by decide) rfl⟩

end CPartialMerkleTree

end Dobbscoin
