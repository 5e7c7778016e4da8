import Dobbscoin.Primitives.Block
import Mathlib.Data.List.Sort

/-!
# Block files

The files `blk?????.dat` and `rev?????.dat`, the counters that `FindBlockPos` of `main.cpp`
keep for each pair of them, and what the functions do to the files.
-/

namespace Dobbscoin

def maxBlockFileSize : Nat := 0x8000000
def blockFileChunkSize : Nat := 0x1000000
/-- The value of an `unsigned int` expression. -/
def uint32 (n : Nat) : Nat :=
  n % 2 ^ 32

theorem uint32_of_lt {n : Nat} (h : n < 2 ^ 32) : uint32 n = n :=
  Nat.mod_eq_of_lt h

structure CBlockFileInfo where
  nBlocks : Nat
  nSize : Nat
  nUndoSize : Nat
  nHeightFirst : Nat
  nHeightLast : Nat
  nTimeFirst : Nat
  nTimeLast : Nat
  deriving DecidableEq

namespace CBlockFileInfo

def null : CBlockFileInfo :=
  ⟨0, 0, 0, 0, 0, 0, 0⟩

/-- Update statistics (does not update `nSize`). -/
def addBlock (i : CBlockFileInfo) (nHeightIn nTimeIn : Nat) : CBlockFileInfo where
  nBlocks := uint32 (i.nBlocks + 1)
  nSize := i.nSize
  nUndoSize := i.nUndoSize
  nHeightFirst := if i.nBlocks = 0 ∨ i.nHeightFirst > nHeightIn then nHeightIn else i.nHeightFirst
  nHeightLast := if nHeightIn > i.nHeightLast then nHeightIn else i.nHeightLast
  nTimeFirst := if i.nBlocks = 0 ∨ i.nTimeFirst > nTimeIn then nTimeIn else i.nTimeFirst
  nTimeLast := if nTimeIn > i.nTimeLast then nTimeIn else i.nTimeLast

end CBlockFileInfo

structure CDiskBlockPos where
  nFile : Nat
  nPos : Nat
  deriving DecidableEq

/-- What `OpenBlockFile` and `OpenUndoFile` open. -/
inductive DiskFile where
  | blk (nFile : Nat)
  | rev (nFile : Nat)
  deriving DecidableEq

/-- What is done to the files, apart from writing records to them. -/
inductive FileAct where
  | truncate (file : DiskFile) (length : Nat)
  | commit (file : DiskFile)
  | allocate (file : DiskFile) (offset length : Nat)
  deriving DecidableEq

/-- `vinfoBlockFile`, `nLastBlockFile` and `setDirtyFileInfo`. -/
structure BlockFiles where
  vinfoBlockFile : List CBlockFileInfo
  nLastBlockFile : Nat
  setDirtyFileInfo : List Nat
  deriving DecidableEq

inductive FindPosError where
  | outOfDiskSpace
  /-- `vinfoBlockFile` has no such element. -/
  | outOfRange
  deriving DecidableEq

/-- How `FindBlockPos` and `FindUndoPos` return. -/
structure FoundPos where
  result : Except FindPosError CDiskBlockPos
  files : BlockFiles
  acts : List FileAct

namespace BlockFiles

def empty : BlockFiles :=
  ⟨[], 0, []⟩

/-- The counters of a file; a file that the vector does not have yet starts with none. -/
def info (s : BlockFiles) (nFile : Nat) : CBlockFileInfo :=
  s.vinfoBlockFile.getD nFile .null

/-- Assign to `vinfoBlockFile[nFile]`, after `resize` where the vector is too short. -/
def setInfo (s : BlockFiles) (nFile : Nat) (i : CBlockFileInfo) : BlockFiles :=
  { s with
    vinfoBlockFile :=
      (s.vinfoBlockFile ++ List.replicate (nFile + 1 - s.vinfoBlockFile.length) CBlockFileInfo.null).set nFile i }

/-- `setDirtyFileInfo.insert`; the set is ordered. -/
def markDirty (s : BlockFiles) (nFile : Nat) : BlockFiles :=
  { s with
    setDirtyFileInfo :=
      if nFile ∈ s.setDirtyFileInfo then s.setDirtyFileInfo
      else s.setDirtyFileInfo.orderedInsert (· ≤ ·) nFile }

theorem info_setInfo (s : BlockFiles) (nFile : Nat) (i : CBlockFileInfo) (f : Nat) :
    (s.setInfo nFile i).info f = if f = nFile then i else s.info f := by
  have hlen : nFile < (s.vinfoBlockFile ++
      List.replicate (nFile + 1 - s.vinfoBlockFile.length) CBlockFileInfo.null).length := by
    rw [List.length_append, List.length_replicate]
    omega
  simp only [info, setInfo, List.getD_eq_getElem?_getD]
  split_ifs with hf
  · rw [hf, List.getElem?_set_self hlen, Option.getD_some]
  · rw [List.getElem?_set_ne (Ne.symm hf), List.getElem?_append]
    split_ifs with hold
    · rfl
    -- What is new in the vector is empty, as what is not there.
    · rw [List.getElem?_eq_none (not_lt.1 hold), List.getElem?_replicate]
      split_ifs <;> rfl

/-- `FlushBlockFile`. -/
def flushBlockFile (s : BlockFiles) (fFinalize : Bool) : List FileAct :=
  let info := s.info s.nLastBlockFile
  (if fFinalize then [.truncate (.blk s.nLastBlockFile) info.nSize] else []) ++
    .commit (.blk s.nLastBlockFile) ::
      ((if fFinalize then [.truncate (.rev s.nLastBlockFile) info.nUndoSize] else []) ++
        [.commit (.rev s.nLastBlockFile)])

/-! ## FindBlockPos -/

/-- The loop that leaves full files behind: the first file from `nFile` on that has room.  A file that is not
used yet has room for everything that is smaller than a file. -/
def nextFile (s : BlockFiles) (nAddSize : Nat) : Nat → Nat → Option Nat
  | 0, _ => none
  | fuel + 1, nFile =>
    if uint32 ((s.info nFile).nSize + nAddSize) ≥ maxBlockFileSize then s.nextFile nAddSize fuel (nFile + 1)
    else some nFile

/-- The number of chunks that so many bytes take. -/
def chunks (nChunkSize nSize : Nat) : Nat :=
  uint32 (nSize + nChunkSize - 1) / nChunkSize

/-- Grow a file in chunks; `fSpace` is the outcome of `CheckDiskSpace`. -/
def preallocate (file : DiskFile) (nChunkSize nPos nNewSize : Nat) (fSpace : Bool) :
    Except FindPosError (List FileAct) :=
  let nNewChunks := chunks nChunkSize nNewSize
  if nNewChunks > chunks nChunkSize nPos then
    if fSpace then .ok [.allocate file nPos (uint32 (nNewChunks * nChunkSize + 2 ^ 32 - nPos))]
    else .error .outOfDiskSpace
  else .ok []

/-- `FindBlockPos` with a known position. -/
def findKnownPos (s : BlockFiles) (pos : CDiskBlockPos) (nAddSize nHeight nTime : Nat) : FoundPos :=
  let info := { (s.info pos.nFile).addBlock nHeight nTime with
    nSize := max (uint32 (pos.nPos + nAddSize)) (s.info pos.nFile).nSize }
  ⟨.ok pos, ({ s.setInfo pos.nFile info with nLastBlockFile := pos.nFile } : BlockFiles).markDirty pos.nFile,
    []⟩

/-- `FindBlockPos` for a block that is to be written, once the file is chosen. -/
def findPosIn (s : BlockFiles) (nFile nAddSize nHeight nTime : Nat) (fSpace : Bool) : FoundPos :=
  let pos : CDiskBlockPos := ⟨nFile, (s.info nFile).nSize⟩
  let info := { (s.info nFile).addBlock nHeight nTime with
    nSize := uint32 ((s.info nFile).nSize + nAddSize) }
  let left := (List.replicate (nFile - s.nLastBlockFile) (s.flushBlockFile true)).flatten
  let s : BlockFiles := { s.setInfo nFile info with nLastBlockFile := nFile }
  match preallocate (.blk nFile) blockFileChunkSize pos.nPos info.nSize fSpace with
  | .ok acts => ⟨.ok pos, s.markDirty nFile, left ++ acts⟩
  | .error e => ⟨.error e, s, left⟩

/-- `FindBlockPos`; nothing is returned when the loop does not end. -/
def findBlockPos (s : BlockFiles) (dbp : Option CDiskBlockPos) (nAddSize nHeight nTime : Nat)
    (fSpace : Bool) : Option FoundPos :=
  match dbp with
  | some pos => some (s.findKnownPos pos nAddSize nHeight nTime)
  | none =>
    (s.nextFile nAddSize (s.vinfoBlockFile.length + 1) s.nLastBlockFile).map fun nFile =>
      s.findPosIn nFile nAddSize nHeight nTime fSpace

/-! ## What the functions do to the counters -/

theorem info_of_length_le {s : BlockFiles} {nFile : Nat} (h : s.vinfoBlockFile.length ≤ nFile) :
    s.info nFile = .null := by
  rw [info, List.getD_eq_getElem?_getD, List.getElem?_eq_none h, Option.getD_none]

/-- The loop ends in a file that has room. -/
theorem nextFile_room {s : BlockFiles} {nAddSize fuel nFile f : Nat}
    (h : s.nextFile nAddSize fuel nFile = some f) :
    nFile ≤ f ∧ uint32 ((s.info f).nSize + nAddSize) < maxBlockFileSize := by
  induction fuel generalizing nFile with
  | zero => cases h
  | succ fuel ih =>
    unfold nextFile at h
    split_ifs at h with hfull
    · have hnext := ih h
      exact ⟨Nat.le_of_succ_le hnext.1, hnext.2⟩
    · obtain rfl := Option.some.inj h
      exact ⟨le_refl _, not_le.1 hfull⟩

/-- The loop ends, for everything that is smaller than a file. -/
theorem nextFile_isSome {s : BlockFiles} {nAddSize fuel nFile : Nat} (h : nAddSize < maxBlockFileSize)
    (hfuel : s.vinfoBlockFile.length - nFile < fuel) : (s.nextFile nAddSize fuel nFile).isSome = true := by
  induction fuel generalizing nFile with
  | zero => exact absurd hfuel (Nat.not_lt_zero _)
  | succ fuel ih =>
    unfold nextFile
    split_ifs with hfull
    · -- A file that is full is one of the vector's.
      have hused : nFile < s.vinfoBlockFile.length := by
        by_contra hnew
        have hroom : uint32 nAddSize < maxBlockFileSize := lt_of_le_of_lt (Nat.mod_le _ _) h
        rw [info_of_length_le (not_lt.1 hnew)] at hfull
        rw [CBlockFileInfo.null, Nat.zero_add] at hfull
        exact absurd hroom (not_lt.2 hfull)
      exact ih (by omega)
    · rfl

theorem findBlockPos_isSome (s : BlockFiles) (dbp : Option CDiskBlockPos) {nAddSize : Nat}
    (nHeight nTime : Nat) (fSpace : Bool) (h : nAddSize < maxBlockFileSize) :
    (s.findBlockPos dbp nAddSize nHeight nTime fSpace).isSome = true := by
  cases dbp with
  | some pos => rfl
  | none =>
    have hfuel : s.vinfoBlockFile.length - s.nLastBlockFile < s.vinfoBlockFile.length + 1 := by omega
    rw [findBlockPos, Option.isSome_map]
    exact nextFile_isSome h hfuel

end BlockFiles

end Dobbscoin
