import Dobbscoin.Lib.RingBuffer
import Dobbscoin.Storage.BlockFiles

/-!
# Buffered files

`CBufferedFile` of `streams.h`: a file is read through a ring buffer, in which a stream position can be set back.
-/

namespace Dobbscoin

open RingBuffer

/-! ## The file and its buffer -/

/-- The value of an `uint64_t` expression. -/
def uint64 (n : Nat) : Nat :=
  n % 2 ^ 64

/-- The difference of two values of type `uint64_t`. -/
def sub64 (a b : Nat) : Nat :=
  uint64 (a + 2 ^ 64 - b)

/-- A file, whose positions are of type `off_t`, and how much `fread` returns at each position; 0 is an error. -/
structure SourceFile where
  content : Bytes
  bound : content.length < 2 ^ 63
  short : Nat → Nat

structure CBufferedFile where
  nSrcPos : Nat
  nReadPos : Nat
  nReadLimit : Nat
  nRewind : Nat
  size : Nat
  vchBuf : Nat → UInt8

inductive StreamError where
  /-- `std::ios_base::failure`. -/
  | failure
  /-- The call does not end, or it touches memory outside of the buffers. -/
  | undefined
  deriving DecidableEq

namespace CBufferedFile

def new (nBufSize nRewindIn : Nat) : CBufferedFile :=
  ⟨0, 0, 2 ^ 64 - 1, nRewindIn, nBufSize, fun _ => 0⟩

/-- `Fill`. -/
def fill (src : SourceFile) (f : CBufferedFile) : Except StreamError (Bool × CBufferedFile) :=
  let pos := uint32 (f.nSrcPos % f.size)
  let readNow := uint32 (sub64 f.size pos)
  let nAvail := uint32 (sub64 (sub64 f.size (sub64 f.nSrcPos f.nReadPos)) f.nRewind)
  let readNow := if nAvail < readNow then nAvail else readNow
  if readNow = 0 then .ok (false, f)
  else
    let read := min readNow (min (src.short f.nSrcPos) (src.content.length - f.nSrcPos))
    if read = 0 then .error .failure
    else
      .ok (true, { f with
        vchBuf := store f.vchBuf pos ((src.content.drop f.nSrcPos).take read)
        nSrcPos := uint64 (f.nSrcPos + read) })

/-- `if (nReadPos == nSrcPos) Fill();` -/
def fillIfRead (src : SourceFile) (f : CBufferedFile) : Except StreamError CBufferedFile :=
  if f.nReadPos = f.nSrcPos then (fill src f).map Prod.snd else .ok f

/-- The loop of `read`. -/
def readLoop (src : SourceFile) : Nat → CBufferedFile → Nat → Except StreamError (Bytes × CBufferedFile)
  | _, f, 0 => .ok ([], f)
  | 0, _, _ + 1 => .error .undefined
  | fuel + 1, f, nSize + 1 => do
    let f ← fillIfRead src f
    let pos := uint32 (f.nReadPos % f.size)
    let nNow := nSize + 1
    let nNow := if uint64 (nNow + pos) > f.size then sub64 f.size pos else nNow
    let nNow := if uint64 (nNow + f.nReadPos) > f.nSrcPos then sub64 f.nSrcPos f.nReadPos else nNow
    if nNow ≤ nSize + 1 ∧ pos + nNow ≤ f.size then
      let bytes := (List.range nNow).map fun i => f.vchBuf (pos + i)
      let (rest, f) ← readLoop src fuel { f with nReadPos := uint64 (f.nReadPos + nNow) } (nSize + 1 - nNow)
      .ok (bytes ++ rest, f)
    else .error .undefined

/-- `read`. -/
def read (src : SourceFile) (f : CBufferedFile) (nSize : Nat) : Except StreamError (Bytes × CBufferedFile) :=
  if uint64 (nSize + f.nReadPos) > f.nReadLimit then .error .failure
  else if uint64 (nSize + f.nRewind) > f.size then .error .failure
  else readLoop src nSize f nSize

/-- `SetPos`. -/
def setPos (f : CBufferedFile) (nPos : Nat) : CBufferedFile × Bool :=
  if uint64 (nPos + f.nRewind) < f.nSrcPos then ({ f with nReadPos := sub64 f.nSrcPos f.nRewind }, false)
  else if nPos > f.nSrcPos then ({ f with nReadPos := f.nSrcPos }, false)
  else ({ f with nReadPos := nPos }, true)

/-- `SetLimit`. -/
def setLimit (f : CBufferedFile) (nPos : Nat) : CBufferedFile × Bool :=
  if nPos < f.nReadPos then (f, false) else ({ f with nReadLimit := nPos }, true)

/-- The loop of `FindByte`. -/
def findByteLoop (src : SourceFile) (ch : UInt8) : Nat → CBufferedFile → Except StreamError CBufferedFile
  | 0, _ => .error .undefined
  | fuel + 1, f => do
    let f ← fillIfRead src f
    if f.vchBuf (f.nReadPos % f.size) = ch then .ok f
    else findByteLoop src ch fuel { f with nReadPos := uint64 (f.nReadPos + 1) }

/-- `FindByte`; it moves on by one byte each time. -/
def findByte (src : SourceFile) (f : CBufferedFile) (ch : UInt8) : Except StreamError CBufferedFile :=
  findByteLoop src ch (src.content.length + 1) f

end CBufferedFile

/-! ## Runs -/

inductive StreamCall where
  /-- The bytes go to an object, which cannot be larger. -/
  | read (nSize : Nat) (fits : nSize < 2 ^ 63)
  | findByte (ch : UInt8)
  | setPos (nPos : UInt64)
  | setLimit (nPos : UInt64)

namespace CBufferedFile

/-- One call: the bytes that it delivers, each with its position. -/
def call (src : SourceFile) (f : CBufferedFile) : StreamCall → Except StreamError (List (UInt8 × Nat) × CBufferedFile)
  | .read nSize _ => (f.read src nSize).map fun r => (r.1.zipIdx f.nReadPos, r.2)
  | .findByte ch => (f.findByte src ch).map fun f' => ([(ch, f'.nReadPos)], f')
  | .setPos nPos => .ok ([], (f.setPos nPos.toNat).1)
  | .setLimit nPos => .ok ([], (f.setLimit nPos.toNat).1)

/-- Calls one after the other, until one throws. -/
def run (src : SourceFile) : CBufferedFile → List StreamCall → Except StreamError (List (UInt8 × Nat) × CBufferedFile)
  | f, [] => .ok ([], f)
  | f, c :: calls => do
    let (delivered, f) ← f.call src c
    let (rest, f) ← run src f calls
    .ok (delivered ++ rest, f)

end CBufferedFile

/-! ## What the buffer holds -/

/-- The buffer holds the bytes before `nSrcPos`, and the reader is among them or right behind them. -/
structure CBufferedFile.Good (src : SourceFile) (nBufSize nRewind : Nat) (f : CBufferedFile) : Prop where
  size : f.size = nBufSize
  rewind : f.nRewind = nRewind
  window : Window nBufSize src.content f.vchBuf f.nSrcPos
  le : f.nReadPos ≤ f.nSrcPos
  near : f.nSrcPos ≤ f.nReadPos + nBufSize

namespace CBufferedFile

theorem sub64_of_le {a b : Nat} (hle : b ≤ a) (ha : a < 2 ^ 64) : sub64 a b = a - b := by
  rw [sub64, uint64]
  omega

variable {src : SourceFile} {nBufSize nRewind : Nat} {f : CBufferedFile}

theorem good_new : (new nBufSize nRewind).Good src nBufSize nRewind :=
  ⟨rfl, rfl, window_zero, le_rfl, Nat.zero_le _⟩

/-- `Fill` reads at least one byte, or it throws. -/
theorem fill_good (hrewind : nRewind < nBufSize) (hsize : nBufSize < 2 ^ 32) (h : f.Good src nBufSize nRewind)
    (hread : f.nReadPos = f.nSrcPos) :
    (∃ f', fill src f = .ok (true, f') ∧ f'.Good src nBufSize nRewind ∧ f'.nReadPos = f.nReadPos ∧
      f'.nReadPos < f'.nSrcPos) ∨ fill src f = .error .failure := by
  have hlen := src.bound
  have hle := h.window.le
  have hpos : f.nSrcPos % nBufSize < nBufSize := Nat.mod_lt _ (by omega)
  have huint : uint32 (f.nSrcPos % nBufSize) = f.nSrcPos % nBufSize := uint32_of_lt (by omega)
  have hnow : uint32 (sub64 nBufSize (f.nSrcPos % nBufSize)) = nBufSize - f.nSrcPos % nBufSize := by
    rw [sub64_of_le hpos.le (by omega), uint32_of_lt (by omega)]
  have havail : uint32 (sub64 (sub64 nBufSize (sub64 f.nSrcPos f.nSrcPos)) nRewind) = nBufSize - nRewind := by
    rw [sub64_of_le le_rfl (by omega), Nat.sub_self, sub64_of_le (Nat.zero_le _) (by omega), Nat.sub_zero,
      sub64_of_le hrewind.le (by omega), uint32_of_lt (by omega)]
  rw [fill, hread, h.size, h.rewind, huint, hnow, havail]
  dsimp only
  generalize hnowEq : (if nBufSize - nRewind < nBufSize - f.nSrcPos % nBufSize then nBufSize - nRewind
    else nBufSize - f.nSrcPos % nBufSize) = readNow
  have hbounds : 0 < readNow ∧ readNow ≤ nBufSize - nRewind ∧ readNow ≤ nBufSize - f.nSrcPos % nBufSize := by
    rw [← hnowEq]
    split <;> omega
  rw [if_neg hbounds.1.ne']
  generalize hcount : min readNow (min (src.short f.nSrcPos) (src.content.length - f.nSrcPos)) = count
  by_cases hzero : count = 0
  · rw [if_pos hzero]
    exact Or.inr rfl
  · rw [if_neg hzero]
    have hcountLe : count ≤ readNow ∧ count ≤ src.content.length - f.nSrcPos := by omega
    have hnext : uint64 (f.nSrcPos + count) = f.nSrcPos + count := Nat.mod_eq_of_lt (by omega)
    refine Or.inl ⟨_, rfl, ⟨rfl, rfl, ?_, ?_, ?_⟩, rfl, ?_⟩
    · rw [hnext]
      exact h.window.store (by omega) (by omega)
    · dsimp only
      omega
    · dsimp only
      omega
    · dsimp only
      omega

theorem fillIfRead_good (hrewind : nRewind < nBufSize) (hsize : nBufSize < 2 ^ 32) (h : f.Good src nBufSize nRewind) :
    (∃ f', fillIfRead src f = .ok f' ∧ f'.Good src nBufSize nRewind ∧ f'.nReadPos = f.nReadPos ∧
      f'.nReadPos < f'.nSrcPos) ∨ fillIfRead src f = .error .failure := by
  rw [fillIfRead]
  by_cases hread : f.nReadPos = f.nSrcPos
  · rw [if_pos hread]
    rcases fill_good hrewind hsize h hread with ⟨f', hfill, hrest⟩ | hfails
    · rw [hfill]
      exact Or.inl ⟨f', rfl, hrest⟩
    · rw [hfails]
      exact Or.inr rfl
  · rw [if_neg hread]
    exact Or.inl ⟨f, rfl, h, rfl, lt_of_le_of_ne h.le hread⟩

/-- The bytes that are copied out of the buffer are those of the file. -/
theorem copied_eq (h : f.Good src nBufSize nRewind) {nNow : Nat} (hend : f.nReadPos + nNow ≤ f.nSrcPos)
    (hfits : f.nReadPos % nBufSize + nNow ≤ nBufSize) :
    ((List.range nNow).map fun i => f.vchBuf (f.nReadPos % nBufSize + i)) =
      (src.content.drop f.nReadPos).take nNow := by
  have hle := h.window.le
  have hnear := h.near
  refine List.ext_getElem? fun i => ?_
  by_cases hi : i < nNow
  · have hmod : (f.nReadPos + i) % nBufSize = f.nReadPos % nBufSize + i := by
      rw [Nat.add_mod, Nat.mod_eq_of_lt (by omega : i < nBufSize), Nat.mod_eq_of_lt (by omega)]
    have hbyte := h.window.holds (f.nReadPos + i) (by omega) (by omega)
    rw [List.getElem?_take_of_lt hi, List.getElem?_drop, hbyte, hmod, List.getElem?_map, List.getElem?_range hi,
      Option.map_some]
  · rw [List.getElem?_eq_none (by rw [List.length_map, List.length_range]; omega),
      List.getElem?_eq_none (by rw [List.length_take]; omega)]

/-- `read` copies the next bytes of the file, or it throws. -/
theorem readLoop_good (hrewind : nRewind < nBufSize) (hsize : nBufSize < 2 ^ 32) {fuel nSize : Nat} (hfuel : nSize ≤ fuel)
    (hnSize : nSize < 2 ^ 63) (h : f.Good src nBufSize nRewind) :
    (∃ f', readLoop src fuel f nSize = .ok ((src.content.drop f.nReadPos).take nSize, f') ∧
      f'.Good src nBufSize nRewind ∧ f'.nReadPos = f.nReadPos + nSize) ∨
      readLoop src fuel f nSize = .error .failure := by
  induction fuel generalizing f nSize with
  | zero =>
    obtain rfl := Nat.le_zero.1 hfuel
    exact Or.inl ⟨f, by rw [readLoop, List.take_zero], h, rfl⟩
  | succ fuel ih =>
    cases nSize with
    | zero => exact Or.inl ⟨f, by rw [readLoop, List.take_zero], h, rfl⟩
    | succ nSize =>
      rw [readLoop]
      rcases fillIfRead_good hrewind hsize h with ⟨f₁, hfill, hgood, hsame, hahead⟩ | hfails
      · rw [hfill]
        have hlen := src.bound
        have hle := hgood.window.le
        have hpos : f₁.nReadPos % nBufSize < nBufSize := Nat.mod_lt _ (by omega)
        have huint : uint32 (f₁.nReadPos % nBufSize) = f₁.nReadPos % nBufSize := uint32_of_lt (by omega)
        have hsum : uint64 (nSize + 1 + f₁.nReadPos % nBufSize) = nSize + 1 + f₁.nReadPos % nBufSize :=
          Nat.mod_eq_of_lt (by omega)
        have hrest : sub64 nBufSize (f₁.nReadPos % nBufSize) = nBufSize - f₁.nReadPos % nBufSize :=
          sub64_of_le hpos.le (by omega)
        have hahead' : sub64 f₁.nSrcPos f₁.nReadPos = f₁.nSrcPos - f₁.nReadPos := sub64_of_le hahead.le (by omega)
        dsimp only [bind, Except.bind]
        rw [hgood.size, huint, hsum, hrest, hahead']
        generalize hclip : (if nSize + 1 + f₁.nReadPos % nBufSize > nBufSize then nBufSize - f₁.nReadPos % nBufSize
          else nSize + 1) = nClip
        have hclipped : 0 < nClip ∧ nClip ≤ nSize + 1 ∧ f₁.nReadPos % nBufSize + nClip ≤ nBufSize := by
          rw [← hclip]
          split <;> omega
        have hsum' : uint64 (nClip + f₁.nReadPos) = nClip + f₁.nReadPos := Nat.mod_eq_of_lt (by omega)
        rw [hsum']
        generalize hnow : (if nClip + f₁.nReadPos > f₁.nSrcPos then f₁.nSrcPos - f₁.nReadPos else nClip) = nNow
        have hnowBounds : 0 < nNow ∧ nNow ≤ nClip ∧ f₁.nReadPos + nNow ≤ f₁.nSrcPos := by
          rw [← hnow]
          split <;> omega
        rw [if_pos (by omega)]
        have hnext : uint64 (f₁.nReadPos + nNow) = f₁.nReadPos + nNow := Nat.mod_eq_of_lt (by omega)
        have hcopied := copied_eq hgood hnowBounds.2.2 (by omega)
        rw [hnext, hcopied]
        have hnear : f₁.nSrcPos ≤ f₁.nReadPos + nNow + nBufSize := hgood.near.trans (by omega)
        have hgood' : CBufferedFile.Good src nBufSize nRewind
            { f₁ with nReadPos := f₁.nReadPos + nNow, size := nBufSize } :=
          ⟨rfl, hgood.rewind, hgood.window, hnowBounds.2.2, hnear⟩
        have hfuel' : nSize + 1 - nNow ≤ fuel := by omega
        rcases ih hfuel' (by omega) hgood' with ⟨f₂, hloop, hgood₂, hread₂⟩ | hfails
        · rw [hloop]
          refine Or.inl ⟨f₂, ?_, hgood₂, ?_⟩
          · have hall : (src.content.drop f₁.nReadPos).take (nSize + 1) =
                (src.content.drop f₁.nReadPos).take nNow ++
                  (src.content.drop (f₁.nReadPos + nNow)).take (nSize + 1 - nNow) := by
              rw [← List.drop_drop, ← List.take_add]
              congr 1
              omega
            rw [← hsame, hall]
          · dsimp only at hread₂
            omega
        · rw [hfails]
          exact Or.inr rfl
      · rw [hfails]
        exact Or.inr rfl

theorem read_good (hrewind : nRewind < nBufSize) (hsize : nBufSize < 2 ^ 32) {nSize : Nat} (hnSize : nSize < 2 ^ 63)
    (h : f.Good src nBufSize nRewind) :
    (∃ f', read src f nSize = .ok ((src.content.drop f.nReadPos).take nSize, f') ∧ f'.Good src nBufSize nRewind) ∨
      read src f nSize = .error .failure := by
  rw [read]
  split
  · exact Or.inr rfl
  · split
    · exact Or.inr rfl
    · rcases readLoop_good hrewind hsize le_rfl hnSize h with ⟨f', hloop, hgood, -⟩ | hfails
      · exact Or.inl ⟨f', hloop, hgood⟩
      · exact Or.inr hfails

/-- `FindByte` stops on the byte, or it throws. -/
theorem findByteLoop_good (hrewind : nRewind < nBufSize) (hsize : nBufSize < 2 ^ 32) (ch : UInt8) {fuel : Nat}
    (h : f.Good src nBufSize nRewind) (hfuel : src.content.length < f.nReadPos + fuel) :
    (∃ f', findByteLoop src ch fuel f = .ok f' ∧ f'.Good src nBufSize nRewind ∧
      src.content[f'.nReadPos]? = some ch) ∨ findByteLoop src ch fuel f = .error .failure := by
  induction fuel generalizing f with
  | zero =>
    have hle := h.le.trans h.window.le
    omega
  | succ fuel ih =>
    rw [findByteLoop]
    rcases fillIfRead_good hrewind hsize h with ⟨f₁, hfill, hgood, hsame, hahead⟩ | hfails
    · rw [hfill]
      dsimp only [bind, Except.bind]
      have hbyte := hgood.window.holds f₁.nReadPos hahead hgood.near
      rw [hgood.size]
      by_cases hch : f₁.vchBuf (f₁.nReadPos % nBufSize) = ch
      · rw [if_pos hch]
        exact Or.inl ⟨f₁, rfl, hgood, hch ▸ hbyte⟩
      · have hlen := src.bound
        have hle := hgood.window.le
        have hnear := hgood.near
        have hnext : uint64 (f₁.nReadPos + 1) = f₁.nReadPos + 1 := Nat.mod_eq_of_lt (by omega)
        rw [if_neg hch, hnext]
        exact ih ⟨rfl, hgood.rewind, hgood.window, hahead, hnear.trans (by dsimp only; omega)⟩ (by dsimp only; omega)
    · rw [hfails]
      exact Or.inr rfl

theorem setPos_good (hrewind : nRewind < nBufSize) {nPos : Nat} (hwrap : nPos + nRewind < 2 ^ 64)
    (h : f.Good src nBufSize nRewind) : (f.setPos nPos).1.Good src nBufSize nRewind := by
  have hlen := src.bound
  have hle := h.window.le
  have hsum : uint64 (nPos + nRewind) = nPos + nRewind := Nat.mod_eq_of_lt hwrap
  rw [setPos, h.rewind, hsum]
  split
  · have hback : sub64 f.nSrcPos nRewind = f.nSrcPos - nRewind := sub64_of_le (by omega) (by omega)
    rw [hback]
    exact ⟨h.size, rfl, h.window, Nat.sub_le _ _, by dsimp only; omega⟩
  · split
    · exact ⟨h.size, rfl, h.window, le_rfl, Nat.le_add_right _ _⟩
    · exact ⟨h.size, rfl, h.window, by dsimp only; omega, by dsimp only; omega⟩

theorem setLimit_good {nPos : Nat} (h : f.Good src nBufSize nRewind) : (f.setLimit nPos).1.Good src nBufSize nRewind := by
  rw [setLimit]
  split
  · exact h
  · exact ⟨h.size, h.rewind, h.window, h.le, h.near⟩

end CBufferedFile

/-- The sum in `SetPos` does not wrap around. -/
def StreamCall.NoWrap (nRewind : Nat) : StreamCall → Prop
  | .setPos nPos => nPos.toNat + nRewind < 2 ^ 64
  | _ => True

namespace CBufferedFile

variable {src : SourceFile} {nBufSize nRewind : Nat} {f : CBufferedFile}

/-- What a call delivers is what the file has at these positions. -/
theorem call_good (hrewind : nRewind < nBufSize) (hsize : nBufSize < 2 ^ 32) {c : StreamCall} (hc : c.NoWrap nRewind)
    (h : f.Good src nBufSize nRewind) :
    (∃ delivered f', f.call src c = .ok (delivered, f') ∧ f'.Good src nBufSize nRewind ∧
      ∀ d ∈ delivered, src.content[d.2]? = some d.1) ∨ f.call src c = .error .failure := by
  cases c with
  | read nSize fits =>
    rw [call]
    rcases read_good hrewind hsize fits h with ⟨f', hread, hgood⟩ | hfails
    · rw [hread]
      refine Or.inl ⟨_, f', rfl, hgood, fun d hin => ?_⟩
      rcases List.mk_mem_zipIdx_iff_le_and_getElem?_sub.1 hin with ⟨hge, hbyte⟩
      rcases List.getElem?_eq_some_iff.1 hbyte with ⟨hlt, -⟩
      rw [List.length_take] at hlt
      rw [List.getElem?_take_of_lt (by omega), List.getElem?_drop, Nat.add_sub_cancel' hge] at hbyte
      exact hbyte
    · rw [hfails]
      exact Or.inr rfl
  | findByte ch =>
    rw [call, findByte]
    have hfuel : src.content.length < f.nReadPos + (src.content.length + 1) := by omega
    rcases findByteLoop_good hrewind hsize ch h hfuel with ⟨f', hfind, hgood, hbyte⟩ | hfails
    · rw [hfind]
      refine Or.inl ⟨_, f', rfl, hgood, fun d hin => ?_⟩
      rw [List.mem_singleton.1 hin]
      exact hbyte
    · rw [hfails]
      exact Or.inr rfl
  | setPos nPos =>
    exact Or.inl ⟨[], _, rfl, setPos_good hrewind hc h, fun _ hin => absurd hin List.not_mem_nil⟩
  | setLimit nPos => exact Or.inl ⟨[], _, rfl, setLimit_good h, fun _ hin => absurd hin List.not_mem_nil⟩

theorem run_good (hrewind : nRewind < nBufSize) (hsize : nBufSize < 2 ^ 32) {calls : List StreamCall}
    (hcalls : ∀ c ∈ calls, c.NoWrap nRewind) (h : f.Good src nBufSize nRewind) :
    (∃ delivered f', run src f calls = .ok (delivered, f') ∧ f'.Good src nBufSize nRewind ∧
      ∀ d ∈ delivered, src.content[d.2]? = some d.1) ∨ run src f calls = .error .failure := by
  induction calls generalizing f with
  | nil => exact Or.inl ⟨[], f, rfl, h, fun _ hin => absurd hin List.not_mem_nil⟩
  | cons c calls ih =>
    rw [run]
    rcases call_good hrewind hsize (hcalls c List.mem_cons_self) h with ⟨delivered, f₁, hcall, hgood, hbytes⟩ | hfails
    · rw [hcall]
      rcases ih (fun c' hin => hcalls c' (List.mem_cons_of_mem c hin)) hgood with
        ⟨rest, f₂, hrun, hgood₂, hrest⟩ | hfails
      · dsimp only [bind, Except.bind]
        rw [hrun]
        refine Or.inl ⟨delivered ++ rest, f₂, rfl, hgood₂, fun d hin => ?_⟩
        rcases List.mem_append.1 hin with hin | hin
        · exact hbytes d hin
        · exact hrest d hin
      · dsimp only [bind, Except.bind]
        rw [hfails]
        exact Or.inr rfl
    · rw [hfails]
      exact Or.inr rfl

/-- A position at most `nRewind` bytes back can be set exactly if the file has not been read further than `nRewind` bytes
from there. -/
theorem setPos_iff (h : f.Good src nBufSize nRewind) (hsize : nRewind < 2 ^ 32) {nPos : Nat} (hle : nPos ≤ f.nReadPos) :
    ((f.setPos nPos).2 = true ∧ (f.setPos nPos).1.nReadPos = nPos) ↔ f.nSrcPos ≤ nPos + nRewind := by
  have hlen := src.bound
  have hwindow := h.window.le
  have hread := h.le
  have hsum : uint64 (nPos + nRewind) = nPos + nRewind := Nat.mod_eq_of_lt (by omega)
  rw [setPos, h.rewind, hsum]
  split
  · next hback => exact ⟨fun hset => (nomatch hset.1), fun hnear => absurd hback (by omega)⟩
  · next hnear =>
    rw [if_neg (by omega)]
    exact ⟨fun _ => by omega, fun _ => ⟨rfl, rfl⟩⟩

end CBufferedFile

/-- Every run of calls ends or throws, and delivers the bytes of the file at their positions; and after it, `SetPos` goes
back by at most `nRewind` bytes exactly to those positions from which the buffer has not read ahead by more. -/
theorem bufferedFile_rewinds_iff (src : SourceFile) {nBufSize nRewind : Nat} (hrewind : nRewind < nBufSize)
    (hsize : nBufSize < 2 ^ 32) {calls : List StreamCall} (hcalls : ∀ c ∈ calls, c.NoWrap nRewind) :
    CBufferedFile.run src (.new nBufSize nRewind) calls ≠ .error .undefined ∧
      ∀ delivered f, CBufferedFile.run src (.new nBufSize nRewind) calls = .ok (delivered, f) →
        (∀ d ∈ delivered, src.content[d.2]? = some d.1) ∧
        ∀ p, p ≤ f.nReadPos → f.nReadPos ≤ p + nRewind →
          (((f.setPos p).2 = true ∧ (f.setPos p).1.nReadPos = p) ↔ f.nSrcPos ≤ p + nRewind) := by
  rcases CBufferedFile.run_good hrewind hsize hcalls (f := .new nBufSize nRewind) CBufferedFile.good_new with
    ⟨delivered, f, hrun, hgood, hbytes⟩ | hfails
  · rw [hrun]
    refine ⟨fun hnever => (nomatch hnever), fun delivered' f' heq => ?_⟩
    cases heq
    exact ⟨hbytes, fun p hle _ => CBufferedFile.setPos_iff hgood (by omega) hle⟩
  · rw [hfails]
    exact ⟨fun hnever => (nomatch hnever), fun delivered f heq => (nomatch heq)⟩

/-- A file of ten bytes. -/
def tenBytes : SourceFile where
  content := List.replicate 10 0
  bound := by decide
  short := fun _ => 10

theorem bufferedFile_rewinds_tenBytes :
    CBufferedFile.run tenBytes (.new 8 2) [.read 1 (by decide), .setPos 5] ≠ .error .undefined := by
  have hcalls : ∀ c ∈ [StreamCall.read 1 (by decide), .setPos 5], c.NoWrap 2 :=
    List.forall_mem_cons.2 ⟨trivial, List.forall_mem_singleton.2 (show (5 : UInt64).toNat + 2 < 2 ^ 64 by decide)⟩
  exact (bufferedFile_rewinds_iff tenBytes (by decide) (by decide) hcalls).1

/-- After one byte has been read, `SetPos` does not go back to the beginning. -/
theorem setPos_moves_on :
    ∃ delivered f, CBufferedFile.run tenBytes (.new 8 2) [.read 1 (by decide)] = .ok (delivered, f) ∧
      f.nReadPos = 1 ∧ (f.setPos 0).2 = false ∧ (f.setPos 0).1.nReadPos = 4 :=
  ⟨_, _, rfl, rfl, rfl, rfl⟩

end Dobbscoin
