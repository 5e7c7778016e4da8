import Dobbscoin.Script.GetOp
import Dobbscoin.Script.NumCodec

/-!
# Building and editing scripts

`operator<<` of `CScript`, the loop that reads back what it wrote, and `FindAndDelete`.
-/

namespace Dobbscoin

open ByteCodec

/-! ## operator<< -/

/-- What `operator<<` takes. -/
inductive ScriptItem where
  | bytes (b : Bytes)
  | opcode (op : Int)
  | int64 (n : Int)
  deriving DecidableEq

namespace CScript

/-- `push_int64`. -/
def pushInt64 (n : Int) : CScript :=
  if n = -1 ∨ (n ≥ 1 ∧ n ≤ 16) then [UInt8.ofNat (n + (op1 - 1)).toNat]
  else if n = 0 then [0]
  else pushBytes (CScriptNum.serialize n)

/-- `operator<<`, which throws at an opcode that is no byte. -/
def append (script : CScript) : ScriptItem → Except String CScript
  | .bytes b => .ok (script ++ pushBytes b)
  | .opcode op =>
    if op < 0 ∨ op > 0xff then .error "CScript::operator<<() : invalid opcode"
    else .ok (script ++ [UInt8.ofNat op.toNat])
  | .int64 n => .ok (script ++ pushInt64 n)

end CScript

/-- `CScript() << item << item ..`. -/
def buildScript (items : List ScriptItem) : Except String CScript :=
  items.foldlM CScript.append []

/-- The opcode that pushes so many bytes. -/
def pushOpcode (size : Nat) : Nat :=
  if size < opPushData1 then size
  else if size ≤ 0xff then opPushData1
  else if size ≤ 0xffff then opPushData2
  else opPushData4

namespace ScriptItem

/-- Vectors shorter than 2^32, opcodes above `OP_16`, and numbers whose magnitude is in an `int64_t`. -/
def Valid : ScriptItem → Prop
  | .bytes b => b.length < 2 ^ 32
  | .opcode op => (op16 : Int) < op ∧ op ≤ 0xff
  | .int64 n => -2 ^ 63 < n ∧ n < 2 ^ 63

/-- The opcode and the data that stand for an item: a vector with its data, a number as its opcode or as
the push of its minimal bytes. -/
def read : ScriptItem → Nat × Bytes
  | .bytes b => (pushOpcode b.length, b)
  | .opcode op => (op.toNat, [])
  | .int64 n =>
    if n = -1 ∨ (n ≥ 1 ∧ n ≤ 16) then ((n + (op1 - 1)).toNat, [])
    else (pushOpcode (CScriptNum.serialize n).length, CScriptNum.serialize n)

/-- The bytes of an item. -/
def written : ScriptItem → Bytes
  | .bytes b => CScript.pushBytes b
  | .opcode op => [UInt8.ofNat op.toNat]
  | .int64 n => CScript.pushInt64 n

end ScriptItem

namespace CScript

theorem append_eq_ok {script : CScript} {item : ScriptItem} (h : item.Valid) :
    append script item = .ok (script ++ item.written) := by
  cases item with
  | bytes b => rfl
  | int64 n => rfl
  | opcode op =>
    have hrange : ¬ (op < 0 ∨ op > 0xff) := by
      have hlow : (0 : Int) ≤ (op16 : Int) := by decide
      have hop := h.1
      have hhigh := h.2
      omega
    exact if_neg hrange

theorem buildScript_eq_ok {items : List ScriptItem} (h : ∀ item ∈ items, item.Valid) :
    buildScript items = .ok (items.flatMap ScriptItem.written) := by
  suffices hrun : ∀ script : CScript, items.foldlM append script = .ok (script ++ items.flatMap ScriptItem.written) by
    rw [buildScript, hrun, List.nil_append]
  induction items with
  | nil =>
    intro script
    rw [List.flatMap_nil, List.append_nil]
    rfl
  | cons item items ih =>
    intro script
    have hrest := ih (fun i hi => h i (List.mem_cons_of_mem _ hi)) (script ++ item.written)
    rw [List.foldlM_cons, append_eq_ok (h item List.mem_cons_self), List.flatMap_cons, ← List.append_assoc]
    exact hrest

/-! ## Reading back -/

/-- A byte above `OP_PUSHDATA4` is an opcode without operand. -/
theorem getOp_byte {n : Nat} (hlow : opPushData4 < n) (hhigh : n ≤ 0xff) (x : Bytes) :
    getOp (UInt8.ofNat n :: x) = some (n, [], x) := by
  have hbyte : (UInt8.ofNat n).toNat = n := by
    rw [UInt8.toNat_ofNat']
    exact Nat.mod_eq_of_lt (by omega)
  rw [getOp, hbyte, pushSize_op hlow]
  dsimp only
  rw [if_neg (Nat.not_lt_zero _), List.take_zero, List.drop_zero]

/-- A push is read back, when the script is shorter than 2^32 bytes. -/
theorem getOp_pushBytes {b x : Bytes} (h : (b ++ x).length < 2 ^ 32) :
    getOp (pushBytes b ++ x) = some (pushOpcode b.length, b, x) := by
  have hlen : b.length < 2 ^ 32 := by
    rw [List.length_append] at h
    omega
  have hfits : ¬ (b ++ x).length % 2 ^ 32 < b.length := by
    rw [Nat.mod_eq_of_lt h, List.length_append]
    omega
  -- A size of `w` bytes behind the opcode.
  have hwide : ∀ w : Nat, b.length < 256 ^ w → ¬ (leBytes w b.length ++ (b ++ x)).length < w ∧
      leNat ((leBytes w b.length ++ (b ++ x)).take w) = b.length ∧
      (leBytes w b.length ++ (b ++ x)).drop w = b ++ x := by
    intro w hw
    refine ⟨by rw [List.length_append, leBytes_length]; omega, ?_, List.drop_left' (leBytes_length w _)⟩
    rw [List.take_left' (leBytes_length w _), leNat_leBytes, Nat.mod_eq_of_lt hw]
  unfold pushBytes pushOpcode
  by_cases h1 : b.length < opPushData1
  · have hbyte : (UInt8.ofNat b.length).toNat = b.length := by
      rw [UInt8.toNat_ofNat']
      exact Nat.mod_eq_of_lt (by unfold opPushData1 at h1; omega)
    rw [if_pos h1, if_pos h1, List.cons_append, getOp, hbyte, pushSize, if_pos h1]
    dsimp only
    rw [if_neg hfits, List.take_left, List.drop_left]
  · rw [if_neg h1, if_neg h1]
    by_cases h2 : b.length ≤ 0xff
    · have hone : UInt8.ofNat b.length :: b ++ x = leBytes 1 b.length ++ (b ++ x) := by
        rw [leBytes, leBytes, Nat.mod_eq_of_lt (by omega)]
        rfl
      rcases hwide 1 (by omega) with ⟨hle, htake, hdrop⟩
      rw [if_pos h2, if_pos h2, List.cons_append, hone, getOp]
      have hpush : pushSize (UInt8.ofNat opPushData1).toNat (leBytes 1 b.length ++ (b ++ x)) =
          some (b.length, b ++ x) := by
        rw [show (UInt8.ofNat opPushData1).toNat = opPushData1 from rfl, pushSize, if_neg (by decide),
          if_pos rfl, if_neg hle, htake, hdrop]
      rw [hpush]
      dsimp only
      rw [if_neg hfits, List.take_left, List.drop_left]
      rfl
    · rw [if_neg h2, if_neg h2]
      by_cases h3 : b.length ≤ 0xffff
      · rcases hwide 2 (by omega) with ⟨hle, htake, hdrop⟩
        rw [if_pos h3, if_pos h3, List.cons_append, List.append_assoc, getOp]
        have hpush : pushSize (UInt8.ofNat opPushData2).toNat (leBytes 2 b.length ++ (b ++ x)) =
            some (b.length, b ++ x) := by
          rw [show (UInt8.ofNat opPushData2).toNat = opPushData2 from rfl, pushSize, if_neg (by decide),
            if_neg (by decide), if_pos rfl, if_neg hle, htake, hdrop]
        rw [hpush]
        dsimp only
        rw [if_neg hfits, List.take_left, List.drop_left]
        rfl
      · rcases hwide 4 (by omega) with ⟨hle, htake, hdrop⟩
        rw [if_neg h3, if_neg h3, List.cons_append, List.append_assoc, getOp]
        have hpush : pushSize (UInt8.ofNat opPushData4).toNat (leBytes 4 b.length ++ (b ++ x)) =
            some (b.length, b ++ x) := by
          rw [show (UInt8.ofNat opPushData4).toNat = opPushData4 from rfl, pushSize, if_neg (by decide),
            if_neg (by decide), if_neg (by decide), if_pos rfl, if_neg hle, htake, hdrop]
        rw [hpush]
        dsimp only
        rw [if_neg hfits, List.take_left, List.drop_left]
        rfl

theorem length_pushBytes (b : Bytes) : b.length < (pushBytes b).length := by
  unfold pushBytes
  split_ifs <;> simp only [List.length_cons, List.length_append, leBytes_length] <;> omega

theorem length_pushBytes_le (b : Bytes) : (pushBytes b).length ≤ b.length + 5 := by
  unfold pushBytes
  split_ifs <;> simp only [List.length_cons, List.length_append, leBytes_length] <;> omega

theorem getOp_written {item : ScriptItem} (hitem : item.Valid) {x : Bytes}
    (h : (item.written ++ x).length < 2 ^ 32) :
    getOp (item.written ++ x) = some (item.read.1, item.read.2, x) := by
  have hpush : ∀ b : Bytes, (pushBytes b ++ x).length < 2 ^ 32 →
      getOp (pushBytes b ++ x) = some (pushOpcode b.length, b, x) := by
    intro b hb
    have hlt := length_pushBytes b
    refine getOp_pushBytes ?_
    rw [List.length_append] at hb ⊢
    omega
  cases item with
  | bytes b => exact hpush b h
  | opcode op =>
    have hlow : (opPushData4 : Int) < op := Int.lt_trans (by decide) hitem.1
    have hhigh : op ≤ 0xff := hitem.2
    exact getOp_byte (by omega) (by omega) x
  | int64 n =>
    simp only [ScriptItem.written, ScriptItem.read, pushInt64] at h ⊢
    by_cases hsmall : n = -1 ∨ (n ≥ 1 ∧ n ≤ 16)
    · rw [if_pos hsmall, if_pos hsmall]
      unfold op1
      exact getOp_byte (by unfold opPushData4; omega) (by omega) x
    · rw [if_neg hsmall] at h
      rw [if_neg hsmall, if_neg hsmall]
      by_cases hzero : n = 0
      · -- `OP_0` is the push of no bytes.
        have hempty := hpush [] (by rw [if_pos hzero] at h; exact h)
        rw [hzero, CScriptNum.serialize_zero]
        exact hempty
      · rw [if_neg hzero] at h
        rw [if_neg hzero]
        exact hpush _ h

theorem getOps_written {items : List ScriptItem} (hitems : ∀ item ∈ items, item.Valid) {fuel : Nat}
    (hlen : (items.flatMap ScriptItem.written).length < 2 ^ 32)
    (hfuel : (items.flatMap ScriptItem.written).length ≤ fuel) :
    getOps fuel (items.flatMap ScriptItem.written) = (items.map ScriptItem.read, []) := by
  induction items generalizing fuel with
  | nil => cases fuel <;> rfl
  | cons item items ih =>
    rw [List.flatMap_cons] at hlen hfuel ⊢
    have hop := getOp_written (hitems item List.mem_cons_self) hlen
    have hlt := getOp_length hop
    cases fuel with
    | zero => omega
    | succ fuel =>
      have hle : (items.flatMap ScriptItem.written).length ≤ fuel := by omega
      have hrest := ih (fun i hi => hitems i (List.mem_cons_of_mem _ hi)) (by omega) hle
      rw [getOps, hop]
      dsimp only
      rw [hrest, List.map_cons]

/-! ## FindAndDelete -/

/-- A stretch of a script as `FindAndDelete` goes over it. -/
inductive ScriptPart where
  | kept (op : Bytes)
  | removed
  deriving DecidableEq

namespace ScriptPart

def before (b : Bytes) : ScriptPart → Bytes
  | .kept op => op
  | .removed => b

def after : ScriptPart → Bytes
  | .kept op => op
  | .removed => []

/-- Why the stretch is kept, with `rest` behind it: `b` does not start here, and it is one opcode. -/
def Stands (b rest : Bytes) : ScriptPart → Prop
  | .kept op => ¬ b <+: op ++ rest ∧ ∃ opcode data, getOp (op ++ rest) = some (opcode, data, rest)
  | .removed => True

end ScriptPart

open ScriptPart

/-- The parts of a script that end in `tail`, where the loop stops. -/
structure Cut (b script : Bytes) (parts : List ScriptPart) (tail : Bytes) : Prop where
  script_eq : script = parts.flatMap (before b) ++ tail
  stands : ∀ pre part post, parts = pre ++ part :: post → part.Stands b (post.flatMap (before b) ++ tail)
  notHere : ¬ b <+: tail
  stops : getOp tail = none

theorem Cut.cons {b script tail : Bytes} {parts : List ScriptPart} (h : Cut b script parts tail) {part : ScriptPart}
    (hpart : part.Stands b script) : Cut b (part.before b ++ script) (part :: parts) tail := by
  refine ⟨?_, fun pre part' post heq => ?_, h.notHere, h.stops⟩
  · rw [List.flatMap_cons, List.append_assoc, ← h.script_eq]
  · cases pre with
    | nil =>
      rw [List.nil_append, List.cons.injEq] at heq
      rw [← heq.1, ← heq.2, ← h.script_eq]
      exact hpart
    | cons p pre =>
      rw [List.cons_append, List.cons.injEq] at heq
      exact h.stands pre part' post heq.2

/-- The loop cuts the script into the stretches it keeps and the occurrences it removes. -/
theorem findAndDeleteLoop_cut {b : Bytes} (hb : b ≠ []) {fuel : Nat} {pc : Bytes} (h : pc.length ≤ fuel) :
    ∃ parts tail, Cut b pc parts tail ∧ findAndDeleteLoop b fuel pc = parts.flatMap after ++ tail := by
  have hpos : 0 < b.length := List.length_pos_of_ne_nil hb
  induction fuel generalizing pc with
  | zero =>
    have hnil : pc = [] := List.length_eq_zero_iff.1 (Nat.le_zero.1 h)
    subst hnil
    exact ⟨[], [], ⟨rfl, by simp, fun hpre => hb (List.prefix_nil.1 hpre), rfl⟩, rfl⟩
  | succ fuel ih =>
    by_cases hpre : b <+: pc
    · -- An occurrence goes, and the same position is looked at again.
      rcases hpre with ⟨rest, rfl⟩
      rw [List.length_append] at h
      rcases ih (show rest.length ≤ fuel by omega) with ⟨parts, tail, hcut, hloop⟩
      refine ⟨.removed :: parts, tail, hcut.cons (show Stands b rest .removed from trivial), ?_⟩
      rw [findAndDeleteLoop, if_pos (List.isPrefixOf_iff_prefix.2 (List.prefix_append b rest)),
        List.drop_left, hloop]
      rfl
    · have hnot : ¬ b.isPrefixOf pc = true := fun hp => hpre (List.isPrefixOf_iff_prefix.1 hp)
      cases hop : getOp pc with
      | none =>
        refine ⟨[], pc, ⟨rfl, by simp, hpre, hop⟩, ?_⟩
        rw [findAndDeleteLoop, if_neg hnot, hop]
        rfl
      | some res =>
        rcases res with ⟨opcode, data, rest⟩
        rcases getOp_split hop with ⟨op, -, rfl, -⟩
        have hlt := getOp_length hop
        rcases ih (show rest.length ≤ fuel by omega) with ⟨parts, tail, hcut, hloop⟩
        refine ⟨.kept op :: parts, tail, hcut.cons (show Stands b rest (.kept op) from ⟨hpre, opcode, data, hop⟩), ?_⟩
        rw [findAndDeleteLoop, if_neg hnot, hop]
        dsimp only
        rw [hloop, List.length_append, Nat.add_sub_cancel, List.take_left, List.flatMap_cons, List.append_assoc]
        rfl

/-- The stretches that are kept are read from the begin of what is left of the script. -/
theorem Cut.reads {b script tail : Bytes} {parts pre post : List ScriptPart} (h : Cut b script parts tail)
    (hparts : parts = pre ++ post) (hlen : script.length < 2 ^ 32) :
    Reads (pre.flatMap after ++ (post.flatMap (before b) ++ tail)) (post.flatMap (before b) ++ tail) := by
  induction pre generalizing script parts with
  | nil => exact .here _
  | cons part pre ih =>
    have hshort : (pre.flatMap (before b) ++ (post.flatMap (before b) ++ tail)).length < 2 ^ 32 ∧
        (part.after ++ (pre.flatMap after ++ (post.flatMap (before b) ++ tail))).length < 2 ^ 32 := by
      have hafter : ∀ parts : List ScriptPart, (parts.flatMap after).length ≤ (parts.flatMap (before b)).length := by
        intro parts
        induction parts with
        | nil => exact Nat.le_refl 0
        | cons p parts ihp =>
          have hp : p.after.length ≤ (p.before b).length := by
            cases p with
            | kept op => exact Nat.le_refl _
            | removed => exact Nat.zero_le _
          rw [List.flatMap_cons, List.flatMap_cons, List.length_append, List.length_append]
          omega
      have hpart := hafter [part]
      have hpre := hafter pre
      rw [h.script_eq, hparts, List.flatMap_append, List.flatMap_cons] at hlen
      simp only [List.length_append, List.flatMap_cons, List.flatMap_nil, List.append_nil] at hlen hpart ⊢
      omega
    have hrest : Cut b (pre.flatMap (before b) ++ (post.flatMap (before b) ++ tail)) (pre ++ post) tail := by
      refine ⟨by rw [List.flatMap_append, List.append_assoc], fun pre' part' post' heq => ?_, h.notHere, h.stops⟩
      refine h.stands (part :: pre') part' post' ?_
      rw [hparts, List.cons_append, heq, List.cons_append]
    have hreads := ih hrest rfl hshort.1
    rw [List.flatMap_cons, List.append_assoc]
    cases part with
    | removed => exact hreads
    | kept op =>
      have hstands := h.stands [] (.kept op) (pre ++ post) (by rw [hparts]; rfl)
      rcases hstands.2 with ⟨opcode, data, hop⟩
      rcases getOp_split hop with ⟨op', -, heq, hframe⟩
      obtain rfl := List.append_cancel_right heq
      exact .next (hframe _ hshort.2) hreads

/-- The length of the script is fuel enough. -/
theorem findAndDeleteLoop_fuel {b : Bytes} (hb : b ≠ []) {f g : Nat} {pc : Bytes} (hf : pc.length ≤ f)
    (hg : pc.length ≤ g) : findAndDeleteLoop b f pc = findAndDeleteLoop b g pc := by
  have hpos : 0 < b.length := List.length_pos_of_ne_nil hb
  have hempty : ∀ n, findAndDeleteLoop b n [] = [] := by
    intro n
    cases n with
    | zero => rfl
    | succ n =>
      cases b with
      | nil => exact absurd rfl hb
      | cons c b => rfl
  induction f generalizing g pc with
  | zero =>
    rw [List.length_eq_zero_iff.1 (Nat.le_zero.1 hf), hempty, hempty]
  | succ f ih =>
    cases g with
    | zero => rw [List.length_eq_zero_iff.1 (Nat.le_zero.1 hg), hempty, hempty]
    | succ g =>
      rw [findAndDeleteLoop, findAndDeleteLoop]
      by_cases hpre : b.isPrefixOf pc = true
      · have hle := (List.isPrefixOf_iff_prefix.1 hpre).length_le
        have hdrop := List.length_drop (i := b.length) (l := pc)
        rw [if_pos hpre, if_pos hpre]
        exact ih (by omega) (by omega)
      · rw [if_neg hpre, if_neg hpre]
        cases hop : getOp pc with
        | none => rfl
        | some res =>
          rcases res with ⟨opcode, data, rest⟩
          have hlt := getOp_length hop
          have hle : rest.length ≤ f ∧ rest.length ≤ g := by omega
          dsimp only
          rw [ih hle.1 hle.2]

/-- **Building and parsing scripts are inverse** below 2^32 bytes.  What `operator<<` appended is read back in
order; `GetOp` makes progress and stays inside of the script; and `FindAndDelete` takes out the occurrences at
which it stands after each opcode it keeps, and nothing else. -/
theorem building_parsing :
    (∀ items : List ScriptItem, (∀ item ∈ items, item.Valid) → ∃ script, buildScript items = .ok script ∧
      (script.length < 2 ^ 32 → getOps script.length script = (items.map ScriptItem.read, []))) ∧
    (∀ pc : Bytes,
      (∀ opcode data pc', getOp pc = some (opcode, data, pc') → ∃ op, op ≠ [] ∧ pc = op ++ pc') ∧
      (getOp pc = none → getOpStop pc <:+ pc) ∧
      (∀ fuel, pc.length ≤ fuel → getOps fuel pc = getOps pc.length pc) ∧
      getOp (getOps pc.length pc).2 = none ∧ (getOps pc.length pc).2 <:+ pc) ∧
    ∀ script b : Bytes, b ≠ [] →
      (∀ fuel, script.length ≤ fuel → findAndDeleteLoop b fuel script = findAndDelete script b) ∧
      ∃ parts tail, Cut b script parts tail ∧ findAndDelete script b = parts.flatMap after ++ tail ∧
        (script.length < 2 ^ 32 → ∀ pre post, parts = pre ++ post →
          Reads (pre.flatMap after ++ (post.flatMap (before b) ++ tail)) (post.flatMap (before b) ++ tail)) := by
  refine ⟨fun items hitems => ?_, fun pc => ⟨fun opcode data pc' hop => ?_, fun _ => getOpStop_suffix pc,
    fun fuel hfuel => (getOps_stops hfuel).1, (getOps_stops (Nat.le_refl _)).2.2,
    (getOps_stops (Nat.le_refl _)).2.1.suffix⟩, fun script b hb => ⟨fun fuel hfuel => ?_, ?_⟩⟩
  · exact ⟨_, buildScript_eq_ok hitems, fun hlen => getOps_written hitems hlen (Nat.le_refl _)⟩
  · rcases getOp_split hop with ⟨op, hne, heq, -⟩
    exact ⟨op, hne, heq⟩
  · rw [findAndDelete, if_neg hb]
    exact findAndDeleteLoop_fuel hb hfuel (Nat.le_refl _)
  · rcases findAndDeleteLoop_cut hb (Nat.le_refl script.length) with ⟨parts, tail, hcut, hloop⟩
    refine ⟨parts, tail, hcut, ?_, fun hlen pre post hparts => hcut.reads hparts hlen⟩
    rw [findAndDelete, if_neg hb, hloop]

/-- Vectors, an opcode and numbers, and an occurrence that an earlier deletion does not uncover. -/
theorem building_parsing_example :
    (∃ script, buildScript [.bytes [7, 8], .opcode 0xac, .int64 (-1), .int64 255] = .ok script ∧
      (script.length < 2 ^ 32 → getOps script.length script =
        ([(2, [7, 8]), (0xac, []), (0x4f, []), (2, [0xff, 0])], []))) ∧
    ∃ parts tail, Cut [0x51, 0x52] [0x51, 0x51, 0x52, 0x52] parts tail ∧
      findAndDelete [0x51, 0x51, 0x52, 0x52] [0x51, 0x52] = parts.flatMap after ++ tail := by
  constructor
  · exact building_parsing.1 [.bytes [7, 8], .opcode 0xac, .int64 (-1), .int64 255] (by
      intro item hitem
      simp only [List.mem_cons, List.not_mem_nil, or_false] at hitem
      rcases hitem with rfl | rfl | rfl | rfl <;> simp only [ScriptItem.Valid] <;> decide)
  · rcases (building_parsing.2.2 [0x51, 0x51, 0x52, 0x52] [0x51, 0x52] (by decide)).2 with
      ⟨parts, tail, hcut, heq, -⟩
    exact ⟨parts, tail, hcut, heq⟩

/-- A push with 2^32 bytes behind its opcode is not read. -/
theorem getOp_wrapped {x : Bytes} (h : x.length = 2 ^ 32) : getOp (1 :: x) = none := by
  have hpush : pushSize (1 : UInt8).toNat x = some (1, x) := if_pos (by decide)
  rw [getOp, hpush]
  dsimp only
  rw [if_pos (by rw [h, Nat.mod_self]; exact Nat.one_pos)]

/-- Two vectors, the second one of 2^32 - 6 bytes: not even the first one is read back. -/
theorem not_read_back {b : Bytes} (hb : b.length = 2 ^ 32 - 6) :
    (∀ item ∈ [ScriptItem.bytes [0], .bytes b], item.Valid) ∧
    ∃ script, buildScript [.bytes [0], .bytes b] = .ok script ∧
      getOps script.length script ≠ ([ScriptItem.bytes [0], .bytes b].map ScriptItem.read, []) := by
  have hvalid : ∀ item ∈ [ScriptItem.bytes [0], .bytes b], item.Valid := by
    intro item hitem
    simp only [List.mem_cons, List.not_mem_nil, or_false] at hitem
    rcases hitem with rfl | rfl
    · exact (by decide : [(0 : UInt8)].length < 2 ^ 32)
    · show b.length < 2 ^ 32
      omega
  refine ⟨hvalid, _, buildScript_eq_ok hvalid, fun hread => ?_⟩
  -- The opcode and the size of the second push take five bytes.
  have hpush : (pushBytes b).length + 1 = 2 ^ 32 := by
    unfold pushBytes opPushData1
    rw [if_neg (by omega), if_neg (by omega), if_neg (by omega), List.length_cons, List.length_append,
      leBytes_length, hb]
    norm_num
  have hstop : getOp ([ScriptItem.bytes [0], .bytes b].flatMap ScriptItem.written) = none := by
    have hscript : [ScriptItem.bytes [0], .bytes b].flatMap ScriptItem.written = 1 :: 0 :: (pushBytes b ++ []) := rfl
    rw [hscript]
    exact getOp_wrapped (by rw [List.length_cons, List.append_nil, hpush])
  rw [getOps_of_none hstop, Prod.mk.injEq] at hread
  exact absurd hread.1 (List.cons_ne_nil _ _).symm

theorem building_parsing_long :
    (∀ item ∈ [ScriptItem.bytes [0], .bytes (List.replicate (2 ^ 32 - 6) 0)], item.Valid) ∧
    ∃ script, buildScript [.bytes [0], .bytes (List.replicate (2 ^ 32 - 6) 0)] = .ok script ∧
      getOps script.length script ≠
        ([ScriptItem.bytes [0], .bytes (List.replicate (2 ^ 32 - 6) 0)].map ScriptItem.read, []) :=
  not_read_back List.length_replicate

end CScript

end Dobbscoin
