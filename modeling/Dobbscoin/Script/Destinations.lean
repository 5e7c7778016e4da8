import Dobbscoin.Script.Templates
import Dobbscoin.Wallet.AccountBalances

/-!
# Destinations of scripts

`ExtractDestination(s)` and `GetScriptForMultisig` of `script/standard.cpp`: what is built for a destination is
taken apart again.
-/

namespace Dobbscoin

open ByteCodec CScript

/-! ## ExtractDestination -/

/-- A `uint160` of 20 bytes. -/
def uint160OfBytes (vch : Bytes) : UInt160 :=
  BitVec.ofNat 160 (leNat vch)

/-- `ExtractDestination`; `none` when it returns false. -/
def extractDestination (carrier : DataCarrier) (hash160 : Bytes → UInt160) (scriptPubKey : CScript) :
    Option CTxDestination :=
  let solved := solver carrier scriptPubKey
  let front := solved.vSolutionsRet.head?.getD []
  if solved.ret = false then none
  else
    match solved.typeRet with
    | .pubKey => if isValidPubKey front then some (.keyID (hash160 front)) else none
    | .pubKeyHash => some (.keyID (uint160OfBytes front))
    | .scriptHash => some (.scriptID (uint160OfBytes front))
    | _ => none

/-- What `ExtractDestinations` returns and leaves in its output arguments. -/
structure Extracted where
  ret : Bool
  typeRet : TxnOutType
  addressRet : List CTxDestination
  nRequiredRet : Int
  deriving DecidableEq

def extractDestinations (carrier : DataCarrier) (hash160 : Bytes → UInt160) (scriptPubKey : CScript)
    (nRequiredRet : Int) : Extracted :=
  let solved := solver carrier scriptPubKey
  if solved.ret = false then ⟨false, solved.typeRet, [], nRequiredRet⟩
  else if solved.typeRet = .nullData then ⟨false, solved.typeRet, [], nRequiredRet⟩
  else if solved.typeRet = .multiSig then
    let nRequired : Int := ((solved.vSolutionsRet.head?.getD []).getD 0 0).toNat
    let pubKeys := solved.vSolutionsRet.tail.dropLast.filter isValidPubKey
    let addressRet := pubKeys.map fun pubKey => CTxDestination.keyID (hash160 pubKey)
    ⟨!addressRet.isEmpty, solved.typeRet, addressRet, nRequired⟩
  else
    match extractDestination carrier hash160 scriptPubKey with
    | none => ⟨false, solved.typeRet, [], 1⟩
    | some address => ⟨true, solved.typeRet, [address], 1⟩

/-- `GetScriptForMultisig`. -/
def getScriptForMultisig (nRequired : Nat) (keys : List CPubKey) : CScript :=
  UInt8.ofNat (encodeOpN nRequired) ::
    (keys.flatMap pushBytes ++ [UInt8.ofNat (encodeOpN keys.length), 0xae])

/-! ## Scripts of one destination -/

variable {carrier : DataCarrier}

/-- The first opcode decides that a template does not match. -/
theorem matchLoop_eq_none {fuel opcode1 : Nat} {script script2 vch1 pc1 : Bytes} {vSolutions : List Bytes} {b : UInt8}
    (hop : getOp script = some (opcode1, vch1, pc1)) (n : Nat)
    (hb : b = UInt8.ofNat n ∧ opPushData4 < n ∧ n ≤ 0xff ∧ n ≠ opPubKeys)
    (h : matchOp carrier opcode1 vch1 n [] vSolutions = none) :
    matchLoop carrier fuel script (b :: script2) vSolutions = none := by
  rw [Option.eq_none_iff_forall_not_mem]
  intro v hv
  rcases (matchLoop_op n hb).1 hv with ⟨fuel', opcode, vch, pc, vs, -, hop', hmatch, -⟩
  rw [hop, Option.some.injEq, Prod.mk.injEq, Prod.mk.injEq] at hop'
  rw [← hop'.1, ← hop'.2.1, h] at hmatch
  cases hmatch

theorem solver_keyID (id : CKeyID) :
    solver carrier (CTxDestination.keyID id).script = ⟨true, .pubKeyHash, [leBytes 20 id.toNat]⟩ := by
  have hlen := leBytes_length 20 id.toNat
  have hscript : (CTxDestination.keyID id).script =
      0x76 :: 0xa9 :: (pushBytes (leBytes 20 id.toNat) ++ [0x88, 0xac]) := by
    rw [pushBytes, hlen, if_pos (by decide)]
    rfl
  generalize leBytes 20 id.toNat = hash at hlen hscript
  have hsize : (pushBytes hash ++ [0x88, 0xac]).length = 23 := by
    rw [pushBytes, hlen, if_pos (by decide), List.length_append, List.length_cons, hlen]
    rfl
  have hpush : getOp (pushBytes hash ++ [0x88, 0xac]) = some (pushOpcode hash.length, hash, [0x88, 0xac]) := by
    refine getOp_pushBytes ?_
    rw [List.length_append, hlen]
    decide
  have hdup : ∀ x : Bytes, getOp (0x76 :: x) = some (0x76, [], x) := getOp_byte (by decide) (by decide)
  have hhash : ∀ x : Bytes, getOp (0xa9 :: x) = some (0xa9, [], x) := getOp_byte (by decide) (by decide)
  rw [hscript]
  have hnot : isPayToScriptHash (0x76 :: 0xa9 :: (pushBytes hash ++ [0x88, 0xac])) = false := by
    rw [isPayToScriptHash, List.length_cons, List.length_cons, hsize]
    rfl
  have hskip : matchLoop carrier ((0x76 :: 0xa9 :: (pushBytes hash ++ [0x88, 0xac])).length + 1)
      (0x76 :: 0xa9 :: (pushBytes hash ++ [0x88, 0xac])) [0xfe, 0xac] [] = none :=
    matchLoop_eq_none (hdup _) opPubKey (by decide) rfl
  have hmatch : matchLoop carrier ((0x76 :: 0xa9 :: (pushBytes hash ++ [0x88, 0xac])).length + 1)
      (0x76 :: 0xa9 :: (pushBytes hash ++ [0x88, 0xac])) [0x76, 0xa9, 0xfd, 0x88, 0xac] [] = some [hash] := by
    rw [List.length_cons, List.length_cons, hsize]
    refine (matchLoop_op 0x76 (by decide)).2 ⟨_, _, _, _, [], rfl, hdup _, rfl, ?_⟩
    refine (matchLoop_op 0xa9 (by decide)).2 ⟨_, _, _, _, [], rfl, hhash _, rfl, ?_⟩
    refine (matchLoop_op opPubKeyHash (by decide)).2 ⟨_, _, _, _, [hash], rfl, hpush, matchOp_pubKeyHash.2 ⟨hlen, rfl⟩, ?_⟩
    refine (matchLoop_op 0x88 (by decide)).2
      ⟨_, 0x88, [], [0xac], [hash], rfl, by decide, rfl, ?_⟩
    refine (matchLoop_op 0xac (by decide)).2
      ⟨_, 0xac, [], [], [hash], rfl, by decide, rfl, ?_⟩
    exact matchLoop_end.2 ⟨by decide, rfl, rfl⟩
  rw [solver, hnot, if_neg Bool.false_ne_true]
  unfold templates
  rw [List.cons_append, List.cons_append, List.cons_append, List.cons_append, List.cons_append, List.cons_append,
    scanTemplates, hskip]
  dsimp only
  rw [scanTemplates, hmatch]
  rfl

theorem solver_scriptID (id : UInt160) :
    solver carrier (CTxDestination.scriptID id).script = ⟨true, .scriptHash, [leBytes 20 id.toNat]⟩ := by
  have hlen := leBytes_length 20 id.toNat
  have hscript : (CTxDestination.scriptID id).script = 0xa9 :: 0x14 :: (leBytes 20 id.toNat ++ [0x87]) := rfl
  generalize leBytes 20 id.toNat = hash at hlen hscript
  have hlast : (hash ++ [0x87]).getD 20 0 = 0x87 := by
    rw [List.getD_eq_getElem?_getD, List.getElem?_append_right (by omega), hlen]
    rfl
  have hp2sh : isPayToScriptHash (0xa9 :: 0x14 :: (hash ++ [0x87])) = true := by
    simp only [isPayToScriptHash, List.length_cons, List.length_append, hlen, List.length_nil, List.getD_cons_succ,
      List.getD_cons_zero, hlast]
    decide
  have htake : ((0xa9 :: 0x14 :: (hash ++ [0x87])).drop 2).take 20 = hash := List.take_left' hlen
  rw [hscript, solver, if_pos hp2sh, htake]

/-! ## Multisig scripts -/

/-- The loop over the keys takes keys that are pushed one after the other, and stops at what is no key. -/
theorem pubKeysLoop_pushes {keys : List Bytes} (hkeys : ∀ key ∈ keys, isKeySize key = true) {key : Bytes}
    (hkey : isKeySize key = true) {tail data rest : Bytes} {opcode : Nat} (hstop : getOp tail = some (opcode, data, rest))
    (hdata : isKeySize data = false) (hlen : (keys.flatMap pushBytes ++ tail).length < 2 ^ 32) {fuel opcode1 : Nat}
    (hfuel : (keys.flatMap pushBytes ++ tail).length < fuel) (vSolutions : List Bytes) :
    pubKeysLoop fuel opcode1 key (keys.flatMap pushBytes ++ tail) vSolutions =
      (opcode, data, rest, vSolutions ++ key :: keys) := by
  induction keys generalizing fuel opcode1 key vSolutions with
  | nil =>
    cases fuel with
    | zero => exact absurd hfuel (Nat.not_lt_zero _)
    | succ fuel =>
      have hlt := getOp_length hstop
      rw [List.flatMap_nil, List.nil_append] at hfuel ⊢
      rw [pubKeysLoop, if_pos hkey, hstop]
      cases fuel with
      | zero => omega
      | succ fuel =>
        dsimp only
        rw [pubKeysLoop, hdata, if_neg Bool.false_ne_true]
  | cons key' keys ih =>
    cases fuel with
    | zero => exact absurd hfuel (Nat.not_lt_zero _)
    | succ fuel =>
      have hpush := length_pushBytes key'
      rw [List.flatMap_cons, List.append_assoc] at hlen hfuel ⊢
      rw [List.length_append] at hlen hfuel
      have hop : getOp (pushBytes key' ++ (keys.flatMap pushBytes ++ tail)) =
          some (pushOpcode key'.length, key', keys.flatMap pushBytes ++ tail) := by
        refine getOp_pushBytes ?_
        rw [List.length_append]
        omega
      rw [pubKeysLoop, if_pos hkey, hop]
      dsimp only
      rw [ih (fun k hk => hkeys k (List.mem_cons_of_mem _ hk)) (hkeys key' List.mem_cons_self) (by omega) (by omega),
        List.append_assoc, List.singleton_append]

theorem isKeySize_of_isValid {key : CPubKey} (h : isValidPubKey key = true) : isKeySize key = true := by
  cases key with
  | nil => cases h
  | cons header key =>
    rw [isValidPubKey] at h
    rw [isKeySize, Bool.and_eq_true, decide_eq_true_iff, decide_eq_true_iff]
    split_ifs at h
    · rw [decide_eq_true_iff] at h
      omega
    · rw [decide_eq_true_iff] at h
      omega

/-- The opcode of a small number. -/
theorem getOp_encodeOpN {n : Nat} (hpos : 1 ≤ n) (hle : n ≤ 16) (x : Bytes) :
    getOp (UInt8.ofNat (encodeOpN n) :: x) = some (n + 0x50, [], x) ∧ isSmallInteger (n + 0x50) = true ∧
      decodeOpN (n + 0x50) = n := by
  rw [encodeOpN_eq hpos]
  refine ⟨getOp_byte (by unfold opPushData4; omega) (by omega) x, ?_, ?_⟩
  · unfold isSmallInteger op1 op16
    rw [Bool.or_eq_true, Bool.and_eq_true, decide_eq_true_iff, decide_eq_true_iff, decide_eq_true_iff]
    omega
  · unfold decodeOpN op1
    rw [if_neg (by omega)]
    omega

theorem solver_multisig {nRequired : Nat} {keys : List CPubKey} (hpos : 1 ≤ nRequired)
    (hle : nRequired ≤ keys.length) (hcount : keys.length ≤ 16) (hkeys : ∀ key ∈ keys, isValidPubKey key = true) :
    solver carrier (getScriptForMultisig nRequired keys) =
      ⟨true, .multiSig, [[UInt8.ofNat nRequired]] ++ keys ++ [[UInt8.ofNat keys.length]]⟩ := by
  have hsize : ∀ key ∈ keys, isKeySize key = true := fun key hkey => isKeySize_of_isValid (hkeys key hkey)
  have hkeysLen := flatMap_pushBytes_length_le hsize
  rcases getOp_encodeOpN (hpos.trans hle) hcount [0xae] with ⟨hopn, hsmalln, hdecoden⟩
  cases keys with
  | nil => exact absurd (hpos.trans hle) (by decide)
  | cons key keys =>
    generalize htail : [UInt8.ofNat (encodeOpN (key :: keys).length), 0xae] = tail at hopn
    have htailLen : tail.length = 2 := by rw [← htail]; rfl
    rw [List.flatMap_cons, List.length_append] at hkeysLen
    have hlen : (pushBytes key ++ (keys.flatMap pushBytes ++ tail)).length < 2000 := by
      rw [List.length_append, List.length_append, htailLen]
      rw [List.length_cons] at hkeysLen hcount
      omega
    rcases getOp_encodeOpN hpos (hle.trans hcount) (pushBytes key ++ (keys.flatMap pushBytes ++ tail)) with
      ⟨hopm, hsmallm, hdecodem⟩
    have hscript : getScriptForMultisig nRequired (key :: keys) =
        UInt8.ofNat (encodeOpN nRequired) :: (pushBytes key ++ (keys.flatMap pushBytes ++ tail)) := by
      rw [getScriptForMultisig, htail, List.flatMap_cons, List.append_assoc]
    have hopkey : getOp (pushBytes key ++ (keys.flatMap pushBytes ++ tail)) =
        some (pushOpcode key.length, key, keys.flatMap pushBytes ++ tail) := by
      have hpush := length_pushBytes key
      refine getOp_pushBytes ?_
      rw [List.length_append] at hlen ⊢
      omega
    have hloop : pubKeysLoop ((keys.flatMap pushBytes ++ tail).length + 1) (pushOpcode key.length) key
        (keys.flatMap pushBytes ++ tail) [[UInt8.ofNat nRequired]] =
          ((key :: keys).length + 0x50, [], [0xae], [[UInt8.ofNat nRequired]] ++ key :: keys) := by
      refine pubKeysLoop_pushes (fun k hk => hsize k (List.mem_cons_of_mem _ hk)) (hsize key List.mem_cons_self) hopn
        rfl ?_ (Nat.lt_succ_self _) _
      rw [List.length_append] at hlen
      omega
    obtain ⟨f, hf⟩ : ∃ f, (pushBytes key ++ (keys.flatMap pushBytes ++ tail)).length = f + 2 := by
      refine ⟨(pushBytes key ++ (keys.flatMap pushBytes ++ tail)).length - 2, ?_⟩
      rw [List.length_append, List.length_append, htailLen]
      omega
    generalize pushBytes key ++ (keys.flatMap pushBytes ++ tail) = rest at *
    rw [hscript]
    have hnot : isPayToScriptHash (UInt8.ofNat (encodeOpN nRequired) :: rest) = false := by
      rw [Bool.eq_false_iff]
      intro hp2sh
      rcases isPayToScriptHash_eq hp2sh with ⟨-, heq⟩
      have hhead := getOp_head hopm
      rw [(List.cons.inj heq).1] at hhead
      have hbyte : (0xa9 : UInt8).toNat = 169 := rfl
      omega
    have hskip : matchLoop carrier ((UInt8.ofNat (encodeOpN nRequired) :: rest).length + 1)
        (UInt8.ofNat (encodeOpN nRequired) :: rest) [0xfe, 0xac] [] = none :=
      matchLoop_eq_none hopm opPubKey (by decide) rfl
    have hskip' : matchLoop carrier ((UInt8.ofNat (encodeOpN nRequired) :: rest).length + 1)
        (UInt8.ofNat (encodeOpN nRequired) :: rest) [0x76, 0xa9, 0xfd, 0x88, 0xac] [] = none := by
      refine matchLoop_eq_none hopm 0x76 (by decide) ?_
      rw [Option.eq_none_iff_forall_not_mem]
      intro v hv
      rcases (matchOp_exact (by decide)).1 hv with ⟨⟨heq, -⟩, -⟩
      omega
    have hmatch : matchLoop carrier ((UInt8.ofNat (encodeOpN nRequired) :: rest).length + 1)
        (UInt8.ofNat (encodeOpN nRequired) :: rest) [0xfa, 0xfb, 0xfa, 0xae] [] =
          some ([[UInt8.ofNat nRequired]] ++ (key :: keys) ++ [[UInt8.ofNat (key :: keys).length]]) := by
      rw [List.length_cons, hf]
      refine (matchLoop_op opSmallInteger (by decide)).2 ⟨_, _, _, _, [[UInt8.ofNat nRequired]], rfl, hopm,
          matchOp_smallInteger.2 ⟨hsmallm, by rw [hdecodem]; rfl⟩, ?_⟩
      refine (matchLoop_keys (show getOp [0xfb, 0xfa, 0xae] = some (opPubKeys, [], [0xfa, 0xae]) from by decide)
        (show getOp [0xfa, 0xae] = some (opSmallInteger, [], [0xae]) from by decide)).2
          ⟨_, _, _, _, _, _, _, _, _, rfl, hopkey, hloop,
            matchOp_smallInteger.2 ⟨hsmalln, by rw [hdecoden]⟩, ?_⟩
      refine (matchLoop_op 0xae (by decide)).2
        ⟨f + 1, 0xae, [], [], _, rfl, by decide, rfl, ?_⟩
      exact matchLoop_end.2 ⟨Nat.succ_pos f, rfl, rfl⟩
    have hm : (UInt8.ofNat nRequired).toNat = nRequired := by
      rw [UInt8.toNat_ofNat']
      exact Nat.mod_eq_of_lt (by omega)
    have hn : (UInt8.ofNat (key :: keys).length).toNat = (key :: keys).length := by
      rw [UInt8.toNat_ofNat']
      exact Nat.mod_eq_of_lt (by omega)
    have hvalid : multiSigValid ([[UInt8.ofNat nRequired]] ++ (key :: keys) ++
        [[UInt8.ofNat (key :: keys).length]]) = true :=
      multiSigValid_iff.2 ⟨by rw [hm]; exact hpos, by rw [hm, hn]; exact hle, hn.symm⟩
    rw [solver, hnot, if_neg Bool.false_ne_true]
    unfold templates
    rw [List.cons_append, List.cons_append, List.cons_append, List.cons_append, List.cons_append, List.cons_append,
      scanTemplates, hskip]
    dsimp only
    rw [scanTemplates, hskip']
    dsimp only
    rw [scanTemplates, hmatch]
    dsimp only
    rw [hvalid, if_neg fun h => Bool.false_ne_true h.2.symm]

/-! ## Extraction -/

variable (hash160 : Bytes → UInt160)

theorem uint160OfBytes_leBytes (id : UInt160) : uint160OfBytes (leBytes 20 id.toNat) = id := by
  have hlt : id.toNat < 256 ^ 20 := id.isLt
  rw [uint160OfBytes, leNat_leBytes, Nat.mod_eq_of_lt hlt]
  simp

theorem extractDestination_keyID (id : CKeyID) :
    extractDestination carrier hash160 (CTxDestination.keyID id).script = some (.keyID id) := by
  have hid := uint160OfBytes_leBytes id
  rw [extractDestination, solver_keyID]
  exact congrArg (fun i => some (CTxDestination.keyID i)) hid

theorem extractDestination_scriptID (id : UInt160) :
    extractDestination carrier hash160 (CTxDestination.scriptID id).script = some (.scriptID id) := by
  have hid := uint160OfBytes_leBytes id
  rw [extractDestination, solver_scriptID]
  exact congrArg (fun i => some (CTxDestination.scriptID i)) hid

theorem extractDestinations_keyID (id : CKeyID) (nRequiredRet : Int) :
    extractDestinations carrier hash160 (CTxDestination.keyID id).script nRequiredRet =
      ⟨true, .pubKeyHash, [.keyID id], 1⟩ := by
  unfold extractDestinations
  rw [extractDestination_keyID, solver_keyID]
  rfl

theorem extractDestinations_scriptID (id : UInt160) (nRequiredRet : Int) :
    extractDestinations carrier hash160 (CTxDestination.scriptID id).script nRequiredRet =
      ⟨true, .scriptHash, [.scriptID id], 1⟩ := by
  unfold extractDestinations
  rw [extractDestination_scriptID, solver_scriptID]
  rfl

theorem extractDestinations_multisig {nRequired : Nat} {keys : List CPubKey} (hpos : 1 ≤ nRequired)
    (hle : nRequired ≤ keys.length) (hcount : keys.length ≤ 16) (hkeys : ∀ key ∈ keys, isValidPubKey key = true)
    (nRequiredRet : Int) :
    extractDestinations carrier hash160 (getScriptForMultisig nRequired keys) nRequiredRet =
      ⟨true, .multiSig, keys.map fun key => .keyID (hash160 key), nRequired⟩ := by
  have hm : (UInt8.ofNat nRequired).toNat = nRequired := by
    rw [UInt8.toNat_ofNat']
    exact Nat.mod_eq_of_lt (by omega)
  have htail : ([[UInt8.ofNat nRequired]] ++ keys ++ [[UInt8.ofNat keys.length]]).tail.dropLast = keys := by
    rw [List.append_assoc, List.singleton_append, List.tail_cons, List.dropLast_concat]
  have hfilter : keys.filter isValidPubKey = keys := List.filter_eq_self.2 hkeys
  have hne : (keys.map fun key => CTxDestination.keyID (hash160 key)).isEmpty = false := by
    rw [List.isEmpty_eq_false_iff]
    intro hnil
    rw [List.map_eq_nil_iff] at hnil
    rw [hnil] at hle
    exact absurd (hpos.trans hle) (by decide)
  unfold extractDestinations
  rw [solver_multisig hpos hle hcount hkeys]
  dsimp only
  rw [if_neg (by decide), if_neg (by decide), if_pos rfl, htail, hfilter, hne]
  show Extracted.mk true .multiSig _ ((UInt8.ofNat nRequired).toNat : Int) = _
  rw [hm]

/-- **`Solver` is sound for execution**: a script that it takes for one that asks for signatures runs as the
script that is built from its solutions; and what is built for a destination, or for keys of which some have to
sign, is classified as such, with exactly its solutions and its destinations. -/
theorem solver_sound :
    (∀ (script : CScript) (t : TxnOutType) (v : List Bytes), solver carrier script = ⟨true, t, v⟩ →
      t = .pubKey ∨ t = .pubKeyHash ∨ t = .scriptHash ∨ t = .multiSig →
      ∀ (E : ScriptEnv) (stack : ScriptStack), E.checker.IgnoresCode → E.has scriptVerifyMinimalData = false →
        evalScript E stack script = evalScript E stack (canonicalScript t v) ∧
          evalScriptStack E stack script = evalScriptStack E stack (canonicalScript t v)) ∧
    (∀ id : CKeyID,
      solver carrier (CTxDestination.keyID id).script = ⟨true, .pubKeyHash, [leBytes 20 id.toNat]⟩ ∧
      extractDestination carrier hash160 (CTxDestination.keyID id).script = some (.keyID id) ∧
      ∀ nRequiredRet, extractDestinations carrier hash160 (CTxDestination.keyID id).script nRequiredRet =
        ⟨true, .pubKeyHash, [.keyID id], 1⟩) ∧
    (∀ id : UInt160,
      solver carrier (CTxDestination.scriptID id).script = ⟨true, .scriptHash, [leBytes 20 id.toNat]⟩ ∧
      extractDestination carrier hash160 (CTxDestination.scriptID id).script = some (.scriptID id) ∧
      ∀ nRequiredRet, extractDestinations carrier hash160 (CTxDestination.scriptID id).script nRequiredRet =
        ⟨true, .scriptHash, [.scriptID id], 1⟩) ∧
    ∀ (nRequired : Nat) (keys : List CPubKey), 1 ≤ nRequired → nRequired ≤ keys.length → keys.length ≤ 16 →
      (∀ key ∈ keys, isValidPubKey key = true) →
      solver carrier (getScriptForMultisig nRequired keys) =
        ⟨true, .multiSig, [[UInt8.ofNat nRequired]] ++ keys ++ [[UInt8.ofNat keys.length]]⟩ ∧
      ∀ nRequiredRet, extractDestinations carrier hash160 (getScriptForMultisig nRequired keys) nRequiredRet =
        ⟨true, .multiSig, keys.map fun key => .keyID (hash160 key), nRequired⟩ := by
  refine ⟨fun script t v h ht E stack hcode hminimal => ?_, fun id => ?_, fun id => ?_, ?_⟩
  · have hsigned : t.IsSigned := by
      rcases ht with rfl | rfl | rfl | rfl <;> trivial
    exact solver_runs h hsigned hcode hminimal stack
  · exact ⟨solver_keyID id, extractDestination_keyID hash160 id, extractDestinations_keyID hash160 id⟩
  · exact ⟨solver_scriptID id, extractDestination_scriptID hash160 id, extractDestinations_scriptID hash160 id⟩
  · intro nRequired keys hpos hle hcount hkeys
    exact ⟨solver_multisig hpos hle hcount hkeys, extractDestinations_multisig hash160 hpos hle hcount hkeys⟩

/-- A key hash that is pushed with `OP_PUSHDATA1`. -/
def longPushScript : CScript :=
  [0x76, 0xa9, 0x4c, 20] ++ List.replicate 20 7 ++ [0x88, 0xac]

def compressedKey (b : UInt8) : CPubKey :=
  2 :: List.replicate 32 b

/-- Every signature is good. -/
def signedEnv : ScriptEnv :=
  ⟨⟨id, id, id, id, id⟩, ⟨fun _ _ _ => true, fun _ => false⟩, 0⟩

theorem solver_sound_longPush :
    evalScript signedEnv [List.replicate 20 7, [1]] longPushScript =
      evalScript signedEnv [List.replicate 20 7, [1]]
        ([0x76, 0xa9, 20] ++ List.replicate 20 7 ++ [0x88, 0xac]) ∧
    solver .default (getScriptForMultisig 1 [compressedKey 3, compressedKey 4]) =
      ⟨true, .multiSig, [[1], compressedKey 3, compressedKey 4, [2]]⟩ := by
  have hsound := @solver_sound .default fun _ => 0
  refine ⟨?_, ?_⟩
  · exact (hsound.1 longPushScript .pubKeyHash [List.replicate 20 7] (by decide) (.inr (.inl rfl)) signedEnv
      [List.replicate 20 7, [1]] (fun _ _ _ _ => rfl) rfl).1
  · exact (hsound.2.2.2 1 [compressedKey 3, compressedKey 4] (by decide) (by decide) (by decide) (by decide)).1

end Dobbscoin
