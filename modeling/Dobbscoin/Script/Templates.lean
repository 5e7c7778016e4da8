import Dobbscoin.Script.AlikeRuns
import Dobbscoin.Script.Building
import Dobbscoin.Script.Standard

/-!
# Scripts that match a template

What the loop of `Solver` finds in a script, template by template, and that such a script runs as the one that
is built from its solutions.
-/

namespace Dobbscoin

open CScript

/-! ## The matcher -/

section

variable {carrier : DataCarrier} {fuel : Nat} {pc1 pc2 pc2' vch1 vch2 : Bytes} {opcode1 opcode2 : Nat}
  {vSolutions vSolutions' v : List Bytes}

theorem matchOp_pubKey : matchOp carrier opcode1 vch1 opPubKey vch2 vSolutions = some vSolutions' ↔
    isKeySize vch1 = true ∧ vSolutions' = vSolutions ++ [vch1] := by
  rw [matchOp, if_pos rfl, Option.ite_none_right_eq_some, Option.some.injEq, eq_comm (a := vSolutions')]

theorem matchOp_pubKeyHash : matchOp carrier opcode1 vch1 opPubKeyHash vch2 vSolutions = some vSolutions' ↔
    vch1.length = 20 ∧ vSolutions' = vSolutions ++ [vch1] := by
  rw [matchOp, if_neg (by decide), if_pos rfl, Option.ite_none_left_eq_some, Option.some.injEq, not_not,
    eq_comm (a := vSolutions')]

theorem matchOp_smallInteger : matchOp carrier opcode1 vch1 opSmallInteger vch2 vSolutions = some vSolutions' ↔
    isSmallInteger opcode1 = true ∧ vSolutions' = vSolutions ++ [[UInt8.ofNat (decodeOpN opcode1)]] := by
  rw [matchOp, if_neg (by decide), if_neg (by decide), if_pos rfl, Option.ite_none_right_eq_some, Option.some.injEq,
    eq_comm (a := vSolutions')]

/-- The opcodes below the ones of templates stand for themselves. -/
theorem matchOp_exact (h : opcode2 < opSmallData) :
    matchOp carrier opcode1 vch1 opcode2 vch2 vSolutions = some vSolutions' ↔
      (opcode1 = opcode2 ∧ vch1 = vch2) ∧ vSolutions' = vSolutions := by
  unfold opSmallData at h
  unfold matchOp opPubKey opPubKeyHash opSmallInteger opSmallData
  rw [if_neg (by omega), if_neg (by omega), if_neg (by omega), if_neg (by omega), Option.ite_none_left_eq_some,
    Option.some.injEq, not_or, not_not, not_not, eq_comm (a := vSolutions')]

theorem matchLoop_end : matchLoop carrier fuel pc1 [] vSolutions = some v ↔ 0 < fuel ∧ pc1 = [] ∧ v = vSolutions := by
  cases fuel with
  | zero => simp [matchLoop]
  | succ fuel =>
    rw [matchLoop]
    by_cases hpc : pc1 = []
    · rw [if_pos ⟨hpc, rfl⟩, Option.some.injEq, eq_comm]
      exact ⟨fun h => ⟨Nat.succ_pos fuel, hpc, h⟩, fun h => h.2.2⟩
    · rw [if_neg fun h => hpc h.1]
      cases getOp pc1 with
      | none => exact ⟨nofun, fun h => absurd h.2.1 hpc⟩
      | some op => exact ⟨nofun, fun h => absurd h.2.1 hpc⟩

theorem matchLoop_op {b : UInt8} (n : Nat) (hb : b = UInt8.ofNat n ∧ opPushData4 < n ∧ n ≤ 0xff ∧ n ≠ opPubKeys) :
    matchLoop carrier fuel pc1 (b :: pc2) vSolutions = some v ↔ ∃ fuel' opcode1 vch1 pc1' vSolutions', fuel = fuel' + 1 ∧
      getOp pc1 = some (opcode1, vch1, pc1') ∧ matchOp carrier opcode1 vch1 n [] vSolutions = some vSolutions' ∧
      matchLoop carrier fuel' pc1' pc2 vSolutions' = some v := by
  rcases hb with ⟨rfl, hlow, hhigh, hkeys⟩
  cases fuel with
  | zero =>
    constructor
    · nofun
    · rintro ⟨fuel', -, -, -, -, hfuel, -⟩
      cases hfuel
  | succ fuel =>
    rw [matchLoop, if_neg fun h => List.cons_ne_nil _ _ h.2, getOp_byte hlow hhigh]
    cases hop1 : getOp pc1 with
    | none =>
      constructor
      · nofun
      · rintro ⟨fuel', opcode1, vch1, pc1', vs, -, h, -⟩
        cases h
    | some op =>
      rcases op with ⟨opcode1, vch1, pc1'⟩
      dsimp only
      rw [if_neg hkeys]
      cases hmatch : matchOp carrier opcode1 vch1 n [] vSolutions with
      | none =>
        constructor
        · nofun
        · rintro ⟨fuel', opcode1', vch1', pc1'', vs, -, h, hmatch', -⟩
          rw [Option.some.injEq, Prod.mk.injEq, Prod.mk.injEq] at h
          rw [← h.1, ← h.2.1, hmatch] at hmatch'
          cases hmatch'
      | some vs =>
        constructor
        · intro h
          exact ⟨fuel, opcode1, vch1, pc1', vs, rfl, rfl, hmatch, h⟩
        · rintro ⟨fuel', opcode1', vch1', pc1'', vs', hfuel, h, hmatch', hmore⟩
          rw [Option.some.injEq, Prod.mk.injEq, Prod.mk.injEq] at h
          rw [← h.1, ← h.2.1, hmatch, Option.some.injEq] at hmatch'
          rw [Nat.add_right_cancel hfuel, hmatch', h.2.2]
          exact hmore

theorem matchLoop_keys {vch2' pc2'' : Bytes} (hop : getOp pc2 = some (opPubKeys, vch2, pc2'))
    (hop' : getOp pc2' = some (opcode2, vch2', pc2'')) :
    matchLoop carrier fuel pc1 pc2 vSolutions = some v ↔
      ∃ fuel' opcode1 vch1 pc1' opcode1' vch1' pc1'' keyed vSolutions', fuel = fuel' + 1 ∧
        getOp pc1 = some (opcode1, vch1, pc1') ∧
        pubKeysLoop (pc1'.length + 1) opcode1 vch1 pc1' vSolutions = (opcode1', vch1', pc1'', keyed) ∧
        matchOp carrier opcode1' vch1' opcode2 vch2' keyed = some vSolutions' ∧
        matchLoop carrier fuel' pc1'' pc2'' vSolutions' = some v := by
  have hpc2 : pc2 ≠ [] := by
    rintro rfl
    cases hop
  cases fuel with
  | zero =>
    constructor
    · nofun
    · rintro ⟨fuel', -, -, -, -, -, -, -, -, hfuel, -⟩
      cases hfuel
  | succ fuel =>
    rw [matchLoop, if_neg fun h => hpc2 h.2, hop]
    cases hop1 : getOp pc1 with
    | none =>
      constructor
      · nofun
      · rintro ⟨_, _, _, _, _, _, _, _, _, _, h, _⟩
        cases h
    | some op =>
      rcases op with ⟨opcode1, vch1, pc1'⟩
      dsimp only
      rw [if_pos rfl]
      rcases hkeys : pubKeysLoop (pc1'.length + 1) opcode1 vch1 pc1' vSolutions with ⟨opcode1', vch1', pc1'', keyed⟩
      rw [hop']
      dsimp only
      constructor
      · intro h
        cases hmatch : matchOp carrier opcode1' vch1' opcode2 vch2' keyed with
        | none => simp only [hmatch, reduceCtorEq] at h
        | some vs =>
          simp only [hmatch] at h
          exact ⟨fuel, opcode1, vch1, pc1', opcode1', vch1', pc1'', keyed, vs, rfl, rfl, hkeys, hmatch, h⟩
      · rintro ⟨fuel', opcode, vch, pc, opcode', vch', pc', keyed', vs, hfuel, h, hkeys', hmatch, hmore⟩
        rw [Option.some.injEq, Prod.mk.injEq, Prod.mk.injEq] at h
        rw [← h.1, ← h.2.1, ← h.2.2, hkeys, Prod.mk.injEq, Prod.mk.injEq, Prod.mk.injEq] at hkeys'
        rw [← hkeys'.1, ← hkeys'.2.1, ← hkeys'.2.2.2] at hmatch
        rw [hmatch]
        dsimp only
        rw [Nat.add_right_cancel hfuel, hkeys'.2.2.1]
        exact hmore

/-! ## Pushes -/

theorem pushOpcode_le (n : Nat) : pushOpcode n ≤ opPushData4 := by
  unfold pushOpcode opPushData1 opPushData2 opPushData4
  split_ifs <;> omega

/-- However a script pushes its data, it is alike to the one that pushes it as `operator<<` does. -/
theorem AlikeScripts.push {pc rest data tail : Bytes} {opcode : Nat} (hop : getOp pc = some (opcode, data, rest))
    (hdata : data ≠ []) (hlen : (pushBytes data ++ tail).length < 2 ^ 32) (more : AlikeScripts rest tail) :
    AlikeScripts pc (pushBytes data ++ tail) := by
  have hpush : opcode ≤ opPushData4 := by
    by_contra hop'
    exact hdata (getOp_data_nil hop (Nat.lt_of_not_le hop'))
  have hlt := length_pushBytes data
  rw [List.length_append] at hlen
  exact .next hop (getOp_pushBytes (by rw [List.length_append]; omega)) (.inr ⟨hpush, pushOpcode_le _⟩) more

theorem AlikeScripts.byte {pc rest data tail : Bytes} {opcode : Nat} (hop : getOp pc = some (opcode, data, rest))
    (hlow : opPushData4 < opcode) (hhigh : opcode ≤ 0xff) (more : AlikeScripts rest tail) :
    AlikeScripts pc (UInt8.ofNat opcode :: tail) := by
  have hdata := getOp_data_nil hop hlow
  subst hdata
  exact .next hop (getOp_byte hlow hhigh tail) (.inl rfl) more

/-- A script can be five times as long as the one that it is alike to. -/
theorem AlikeScripts.length_le {pc pc' : Bytes} (h : AlikeScripts pc pc') : pc.length ≤ 5 * pc'.length := by
  induction h with
  | done => exact Nat.le_refl 0
  | next op op' alike more ih =>
    have hle := getOp_length_le op
    have hle' := getOp_length_le op'
    omega

theorem isKeySize_ne_nil {vch : Bytes} (h : isKeySize vch = true) : vch ≠ [] := by
  rintro rfl
  exact absurd h (by decide)

/-- What the loop over the keys reads, up to the opcode that it stops at. -/
theorem pubKeysLoop_reads {opcode1' : Nat} {pc vch1' pc1' : Bytes} (hop : getOp pc = some (opcode1, vch1, pc1))
    (hfuel : pc1.length < fuel)
    (h : pubKeysLoop fuel opcode1 vch1 pc1 vSolutions = (opcode1', vch1', pc1', vSolutions'))
    (hstop : opcode1' ≠ opInvalidOpcode) :
    ∃ keys q, vSolutions' = vSolutions ++ keys ∧ (∀ key ∈ keys, isKeySize key = true) ∧
      getOp q = some (opcode1', vch1', pc1') ∧
      ∀ tail, (keys.flatMap pushBytes ++ tail).length < 2 ^ 32 → AlikeScripts q tail →
        AlikeScripts pc (keys.flatMap pushBytes ++ tail) := by
  induction fuel generalizing pc opcode1 vch1 pc1 vSolutions with
  | zero => exact absurd hfuel (Nat.not_lt_zero _)
  | succ fuel ih =>
    rw [pubKeysLoop] at h
    by_cases hkey : isKeySize vch1 = true
    · rw [if_pos hkey] at h
      cases hop' : getOp pc1 with
      | none =>
        rw [hop', Prod.mk.injEq] at h
        exact absurd h.1.symm hstop
      | some op =>
        rcases op with ⟨opcode2, vch2, pc2⟩
        rw [hop'] at h
        have hlt := getOp_length hop'
        rcases ih hop' (by omega) h with ⟨keys, q, hkeys, hsize, hq, halike⟩
        refine ⟨vch1 :: keys, q, by rw [hkeys, List.append_assoc]; rfl, List.forall_mem_cons.2 ⟨hkey, hsize⟩, hq, ?_⟩
        intro tail hlen htail
        rw [List.flatMap_cons, List.append_assoc] at hlen ⊢
        refine .push hop (isKeySize_ne_nil hkey) hlen (halike tail ?_ htail)
        rw [List.length_append] at hlen
        omega
    · rw [if_neg hkey, Prod.mk.injEq, Prod.mk.injEq, Prod.mk.injEq] at h
      rcases h with ⟨rfl, rfl, rfl, rfl⟩
      exact ⟨[], pc, (List.append_nil _).symm, nofun, hop, fun tail _ htail => htail⟩

end

/-! ## Scripts from solutions -/

/-- `EncodeOP_N`. -/
def encodeOpN (n : Nat) : Nat :=
  if n = 0 then 0 else op1 + n - 1

theorem encodeOpN_eq {n : Nat} (hpos : 1 ≤ n) : encodeOpN n = n + 0x50 := by
  unfold encodeOpN op1
  rw [if_neg (by omega)]
  omega

/-- The script of the type that has these solutions, as `operator<<` builds it. -/
def canonicalScript (t : TxnOutType) (vSolutions : List Bytes) : CScript :=
  let front := vSolutions.head?.getD []
  let back := vSolutions.getLast?.getD []
  match t with
  | .pubKey => pushBytes front ++ [0xac]
  | .pubKeyHash => [0x76, 0xa9] ++ pushBytes front ++ [0x88, 0xac]
  | .scriptHash => [0xa9] ++ pushBytes front ++ [0x87]
  | .multiSig =>
    [UInt8.ofNat (encodeOpN (front.getD 0 0).toNat)] ++ (vSolutions.tail.dropLast.flatMap pushBytes ++
      [UInt8.ofNat (encodeOpN (back.getD 0 0).toNat), 0xae])
  | .nonstandard => []
  | .nullData => []

section

variable {carrier : DataCarrier} {fuel : Nat} {script : CScript} {v : List Bytes}

theorem isKeySize_le {key : Bytes} (h : isKeySize key = true) : key.length ≤ 65 := by
  rw [isKeySize, Bool.and_eq_true, decide_eq_true_iff, decide_eq_true_iff] at h
  exact h.2

theorem alike_pubKey (h : matchLoop carrier fuel script [0xfe, 0xac] [] = some v) :
    AlikeScripts script (canonicalScript .pubKey v) ∧ (canonicalScript .pubKey v).length ≤ 2000 := by
  rcases (matchLoop_op opPubKey (by decide)).1 h with
    ⟨fuel1, opcode1, key, pc1, vs1, -, hop1, hmatch1, h1⟩
  rcases (matchLoop_op 0xac (by decide)).1 h1 with
    ⟨fuel2, opcode2, data2, pc2, vs2, -, hop2, hmatch2, h2⟩
  rcases matchOp_pubKey.1 hmatch1 with ⟨hkey, rfl⟩
  rcases (matchOp_exact (by decide)).1 hmatch2 with ⟨⟨rfl, rfl⟩, rfl⟩
  rcases matchLoop_end.1 h2 with ⟨-, rfl, rfl⟩
  have hlen : (pushBytes key ++ [0xac]).length ≤ 2000 := by
    have hpush := length_pushBytes_le key
    have hsize := isKeySize_le hkey
    rw [List.length_append, List.length_singleton]
    omega
  exact ⟨.push hop1 (isKeySize_ne_nil hkey) (hlen.trans_lt (by decide)) (.byte hop2 (by decide) (by decide) .done), hlen⟩

theorem alike_pubKeyHash (h : matchLoop carrier fuel script [0x76, 0xa9, 0xfd, 0x88, 0xac] [] = some v) :
    AlikeScripts script (canonicalScript .pubKeyHash v) ∧ (canonicalScript .pubKeyHash v).length ≤ 2000 := by
  rcases (matchLoop_op 0x76 (by decide)).1 h with ⟨fuel1, opcode1, data1, pc1, vs1, -, hop1, hmatch1, h1⟩
  rcases (matchLoop_op 0xa9 (by decide)).1 h1 with ⟨fuel2, opcode2, data2, pc2, vs2, -, hop2, hmatch2, h2⟩
  rcases (matchLoop_op opPubKeyHash (by decide)).1 h2 with ⟨fuel3, opcode3, hash, pc3, vs3, -, hop3, hmatch3, h3⟩
  rcases (matchLoop_op 0x88 (by decide)).1 h3 with
    ⟨fuel4, opcode4, data4, pc4, vs4, -, hop4, hmatch4, h4⟩
  rcases (matchLoop_op 0xac (by decide)).1 h4 with
    ⟨fuel5, opcode5, data5, pc5, vs5, -, hop5, hmatch5, h5⟩
  rcases (matchOp_exact (by decide)).1 hmatch1 with ⟨⟨rfl, rfl⟩, rfl⟩
  rcases (matchOp_exact (by decide)).1 hmatch2 with ⟨⟨rfl, rfl⟩, rfl⟩
  rcases matchOp_pubKeyHash.1 hmatch3 with ⟨hsize, rfl⟩
  rcases (matchOp_exact (by decide)).1 hmatch4 with ⟨⟨rfl, rfl⟩, rfl⟩
  rcases (matchOp_exact (by decide)).1 hmatch5 with ⟨⟨rfl, rfl⟩, rfl⟩
  rcases matchLoop_end.1 h5 with ⟨-, rfl, rfl⟩
  have hpush := length_pushBytes_le hash
  have hne : hash ≠ [] := by
    rintro rfl
    cases hsize
  have hrest : (pushBytes hash ++ [0x88, 0xac]).length ≤ 1000 := by
    rw [List.length_append]
    show _ + 2 ≤ 1000
    omega
  have hend : AlikeScripts pc3 [0x88, 0xac] :=
    .byte hop4 (by decide) (by decide) (.byte hop5 (by decide) (by decide) .done)
  have htail := AlikeScripts.push hop3 hne (hrest.trans_lt (by decide)) hend
  refine ⟨.byte hop1 (by decide) (by decide) (.byte hop2 (by decide) (by decide) htail), ?_⟩
  show (pushBytes hash ++ [0x88, 0xac]).length + 1 + 1 ≤ 2000
  omega

/-- A small number that is not zero is the one that its opcode pushes. -/
theorem smallInteger_opcode {opcode : Nat} (h : isSmallInteger opcode = true)
    (hpos : 1 ≤ (UInt8.ofNat (decodeOpN opcode)).toNat) :
    op1 ≤ opcode ∧ opcode ≤ op16 ∧ (UInt8.ofNat (decodeOpN opcode)).toNat ≤ 16 ∧
      encodeOpN (UInt8.ofNat (decodeOpN opcode)).toNat = opcode := by
  rw [isSmallInteger, Bool.or_eq_true, Bool.and_eq_true, decide_eq_true_iff, decide_eq_true_iff,
    decide_eq_true_iff] at h
  rcases h with rfl | ⟨hlow, hhigh⟩
  · exact absurd hpos (by decide)
  · have hdecode : decodeOpN opcode = opcode - 0x50 := by
      unfold op1 at hlow
      rw [decodeOpN, if_neg (by omega)]
      rfl
    unfold op1 at hlow
    unfold op16 at hhigh
    have hbyte : (UInt8.ofNat (opcode - 0x50)).toNat = opcode - 0x50 := by
      rw [UInt8.toNat_ofNat']
      exact Nat.mod_eq_of_lt (by omega)
    rw [hdecode, hbyte]
    refine ⟨hlow, hhigh, by omega, ?_⟩
    unfold encodeOpN op1
    rw [if_neg (by omega)]
    omega

theorem multiSigValid_iff {m n : UInt8} {keys : List Bytes} :
    multiSigValid ([[m]] ++ keys ++ [[n]]) = true ↔ 1 ≤ m.toNat ∧ m.toNat ≤ n.toNat ∧ keys.length = n.toNat := by
  have hlast : ([[m]] ++ keys ++ [[n]]).getLast? = some [n] := List.getLast?_concat
  have hhead : ([[m]] ++ keys ++ [[n]]).head? = some [m] := rfl
  have hlen : ([[m]] ++ keys ++ [[n]]).length = keys.length + 2 := by
    rw [List.length_append, List.length_append, List.length_singleton, List.length_singleton]
    omega
  unfold multiSigValid
  rw [hlast, hhead, hlen]
  simp only [Option.getD_some, List.getD_cons_zero, Bool.not_eq_true', Bool.or_eq_false_iff, decide_eq_false_iff_not]
  omega

theorem flatMap_pushBytes_length_le {keys : List Bytes} (h : ∀ key ∈ keys, isKeySize key = true) :
    (keys.flatMap pushBytes).length ≤ 70 * keys.length := by
  induction keys with
  | nil => exact Nat.le_refl 0
  | cons key keys ih =>
    have hkey := isKeySize_le (h key List.mem_cons_self)
    have hpush := length_pushBytes_le key
    have hrest := ih fun k hk => h k (List.mem_cons_of_mem _ hk)
    rw [List.flatMap_cons, List.length_append, List.length_cons]
    omega

theorem canonicalScript_multiSig (m n : UInt8) (keys : List Bytes) :
    canonicalScript .multiSig ([[m]] ++ keys ++ [[n]]) =
      UInt8.ofNat (encodeOpN m.toNat) :: (keys.flatMap pushBytes ++ [UInt8.ofNat (encodeOpN n.toNat), 0xae]) := by
  have hlast : ([[m]] ++ keys ++ [[n]]).getLast? = some [n] := List.getLast?_concat
  have htail : ([[m]] ++ keys ++ [[n]]).tail.dropLast = keys := by
    rw [List.append_assoc, List.singleton_append, List.tail_cons, List.dropLast_concat]
  unfold canonicalScript
  dsimp only
  rw [hlast, htail]
  rfl

/-- The keys and the numbers in a multisig script, and the script that is built from them. -/
theorem multiSig_inv (h : matchLoop carrier fuel script [0xfa, 0xfb, 0xfa, 0xae] [] = some v)
    (hvalid : multiSigValid v = true) :
    ∃ (m n : UInt8) (keys : List Bytes), v = [[m]] ++ keys ++ [[n]] ∧ 1 ≤ m.toNat ∧ m.toNat ≤ n.toNat ∧
      keys.length = n.toNat ∧ n.toNat ≤ 16 ∧ (∀ key ∈ keys, isKeySize key = true) ∧
      AlikeScripts script (canonicalScript .multiSig v) ∧ (canonicalScript .multiSig v).length ≤ 2000 := by
  rcases (matchLoop_op opSmallInteger (by decide)).1 h with ⟨fuel1, opcode1, data1, pc1, vs1, -, hop1, hmatch1, h1⟩
  rcases (matchLoop_keys (show getOp [0xfb, 0xfa, 0xae] = some (opPubKeys, [], [0xfa, 0xae]) from by decide)
    (show getOp [0xfa, 0xae] = some (opSmallInteger, [], [0xae]) from by decide)).1 h1 with
    ⟨fuel2, opcode2, data2, pc2, opcode3, data3, pc3, vs2, vs3, -, hop2, hkeys, hmatch3, h3⟩
  rcases (matchLoop_op 0xae (by decide)).1 h3 with
    ⟨fuel4, opcode4, data4, pc4, vs4, -, hop4, hmatch4, h4⟩
  rcases matchOp_smallInteger.1 hmatch1 with ⟨hm, rfl⟩
  rcases matchOp_smallInteger.1 hmatch3 with ⟨hn, rfl⟩
  rcases (matchOp_exact (by decide)).1 hmatch4 with ⟨⟨rfl, rfl⟩, rfl⟩
  rcases matchLoop_end.1 h4 with ⟨-, rfl, rfl⟩
  -- The opcode that the loop stops at is there: it is a small number.
  have hstop : opcode3 ≠ opInvalidOpcode := by
    rintro rfl
    exact absurd hn (by decide)
  rcases pubKeysLoop_reads hop2 (Nat.lt_succ_self _) hkeys hstop with ⟨keys, q, rfl, hsize, hop3, halike⟩
  rw [List.nil_append] at hvalid ⊢
  rcases multiSigValid_iff.1 hvalid with ⟨hmpos, hmn, hlen⟩
  rcases smallInteger_opcode hm hmpos with ⟨hmlow, hmhigh, hm16, hmcode⟩
  rcases smallInteger_opcode hn (hmpos.trans hmn) with ⟨hnlow, hnhigh, hn16, hncode⟩
  unfold op1 at hmlow hnlow
  unfold op16 at hmhigh hnhigh
  refine ⟨_, _, keys, rfl, hmpos, hmn, hlen, hn16, hsize, ?_⟩
  rw [canonicalScript_multiSig, hmcode, hncode]
  have hkeysLen := flatMap_pushBytes_length_le hsize
  have hrest : (keys.flatMap pushBytes ++ [UInt8.ofNat opcode3, 0xae]).length ≤ 1500 := by
    rw [List.length_append]
    show _ + 2 ≤ 1500
    omega
  have hend : AlikeScripts q [UInt8.ofNat opcode3, 0xae] :=
    .byte hop3 (by unfold opPushData4; omega) (by omega) (.byte hop4 (by decide) (by decide) .done)
  refine ⟨.byte hop1 (by unfold opPushData4; omega) (by omega) (halike _ (hrest.trans_lt (by decide)) hend), ?_⟩
  rw [List.length_cons]
  omega

end

/-! ## Solver -/

/-- The 23 bytes of a script hash. -/
theorem isPayToScriptHash_eq {script : CScript} (h : isPayToScriptHash script = true) :
    ((script.drop 2).take 20).length = 20 ∧ script = 0xa9 :: 0x14 :: ((script.drop 2).take 20 ++ [0x87]) := by
  simp only [isPayToScriptHash, Bool.and_eq_true, beq_iff_eq] at h
  rcases h with ⟨⟨⟨hlen, h0⟩, h1⟩, h22⟩
  match script, hlen, h0, h1, h22 with
  | a :: b :: rest, hlen, h0, h1, h22 =>
    have hrest : rest.length = 21 := by simpa using hlen
    have htake : (rest.take 20).length = 20 := by rw [List.length_take, hrest]; rfl
    refine ⟨htake, ?_⟩
    obtain rfl : a = 0xa9 := h0
    obtain rfl : b = 0x14 := h1
    obtain ⟨c, hdrop⟩ : ∃ c, rest.drop 20 = [c] := List.length_eq_one_iff.1 (by rw [List.length_drop, hrest])
    have hget : (rest.drop 20)[0]? = rest[20]? := List.getElem?_drop
    have hlast : (rest[20]?).getD 0 = 0x87 := by
      rw [← List.getD_eq_getElem?_getD]
      exact h22
    rw [hdrop] at hget
    rw [← hget] at hlast
    obtain rfl : c = 0x87 := hlast
    have hsplit := List.take_append_drop 20 rest
    rw [hdrop] at hsplit
    show 0xa9 :: 0x14 :: rest = 0xa9 :: 0x14 :: (rest.take 20 ++ [0x87])
    rw [hsplit]

variable {carrier : DataCarrier} {script : CScript} {t : TxnOutType} {v : List Bytes}

/-- What the scan accepts matches a template of its type. -/
theorem scanTemplates_found {list : List (TxnOutType × CScript)}
    (h : scanTemplates carrier script list = ⟨true, t, v⟩) :
    ∃ script2, (t, script2) ∈ list ∧ matchLoop carrier (script.length + 1) script script2 [] = some v ∧
      (t = .multiSig → multiSigValid v = true) := by
  induction list with
  | nil => cases h
  | cons template list ih =>
    rcases template with ⟨typeRet, script2⟩
    rw [scanTemplates] at h
    cases hmatch : matchLoop carrier (script.length + 1) script script2 [] with
    | none =>
      rw [hmatch] at h
      rcases ih h with ⟨script2', hmem, hfound, hvalid⟩
      exact ⟨script2', List.mem_cons_of_mem _ hmem, hfound, hvalid⟩
    | some vs =>
      rw [hmatch] at h
      dsimp only at h
      split_ifs at h with hchecks
      · cases h
      · rw [Solved.mk.injEq] at h
        rcases h with ⟨-, rfl, rfl⟩
        refine ⟨script2, List.mem_cons_self, hmatch, fun hmulti => ?_⟩
        by_contra hnot
        exact hchecks ⟨hmulti, Bool.eq_false_iff.2 hnot⟩

theorem mem_templates {script2 : CScript} (h : (t, script2) ∈ templates carrier) :
    (t = .pubKey ∧ script2 = [0xfe, 0xac]) ∨ (t = .pubKeyHash ∧ script2 = [0x76, 0xa9, 0xfd, 0x88, 0xac]) ∨
      (t = .multiSig ∧ script2 = [0xfa, 0xfb, 0xfa, 0xae]) ∨ t = .nullData := by
  unfold templates at h
  rcases List.mem_append.1 h with h | h
  · rcases List.mem_append.1 h with h | h
    · simp only [List.mem_cons, List.not_mem_nil, or_false, Prod.mk.injEq] at h
      exact h.imp_right fun h => h.imp_right .inl
    · split_ifs at h
      · rw [List.mem_singleton, Prod.mk.injEq] at h
        exact .inr (.inr (.inr h.1))
      · cases h
  · rw [List.mem_singleton, Prod.mk.injEq] at h
    exact .inr (.inr (.inr h.1))

/-- The types whose scripts ask for signatures. -/
def TxnOutType.IsSigned : TxnOutType → Prop
  | .pubKey | .pubKeyHash | .scriptHash | .multiSig => True
  | .nonstandard | .nullData => False

/-- **A script that `Solver` takes for signed runs as the script that is built from its solutions.** -/
theorem solver_runs (h : solver carrier script = ⟨true, t, v⟩) (ht : t.IsSigned) {E : ScriptEnv}
    (hcode : E.checker.IgnoresCode) (hminimal : E.has scriptVerifyMinimalData = false) (stack : ScriptStack) :
    evalScript E stack script = evalScript E stack (canonicalScript t v) ∧
      evalScriptStack E stack script = evalScriptStack E stack (canonicalScript t v) := by
  unfold solver at h
  split_ifs at h with hp2sh
  · -- There is one form of a script hash only.
    rw [Solved.mk.injEq] at h
    rcases h with ⟨-, rfl, rfl⟩
    rcases isPayToScriptHash_eq hp2sh with ⟨hlen, hscript⟩
    have hpush : pushBytes ((script.drop 2).take 20) = 0x14 :: (script.drop 2).take 20 := by
      rw [pushBytes, hlen, if_pos (by decide)]
      rfl
    have hcanonical : canonicalScript .scriptHash [(script.drop 2).take 20] = script := by
      show [0xa9] ++ pushBytes ((script.drop 2).take 20) ++ [0x87] = script
      rw [hpush]
      exact hscript.symm
    rw [hcanonical]
    exact ⟨rfl, rfl⟩
  · rcases scanTemplates_found h with ⟨script2, hmem, hmatch, hvalid⟩
    have halike : AlikeScripts script (canonicalScript t v) ∧ (canonicalScript t v).length ≤ 2000 := by
      rcases mem_templates hmem with ⟨rfl, rfl⟩ | ⟨rfl, rfl⟩ | ⟨rfl, rfl⟩ | rfl
      · exact alike_pubKey hmatch
      · exact alike_pubKeyHash hmatch
      · rcases multiSig_inv hmatch (hvalid rfl) with ⟨_, _, _, -, -, -, -, -, -, halike⟩
        exact halike
      · exact ht.elim
    have hsize := halike.1.length_le
    exact halike.1.evalScript hcode hminimal (by omega) (by omega) stack

end Dobbscoin
