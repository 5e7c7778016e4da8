import Dobbscoin.Lib.Outcome
import Dobbscoin.Script.Runs

/-!
# Accesses stay inside of the stacks

What every operation of the interpreter keeps: no access is outside of the stack it is about, the
operations counted stay within their limit, and what the script puts on a stack is small.
-/

namespace Dobbscoin

open Guard

/-! ## Accesses -/

/-- The fault is no access outside of a stack. -/
def InBounds (e : ScriptFault) : Prop :=
  e ≠ .outOfRange ∧ e ≠ .threw "popstack() : stack empty"

theorem inBounds_error (e : ScriptError) : InBounds (.error e) :=
  ⟨nofun, nofun⟩

/-- Every element has the property. -/
abbrev AllOf (Q : Bytes → Prop) (stack : ScriptStack) : Prop :=
  ∀ vch ∈ stack, Q vch

section

variable {Q : Bytes → Prop} {stack : ScriptStack}

theorem AllOf.cons {vch : Bytes} (h : AllOf Q stack) (hvch : Q vch) : AllOf Q (vch :: stack) :=
  List.forall_mem_cons.2 ⟨hvch, h⟩

theorem AllOf.of_subset {stack' : ScriptStack} (h : AllOf Q stack) (hsub : stack' ⊆ stack) : AllOf Q stack' :=
  fun vch hvch => h vch (hsub hvch)

theorem needStack_outcome (n : Nat) (e : ScriptError) :
    Outcome (needStack stack n e) (fun _ => n ≤ stack.length) InBounds := by
  have hreject := Outcome.rejectIf (c := stack.length < n) fun _ => inBounds_error e
  exact hreject.mono (fun _ h => Nat.not_lt.1 h) fun _ h => h

theorem stacktop_outcome {i : Nat} (h : AllOf Q stack) (hpos : 1 ≤ i) (hle : i ≤ stack.length) :
    Outcome (stacktop stack i) Q InBounds := by
  cases i with
  | zero => omega
  | succ i =>
    have hget : stack[i]? = some stack[i] := List.getElem?_eq_getElem hle
    simp only [stacktop, hget]
    exact .ok (h _ (List.getElem_mem hle))

theorem popTimes_outcome {n : Nat} (h : AllOf Q stack) (hle : n ≤ stack.length) :
    Outcome (popTimes n stack) (fun t => AllOf Q t ∧ t.length + n = stack.length) InBounds := by
  induction n generalizing stack with
  | zero => exact .ok ⟨h, rfl⟩
  | succ n ih =>
    cases stack with
    | nil => simp at hle
    | cons vch stack =>
      have hall : AllOf Q stack := fun v hv => h v (List.mem_cons_of_mem _ hv)
      have hrest := ih hall (by simpa using hle)
      exact hrest.mono (fun t ht => ⟨ht.1, by rw [List.length_cons, ← ht.2, Nat.add_assoc]⟩) fun _ he => he

theorem popstack_outcome (h : AllOf Q stack) (hle : 1 ≤ stack.length) :
    Outcome (popstack stack) (fun t => AllOf Q t ∧ t.length + 1 = stack.length) InBounds := by
  cases stack with
  | nil => simp at hle
  | cons vch stack => exact .ok ⟨fun v hv => h v (List.mem_cons_of_mem _ hv), rfl⟩

theorem eraseTop_outcome {i : Nat} (h : AllOf Q stack) (hpos : 1 ≤ i) (hle : i ≤ stack.length) :
    Outcome (eraseTop stack i) (fun t => AllOf Q t ∧ t.length + 1 = stack.length) InBounds := by
  unfold eraseTop
  rw [if_pos ⟨hpos, hle⟩]
  have hlen := List.length_eraseIdx_of_lt (l := stack) (i := i - 1) (by omega)
  exact .ok ⟨h.of_subset (List.eraseIdx_subset), by omega⟩

theorem insertTop_outcome {i : Nat} {vch : Bytes} (h : AllOf Q stack) (hvch : Q vch) (hle : i ≤ stack.length) :
    Outcome (insertTop stack i vch) (AllOf Q) InBounds := by
  unfold insertTop
  rw [if_pos hle]
  refine .ok fun v hv => ?_
  rcases List.mem_append.1 hv with htake | hdrop
  · exact h v (List.mem_of_mem_take htake)
  · rcases List.mem_cons.1 hdrop with rfl | hdrop
    · exact hvch
    · exact h v (List.mem_of_mem_drop hdrop)

theorem AllOf.set {i : Nat} {vch : Bytes} (h : AllOf Q stack) (hvch : Q vch) : AllOf Q (stack.set i vch) := by
  intro v hv
  rcases List.mem_or_eq_of_mem_set hv with hv | rfl
  · exact h v hv
  · exact hvch

theorem swapTop_outcome {i j : Nat} (h : AllOf Q stack) (hi : 1 ≤ i ∧ i ≤ stack.length)
    (hj : 1 ≤ j ∧ j ≤ stack.length) :
    Outcome (swapTop stack i j) (fun t => AllOf Q t ∧ t.length = stack.length) InBounds := by
  refine (stacktop_outcome h hi.1 hi.2).bind fun vch1 h1 => ?_
  refine (stacktop_outcome h hj.1 hj.2).bind fun vch2 h2 => ?_
  exact .ok ⟨(h.set h2).set h1, by simp⟩

/-- What numbers can fail with are not the faults of an access. -/
theorem ofBytes_outcome (vch : Bytes) (fRequireMinimal : Bool) (size : Nat) :
    Outcome (CScriptNum.ofBytes vch fRequireMinimal size)
      (fun bn => vch.length ≤ size ∧ bn = CScriptNum.setVch vch) InBounds := by
  have hnum : ∀ what, what ≠ "popstack() : stack empty" → InBounds (.threw what) :=
    fun what hwhat => ⟨nofun, fun heq => hwhat (ScriptFault.threw.inj heq)⟩
  refine (Outcome.rejectIf fun _ => hnum _ (by decide)).bind fun _ hsize => ?_
  refine (Outcome.rejectIf fun _ => hnum _ (by decide)).bind fun _ _ => ?_
  exact .ok ⟨Nat.not_lt.1 hsize, rfl⟩

theorem number_outcome (E : ScriptEnv) {i : Nat} (hpos : 1 ≤ i) (hle : i ≤ stack.length) :
    Outcome (E.number stack i) (fun _ => True) InBounds := by
  have htop := stacktop_outcome (Q := fun _ => True) (fun _ _ => trivial) hpos hle
  refine htop.bind fun vch _ => ?_
  exact (ofBytes_outcome vch _ _).mono (fun _ _ => trivial) fun _ he => he

end

/-! ## States -/

/-- The elements of both stacks have the property, and the operations counted are within their limit. -/
structure SoundStacks (Q : Bytes → Prop) (s : EvalState) : Prop where
  stack : AllOf Q s.stack
  altstack : AllOf Q s.altstack
  opCount : s.nOpCount ≤ 201

/-- The operation makes no access outside of a stack, and what it leaves is sound. -/
abbrev Keeps (Q : Bytes → Prop) (x : Except ScriptFault EvalState) : Prop :=
  Outcome x (SoundStacks Q) InBounds

/-- The property of every element that is small enough to be pushed. -/
abbrev OfSmall (Q : Bytes → Prop) : Prop :=
  ∀ vch : Bytes, vch.length ≤ maxScriptElementSize → Q vch

section

variable {Q : Bytes → Prop} {s : EvalState}

theorem SoundStacks.withStack {stack : ScriptStack} (hs : SoundStacks Q s) (h : AllOf Q stack) :
    SoundStacks Q (s.withStack stack) :=
  ⟨h, hs.altstack, hs.opCount⟩

theorem OfSmall.vchFalse (hQ : OfSmall Q) : Q vchFalse :=
  hQ _ (by decide)

theorem OfSmall.vchTrue (hQ : OfSmall Q) : Q vchTrue :=
  hQ _ (by decide)

theorem absBytes_length (fuel n : Nat) : (CScriptNum.absBytes fuel n).length ≤ fuel := by
  induction fuel generalizing n with
  | zero => exact Nat.le_refl 0
  | succ fuel ih =>
    unfold CScriptNum.absBytes
    split_ifs with hn
    · exact Nat.zero_le _
    · exact Nat.succ_le_succ (ih (n / 256))

theorem serialize_length (n : Int) : (CScriptNum.serialize n).length ≤ 9 := by
  have habs := absBytes_length 8 n.natAbs
  unfold CScriptNum.serialize
  dsimp only
  cases (CScriptNum.absBytes 8 n.natAbs).getLast? with
  | none => exact Nat.zero_le _
  | some back =>
    dsimp only
    by_cases hback : back &&& 0x80 ≠ 0
    · rw [if_pos hback, List.length_append, List.length_singleton]
      omega
    · rw [if_neg hback]
      split_ifs
      · rw [List.length_append, List.length_singleton, List.length_dropLast]
        omega
      · omega

theorem OfSmall.serialize (hQ : OfSmall Q) (n : Int) : Q (CScriptNum.serialize n) :=
  hQ _ (Nat.le_trans (serialize_length n) (by decide))

theorem pushOutcome_outcome {stack : ScriptStack} (hQ : OfSmall Q) (h : AllOf Q stack)
    (fSuccess verify : Bool) (e : ScriptError) :
    Outcome (pushOutcome stack fSuccess verify e) (AllOf Q) InBounds := by
  have hpushed : AllOf Q ((if fSuccess then vchTrue else vchFalse) :: stack) := by
    refine h.cons ?_
    split_ifs
    · exact hQ.vchTrue
    · exact hQ.vchFalse
  refine .ite (fun _ => .ite (fun _ => ?_) fun _ => .error (inBounds_error e)) fun _ => .ok hpushed
  exact (popstack_outcome hpushed (by simp)).mono (fun _ ht => ht.1) fun _ he => he

/-! ## Operations -/

theorem StackOp.run_keeps (hQ : OfSmall Q) (hs : SoundStacks Q s) (op : StackOp) : Keeps Q (op.run s) := by
  cases op <;> simp only [StackOp.run]
  case depth => exact .ok (hs.withStack (hs.stack.cons (hQ.serialize _)))
  case toAltStack =>
    refine (needStack_outcome 1 _).bind fun _ hlen => ?_
    refine (stacktop_outcome hs.stack (by decide) hlen).bind fun vch hvch => ?_
    refine (popstack_outcome hs.stack hlen).bind fun stack hstack => ?_
    exact .ok ⟨hstack.1, hs.altstack.cons hvch, hs.opCount⟩
  case fromAltStack =>
    refine (needStack_outcome 1 _).bind fun _ hlen => ?_
    refine (stacktop_outcome hs.altstack (by decide) hlen).bind fun vch hvch => ?_
    refine (popstack_outcome hs.altstack hlen).bind fun altstack halt => ?_
    exact .ok ⟨hs.stack.cons hvch, halt.1, hs.opCount⟩
  case drop2 =>
    refine (needStack_outcome 2 _).bind fun _ hlen => ?_
    refine (popstack_outcome hs.stack (by omega)).bind fun stack1 h1 => ?_
    refine (popstack_outcome h1.1 (by omega)).bind fun stack2 h2 => ?_
    exact .ok (hs.withStack h2.1)
  case dup2 =>
    refine (needStack_outcome 2 _).bind fun _ hlen => ?_
    refine (stacktop_outcome hs.stack (by decide) hlen).bind fun vch1 h1 => ?_
    refine (stacktop_outcome hs.stack (by decide) (by omega)).bind fun vch2 h2 => ?_
    exact .ok (hs.withStack ((hs.stack.cons h1).cons h2))
  case dup3 =>
    refine (needStack_outcome 3 _).bind fun _ hlen => ?_
    refine (stacktop_outcome hs.stack (by decide) hlen).bind fun vch1 h1 => ?_
    refine (stacktop_outcome hs.stack (by decide) (by omega)).bind fun vch2 h2 => ?_
    refine (stacktop_outcome hs.stack (by decide) (by omega)).bind fun vch3 h3 => ?_
    exact .ok (hs.withStack (((hs.stack.cons h1).cons h2).cons h3))
  case over2 =>
    refine (needStack_outcome 4 _).bind fun _ hlen => ?_
    refine (stacktop_outcome hs.stack (by decide) hlen).bind fun vch1 h1 => ?_
    refine (stacktop_outcome hs.stack (by decide) (by omega)).bind fun vch2 h2 => ?_
    exact .ok (hs.withStack ((hs.stack.cons h1).cons h2))
  case rot2 =>
    refine (needStack_outcome 6 _).bind fun _ hlen => ?_
    refine (stacktop_outcome hs.stack (by decide) hlen).bind fun vch1 h1 => ?_
    refine (stacktop_outcome hs.stack (by decide) (by omega)).bind fun vch2 h2 => ?_
    refine (eraseTop_outcome hs.stack (by decide) hlen).bind fun stack1 hstack1 => ?_
    -- The second element stands one place higher now.
    refine (eraseTop_outcome hstack1.1 (by decide) (by omega)).bind fun stack2 hstack2 => ?_
    exact .ok (hs.withStack ((hstack2.1.cons h1).cons h2))
  case swap2 =>
    refine (needStack_outcome 4 _).bind fun _ hlen => ?_
    refine (swapTop_outcome hs.stack ⟨by decide, hlen⟩ ⟨by decide, by omega⟩).bind fun stack1 h1 => ?_
    refine (swapTop_outcome h1.1 ⟨by decide, by omega⟩ ⟨by decide, by omega⟩).bind fun stack2 h2 => ?_
    exact .ok (hs.withStack h2.1)
  case ifDup =>
    refine (needStack_outcome 1 _).bind fun _ hlen => ?_
    refine (stacktop_outcome hs.stack (by decide) hlen).bind fun vch hvch => ?_
    refine .ok ?_
    split_ifs
    · exact hs.withStack (hs.stack.cons hvch)
    · exact hs
  case drop =>
    refine (needStack_outcome 1 _).bind fun _ hlen => ?_
    refine (popstack_outcome hs.stack hlen).bind fun stack hstack => ?_
    exact .ok (hs.withStack hstack.1)
  case dup =>
    refine (needStack_outcome 1 _).bind fun _ hlen => ?_
    refine (stacktop_outcome hs.stack (by decide) hlen).bind fun vch hvch => ?_
    exact .ok (hs.withStack (hs.stack.cons hvch))
  case nip =>
    refine (needStack_outcome 2 _).bind fun _ hlen => ?_
    refine (eraseTop_outcome hs.stack (by decide) hlen).bind fun stack hstack => ?_
    exact .ok (hs.withStack hstack.1)
  case «over» =>
    refine (needStack_outcome 2 _).bind fun _ hlen => ?_
    refine (stacktop_outcome hs.stack (by decide) hlen).bind fun vch hvch => ?_
    exact .ok (hs.withStack (hs.stack.cons hvch))
  case rot =>
    refine (needStack_outcome 3 _).bind fun _ hlen => ?_
    refine (swapTop_outcome hs.stack ⟨by decide, hlen⟩ ⟨by decide, by omega⟩).bind fun stack1 h1 => ?_
    refine (swapTop_outcome h1.1 ⟨by decide, by omega⟩ ⟨by decide, by omega⟩).bind fun stack2 h2 => ?_
    exact .ok (hs.withStack h2.1)
  case swap =>
    refine (needStack_outcome 2 _).bind fun _ hlen => ?_
    refine (swapTop_outcome hs.stack ⟨by decide, hlen⟩ ⟨by decide, by omega⟩).bind fun stack1 h1 => ?_
    exact .ok (hs.withStack h1.1)
  case tuck =>
    refine (needStack_outcome 2 _).bind fun _ hlen => ?_
    refine (stacktop_outcome hs.stack (by decide) (by omega)).bind fun vch hvch => ?_
    refine (insertTop_outcome hs.stack hvch hlen).bind fun stack hstack => ?_
    exact .ok (hs.withStack hstack)
  case size =>
    refine (needStack_outcome 1 _).bind fun _ hlen => ?_
    refine (stacktop_outcome hs.stack (by decide) hlen).bind fun vch hvch => ?_
    exact .ok (hs.withStack (hs.stack.cons (hQ.serialize _)))

variable (E : ScriptEnv)

theorem runPick_keeps (hs : SoundStacks Q s) (roll : Bool) : Keeps Q (runPick E s roll) := by
  refine (needStack_outcome 2 _).bind fun _ hlen => ?_
  refine (number_outcome E (by decide) (by omega)).bind fun bn _ => ?_
  dsimp only
  generalize CScriptNum.getInt bn = n
  refine (popstack_outcome hs.stack (by omega)).bind fun stack hstack => ?_
  refine (Outcome.rejectIf fun _ => inBounds_error _).bind fun _ hrange => ?_
  -- The count is inside of the stack that is left.
  have hcount : n.toNat + 1 ≤ stack.length := by omega
  refine (stacktop_outcome hstack.1 (by omega) hcount).bind fun vch hvch => ?_
  have hrolled : Outcome (if roll then eraseTop stack (n.toNat + 1) else .ok stack) (AllOf Q) InBounds := by
    refine .ite (fun _ => ?_) fun _ => .ok hstack.1
    exact (eraseTop_outcome hstack.1 (by omega) hcount).mono (fun _ ht => ht.1) fun _ he => he
  exact hrolled.bind fun stack' hstack' => .ok (hs.withStack (hstack'.cons hvch))

theorem runEqual_keeps (hQ : OfSmall Q) (hs : SoundStacks Q s) (verify : Bool) : Keeps Q (runEqual s verify) := by
  refine (needStack_outcome 2 _).bind fun _ hlen => ?_
  refine (stacktop_outcome hs.stack (by decide) hlen).bind fun vch1 _ => ?_
  refine (stacktop_outcome hs.stack (by decide) (by omega)).bind fun vch2 _ => ?_
  refine (popTimes_outcome hs.stack hlen).bind fun stack hstack => ?_
  exact (pushOutcome_outcome hQ hstack.1 _ _ _).bind fun stack' hstack' => .ok (hs.withStack hstack')

theorem UnaryOp.run_keeps (hQ : OfSmall Q) (hs : SoundStacks Q s) (op : UnaryOp) : Keeps Q (op.run E s) := by
  refine (needStack_outcome 1 _).bind fun _ hlen => ?_
  refine (number_outcome E (by decide) hlen).bind fun bn _ => ?_
  refine (popstack_outcome hs.stack hlen).bind fun stack hstack => ?_
  exact .ok (hs.withStack (hstack.1.cons (hQ.serialize _)))

theorem BinaryOp.run_keeps (hQ : OfSmall Q) (hs : SoundStacks Q s) (op : BinaryOp) : Keeps Q (op.run E s) := by
  refine (needStack_outcome 2 _).bind fun _ hlen => ?_
  refine (number_outcome E (by decide) hlen).bind fun bn1 _ => ?_
  refine (number_outcome E (by decide) (by omega)).bind fun bn2 _ => ?_
  refine (popTimes_outcome hs.stack hlen).bind fun stack hstack => ?_
  have hpushed : AllOf Q (CScriptNum.serialize (op.apply bn1 bn2) :: stack) := hstack.1.cons (hQ.serialize _)
  refine .ite (fun _ => ?_) fun _ => .ok (hs.withStack hpushed)
  have hpos := Nat.succ_le_succ (Nat.zero_le stack.length)
  refine (stacktop_outcome hpushed (by decide) hpos).bind fun vch _ => ?_
  refine (Outcome.rejectIf fun _ => inBounds_error _).bind fun _ _ => ?_
  exact (popstack_outcome hpushed hpos).bind fun stack' hstack' => .ok (hs.withStack hstack'.1)

theorem runWithin_keeps (hQ : OfSmall Q) (hs : SoundStacks Q s) : Keeps Q (runWithin E s) := by
  refine (needStack_outcome 3 _).bind fun _ hlen => ?_
  refine (number_outcome E (by decide) hlen).bind fun bn1 _ => ?_
  refine (number_outcome E (by decide) (by omega)).bind fun bn2 _ => ?_
  refine (number_outcome E (by decide) (by omega)).bind fun bn3 _ => ?_
  refine (popTimes_outcome hs.stack hlen).bind fun stack hstack => ?_
  refine .ok (hs.withStack (hstack.1.cons ?_))
  split_ifs
  · exact hQ.vchTrue
  · exact hQ.vchFalse

/-- The sizes that `EvalScript` gives the vector a hash is written into. -/
def HashOp.size : HashOp → Nat
  | .ripemd160 => 20
  | .sha1 => 20
  | .sha256 => 32
  | .hash160 => 20
  | .hash256 => 32

/-- Every hash fills its vector. -/
def ScriptHashes.Sized (H : ScriptHashes) : Prop :=
  ∀ (op : HashOp) (vch : Bytes), (H.apply op vch).length = op.size

theorem runHash_keeps (hH : E.hashes.Sized) (hQ : OfSmall Q) (hs : SoundStacks Q s) (op : HashOp) :
    Keeps Q (runHash E s op) := by
  refine (needStack_outcome 1 _).bind fun _ hlen => ?_
  refine (stacktop_outcome hs.stack (by decide) hlen).bind fun vch _ => ?_
  refine (popstack_outcome hs.stack hlen).bind fun stack hstack => ?_
  have hsmall : op.size ≤ maxScriptElementSize := by cases op <;> decide
  exact .ok (hs.withStack (hstack.1.cons (hQ _ ((hH op vch).trans_le hsmall))))

theorem runIf_keeps (hs : SoundStacks Q s) (negated : Bool) : Keeps Q (runIf s negated) := by
  refine .ite (fun _ => ?_) fun _ => .ok ⟨hs.stack, hs.altstack, hs.opCount⟩
  refine (needStack_outcome 1 _).bind fun _ hlen => ?_
  refine (stacktop_outcome hs.stack (by decide) hlen).bind fun vch _ => ?_
  refine (popstack_outcome hs.stack hlen).bind fun stack hstack => ?_
  exact .ok ⟨hstack.1, hs.altstack, hs.opCount⟩

theorem runElse_keeps (hs : SoundStacks Q s) : Keeps Q (runElse s) := by
  unfold runElse
  cases s.vfExec with
  | nil => exact .error (inBounds_error _)
  | cons back vfExec => exact .ok ⟨hs.stack, hs.altstack, hs.opCount⟩

theorem runEndIf_keeps (hs : SoundStacks Q s) : Keeps Q (runEndIf s) := by
  unfold runEndIf
  cases s.vfExec with
  | nil => exact .error (inBounds_error _)
  | cons back vfExec => exact .ok ⟨hs.stack, hs.altstack, hs.opCount⟩

theorem runVerify_keeps (hs : SoundStacks Q s) : Keeps Q (runVerify s) := by
  refine (needStack_outcome 1 _).bind fun _ hlen => ?_
  refine (stacktop_outcome hs.stack (by decide) hlen).bind fun vch _ => ?_
  refine (Outcome.rejectIf fun _ => inBounds_error _).bind fun _ _ => ?_
  exact (popstack_outcome hs.stack hlen).bind fun stack hstack => .ok (hs.withStack hstack.1)

theorem runUpgradableNop_keeps (hs : SoundStacks Q s) : Keeps Q (runUpgradableNop E s) :=
  .ite (fun _ => .error (inBounds_error _)) fun _ => .ok hs

theorem runCheckLockTimeVerify_keeps (hs : SoundStacks Q s) : Keeps Q (runCheckLockTimeVerify E s) := by
  refine .ite (fun _ => runUpgradableNop_keeps E hs) fun _ => ?_
  refine (needStack_outcome 1 _).bind fun _ hlen => ?_
  have hoperand : Outcome (lockTimeOperand E s) (fun _ => True) InBounds := by
    refine (stacktop_outcome hs.stack (by decide) hlen).bind fun vch _ => ?_
    exact (ofBytes_outcome vch _ _).mono (fun _ _ => trivial) fun _ he => he
  refine hoperand.bind fun nLockTime _ => ?_
  refine (Outcome.rejectIf fun _ => inBounds_error _).bind fun _ _ => ?_
  exact (Outcome.rejectIf fun _ => inBounds_error _).bind fun _ _ => .ok hs

/-! ## Signature checks -/

theorem checkEncodings_outcome (vchSig vchPubKey : Bytes) :
    Outcome (checkEncodings E vchSig vchPubKey) (fun _ => True) InBounds := by
  unfold checkEncodings
  cases checkSignatureEncoding vchSig E.flags with
  | error e => exact .error (inBounds_error e)
  | ok u =>
    cases checkPubKeyEncoding vchPubKey E.flags with
    | error e => exact .error (inBounds_error e)
    | ok u' => exact .ok trivial

theorem runCheckSig_keeps (hQ : OfSmall Q) (hs : SoundStacks Q s) (verify : Bool) :
    Keeps Q (runCheckSig E s verify) := by
  refine (needStack_outcome 2 _).bind fun _ hlen => ?_
  refine (stacktop_outcome hs.stack (by decide) hlen).bind fun vchSig _ => ?_
  refine (stacktop_outcome hs.stack (by decide) (by omega)).bind fun vchPubKey _ => ?_
  refine (checkEncodings_outcome E vchSig vchPubKey).bind fun _ _ => ?_
  refine (popTimes_outcome hs.stack hlen).bind fun stack hstack => ?_
  exact (pushOutcome_outcome hQ hstack.1 _ _ _).bind fun stack' hstack' => .ok (hs.withStack hstack')

/-- The signatures lie between their first position and the bottom of the stack. -/
theorem deleteSigs_outcome {stack : ScriptStack} {n isig : Nat} (hpos : 1 ≤ isig)
    (hle : isig + n ≤ stack.length + 1) (scriptCode : CScript) :
    Outcome (deleteSigs stack n isig scriptCode) (fun _ => True) InBounds := by
  induction n generalizing isig scriptCode with
  | zero => exact .ok trivial
  | succ n ih =>
    have hall : AllOf (fun _ => True) stack := fun _ _ => trivial
    exact (stacktop_outcome hall hpos (by omega)).bind fun vchSig _ => ih (by omega) (by omega) _

/-- The keys left and the signatures left lie inside of the stack, whatever the checks say. -/
theorem multiSigLoop_outcome {stack : ScriptStack} {scriptCode : CScript} {nKeysCount ikey isig nSigsCount : Nat}
    (hikey : 1 ≤ ikey) (hkeys : ikey + nKeysCount ≤ stack.length + 1) (hisig : 1 ≤ isig)
    (hsigs : isig + nSigsCount ≤ stack.length + 1) :
    Outcome (multiSigLoop E scriptCode stack nKeysCount ikey isig nSigsCount) (fun _ => True) InBounds := by
  induction nKeysCount generalizing ikey isig nSigsCount with
  | zero => cases nSigsCount <;> exact .ok trivial
  | succ nKeysCount ih =>
    cases nSigsCount with
    | zero => exact .ok trivial
    | succ nSigsCount =>
      have htop : ∀ i, 1 ≤ i → i ≤ stack.length → Outcome (stacktop stack i) (fun _ => True) InBounds :=
        fun i => stacktop_outcome fun _ _ => trivial
      refine (htop isig hisig (by omega)).bind fun vchSig _ => ?_
      refine (htop ikey hikey (by omega)).bind fun vchPubKey _ => ?_
      refine (checkEncodings_outcome E vchSig vchPubKey).bind fun _ _ => ?_
      dsimp only
      refine .ite (fun _ => .ok trivial) fun _ => ?_
      -- A valid signature moves both positions, an invalid one only that of the key.
      cases E.checker.checkSig vchSig vchPubKey scriptCode with
      | true => exact ih (by omega) (by omega) (by simp) (by simp only [if_true]; omega)
      | false => exact ih (by omega) (by omega) hisig hsigs

theorem runCheckMultiSig_keeps (hQ : OfSmall Q) (hs : SoundStacks Q s) (verify : Bool) :
    Keeps Q (runCheckMultiSig E s verify) := by
  refine (needStack_outcome 1 _).bind fun _ hlen => ?_
  refine (number_outcome E (by decide) hlen).bind fun bnKeys _ => ?_
  dsimp only
  generalize CScriptNum.getInt bnKeys = nKeys
  refine (Outcome.rejectIf fun _ => inBounds_error _).bind fun _ hnKeys => ?_
  refine (Outcome.rejectIf fun _ => inBounds_error _).bind fun _ hops => ?_
  refine (needStack_outcome _ _).bind fun _ hkeys => ?_
  refine (number_outcome E (by omega) hkeys).bind fun bnSigs _ => ?_
  generalize CScriptNum.getInt bnSigs = nSigs
  refine (Outcome.rejectIf fun _ => inBounds_error _).bind fun _ hnSigs => ?_
  refine (needStack_outcome _ _).bind fun _ hsigs => ?_
  refine (deleteSigs_outcome (by omega) (by omega) _).bind fun scriptCode _ => ?_
  refine (multiSigLoop_outcome E (by decide) (by omega) (by omega) (by omega)).bind fun fSuccess _ => ?_
  refine (popTimes_outcome hs.stack (by omega)).bind fun stack hstack => ?_
  refine (needStack_outcome 1 _).bind fun _ hdummy => ?_
  refine (stacktop_outcome hstack.1 (by decide) hdummy).bind fun dummy _ => ?_
  refine (Outcome.rejectIf fun _ => inBounds_error _).bind fun _ _ => ?_
  refine (popstack_outcome hstack.1 hdummy).bind fun stack1 hstack1 => ?_
  refine (pushOutcome_outcome hQ hstack1.1 _ _ _).bind fun stack2 hstack2 => ?_
  exact .ok ⟨hstack2, hs.altstack, Nat.not_lt.1 hops⟩

theorem runOp_keeps (hH : E.hashes.Sized) (hQ : OfSmall Q) (hs : SoundStacks Q s) (op : Op) : Keeps Q (runOp E s op) := by
  cases op with
  | pushNumber n => exact .ok (hs.withStack (hs.stack.cons (hQ.serialize n)))
  | nop => exact .ok hs
  | checkLockTimeVerify => exact runCheckLockTimeVerify_keeps E hs
  | upgradableNop => exact runUpgradableNop_keeps E hs
  | opIf negated => exact runIf_keeps hs negated
  | opElse => exact runElse_keeps hs
  | opEndIf => exact runEndIf_keeps hs
  | verify => exact runVerify_keeps hs
  | opReturn => exact .error (inBounds_error _)
  | stack op => exact op.run_keeps hQ hs
  | pick roll => exact runPick_keeps E hs roll
  | equal verify => exact runEqual_keeps hQ hs verify
  | unary op => exact op.run_keeps E hQ hs
  | binary op => exact op.run_keeps E hQ hs
  | within => exact runWithin_keeps E hQ hs
  | hash op => exact runHash_keeps E hH hQ hs op
  | codeSeparator => exact .ok ⟨hs.stack, hs.altstack, hs.opCount⟩
  | checkSig verify => exact runCheckSig_keeps E hQ hs verify
  | checkMultiSig verify => exact runCheckMultiSig_keeps E hQ hs verify
  | bad => exact .error (inBounds_error _)

/-! ## Rounds -/

theorem execute_keeps (hH : E.hashes.Sized) (hQ : OfSmall Q) (hs : SoundStacks Q s) (opcode : Nat) {vchPushValue : Bytes}
    (hpush : Q vchPushValue) : Keeps Q (execute E s opcode vchPushValue) := by
  refine .ite (fun _ => ?_) fun _ => .ite (fun _ => runOp_keeps E hH hQ hs _) fun _ => .ok hs
  refine (Outcome.rejectIf fun _ => inBounds_error _).bind fun _ _ => ?_
  exact .ok (hs.withStack (hs.stack.cons hpush))

/-- One round of the loop, before the two stacks are measured. -/
def EvalState.round (E : ScriptEnv) (s : EvalState) : Except ScriptFault EvalState :=
  match CScript.getOp s.pc with
  | none => fail .badOpcode
  | some (opcode, vchPushValue, pc) => do
    rejectIf (vchPushValue.length > maxScriptElementSize) (.error .pushSize)
    let nOpCount := if opcode > op16 then s.nOpCount + 1 else s.nOpCount
    rejectIf (opcode > op16 ∧ nOpCount > 201) (.error .opCount)
    rejectIf (isDisabledOpcode opcode = true) (.error .disabledOpcode)
    execute E { s with pc := pc, nOpCount := nOpCount } opcode vchPushValue

theorem step_eq_round (s : EvalState) :
    s.step E = (do
      let t ← s.round E
      rejectIf (t.stack.length + t.altstack.length > 1000) (.error .stackSize)
      .ok t) := by
  unfold EvalState.step EvalState.round
  cases CScript.getOp s.pc with
  | none => rfl
  | some op =>
    dsimp only
    simp only [bind_assoc]

theorem round_keeps (hH : E.hashes.Sized) (hQ : OfSmall Q) (hs : SoundStacks Q s) : Keeps Q (s.round E) := by
  unfold EvalState.round
  cases CScript.getOp s.pc with
  | none => exact .error (inBounds_error _)
  | some op =>
    rcases op with ⟨opcode, vchPushValue, pc⟩
    refine (Outcome.rejectIf fun _ => inBounds_error _).bind fun _ hsize => ?_
    refine (Outcome.rejectIf fun _ => inBounds_error _).bind fun _ hcount => ?_
    refine (Outcome.rejectIf fun _ => inBounds_error _).bind fun _ _ => ?_
    have hop : (if opcode > op16 then s.nOpCount + 1 else s.nOpCount) ≤ 201 := by
      by_cases hbig : opcode > op16
      · rw [if_pos hbig] at hcount ⊢
        exact Nat.not_lt.1 fun hlt => hcount ⟨hbig, hlt⟩
      · rw [if_neg hbig]
        exact hs.opCount
    have hs' : SoundStacks Q { s with pc := pc, nOpCount := if opcode > op16 then s.nOpCount + 1 else s.nOpCount } :=
      ⟨hs.stack, hs.altstack, hop⟩
    exact execute_keeps E hH hQ hs' opcode (hQ _ (Nat.not_lt.1 hsize))

theorem step_keeps (hH : E.hashes.Sized) (hQ : OfSmall Q) (hs : SoundStacks Q s) :
    Outcome (s.step E) (fun t => SoundStacks Q t ∧ t.stack.length + t.altstack.length ≤ 1000) InBounds := by
  rw [step_eq_round]
  refine (round_keeps E hH hQ hs).bind fun t ht => ?_
  exact (Outcome.rejectIf fun _ => inBounds_error _).bind fun _ hsize => .ok ⟨ht, Nat.not_lt.1 hsize⟩

/-! ## Runs -/

theorem SoundStacks.start {stack : ScriptStack} (h : AllOf Q stack) (script : CScript) : SoundStacks Q (.start stack script) :=
  ⟨h, List.forall_mem_nil _, Nat.zero_le _⟩

theorem Visits.sound {E : ScriptEnv} {t : EvalState} (h : Visits E s t) (hH : E.hashes.Sized) (hQ : OfSmall Q)
    (hs : SoundStacks Q s) : SoundStacks Q t :=
  h.invariant (fun _ _ hu hstep => ((step_keeps E hH hQ hu).of_ok hstep).1) hs

theorem evalLoop_keeps (hH : E.hashes.Sized) (hQ : OfSmall Q) (fuel : Nat) (hs : SoundStacks Q s) :
    Keeps Q (evalLoop E fuel s) := by
  induction fuel generalizing s with
  | zero => exact .ok hs
  | succ fuel ih =>
    refine .ite (fun _ => .ok hs) fun _ => ?_
    exact (step_keeps E hH hQ hs).bind fun t ht => ih ht.1

end

/-- **Script execution stays in bounds.**  `EvalScript` comes to the end of the script or stops with an error
that is no access outside of a stack.  Whenever it goes on to the next opcode, at most 201 operations are
counted and the stacks hold at most 1000 elements; an element that was not on the stack at the start has at
most 520 bytes, also in the round after which the stacks are too large. -/
theorem evalScript_inBounds (E : ScriptEnv) (hH : E.hashes.Sized) (stack : ScriptStack) (script : CScript) :
    (∀ fuel, script.length ≤ fuel →
      evalLoop E fuel (.start stack script) = evalLoop E script.length (.start stack script)) ∧
    Outcome (evalLoop E script.length (.start stack script)) (fun r => r.pc = []) InBounds ∧
    ∀ s, Visits E (.start stack script) s → s.pc ≠ [] →
      Outcome (s.step E) (fun t => t.nOpCount ≤ 201 ∧ t.stack.length + t.altstack.length ≤ 1000) InBounds ∧
      Outcome (s.round E) (fun t => ∀ vch, vch ∈ t.stack ∨ vch ∈ t.altstack →
        vch ∈ stack ∨ vch.length ≤ maxScriptElementSize) InBounds := by
  have hQ : OfSmall fun vch => vch ∈ stack ∨ vch.length ≤ maxScriptElementSize := fun _ h => .inr h
  have hstart := SoundStacks.start (Q := fun vch => vch ∈ stack ∨ vch.length ≤ maxScriptElementSize)
    (fun _ h => .inl h) script
  have hpc : Ensures (evalLoop E script.length (.start stack script)) fun r => r.pc = [] :=
    fun r hr => evalLoop_pc (Nat.le_refl script.length) hr
  refine ⟨fun fuel hfuel => evalLoop_fuel hfuel (Nat.le_refl script.length), ?_, fun s hvisits _ => ?_⟩
  · have hrun := evalLoop_keeps E hH hQ script.length hstart
    cases hend : evalLoop E script.length (.start stack script) with
    | error e => exact .error (hrun.of_error hend)
    | ok r => exact .ok (hpc r hend)
  · have hs := hvisits.sound hH hQ hstart
    constructor
    · exact (step_keeps E hH hQ hs).mono (fun t ht => ⟨ht.1.opCount, ht.2⟩) fun _ he => he
    · refine (round_keeps E hH hQ hs).mono (fun t ht vch hvch => ?_) fun _ he => he
      rcases hvch with hvch | hvch
      · exact ht.stack vch hvch
      · exact ht.altstack vch hvch

/-- The hashes of the empty element. -/
def emptyHashes : ScriptHashes where
  ripemd160 := fun _ =>
    [0x9c, 0x11, 0x85, 0xa5, 0xc5, 0xe9, 0xfc, 0x54, 0x61, 0x28, 0x08, 0x97, 0x7e, 0xe8, 0xf5, 0x48,
     0xb2, 0x25, 0x8d, 0x31]
  sha1 := fun _ =>
    [0xda, 0x39, 0xa3, 0xee, 0x5e, 0x6b, 0x4b, 0x0d, 0x32, 0x55, 0xbf, 0xef, 0x95, 0x60, 0x18, 0x90,
     0xaf, 0xd8, 0x07, 0x09]
  sha256 := fun _ =>
    [0xe3, 0xb0, 0xc4, 0x42, 0x98, 0xfc, 0x1c, 0x14, 0x9a, 0xfb, 0xf4, 0xc8, 0x99, 0x6f, 0xb9, 0x24,
     0x27, 0xae, 0x41, 0xe4, 0x64, 0x9b, 0x93, 0x4c, 0xa4, 0x95, 0x99, 0x1b, 0x78, 0x52, 0xb8, 0x55]
  hash160 := fun _ =>
    [0xb4, 0x72, 0xa2, 0x66, 0xd0, 0xbd, 0x89, 0xc1, 0x37, 0x06, 0xa4, 0x13, 0x2c, 0xcf, 0xb1, 0x6f,
     0x7c, 0x3b, 0x9f, 0xcb]
  hash256 := fun _ =>
    [0x5d, 0xf6, 0xe0, 0xe2, 0x76, 0x13, 0x59, 0xd3, 0x0a, 0x82, 0x75, 0x05, 0x8e, 0x29, 0x9f, 0xcc,
     0x03, 0x81, 0x53, 0x45, 0x45, 0xf5, 0x5c, 0xf4, 0x3e, 0x41, 0x98, 0x3f, 0x5d, 0x4c, 0x94, 0x56]

theorem emptyHashes_sized : emptyHashes.Sized := by
  intro op vch
  cases op <;> rfl

/-- `OP_0 OP_HASH160`, with a checker that accepts nothing. -/
theorem evalScript_inBounds_hash160 :
    Outcome (evalLoop ⟨emptyHashes, ⟨fun _ _ _ => false, fun _ => false⟩, 0⟩ 2 (.start [] [0x00, 0xa9]))
      (fun r => r.pc = []) InBounds :=
  (evalScript_inBounds ⟨emptyHashes, ⟨fun _ _ _ => false, fun _ => false⟩, 0⟩ emptyHashes_sized [] [0x00, 0xa9]).2.1

end Dobbscoin
