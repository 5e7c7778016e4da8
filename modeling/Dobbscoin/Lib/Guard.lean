import Mathlib.Logic.Basic
import Mathlib.Tactic.SplitIfs

/-!
# Guard — checks that stop at the first failure

A validation function is a sequence of checks; the first one that fails decides the error.  In
`Except ε` such a check is `rejectIf`, and the lemmas below turn an accepted sequence into the
conjunction of what its checks ask for.
-/

namespace Guard

variable {ε α β : Type}

/-- Stop with the error `e` when the condition holds. -/
def rejectIf (c : Prop) [Decidable c] (e : ε) : Except ε Unit :=
  if c then .error e else .ok ()

@[simp] theorem rejectIf_eq_ok {c : Prop} [Decidable c] {e : ε} {u : Unit} :
    rejectIf c e = .ok u ↔ ¬ c := by
  by_cases hc : c <;> simp [rejectIf, hc]

@[simp] theorem bind_eq_ok {x : Except ε α} {f : α → Except ε β} {b : β} :
    (x >>= f) = .ok b ↔ ∃ a, x = .ok a ∧ f a = .ok b := by
  cases x with
  | error e => simp [bind, Except.bind]
  | ok a => simp [bind, Except.bind]

/-- Of what follows only the accepted values count. -/
theorem bind_congr_ok {x : Except ε α} {f g : α → Except ε β} (h : ∀ a, x = .ok a → f a = g a) :
    (x >>= f) = (x >>= g) := by
  cases x with
  | error e => rfl
  | ok a => exact h a rfl

theorem map_eq_ok {x : Except ε α} {f : α → β} {b : β} :
    x.map f = .ok b ↔ ∃ a, x = .ok a ∧ f a = b := by
  cases x with
  | error e => simp [Except.map]
  | ok a => simp [Except.map]

@[simp] theorem exists_unit {p : Unit → Prop} : (∃ u, p u) ↔ p () :=
  ⟨fun ⟨(), h⟩ => h, fun h => ⟨(), h⟩⟩

theorem rejectIf_of {c : Prop} [Decidable c] (e : ε) (h : c) : rejectIf c e = .error e := by
  simp [rejectIf, h]

theorem rejectIf_of_not {c : Prop} [Decidable c] (e : ε) (h : ¬ c) : rejectIf c e = .ok () := by
  simp [rejectIf, h]

/-- A sequence does not stop with `e` when no step of it does. -/
theorem bind_ne_error {x : Except ε α} {f : α → Except ε β} {e : ε} (hx : x ≠ .error e)
    (hf : ∀ a, x = .ok a → f a ≠ .error e) : (x >>= f) ≠ .error e := by
  cases x with
  | error e' => exact fun h => hx (congrArg Except.error (Except.error.inj h))
  | ok a => exact hf a rfl

theorem rejectIf_ne_error {c : Prop} [Decidable c] {e e' : ε} (h : e' ≠ e) :
    rejectIf c e' ≠ .error e := by
  unfold rejectIf
  split_ifs
  · exact fun hc => h (Except.error.inj hc)
  · exact fun hc => by cases hc

/-- Check every item, in order. -/
def checkEach (f : α → Except ε Unit) : List α → Except ε Unit
  | [] => .ok ()
  | a :: as => do
    f a
    checkEach f as

@[simp] theorem checkEach_eq_ok {f : α → Except ε Unit} {as : List α} {u : Unit} :
    checkEach f as = .ok u ↔ ∀ a ∈ as, f a = .ok () := by
  induction as with
  | nil => simp [checkEach]
  | cons a as ih => simp [checkEach, ih]

theorem checkEach_ne_error {f : α → Except ε Unit} {as : List α} {e : ε}
    (h : ∀ a ∈ as, f a ≠ .error e) : checkEach f as ≠ .error e := by
  induction as with
  | nil => exact fun hc => by cases hc
  | cons a as ih =>
    apply bind_ne_error (h a List.mem_cons_self)
    intro _ _
    exact ih fun b hb => h b (List.mem_cons_of_mem _ hb)

/-- A loop whose rounds never fail: what they keep, of the elements done so far, holds of all of them at its end. -/
theorem foldlM_ok {f : β → α → Except ε β} (P : List α → β → Prop) {l : List α} {b : β} (h : P [] b)
    (hstep : ∀ done a rest acc, l = done ++ a :: rest → P done acc →
      ∃ acc', f acc a = .ok acc' ∧ P (done ++ [a]) acc') :
    ∃ acc, l.foldlM f b = .ok acc ∧ P l acc := by
  suffices hrun : ∀ rest done acc, l = done ++ rest → P done acc → ∃ acc', rest.foldlM f acc = .ok acc' ∧ P l acc' from
    hrun l [] b rfl h
  intro rest
  induction rest with
  | nil =>
    intro done acc hl hacc
    rw [List.append_nil] at hl
    exact ⟨acc, rfl, hl ▸ hacc⟩
  | cons a rest ih =>
    intro done acc hl hacc
    rcases hstep done a rest acc hl hacc with ⟨acc1, hf, hacc1⟩
    rcases ih (done ++ [a]) acc1 (by rw [hl, List.append_assoc, List.singleton_append]) hacc1 with ⟨acc', hrun, hacc'⟩
    refine ⟨acc', ?_, hacc'⟩
    rw [List.foldlM_cons, hf]
    exact hrun

/-! ## What an accepted result is like -/

/-- Every accepted result has the property. -/
def Ensures (x : Except ε α) (P : α → Prop) : Prop :=
  ∀ a, x = .ok a → P a

theorem Ensures.ok {P : α → Prop} {a : α} (h : P a) : Ensures (.ok a : Except ε α) P := by
  intro b hb
  cases hb
  exact h

theorem Ensures.of_error (e : ε) (P : α → Prop) : Ensures (.error e) P := by
  intro a ha
  cases ha

/-- Of a sequence only the last step counts. -/
theorem Ensures.bind {x : Except ε α} {f : α → Except ε β} {P : β → Prop} (h : ∀ a, Ensures (f a) P) :
    Ensures (x >>= f) P := by
  intro b hb
  rcases bind_eq_ok.1 hb with ⟨a, -, hb⟩
  exact h a b hb

theorem Ensures.ite {c : Prop} [Decidable c] {x y : Except ε α} {P : α → Prop} (h : Ensures x P)
    (h' : Ensures y P) : Ensures (if c then x else y) P := by
  split_ifs
  · exact h
  · exact h'

/-! ## Two versions of a check -/

/-- Whatever the first version accepts, the second accepts with the same result. -/
def Laxer {δ : Type} (x : Except δ α) (y : Except ε α) : Prop :=
  ∀ a, x = .ok a → y = .ok a

theorem Laxer.refl (x : Except ε α) : Laxer x x :=
  fun _ h => h

theorem Laxer.of_error {x : Except ε α} (e : ε) : Laxer (.error e : Except ε α) x := by
  intro a ha
  cases ha

theorem Laxer.bind {x y : Except ε α} {f g : α → Except ε β} (h : Laxer x y)
    (hf : ∀ a, x = .ok a → Laxer (f a) (g a)) : Laxer (x >>= f) (y >>= g) := by
  intro b hb
  rcases bind_eq_ok.1 hb with ⟨a, ha, hb⟩
  exact bind_eq_ok.2 ⟨a, h a ha, hf a ha b hb⟩

/-- The same steps before and after. -/
theorem Laxer.bind_right {x : Except ε α} {f g : α → Except ε β} (hf : ∀ a, Laxer (f a) (g a)) :
    Laxer (x >>= f) (x >>= g) :=
  (Laxer.refl x).bind fun a _ => hf a

theorem Laxer.bind_left {x y : Except ε α} {f : α → Except ε β} (h : Laxer x y) :
    Laxer (x >>= f) (y >>= f) :=
  h.bind fun a _ => .refl (f a)

theorem Laxer.ite {c : Prop} [Decidable c] {x y x' y' : Except ε α} (h : Laxer x y) (h' : Laxer x' y') :
    Laxer (if c then x else x') (if c then y else y') := by
  split_ifs
  · exact h
  · exact h'

theorem laxer_rejectIf {c c' : Prop} [Decidable c] [Decidable c'] {e : ε} (h : c' → c) :
    Laxer (rejectIf c e) (rejectIf c' e) := by
  intro u hu
  exact rejectIf_eq_ok.2 fun hc' => rejectIf_eq_ok.1 hu (h hc')

end Guard
