import Dobbscoin.Lib.Guard

/-!
# Outcome — what a computation ends with

`Ensures` says something about accepted results only.  An `Outcome` speaks about both ends of a
computation: its result has one property, or its error has another one.
-/

namespace Guard

variable {ε α β : Type}

/-- The result has `P`, or the error has `Q`. -/
def Outcome (x : Except ε α) (P : α → Prop) (Q : ε → Prop) : Prop :=
  match x with
  | .error e => Q e
  | .ok a => P a

namespace Outcome

variable {P P' R : α → Prop} {Q Q' : ε → Prop}

theorem ok {a : α} (h : P a) : Outcome (.ok a) P Q :=
  h

theorem error {e : ε} (h : Q e) : Outcome (.error e) P Q :=
  h

theorem of_ok {a : α} {x : Except ε α} (h : Outcome x P Q) (hx : x = .ok a) : P a := by
  subst hx
  exact h

theorem of_error {e : ε} {x : Except ε α} (h : Outcome x P Q) (hx : x = .error e) : Q e := by
  subst hx
  exact h

theorem mono {x : Except ε α} (h : Outcome x P Q) (hP : ∀ a, P a → P' a) (hQ : ∀ e, Q e → Q' e) :
    Outcome x P' Q' := by
  cases x with
  | error e => exact hQ e h
  | ok a => exact hP a h

/-- What the first step leaves is what the second one may rely on. -/
theorem bind {x : Except ε α} {f : α → Except ε β} {P : β → Prop} (h : Outcome x R Q)
    (hf : ∀ a, R a → Outcome (f a) P Q) : Outcome (x >>= f) P Q := by
  cases x with
  | error e => exact h
  | ok a => exact hf a h

theorem ite {c : Prop} [Decidable c] {x y : Except ε α} (h : c → Outcome x P Q) (h' : ¬ c → Outcome y P Q) :
    Outcome (if c then x else y) P Q := by
  by_cases hc : c
  · rw [if_pos hc]
    exact h hc
  · rw [if_neg hc]
    exact h' hc

theorem rejectIf {c : Prop} [Decidable c] {e : ε} (h : c → Q e) : Outcome (rejectIf c e) (fun _ => ¬ c) Q :=
  ite (fun hc => h hc) fun hc => hc

end Outcome

end Guard

/-!
# Related — two computations step by step

Two runs of one program, or of two programs that differ in what does not matter, fail in the same way or end
in related results.
-/

namespace Guard

variable {ε α α' β β' : Type}

/-- Both fail with the same error, or both end, with results in the relation. -/
def Related (R : α → α' → Prop) (x : Except ε α) (y : Except ε α') : Prop :=
  match x, y with
  | .ok a, .ok b => R a b
  | .error e, .error e' => e = e'
  | .ok _, .error _ => False
  | .error _, .ok _ => False

namespace Related

variable {R : α → α' → Prop} {S : β → β' → Prop}

theorem ok {a : α} {b : α'} (h : R a b) : Related R (.ok a : Except ε α) (.ok b) :=
  h

theorem error (e : ε) : Related R (.error e) (.error e) :=
  rfl

theorem bind {x : Except ε α} {y : Except ε α'} {f : α → Except ε β} {g : α' → Except ε β'} (h : Related R x y)
    (hf : ∀ a b, R a b → Related S (f a) (g b)) : Related S (x >>= f) (y >>= g) := by
  cases x with
  | error e =>
    cases y with
    | error e' => exact h
    | ok b => exact h.elim
  | ok a =>
    cases y with
    | error e' => exact h.elim
    | ok b => exact hf a b h

/-- A step that both take. -/
theorem step {x : Except ε α} {f : α → Except ε β} {g : α → Except ε β'}
    (hf : ∀ a, Related S (f a) (g a)) : Related S (x >>= f) (x >>= g) := by
  cases x with
  | error e => exact rfl
  | ok a => exact hf a

theorem ite {c : Prop} [Decidable c] {x x' : Except ε α} {y y' : Except ε α'} (h : Related R x y)
    (h' : Related R x' y') : Related R (if c then x else x') (if c then y else y') := by
  by_cases hc : c
  · rw [if_pos hc, if_pos hc]
    exact h
  · rw [if_neg hc, if_neg hc]
    exact h'

/-- How both end. -/
theorem ends {x : Except ε α} {y : Except ε α'} (h : Related R x y) :
    (∃ e, x = .error e ∧ y = .error e) ∨ ∃ a b, x = .ok a ∧ y = .ok b ∧ R a b := by
  cases x with
  | error e =>
    cases y with
    | error e' => exact .inl ⟨e, rfl, congrArg Except.error (Eq.symm h)⟩
    | ok b => exact h.elim
  | ok a =>
    cases y with
    | error e' => exact h.elim
    | ok b => exact .inr ⟨a, b, rfl, rfl, h⟩

/-- What each of them ensures on its own can be used as well. -/
theorem ensures {x : Except ε α} {y : Except ε α'} {P : α → Prop} {Q : α' → Prop} (h : Related R x y)
    (hx : Ensures x P) (hy : Ensures y Q) : Related (fun a b => R a b ∧ P a ∧ Q b) x y := by
  rcases h.ends with ⟨e, rfl, rfl⟩ | ⟨a, b, rfl, rfl, hab⟩
  · exact .error e
  · exact .ok ⟨hab, hx a rfl, hy b rfl⟩

/-- Computations with the same result are the same. -/
theorem eq {x y : Except ε α} (h : Related Eq x y) : x = y := by
  rcases h.ends with ⟨e, rfl, rfl⟩ | ⟨a, b, rfl, rfl, hab⟩
  · rfl
  · rw [hab]

end Related

end Guard

/-!
# Checked — computations that can also break

A machine computation has, beside the errors of its specification, one more way to end: an assertion
fails, or an operation has no result in its type.  `Agrees` says that it does not, and ends as the
specification does.
-/

namespace Guard

/-- `none` is the end that no specification has. -/
abbrev Checked (ε α : Type) := Except (Option ε) α

namespace Checked

variable {ε α β : Type}

/-- A computation that cannot break. -/
def lift (x : Except ε α) : Checked ε α :=
  match x with
  | .error e => .error (some e)
  | .ok a => .ok a

/-- Break unless the condition holds. -/
def assertThat (c : Prop) [Decidable c] : Checked ε Unit :=
  if c then .ok () else .error none

theorem lift_ne_none (x : Except ε α) : lift x ≠ .error none := by
  cases x <;> nofun

/-- The computation does not break and ends as the specification does. -/
def Agrees (x : Checked ε α) (y : Except ε α) : Prop :=
  x = lift y

theorem Agrees.lift (x : Except ε α) : Agrees (lift x) x :=
  rfl

theorem Agrees.ok (a : α) : Agrees (.ok a : Checked ε α) (.ok a) :=
  rfl

theorem Agrees.error (e : ε) : Agrees (.error (some e) : Checked ε α) (.error e) :=
  rfl

theorem Agrees.bind {x : Checked ε α} {y : Except ε α} {f : α → Checked ε β} {g : α → Except ε β}
    (h : Agrees x y) (hf : ∀ a, y = .ok a → Agrees (f a) (g a)) : Agrees (x >>= f) (y >>= g) := by
  subst h
  cases y with
  | error e => rfl
  | ok a => exact hf a rfl

theorem Agrees.ite {c : Prop} [Decidable c] {x x' : Checked ε α} {y y' : Except ε α} (h : c → Agrees x y)
    (h' : ¬ c → Agrees x' y') : Agrees (if c then x else x') (if c then y else y') := by
  by_cases hc : c
  · rw [if_pos hc, if_pos hc]
    exact h hc
  · rw [if_neg hc, if_neg hc]
    exact h' hc

/-- A step that only the machine takes. -/
theorem Agrees.bind_ok {x : Checked ε α} {a : α} {f : α → Checked ε β} {y : Except ε β} (hx : x = .ok a)
    (h : Agrees (f a) y) : Agrees (x >>= f) y := by
  subst hx
  exact h

end Checked

end Guard
