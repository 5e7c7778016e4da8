import Mathlib.Data.List.Forall2

/-!
# Traced — computations that leave a trace

A `Traced τ ε α` ends with a value or with an error and leaves the events it has emitted until then.  Two
judgements say what it does: `Returns` about the value, and `Safe` about all events and errors.
-/

structure Traced (τ ε α : Type) where
  trace : List τ
  result : Except ε α

namespace Traced

variable {τ ε α β ι : Type}

protected def bind (x : Traced τ ε α) (f : α → Traced τ ε β) : Traced τ ε β :=
  match x.result with
  | .error e => ⟨x.trace, .error e⟩
  | .ok a => ⟨x.trace ++ (f a).trace, (f a).result⟩

instance : Monad (Traced τ ε) where
  pure a := ⟨[], .ok a⟩
  bind := Traced.bind

def emit (t : τ) : Traced τ ε Unit :=
  ⟨[t], .ok ()⟩

def fail (e : ε) : Traced τ ε α :=
  ⟨[], .error e⟩

def failIf (c : Prop) [Decidable c] (e : ε) : Traced τ ε Unit :=
  if c then fail e else pure ()

/-- One computation for each item, in order. -/
def collect (f : ι → Traced τ ε α) : List ι → Traced τ ε (List α)
  | [] => pure []
  | i :: is => do
    let a ← f i
    let as ← collect f is
    pure (a :: as)

/-! ## What is returned -/

def Returns (x : Traced τ ε α) (a : α) : Prop :=
  x.result = .ok a

@[simp] theorem pure_returns {a b : α} : (pure a : Traced τ ε α).Returns b ↔ a = b :=
  ⟨Except.ok.inj, congrArg Except.ok⟩

@[simp] theorem bind_returns {x : Traced τ ε α} {f : α → Traced τ ε β} {b : β} :
    (x >>= f).Returns b ↔ ∃ a, x.Returns a ∧ (f a).Returns b := by
  have hbind : x >>= f = Traced.bind x f := rfl
  unfold Returns
  rw [hbind, Traced.bind]
  cases hx : x.result with
  | error e => simp
  | ok a => simp

@[simp] theorem emit_returns {t : τ} {u : Unit} : (emit t : Traced τ ε Unit).Returns u :=
  rfl

@[simp] theorem fail_returns {e : ε} {a : α} : ¬ (fail e : Traced τ ε α).Returns a := by
  intro h
  cases h

@[simp] theorem failIf_returns {c : Prop} [Decidable c] {e : ε} {u : Unit} :
    (failIf c e : Traced τ ε Unit).Returns u ↔ ¬ c := by
  unfold failIf
  split_ifs with hc
  · simp [hc]
  · simp [hc]

theorem Returns.unique {x : Traced τ ε α} {a b : α} (ha : x.Returns a) (hb : x.Returns b) : a = b :=
  Except.ok.inj (Eq.trans (Eq.symm ha) hb)

theorem collect_returns {f : ι → Traced τ ε α} {is : List ι} {as : List α} :
    (collect f is).Returns as ↔ List.Forall₂ (fun i a => (f i).Returns a) is as := by
  induction is generalizing as with
  | nil =>
    rw [List.forall₂_nil_left_iff]
    exact pure_returns.trans eq_comm
  | cons i is ih =>
    rw [List.forall₂_cons_left_iff, collect]
    constructor
    · intro h
      rcases bind_returns.1 h with ⟨a, ha, h⟩
      rcases bind_returns.1 h with ⟨as', has', h⟩
      exact ⟨a, as', ha, ih.1 has', (pure_returns.1 h).symm⟩
    · rintro ⟨a, as', ha, has', rfl⟩
      exact bind_returns.2 ⟨a, ha, bind_returns.2 ⟨as', ih.2 has', pure_returns.2 rfl⟩⟩

/-! ## Events and errors -/

/-- Every event satisfies `P`, and an error satisfies `E`. -/
structure Safe (P : τ → Prop) (E : ε → Prop) (x : Traced τ ε α) : Prop where
  events : ∀ t ∈ x.trace, P t
  errors : ∀ e, x.result = .error e → E e

section

variable {P : τ → Prop} {E : ε → Prop}

theorem safe_pure (a : α) : Safe P E (pure a : Traced τ ε α) :=
  ⟨fun _ ht => absurd ht List.not_mem_nil, fun _ he => by cases he⟩

theorem safe_emit {t : τ} (ht : P t) : Safe P E (emit t : Traced τ ε Unit) := by
  refine ⟨?_, fun _ he => by cases he⟩
  intro t' ht'
  rw [List.mem_singleton.1 ht']
  exact ht

theorem safe_fail {e : ε} (he : E e) : Safe P E (fail e : Traced τ ε α) := by
  refine ⟨fun _ ht => absurd ht List.not_mem_nil, ?_⟩
  intro e' he'
  rw [← Except.error.inj he']
  exact he

theorem safe_failIf {c : Prop} [Decidable c] {e : ε} (he : E e) :
    Safe P E (failIf c e : Traced τ ε Unit) := by
  unfold failIf
  split_ifs
  · exact safe_fail he
  · exact safe_pure ()

theorem Safe.bind {x : Traced τ ε α} {f : α → Traced τ ε β} (hx : Safe P E x)
    (hf : ∀ a, x.Returns a → Safe P E (f a)) : Safe P E (x >>= f) := by
  have hbind : x >>= f = Traced.bind x f := rfl
  rw [hbind, Traced.bind]
  cases hr : x.result with
  | error e =>
    refine ⟨hx.events, ?_⟩
    intro e' he'
    have heq : e = e' := Except.error.inj he'
    exact heq ▸ hx.errors e hr
  | ok a =>
    refine ⟨?_, (hf a hr).errors⟩
    intro t ht
    rcases List.mem_append.1 ht with ht | ht
    · exact hx.events t ht
    · exact (hf a hr).events t ht

theorem safe_collect {f : ι → Traced τ ε α} {is : List ι} (hf : ∀ i ∈ is, Safe P E (f i)) :
    Safe P E (collect f is) := by
  induction is with
  | nil => exact safe_pure []
  | cons i is ih =>
    apply (hf i List.mem_cons_self).bind
    intro a _
    apply (ih fun j hj => hf j (List.mem_cons_of_mem _ hj)).bind
    intro as _
    exact safe_pure (a :: as)

end

theorem Safe.mono {P P' : τ → Prop} {E E' : ε → Prop} {x : Traced τ ε α} (h : Safe P E x)
    (hP : ∀ t, P t → P' t) (hE : ∀ e, E e → E' e) : Safe P' E' x :=
  ⟨fun t ht => hP t (h.events t ht), fun e he => hE e (h.errors e he)⟩

/-! ## Events of one kind -/

/-- The events that `p` picks, in order. -/
def pick {κ : Type} (p : τ → Option κ) (x : Traced τ ε α) : List κ :=
  x.trace.filterMap p

section

variable {κ : Type} {p : τ → Option κ}

theorem Safe.pick_eq_nil {E : ε → Prop} {x : Traced τ ε α} (h : Safe (fun t => p t = none) E x) :
    x.pick p = [] := by
  rw [pick, List.filterMap_eq_nil_iff]
  exact h.events

/-- What is picked from a sequence comes from both of its parts. -/
theorem pick_bind {x : Traced τ ε α} {f : α → Traced τ ε β} {S : List κ → Prop}
    (hstop : S (x.pick p)) (hgo : ∀ a, x.Returns a → S (x.pick p ++ (f a).pick p)) :
    S ((x >>= f).pick p) := by
  have hbind : x >>= f = Traced.bind x f := rfl
  rw [hbind, Traced.bind]
  cases hr : x.result with
  | error e => exact hstop
  | ok a =>
    have hpick := hgo a hr
    rw [pick, pick, ← List.filterMap_append] at hpick
    exact hpick

/-- A first part that is silent may be left out. -/
theorem pick_bind_of_nil {x : Traced τ ε α} {f : α → Traced τ ε β} {S : List κ → Prop}
    (hx : x.pick p = []) (hstop : S []) (hgo : ∀ a, x.Returns a → S ((f a).pick p)) :
    S ((x >>= f).pick p) := by
  apply pick_bind
  · rw [hx]
    exact hstop
  · intro a ha
    rw [hx]
    exact hgo a ha

end

/-! ## Computations that follow others -/

/-- A computation without events. -/
def ofExcept (x : Except ε α) : Traced τ ε α :=
  ⟨[], x⟩

/-- Mark every event. -/
def tag {κ : Type} (k : κ) (x : Traced τ ε α) : Traced (κ × τ) ε α :=
  ⟨x.trace.map fun t => (k, t), x.result⟩

theorem result_bind {x : Traced τ ε α} {y : Except ε α} {f : α → Traced τ ε β} {g : α → Except ε β}
    (h : x.result = y) (hf : ∀ a, (f a).result = g a) : (x >>= f).result = y >>= g := by
  have hbind : x >>= f = Traced.bind x f := rfl
  rw [hbind, Traced.bind, h]
  cases y with
  | error e => rfl
  | ok a => exact hf a

/-- The computation ends as `y` does, after at most `n` events. -/
structure Follows (x : Traced τ ε α) (y : Except ε α) (n : Nat) : Prop where
  result : x.result = y
  events : x.trace.length ≤ n

theorem Follows.ofExcept (y : Except ε α) (n : Nat) : Follows (ofExcept y : Traced τ ε α) y n :=
  ⟨rfl, Nat.zero_le n⟩

theorem Follows.mono {x : Traced τ ε α} {y : Except ε α} {m n : Nat} (h : Follows x y m) (hle : m ≤ n) :
    Follows x y n :=
  ⟨h.result, Nat.le_trans h.events hle⟩

theorem Follows.bind {x : Traced τ ε α} {y : Except ε α} {f : α → Traced τ ε β} {g : α → Except ε β} {m n : Nat}
    (h : Follows x y m) (hf : ∀ a, y = .ok a → Follows (f a) (g a) n) :
    Follows (x >>= f) (y >>= g) (m + n) := by
  have hbind : x >>= f = Traced.bind x f := rfl
  rw [hbind, Traced.bind, h.result]
  cases y with
  | error e => exact ⟨rfl, Nat.le_add_right_of_le h.events⟩
  | ok a =>
    have hrest := hf a rfl
    exact ⟨hrest.result, by rw [List.length_append]; exact Nat.add_le_add h.events hrest.events⟩

/-- A first step without events. -/
theorem Follows.after {y : Except ε α} {f : α → Traced τ ε β} {g : α → Except ε β} {n : Nat}
    (hf : ∀ a, y = .ok a → Follows (f a) (g a) n) : Follows (Traced.ofExcept y >>= f) (y >>= g) n := by
  have hnone : Follows (Traced.ofExcept y : Traced τ ε α) y 0 := .ofExcept y 0
  have hbind := hnone.bind hf
  rwa [Nat.zero_add] at hbind

theorem Follows.ite {c : Prop} [Decidable c] {x x' : Traced τ ε α} {y y' : Except ε α} {n : Nat}
    (h : c → Follows x y n) (h' : ¬ c → Follows x' y' n) :
    Follows (if c then x else x') (if c then y else y') n := by
  by_cases hc : c
  · rw [if_pos hc, if_pos hc]
    exact h hc
  · rw [if_neg hc, if_neg hc]
    exact h' hc

end Traced
