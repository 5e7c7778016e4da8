import Mathlib.Data.List.Basic

/-!
# Sequences of actions

A state that is changed by one action after the other, and what holds at every point where the sequence may
be cut.
-/

namespace Journal

variable {σ α : Type*} (apply : σ → α → σ)

def run (s : σ) (acts : List α) : σ :=
  acts.foldl apply s

@[simp] theorem run_nil (s : σ) : run apply s [] = s :=
  rfl

@[simp] theorem run_cons (s : σ) (a : α) (acts : List α) :
    run apply s (a :: acts) = run apply (apply s a) acts :=
  rfl

@[simp] theorem run_append (s : σ) (xs ys : List α) :
    run apply s (xs ++ ys) = run apply (run apply s xs) ys :=
  List.foldl_append

/-- The property holds before, between and after the actions. -/
def Always (P : σ → Prop) : σ → List α → Prop
  | s, [] => P s
  | s, a :: acts => P s ∧ Always P (apply s a) acts

variable {apply} {P Q : σ → Prop}

theorem Always.last {s : σ} {acts : List α} (h : Always apply P s acts) : P (run apply s acts) := by
  induction acts generalizing s with
  | nil => exact h
  | cons a acts ih => exact ih h.2

theorem Always.append {s : σ} {xs ys : List α} (h : Always apply P s xs)
    (h' : Always apply P (run apply s xs) ys) : Always apply P s (xs ++ ys) := by
  induction xs generalizing s with
  | nil => exact h'
  | cons a xs ih => exact ⟨h.1, ih h.2 h'⟩

theorem Always.imp {s : σ} {acts : List α} (h : Always apply P s acts) (hPQ : ∀ t, P t → Q t) :
    Always apply Q s acts := by
  induction acts generalizing s with
  | nil => exact hPQ s h
  | cons a acts ih => exact ⟨hPQ s h.1, ih h.2⟩

/-- Every action keeps the property. -/
theorem always_of_step {s : σ} {acts : List α} (hs : P s)
    (hstep : ∀ t, ∀ a ∈ acts, P t → P (apply t a)) : Always apply P s acts := by
  induction acts generalizing s with
  | nil => exact hs
  | cons a acts ih =>
    have hnext : P (apply s a) := hstep s a List.mem_cons_self hs
    exact ⟨hs, ih hnext fun t b hb => hstep t b (List.mem_cons_of_mem a hb)⟩

end Journal
