import Mathlib.Data.Set.Insert
import Mathlib.Data.List.Induction
import Mathlib.Data.List.Nodup
import Mathlib.Data.List.Perm.Subperm

/-!
# Backlog — items that wait for what they need

Items arrive one after the other, and an item can be taken only after all that it needs.  An item that comes too early
waits; when an arrival is taken, waiting items are looked at again.  In the backlog here an item that was looked at is
not kept, whether it could be taken or not.  The result below says for which orders of arrival everything is taken.
-/

namespace Backlog

variable {α : Type} (Needs : α → α → Prop)

/-! ## Complete items -/

/-- An item has arrived, and so has all that it needs, directly or not. -/
inductive Complete (arrived : Set α) : α → Prop where
  | intro {a : α} : a ∈ arrived → (∀ b, Needs a b → Complete arrived b) → Complete arrived a

variable {Needs}

theorem Complete.mem {arrived : Set α} {a : α} (h : Complete Needs arrived a) : a ∈ arrived := by
  cases h with
  | intro hmem _ => exact hmem

theorem Complete.mono {arrived arrived' : Set α} (hsub : arrived ⊆ arrived') {a : α} (h : Complete Needs arrived a) :
    Complete Needs arrived' a := by
  induction h with
  | intro hmem _ ih => exact .intro (hsub hmem) ih

/-- When everything needed has arrived, and nothing needs itself, everything is complete. -/
theorem complete_of_rank {arrived : Set α} (hneeds : ∀ a ∈ arrived, ∀ b, Needs a b → b ∈ arrived) (rank : α → Nat)
    (hrank : ∀ a ∈ arrived, ∀ b, Needs a b → rank b < rank a) : ∀ a ∈ arrived, Complete Needs arrived a := by
  suffices hall : ∀ n, ∀ a ∈ arrived, rank a < n → Complete Needs arrived a from
    fun a ha => hall (rank a + 1) a ha (Nat.lt_succ_self _)
  intro n
  induction n with
  | zero => exact fun _ _ hlt => absurd hlt (Nat.not_lt_zero _)
  | succ n ih =>
    intro a ha hlt
    refine .intro ha fun b hb => ih b (hneeds a ha b hb) ?_
    exact lt_of_lt_of_le (hrank a ha b hb) (Nat.lt_succ_iff.1 hlt)

/-! ## The backlog -/

/-- What has been taken, and what waits. -/
structure State (α : Type) where
  held : Set α
  waiting : Set α

variable (Needs)

/-- What is taken when `x` arrives and can be taken. -/
inductive Released (s : State α) (x : α) : α → Prop where
  | arrival : Released s x x
  | waiting {a : α} : a ∈ s.waiting → (∀ b, Needs a b → b ∉ s.held → Released s x b) → Released s x a

open Classical in
/-- An arrival.  What waited for something that is released now is not kept. -/
noncomputable def State.arrive (s : State α) (x : α) : State α :=
  if ∀ b, Needs x b → b ∈ s.held then
    { held := s.held ∪ {a | Released Needs s x a}
      waiting := {a | a ∈ s.waiting ∧ ¬Released Needs s x a ∧ ∀ b, Needs a b → ¬Released Needs s x b} }
  else { s with waiting := insert x s.waiting }

noncomputable def run (l : List α) : State α :=
  l.foldl (State.arrive Needs) ⟨∅, ∅⟩

/-- The arrival of `x` after those of `front` does not complete something that an item of `front` needs, unless it
completes that item too. -/
def Unsplit (front : List α) (x : α) : Prop :=
  ∀ a ∈ front, ∀ b, Needs a b → Complete Needs {c | c ∈ front ++ [x]} b → ¬Complete Needs {c | c ∈ front} b →
    Complete Needs {c | c ∈ front ++ [x]} a

variable {Needs}

theorem arrive_of_needs {s : State α} {x : α} (h : ∀ b, Needs x b → b ∈ s.held) :
    s.arrive Needs x = { held := s.held ∪ {a | Released Needs s x a}
                         waiting := {a | a ∈ s.waiting ∧ ¬Released Needs s x a ∧
                           ∀ b, Needs a b → ¬Released Needs s x b} } :=
  if_pos h

theorem arrive_of_missing {s : State α} {x b : α} (hneeds : Needs x b) (hb : b ∉ s.held) :
    s.arrive Needs x = { s with waiting := insert x s.waiting } :=
  if_neg fun h => hb (h b hneeds)

theorem Released.mem {s : State α} {x a : α} (h : Released Needs s x a) : a = x ∨ a ∈ s.waiting := by
  cases h with
  | arrival => exact .inl rfl
  | waiting hmem _ => exact .inr hmem

/-! ## Nothing lost so far -/

/-- All that is complete has been taken, and the rest waits. -/
structure Good (Needs : α → α → Prop) (front : List α) (s : State α) : Prop where
  held : ∀ a, a ∈ s.held ↔ Complete Needs {c | c ∈ front} a
  waiting : ∀ a, a ∈ s.waiting ↔ a ∈ front ∧ ¬Complete Needs {c | c ∈ front} a

variable {front : List α} {s : State α} {x : α}

theorem subset_concat (front : List α) (x : α) : {c | c ∈ front} ⊆ {c | c ∈ front ++ [x]} :=
  fun _ h => List.mem_append_left _ h

/-- What an arrival releases is what it completes. -/
theorem Good.complete_iff (h : Good Needs front s) (hneeds : ∀ b, Needs x b → b ∈ s.held) (a : α) :
    Complete Needs {c | c ∈ front ++ [x]} a ↔ a ∈ s.held ∨ Released Needs s x a := by
  constructor
  · intro hcomplete
    induction hcomplete with
    | @intro a hmem _ ih =>
      rcases List.mem_append.1 hmem with hin | hin
      · by_cases hheld : a ∈ s.held
        · exact .inl hheld
        · have hwaiting : a ∈ s.waiting := (h.waiting a).2 ⟨hin, mt (h.held a).2 hheld⟩
          exact .inr (.waiting hwaiting fun b hb hnot => (ih b hb).resolve_left hnot)
      · rw [List.mem_singleton] at hin
        subst hin
        exact .inr .arrival
  · rintro (hheld | hreleased)
    · exact ((h.held a).1 hheld).mono (subset_concat front x)
    · induction hreleased with
      | arrival =>
        refine .intro (List.mem_append_right _ (List.mem_singleton_self x)) fun b hb => ?_
        exact ((h.held b).1 (hneeds b hb)).mono (subset_concat front x)
      | @waiting a hmem _ ih =>
        refine .intro (List.mem_append_left _ ((h.waiting a).1 hmem).1) fun b hb => ?_
        by_cases hheld : b ∈ s.held
        · exact ((h.held b).1 hheld).mono (subset_concat front x)
        · exact ih b hb hheld

/-- An arrival that waits completes nothing. -/
theorem Good.complete_iff_of_missing (h : Good Needs front s) {b : α} (hneeds : Needs x b) (hb : b ∉ s.held) (a : α) :
    Complete Needs {c | c ∈ front ++ [x]} a ↔ Complete Needs {c | c ∈ front} a := by
  constructor
  · intro hcomplete
    induction hcomplete with
    | @intro a hmem _ ih =>
      rcases List.mem_append.1 hmem with hin | hin
      · exact .intro hin ih
      · rw [List.mem_singleton] at hin
        subst hin
        exact absurd ((h.held b).2 (ih b hneeds)) hb
  · exact Complete.mono (subset_concat front x)

/-- What is released had not been complete. -/
theorem Good.not_complete_of_released (h : Good Needs front s) (hfresh : x ∉ front) {a : α}
    (hreleased : Released Needs s x a) : ¬Complete Needs {c | c ∈ front} a := by
  rcases hreleased.mem with rfl | hwaiting
  · exact fun hcomplete => hfresh hcomplete.mem
  · exact ((h.waiting a).1 hwaiting).2

theorem Good.arrive (h : Good Needs front s) (hfresh : x ∉ front) (hunsplit : Unsplit Needs front x) :
    Good Needs (front ++ [x]) (s.arrive Needs x) := by
  by_cases hneeds : ∀ b, Needs x b → b ∈ s.held
  · have hiff := h.complete_iff hneeds
    rw [arrive_of_needs hneeds]
    refine ⟨fun a => (hiff a).symm, fun a => ?_⟩
    rw [hiff, not_or]
    constructor
    · rintro ⟨hwaiting, hnot, -⟩
      rcases (h.waiting a).1 hwaiting with ⟨hin, hincomplete⟩
      exact ⟨List.mem_append_left _ hin, mt (h.held a).1 hincomplete, hnot⟩
    · rintro ⟨hin, hheld, hnot⟩
      have hfront : a ∈ front := by
        rcases List.mem_append.1 hin with hin | hin
        · exact hin
        · rw [List.mem_singleton] at hin
          subst hin
          exact absurd .arrival hnot
      refine ⟨(h.waiting a).2 ⟨hfront, mt (h.held a).2 hheld⟩, hnot, fun b hb hreleased => ?_⟩
      -- If something that it needs were released, it would be as well.
      have hcomplete := hunsplit a hfront b hb ((hiff b).2 (.inr hreleased)) (h.not_complete_of_released hfresh hreleased)
      rcases (hiff a).1 hcomplete with hheld' | hreleased'
      · exact hheld hheld'
      · exact hnot hreleased'
  · simp only [not_forall] at hneeds
    rcases hneeds with ⟨b, hb, hnot⟩
    have hiff := h.complete_iff_of_missing hb hnot
    rw [arrive_of_missing hb hnot]
    refine ⟨fun a => by rw [hiff]; exact h.held a, fun a => ?_⟩
    rw [hiff, List.mem_append, List.mem_singleton]
    constructor
    · rintro (rfl | hwaiting)
      · exact ⟨.inr rfl, fun hcomplete => hfresh hcomplete.mem⟩
      · rcases (h.waiting a).1 hwaiting with ⟨hin, hincomplete⟩
        exact ⟨.inl hin, hincomplete⟩
    · rintro ⟨hin | rfl, hincomplete⟩
      · exact .inr ((h.waiting a).2 ⟨hin, hincomplete⟩)
      · exact .inl rfl

/-! ## What is lost stays lost -/

/-- An item is neither taken nor kept. -/
def Lost (s : State α) (a : α) : Prop :=
  a ∉ s.held ∧ a ∉ s.waiting

theorem Lost.arrive {a : α} (h : Lost s a) (hne : a ≠ x) : Lost (s.arrive Needs x) a := by
  by_cases hneeds : ∀ b, Needs x b → b ∈ s.held
  · rw [arrive_of_needs hneeds]
    refine ⟨?_, fun hwaiting => h.2 hwaiting.1⟩
    rintro (hheld | hreleased)
    · exact h.1 hheld
    · exact hreleased.mem.elim hne h.2
  · simp only [not_forall] at hneeds
    rcases hneeds with ⟨b, hb, hnot⟩
    rw [arrive_of_missing hb hnot]
    exact ⟨h.1, fun hin => hin.elim hne h.2⟩

theorem Lost.foldl {a : α} (l : List α) : ∀ {s : State α}, Lost s a → a ∉ l → Lost (l.foldl (State.arrive Needs) s) a := by
  induction l with
  | nil => exact fun h _ => h
  | cons x l ih =>
    intro s h hnot
    rw [List.mem_cons, not_or] at hnot
    exact ih (h.arrive hnot.1) hnot.2

/-- An arrival that splits loses an item. -/
theorem Good.lost (h : Good Needs front s) (hsplit : ¬Unsplit Needs front x) :
    ∃ a ∈ front, Lost (s.arrive Needs x) a := by
  simp only [Unsplit, not_forall] at hsplit
  rcases hsplit with ⟨a, hin, b, hb, hcomplete, hbefore, hincomplete⟩
  have hneeds : ∀ c, Needs x c → c ∈ s.held := by
    by_contra hnot
    simp only [not_forall] at hnot
    rcases hnot with ⟨c, hc, hmissing⟩
    exact hbefore ((h.complete_iff_of_missing hc hmissing b).1 hcomplete)
  have hiff := h.complete_iff hneeds
  have hreleased : Released Needs s x b := ((hiff b).1 hcomplete).resolve_left (mt (h.held b).1 hbefore)
  rw [arrive_of_needs hneeds]
  exact ⟨a, hin, mt (hiff a).2 hincomplete, fun hwaiting => hwaiting.2.2 b hb hreleased⟩

/-! ## Every order -/

/-- Everything is taken at the end exactly when no arrival splits. -/
theorem held_foldl_iff {l : List α} (hnodup : l.Nodup) (hneeds : ∀ a ∈ l, ∀ b, Needs a b → b ∈ l) (rank : α → Nat)
    (hrank : ∀ a ∈ l, ∀ b, Needs a b → rank b < rank a) (rest : List α) :
    ∀ {front : List α} {s : State α}, l = front ++ rest → Good Needs front s →
      ((∀ a, a ∈ (rest.foldl (State.arrive Needs) s).held ↔ a ∈ l) ↔
        ∀ front' x back, rest = front' ++ x :: back → Unsplit Needs (front ++ front') x) := by
  induction rest with
  | nil =>
    intro front s hl h
    rw [List.append_nil] at hl
    subst hl
    have hall : ∀ a, a ∈ s.held ↔ a ∈ l := fun a => by
      rw [h.held]
      exact ⟨Complete.mem, complete_of_rank hneeds rank hrank a⟩
    refine ⟨fun _ front' x back hnil => ?_, fun _ => hall⟩
    exact absurd hnil.symm (List.append_ne_nil_of_right_ne_nil _ (List.cons_ne_nil x back))
  | cons x rest ih =>
    intro front s hl h
    have hl' : l = (front ++ [x]) ++ rest := by rw [hl, List.append_assoc, List.singleton_append]
    have hfresh : x ∉ front := by
      rw [hl] at hnodup
      exact fun hin => (List.nodup_append.1 hnodup).2.2 x hin x (List.mem_cons_self ..) rfl
    by_cases hunsplit : Unsplit Needs front x
    · rw [List.foldl_cons, ih hl' (h.arrive hfresh hunsplit)]
      constructor
      · intro hrest front' y back heq
        cases front' with
        | nil =>
          obtain ⟨rfl, -⟩ := List.cons.inj heq
          rwa [List.append_nil]
        | cons z front' =>
          have hparts := List.cons.inj heq
          have hlater := hrest front' y back hparts.2
          rw [← hparts.1]
          rwa [List.append_assoc, List.singleton_append] at hlater
      · intro hrest front' y back heq
        have hlater := hrest (x :: front') y back (by rw [heq, List.cons_append])
        rwa [List.append_assoc, List.singleton_append]
    · rcases h.lost hunsplit with ⟨a, hin, hlost⟩
      have hnot : a ∉ rest := by
        rw [hl] at hnodup
        exact fun hrest => (List.nodup_append.1 hnodup).2.2 a hin a (List.mem_cons_of_mem _ hrest) rfl
      constructor
      · intro hall
        have hheld := (hall a).2 (by rw [hl]; exact List.mem_append_left _ hin)
        exact absurd hheld (hlost.foldl rest hnot).1
      · intro hrest
        have hhere := hrest [] x rest rfl
        rw [List.append_nil] at hhere
        exact absurd hhere hunsplit

theorem good_start : Good Needs ([] : List α) ⟨∅, ∅⟩ :=
  ⟨fun _ => ⟨fun h => h.elim, fun h => absurd h.mem List.not_mem_nil⟩,
    fun _ => ⟨fun h => h.elim, fun h => absurd h.1 List.not_mem_nil⟩⟩

theorem held_run_iff {l : List α} (hnodup : l.Nodup) (hneeds : ∀ a ∈ l, ∀ b, Needs a b → b ∈ l) (rank : α → Nat)
    (hrank : ∀ a ∈ l, ∀ b, Needs a b → rank b < rank a) :
    (∀ a, a ∈ (run Needs l).held ↔ a ∈ l) ↔ ∀ front x back, l = front ++ x :: back → Unsplit Needs front x :=
  held_foldl_iff hnodup hneeds rank hrank l rfl good_start

/-! ## A single pass -/

section Pass

open Classical in
/-- An item that comes before something it needs is passed over for good. -/
noncomputable def passStep (Needs : α → α → Prop) (held : List α) (x : α) : List α :=
  if ∀ b, Needs x b → b ∈ held then held ++ [x] else held

noncomputable def pass (Needs : α → α → Prop) (l : List α) : List α :=
  l.foldl (passStep Needs) []

theorem pass_concat (l : List α) (x : α) : pass Needs (l ++ [x]) = passStep Needs (pass Needs l) x := by
  rw [pass, List.foldl_append]
  rfl

theorem pass_sublist (l : List α) : (pass Needs l).Sublist l := by
  induction l using List.reverseRecOn with
  | nil => exact List.Sublist.refl _
  | append_singleton l x ih =>
    rw [pass_concat, passStep]
    split_ifs
    · exact ih.append_right [x]
    · exact ih.trans (List.sublist_append_left l [x])

/-- Nothing is passed over exactly when every item comes after all that it needs. -/
theorem pass_eq_self_iff (l : List α) :
    pass Needs l = l ↔ ∀ front x back, l = front ++ x :: back → ∀ b, Needs x b → b ∈ front := by
  induction l using List.reverseRecOn with
  | nil =>
    refine ⟨fun _ front x back hnil => ?_, fun _ => rfl⟩
    exact absurd hnil.symm (List.append_ne_nil_of_right_ne_nil _ (List.cons_ne_nil x back))
  | append_singleton l x ih =>
    have hlast : pass Needs (l ++ [x]) = l ++ [x] ↔ pass Needs l = l ∧ ∀ b, Needs x b → b ∈ l := by
      rw [pass_concat, passStep]
      split_ifs with hready
      · refine ⟨fun h => ?_, fun h => by rw [h.1]⟩
        have hfront := List.append_cancel_right h
        exact ⟨hfront, fun b hb => hfront ▸ hready b hb⟩
      · refine ⟨fun h => ?_, fun h => absurd (by rw [h.1]; exact h.2) hready⟩
        have hle : (pass Needs l).length ≤ l.length := (pass_sublist l).length_le
        rw [h, List.length_append, List.length_singleton] at hle
        omega
    rw [hlast, ih]
    constructor
    · rintro ⟨hbefore, hneeds⟩ front y back heq
      rcases List.eq_nil_or_concat' back with rfl | ⟨back, z, rfl⟩
      · obtain ⟨rfl, hxy⟩ := List.append_inj' heq rfl
        exact List.singleton_inj.1 hxy ▸ hneeds
      · rw [← List.cons_append, ← List.append_assoc] at heq
        exact hbefore front y back (List.append_inj' heq rfl).1
    · intro h
      refine ⟨fun front y back heq => h front y (back ++ [x]) ?_, h l x [] rfl⟩
      rw [heq, List.append_assoc, List.cons_append]

theorem mem_pass_iff {l : List α} (hnodup : l.Nodup) : (∀ x ∈ l, x ∈ pass Needs l) ↔ pass Needs l = l := by
  refine ⟨fun h => ?_, fun h x hx => h.symm ▸ hx⟩
  exact (pass_sublist l).eq_of_length_le (hnodup.subperm h).length_le

/-- In increasing order, what an item needs must have smaller keys. -/
theorem pass_eq_self_iff_of_sorted {key : α → Nat} {l : List α} (hsorted : l.Pairwise fun a b => key a < key b)
    (hin : ∀ a ∈ l, ∀ b, Needs a b → b ∈ l) :
    pass Needs l = l ↔ ∀ a ∈ l, ∀ b, Needs a b → key b < key a := by
  rw [pass_eq_self_iff]
  constructor
  · intro h a ha b hb
    rcases List.append_of_mem ha with ⟨front, back, rfl⟩
    exact (List.pairwise_append.1 hsorted).2.2 b (h front a back rfl b hb) a List.mem_cons_self
  · rintro h front x back rfl b hb
    have hx : x ∈ front ++ x :: back := List.mem_append_right _ List.mem_cons_self
    have hlt := h x hx b hb
    rcases List.mem_append.1 (hin x hx b hb) with hfront | hback
    · exact hfront
    · rcases List.mem_cons.1 hback with rfl | hback
      · exact absurd hlt (Nat.lt_irrefl _)
      · have hgt := List.rel_of_pairwise_cons (List.pairwise_append.1 hsorted).2.1 hback
        exact absurd hlt (Nat.lt_asymm hgt)

end Pass

end Backlog
