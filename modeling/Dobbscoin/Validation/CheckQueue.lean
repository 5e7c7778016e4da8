import Mathlib.Algebra.BigOperators.Group.Multiset.Basic

/-!
# The script check queue

`checkqueue.h`: a queue of checks that a master fills, and that the master and any number of worker threads
empty.  A step is one critical section of one thread, from the moment it has the mutex until it lets it go,
in `cond.wait` or at the end of the block; what a thread does without the mutex touches nothing of the
others.  A condition variable may wake a thread at any time.
-/

namespace Dobbscoin

variable {T : Type}

/-! ## The queue -/

/-- The back of the `std::vector` is the end of the list. -/
structure CCheckQueue (T : Type) where
  queue : List T := []
  nIdle : Int := 0
  nTotal : Int := 0
  fAllOk : Bool := true
  nTodo : Nat := 0
  fQuit : Bool := false
  nBatchSize : Nat

/-- Where a thread is in `Loop` when it does not have the mutex: not in it, in `cond.wait`, or at the
execution of a batch. -/
inductive Place (T : Type) where
  | outside
  | waiting
  | working (vChecks : List T) (fOk : Bool)

/-- How a critical section of `Loop` ends. -/
inductive Exit (T : Type) where
  | wait
  | work (vChecks : List T) (fOk : Bool)
  | done (fRet : Bool)

def Exit.place : Exit T → Place T
  | .wait => .waiting
  | .work vChecks fOk => .working vChecks fOk
  | .done _ => .outside

/-- The execution of a batch; `outcome` is what the checks return. -/
def runChecks (outcome : T → Bool) (fOk : Bool) (vChecks : List T) : Bool :=
  vChecks.foldl (fun fOk check => if fOk then outcome check else fOk) fOk

namespace CCheckQueue

/-- From the mutex to the loop over `queue.empty()`: the start of `Loop`, the return of `cond.wait`, or the
clean-up of a batch. -/
def enter (outcome : T → Bool) (q : CCheckQueue T) : Place T → CCheckQueue T
  | .outside => { q with nTotal := q.nTotal + 1 }
  | .waiting => { q with nIdle := q.nIdle - 1 }
  | .working vChecks fOk =>
    { q with
      fAllOk := q.fAllOk && runChecks outcome fOk vChecks
      nTodo := q.nTodo - vChecks.length }

/-- How many work units to process now. -/
def nNow (q : CCheckQueue T) : Nat :=
  max 1 (min q.nBatchSize (q.queue.length / (q.nTotal + q.nIdle + 1).toNat))

/-- From the loop over `queue.empty()` to the end of the critical section. -/
def proceed (q : CCheckQueue T) (fMaster : Bool) : CCheckQueue T × Exit T :=
  if q.queue.isEmpty then
    if (fMaster || q.fQuit) ∧ q.nTodo = 0 then
      -- The master resets the status for new work later.
      ({ q with nTotal := q.nTotal - 1, fAllOk := fMaster || q.fAllOk }, .done q.fAllOk)
    else ({ q with nIdle := q.nIdle + 1 }, .wait)
  else
    ({ q with queue := q.queue.take (q.queue.length - q.nNow) },
      .work (q.queue.reverse.take q.nNow) q.fAllOk)

/-- A critical section of `Loop`. -/
def critical (outcome : T → Bool) (q : CCheckQueue T) (fMaster : Bool) (p : Place T) :
    CCheckQueue T × Exit T :=
  (q.enter outcome p).proceed fMaster

def add (q : CCheckQueue T) (vChecks : List T) : CCheckQueue T :=
  { q with queue := q.queue ++ vChecks, nTodo := q.nTodo + vChecks.length }

def isIdle (q : CCheckQueue T) : Bool :=
  q.nTotal = q.nIdle ∧ q.nTodo = 0 ∧ q.fAllOk = true

end CCheckQueue

/-! ## The system -/

/-- The `CCheckQueueControl` of the master: there is none, it takes checks, or its `Wait` has returned. -/
inductive Control where
  | absent
  | open
  | waited (fRet : Bool)
  deriving DecidableEq

/-- The queue, the threads, and what has happened: the checks that were ever added and ever taken from the
queue, those that were added through the last control, and those of them that were executed or skipped. -/
structure CheckSystem (T : Type) where
  q : CCheckQueue T
  workers : List (Place T)
  master : Place T := .outside
  control : Control := .absent
  assertFailed : Bool := false
  added : Multiset T := 0
  taken : Multiset T := 0
  current : Multiset T := 0
  finished : Multiset T := 0

/-- What a thread has taken from the queue and not cleaned up. -/
def Place.held : Place T → Multiset T
  | .working vChecks _ => vChecks
  | _ => 0

def Exit.taken : Exit T → Multiset T
  | .work vChecks _ => vChecks
  | _ => 0

namespace CheckSystem

/-- A number of workers that have not started. -/
def start (nBatchSize workers : Nat) : CheckSystem T where
  q := { nBatchSize }
  workers := List.replicate workers .outside

/-- The master calls `Wait` itself, or the destructor of the control does. -/
inductive Step (outcome : T → Bool) : CheckSystem T → CheckSystem T → Prop
  | worker {s : CheckSystem T} {before after : List (Place T)} {p : Place T}
      (hp : s.workers = before ++ p :: after) :
      Step outcome s { s with
        q := (s.q.critical outcome false p).1
        workers := before ++ (s.q.critical outcome false p).2.place :: after
        taken := (s.q.critical outcome false p).2.taken + s.taken
        finished := p.held + s.finished }
  | construct {s : CheckSystem T} (hs : s.control = .absent) :
      Step outcome s { s with
        control := .open
        assertFailed := s.assertFailed || !s.q.isIdle
        current := 0
        finished := 0 }
  | add {s : CheckSystem T} (vChecks : List T) (hs : s.control = .open) (hm : s.master = .outside) :
      Step outcome s { s with
        q := s.q.add vChecks
        added := vChecks + s.added
        current := vChecks + s.current }
  | wait {s : CheckSystem T} (hs : s.control = .open) :
      Step outcome s { s with
        q := (s.q.critical outcome true s.master).1
        master := (s.q.critical outcome true s.master).2.place
        control :=
          match (s.q.critical outcome true s.master).2 with
          | .done fRet => .waited fRet
          | _ => .open
        taken := (s.q.critical outcome true s.master).2.taken + s.taken
        finished := s.master.held + s.finished }
  | destroy {s : CheckSystem T} {fRet : Bool} (hs : s.control = .waited fRet) :
      Step outcome s { s with control := .absent }

/-- All threads. -/
def places (s : CheckSystem T) : Multiset (Place T) :=
  s.master ::ₘ s.workers

end CheckSystem

/-! ## Counters and verdicts -/

namespace Place

def loops : Place T → Int
  | .outside => 0
  | _ => 1

def idles : Place T → Int
  | .waiting => 1
  | _ => 0

/-- A thread that executes a batch executes something. -/
def Busy : Place T → Prop
  | .working vChecks _ => vChecks ≠ []
  | _ => True

theorem idles_eq_loops {p : Place T} (hbusy : p.Busy) (hheld : p.held = 0) : p.idles = p.loops := by
  cases p with
  | outside => rfl
  | waiting => rfl
  | working vChecks fOk => exact absurd ((Multiset.coe_eq_zero _).1 hheld) hbusy

end Place

theorem runChecks_eq_true {outcome : T → Bool} {vChecks : List T} {fOk : Bool} :
    runChecks outcome fOk vChecks = true ↔ fOk = true ∧ ∀ c ∈ vChecks, outcome c = true := by
  unfold runChecks
  induction vChecks generalizing fOk with
  | nil => simp
  | cons check vChecks ih =>
    rw [List.foldl_cons, ih, List.forall_mem_cons]
    cases fOk with
    | false => simp
    | true => simp

/-- What the threads at these places make of the counters, and of the verdict on the checks that were added:
`finished` of them are done with. -/
structure Sound (outcome : T → Bool) (q : CCheckQueue T) (places : Multiset (Place T))
    (current finished : Multiset T) : Prop where
  total : q.nTotal = (places.map Place.loops).sum
  idle : q.nIdle = (places.map Place.idles).sum
  todo : q.nTodo = q.queue.length + ((places.map Place.held).sum).card
  running : q.fQuit = false
  split : current = finished + (places.map Place.held).sum + q.queue
  good : q.fAllOk = true → ∀ c ∈ finished, outcome c = true
  bad : q.fAllOk = false → ∃ c ∈ current, outcome c = false
  stale : ∀ vChecks, Place.working vChecks false ∈ places → ∃ c ∈ current, outcome c = false

section

variable {outcome : T → Bool} {q : CCheckQueue T} {p : Place T} {rest : Multiset (Place T)}
  {current finished : Multiset T}

/-- A thread that has the mutex and nothing in hand. -/
def Place.active : Place T :=
  .working [] true

theorem Sound.enter (h : Sound outcome q (p ::ₘ rest) current finished) :
    Sound outcome (q.enter outcome p) (Place.active ::ₘ rest) current (p.held + finished) := by
  have htotal := h.total
  have hidle := h.idle
  have htodo := h.todo
  have hsplit := h.split
  have hstale : ∀ vChecks, Place.working vChecks false ∈ Place.active ::ₘ rest →
      ∃ c ∈ current, outcome c = false := by
    intro vChecks hmem
    rcases Multiset.mem_cons.1 hmem with heq | hmem
    · cases heq
    · exact h.stale vChecks (Multiset.mem_cons_of_mem hmem)
  rw [Multiset.map_cons, Multiset.sum_cons] at htotal hidle htodo hsplit
  cases p with
  | outside =>
    refine ⟨?_, ?_, ?_, h.running, ?_, ?_, h.bad, hstale⟩
    · rw [Multiset.map_cons, Multiset.sum_cons, CCheckQueue.enter, htotal]
      simp only [Place.loops, Place.active]
      omega
    · simpa [CCheckQueue.enter, Place.idles, Place.active] using hidle
    · simpa [CCheckQueue.enter, Place.held, Place.active] using htodo
    · simpa [CCheckQueue.enter, Place.held, Place.active] using hsplit
    · simpa [CCheckQueue.enter, Place.held] using h.good
  | waiting =>
    refine ⟨?_, ?_, ?_, h.running, ?_, ?_, h.bad, hstale⟩
    · simpa [CCheckQueue.enter, Place.loops, Place.active] using htotal
    · rw [Multiset.map_cons, Multiset.sum_cons, CCheckQueue.enter, hidle]
      simp only [Place.idles, Place.active]
      omega
    · simpa [CCheckQueue.enter, Place.held, Place.active] using htodo
    · simpa [CCheckQueue.enter, Place.held, Place.active] using hsplit
    · simpa [CCheckQueue.enter, Place.held] using h.good
  | working vChecks fOk =>
    have hgood : (q.fAllOk && runChecks outcome fOk vChecks) = true → ∀ c ∈ (vChecks : Multiset T) + finished,
        outcome c = true := by
      intro hall c hc
      rw [Bool.and_eq_true, runChecks_eq_true] at hall
      rcases Multiset.mem_add.1 hc with hc | hc
      · exact hall.2.2 c hc
      · exact h.good hall.1 c hc
    have hbad : (q.fAllOk && runChecks outcome fOk vChecks) = false → ∃ c ∈ current, outcome c = false := by
      intro hall
      rw [Bool.and_eq_false_iff] at hall
      rcases hall with hall | hrun
      · exact h.bad hall
      cases fOk with
      | false => exact h.stale vChecks (Multiset.mem_cons_self _ _)
      | true =>
        by_contra hnone
        rw [← Bool.not_eq_true, runChecks_eq_true] at hrun
        apply hrun
        refine ⟨rfl, fun c hc => ?_⟩
        by_contra hc'
        refine hnone ⟨c, ?_, Bool.eq_false_iff.2 hc'⟩
        rw [hsplit]
        simp [Place.held, hc]
    refine ⟨?_, ?_, ?_, h.running, ?_, hgood, hbad, hstale⟩
    · simpa [CCheckQueue.enter, Place.loops, Place.active] using htotal
    · simpa [CCheckQueue.enter, Place.idles, Place.active] using hidle
    · simp only [Place.held, Multiset.card_add, Multiset.coe_card] at htodo
      simp only [CCheckQueue.enter, Place.held, Place.active, Multiset.map_cons, Multiset.sum_cons,
        Multiset.card_add, Multiset.coe_card, List.length_nil]
      omega
    · rw [hsplit]
      simp only [CCheckQueue.enter, Place.held, Place.active, Multiset.map_cons, Multiset.sum_cons,
        Multiset.coe_nil, zero_add]
      ac_rfl

/-- What is taken from the back and what is left are the queue. -/
theorem queue_split (queue : List T) (n : Nat) :
    (queue : Multiset T) = queue.reverse.take n + queue.take (queue.length - n) := by
  rw [List.take_reverse, Multiset.coe_reverse, add_comm, Multiset.coe_add, List.take_append_drop]

theorem CCheckQueue.nNow_pos (q : CCheckQueue T) : 0 < q.nNow :=
  lt_of_lt_of_le Nat.one_pos (le_max_left _ _)

/-- A thread that waits or takes a batch. -/
theorem Sound.proceed (h : Sound outcome q (Place.active ::ₘ rest) current finished) {fMaster : Bool}
    (hdone : ∀ fRet, (q.proceed fMaster).2 ≠ .done fRet) :
    Sound outcome (q.proceed fMaster).1 ((q.proceed fMaster).2.place ::ₘ rest) current finished ∧
      (q.proceed fMaster).2.place.Busy ∧
      (q.queue : Multiset T) = (q.proceed fMaster).2.taken + (q.proceed fMaster).1.queue := by
  have htotal := h.total
  have hidle := h.idle
  have htodo := h.todo
  have hsplit := h.split
  rw [Multiset.map_cons, Multiset.sum_cons] at htotal hidle htodo hsplit
  have hstale : ∀ vChecks, Place.working vChecks false ∈ rest → ∃ c ∈ current, outcome c = false :=
    fun vChecks hmem => h.stale vChecks (Multiset.mem_cons_of_mem hmem)
  unfold CCheckQueue.proceed at hdone ⊢
  split_ifs at hdone ⊢ with hempty hquit
  · exact absurd rfl (hdone _)
  · refine ⟨⟨?_, ?_, ?_, h.running, ?_, h.good, h.bad, ?_⟩, trivial, (zero_add _).symm⟩
    · simpa [Exit.place, Place.loops, Place.active] using htotal
    · rw [Multiset.map_cons, Multiset.sum_cons]
      simp only [Exit.place, Place.idles, Place.active] at hidle ⊢
      omega
    · simpa [Exit.place, Place.held, Place.active] using htodo
    · simpa [Exit.place, Place.held, Place.active] using hsplit
    · intro vChecks hmem
      rcases Multiset.mem_cons.1 hmem with heq | hmem
      · cases heq
      · exact hstale vChecks hmem
  · have hqueue := queue_split q.queue q.nNow
    have hne : q.queue ≠ [] := fun heq => hempty (List.isEmpty_iff.2 heq)
    have hpos := List.length_pos_iff.2 hne
    have hnow := q.nNow_pos
    refine ⟨⟨?_, ?_, ?_, h.running, ?_, h.good, h.bad, ?_⟩, ?_, hqueue⟩
    · simpa [Exit.place, Place.loops, Place.active] using htotal
    · simpa [Exit.place, Place.idles, Place.active] using hidle
    · have hcard := congrArg Multiset.card hqueue
      simp only [Multiset.card_add, Multiset.coe_card] at hcard
      simp only [Exit.place, Place.held, Place.active, Multiset.map_cons, Multiset.sum_cons,
        Multiset.card_add, Multiset.coe_card, List.length_nil] at htodo ⊢
      omega
    · rw [hsplit, hqueue]
      simp only [Exit.place, Place.held, Place.active, Multiset.map_cons, Multiset.sum_cons,
        Multiset.coe_nil, zero_add]
      ac_rfl
    · intro vChecks hmem
      rcases Multiset.mem_cons.1 hmem with heq | hmem
      · obtain ⟨-, hfalse⟩ := Place.working.inj heq
        exact h.bad hfalse.symm
      · exact hstale vChecks hmem
    · intro hnil
      have hlen := congrArg List.length hnil
      rw [List.length_take, List.length_reverse, List.length_nil] at hlen
      omega

/-- A thread holds nothing when all together hold nothing. -/
theorem held_eq_zero {places : Multiset (Place T)} (hheld : ((places.map Place.held).sum).card = 0)
    {p : Place T} (hp : p ∈ places) : p.held = 0 := by
  rcases Multiset.exists_cons_of_mem hp with ⟨rest, rfl⟩
  rw [Multiset.map_cons, Multiset.sum_cons, Multiset.card_add] at hheld
  exact Multiset.card_eq_zero.1 (Nat.eq_zero_of_add_eq_zero_right hheld)

/-- Threads that hold nothing are idle, or outside. -/
theorem sum_idles_eq {places : Multiset (Place T)} (hbusy : ∀ p ∈ places, p.Busy)
    (hheld : ((places.map Place.held).sum).card = 0) :
    (places.map Place.idles).sum = (places.map Place.loops).sum := by
  apply congrArg
  exact Multiset.map_congr rfl fun p hp => Place.idles_eq_loops (hbusy p hp) (held_eq_zero hheld hp)

/-- Nothing is left to do when no check of the current control is open. -/
theorem Sound.atRest (h : Sound outcome q rest 0 0) (hbusy : ∀ p ∈ rest, p.Busy) :
    q.queue = [] ∧ q.nTodo = 0 ∧ q.fAllOk = true ∧ q.isIdle = true := by
  have hsplit := congrArg Multiset.card h.split
  simp only [Multiset.card_add, Multiset.card_zero, Multiset.coe_card] at hsplit
  have hqueue : q.queue = [] := List.length_eq_zero_iff.1 (by omega)
  have htodo : q.nTodo = 0 := by
    rw [h.todo]
    omega
  have hok : q.fAllOk = true := by
    by_contra hbad
    rcases h.bad (Bool.eq_false_iff.2 hbad) with ⟨c, hc, -⟩
    exact Multiset.notMem_zero c hc
  have hidle : q.nTotal = q.nIdle := by
    rw [h.total, h.idle, sum_idles_eq hbusy (by omega)]
  refine ⟨hqueue, htodo, hok, ?_⟩
  simp only [CCheckQueue.isIdle, hidle, htodo, hok, and_self, decide_true]

/-- The end of `Wait`: nothing is left to do, and the verdict is on every check. -/
theorem Sound.done (h : Sound outcome q (Place.active ::ₘ rest) current finished)
    (hbusy : ∀ p ∈ rest, p.Busy) {fMaster fRet : Bool} (hdone : (q.proceed fMaster).2 = .done fRet) :
    fMaster = true ∧ Sound outcome (q.proceed fMaster).1 (Place.outside ::ₘ rest) 0 0 ∧
      (q.queue : Multiset T) = (q.proceed fMaster).1.queue ∧
      (fRet = true ↔ ∀ c ∈ current, outcome c = true) := by
  have htotal := h.total
  have hidle := h.idle
  have htodo := h.todo
  have hsplit := h.split
  rw [Multiset.map_cons, Multiset.sum_cons] at htotal hidle htodo hsplit
  unfold CCheckQueue.proceed at hdone ⊢
  split_ifs at hdone ⊢ with hempty hquit
  · have hqueue : q.queue = [] := List.isEmpty_iff.1 hempty
    have hmaster : fMaster = true := by simpa [h.running] using hquit.1
    have hret : q.fAllOk = fRet := Exit.done.inj hdone
    simp only [Place.held, Place.active, Multiset.coe_nil, zero_add] at htodo hsplit
    have hheld : ((rest.map Place.held).sum).card = 0 := by
      have hzero := hquit.2
      omega
    have hcurrent : current = finished := by
      rw [hsplit, hqueue, Multiset.card_eq_zero.1 hheld]
      simp
    refine ⟨hmaster, ⟨?_, ?_, ?_, h.running, ?_, ?_, ?_, ?_⟩, rfl, ?_⟩
    · rw [Multiset.map_cons, Multiset.sum_cons]
      simp only [Place.loops, Place.active] at htotal ⊢
      omega
    · simpa [Place.idles, Place.active] using hidle
    · simpa [Place.held] using htodo
    · rw [hqueue, Multiset.map_cons, Multiset.sum_cons, Multiset.card_eq_zero.1 hheld]
      rfl
    · exact fun _ c hc => absurd hc (Multiset.notMem_zero c)
    · intro hfalse
      rw [hmaster] at hfalse
      cases hfalse
    · intro vChecks hmem
      rcases Multiset.mem_cons.1 hmem with heq | hmem
      · cases heq
      · have hnone := held_eq_zero hheld hmem
        exact absurd ((Multiset.coe_eq_zero _).1 hnone) (hbusy _ hmem)
    · rw [← hret, hcurrent]
      constructor
      · exact h.good
      · intro hall
        by_contra hbad
        rcases h.bad (Bool.eq_false_iff.2 hbad) with ⟨c, hc, hfalse⟩
        rw [hcurrent] at hc
        rw [hall c hc] at hfalse
        cases hfalse

/-- A critical section that does not return. -/
theorem Sound.critical (h : Sound outcome q (p ::ₘ rest) current finished) {fMaster : Bool}
    (hdone : ∀ fRet, (q.critical outcome fMaster p).2 ≠ .done fRet) :
    Sound outcome (q.critical outcome fMaster p).1 ((q.critical outcome fMaster p).2.place ::ₘ rest) current
        (p.held + finished) ∧
      (q.critical outcome fMaster p).2.place.Busy ∧
      (q.queue : Multiset T) =
        (q.critical outcome fMaster p).2.taken + (q.critical outcome fMaster p).1.queue := by
  have hqueue : (q.enter outcome p).queue = q.queue := by cases p <;> rfl
  have hproceed := h.enter.proceed hdone
  rw [hqueue] at hproceed
  exact hproceed

/-- A critical section that returns. -/
theorem Sound.critical_done (h : Sound outcome q (p ::ₘ rest) current finished)
    (hbusy : ∀ p ∈ rest, p.Busy) {fMaster fRet : Bool}
    (hdone : (q.critical outcome fMaster p).2 = .done fRet) :
    fMaster = true ∧ Sound outcome (q.critical outcome fMaster p).1 (Place.outside ::ₘ rest) 0 0 ∧
      (q.queue : Multiset T) = (q.critical outcome fMaster p).1.queue ∧
      (fRet = true ↔ ∀ c ∈ current, outcome c = true) := by
  have hqueue : (q.enter outcome p).queue = q.queue := by cases p <;> rfl
  have hend := h.enter.done hbusy hdone
  rw [hqueue] at hend
  exact hend

end

/-! ## Runs -/

namespace CheckSystem

/-- The checks that the verdict is still open on. -/
def openChecks (s : CheckSystem T) : Multiset T :=
  if s.control = .open then s.current else 0

def doneChecks (s : CheckSystem T) : Multiset T :=
  if s.control = .open then s.finished else 0

structure Inv (outcome : T → Bool) (s : CheckSystem T) : Prop where
  sound : Sound outcome s.q s.places s.openChecks s.doneChecks
  busy : ∀ p ∈ s.places, p.Busy
  away : s.control ≠ .open → s.master = .outside
  taken : s.added = s.taken + s.q.queue
  asserted : s.assertFailed = false
  verdict : ∀ fRet, s.control = .waited fRet → (fRet = true ↔ ∀ c ∈ s.current, outcome c = true)

theorem inv_start (outcome : T → Bool) (nBatchSize workers : Nat) :
    (start nBatchSize workers).Inv outcome := by
  have hplaces : (start nBatchSize workers : CheckSystem T).places =
      Multiset.replicate (workers + 1) Place.outside := by
    rw [Multiset.replicate_succ]
    rfl
  have hout : ∀ p ∈ (start nBatchSize workers : CheckSystem T).places, p = .outside := by
    intro p hp
    rw [hplaces] at hp
    exact Multiset.eq_of_mem_replicate hp
  refine ⟨⟨?_, ?_, ?_, rfl, ?_, fun _ c hc => absurd hc (Multiset.notMem_zero c), ?_, ?_⟩, ?_,
    fun _ => rfl, rfl, rfl, ?_⟩
  · rw [hplaces]
    simp [start, Place.loops]
  · rw [hplaces]
    simp [start, Place.idles]
  · rw [hplaces]
    simp [start, Place.held]
  · rw [hplaces]
    simp [start, Place.held, openChecks, doneChecks]
  · intro h
    cases h
  · intro vChecks hmem
    cases hout _ hmem
  · intro p hp
    rw [hout p hp]
    trivial
  · intro fRet h
    cases h

/-- A worker does not return, for `fQuit` is never set. -/
theorem Inv.worker {outcome : T → Bool} {s : CheckSystem T} (h : s.Inv outcome)
    {before after : List (Place T)} {p : Place T} (hp : s.workers = before ++ p :: after) :
    Inv outcome { s with
      q := (s.q.critical outcome false p).1
      workers := before ++ (s.q.critical outcome false p).2.place :: after
      taken := (s.q.critical outcome false p).2.taken + s.taken
      finished := p.held + s.finished } := by
  have hsplit : ∀ p', (s.master ::ₘ ((before ++ p' :: after : List (Place T)) : Multiset (Place T))) =
      p' ::ₘ (s.master ::ₘ ((before ++ after : List (Place T)) : Multiset (Place T))) := by
    intro p'
    apply Multiset.coe_eq_coe.2
    exact (List.perm_middle.cons _).trans (List.Perm.swap _ _ _)
  have hsound := h.sound
  have hbusy := h.busy
  rw [places, hp, hsplit] at hsound hbusy
  have hrest := fun p' hp' => hbusy p' (Multiset.mem_cons_of_mem hp')
  have hdone : ∀ fRet, (s.q.critical outcome false p).2 ≠ .done fRet := by
    intro fRet hfRet
    have hend := (hsound.critical_done hrest hfRet).1
    cases hend
  rcases hsound.critical hdone with ⟨hnext, hplace, hqueue⟩
  have hheld : s.control ≠ .open → p.held = 0 := by
    intro hcontrol
    rw [openChecks, doneChecks, if_neg hcontrol, if_neg hcontrol] at hsound
    have hcard := congrArg Multiset.card hsound.split
    simp only [Multiset.card_add, Multiset.card_zero] at hcard
    apply held_eq_zero _ (Multiset.mem_cons_self p (s.master ::ₘ ((before ++ after : List (Place T)) : Multiset (Place T))))
    omega
  refine ⟨?_, ?_, h.away, ?_, h.asserted, h.verdict⟩
  · have hfinished : p.held + s.doneChecks =
        if s.control = .open then p.held + s.finished else 0 := by
      unfold doneChecks
      split_ifs with hcontrol
      · rfl
      · rw [hheld hcontrol, add_zero]
    rw [hfinished] at hnext
    rw [places, hsplit]
    exact hnext
  · rw [places, hsplit]
    exact Multiset.forall_mem_cons.2 ⟨hplace, hrest⟩
  · dsimp only
    rw [h.taken, hqueue]
    ac_rfl

theorem Inv.construct {outcome : T → Bool} {s : CheckSystem T} (h : s.Inv outcome)
    (hs : s.control = .absent) :
    Inv outcome { s with
      control := .open
      assertFailed := s.assertFailed || !s.q.isIdle
      current := 0
      finished := 0 } := by
  have hsound := h.sound
  have hcontrol : s.control ≠ .open := by simp [hs]
  rw [openChecks, doneChecks, if_neg hcontrol, if_neg hcontrol] at hsound
  refine ⟨hsound, h.busy, fun hopen => absurd rfl hopen, h.taken, ?_, ?_⟩
  · rw [h.asserted, (hsound.atRest h.busy).2.2.2]
    rfl
  · intro fRet hwaited
    cases hwaited

theorem Inv.add {outcome : T → Bool} {s : CheckSystem T} (h : s.Inv outcome) (vChecks : List T)
    (hs : s.control = .open) :
    Inv outcome { s with
      q := s.q.add vChecks
      added := vChecks + s.added
      current := vChecks + s.current } := by
  have hsound := h.sound
  rw [openChecks, doneChecks, if_pos hs, if_pos hs] at hsound
  have hmore : ∀ c ∈ s.current, c ∈ (vChecks : Multiset T) + s.current :=
    fun c hc => Multiset.mem_add.2 (Or.inr hc)
  have hnext : Sound outcome (s.q.add vChecks) s.places (vChecks + s.current) s.finished := by
    refine ⟨hsound.total, hsound.idle, ?_, hsound.running, ?_, hsound.good, ?_, ?_⟩
    · have htodo := hsound.todo
      simp only [CCheckQueue.add, List.length_append]
      omega
    · have hqueue : ((s.q.add vChecks).queue : Multiset T) = s.q.queue + vChecks :=
        (Multiset.coe_add _ _).symm
      rw [hqueue]
      have hsplit := hsound.split
      rw [hsplit]
      ac_rfl
    · intro hbad
      rcases hsound.bad hbad with ⟨c, hc, hfalse⟩
      exact ⟨c, hmore c hc, hfalse⟩
    · intro v hv
      rcases hsound.stale v hv with ⟨c, hc, hfalse⟩
      exact ⟨c, hmore c hc, hfalse⟩
  refine ⟨?_, h.busy, h.away, ?_, h.asserted, ?_⟩
  · rw [openChecks, doneChecks, if_pos hs, if_pos hs]
    exact hnext
  · have hqueue : ((s.q.add vChecks).queue : Multiset T) = s.q.queue + vChecks :=
      (Multiset.coe_add _ _).symm
    dsimp only
    rw [hqueue, h.taken]
    ac_rfl
  · intro fRet hwaited
    rw [hs] at hwaited
    cases hwaited

/-- The master in `Wait`, from one time that it has the mutex to the next, or to its return. -/
theorem Inv.wait {outcome : T → Bool} {s : CheckSystem T} (h : s.Inv outcome) (hs : s.control = .open) :
    Inv outcome { s with
      q := (s.q.critical outcome true s.master).1
      master := (s.q.critical outcome true s.master).2.place
      control :=
        match (s.q.critical outcome true s.master).2 with
        | .done fRet => .waited fRet
        | _ => .open
      taken := (s.q.critical outcome true s.master).2.taken + s.taken
      finished := s.master.held + s.finished } := by
  have hsound := h.sound
  have hrest : ∀ p ∈ (s.workers : Multiset (Place T)), p.Busy :=
    fun p hp => h.busy p (Multiset.mem_cons_of_mem hp)
  rw [openChecks, doneChecks, if_pos hs, if_pos hs, places] at hsound
  have hnext := fun (hdone : ∀ fRet, (s.q.critical outcome true s.master).2 ≠ .done fRet) =>
    hsound.critical hdone
  have hreturn := fun fRet (hdone : (s.q.critical outcome true s.master).2 = .done fRet) =>
    hsound.critical_done hrest hdone
  have htaken := h.taken
  generalize hexit : s.q.critical outcome true s.master = result at hnext hreturn ⊢
  rcases result with ⟨q, e⟩
  dsimp only at hnext hreturn ⊢
  cases e with
  | done fRet =>
    rcases hreturn fRet rfl with ⟨-, hend, hqueue, hverdict⟩
    refine ⟨?_, ?_, fun _ => rfl, ?_, h.asserted, ?_⟩
    · exact hend
    · exact Multiset.forall_mem_cons.2 ⟨trivial, hrest⟩
    · dsimp only
      rw [htaken, hqueue]
      exact congrArg (· + (q.queue : Multiset T)) (zero_add _).symm
    · intro fRet' hwaited
      rw [← Control.waited.inj hwaited]
      exact hverdict
  | wait =>
    rcases hnext (fun _ hfRet => by cases hfRet) with ⟨hgo, hplace, hqueue⟩
    refine ⟨hgo, ?_, fun hne => absurd rfl hne, ?_, h.asserted, fun _ hwaited => by cases hwaited⟩
    · exact Multiset.forall_mem_cons.2 ⟨hplace, hrest⟩
    · dsimp only
      rw [htaken, hqueue]
      ac_rfl
  | work vChecks fOk =>
    rcases hnext (fun _ hfRet => by cases hfRet) with ⟨hgo, hplace, hqueue⟩
    refine ⟨hgo, ?_, fun hne => absurd rfl hne, ?_, h.asserted, fun _ hwaited => by cases hwaited⟩
    · exact Multiset.forall_mem_cons.2 ⟨hplace, hrest⟩
    · dsimp only
      rw [htaken, hqueue]
      ac_rfl

theorem Inv.step {outcome : T → Bool} {s s' : CheckSystem T} (h : s.Inv outcome)
    (hstep : Step outcome s s') : s'.Inv outcome := by
  cases hstep with
  | worker hp => exact h.worker hp
  | construct hs => exact h.construct hs
  | add vChecks hs _ => exact h.add vChecks hs
  | wait hs => exact h.wait hs
  | destroy hs =>
    have hcontrol : s.control ≠ .open := by simp [hs]
    have hsound := h.sound
    rw [openChecks, doneChecks, if_neg hcontrol, if_neg hcontrol] at hsound
    exact ⟨hsound, h.busy, fun _ => h.away hcontrol, h.taken, h.asserted, fun _ hwaited => by cases hwaited⟩

theorem inv_of_run {outcome : T → Bool} {nBatchSize workers : Nat} {s : CheckSystem T}
    (h : Relation.ReflTransGen (Step outcome) (start nBatchSize workers) s) : s.Inv outcome := by
  induction h with
  | refl => exact inv_start outcome nBatchSize workers
  | tail _ hstep ih => exact ih.step hstep

/-- **The check queue loses nothing.**  Whatever the threads do: what was added is what was taken and what is
still in the queue; when `Wait` has returned, every check has been taken, the verdict is on all of them and
the queue is as new, until the next control, whose assertion holds. -/
theorem check_queue_loses_nothing {outcome : T → Bool} {nBatchSize workers : Nat} {s : CheckSystem T}
    (h : Relation.ReflTransGen (Step outcome) (start nBatchSize workers) s) :
    s.added = s.taken + s.q.queue ∧ s.assertFailed = false ∧
      (∀ fRet, s.control = .waited fRet →
        (fRet = true ↔ ∀ c ∈ s.current, outcome c = true) ∧ s.added = s.taken) ∧
      (s.control ≠ .open →
        s.q.queue = [] ∧ s.q.nTodo = 0 ∧ s.q.fAllOk = true ∧ s.q.isIdle = true) := by
  have hinv := inv_of_run h
  have hrest : s.control ≠ .open →
      s.q.queue = [] ∧ s.q.nTodo = 0 ∧ s.q.fAllOk = true ∧ s.q.isIdle = true := by
    intro hcontrol
    have hsound := hinv.sound
    rw [openChecks, doneChecks, if_neg hcontrol, if_neg hcontrol] at hsound
    exact hsound.atRest hinv.busy
  refine ⟨hinv.taken, hinv.asserted, ?_, hrest⟩
  intro fRet hwaited
  refine ⟨hinv.verdict fRet hwaited, ?_⟩
  have hcontrol : s.control ≠ .open := by simp [hwaited]
  have htaken := hinv.taken
  rw [(hrest hcontrol).1, Multiset.coe_nil, add_zero] at htaken
  exact htaken

/-- A master and a worker take one check each, and one of the checks fails. -/
theorem check_queue_loses_nothing_pair : ∃ s : CheckSystem Nat,
    Relation.ReflTransGen (Step fun c => c == 1) (start 128 1) s ∧ s.control = .waited false ∧
      s.added = s.taken ∧ ¬ ∀ c ∈ s.current, (c == 1) = true := by
  have hrun : Relation.ReflTransGen (Step fun c => c == 1) (start 128 1 : CheckSystem Nat) _ :=
    (((((Relation.ReflTransGen.single (.construct rfl)).tail (.add [1, 2] rfl rfl)).tail
      (@Step.worker _ _ _ [] [] _ rfl)).tail (.wait rfl)).tail (@Step.worker _ _ _ [] [] _ rfl)).tail
        (.wait rfl)
  have hall := check_queue_loses_nothing hrun
  rcases hall.2.2.1 false rfl with ⟨hverdict, htaken⟩
  refine ⟨_, hrun, rfl, htaken, fun h => ?_⟩
  exact Bool.false_ne_true (hverdict.2 h)

end CheckSystem

end Dobbscoin
