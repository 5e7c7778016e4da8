import Mathlib.Algebra.Group.Nat.Defs
import Mathlib.Data.Rat.Defs

/-!
# The stratum client

The session thread and the hash workers of `stratum.cpp`, one step for each critical section.
-/

namespace Dobbscoin

/-- A value of JSON; a real number is the one that its digits say. -/
inductive Value where
  | null
  | bool (b : Bool)
  | int (n : Int)
  | real (x : Rat)
  | str (s : String)
  | array (items : List Value)
  | obj (members : List (String × Value))

namespace Value

/-- `find_value`. -/
def find (members : List (String × Value)) (name : String) : Value :=
  ((members.find? fun member => member.1 = name).map Prod.snd).getD null

/-- `get_str`, `get_bool` and `get_array` throw when the type is another one. -/
def getStr : Value → Option String
  | str s => some s
  | _ => none

def getBool : Value → Option Bool
  | bool b => some b
  | _ => none

def getArray : Value → Option (List Value)
  | array items => some items
  | _ => none

def isNull : Value → Bool
  | null => true
  | _ => false

end Value

structure StratumJob where
  strJobId : String
  strPrevHash : String
  strCoinb1 : String
  strCoinb2 : String
  vMerkleBranch : List String
  strVersion : String
  strNBits : String
  strNTime : String
  fCleanJobs : Bool
  deriving DecidableEq

namespace StratumJob

/-- `StratumJob()`. -/
def none : StratumJob :=
  ⟨"", "", "", "", [], "", "", "", false⟩

def isNull (job : StratumJob) : Bool :=
  job.strJobId = ""

/-- The job in the parameters of `mining.notify`; the outcome is `none` when a `get_…` throws. -/
def ofParams (params : List Value) : Option StratumJob := do
  let param := fun i => params.getD i .null
  let strJobId ← (param 0).getStr
  let strPrevHash ← (param 1).getStr
  let strCoinb1 ← (param 2).getStr
  let strCoinb2 ← (param 3).getStr
  let branch ← (param 4).getArray
  let vMerkleBranch ← branch.mapM Value.getStr
  let strVersion ← (param 5).getStr
  let strNBits ← (param 6).getStr
  let strNTime ← (param 7).getStr
  let fCleanJobs ← (param 8).getBool
  pure { strJobId, strPrevHash, strCoinb1, strCoinb2, vMerkleBranch, strVersion, strNBits, strNTime, fCleanJobs }

end StratumJob

/-! ## Hex -/

def hexDigit (c : Char) : Option Nat :=
  if '0' ≤ c ∧ c ≤ '9' then some (c.toNat - 48)
  else if 'a' ≤ c ∧ c ≤ 'f' then some (c.toNat - 87)
  else if 'A' ≤ c ∧ c ≤ 'F' then some (c.toNat - 55)
  else none

/-- `ParseHex`: up to the first character that is neither a digit nor a space before a pair. -/
def parseHex : List Char → List UInt8
  | [] => []
  | c :: psz =>
    if c = ' ' ∨ '\t' ≤ c ∧ c ≤ '\r' then parseHex psz
    else
      match hexDigit c, psz with
      | some high, c' :: psz =>
        match hexDigit c' with
        | some low => UInt8.ofNat (16 * high + low) :: parseHex psz
        | none => []
      | _, _ => []

/-- `%08x`. -/
def hex8 (n : Nat) : String :=
  let digits := Nat.toDigits 16 n
  String.ofList (List.replicate (8 - digits.length) '0' ++ digits)

/-- The extranonce2 of a worker. -/
def workerExtraNonce2 (nWorkerId nEn2Counter : Nat) : String :=
  hex8 ((nWorkerId * 2 ^ 24 % 2 ^ 32) ||| (nEn2Counter % 2 ^ 24))

/-! ## State -/

/-- The fields of `CStratumClient` that the session thread and the workers share.  A socket is known by the
number of its session. -/
structure CStratumClient where
  fConnected : Bool
  fAuthorized : Bool
  fSessionAuthorized : Bool
  dDifficulty : Rat
  strExtraNonce1 : String
  nExtraNonce2Size : Int
  currentJob : StratumJob
  nJobsReceived : Nat
  pSocket : Option Nat
  nSubmitId : Nat

/-- What a worker copies under the lock. -/
structure Snapshot where
  job : StratumJob
  strEn1 : String
  dDiff : Rat
  nJobSeq : Nat

/-- Where a worker is: about to copy the work, about to hash a batch, submitting what a batch has found, or at
the check that follows it. -/
inductive WorkerPlace where
  | outer
  | hashing (work : Snapshot) (strEn2 : String) (nNext : Nat)
  | found (work : Snapshot) (strEn2 : String) (nPrev nNext : Nat) (shares : List Nat)

structure Worker where
  nEn2Counter : Nat
  place : WorkerPlace

/-- Where the session thread is: outside of `RunSession`, before it has connected, between the socket and
`fConnected`, reading lines, and behind `pSocket = NULL`. -/
inductive SessionPlace where
  | outside
  | connecting
  | opened
  | reading
  | closing
  deriving DecidableEq

/-- What the pool says in a session that work is made of. -/
inductive Received where
  | job (job : StratumJob)
  | extraNonce1 (strExtraNonce1 : String)
  deriving DecidableEq

/-- A line that `SubmitShare` writes, the session on whose socket it goes out, and the job and the extranonce1
that the share was computed from. -/
structure SubmitLine where
  session : Nat
  nSubmitId : Nat
  strJobId : String
  strExtraNonce2 : String
  strNTime : String
  strNonce : String
  job : StratumJob
  strEn1 : String
  deriving DecidableEq

/-- The client and its threads, with what has happened: the number of sessions, the value of `nJobsReceived` at
the start of the last one, what each has received, and the lines that have been written. -/
structure StratumSystem where
  client : CStratumClient
  place : SessionPlace
  workers : Nat → Worker
  session : Nat
  sessionSeq : Nat
  received : List (Nat × Received)
  lines : List SubmitLine

namespace CStratumClient

def start : CStratumClient :=
  ⟨false, false, false, 0, "", 0, .none, 0, none, 10⟩

/-- The reset at the start of `RunSession`. -/
def reset (c : CStratumClient) : CStratumClient :=
  { c with
    fConnected := false
    fAuthorized := false
    fSessionAuthorized := false
    strExtraNonce1 := ""
    nExtraNonce2Size := 0
    currentJob := .none
    dDifficulty := 0
    nJobsReceived := c.nJobsReceived + 1 }

/-- The request of a line, by its method; the counters and the texts that are only shown are left out. -/
def handleRequest (c : CStratumClient) (strMethod : String) (params : List Value) :
    Option (CStratumClient × List Received) :=
  if strMethod = "mining.set_difficulty" then
    match params with
    | .real x :: _ => some ({ c with dDifficulty := x }, [])
    | .int n :: _ => some ({ c with dDifficulty := n }, [])
    | _ => some (c, [])
  else if strMethod = "mining.notify" then
    if params.length < 9 then some (c, [])
    else
      (StratumJob.ofParams params).map fun job =>
        ({ c with currentJob := job, nJobsReceived := c.nJobsReceived + 1 }, [.job job])
  else some (c, [])

/-- The response to a request, by its id. -/
def handleResponse (c : CStratumClient) (nId : Int) (valResult : Value) : CStratumClient × List Received :=
  if nId = 1 then
    match valResult with
    | .array (_ :: .str strExtraNonce1 :: .int nExtraNonce2Size :: _) =>
      ({ c with strExtraNonce1, nExtraNonce2Size := nExtraNonce2Size.bmod (2 ^ 32) }, [.extraNonce1 strExtraNonce1])
    | _ => (c, [])
  else if nId = 2 then
    let fOk := valResult.getBool.getD false
    ({ c with fAuthorized := fOk, fSessionAuthorized := c.fSessionAuthorized || fOk }, [])
  else (c, [])

/-- `HandleLine`, with what the line brings; a line that is no object changes nothing, and an exception ends the
session. -/
def handleLine (c : CStratumClient) (line : Option Value) : Option (CStratumClient × List Received) :=
  match line with
  | some (.obj members) =>
    match Value.find members "method" with
    | .str strMethod =>
      match Value.find members "params" with
      | .array params => c.handleRequest strMethod params
      | _ => some (c, [])
    | _ =>
      if (Value.find members "error").isNull = false then some (c, [])
      else
        let nId := match Value.find members "id" with
          | .int n => n
          | _ => -1
        some (c.handleResponse nId (Value.find members "result"))
  | _ => some (c, [])

/-- `fReady`, of the values that a worker copies. -/
def ready (c : CStratumClient) : Bool :=
  c.fAuthorized && !c.currentJob.isNull && decide (0 < c.dDifficulty) && decide (c.strExtraNonce1 ≠ "")

def snapshot (c : CStratumClient) : Snapshot :=
  ⟨c.currentJob, c.strExtraNonce1, c.dDifficulty, c.nJobsReceived⟩

end CStratumClient

/-- A job that a worker can make a header of. -/
def StratumJob.wellFormed (job : StratumJob) : Bool :=
  job.vMerkleBranch.all (fun branch => (parseHex branch.toList).length = 32) && decide (job.strPrevHash.length = 64)

/-- Where the outer loop of a worker goes. -/
def Worker.copyWork (w : Worker) (c : CStratumClient) (nWorkerId : Nat) : Worker :=
  if c.ready = false then w
  else if c.nExtraNonce2Size ≠ 4 then w
  else
    let strEn2 := workerExtraNonce2 nWorkerId w.nEn2Counter
    let nEn2Counter := (w.nEn2Counter + 1) % 2 ^ 32
    if c.currentJob.wellFormed = false then ⟨nEn2Counter, .outer⟩
    else ⟨nEn2Counter, .hashing c.snapshot strEn2 0⟩

/-! ## Steps -/

/-- The steps of the threads.  What the pool sends, which calls fail, the number of lanes and the nonces that
meet the target are anything. -/
inductive StratumEvent where
  | reset
  | connectFails
  | connected
  | up
  | line (line : Option Value)
  | disconnect
  | closed
  | copyWork (nWorkerId : Nat)
  | hashBatch (nWorkerId nUsed : Nat) (shares : List Nat)
  | submit (nWorkerId : Nat) (fWritten : Bool)
  | afterBatch (nWorkerId : Nat)

namespace StratumSystem

def start : StratumSystem :=
  ⟨.start, .outside, fun _ => ⟨0, .outer⟩, 0, 0, [], []⟩

def setWorker (s : StratumSystem) (nWorkerId : Nat) (w : Worker) : StratumSystem :=
  { s with workers := Function.update s.workers nWorkerId w }

/-- `RunSession` goes on behind an exception. -/
def close (s : StratumSystem) : StratumSystem :=
  { s with client := { s.client with pSocket := none }, place := .closing }

/-- `SubmitShare` of the next nonce that was found. -/
def submitShare (s : StratumSystem) (work : Snapshot) (strEn2 : String) (nNonce : Nat) (fWritten : Bool) :
    StratumSystem :=
  match s.client.pSocket with
  | none => s
  | some session =>
    let line : SubmitLine :=
      { session
        nSubmitId := s.client.nSubmitId
        strJobId := work.job.strJobId
        strExtraNonce2 := strEn2
        strNTime := work.job.strNTime
        strNonce := hex8 nNonce
        job := work.job
        strEn1 := work.strEn1 }
    { s with
      client := { s.client with nSubmitId := s.client.nSubmitId + 1 }
      lines := if fWritten then s.lines ++ [line] else s.lines }

/-- The step of an event; `none` when the thread is not there. -/
def step (s : StratumSystem) : StratumEvent → Option StratumSystem
  | .reset =>
    if s.place = .outside then
      let client := s.client.reset
      some { s with client, place := .connecting, session := s.session + 1, sessionSeq := client.nJobsReceived }
    else none
  | .connectFails => if s.place = .connecting then some s.close else none
  | .connected =>
    if s.place = .connecting then
      some { s with client := { s.client with pSocket := some s.session }, place := .opened }
    else none
  | .up =>
    if s.place = .opened then
      some { s with client := { s.client with fConnected := true }, place := .reading }
    else none
  | .line line =>
    if s.place = .reading then
      match s.client.handleLine line with
      | none => some s.close
      | some (client, received) =>
        some { s with client, received := s.received ++ received.map fun r => (s.session, r) }
    else none
  | .disconnect => if s.place = .reading then some s.close else none
  | .closed =>
    if s.place = .closing then
      some { s with client := { s.client with fConnected := false, fAuthorized := false }, place := .outside }
    else none
  | .copyWork nWorkerId =>
    match (s.workers nWorkerId).place with
    | .outer => some (s.setWorker nWorkerId ((s.workers nWorkerId).copyWork s.client nWorkerId))
    | _ => none
  | .hashBatch nWorkerId nUsed shares =>
    match (s.workers nWorkerId).place with
    | .hashing work strEn2 nNext =>
      if nNext ≤ 0xffffffff then
        if 0 < nUsed ∧ nNext + nUsed ≤ 2 ^ 32 ∧ ∀ nNonce ∈ shares, nNext ≤ nNonce ∧ nNonce < nNext + nUsed then
          some (s.setWorker nWorkerId
            { s.workers nWorkerId with place := .found work strEn2 nNext (nNext + nUsed) shares })
        else none
      else some (s.setWorker nWorkerId { s.workers nWorkerId with place := .outer })
    | _ => none
  | .submit nWorkerId fWritten =>
    match (s.workers nWorkerId).place with
    | .found work strEn2 nPrev nNext (nNonce :: shares) =>
      some ((s.submitShare work strEn2 nNonce fWritten).setWorker nWorkerId
        { s.workers nWorkerId with place := .found work strEn2 nPrev nNext shares })
    | _ => none
  | .afterBatch nWorkerId =>
    match (s.workers nWorkerId).place with
    | .found work strEn2 nPrev nNext [] =>
      let fStale := decide (nPrev / 4096 ≠ nNext / 4096) && decide (s.client.nJobsReceived ≠ work.nJobSeq)
      some (s.setWorker nWorkerId
        { s.workers nWorkerId with place := if fStale then .outer else .hashing work strEn2 nNext })
    | _ => none

/-- The states of the runs whose steps all meet a condition. -/
inductive Reaches (P : StratumSystem → StratumEvent → Prop) : StratumSystem → Prop
  | start : Reaches P start
  | step {s s' : StratumSystem} {e : StratumEvent} (h : Reaches P s) (he : P s e) (hstep : s.step e = some s') :
    Reaches P s'

end StratumSystem

/-! ## What a line brings -/

/-- The job and the extranonce1 of the client are old ones, or the line has brought them. -/
structure CStratumClient.Brings (c : CStratumClient) (r : CStratumClient × List Received) : Prop where
  job : r.1.currentJob = c.currentJob ∨ Received.job r.1.currentJob ∈ r.2
  extraNonce1 : r.1.strExtraNonce1 = c.strExtraNonce1 ∨ Received.extraNonce1 r.1.strExtraNonce1 ∈ r.2
  seq : c.nJobsReceived ≤ r.1.nJobsReceived
  socket : r.1.pSocket = c.pSocket

theorem CStratumClient.brings_self (c : CStratumClient) : c.Brings (c, []) :=
  ⟨.inl rfl, .inl rfl, le_rfl, rfl⟩

theorem CStratumClient.brings_handleRequest {c : CStratumClient} {strMethod : String} {params : List Value}
    {r : CStratumClient × List Received} (h : c.handleRequest strMethod params = some r) : c.Brings r := by
  unfold handleRequest at h
  split_ifs at h
  · split at h <;> obtain rfl := Option.some.inj h <;> exact ⟨.inl rfl, .inl rfl, le_rfl, rfl⟩
  · obtain rfl := Option.some.inj h
    exact c.brings_self
  · rcases Option.map_eq_some_iff.1 h with ⟨job, -, rfl⟩
    exact ⟨.inr List.mem_cons_self, .inl rfl, Nat.le_succ _, rfl⟩
  · obtain rfl := Option.some.inj h
    exact c.brings_self

theorem CStratumClient.brings_handleResponse (c : CStratumClient) (nId : Int) (valResult : Value) :
    c.Brings (c.handleResponse nId valResult) := by
  unfold handleResponse
  split_ifs
  · split
    · exact ⟨.inl rfl, .inr List.mem_cons_self, le_rfl, rfl⟩
    · exact c.brings_self
  · exact ⟨.inl rfl, .inl rfl, le_rfl, rfl⟩
  · exact c.brings_self

theorem CStratumClient.brings_handleLine {c : CStratumClient} {line : Option Value}
    {r : CStratumClient × List Received} (h : c.handleLine line = some r) : c.Brings r := by
  unfold handleLine at h
  split at h
  · split at h
    · split at h
      · exact brings_handleRequest h
      · obtain rfl := Option.some.inj h
        exact c.brings_self
    · split_ifs at h
      · obtain rfl := Option.some.inj h
        exact c.brings_self
      · obtain rfl := Option.some.inj h
        exact c.brings_handleResponse _ _
  · obtain rfl := Option.some.inj h
    exact c.brings_self

/-! ## Shares and sessions -/

/-- The work that a worker is at. -/
def WorkerPlace.work : WorkerPlace → Option Snapshot
  | .outer => none
  | .hashing work _ _ => some work
  | .found work _ _ _ _ => some work

namespace StratumSystem

/-- The session has received this job and this extranonce1. -/
structure Has (received : List (Nat × Received)) (session : Nat) (job : StratumJob) (strEn1 : String) : Prop where
  job : (session, Received.job job) ∈ received
  extraNonce1 : (session, Received.extraNonce1 strEn1) ∈ received

/-- Every line carries the id of a job, and was computed from a job and an extranonce1, that its session has
received. -/
def SharesBelong (s : StratumSystem) : Prop :=
  ∀ line ∈ s.lines, line.strJobId = line.job.strJobId ∧ Has s.received line.session line.job line.strEn1

/-- With a socket open, a share is submitted only from work that was copied after the reset of the session. -/
def FreshSubmit (s : StratumSystem) : StratumEvent → Prop
  | .submit nWorkerId _ =>
    s.client.pSocket ≠ none → ∀ work, (s.workers nWorkerId).place.work = some work → s.sessionSeq ≤ work.nJobSeq
  | _ => True

/-- Work that was copied in this session is made of what the session has received. -/
def WorkOk (s : StratumSystem) (work : Snapshot) : Prop :=
  work.nJobSeq ≤ s.client.nJobsReceived ∧
    (s.sessionSeq ≤ work.nJobSeq → Has s.received s.session work.job work.strEn1)

/-- What holds in every state. -/
structure Ok (s : StratumSystem) : Prop where
  job : s.client.currentJob.isNull = false → (s.session, Received.job s.client.currentJob) ∈ s.received
  extraNonce1 : s.client.strExtraNonce1 ≠ "" →
    (s.session, Received.extraNonce1 s.client.strExtraNonce1) ∈ s.received
  seq : s.sessionSeq ≤ s.client.nJobsReceived
  socket : ∀ session ∈ s.client.pSocket, session = s.session
  noSocket : s.place = .outside ∨ s.place = .connecting ∨ s.place = .closing → s.client.pSocket = none
  work : ∀ nWorkerId, ∀ work ∈ (s.workers nWorkerId).place.work, s.WorkOk work
  lines : s.SharesBelong

theorem ok_start : start.Ok := by
  refine ⟨fun h => ?_, fun h => ?_, le_rfl, ?_, fun _ => rfl, ?_, ?_⟩
  · cases h
  · exact absurd rfl h
  · intro session h
    cases h
  · intro nWorkerId work h
    cases h
  · intro line h
    cases h

variable {s s' : StratumSystem}

theorem Has.mono {received received' : List (Nat × Received)} {session : Nat} {job : StratumJob} {strEn1 : String}
    (h : Has received session job strEn1) (hsub : received ⊆ received') : Has received' session job strEn1 :=
  ⟨hsub h.job, hsub h.extraNonce1⟩

/-- A step that keeps the session and what it has received. -/
theorem Ok.keep (h : s.Ok) (hsession : s'.session = s.session) (hseq : s'.sessionSeq = s.sessionSeq)
    (hreceived : s'.received = s.received) (hlines : s'.lines = s.lines) (hworkers : s'.workers = s.workers)
    (hjob : s'.client.currentJob = s.client.currentJob)
    (hen1 : s'.client.strExtraNonce1 = s.client.strExtraNonce1)
    (hcount : s'.client.nJobsReceived = s.client.nJobsReceived)
    (hsocket : ∀ session ∈ s'.client.pSocket, session = s'.session)
    (hnoSocket : s'.place = .outside ∨ s'.place = .connecting ∨ s'.place = .closing → s'.client.pSocket = none) :
    s'.Ok := by
  refine ⟨?_, ?_, ?_, hsocket, hnoSocket, ?_, ?_⟩
  · rw [hjob, hsession, hreceived]
    exact h.job
  · rw [hen1, hsession, hreceived]
    exact h.extraNonce1
  · rw [hseq, hcount]
    exact h.seq
  · intro nWorkerId work hwork
    rw [hworkers] at hwork
    unfold WorkOk
    rw [hcount, hseq, hsession, hreceived]
    exact h.work nWorkerId work hwork
  · unfold SharesBelong
    rw [hlines, hreceived]
    exact h.lines

/-- A worker that moves on with work that is fine. -/
theorem Ok.setWorker (h : s.Ok) (nWorkerId : Nat) {w : Worker} (hwork : ∀ work ∈ w.place.work, s.WorkOk work) :
    (s.setWorker nWorkerId w).Ok := by
  refine ⟨h.job, h.extraNonce1, h.seq, h.socket, h.noSocket, ?_, h.lines⟩
  intro i work hi
  by_cases heq : i = nWorkerId
  · subst heq
    have hself : (s.setWorker i w).workers i = w := by simp [StratumSystem.setWorker]
    rw [hself] at hi
    exact hwork work hi
  · have hother : (s.setWorker nWorkerId w).workers i = s.workers i := by
      simp [StratumSystem.setWorker, heq]
    rw [hother] at hi
    exact h.work i work hi

theorem Ok.close (h : s.Ok) : s.close.Ok :=
  h.keep rfl rfl rfl rfl rfl rfl rfl rfl (fun _ hsocket => by cases hsocket) fun _ => rfl

/-- What a worker copies when it is ready is of this session. -/
theorem Ok.snapshot (h : s.Ok) (hready : s.client.ready = true) : s.WorkOk s.client.snapshot := by
  simp only [CStratumClient.ready, Bool.and_eq_true, Bool.not_eq_true', decide_eq_true_eq] at hready
  exact ⟨le_rfl, fun _ => ⟨h.job hready.1.1.2, h.extraNonce1 hready.2⟩⟩

theorem Ok.copyWork (h : s.Ok) (nWorkerId : Nat) :
    ∀ work ∈ ((s.workers nWorkerId).copyWork s.client nWorkerId).place.work, s.WorkOk work := by
  intro work hwork
  unfold Worker.copyWork at hwork
  dsimp only at hwork
  split_ifs at hwork with hready hsize hformed
  · exact h.work nWorkerId work hwork
  · exact h.work nWorkerId work hwork
  · cases hwork
  · obtain rfl := Option.some.inj hwork
    exact h.snapshot ((Bool.not_eq_false _).mp hready)

/-- A line of the pool. -/
theorem Ok.line (h : s.Ok) {r : CStratumClient × List Received} (hbrings : s.client.Brings r) (hplace : s.place = .reading) :
    Ok { s with client := r.1, received := s.received ++ r.2.map fun received => (s.session, received) } := by
  have hsub : s.received ⊆ s.received ++ r.2.map fun received => (s.session, received) :=
    List.subset_append_left _ _
  refine ⟨fun hnull => ?_, fun hempty => ?_, h.seq.trans hbrings.seq, ?_, fun hp => ?_, ?_, ?_⟩
  · rcases hbrings.job with hjob | hjob
    · dsimp only at hnull ⊢
      rw [hjob] at hnull ⊢
      exact hsub (h.job hnull)
    · exact List.mem_append_right _ (List.mem_map_of_mem hjob)
  · rcases hbrings.extraNonce1 with hen1 | hen1
    · dsimp only at hempty ⊢
      rw [hen1] at hempty ⊢
      exact hsub (h.extraNonce1 hempty)
    · exact List.mem_append_right _ (List.mem_map_of_mem hen1)
  · dsimp only
    rw [hbrings.socket]
    exact h.socket
  · dsimp only at hp ⊢
    rw [hplace] at hp
    simp at hp
  · intro nWorkerId work hwork
    rcases h.work nWorkerId work hwork with ⟨hle, hhas⟩
    exact ⟨hle.trans hbrings.seq, fun hseq => (hhas hseq).mono hsub⟩
  · intro line hline
    rcases h.lines line hline with ⟨hid, hhas⟩
    exact ⟨hid, hhas.mono hsub⟩

/-- A share that is submitted from fresh work. -/
theorem Ok.submitShare (h : s.Ok) {work : Snapshot} (hwork : s.WorkOk work) (strEn2 : String) (nNonce : Nat)
    (fWritten : Bool) (hfresh : s.client.pSocket ≠ none → s.sessionSeq ≤ work.nJobSeq) :
    (s.submitShare work strEn2 nNonce fWritten).Ok := by
  unfold StratumSystem.submitShare
  cases hsocket : s.client.pSocket with
  | none => exact h
  | some session =>
    have hsession : session = s.session := h.socket session hsocket
    have hhas := hwork.2 (hfresh (by rw [hsocket]; exact Option.some_ne_none _))
    refine ⟨h.job, h.extraNonce1, h.seq, h.socket, h.noSocket, h.work, ?_⟩
    intro line hline
    dsimp only at hline
    split_ifs at hline
    · rcases List.mem_append.1 hline with hline | hline
      · exact h.lines line hline
      · obtain rfl := List.mem_singleton.1 hline
        refine ⟨rfl, ?_⟩
        rw [hsession]
        exact hhas
    · exact h.lines line hline

/-- The reset of `RunSession`: whatever a worker is at was copied before it. -/
theorem Ok.reset (h : s.Ok) (hplace : s.place = .outside) :
    Ok { s with
      client := s.client.reset
      place := .connecting
      session := s.session + 1
      sessionSeq := s.client.reset.nJobsReceived } := by
  have hsocket : s.client.pSocket = none := h.noSocket (.inl hplace)
  refine ⟨fun hnull => ?_, fun hempty => ?_, le_rfl, ?_, fun _ => hsocket, ?_, h.lines⟩
  · cases hnull
  · exact absurd rfl hempty
  · intro session hs
    have hs' : s.client.pSocket = some session := hs
    rw [hsocket] at hs'
    cases hs'
  · intro nWorkerId work hwork
    rcases h.work nWorkerId work hwork with ⟨hle, -⟩
    exact ⟨hle.trans (Nat.le_succ _), fun hseq => absurd hle (Nat.not_le.2 hseq)⟩

theorem Ok.step {e : StratumEvent} (h : s.Ok) (hfresh : s.FreshSubmit e) (hstep : s.step e = some s') : s'.Ok := by
  cases e with
  | reset =>
    rw [StratumSystem.step] at hstep
    split_ifs at hstep with hplace
    obtain rfl := Option.some.inj hstep
    exact h.reset hplace
  | connectFails =>
    rw [StratumSystem.step] at hstep
    split_ifs at hstep
    obtain rfl := Option.some.inj hstep
    exact h.close
  | connected =>
    rw [StratumSystem.step] at hstep
    split_ifs at hstep
    obtain rfl := Option.some.inj hstep
    refine h.keep rfl rfl rfl rfl rfl rfl rfl rfl ?_ ?_
    · intro session hsession
      exact (Option.some.inj hsession).symm
    · rintro (hp | hp | hp) <;> cases hp
  | up =>
    rw [StratumSystem.step] at hstep
    split_ifs at hstep
    obtain rfl := Option.some.inj hstep
    refine h.keep rfl rfl rfl rfl rfl rfl rfl rfl h.socket ?_
    rintro (hp | hp | hp) <;> cases hp
  | line line =>
    rw [StratumSystem.step] at hstep
    split_ifs at hstep with hplace
    cases hline : s.client.handleLine line with
    | none =>
      rw [hline] at hstep
      obtain rfl := Option.some.inj hstep
      exact h.close
    | some r =>
      rw [hline] at hstep
      obtain rfl := Option.some.inj hstep
      exact h.line (CStratumClient.brings_handleLine hline) hplace
  | disconnect =>
    rw [StratumSystem.step] at hstep
    split_ifs at hstep
    obtain rfl := Option.some.inj hstep
    exact h.close
  | closed =>
    rw [StratumSystem.step] at hstep
    split_ifs at hstep with hplace
    obtain rfl := Option.some.inj hstep
    exact h.keep rfl rfl rfl rfl rfl rfl rfl rfl h.socket fun _ => h.noSocket (.inr (.inr hplace))
  | copyWork nWorkerId =>
    rw [StratumSystem.step] at hstep
    split at hstep
    · obtain rfl := Option.some.inj hstep
      exact h.setWorker nWorkerId (h.copyWork nWorkerId)
    · cases hstep
  | hashBatch nWorkerId nUsed shares =>
    rw [StratumSystem.step] at hstep
    split at hstep
    next work strEn2 nNext hplace =>
      split_ifs at hstep
      · obtain rfl := Option.some.inj hstep
        refine h.setWorker nWorkerId fun work' hwork' => h.work nWorkerId work' ?_
        rw [hplace]
        exact hwork'
      · obtain rfl := Option.some.inj hstep
        refine h.setWorker nWorkerId fun work' hwork' => ?_
        cases hwork'
    · cases hstep
  | submit nWorkerId fWritten =>
    rw [StratumSystem.step] at hstep
    split at hstep
    next work strEn2 nPrev nNext nNonce shares hplace =>
      obtain rfl := Option.some.inj hstep
      have hat : work ∈ (s.workers nWorkerId).place.work := by
        rw [hplace]
        rfl
      have hwork := h.work nWorkerId work hat
      have hsubmitted := h.submitShare hwork strEn2 nNonce fWritten fun hsocket => hfresh hsocket work hat
      refine hsubmitted.setWorker nWorkerId fun work' hwork' => hsubmitted.work nWorkerId work' ?_
      have hworkers : (s.submitShare work strEn2 nNonce fWritten).workers = s.workers := by
        unfold StratumSystem.submitShare
        cases s.client.pSocket <;> rfl
      rw [hworkers, hplace]
      exact hwork'
    · cases hstep
  | afterBatch nWorkerId =>
    rw [StratumSystem.step] at hstep
    split at hstep
    next work strEn2 nPrev nNext hplace =>
      obtain rfl := Option.some.inj hstep
      refine h.setWorker nWorkerId fun work' hwork' => h.work nWorkerId work' ?_
      rw [hplace]
      dsimp only at hwork'
      split_ifs at hwork'
      · cases hwork'
      · exact hwork'
    · cases hstep

/-- **Shares belong to their session** in every run in which no share is submitted from work that was copied
before the reset of the session. -/
theorem shares_belong (h : Reaches FreshSubmit s) : s.SharesBelong := by
  have hok : s.Ok := by
    induction h with
    | start => exact ok_start
    | step _ he hstep ih => exact ih.step he hstep
  exact hok.lines

/-- The run of a list of events. -/
def run : StratumSystem → List StratumEvent → Option StratumSystem
  | s, [] => some s
  | s, e :: events => (s.step e).bind fun s => s.run events

theorem Reaches.run {P : StratumSystem → StratumEvent → Prop} {events : List StratumEvent} (h : Reaches P s)
    (hP : ∀ t, ∀ e ∈ events, P t e) (hrun : s.run events = some s') : Reaches P s' := by
  induction events generalizing s with
  | nil =>
    obtain rfl := Option.some.inj hrun
    exact h
  | cons e events ih =>
    rcases Option.bind_eq_some_iff.1 hrun with ⟨t, hstep, hrest⟩
    have hnext : Reaches P t := h.step (hP s e List.mem_cons_self) hstep
    exact ih hnext (fun t' e' he' => hP t' e' (List.mem_cons_of_mem e he')) hrest

def sampleNotify : Value :=
  .obj [("method", .str "mining.notify"),
    ("params", .array [.str "7", .str (String.ofList (List.replicate 64 '0')), .str "01", .str "02", .array [], .str "1",
      .str "1", .str "1", .bool false])]

/-- A session with everything that a worker needs. -/
def sampleSession : List StratumEvent :=
  [.reset, .connected, .up,
    .line (some (.obj [("id", .int 1), ("result", .array [.null, .str "ab", .int 4])])),
    .line (some (.obj [("method", .str "mining.set_difficulty"), ("params", .array [.int 1])])),
    .line (some sampleNotify),
    .line (some (.obj [("id", .int 2), ("result", .bool true)])),
    .copyWork 0, .hashBatch 0 8 [3]]

theorem sampleSession_keeps {P : StratumSystem → StratumEvent → Prop} {e : StratumEvent} (he : e ∈ sampleSession)
    (hP : ∀ t e, (∀ nWorkerId fWritten, e ≠ .submit nWorkerId fWritten) → P t e) (t : StratumSystem) : P t e := by
  apply hP t e
  rintro nWorkerId fWritten rfl
  simp [sampleSession] at he

theorem run_append (events events' : List StratumEvent) :
    s.run (events ++ events') = (s.run events).bind fun t => t.run events' := by
  induction events generalizing s with
  | nil => rfl
  | cons e events ih =>
    rw [List.cons_append, run, run, Option.bind_assoc]
    exact congrArg _ (funext fun t => ih)

/-- The worker has copied its work after the reset. -/
theorem sampleSession_copied : (start.run sampleSession).any (fun s =>
    (s.workers 0).place.work.any fun work => s.sessionSeq ≤ work.nJobSeq) = true := by
  decide

/-- A share of the session in which its work was copied. -/
theorem shares_belong_sampleSession :
    ∃ s, start.run (sampleSession ++ [.submit 0 true]) = some s ∧ s.SharesBelong := by
  have hsome : (start.run (sampleSession ++ [.submit 0 true])).isSome = true := by decide
  rcases Option.isSome_iff_exists.1 hsome with ⟨s, hrun⟩
  refine ⟨s, hrun, ?_⟩
  rw [run_append] at hrun
  rcases Option.bind_eq_some_iff.1 hrun with ⟨t, ht, hsubmit⟩
  rcases Option.bind_eq_some_iff.1 hsubmit with ⟨s', hstep, hnil⟩
  obtain rfl := Option.some.inj hnil
  have hreaches : Reaches FreshSubmit t := by
    refine Reaches.start.run (fun t' e he => sampleSession_keeps he (fun t'' e' hne => ?_) t') ht
    cases e' with
    | submit nWorkerId fWritten => exact absurd rfl (hne nWorkerId fWritten)
    | _ => trivial
  have hfresh : t.FreshSubmit (.submit 0 true) := by
    intro _ work hwork
    have hcopied := sampleSession_copied
    rw [ht, Option.any_some, hwork, Option.any_some] at hcopied
    exact of_decide_eq_true hcopied
  exact shares_belong (hreaches.step hfresh hstep)

/-- The share is found in one session, and submitted after the next one has connected. -/
def staleEvents : List StratumEvent :=
  sampleSession ++ [.disconnect, .closed, .reset, .connected, .submit 0 true]

/-- A line on the new socket carries a job of the old session. -/
theorem stale_share_submitted : ∃ s, Reaches (fun _ _ => True) s ∧ ¬ s.SharesBelong := by
  have hstale : (start.run staleEvents).any (fun s =>
      s.lines.any fun line => decide ((line.session, Received.job line.job) ∉ s.received)) = true := by
    decide
  cases hrun : start.run staleEvents with
  | none =>
    rw [hrun] at hstale
    cases hstale
  | some s =>
    rw [hrun, Option.any_some] at hstale
    rcases List.any_eq_true.1 hstale with ⟨line, hmem, hjob⟩
    refine ⟨s, Reaches.start.run (fun _ _ _ => trivial) hrun, fun hbelong => ?_⟩
    exact of_decide_eq_true hjob (hbelong line hmem).2.job

end StratumSystem

end Dobbscoin
