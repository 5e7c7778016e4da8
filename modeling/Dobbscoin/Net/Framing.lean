import Dobbscoin.Primitives.Transaction
import Mathlib.Data.List.Forall2

/-!
# Message framing

How messages become bytes and bytes messages: `BeginMessage`, `EndMessage` and `SocketSendData` on one side,
`ReceiveMsgBytes` on the other.  What lies between the two is a stream that is cut anywhere.
-/

namespace Dobbscoin

open ByteCodec

def maxProtocolMessageLength : Nat := 2 * 1024 * 1024
def commandSize : Nat := 12
def messageSizeOffset : Nat := 16
def checksumOffset : Nat := 20
def headerSize : Nat := 24

/-- The constants of the network, and the hash function. -/
structure NetEnv where
  messageStart : Bytes
  messageStart_length : messageStart.length = 4
  crypto : Crypto

structure CMessageHeader where
  pchMessageStart : Bytes
  pchCommand : Bytes
  nMessageSize : Nat
  nChecksum : Nat

namespace CMessageHeader

/-- `strncpy` of a C string. -/
def strncpy (n : Nat) (s : Bytes) : Bytes :=
  s.take n ++ List.replicate (n - s.length) 0

/-- `CMessageHeader(pszCommand, nMessageSizeIn)`. -/
def ofCommand (env : NetEnv) (pszCommand : Bytes) (nMessageSizeIn : Nat) : CMessageHeader :=
  ⟨env.messageStart, strncpy commandSize pszCommand, nMessageSizeIn, 0⟩

def put (hdr : CMessageHeader) : Bytes :=
  hdr.pchMessageStart ++ hdr.pchCommand ++ leBytes 4 hdr.nMessageSize ++ leBytes 4 hdr.nChecksum

/-- Reading throws when bytes are missing. -/
def get (bs : Bytes) : Option CMessageHeader :=
  if bs.length < headerSize then none
  else some ⟨bs.take 4, (bs.drop 4).take 12, leNat ((bs.drop 16).take 4), leNat ((bs.drop 20).take 4)⟩

def getCommand (hdr : CMessageHeader) : Bytes :=
  hdr.pchCommand.takeWhile fun c => c ≠ 0

end CMessageHeader

/-- `memcpy(&buf[pos], bs, bs.size())`. -/
def overwrite (buf : Bytes) (pos : Nat) (bs : Bytes) : Bytes :=
  buf.take pos ++ bs ++ buf.drop (pos + bs.length)

/-! ## Sending -/

/-- A message as `PushMessage` is called: the command is one of the literals of the source, and the payload is
one that a receiver takes. -/
structure Message where
  pszCommand : Bytes
  payload : Bytes
  command_length : pszCommand.length ≤ commandSize
  command_chars : ∀ c ∈ pszCommand, c ≠ 0
  payload_length : payload.length ≤ maxProtocolMessageLength

def beginMessage (env : NetEnv) (pszCommand : Bytes) : Bytes :=
  (CMessageHeader.ofCommand env pszCommand 0).put

/-- `EndMessage`, up to the queue, without the options that drop or spoil messages for tests. -/
def endMessage (env : NetEnv) (ssSend : Bytes) : Bytes :=
  let nSize := (ssSend.length - headerSize) % 2 ^ 32
  let ssSend := overwrite ssSend messageSizeOffset (leBytes 4 nSize)
  let nChecksum := (env.crypto.hash (ssSend.drop headerSize)).toNat % 2 ^ 32
  overwrite ssSend checksumOffset (leBytes 4 nChecksum)

/-- The bytes of a message in the queue. -/
def Message.data (env : NetEnv) (m : Message) : Bytes :=
  endMessage env (beginMessage env m.pszCommand ++ m.payload)

/-- The sending side of a node, and what the socket has taken of it. -/
structure SendState where
  vSendMsg : List Bytes
  nSendOffset : Nat
  nSendSize : Nat
  sent : Bytes

/-- The loop of `SocketSendData`, with the number of bytes that each call of `send` takes, zero when it fails.
The outcome is `none` when an assertion fails. -/
def sendLoop : List Bytes → Nat → Nat → List Nat → Option SendState
  | [], nSendOffset, nSendSize, _ => some ⟨[], nSendOffset, nSendSize, []⟩
  | data :: queue, nSendOffset, nSendSize, answers =>
    if data.length ≤ nSendOffset then none
    else
      let nBytes := min (answers.headD 0) (data.length - nSendOffset)
      let out := (data.drop nSendOffset).take nBytes
      if nBytes = 0 then some ⟨data :: queue, nSendOffset, nSendSize, []⟩
      else if nSendOffset + nBytes = data.length then
        (sendLoop queue 0 (nSendSize - data.length) answers.tail).map fun s => { s with sent := out ++ s.sent }
      else some ⟨data :: queue, nSendOffset + nBytes, nSendSize, out⟩

def socketSendData (s : SendState) (answers : List Nat) : Option SendState :=
  match sendLoop s.vSendMsg s.nSendOffset s.nSendSize answers with
  | none => none
  | some s' =>
    if s'.vSendMsg = [] ∧ (s'.nSendOffset ≠ 0 ∨ s'.nSendSize ≠ 0) then none
    else some { s' with sent := s.sent ++ s'.sent }

/-- `PushMessage`, with the optimistic write. -/
def pushMessage (env : NetEnv) (s : SendState) (m : Message) (answers : List Nat) : Option SendState :=
  let data := m.data env
  let s' := { s with vSendMsg := s.vSendMsg ++ [data], nSendSize := s.nSendSize + data.length }
  if s.vSendMsg = [] then socketSendData s' answers else some s'

inductive SendEvent where
  | push (m : Message) (answers : List Nat)
  | socketReady (answers : List Nat)

def SendEvent.apply (env : NetEnv) (s : SendState) : SendEvent → Option SendState
  | push m answers => pushMessage env s m answers
  | socketReady answers => socketSendData s answers

def runSends (env : NetEnv) : SendState → List SendEvent → Option SendState
  | s, [] => some s
  | s, e :: events => (e.apply env s).bind fun s => runSends env s events

/-- The messages of a run, in the order in which they were pushed. -/
def pushed : List SendEvent → List Message
  | [] => []
  | .push m _ :: events => m :: pushed events
  | .socketReady _ :: events => pushed events

/-! ## Receiving -/

structure CNetMessage where
  in_data : Bool
  hdrbuf : Bytes
  hdr : CMessageHeader
  nHdrPos : Nat
  vRecv : Bytes
  nDataPos : Nat

namespace CNetMessage

/-- `CNetMessage()`; the header is the one of `CMessageHeader()`. -/
def new (env : NetEnv) : CNetMessage :=
  ⟨false, List.replicate 24 0, ⟨env.messageStart, List.replicate commandSize 0, 2 ^ 32 - 1, 0⟩, 0, [], 0⟩

def complete (msg : CNetMessage) : Bool :=
  msg.in_data && msg.hdr.nMessageSize == msg.nDataPos

/-- `readHeader`: the number of bytes that it handles, and `none` for the code -1. -/
def readHeader (msg : CNetMessage) (pch : Bytes) : Option (Nat × CNetMessage) :=
  let nCopy := min (24 - msg.nHdrPos) pch.length
  let hdrbuf := overwrite msg.hdrbuf msg.nHdrPos (pch.take nCopy)
  let msg := { msg with hdrbuf, nHdrPos := msg.nHdrPos + nCopy }
  if msg.nHdrPos < 24 then some (nCopy, msg)
  else
    match CMessageHeader.get hdrbuf with
    | none => none
    | some hdr =>
      if maxSize < hdr.nMessageSize then none
      else some (nCopy, { msg with hdr, in_data := true })

/-- `vRecv.resize` up to 256 KiB ahead. -/
def grow (vRecv : Bytes) (nMessageSize needed : Nat) : Bytes :=
  if vRecv.length < needed then
    vRecv ++ List.replicate (min nMessageSize (needed + 256 * 1024) - vRecv.length) 0
  else vRecv

def readData (msg : CNetMessage) (pch : Bytes) : Nat × CNetMessage :=
  let nCopy := min (msg.hdr.nMessageSize - msg.nDataPos) pch.length
  let vRecv := grow msg.vRecv msg.hdr.nMessageSize (msg.nDataPos + nCopy)
  (nCopy, { msg with
    vRecv := overwrite vRecv msg.nDataPos (pch.take nCopy)
    nDataPos := msg.nDataPos + nCopy })

/-- The bytes go to the header or to the data. -/
def absorb (msg : CNetMessage) (pch : Bytes) : Option (Nat × CNetMessage) :=
  if msg.in_data = false then msg.readHeader pch else some (msg.readData pch)

end CNetMessage

/-- The loop of `ReceiveMsgBytes`; `none` when it does not end within the fuel. -/
def receiveLoop (env : NetEnv) : Nat → List CNetMessage → Bytes → Option (Bool × List CNetMessage)
  | _, vRecvMsg, [] => some (true, vRecvMsg)
  | 0, _, _ :: _ => none
  | fuel + 1, vRecvMsg, pch =>
    let fNew := vRecvMsg.getLast?.all CNetMessage.complete
    let earlier := if fNew then vRecvMsg else vRecvMsg.dropLast
    let msg := if fNew then .new env else vRecvMsg.getLast?.getD (.new env)
    match msg.absorb pch with
    | none => some (false, earlier ++ [msg])
    | some (handled, msg) =>
      if msg.in_data = true ∧ maxProtocolMessageLength < msg.hdr.nMessageSize then some (false, earlier ++ [msg])
      else receiveLoop env fuel (earlier ++ [msg]) (pch.drop handled)

/-- `ReceiveMsgBytes`: every round handles a byte. -/
def receiveMsgBytes (env : NetEnv) (vRecvMsg : List CNetMessage) (pch : Bytes) : Option (Bool × List CNetMessage) :=
  receiveLoop env pch.length vRecvMsg pch

/-- One call of `ReceiveMsgBytes` after the other, until one fails. -/
def receiveChunks (env : NetEnv) : List CNetMessage → List Bytes → Option (Bool × List CNetMessage)
  | vRecvMsg, [] => some (true, vRecvMsg)
  | vRecvMsg, chunk :: chunks =>
    match receiveMsgBytes env vRecvMsg chunk with
    | some (true, vRecvMsg) => receiveChunks env vRecvMsg chunks
    | outcome => outcome

/-! ## Frames -/

theorem overwrite_middle {front old new back : Bytes} {pos : Nat} (hpos : front.length = pos)
    (hlength : old.length = new.length) : overwrite (front ++ old ++ back) pos new = front ++ new ++ back := by
  have hfront : (front ++ old ++ back).take pos = front := by
    rw [List.append_assoc]
    exact List.take_left' hpos
  have hback : (front ++ old ++ back).drop (pos + new.length) = back := by
    apply List.drop_left'
    rw [List.length_append, hpos, hlength]
  rw [overwrite, hfront, hback]

theorem take_overwrite {buf : Bytes} {pos : Nat} (bs : Bytes) (hpos : pos ≤ buf.length) :
    (overwrite buf pos bs).take (pos + bs.length) = buf.take pos ++ bs := by
  apply List.take_left'
  rw [List.length_append, List.length_take, Nat.min_eq_left hpos]

theorem length_overwrite {buf bs : Bytes} {pos : Nat} (hfits : pos + bs.length ≤ buf.length) :
    (overwrite buf pos bs).length = buf.length := by
  simp only [overwrite, List.length_append, List.length_take, List.length_drop]
  omega

namespace CMessageHeader

theorem length_strncpy (n : Nat) (s : Bytes) : (strncpy n s).length = n := by
  simp only [strncpy, List.length_append, List.length_take, List.length_replicate]
  omega

/-- A short command comes back from its field. -/
theorem takeWhile_strncpy {n : Nat} {s : Bytes} (hlength : s.length ≤ n) (hchars : ∀ c ∈ s, c ≠ 0) :
    (strncpy n s).takeWhile (fun c => decide (c ≠ 0)) = s := by
  rw [strncpy, List.take_of_length_le hlength, List.takeWhile_append_of_pos (by simpa using hchars)]
  cases n - s.length with
  | zero => simp
  | succ k => simp [List.replicate_succ]

/-- Fields of the right widths. -/
structure Fits (hdr : CMessageHeader) : Prop where
  messageStart : hdr.pchMessageStart.length = 4
  command : hdr.pchCommand.length = 12
  messageSize : hdr.nMessageSize < 2 ^ 32
  checksum : hdr.nChecksum < 2 ^ 32

theorem Fits.length_put {hdr : CMessageHeader} (h : hdr.Fits) : hdr.put.length = headerSize := by
  simp [put, h.messageStart, h.command, headerSize]

theorem Fits.get_put {hdr : CMessageHeader} (h : hdr.Fits) : get hdr.put = some hdr := by
  have hlength : ¬ hdr.put.length < headerSize := by rw [h.length_put]; exact Nat.lt_irrefl _
  have hstart : hdr.put.take 4 = hdr.pchMessageStart := by
    simp only [put, List.append_assoc]
    exact List.take_left' h.messageStart
  have hcommand : (hdr.put.drop 4).take 12 = hdr.pchCommand := by
    simp only [put, List.append_assoc]
    rw [List.drop_left' h.messageStart]
    exact List.take_left' h.command
  have hsize : (hdr.put.drop 16).take 4 = leBytes 4 hdr.nMessageSize := by
    simp only [put, List.append_assoc]
    rw [← List.append_assoc, List.drop_left' (by simp [h.messageStart, h.command])]
    exact List.take_left' (leBytes_length _ _)
  have hchecksum : (hdr.put.drop 20).take 4 = leBytes 4 hdr.nChecksum := by
    rw [put, List.drop_left' (by simp [h.messageStart, h.command])]
    exact List.take_of_length_le (by simp)
  have hpow : 256 ^ 4 = 2 ^ 32 := by decide
  rw [get, if_neg hlength, hstart, hcommand, hsize, hchecksum, leNat_leBytes, leNat_leBytes, hpow,
    Nat.mod_eq_of_lt h.messageSize, Nat.mod_eq_of_lt h.checksum]

end CMessageHeader

namespace Message

variable (env : NetEnv) (m : Message)

/-- The first four bytes of the hash of the payload. -/
def checksum : Nat :=
  (env.crypto.hash m.payload).toNat % 2 ^ 32

def header : CMessageHeader :=
  ⟨env.messageStart, CMessageHeader.strncpy commandSize m.pszCommand, m.payload.length, m.checksum env⟩

theorem payload_lt : m.payload.length < 2 ^ 32 :=
  lt_of_le_of_lt m.payload_length (by decide)

theorem header_fits : (m.header env).Fits where
  messageStart := env.messageStart_length
  command := CMessageHeader.length_strncpy _ _
  messageSize := m.payload_lt
  checksum := Nat.mod_lt _ (by decide)

theorem getCommand_header : (m.header env).getCommand = m.pszCommand :=
  CMessageHeader.takeWhile_strncpy m.command_length m.command_chars

/-- A frame is a header and the payload. -/
theorem data_eq : m.data env = (m.header env).put ++ m.payload := by
  have hfront : (env.messageStart ++ CMessageHeader.strncpy commandSize m.pszCommand).length = messageSizeOffset := by
    rw [List.length_append, env.messageStart_length, CMessageHeader.length_strncpy]
    rfl
  have hlength : (beginMessage env m.pszCommand ++ m.payload).length - headerSize = m.payload.length := by
    simp only [beginMessage, CMessageHeader.ofCommand, CMessageHeader.put, List.length_append, leBytes_length] at hfront ⊢
    rw [hfront, messageSizeOffset, headerSize]
    omega
  have hsize : overwrite (beginMessage env m.pszCommand ++ m.payload) messageSizeOffset
      (leBytes 4 m.payload.length) =
      env.messageStart ++ CMessageHeader.strncpy commandSize m.pszCommand ++ leBytes 4 m.payload.length ++
        leBytes 4 0 ++ m.payload := by
    have hbegin : beginMessage env m.pszCommand ++ m.payload =
        (env.messageStart ++ CMessageHeader.strncpy commandSize m.pszCommand) ++ leBytes 4 0 ++
          (leBytes 4 0 ++ m.payload) := by
      simp only [beginMessage, CMessageHeader.ofCommand, CMessageHeader.put, List.append_assoc]
    rw [hbegin, overwrite_middle hfront (by simp)]
    simp only [List.append_assoc]
  rw [data, endMessage, hlength, Nat.mod_eq_of_lt m.payload_lt, hsize]
  have hpayload : (env.messageStart ++ CMessageHeader.strncpy commandSize m.pszCommand ++
      leBytes 4 m.payload.length ++ leBytes 4 0 ++ m.payload).drop headerSize = m.payload := by
    apply List.drop_left'
    rw [List.length_append, List.length_append, hfront, leBytes_length, leBytes_length]
    rfl
  rw [hpayload, overwrite_middle _ (by simp)]
  · rfl
  · rw [List.length_append, hfront, leBytes_length]
    rfl

theorem data_length : (m.data env).length = headerSize + m.payload.length := by
  rw [data_eq, List.length_append, (m.header_fits env).length_put]

theorem data_drop : (m.data env).drop headerSize = m.payload := by
  rw [data_eq]
  exact List.drop_left' (m.header_fits env).length_put

theorem data_take : (m.data env).take headerSize = (m.header env).put := by
  rw [data_eq]
  exact List.take_left' (m.header_fits env).length_put

end Message

/-! ## The sending side -/

/-- The offset is in the first entry of the queue, and the size is what is in the queue. -/
structure SendState.Queued (queue : List Bytes) (nSendOffset nSendSize : Nat) : Prop where
  nonempty : ∀ data ∈ queue, data ≠ []
  offset : ∀ data ∈ queue.head?, nSendOffset < data.length
  offset_nil : queue = [] → nSendOffset = 0
  size : nSendSize = queue.flatten.length

/-- What a loop sends is taken from the front of what is left to send. -/
theorem sendLoop_spec (queue : List Bytes) (nSendOffset nSendSize : Nat) (answers : List Nat)
    (h : SendState.Queued queue nSendOffset nSendSize) :
    ∃ s, sendLoop queue nSendOffset nSendSize answers = some s ∧
      SendState.Queued s.vSendMsg s.nSendOffset s.nSendSize ∧
      s.sent ++ s.vSendMsg.flatten.drop s.nSendOffset = queue.flatten.drop nSendOffset := by
  induction queue generalizing nSendOffset nSendSize answers with
  | nil => exact ⟨_, rfl, h, rfl⟩
  | cons data queue ih =>
    have hoffset : nSendOffset < data.length := h.offset data rfl
    have hrest : SendState.Queued queue 0 (nSendSize - data.length) := by
      refine ⟨fun d hd => h.nonempty d (List.mem_cons_of_mem _ hd), ?_, fun _ => rfl, ?_⟩
      · intro d hd
        exact List.length_pos_iff.2 (h.nonempty d (List.mem_cons_of_mem _ (List.mem_of_mem_head? hd)))
      · rw [h.size, List.flatten_cons, List.length_append, Nat.add_sub_cancel_left]
    rw [sendLoop, if_neg (Nat.not_le.2 hoffset)]
    dsimp only
    split_ifs with hnone hall
    · exact ⟨_, rfl, h, rfl⟩
    · rcases ih 0 (nSendSize - data.length) answers.tail hrest with ⟨s, hloop, hqueued, hsent⟩
      rw [hloop]
      refine ⟨_, rfl, hqueued, ?_⟩
      have hwhole : (data.drop nSendOffset).take (min (answers.headD 0) (data.length - nSendOffset)) =
          data.drop nSendOffset := by
        apply List.take_of_length_le
        rw [List.length_drop]
        omega
      rw [List.append_assoc, hsent, List.drop_zero, hwhole, List.flatten_cons,
        List.drop_append_of_le_length hoffset.le]
    · refine ⟨_, rfl, ⟨h.nonempty, ?_, ?_, h.size⟩, ?_⟩
      · intro d hd
        obtain rfl : data = d := Option.some.inj hd
        dsimp only
        omega
      · intro hnil
        cases hnil
      · dsimp only
        rw [← List.drop_drop, List.flatten_cons, List.drop_append_of_le_length hoffset.le]
        have hin : min (answers.headD 0) (data.length - nSendOffset) ≤ (data.drop nSendOffset).length := by
          rw [List.length_drop]
          exact Nat.min_le_right _ _
        rw [List.drop_append_of_le_length hin, ← List.append_assoc, List.take_append_drop]

/-- What a node has sent and what it has yet to send are the frames of its messages. -/
structure SendState.Sends (env : NetEnv) (ms : List Message) (s : SendState) : Prop where
  queued : Queued s.vSendMsg s.nSendOffset s.nSendSize
  stream : s.sent ++ s.vSendMsg.flatten.drop s.nSendOffset = (ms.map (Message.data env)).flatten

theorem SendState.Sends.socketSendData {env : NetEnv} {ms : List Message} {s : SendState} (h : s.Sends env ms)
    (answers : List Nat) : ∃ s', socketSendData s answers = some s' ∧ s'.Sends env ms := by
  rcases sendLoop_spec s.vSendMsg s.nSendOffset s.nSendSize answers h.queued with ⟨s', hloop, hqueued, hsent⟩
  have hassert : ¬ (s'.vSendMsg = [] ∧ (s'.nSendOffset ≠ 0 ∨ s'.nSendSize ≠ 0)) := by
    rintro ⟨hnil, hoffset | hsize⟩
    · exact hoffset (hqueued.offset_nil hnil)
    · refine hsize ?_
      rw [hqueued.size, hnil]
      rfl
  rw [Dobbscoin.socketSendData, hloop]
  dsimp only
  rw [if_neg hassert]
  refine ⟨_, rfl, hqueued, ?_⟩
  rw [List.append_assoc, hsent, h.stream]

theorem SendState.Sends.pushMessage {env : NetEnv} {ms : List Message} {s : SendState} (h : s.Sends env ms)
    (m : Message) (answers : List Nat) :
    ∃ s', pushMessage env s m answers = some s' ∧ s'.Sends env (ms ++ [m]) := by
  have hdata : 0 < (m.data env).length := by
    rw [m.data_length]
    exact Nat.lt_of_lt_of_le (by decide) (Nat.le_add_right headerSize _)
  have hpushed : SendState.Sends env (ms ++ [m])
      { s with vSendMsg := s.vSendMsg ++ [m.data env], nSendSize := s.nSendSize + (m.data env).length } := by
    constructor
    · constructor
      · intro d hd
        rcases List.mem_append.1 hd with hd | hd
        · exact h.queued.nonempty d hd
        · rw [List.mem_singleton.1 hd]
          exact List.length_pos_iff.1 hdata
      · intro d hd
        cases hqueue : s.vSendMsg with
        | nil =>
          rw [hqueue] at hd
          obtain rfl : m.data env = d := Option.some.inj hd
          rw [h.queued.offset_nil hqueue]
          exact hdata
        | cons data queue =>
          rw [hqueue] at hd
          exact h.queued.offset d (by rw [hqueue]; exact hd)
      · intro hnil
        exact absurd hnil (List.append_ne_nil_of_right_ne_nil _ (List.cons_ne_nil _ _))
      · simp [h.queued.size]
    · have hoffset : s.nSendOffset ≤ s.vSendMsg.flatten.length := by
        cases hqueue : s.vSendMsg with
        | nil => exact (h.queued.offset_nil hqueue).le
        | cons data queue =>
          have hlt := h.queued.offset data (by rw [hqueue]; rfl)
          rw [List.flatten_cons, List.length_append]
          exact hlt.le.trans (Nat.le_add_right _ _)
      dsimp only
      rw [List.flatten_append, List.drop_append_of_le_length hoffset, ← List.append_assoc, h.stream, List.map_append,
        List.flatten_append]
      rfl
  unfold Dobbscoin.pushMessage
  dsimp only
  split_ifs
  · exact hpushed.socketSendData answers
  · exact ⟨_, rfl, hpushed⟩

/-- A run never fails an assertion. -/
theorem SendState.Sends.run {env : NetEnv} {ms : List Message} {s : SendState} (h : s.Sends env ms)
    (events : List SendEvent) : ∃ s', runSends env s events = some s' ∧ s'.Sends env (ms ++ pushed events) := by
  induction events generalizing ms s with
  | nil => exact ⟨s, rfl, by rwa [pushed, List.append_nil]⟩
  | cons e events ih =>
    cases e with
    | push m answers =>
      rcases h.pushMessage m answers with ⟨s', hpush, hs'⟩
      rcases ih hs' with ⟨s'', hrun, hs''⟩
      refine ⟨s'', ?_, ?_⟩
      · rw [runSends, SendEvent.apply, hpush, Option.bind_some, hrun]
      · rw [pushed, List.append_cons]
        exact hs''
    | socketReady answers =>
      rcases h.socketSendData answers with ⟨s', hsend, hs'⟩
      rcases ih hs' with ⟨s'', hrun, hs''⟩
      refine ⟨s'', ?_, hs''⟩
      rw [runSends, SendEvent.apply, hsend, Option.bind_some, hrun]

/-! ## The receiving side -/

namespace CNetMessage

/-- The message has taken in these bytes, a part of a frame. -/
structure Holds (env : NetEnv) (m : Message) (part : Bytes) (msg : CNetMessage) : Prop where
  isPrefix : part <+: m.data env
  header : part.length < headerSize → msg.in_data = false ∧ msg.nHdrPos = part.length ∧
    msg.hdrbuf.length = headerSize ∧ msg.hdrbuf.take part.length = part ∧ msg.vRecv = [] ∧ msg.nDataPos = 0
  data : headerSize ≤ part.length → msg.in_data = true ∧ msg.hdr = m.header env ∧
    msg.nDataPos = part.length - headerSize ∧ msg.nDataPos ≤ msg.vRecv.length ∧
    msg.vRecv.length ≤ m.payload.length ∧ msg.vRecv.take msg.nDataPos = part.drop headerSize

section

variable {env : NetEnv} {m : Message} {part : Bytes} {msg : CNetMessage}

theorem holds_new (env : NetEnv) (m : Message) : Holds env m [] (new env) where
  isPrefix := List.nil_prefix
  header _ := ⟨rfl, rfl, rfl, rfl, rfl, rfl⟩
  data h := absurd h (by decide)

/-- It is complete when it has the whole frame. -/
theorem Holds.complete_iff (h : Holds env m part msg) : msg.complete = true ↔ part = m.data env := by
  have hlength : part = m.data env ↔ part.length = headerSize + m.payload.length := by
    rw [← m.data_length env]
    exact ⟨fun heq => by rw [heq], h.isPrefix.eq_of_length⟩
  rw [hlength]
  by_cases hhdr : part.length < headerSize
  · rw [complete, (h.header hhdr).1]
    simp only [Bool.false_and, Bool.false_eq_true, false_iff]
    omega
  · rcases h.data (Nat.not_lt.1 hhdr) with ⟨hin, hhdr', hpos, -, -, -⟩
    rw [complete, hin, hhdr', hpos, Bool.true_and, beq_iff_eq, Message.header]
    dsimp only
    omega

/-- What a message with the whole frame has in its fields. -/
theorem Holds.whole (h : Holds env m (m.data env) msg) : msg.hdr = m.header env ∧ msg.vRecv = m.payload := by
  have hge : headerSize ≤ (m.data env).length := by
    rw [m.data_length]
    exact Nat.le_add_right _ _
  rcases h.data hge with ⟨-, hhdr, hpos, -, hle, htake⟩
  rw [m.data_length, Nat.add_sub_cancel_left] at hpos
  rw [m.data_drop, hpos, List.take_of_length_le hle] at htake
  exact ⟨hhdr, htake⟩

theorem le_length_grow (vRecv : Bytes) {nMessageSize needed : Nat} (hneeded : needed ≤ nMessageSize) :
    needed ≤ (grow vRecv nMessageSize needed).length := by
  unfold grow
  split_ifs
  · rw [List.length_append, List.length_replicate]
    omega
  · omega

theorem length_grow_le {vRecv : Bytes} {nMessageSize needed : Nat} (hlength : vRecv.length ≤ nMessageSize) :
    (grow vRecv nMessageSize needed).length ≤ nMessageSize := by
  unfold grow
  split_ifs
  · rw [List.length_append, List.length_replicate]
    omega
  · exact hlength

theorem take_grow {vRecv : Bytes} {nMessageSize needed n : Nat} (hn : n ≤ vRecv.length) :
    (grow vRecv nMessageSize needed).take n = vRecv.take n := by
  unfold grow
  split_ifs
  · exact List.take_append_of_le_length hn
  · rfl

/-- The number of bytes of a chunk that one call takes. -/
def wanted (env : NetEnv) (m : Message) (part pch : Bytes) : Nat :=
  min (if part.length < headerSize then headerSize - part.length else (m.data env).length - part.length) pch.length

theorem length_take_wanted (pch : Bytes) : (pch.take (wanted env m part pch)).length = wanted env m part pch := by
  rw [List.length_take]
  exact Nat.min_eq_left (Nat.min_le_right _ _)

theorem Holds.readHeader (h : Holds env m part msg) (hhdr : part.length < headerSize) {pch : Bytes}
    (hinitial : part ++ pch.take (wanted env m part pch) <+: m.data env) :
    ∃ msg', msg.readHeader pch = some (wanted env m part pch, msg') ∧
      Holds env m (part ++ pch.take (wanted env m part pch)) msg' := by
  rcases h.header hhdr with ⟨hin, hpos, hlength, htake, hrecv, hdatapos⟩
  have hn : min (24 - msg.nHdrPos) pch.length = wanted env m part pch := by
    rw [wanted, if_pos hhdr, hpos]
    rfl
  have hle : wanted env m part pch ≤ headerSize - part.length := by
    rw [wanted, if_pos hhdr]
    exact Nat.min_le_left _ _
  have hpart' : (part ++ pch.take (wanted env m part pch)).length = part.length + wanted env m part pch := by
    rw [List.length_append, length_take_wanted]
  have hbuf : (overwrite msg.hdrbuf msg.nHdrPos (pch.take (wanted env m part pch))).length = headerSize := by
    rw [length_overwrite, hlength]
    rw [length_take_wanted, hlength, hpos]
    omega
  have hbuftake : (overwrite msg.hdrbuf msg.nHdrPos (pch.take (wanted env m part pch))).take
      (part.length + wanted env m part pch) = part ++ pch.take (wanted env m part pch) := by
    have hin : msg.nHdrPos ≤ msg.hdrbuf.length := by
      rw [hpos, hlength]
      exact hhdr.le
    have hcopied := take_overwrite (pch.take (wanted env m part pch)) hin
    rw [length_take_wanted, hpos, htake] at hcopied
    rw [hpos]
    exact hcopied
  unfold CNetMessage.readHeader
  simp only [hn]
  split_ifs with hmore
  · refine ⟨_, rfl, hinitial, fun _ => ⟨hin, ?_, hbuf, ?_, hrecv, hdatapos⟩, fun hge => ?_⟩
    · rw [hpart']
      exact congrArg (· + wanted env m part pch) hpos
    · rw [hpart']
      exact hbuftake
    · rw [hpart'] at hge
      rw [hpos] at hmore
      exact absurd hge (Nat.not_le.2 hmore)
  · -- The header is there, and it is the one of the frame.
    have hfull : part.length + wanted env m part pch = headerSize := by
      rw [hpos] at hmore
      have := Nat.not_lt.1 hmore
      rw [headerSize] at hle hhdr ⊢
      omega
    have hheader : overwrite msg.hdrbuf msg.nHdrPos (pch.take (wanted env m part pch)) = (m.header env).put := by
      rw [hfull, List.take_of_length_le hbuf.le] at hbuftake
      rw [hbuftake, ← m.data_take env]
      apply List.prefix_iff_eq_take.1 hinitial |>.trans
      rw [hpart', hfull]
    have hsize : ¬ maxSize < (m.header env).nMessageSize := by
      exact Nat.not_lt.2 (m.payload_length.trans (by decide))
    rw [hheader, (m.header_fits env).get_put]
    dsimp only
    rw [if_neg hsize]
    refine ⟨_, rfl, hinitial, fun hlt => ?_, fun _ => ⟨rfl, rfl, ?_, ?_, ?_, ?_⟩⟩
    · rw [hpart', hfull] at hlt
      exact absurd hlt (Nat.lt_irrefl _)
    · rw [hpart', hfull, Nat.sub_self]
      exact hdatapos
    · exact hdatapos.le.trans (Nat.zero_le _)
    · dsimp only
      rw [hrecv]
      exact Nat.zero_le _
    · dsimp only
      rw [hrecv, List.take_nil, List.drop_of_length_le (by rw [hpart', hfull])]

theorem Holds.readData (h : Holds env m part msg) (hhdr : headerSize ≤ part.length) {pch : Bytes}
    (hinitial : part ++ pch.take (wanted env m part pch) <+: m.data env) :
    (msg.readData pch).1 = wanted env m part pch ∧
      Holds env m (part ++ pch.take (wanted env m part pch)) (msg.readData pch).2 := by
  rcases h.data hhdr with ⟨hin, hhdr', hpos, hlow, hhigh, htake⟩
  have hdata := m.data_length env
  have hn : min (msg.hdr.nMessageSize - msg.nDataPos) pch.length = wanted env m part pch := by
    rw [wanted, if_neg (Nat.not_lt.2 hhdr), hhdr', hpos, hdata, Message.header]
    dsimp only
    congr 1
    omega
  have hpart' : (part ++ pch.take (wanted env m part pch)).length = part.length + wanted env m part pch := by
    rw [List.length_append, length_take_wanted]
  have hfits : msg.nDataPos + wanted env m part pch ≤ m.payload.length := by
    have hle := hinitial.length_le
    rw [hpart', hdata] at hle
    omega
  have hsize : msg.hdr.nMessageSize = m.payload.length := by rw [hhdr', Message.header]
  have hgrown := le_length_grow msg.vRecv hfits
  rw [hsize] at hn
  unfold CNetMessage.readData
  simp only [hsize, hn]
  refine ⟨trivial, hinitial, fun hlt => ?_, fun _ => ⟨hin, hhdr', ?_, ?_, ?_, ?_⟩⟩
  · rw [hpart'] at hlt
    exact absurd hlt (by omega)
  · rw [hpart', hpos]
    dsimp only
    omega
  · dsimp only
    rw [length_overwrite]
    · exact hgrown
    · rw [length_take_wanted]
      exact hgrown
  · dsimp only
    rw [length_overwrite]
    · exact length_grow_le hhigh
    · rw [length_take_wanted]
      exact hgrown
  · have hcopied := take_overwrite (pch.take (wanted env m part pch)) ((Nat.le_add_right _ _).trans hgrown)
    rw [length_take_wanted, take_grow hlow, htake] at hcopied
    dsimp only
    rw [hcopied, List.drop_append_of_le_length hhdr]

/-- One call on a part of a frame takes bytes up to the end of the header, or up to the end of the frame. -/
theorem Holds.absorb (h : Holds env m part msg) {pch : Bytes}
    (hinitial : part ++ pch.take (wanted env m part pch) <+: m.data env) :
    ∃ msg', msg.absorb pch = some (wanted env m part pch, msg') ∧
      Holds env m (part ++ pch.take (wanted env m part pch)) msg' := by
  unfold CNetMessage.absorb
  by_cases hhdr : part.length < headerSize
  · rw [if_pos (h.header hhdr).1]
    exact h.readHeader hhdr hinitial
  · have hge := Nat.not_lt.1 hhdr
    rcases h.readData hge hinitial with ⟨hcopied, hholds⟩
    rw [if_neg (by rw [(h.data hge).1]; exact Bool.noConfusion)]
    exact ⟨_, by rw [← hcopied], hholds⟩

/-- A message that holds a part of a frame is never too large. -/
theorem Holds.size_le (h : Holds env m part msg) :
    ¬ (msg.in_data = true ∧ maxProtocolMessageLength < msg.hdr.nMessageSize) := by
  rintro ⟨hin, hsize⟩
  by_cases hhdr : part.length < headerSize
  · rw [(h.header hhdr).1] at hin
    cases hin
  · rw [(h.data (Nat.not_lt.1 hhdr)).2.1] at hsize
    exact absurd m.payload_length (Nat.not_le.2 hsize)

end

end CNetMessage

/-- The receiver has the frames of `done` in full, and of the next one the bytes in `part`. -/
inductive Receives (env : NetEnv) (done : List Message) : List Message → Bytes → List CNetMessage → Prop
  | between {rest : List Message} {vRecvMsg : List CNetMessage}
    (hdone : List.Forall₂ (fun msg m => CNetMessage.Holds env m (m.data env) msg) vRecvMsg done) :
    Receives env done rest [] vRecvMsg
  | within {m : Message} {rest : List Message} {part : Bytes} {vRecvMsg : List CNetMessage} {msg : CNetMessage}
    (hdone : List.Forall₂ (fun msg m => CNetMessage.Holds env m (m.data env) msg) vRecvMsg done)
    (hholds : CNetMessage.Holds env m part msg) (hpart : part ≠ m.data env) :
    Receives env done (m :: rest) part (vRecvMsg ++ [msg])

section

variable {env : NetEnv} {done rest : List Message} {part : Bytes} {vRecvMsg : List CNetMessage}

theorem all_complete {ms : List Message}
    (h : List.Forall₂ (fun msg m => CNetMessage.Holds env m (m.data env) msg) vRecvMsg ms) :
    ∀ msg ∈ vRecvMsg, msg.complete = true := by
  induction h with
  | nil => exact fun _ hmem => absurd hmem List.not_mem_nil
  | cons hholds _ ih =>
    intro msg hmem
    rcases List.mem_cons.1 hmem with rfl | hmem
    · exact hholds.complete_iff.2 rfl
    · exact ih msg hmem

/-- The message that takes in the next bytes: the last one, or a new one behind it. -/
structure Current (env : NetEnv) (done : List Message) (m : Message) (part : Bytes)
    (vRecvMsg earlier : List CNetMessage) (msg : CNetMessage) : Prop where
  done : List.Forall₂ (fun msg m => CNetMessage.Holds env m (m.data env) msg) earlier done
  holds : CNetMessage.Holds env m part msg
  part : part ≠ m.data env
  earlier : (if vRecvMsg.getLast?.all CNetMessage.complete then vRecvMsg else vRecvMsg.dropLast) = earlier
  msg : (if vRecvMsg.getLast?.all CNetMessage.complete then .new env else vRecvMsg.getLast?.getD (.new env)) = msg

theorem Receives.current (h : Receives env done rest part vRecvMsg) {pch : Bytes} (hpch : pch ≠ [])
    (hstream : part ++ pch <+: (rest.map (Message.data env)).flatten) :
    ∃ m rest' earlier msg, rest = m :: rest' ∧ Current env done m part vRecvMsg earlier msg := by
  cases h with
  | between hdone =>
    cases rest with
    | nil => exact absurd (List.prefix_nil.1 hstream) hpch
    | cons m rest' =>
      have hlast : vRecvMsg.getLast?.all CNetMessage.complete = true := by
        cases hget : vRecvMsg.getLast? with
        | none => rfl
        | some msg => exact all_complete hdone msg (List.mem_of_getLast? hget)
      refine ⟨m, rest', vRecvMsg, .new env, rfl, hdone, CNetMessage.holds_new env m, fun heq => ?_, if_pos hlast,
        if_pos hlast⟩
      have hlength := congrArg List.length heq
      rw [m.data_length, List.length_nil, headerSize] at hlength
      omega
  | @within m rest' _ earlier msg hdone hholds hpart =>
    have hlast : ¬ (earlier ++ [msg]).getLast?.all CNetMessage.complete = true := by
      rw [List.getLast?_concat, Option.all_some]
      exact fun hcomplete => hpart (hholds.complete_iff.1 hcomplete)
    refine ⟨m, rest', earlier, msg, rfl, hdone, hholds, hpart, ?_, ?_⟩
    · rw [if_neg hlast, List.dropLast_concat]
    · rw [if_neg hlast, List.getLast?_concat, Option.getD_some]

/-- What a call takes belongs to the frame that it is at. -/
theorem wanted_prefix {m : Message} {msg : CNetMessage} {pch stream : Bytes}
    (hholds : CNetMessage.Holds env m part msg) (hpart : part ≠ m.data env) (hpch : pch ≠ [])
    (hstream : part ++ pch <+: m.data env ++ stream) :
    0 < CNetMessage.wanted env m part pch ∧ part ++ pch.take (CNetMessage.wanted env m part pch) <+: m.data env := by
  have hlt : part.length < (m.data env).length := by
    refine lt_of_le_of_ne hholds.isPrefix.length_le fun heq => hpart ?_
    exact hholds.isPrefix.eq_of_length heq
  have hpos : 0 < pch.length := List.length_pos_iff.2 hpch
  have hframe := m.data_length env
  constructor
  · unfold CNetMessage.wanted
    split_ifs <;> omega
  · have hfront : part ++ pch.take (CNetMessage.wanted env m part pch) <+: m.data env ++ stream :=
      ((List.prefix_append_right_inj part).2 (List.take_prefix _ pch)).trans hstream
    refine List.prefix_of_prefix_length_le hfront (List.prefix_append _ _) ?_
    rw [List.length_append, CNetMessage.length_take_wanted]
    unfold CNetMessage.wanted
    split_ifs <;> omega

/-- The loop takes in a chunk of the stream. -/
theorem Receives.loop (h : Receives env done rest part vRecvMsg) {fuel : Nat} {pch : Bytes}
    (hfuel : pch.length ≤ fuel) (hstream : part ++ pch <+: (rest.map (Message.data env)).flatten) :
    ∃ vRecvMsg' done' rest' part', receiveLoop env fuel vRecvMsg pch = some (true, vRecvMsg') ∧
      Receives env done' rest' part' vRecvMsg' ∧ done' ++ rest' = done ++ rest ∧
      (done'.map (Message.data env)).flatten ++ part' = (done.map (Message.data env)).flatten ++ (part ++ pch) := by
  induction fuel generalizing done rest part vRecvMsg pch with
  | zero =>
    obtain rfl : pch = [] := List.length_eq_zero_iff.1 (Nat.le_zero.1 hfuel)
    exact ⟨vRecvMsg, done, rest, part, rfl, h, rfl, by rw [List.append_nil]⟩
  | succ fuel ih =>
    by_cases hpch : pch = []
    · subst hpch
      exact ⟨vRecvMsg, done, rest, part, rfl, h, rfl, by rw [List.append_nil]⟩
    rcases h.current hpch hstream with ⟨m, rest', earlier, msg, rfl, hcurrent⟩
    rw [List.map_cons, List.flatten_cons] at hstream
    rcases wanted_prefix hcurrent.holds hcurrent.part hpch hstream with ⟨hpos, hinitial⟩
    rcases hcurrent.holds.absorb hinitial with ⟨msg', habsorb, hholds⟩
    have hround : receiveLoop env (fuel + 1) vRecvMsg pch =
        receiveLoop env fuel (earlier ++ [msg']) (pch.drop (CNetMessage.wanted env m part pch)) := by
      rw [receiveLoop]
      · simp only [hcurrent.earlier, hcurrent.msg, habsorb, if_neg hholds.size_le]
      · exact hpch
    have hfuel' : (pch.drop (CNetMessage.wanted env m part pch)).length ≤ fuel := by
      rw [List.length_drop]
      omega
    have hcut : part ++ pch.take (CNetMessage.wanted env m part pch) ++
        pch.drop (CNetMessage.wanted env m part pch) = part ++ pch := by
      rw [List.append_assoc, List.take_append_drop]
    rw [hround]
    by_cases hwhole : part ++ pch.take (CNetMessage.wanted env m part pch) = m.data env
    · have hnext : Receives env (done ++ [m]) rest' [] (earlier ++ [msg']) := by
        refine .between (List.rel_append hcurrent.done ?_)
        exact .cons (by rwa [hwhole] at hholds) .nil
      rw [hwhole] at hcut
      rw [← hcut, List.prefix_append_right_inj] at hstream
      rcases ih hnext hfuel' hstream with ⟨v', done', rest'', part', hloop, hreceives, happend, hbytes⟩
      refine ⟨v', done', rest'', part', hloop, hreceives, ?_, ?_⟩
      · rw [happend, List.append_assoc]
        rfl
      · rw [hbytes, ← hcut, List.map_append, List.flatten_append]
        simp
    · have hnext : Receives env done (m :: rest') (part ++ pch.take (CNetMessage.wanted env m part pch))
          (earlier ++ [msg']) := .within hcurrent.done hholds hwhole
      rw [← hcut, ← List.flatten_cons, ← List.map_cons] at hstream
      rcases ih hnext hfuel' hstream with ⟨v', done', rest'', part', hloop, hreceives, happend, hbytes⟩
      refine ⟨v', done', rest'', part', hloop, hreceives, happend, ?_⟩
      rw [hbytes, hcut]

/-- All the chunks, one after the other. -/
theorem Receives.chunks (h : Receives env done rest part vRecvMsg) (chunks : List Bytes)
    (hstream : part ++ chunks.flatten <+: (rest.map (Message.data env)).flatten) :
    ∃ vRecvMsg' done' rest' part', receiveChunks env vRecvMsg chunks = some (true, vRecvMsg') ∧
      Receives env done' rest' part' vRecvMsg' ∧ done' ++ rest' = done ++ rest ∧
      (done'.map (Message.data env)).flatten ++ part' =
        (done.map (Message.data env)).flatten ++ (part ++ chunks.flatten) := by
  induction chunks generalizing done rest part vRecvMsg with
  | nil => exact ⟨vRecvMsg, done, rest, part, rfl, h, rfl, by rw [List.flatten_nil, List.append_nil]⟩
  | cons chunk chunks ih =>
    rw [List.flatten_cons, ← List.append_assoc] at hstream
    rcases h.loop le_rfl ((List.prefix_append _ _).trans hstream) with
      ⟨v, done₁, rest₁, part₁, hloop, hreceives, happend, hbytes⟩
    -- The bytes that are still to come are those behind what has been taken in.
    have hstream' : part₁ ++ chunks.flatten <+: (rest₁.map (Message.data env)).flatten := by
      rw [← List.prefix_append_right_inj (done₁.map (Message.data env)).flatten, ← List.append_assoc, hbytes,
        ← List.flatten_append, ← List.map_append, happend, List.map_append, List.flatten_append, List.append_assoc,
        List.prefix_append_right_inj]
      exact hstream
    rcases ih hreceives hstream' with ⟨v', done₂, rest₂, part₂, hchunks, hreceives', happend', hbytes'⟩
    refine ⟨v', done₂, rest₂, part₂, ?_, hreceives', happend'.trans happend, ?_⟩
    · rw [receiveChunks, receiveMsgBytes, hloop]
      exact hchunks
    · rw [hbytes', ← List.append_assoc, hbytes, List.flatten_cons]
      simp only [List.append_assoc]

/-- The part of a frame is less than the frame. -/
theorem Receives.part_lt (h : Receives env done rest part vRecvMsg) :
    ∀ m ∈ rest.head?, part.length < (m.data env).length := by
  intro m hm
  cases h with
  | between =>
    rw [m.data_length, List.length_nil, headerSize]
    omega
  | within hdone hholds hpart =>
    obtain rfl := Option.some.inj hm
    exact lt_of_le_of_ne hholds.isPrefix.length_le fun heq => hpart (hholds.isPrefix.eq_of_length heq)

/-- Behind as many bytes no more frames can be complete. -/
theorem Receives.le_of_stream {done' rest' : List Message} {part' : Bytes} {more : List Message}
    (h : Receives env done rest part vRecvMsg) (hdone : done' = done ++ more) (hrest : rest = more ++ rest')
    (hbytes : (done.map (Message.data env)).flatten ++ part = (done'.map (Message.data env)).flatten ++ part') :
    more = [] := by
  cases more with
  | nil => rfl
  | cons m more =>
    have hlt := h.part_lt m (by rw [hrest]; rfl)
    rw [hdone, List.map_append, List.flatten_append, List.append_assoc, List.append_cancel_left_eq, List.map_cons,
      List.flatten_cons] at hbytes
    have hlength := congrArg List.length hbytes
    simp only [List.length_append] at hlength
    omega

/-- Which frames are complete is a matter of the bytes alone. -/
theorem Receives.done_unique {done' rest' : List Message} {part' : Bytes} {vRecvMsg' : List CNetMessage}
    (h : Receives env done rest part vRecvMsg) (h' : Receives env done' rest' part' vRecvMsg')
    (happend : done ++ rest = done' ++ rest')
    (hbytes : (done.map (Message.data env)).flatten ++ part = (done'.map (Message.data env)).flatten ++ part') :
    done = done' := by
  rcases List.append_eq_append_iff.1 happend with ⟨more, hdone, hrest⟩ | ⟨more, hdone, hrest⟩
  · obtain rfl := h.le_of_stream hdone hrest hbytes
    rw [hdone, List.append_nil]
  · obtain rfl := h'.le_of_stream hdone hrest hbytes.symm
    rw [hdone, List.append_nil]

/-- The messages that are complete, each by its command, its checksum and its payload. -/
def completed (vRecvMsg : List CNetMessage) : List (Bytes × Nat × Bytes) :=
  (vRecvMsg.filter CNetMessage.complete).map fun msg => (msg.hdr.getCommand, msg.hdr.nChecksum, msg.vRecv)

theorem Receives.completed_eq (h : Receives env done rest part vRecvMsg) :
    completed vRecvMsg = done.map fun m => (m.pszCommand, m.checksum env, m.payload) := by
  have hall : ∀ {v : List CNetMessage} {ms : List Message},
      List.Forall₂ (fun msg m => CNetMessage.Holds env m (m.data env) msg) v ms →
      completed v = ms.map fun m => (m.pszCommand, m.checksum env, m.payload) := by
    intro v ms hms
    induction hms with
    | nil => rfl
    | @cons msg m v ms hholds _ ih =>
      rcases hholds.whole with ⟨hhdr, hrecv⟩
      unfold completed at ih ⊢
      rw [List.filter_cons_of_pos (hholds.complete_iff.2 rfl), List.map_cons, List.map_cons, ih, hhdr, hrecv,
        m.getCommand_header]
      rfl
  cases h with
  | between hdone => exact hall hdone
  | @within m _ _ v msg hdone hholds hpart =>
    have hincomplete : ¬ msg.complete = true := fun hcomplete => hpart (hholds.complete_iff.1 hcomplete)
    rw [← hall hdone, completed, completed, List.filter_append, List.filter_cons_of_neg hincomplete, List.filter_nil,
      List.append_nil]

end

/-- **Framing is transparent**: however the messages are pushed and the socket takes their bytes, no assertion
fails; and however the bytes are cut, the receiver has the messages whose last byte has been sent, in order. -/
theorem framing_transparent (env : NetEnv) (events : List SendEvent) :
    ∃ s done rest, runSends env ⟨[], 0, 0, []⟩ events = some s ∧ pushed events = done ++ rest ∧
      (s.vSendMsg = [] → rest = []) ∧
      (∀ m ∈ rest.head?, s.sent.length < ((done ++ [m]).map (Message.data env)).flatten.length) ∧
      ∀ chunks : List Bytes, chunks.flatten = s.sent →
        ∃ vRecvMsg, receiveChunks env [] chunks = some (true, vRecvMsg) ∧
          completed vRecvMsg = done.map fun m => (m.pszCommand, m.checksum env, m.payload) := by
  have hqueued : SendState.Queued [] 0 0 := by
    constructor
    · exact fun _ h => absurd h List.not_mem_nil
    · intro _ h
      cases h
    · exact fun _ => rfl
    · rfl
  have hinit : SendState.Sends env [] ⟨[], 0, 0, []⟩ := ⟨hqueued, rfl⟩
  rcases hinit.run events with ⟨s, hrun, hsends⟩
  rw [List.nil_append] at hsends
  have hreceive : ∀ chunks : List Bytes, chunks.flatten = s.sent →
      ∃ v done rest part, receiveChunks env [] chunks = some (true, v) ∧ Receives env done rest part v ∧
        done ++ rest = pushed events ∧ (done.map (Message.data env)).flatten ++ part = s.sent := by
    intro chunks hchunks
    have hstart : Receives env [] (pushed events) [] [] := .between .nil
    have hstream : [] ++ chunks.flatten <+: ((pushed events).map (Message.data env)).flatten := by
      rw [List.nil_append, hchunks, ← hsends.stream]
      exact List.prefix_append _ _
    rcases hstart.chunks chunks hstream with ⟨v, done, rest, part, hv, hreceives, happend, hbytes⟩
    refine ⟨v, done, rest, part, hv, hreceives, happend, ?_⟩
    rw [hbytes, ← hchunks]
    rfl
  rcases hreceive [s.sent] List.flatten_singleton with ⟨v, done, rest, part, -, hreceives, happend, hbytes⟩
  refine ⟨s, done, rest, hrun, happend.symm, ?_, ?_, ?_⟩
  · -- With an empty queue everything has been sent.
    intro hnil
    have hall := hsends.stream
    rw [hnil, List.flatten_nil, List.drop_nil, List.append_nil, ← hbytes, ← happend, List.map_append,
      List.flatten_append, List.append_cancel_left_eq] at hall
    cases rest with
    | nil => rfl
    | cons m rest =>
      have hlt := hreceives.part_lt m rfl
      rw [hall, List.map_cons, List.flatten_cons, List.length_append] at hlt
      omega
  · intro m hm
    have hlt := hreceives.part_lt m hm
    rw [← hbytes, List.map_append, List.flatten_append, List.length_append, List.length_append]
    simpa using hlt
  · intro chunks hchunks
    rcases hreceive chunks hchunks with ⟨v', done', rest', part', hv', hreceives', happend', hbytes'⟩
    obtain rfl := hreceives.done_unique hreceives' (happend.trans happend'.symm) (hbytes.trans hbytes'.symm)
    exact ⟨v', hv', hreceives'.completed_eq⟩

end Dobbscoin
