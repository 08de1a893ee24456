import ThirdPersonMP.Network.Decoder

/-!
# The IO thread

`FTCPSocketRunnable` (`TcpSocketRunnable.cpp`) is the body of the IO thread that each
effective `FTCPSocket::Connect` starts. The thread shares the send buffer, the receive
buffer and the message queue with the game thread and is told to stop through the atomic
`bManuallyStop`, so its run is a sequence of small steps between which the game thread
may act: `Pc` says which statement comes next, and `ioStep` takes it.

What the thread asks of its environment (`CreateSocket`, `GetHostByName`, `Connect`,
`GetConnectionState`, `Send`, `HasPendingData`, `Recv`) is answered by the label of the
step, `IoAct`. The environment keeps the contract of the calls: `Send` and `Recv`
handle between none and all of the bytes they are offered, the bytes that `Recv`
delivers are the next ones of the stream that the peer sends (`incoming`), and
`HasPendingData` announces no more than are still to come.

`FRunnableThread` calls `Init`; when it returns true, `Run` and then `Exit`; when it
returns false, nothing more.

* `IoStep` lists what a step can do; `IoStep.of_ioStep` is the inversion of `ioStep`.
-/

namespace ThirdPersonMP.Network

open Base

/-! ### State -/

/-- What the game thread is asked to run later, by `AsyncTask(ENamedThreads::GameThread, …)`. -/
inductive Task where
  /-- `ConnectDelegate.ExecuteIfBound(true)`. -/
  | connected
  /-- `Disconnect()`, posted by `ConnectionErrorDelegate`. -/
  | connectionError
  deriving DecidableEq

/-- The next statement of the IO thread. -/
inductive Pc where
  /-- `Init()`. -/
  | init
  /-- The test of the outer `while` of `Run` (64–66). -/
  | loopTest
  /-- `!bManuallyStop && !bConnectionError` of the sending loop (70–71). -/
  | sendTest
  /-- `SendBuffer.Peek(Buffer)` (72). -/
  | peek
  /-- `SocketPtr->Send(RawData + SendedCount, TotalCount - SendedCount, BytesSent)` (80). -/
  | sending (buffer : Bytes) (sendedCount : ℕ)
  /-- `if (!bConnectionError) SendBuffer.Pop()` (89–92). -/
  | sent (buffer : Bytes) (sendedCount : ℕ)
  /-- The test after sending (95–98). -/
  | sendDone
  /-- `SocketPtr->HasPendingData(PendingDataSize)` (102), and the growing of `RecvData`. -/
  | recvTest
  /-- `SocketPtr->Recv(…)` (116). -/
  | receiving (originalNum pendingDataSize bytesReadTotal : ℕ)
  /-- `if (!bManuallyStop && !bConnectionError)` before the decode callback (125). -/
  | received (originalNum : ℕ)
  /-- In the decode callback, before a round of its loop. -/
  | decoding
  /-- The test after receiving (131–134). -/
  | recvDone
  /-- `Run` has returned: `Exit()`. -/
  | exit
  /-- The thread has completed. -/
  | ended
  /-- Undefined behaviour: a count has left its array. -/
  | fault
  deriving DecidableEq

/-- The members of `FTCPSocketRunnable`, its `FSocket`, and a history that no step reads. -/
structure FTCPSocketRunnable where
  /-- Which effective `Connect` made it. -/
  session : ℕ
  /-- All that the peer sends on this connection. -/
  peer : Bytes
  /-- The next statement of its thread. -/
  pc : Pc := .init
  /-- `bConnectionError`. -/
  bConnectionError : Bool := false
  /-- `bManuallyStop`. -/
  bManuallyStop : Bool := false
  /-- `SocketPtr.IsValid()`. -/
  socketPtr : Bool := false
  /-- The socket: what `Recv` has still to deliver. -/
  incoming : Bytes := peer
  /-- The socket: what `Send` has accepted. -/
  accepted : Bytes := []
  /-- History: the arrays passed to `FTCPSocket::Send` in this session. -/
  enqueued : List Bytes := []
  /-- History: the arrays popped from `SendBuffer`. -/
  popped : List Bytes := []
  /-- History: the bytes of the chunks that the decode callback was run on. -/
  handed : Bytes := []
  /-- History: a `Recv` has failed. -/
  recvFailed : Bool := false
  /-- History: the test before the decode callback has seen `bManuallyStop`. -/
  stopSeen : Bool := false
  /-- History: how often `ConnectionErrorDelegate` was executed. -/
  reported : ℕ := 0
  deriving DecidableEq

/-- An array on `UMgrMessage::MessageQueue`. -/
structure Message where
  /-- History: the session whose IO thread enqueued it. -/
  session : ℕ
  /-- The bytes. -/
  data : Bytes
  deriving DecidableEq

/-- What the IO thread shares with the game thread. -/
structure Shared where
  /-- `FTCPSocket::SendBuffer`. -/
  sendBuffer : List Bytes := []
  /-- `FTCPSocket::RecvData`, the `DataBuffer` of the decoder. -/
  recvData : Bytes := []
  /-- `UMgrMessage::MessageQueue`. -/
  messageQueue : List Message := []
  /-- The tasks posted to the game thread and not yet run, with the session that posted them. -/
  tasks : List (ℕ × Task) := []
  deriving DecidableEq

/-! ### Steps -/

/-- What the IO thread does next, with the answer of its environment. -/
inductive IoAct where
  /-- `Init`, by whether the socket is created, the host resolved, the connection made. -/
  | init (created resolved connected : Bool)
  /-- The outer loop test, by whether `GetConnectionState` is `SCS_Connected`. -/
  | loopTest (connected : Bool)
  /-- The first two tests of the sending loop. -/
  | sendTest
  /-- `Peek`. -/
  | peek
  /-- `FSocket::Send`: failure, or `BytesSent`. -/
  | send (bytesSent : Option ℕ)
  /-- `Pop`, unless an error occurred. -/
  | pop
  /-- The test after sending. -/
  | sendDone
  /-- `HasPendingData`: false, or `PendingDataSize`. -/
  | hasPendingData (pendingDataSize : Option UInt32)
  /-- `FSocket::Recv`: failure, or `BytesRead`. -/
  | recv (bytesRead : Option ℕ)
  /-- The test before the decode callback. -/
  | received
  /-- A round of the loop of the decode callback. -/
  | decode
  /-- The test after receiving. -/
  | recvDone
  /-- `Exit`. -/
  | exit
  deriving DecidableEq

namespace FTCPSocketRunnable

variable (t : FTCPSocketRunnable) (m : Shared)

/-- `ConnectionErrorDelegate.ExecuteIfBound()`. -/
def connectionErrorDelegate : FTCPSocketRunnable × Shared :=
  ({ t with reported := t.reported + 1 },
    { m with tasks := m.tasks ++ [(t.session, .connectionError)] })

/-- `Init()` (26–60), and what `FRunnableThread` makes of its result. -/
def init (created resolved connected : Bool) : FTCPSocketRunnable × Shared :=
  if !created then ({ t with pc := .ended }, m)
  else if !resolved then ({ t with socketPtr := true, pc := .ended }, m)
  else if !connected then
    connectionErrorDelegate { t with socketPtr := true, pc := .ended } m
  else
    ({ t with socketPtr := true, pc := .loopTest },
      { m with tasks := m.tasks ++ [(t.session, .connected)] })

/-- `Exit()` (145–155). -/
def exit : FTCPSocketRunnable × Shared :=
  if t.socketPtr && (t.bConnectionError && !t.bManuallyStop) then
    connectionErrorDelegate { t with pc := .ended } m
  else ({ t with pc := .ended }, m)

/-- `SendedCount += BytesSent`, and the test of the `do … while` (86–87). -/
def sendMore (buffer : Bytes) (sendedCount bytesSent : ℕ) : FTCPSocketRunnable :=
  { t with
    accepted := t.accepted ++ (buffer.drop sendedCount).take bytesSent
    pc := if sendedCount + bytesSent < buffer.length then .sending buffer (sendedCount + bytesSent)
      else .sent buffer (sendedCount + bytesSent) }

/-- `BytesReadTotal += BytesRead`, and the test of the `do … while` (122–123). -/
def recvMore (originalNum pendingDataSize bytesReadTotal bytesRead : ℕ) : FTCPSocketRunnable :=
  { t with
    incoming := t.incoming.drop bytesRead
    pc := if bytesReadTotal + bytesRead < pendingDataSize then
        .receiving originalNum pendingDataSize (bytesReadTotal + bytesRead)
      else .received originalNum }

end FTCPSocketRunnable

/-- The IO thread takes its next step; `none` when the label is not of that step, or the
environment breaks its contract. -/
def ioStep (t : FTCPSocketRunnable) (m : Shared) (a : IoAct) :
    Option (FTCPSocketRunnable × Shared) :=
  match t.pc, a with
  | .init, .init created resolved connected => some (t.init m created resolved connected)
  | .loopTest, .loopTest connected =>
    some ({ t with
      pc := if !t.bManuallyStop && t.socketPtr && connected then .sendTest else .exit }, m)
  | .sendTest, .sendTest =>
    some ({ t with
      pc := if !t.bManuallyStop && !t.bConnectionError then .peek else .sendDone }, m)
  | .peek, .peek =>
    match m.sendBuffer with
    | buffer :: _ => some ({ t with pc := .sending buffer 0 }, m)
    | [] => some ({ t with pc := .sendDone }, m)
  | .sending buffer sendedCount, .send none =>
    some ({ t with bConnectionError := true, pc := .sent buffer sendedCount }, m)
  | .sending buffer sendedCount, .send (some bytesSent) =>
    if bytesSent ≤ buffer.length - sendedCount then
      some (t.sendMore buffer sendedCount bytesSent, m)
    else none
  | .sent _ _, .pop =>
    if !t.bConnectionError then
      some ({ t with popped := t.popped ++ m.sendBuffer.take 1, pc := .sendTest },
        { m with sendBuffer := m.sendBuffer.tail })
    else some ({ t with pc := .sendTest }, m)
  | .sendDone, .sendDone =>
    some ({ t with pc := if t.bManuallyStop || t.bConnectionError then .exit else .recvTest }, m)
  | .recvTest, .hasPendingData none => some ({ t with pc := .recvDone }, m)
  | .recvTest, .hasPendingData (some pendingDataSize) =>
    if pendingDataSize.toNat ≤ t.incoming.length then
      -- `OriginalNum + PendingDataSize` is a `uint32` sum, passed as `int32`
      match TArray.setNum m.recvData (toInt32 (.ofNat m.recvData.length + pendingDataSize)) with
      | some recvData =>
        some ({ t with pc := .receiving m.recvData.length pendingDataSize.toNat 0 },
          { m with recvData := recvData })
      | none => some ({ t with pc := .fault }, m)
    else none
  | .receiving originalNum _ _, .recv none =>
    some ({ t with bConnectionError := true, recvFailed := true, pc := .received originalNum }, m)
  | .receiving originalNum pendingDataSize bytesReadTotal, .recv (some bytesRead) =>
    if bytesRead ≤ pendingDataSize - bytesReadTotal ∧ bytesRead ≤ t.incoming.length then
      match TArray.writeAt m.recvData (originalNum + bytesReadTotal) (t.incoming.take bytesRead) with
      | some recvData =>
        some (t.recvMore originalNum pendingDataSize bytesReadTotal bytesRead,
          { m with recvData := recvData })
      | none => some ({ t with pc := .fault }, m)
    else none
  | .received originalNum, .received =>
    if !t.bManuallyStop && !t.bConnectionError then
      some ({ t with handed := t.handed ++ m.recvData.drop originalNum, pc := .decoding }, m)
    else some ({ t with stopSeen := t.bManuallyStop, pc := .recvDone }, m)
  | .decoding, .decode =>
    match iteration m.recvData with
    | .done | .incomplete => some ({ t with pc := .recvDone }, m)
    | .frame (some toData) rest =>
      some (t, { m with recvData := rest, messageQueue := m.messageQueue ++ [⟨t.session, toData⟩] })
    | .frame none _ => some ({ t with pc := .fault }, m)
  | .recvDone, .recvDone =>
    some ({ t with pc := if t.bManuallyStop || t.bConnectionError then .exit else .loopTest }, m)
  | .exit, .exit => some (t.exit m)
  | _, _ => none

/-- What a step of the IO thread can do, one constructor for each outcome. -/
inductive IoStep (t : FTCPSocketRunnable) (m : Shared) : IoAct → FTCPSocketRunnable → Shared → Prop
  | noSocket {r k : Bool} (hpc : t.pc = .init) : IoStep t m (.init false r k) { t with pc := .ended } m
  | noHost {k : Bool} (hpc : t.pc = .init) :
      IoStep t m (.init true false k) { t with socketPtr := true, pc := .ended } m
  | refused (hpc : t.pc = .init) :
      IoStep t m (.init true true false)
        { t with socketPtr := true, pc := .ended, reported := t.reported + 1 }
        { m with tasks := m.tasks ++ [(t.session, .connectionError)] }
  | connected (hpc : t.pc = .init) :
      IoStep t m (.init true true true) { t with socketPtr := true, pc := .loopTest }
        { m with tasks := m.tasks ++ [(t.session, .connected)] }
  | loopTest {c : Bool} (hpc : t.pc = .loopTest) :
      IoStep t m (.loopTest c)
        { t with pc := if !t.bManuallyStop && t.socketPtr && c then .sendTest else .exit } m
  | sendTest (hpc : t.pc = .sendTest) :
      IoStep t m .sendTest
        { t with pc := if !t.bManuallyStop && !t.bConnectionError then .peek else .sendDone } m
  | peek {buffer : Bytes} {rest : List Bytes} (hpc : t.pc = .peek)
      (hb : m.sendBuffer = buffer :: rest) : IoStep t m .peek { t with pc := .sending buffer 0 } m
  | peekEmpty (hpc : t.pc = .peek) (hb : m.sendBuffer = []) :
      IoStep t m .peek { t with pc := .sendDone } m
  | sendFail {buffer : Bytes} {n : ℕ} (hpc : t.pc = .sending buffer n) :
      IoStep t m (.send none) { t with bConnectionError := true, pc := .sent buffer n } m
  | send {buffer : Bytes} {n k : ℕ} (hpc : t.pc = .sending buffer n) (hk : k ≤ buffer.length - n) :
      IoStep t m (.send (some k)) (t.sendMore buffer n k) m
  | pop {buffer : Bytes} {n : ℕ} (hpc : t.pc = .sent buffer n) (he : t.bConnectionError = false) :
      IoStep t m .pop { t with popped := t.popped ++ m.sendBuffer.take 1, pc := .sendTest }
        { m with sendBuffer := m.sendBuffer.tail }
  | noPop {buffer : Bytes} {n : ℕ} (hpc : t.pc = .sent buffer n) (he : t.bConnectionError = true) :
      IoStep t m .pop { t with pc := .sendTest } m
  | sendDone (hpc : t.pc = .sendDone) :
      IoStep t m .sendDone
        { t with pc := if t.bManuallyStop || t.bConnectionError then .exit else .recvTest } m
  | noPendingData (hpc : t.pc = .recvTest) :
      IoStep t m (.hasPendingData none) { t with pc := .recvDone } m
  | hasPendingData {p : UInt32} {recvData : Bytes} (hpc : t.pc = .recvTest)
      (hp : p.toNat ≤ t.incoming.length)
      (hs : TArray.setNum m.recvData (toInt32 (.ofNat m.recvData.length + p)) = some recvData) :
      IoStep t m (.hasPendingData (some p)) { t with pc := .receiving m.recvData.length p.toNat 0 }
        { m with recvData := recvData }
  | setNumFault {p : UInt32} (hpc : t.pc = .recvTest) (hp : p.toNat ≤ t.incoming.length)
      (hs : TArray.setNum m.recvData (toInt32 (.ofNat m.recvData.length + p)) = none) :
      IoStep t m (.hasPendingData (some p)) { t with pc := .fault } m
  | recvFail {o p n : ℕ} (hpc : t.pc = .receiving o p n) :
      IoStep t m (.recv none)
        { t with bConnectionError := true, recvFailed := true, pc := .received o } m
  | recv {o p n k : ℕ} {recvData : Bytes} (hpc : t.pc = .receiving o p n) (hk : k ≤ p - n)
      (hi : k ≤ t.incoming.length)
      (hw : TArray.writeAt m.recvData (o + n) (t.incoming.take k) = some recvData) :
      IoStep t m (.recv (some k)) (t.recvMore o p n k) { m with recvData := recvData }
  | writeFault {o p n k : ℕ} (hpc : t.pc = .receiving o p n) (hk : k ≤ p - n)
      (hi : k ≤ t.incoming.length)
      (hw : TArray.writeAt m.recvData (o + n) (t.incoming.take k) = none) :
      IoStep t m (.recv (some k)) { t with pc := .fault } m
  | hand {o : ℕ} (hpc : t.pc = .received o) (hs : t.bManuallyStop = false)
      (he : t.bConnectionError = false) :
      IoStep t m .received { t with handed := t.handed ++ m.recvData.drop o, pc := .decoding } m
  | noHand {o : ℕ} (hpc : t.pc = .received o)
      (hse : t.bManuallyStop = true ∨ t.bConnectionError = true) :
      IoStep t m .received { t with stopSeen := t.bManuallyStop, pc := .recvDone } m
  | decodeDone (hpc : t.pc = .decoding)
      (hi : iteration m.recvData = .done ∨ iteration m.recvData = .incomplete) :
      IoStep t m .decode { t with pc := .recvDone } m
  | decodeFrame {f r : Bytes} (hpc : t.pc = .decoding)
      (hi : iteration m.recvData = .frame (some f) r) :
      IoStep t m .decode t
        { m with recvData := r, messageQueue := m.messageQueue ++ [⟨t.session, f⟩] }
  | decodeFault {r : Bytes} (hpc : t.pc = .decoding) (hi : iteration m.recvData = .frame none r) :
      IoStep t m .decode { t with pc := .fault } m
  | recvDone (hpc : t.pc = .recvDone) :
      IoStep t m .recvDone
        { t with pc := if t.bManuallyStop || t.bConnectionError then .exit else .loopTest } m
  | report (hpc : t.pc = .exit) (hp : t.socketPtr = true) (he : t.bConnectionError = true)
      (hs : t.bManuallyStop = false) :
      IoStep t m .exit { t with pc := .ended, reported := t.reported + 1 }
        { m with tasks := m.tasks ++ [(t.session, .connectionError)] }
  | exit (hpc : t.pc = .exit)
      (hq : t.socketPtr = false ∨ t.bConnectionError = false ∨ t.bManuallyStop = true) :
      IoStep t m .exit { t with pc := .ended } m

/-- The inversion of `ioStep`. -/
theorem IoStep.of_ioStep {t t' : FTCPSocketRunnable} {m m' : Shared} {a : IoAct}
    (h : ioStep t m a = some (t', m')) : IoStep t m a t' m' := by
  unfold ioStep at h
  -- an action is possible at one value of the program counter
  cases a with
  | init created resolved connected =>
    cases hpc : t.pc <;> simp only [hpc, reduceCtorEq] at h
    unfold FTCPSocketRunnable.init at h
    cases created
    · cases h
      exact .noSocket hpc
    cases resolved
    · cases h
      exact .noHost hpc
    cases connected
    · cases h
      exact .refused hpc
    · cases h
      exact .connected hpc
  | loopTest connected =>
    cases hpc : t.pc <;> simp only [hpc, reduceCtorEq] at h
    cases h
    exact .loopTest hpc
  | sendTest =>
    cases hpc : t.pc <;> simp only [hpc, reduceCtorEq] at h
    cases h
    exact .sendTest hpc
  | peek =>
    cases hpc : t.pc <;> simp only [hpc, reduceCtorEq] at h
    split at h <;> cases h
    · exact .peek hpc ‹_›
    · exact .peekEmpty hpc ‹_›
  | send bytesSent =>
    cases bytesSent with
    | none =>
      cases hpc : t.pc <;> simp only [hpc, reduceCtorEq] at h
      cases h
      exact .sendFail hpc
    | some bytesSent =>
      cases hpc : t.pc <;> simp only [hpc, reduceCtorEq] at h
      split at h <;> cases h
      exact .send hpc ‹_›
  | pop =>
    cases hpc : t.pc <;> simp only [hpc, reduceCtorEq] at h
    split at h <;> cases h
    · exact .pop hpc (by simp_all)
    · exact .noPop hpc (by simp_all)
  | sendDone =>
    cases hpc : t.pc <;> simp only [hpc, reduceCtorEq] at h
    cases h
    exact .sendDone hpc
  | hasPendingData pendingDataSize =>
    cases pendingDataSize with
    | none =>
      cases hpc : t.pc <;> simp only [hpc, reduceCtorEq] at h
      cases h
      exact .noPendingData hpc
    | some pendingDataSize =>
      cases hpc : t.pc <;> simp only [hpc, reduceCtorEq] at h
      split at h
      · split at h <;> cases h
        · exact .hasPendingData hpc ‹_› ‹_›
        · exact .setNumFault hpc ‹_› ‹_›
      · cases h
  | recv bytesRead =>
    cases bytesRead with
    | none =>
      cases hpc : t.pc <;> simp only [hpc, reduceCtorEq] at h
      cases h
      exact .recvFail hpc
    | some bytesRead =>
      cases hpc : t.pc <;> simp only [hpc, reduceCtorEq] at h
      split at h
      · rename_i hk
        split at h <;> cases h
        · exact .recv hpc hk.1 hk.2 ‹_›
        · exact .writeFault hpc hk.1 hk.2 ‹_›
      · cases h
  | received =>
    cases hpc : t.pc <;> simp only [hpc, reduceCtorEq] at h
    split at h <;> cases h
    · exact .hand hpc (by simp_all) (by simp_all)
    · exact .noHand hpc (by simp_all [or_iff_not_imp_left])
  | decode =>
    cases hpc : t.pc <;> simp only [hpc, reduceCtorEq] at h
    split at h <;> cases h
    · exact .decodeDone hpc (.inl ‹_›)
    · exact .decodeDone hpc (.inr ‹_›)
    · exact .decodeFrame hpc ‹_›
    · exact .decodeFault hpc ‹_›
  | recvDone =>
    cases hpc : t.pc <;> simp only [hpc, reduceCtorEq] at h
    cases h
    exact .recvDone hpc
  | exit =>
    cases hpc : t.pc <;> simp only [hpc, reduceCtorEq] at h
    unfold FTCPSocketRunnable.exit at h
    split at h <;> cases h
    · rename_i hr
      simp only [Bool.and_eq_true, Bool.not_eq_true'] at hr
      exact .report hpc hr.1 hr.2.1 hr.2.2
    · exact .exit hpc (by simp_all [or_iff_not_imp_left])

/-! ### What a step leaves alone -/

variable {t t' : FTCPSocketRunnable} {m m' : Shared} {a : IoAct}

theorem IoStep.session_eq (h : IoStep t m a t' m') : t'.session = t.session := by cases h <;> rfl

theorem IoStep.peer_eq (h : IoStep t m a t' m') : t'.peer = t.peer := by cases h <;> rfl

theorem IoStep.bManuallyStop_eq (h : IoStep t m a t' m') : t'.bManuallyStop = t.bManuallyStop := by
  cases h <;> rfl

theorem IoStep.enqueued_eq (h : IoStep t m a t' m') : t'.enqueued = t.enqueued := by cases h <;> rfl

/-- A thread that has completed takes no step. -/
theorem IoStep.pc_ne_ended (h : IoStep t m a t' m') : t.pc ≠ .ended := by
  cases h <;> simp_all

/-- What a step posts to the game thread: nothing, or one task of its session; the
connected task is posted by `Init`. -/
theorem IoStep.tasks_eq (h : IoStep t m a t' m') :
    m'.tasks = m.tasks ∨
      (m'.tasks = m.tasks ++ [(t.session, .connected)] ∧ t.pc = .init ∧ t'.pc = .loopTest) ∨
      m'.tasks = m.tasks ++ [(t.session, .connectionError)] ∧ t'.pc = .ended := by
  cases h <;> simp_all

end ThirdPersonMP.Network
