import ThirdPersonMP.Network.TcpSocketRunnable
import ThirdPersonMP.Library.Indexed
import ThirdPersonMP.Library.Run

/-!
# Connections of the game thread

`FTCPSocket` (`TcpSocket.cpp`) and the part of `UMgrMessage` that drives it
(`MgrMessage.cpp`, 47–59 and 100–123), together with the IO threads they start. The
game thread and every IO thread take turns, in any order: a run is a list of `Act`s.

Each call of `Connect` that takes effect starts a *session*, numbered by the position
of its thread in `threads`. `SocketRunnablePtr` holds the session that is current.

`Disconnect` blocks the game thread until the IO thread has completed and then runs the
user's `DisconnectedDelegate`, from which `Connect` and `Disconnect` may be called
again; so the game thread has a stack of the calls that have not returned (`Frame`).
Tasks and ticks are run by the engine, when no call is open. What a message handler or
a callback does is a sequence of further acts of the game thread.

* `ClientStep` — what a step can do; `ClientStep.of_step` is the inversion of `step`.
* `Wf` — the session discipline, kept by every step (`wf_step`) and so true in every
  run (`wf_run`): an IO thread that has not completed is the one of the current
  session, and a session that is not current has been stopped.
* `invariant_run`, `invariant_run_of_eachStep` — the induction along a run, of a client in
  order.
-/

namespace ThirdPersonMP.Network

open Base Library

/-! ### State -/

/-- A call of the game thread that has not returned. -/
inductive Frame where
  /-- `FTCPSocket::Disconnect`, in `SocketThreadPtr->WaitForCompletion()`. -/
  | waitForCompletion (session : ℕ)
  /-- `DisconnectedDelegate.ExecuteIfBound()`, in the user's callback. -/
  | disconnectedDelegate
  /-- `InternalDisconnectFunc`, with `MessageQueue.Empty()` still to do. -/
  | internalDisconnectFunc (session : ℕ)
  deriving DecidableEq

/-- The game thread, its sessions, and a history that no step reads. -/
structure Client where
  /-- The IO thread of every session. -/
  threads : List FTCPSocketRunnable := []
  /-- `SocketRunnablePtr`. -/
  socketRunnablePtr : Option ℕ := none
  /-- The open calls, the innermost first. -/
  stack : List Frame := []
  /-- What the threads share. -/
  mem : Shared := {}
  /-- History: the arrays passed to `RpcChannel::OnMessage`, with the current session. -/
  dispatched : List (Option ℕ × Message) := []
  /-- History: what `MessageQueue.Empty()` discarded, with the session that was disconnected. -/
  discarded : List (Option ℕ × Message) := []
  /-- History: the connected tasks run, by session that posted them and current session. -/
  connectedRuns : List (ℕ × Option ℕ) := []
  /-- History: the connection-error tasks run, by session that posted them and current session. -/
  errorRuns : List (ℕ × Option ℕ) := []
  /-- History: the sessions for which `DisconnectedDelegate` was executed. -/
  disconnectedRuns : List ℕ := []
  deriving DecidableEq

/-- What happens next. -/
inductive Act where
  /-- `FTCPSocket::Connect`; `peer` is what the other side will send. -/
  | connect (peer : Bytes)
  /-- `FTCPSocket::Disconnect`. -/
  | disconnect
  /-- `UMgrMessage::Disconnect`: `InternalDisconnectFunc`. -/
  | mgrDisconnect
  /-- `WaitForCompletion` returns. -/
  | join
  /-- The user's `DisconnectedDelegate` returns. -/
  | callbackReturn
  /-- `FTCPSocket::Send`. -/
  | send (data : Bytes)
  /-- The first task posted to the game thread is run. -/
  | runTask
  /-- A round of the loop of `TickMessageQueue`. -/
  | tick
  /-- A step of the IO thread of a session. -/
  | io (session : ℕ) (a : IoAct)
  deriving DecidableEq

namespace Client

variable (s : Client)

/-! ### Steps -/

/-- The game thread is not blocked in `WaitForCompletion`. -/
def ready : Bool :=
  match s.stack with
  | .waitForCompletion _ :: _ => false
  | _ => true

/-- `FTCPSocket::Connect` (35–65). -/
def connect (peer : Bytes) : Client :=
  match s.socketRunnablePtr with
  | some _ => s
  | none =>
    { s with
      mem := { s.mem with sendBuffer := [], recvData := [] }
      threads := s.threads ++ [{ session := s.threads.length, peer := peer }]
      socketRunnablePtr := some s.threads.length }

/-- `SocketRunnablePtr->Stop()`, and the wait for the thread (75–76), called by `callers`. -/
def stop (session : ℕ) (callers : List Frame) : Client :=
  { s with
    threads := s.threads.modify session fun t => { t with bManuallyStop := true }
    stack := .waitForCompletion session :: (callers ++ s.stack) }

/-- `FTCPSocket::Disconnect` (67–82), up to the wait. -/
def disconnect : Client :=
  match s.socketRunnablePtr with
  | none => s
  | some k => s.stop k []

/-- `MessageQueue.Empty()` (122). -/
def emptyMessageQueue (session : Option ℕ) : Client :=
  { s with
    mem := { s.mem with messageQueue := [] }
    discarded := s.discarded ++ s.mem.messageQueue.map (session, ·) }

/-- `InternalDisconnectFunc` (113–123), up to the wait. -/
def mgrDisconnect : Client :=
  match s.socketRunnablePtr with
  | none => s.emptyMessageQueue none
  | some k => s.stop k [.internalDisconnectFunc k]

/-- The rest of `FTCPSocket::Disconnect` (77–80): the pointers are reset and the user's
callback is entered. -/
def join : Option Client :=
  match s.stack with
  | .waitForCompletion k :: rest =>
    match s.threads[k]? with
    | some t =>
      if t.pc = .ended then
        some { s with
          socketRunnablePtr := none
          stack := .disconnectedDelegate :: rest
          disconnectedRuns := s.disconnectedRuns ++ [k] }
      else none
    | none => none
  | _ => none

/-- The user's callback returns, and `Disconnect` to its caller. -/
def callbackReturn : Option Client :=
  match s.stack with
  | .disconnectedDelegate :: .internalDisconnectFunc k :: rest =>
    some ({ s with stack := rest }.emptyMessageQueue (some k))
  | .disconnectedDelegate :: rest => some { s with stack := rest }
  | _ => none

/-- `FTCPSocket::Send` (84–92). -/
def send (data : Bytes) : Client :=
  match s.socketRunnablePtr with
  | none => s
  | some k =>
    { s with
      mem := { s.mem with sendBuffer := s.mem.sendBuffer ++ [data] }
      threads := s.threads.modify k fun t => { t with enqueued := t.enqueued ++ [data] } }

/-- The engine runs the first task posted to the game thread. -/
def runTask : Option Client :=
  match s.mem.tasks with
  | [] => none
  | (k, .connected) :: tasks =>
    some { s with
      mem := { s.mem with tasks := tasks }
      connectedRuns := s.connectedRuns ++ [(k, s.socketRunnablePtr)] }
  | (k, .connectionError) :: tasks =>
    some ({ s with
      mem := { s.mem with tasks := tasks }
      errorRuns := s.errorRuns ++ [(k, s.socketRunnablePtr)] }.disconnect)

/-- `MessageQueue.Dequeue(Content)`, and `OnMessage(Content)` (55–58). -/
def tick : Option Client :=
  match s.mem.messageQueue with
  | [] => none
  | msg :: queue =>
    some { s with
      mem := { s.mem with messageQueue := queue }
      dispatched := s.dispatched ++ [(s.socketRunnablePtr, msg)] }

/-- One step; `none` when it is not possible. -/
def step : Act → Option Client
  | .connect peer => if s.ready then some (s.connect peer) else none
  | .disconnect => if s.ready then some s.disconnect else none
  | .mgrDisconnect => if s.ready then some s.mgrDisconnect else none
  | .join => s.join
  | .callbackReturn => s.callbackReturn
  | .send data => if s.ready then some (s.send data) else none
  | .runTask => if s.stack = [] then s.runTask else none
  | .tick => if s.stack = [] then s.tick else none
  | .io k a =>
    match s.threads[k]? with
    | none => none
    | some t =>
      (ioStep t s.mem a).map fun (t', m') => { s with threads := s.threads.set k t', mem := m' }

end Client

/-- What a step can do, one constructor for each outcome. -/
inductive ClientStep (s : Client) : Act → Client → Prop
  | connect {peer : Bytes} (hr : s.ready = true) (hp : s.socketRunnablePtr = none) :
      ClientStep s (.connect peer)
        { s with
          mem := { s.mem with sendBuffer := [], recvData := [] }
          threads := s.threads ++ [{ session := s.threads.length, peer := peer }]
          socketRunnablePtr := some s.threads.length }
  | noConnect {peer : Bytes} {k : ℕ} (hp : s.socketRunnablePtr = some k) :
      ClientStep s (.connect peer) s
  | disconnect {k : ℕ} (hr : s.ready = true) (hp : s.socketRunnablePtr = some k) :
      ClientStep s .disconnect (s.stop k [])
  | noDisconnect (hp : s.socketRunnablePtr = none) : ClientStep s .disconnect s
  | mgrDisconnect {k : ℕ} (hr : s.ready = true) (hp : s.socketRunnablePtr = some k) :
      ClientStep s .mgrDisconnect (s.stop k [.internalDisconnectFunc k])
  | mgrEmpty (hr : s.ready = true) (hp : s.socketRunnablePtr = none) :
      ClientStep s .mgrDisconnect (s.emptyMessageQueue none)
  | join {k : ℕ} {rest : List Frame} {t : FTCPSocketRunnable}
      (hs : s.stack = .waitForCompletion k :: rest) (ht : s.threads[k]? = some t)
      (he : t.pc = .ended) :
      ClientStep s .join
        { s with
          socketRunnablePtr := none
          stack := .disconnectedDelegate :: rest
          disconnectedRuns := s.disconnectedRuns ++ [k] }
  | callbackReturn {rest : List Frame} (hs : s.stack = .disconnectedDelegate :: rest) :
      ClientStep s .callbackReturn { s with stack := rest }
  | mgrReturn {k : ℕ} {rest : List Frame}
      (hs : s.stack = .disconnectedDelegate :: .internalDisconnectFunc k :: rest) :
      ClientStep s .callbackReturn ({ s with stack := rest }.emptyMessageQueue (some k))
  | send {data : Bytes} {k : ℕ} (hr : s.ready = true) (hp : s.socketRunnablePtr = some k) :
      ClientStep s (.send data)
        { s with
          mem := { s.mem with sendBuffer := s.mem.sendBuffer ++ [data] }
          threads := s.threads.modify k fun t => { t with enqueued := t.enqueued ++ [data] } }
  | noSend {data : Bytes} (hp : s.socketRunnablePtr = none) : ClientStep s (.send data) s
  | connected {k : ℕ} {tasks : List (ℕ × Task)} (hs : s.stack = [])
      (ht : s.mem.tasks = (k, .connected) :: tasks) :
      ClientStep s .runTask
        { s with
          mem := { s.mem with tasks := tasks }
          connectedRuns := s.connectedRuns ++ [(k, s.socketRunnablePtr)] }
  | connectionError {k j : ℕ} {tasks : List (ℕ × Task)} (hs : s.stack = [])
      (ht : s.mem.tasks = (k, .connectionError) :: tasks) (hp : s.socketRunnablePtr = some j) :
      ClientStep s .runTask
        ({ s with
          mem := { s.mem with tasks := tasks }
          errorRuns := s.errorRuns ++ [(k, s.socketRunnablePtr)] }.stop j [])
  | lateConnectionError {k : ℕ} {tasks : List (ℕ × Task)} (hs : s.stack = [])
      (ht : s.mem.tasks = (k, .connectionError) :: tasks) (hp : s.socketRunnablePtr = none) :
      ClientStep s .runTask
        { s with
          mem := { s.mem with tasks := tasks }
          errorRuns := s.errorRuns ++ [(k, s.socketRunnablePtr)] }
  | tick {msg : Message} {queue : List Message} (hs : s.stack = [])
      (hq : s.mem.messageQueue = msg :: queue) :
      ClientStep s .tick
        { s with
          mem := { s.mem with messageQueue := queue }
          dispatched := s.dispatched ++ [(s.socketRunnablePtr, msg)] }
  | io {k : ℕ} {a : IoAct} {t t' : FTCPSocketRunnable} {m' : Shared} (ht : s.threads[k]? = some t)
      (h : IoStep t s.mem a t' m') :
      ClientStep s (.io k a) { s with threads := s.threads.set k t', mem := m' }

/-- The inversion of `Client.step`. -/
theorem ClientStep.of_step {s s' : Client} {a : Act} (h : s.step a = some s') :
    ClientStep s a s' := by
  cases a with
  | connect peer =>
    simp only [Client.step, Client.connect, Option.ite_none_right_eq_some, Option.some.injEq] at h
    obtain ⟨hr, h⟩ := h
    cases hp : s.socketRunnablePtr <;> simp only [hp] at h <;> subst h
    · exact .connect hr hp
    · exact .noConnect hp
  | disconnect =>
    simp only [Client.step, Client.disconnect, Option.ite_none_right_eq_some,
      Option.some.injEq] at h
    obtain ⟨hr, h⟩ := h
    cases hp : s.socketRunnablePtr <;> simp only [hp] at h <;> subst h
    · exact .noDisconnect hp
    · exact .disconnect hr hp
  | mgrDisconnect =>
    simp only [Client.step, Client.mgrDisconnect, Option.ite_none_right_eq_some,
      Option.some.injEq] at h
    obtain ⟨hr, h⟩ := h
    cases hp : s.socketRunnablePtr <;> simp only [hp] at h <;> subst h
    · exact .mgrEmpty hr hp
    · exact .mgrDisconnect hr hp
  | join =>
    simp only [Client.step, Client.join] at h
    split at h
    · split at h
      · split at h <;> cases h
        exact .join ‹_› ‹_› ‹_›
      · cases h
    · cases h
  | callbackReturn =>
    simp only [Client.step, Client.callbackReturn] at h
    split at h <;> cases h
    · exact .mgrReturn ‹_›
    · exact .callbackReturn ‹_›
  | send data =>
    simp only [Client.step, Client.send, Option.ite_none_right_eq_some, Option.some.injEq] at h
    obtain ⟨hr, h⟩ := h
    cases hp : s.socketRunnablePtr <;> simp only [hp] at h <;> subst h
    · exact .noSend hp
    · have := @ClientStep.send s data _ hr hp
      rwa [hp] at this
  | runTask =>
    simp only [Client.step, Client.runTask, Option.ite_none_right_eq_some] at h
    obtain ⟨hs, h⟩ := h
    split at h
    · cases h
    · cases h
      exact .connected hs ‹_›
    · rename_i k tasks ht
      simp only [Client.disconnect, Option.some.injEq] at h
      cases hp : s.socketRunnablePtr with
      | none =>
        simp only [hp] at h
        subst h
        have := ClientStep.lateConnectionError hs ht hp
        rwa [hp] at this
      | some j =>
        simp only [hp] at h
        subst h
        have := ClientStep.connectionError hs ht hp
        rwa [hp] at this
  | tick =>
    simp only [Client.step, Client.tick, Option.ite_none_right_eq_some] at h
    obtain ⟨hs, h⟩ := h
    split at h <;> cases h
    exact .tick hs ‹_›
  | io k a =>
    simp only [Client.step] at h
    split at h
    · cases h
    · obtain ⟨⟨t', m'⟩, hio, rfl⟩ := Option.map_eq_some_iff.mp h
      exact .io ‹_› (.of_ioStep hio)

/-- A session is given more arrays, and loses none. -/
theorem ClientStep.enqueued {s s' : Client} {a : Act} (h : ClientStep s a s') {k : ℕ}
    {t : FTCPSocketRunnable} (ht : s.threads[k]? = some t) :
    ∃ t', s'.threads[k]? = some t' ∧ t.enqueued <+: t'.enqueued := by
  have hstop : ∀ (c : Client) (j : ℕ) (callers : List Frame), c.threads = s.threads →
      ∃ t', (c.stop j callers).threads[k]? = some t' ∧ t.enqueued <+: t'.enqueued := by
    intro c j callers hc
    rw [Client.stop, hc]
    refine ⟨_, getElem?_modify_eq_some.mpr ⟨t, ht, rfl⟩, ?_⟩
    split <;> exact List.prefix_rfl
  cases h with
  | connect hr hp => exact ⟨t, getElem?_concat_eq_some.mpr (.inl ht), List.prefix_rfl⟩
  | disconnect hr hp => exact hstop s _ _ rfl
  | mgrDisconnect hr hp => exact hstop s _ _ rfl
  | connectionError hs htask hp => exact hstop _ _ _ rfl
  | send hr hp =>
    refine ⟨_, getElem?_modify_eq_some.mpr ⟨t, ht, rfl⟩, ?_⟩
    split
    · exact List.prefix_append _ _
    · exact List.prefix_rfl
  | @io j a u u' m' hu hio =>
    by_cases hj : j = k
    · subst hj
      rw [hu, Option.some.injEq] at ht
      subst ht
      exact ⟨u', (getElem?_set_eq_some hu).mpr (.inl ⟨rfl, rfl⟩), by rw [hio.enqueued_eq]⟩
    · exact ⟨t, (getElem?_set_eq_some hu).mpr (.inr ⟨hj, ht⟩), List.prefix_rfl⟩
  | noConnect | noDisconnect | mgrEmpty | join | callbackReturn | mgrReturn | noSend | connected
  | lateConnectionError | tick => exact ⟨t, ht, List.prefix_rfl⟩

/-! ### The session discipline -/

/-- The session discipline. -/
structure Wf (s : Client) : Prop where
  /-- A session is the position of its thread. -/
  session : ∀ (k : ℕ) (t : FTCPSocketRunnable), s.threads[k]? = some t → t.session = k
  /-- The current session is the last. -/
  current : ∀ k, s.socketRunnablePtr = some k → k + 1 = s.threads.length
  /-- A thread that has not completed is of the current session. -/
  live : ∀ (k : ℕ) (t : FTCPSocketRunnable), s.threads[k]? = some t → t.pc ≠ .ended →
    s.socketRunnablePtr = some k
  /-- A session that is not current, or that the game thread waits for, has been stopped. -/
  stopped : ∀ (k : ℕ) (t : FTCPSocketRunnable), s.threads[k]? = some t →
    s.socketRunnablePtr ≠ some k ∨ .waitForCompletion k ∈ s.stack → t.bManuallyStop = true
  /-- `WaitForCompletion` waits for the current session. -/
  waiting : ∀ k, .waitForCompletion k ∈ s.stack → s.socketRunnablePtr = some k
  /-- While the game thread waits it makes no other call. -/
  inner : ∀ k, .waitForCompletion k ∉ s.stack.tail

theorem wf_start : Wf {} where
  session := by intro k t h; cases h
  current := by intro k h; cases h
  live := by intro k t h; cases h
  stopped := by intro k t h; cases h
  waiting := by intro k h; cases h
  inner := by intro k h; cases h

/-- When the game thread is not waiting, no open call is. -/
theorem Wf.not_mem_stack {s : Client} (h : Wf s) (hr : s.ready = true) (k : ℕ) :
    .waitForCompletion k ∉ s.stack := by
  intro hk
  unfold Client.ready at hr
  cases hs : s.stack with
  | nil => rw [hs] at hk; cases hk
  | cons f rest =>
    rw [hs] at hk hr
    rcases List.mem_cons.mp hk with rfl | hk
    · cases hr
    · exact h.inner k (by rw [hs]; exact hk)

/-- What a step may do to a thread without breaking the discipline. -/
def Keeps (t u : FTCPSocketRunnable) : Prop :=
  u.session = t.session ∧ (t.bManuallyStop = true → u.bManuallyStop = true) ∧
    (u.pc ≠ .ended → t.pc ≠ .ended)

theorem Keeps.refl (t : FTCPSocketRunnable) : Keeps t t := ⟨rfl, id, id⟩

theorem IoStep.keeps {t t' : FTCPSocketRunnable} {m m' : Shared} {a : IoAct}
    (h : IoStep t m a t' m') : Keeps t t' :=
  ⟨h.session_eq, fun hs => h.bManuallyStop_eq.trans hs, fun _ => h.pc_ne_ended⟩

/-- A step that keeps the threads, the current session and the calls that wait keeps the
discipline. -/
theorem Wf.of_keeps {s s' : Client} (h : Wf s) (hp : s'.socketRunnablePtr = s.socketRunnablePtr)
    (hlen : s'.threads.length = s.threads.length)
    (ht : ∀ (k : ℕ) (u : FTCPSocketRunnable), s'.threads[k]? = some u →
      ∃ t, s.threads[k]? = some t ∧ Keeps t u)
    (hw : ∀ k, .waitForCompletion k ∈ s'.stack → .waitForCompletion k ∈ s.stack)
    (hi : ∀ k, .waitForCompletion k ∉ s'.stack.tail) : Wf s' where
  session := by
    intro k u hu
    obtain ⟨t, htk, hk⟩ := ht k u hu
    rw [hk.1]
    exact h.session k t htk
  current := by rw [hp, hlen]; exact h.current
  live := by
    intro k u hu hpc
    obtain ⟨t, htk, hk⟩ := ht k u hu
    rw [hp]
    exact h.live k t htk (hk.2.2 hpc)
  stopped := by
    intro k u hu hc
    obtain ⟨t, htk, hk⟩ := ht k u hu
    rw [hp] at hc
    exact hk.2.1 (h.stopped k t htk (hc.imp_right (hw k)))
  waiting := by intro k hk; rw [hp]; exact h.waiting k (hw k hk)
  inner := hi

/-- A step that changes nothing but the history, what is shared and the calls that do
not wait keeps the discipline. -/
theorem Wf.of_threads_eq {s s' : Client} (h : Wf s)
    (hp : s'.socketRunnablePtr = s.socketRunnablePtr) (ht : s'.threads = s.threads)
    (hs : ∃ fs, s.stack = fs ++ s'.stack) : Wf s' := by
  obtain ⟨fs, hs⟩ := hs
  refine h.of_keeps hp (by rw [ht]) (fun k u hu => ⟨u, by rw [← ht]; exact hu, .refl u⟩) ?_ ?_
  · intro k hk
    rw [hs]
    exact List.mem_append_right _ hk
  · intro k hk
    apply h.inner k
    rw [hs]
    cases fs with
    | nil => exact hk
    | cons f fs => exact List.mem_append_right _ (List.mem_of_mem_tail hk)

/-- Stopping the current session keeps the discipline. -/
theorem Wf.stop {s : Client} (h : Wf s) (hr : s.ready = true) {k : ℕ}
    (hp : s.socketRunnablePtr = some k) {callers : List Frame}
    (hc : ∀ j, .waitForCompletion j ∉ callers) : Wf (s.stop k callers) := by
  have hout : ∀ j, .waitForCompletion j ∉ callers ++ s.stack := fun j hj =>
    (List.mem_append.mp hj).elim (hc j) (h.not_mem_stack hr j)
  refine ⟨?_, ?_, ?_, ?_, ?_, hout⟩
  · intro j u hu
    obtain ⟨t, ht, rfl⟩ := getElem?_modify_eq_some.mp hu
    split <;> exact h.session j t ht
  · rw [Client.stop, List.length_modify]
    exact h.current
  · intro j u hu hpc
    obtain ⟨t, ht, rfl⟩ := getElem?_modify_eq_some.mp hu
    apply h.live j t ht
    split at hpc <;> exact hpc
  · intro j u hu hj
    obtain ⟨t, ht, rfl⟩ := getElem?_modify_eq_some.mp hu
    split
    · rfl
    · rename_i hkj
      refine h.stopped j t ht (hj.imp_right fun hj => ?_)
      rcases List.mem_cons.mp hj with hj | hj
      · cases hj
        exact absurd rfl hkj
      · exact absurd hj (hout j)
  · intro j hj
    rcases List.mem_cons.mp hj with hj | hj
    · cases hj
      exact hp
    · exact absurd hj (hout j)

/-- When no session is current, every thread has completed and has been stopped. -/
theorem Wf.ended_of_none {s : Client} (h : Wf s) (hp : s.socketRunnablePtr = none) {k : ℕ}
    {t : FTCPSocketRunnable} (ht : s.threads[k]? = some t) :
    t.pc = .ended ∧ t.bManuallyStop = true := by
  refine ⟨?_, h.stopped k t ht (.inl (by simp [hp]))⟩
  by_contra hpc
  simpa [hp] using h.live k t ht hpc

/-- At most one IO thread has not completed. -/
theorem Wf.eq_of_live {s : Client} (h : Wf s) {j k : ℕ} {t u : FTCPSocketRunnable}
    (ht : s.threads[j]? = some t) (hu : s.threads[k]? = some u) (htpc : t.pc ≠ .ended)
    (hupc : u.pc ≠ .ended) : j = k := by
  have hj := h.live j t ht htpc
  rw [h.live k u hu hupc, Option.some.injEq] at hj
  exact hj.symm

/-- An IO thread that takes a step is that of the last session. -/
theorem Wf.last_of_io {s : Client} (h : Wf s) {k : ℕ} {a : IoAct} {t t' : FTCPSocketRunnable}
    {m' : Shared} (ht : s.threads[k]? = some t) (hio : IoStep t s.mem a t' m') :
    k + 1 = s.threads.length :=
  h.current k (h.live k t ht hio.pc_ne_ended)

/-- Starting a session keeps the discipline. -/
theorem Wf.connect {s s' : Client} (h : Wf s) (hp : s.socketRunnablePtr = none) {peer : Bytes}
    (ht : s'.threads = s.threads ++ [{ session := s.threads.length, peer := peer }])
    (hp' : s'.socketRunnablePtr = some s.threads.length) (hs : s'.stack = s.stack) : Wf s' where
  session := by
    intro k u hu
    rw [ht, getElem?_concat_eq_some] at hu
    rcases hu with hu | ⟨rfl, rfl⟩
    · exact h.session k u hu
    · rfl
  current := by
    intro k hk
    rw [hp'] at hk
    cases hk
    rw [ht, List.length_append, List.length_singleton]
  live := by
    intro k u hu hpc
    rw [ht, getElem?_concat_eq_some] at hu
    rcases hu with hu | ⟨rfl, rfl⟩
    · exact absurd (h.ended_of_none hp hu).1 hpc
    · exact hp'
  stopped := by
    intro k u hu hk
    rw [ht, getElem?_concat_eq_some] at hu
    rcases hu with hu | ⟨rfl, rfl⟩
    · exact (h.ended_of_none hp hu).2
    · rcases hk with hk | hk
      · exact absurd hp' hk
      · have := h.waiting _ (hs ▸ hk)
        simp [hp] at this
  waiting := by
    intro k hk
    have := h.waiting k (hs ▸ hk)
    simp [hp] at this
  inner := by rw [hs]; exact h.inner

/-- Completing a `Disconnect` keeps the discipline. -/
theorem Wf.join {s s' : Client} (h : Wf s) {k : ℕ} {rest : List Frame} {t : FTCPSocketRunnable}
    (hs : s.stack = .waitForCompletion k :: rest) (htk : s.threads[k]? = some t)
    (he : t.pc = .ended) (ht : s'.threads = s.threads) (hp : s'.socketRunnablePtr = none)
    (hs' : s'.stack = .disconnectedDelegate :: rest) : Wf s' := by
  have hcur : s.socketRunnablePtr = some k := h.waiting k (by rw [hs]; exact List.mem_cons_self ..)
  have hrest : ∀ j, .waitForCompletion j ∉ rest := by
    intro j hj
    exact h.inner j (by rw [hs]; exact hj)
  refine ⟨by rw [ht]; exact h.session, by simp [hp], ?_, ?_, ?_, ?_⟩
  · intro j u hu hpc
    rw [ht] at hu
    have hj := h.live j u hu hpc
    rw [hcur] at hj
    cases hj
    rw [htk] at hu
    cases hu
    exact absurd he hpc
  · intro j u hu _
    rw [ht] at hu
    apply h.stopped j u hu
    by_cases hj : j = k
    · subst hj
      exact .inr (by rw [hs]; exact List.mem_cons_self ..)
    · exact .inl (by rw [hcur]; simpa using Ne.symm hj)
  · intro j hj
    rw [hs'] at hj
    rcases List.mem_cons.mp hj with hj | hj
    · cases hj
    · exact absurd hj (hrest j)
  · rw [hs']
    exact hrest

/-- **A step keeps the session discipline.** -/
theorem wf_step {s s' : Client} {a : Act} (h : Wf s) (hstep : ClientStep s a s') : Wf s' := by
  cases hstep with
  | connect hr hp => exact h.connect hp rfl rfl rfl
  | noConnect | noDisconnect | noSend => exact h
  | disconnect hr hp => exact h.stop hr hp (by simp)
  | mgrDisconnect hr hp => exact h.stop hr hp (by simp)
  | mgrEmpty | connected | lateConnectionError | tick =>
    exact h.of_threads_eq rfl rfl ⟨[], rfl⟩
  | join hs ht he => exact h.join hs ht he rfl rfl rfl
  | callbackReturn hs => exact h.of_threads_eq rfl rfl ⟨[_], hs⟩
  | mgrReturn hs => exact h.of_threads_eq rfl rfl ⟨[_, _], hs⟩
  | send hr hp =>
    refine h.of_keeps rfl (List.length_modify ..) ?_ (fun _ => id) h.inner
    intro j u hu
    obtain ⟨t, ht, rfl⟩ := getElem?_modify_eq_some.mp hu
    refine ⟨t, ht, ?_⟩
    split <;> exact .refl t
  | connectionError hs ht hp =>
    refine Wf.stop ?_ ?_ ?_ fun j => List.not_mem_nil
    · exact h.of_threads_eq rfl rfl ⟨[], rfl⟩
    · simp only [Client.ready, hs]
    · exact hp
  | io ht hio =>
    refine h.of_keeps rfl (List.length_set ..) ?_ (fun _ => id) h.inner
    intro j u hu
    rcases (getElem?_set_eq_some ht).mp hu with ⟨rfl, rfl⟩ | ⟨-, hu⟩
    · exact ⟨_, ht, hio.keeps⟩
    · exact ⟨u, hu, .refl u⟩

/-- **The session discipline holds in every run.** -/
theorem wf_run {as : List Act} {s : Client} (h : run Client.step {} as = some s) : Wf s :=
  run_invariant Client.step wf_start (fun _ _ _ hs ha => wf_step hs (.of_step ha)) h

/-- What every step of a client in order keeps holds in every run. -/
theorem invariant_run {I : Client → Prop} (h₀ : I {})
    (hstep : ∀ s a s', Wf s → I s → ClientStep s a s' → I s') {as : List Act} {s : Client}
    (h : run Client.step {} as = some s) : I s := by
  refine (run_invariant Client.step (I := fun s => Wf s ∧ I s) ⟨wf_start, h₀⟩ ?_ h).2
  intro s a s' ⟨hw, hs⟩ ha
  exact ⟨wf_step hw (.of_step ha), hstep s a s' hw hs (.of_step ha)⟩

/-- The same for the steps that are taken under a condition. -/
theorem invariant_run_of_eachStep {I : Client → Prop} {C : Client → Act → Prop} (h₀ : I {})
    (hstep : ∀ s a s', Wf s → I s → C s a → ClientStep s a s' → I s') {as : List Act} {s : Client}
    (hC : EachStep Client.step C {} as) (h : run Client.step {} as = some s) : I s := by
  refine (run_invariant_of_eachStep Client.step (I := fun s => Wf s ∧ I s) ⟨wf_start, h₀⟩ ?_ hC h).2
  intro s a s' ⟨hw, hs⟩ hc ha
  exact ⟨wf_step hw (.of_step ha), hstep s a s' hw hs hc (.of_step ha)⟩

end ThirdPersonMP.Network
