import ThirdPersonMP.Network.TcpSocket

/-!
# Notifications of a session

The IO thread tells the game thread that it has connected, or that its connection is in
error, by a task that runs later; the lambdas capture the `FTCPSocket` only
(`TcpSocket.cpp`, 42–48 and 53–59), so a task acts on the session that is current when
it runs.

`OwnSession` is what is wanted: a connection-error task does not disconnect a later
session, and a connected task runs `ConnectDelegate(true)` only while its own session is
current. It fails (`not_ownSession`): a task can outlive its session. `ownSession_run`
is the condition under which it holds: `Settled`, that no session is started while an
error task waits, and no session is ended while its connected task does.
-/

namespace ThirdPersonMP.Network

open Library

/-- The tasks run so far have acted on their own session: `ConnectDelegate(true)` was run
for the session that was current, and no later session was disconnected. -/
def OwnSession (s : Client) : Prop :=
  (∀ r ∈ s.connectedRuns, r.2 = some r.1) ∧ ∀ r ∈ s.errorRuns, ∀ j ∈ r.2, j ≤ r.1

/-- The step is taken at a settled moment: a `Connect` takes effect when no
connection-error task is waiting to run, and a `Disconnect` completes when the connected
task of the session is not. -/
def Settled (s : Client) : Act → Prop
  | .connect _ => s.socketRunnablePtr = none → ∀ r ∈ s.mem.tasks, r.2 ≠ .connectionError
  | .join => ∀ r ∈ s.mem.tasks, r.2 = .connected → s.socketRunnablePtr ≠ some r.1
  | _ => True

instance (s : Client) : ∀ a, Decidable (Settled s a)
  | .connect _ => inferInstanceAs (Decidable (_ → _))
  | .join => inferInstanceAs (Decidable (∀ r ∈ s.mem.tasks, _))
  | .disconnect | .mgrDisconnect | .callbackReturn | .send _ | .runTask | .tick | .io _ _ =>
    inferInstanceAs (Decidable True)

/-- The IO thread posts tasks of its own session. -/
theorem IoStep.mem_tasks {t t' : FTCPSocketRunnable} {m m' : Shared} {a : IoAct}
    (hio : IoStep t m a t' m') {r : ℕ × Task} (hr : r ∈ m'.tasks) :
    r ∈ m.tasks ∨ r.1 = t.session := by
  rcases hio.tasks_eq with heq | ⟨heq, -⟩ | ⟨heq, -⟩ <;> rw [heq] at hr
  · exact .inl hr
  all_goals
    rcases List.mem_append.mp hr with hr | hr
    · exact .inl hr
    · rw [List.mem_singleton] at hr
      rw [hr]
      exact .inr rfl

/-- A `Disconnect` completes only when the task that tells of the connection has run. -/
def ToldFirst (s : Client) : Act → Prop
  | .join => ∀ r ∈ s.mem.tasks, r.2 = .connected → s.socketRunnablePtr ≠ some r.1
  | _ => True

instance (s : Client) : ∀ a, Decidable (ToldFirst s a)
  | .join => inferInstanceAs (Decidable (∀ r ∈ s.mem.tasks, _))
  | .connect _ | .disconnect | .mgrDisconnect | .callbackReturn | .send _ | .runTask | .tick
  | .io _ _ => inferInstanceAs (Decidable True)

/-- Then a task that tells of a connection is of the current session. -/
def ConnectedCurrent (s : Client) : Prop :=
  ∀ k, (k, .connected) ∈ s.mem.tasks → s.socketRunnablePtr = some k

/-- A step keeps it so. -/
theorem connectedCurrent_step {s s' : Client} {a : Act} (hw : Wf s) (h : ConnectedCurrent s)
    (hs : ToldFirst s a) (hstep : ClientStep s a s') : ConnectedCurrent s' := by
  cases hstep with
  | connect hr hp =>
    intro k hk
    have := h k hk
    rw [hp] at this
    cases this
  | join hs' ht he => exact fun k hk => absurd (h k hk) (hs _ hk rfl)
  | connected hs' ht | connectionError hs' ht | lateConnectionError hs' ht =>
    exact fun k hk => h k (by rw [ht]; exact List.mem_cons_of_mem _ hk)
  | @io k b t t' m' ht hio =>
    intro j hj
    rcases hio.mem_tasks hj with hj | hj
    · exact h j hj
    · rw [hw.session k t ht] at hj
      exact hj ▸ hw.live k t ht hio.pc_ne_ended
  | noConnect | noDisconnect | noSend | disconnect | mgrDisconnect | mgrEmpty | callbackReturn
  | mgrReturn | send | tick => exact h

/-- A settled step is one of these. -/
theorem Settled.toldFirst {s : Client} {a : Act} (h : Settled s a) : ToldFirst s a := by
  cases a with
  | join => exact h
  | connect | disconnect | mgrDisconnect | callbackReturn | send | runTask | tick | io => trivial

/-- In a run of settled steps a task that is waiting is of the session that is current,
or, for a connection error, of the one that was. -/
structure TasksCurrent (s : Client) : Prop where
  /-- A connected task is of the current session. -/
  connected : ∀ k, (k, .connected) ∈ s.mem.tasks → s.socketRunnablePtr = some k
  /-- No session later than that of a connection-error task is current. -/
  connectionError : ∀ k, (k, .connectionError) ∈ s.mem.tasks → ∀ j ∈ s.socketRunnablePtr, j ≤ k

/-- A settled step keeps both the waiting tasks and those that have run in their own
session. -/
theorem ownSession_step {s s' : Client} {a : Act} (hw : Wf s) (ht : TasksCurrent s)
    (ho : OwnSession s) (hs : Settled s a) (hstep : ClientStep s a s') :
    TasksCurrent s' ∧ OwnSession s' := by
  have hconnected : ConnectedCurrent s' :=
    connectedCurrent_step hw ht.connected hs.toldFirst hstep
  cases hstep with
  | connect hr hp => exact ⟨⟨hconnected, fun k hk => absurd rfl (hs hp _ hk)⟩, ho⟩
  | noConnect | noDisconnect | noSend => exact ⟨ht, ho⟩
  | disconnect | mgrDisconnect | mgrEmpty | callbackReturn | mgrReturn | send | tick =>
    exact ⟨⟨hconnected, ht.connectionError⟩, ho⟩
  | join => exact ⟨⟨hconnected, by simp⟩, ho⟩
  | connected hs' hq =>
    refine ⟨⟨hconnected, fun k hk => ?_⟩, fun r hr => ?_, ho.2⟩
    · exact ht.connectionError k (by rw [hq]; exact List.mem_cons_of_mem _ hk)
    · rcases List.mem_append.mp hr with hr | hr
      · exact ho.1 r hr
      · rw [List.mem_singleton] at hr
        rw [hr]
        exact ht.connected _ (by rw [hq]; exact List.mem_cons_self ..)
  | connectionError hs' hq hp | lateConnectionError hs' hq hp =>
    refine ⟨⟨hconnected, fun k hk => ?_⟩, ho.1, fun r hr => ?_⟩
    · exact ht.connectionError k (by rw [hq]; exact List.mem_cons_of_mem _ hk)
    · rcases List.mem_append.mp hr with hr | hr
      · exact ho.2 r hr
      · rw [List.mem_singleton] at hr
        rw [hr]
        exact ht.connectionError _ (by rw [hq]; exact List.mem_cons_self ..)
  | @io k b t t' m' ht' hio =>
    refine ⟨⟨hconnected, fun j hj i hi => ?_⟩, ho⟩
    rcases hio.mem_tasks hj with hj | hj
    · exact ht.connectionError j hj i hi
    · -- posted by the current session, of which the thread has not ended
      have hcur : s.socketRunnablePtr = some k := hw.live k t ht' hio.pc_ne_ended
      have hjk : j = k := hj.trans (hw.session k t ht')
      rw [hcur, Option.mem_some] at hi
      rw [hjk, hi]

/-- **In every run of settled steps** the notifications of a session affect only their
own session. -/
theorem ownSession_run {as : List Act} {s : Client} (h : run Client.step {} as = some s)
    (hs : EachStep Client.step Settled {} as) : OwnSession s := by
  have hstart : TasksCurrent {} ∧ OwnSession {} :=
    ⟨⟨by simp, by simp⟩, by simp, by simp⟩
  refine (invariant_run_of_eachStep (I := fun s => TasksCurrent s ∧ OwnSession s) hstart ?_ hs h).2
  intro s a s' hw ⟨ht, ho⟩ hP hstep
  exact ownSession_step hw ht ho hP hstep

/-- Session `0` connects, is told so, is disconnected and followed by session `1`. -/
def reconnect : List Act :=
  [.connect [], .io 0 (.init true true true), .runTask, .disconnect, .io 0 (.loopTest true),
    .io 0 .exit, .join, .callbackReturn, .connect []]

/-- Its steps are settled, so its notifications affect only their own session. -/
theorem ownSession_run_reconnect :
    ∃ s, run Client.step {} reconnect = some s ∧ EachStep Client.step Settled {} reconnect ∧
      OwnSession s := by
  have hsome : (run Client.step {} reconnect).isSome := by decide
  obtain ⟨s, hs⟩ := Option.isSome_iff_exists.mp hsome
  have hset : EachStep Client.step Settled {} reconnect := by decide
  exact ⟨s, hs, hset, ownSession_run hs hset⟩

/-- The connection of session `0` is refused; before the task that reports it runs, the
session is disconnected and session `1` started. -/
def lateError : List Act :=
  [.connect [], .io 0 (.init true true false), .disconnect, .join, .callbackReturn, .connect [],
    .runTask]

/-- Session `0` connects and is disconnected before the task that tells so runs. -/
def lateConnected : List Act :=
  [.connect [], .io 0 (.init true true true), .disconnect, .io 0 (.loopTest true), .io 0 .exit,
    .join, .callbackReturn, .runTask]

/-- The connection-error task of session `0` disconnects session `1`; the connected task of
session `0` runs `ConnectDelegate(true)` when no session is current. -/
theorem not_ownSession :
    (∃ s, run Client.step {} lateError = some s ∧ s.errorRuns = [(0, some 1)] ∧
      s.stack = [.waitForCompletion 1] ∧ ¬ OwnSession s) ∧
    ∃ s, run Client.step {} lateConnected = some s ∧ s.connectedRuns = [(0, none)] ∧
      ¬ OwnSession s := by
  constructor
  · have hrun : (run Client.step {} lateError).map (fun s => (s.errorRuns, s.stack)) =
        some ([(0, some 1)], [.waitForCompletion 1]) := by decide
    obtain ⟨s, hs, h⟩ := Option.map_eq_some_iff.mp hrun
    rw [Prod.mk.injEq] at h
    refine ⟨s, hs, h.1, h.2, fun ho => ?_⟩
    exact absurd (ho.2 (0, some 1) (by rw [h.1]; decide) 1 rfl) (by decide)
  · have hrun : (run Client.step {} lateConnected).map Client.connectedRuns =
        some [(0, none)] := by decide
    obtain ⟨s, hs, h⟩ := Option.map_eq_some_iff.mp hrun
    refine ⟨s, hs, h, fun ho => ?_⟩
    exact absurd (ho.1 (0, none) (by rw [h]; decide)) (by decide)

end ThirdPersonMP.Network
