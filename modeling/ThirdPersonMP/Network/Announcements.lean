import ThirdPersonMP.Library.Simulation
import ThirdPersonMP.Network.ErrorReport
import ThirdPersonMP.Network.Notifications
import ThirdPersonMP.Network.Threads

/-!
# What the user is told

`UMgrMessage` passes on what `FTCPSocket` reports (`MgrMessage.cpp`, 64–77): `ConnectDelegate`
executes `OnServerConnectedDelegate`, `DisconnectedDelegate` executes
`OnServerDisconnectedDelegate`. The first is executed by a task of the game thread, the
second by `Disconnect`, so the two can come in either order.

* `Posted` — the tasks of a session, those that were run and those that wait, in the order in
  which they were posted; kept by every step (`posted_step`).
* `announced_run` — in every run, a connection that is established is announced once, and its
  end once; no other is.
* `notifications_run` — in every run in which no `Disconnect` completes before the task that
  tells of the connection has run (`ToldFirst`), the notifications are those of one
  session after the other, and of each session first the connection and then its end.
-/

namespace ThirdPersonMP.Network

open Library

/-! ### Tasks -/

/-- The task that a step of the game thread runs. -/
def Client.executes (s : Client) : Act → List (ℕ × Task)
  | .runTask => s.mem.tasks.take 1
  | _ => []

/-- The tasks that were posted in the run `as`: those that were run, and those that wait. -/
def posted (as : List Act) (s : Client) : List (ℕ × Task) :=
  outputs Client.step Client.executes {} as ++ s.mem.tasks

/-- The connection of session `k` was established, in the run `as`. -/
def Established (k : ℕ) (as : List Act) : Prop := .io k (.init true true true) ∈ as

instance (k : ℕ) (as : List Act) : Decidable (Established k as) :=
  inferInstanceAs (Decidable (_ ∈ _))

/-- The tasks of a session whose connection was established and that has reported so many
errors. -/
def sessionTasks (established : Bool) (reported : ℕ) : List Task :=
  (if established then [.connected] else []) ++ List.replicate reported .connectionError

/-- The session `k`, whose thread is `t`, after the run `as`. -/
structure Posted (as : List Act) (s : Client) (k : ℕ) (t : FTCPSocketRunnable) : Prop where
  /-- Its connection is made by `Init`. -/
  init : t.pc = .init → ¬ Established k as
  /-- It reports nothing before its end. -/
  running : t.pc ≠ .ended → t.reported = 0
  /-- It reports once. -/
  reported : t.reported ≤ 1
  /-- Its tasks. -/
  tasks : tagged k (posted as s) = sessionTasks (Established k as) t.reported

/-- A step that is not of the thread of session `k`. -/
theorem established_concat_of_ne {k : ℕ} {as : List Act} {a : Act} (ha : ∀ b, a ≠ .io k b) :
    Established k (as ++ [a]) ↔ Established k as := by
  unfold Established
  rw [List.mem_append, List.mem_singleton]
  exact or_iff_left fun h => ha _ h.symm

/-- A step of the thread of session `k`. -/
theorem established_concat_io {k : ℕ} {as : List Act} {a : IoAct} :
    Established k (as ++ [.io k a]) ↔ Established k as ∨ a = .init true true true := by
  unfold Established
  rw [List.mem_append, List.mem_singleton, Act.io.injEq]
  exact or_congr_right ⟨fun h => h.2.symm, fun h => ⟨rfl, h.symm⟩⟩

/-- What a step of the IO thread posts: the connection that `Init` has made, or the error
with which the thread ends. -/
theorem IoStep.posts {t t' : FTCPSocketRunnable} {m m' : Shared} {a : IoAct}
    (h : IoStep t m a t' m') :
    t'.pc ≠ .init ∧
      (a ≠ .init true true true ∧ m'.tasks = m.tasks ∧ t'.reported = t.reported ∨
        a = .init true true true ∧ t.pc = .init ∧
          m'.tasks = m.tasks ++ [(t.session, .connected)] ∧ t'.reported = t.reported ∨
        a ≠ .init true true true ∧ t'.pc = .ended ∧
          m'.tasks = m.tasks ++ [(t.session, .connectionError)] ∧
          t'.reported = t.reported + 1) := by
  cases h with
  | connected hpc => exact ⟨Pc.noConfusion, .inr (.inl ⟨rfl, hpc, rfl, rfl⟩)⟩
  | refused => exact ⟨Pc.noConfusion, .inr (.inr ⟨by simp, rfl, rfl, rfl⟩)⟩
  | report => exact ⟨Pc.noConfusion, .inr (.inr ⟨IoAct.noConfusion, rfl, rfl, rfl⟩)⟩
  | noSocket | noHost => exact ⟨Pc.noConfusion, .inl ⟨by simp, rfl, rfl⟩⟩
  | loopTest | sendTest | sendDone | recvDone | send | recv =>
    refine ⟨?_, .inl ⟨IoAct.noConfusion, rfl, rfl⟩⟩
    simp only [FTCPSocketRunnable.sendMore, FTCPSocketRunnable.recvMore]
    split_ifs <;> exact Pc.noConfusion
  | decodeFrame hpc => exact ⟨by rw [hpc]; exact Pc.noConfusion, .inl ⟨IoAct.noConfusion, rfl, rfl⟩⟩
  | _ => exact ⟨Pc.noConfusion, .inl ⟨IoAct.noConfusion, rfl, rfl⟩⟩

/-- It posts tasks of its own session. -/
theorem IoStep.posts_own {t t' : FTCPSocketRunnable} {m m' : Shared} {a : IoAct}
    (h : IoStep t m a t' m') :
    ∃ new, m'.tasks = m.tasks ++ new ∧ ∀ r ∈ new, r.1 = t.session := by
  obtain ⟨-, ⟨-, ht, -⟩ | ⟨-, -, ht, -⟩ | ⟨-, -, ht, -⟩⟩ := h.posts
  · exact ⟨[], by rw [ht, List.append_nil], List.forall_mem_nil _⟩
  · exact ⟨_, ht, List.forall_mem_singleton.mpr rfl⟩
  · exact ⟨_, ht, List.forall_mem_singleton.mpr rfl⟩

/-- The queue of tasks is first in, first out: a step of the game thread moves the first of
those that wait to those that were run. -/
theorem posted_concat {as : List Act} {a : Act} {s s' : Client}
    (h : run Client.step {} as = some s) (hstep : ClientStep s a s') (ha : ∀ k b, a ≠ .io k b) :
    posted (as ++ [a]) s' = posted as s := by
  unfold posted
  rw [outputs_concat Client.step Client.executes h a, List.append_assoc]
  congr 1
  cases hstep with
  | connected hs ht | connectionError hs ht | lateConnectionError hs ht =>
    rw [ht, Client.executes, ht]
    rfl
  | io ht hio => exact absurd rfl (ha _ _)
  | _ => exact List.nil_append _

/-- A step of an IO thread adds what it posts. -/
theorem posted_concat_io {as : List Act} {s s' : Client} {k : ℕ} {b : IoAct}
    (h : run Client.step {} as = some s) {new : List (ℕ × Task)}
    (hnew : s'.mem.tasks = s.mem.tasks ++ new) :
    posted (as ++ [.io k b]) s' = posted as s ++ new := by
  have hnone : s.executes (.io k b) = [] := rfl
  unfold posted
  rw [outputs_concat Client.step Client.executes h (.io k b), hnew, hnone, List.append_nil,
    List.append_assoc]

/-- The tasks posted so far are of sessions that were started, each of them as `Posted`. -/
structure AllPosted (as : List Act) (s : Client) : Prop where
  known : ∀ r ∈ posted as s, r.1 < s.threads.length
  sessions : ∀ (k : ℕ) (t : FTCPSocketRunnable), s.threads[k]? = some t → Posted as s k t

/-- A step that leaves the session and its tasks alone. -/
theorem Posted.congr {as : List Act} {a : Act} {s s' : Client} {k : ℕ} {t u : FTCPSocketRunnable}
    (h : Posted as s k t) (ha : ∀ b, a ≠ .io k b) (hpc : u.pc = t.pc)
    (hr : u.reported = t.reported)
    (hp : tagged k (posted (as ++ [a]) s') = tagged k (posted as s)) :
    Posted (as ++ [a]) s' k u where
  init := by rw [hpc, established_concat_of_ne ha]; exact h.init
  running := by rw [hpc, hr]; exact h.running
  reported := by rw [hr]; exact h.reported
  tasks := by simp only [hp, hr, established_concat_of_ne ha]; exact h.tasks

/-- A step of the thread of the session. -/
theorem Posted.io {as : List Act} {s s' : Client} {k : ℕ} {b : IoAct} {t t' : FTCPSocketRunnable}
    {m' : Shared} (hrun : run Client.step {} as = some s) (h : Posted as s k t)
    (hk : t.session = k) (hio : IoStep t s.mem b t' m') (hm : s'.mem = m') :
    Posted (as ++ [.io k b]) s' k t' := by
  obtain ⟨hinit, hcases⟩ := hio.posts
  rcases hcases with ⟨hb, htasks, hrep⟩ | ⟨hb, hpc, htasks, hrep⟩ | ⟨hb, hend, htasks, hrep⟩
  · have hp : posted (as ++ [.io k b]) s' = posted as s ++ [] :=
      posted_concat_io hrun (by rw [hm, htasks, List.append_nil])
    have he : Established k (as ++ [.io k b]) ↔ Established k as :=
      established_concat_io.trans (or_iff_left hb)
    refine ⟨fun h => absurd h hinit, fun _ => hrep.trans (h.running hio.pc_ne_ended),
      by rw [hrep]; exact h.reported, ?_⟩
    simp only [hp, List.append_nil, he, hrep]
    exact h.tasks
  · have hp : posted (as ++ [.io k b]) s' = posted as s ++ [(t.session, .connected)] :=
      posted_concat_io hrun (by rw [hm, htasks])
    have hr := h.running hio.pc_ne_ended
    have he : Established k (as ++ [.io k b]) := established_concat_io.mpr (.inr hb)
    refine ⟨fun h => absurd h hinit, fun _ => hrep.trans hr, by rw [hrep]; exact h.reported, ?_⟩
    have htasks := h.tasks
    simp only [h.init hpc, decide_false, hr, sessionTasks] at htasks
    simp only [hp, tagged_append, htasks, hk, tagged_singleton_self, he, hrep, hr]
    rfl
  · have hp : posted (as ++ [.io k b]) s' = posted as s ++ [(t.session, .connectionError)] :=
      posted_concat_io hrun (by rw [hm, htasks])
    have hr := h.running hio.pc_ne_ended
    have he : Established k (as ++ [.io k b]) ↔ Established k as :=
      established_concat_io.trans (or_iff_left hb)
    refine ⟨fun h => absurd h hinit, fun h => absurd hend h, by omega, ?_⟩
    have htasks := h.tasks
    simp only [hr, sessionTasks] at htasks
    simp only [hp, tagged_append, htasks, hk, tagged_singleton_self, he, hrep, hr, sessionTasks]
    simp

/-- **A step keeps the tasks of every session.** -/
theorem posted_step {as : List Act} {a : Act} {s s' : Client} (hw : Wf s) (hst : Started as s)
    (hrun : run Client.step {} as = some s) (h : AllPosted as s) (hstep : ClientStep s a s') :
    AllPosted (as ++ [a]) s' := by
  have hle := hstep.length_le
  -- a step of the game thread posts nothing
  have hposted : (∀ k b, a ≠ .io k b) → posted (as ++ [a]) s' = posted as s :=
    posted_concat hrun hstep
  have hgame : (∀ k b, a ≠ .io k b) → ∀ r ∈ posted (as ++ [a]) s', r.1 < s'.threads.length := by
    intro ha r hr
    rw [hposted ha] at hr
    exact (h.known r hr).trans_le hle
  have hsame : (∀ k b, a ≠ .io k b) → (∀ (k : ℕ) (u : FTCPSocketRunnable),
      s'.threads[k]? = some u →
        ∃ t, s.threads[k]? = some t ∧ u.pc = t.pc ∧ u.reported = t.reported) →
      AllPosted (as ++ [a]) s' := by
    intro ha hthreads
    refine ⟨hgame ha, fun k u hu => ?_⟩
    obtain ⟨t, ht, hpc, hr⟩ := hthreads k u hu
    exact (h.sessions k t ht).congr (ha k) hpc hr (by rw [hposted ha])
  have hmodify : ∀ (j : ℕ) (f : FTCPSocketRunnable → FTCPSocketRunnable),
      s'.threads = s.threads.modify j f →
      (∀ t, (f t).pc = t.pc ∧ (f t).reported = t.reported) → ∀ (k : ℕ) (u : FTCPSocketRunnable), s'.threads[k]? = some u →
        ∃ t, s.threads[k]? = some t ∧ u.pc = t.pc ∧ u.reported = t.reported := by
    intro j f hthreads hf k u hu
    rw [hthreads] at hu
    obtain ⟨t, ht, rfl⟩ := getElem?_modify_eq_some.mp hu
    refine ⟨t, ht, ?_⟩
    split
    · exact hf t
    · exact ⟨rfl, rfl⟩
  cases hstep with
  | noConnect | noDisconnect | noSend | mgrEmpty | join | callbackReturn | mgrReturn | connected
  | lateConnectionError | tick =>
    exact hsame (fun _ _ => Act.noConfusion) fun k u hu => ⟨u, hu, rfl, rfl⟩
  | disconnect | mgrDisconnect | connectionError | send =>
    exact hsame (fun _ _ => Act.noConfusion) (hmodify _ _ rfl fun _ => ⟨rfl, rfl⟩)
  | @connect peer hr hp =>
    replace hposted := hposted fun _ _ => Act.noConfusion
    refine ⟨hgame fun _ _ => Act.noConfusion, fun k u hu => ?_⟩
    rcases getElem?_concat_eq_some.mp hu with hu | ⟨rfl, rfl⟩
    · exact (h.sessions k u hu).congr (fun _ => Act.noConfusion) rfl rfl (by rw [hposted])
    · -- a new session: it has taken no step and posted no task
      have hnot : ¬ Established s.threads.length (as ++ [.connect peer]) := fun he =>
        absurd (hst.io _ _ ((established_concat_of_ne fun _ => Act.noConfusion).mp he))
          (lt_irrefl _)
      have hnone : tagged s.threads.length (posted as s) = [] :=
        tagged_eq_nil fun r hr => (h.known r hr).ne
      refine ⟨fun _ => hnot, fun _ => rfl, Nat.zero_le _, ?_⟩
      simp only [hposted, hnone, hnot, decide_false]
      rfl
  | @io k b t t' m' ht hio =>
    have hsess := hw.session k t ht
    obtain ⟨new, hnew, hown⟩ := hio.posts_own
    have hposted := @posted_concat_io as s { s with threads := s.threads.set k t', mem := m' } k b
      hrun new hnew
    refine ⟨fun r hr => ?_, fun j u hu => ?_⟩
    · rw [hposted] at hr
      rcases List.mem_append.mp hr with hr | hr
      · exact (h.known r hr).trans_le hle
      · rw [hown r hr, hsess]
        exact (List.getElem?_eq_some_iff.mp ht).1.trans_le hle
    · rcases (getElem?_set_eq_some ht).mp hu with ⟨rfl, rfl⟩ | ⟨hne, hu⟩
      · exact (h.sessions k t ht).io hrun hsess hio rfl
      · refine (h.sessions j u hu).congr (fun c hc => hne (Act.io.inj hc).1) rfl rfl ?_
        have hnone : tagged j new = [] :=
          tagged_eq_nil fun r hr => by rw [hown r hr, hsess]; exact hne
        rw [hposted, tagged_append, hnone, List.append_nil]

/-- The tasks of a run, and the sessions of its steps. -/
theorem allPosted_run {as : List Act} {s : Client} (h : run Client.step {} as = some s) :
    Wf s ∧ Started as s ∧ AllPosted as s := by
  refine run_history Client.step (I := fun as s => Wf s ∧ Started as s ∧ AllPosted as s)
    ⟨wf_start, ⟨by simp, by simp⟩, ⟨by simp [posted, outputs], by simp⟩⟩ ?_ h
  intro as s a s' hrun ih ha
  obtain ⟨hw, hst, hp⟩ := ih
  have hstep := ClientStep.of_step ha
  exact ⟨wf_step hw hstep, started_step hw hst hstep, posted_step hw hst hrun hp hstep⟩

/-! ### Notifications -/

/-- The delegates of `UMgrMessage` that its user binds. -/
inductive Notification where
  | onServerConnected
  | onServerDisconnected
  deriving DecidableEq

/-- `ConnectDelegate` (64–73). -/
def connectDelegate (success : Bool) : Notification :=
  if success then .onServerConnected else .onServerDisconnected

/-- `DisconnectedDelegate` (75–77). -/
def disconnectedDelegate : Notification := .onServerDisconnected

/-- What a step tells the user, with the session that it is about. -/
def Client.notifies (s : Client) : Act → List (ℕ × Notification)
  | .runTask =>
    match s.mem.tasks with
    | (k, .connected) :: _ => [(k, connectDelegate true)]
    | _ => []
  | .join =>
    match s.stack with
    | .waitForCompletion k :: _ => [(k, disconnectedDelegate)]
    | _ => []
  | _ => []

/-- What the user was told, in the run `as`. -/
def notifications (as : List Act) : List (ℕ × Notification) :=
  outputs Client.step Client.notifies {} as

/-- A task tells the user of a connection, and `Disconnect` of its end; nothing else does. -/
theorem count_notifies {s s' : Client} {a : Act} (h : ClientStep s a s') (k : ℕ) :
    (s.notifies a).count (k, .onServerConnected) = (s.executes a).count (k, .connected) ∧
      s'.disconnectedRuns.count k =
        s.disconnectedRuns.count k + (s.notifies a).count (k, .onServerDisconnected) := by
  cases h with
  | connected hs ht =>
    rw [Client.notifies, Client.executes, ht]
    simp [connectDelegate, List.count_singleton]
  | connectionError hs ht | lateConnectionError hs ht =>
    rw [Client.notifies, Client.executes, ht]
    exact ⟨by simp, rfl⟩
  | join hs =>
    have hnone : s.executes .join = [] := rfl
    rw [hnone, Client.notifies, hs]
    simp [disconnectedDelegate, List.count_singleton]
  | _ => exact ⟨rfl, rfl⟩

/-- The notifications of a session, in a run. -/
theorem count_notifications {as : List Act} {s : Client} (h : run Client.step {} as = some s)
    (k : ℕ) :
    (notifications as).count (k, .onServerConnected) =
        (outputs Client.step Client.executes {} as).count (k, .connected) ∧
      (notifications as).count (k, .onServerDisconnected) = s.disconnectedRuns.count k := by
  refine run_history Client.step (I := fun as s => (notifications as).count _ =
    (outputs Client.step Client.executes {} as).count _ ∧
      (notifications as).count _ = s.disconnectedRuns.count k) ⟨rfl, rfl⟩ ?_ h
  intro as s a s' hrun ⟨hc, hd⟩ ha
  obtain ⟨hc', hd'⟩ := count_notifies (.of_step ha) k
  unfold notifications at hc hd ⊢
  rw [outputs_concat Client.step Client.notifies hrun,
    outputs_concat Client.step Client.executes hrun, List.count_append, List.count_append,
    List.count_append, hc, hd, hc', hd']
  exact ⟨rfl, rfl⟩

/-- How often a session's tasks tell of its connection. -/
theorem count_sessionTasks (established : Bool) (reported : ℕ) :
    (sessionTasks established reported).count .connected = if established then 1 else 0 := by
  unfold sessionTasks
  rw [List.count_append, List.count_replicate]
  cases established <;> rfl

/-- **What the user is told of a session**, in every run. Its tasks are, in the order in which
they run, that its connection was established, if it was, and at most one connection error.
So `OnServerConnectedDelegate` is executed once for it, as soon as its task has run, if its
connection was established, and otherwise never; `OnServerDisconnectedDelegate` is executed
once, when the session ends. -/
theorem announced_run {as : List Act} {s : Client} (h : run Client.step {} as = some s) {k : ℕ}
    {t : FTCPSocketRunnable} (ht : s.threads[k]? = some t) :
    (tagged k (outputs Client.step Client.executes {} as) ++ tagged k s.mem.tasks =
        sessionTasks (Established k as) t.reported ∧ t.reported ≤ 1) ∧
      (notifications as).count (k, .onServerConnected) + s.mem.tasks.count (k, .connected) =
        (if Established k as then 1 else 0) ∧
      (notifications as).count (k, .onServerDisconnected) =
        if s.socketRunnablePtr = some k then 0 else 1 := by
  obtain ⟨hw, -, hall⟩ := allPosted_run h
  have hp := hall.sessions k t ht
  obtain ⟨hconnected, hdisconnected⟩ := count_notifications h k
  have htasks : tagged k (outputs Client.step Client.executes {} as) ++ tagged k s.mem.tasks =
      sessionTasks (Established k as) t.reported := by
    rw [← tagged_append]
    exact hp.tasks
  refine ⟨⟨htasks, hp.reported⟩, ?_, ?_⟩
  · rw [hconnected, ← count_tagged, ← count_tagged, ← List.count_append, htasks,
      count_sessionTasks]
    simp only [decide_eq_true_eq]
  · rw [hdisconnected, counted_run h k]
    have hk := (List.getElem?_eq_some_iff.mp ht).1
    by_cases hcur : s.socketRunnablePtr = some k
    · rw [if_neg fun h => h.2 hcur, if_pos hcur]
    · rw [if_pos ⟨hk, hcur⟩, if_neg hcur]

/-- What `announced_run` says of session `0` of `lateConnected`, whose task ran late. -/
theorem announced_run_lateConnected :
    ∃ s t, run Client.step {} lateConnected = some s ∧ s.threads[0]? = some t ∧
      notifications lateConnected = [(0, .onServerDisconnected), (0, .onServerConnected)] ∧
      ((tagged 0 (outputs Client.step Client.executes {} lateConnected) ++ tagged 0 s.mem.tasks =
          sessionTasks (Established 0 lateConnected) t.reported ∧ t.reported ≤ 1) ∧
        (notifications lateConnected).count (0, .onServerConnected) +
            s.mem.tasks.count (0, .connected) = (if Established 0 lateConnected then 1 else 0) ∧
        (notifications lateConnected).count (0, .onServerDisconnected) =
          if s.socketRunnablePtr = some 0 then 0 else 1) := by
  have hrun : ((run Client.step {} lateConnected).bind fun s => s.threads[0]?).isSome := by decide
  obtain ⟨t, h⟩ := Option.isSome_iff_exists.mp hrun
  obtain ⟨s, hs, ht⟩ := Option.bind_eq_some_iff.mp h
  exact ⟨s, t, hs, ht, by decide, announced_run hs ht⟩

/-! ### Their order -/

/-- What the user is told of a session that has ended. -/
def sessionNotifications (as : List Act) (k : ℕ) : List (ℕ × Notification) :=
  (if Established k as then [(k, .onServerConnected)] else []) ++ [(k, .onServerDisconnected)]

/-- How many sessions have ended. -/
def Client.endedSessions (s : Client) : ℕ := s.socketRunnablePtr.getD s.threads.length

/-- What the user was told of the session that has not ended. -/
def Client.currentNotifications (s : Client) (as : List Act) : List (ℕ × Notification) :=
  match s.socketRunnablePtr with
  | none => []
  | some k =>
    if Established k as ∧ (k, .connected) ∉ s.mem.tasks then [(k, .onServerConnected)] else []

/-- The user was told of one session after the other, and of each session in order. -/
def Ordered (as : List Act) (s : Client) : Prop :=
  notifications as =
    (List.range s.endedSessions).flatMap (sessionNotifications as) ++ s.currentNotifications as

/-- A step that establishes no connection, of those that count. -/
theorem flatMap_sessionNotifications {as as' : List Act} {n : ℕ}
    (h : ∀ k < n, Established k as' ↔ Established k as) :
    (List.range n).flatMap (sessionNotifications as') =
      (List.range n).flatMap (sessionNotifications as) := by
  refine List.flatMap_congr fun k hk => ?_
  unfold sessionNotifications
  simp only [h k (List.mem_range.mp hk)]

/-- A step that tells nothing, and ends and starts no session. -/
theorem Ordered.congr {as : List Act} {a : Act} {s s' : Client} (h : Ordered as s)
    (hrun : run Client.step {} as = some s) (ha : ∀ k b, a ≠ .io k b) (hn : s.notifies a = [])
    (hp : s'.socketRunnablePtr = s.socketRunnablePtr) (hlen : s'.threads.length = s.threads.length)
    (ht : ∀ k, (k, .connected) ∈ s'.mem.tasks ↔ (k, .connected) ∈ s.mem.tasks) :
    Ordered (as ++ [a]) s' := by
  have hended : s'.endedSessions = s.endedSessions := by
    unfold Client.endedSessions
    rw [hp, hlen]
  have hcur : s'.currentNotifications (as ++ [a]) = s.currentNotifications as := by
    unfold Client.currentNotifications
    rw [hp]
    simp only [ht, established_concat_of_ne (ha _)]
  unfold Ordered at h ⊢
  unfold notifications at h ⊢
  rw [outputs_concat Client.step Client.notifies hrun, hn, List.append_nil, hended, hcur,
    flatMap_sessionNotifications fun k _ => established_concat_of_ne (ha k)]
  exact h

/-- The task that tells of a connection was posted once, if the connection was established. -/
theorem AllPosted.count_connected {as : List Act} {s : Client} (h : AllPosted as s) {k : ℕ}
    {t : FTCPSocketRunnable} (ht : s.threads[k]? = some t) :
    (posted as s).count (k, .connected) = if Established k as then 1 else 0 := by
  rw [← count_tagged, (h.sessions k t ht).tasks, count_sessionTasks]
  simp only [decide_eq_true_eq]

/-- The task that tells of a connection is the last one that does. -/
theorem AllPosted.connected {as : List Act} {s : Client} (h : AllPosted as s) {k : ℕ}
    {tasks : List (ℕ × Task)} (ht : s.mem.tasks = (k, .connected) :: tasks) :
    Established k as ∧ (k, .connected) ∉ tasks := by
  have hmem : (k, .connected) ∈ posted as s := by
    refine List.mem_append_right _ ?_
    rw [ht]
    exact List.mem_cons_self
  obtain ⟨t, hk⟩ : ∃ t, s.threads[k]? = some t := ⟨_, List.getElem?_eq_getElem (h.known _ hmem)⟩
  have hcount := h.count_connected hk
  have hpos := List.count_pos_iff.mpr hmem
  have hestablished : Established k as := by
    by_contra hnot
    rw [if_neg hnot] at hcount
    omega
  rw [if_pos hestablished, posted, ht, List.count_append, List.count_cons_self] at hcount
  refine ⟨hestablished, fun hin => ?_⟩
  have := List.count_pos_iff.mpr hin
  omega

/-- A step of the IO thread does not change whether the user was told of its connection. -/
theorem Posted.announced_iff {as : List Act} {s : Client} {k : ℕ} {b : IoAct}
    {t t' : FTCPSocketRunnable} {m' : Shared} (h : Posted as s k t) (hk : t.session = k)
    (hio : IoStep t s.mem b t' m') :
    (Established k (as ++ [.io k b]) ∧ (k, .connected) ∉ m'.tasks) ↔
      Established k as ∧ (k, .connected) ∉ s.mem.tasks := by
  obtain ⟨-, ⟨hb, htasks, -⟩ | ⟨hb, hpc, htasks, -⟩ | ⟨hb, -, htasks, -⟩⟩ := hio.posts
  · rw [established_concat_io, or_iff_left hb, htasks]
  · -- it has just been established, and the task is the last
    have hin : (k, .connected) ∈ m'.tasks := by
      rw [htasks, hk]
      exact List.mem_append_right _ List.mem_cons_self
    exact iff_of_false (fun h => h.2 hin) fun he => h.init hpc he.1
  · rw [established_concat_io, or_iff_left hb, htasks]
    simp

/-- **A step keeps the order.** -/
theorem ordered_step {as : List Act} {a : Act} {s s' : Client} (hw : Wf s) (hst : Started as s)
    (hall : AllPosted as s) (hcurrent : ConnectedCurrent s)
    (hrun : run Client.step {} as = some s) (h : Ordered as s) (hs : ToldFirst s a)
    (hstep : ClientStep s a s') : Ordered (as ++ [a]) s' := by
  have hout : notifications (as ++ [a]) = notifications as ++ s.notifies a :=
    outputs_concat Client.step Client.notifies hrun a
  -- a connection is established by the thread of the session that has not ended
  have hblocks : (List.range s.endedSessions).flatMap (sessionNotifications (as ++ [a])) =
      (List.range s.endedSessions).flatMap (sessionNotifications as) := by
    refine flatMap_sessionNotifications fun k hk => established_concat_of_ne fun b hb => ?_
    subst hb
    cases hstep with
    | io ht hio =>
      rw [Client.endedSessions, hw.live k _ ht hio.pc_ne_ended] at hk
      exact absurd hk (lt_irrefl k)
  cases hstep with
  | noConnect | noDisconnect | noSend | mgrEmpty | callbackReturn | mgrReturn | tick =>
    exact h.congr hrun (fun _ _ => Act.noConfusion) rfl rfl rfl fun _ => Iff.rfl
  | disconnect | mgrDisconnect | send =>
    exact h.congr hrun (fun _ _ => Act.noConfusion) rfl rfl (List.length_modify ..) fun _ => Iff.rfl
  | lateConnectionError hs' ht =>
    refine h.congr hrun (fun _ _ => Act.noConfusion) ?_ rfl rfl fun k => ?_
    · rw [Client.notifies, ht]
    · rw [ht]
      simp
  | connectionError hs' ht =>
    refine h.congr hrun (fun _ _ => Act.noConfusion) ?_ rfl (List.length_modify ..) fun k => ?_
    · rw [Client.notifies, ht]
    · rw [ht]
      simp [Client.stop]
  | @connect peer hr hp =>
    have hnot : ¬ Established s.threads.length (as ++ [.connect peer]) := fun he =>
      absurd (hst.io _ _ ((established_concat_of_ne fun _ => Act.noConfusion).mp he)) (lt_irrefl _)
    have hended : s.endedSessions = s.threads.length := by rw [Client.endedSessions, hp]; rfl
    have hcur : s.currentNotifications as = [] := by rw [Client.currentNotifications, hp]
    rw [hended] at hblocks
    unfold Ordered at h ⊢
    rw [hout, h, hended, hcur, ← hblocks]
    simp only [Client.notifies, Client.currentNotifications, Client.endedSessions, hnot, false_and,
      if_false, List.append_nil, Option.getD_some]
  | @join k rest t hs' ht he =>
    have hp : s.socketRunnablePtr = some k := hw.waiting k (by rw [hs']; exact List.mem_cons_self)
    have hnot : (k, .connected) ∉ s.mem.tasks := fun hin => hs _ hin rfl hp
    have hsame : Established k (as ++ [.join]) ↔ Established k as :=
      established_concat_of_ne fun _ => Act.noConfusion
    have hended : s.endedSessions = k := by rw [Client.endedSessions, hp]; rfl
    have hlen : s.threads.length = k + 1 := (hw.current k hp).symm
    have hcur : s.currentNotifications as =
        if Established k as then [(k, .onServerConnected)] else [] := by
      rw [Client.currentNotifications, hp]
      simp only [hnot, not_false_eq_true, and_true]
    have hnotifies : s.notifies .join = [(k, .onServerDisconnected)] := by
      rw [Client.notifies, hs']
      rfl
    rw [hended] at hblocks
    unfold Ordered at h ⊢
    rw [hout, h, hended, hcur, hnotifies, ← hblocks]
    simp only [Client.currentNotifications, Client.endedSessions, Option.getD_none, hlen,
      List.range_succ, List.flatMap_append, List.flatMap_singleton, sessionNotifications, hsame,
      List.append_nil, List.append_assoc]
  | @connected k tasks hs' ht =>
    obtain ⟨he, hnot⟩ := hall.connected ht
    have hp : s.socketRunnablePtr = some k := by
      refine hcurrent k ?_
      rw [ht]
      exact List.mem_cons_self
    have hsame : Established k (as ++ [.runTask]) ↔ Established k as :=
      established_concat_of_ne fun _ => Act.noConfusion
    have hcur : s.currentNotifications as = [] := by
      rw [Client.currentNotifications, hp]
      exact if_neg fun h => h.2 (by rw [ht]; exact List.mem_cons_self)
    have hnotifies : s.notifies .runTask = [(k, .onServerConnected)] := by
      rw [Client.notifies, ht]
      rfl
    unfold Ordered at h ⊢
    rw [hout, h, hcur, hnotifies, ← hblocks, List.append_nil]
    congr 1
    rw [Client.currentNotifications]
    simp only [hp, hsame, he, hnot, not_false_eq_true, and_self, if_true]
  | @io k b t t' m' ht hio =>
    have hp : s.socketRunnablePtr = some k := hw.live k t ht hio.pc_ne_ended
    have hiff := (hall.sessions k t ht).announced_iff (hw.session k t ht) hio
    unfold Ordered at h ⊢
    rw [hout, h, ← hblocks]
    simp only [Client.notifies, Client.endedSessions, Client.currentNotifications, hp, hiff,
      Option.getD_some, List.append_nil]

/-- **What the user is told is in order**, in every run in which no `Disconnect` completes before
the task that tells of the connection has run: all that was told of one session, then all of
the next; of a session that has ended, that it was connected, if its connection was
established, and then that it was disconnected; of the one that has not ended, at most that it
was connected. -/
theorem notifications_run {as : List Act} {s : Client} (h : run Client.step {} as = some s)
    (hs : EachStep Client.step ToldFirst {} as) :
    notifications as = (List.range s.endedSessions).flatMap (sessionNotifications as) ++
      s.currentNotifications as := by
  have hstart : ConnectedCurrent {} ∧ Ordered [] {} := ⟨by simp [ConnectedCurrent], rfl⟩
  refine (run_history Client.step (I := fun as s => EachStep Client.step ToldFirst {} as →
    ConnectedCurrent s ∧ Ordered as s) (fun _ => hstart) ?_ h hs).2
  intro as s a s' hrun ih ha hs
  obtain ⟨hs, htold⟩ := eachStep_concat hs hrun
  obtain ⟨hcurrent, hordered⟩ := ih hs
  obtain ⟨hw, hst, hall⟩ := allPosted_run hrun
  have hstep := ClientStep.of_step ha
  exact ⟨connectedCurrent_step hw hcurrent htold hstep,
    ordered_step hw hst hall hcurrent hrun hordered htold hstep⟩

/-- Session `0` of `reconnect` was announced and ended; session `1` was not announced yet. -/
theorem notifications_run_reconnect :
    ∃ s, run Client.step {} reconnect = some s ∧ EachStep Client.step ToldFirst {} reconnect ∧
      notifications reconnect = [(0, .onServerConnected), (0, .onServerDisconnected)] ∧
      notifications reconnect =
        (List.range s.endedSessions).flatMap (sessionNotifications reconnect) ++
          s.currentNotifications reconnect := by
  have hsome : (run Client.step {} reconnect).isSome := by decide
  obtain ⟨s, hs⟩ := Option.isSome_iff_exists.mp hsome
  have htold : EachStep Client.step ToldFirst {} reconnect := by decide
  exact ⟨s, hs, htold, by decide, notifications_run hs htold⟩

end ThirdPersonMP.Network
