import ThirdPersonMP.Network.TcpSocket
import Mathlib.Data.List.Count

/-!
# Reporting the end of the IO thread

When the IO thread ends by itself, `FTCPSocket::Disconnect` has to be scheduled through
`ConnectionErrorDelegate`, or `SocketRunnablePtr` stays valid with no thread behind it:
`Connect` then does nothing and `Send` goes on queueing.

The delegate is executed in two places: by `Init` when `FSocket::Connect` fails (49–53),
and by `Exit` when `bConnectionError` is set (149–152), which is by a failed `Send` or
`Recv`. The other ways to end are not reported (`not_reported`): `Init` returns false when
no socket was created or the host was not resolved, and `Run` returns when
`GetConnectionState` is no longer `SCS_Connected`.

* `Reports` — what is reported, in terms of the failures of the calls so far; kept by a
  step of the thread (`Reports.ioStep`).
* `reported_run` — in every run, a thread that has ended without being stopped has been
  reported, once, exactly when one of these calls failed.
-/

namespace ThirdPersonMP.Network

open Base Library

/-! ### The IO thread -/

/-- The call that the step answers is one whose failure is reported: `FSocket::Connect`, of
a socket that was created and an address that was resolved, `FSocket::Send` and
`FSocket::Recv`. -/
def failing : IoAct → Bool
  | .init true true false | .send none | .recv none => true
  | _ => false

/-- What a thread has reported. `failed` says that a call whose failure is reported has
failed. -/
structure Reports (failed : Prop) (t : FTCPSocketRunnable) : Prop where
  /-- No call has been made. -/
  init : t.pc = .init → t.bConnectionError = false
  /-- The loop is entered with a socket. -/
  socketPtr : t.pc ≠ .init → t.pc ≠ .ended → t.socketPtr = true
  /-- The flag that `Exit` tests. -/
  bConnectionError : t.pc ≠ .ended → (t.bConnectionError = true ↔ failed)
  /-- Nothing is reported before the end. -/
  running : t.pc ≠ .ended → t.reported = 0
  /-- A thread that was not stopped has reported its failure, once. -/
  ended : t.pc = .ended → t.bManuallyStop = false →
    (failed → t.reported = 1) ∧ (¬ failed → t.reported = 0)

section

variable {failed : Prop} {t t' : FTCPSocketRunnable} {m m' : Shared} {a : IoAct}

/-- A thread that is in its loop. -/
theorem Reports.of_running (hi : t.pc ≠ .init) (he : t.pc ≠ .ended) (hs : t.socketPtr = true)
    (hb : t.bConnectionError = true ↔ failed) (hr : t.reported = 0) : Reports failed t where
  init := fun h => absurd h hi
  socketPtr := fun _ _ => hs
  bConnectionError := fun _ => hb
  running := fun _ => hr
  ended := fun h => absurd h he

/-- A thread that has ended. -/
theorem Reports.of_ended (he : t.pc = .ended)
    (h : t.bManuallyStop = false → (failed → t.reported = 1) ∧ (¬ failed → t.reported = 0)) :
    Reports failed t where
  init := fun hi => by rw [he] at hi; cases hi
  socketPtr := fun _ hne => absurd he hne
  bConnectionError := fun hne => absurd he hne
  running := fun hne => absurd he hne
  ended := fun _ => h

/-- **A step of the IO thread keeps `Reports`.** -/
theorem Reports.ioStep (hr : Reports failed t) (h : IoStep t m a t' m') :
    Reports (failed ∨ failing a = true) t' := by
  have hne := h.pc_ne_ended
  have hrun := hr.running hne
  have herr := hr.bConnectionError hne
  cases h with
  | noSocket hpc | noHost hpc =>
    have hnot : ¬ failed := by simp [← herr, hr.init hpc]
    exact .of_ended rfl fun _ => ⟨fun hf => by simp [hnot, failing] at hf, fun _ => hrun⟩
  | refused hpc =>
    refine .of_ended rfl fun _ => ⟨fun _ => ?_, fun hf => absurd (.inr rfl) hf⟩
    show t.reported + 1 = 1
    rw [hrun]
  | connected hpc =>
    refine .of_running Pc.noConfusion Pc.noConfusion rfl ?_ hrun
    simpa [failing] using herr
  | sendFail hpc | recvFail hpc =>
    have hs := hr.socketPtr (by rw [hpc]; exact Pc.noConfusion) hne
    exact .of_running Pc.noConfusion Pc.noConfusion hs (by simp [failing]) hrun
  | report hpc hp he hs =>
    refine .of_ended rfl fun _ => ⟨fun _ => ?_, fun hf => absurd (.inl (herr.mp he)) hf⟩
    show t.reported + 1 = 1
    rw [hrun]
  | exit hpc hq =>
    refine .of_ended rfl fun hstop => ⟨fun hf => ?_, fun _ => hrun⟩
    -- the guard of `Exit` passes when a call has failed
    have hs := hr.socketPtr (by rw [hpc]; exact Pc.noConfusion) hne
    have he := herr.mpr (hf.resolve_right Bool.noConfusion)
    replace hstop : t.bManuallyStop = false := hstop
    simp [hs, he, hstop] at hq
  | loopTest hpc | sendTest hpc | sendDone hpc | recvDone hpc | send hpc | recv hpc =>
    have hs := hr.socketPtr (by rw [hpc]; exact Pc.noConfusion) hne
    refine .of_running ?_ ?_ hs ?_ hrun
    case refine_3 =>
      simpa [failing, FTCPSocketRunnable.sendMore, FTCPSocketRunnable.recvMore] using herr
    all_goals
      simp only [FTCPSocketRunnable.sendMore, FTCPSocketRunnable.recvMore]
      split_ifs <;> exact Pc.noConfusion
  | peek hpc | peekEmpty hpc | pop hpc | noPop hpc | noPendingData hpc | hasPendingData hpc
  | setNumFault hpc | writeFault hpc | hand hpc | noHand hpc | decodeDone hpc | decodeFault hpc =>
    have hs := hr.socketPtr (by rw [hpc]; exact Pc.noConfusion) hne
    exact .of_running Pc.noConfusion Pc.noConfusion hs (by simpa [failing] using herr) hrun
  | decodeFrame hpc =>
    have hi : t.pc ≠ .init := by rw [hpc]; exact Pc.noConfusion
    exact .of_running hi hne (hr.socketPtr hi hne) (by simpa [failing] using herr) hrun

/-- Each report posts one task, of the thread's own session. -/
theorem IoStep.count_tasks (h : IoStep t m a t' m') (k : ℕ) :
    m'.tasks.count (k, .connectionError) + (if t.session = k then t.reported else 0) =
      m.tasks.count (k, .connectionError) + if t.session = k then t'.reported else 0 := by
  cases h with
  | refused | report =>
    simp only [List.count_append, List.count_singleton]
    by_cases hk : t.session = k
    · simp [hk]
      omega
    · simp [hk]
  | connected => simp [List.count_append]
  | _ => rfl

end

/-! ### The sessions -/

/-- The session `k` had a failure that is reported, in the run `as`. -/
def Failed (k : ℕ) (as : List Act) : Prop := ∃ a, failing a = true ∧ .io k a ∈ as

/-- A step that is not of the thread of session `k`. -/
theorem failed_concat_of_ne {k : ℕ} {as : List Act} {a : Act} (ha : ∀ b, a ≠ .io k b) :
    Failed k (as ++ [a]) ↔ Failed k as := by
  unfold Failed
  simp only [List.mem_append, List.mem_singleton, eq_comm (b := a), ha, or_false]

/-- A step of the thread of session `k`. -/
theorem failed_concat_io {k : ℕ} {as : List Act} {a : IoAct} :
    Failed k (as ++ [.io k a]) ↔ Failed k as ∨ failing a = true := by
  unfold Failed
  constructor
  · rintro ⟨b, hb, hmem⟩
    rcases List.mem_append.mp hmem with hmem | hmem
    · exact .inl ⟨b, hb, hmem⟩
    · rw [List.mem_singleton, Act.io.injEq] at hmem
      exact .inr (hmem.2 ▸ hb)
  · rintro (⟨b, hb, hmem⟩ | ha)
    · exact ⟨b, hb, List.mem_append_left _ hmem⟩
    · exact ⟨a, ha, List.mem_append_right _ (List.mem_singleton.mpr rfl)⟩

/-- A session whose thread is `t`, after the run `as`. -/
structure Reported (as : List Act) (s : Client) (k : ℕ) (t : FTCPSocketRunnable) : Prop where
  /-- What its thread has reported. -/
  reports : Reports (Failed k as) t
  /-- Until the session is stopped, `Disconnect` is scheduled as often as it has reported. -/
  tasks : t.bManuallyStop = false → s.mem.tasks.count (k, .connectionError) = t.reported

/-- The sessions of the steps and of the tasks are sessions that were started. -/
structure Started (as : List Act) (s : Client) : Prop where
  io : ∀ k a, .io k a ∈ as → k < s.threads.length
  tasks : ∀ r ∈ s.mem.tasks, r.1 < s.threads.length

/-- No session is taken back. -/
theorem ClientStep.length_le {s s' : Client} {a : Act} (h : ClientStep s a s') :
    s.threads.length ≤ s'.threads.length := by
  cases h with
  | connect => simp
  | disconnect | mgrDisconnect | connectionError | send => exact (List.length_modify ..).ge
  | io => exact (List.length_set ..).ge
  | _ => exact le_rfl

theorem started_step {as : List Act} {a : Act} {s s' : Client} (hw : Wf s) (h : Started as s)
    (hstep : ClientStep s a s') : Started (as ++ [a]) s' := by
  have hle := hstep.length_le
  refine ⟨fun k b hb => ?_, fun r hr => ?_⟩
  · rcases List.mem_append.mp hb with hb | hb
    · exact (h.io k b hb).trans_le hle
    · rw [List.mem_singleton] at hb
      subst hb
      cases hstep with
      | io ht hio => exact (List.getElem?_eq_some_iff.mp ht).1.trans_le hle
  · have hold : r ∈ s.mem.tasks → r.1 < s'.threads.length := fun hr =>
      (h.tasks r hr).trans_le hle
    cases hstep with
    | connected hs ht | connectionError hs ht | lateConnectionError hs ht =>
      exact hold (by rw [ht]; exact List.mem_cons_of_mem _ hr)
    | @io k a t t' m' ht hio =>
      have hk : r.1 = t.session → r.1 < (s.threads.set k t').length := fun h => by
        rw [h, hw.session k t ht, List.length_set]
        exact (List.getElem?_eq_some_iff.mp ht).1
      rcases hio.tasks_eq with heq | ⟨heq, -⟩ | ⟨heq, -⟩
      · exact hold (heq ▸ hr)
      all_goals
        rcases List.mem_append.mp (heq ▸ hr) with hr | hr
        · exact hold hr
        · rw [List.mem_singleton] at hr
          exact hk (by rw [hr])
    | _ => exact hold hr

/-- A step that leaves the thread and the tasks of the session alone. -/
theorem Reported.congr {as : List Act} {a : Act} {s s' : Client} {k : ℕ} {t : FTCPSocketRunnable}
    (h : Reported as s k t) (ha : ∀ b, a ≠ .io k b)
    (hc : s'.mem.tasks.count (k, .connectionError) = s.mem.tasks.count (k, .connectionError)) :
    Reported (as ++ [a]) s' k t := by
  refine ⟨?_, ?_⟩
  · rw [failed_concat_of_ne ha]
    exact h.reports
  · rw [hc]
    exact h.tasks

/-- A session that has been stopped promises nothing. -/
theorem Reported.of_stopped {as : List Act} {a : Act} {s s' : Client} {k : ℕ}
    {t u : FTCPSocketRunnable} (h : Reported as s k t) (ha : ∀ b, a ≠ .io k b)
    (hu : u = { t with bManuallyStop := true }) : Reported (as ++ [a]) s' k u := by
  subst hu
  refine ⟨?_, Bool.noConfusion⟩
  rw [failed_concat_of_ne ha]
  have hr := h.reports
  exact ⟨hr.init, hr.socketPtr, hr.bConnectionError, hr.running, fun _ => Bool.noConfusion⟩

/-- **A step keeps every session `Reported`.** -/
theorem reported_step {as : List Act} {a : Act} {s s' : Client} (hw : Wf s) (hst : Started as s)
    (hstep : ClientStep s a s')
    (h : ∀ (k : ℕ) (t : FTCPSocketRunnable), s.threads[k]? = some t → Reported as s k t) :
    ∀ (k : ℕ) (u : FTCPSocketRunnable), s'.threads[k]? = some u → Reported (as ++ [a]) s' k u := by
  intro k u hu
  have hstopped : ∀ t : FTCPSocketRunnable, s.threads[k]? = some t → s.socketRunnablePtr ≠ some k →
      t = { t with bManuallyStop := true } := by
    intro t ht hne
    have hs := hw.stopped k t ht (.inl hne)
    cases t
    cases hs
    rfl
  cases hstep with
  | noConnect | noDisconnect | noSend | join | callbackReturn | mgrReturn | mgrEmpty | tick =>
    exact (h k u hu).congr (fun _ => Act.noConfusion) rfl
  | connect hr hp =>
    rcases getElem?_concat_eq_some.mp hu with hu | ⟨rfl, rfl⟩
    · exact (h k u hu).congr (fun _ => Act.noConfusion) rfl
    · -- a new session: it has taken no step and posted no task
      refine ⟨⟨fun _ => rfl, fun hne => absurd rfl hne, fun _ => ?_, fun _ => rfl, nofun⟩,
        fun _ => ?_⟩
      · refine ⟨nofun, fun ⟨b, _, hb⟩ => ?_⟩
        rcases List.mem_append.mp hb with hb | hb
        · exact absurd (hst.io _ b hb) (lt_irrefl _)
        · rw [List.mem_singleton] at hb
          cases hb
      · exact List.count_eq_zero.mpr fun hr => absurd (hst.tasks _ hr) (lt_irrefl _)
  | disconnect hr hp | mgrDisconnect hr hp =>
    obtain ⟨t, ht, rfl⟩ := getElem?_modify_eq_some.mp hu
    split
    · exact (h k t ht).of_stopped (fun _ => Act.noConfusion) rfl
    · exact (h k t ht).congr (fun _ => Act.noConfusion) rfl
  | @connectionError k' j tasks hs htask hp =>
    obtain ⟨t, ht, rfl⟩ := getElem?_modify_eq_some.mp hu
    split
    · exact (h k t ht).of_stopped (fun _ => Act.noConfusion) rfl
    · rename_i hne
      refine (h k t ht).of_stopped (fun _ => Act.noConfusion) (hstopped t ht ?_)
      rw [show s.socketRunnablePtr = some j from hp]
      simpa using hne
  | lateConnectionError hs htask hp =>
    exact (h k u hu).of_stopped (fun _ => Act.noConfusion) (hstopped u hu (by simp [hp]))
  | connected hs htask =>
    refine (h k u hu).congr (fun _ => Act.noConfusion) ?_
    rw [htask, List.count_cons_of_ne (by simp)]
  | @send data j hr hp =>
    obtain ⟨t, ht, rfl⟩ := getElem?_modify_eq_some.mp hu
    split
    · have hR := h k t ht
      refine ⟨?_, hR.tasks⟩
      rw [failed_concat_of_ne fun _ => Act.noConfusion]
      have hr := hR.reports
      exact ⟨hr.init, hr.socketPtr, hr.bConnectionError, hr.running, hr.ended⟩
    · exact (h k t ht).congr (fun _ => Act.noConfusion) rfl
  | @io j b t t' m' ht hio =>
    have hcount := hio.count_tasks k
    rw [hw.session j t ht] at hcount
    rcases (getElem?_set_eq_some ht).mp hu with ⟨rfl, rfl⟩ | ⟨hne, hu⟩
    · have hR := h j t ht
      refine ⟨?_, fun hstop => ?_⟩
      · rw [failed_concat_io]
        exact hR.reports.ioStep hio
      · rw [hio.bManuallyStop_eq] at hstop
        rw [if_pos rfl, if_pos rfl, hR.tasks hstop] at hcount
        show m'.tasks.count _ = _
        omega
    · rw [if_neg hne, if_neg hne] at hcount
      exact (h k u hu).congr (by simp [hne]) hcount

/-- **When the end of the IO thread is reported.** In every run, when the thread of a
session has ended and `Stop` was not called, `ConnectionErrorDelegate` was executed exactly
once, and `Disconnect` is scheduled, if and only if `FSocket::Connect` failed (on a socket
that was created, for a host that was resolved) or a `Send` or a `Recv` did. -/
theorem reported_run {as : List Act} {s : Client} (h : run Client.step {} as = some s) {k : ℕ}
    {t : FTCPSocketRunnable} (ht : s.threads[k]? = some t) (hend : t.pc = .ended)
    (hstop : t.bManuallyStop = false) :
    (t.reported = 1 ∧ s.mem.tasks.count (k, .connectionError) = 1) ↔ Failed k as := by
  have hI := run_history Client.step (I := fun as s => Wf s ∧ Started as s ∧
    ∀ (k : ℕ) (t : FTCPSocketRunnable), s.threads[k]? = some t → Reported as s k t)
    ⟨wf_start, ⟨by simp, by simp⟩, by simp⟩ ?_ h
  · have hR := hI.2.2 k t ht
    rw [hR.tasks hstop, and_self]
    constructor
    · intro h1
      by_contra hf
      rw [(hR.reports.ended hend hstop).2 hf] at h1
      cases h1
    · exact (hR.reports.ended hend hstop).1
  · intro as s a s' _ ⟨hw, hst, hR⟩ ha
    have hstep := ClientStep.of_step ha
    exact ⟨wf_step hw hstep, started_step hw hst hstep, reported_step hw hst hstep hR⟩

/-- The connection of session `0` is refused. -/
def refusedConnect : List Act := [.connect [], .io 0 (.init true true false)]

/-- It is reported. -/
theorem reported_run_refusedConnect :
    ∃ s t, run Client.step {} refusedConnect = some s ∧ s.threads[0]? = some t ∧ t.pc = .ended ∧
      t.bManuallyStop = false ∧
      ((t.reported = 1 ∧ s.mem.tasks.count (0, .connectionError) = 1) ↔ Failed 0 refusedConnect) := by
  have hrun : ((run Client.step {} refusedConnect).bind fun s => s.threads[0]?).map
      (fun t => (t.pc, t.bManuallyStop)) = some (.ended, false) := by decide
  obtain ⟨t, ht, hflags⟩ := Option.map_eq_some_iff.mp hrun
  obtain ⟨s, hs, ht⟩ := Option.bind_eq_some_iff.mp ht
  rw [Prod.mk.injEq] at hflags
  exact ⟨s, t, hs, ht, hflags.1, hflags.2, reported_run hs ht hflags.1 hflags.2⟩

/-- No socket is created. -/
def socketNotCreated : List Act := [.connect [], .io 0 (.init false false false)]

/-- The host is not resolved. -/
def hostNotResolved : List Act := [.connect [], .io 0 (.init true false false)]

/-- The peer closes the connection when nothing is being sent or received. -/
def quietClose : List Act :=
  [.connect [], .io 0 (.init true true true), .runTask, .io 0 (.loopTest false), .io 0 .exit]

/-- The session has ended without a report, and nothing is scheduled: it stays current, so a
`Connect` does nothing and a `Send` queues. -/
def EndsUnreported (as : List Act) : Prop :=
  ∃ s t, run Client.step {} as = some s ∧ s.threads = [t] ∧ t.pc = .ended ∧
    t.bManuallyStop = false ∧ t.reported = 0 ∧ s.mem.tasks = [] ∧ s.socketRunnablePtr = some 0 ∧
    s.step (.connect []) = some s ∧ (s.step (.send [1])).map (·.mem.sendBuffer) = some [[1]]

/-- None of the three ends is reported. -/
theorem not_reported : EndsUnreported socketNotCreated ∧ EndsUnreported hostNotResolved ∧
    EndsUnreported quietClose := by
  have hcheck : ∀ as ∈ [socketNotCreated, hostNotResolved, quietClose],
      (run Client.step {} as).isSome = true ∧
      ∀ s ∈ run Client.step {} as, s.threads.map (fun t => (t.pc, t.bManuallyStop, t.reported)) =
        [(.ended, false, 0)] ∧ s.mem.tasks = [] ∧ s.socketRunnablePtr = some 0 ∧
        s.step (.connect []) = some s ∧
        (s.step (.send [1])).map (·.mem.sendBuffer) = some [[1]] := by decide
  have hends : ∀ as ∈ [socketNotCreated, hostNotResolved, quietClose], EndsUnreported as := by
    intro as has
    obtain ⟨hsome, hall⟩ := hcheck as has
    obtain ⟨s, hs⟩ := Option.isSome_iff_exists.mp hsome
    obtain ⟨hflags, htasks, hptr, hconn, hsend⟩ := hall s hs
    obtain ⟨t, ht, hflags⟩ := List.map_eq_singleton_iff.mp hflags
    simp only [Prod.mk.injEq] at hflags
    exact ⟨s, t, hs, ht, hflags.1, hflags.2.1, hflags.2.2, htasks, hptr, hconn, hsend⟩
  exact ⟨hends _ (by simp), hends _ (by simp), hends _ (by simp)⟩

end ThirdPersonMP.Network
