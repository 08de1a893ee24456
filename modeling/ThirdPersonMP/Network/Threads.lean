import ThirdPersonMP.Network.TcpSocket

/-!
# One IO thread, one producer, one consumer

The queues `SendBuffer` and `MessageQueue` are lock-free for one producer and one consumer,
and `RecvData` has no lock at all. What makes this sound is the order in `Disconnect`
(`Stop`, `WaitForCompletion`, `Reset`, and then the user's callback) and the guard in
`Connect`, at every nesting of the two.

* `Disciplined` — what a step may do to the shared buffers, by the thread that takes it;
  every step of a client in order is (`disciplined_step`).
* `Counted` — `DisconnectedDelegate` was executed once for each session that has ended;
  kept by every step (`counted_step`).
* `threads_run` — both, in every run, and that at most one IO thread has not completed.
-/

namespace ThirdPersonMP.Network

open Library

/-- What a step does to the shared buffers. The IO thread of a session takes it when no
other has not completed; it takes from `SendBuffer` and adds to `MessageQueue`. The game
thread takes from `MessageQueue`; it adds to `SendBuffer` and leaves `RecvData` alone, or
empties both when every IO thread has completed. -/
def Disciplined (s : Client) (a : Act) (s' : Client) : Prop :=
  match a with
  | .io k _ =>
    (∀ (j : ℕ) (t : FTCPSocketRunnable), s.threads[j]? = some t → t.pc ≠ .ended → j = k) ∧
      s'.mem.sendBuffer <:+ s.mem.sendBuffer ∧ s.mem.messageQueue <+: s'.mem.messageQueue
  | _ =>
    s'.mem.messageQueue <:+ s.mem.messageQueue ∧
      (s.mem.sendBuffer <+: s'.mem.sendBuffer ∧ s'.mem.recvData = s.mem.recvData ∨
        (∀ t ∈ s.threads, t.pc = .ended) ∧ s'.mem.sendBuffer = [] ∧ s'.mem.recvData = [])

/-- What a step of an IO thread does to the queues. -/
theorem IoStep.queues {t t' : FTCPSocketRunnable} {m m' : Shared} {a : IoAct}
    (h : IoStep t m a t' m') :
    m'.sendBuffer <:+ m.sendBuffer ∧ m.messageQueue <+: m'.messageQueue := by
  cases h with
  | pop => exact ⟨List.tail_suffix _, List.prefix_rfl⟩
  | decodeFrame => exact ⟨List.suffix_rfl, List.prefix_append _ _⟩
  | _ => exact ⟨List.suffix_rfl, List.prefix_rfl⟩

/-- **Every step is disciplined.** -/
theorem disciplined_step {s s' : Client} {a : Act} (hw : Wf s) (hstep : ClientStep s a s') :
    Disciplined s a s' := by
  cases hstep with
  | connect hr hp =>
    refine ⟨List.suffix_rfl, .inr ⟨fun t ht => ?_, rfl, rfl⟩⟩
    obtain ⟨k, hk⟩ := List.mem_iff_getElem?.mp ht
    exact (hw.ended_of_none hp hk).1
  | mgrEmpty | mgrReturn => exact ⟨List.nil_suffix, .inl ⟨List.prefix_rfl, rfl⟩⟩
  | send => exact ⟨List.suffix_rfl, .inl ⟨List.prefix_append _ _, rfl⟩⟩
  | tick hs hq =>
    refine ⟨?_, .inl ⟨List.prefix_rfl, rfl⟩⟩
    rw [hq]
    exact List.suffix_cons _ _
  | noConnect | disconnect | noDisconnect | mgrDisconnect | join | callbackReturn | noSend
  | connected | connectionError | lateConnectionError =>
    exact ⟨List.suffix_rfl, .inl ⟨List.prefix_rfl, rfl⟩⟩
  | @io k a t t' m' ht hio =>
    exact ⟨fun j u hu hpc => hw.eq_of_live hu ht hpc hio.pc_ne_ended, hio.queues⟩

/-- `DisconnectedDelegate` was executed once for each session that is no longer current. -/
def Counted (s : Client) : Prop :=
  ∀ k, s.disconnectedRuns.count k =
    if k < s.threads.length ∧ s.socketRunnablePtr ≠ some k then 1 else 0

/-- A step that starts no session and ends none. -/
theorem Counted.congr {s s' : Client} (h : Counted s)
    (hd : s'.disconnectedRuns = s.disconnectedRuns)
    (hlen : s'.threads.length = s.threads.length)
    (hp : s'.socketRunnablePtr = s.socketRunnablePtr) : Counted s' := by
  intro k
  rw [hd, hlen, hp]
  exact h k

/-- **A step keeps the count.** -/
theorem counted_step {s s' : Client} {a : Act} (hw : Wf s) (h : Counted s)
    (hstep : ClientStep s a s') : Counted s' := by
  cases hstep with
  | connect hr hp =>
    intro k
    show s.disconnectedRuns.count k = _
    rw [h k, hp, List.length_append, List.length_singleton]
    -- the sessions before have ended, the new one has not
    by_cases hk : k = s.threads.length
    · subst hk
      rw [if_neg (fun h => lt_irrefl _ h.1), if_neg (fun h => h.2 rfl)]
    · have hlt : k < s.threads.length + 1 ↔ k < s.threads.length := by omega
      have hne : (some s.threads.length : Option ℕ) ≠ some k := fun he =>
        hk (Option.some.inj he).symm
      simp only [hlt, hne, ne_eq, not_false_eq_true, and_true, reduceCtorEq]
  | @join k rest t hs ht he =>
    have hcur : s.socketRunnablePtr = some k := hw.waiting k (by rw [hs]; exact List.mem_cons_self)
    have hlt := (List.getElem?_eq_some_iff.mp ht).1
    intro j
    show (s.disconnectedRuns ++ [k]).count j = if j < s.threads.length ∧ none ≠ some j then 1 else 0
    rw [List.count_append, h j, hcur]
    by_cases hj : j = k
    · subst hj
      simp [hlt]
    · simp [Ne.symm hj]
  | noConnect | noDisconnect | noSend | mgrEmpty | callbackReturn | mgrReturn | connected
  | lateConnectionError | tick => exact h.congr rfl rfl rfl
  | disconnect | mgrDisconnect | send | connectionError =>
    exact h.congr rfl (List.length_modify ..) rfl
  | io => exact h.congr rfl (List.length_set ..) rfl

theorem counted_run {as : List Act} {s : Client} (h : run Client.step {} as = some s) :
    Counted s := by
  have hstart : Counted {} := by
    intro k
    rw [if_neg fun h => Nat.not_lt_zero k h.1]
    rfl
  exact invariant_run hstart (fun s a s' hw hs hstep => counted_step hw hs hstep) h

/-- **The discipline of the threads**, at every moment of every run: at most one IO thread
is between its creation and its completion; whatever comes next is disciplined; and
`DisconnectedDelegate` was executed exactly once for each session that has ended, and not
for the one that has not. -/
theorem threads_run {as : List Act} {s : Client} (h : run Client.step {} as = some s) :
    (∀ (j k : ℕ) (t u : FTCPSocketRunnable), s.threads[j]? = some t → s.threads[k]? = some u →
      t.pc ≠ .ended → u.pc ≠ .ended → j = k) ∧
    (∀ a s', s.step a = some s' → Disciplined s a s') ∧
    ∀ k, s.disconnectedRuns.count k =
      if k < s.threads.length ∧ s.socketRunnablePtr ≠ some k then 1 else 0 :=
  ⟨fun _ _ _ _ ht hu htpc hupc => (wf_run h).eq_of_live ht hu htpc hupc,
    fun _ _ ha => disciplined_step (wf_run h) (.of_step ha), counted_run h⟩

/-- A session is disconnected; from the callback the next one is started and disconnected. -/
def nestedDisconnect : List Act :=
  [.connect [], .io 0 (.init true true true), .disconnect, .io 0 (.loopTest true), .io 0 .exit,
    .join, .connect [], .io 1 (.init true true false), .disconnect, .join, .callbackReturn,
    .callbackReturn]

/-- What `threads_run` says of it. -/
theorem threads_run_nestedDisconnect :
    ∃ s, run Client.step {} nestedDisconnect = some s ∧
      (∀ (j k : ℕ) (t u : FTCPSocketRunnable), s.threads[j]? = some t → s.threads[k]? = some u →
        t.pc ≠ .ended → u.pc ≠ .ended → j = k) ∧
      (∀ a s', s.step a = some s' → Disciplined s a s') ∧
      ∀ k, s.disconnectedRuns.count k =
        if k < s.threads.length ∧ s.socketRunnablePtr ≠ some k then 1 else 0 := by
  have hsome : (run Client.step {} nestedDisconnect).isSome := by decide
  obtain ⟨s, hs⟩ := Option.isSome_iff_exists.mp hsome
  exact ⟨s, hs, threads_run hs⟩

end ThirdPersonMP.Network
