import ThirdPersonMP.Network.Completion
import ThirdPersonMP.Network.ErrorReport

/-!
# A connection can be had again

An IO thread may have failed without a report, a session may be left over with its thread
completed, calls of `Disconnect` may be open one in another (`TcpSocket.cpp`, 35–82). Whatever
state the client is in, as long as the decoder can handle what its sessions receive, its calls
return, and a `Disconnect` and a `Connect` bring it to a new session with empty buffers.

* `Ending` — no session is current, or its end is waited for; kept by the steps that return
  (`ending_step`).
* `exists_idle` — the calls can be brought to their end, and the session with them.
* `reconnected_run` — from every state of every run with such streams, a connected session can
  be reached, with no other call than one `Disconnect` and one `Connect`.
-/

namespace ThirdPersonMP.Network

open Base Library

/-- The calls of the user. -/
def Act.called : Act → Bool
  | .connect _ | .disconnect | .mgrDisconnect | .send _ => true
  | .join | .callbackReturn | .runTask | .tick | .io _ _ => false

/-- No session is current, or a call waits for it to end. -/
def Ending (s : Client) : Prop :=
  (∃ k, .waitForCompletion k ∈ s.stack) ∨ s.socketRunnablePtr = none

/-- A step that returns does not start a session, and ends the one that is waited for. -/
theorem ending_step {s s' : Client} {a : Act} (h : Ending s) (hr : Returning s a)
    (hs : s.step a = some s') : Ending s' := by
  have hpop : ∀ {fs rest : List Frame}, s.stack = fs ++ rest →
      (∀ k, .waitForCompletion k ∉ fs) → s'.stack = rest →
      s'.socketRunnablePtr = s.socketRunnablePtr → Ending s' := by
    intro fs rest hstack hfs hstack' hp
    rcases h with ⟨k, hk⟩ | hnone
    · rw [hstack] at hk
      rcases List.mem_append.mp hk with hk | hk
      · exact absurd hk (hfs k)
      · exact .inl ⟨k, hstack' ▸ hk⟩
    · exact .inr (hp.trans hnone)
  cases ClientStep.of_step hs with
  | io => exact h
  | join => exact .inr rfl
  | callbackReturn hstack => exact @hpop [_] _ hstack (by simp) rfl rfl
  | mgrReturn hstack => exact @hpop [_, _] _ hstack (by simp) rfl rfl
  | connect | noConnect | disconnect | noDisconnect | mgrDisconnect | mgrEmpty | send | noSend
  | connected | connectionError | lateConnectionError | tick => exact hr.elim

/-- A step that returns is no call of the user. -/
theorem not_called_of_returning {s : Client} {a : Act} (h : Returning s a) : a.called = false := by
  cases a with
  | io | join | callbackReturn => rfl
  | connect | disconnect | mgrDisconnect | send | runTask | tick => exact h.elim

theorem filter_called_of_returning {s : Client} {as : List Act}
    (h : EachStep Client.step Returning s as) {s' : Client} (hs : run Client.step s as = some s') :
    as.filter Act.called = [] := by
  induction as generalizing s with
  | nil => rfl
  | cons a as ih =>
    obtain ⟨m, ha, hrun⟩ := Option.bind_eq_some_iff.mp hs
    rw [List.filter_cons_of_neg (by simp [not_called_of_returning h.1]), ih (h.2 m ha) hrun]

/-- The open calls are brought to their end, as `returns_run` says. -/
theorem exists_returned {s : Client} (h : Sound s) :
    ∃ cs s', run Client.step s cs = some s' ∧ Sound s' ∧ cs.filter Act.called = [] ∧
      s'.stack = [] ∧ (Ending s → s'.socketRunnablePtr = none) := by
  obtain ⟨cs, s', hcs, hreturning, hstack⟩ :=
    exists_run_final returnsIn_lowers (fun _ hs hne => exists_returning hs hne) s h
  refine ⟨cs, s', hcs, (length_le_of_variant returnsIn_lowers h hreturning hcs).1,
    filter_called_of_returning hreturning hcs, hstack, fun hending => ?_⟩
  have hending' : Ending s' :=
    run_invariant_of_eachStep Client.step hending (fun _ _ _ => ending_step) hreturning hcs
  rcases hending' with ⟨k, hk⟩ | hnone
  · rw [hstack] at hk
    cases hk
  · exact hnone

/-- The session is brought to its end, with one call of `Disconnect` at most. -/
theorem exists_idle {s : Client} (h : Sound s) :
    ∃ cs s', run Client.step s cs = some s' ∧ Sound s' ∧
      (cs.filter Act.called).Sublist [.disconnect] ∧ s'.stack = [] ∧
      s'.socketRunnablePtr = none := by
  obtain ⟨cs, m, hcs, hm, hcalled, hstack, -⟩ := exists_returned h
  cases hp : m.socketRunnablePtr with
  | none =>
    refine ⟨cs, m, hcs, hm, ?_, hstack, hp⟩
    rw [hcalled]
    exact List.nil_sublist _
  | some k =>
    have hready : m.ready = true := by
      unfold Client.ready
      rw [hstack]
    have hdisconnect : m.step .disconnect = some (m.stop k []) := by
      simp only [Client.step, Client.disconnect, hready, hp, if_true]
    have hsound : Sound (m.stop k []) := hm.step (fun _ => Act.noConfusion) hdisconnect
    have hending : Ending (m.stop k []) := .inl ⟨k, List.mem_cons_self ..⟩
    obtain ⟨ds, s', hds, hs', hcalled', hstack', hnone⟩ := exists_returned hsound
    refine ⟨cs ++ .disconnect :: ds, s', ?_, hs', ?_, hstack', hnone hending⟩
    · rw [run_append, hcs, Option.bind_some, run_cons, hdisconnect, Option.bind_some, hds]
    · rw [List.filter_append, hcalled, List.nil_append, List.filter_cons_of_pos rfl, hcalled']

/-- A `Connect` that takes effect, and is successful. -/
theorem run_connect {s : Client} (hstack : s.stack = []) (hp : s.socketRunnablePtr = none)
    (peer : Bytes) :
    ∃ s', run Client.step s [.connect peer, .io s.threads.length (.init true true true)] =
        some s' ∧ s'.stack = [] ∧ s'.socketRunnablePtr = some s.threads.length ∧
      s'.threads[s.threads.length]? = some
        { session := s.threads.length, peer := peer, pc := .loopTest, socketPtr := true } ∧
      s'.mem.sendBuffer = [] ∧ s'.mem.recvData = [] := by
  have hready : s.ready = true := by
    unfold Client.ready
    rw [hstack]
  have hconnect : s.step (.connect peer) = some
      { s with
        mem := { s.mem with sendBuffer := [], recvData := [] }
        threads := s.threads ++ [{ session := s.threads.length, peer := peer }]
        socketRunnablePtr := some s.threads.length } := by
    simp only [Client.step, Client.connect, hready, hp, if_true]
  rw [run_cons, hconnect, Option.bind_some, run_cons]
  have hthread : (s.threads ++
      [({ session := s.threads.length, peer := peer } : FTCPSocketRunnable)])[s.threads.length]? =
      some { session := s.threads.length, peer := peer } :=
    getElem?_concat_eq_some.mpr (.inr ⟨rfl, rfl⟩)
  simp only [Client.step, hthread]
  refine ⟨_, rfl, hstack, rfl, (getElem?_set_eq_some hthread).mpr (.inl ⟨rfl, rfl⟩), rfl, rfl⟩

/-- **A connection can be had again.** From every state of every run in which the sessions
receive fewer than `2^31` bytes each, with headers that the decoder can handle, whatever has
failed and whatever calls are open: a run of which the user's calls are at most one `Disconnect`
and the `Connect` leads to a new session, the current one, connected, with nothing sent,
received or left over in the buffers, and no call open. -/
theorem reconnected_run {as : List Act} {s : Client} (h : run Client.step {} as = some s)
    (hstreams : ∀ (k : ℕ) (t : FTCPSocketRunnable), s.threads[k]? = some t →
      t.peer.length < 2 ^ 31 ∧ HeadersOk t.peer) (peer : Bytes) :
    ∃ cs s' k, run Client.step s cs = some s' ∧
      (cs.filter Act.called).Sublist [.disconnect, .connect peer] ∧ s'.stack = [] ∧
      s.threads.length ≤ k ∧ s'.socketRunnablePtr = some k ∧
      s'.threads[k]? =
        some { session := k, peer := peer, pc := .loopTest, socketPtr := true } ∧
      s'.mem.sendBuffer = [] ∧ s'.mem.recvData = [] := by
  have hstart : StackOk ({} : Client).stack := trivial
  have hstackOk : StackOk s.stack :=
    run_invariant Client.step (I := fun s => StackOk s.stack) hstart
      (fun _ _ _ hi ha => stackOk_step hi ha) h
  obtain ⟨cs, m, hcs, -, hcalled, hstack, hp⟩ := exists_idle ⟨⟨as, h⟩, hstreams, hstackOk⟩
  have hlength : s.threads.length ≤ m.threads.length :=
    run_invariant Client.step (I := fun m => s.threads.length ≤ m.threads.length) (Nat.le_refl _)
      (fun _ _ _ hle ha => hle.trans (ClientStep.of_step ha).length_le) hcs
  obtain ⟨s', hs', hstack', hptr, hthread, hsend, hrecv⟩ := run_connect hstack hp peer
  refine ⟨cs ++ [.connect peer, .io m.threads.length (.init true true true)], s',
    m.threads.length, ?_, ?_, hstack', hlength, hptr, hthread, hsend, hrecv⟩
  · rw [run_append, hcs, Option.bind_some, hs']
  · rw [List.filter_append]
    exact hcalled.append_right [.connect peer]

/-- The host is not found, which leaves the session over, and an array is queued for it. -/
def unresolvedThenSend : List Act :=
  [.connect [], .io 0 (.init true false false), .send [1, 2, 3]]

/-- A second session is reached. -/
theorem reconnected_run_unresolvedThenSend :
    ∃ s cs s' k, run Client.step {} unresolvedThenSend = some s ∧ s.threads.length = 1 ∧
      run Client.step s cs = some s' ∧
      (cs.filter Act.called).Sublist [.disconnect, .connect [7]] ∧ 1 ≤ k ∧
      s'.threads[k]? = some { session := k, peer := [7], pc := .loopTest, socketPtr := true } ∧
      s'.mem.sendBuffer = [] := by
  obtain ⟨s, hs⟩ : ∃ s, run Client.step {} unresolvedThenSend = some s := ⟨_, rfl⟩
  have hpeers : s.threads.map (·.peer) = [[]] := by
    cases hs
    rfl
  have hlength : s.threads.length = 1 := by
    rw [← List.length_map (·.peer), hpeers, List.length_singleton]
  have h := reconnected_run hs (fun k t ht => ?_) [7]
  · obtain ⟨cs, s', k, hcs, hcalled, -, hk, -, hthread, hsend, -⟩ := h
    rw [hlength] at hk
    exact ⟨s, cs, s', k, hs, hlength, hcs, hcalled, hk, hthread, hsend⟩
  · have hmem : t.peer ∈ s.threads.map (·.peer) :=
      List.mem_map.mpr ⟨t, List.mem_of_getElem? ht, rfl⟩
    rw [hpeers, List.mem_singleton] at hmem
    rw [hmem]
    exact ⟨by decide, .of_none framing_next_nil fun h4 => absurd h4 (by decide)⟩

end ThirdPersonMP.Network
