import ThirdPersonMP.Network.Receive

/-!
# Messages of another session

`MessageQueue` outlives a session. `InternalDisconnectFunc` empties it, after the user's
callback (`MgrMessage.cpp`, 113–123); the other ways a session ends, `FTCPSocket::Disconnect`
called by a connection-error task for one, and `FTCPSocket::Connect`, which empties the other
two buffers (`TcpSocket.cpp`, 37–40), do not.

`OwnMessages` is what is wanted: what is dispatched while a session is current was decoded in
that session, and no session loses messages to the disconnect of an earlier one. It fails
(`not_ownMessages`) on both sides of the callback: a message left by an error is dispatched
when the next session is current, and a session started from the callback has its first
messages discarded. `ownMessages_run` is the condition under which it holds: `Drained`.
-/

namespace ThirdPersonMP.Network

open Base Library

/-- Every message was dispatched while no session was current, or the one in which it was
decoded; and none was discarded by the disconnect of an earlier session. -/
def OwnMessages (s : Client) : Prop :=
  (∀ d ∈ s.dispatched, ∀ k ∈ d.1, d.2.session = k) ∧
    ∀ d ∈ s.discarded, ∀ j ∈ d.1, ¬ j < d.2.session

/-- The session that `InternalDisconnectFunc` has disconnected. -/
def Frame.disconnected : Frame → Option ℕ
  | .internalDisconnectFunc j => some j
  | _ => none

/-- The step is taken with the queue drained: a `Connect` takes effect when the queue is
empty, and `InternalDisconnectFunc` empties it when it is empty already, or no session was
started since its `Disconnect`. -/
def Drained (s : Client) : Act → Prop
  | .connect _ => s.socketRunnablePtr = none → s.mem.messageQueue = []
  | .callbackReturn => ∀ j ∈ s.stack[1]?.bind Frame.disconnected,
    s.mem.messageQueue = [] ∨ j + 1 = s.threads.length
  | _ => True

instance (s : Client) : ∀ a, Decidable (Drained s a)
  | .connect _ => inferInstanceAs (Decidable (_ → _))
  | .callbackReturn => inferInstanceAs (Decidable (∀ j ∈ s.stack[1]?.bind Frame.disconnected, _))
  | .disconnect | .mgrDisconnect | .join | .send _ | .runTask | .tick | .io _ _ =>
    inferInstanceAs (Decidable True)

/-- In a run of such steps the messages on the queue are of the last session, and so were
those that were discarded when it was disconnected. -/
structure QueueLast (s : Client) : Prop where
  messageQueue : ∀ msg ∈ s.mem.messageQueue, msg.session + 1 = s.threads.length
  discarded : ∀ d ∈ s.discarded, ∀ j ∈ d.1, d.2.session = j

/-- A step that adds no message and discards none. -/
theorem QueueLast.congr {s s' : Client} (h : QueueLast s)
    (hq : ∀ msg ∈ s'.mem.messageQueue, msg ∈ s.mem.messageQueue)
    (hd : s'.discarded = s.discarded) (hlen : s'.threads.length = s.threads.length) :
    QueueLast s' where
  messageQueue := by
    intro msg hm
    rw [hlen]
    exact h.messageQueue msg (hq msg hm)
  discarded := by
    rw [hd]
    exact h.discarded

/-- `MessageQueue.Empty()`, of messages of the session that was disconnected. -/
theorem QueueLast.emptyMessageQueue {s : Client} (h : QueueLast s) {session : Option ℕ}
    (hj : ∀ j ∈ session, s.mem.messageQueue = [] ∨ j + 1 = s.threads.length) :
    QueueLast (s.emptyMessageQueue session) where
  messageQueue := by simp [Client.emptyMessageQueue]
  discarded := by
    intro d hd j hdj
    rcases List.mem_append.mp hd with hd | hd
    · exact h.discarded d hd j hdj
    · obtain ⟨msg, hm, rfl⟩ := List.mem_map.mp hd
      have hlast := h.messageQueue msg hm
      rcases hj j hdj with hnil | hj
      · rw [hnil] at hm
        cases hm
      · show msg.session = j
        omega

/-- A step with the queue drained keeps the messages of the queue in the last session, and
those dispatched in their own. -/
theorem ownMessages_step {s s' : Client} {a : Act} (hw : Wf s) (h : QueueLast s)
    (ho : ∀ d ∈ s.dispatched, ∀ k ∈ d.1, d.2.session = k) (hd : Drained s a)
    (hstep : ClientStep s a s') :
    QueueLast s' ∧ ∀ d ∈ s'.dispatched, ∀ k ∈ d.1, d.2.session = k := by
  cases hstep with
  | noConnect | noDisconnect | noSend => exact ⟨h, ho⟩
  | connect hr hp =>
    refine ⟨⟨fun msg hm => ?_, h.discarded⟩, ho⟩
    rw [show s.mem.messageQueue = [] from hd hp] at hm
    cases hm
  | join | callbackReturn | connected | lateConnectionError =>
    exact ⟨h.congr (fun _ hm => hm) rfl rfl, ho⟩
  | disconnect | mgrDisconnect | send | connectionError =>
    exact ⟨h.congr (fun _ hm => hm) rfl (List.length_modify ..), ho⟩
  | mgrEmpty => exact ⟨h.emptyMessageQueue (by simp), ho⟩
  | @mgrReturn j rest hs =>
    have hrest : QueueLast { s with stack := rest } := h.congr (fun _ hm => hm) rfl rfl
    refine ⟨hrest.emptyMessageQueue fun j' hj' => hd j' ?_, ho⟩
    rw [Option.mem_some] at hj'
    rw [hs, hj']
    rfl
  | @tick msg queue hs hq =>
    refine ⟨h.congr (fun m hm => ?_) rfl rfl, fun d hd k hk => ?_⟩
    · rw [hq]
      exact List.mem_cons_of_mem _ hm
    · rcases List.mem_append.mp hd with hd | hd
      · exact ho d hd k hk
      · rw [List.mem_singleton] at hd
        subst hd
        have hlast := h.messageQueue msg (by rw [hq]; exact List.mem_cons_self)
        have hcur := hw.current k hk
        show msg.session = k
        omega
  | @io k a t t' m' ht hio =>
    obtain ⟨new, hq⟩ := hio.messageQueue_eq
    refine ⟨⟨fun msg hm => ?_, h.discarded⟩, ho⟩
    rw [List.length_set]
    rcases List.mem_append.mp (hq ▸ hm) with hm | hm
    · exact h.messageQueue msg hm
    · -- the thread that decodes is of the last session
      obtain ⟨f, -, rfl⟩ := List.mem_map.mp hm
      rw [hw.session k t ht]
      exact hw.last_of_io ht hio

/-- **In every run whose steps are taken with the queue drained**, messages belong to the
session in which they are dispatched, and no session loses any to the disconnect of an
earlier one. A message that is dispatched while a session is current is one of the frames
of what that session's peer has sent. -/
theorem ownMessages_run {as : List Act} {s : Client} (h : run Client.step {} as = some s)
    (hd : EachStep Client.step Drained {} as) :
    OwnMessages s ∧ ∀ d ∈ s.dispatched, ∀ k ∈ d.1, ∀ t : FTCPSocketRunnable,
      s.threads[k]? = some t → t.peer.length < 2 ^ 31 → HeadersOk t.peer →
        d.2.data ∈ framing.frames t.peer := by
  let I (s : Client) : Prop := QueueLast s ∧ ∀ d ∈ s.dispatched, ∀ k ∈ d.1, d.2.session = k
  have hI : I s := by
    refine invariant_run_of_eachStep ⟨⟨by simp, by simp⟩, by simp⟩ ?_ hd h
    intro s a s' hw ⟨hq, ho⟩ hP hstep
    exact ownMessages_step hw hq ho hP hstep
  obtain ⟨hq, ho⟩ := hI
  refine ⟨⟨ho, fun d hd j hj hlt => ?_⟩, fun d hdisp k hk t ht hlen hok => ?_⟩
  · have := hq.discarded d hd j hj
    omega
  · have hown : OwnDiscards k s := fun d hd hdk j hj => (hq.discarded d hd j hj).symm.trans hdk
    have hR := received_run h ht hlen hok hown
    obtain ⟨read, hwhole⟩ := hR.whole
    have hpre : t.handed <+: t.peer := ⟨read ++ t.incoming, by rw [← hwhole, List.append_assoc]⟩
    -- its bytes are among the payloads of the session
    have hmem : d.2.data ∈ payloads k (s.dispatched.map Prod.snd) := by
      refine List.mem_map.mpr ⟨d.2, List.mem_filter.mpr ⟨List.mem_map_of_mem hdisp, ?_⟩, rfl⟩
      exact decide_eq_true (ho d hdisp k hk)
    refine (framing.frames_prefix hpre).subset ?_
    rw [← hR.frames, List.append_assoc, List.append_assoc]
    exact List.mem_append_left _ hmem

/-- A message is received and dispatched; the session is disconnected by the manager, and the
next one started. -/
def drainedReconnect : List Act :=
  .connect [1, 0, 0, 0, 7] :: receiveChunk 0 5 ++
    [.io 0 .decode, .io 0 .decode, .tick, .mgrDisconnect, .io 0 .recvDone, .io 0 .exit, .join,
      .callbackReturn, .connect []]

/-- Its steps are taken with the queue drained. -/
theorem ownMessages_run_drainedReconnect :
    ∃ s, run Client.step {} drainedReconnect = some s ∧
      EachStep Client.step Drained {} drainedReconnect ∧ OwnMessages s ∧
      ∀ d ∈ s.dispatched, ∀ k ∈ d.1, ∀ t : FTCPSocketRunnable, s.threads[k]? = some t →
        t.peer.length < 2 ^ 31 → HeadersOk t.peer → d.2.data ∈ framing.frames t.peer := by
  have hsome : (run Client.step {} drainedReconnect).isSome := by decide
  obtain ⟨s, hs⟩ := Option.isSome_iff_exists.mp hsome
  have hd : EachStep Client.step Drained {} drainedReconnect := by decide
  exact ⟨s, hs, hd, ownMessages_run hs hd⟩

/-- A message of session `0` is received, and then a `Recv` fails. The task that reports it
disconnects the session, and the user's callback connects again. -/
def lateMessage : List Act :=
  .connect [1, 0, 0, 0, 7, 9] :: receiveChunk 0 5 ++
    [.io 0 .decode, .io 0 .decode, .io 0 .recvDone, .io 0 (.loopTest true), .io 0 .sendTest,
      .io 0 .peek, .io 0 .sendDone, .io 0 (.hasPendingData (some 1)), .io 0 (.recv none),
      .io 0 .received, .io 0 .recvDone, .io 0 .exit, .runTask, .runTask, .join, .connect [],
      .callbackReturn, .tick]

/-- The manager disconnects session `0`, and the user's callback connects again. A message of
session `1` is received before the callback returns. -/
def earlyMessage : List Act :=
  [.connect [], .io 0 (.init false true true), .mgrDisconnect, .join, .connect [1, 0, 0, 0, 7]] ++
    receiveChunk 1 5 ++ [.io 1 .decode, .callbackReturn]

/-- The message of session `0` is dispatched when session `1` is current; the message of
session `1` is discarded by the disconnect of session `0`. -/
theorem not_ownMessages :
    (∃ s, run Client.step {} lateMessage = some s ∧ s.dispatched = [(some 1, ⟨0, [7]⟩)] ∧
      ¬ OwnMessages s) ∧
    ∃ s, run Client.step {} earlyMessage = some s ∧ s.discarded = [(some 0, ⟨1, [7]⟩)] ∧
      ¬ OwnMessages s := by
  constructor
  · have hrun : (run Client.step {} lateMessage).map Client.dispatched =
        some [(some 1, ⟨0, [7]⟩)] := by decide
    obtain ⟨s, hs, h⟩ := Option.map_eq_some_iff.mp hrun
    refine ⟨s, hs, h, fun ho => ?_⟩
    exact absurd (ho.1 (some 1, ⟨0, [7]⟩) (by rw [h]; exact List.mem_cons_self) 1 rfl) (by decide)
  · have hrun : (run Client.step {} earlyMessage).map Client.discarded =
        some [(some 0, ⟨1, [7]⟩)] := by decide
    obtain ⟨s, hs, h⟩ := Option.map_eq_some_iff.mp hrun
    refine ⟨s, hs, h, fun ho => ?_⟩
    exact ho.2 (some 0, ⟨1, [7]⟩) (by rw [h]; exact List.mem_cons_self) 0 rfl (by decide)

end ThirdPersonMP.Network
