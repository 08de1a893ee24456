import ThirdPersonMP.Network.Residue

/-!
# What a session delivers

The messages that the game thread dispatches from a session come from the frames of the
bytes that its socket has delivered, in their order. `MessageQueue` is shared by all
sessions, and whatever empties it (`MgrMessage.cpp`, 122) may take the messages of another
session than the one disconnected; so some may be missing, in the middle too.

* `InOrder` — what is known of a session, of every run: `inOrder_step`, `inOrder_run`.
* `frames_prefix_of_encoders` — the frames of a part of what was encoded.
-/

namespace ThirdPersonMP.Network

open Base Library

/-! ### A session -/

/-- What `Recv` has delivered so far. -/
def FTCPSocketRunnable.consumed (t : FTCPSocketRunnable) : Bytes :=
  t.peer.take (t.peer.length - t.incoming.length)

/-- A session: its stream, and its frames in the order they were cut off, those that are
dispatched or queued among those that were enqueued. -/
structure InOrder (s : Client) (k : ℕ) (t : FTCPSocketRunnable) : Prop where
  /-- The stream: the bytes handed to the decoder, those read and not handed, and those
  still to come. -/
  whole : ∃ read, t.handed ++ read ++ t.incoming = t.peer
  /-- A failed `Recv` and a stop seen have left their marks. -/
  marked : Marked t
  /-- `RecvData`, until the next session empties it. -/
  buffered : k + 1 = s.threads.length → Buffered t s.mem.recvData
  /-- The frames enqueued; none is missing when none was discarded. -/
  frames : ∃ enqueued, enqueued ++ undecoded t s.mem.recvData = framing.frames t.handed ∧
    (payloads k (s.dispatched.map Prod.snd) ++ payloads k s.mem.messageQueue).Sublist enqueued ∧
    (payloads k (s.discarded.map Prod.snd) = [] →
      payloads k (s.dispatched.map Prod.snd) ++ payloads k s.mem.messageQueue = enqueued)

section

variable {s s' : Client} {k : ℕ} {t u : FTCPSocketRunnable}

theorem InOrder.handed_prefix (h : InOrder s k t) : t.handed <+: t.consumed := by
  obtain ⟨read, hwhole⟩ := h.whole
  have hconsumed : t.consumed = t.handed ++ read := by
    rw [FTCPSocketRunnable.consumed, ← hwhole]
    refine List.take_left' ?_
    simp only [List.length_append]
    omega
  rw [hconsumed]
  exact List.prefix_append _ _

/-- A step that removes messages of a session, and does not touch its thread or `RecvData`. -/
theorem InOrder.congr (h : InOrder s k t) (hu : Same t u)
    (hlen : s'.threads.length = s.threads.length) (hr : s'.mem.recvData = s.mem.recvData)
    (hsub : (payloads k (s'.dispatched.map Prod.snd) ++ payloads k s'.mem.messageQueue).Sublist
      (payloads k (s.dispatched.map Prod.snd) ++ payloads k s.mem.messageQueue))
    (hkept : payloads k (s'.discarded.map Prod.snd) = [] →
      payloads k (s.discarded.map Prod.snd) = [] ∧
        payloads k (s'.dispatched.map Prod.snd) ++ payloads k s'.mem.messageQueue =
          payloads k (s.dispatched.map Prod.snd) ++ payloads k s.mem.messageQueue) :
    InOrder s' k u where
  whole := by
    rw [hu.handed, hu.incoming, hu.peer]
    exact h.whole
  marked := h.marked.same hu
  buffered := by
    rw [hlen, hr]
    exact fun hk => (h.buffered hk).same hu
  frames := by
    obtain ⟨enqueued, hframes, hd, hx⟩ := h.frames
    refine ⟨enqueued, ?_, hsub.trans hd, fun hnone => ?_⟩
    · rw [hr, hu.handed, undecoded, hu.pc, ← undecoded]
      exact hframes
    · obtain ⟨hnone, heq⟩ := hkept hnone
      rw [heq]
      exact hx hnone

/-- A step that moves no message of the session. -/
theorem InOrder.same (h : InOrder s k t) (hu : Same t u)
    (hlen : s'.threads.length = s.threads.length) (hr : s'.mem.recvData = s.mem.recvData)
    (hd : s'.dispatched = s.dispatched) (hq : s'.mem.messageQueue = s.mem.messageQueue)
    (hx : s'.discarded = s.discarded) : InOrder s' k u := by
  refine h.congr hu hlen hr ?_ ?_
  · rw [hd, hq]
  · rw [hd, hq, hx]
    exact fun hnone => ⟨hnone, rfl⟩

/-- `MessageQueue.Empty()`. -/
theorem InOrder.emptyMessageQueue (h : InOrder s k t) (session : Option ℕ) :
    InOrder (s.emptyMessageQueue session) k t := by
  refine h.congr (.refl t) rfl rfl ?_ ?_
  · exact List.Sublist.append_left (List.nil_sublist _) _
  · have hX : payloads k ((s.emptyMessageQueue session).discarded.map Prod.snd) =
        payloads k (s.discarded.map Prod.snd) ++ payloads k s.mem.messageQueue := by
      simp [Client.emptyMessageQueue, Function.comp_def]
    rw [hX, List.append_eq_nil_iff]
    rintro ⟨hnone, hq⟩
    refine ⟨hnone, ?_⟩
    rw [hq]
    rfl

/-- A session that has just been started. -/
theorem InOrder.start (htag : Tagged s) (m : Shared) (peer : Bytes) (hr : m.recvData = [])
    (hq : m.messageQueue = s.mem.messageQueue) {p : Option ℕ} :
    InOrder
      { s with
        mem := m
        threads := s.threads ++ [{ session := s.threads.length, peer := peer }]
        socketRunnablePtr := p }
      s.threads.length { session := s.threads.length, peer := peer } := by
  have hstart := Received.start htag m peer hr hq (p := p)
  refine ⟨hstart.whole, hstart.marked, hstart.buffered, [], ?_, ?_⟩
  · exact (framing.frames_of_none framing_next_nil).symm
  · have hframes := hstart.frames
    rw [framing.frames_of_none framing_next_nil] at hframes
    simp only [List.append_eq_nil_iff] at hframes
    rw [hframes.1.1.1, hframes.1.1.2]
    exact ⟨List.Sublist.refl _, fun _ => rfl⟩

/-- A step of its own thread. -/
theorem InOrder.io {t' : FTCPSocketRunnable} {m' : Shared} {a : IoAct} (hw : Wf s)
    (h : InOrder s k t) (hlen : t.peer.length < 2 ^ 31) (hok : HeadersOk t.peer)
    (ht : s.threads[k]? = some t) (hio : IoStep t s.mem a t' m') :
    InOrder { s with threads := s.threads.set k t', mem := m' } k t' := by
  have hk := hw.last_of_io ht hio
  have hb := (h.buffered hk).ioStep hlen hok h.marked hio
  obtain ⟨new, hq, hnew⟩ := (h.buffered hk).messages hlen hok h.marked hio
  have hpay : payloads k m'.messageQueue = payloads k s.mem.messageQueue ++ new := by
    rw [hq, payloads_append, hw.session k t ht, payloads_mk, if_pos rfl]
  obtain ⟨enqueued, hframes, hsub, hx⟩ := h.frames
  refine ⟨hb.whole, h.marked.ioStep hio, fun _ => hb, enqueued ++ new, hnew _ hframes, ?_⟩
  rw [hpay, ← List.append_assoc]
  exact ⟨hsub.append_right new, fun hnone => by rw [hx hnone]⟩

/-- A session that has completed, and is no longer the last, is left alone. -/
theorem InOrder.ended (h : InOrder s k t) (hend : t.pc = .ended)
    (hk : k + 1 ≠ s'.threads.length) (hd : s'.dispatched = s.dispatched)
    (hx : s'.discarded = s.discarded)
    (hq : payloads k s'.mem.messageQueue = payloads k s.mem.messageQueue) : InOrder s' k t where
  whole := h.whole
  marked := h.marked
  buffered := fun hl => absurd hl hk
  frames := by
    have hframes := h.frames
    rw [undecoded, hend] at hframes ⊢
    rw [hd, hx, hq]
    exact hframes

end

/-- **A step keeps a session in order.** -/
theorem inOrder_step {a : Act} {s s' : Client} {k : ℕ} {u : FTCPSocketRunnable} (hw : Wf s)
    (htag : Tagged s) (hstep : ClientStep s a s') (hu : s'.threads[k]? = some u)
    (hlen : u.peer.length < 2 ^ 31) (hok : HeadersOk u.peer)
    (h : ∀ t : FTCPSocketRunnable, s.threads[k]? = some t → t.peer = u.peer → InOrder s k t) :
    InOrder s' k u := by
  cases hstep with
  | noConnect | noDisconnect | noSend => exact h u hu rfl
  | join | callbackReturn | connected | lateConnectionError =>
    exact (h u hu rfl).same (.refl u) rfl rfl rfl rfl rfl
  | @connect peer hr hp =>
    rcases getElem?_concat_eq_some.mp hu with hu | ⟨rfl, rfl⟩
    · have hk := (List.getElem?_eq_some_iff.mp hu).1
      refine (h u hu rfl).ended (hw.ended_of_none hp hu).1 ?_ rfl rfl rfl
      rw [List.length_append, List.length_singleton]
      omega
    · exact .start htag { s.mem with sendBuffer := [], recvData := [] } peer rfl rfl
  | disconnect hr hp | mgrDisconnect hr hp | connectionError hs ht hp =>
    obtain ⟨t, ht, rfl⟩ := getElem?_modify_eq_some.mp hu
    have hI := h t ht (Same.stop t).ite.peer.symm
    exact hI.same (Same.stop t).ite (List.length_modify ..) rfl rfl rfl rfl
  | @send data j hr hp =>
    obtain ⟨t, ht, rfl⟩ := getElem?_modify_eq_some.mp hu
    have hI := h t ht (Same.enqueue t data).ite.peer.symm
    exact hI.same (Same.enqueue t data).ite (List.length_modify ..) rfl rfl rfl rfl
  | mgrEmpty hr hp => exact (h u hu rfl).emptyMessageQueue none
  | @mgrReturn j rest hs =>
    have hI : InOrder { s with stack := rest } k u :=
      (h u hu rfl).same (.refl u) rfl rfl rfl rfl rfl
    exact hI.emptyMessageQueue (some j)
  | @tick msg queue hs hq =>
    have hmoved : payloads k ((s.dispatched ++ [(s.socketRunnablePtr, msg)]).map Prod.snd) ++
        payloads k queue =
        payloads k (s.dispatched.map Prod.snd) ++ payloads k s.mem.messageQueue := by
      rw [hq, List.map_append, payloads_append, List.append_assoc, ← payloads_append]
      rfl
    refine (h u hu rfl).congr (.refl u) rfl rfl ?_ fun hnone => ⟨hnone, hmoved⟩
    exact hmoved ▸ List.Sublist.refl _
  | @io j b t t' m' ht hio =>
    rcases (getElem?_set_eq_some ht).mp hu with ⟨rfl, rfl⟩ | ⟨hne, hu⟩
    · rw [hio.peer_eq] at hlen hok
      exact (h t ht hio.peer_eq.symm).io hw hlen hok ht hio
    · -- the thread of another session is running, so this one has completed
      have hend : u.pc = .ended := by
        by_contra hpc
        exact hne (hw.eq_of_live ht hu hio.pc_ne_ended hpc)
      have hlast := hw.last_of_io ht hio
      obtain ⟨new, hq⟩ := hio.messageQueue_eq
      refine (h u hu rfl).ended hend ?_ rfl rfl ?_
      · rw [List.length_set]
        omega
      · show payloads k m'.messageQueue = _
        rw [hq, payloads_append, hw.session j t ht, payloads_mk, if_neg hne, List.append_nil]

/-- **In every run**, a session is in order. -/
theorem inOrder_run {as : List Act} {s : Client} (h : run Client.step {} as = some s) {k : ℕ}
    {t : FTCPSocketRunnable} (ht : s.threads[k]? = some t) (hlen : t.peer.length < 2 ^ 31)
    (hok : HeadersOk t.peer) : InOrder s k t := by
  let I (s : Client) : Prop := Tagged s ∧
    ∀ t : FTCPSocketRunnable, s.threads[k]? = some t → t.peer.length < 2 ^ 31 →
      HeadersOk t.peer → InOrder s k t
  have hI : I s := by
    refine invariant_run ⟨tagged_start, by simp⟩ ?_ h
    intro s a s' hw ⟨htag, hall⟩ hstep
    refine ⟨tagged_step hw htag hstep, fun u hu hlen hok => ?_⟩
    exact inOrder_step hw htag hstep hu hlen hok fun t ht hp =>
      hall t ht (by rw [hp]; exact hlen) (by rw [hp]; exact hok)
  exact hI.2 t ht hlen hok

/-- What is dispatched and queued of a session is among the frames of what it has received,
in order; all of the first ones, when none was discarded. -/
theorem InOrder.sublist {s : Client} {k : ℕ} {t : FTCPSocketRunnable} (h : InOrder s k t) :
    (payloads k (s.dispatched.map Prod.snd)).Sublist (framing.frames t.consumed) ∧
    (payloads k (s.discarded.map Prod.snd) = [] →
      payloads k (s.dispatched.map Prod.snd) <+: framing.frames t.consumed) := by
  obtain ⟨enqueued, hframes, hsub, hx⟩ := h.frames
  have hpre : enqueued <+: framing.frames t.consumed :=
    (hframes ▸ List.prefix_append _ _).trans (framing.frames_prefix h.handed_prefix)
  refine ⟨((List.prefix_append _ _).sublist.trans hsub).trans hpre.sublist, fun hnone => ?_⟩
  refine List.IsPrefix.trans ?_ hpre
  rw [← hx hnone]
  exact List.prefix_append _ _

/-! ### The threads from one step to the next -/

/-- What a step passes to `FTCPSocket::Send` in session `k`. -/
def sentTo (s : Client) (k : ℕ) : Act → List Bytes
  | .send data => if s.socketRunnablePtr = some k then [data] else []
  | _ => []

theorem IoStep.accepted {t t' : FTCPSocketRunnable} {m m' : Shared} {a : IoAct}
    (h : IoStep t m a t' m') : t.accepted <+: t'.accepted := by
  cases h with
  | send hpc hk => exact List.prefix_append _ _
  | _ => exact List.prefix_rfl

/-- A thread after a step: one from before, with the same stream, or one that has just been
started. -/
theorem ClientStep.threads {s s' : Client} {a : Act} (h : ClientStep s a s') {k : ℕ}
    {u : FTCPSocketRunnable} (hu : s'.threads[k]? = some u) :
    (∃ t, s.threads[k]? = some t ∧ u.peer = t.peer ∧ t.accepted <+: u.accepted ∧
      u.enqueued = t.enqueued ++ sentTo s k a) ∨
    k = s.threads.length ∧ u.enqueued = [] ∧ a = .connect u.peer := by
  have hkeep : ∀ {a}, sentTo s k a = [] → s.threads[k]? = some u →
      ∃ t, s.threads[k]? = some t ∧ u.peer = t.peer ∧ t.accepted <+: u.accepted ∧
        u.enqueued = t.enqueued ++ sentTo s k a := by
    intro a ha hu
    exact ⟨u, hu, rfl, List.prefix_rfl, by rw [ha, List.append_nil]⟩
  have hstop : ∀ {a} (j : ℕ), sentTo s k a = [] →
      (s.threads.modify j fun t => { t with bManuallyStop := true })[k]? = some u →
      ∃ t, s.threads[k]? = some t ∧ u.peer = t.peer ∧ t.accepted <+: u.accepted ∧
        u.enqueued = t.enqueued ++ sentTo s k a := by
    intro a j ha hu
    obtain ⟨t, ht, rfl⟩ := getElem?_modify_eq_some.mp hu
    refine ⟨t, ht, ?_, ?_, ?_⟩
    · split <;> rfl
    · split <;> exact List.prefix_rfl
    · rw [ha, List.append_nil]
      split <;> rfl
  cases h with
  | @connect peer hr hp =>
    rcases getElem?_concat_eq_some.mp hu with hu | ⟨rfl, rfl⟩
    · exact .inl (hkeep rfl hu)
    · exact .inr ⟨rfl, rfl, rfl⟩
  | disconnect hr hp | mgrDisconnect hr hp | connectionError hs ht hp =>
    exact .inl (hstop _ rfl hu)
  | @send data j hr hp =>
    obtain ⟨t, ht, rfl⟩ := getElem?_modify_eq_some.mp hu
    refine .inl ⟨t, ht, ?_, ?_, ?_⟩
    · split <;> rfl
    · split <;> exact List.prefix_rfl
    · by_cases hj : j = k
      · simp [sentTo, hp, hj]
      · simp [sentTo, hp, hj]
  | noSend hp =>
    refine .inl (hkeep ?_ hu)
    simp [sentTo, hp]
  | @io j b t t' m' ht hio =>
    rcases (getElem?_set_eq_some ht).mp hu with ⟨rfl, rfl⟩ | ⟨-, hu⟩
    · refine .inl ⟨t, ht, hio.peer_eq, hio.accepted, ?_⟩
      rw [hio.enqueued_eq]
      exact (List.append_nil _).symm
    · exact .inl (hkeep rfl hu)
  | _ => exact .inl (hkeep rfl hu)

/-- Only a tick dispatches a message. -/
theorem ClientStep.dispatched {s s' : Client} {a : Act} (h : ClientStep s a s') :
    s'.dispatched = s.dispatched ∨ a = .tick ∧ ∃ msg queue, s.mem.messageQueue = msg :: queue ∧
      s'.dispatched = s.dispatched ++ [(s.socketRunnablePtr, msg)] := by
  cases h with
  | tick hs hq => exact .inr ⟨rfl, _, _, hq, rfl⟩
  | _ => exact .inl rfl

/-! ### Frames of what was encoded -/

/-- The frame of a message that is not empty is cut off, whether or not another follows. -/
theorem nextFrame_encoder_self {m : Bytes} (hm : m.length < 2 ^ 32) (hne : m ≠ []) :
    nextFrame (encoder m) = some (m, []) := by
  have hpos := List.length_pos_iff.mpr hne
  have hheader : header (encoder m) = m.length := by
    have := header_encoder m []
    rwa [List.append_nil, Nat.mod_eq_of_lt hm] at this
  have hdrop : (encoder m).drop 4 = m := List.drop_left' (length_storeUInt32 _)
  rw [nextFrame_eq_some, hheader, ← List.drop_drop, hdrop, length_encoder]
  exact ⟨⟨by omega, Nat.le_refl _⟩, List.take_length, List.drop_length⟩

/-- The frames of encoded messages: the messages, but for an empty one at the end. -/
theorem frames_flatMap_encoder {ms : List Bytes} (hms : ∀ m ∈ ms, m.length < 2 ^ 32) :
    framing.frames (ms.flatMap encoder) <+: ms := by
  induction ms with
  | nil => exact (framing.frames_of_none framing_next_nil).symm ▸ List.nil_prefix
  | cons m ms ih =>
    rw [List.forall_mem_cons] at hms
    by_cases hrest : ms.flatMap encoder = []
    · -- the last frame is cut off, or withheld
      rw [List.flatMap_cons, hrest, List.append_nil]
      by_cases hm : m = []
      · have hnone : framing.next (encoder []) = none := by decide
        rw [hm, framing.frames_of_none hnone]
        exact List.nil_prefix
      · rw [framing.frames_of_some (nextFrame_encoder_self hms.1 hm),
          framing.frames_of_none framing_next_nil]
        exact ⟨ms, rfl⟩
    · rw [List.flatMap_cons, framing.frames_of_some (nextFrame_encoder hms.1 hrest)]
      exact List.prefix_cons_iff.mpr (.inr ⟨_, rfl, ih hms.2⟩)

/-- All of them, when the last is not empty. -/
theorem frames_flatMap_encoder_eq {ms : List Bytes} (hms : ∀ m ∈ ms, m.length < 2 ^ 32)
    (hlast : ∀ m ∈ ms.getLast?, m ≠ []) : framing.frames (ms.flatMap encoder) = ms := by
  induction ms with
  | nil => exact framing.frames_of_none framing_next_nil
  | cons m ms ih =>
    rw [List.forall_mem_cons] at hms
    cases ms with
    | nil =>
      rw [List.flatMap_cons, List.flatMap_nil, List.append_nil,
        framing.frames_of_some (nextFrame_encoder_self hms.1 (hlast m rfl)),
        framing.frames_of_none framing_next_nil]
    | cons m' ms =>
      have hrest : (m' :: ms).flatMap encoder ≠ [] := by
        intro hnil
        have := congrArg List.length hnil
        rw [List.flatMap_cons, List.length_append, length_encoder, List.length_nil] at this
        omega
      rw [List.flatMap_cons, framing.frames_of_some (nextFrame_encoder hms.1 hrest),
        ih hms.2 fun a ha => hlast a (by rwa [List.getLast?_cons_cons])]

/-- What was encoded has only headers that the decoder can handle. -/
theorem headersOk_flatMap_encoder {ms : List Bytes} (hlen : (ms.flatMap encoder).length < 2 ^ 31) :
    HeadersOk (ms.flatMap encoder) := by
  induction ms with
  | nil => exact .of_none framing_next_nil fun h => absurd h (by decide)
  | cons m ms ih =>
    rw [List.flatMap_cons] at hlen ⊢
    have hlen' := hlen
    rw [List.length_append, length_encoder] at hlen'
    have hheader : header (encoder m ++ ms.flatMap encoder) = m.length := by
      rw [header_encoder, Nat.mod_eq_of_lt (by omega)]
    cases hn : nextFrame (encoder m ++ ms.flatMap encoder) with
    | none => exact .of_none hn fun _ => by omega
    | some fr =>
      obtain ⟨f, r⟩ := fr
      obtain ⟨-, -, hr⟩ := nextFrame_eq_some.mp hn
      rw [hheader, List.drop_left' (length_encoder m)] at hr
      subst hr
      exact .of_some (by omega) hn (ih (by omega))

/-- The frames of the first part of what was encoded are the first of the messages. -/
theorem frames_prefix_of_encoders {ms : List Bytes} {b : Bytes}
    (hms : ∀ m ∈ ms, m.length < 2 ^ 32) (hb : b <+: ms.flatMap encoder) :
    framing.frames b <+: ms :=
  (framing.frames_prefix hb).trans (frames_flatMap_encoder hms)

end ThirdPersonMP.Network
