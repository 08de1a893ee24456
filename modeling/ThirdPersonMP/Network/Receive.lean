import ThirdPersonMP.Network.TcpSocket

/-!
# The receive path

`HasPendingData` cuts the stream of the peer into chunks, `Recv` fills each chunk piece
by piece, the decode callback cuts the frames off `RecvData` and enqueues them, and the
ticks of the game thread dispatch them. All of this is interleaved, may fail and may be
stopped at any point.

The argument is that the decoder is a `StreamDecoder`: decoding chunk after chunk with
the residue kept in front is decoding the concatenation of the chunks at once.

* `Buffered` — what `RecvData` holds, at every statement of the IO thread, in terms of
  the bytes handed to the decoder so far; kept by a step of the thread
  (`Buffered.ioStep`).
* `Received` — the same for a session of the whole client, and where the frames of the
  handed bytes are: dispatched, queued or discarded; kept by every step
  (`received_step`) and so true in every run (`received_run`).
* `dispatched_run` — the dispatched messages of a run with one session.
-/

namespace ThirdPersonMP.Network

open Base Library

/-! ### The receive buffer -/

/-- What `RecvData` holds, by the next statement of the thread. -/
def Buffered (t : FTCPSocketRunnable) (recvData : Bytes) : Prop :=
  match t.pc with
  | .receiving originalNum pendingDataSize bytesReadTotal =>
    t.bConnectionError = false ∧
    ∃ read, originalNum = (framing.residue t.handed).length ∧ bytesReadTotal = read.length ∧
      recvData = framing.residue t.handed ++ read ++
        List.replicate (pendingDataSize - bytesReadTotal) 0 ∧
      bytesReadTotal ≤ pendingDataSize ∧ t.handed ++ read ++ t.incoming = t.peer
  | .received originalNum =>
    ∃ read, t.handed ++ read ++ t.incoming = t.peer ∧
      (t.recvFailed = true ∨ t.bConnectionError = false ∧
        originalNum = (framing.residue t.handed).length ∧
        recvData = framing.residue t.handed ++ read)
  | .decoding => framing.Reach t.handed recvData ∧ t.handed ++ t.incoming = t.peer
  | .fault => False
  | .recvDone | .exit | .ended =>
    (recvData = framing.residue t.handed ∧ t.handed ++ t.incoming = t.peer) ∨
      (t.recvFailed = true ∨ t.stopSeen = true) ∧ ∃ read, t.handed ++ read ++ t.incoming = t.peer
  | .recvTest =>
    t.bConnectionError = false ∧
    recvData = framing.residue t.handed ∧ t.handed ++ t.incoming = t.peer
  | .init | .loopTest | .sendTest | .peek | .sending _ _ | .sent _ _ | .sendDone =>
    recvData = framing.residue t.handed ∧ t.handed ++ t.incoming = t.peer

/-- What a failed `Recv` and a stop seen before the decode callback leave behind. -/
structure Marked (t : FTCPSocketRunnable) : Prop where
  recvFailed : t.recvFailed = true → t.bConnectionError = true
  stopSeen : t.stopSeen = true → t.bManuallyStop = true

section

variable {t t' : FTCPSocketRunnable} {m m' : Shared} {a : IoAct}

/-- The residue of the handed bytes and what is still to come are within the stream. -/
theorem length_residue_add_le {r : Bytes} (h : t.handed ++ r ++ t.incoming = t.peer) :
    (framing.residue t.handed).length + r.length + t.incoming.length ≤ t.peer.length := by
  have hle := (framing.reach_residue t.handed).length_le
  rw [← h, List.length_append, List.length_append]
  omega

/-- Growing `RecvData` for a chunk of the stream. -/
theorem setNum_recvData {recvData : Bytes} {p : UInt32} (hlen : t.peer.length < 2 ^ 31)
    (hc : recvData = framing.residue t.handed ∧ t.handed ++ t.incoming = t.peer)
    (hp : p.toNat ≤ t.incoming.length) :
    TArray.setNum recvData (toInt32 (.ofNat recvData.length + p)) =
      some (recvData ++ List.replicate p.toNat 0) := by
  have hle := length_residue_add_le (r := []) (by rw [List.append_nil]; exact hc.2)
  rw [List.length_nil, ← hc.1] at hle
  rw [toInt32_ofNat_add (by omega), TArray.setNum_grow]

/-- Filling a piece of the chunk, after the bytes kept from the chunks before. -/
theorem writeAt_recvData {recvData kept read incoming : Bytes} {n k : ℕ}
    (hr : recvData = kept ++ read ++ List.replicate n 0) (hk : k ≤ n) (hi : k ≤ incoming.length) :
    TArray.writeAt recvData (kept.length + read.length) (incoming.take k) =
      some (kept ++ (read ++ incoming.take k) ++ List.replicate (n - k) 0) := by
  have hlen : (incoming.take k).length = k := by rw [List.length_take, Nat.min_eq_left hi]
  have := TArray.writeAt_append (kept ++ read) (List.replicate n 0)
    (incoming.take k) (by rw [hlen, List.length_replicate]; exact hk)
  rw [hlen, List.drop_replicate, List.length_append] at this
  rw [hr, this]
  simp only [List.append_assoc]

/-- Then one more piece of the chunk is read, and less of it is still zero. -/
theorem eq_of_writeAt_recvData {recvData recvData' kept read incoming : Bytes} {p k : ℕ}
    (hr : recvData = kept ++ read ++ List.replicate (p - read.length) 0)
    (hk : k ≤ p - read.length) (hi : k ≤ incoming.length)
    (hw : TArray.writeAt recvData (kept.length + read.length) (incoming.take k) =
      some recvData') :
    read.length + k = (read ++ incoming.take k).length ∧
      recvData' = kept ++ (read ++ incoming.take k) ++
        List.replicate (p - (read.length + k)) 0 := by
  rw [writeAt_recvData hr hk hi, Option.some.injEq] at hw
  refine ⟨?_, by rw [← hw, Nat.sub_sub]⟩
  rw [List.length_append, List.length_take, Nat.min_eq_left hi]

/-- When the chunk has been read, nothing of it is zero. -/
theorem replicate_of_not_lt {recvData : Bytes} {p n : ℕ} (h : ¬ n < p) :
    recvData ++ List.replicate (p - n) 0 = recvData := by
  rw [Nat.sub_eq_zero_of_le (Nat.le_of_not_lt h), List.replicate_zero, List.append_nil]

/-- A round of the decode callback is a step of the framing. -/
theorem iteration_recvData {recvData : Bytes} (hlen : t.peer.length < 2 ^ 31)
    (hok : HeadersOk t.peer)
    (hb : framing.Reach t.handed recvData ∧ t.handed ++ t.incoming = t.peer) :
    (framing.next recvData = none ∧
        (iteration recvData = .done ∨ iteration recvData = .incomplete)) ∨
      ∃ f r, framing.next recvData = some (f, r) ∧ iteration recvData = .frame (some f) r := by
  have hpre : t.handed <+: t.peer := ⟨_, hb.2⟩
  have hle : recvData.length ≤ t.peer.length := hb.1.length_le.trans hpre.length_le
  exact iteration_eq (by omega) (hok.of_prefix hpre recvData hb.1)

theorem Marked.ioStep (hm : Marked t) (h : IoStep t m a t' m') : Marked t' := by
  cases h with
  | recvFail => exact ⟨fun _ => rfl, hm.stopSeen⟩
  | sendFail => exact ⟨fun _ => rfl, hm.stopSeen⟩
  | noHand => exact ⟨hm.recvFailed, id⟩
  | _ => exact ⟨hm.recvFailed, hm.stopSeen⟩

/-- A round of the decode callback never cuts a frame without its bytes. -/
theorem iteration_ne_fault {recvData r : Bytes} (hlen : t.peer.length < 2 ^ 31)
    (hok : HeadersOk t.peer)
    (hb : framing.Reach t.handed recvData ∧ t.handed ++ t.incoming = t.peer) :
    iteration recvData ≠ .frame none r := by
  intro hi
  rcases iteration_recvData hlen hok hb with ⟨-, hi'⟩ | ⟨f, r', -, hi'⟩
  · simp [hi] at hi'
  · rw [hi] at hi'
    cases hi'

/-- What has been read when the receive loop has ended without an error. -/
theorem Buffered.received {o : ℕ} (hm : Marked t) (hpc : t.pc = .received o)
    (he : t.bConnectionError = false) (hb : Buffered t m.recvData) :
    ∃ read, t.handed ++ read ++ t.incoming = t.peer ∧
      m.recvData = framing.residue t.handed ++ read ∧ m.recvData.drop o = read := by
  simp only [Buffered, hpc] at hb
  obtain ⟨read, hp, hb | ⟨-, rfl, hr⟩⟩ := hb
  · exact absurd (hm.recvFailed hb) (by rw [he]; decide)
  · exact ⟨read, hp, hr, by rw [hr, List.drop_left]⟩

/-- **A step of the IO thread keeps what `RecvData` holds.** -/
theorem Buffered.ioStep (hlen : t.peer.length < 2 ^ 31) (hok : HeadersOk t.peer) (hm : Marked t)
    (hb : Buffered t m.recvData) (h : IoStep t m a t' m') : Buffered t' m'.recvData := by
  cases h with
  | noSocket hpc | noHost hpc | refused hpc =>
    simp only [Buffered, hpc] at hb ⊢
    exact .inl hb
  | connected hpc | peek hpc | peekEmpty hpc | sendFail hpc | pop hpc | noPop hpc =>
    simpa only [Buffered, hpc] using hb
  | loopTest hpc | sendTest hpc =>
    simp only [Buffered, hpc] at hb
    unfold Buffered
    split_ifs
    · exact hb
    · first | exact hb | exact .inl hb
  | send hpc hk =>
    simp only [Buffered, hpc] at hb
    unfold Buffered FTCPSocketRunnable.sendMore
    split_ifs <;> exact hb
  | sendDone hpc =>
    simp only [Buffered, hpc] at hb
    unfold Buffered
    split_ifs with hse
    · exact .inl hb
    · simp only [Bool.or_eq_true, not_or, Bool.not_eq_true] at hse
      exact ⟨hse.2, hb⟩
  | noPendingData hpc =>
    simp only [Buffered, hpc] at hb ⊢
    exact .inl hb.2
  | hasPendingData hpc hp hs =>
    simp only [Buffered, hpc] at hb
    obtain ⟨he, hb⟩ := hb
    rw [setNum_recvData hlen hb hp, Option.some.injEq] at hs
    refine ⟨he, [], by rw [hb.1], rfl, ?_, Nat.zero_le _, by rw [List.append_nil]; exact hb.2⟩
    show _ = _
    rw [← hs, hb.1, List.append_nil, Nat.sub_zero]
  | setNumFault hpc hp hs =>
    simp only [Buffered, hpc] at hb
    rw [setNum_recvData hlen hb.2 hp] at hs
    cases hs
  | recvFail hpc =>
    simp only [Buffered, hpc] at hb
    obtain ⟨-, read, -, -, -, -, hp⟩ := hb
    exact ⟨read, hp, .inl rfl⟩
  | @recv o p n k recvData hpc hk hi hw =>
    simp only [Buffered, hpc] at hb
    obtain ⟨he, read, rfl, rfl, hr, hle, hp⟩ := hb
    obtain ⟨hlen', hw⟩ := eq_of_writeAt_recvData hr hk hi hw
    have hp' : t.handed ++ (read ++ t.incoming.take k) ++ t.incoming.drop k = t.peer := by
      rw [← hp]
      simp only [List.append_assoc, List.take_append_drop]
    unfold Buffered FTCPSocketRunnable.recvMore
    split_ifs with hmore
    · exact ⟨he, _, rfl, hlen', hw, hmore.le, hp'⟩
    · exact ⟨_, hp', .inr ⟨he, rfl, hw.trans (replicate_of_not_lt hmore)⟩⟩
  | writeFault hpc hk hi hw =>
    simp only [Buffered, hpc] at hb
    obtain ⟨-, read, rfl, rfl, hr, -, -⟩ := hb
    rw [writeAt_recvData hr hk hi] at hw
    cases hw
  | hand hpc hs he =>
    obtain ⟨read, hp, hr, hdrop⟩ := hb.received hm hpc he
    refine ⟨?_, ?_⟩
    · show framing.Reach (t.handed ++ _) _
      rw [hdrop, hr]
      exact (framing.reach_residue t.handed).append read
    · show t.handed ++ _ ++ _ = _
      rw [hdrop]
      exact hp
  | noHand hpc hse =>
    simp only [Buffered, hpc] at hb ⊢
    obtain ⟨read, hp, hb⟩ := hb
    refine .inr ⟨hb.imp_right fun hb => hse.resolve_right ?_, read, hp⟩
    rw [hb.1]
    decide
  | decodeDone hpc hi =>
    simp only [Buffered, hpc] at hb ⊢
    refine .inl ⟨?_, hb.2⟩
    rcases iteration_recvData hlen hok hb with ⟨hn, -⟩ | ⟨f, r, -, hi'⟩
    · rw [← hb.1.residue_eq, StreamDecoder.residue_of_none hn]
    · simp [hi'] at hi
  | decodeFrame hpc hi =>
    simp only [Buffered, hpc] at hb ⊢
    rcases iteration_recvData hlen hok hb with ⟨-, hi'⟩ | ⟨f, r, hn, hi'⟩
    · simp [hi] at hi'
    · rw [hi] at hi'
      cases hi'
      exact ⟨hb.1.trans (.cut hn (.refl _)), hb.2⟩
  | decodeFault hpc hi =>
    simp only [Buffered, hpc] at hb
    exact absurd hi (iteration_ne_fault hlen hok hb)
  | recvDone hpc =>
    simp only [Buffered, hpc] at hb
    unfold Buffered
    split_ifs with hse
    · exact hb
    · -- no `Recv` has failed and no stop was seen, for that would have ended the loop
      simp only [Bool.or_eq_true, not_or, Bool.not_eq_true] at hse
      refine hb.resolve_right fun hb => ?_
      rcases hb.1 with hf | hs
      · exact absurd (hm.recvFailed hf) (by rw [hse.2]; decide)
      · exact absurd (hm.stopSeen hs) (by rw [hse.1]; decide)
  | report hpc | exit hpc => simpa only [Buffered, hpc] using hb

/-- All that the peer sends: the bytes handed to the decoder, those read and not handed,
and those still to come. -/
theorem Buffered.whole {recvData : Bytes} (hb : Buffered t recvData) :
    ∃ read, t.handed ++ read ++ t.incoming = t.peer := by
  have hclean : t.handed ++ t.incoming = t.peer → ∃ read, t.handed ++ read ++ t.incoming = t.peer :=
    fun h => ⟨[], by rw [List.append_nil]; exact h⟩
  unfold Buffered at hb
  split at hb
  case h_1 =>
    obtain ⟨-, read, -, -, -, -, hp⟩ := hb
    exact ⟨read, hp⟩
  case h_2 =>
    obtain ⟨read, hp, -⟩ := hb
    exact ⟨read, hp⟩
  case h_4 => exact hb.elim
  case h_5 | h_6 | h_7 => exact hb.elim (fun hb => hclean hb.2) fun hb => hb.2
  case h_8 => exact hclean hb.2.2
  all_goals exact hclean hb.2

/-! ### The messages -/

/-- The frames that the decode callback has still to enqueue. -/
def undecoded (t : FTCPSocketRunnable) (recvData : Bytes) : List Bytes :=
  if t.pc = .decoding then framing.frames recvData else []

/-- **A step of the IO thread enqueues the next frames** of the bytes it has handed to the
decoder, messages of its session. -/
theorem Buffered.messages (hlen : t.peer.length < 2 ^ 31) (hok : HeadersOk t.peer)
    (hm : Marked t) (hb : Buffered t m.recvData) (h : IoStep t m a t' m') :
    ∃ new : List Bytes, m'.messageQueue = m.messageQueue ++ new.map (Message.mk t.session) ∧
      ∀ out, out ++ undecoded t m.recvData = framing.frames t.handed →
        out ++ new ++ undecoded t' m'.recvData = framing.frames t'.handed := by
  cases h with
  | @hand o hpc hs he =>
    refine ⟨[], (List.append_nil _).symm, fun out hout => ?_⟩
    obtain ⟨read, -, hr, hdrop⟩ := hb.received hm hpc he
    simp only [undecoded, hpc, reduceCtorEq, if_false, List.append_nil] at hout
    simp only [undecoded, if_true, hdrop, List.append_nil]
    rw [hout, hr, ← StreamDecoder.frames_append]
  | decodeDone hpc hi =>
    refine ⟨[], (List.append_nil _).symm, fun out hout => ?_⟩
    simp only [Buffered, hpc] at hb
    rcases iteration_recvData hlen hok hb with ⟨hn, -⟩ | ⟨f, r, -, hi'⟩
    · simpa only [undecoded, hpc, if_true, StreamDecoder.frames_of_none hn, reduceCtorEq, if_false,
        List.append_nil] using hout
    · simp [hi'] at hi
  | decodeFrame hpc hi =>
    simp only [Buffered, hpc] at hb
    rcases iteration_recvData hlen hok hb with ⟨-, hi'⟩ | ⟨f, r, hn, hi'⟩
    · simp [hi] at hi'
    · rw [hi] at hi'
      cases hi'
      refine ⟨[_], rfl, fun out hout => ?_⟩
      simpa only [undecoded, hpc, if_true, StreamDecoder.frames_of_some hn, List.append_assoc,
        List.singleton_append] using hout
  | decodeFault hpc hi =>
    simp only [Buffered, hpc] at hb
    exact absurd hi (iteration_ne_fault hlen hok hb)
  | loopTest hpc | sendTest hpc | sendDone hpc | recvDone hpc | send hpc | recv hpc =>
    refine ⟨[], (List.append_nil _).symm, fun out hout => ?_⟩
    simp only [undecoded, hpc, reduceCtorEq, if_false, List.append_nil] at hout
    simp only [undecoded, FTCPSocketRunnable.sendMore, FTCPSocketRunnable.recvMore]
    split_ifs <;> first | contradiction | simpa only [List.append_nil] using hout
  | noSocket hpc | noHost hpc | refused hpc | connected hpc | peek hpc | peekEmpty hpc
  | sendFail hpc | pop hpc | noPop hpc | noPendingData hpc | hasPendingData hpc | setNumFault hpc
  | recvFail hpc | writeFault hpc | noHand hpc | report hpc | exit hpc =>
    refine ⟨[], (List.append_nil _).symm, fun out hout => ?_⟩
    simpa only [undecoded, hpc, reduceCtorEq, if_false, List.append_nil] using hout

end

/-! ### Where the messages are -/

/-- The bytes of the messages of a session. -/
def payloads (session : ℕ) (messages : List Message) : List Bytes :=
  (messages.filter fun msg => msg.session = session).map Message.data

@[simp] theorem payloads_nil (k : ℕ) : payloads k [] = [] := rfl

@[simp] theorem payloads_append (k : ℕ) (ms ns : List Message) :
    payloads k (ms ++ ns) = payloads k ms ++ payloads k ns := by
  rw [payloads, List.filter_append, List.map_append, ← payloads, ← payloads]

theorem payloads_eq_map {k : ℕ} {ms : List Message} (h : ∀ msg ∈ ms, msg.session = k) :
    payloads k ms = ms.map Message.data := by
  rw [payloads, List.filter_eq_self.mpr fun msg hm => decide_eq_true (h msg hm)]

theorem payloads_eq_nil {k : ℕ} {ms : List Message} (h : ∀ msg ∈ ms, msg.session ≠ k) :
    payloads k ms = [] := by
  rw [payloads, List.filter_eq_nil_iff.mpr fun msg hm => by simpa using h msg hm, List.map_nil]

/-- The messages that a thread enqueues are its own. -/
theorem payloads_mk (k j : ℕ) (fs : List Bytes) :
    payloads k (fs.map (Message.mk j)) = if j = k then fs else [] := by
  split
  · subst j
    rw [payloads_eq_map (by simp), List.map_map]
    exact List.map_id _
  · exact payloads_eq_nil (by simp_all)

/-- Every message is of a session that was started, and what a manager's `Disconnect`
still has to do, it does for a session that has completed or is being waited for. -/
structure Tagged (s : Client) : Prop where
  /-- The messages on the queue. -/
  messageQueue : ∀ msg ∈ s.mem.messageQueue, msg.session < s.threads.length
  /-- The messages dispatched. -/
  dispatched : ∀ d ∈ s.dispatched, d.2.session < s.threads.length
  /-- The messages discarded, and the session that was disconnected. -/
  discarded : ∀ d ∈ s.discarded, d.2.session < s.threads.length ∧ ∀ j ∈ d.1, j < s.threads.length
  /-- `InternalDisconnectFunc` has called `Disconnect`, which waits for the thread or has
  done so. -/
  internalDisconnectFunc : ∀ j, .internalDisconnectFunc j ∈ s.stack → j < s.threads.length ∧
    (s.stack.head? = some (.waitForCompletion j) ∨
      ∀ t : FTCPSocketRunnable, s.threads[j]? = some t → t.pc = .ended)

theorem tagged_start : Tagged {} where
  messageQueue := by simp
  dispatched := by simp
  discarded := by simp
  internalDisconnectFunc := by simp

/-- The queue after a step of an IO thread. -/
theorem IoStep.messageQueue_eq {t t' : FTCPSocketRunnable} {m m' : Shared} {a : IoAct}
    (h : IoStep t m a t' m') :
    ∃ new : List Bytes, m'.messageQueue = m.messageQueue ++ new.map (Message.mk t.session) := by
  cases h with
  | @decodeFrame f => exact ⟨[f], rfl⟩
  | _ => exact ⟨[], (List.append_nil _).symm⟩

/-- What a step may do to the threads without breaking `Tagged`. -/
theorem Tagged.internalDisconnectFunc_of_threads {s s' : Client} (h : Tagged s)
    (hs : s'.stack = s.stack) (hlen : s.threads.length ≤ s'.threads.length)
    (ht : ∀ (j : ℕ) (u : FTCPSocketRunnable), j < s.threads.length → s'.threads[j]? = some u →
      ∃ t, s.threads[j]? = some t ∧ (t.pc = .ended → u.pc = .ended)) :
    ∀ j, .internalDisconnectFunc j ∈ s'.stack → j < s'.threads.length ∧
      (s'.stack.head? = some (.waitForCompletion j) ∨
        ∀ t : FTCPSocketRunnable, s'.threads[j]? = some t → t.pc = .ended) := by
  intro j hj
  rw [hs] at hj ⊢
  obtain ⟨hlt, hj⟩ := h.internalDisconnectFunc j hj
  refine ⟨hlt.trans_le hlen, hj.imp_right fun he u hu => ?_⟩
  obtain ⟨t, htj, htu⟩ := ht j u hlt hu
  exact htu (he t htj)

/-- When the game thread is not waiting, a manager's `Disconnect` is called for a session
that has completed. -/
theorem Tagged.ended {s : Client} (h : Tagged s) (hr : s.ready = true) {j : ℕ}
    (hj : .internalDisconnectFunc j ∈ s.stack) :
    j < s.threads.length ∧ ∀ t : FTCPSocketRunnable, s.threads[j]? = some t → t.pc = .ended := by
  obtain ⟨hlt, hhead | he⟩ := h.internalDisconnectFunc j hj
  · unfold Client.ready at hr
    cases hs : s.stack with
    | nil => rw [hs] at hj; cases hj
    | cons f rest =>
      rw [hs, List.head?_cons, Option.some.injEq] at hhead
      rw [hs, hhead] at hr
      cases hr
  · exact ⟨hlt, he⟩

theorem Tagged.stop {s : Client} (h : Tagged s) (hr : s.ready = true) {k : ℕ}
    (hk : k < s.threads.length) {callers : List Frame}
    (hc : ∀ j, .internalDisconnectFunc j ∈ callers → j = k) : Tagged (s.stop k callers) where
  messageQueue := by
    rw [Client.stop, List.length_modify]
    exact h.messageQueue
  dispatched := by
    rw [Client.stop, List.length_modify]
    exact h.dispatched
  discarded := by
    rw [Client.stop, List.length_modify]
    exact h.discarded
  internalDisconnectFunc := by
    intro j hj
    rw [Client.stop, List.length_modify]
    rcases List.mem_cons.mp hj with hj | hj
    · cases hj
    rcases List.mem_append.mp hj with hj | hj
    · obtain rfl := hc j hj
      exact ⟨hk, .inl rfl⟩
    · obtain ⟨hlt, he⟩ := h.ended hr hj
      refine ⟨hlt, .inr fun u hu => ?_⟩
      obtain ⟨t, ht, rfl⟩ := getElem?_modify_eq_some.mp hu
      split <;> exact he t ht

theorem Tagged.emptyMessageQueue {s : Client} (h : Tagged s) {session : Option ℕ}
    (hk : ∀ j ∈ session, j < s.threads.length) : Tagged (s.emptyMessageQueue session) where
  messageQueue := by simp [Client.emptyMessageQueue]
  dispatched := h.dispatched
  discarded := by
    intro d hd
    rcases List.mem_append.mp hd with hd | hd
    · exact h.discarded d hd
    · obtain ⟨msg, hm, rfl⟩ := List.mem_map.mp hd
      exact ⟨h.messageQueue msg hm, hk⟩
  internalDisconnectFunc := h.internalDisconnectFunc

/-- A callback returns to a caller that a manager's `Disconnect` may be. -/
theorem Tagged.return {s : Client} (h : Tagged s) (hr : s.ready = true) (fs : List Frame)
    {rest : List Frame} (hs : s.stack = fs ++ rest) : Tagged { s with stack := rest } where
  messageQueue := h.messageQueue
  dispatched := h.dispatched
  discarded := h.discarded
  internalDisconnectFunc := by
    intro j hj
    obtain ⟨hlt, he⟩ := h.ended hr (by rw [hs]; exact List.mem_append_right _ hj)
    exact ⟨hlt, .inr he⟩

theorem tagged_step {s s' : Client} {a : Act} (hw : Wf s) (h : Tagged s)
    (hstep : ClientStep s a s') : Tagged s' := by
  have hcur : ∀ k, s.socketRunnablePtr = some k → k < s.threads.length := fun k hk => by
    rw [← hw.current k hk]
    exact Nat.lt_succ_self k
  cases hstep with
  | noConnect | noDisconnect | noSend => exact h
  | @connect peer hr hp =>
    have hlt : ∀ k, k < s.threads.length →
        k < (s.threads ++ [({ session := s.threads.length, peer := peer } :
          FTCPSocketRunnable)]).length := fun k hk => by
      rw [List.length_append]
      exact Nat.lt_add_right 1 hk
    refine ⟨fun msg hm => hlt _ (h.messageQueue msg hm), fun d hd => hlt _ (h.dispatched d hd),
      fun d hd => ⟨hlt _ (h.discarded d hd).1, fun j hj => hlt _ ((h.discarded d hd).2 j hj)⟩,
      h.internalDisconnectFunc_of_threads rfl ?_ fun j u hj hu => ?_⟩
    · rw [List.length_append]
      exact Nat.le_add_right _ _
    · rcases getElem?_concat_eq_some.mp hu with hu | ⟨rfl, -⟩
      · exact ⟨u, hu, id⟩
      · exact absurd hj (lt_irrefl _)
  | disconnect hr hp => exact h.stop hr (hcur _ hp) (by simp)
  | mgrDisconnect hr hp => exact h.stop hr (hcur _ hp) (by simp)
  | mgrEmpty => exact h.emptyMessageQueue (by simp)
  | @join k rest t hs ht he =>
    refine ⟨h.messageQueue, h.dispatched, h.discarded, fun j hj => ?_⟩
    have hj' : .internalDisconnectFunc j ∈ rest := by
      rcases List.mem_cons.mp hj with hj | hj
      · cases hj
      · exact hj
    obtain ⟨hlt, hhead | hend⟩ := h.internalDisconnectFunc j (by
      rw [hs]
      exact List.mem_cons_of_mem _ hj')
    · rw [hs, List.head?_cons, Option.some.injEq, Frame.waitForCompletion.injEq] at hhead
      subst hhead
      refine ⟨hlt, .inr fun u hu => ?_⟩
      rw [show s.threads[k]? = some u from hu, Option.some.injEq] at ht
      rw [ht]
      exact he
    · exact ⟨hlt, .inr hend⟩
  | callbackReturn hs => exact h.return (by rw [Client.ready, hs]) [_] hs
  | @mgrReturn k rest hs =>
    have hr : s.ready = true := by rw [Client.ready, hs]
    refine (h.return hr [_, _] hs).emptyMessageQueue fun j hj => ?_
    rw [Option.mem_some] at hj
    subst hj
    exact (h.ended hr (by rw [hs]; simp)).1
  | send hr hp =>
    refine ⟨?_, ?_, ?_, h.internalDisconnectFunc_of_threads rfl ?_ ?_⟩
    · rw [List.length_modify]
      exact h.messageQueue
    · rw [List.length_modify]
      exact h.dispatched
    · rw [List.length_modify]
      exact h.discarded
    · rw [List.length_modify]
    · intro j u _ hu
      obtain ⟨t, ht, rfl⟩ := getElem?_modify_eq_some.mp hu
      refine ⟨t, ht, fun he => ?_⟩
      split <;> exact he
  | connected hs ht | lateConnectionError hs ht =>
    exact ⟨h.messageQueue, h.dispatched, h.discarded, h.internalDisconnectFunc⟩
  | connectionError hs ht hp =>
    refine Tagged.stop ?_ ?_ ?_ fun j hj => absurd hj List.not_mem_nil
    · exact ⟨h.messageQueue, h.dispatched, h.discarded, h.internalDisconnectFunc⟩
    · simp only [Client.ready, hs]
    · exact hcur _ hp
  | tick hs hq =>
    refine ⟨fun m hm => h.messageQueue m (by rw [hq]; exact List.mem_cons_of_mem _ hm),
      fun d hd => ?_, h.discarded, h.internalDisconnectFunc⟩
    rcases List.mem_append.mp hd with hd | hd
    · exact h.dispatched d hd
    · rw [List.mem_singleton] at hd
      rw [hd]
      exact h.messageQueue _ (by rw [hq]; exact List.mem_cons_self ..)
  | @io k a t t' m' ht hio =>
    obtain ⟨new, hq⟩ := hio.messageQueue_eq
    refine ⟨fun msg hm => ?_, ?_, ?_, h.internalDisconnectFunc_of_threads rfl ?_ ?_⟩
    · rw [List.length_set]
      rcases List.mem_append.mp (hq ▸ hm) with hm | hm
      · exact h.messageQueue msg hm
      · obtain ⟨f, -, rfl⟩ := List.mem_map.mp hm
        rw [hw.session k t ht]
        exact hcur k (hw.live k t ht hio.pc_ne_ended)
    · rw [List.length_set]
      exact h.dispatched
    · rw [List.length_set]
      exact h.discarded
    · rw [List.length_set]
    · intro j u _ hu
      rcases (getElem?_set_eq_some ht).mp hu with ⟨rfl, rfl⟩ | ⟨-, hu⟩
      · exact ⟨t, ht, fun he => absurd he hio.pc_ne_ended⟩
      · exact ⟨u, hu, id⟩

/-! ### A session -/

/-- A session whose thread is `t`: what it has received, and where the frames of the bytes
handed to the decoder are. -/
structure Received (s : Client) (k : ℕ) (t : FTCPSocketRunnable) : Prop where
  /-- The stream: the bytes handed to the decoder, those read and not handed, and those
  still to come. -/
  whole : ∃ read, t.handed ++ read ++ t.incoming = t.peer
  /-- A failed `Recv` and a stop seen have left their marks. -/
  marked : Marked t
  /-- `RecvData`, until the next session empties it. -/
  buffered : k + 1 = s.threads.length → Buffered t s.mem.recvData
  /-- The frames of the handed bytes are dispatched, queued, discarded or still in
  `RecvData`. -/
  frames : payloads k (s.dispatched.map Prod.snd) ++ payloads k s.mem.messageQueue ++
    payloads k (s.discarded.map Prod.snd) ++ undecoded t s.mem.recvData = framing.frames t.handed
  /-- Messages are discarded when the thread has completed, and all of them. -/
  discarded : payloads k (s.discarded.map Prod.snd) ≠ [] →
    payloads k s.mem.messageQueue = [] ∧ t.pc = .ended

/-- Messages of session `k` are discarded by its own `Disconnect` only, or when no session
is current. -/
def OwnDiscards (k : ℕ) (s : Client) : Prop :=
  ∀ d ∈ s.discarded, d.2.session = k → ∀ j ∈ d.1, j = k

/-- The game thread does no more to a thread than stop it and note what it enqueues. -/
structure Same (t u : FTCPSocketRunnable) : Prop where
  pc : u.pc = t.pc
  handed : u.handed = t.handed
  incoming : u.incoming = t.incoming
  peer : u.peer = t.peer
  bConnectionError : u.bConnectionError = t.bConnectionError
  recvFailed : u.recvFailed = t.recvFailed
  stopSeen : u.stopSeen = t.stopSeen
  bManuallyStop : t.bManuallyStop = true → u.bManuallyStop = true

theorem Same.refl (t : FTCPSocketRunnable) : Same t t := ⟨rfl, rfl, rfl, rfl, rfl, rfl, rfl, id⟩

theorem Same.stop (t : FTCPSocketRunnable) : Same t { t with bManuallyStop := true } :=
  ⟨rfl, rfl, rfl, rfl, rfl, rfl, rfl, fun _ => rfl⟩

theorem Same.enqueue (t : FTCPSocketRunnable) (data : Bytes) :
    Same t { t with enqueued := t.enqueued ++ [data] } :=
  ⟨rfl, rfl, rfl, rfl, rfl, rfl, rfl, id⟩

theorem Same.ite {t u : FTCPSocketRunnable} (h : Same t u) {c : Prop} [Decidable c] :
    Same t (if c then u else t) := by
  split
  · exact h
  · exact .refl t

theorem Buffered.same {t u : FTCPSocketRunnable} {recvData : Bytes} (hb : Buffered t recvData)
    (hu : Same t u) : Buffered u recvData := by
  unfold Buffered at hb ⊢
  simp only [hu.pc, hu.handed, hu.incoming, hu.peer, hu.bConnectionError, hu.recvFailed,
    hu.stopSeen]
  exact hb

theorem Marked.same {t u : FTCPSocketRunnable} (hm : Marked t) (hu : Same t u) : Marked u := by
  refine ⟨?_, ?_⟩
  · rw [hu.recvFailed, hu.bConnectionError]
    exact hm.recvFailed
  · rw [hu.stopSeen]
    exact fun h => hu.bManuallyStop (hm.stopSeen h)

/-- A step that moves the messages of a session without losing any, and does not touch its
thread or `RecvData`, keeps `Received`. -/
theorem Received.congr {s s' : Client} {k : ℕ} {t u : FTCPSocketRunnable} (h : Received s k t)
    (hu : Same t u) (hlen : s'.threads.length = s.threads.length)
    (hr : s'.mem.recvData = s.mem.recvData)
    (hq : payloads k (s'.dispatched.map Prod.snd) ++ payloads k s'.mem.messageQueue ++
        payloads k (s'.discarded.map Prod.snd) =
      payloads k (s.dispatched.map Prod.snd) ++ payloads k s.mem.messageQueue ++
        payloads k (s.discarded.map Prod.snd))
    (hd : payloads k (s'.discarded.map Prod.snd) ≠ [] →
      payloads k s'.mem.messageQueue = [] ∧ t.pc = .ended) :
    Received s' k u where
  whole := by
    rw [hu.handed, hu.incoming, hu.peer]
    exact h.whole
  marked := h.marked.same hu
  buffered := by
    rw [hlen, hr]
    exact fun hk => (h.buffered hk).same hu
  frames := by
    rw [hq, hr, hu.handed, undecoded, hu.pc, ← undecoded]
    exact h.frames
  discarded := by
    rw [hu.pc]
    exact hd

/-- `MessageQueue.Empty()`, at a moment when the queue holds no message of the session or
its thread has completed. -/
theorem Received.emptyMessageQueue {s : Client} {k : ℕ} {t : FTCPSocketRunnable}
    (h : Received s k t) (session : Option ℕ)
    (hend : payloads k s.mem.messageQueue ≠ [] → t.pc = .ended) :
    Received (s.emptyMessageQueue session) k t := by
  have hX : payloads k ((s.emptyMessageQueue session).discarded.map Prod.snd) =
      payloads k (s.discarded.map Prod.snd) ++ payloads k s.mem.messageQueue := by
    simp [Client.emptyMessageQueue, Function.comp_def]
  refine h.congr (.refl t) rfl rfl ?_ ?_
  · rw [hX]
    show payloads k (s.dispatched.map Prod.snd) ++ payloads k [] ++ _ = _
    rw [payloads_nil, List.append_nil, List.append_assoc]
    by_cases hX : payloads k (s.discarded.map Prod.snd) = []
    · simp [hX]
    · simp [(h.discarded hX).1]
  · rw [hX]
    refine fun hne => ⟨rfl, ?_⟩
    by_cases hX : payloads k (s.discarded.map Prod.snd) = []
    · rw [hX, List.nil_append] at hne
      exact hend hne
    · exact (h.discarded hX).2

/-- A session that has just been started. -/
theorem Received.start {s : Client} (htag : Tagged s) (m : Shared) (peer : Bytes)
    (hr : m.recvData = []) (hq : m.messageQueue = s.mem.messageQueue) {p : Option ℕ} :
    Received
      { s with
        mem := m
        threads := s.threads ++ [{ session := s.threads.length, peer := peer }]
        socketRunnablePtr := p }
      s.threads.length { session := s.threads.length, peer := peer } := by
  have hD : payloads s.threads.length (s.dispatched.map Prod.snd) = [] := by
    refine payloads_eq_nil fun msg hm => ?_
    obtain ⟨d, hd, rfl⟩ := List.mem_map.mp hm
    exact (htag.dispatched d hd).ne
  have hQ : payloads s.threads.length s.mem.messageQueue = [] :=
    payloads_eq_nil fun msg hm => (htag.messageQueue msg hm).ne
  have hX : payloads s.threads.length (s.discarded.map Prod.snd) = [] := by
    refine payloads_eq_nil fun msg hm => ?_
    obtain ⟨d, hd, rfl⟩ := List.mem_map.mp hm
    exact (htag.discarded d hd).1.ne
  refine ⟨⟨[], rfl⟩, ⟨by simp, by simp⟩, fun _ => ?_, ?_, fun hne => absurd hX hne⟩
  · exact ⟨hr.trans framing_residue_nil.symm, rfl⟩
  · show payloads _ (s.dispatched.map Prod.snd) ++ payloads _ m.messageQueue ++
      payloads _ (s.discarded.map Prod.snd) ++ [] = framing.frames []
    rw [hD, hq, hQ, hX, StreamDecoder.frames_of_none framing_next_nil]
    rfl

/-- A step of its own thread keeps a session `Received`. -/
theorem Received.io {s : Client} {k : ℕ} {t t' : FTCPSocketRunnable} {m' : Shared} {a : IoAct}
    (hw : Wf s) (h : Received s k t) (hlen : t.peer.length < 2 ^ 31) (hok : HeadersOk t.peer)
    (ht : s.threads[k]? = some t) (hio : IoStep t s.mem a t' m') :
    Received { s with threads := s.threads.set k t', mem := m' } k t' := by
  have hk := hw.last_of_io ht hio
  have hb := (h.buffered hk).ioStep hlen hok h.marked hio
  obtain ⟨new, hq, hnew⟩ := (h.buffered hk).messages hlen hok h.marked hio
  have hX : payloads k (s.discarded.map Prod.snd) = [] := by
    by_contra hne
    exact hio.pc_ne_ended (h.discarded hne).2
  have hpay : payloads k m'.messageQueue = payloads k s.mem.messageQueue ++ new := by
    rw [hq, payloads_append, hw.session k t ht, payloads_mk, if_pos rfl]
  refine ⟨hb.whole, h.marked.ioStep hio, fun _ => hb, ?_, fun hne => absurd hX hne⟩
  have hframes := h.frames
  rw [hX, List.append_nil] at hframes
  show payloads k (s.dispatched.map Prod.snd) ++ payloads k m'.messageQueue ++
    payloads k (s.discarded.map Prod.snd) ++ _ = _
  rw [hX, List.append_nil, hpay, ← List.append_assoc]
  exact hnew _ hframes

/-- A session that has completed, and is no longer the last, is left alone. -/
theorem Received.ended {s s' : Client} {k : ℕ} {t : FTCPSocketRunnable} (h : Received s k t)
    (hend : t.pc = .ended) (hk : k + 1 ≠ s'.threads.length)
    (hd : s'.dispatched = s.dispatched) (hx : s'.discarded = s.discarded)
    (hq : payloads k s'.mem.messageQueue = payloads k s.mem.messageQueue) : Received s' k t where
  whole := h.whole
  marked := h.marked
  buffered := fun hl => absurd hl hk
  frames := by
    have hframes := h.frames
    rw [undecoded, hend] at hframes ⊢
    rw [hd, hx, hq]
    exact hframes
  discarded := by
    rw [hx, hq]
    exact h.discarded

/-- **A step keeps a session `Received`.** -/
theorem received_step {a : Act} {s s' : Client} {k : ℕ} {u : FTCPSocketRunnable} (hw : Wf s)
    (htag : Tagged s) (hstep : ClientStep s a s') (hu : s'.threads[k]? = some u)
    (hlen : u.peer.length < 2 ^ 31) (hok : HeadersOk u.peer) (hown : OwnDiscards k s')
    (h : ∀ t : FTCPSocketRunnable, s.threads[k]? = some t → t.peer = u.peer → Received s k t) :
    Received s' k u := by
  cases hstep with
  | noConnect | noDisconnect | noSend => exact h u hu rfl
  | join | callbackReturn | connected | lateConnectionError =>
    have hR := h u hu rfl
    exact hR.congr (.refl u) rfl rfl rfl hR.discarded
  | @connect peer hr hp =>
    rcases getElem?_concat_eq_some.mp hu with hu | ⟨rfl, rfl⟩
    · have hk := (List.getElem?_eq_some_iff.mp hu).1
      refine (h u hu rfl).ended (hw.ended_of_none hp hu).1 ?_ rfl rfl rfl
      rw [List.length_append, List.length_singleton]
      omega
    · exact .start htag { s.mem with sendBuffer := [], recvData := [] } peer rfl rfl
  | disconnect hr hp | mgrDisconnect hr hp | connectionError hs ht hp =>
    obtain ⟨t, ht, rfl⟩ := getElem?_modify_eq_some.mp hu
    have hR := h t ht (Same.stop t).ite.peer.symm
    exact hR.congr (Same.stop t).ite (List.length_modify ..) rfl rfl hR.discarded
  | @send data j hr hp =>
    obtain ⟨t, ht, rfl⟩ := getElem?_modify_eq_some.mp hu
    have hR := h t ht (Same.enqueue t data).ite.peer.symm
    exact hR.congr (Same.enqueue t data).ite (List.length_modify ..) rfl rfl hR.discarded
  | mgrEmpty hr hp =>
    exact (h u hu rfl).emptyMessageQueue none fun _ => (hw.ended_of_none hp hu).1
  | @mgrReturn j rest hs =>
    have hR : Received { s with stack := rest } k u :=
      have hR := h u hu rfl
      hR.congr (.refl u) rfl rfl rfl hR.discarded
    refine hR.emptyMessageQueue (some j) fun hne => ?_
    -- a message of this session is discarded, so it is the session that was disconnected
    have hmsg : ∃ msg ∈ s.mem.messageQueue, msg.session = k := by
      by_contra hno
      exact hne (payloads_eq_nil fun msg hm hk => hno ⟨msg, hm, hk⟩)
    obtain ⟨msg, hm, hk⟩ := hmsg
    obtain rfl := hown (some j, msg)
      (List.mem_append_right _ (List.mem_map.mpr ⟨msg, hm, rfl⟩)) hk j rfl
    exact (htag.ended (by rw [Client.ready, hs]) (by rw [hs]; simp)).2 u hu
  | @tick msg queue hs hq =>
    have hR := h u hu rfl
    have hcons : payloads k s.mem.messageQueue = payloads k [msg] ++ payloads k queue := by
      rw [hq, ← payloads_append, List.singleton_append]
    refine hR.congr (.refl u) rfl rfl ?_ fun hne => ?_
    · simp only [List.map_append, List.map_cons, List.map_nil, payloads_append, hcons,
        List.append_assoc]
    · have := hR.discarded hne
      rw [hcons, List.append_eq_nil_iff] at this
      exact ⟨this.1.2, this.2⟩
  | @io j b t t' m' ht hio =>
    rcases (getElem?_set_eq_some ht).mp hu with ⟨rfl, rfl⟩ | ⟨hne, hu⟩
    · rw [hio.peer_eq] at hlen hok
      exact (h t ht hio.peer_eq.symm).io hw hlen hok ht hio
    · -- the thread of another session is running, so this one has completed
      have hend : u.pc = .ended := by
        by_contra hpc
        exact hne (hw.eq_of_live ht hu hio.pc_ne_ended hpc)
      have hlast := hw.last_of_io ht hio
      obtain ⟨new, hq⟩ := hio.messageQueue_eq
      refine (h u hu rfl).ended hend ?_ rfl rfl ?_
      · rw [List.length_set]
        omega
      · show payloads k m'.messageQueue = _
        rw [hq, payloads_append, hw.session j t ht, payloads_mk, if_neg hne, List.append_nil]

/-- What was discarded stays so. -/
theorem OwnDiscards.of_step {s s' : Client} {a : Act} {k : ℕ} (h : OwnDiscards k s')
    (hstep : ClientStep s a s') : OwnDiscards k s := by
  cases hstep with
  | mgrEmpty | mgrReturn => exact fun d hd => h d (List.mem_append_left _ hd)
  | _ => exact h

/-- **In every run**, what a session has received and where its frames are. -/
theorem received_run {as : List Act} {s : Client} (h : run Client.step {} as = some s) {k : ℕ}
    {t : FTCPSocketRunnable} (ht : s.threads[k]? = some t) (hlen : t.peer.length < 2 ^ 31)
    (hok : HeadersOk t.peer) (hown : OwnDiscards k s) : Received s k t := by
  let I (s : Client) : Prop := Tagged s ∧
    ∀ t : FTCPSocketRunnable, s.threads[k]? = some t → t.peer.length < 2 ^ 31 →
      HeadersOk t.peer → OwnDiscards k s → Received s k t
  have hI : I s := by
    refine invariant_run ⟨tagged_start, by simp⟩ ?_ h
    intro s a s' hw ⟨htag, hR⟩ hstep
    refine ⟨tagged_step hw htag hstep, fun u hu hlen hok hown => ?_⟩
    refine received_step hw htag hstep hu hlen hok hown fun t ht hp => hR t ht ?_ ?_ ?_
    · rw [hp]
      exact hlen
    · rw [hp]
      exact hok
    · exact hown.of_step hstep
  exact hI.2 t ht hlen hok hown

theorem tagged_run {as : List Act} {s : Client} (h : run Client.step {} as = some s) : Tagged s :=
  invariant_run tagged_start (fun _ _ _ hw hs hstep => tagged_step hw hs hstep) h

/-! ### One session -/

section

variable {s : Client} {t : FTCPSocketRunnable}

/-- With one session, every message is of it. -/
theorem Tagged.payloads_eq (h : Tagged s) (hone : s.threads.length ≤ 1) :
    payloads 0 (s.dispatched.map Prod.snd) = s.dispatched.map (·.2.data) ∧
    payloads 0 s.mem.messageQueue = s.mem.messageQueue.map Message.data ∧
    payloads 0 (s.discarded.map Prod.snd) = s.discarded.map (·.2.data) := by
  refine ⟨?_, payloads_eq_map fun msg hm => ?_, ?_⟩
  · rw [payloads_eq_map fun msg hm => ?_, List.map_map]
    · rfl
    · obtain ⟨d, hd, rfl⟩ := List.mem_map.mp hm
      have := h.dispatched d hd
      omega
  · have := h.messageQueue msg hm
    omega
  · rw [payloads_eq_map fun msg hm => ?_, List.map_map]
    · rfl
    · obtain ⟨d, hd, rfl⟩ := List.mem_map.mp hm
      have := (h.discarded d hd).1
      omega

theorem Tagged.ownDiscards (h : Tagged s) (hone : s.threads.length ≤ 1) : OwnDiscards 0 s := by
  intro d hd _ j hj
  have := (h.discarded d hd).2 j hj
  omega

/-- A tick finds a message on the queue, so nothing was discarded before it. -/
theorem discarded_of_tick {s' : Client} (htag : Tagged s) (hR : Received s 0 t)
    (hone : s.threads.length ≤ 1) (hstep : ClientStep s .tick s') : s'.discarded = [] := by
  cases hstep with
  | @tick msg queue hs hq =>
    show s.discarded = []
    obtain ⟨-, hQ, hX⟩ := htag.payloads_eq hone
    by_contra hne
    have hempty := (hR.discarded (by rw [hX]; simpa using hne)).1
    rw [hQ, hq] at hempty
    cases hempty

/-- The decode callback is not in the middle of a chunk, and no chunk is being read. -/
def BetweenReceives (pc : Pc) : Prop :=
  (∀ o p n, pc ≠ .receiving o p n) ∧ (∀ o, pc ≠ .received o) ∧ pc ≠ .decoding

/-- Between receives, when no `Recv` failed and no stop was seen before the callback,
`RecvData` holds the residue of the bytes handed to it, which are all that have arrived. -/
theorem Buffered.between {recvData : Bytes} (hb : Buffered t recvData) (hpc : BetweenReceives t.pc)
    (hf : t.recvFailed = false) (hs : t.stopSeen = false) :
    recvData = framing.residue t.handed ∧ t.handed ++ t.incoming = t.peer := by
  unfold Buffered at hb
  split at hb
  case h_1 h => exact absurd h (hpc.1 _ _ _)
  case h_2 h => exact absurd h (hpc.2.1 _)
  case h_3 h => exact absurd h hpc.2.2
  case h_4 => exact hb.elim
  case h_5 | h_6 | h_7 => exact hb.resolve_right fun hb => by simp [hf, hs] at hb
  case h_8 => exact hb.2
  all_goals exact hb

end

/-- **The receive path of one session**, whatever the chunks, the pieces in which they are
read, the point at which a `Recv` fails or a stop is seen, and the moments of the ticks.
The messages dispatched are a prefix of the frames of the stream decoded in one piece.
When the queue is empty outside the decode callback they are the frames of the bytes handed
to the decoder (`InternalDisconnectFunc` may have emptied the queue, but not before the last
tick). Between receives, when no `Recv` failed and no stop was seen before the callback,
`RecvData` is what that decoding leaves, and all that has arrived has been handed. -/
theorem dispatched_run {as : List Act} {s : Client} {t : FTCPSocketRunnable}
    (h : run Client.step {} as = some s) (hone : s.threads = [t]) (hlen : t.peer.length < 2 ^ 31)
    (hok : HeadersOk t.peer) :
    ∃ fs left fs' left', decoder t.peer = some (fs, left) ∧ decoder t.handed = some (fs', left') ∧
      s.dispatched.map (·.2.data) <+: fs ∧
      (s.mem.messageQueue = [] → t.pc ≠ .decoding → s.discarded = [] →
        s.dispatched.map (·.2.data) = fs') ∧
      (as.getLast? = some .tick → s.discarded = []) ∧
      (BetweenReceives t.pc → t.recvFailed = false → t.stopSeen = false →
        s.mem.recvData = left' ∧ t.handed ++ t.incoming = t.peer) := by
  have htag := tagged_run h
  have hlen1 : s.threads.length = 1 := by rw [hone, List.length_singleton]
  have hR := received_run h (k := 0) (by rw [hone]; rfl) hlen hok (htag.ownDiscards hlen1.le)
  obtain ⟨hD, hQ, hX⟩ := htag.payloads_eq hlen1.le
  have hframes := hR.frames
  rw [hD, hQ, hX] at hframes
  obtain ⟨read, hwhole⟩ := hR.whole
  have hpre : t.handed <+: t.peer := ⟨read ++ t.incoming, by rw [← hwhole, List.append_assoc]⟩
  have hb := hR.buffered (by rw [hlen1])
  refine ⟨_, _, _, _, decoder_eq hlen hok,
    decoder_eq (hpre.length_le.trans_lt hlen) (hok.of_prefix hpre), ?_, ?_, ?_, ?_⟩
  · refine List.IsPrefix.trans ?_ (framing.frames_prefix hpre)
    rw [← hframes, List.append_assoc, List.append_assoc]
    exact List.prefix_append _ _
  · intro hq hpc hd
    rw [hq, hd, undecoded, if_neg hpc] at hframes
    simpa only [List.map_nil, List.append_nil] using hframes
  · intro hlast
    obtain ⟨as', rfl⟩ := List.getLast?_eq_some_iff.mp hlast
    obtain ⟨m, hm, ha⟩ := (run_concat _).mp h
    have hstep := ClientStep.of_step ha
    have hm1 : m.threads = [t] := by
      cases hstep
      exact hone
    have hmlen : m.threads.length ≤ 1 := by rw [hm1, List.length_singleton]
    have hmtag := tagged_run hm
    have hmR := received_run hm (k := 0) (by rw [hm1]; rfl) hlen hok (hmtag.ownDiscards hmlen)
    exact discarded_of_tick hmtag hmR hmlen hstep
  · exact fun hpc hf hs => hb.between hpc hf hs

/-- The IO thread of a session connects, has nothing to send, and hands a chunk of `n` bytes
to the decoder. -/
def receiveChunk (k n : ℕ) : List Act :=
  [.io k (.init true true true), .io k (.loopTest true), .io k .sendTest, .io k .peek,
    .io k .sendDone, .io k (.hasPendingData (some (.ofNat n))), .io k (.recv (some n)),
    .io k .received]

/-- A frame and the beginning of the next arrive in one chunk, which is read in two pieces;
the frame is dispatched. -/
def oneChunk : List Act :=
  [.connect [1, 0, 0, 0, 7, 2, 0], .io 0 (.init true true true), .io 0 (.loopTest true),
    .io 0 .sendTest, .io 0 .peek, .io 0 .sendDone, .io 0 (.hasPendingData (some 7)),
    .io 0 (.recv (some 3)), .io 0 (.recv (some 4)), .io 0 .received, .io 0 .decode,
    .io 0 .decode, .runTask, .tick]

/-- What `dispatched_run` says of it. -/
theorem dispatched_run_oneChunk :
    ∃ s t, run Client.step {} oneChunk = some s ∧ s.threads = [t] ∧ t.peer.length < 2 ^ 31 ∧
      HeadersOk t.peer ∧
      ∃ fs left fs' left', decoder t.peer = some (fs, left) ∧
        decoder t.handed = some (fs', left') ∧ s.dispatched.map (·.2.data) <+: fs ∧
        (s.mem.messageQueue = [] → t.pc ≠ .decoding → s.discarded = [] →
          s.dispatched.map (·.2.data) = fs') ∧
        (oneChunk.getLast? = some .tick → s.discarded = []) ∧
        (BetweenReceives t.pc → t.recvFailed = false → t.stopSeen = false →
          s.mem.recvData = left' ∧ t.handed ++ t.incoming = t.peer) := by
  have hrun : (run Client.step {} oneChunk).map (fun s => s.threads.map (·.peer)) =
      some [[1, 0, 0, 0, 7, 2, 0]] := by decide
  obtain ⟨s, hs, hp⟩ := Option.map_eq_some_iff.mp hrun
  obtain ⟨t, ht, hpeer⟩ := List.map_eq_singleton_iff.mp hp
  have hlen : t.peer.length < 2 ^ 31 := by rw [hpeer]; decide
  have hok : HeadersOk t.peer := by
    rw [hpeer]
    exact .of_some (f := [7]) (r := [2, 0]) (by decide) (by decide)
      (.of_none (by decide) (by decide))
  exact ⟨s, t, hs, ht, hlen, hok, dispatched_run hs ht hlen hok⟩

end ThirdPersonMP.Network
