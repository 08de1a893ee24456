import ThirdPersonMP.Network.Arrival

/-!
# Bytes on their way

What the socket of a session has delivered is on `MessageQueue`, dispatched, or still in
`RecvData`; what was passed to `FTCPSocket::Send` has been accepted by the socket, or is still
in `SendBuffer`. Of its stream a session can only read what has arrived.

* `Buffered.consumed_eq` — the bytes delivered are the frames enqueued, and what is held.
* `Sent.accepted_append` — the bytes passed to `Send` are those accepted, and what is unsent.
* `upTo`, `Fed` — a session of whose stream the first `n` bytes have arrived;
  `exists_prompt` — it has a next step, `IoStep.arrival_upTo_lt` — and comes nearer to their
  end.
* `Decoded` — the frames of a part of the stream have been enqueued.
-/

namespace ThirdPersonMP.Network

open Base Library

namespace FTCPSocketRunnable

variable (t : FTCPSocketRunnable)

/-- What has been read and is not enqueued: `RecvData`, but for the end of a chunk that `Recv`
has still to fill. -/
def held (recvData : Bytes) : Bytes :=
  match t.pc with
  | .receiving originalNum _ bytesReadTotal => recvData.take (originalNum + bytesReadTotal)
  | _ => recvData

/-- What was passed to `Send` and is not accepted: `SendBuffer`, but for the first
`SendedCount` bytes. -/
def unsent (sendBuffer : List Bytes) : Bytes :=
  sendBuffer.flatten.drop ((sendedCount t.pc).getD 0)

variable {t}

/-- What has been read, when it is known which bytes were handed to the decoder. -/
theorem consumed_eq (read : Bytes) (h : t.handed ++ read ++ t.incoming = t.peer) :
    t.consumed = t.handed ++ read := by
  rw [consumed, ← h]
  refine List.take_left' ?_
  simp only [List.length_append]
  omega

theorem length_consumed_add (h : t.incoming.length ≤ t.peer.length) :
    t.consumed.length + t.incoming.length = t.peer.length := by
  rw [consumed, List.length_take]
  omega

end FTCPSocketRunnable

section

variable {t : FTCPSocketRunnable} {recvData : Bytes} {enqueued : List Bytes}

/-- Between receives `RecvData` is what the decoder has left. -/
theorem consumed_of_residue (hr : recvData = framing.residue t.handed)
    (hpeer : t.handed ++ t.incoming = t.peer) (hframes : enqueued = framing.frames t.handed) :
    enqueued.flatMap encoder ++ recvData = t.consumed := by
  rw [FTCPSocketRunnable.consumed_eq [] (by rw [List.append_nil]; exact hpeer),
    List.append_nil, hr, hframes, flatMap_encoder_frames]

/-- Of a chunk that is being read the part that is there has been consumed too. -/
theorem consumed_of_read {read : Bytes} (hpeer : t.handed ++ read ++ t.incoming = t.peer)
    (hframes : enqueued = framing.frames t.handed) :
    enqueued.flatMap encoder ++ (framing.residue t.handed ++ read) = t.consumed := by
  rw [FTCPSocketRunnable.consumed_eq read hpeer, hframes, ← List.append_assoc,
    flatMap_encoder_frames]

/-- **What the socket has delivered**, when no `Recv` failed and no stop was seen before the
decode callback: the frames enqueued, and what is held. -/
theorem Buffered.consumed_eq (hb : Buffered t recvData) (hf : t.recvFailed = false)
    (hs : t.stopSeen = false)
    (hframes : enqueued ++ undecoded t recvData = framing.frames t.handed) :
    enqueued.flatMap encoder ++ t.held recvData = t.consumed := by
  -- but for the three statements of a receive, `RecvData` is the residue
  have hrest : BetweenReceives t.pc → t.held recvData = recvData →
      enqueued.flatMap encoder ++ t.held recvData = t.consumed := by
    intro hpc hheld
    obtain ⟨hr, hpeer⟩ := hb.between hpc hf hs
    rw [undecoded, if_neg hpc.2.2, List.append_nil] at hframes
    rw [hheld]
    exact consumed_of_residue hr hpeer hframes
  cases hpc : t.pc with
  | receiving originalNum pendingDataSize bytesReadTotal =>
    simp only [Buffered, hpc] at hb
    obtain ⟨-, read, rfl, rfl, hr, -, hpeer⟩ := hb
    rw [undecoded, if_neg (by rw [hpc]; exact Pc.noConfusion), List.append_nil] at hframes
    have hheld : t.held recvData = framing.residue t.handed ++ read := by
      simp only [FTCPSocketRunnable.held, hpc]
      rw [hr]
      exact List.take_left' (by rw [List.length_append])
    rw [hheld]
    exact consumed_of_read hpeer hframes
  | received originalNum =>
    simp only [Buffered, hpc] at hb
    obtain ⟨read, hpeer, hfailed | ⟨-, -, hr⟩⟩ := hb
    · rw [hf] at hfailed
      cases hfailed
    · rw [undecoded, if_neg (by rw [hpc]; exact Pc.noConfusion), List.append_nil] at hframes
      have hheld : t.held recvData = recvData := by simp only [FTCPSocketRunnable.held, hpc]
      rw [hheld, hr]
      exact consumed_of_read hpeer hframes
  | decoding =>
    simp only [Buffered, hpc] at hb
    obtain ⟨hreach, hpeer⟩ := hb
    rw [undecoded, if_pos hpc] at hframes
    have hheld : t.held recvData = recvData := by simp only [FTCPSocketRunnable.held, hpc]
    calc enqueued.flatMap encoder ++ t.held recvData
        = enqueued.flatMap encoder ++ ((framing.frames recvData).flatMap encoder ++
            framing.residue t.handed) := by
          rw [hheld, ← hreach.residue_eq, flatMap_encoder_frames]
      _ = (enqueued ++ framing.frames recvData).flatMap encoder ++ framing.residue t.handed := by
          rw [List.flatMap_append, List.append_assoc]
      _ = t.consumed := consumed_of_residue rfl hpeer hframes
  | fault =>
    rw [Buffered, hpc] at hb
    exact hb.elim
  | _ =>
    refine hrest ?_ (by simp only [FTCPSocketRunnable.held, hpc])
    rw [hpc]
    exact ⟨fun _ _ _ => Pc.noConfusion, fun _ => Pc.noConfusion, Pc.noConfusion⟩

end

/-- **What was passed to `Send`** in the current session, when no call has failed: the bytes
that the socket has accepted, and what is unsent. -/
theorem Sent.accepted_append {s : Client} {k : ℕ} {t : FTCPSocketRunnable} (h : Sent s k t)
    (hcurrent : s.socketRunnablePtr = some k) (herr : t.bConnectionError = false) :
    t.accepted ++ t.unsent s.mem.sendBuffer = t.enqueued.flatten := by
  obtain ⟨henqueued, hacc⟩ := h.current hcurrent
  obtain ⟨n, hn, hcount, haccepted⟩ := hacc.exists
  rw [FTCPSocketRunnable.unsent, ← hcount (.inl herr), haccepted, henqueued, List.flatten_append,
    List.append_assoc, List.append_cancel_left_eq]
  cases hqueue : s.mem.sendBuffer with
  | nil => rw [headBytes, List.head?_nil, Option.getD_none, List.take_nil]; exact List.drop_nil
  | cons buffer rest =>
    rw [hqueue] at hn
    replace hn : n ≤ buffer.length := hn
    rw [headBytes, List.head?_cons, Option.getD_some, List.flatten_cons,
      List.drop_append_of_le_length hn, ← List.append_assoc, List.take_append_drop]

/-- A thread after a step: it has taken a step itself, or has been stopped, given an array or
left alone, or has just been started. -/
theorem ClientStep.thread_cases {s s' : Client} {a : Act} (h : ClientStep s a s') {k : ℕ}
    {u : FTCPSocketRunnable} (hu : s'.threads[k]? = some u) :
    (∃ t b, s.threads[k]? = some t ∧ a = .io k b ∧ IoStep t s.mem b u s'.mem) ∨
      (∃ t, s.threads[k]? = some t ∧ Same t u) ∨ u.pc = .init := by
  cases h with
  | connect hr hp =>
    rcases getElem?_concat_eq_some.mp hu with hu | ⟨-, rfl⟩
    · exact .inr (.inl ⟨u, hu, .refl u⟩)
    · exact .inr (.inr rfl)
  | disconnect hr hp | mgrDisconnect hr hp | connectionError hs ht hp =>
    obtain ⟨t, ht, rfl⟩ := getElem?_modify_eq_some.mp hu
    exact .inr (.inl ⟨t, ht, (Same.stop t).ite⟩)
  | @send data j hr hp =>
    obtain ⟨t, ht, rfl⟩ := getElem?_modify_eq_some.mp hu
    exact .inr (.inl ⟨t, ht, (Same.enqueue t data).ite⟩)
  | @io j b t t' m' ht hio =>
    rcases (getElem?_set_eq_some ht).mp hu with ⟨rfl, rfl⟩ | ⟨-, hu⟩
    · exact .inl ⟨t, b, ht, rfl, hio⟩
    · exact .inr (.inl ⟨u, hu, .refl u⟩)
  | _ => exact .inr (.inl ⟨u, hu, .refl u⟩)

/-! ### A part of a stream -/

namespace FTCPSocketRunnable

/-- The thread, as if the stream ended after `n` bytes. -/
def upTo (t : FTCPSocketRunnable) (n : ℕ) : FTCPSocketRunnable :=
  { t with incoming := t.incoming.take (n - t.consumed.length) }

/-- The chunk that is being read is among the first `n` bytes. -/
def Fed (t : FTCPSocketRunnable) (n : ℕ) : Prop :=
  ∀ o p c, t.pc = .receiving o p c → t.consumed.length + p ≤ n + c

/-- `HasPendingData` announces no more than what the first `n` bytes leave. -/
def Announced (t : FTCPSocketRunnable) (n : ℕ) : IoAct → Prop
  | .hasPendingData (some pendingDataSize) => t.consumed.length + pendingDataSize.toNat ≤ n
  | _ => True

/-- `HasPendingData` announces something until the first `n` bytes are read. -/
def Prompt (t : FTCPSocketRunnable) (n : ℕ) : IoAct → Prop
  | .hasPendingData none => n ≤ t.consumed.length
  | .hasPendingData (some pendingDataSize) => 0 < pendingDataSize.toNat
  | _ => True

instance (t : FTCPSocketRunnable) (n : ℕ) : ∀ a, Decidable (t.Announced n a)
  | .hasPendingData (some _) => Nat.decLe _ _
  | .hasPendingData none | .init _ _ _ | .loopTest _ | .sendTest | .peek | .send _ | .pop
  | .sendDone | .recv _ | .received | .decode | .recvDone | .exit =>
    inferInstanceAs (Decidable True)

instance (t : FTCPSocketRunnable) (n : ℕ) : ∀ a, Decidable (t.Prompt n a)
  | .hasPendingData none => Nat.decLe _ _
  | .hasPendingData (some _) => Nat.decLt _ _
  | .init _ _ _ | .loopTest _ | .sendTest | .peek | .send _ | .pop | .sendDone | .recv _
  | .received | .decode | .recvDone | .exit => inferInstanceAs (Decidable True)

variable {t : FTCPSocketRunnable} {n : ℕ}

theorem Fed.mono {n' : ℕ} (h : t.Fed n) (hn : n ≤ n') : t.Fed n' := by
  intro o p c hpc
  have := h o p c hpc
  omega

/-- A step of the game thread. -/
theorem Fed.same {u : FTCPSocketRunnable} (h : t.Fed n) (hu : Same t u) : u.Fed n := by
  intro o p c hpc
  rw [consumed, hu.peer, hu.incoming]
  exact h o p c (hu.pc ▸ hpc)

end FTCPSocketRunnable

section

variable {t t' : FTCPSocketRunnable} {m m' : Shared} {a : IoAct} {n : ℕ}

/-- `Recv` takes what it delivers off the stream. -/
theorem length_consumed_drop (h : t.incoming.length ≤ t.peer.length) {k : ℕ}
    (hk : k ≤ t.incoming.length) :
    ({ t with incoming := t.incoming.drop k } : FTCPSocketRunnable).consumed.length =
      t.consumed.length + k := by
  simp only [FTCPSocketRunnable.consumed, List.length_take, List.length_drop]
  omega

/-- What is announced is there, so the chunk that is read is. -/
theorem FTCPSocketRunnable.Fed.ioStep (h : t.Fed n) (hin : t.incoming.length ≤ t.peer.length)
    (hio : IoStep t m a t' m') (hpending : t.Announced n a) : t'.Fed n := by
  intro o p c hpc
  cases hio with
  | hasPendingData _ hle =>
    rw [Pc.receiving.injEq] at hpc
    obtain ⟨-, rfl, rfl⟩ := hpc
    exact hpending
  | @recv o' p' c' k recvData hpc' hk hi =>
    have hfed := h o' p' c' hpc'
    have hlen := length_consumed_drop hin hi
    simp only [FTCPSocketRunnable.recvMore] at hpc
    split at hpc
    · rw [Pc.receiving.injEq] at hpc
      obtain ⟨-, rfl, rfl⟩ := hpc
      have hconsumed : (t.recvMore o' p' c' k).consumed.length = t.consumed.length + k := hlen
      omega
    · cases hpc
  | decodeFrame hpc' => exact h o p c hpc
  | loopTest | sendTest | sendDone | recvDone | send =>
    simp only [FTCPSocketRunnable.sendMore] at hpc
    split_ifs at hpc
  | _ => cases hpc

/-- A step of the thread is a step of it as if the stream ended after `n` bytes, when it reads
no more. -/
theorem IoStep.upTo (h : IoStep t m a t' m') (hin : t.incoming.length ≤ t.peer.length)
    (hpending : t.Announced n a) (hread : t'.consumed.length ≤ n) (hfault : t'.pc ≠ .fault) :
    IoStep (t.upTo n) m a (t'.upTo n) m' := by
  cases h with
  | noSocket hpc => exact .noSocket hpc
  | noHost hpc => exact .noHost hpc
  | refused hpc => exact .refused hpc
  | connected hpc => exact .connected hpc
  | loopTest hpc => exact .loopTest hpc
  | sendTest hpc => exact .sendTest hpc
  | peek hpc hb => exact .peek hpc hb
  | peekEmpty hpc hb => exact .peekEmpty hpc hb
  | sendFail hpc => exact .sendFail hpc
  | send hpc hk => exact .send hpc hk
  | pop hpc he => exact .pop hpc he
  | noPop hpc he => exact .noPop hpc he
  | sendDone hpc => exact .sendDone hpc
  | noPendingData hpc => exact .noPendingData hpc
  | hasPendingData hpc hp hs =>
    replace hpending : t.consumed.length + _ ≤ n := hpending
    refine .hasPendingData hpc ?_ hs
    simp only [FTCPSocketRunnable.upTo, List.length_take]
    omega
  | recvFail hpc => exact .recvFail hpc
  | @recv o p c k recvData hpc hk hi hw =>
    have hlen : (t.recvMore o p c k).consumed.length = t.consumed.length + k :=
      length_consumed_drop hin hi
    rw [hlen] at hread
    have htake : (t.upTo n).incoming.take k = t.incoming.take k := by
      rw [FTCPSocketRunnable.upTo, List.take_take, Nat.min_eq_left (by omega)]
    have hnext : (t.recvMore o p c k).upTo n = (t.upTo n).recvMore o p c k := by
      rw [FTCPSocketRunnable.upTo, hlen]
      simp only [FTCPSocketRunnable.recvMore, FTCPSocketRunnable.upTo, List.drop_take, Nat.sub_sub]
    rw [hnext]
    refine .recv hpc hk ?_ (htake.symm ▸ hw)
    simp only [FTCPSocketRunnable.upTo, List.length_take]
    omega
  | hand hpc hs he => exact .hand hpc hs he
  | noHand hpc hse => exact .noHand hpc hse
  | decodeDone hpc hi => exact .decodeDone hpc hi
  | decodeFrame hpc hi => exact .decodeFrame hpc hi
  | setNumFault | writeFault | decodeFault => exact absurd rfl hfault
  | recvDone hpc => exact .recvDone hpc
  | report hpc hp he hs => exact .report hpc hp he hs
  | exit hpc he => exact .exit hpc he

/-- It reads no more than what was announced, and so no more than the first `n` bytes. -/
theorem IoStep.length_consumed_le (h : IoStep t m a t' m')
    (hin : t.incoming.length ≤ t.peer.length) (hfed : t.Fed n) (hn : t.consumed.length ≤ n) :
    t'.consumed.length ≤ n := by
  cases h with
  | @recv o p c k recvData hpc hk hi =>
    have hpending := hfed o p c hpc
    have hlen : (t.recvMore o p c k).consumed.length = t.consumed.length + k :=
      length_consumed_drop hin hi
    omega
  | _ => exact hn

theorem Live.upTo (h : Live t) : Live (t.upTo n) := ⟨h.1, h.2, h.3, h.4⟩

theorem Looping.upTo (h : Looping t) (hfed : t.Fed n) : Looping (t.upTo n) := by
  refine ⟨h.socketPtr, fun o p c hpc => ?_⟩
  have hpending := h.pending o p c hpc
  have := hfed o p c hpc
  simp only [FTCPSocketRunnable.upTo, List.length_take]
  omega

/-- More of the stream has arrived. -/
theorem arrival_upTo_le {n' : ℕ} (hn : n ≤ n') :
    arrival (t.upTo n') m ≤ arrival (t.upTo n) m + 12 * (n' - n) := by
  unfold arrival
  simp only [FTCPSocketRunnable.upTo, List.length_take]
  split <;> omega

/-- **A step of a thread that has still to receive** something of the first `n` bytes lowers the
bound. -/
theorem IoStep.arrival_upTo_lt (h : IoStep t m a t' m') (hlive : Live t) (hl : Looping t)
    (hfed : t.Fed n) (hin : t.incoming.length ≤ t.peer.length) (ha : Succeeds a)
    (hp : Progress t a) (hpending : t.Announced n a) (hprompt : t.Prompt n a)
    (hacc : Accepted t m.sendBuffer) (hlt : m.recvData.length < 2 ^ 31)
    (hn : t.consumed.length ≤ n) (hfault : t'.pc ≠ .fault) (hne : ¬ Emptied (t.upTo n)) :
    arrival (t'.upTo n) m' < arrival (t.upTo n) m := by
  have harr : Arrived (t.upTo n) a := by
    cases a with
    | hasPendingData p =>
      cases p with
      | none =>
        have hle : n ≤ t.consumed.length := hprompt
        show t.incoming.take (n - t.consumed.length) = []
        rw [Nat.sub_eq_zero_of_le hle, List.take_zero]
      | some p => exact hprompt
    | _ => trivial
  exact (h.upTo hin hpending (h.length_consumed_le hin hfed hn) hfault).arrival_lt hlive.upTo
    (hl.upTo hfed) ha hp harr (hacc.congr rfl rfl rfl rfl) hlt hfault hne

/-- A live thread has a next step. -/
theorem exists_prompt (hlive : Live t) (hl : Looping t) (hfed : t.Fed n)
    (hpeer : t.consumed.length + t.incoming.length = t.peer.length) (hn : t.consumed.length ≤ n)
    (hle : n ≤ t.peer.length) (hfault : t.pc ≠ .fault) :
    ∃ a t' m', Succeeds a ∧ Progress t a ∧ t.Announced n a ∧ t.Prompt n a ∧
      ioStep t m a = some (t', m') ∧ t'.consumed.length ≤ n := by
  by_cases hpc : t.pc = .recvTest
  · by_cases hall : n ≤ t.consumed.length
    · refine ⟨.hasPendingData none, { t with pc := .recvDone }, m, trivial, trivial, trivial, hall,
        ?_, hn⟩
      unfold ioStep
      simp only [hpc]
    · -- one byte is announced
      have hpos : UInt32.toNat 1 ≤ t.incoming.length := by
        show 1 ≤ t.incoming.length
        omega
      have hsome : (ioStep t m (.hasPendingData (some 1))).isSome = true := by
        unfold ioStep
        simp only [hpc]
        rw [if_pos hpos]
        split <;> rfl
      obtain ⟨⟨t', m'⟩, hio⟩ := Option.isSome_iff_exists.mp hsome
      refine ⟨.hasPendingData (some 1), t', m', trivial, trivial, ?_, Nat.one_pos, hio,
        (IoStep.of_ioStep hio).length_consumed_le (by omega) hfed hn⟩
      show t.consumed.length + 1 ≤ n
      omega
  · obtain ⟨a, ha, hp, hsome⟩ := exists_succeeds (m := m) hlive hl hfault
    obtain ⟨⟨t', m'⟩, hio⟩ := Option.isSome_iff_exists.mp hsome
    have hstep := IoStep.of_ioStep hio
    have hannounced : t.Announced n a ∧ t.Prompt n a := by
      cases hstep with
      | noPendingData h | hasPendingData h | setNumFault h => exact absurd h hpc
      | _ => exact ⟨trivial, trivial⟩
    exact ⟨a, t', m', ha, hp, hannounced.1, hannounced.2, hio,
      hstep.length_consumed_le (by omega) hfed hn⟩

/-! ### Its frames -/

/-- The frames of `first` have been enqueued. -/
def Decoded (first : Bytes) (t : FTCPSocketRunnable) (recvData : Bytes) : Prop :=
  ∃ enqueued, enqueued ++ undecoded t recvData = framing.frames t.handed ∧
    framing.frames first <+: enqueued

/-- They stay so. -/
theorem Decoded.ioStep {first : Bytes} (h : Decoded first t m.recvData)
    (hlen : t.peer.length < 2 ^ 31) (hok : HeadersOk t.peer) (hm : Marked t)
    (hb : Buffered t m.recvData) (hio : IoStep t m a t' m') : Decoded first t' m'.recvData := by
  obtain ⟨enqueued, hframes, hfirst⟩ := h
  obtain ⟨new, -, hnew⟩ := hb.messages hlen hok hm hio
  exact ⟨enqueued ++ new, hnew enqueued hframes, hfirst.trans (List.prefix_append _ _)⟩

/-- When the bytes up to them have been read, and no chunk is being read or decoded, they
have. -/
theorem Buffered.decoded {first recvData : Bytes} (hb : Buffered t recvData)
    (hf : t.recvFailed = false) (hs : t.stopSeen = false) (hpc : t.pc.receives = false)
    (hfirst : first <+: t.consumed) : Decoded first t recvData := by
  have hbetween := betweenReceives_of_receives hpc
  obtain ⟨-, hpeer⟩ := hb.between hbetween hf hs
  refine ⟨framing.frames t.handed, ?_, framing.frames_prefix ?_⟩
  · rw [undecoded, if_neg hbetween.2.2, List.append_nil]
  · rwa [FTCPSocketRunnable.consumed_eq [] (by rw [List.append_nil]; exact hpeer),
      List.append_nil] at hfirst

end

end ThirdPersonMP.Network
