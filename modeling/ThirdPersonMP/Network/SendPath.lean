import ThirdPersonMP.Network.TcpSocket

/-!
# The send path

The game thread appends arrays to `SendBuffer`; the IO thread offers the head to the
socket, from the byte where the last `FSocket::Send` stopped, and pops it when all its
bytes were accepted (`TcpSocketRunnable.cpp`, 68–93). A send may accept any number of
bytes or fail, and the game thread may go on enqueuing, stop the thread and reconnect at
any point.

* `Accepted` — the bytes the socket has accepted, by the next statement of the thread, in
  terms of the arrays popped and the head of `SendBuffer`.
* `Sent` — that, and what is enqueued and popped, for a session of the whole client; kept
  by every step (`sent_step`).
* `accepted_run` — what holds in every run.
-/

namespace ThirdPersonMP.Network

open Base Library

/-! ### The IO thread -/

/-- `SendedCount`, while it is in scope. -/
def sendedCount : Pc → Option ℕ
  | .sending _ n | .sent _ n => some n
  | _ => none

/-- The head of `SendBuffer`; nothing, when it is empty. -/
def headBytes (sendBuffer : List Bytes) : Bytes := sendBuffer.head?.getD []

/-- What the socket has accepted, by the next statement of the thread. -/
def Accepted (t : FTCPSocketRunnable) (sendBuffer : List Bytes) : Prop :=
  match t.pc with
  | .peek => t.bConnectionError = false ∧ t.accepted = t.popped.flatten
  | .sending buffer n =>
    t.bConnectionError = false ∧ sendBuffer.head? = some buffer ∧ n ≤ buffer.length ∧
      t.accepted = t.popped.flatten ++ buffer.take n
  | .sent buffer n =>
    sendBuffer.head? = some buffer ∧ n ≤ buffer.length ∧
      (t.bConnectionError = false → n = buffer.length) ∧
      t.accepted = t.popped.flatten ++ buffer.take n
  | _ =>
    ∃ n, n ≤ (headBytes sendBuffer).length ∧ (t.bConnectionError = false → n = 0) ∧
      t.accepted = t.popped.flatten ++ (headBytes sendBuffer).take n

section

variable {t t' : FTCPSocketRunnable} {m m' : Shared} {a : IoAct}

/-- At every statement: the arrays popped, and a part of the head. -/
theorem Accepted.exists {sendBuffer : List Bytes} (h : Accepted t sendBuffer) :
    ∃ n, n ≤ (headBytes sendBuffer).length ∧
      (t.bConnectionError = false ∨ sendedCount t.pc ≠ none → n = (sendedCount t.pc).getD 0) ∧
      t.accepted = t.popped.flatten ++ (headBytes sendBuffer).take n := by
  unfold Accepted at h
  split at h
  case h_1 hpc =>
    refine ⟨0, Nat.zero_le _, fun _ => by rw [hpc]; rfl, ?_⟩
    rw [h.2, List.take_zero, List.append_nil]
  case h_2 buffer n hpc =>
    obtain ⟨-, hb, hle, ha⟩ := h
    rw [headBytes, hb]
    exact ⟨n, hle, fun _ => by rw [hpc]; rfl, ha⟩
  case h_3 buffer n hpc =>
    obtain ⟨hb, hle, -, ha⟩ := h
    rw [headBytes, hb]
    exact ⟨n, hle, fun _ => by rw [hpc]; rfl, ha⟩
  case h_4 h1 h2 h3 =>
    obtain ⟨n, hle, he, ha⟩ := h
    have hnone : sendedCount t.pc = none := by
      unfold sendedCount
      split <;> simp_all
    refine ⟨n, hle, fun hor => ?_, ha⟩
    rw [hnone] at hor ⊢
    exact he (hor.resolve_right fun hne => hne rfl)

/-- **A step of the IO thread keeps what the socket has accepted.** -/
theorem Accepted.ioStep (hacc : Accepted t m.sendBuffer) (h : IoStep t m a t' m') :
    Accepted t' m'.sendBuffer := by
  cases h with
  | noSocket hpc | noHost hpc | refused hpc | connected hpc | noPendingData hpc
  | hasPendingData hpc | setNumFault hpc | writeFault hpc | hand hpc | noHand hpc
  | decodeDone hpc | decodeFrame hpc | decodeFault hpc | report hpc | exit hpc =>
    simpa only [Accepted, hpc] using hacc
  | loopTest hpc | sendDone hpc | recvDone hpc | recv hpc =>
    simp only [Accepted, hpc] at hacc
    unfold Accepted
    first | unfold FTCPSocketRunnable.recvMore | skip
    split_ifs <;> exact hacc
  | recvFail hpc =>
    simp only [Accepted, hpc] at hacc ⊢
    obtain ⟨n, hle, -, ha⟩ := hacc
    exact ⟨n, hle, Bool.noConfusion, ha⟩
  | sendTest hpc =>
    simp only [Accepted, hpc] at hacc
    obtain ⟨n, hle, he, ha⟩ := hacc
    unfold Accepted
    split_ifs with hse
    · simp only [Bool.and_eq_true, Bool.not_eq_true'] at hse
      rw [he hse.2, List.take_zero, List.append_nil] at ha
      exact ⟨hse.2, ha⟩
    · exact ⟨n, hle, he, ha⟩
  | peek hpc hb =>
    simp only [Accepted, hpc] at hacc ⊢
    refine ⟨hacc.1, by rw [hb]; rfl, Nat.zero_le _, ?_⟩
    rw [List.take_zero, List.append_nil]
    exact hacc.2
  | peekEmpty hpc hb =>
    simp only [Accepted, hpc] at hacc ⊢
    refine ⟨0, Nat.zero_le _, fun _ => rfl, ?_⟩
    rw [List.take_zero, List.append_nil]
    exact hacc.2
  | sendFail hpc =>
    simp only [Accepted, hpc] at hacc ⊢
    exact ⟨hacc.2.1, hacc.2.2.1, Bool.noConfusion, hacc.2.2.2⟩
  | @send buffer n k hpc hk =>
    simp only [Accepted, hpc] at hacc
    obtain ⟨he, hb, hle, ha⟩ := hacc
    have ha' : t.accepted ++ (buffer.drop n).take k = t.popped.flatten ++ buffer.take (n + k) := by
      rw [ha, List.append_assoc, ← List.take_add]
    unfold Accepted FTCPSocketRunnable.sendMore
    split_ifs with hmore
    · exact ⟨he, hb, hmore.le, ha'⟩
    · exact ⟨hb, by omega, fun _ => by omega, ha'⟩
  | @pop buffer n hpc he =>
    simp only [Accepted, hpc] at hacc ⊢
    obtain ⟨hb, -, hn, ha⟩ := hacc
    -- all the bytes of the head were accepted
    have htake : m.sendBuffer.take 1 = [buffer] := by
      rw [List.take_one, hb]
      rfl
    refine ⟨0, Nat.zero_le _, fun _ => rfl, ?_⟩
    rw [ha, hn he, htake, List.flatten_append, List.flatten_singleton, List.take_length,
      List.take_zero, List.append_nil]
  | @noPop buffer n hpc he =>
    simp only [Accepted, hpc] at hacc ⊢
    obtain ⟨hb, hle, -, ha⟩ := hacc
    have hhead : headBytes m.sendBuffer = buffer := by rw [headBytes, hb, Option.getD_some]
    refine ⟨n, by rw [hhead]; exact hle, fun h => ?_, by rw [hhead]; exact ha⟩
    rw [he] at h
    cases h

/-- What is popped is taken from the front of `SendBuffer`. -/
theorem IoStep.popped_append (h : IoStep t m a t' m') :
    t'.popped ++ m'.sendBuffer = t.popped ++ m.sendBuffer := by
  cases h with
  | pop =>
    show (t.popped ++ m.sendBuffer.take 1) ++ m.sendBuffer.tail = _
    rw [List.append_assoc, ← List.drop_one, List.take_append_drop]
  | _ => rfl

/-- The game thread appends to `SendBuffer`. -/
theorem Accepted.concat {sendBuffer : List Bytes} (h : Accepted t sendBuffer) (data : Bytes) :
    Accepted t (sendBuffer ++ [data]) := by
  have hhead : ∀ b, sendBuffer.head? = some b → (sendBuffer ++ [data]).head? = some b := by
    intro b hb
    rw [List.head?_append, hb, Option.some_or]
  unfold Accepted at h ⊢
  split at h
  case h_1 => exact h
  case h_2 => exact ⟨h.1, hhead _ h.2.1, h.2.2⟩
  case h_3 => exact ⟨hhead _ h.1, h.2⟩
  case h_4 =>
    obtain ⟨n, hle, he, ha⟩ := h
    cases hb : sendBuffer.head? with
    | none =>
      -- an empty buffer has no head of which a part was accepted
      rw [headBytes, hb, Option.getD_none, List.length_nil, Nat.le_zero] at hle
      subst hle
      refine ⟨0, Nat.zero_le _, fun _ => rfl, ?_⟩
      rw [ha, List.take_zero, List.take_zero]
    | some b =>
      have heq : headBytes (sendBuffer ++ [data]) = headBytes sendBuffer := by
        rw [headBytes, headBytes, hhead b hb, hb]
      rw [heq]
      exact ⟨n, hle, he, ha⟩

/-- `Accepted` is about the accepted bytes, the arrays popped and the error. -/
theorem Accepted.congr {u : FTCPSocketRunnable} {sendBuffer : List Bytes}
    (h : Accepted t sendBuffer) (hpc : u.pc = t.pc) (he : u.bConnectionError = t.bConnectionError)
    (ha : u.accepted = t.accepted) (hp : u.popped = t.popped) : Accepted u sendBuffer := by
  unfold Accepted at h ⊢
  rw [hpc, he, ha, hp]
  exact h

end

/-! ### The sessions -/

/-- A session whose thread is `t`: what its socket has accepted. -/
structure Sent (s : Client) (k : ℕ) (t : FTCPSocketRunnable) : Prop where
  /-- The arrays popped were accepted. -/
  popped : t.popped.flatten <+: t.accepted
  /-- What was accepted was enqueued in this session. -/
  enqueued : t.accepted <+: t.enqueued.flatten
  /-- While the session is current: what was enqueued is popped or in `SendBuffer`. -/
  current : s.socketRunnablePtr = some k →
    t.enqueued = t.popped ++ s.mem.sendBuffer ∧ Accepted t s.mem.sendBuffer

/-- The current session. -/
theorem Sent.of_current {s : Client} {k : ℕ} {t : FTCPSocketRunnable}
    (he : t.enqueued = t.popped ++ s.mem.sendBuffer) (ha : Accepted t s.mem.sendBuffer) :
    Sent s k t := by
  obtain ⟨n, -, -, hn⟩ := ha.exists
  refine ⟨?_, ?_, fun _ => ⟨he, ha⟩⟩
  · rw [hn]
    exact List.prefix_append _ _
  · rw [hn, he, List.flatten_append, List.prefix_append_right_inj]
    apply (List.take_prefix n _).trans
    cases s.mem.sendBuffer with
    | nil => exact List.nil_prefix
    | cons b rest => exact List.prefix_append _ _

/-- A session that is not current. -/
theorem Sent.of_ne {s s' : Client} {k : ℕ} {t : FTCPSocketRunnable} (h : Sent s k t)
    (hp : s'.socketRunnablePtr ≠ some k) : Sent s' k t :=
  ⟨h.popped, h.enqueued, fun hk => absurd hk hp⟩

/-- A step that leaves `SendBuffer` alone, and no more than stops the thread. -/
theorem Sent.congr {s s' : Client} {k : ℕ} {t : FTCPSocketRunnable} (h : Sent s k t)
    (hp : s'.socketRunnablePtr = s.socketRunnablePtr) (hb : s'.mem.sendBuffer = s.mem.sendBuffer) :
    Sent s' k t := by
  refine ⟨h.popped, h.enqueued, ?_⟩
  rw [hp, hb]
  exact h.current

theorem Sent.stop {s s' : Client} {k : ℕ} {t : FTCPSocketRunnable} (h : Sent s k t)
    (hp : s'.socketRunnablePtr = s.socketRunnablePtr) (hb : s'.mem.sendBuffer = s.mem.sendBuffer) :
    Sent s' k { t with bManuallyStop := true } := by
  refine ⟨h.popped, h.enqueued, ?_⟩
  rw [hp, hb]
  exact fun hk => ⟨(h.current hk).1, (h.current hk).2.congr rfl rfl rfl rfl⟩

/-- **A step keeps every session `Sent`.** -/
theorem sent_step {a : Act} {s s' : Client} (hw : Wf s) (hstep : ClientStep s a s')
    (h : ∀ (k : ℕ) (t : FTCPSocketRunnable), s.threads[k]? = some t → Sent s k t) :
    ∀ (k : ℕ) (u : FTCPSocketRunnable), s'.threads[k]? = some u → Sent s' k u := by
  intro k u hu
  cases hstep with
  | noConnect | noDisconnect | noSend => exact h k u hu
  | join => exact (h k u hu).of_ne nofun
  | callbackReturn | mgrReturn | mgrEmpty | connected | lateConnectionError | tick =>
    exact (h k u hu).congr rfl rfl
  | connect hr hp =>
    rcases getElem?_concat_eq_some.mp hu with hu | ⟨rfl, rfl⟩
    · have hk := (List.getElem?_eq_some_iff.mp hu).1
      refine (h k u hu).of_ne fun hcur => ?_
      rw [Option.some.injEq] at hcur
      omega
    · exact .of_current rfl ⟨0, Nat.zero_le _, fun _ => rfl, rfl⟩
  | disconnect hr hp | mgrDisconnect hr hp | connectionError hs ht hp =>
    obtain ⟨t, ht, rfl⟩ := getElem?_modify_eq_some.mp hu
    split
    · exact (h k t ht).stop rfl rfl
    · exact (h k t ht).congr rfl rfl
  | @send data j hr hp =>
    obtain ⟨t, ht, rfl⟩ := getElem?_modify_eq_some.mp hu
    split
    · subst j
      obtain ⟨he, ha⟩ := (h k t ht).current hp
      refine .of_current ?_ ((ha.concat data).congr rfl rfl rfl rfl)
      show t.enqueued ++ [data] = t.popped ++ (s.mem.sendBuffer ++ [data])
      rw [he, List.append_assoc]
    · rename_i hne
      refine (h k t ht).of_ne fun hcur => hne ?_
      rwa [show s.socketRunnablePtr = some k from hcur, Option.some.injEq, eq_comm] at hp
  | @io j a t t' m' ht hio =>
    have hcur := hw.live j t ht hio.pc_ne_ended
    rcases (getElem?_set_eq_some ht).mp hu with ⟨rfl, rfl⟩ | ⟨hne, hu⟩
    · obtain ⟨he, ha⟩ := (h j t ht).current hcur
      refine .of_current ?_ (ha.ioStep hio)
      rw [hio.enqueued_eq, he]
      exact hio.popped_append.symm
    · refine (h k u hu).of_ne fun hcur' => hne ?_
      rwa [show s.socketRunnablePtr = some k from hcur', Option.some.injEq, eq_comm] at hcur

theorem sent_run {as : List Act} {s : Client} (h : run Client.step {} as = some s) :
    ∀ (k : ℕ) (t : FTCPSocketRunnable), s.threads[k]? = some t → Sent s k t := by
  refine invariant_run (I := fun s =>
    ∀ (k : ℕ) (t : FTCPSocketRunnable), s.threads[k]? = some t → Sent s k t) (by simp) ?_ h
  exact fun s a s' hw hs hstep => sent_step hw hstep hs

/-- **The send path.** In every run, for every session: the bytes its socket has accepted
begin with the arrays popped and are a prefix of the arrays passed to `Send` in this
session, in order. For the current session, an array enqueued is popped or in `SendBuffer`,
and the socket has accepted the arrays popped and the first `SendedCount` bytes of the
head; `SendedCount` is out of scope, and `0`, between two arrays, except after a failed
`FSocket::Send`, which may leave a part of the head accepted. -/
theorem accepted_run {as : List Act} {s : Client} (h : run Client.step {} as = some s) {k : ℕ}
    {t : FTCPSocketRunnable} (ht : s.threads[k]? = some t) :
    t.popped.flatten <+: t.accepted ∧ t.accepted <+: t.enqueued.flatten ∧
      (s.socketRunnablePtr = some k → t.enqueued = t.popped ++ s.mem.sendBuffer ∧
        ∃ n, n ≤ (headBytes s.mem.sendBuffer).length ∧
          (t.bConnectionError = false ∨ sendedCount t.pc ≠ none →
            n = (sendedCount t.pc).getD 0) ∧
          t.accepted = t.popped.flatten ++ (headBytes s.mem.sendBuffer).take n) := by
  have hS := sent_run h k t ht
  refine ⟨hS.popped, hS.enqueued, fun hk => ?_⟩
  obtain ⟨he, ha⟩ := hS.current hk
  exact ⟨he, ha.exists⟩

/-- Of two arrays the first is sent in two parts, and the sending of the second fails when
a byte of it was accepted. -/
def partialSend : List Act :=
  [.connect [], .send [1, 2, 3], .io 0 (.init true true true), .send [4, 5], .io 0 (.loopTest true),
    .io 0 .sendTest, .io 0 .peek, .io 0 (.send (some 2)), .io 0 (.send (some 1)), .io 0 .pop,
    .io 0 .sendTest, .io 0 .peek, .io 0 (.send (some 1)), .io 0 (.send none), .io 0 .pop]

/-- What `accepted_run` says of it. -/
theorem accepted_run_partialSend :
    ∃ s t, run Client.step {} partialSend = some s ∧ s.threads[0]? = some t ∧
      t.popped.flatten <+: t.accepted ∧ t.accepted <+: t.enqueued.flatten ∧
      (s.socketRunnablePtr = some 0 → t.enqueued = t.popped ++ s.mem.sendBuffer ∧
        ∃ n, n ≤ (headBytes s.mem.sendBuffer).length ∧
          (t.bConnectionError = false ∨ sendedCount t.pc ≠ none →
            n = (sendedCount t.pc).getD 0) ∧
          t.accepted = t.popped.flatten ++ (headBytes s.mem.sendBuffer).take n) := by
  have hrun : ((run Client.step {} partialSend).bind fun s => s.threads[0]?).isSome := by decide
  obtain ⟨t, ht⟩ := Option.isSome_iff_exists.mp hrun
  obtain ⟨s, hs, ht⟩ := Option.bind_eq_some_iff.mp ht
  exact ⟨s, t, hs, ht, accepted_run hs ht⟩

end ThirdPersonMP.Network
