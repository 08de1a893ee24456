import Mathlib.Algebra.Ring.Nat
import ThirdPersonMP.Network.Completion

/-!
# What is queued is sent

`FTCPSocketRunnable::Run` sends all that is in `SendBuffer` before it receives, and receives
no more than is pending (`TcpSocketRunnable.cpp`, 62–138). So an array that is put on the
queue waits for one receive at most, and for the arrays before it.

* `drain` — a bound on the steps until so many arrays have been popped; `IoStep.drain_le`.
* `Flowing` — a session that is not stopped and has no error; kept by every step that does not
  disturb it (`flowing_step`).
* `drained_run` — from every state of every run: the arrays that a session has been given are
  with its socket after a bounded number of steps of its thread, whatever the game thread does
  besides stopping it, when no call fails and each `Send` and each `Recv` handles some of what
  it is offered.
-/

namespace ThirdPersonMP.Network

open Base Library

/-! ### A thread in its loop -/

/-- What the loop relies on: the socket is there, and as many bytes as are awaited. -/
structure Looping (t : FTCPSocketRunnable) : Prop where
  socketPtr : t.pc ≠ .init → t.pc ≠ .ended → t.socketPtr = true
  pending : ∀ o p n, t.pc = .receiving o p n → p ≤ n + t.incoming.length

/-- The thread was not stopped, and no call has failed. -/
structure Live (t : FTCPSocketRunnable) : Prop where
  bManuallyStop : t.bManuallyStop = false
  bConnectionError : t.bConnectionError = false
  ne_exit : t.pc ≠ .exit
  ne_ended : t.pc ≠ .ended

/-- The call that the step answers has not failed, and the connection is there. -/
def Succeeds : IoAct → Prop
  | .init created resolved connected => created = true ∧ resolved = true ∧ connected = true
  | .loopTest connected => connected = true
  | .send none | .recv none => False
  | _ => True

instance : ∀ a, Decidable (Succeeds a)
  | .init _ _ _ => inferInstanceAs (Decidable (_ ∧ _))
  | .loopTest _ => inferInstanceAs (Decidable (_ = _))
  | .send none | .recv none => inferInstanceAs (Decidable False)
  | .send (some _) | .recv (some _) | .sendTest | .peek | .pop | .sendDone | .hasPendingData _
  | .received | .decode | .recvDone | .exit => inferInstanceAs (Decidable True)

section

variable {t t' : FTCPSocketRunnable} {m m' : Shared} {a : IoAct}

/-- A step keeps what the loop relies on. -/
theorem Looping.ioStep (h : Looping t) (hio : IoStep t m a t' m') : Looping t' := by
  have hne := hio.pc_ne_ended
  have hkeep : ∀ u : FTCPSocketRunnable, t.pc ≠ .init → u.socketPtr = t.socketPtr →
      (∀ o p n, u.pc ≠ .receiving o p n) → Looping u := fun u hi hs hr =>
    ⟨fun _ _ => hs.trans (h.socketPtr hi hne), fun o p n he => absurd he (hr o p n)⟩
  cases hio with
  | noSocket hpc | noHost hpc | refused hpc | connected hpc => exact ⟨by simp, by simp⟩
  | hasPendingData hpc hp hs =>
    refine ⟨fun _ _ => h.socketPtr (by simp [hpc]) hne, fun o p n he => ?_⟩
    rw [Pc.receiving.injEq] at he
    show p ≤ n + t.incoming.length
    omega
  | @recv o p n k recvData hpc hk hi hw =>
    refine ⟨fun _ _ => h.socketPtr (by simp [hpc]) hne, fun o' p' n' he => ?_⟩
    have hle := h.pending o p n hpc
    simp only [FTCPSocketRunnable.recvMore] at he
    split at he
    · rw [Pc.receiving.injEq] at he
      show p' ≤ n' + (t.incoming.drop k).length
      rw [List.length_drop]
      omega
    · cases he
  | decodeFrame hpc => exact h
  | loopTest hpc | sendTest hpc | sendDone hpc | recvDone hpc | send hpc =>
    refine hkeep _ (by simp [hpc]) rfl fun o p n => ?_
    simp only [FTCPSocketRunnable.sendMore]
    split_ifs <;> exact Pc.noConfusion
  | peek hpc | peekEmpty hpc | sendFail hpc | pop hpc | noPop hpc | noPendingData hpc
  | setNumFault hpc | recvFail hpc | writeFault hpc | hand hpc | noHand hpc | decodeDone hpc
  | decodeFault hpc | report hpc | exit hpc =>
    exact hkeep _ (by simp [hpc]) rfl fun o p n => Pc.noConfusion

/-- A step that answers no failed call keeps the thread going. -/
theorem Live.ioStep (h : Live t) (hl : Looping t) (hio : IoStep t m a t' m') (ha : Succeeds a) :
    Live t' := by
  have hstop := h.bManuallyStop
  have herr := h.bConnectionError
  have hpc' : t'.pc ≠ .exit ∧ t'.pc ≠ .ended := by
    cases hio with
    | noSocket | noHost | refused => simp [Succeeds] at ha
    | sendFail | recvFail => exact ha.elim
    | loopTest hpc =>
      have hs := hl.socketPtr (by simp [hpc]) (by simp [hpc])
      replace ha : _ = true := ha
      simp [hstop, hs, ha]
    | sendTest | sendDone | recvDone => simp [hstop, herr]
    | send | recv =>
      simp only [FTCPSocketRunnable.sendMore, FTCPSocketRunnable.recvMore]
      split_ifs <;> exact ⟨Pc.noConfusion, Pc.noConfusion⟩
    | report hpc | exit hpc => exact absurd hpc h.ne_exit
    | decodeFrame hpc => exact ⟨h.ne_exit, h.ne_ended⟩
    | _ => exact ⟨Pc.noConfusion, Pc.noConfusion⟩
  refine ⟨hio.bManuallyStop_eq.trans hstop, ?_, hpc'.1, hpc'.2⟩
  cases hio with
  | sendFail | recvFail => exact ha.elim
  | _ => exact herr

end

/-! ### The bound -/

/-- What the first `n` arrays of the queue take: `Peek`, a `Send` for each byte or one, `Pop`,
and the test of the loop. -/
def queueCost (n : ℕ) (sendBuffer : List Bytes) : ℕ :=
  ((sendBuffer.take n).map fun buffer => buffer.length + 4).sum

/-- A bound on the steps until the first `n` arrays of the queue have been popped, of which
one may be at the socket. -/
def drainFirst (n : ℕ) (t : FTCPSocketRunnable) (m : Shared) : ℕ :=
  match t.pc with
  | .peek => queueCost n m.sendBuffer
  | .sendTest => queueCost n m.sendBuffer + 1
  | .sending _ sendedCount => queueCost n m.sendBuffer - (1 + sendedCount)
  | .sent buffer _ => queueCost n m.sendBuffer - (2 + buffer.length)
  | .loopTest => queueCost n m.sendBuffer + 2
  | .init | .recvDone => queueCost n m.sendBuffer + 3
  | .decoding => queueCost n m.sendBuffer + 4 + m.recvData.length
  | .received _ => queueCost n m.sendBuffer + 5 + m.recvData.length
  | .receiving _ pendingDataSize bytesReadTotal =>
    queueCost n m.sendBuffer + 6 + (pendingDataSize - bytesReadTotal) + m.recvData.length
  | .recvTest => queueCost n m.sendBuffer + 7 + 2 * t.incoming.length + m.recvData.length
  | .sendDone => queueCost n m.sendBuffer + 8 + 2 * t.incoming.length + m.recvData.length
  | .exit | .ended | .fault => 0

/-- A bound on the steps until `total` arrays have been popped. -/
def drain (total : ℕ) (t : FTCPSocketRunnable) (m : Shared) : ℕ :=
  if total ≤ t.popped.length then 0 else drainFirst (total - t.popped.length) t m

/-- The first array of the queue. -/
theorem queueCost_cons {n : ℕ} (hn : 0 < n) (buffer : Bytes) (rest : List Bytes) :
    queueCost n (buffer :: rest) = buffer.length + 4 + queueCost (n - 1) rest := by
  obtain ⟨n, rfl⟩ : ∃ k, n = k + 1 := ⟨n - 1, by omega⟩
  rfl

/-- An array that is added to the queue comes after those that are awaited. -/
theorem queueCost_append {n : ℕ} {sendBuffer : List Bytes} (hn : n ≤ sendBuffer.length)
    (more : List Bytes) : queueCost n (sendBuffer ++ more) = queueCost n sendBuffer := by
  unfold queueCost
  rw [List.take_append_of_le_length hn]

section

variable {t t' : FTCPSocketRunnable} {m m' : Shared} {a : IoAct} {n : ℕ}

/-- **A step that pops no array brings the next one closer.** -/
theorem IoStep.drainFirst_lt (h : IoStep t m a t' m') (hlive : Live t) (hl : Looping t)
    (ha : Succeeds a) (hp : Progress t a) (hacc : Accepted t m.sendBuffer)
    (hlt : m.recvData.length < 2 ^ 31) (hn : 0 < n) (hle : n ≤ m.sendBuffer.length)
    (hfault : t'.pc ≠ .fault) (hpop : t'.popped = t.popped) :
    drainFirst n t' m' < drainFirst n t m := by
  have hstop := hlive.bManuallyStop
  have herr := hlive.bConnectionError
  -- the head of the queue is one of the arrays that are awaited
  have hcost : ∀ buffer, m.sendBuffer.head? = some buffer →
      buffer.length + 4 ≤ queueCost n m.sendBuffer := by
    intro buffer hhead
    obtain ⟨rest, hrest⟩ := List.head?_eq_some_iff.mp hhead
    rw [hrest, queueCost_cons hn]
    omega
  cases h with
  | noSocket | noHost | refused => simp [Succeeds] at ha
  | sendFail | recvFail => exact ha.elim
  | connected hpc =>
    simp only [drainFirst, hpc]
    omega
  | @loopTest c hpc =>
    have hs := hl.socketPtr (by simp [hpc]) (by simp [hpc])
    replace ha : c = true := ha
    simp [drainFirst, hpc, hstop, hs, ha]
  | sendTest hpc => simp [drainFirst, hpc, hstop, herr]
  | @peek buffer rest hpc hb =>
    have := hcost buffer (by rw [hb]; rfl)
    simp only [drainFirst, hpc]
    omega
  | peekEmpty hpc hb =>
    rw [hb, List.length_nil] at hle
    omega
  | @send buffer n' k hpc hk =>
    simp only [Accepted, hpc] at hacc
    simp only [Progress, hpc] at hp
    have := hcost buffer hacc.2.1
    have hsent := hacc.2.2.1
    simp only [drainFirst, hpc, FTCPSocketRunnable.sendMore]
    by_cases hmore : n' + k < buffer.length
    · have := hp (by omega)
      simp only [hmore, if_true]
      omega
    · simp only [hmore, if_false]
      omega
  | pop hpc he =>
    -- the queue is not empty, so an array is popped
    cases hq : m.sendBuffer with
    | nil =>
      rw [hq, List.length_nil] at hle
      omega
    | cons buffer rest => simp [hq] at hpop
  | noPop hpc he =>
    rw [herr] at he
    cases he
  | sendDone hpc => simp [drainFirst, hpc, hstop, herr]
  | noPendingData hpc =>
    simp only [drainFirst, hpc]
    omega
  | @hasPendingData p recvData hpc hpend hs =>
    have hlen := TArray.length_setNum hs
    have hsum := toInt32_ofNat_add_le m.recvData.length p
    simp only [drainFirst, hpc]
    omega
  | setNumFault | writeFault | decodeFault => exact absurd rfl hfault
  | @recv o p n' k recvData hpc hk hi hw =>
    simp only [Progress, hpc] at hp
    have hlen := (TArray.length_writeAt hw).1
    simp only [drainFirst, hpc, FTCPSocketRunnable.recvMore]
    by_cases hmore : n' + k < p
    · have := hp (by omega)
      simp only [hmore, if_true]
      omega
    · simp only [hmore, if_false]
      omega
  | hand hpc hs he =>
    simp only [drainFirst, hpc]
    omega
  | noHand hpc hse =>
    rw [hstop, herr] at hse
    simp at hse
  | decodeDone hpc hi =>
    simp only [drainFirst, hpc]
    omega
  | decodeFrame hpc hi =>
    have := length_lt_of_iteration hlt hi
    simp only [drainFirst, hpc]
    omega
  | recvDone hpc => simp [drainFirst, hpc, hstop, herr]
  | report hpc | exit hpc => exact absurd hpc hlive.ne_exit

/-- What the step that pops an array does. -/
theorem IoStep.pop_of_popped_ne (h : IoStep t m a t' m') (hacc : Accepted t m.sendBuffer)
    (hpop : t'.popped ≠ t.popped) :
    ∃ buffer rest count, m.sendBuffer = buffer :: rest ∧ t.pc = .sent buffer count ∧
      t'.pc = .sendTest ∧ t'.popped = t.popped ++ [buffer] ∧ m'.sendBuffer = rest := by
  cases h with
  | @pop buffer count hpc he =>
    simp only [Accepted, hpc] at hacc
    obtain ⟨rest, hrest⟩ := List.head?_eq_some_iff.mp hacc.1
    refine ⟨buffer, rest, count, hrest, hpc, rfl, ?_, ?_⟩
    · rw [hrest]
      rfl
    · rw [hrest]
      rfl
  | _ => exact absurd rfl hpop

/-- **A step of the thread lowers the bound**, until it is `0`. -/
theorem IoStep.drain_le {total : ℕ} (h : IoStep t m a t' m') (hlive : Live t) (hl : Looping t)
    (ha : Succeeds a) (hp : Progress t a) (hacc : Accepted t m.sendBuffer)
    (hlt : m.recvData.length < 2 ^ 31) (hle : total ≤ t.popped.length + m.sendBuffer.length)
    (hfault : t'.pc ≠ .fault) : drain total t' m' ≤ drain total t m - 1 := by
  unfold drain
  by_cases hpop : t'.popped = t.popped
  · rw [hpop]
    split
    · exact Nat.zero_le _
    · have := h.drainFirst_lt hlive hl ha hp hacc hlt (n := total - t.popped.length) (by omega)
        (by omega) hfault hpop
      omega
  · obtain ⟨buffer, rest, count, hq, hpc, hpc', hpopped, hq'⟩ := h.pop_of_popped_ne hacc hpop
    rw [hpopped, List.length_append, List.length_singleton]
    split
    · exact Nat.zero_le _
    · have hcost := queueCost_cons (n := total - t.popped.length) (by omega) buffer rest
      rw [Nat.sub_sub] at hcost
      rw [if_neg (by omega)]
      simp only [drainFirst, hpc, hpc', hq, hq']
      omega

/-- While an array is awaited the bound is not reached. -/
theorem drainFirst_pos (hlive : Live t) (hfault : t.pc ≠ .fault) (hacc : Accepted t m.sendBuffer)
    (hn : 0 < n) (hle : n ≤ m.sendBuffer.length) : 0 < drainFirst n t m := by
  obtain ⟨buffer, rest, hq⟩ := List.exists_cons_of_length_pos (Nat.lt_of_lt_of_le hn hle)
  have hcost := queueCost_cons hn buffer rest
  rw [← hq] at hcost
  cases hpc : t.pc with
  | sending buffer' count =>
    simp only [Accepted, hpc, hq, List.head?_cons, Option.some.injEq] at hacc
    obtain ⟨-, rfl, hcount, -⟩ := hacc
    simp only [drainFirst, hpc]
    omega
  | sent buffer' count =>
    simp only [Accepted, hpc, hq, List.head?_cons, Option.some.injEq] at hacc
    obtain ⟨rfl, -⟩ := hacc
    simp only [drainFirst, hpc]
    omega
  | exit => exact absurd hpc hlive.ne_exit
  | ended => exact absurd hpc hlive.ne_ended
  | fault => exact absurd hpc hfault
  | init | loopTest | sendTest | peek | sendDone | recvTest | receiving | received | decoding
  | recvDone =>
    simp only [drainFirst, hpc]
    omega

/-- A live thread has a next step that answers no failed call. -/
theorem exists_succeeds (hlive : Live t) (hl : Looping t) (hfault : t.pc ≠ .fault) :
    ∃ a, Succeeds a ∧ Progress t a ∧ (ioStep t m a).isSome = true := by
  unfold ioStep
  cases hpc : t.pc with
  | init => exact ⟨.init true true true, ⟨rfl, rfl, rfl⟩, trivial, rfl⟩
  | loopTest => exact ⟨.loopTest true, rfl, trivial, rfl⟩
  | sendTest => exact ⟨.sendTest, trivial, trivial, rfl⟩
  | peek =>
    refine ⟨.peek, trivial, trivial, ?_⟩
    cases m.sendBuffer <;> rfl
  | sending buffer count =>
    -- all that is left is accepted
    refine ⟨.send (some (buffer.length - count)), trivial, ?_, ?_⟩
    · simp only [Progress, hpc]
      omega
    · simp
  | sent buffer count =>
    refine ⟨.pop, trivial, trivial, ?_⟩
    dsimp only
    split <;> rfl
  | sendDone => exact ⟨.sendDone, trivial, trivial, rfl⟩
  | recvTest => exact ⟨.hasPendingData none, trivial, trivial, rfl⟩
  | receiving o p n =>
    -- the bytes that were announced are there
    have hpending := hl.pending o p n hpc
    refine ⟨.recv (some (p - n)), trivial, ?_, ?_⟩
    · simp only [Progress, hpc]
      omega
    · dsimp only
      rw [if_pos ⟨Nat.le_refl _, by omega⟩]
      split <;> rfl
  | received o =>
    refine ⟨.received, trivial, trivial, ?_⟩
    dsimp only
    split <;> rfl
  | decoding =>
    refine ⟨.decode, trivial, trivial, ?_⟩
    dsimp only
    split <;> rfl
  | recvDone => exact ⟨.recvDone, trivial, trivial, rfl⟩
  | exit => exact absurd hpc hlive.ne_exit
  | ended => exact absurd hpc hlive.ne_ended
  | fault => exact absurd hpc hfault

end

/-! ### The sessions -/

/-- A thread that has just been started, or is told to stop, or is given an array. -/
theorem Looping.congr {t u : FTCPSocketRunnable} (h : Looping t) (hpc : u.pc = t.pc)
    (hs : u.socketPtr = t.socketPtr) (hi : u.incoming = t.incoming) : Looping u := by
  obtain ⟨hsocket, hpending⟩ := h
  refine ⟨?_, ?_⟩
  · rw [hpc, hs]
    exact hsocket
  · rw [hpc, hi]
    exact hpending

/-- A step keeps every thread in its loop. -/
theorem looping_step {a : Act} {s s' : Client} (hstep : ClientStep s a s')
    (h : ∀ (k : ℕ) (t : FTCPSocketRunnable), s.threads[k]? = some t → Looping t) :
    ∀ (k : ℕ) (u : FTCPSocketRunnable), s'.threads[k]? = some u → Looping u := by
  intro k u hu
  cases hstep with
  | connect hr hp =>
    rcases getElem?_concat_eq_some.mp hu with hu | ⟨-, rfl⟩
    · exact h k u hu
    · exact ⟨fun hne => absurd rfl hne, fun o p n hpc => Pc.noConfusion hpc⟩
  | disconnect hr hp | mgrDisconnect hr hp | connectionError hs ht hp | send hr hp =>
    obtain ⟨t, ht, rfl⟩ := getElem?_modify_eq_some.mp hu
    split
    · exact (h k t ht).congr rfl rfl rfl
    · exact h k t ht
  | io ht hio =>
    rcases (getElem?_set_eq_some ht).mp hu with ⟨rfl, rfl⟩ | ⟨-, hu⟩
    · exact (h _ _ ht).ioStep hio
    · exact h k u hu
  | _ => exact h k u hu

theorem looping_run {as : List Act} {s : Client} (h : run Client.step {} as = some s) :
    ∀ (k : ℕ) (t : FTCPSocketRunnable), s.threads[k]? = some t → Looping t := by
  refine invariant_run (I := fun s =>
    ∀ (k : ℕ) (t : FTCPSocketRunnable), s.threads[k]? = some t → Looping t) (by simp) ?_ h
  exact fun s a s' _ hs hstep => looping_step hstep hs

/-- What does not disturb the current session: its calls succeed, and `Send` and `Recv` handle
some of what they are offered; nobody disconnects, nor has an earlier error left its task. -/
def Undisturbed (s : Client) : Act → Prop
  | .io k b => Succeeds b ∧ ∀ t ∈ s.threads[k]?, Progress t b
  | .disconnect | .mgrDisconnect => False
  | .runTask => ∀ e ∈ s.mem.tasks.head?, e.2 ≠ .connectionError
  | .connect _ | .join | .callbackReturn | .send _ | .tick => True

instance (s : Client) : ∀ a, Decidable (Undisturbed s a)
  | .io _ _ => inferInstanceAs (Decidable (_ ∧ _))
  | .disconnect | .mgrDisconnect => inferInstanceAs (Decidable False)
  | .runTask => inferInstanceAs (Decidable (∀ e ∈ _, _))
  | .connect _ | .join | .callbackReturn | .send _ | .tick => inferInstanceAs (Decidable True)

/-- A session of a run that is going on, and whose stream the decoder can handle. -/
structure Flowing (s : Client) (k : ℕ) (t : FTCPSocketRunnable) : Prop where
  reached : ∃ as, run Client.step {} as = some s
  thread : s.threads[k]? = some t
  length : t.peer.length < 2 ^ 31
  headers : HeadersOk t.peer
  live : Live t

namespace Flowing

variable {s s' : Client} {k : ℕ} {t : FTCPSocketRunnable} {a : Act}

theorem socketRunnablePtr (h : Flowing s k t) : s.socketRunnablePtr = some k := by
  obtain ⟨as, has⟩ := h.reached
  exact (wf_run has).live k t h.thread h.live.ne_ended

theorem looping (h : Flowing s k t) : Looping t := by
  obtain ⟨as, has⟩ := h.reached
  exact looping_run has k t h.thread

theorem inOrder (h : Flowing s k t) : InOrder s k t := by
  obtain ⟨as, has⟩ := h.reached
  exact inOrder_run has h.thread h.length h.headers

theorem buffered (h : Flowing s k t) : Buffered t s.mem.recvData := by
  obtain ⟨as, has⟩ := h.reached
  exact h.inOrder.buffered ((wf_run has).current k h.socketRunnablePtr)

theorem recvFailed (h : Flowing s k t) : t.recvFailed = false :=
  Bool.eq_false_iff.mpr fun hf => by
    simpa [h.live.bConnectionError] using h.inOrder.marked.recvFailed hf

theorem stopSeen (h : Flowing s k t) : t.stopSeen = false :=
  Bool.eq_false_iff.mpr fun hs => by
    simpa [h.live.bManuallyStop] using h.inOrder.marked.stopSeen hs

theorem ne_fault (h : Flowing s k t) : t.pc ≠ .fault := by
  intro hpc
  have hbuffered := h.buffered
  rw [Buffered, hpc] at hbuffered
  exact hbuffered

theorem recvData (h : Flowing s k t) : s.mem.recvData.length < 2 ^ 31 := by
  obtain ⟨as, has⟩ := h.reached
  exact (resting_run has).1

theorem sent (h : Flowing s k t) :
    t.enqueued = t.popped ++ s.mem.sendBuffer ∧ Accepted t s.mem.sendBuffer := by
  obtain ⟨as, has⟩ := h.reached
  exact (sent_run has k t h.thread).current h.socketRunnablePtr

/-- Nothing waits for it. -/
theorem not_waiting (h : Flowing s k t) (j : ℕ) : .waitForCompletion j ∉ s.stack := by
  obtain ⟨as, has⟩ := h.reached
  intro hj
  have hptr := (wf_run has).waiting j hj
  rw [h.socketRunnablePtr, Option.some.injEq] at hptr
  subst hptr
  have hstop := (wf_run has).stopped k t h.thread (.inr hj)
  rw [h.live.bManuallyStop] at hstop
  cases hstop

theorem next (h : Flowing s k t) (hs : s.step a = some s') {t' : FTCPSocketRunnable}
    (ht' : s'.threads[k]? = some t') (hpeer : t'.peer = t.peer) (hlive : Live t') :
    Flowing s' k t' := by
  obtain ⟨as, has⟩ := h.reached
  refine ⟨⟨as ++ [a], (run_concat _).mpr ⟨s, has, hs⟩⟩, ht', ?_, ?_, hlive⟩
  · rw [hpeer]
    exact h.length
  · rw [hpeer]
    exact h.headers

/-- A step of the thread is a step of the session that does not disturb it. -/
theorem exists_step (h : Flowing s k t) {b : IoAct} (hb : Succeeds b) (hp : Progress t b)
    (hio : (ioStep t s.mem b).isSome = true) :
    ∃ s', Undisturbed s (.io k b) ∧ s.step (.io k b) = some s' := by
  obtain ⟨⟨u, m⟩, hio⟩ := Option.isSome_iff_exists.mp hio
  refine ⟨{ s with threads := s.threads.set k u, mem := m }, ⟨hb, fun v hv => ?_⟩, ?_⟩
  · rw [h.thread, Option.mem_some] at hv
    exact hv ▸ hp
  · simp only [Client.step, h.thread, hio, Option.map_some]

end Flowing

/-- The steps of the thread of a session. -/
def Act.ofThread (k : ℕ) : Act → Bool
  | .io j _ => j = k
  | _ => false

/-- What a step that does not disturb a session does to it: the game thread gives it an array or
leaves it alone, or its thread takes a step; and it goes on. -/
theorem flowing_cases {s s' : Client} {k : ℕ} {t : FTCPSocketRunnable} {a : Act}
    (h : Flowing s k t) (ha : Undisturbed s a) (hs : s.step a = some s') :
    ∃ t', Flowing s' k t' ∧
      (a.ofThread k = false ∧ t' = { t with enqueued := t.enqueued ++ sentTo s k a } ∧
          s'.mem.sendBuffer = s.mem.sendBuffer ++ sentTo s k a ∧
          s'.mem.recvData = s.mem.recvData ∨
        ∃ b, a = .io k b ∧ IoStep t s.mem b t' s'.mem) := by
  have hptr := h.socketRunnablePtr
  -- a step that leaves the thread, and the queue, alone
  have hkeep : s'.threads = s.threads → a.ofThread k = false → sentTo s k a = [] →
      s'.mem.sendBuffer = s.mem.sendBuffer → s'.mem.recvData = s.mem.recvData →
      ∃ t', Flowing s' k t' ∧
        (a.ofThread k = false ∧ t' = { t with enqueued := t.enqueued ++ sentTo s k a } ∧
            s'.mem.sendBuffer = s.mem.sendBuffer ++ sentTo s k a ∧
            s'.mem.recvData = s.mem.recvData ∨
          ∃ b, a = .io k b ∧ IoStep t s.mem b t' s'.mem) := by
    intro ht hno hnone hb hr
    refine ⟨t, h.next hs (by rw [ht]; exact h.thread) rfl h.live, .inl ⟨hno, ?_, ?_, hr⟩⟩
    · rw [hnone, List.append_nil]
    · rw [hnone, List.append_nil, hb]
  cases ClientStep.of_step hs with
  | disconnect | mgrDisconnect | mgrEmpty => exact ha.elim
  | connect _ hp | noDisconnect hp | noSend hp =>
    rw [hptr] at hp
    cases hp
  | join hstack =>
    exact absurd (hstack ▸ List.mem_cons_self ..) (h.not_waiting _)
  | connectionError _ htasks | lateConnectionError _ htasks =>
    simp only [Undisturbed, htasks] at ha
    exact absurd rfl (ha _ rfl)
  | noConnect | callbackReturn | mgrReturn | connected | tick => exact hkeep rfl rfl rfl rfl rfl
  | @send data j _ hp =>
    have hsent : sentTo s k (.send data) = [data] := by simp only [sentTo, hptr, if_true]
    rw [hptr, Option.some.injEq] at hp
    subst hp
    have ht' : (s.threads.modify k fun t => { t with enqueued := t.enqueued ++ [data] })[k]? =
        some { t with enqueued := t.enqueued ++ [data] } :=
      getElem?_modify_eq_some.mpr ⟨t, h.thread, (if_pos rfl).symm⟩
    have hlive := h.live
    refine ⟨_, h.next hs ht' rfl ⟨hlive.1, hlive.2, hlive.3, hlive.4⟩, .inl ?_⟩
    rw [hsent]
    exact ⟨rfl, rfl, rfl, rfl⟩
  | @io j b u u' m' hu hio =>
    have hj : j = k := by
      obtain ⟨as, has⟩ := h.reached
      exact (wf_run has).eq_of_live hu h.thread hio.pc_ne_ended h.live.ne_ended
    subst hj
    rw [h.thread, Option.some.injEq] at hu
    subst hu
    have ht' : (s.threads.set j u')[j]? = some u' :=
      (getElem?_set_eq_some h.thread).mpr (.inl ⟨rfl, rfl⟩)
    have hlive := h.live.ioStep h.looping hio ha.1
    exact ⟨u', h.next hs ht' hio.peer_eq hlive, .inr ⟨b, rfl, hio⟩⟩

/-- **A step that does not disturb a session** lowers the bound when it is a step of its
thread, and does not raise it otherwise. -/
theorem flowing_step {s s' : Client} {k : ℕ} {t : FTCPSocketRunnable} {a : Act}
    (h : Flowing s k t) (ha : Undisturbed s a) (hs : s.step a = some s') :
    ∃ t', Flowing s' k t' ∧ t'.peer = t.peer ∧ t.enqueued <+: t'.enqueued ∧
      ∀ total ≤ t.enqueued.length,
        drain total t' s'.mem ≤ drain total t s.mem - if a.ofThread k then 1 else 0 := by
  obtain ⟨t', hflow, ⟨hno, rfl, hb, hr⟩ | ⟨b, rfl, hio⟩⟩ := flowing_cases h ha hs
  · refine ⟨_, hflow, rfl, List.prefix_append _ _, fun total htotal => ?_⟩
    rw [h.sent.1, List.length_append] at htotal
    have hqueue : queueCost (total - t.popped.length) s'.mem.sendBuffer =
        queueCost (total - t.popped.length) s.mem.sendBuffer := by
      rw [hb]
      exact queueCost_append (by omega) _
    simp only [drain, drainFirst, hqueue, hr, hno]
    exact Nat.le_refl _
  · refine ⟨t', hflow, hio.peer_eq, hio.enqueued_eq ▸ List.prefix_rfl, fun total htotal => ?_⟩
    rw [h.sent.1, List.length_append] at htotal
    have hle := hio.drain_le h.live h.looping ha.1 (ha.2 t h.thread) h.sent.2 h.recvData htotal
      hflow.ne_fault
    simpa [Act.ofThread] using hle

/-- What was on the queue has been accepted when the bound is reached. -/
theorem Flowing.accepted {s : Client} {k : ℕ} {t : FTCPSocketRunnable} (h : Flowing s k t)
    {first : List Bytes} (hfirst : first <+: t.enqueued)
    (hdrain : drain first.length t s.mem = 0) : first.flatten <+: t.accepted := by
  obtain ⟨henqueued, hacc⟩ := h.sent
  have hpopped : first.length ≤ t.popped.length := by
    by_contra hlt
    have hle := hfirst.length_le
    rw [henqueued, List.length_append] at hle
    have := drainFirst_pos h.live h.ne_fault hacc (n := first.length - t.popped.length)
      (by omega) (by omega)
    rw [drain, if_neg hlt] at hdrain
    omega
  have hprefix : first <+: t.popped := by
    rw [henqueued] at hfirst
    exact List.prefix_of_prefix_length_le hfirst (List.prefix_append _ _) hpopped
  obtain ⟨as, has⟩ := h.reached
  exact hprefix.flatten.trans (sent_run has k t h.thread).popped

/-- A bound on the steps of a session's thread until `total` of its arrays have been popped. -/
def Client.drain (s : Client) (k total : ℕ) : ℕ :=
  (s.threads[k]?.map fun t => Network.drain total t s.mem).getD 0

theorem Flowing.drain_eq {s : Client} {k : ℕ} {t : FTCPSocketRunnable} (h : Flowing s k t)
    (total : ℕ) : s.drain k total = Network.drain total t s.mem := by
  rw [Client.drain, h.thread, Option.map_some, Option.getD_some]

/-- A run that does not disturb a session keeps it going. -/
theorem flowing_run {s s' : Client} {k : ℕ} {t : FTCPSocketRunnable} (h : Flowing s k t)
    {bs : List Act} (hquiet : EachStep Client.step Undisturbed s bs)
    (hbs : run Client.step s bs = some s') :
    ∃ t', Flowing s' k t' ∧ t'.peer = t.peer ∧ t.enqueued <+: t'.enqueued := by
  refine run_invariant_of_eachStep Client.step
    (I := fun s => ∃ u, Flowing s k u ∧ u.peer = t.peer ∧ t.enqueued <+: u.enqueued)
    ⟨t, h, rfl, List.prefix_rfl⟩ ?_ hquiet hbs
  rintro s a s' ⟨u, hu, hpeer, hfirst⟩ ha hs
  obtain ⟨u', hu', hpeer', hmore, -⟩ := flowing_step hu ha hs
  exact ⟨u', hu', hpeer'.trans hpeer, hfirst.trans hmore⟩

/-- After as many steps of its thread as the bound says, the arrays have been popped. -/
theorem drain_run {s s' : Client} {k : ℕ} {t : FTCPSocketRunnable} (h : Flowing s k t)
    {bs : List Act} (hquiet : EachStep Client.step Undisturbed s bs)
    (hbs : run Client.step s bs = some s')
    (hmany : s.drain k t.enqueued.length ≤ bs.countP (Act.ofThread k)) :
    s'.drain k t.enqueued.length = 0 := by
  -- a step that does not disturb the session does not raise the bound
  have hstep : ∀ s a s', (∃ u, Flowing s k u ∧ t.enqueued <+: u.enqueued) → Undisturbed s a →
      s.step a = some s' → (∃ u, Flowing s' k u ∧ t.enqueued <+: u.enqueued) ∧
        s'.drain k t.enqueued.length ≤
          s.drain k t.enqueued.length - if a.ofThread k then 1 else 0 := by
    rintro s a s' ⟨u, hu, hfirst⟩ ha hs
    obtain ⟨u', hu', -, hmore, hdrain⟩ := flowing_step hu ha hs
    rw [hu.drain_eq, hu'.drain_eq]
    exact ⟨⟨u', hu', hfirst.trans hmore⟩, hdrain _ hfirst.length_le⟩
  refine reaches_of_variant (I := fun s => ∃ u, Flowing s k u ∧ t.enqueued <+: u.enqueued)
    (G := fun s => s.drain k t.enqueued.length = 0) (μ := fun s => s.drain k t.enqueued.length)
    (Φ := fun _ => 0) (c := Act.ofThread k) (r := fun _ => 0) (fun _ _ hzero => hzero) ?_ ?_
    ⟨t, h, List.prefix_rfl⟩ hquiet hbs ?_
  · intro s a s' hI ha hs hzero
    have hle := hstep s a s' hI ha hs
    exact ⟨hle.1, by omega⟩
  · intro s a s' hI ha hs hpos
    obtain ⟨hI', hle⟩ := hstep s a s' hI ha hs
    refine ⟨hI', ?_⟩
    by_cases hc : a.ofThread k = true
    · rw [if_pos hc] at hle ⊢
      omega
    · rw [if_neg hc] at hle ⊢
      omega
  · simpa using hmany

/-- **In every run**, from every state of it in which the thread of a session is going on: as
long as nobody stops it and its calls succeed, it has a next step, and the arrays that were
passed to `Send` are with the socket, in order, after a bounded number of its steps, whatever
the game thread does between them, more calls of `Send` included. -/
theorem drained_run {as : List Act} {s : Client} (h : run Client.step {} as = some s) {k : ℕ}
    {t : FTCPSocketRunnable} (ht : s.threads[k]? = some t) (hlive : Live t)
    (hlen : t.peer.length < 2 ^ 31) (hok : HeadersOk t.peer) {bs : List Act} {s' : Client}
    (hbs : run Client.step s bs = some s') (hquiet : EachStep Client.step Undisturbed s bs) :
    (∃ b s'', Undisturbed s' (.io k b) ∧ s'.step (.io k b) = some s'') ∧
      (s.drain k t.enqueued.length ≤ bs.countP (Act.ofThread k) →
        ∃ t', s'.threads[k]? = some t' ∧ t.enqueued.flatten <+: t'.accepted) := by
  have hstart : Flowing s k t := ⟨⟨as, h⟩, ht, hlen, hok, hlive⟩
  obtain ⟨t', hflow, -, hfirst⟩ := flowing_run hstart hquiet hbs
  refine ⟨?_, fun hmany => ⟨t', hflow.thread, hflow.accepted hfirst ?_⟩⟩
  · obtain ⟨b, hb, hprogress, hio⟩ :=
      exists_succeeds (m := s'.mem) hflow.live hflow.looping hflow.ne_fault
    obtain ⟨s'', hs''⟩ := hflow.exists_step hb hprogress hio
    exact ⟨b, s'', hs''⟩
  · rw [← hflow.drain_eq]
    exact drain_run hstart hquiet hbs hmany

/-- An array is put on the queue while the thread is waiting for bytes. -/
def sendWhileReceiving : List Act :=
  [.connect [7, 8, 9], .io 0 (.init true true true), .io 0 (.loopTest true), .io 0 .sendTest,
    .io 0 .peek, .io 0 .sendDone, .io 0 (.hasPendingData (some 2)), .send [1, 2, 3]]

/-- The thread receives two bytes and sends three, while another array is put on the queue;
then it sends that. -/
def receiveAndSend : List Act :=
  [.io 0 (.recv (some 1)), .runTask, .io 0 (.recv (some 1)), .send [4], .io 0 .received,
    .io 0 .decode, .io 0 .recvDone, .io 0 (.loopTest true), .io 0 .sendTest, .io 0 .peek,
    .io 0 (.send (some 2)), .io 0 (.send (some 1)), .io 0 .pop, .io 0 .sendTest, .io 0 .peek,
    .io 0 (.send (some 1)), .io 0 .pop, .io 0 .sendTest, .io 0 .peek]

/-- The first array is sent after seventeen steps of the thread at most. -/
theorem drained_run_receiveAndSend :
    ∃ s s' t', run Client.step {} sendWhileReceiving = some s ∧ s.drain 0 1 = 17 ∧
      run Client.step s receiveAndSend = some s' ∧ s'.threads[0]? = some t' ∧
      [1, 2, 3] <+: t'.accepted := by
  obtain ⟨s, hs⟩ : ∃ s, run Client.step {} sendWhileReceiving = some s := ⟨_, rfl⟩
  obtain ⟨s', hs'⟩ : ∃ s', run Client.step s receiveAndSend = some s' := by
    cases hs
    exact ⟨_, rfl⟩
  obtain ⟨t, ht⟩ : ∃ t, s.threads[0]? = some t := by
    cases hs
    exact ⟨_, rfl⟩
  have hpeer : t.peer = [7, 8, 9] := by
    cases hs
    cases ht
    rfl
  have hlive : Live t := by
    cases hs
    cases ht
    exact ⟨rfl, rfl, Pc.noConfusion, Pc.noConfusion⟩
  have hqueue : t.enqueued = [[1, 2, 3]] := by
    cases hs
    cases ht
    rfl
  have hbound : s.drain 0 1 = 17 := by
    cases hs
    rfl
  have hquiet : EachStep Client.step Undisturbed s receiveAndSend := by
    cases hs
    decide
  have hok : HeadersOk t.peer := by
    rw [hpeer]
    exact .of_none (by decide) fun h4 => absurd h4 (by decide)
  obtain ⟨-, hsent⟩ := drained_run hs ht hlive (by rw [hpeer]; decide) hok hs' hquiet
  rw [hqueue, List.length_singleton, hbound] at hsent
  obtain ⟨t', ht', haccepted⟩ := hsent (by decide)
  exact ⟨s, s', t', hs, hbound, hs', ht', haccepted⟩

end ThirdPersonMP.Network
