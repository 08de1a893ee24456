import Mathlib.Algebra.Ring.Nat
import ThirdPersonMP.Network.Draining

/-!
# What has arrived is dispatched

`FTCPSocketRunnable::Run` receives when it has sent all that is in `SendBuffer`, as much as
`HasPendingData` announces, and has the decoder take the frames out of it before it goes on
(`TcpSocketRunnable.cpp`, 68–134). The game thread may put more on the queue at any time, and
each array delays the next `Recv` by what it takes to send it.

* `arrival` — a bound on the steps until all that the peer sends is received and decoded;
  `IoStep.arrival_lt`.
* `arrival_step` — a step of the thread lowers it, and an array that is queued raises it by its
  bytes and four.
* `arrived_run` — from every state of every run: when the peer has sent all that it sends, its
  frames are in the message queue or dispatched after a bounded number of steps of the thread,
  none missing, none of them twice and in order.
-/

namespace ThirdPersonMP.Network

open Base Library

/-! ### A thread in its loop -/

/-- All that the peer sends is there: `HasPendingData` announces some of it until all is read. -/
def Arrived (t : FTCPSocketRunnable) : IoAct → Prop
  | .hasPendingData none => t.incoming = []
  | .hasPendingData (some pendingDataSize) => 0 < pendingDataSize.toNat
  | _ => True

instance (t : FTCPSocketRunnable) (a : IoAct) : Decidable (Arrived t a) := by
  unfold Arrived
  split <;> infer_instance

/-- From `HasPendingData` to the end of the decode callback. -/
def Pc.receives : Pc → Bool
  | .receiving _ _ _ | .received _ | .decoding => true
  | _ => false

theorem betweenReceives_of_receives {pc : Pc} (h : pc.receives = false) : BetweenReceives pc := by
  refine ⟨fun o p n hpc => ?_, fun o hpc => ?_, fun hpc => ?_⟩
  · rw [hpc] at h
    cases h
  · rw [hpc] at h
    cases h
  · rw [hpc] at h
    cases h

/-- All bytes are read, and the decoder has taken the frames out of them. -/
def Emptied (t : FTCPSocketRunnable) : Prop := t.incoming = [] ∧ t.pc.receives = false

instance (t : FTCPSocketRunnable) : Decidable (Emptied t) := inferInstanceAs (Decidable (_ ∧ _))

/-- A bound on the steps until that, in terms of the arrays to be sent before the next `Recv`,
the bytes that the decoder has and those still to come; a byte may take a round of the loop. -/
def arrival (t : FTCPSocketRunnable) (m : Shared) : ℕ :=
  let rest :=
    queueCost m.sendBuffer.length m.sendBuffer + m.recvData.length + 12 * t.incoming.length
  match t.pc with
  | .recvTest => rest + 1
  | .sendDone => rest + 2
  | .peek => rest + 3
  | .sending _ sendedCount => rest + 3 - (1 + sendedCount)
  | .sent buffer _ => rest + 3 - (2 + buffer.length)
  | .sendTest => rest + 4
  | .loopTest => rest + 5
  | .init | .recvDone => rest + 6
  | .decoding => rest + 7
  | .received _ => rest + 8
  | .receiving _ pendingDataSize bytesReadTotal =>
    rest + 9 - 11 * (pendingDataSize - bytesReadTotal)
  | .exit | .ended | .fault => 0

/-- The head of the queue, and the arrays behind it. -/
theorem queueCost_head {sendBuffer : List Bytes} {buffer : Bytes}
    (h : sendBuffer.head? = some buffer) :
    queueCost sendBuffer.length sendBuffer =
      buffer.length + 4 + queueCost sendBuffer.tail.length sendBuffer.tail := by
  obtain ⟨rest, rfl⟩ := List.head?_eq_some_iff.mp h
  exact queueCost_cons (Nat.succ_pos _) buffer rest

section

variable {t t' : FTCPSocketRunnable} {m m' : Shared} {a : IoAct}

/-- A thread that has received everything goes on sending. -/
theorem Emptied.ioStep (h : Emptied t) (hio : IoStep t m a t' m') (harr : Arrived t a) :
    Emptied t' := by
  obtain ⟨hnil, hpc⟩ := h
  cases hio with
  | hasPendingData hp hle =>
    rw [hnil, List.length_nil] at hle
    replace harr : 0 < _ := harr
    omega
  | recvFail hp | recv hp | writeFault hp | hand hp | noHand hp | decodeDone hp | decodeFrame hp
  | decodeFault hp =>
    rw [hp] at hpc
    cases hpc
  | loopTest | sendTest | sendDone | recvDone =>
    refine ⟨hnil, ?_⟩
    dsimp only
    split_ifs <;> rfl
  | send =>
    refine ⟨hnil, ?_⟩
    simp only [FTCPSocketRunnable.sendMore]
    split_ifs <;> rfl
  | _ => exact ⟨hnil, rfl⟩

/-- **A step of a thread that has still to receive lowers the bound.** -/
theorem IoStep.arrival_lt (h : IoStep t m a t' m') (hlive : Live t) (hl : Looping t)
    (ha : Succeeds a) (hp : Progress t a) (harr : Arrived t a) (hacc : Accepted t m.sendBuffer)
    (hlt : m.recvData.length < 2 ^ 31) (hfault : t'.pc ≠ .fault) (hne : ¬ Emptied t) :
    arrival t' m' < arrival t m := by
  have hstop := hlive.bManuallyStop
  have herr := hlive.bConnectionError
  cases h with
  | noSocket | noHost | refused => simp [Succeeds] at ha
  | sendFail | recvFail => exact ha.elim
  | setNumFault | writeFault | decodeFault => exact absurd rfl hfault
  | report hpc | exit hpc => exact absurd hpc hlive.ne_exit
  | noHand hpc hse =>
    rw [hstop, herr] at hse
    simp at hse
  | noPop hpc he =>
    rw [herr] at he
    cases he
  | connected hpc =>
    simp only [arrival, hpc]
    omega
  | @loopTest c hpc =>
    have hs := hl.socketPtr (by simp [hpc]) (by simp [hpc])
    replace ha : c = true := ha
    simp [arrival, hpc, hstop, hs, ha]
  | sendTest hpc => simp [arrival, hpc, hstop, herr]
  | peek hpc hb =>
    simp only [arrival, hpc]
    omega
  | peekEmpty hpc hb =>
    simp only [arrival, hpc]
    omega
  | @send buffer n k hpc hk =>
    simp only [Accepted, hpc] at hacc
    simp only [Progress, hpc] at hp
    have := queueCost_head hacc.2.1
    have hsent := hacc.2.2.1
    simp only [arrival, hpc, FTCPSocketRunnable.sendMore]
    by_cases hmore : n + k < buffer.length
    · have := hp (by omega)
      simp only [hmore, if_true]
      omega
    · simp only [hmore, if_false]
      omega
  | @pop buffer n hpc he =>
    simp only [Accepted, hpc] at hacc
    have := queueCost_head hacc.1
    simp only [arrival, hpc]
    omega
  | sendDone hpc => simp [arrival, hpc, hstop, herr]
  | noPendingData hpc => exact absurd ⟨harr, by rw [hpc]; rfl⟩ hne
  | @hasPendingData p recvData hpc hpend hs =>
    have hlen := TArray.length_setNum hs
    have hsum := toInt32_ofNat_add_le m.recvData.length p
    replace harr : 0 < p.toNat := harr
    simp only [arrival, hpc]
    omega
  | @recv o p n k recvData hpc hk hi hw =>
    simp only [Progress, hpc] at hp
    have hpending := hl.pending o p n hpc
    have hlen := (TArray.length_writeAt hw).1
    simp only [arrival, hpc, FTCPSocketRunnable.recvMore, List.length_drop]
    by_cases hmore : n + k < p
    · have := hp (by omega)
      simp only [hmore, if_true]
      omega
    · simp only [hmore, if_false]
      omega
  | hand hpc =>
    simp only [arrival, hpc]
    omega
  | decodeDone hpc hi =>
    simp only [arrival, hpc]
    omega
  | decodeFrame hpc hi =>
    have := length_lt_of_iteration hlt hi
    simp only [arrival, hpc]
    omega
  | recvDone hpc => simp [arrival, hpc, hstop, herr]

/-- The bound of a live thread is not `0`. -/
theorem arrival_pos (hlive : Live t) (hl : Looping t) (hacc : Accepted t m.sendBuffer)
    (hfault : t.pc ≠ .fault) : 0 < arrival t m := by
  unfold arrival
  cases hpc : t.pc with
  | sending buffer count =>
    simp only [Accepted, hpc] at hacc
    obtain ⟨-, hhead, hcount, -⟩ := hacc
    have := queueCost_head hhead
    dsimp only
    omega
  | sent buffer count =>
    simp only [Accepted, hpc] at hacc
    have := queueCost_head hacc.1
    dsimp only
    omega
  | receiving o p n =>
    have := hl.pending o p n hpc
    dsimp only
    omega
  | exit => exact absurd hpc hlive.ne_exit
  | ended => exact absurd hpc hlive.ne_ended
  | fault => exact absurd hpc hfault
  | init | loopTest | sendTest | peek | sendDone | recvTest | received | decoding | recvDone =>
    dsimp only
    omega

/-- A live thread has a next step that announces what has arrived. -/
theorem exists_arrived (hlive : Live t) (hl : Looping t) (hfault : t.pc ≠ .fault) :
    ∃ a, Succeeds a ∧ Progress t a ∧ Arrived t a ∧ (ioStep t m a).isSome = true := by
  by_cases hpc : t.pc = .recvTest
  · by_cases hnil : t.incoming = []
    · refine ⟨.hasPendingData none, trivial, trivial, hnil, ?_⟩
      unfold ioStep
      simp only [hpc]
      rfl
    · -- one byte is announced
      refine ⟨.hasPendingData (some 1), trivial, trivial, Nat.one_pos, ?_⟩
      have hpos : UInt32.toNat 1 ≤ t.incoming.length := List.length_pos_iff.mpr hnil
      unfold ioStep
      simp only [hpc]
      rw [if_pos hpos]
      split <;> rfl
  · obtain ⟨a, ha, hp, hio⟩ := exists_succeeds (m := m) hlive hl hfault
    obtain ⟨⟨u, m'⟩, hu⟩ := Option.isSome_iff_exists.mp hio
    refine ⟨a, ha, hp, ?_, hio⟩
    cases IoStep.of_ioStep hu with
    | noPendingData h | hasPendingData h | setNumFault h => exact absurd h hpc
    | _ => trivial

end

/-! ### The sessions -/

/-- In every session all that the peer sends is there. -/
def AllArrived (s : Client) : Act → Prop
  | .io k b => ∀ t ∈ s.threads[k]?, Arrived t b
  | _ => True

instance (s : Client) : ∀ a, Decidable (AllArrived s a)
  | .io _ _ => inferInstanceAs (Decidable (∀ t ∈ _, _))
  | .connect _ | .disconnect | .mgrDisconnect | .join | .callbackReturn | .send _ | .runTask
  | .tick => inferInstanceAs (Decidable True)

/-- The steps that it takes to send an array that the game thread puts on the queue. -/
def sendCost : Act → ℕ
  | .send data => data.length + 4
  | _ => 0

/-- A bound on the steps of a session's thread until it has received everything. -/
def Client.arrival (s : Client) (k : ℕ) : ℕ :=
  (s.threads[k]?.map fun t => if Emptied t then 0 else Network.arrival t s.mem).getD 0

theorem Flowing.arrival_eq {s : Client} {k : ℕ} {t : FTCPSocketRunnable} (h : Flowing s k t) :
    s.arrival k = if Emptied t then 0 else Network.arrival t s.mem := by
  rw [Client.arrival, h.thread, Option.map_some, Option.getD_some]

theorem Flowing.arrival_le {s : Client} {k : ℕ} {t : FTCPSocketRunnable} (h : Flowing s k t) :
    s.arrival k ≤ Network.arrival t s.mem := by
  rw [h.arrival_eq]
  split <;> omega

/-- Arrays put on the queue are sent after those that are there. -/
theorem queueCost_length_append (sendBuffer arrays : List Bytes) :
    queueCost (sendBuffer ++ arrays).length (sendBuffer ++ arrays) =
      queueCost sendBuffer.length sendBuffer + queueCost arrays.length arrays := by
  simp only [queueCost, List.take_length, List.map_append, List.sum_append]

theorem queueCost_sentTo (s : Client) (k : ℕ) (a : Act) :
    queueCost (sentTo s k a).length (sentTo s k a) ≤ sendCost a := by
  cases a with
  | send data =>
    simp only [sentTo, sendCost]
    split <;> simp [queueCost]
  | _ => exact Nat.le_refl _

/-- An array that is put on the queue raises the bound by no more than its cost. -/
theorem arrival_sentTo {s s' : Client} {k : ℕ} {t : FTCPSocketRunnable} {a : Act}
    (hb : s'.mem.sendBuffer = s.mem.sendBuffer ++ sentTo s k a)
    (hr : s'.mem.recvData = s.mem.recvData) (enqueued : List Bytes) :
    Network.arrival { t with enqueued := enqueued } s'.mem ≤
      Network.arrival t s.mem + queueCost (sentTo s k a).length (sentTo s k a) := by
  have hqueue := queueCost_length_append s.mem.sendBuffer (sentTo s k a)
  rw [← hb] at hqueue
  unfold Network.arrival
  rw [hr]
  dsimp only
  split <;> omega

/-- **A step that does not disturb a session** lowers the bound when it is a step of its
thread, and raises it by what the game thread puts on the queue; it does not leave `0`. -/
theorem arrival_step {s s' : Client} {k : ℕ} {t : FTCPSocketRunnable} {a : Act}
    (h : Flowing s k t) (ha : Undisturbed s a) (harr : AllArrived s a)
    (hs : s.step a = some s') :
    ∃ t', Flowing s' k t' ∧ t'.peer = t.peer ∧ (Emptied t → Emptied t') ∧
      (¬ Emptied t →
        s'.arrival k + (if a.ofThread k then 1 else 0) ≤ s.arrival k + sendCost a) := by
  obtain ⟨t', hflow, ⟨hno, rfl, hb, hr⟩ | ⟨b, rfl, hio⟩⟩ := flowing_cases h ha hs
  · refine ⟨_, hflow, rfl, id, fun hne => ?_⟩
    have hle := hflow.arrival_le.trans (arrival_sentTo hb hr (t.enqueued ++ sentTo s k a))
    have hcost := queueCost_sentTo s k a
    rw [h.arrival_eq, if_neg hne, hno]
    simp only [Bool.false_eq_true, if_false]
    omega
  · have harr := harr t h.thread
    refine ⟨t', hflow, hio.peer_eq, fun he => he.ioStep hio harr, fun hne => ?_⟩
    have hlt := hio.arrival_lt h.live h.looping ha.1 (ha.2 t h.thread) harr h.sent.2 h.recvData
      hflow.ne_fault hne
    have hle := hflow.arrival_le
    rw [h.arrival_eq, if_neg hne]
    simp only [Act.ofThread, decide_true, if_true]
    omega

/-- When the bound is `0` everything has been received. -/
theorem Flowing.emptied {s : Client} {k : ℕ} {t : FTCPSocketRunnable} (h : Flowing s k t)
    (hzero : s.arrival k = 0) : Emptied t := by
  by_contra hne
  rw [h.arrival_eq, if_neg hne] at hzero
  exact absurd hzero (arrival_pos h.live h.looping h.sent.2 h.ne_fault).ne'

/-- A run that does not disturb a session: its thread receives everything, after as many steps
as the bound says and the arrays take that are put on the queue meanwhile. -/
theorem arrival_run {s s' : Client} {k : ℕ} {t : FTCPSocketRunnable} (h : Flowing s k t)
    {bs : List Act} (hquiet : EachStep Client.step Undisturbed s bs)
    (harrived : EachStep Client.step AllArrived s bs) (hbs : run Client.step s bs = some s') :
    ∃ t', Flowing s' k t' ∧ t'.peer = t.peer ∧
      (s.arrival k + (bs.map sendCost).sum ≤ bs.countP (Act.ofThread k) → Emptied t') := by
  have hP := hquiet.and harrived
  obtain ⟨t', hflow, hpeer⟩ : ∃ t', Flowing s' k t' ∧ t'.peer = t.peer := by
    refine run_invariant_of_eachStep Client.step
      (I := fun s => ∃ u, Flowing s k u ∧ u.peer = t.peer) ⟨t, h, rfl⟩ ?_ hP hbs
    rintro s a s' ⟨u, hu, hpeer⟩ ha hs
    obtain ⟨u', hu', hpeer', -⟩ := arrival_step hu ha.1 ha.2 hs
    exact ⟨u', hu', hpeer'.trans hpeer⟩
  refine ⟨t', hflow, hpeer, fun hmany => ?_⟩
  suffices hemptied : ∃ u, Flowing s' k u ∧ Emptied u by
    obtain ⟨u, hu, he⟩ := hemptied
    have hthread := hu.thread
    rw [hflow.thread, Option.some.injEq] at hthread
    exact hthread ▸ he
  refine reaches_of_variant (I := fun s => ∃ u, Flowing s k u)
    (G := fun s => ∃ u, Flowing s k u ∧ Emptied u) (μ := fun s => s.arrival k) (Φ := fun _ => 0)
    ?_ ?_ ?_ ⟨t, h⟩ hP hbs hmany
  · rintro s ⟨u, hu⟩ hzero
    exact ⟨u, hu, hu.emptied hzero⟩
  · rintro s a s' - ha hs ⟨u, hu, he⟩
    obtain ⟨u', hu', -, hstays, -⟩ := arrival_step hu ha.1 ha.2 hs
    exact ⟨⟨u', hu'⟩, u', hu', hstays he⟩
  · rintro s a s' ⟨u, hu⟩ ha hs hne
    obtain ⟨u', hu', -, -, hlowers⟩ := arrival_step hu ha.1 ha.2 hs
    exact ⟨⟨u', hu'⟩, hlowers fun he => hne ⟨u, hu, he⟩⟩

/-- What a thread that has received everything leaves on the message queue. -/
theorem Flowing.frames {s : Client} {k : ℕ} {t : FTCPSocketRunnable} (h : Flowing s k t)
    (he : Emptied t) :
    t.handed = t.peer ∧
      (payloads k (s.discarded.map Prod.snd) = [] →
        payloads k (s.dispatched.map Prod.snd) ++ payloads k s.mem.messageQueue =
          framing.frames t.peer) := by
  have hpc := betweenReceives_of_receives he.2
  have hhanded : t.handed = t.peer := by
    have hall := (h.buffered.between hpc h.recvFailed h.stopSeen).2
    rwa [he.1, List.append_nil] at hall
  obtain ⟨enqueued, hframes, -, hkept⟩ := h.inOrder.frames
  refine ⟨hhanded, fun hnone => ?_⟩
  have hdecoded : undecoded t s.mem.recvData = [] := if_neg hpc.2.2
  rw [hdecoded, List.append_nil, hhanded] at hframes
  rw [hkept hnone, hframes]

/-- **In every run**, from every state of it in which the thread of a session is going on: when
all that the peer sends is there, nobody stops the thread and its calls succeed, it has a next
step, and after a bounded number of its steps, more for each array that the game thread puts
on the queue, the frames of the peer's stream are dispatched or in the message queue, all of
them and in order, if none was discarded. -/
theorem arrived_run {as : List Act} {s : Client} (h : run Client.step {} as = some s) {k : ℕ}
    {t : FTCPSocketRunnable} (ht : s.threads[k]? = some t) (hlive : Live t)
    (hlen : t.peer.length < 2 ^ 31) (hok : HeadersOk t.peer) {bs : List Act} {s' : Client}
    (hbs : run Client.step s bs = some s') (hquiet : EachStep Client.step Undisturbed s bs)
    (harrived : EachStep Client.step AllArrived s bs) :
    (∃ b s'', Undisturbed s' (.io k b) ∧ AllArrived s' (.io k b) ∧
        s'.step (.io k b) = some s'') ∧
      (s.arrival k + (bs.map sendCost).sum ≤ bs.countP (Act.ofThread k) →
        ∃ t', s'.threads[k]? = some t' ∧ t'.handed = t.peer ∧
          (payloads k (s'.discarded.map Prod.snd) = [] →
            payloads k (s'.dispatched.map Prod.snd) ++ payloads k s'.mem.messageQueue =
              framing.frames t.peer)) := by
  have hstart : Flowing s k t := ⟨⟨as, h⟩, ht, hlen, hok, hlive⟩
  obtain ⟨t', hflow, hpeer, hall⟩ := arrival_run hstart hquiet harrived hbs
  refine ⟨?_, fun hmany => ⟨t', hflow.thread, ?_⟩⟩
  · obtain ⟨b, hb, hprogress, harr, hio⟩ :=
      exists_arrived (m := s'.mem) hflow.live hflow.looping hflow.ne_fault
    obtain ⟨s'', hquiet', hs''⟩ := hflow.exists_step hb hprogress hio
    refine ⟨b, s'', hquiet', fun v hv => ?_, hs''⟩
    rw [hflow.thread, Option.mem_some] at hv
    exact hv ▸ harr
  · rw [← hpeer]
    exact hflow.frames (hall hmany)

/-- Of a message of one byte all but the last byte has been received. -/
def lastByteMissing : List Act :=
  [.connect [1, 0, 0, 0, 9], .io 0 (.init true true true), .io 0 (.loopTest true),
    .io 0 .sendTest, .io 0 .peek, .io 0 .sendDone, .io 0 (.hasPendingData (some 5)),
    .io 0 (.recv (some 4))]

/-- The last byte is received while an array is put on the queue, which is sent then. -/
def receiveLastByte : List Act :=
  [.send [4], .io 0 (.recv (some 1)), .io 0 .received, .io 0 .decode, .tick, .io 0 .decode,
    .io 0 .recvDone, .io 0 (.loopTest true), .io 0 .sendTest, .io 0 .peek, .io 0 (.send (some 1)),
    .io 0 .pop, .io 0 .sendTest, .io 0 .peek, .io 0 .sendDone, .io 0 (.hasPendingData none),
    .io 0 .recvDone, .io 0 (.loopTest true), .io 0 .sendTest, .io 0 .peek, .io 0 .sendDone,
    .io 0 (.hasPendingData none)]

/-- It is dispatched after fifteen steps of the thread at most, and five more for the array. -/
theorem arrived_run_receiveLastByte :
    ∃ s s' t', run Client.step {} lastByteMissing = some s ∧ s.arrival 0 = 15 ∧
      (receiveLastByte.map sendCost).sum = 5 ∧ run Client.step s receiveLastByte = some s' ∧
      s'.threads[0]? = some t' ∧ t'.handed = [1, 0, 0, 0, 9] ∧
      (payloads 0 (s'.discarded.map Prod.snd) = [] →
        payloads 0 (s'.dispatched.map Prod.snd) ++ payloads 0 s'.mem.messageQueue =
          framing.frames [1, 0, 0, 0, 9]) := by
  obtain ⟨s, hs⟩ : ∃ s, run Client.step {} lastByteMissing = some s := ⟨_, rfl⟩
  obtain ⟨s', hs'⟩ : ∃ s', run Client.step s receiveLastByte = some s' := by
    cases hs
    exact ⟨_, rfl⟩
  obtain ⟨t, ht⟩ : ∃ t, s.threads[0]? = some t := by
    cases hs
    exact ⟨_, rfl⟩
  have hpeer : t.peer = [1, 0, 0, 0, 9] := by
    cases hs
    cases ht
    rfl
  have hlive : Live t := by
    cases hs
    cases ht
    exact ⟨rfl, rfl, Pc.noConfusion, Pc.noConfusion⟩
  have hbound : s.arrival 0 = 15 := by
    cases hs
    rfl
  have hquiet : EachStep Client.step Undisturbed s receiveLastByte := by
    cases hs
    decide
  have harrived : EachStep Client.step AllArrived s receiveLastByte := by
    cases hs
    decide
  have hok : HeadersOk t.peer := by
    have hencoded : HeadersOk ([[9]].flatMap encoder) := headersOk_flatMap_encoder (by decide)
    rw [hpeer]
    exact hencoded
  obtain ⟨-, hall⟩ := arrived_run hs ht hlive (by rw [hpeer]; decide) hok hs' hquiet harrived
  rw [hbound, hpeer] at hall
  obtain ⟨t', ht', hhanded, hframes⟩ := hall (by decide)
  exact ⟨s, s', t', hs, hbound, rfl, hs', ht', hhanded, hframes⟩

end ThirdPersonMP.Network
