import Mathlib.Algebra.Ring.Nat
import ThirdPersonMP.Library.Simulation
import ThirdPersonMP.Network.Delivery
import ThirdPersonMP.Network.SendPath

/-!
# Every call returns

`FTCPSocket::Disconnect` (`TcpSocket.cpp`, 67–82) blocks the game thread until the IO thread
has completed. The thread tests `bManuallyStop` between its calls (`TcpSocketRunnable.cpp`,
64–134), but not in the two inner loops, which end when `Send` and `Recv` have handled all
that they were offered, or fail.

* `stepsLeft` — how many more steps a stopped thread takes; `IoStep.stepsLeft_lt`.
* `exists_ioStep` — a thread that has not completed has a next step.
* `returns_run` — from every state of every run, the calls that are open return after a
  bounded number of steps, whatever the sockets answer, if only each `Send` and each `Recv`
  handles some of what it is offered (`Progress`).
* `ioStep_send_zero` — a `Send` that succeeds with no byte leaves a stopped thread where it is.
-/

namespace ThirdPersonMP.Network

open Base Library

/-! ### A stopped thread -/

/-- `Send` and `Recv` handle at least one byte, when they are offered any. -/
def Progress (t : FTCPSocketRunnable) : IoAct → Prop
  | .send (some bytesSent) =>
    match t.pc with
    | .sending buffer sendedCount => sendedCount < buffer.length → 0 < bytesSent
    | _ => True
  | .recv (some bytesRead) =>
    match t.pc with
    | .receiving _ pendingDataSize bytesReadTotal =>
      bytesReadTotal < pendingDataSize → 0 < bytesRead
    | _ => True
  | _ => True

instance (t : FTCPSocketRunnable) (a : IoAct) : Decidable (Progress t a) := by
  unfold Progress
  split
  · split <;> infer_instance
  · split <;> infer_instance
  · infer_instance

/-- A bound on the steps that a stopped thread has still to take. -/
def stepsLeft (t : FTCPSocketRunnable) (m : Shared) : ℕ :=
  match t.pc with
  | .ended | .fault => 0
  | .exit => 1
  | .loopTest | .sendDone | .recvDone => 2
  | .init | .sendTest | .received _ => 3
  | .sent _ _ => 4
  | .sending buffer sendedCount => 5 + (buffer.length - sendedCount)
  | .peek => 6 + (headBytes m.sendBuffer).length
  | .receiving _ pendingDataSize bytesReadTotal => 4 + (pendingDataSize - bytesReadTotal)
  | .recvTest => 5 + t.incoming.length
  | .decoding => 3 + m.recvData.length

/-- A frame that is cut off leaves fewer bytes. -/
theorem length_lt_of_iteration {b f r : Bytes} (hb : b.length < 2 ^ 31)
    (h : iteration b = .frame (some f) r) : r.length < b.length := by
  have hheader : 4 < b.length → header b < 2 ^ 32 - 4 := by
    intro h4
    by_contra hge
    rw [iteration_of_wrap hb h4 (by omega)] at h
    cases h
  rcases iteration_eq hb hheader with ⟨-, hdone | hincomplete⟩ | ⟨f', r', hn, hi⟩
  · rw [hdone] at h
    cases h
  · rw [hincomplete] at h
    cases h
  · rw [hi] at h
    cases h
    exact framing.next_length hn

section

variable {t t' : FTCPSocketRunnable} {m m' : Shared} {a : IoAct}

/-- **A step of a stopped thread brings it closer to its end.** -/
theorem IoStep.stepsLeft_lt (h : IoStep t m a t' m') (hs : t.bManuallyStop = true)
    (hp : Progress t a) (hlt : m.recvData.length < 2 ^ 31) : stepsLeft t' m' < stepsLeft t m := by
  cases h with
  | noSocket hpc | noHost hpc | refused hpc | connected hpc => simp [stepsLeft, hpc]
  | loopTest hpc | sendTest hpc | sendDone hpc | recvDone hpc => simp [stepsLeft, hpc, hs]
  | peek hpc hb =>
    simp only [stepsLeft, hpc, headBytes, hb, List.head?_cons, Option.getD_some]
    omega
  | peekEmpty hpc hb =>
    simp only [stepsLeft, hpc]
    omega
  | sendFail hpc =>
    simp only [stepsLeft, hpc]
    omega
  | @send buffer n k hpc hk =>
    simp only [Progress, hpc] at hp
    simp only [stepsLeft, hpc, FTCPSocketRunnable.sendMore]
    by_cases hmore : n + k < buffer.length
    · have := hp (by omega)
      simp only [hmore, if_true]
      omega
    · simp only [hmore, if_false]
      omega
  | pop hpc he | noPop hpc he => simp [stepsLeft, hpc]
  | noPendingData hpc =>
    simp only [stepsLeft, hpc]
    omega
  | hasPendingData hpc hn hset =>
    simp only [stepsLeft, hpc]
    omega
  | setNumFault hpc hn hset =>
    simp only [stepsLeft, hpc]
    omega
  | recvFail hpc =>
    simp only [stepsLeft, hpc]
    omega
  | @recv o p n k recvData hpc hk hi hw =>
    simp only [Progress, hpc] at hp
    simp only [stepsLeft, hpc, FTCPSocketRunnable.recvMore]
    by_cases hmore : n + k < p
    · have := hp (by omega)
      simp only [hmore, if_true]
      omega
    · simp only [hmore, if_false]
      omega
  | writeFault hpc hk hi hw =>
    simp only [stepsLeft, hpc]
    omega
  | hand hpc hstop he =>
    rw [hs] at hstop
    cases hstop
  | noHand hpc hse => simp [stepsLeft, hpc]
  | decodeDone hpc hi =>
    simp only [stepsLeft, hpc]
    omega
  | decodeFrame hpc hi =>
    have := length_lt_of_iteration hlt hi
    simp only [stepsLeft, hpc]
    omega
  | decodeFault hpc hi =>
    simp only [stepsLeft, hpc]
    omega
  | report hpc hsock he hstop =>
    rw [hs] at hstop
    cases hstop
  | exit hpc hq => simp [stepsLeft, hpc]

/-- A thread that has not completed has a next step, unless a count has left its array. -/
theorem exists_ioStep (he : t.pc ≠ .ended) (hf : t.pc ≠ .fault) :
    ∃ a, Progress t a ∧ (ioStep t m a).isSome = true := by
  unfold ioStep
  cases hpc : t.pc with
  | init => exact ⟨.init false false false, trivial, rfl⟩
  | loopTest => exact ⟨.loopTest false, trivial, rfl⟩
  | sendTest => exact ⟨.sendTest, trivial, rfl⟩
  | peek =>
    refine ⟨.peek, trivial, ?_⟩
    cases m.sendBuffer <;> rfl
  | sending buffer n => exact ⟨.send none, trivial, rfl⟩
  | sent buffer n =>
    refine ⟨.pop, trivial, ?_⟩
    dsimp only
    split <;> rfl
  | sendDone => exact ⟨.sendDone, trivial, rfl⟩
  | recvTest => exact ⟨.hasPendingData none, trivial, rfl⟩
  | receiving o p n => exact ⟨.recv none, trivial, rfl⟩
  | received o =>
    refine ⟨.received, trivial, ?_⟩
    dsimp only
    split <;> rfl
  | decoding =>
    refine ⟨.decode, trivial, ?_⟩
    dsimp only
    split <;> rfl
  | recvDone => exact ⟨.recvDone, trivial, rfl⟩
  | exit => exact ⟨.exit, trivial, rfl⟩
  | ended => exact absurd hpc he
  | fault => exact absurd hpc hf

/-- The inner loop does not see `bManuallyStop`: a `Send` that succeeds with no byte leaves
the thread where it is, stopped or not. -/
theorem ioStep_send_zero {buffer : Bytes} {n : ℕ} (hpc : t.pc = .sending buffer n)
    (hn : n < buffer.length) : ioStep t m (.send (some 0)) = some (t, m) := by
  unfold ioStep
  simp only [hpc, Nat.zero_le, if_true, FTCPSocketRunnable.sendMore, List.take_zero,
    List.append_nil, Nat.add_zero, hn]
  rw [← hpc]

end

/-! ### The open calls -/

/-- `InternalDisconnectFunc` is never the innermost call: it waits for `FTCPSocket::Disconnect`. -/
def StackOk : List Frame → Prop
  | [] => True
  | .internalDisconnectFunc _ :: _ => False
  | _ :: .internalDisconnectFunc _ :: rest => StackOk rest
  | _ :: rest => StackOk rest

/-- `FTCPSocket::Disconnect` is called, by `InternalDisconnectFunc` or directly. -/
theorem StackOk.cons {stack : List Frame} {f : Frame} (h : StackOk stack)
    (hf : ∀ j, f ≠ .internalDisconnectFunc j) : StackOk (f :: stack) := by
  cases f with
  | internalDisconnectFunc j => exact absurd rfl (hf j)
  | waitForCompletion k | disconnectedDelegate =>
    cases stack with
    | nil => trivial
    | cons f' rest =>
      cases f' with
      | internalDisconnectFunc j => exact h.elim
      | waitForCompletion j | disconnectedDelegate => exact h

/-- The innermost call is `Disconnect`, whatever it is doing. -/
theorem StackOk.head {k : ℕ} {rest : List Frame} (h : StackOk (.waitForCompletion k :: rest)) :
    StackOk (.disconnectedDelegate :: rest) := by
  cases rest with
  | nil => trivial
  | cons f rest => cases f <;> exact h

/-- `Disconnect` returns to a caller other than `InternalDisconnectFunc`. -/
theorem StackOk.tail {rest : List Frame} (h : StackOk (.disconnectedDelegate :: rest))
    (hrest : ∀ j rest', rest ≠ .internalDisconnectFunc j :: rest') : StackOk rest := by
  cases rest with
  | nil => trivial
  | cons f rest =>
    cases f with
    | internalDisconnectFunc j => exact absurd rfl (hrest j rest)
    | waitForCompletion j | disconnectedDelegate => exact h

theorem stackOk_callbackReturn {s s' : Client} (h : StackOk s.stack)
    (hs : s.callbackReturn = some s') : StackOk s'.stack := by
  simp only [Client.callbackReturn] at hs
  split at hs
  · rename_i hstack
    cases hs
    rw [hstack] at h
    exact h
  · rename_i rest hno hstack
    cases hs
    rw [hstack] at h
    exact h.tail hno
  · cases hs

theorem stackOk_step {s s' : Client} {a : Act} (h : StackOk s.stack) (hs : s.step a = some s') :
    StackOk s'.stack := by
  by_cases ha : a = .callbackReturn
  · subst ha
    exact stackOk_callbackReturn h hs
  · cases ClientStep.of_step hs with
    | disconnect | connectionError => exact h.cons (by simp)
    | mgrDisconnect => exact h
    | join hstack ht he =>
      rw [hstack] at h
      exact h.head
    | callbackReturn | mgrReturn => exact absurd rfl ha
    | _ => exact h

/-! ### Returning -/

/-- What brings the open calls closer to their end: a step of the thread that the innermost
waits for, or a return. -/
def Returning (s : Client) : Act → Prop
  | .io k a => s.stack.head? = some (.waitForCompletion k) ∧
    ∀ t ∈ s.threads[k]?, Progress t a
  | .join | .callbackReturn => True
  | _ => False

instance (s : Client) : ∀ a, Decidable (Returning s a)
  | .io _ _ => inferInstanceAs (Decidable (_ ∧ _))
  | .join | .callbackReturn => inferInstanceAs (Decidable True)
  | .connect _ | .disconnect | .mgrDisconnect | .send _ | .runTask | .tick =>
    inferInstanceAs (Decidable False)

/-- The returns that an open call needs. -/
def Frame.returns : Frame → ℕ
  | .waitForCompletion _ => 2
  | _ => 1

/-- A bound on the steps until all open calls have returned. -/
def Client.returnsIn (s : Client) : ℕ :=
  (s.stack.map Frame.returns).sum +
    match s.stack with
    | .waitForCompletion k :: _ => (s.threads[k]?.map (stepsLeft · s.mem)).getD 0
    | _ => 0

/-- A state of a run whose streams the decoder can handle. -/
structure Sound (s : Client) : Prop where
  reached : ∃ as, run Client.step {} as = some s
  streams : ∀ (k : ℕ) (t : FTCPSocketRunnable), s.threads[k]? = some t →
    t.peer.length < 2 ^ 31 ∧ HeadersOk t.peer
  stack : StackOk s.stack

namespace Sound

variable {s s' : Client} {a : Act}

theorem wf (h : Sound s) : Wf s := by
  obtain ⟨as, has⟩ := h.reached
  exact wf_run has

theorem step (h : Sound s) (ha : ∀ peer, a ≠ .connect peer) (hs : s.step a = some s') :
    Sound s' := by
  obtain ⟨as, has⟩ := h.reached
  refine ⟨⟨as ++ [a], (run_concat _).mpr ⟨s, has, hs⟩⟩, fun k u hu => ?_,
    stackOk_step h.stack hs⟩
  rcases (ClientStep.of_step hs).threads hu with ⟨t, ht, hpeer, -, -⟩ | ⟨-, -, hconnect⟩
  · rw [hpeer]
    exact h.streams k t ht
  · exact absurd hconnect (ha u.peer)

/-- The thread that the innermost call waits for: it is stopped, and `RecvData` is its. -/
theorem waiting (h : Sound s) {k : ℕ} {rest : List Frame}
    (hstack : s.stack = .waitForCompletion k :: rest) :
    ∃ t, s.threads[k]? = some t ∧ t.bManuallyStop = true ∧ t.pc ≠ .fault ∧
      s.mem.recvData.length < 2 ^ 31 := by
  obtain ⟨as, has⟩ := h.reached
  have hmem : .waitForCompletion k ∈ s.stack := by rw [hstack]; exact List.mem_cons_self ..
  have hlast := h.wf.current k (h.wf.waiting k hmem)
  obtain ⟨t, ht⟩ : ∃ t, s.threads[k]? = some t := ⟨_, List.getElem?_eq_getElem (by omega)⟩
  obtain ⟨hlen, hok⟩ := h.streams k t ht
  refine ⟨t, ht, h.wf.stopped k t ht (.inr hmem), fun hpc => ?_, (resting_run has).1⟩
  have hbuffered := (inOrder_run has ht hlen hok).buffered hlast
  rw [Buffered, hpc] at hbuffered
  exact hbuffered

/-- When the innermost call waits, no other does. -/
theorem rest (h : Sound s) {f : Frame} {rest : List Frame} (hstack : s.stack = f :: rest) :
    ∀ k, .waitForCompletion k ∉ rest := by
  intro k hk
  exact h.wf.inner k (by rw [hstack]; exact hk)

end Sound

/-- The bound when no call waits. -/
theorem returnsIn_of_not_mem {s : Client} (h : ∀ k, .waitForCompletion k ∉ s.stack) :
    s.returnsIn = (s.stack.map Frame.returns).sum := by
  unfold Client.returnsIn
  split
  · rename_i k rest hstack
    exact absurd (hstack ▸ List.mem_cons_self ..) (h k)
  · rfl

/-- **A step that returns lowers the bound.** -/
theorem returnsIn_lowers : Lowers Client.step Sound Returning Client.returnsIn := by
  intro s a s' h hr hs
  have hsound : Sound s' := by
    refine h.step (fun peer hpeer => ?_) hs
    rw [hpeer] at hr
    exact hr
  refine ⟨hsound, ?_⟩
  cases a with
  | io k b =>
    obtain ⟨hhead, hprogress⟩ := hr
    obtain ⟨rest, hstack⟩ := List.head?_eq_some_iff.mp hhead
    obtain ⟨t, ht, hstop, -, hlt⟩ := h.waiting hstack
    cases ClientStep.of_step hs with
    | @io _ _ t₀ t' m' ht₀ hio =>
      rw [ht, Option.some.injEq] at ht₀
      subst ht₀
      have hlt := hio.stepsLeft_lt hstop (hprogress t ht) hlt
      have hset : (s.threads.set k t')[k]? = some t' :=
        (getElem?_set_eq_some ht).mpr (.inl ⟨rfl, rfl⟩)
      simp only [Client.returnsIn, hstack, hset, ht, Option.map_some, Option.getD_some]
      omega
  | join =>
    cases ClientStep.of_step hs with
    | @join k rest t hstack ht he =>
      have hrest : ∀ j, .waitForCompletion j ∉ (Frame.disconnectedDelegate :: rest) := by
        intro j hj
        rcases List.mem_cons.mp hj with hj | hj
        · cases hj
        · exact h.rest hstack j hj
      rw [returnsIn_of_not_mem hrest]
      simp only [Client.returnsIn, hstack, List.map_cons, List.sum_cons, Frame.returns]
      omega
  | callbackReturn =>
    have hpop : ∀ {fs rest : List Frame}, s.stack = .disconnectedDelegate :: (fs ++ rest) →
        s'.stack = rest → s'.returnsIn < s.returnsIn := by
      intro fs rest hstack hstack'
      have hrest : ∀ j, .waitForCompletion j ∉ s'.stack := fun j hj =>
        h.rest hstack j (List.mem_append_right _ (hstack' ▸ hj))
      rw [returnsIn_of_not_mem hrest, hstack']
      simp only [Client.returnsIn, hstack, List.map_cons, List.map_append, List.sum_cons,
        List.sum_append, Frame.returns]
      omega
    cases ClientStep.of_step hs with
    | callbackReturn hstack => exact @hpop [] _ hstack rfl
    | @mgrReturn k rest hstack => exact @hpop [.internalDisconnectFunc k] _ hstack rfl
  | connect | disconnect | mgrDisconnect | send | runTask | tick => exact hr.elim

/-- While a call is open, the innermost can go on. -/
theorem exists_returning {s : Client} (h : Sound s) (hstack : s.stack ≠ []) :
    ∃ a s', Returning s a ∧ s.step a = some s' := by
  cases hs : s.stack with
  | nil => exact absurd hs hstack
  | cons f rest =>
    cases f with
    | waitForCompletion k =>
      obtain ⟨t, ht, hstop, hfault, -⟩ := h.waiting hs
      by_cases he : t.pc = .ended
      · exact ⟨.join, _, trivial, by simp only [Client.step, Client.join, hs, ht, he, if_true]; rfl⟩
      · obtain ⟨a, hp, hio⟩ := exists_ioStep (m := s.mem) he hfault
        obtain ⟨⟨t', m'⟩, hio⟩ := Option.isSome_iff_exists.mp hio
        refine ⟨.io k a, { s with threads := s.threads.set k t', mem := m' },
          ⟨by rw [hs]; rfl, fun u hu => ?_⟩, ?_⟩
        · rw [ht, Option.mem_some] at hu
          exact hu ▸ hp
        · simp only [Client.step, ht, hio, Option.map_some]
    | disconnectedDelegate =>
      have hsome : (s.step .callbackReturn).isSome = true := by
        simp only [Client.step, Client.callbackReturn, hs]
        split
        · rfl
        · rfl
        · rename_i hno
          exact absurd rfl (hno rest)
      obtain ⟨s', hs'⟩ := Option.isSome_iff_exists.mp hsome
      exact ⟨.callbackReturn, s', trivial, hs'⟩
    | internalDisconnectFunc k =>
      have := h.stack
      rw [hs] at this
      exact this.elim

/-- **In every run** in which the sessions receive fewer than `2^31` bytes each, with headers
that the decoder can handle, from every state of it, whatever the sockets answer: the open calls
return after a bounded number of steps of the threads they wait for, when each `Send` and
each `Recv` handles some of what it is offered, and until then there is such a step. -/
theorem returns_run {as : List Act} {s : Client} (h : run Client.step {} as = some s)
    (hstreams : ∀ (k : ℕ) (t : FTCPSocketRunnable), s.threads[k]? = some t →
      t.peer.length < 2 ^ 31 ∧ HeadersOk t.peer) {bs : List Act} {s' : Client}
    (hbs : run Client.step s bs = some s') (hreturning : EachStep Client.step Returning s bs) :
    bs.length ≤ s.returnsIn ∧
      ∃ cs s'', run Client.step s' cs = some s'' ∧ EachStep Client.step Returning s' cs ∧
        s''.stack = [] := by
  have hstart : StackOk ({} : Client).stack := trivial
  have hstack : StackOk s.stack :=
    run_invariant Client.step (I := fun s => StackOk s.stack) hstart
      (fun _ _ _ hi ha => stackOk_step hi ha) h
  obtain ⟨hsound, hle⟩ := length_le_of_variant returnsIn_lowers
    (⟨⟨as, h⟩, hstreams, hstack⟩ : Sound s) hreturning hbs
  refine ⟨by omega, ?_⟩
  exact exists_run_final returnsIn_lowers (fun _ hs hne => exists_returning hs hne) s' hsound

/-- `UMgrMessage::Disconnect` is called while an array is being sent. -/
def stopSending : List Act :=
  [.connect [], .io 0 (.init true true true), .send [1, 2, 3], .io 0 (.loopTest true),
    .io 0 .sendTest, .io 0 .peek, .io 0 (.send (some 1)), .mgrDisconnect]

/-- The IO thread sends the rest of it, and completes. -/
def restSent : List Act :=
  [.io 0 (.send (some 2)), .io 0 .pop, .io 0 .sendTest, .io 0 .sendDone, .io 0 .exit, .join]

/-- The call returns after ten steps at most. -/
theorem returns_run_stopSending :
    ∃ s s', run Client.step {} stopSending = some s ∧ s.returnsIn = 10 ∧
      run Client.step s restSent = some s' ∧ restSent.length ≤ 10 ∧
      ∃ cs s'', run Client.step s' cs = some s'' ∧ EachStep Client.step Returning s' cs ∧
        s''.stack = [] := by
  obtain ⟨s, hs⟩ : ∃ s, run Client.step {} stopSending = some s := ⟨_, rfl⟩
  obtain ⟨s', hs'⟩ : ∃ s', run Client.step s restSent = some s' := by
    cases hs
    exact ⟨_, rfl⟩
  have hpeers : s.threads.map (·.peer) = [[]] := by
    cases hs
    rfl
  have hbound : s.returnsIn = 10 := by
    cases hs
    rfl
  have hreturning : EachStep Client.step Returning s restSent := by
    cases hs
    decide
  have h := returns_run hs (fun k t ht => ?_) hs' hreturning
  · exact ⟨s, s', hs, hbound, hs', by decide, h.2⟩
  · have hmem : t.peer ∈ s.threads.map (·.peer) :=
      List.mem_map.mpr ⟨t, List.mem_of_getElem? ht, rfl⟩
    rw [hpeers, List.mem_singleton] at hmem
    rw [hmem]
    exact ⟨by decide, .of_none framing_next_nil fun h4 => absurd h4 (by decide)⟩

end ThirdPersonMP.Network
