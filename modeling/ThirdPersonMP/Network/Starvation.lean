import ThirdPersonMP.Network.Arrival

/-!
# Sending goes first

The sending loop of `FTCPSocketRunnable::Run` ends when `SendBuffer` is empty
(`TcpSocketRunnable.cpp`, 70–93), and the game thread may fill it meanwhile (`TcpSocket.cpp`,
84–92). So a game thread that puts an array on the queue for each that is sent keeps the IO
thread from receiving, for as long as it goes on; nothing limits that.

* `run_ofThread` — the steps of one thread, as a run of the client.
* `starving_round` — one array is sent, and another one queued.
* `starved_run` — from every state in which a thread is about to send: there are runs of any
  length in which no call fails and all that the peer sends is there, but nothing is received,
  and the queue grows no longer. So the bound of `arrived_run` has to count what is queued.
-/

namespace ThirdPersonMP.Network

open Base Library

/-! ### The steps of one thread -/

/-- A thread by itself, with what it shares. -/
def threadStep (x : FTCPSocketRunnable × Shared) (b : IoAct) : Option (FTCPSocketRunnable × Shared) :=
  ioStep x.1 x.2 b

section

variable {s : Client} {k : ℕ} {t t' : FTCPSocketRunnable} {m' : Shared}

/-- A step of a thread is a step of the client. -/
theorem step_io {b : IoAct} (ht : s.threads[k]? = some t)
    (h : threadStep (t, s.mem) b = some (t', m')) :
    s.step (.io k b) = some { s with threads := s.threads.set k t', mem := m' } := by
  rw [threadStep] at h
  simp only [Client.step, ht, h, Option.map_some]

/-- The steps of one thread, as a run of the client. -/
theorem run_ofThread {bs : List IoAct} (ht : s.threads[k]? = some t)
    (h : run threadStep (t, s.mem) bs = some (t', m')) :
    run Client.step s (bs.map (.io k)) =
      some { s with threads := s.threads.set k t', mem := m' } := by
  induction bs generalizing s t with
  | nil =>
    rw [run_nil, Option.some.injEq, Prod.mk.injEq] at h
    obtain ⟨rfl, rfl⟩ := h
    obtain ⟨hk, rfl⟩ := List.getElem?_eq_some_iff.mp ht
    rw [List.set_getElem_self]
    rfl
  | cons b bs ih =>
    obtain ⟨⟨u, m⟩, hb, hrun⟩ := Option.bind_eq_some_iff.mp h
    have hu : (s.threads.set k u)[k]? = some u :=
      (getElem?_set_eq_some ht).mpr (.inl ⟨rfl, rfl⟩)
    have hrest := ih (s := { s with threads := s.threads.set k u, mem := m }) hu hrun
    rw [List.map_cons, run_cons, step_io ht hb, Option.bind_some, hrest, List.set_set]

/-- What the calls of the thread answer is what those of the client do. -/
theorem eachStep_ofThread {bs : List IoAct} (ht : s.threads[k]? = some t)
    (h : EachStep threadStep (fun x b => Succeeds b ∧ Progress x.1 b ∧ Arrived x.1 b)
      (t, s.mem) bs) :
    EachStep Client.step (fun s a => Undisturbed s a ∧ AllArrived s a) s (bs.map (.io k)) := by
  induction bs generalizing s t with
  | nil => trivial
  | cons b bs ih =>
    obtain ⟨⟨hb, hp, harr⟩, hrest⟩ := h
    refine ⟨⟨⟨hb, fun u hu => ?_⟩, fun u hu => ?_⟩, fun s' hs' => ?_⟩
    · rw [ht, Option.mem_some] at hu
      exact hu ▸ hp
    · rw [ht, Option.mem_some] at hu
      exact hu ▸ harr
    · rw [Option.mem_def] at hs'
      simp only [Client.step, ht] at hs'
      obtain ⟨⟨u, m⟩, hio, rfl⟩ := Option.map_eq_some_iff.mp hs'
      exact ih ((getElem?_set_eq_some ht).mpr (.inl ⟨rfl, rfl⟩)) (hrest (u, m) hio)

end

/-! ### A round of the sending loop -/

/-- What the thread does with the first array of the queue, when its socket takes all of it. -/
def sendFirst (buffer : Bytes) : List IoAct :=
  [.sendTest, .peek, .send (some buffer.length), .pop]

section

variable {t : FTCPSocketRunnable} {m : Shared} {buffer : Bytes} {rest : List Bytes}

/-- The thread when it has sent the array. -/
def FTCPSocketRunnable.sentFirst (t : FTCPSocketRunnable) (buffer : Bytes) : FTCPSocketRunnable :=
  { t with accepted := t.accepted ++ buffer, popped := t.popped ++ [buffer], pc := .sendTest }

theorem run_sendFirst (hlive : Live t) (hpc : t.pc = .sendTest) (hq : m.sendBuffer = buffer :: rest) :
    run threadStep (t, m) (sendFirst buffer) =
        some (t.sentFirst buffer, { m with sendBuffer := rest }) ∧
      EachStep threadStep (fun x b => Succeeds b ∧ Progress x.1 b ∧ Arrived x.1 b) (t, m)
        (sendFirst buffer) := by
  have hstop := hlive.bManuallyStop
  have herr := hlive.bConnectionError
  have h₁ : threadStep (t, m) .sendTest = some ({ t with pc := .peek }, m) := by
    unfold threadStep ioStep
    simp only [hpc, hstop, herr]
    rfl
  have h₂ : threadStep ({ t with pc := .peek }, m) .peek =
      some ({ t with pc := .sending buffer 0 }, m) := by
    unfold threadStep ioStep
    simp only [hq]
  have h₃ : threadStep ({ t with pc := .sending buffer 0 }, m) (.send (some buffer.length)) =
      some ({ t with accepted := t.accepted ++ buffer, pc := .sent buffer buffer.length }, m) := by
    unfold threadStep ioStep
    simp [FTCPSocketRunnable.sendMore]
  have h₄ : threadStep
      ({ t with accepted := t.accepted ++ buffer, pc := .sent buffer buffer.length }, m) .pop =
      some (t.sentFirst buffer, { m with sendBuffer := rest }) := by
    unfold threadStep ioStep
    simp only [herr, hq, FTCPSocketRunnable.sentFirst]
    rfl
  constructor
  · rw [sendFirst, run_cons, h₁, Option.bind_some, run_cons, h₂, Option.bind_some, run_cons, h₃,
      Option.bind_some, run_cons, h₄, Option.bind_some, run_nil]
  · rw [sendFirst, eachStep_cons h₁, eachStep_cons h₂, eachStep_cons h₃, eachStep_cons h₄]
    exact ⟨⟨trivial, trivial, trivial⟩, ⟨trivial, trivial, trivial⟩, ⟨trivial, id, trivial⟩,
      ⟨trivial, trivial, trivial⟩, trivial⟩

end

/-! ### The sessions -/

/-- The thread is about to send, there is something to send, and the game thread is not
blocked. -/
structure Starving (s : Client) (k : ℕ) (t : FTCPSocketRunnable) : Prop where
  current : s.socketRunnablePtr = some k
  ready : s.ready = true
  thread : s.threads[k]? = some t
  live : Live t
  pc : t.pc = .sendTest
  queue : s.mem.sendBuffer ≠ []

/-- An array is sent, and the game thread queues it again. -/
theorem starving_round {s : Client} {k : ℕ} {t : FTCPSocketRunnable} (h : Starving s k t) :
    ∃ bs s' t', run Client.step s bs = some s' ∧
      EachStep Client.step (fun s a => Undisturbed s a ∧ AllArrived s a) s bs ∧
      bs.countP (Act.ofThread k) = 4 ∧ Starving s' k t' ∧ t'.incoming = t.incoming ∧
      t'.handed = t.handed ∧ s'.mem.sendBuffer.length = s.mem.sendBuffer.length := by
  obtain ⟨buffer, rest, hq⟩ := List.exists_cons_of_ne_nil h.queue
  obtain ⟨hrun, heach⟩ := run_sendFirst h.live h.pc hq
  let s₁ : Client := { s with
    threads := s.threads.set k (t.sentFirst buffer)
    mem := { s.mem with sendBuffer := rest } }
  have hrun₁ : run Client.step s ((sendFirst buffer).map (.io k)) = some s₁ :=
    run_ofThread h.thread hrun
  have heach₁ := eachStep_ofThread h.thread heach
  have ht₁ : s₁.threads[k]? = some (t.sentFirst buffer) :=
    (getElem?_set_eq_some h.thread).mpr (.inl ⟨rfl, rfl⟩)
  let s₂ : Client := { s₁ with
    mem := { s₁.mem with sendBuffer := rest ++ [buffer] }
    threads := s₁.threads.modify k fun u => { u with enqueued := u.enqueued ++ [buffer] } }
  have hsend : s₁.step (.send buffer) = some s₂ := by
    have hready : s₁.ready = true := h.ready
    have hcurrent : s₁.socketRunnablePtr = some k := h.current
    simp only [Client.step, Client.send, hready, hcurrent, if_true]
    rw [← hcurrent]
  have ht₂ : s₂.threads[k]? =
      some { t.sentFirst buffer with enqueued := t.enqueued ++ [buffer] } :=
    getElem?_modify_eq_some.mpr ⟨_, ht₁, (if_pos rfl).symm⟩
  refine ⟨(sendFirst buffer).map (.io k) ++ [.send buffer], s₂, _, ?_, ?_, ?_,
    ⟨h.current, h.ready, ht₂, ⟨h.live.1, h.live.2, Pc.noConfusion, Pc.noConfusion⟩, rfl, ?_⟩,
    rfl, rfl, ?_⟩
  · exact (run_concat _).mpr ⟨s₁, hrun₁, hsend⟩
  · refine eachStep_append heach₁ fun m hm => ?_
    rw [eachStep_cons ((Option.some.inj (hrun₁.symm.trans hm)) ▸ hsend)]
    exact ⟨⟨trivial, trivial⟩, trivial⟩
  · simp [sendFirst, Act.ofThread]
  · exact List.append_ne_nil_of_right_ne_nil _ (List.cons_ne_nil _ _)
  · show (rest ++ [buffer]).length = _
    rw [hq, List.length_append, List.length_singleton, List.length_cons]

/-- **Nothing limits how long a thread is kept from receiving.** From every state in which a
thread is about to send and something is on the queue: for every `n` there is a run in which
nobody stops the thread, no call fails, all that the peer sends is there and the thread takes
`n` steps, but it receives nothing, and the queue is as long as it was. -/
theorem starved_run {s : Client} {k : ℕ} {t : FTCPSocketRunnable} (h : Starving s k t) (n : ℕ) :
    ∃ bs s' t', run Client.step s bs = some s' ∧ EachStep Client.step Undisturbed s bs ∧
      EachStep Client.step AllArrived s bs ∧ n ≤ bs.countP (Act.ofThread k) ∧
      s'.threads[k]? = some t' ∧ t'.incoming = t.incoming ∧ t'.handed = t.handed ∧
      s'.mem.sendBuffer.length = s.mem.sendBuffer.length := by
  suffices hrounds : ∀ n, ∃ bs s' t', run Client.step s bs = some s' ∧
      EachStep Client.step (fun s a => Undisturbed s a ∧ AllArrived s a) s bs ∧
      n ≤ bs.countP (Act.ofThread k) ∧ Starving s' k t' ∧ t'.incoming = t.incoming ∧
      t'.handed = t.handed ∧ s'.mem.sendBuffer.length = s.mem.sendBuffer.length by
    obtain ⟨bs, s', t', hbs, heach, hcount, hs', hsame⟩ := hrounds n
    exact ⟨bs, s', t', hbs, heach.mono fun _ _ => And.left, heach.mono fun _ _ => And.right,
      hcount, hs'.thread, hsame⟩
  intro n
  induction n with
  | zero => exact ⟨[], s, t, rfl, trivial, Nat.zero_le _, h, rfl, rfl, rfl⟩
  | succ n ih =>
    -- one more round
    obtain ⟨bs, m, u, hbs, heach, hcount, hm, hincoming, hhanded, hlength⟩ := ih
    obtain ⟨cs, s', t', hcs, heach', hcount', hs', hincoming', hhanded', hlength'⟩ :=
      starving_round hm
    refine ⟨bs ++ cs, s', t', ?_, eachStep_append heach fun m' hm' => ?_, ?_, hs',
      hincoming'.trans hincoming, hhanded'.trans hhanded, hlength'.trans hlength⟩
    · rw [run_append, hbs, Option.bind_some, hcs]
    · rw [hbs, Option.some.injEq] at hm'
      exact hm' ▸ heach'
    · rw [List.countP_append, hcount']
      omega

/-- A message has arrived, and an array is on the queue. -/
def arrivedAndQueued : List Act :=
  [.connect [1, 0, 0, 0, 9], .io 0 (.init true true true), .send [1, 2, 3],
    .io 0 (.loopTest true)]

/-- For a thousand steps of the thread nothing of the message is received. -/
theorem starved_run_arrivedAndQueued :
    ∃ s bs s' t', run Client.step {} arrivedAndQueued = some s ∧
      run Client.step s bs = some s' ∧ EachStep Client.step AllArrived s bs ∧
      1000 ≤ bs.countP (Act.ofThread 0) ∧ s'.threads[0]? = some t' ∧
      t'.incoming = [1, 0, 0, 0, 9] := by
  obtain ⟨s, hs⟩ : ∃ s, run Client.step {} arrivedAndQueued = some s := ⟨_, rfl⟩
  obtain ⟨t, ht⟩ : ∃ t, s.threads[0]? = some t := by
    cases hs
    exact ⟨_, rfl⟩
  have hincoming : t.incoming = [1, 0, 0, 0, 9] := by
    cases hs
    cases ht
    rfl
  have hstarving : Starving s 0 t := by
    cases hs
    cases ht
    exact ⟨rfl, rfl, rfl, ⟨rfl, rfl, Pc.noConfusion, Pc.noConfusion⟩, rfl, List.cons_ne_nil _ _⟩
  obtain ⟨bs, s', t', hbs, -, harrived, hcount, ht', hsame, -⟩ := starved_run hstarving 1000
  exact ⟨s, bs, s', t', hs, hbs, harrived, hcount, ht', hsame.trans hincoming⟩

end ThirdPersonMP.Network
