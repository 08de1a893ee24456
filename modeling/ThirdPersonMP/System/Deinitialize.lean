import ThirdPersonMP.System.Subsystem

/-!
# Leaving

`UMgrMessage::Deinitialize` (`MgrMessage.cpp`, 148–157) disconnects and then installs the
functions that do nothing. Its `Disconnect` blocks until the IO thread has completed and runs
the user's callback, from which `Connect` may be called again: that session is not ended any
more, and nothing reaches it.

* `Leaving` — what `Deinitialize` has done so far, while no `Connect` is called in it; kept
  by every step (`leaving_step`).
* `left_step` — when it has returned, no session is started and no array handed over.
* `deinitialized_run` — in every run: that stays so; and if no `Connect` was called in it, no
  session is current, every IO thread has completed, and nothing waits to be dispatched.
-/

namespace ThirdPersonMP.System

open Base Library Rpc

variable {M D : Type*}

namespace UMgrMessage

/-- `Connect` is not called while `Deinitialize` is in its `Disconnect`. -/
def NoReconnect (s : UMgrMessage M) : Label M → Prop
  | .connect _ => ∀ depth, s.phase ≠ .deinitializing depth
  | _ => True

/-- What `Deinitialize` has done. -/
def Leaving (s : UMgrMessage M) : Prop :=
  match s.phase with
  | .constructed | .initialized => True
  | .deinitializing depth => ∃ k rest, rest.length = depth ∧
    (s.client.stack = .waitForCompletion k :: .internalDisconnectFunc k :: rest ∨
      s.client.stack = .disconnectedDelegate :: .internalDisconnectFunc k :: rest ∧
        s.client.socketRunnablePtr = none)
  | .deinitialized => s.client.socketRunnablePtr = none ∧ s.client.mem.messageQueue = []

/-! ### The socket -/

section

variable {c c' : Network.Client} {a : Network.Act}

/-- In `WaitForCompletion` the game thread does nothing until it returns. -/
theorem stack_of_waiting (h : Network.ClientStep c a c') (ha : ∀ peer, a ≠ .connect peer) {k : ℕ}
    {rest : List Network.Frame} (hstack : c.stack = .waitForCompletion k :: rest) :
    c'.stack = c.stack ∨
      c'.stack = .disconnectedDelegate :: rest ∧ c'.socketRunnablePtr = none := by
  have hready : c.ready = false := by rw [Network.Client.ready, hstack]
  cases h with
  | connect | noConnect => exact absurd rfl (ha _)
  | disconnect hr | mgrDisconnect hr | mgrEmpty hr | send hr =>
    rw [hready] at hr
    cases hr
  | noDisconnect | noSend | io => exact .inl rfl
  | join hs =>
    rw [hstack, List.cons.injEq] at hs
    obtain ⟨-, rfl⟩ := hs
    exact .inr ⟨rfl, rfl⟩
  | callbackReturn hs | mgrReturn hs | connected hs | connectionError hs | lateConnectionError hs
  | tick hs =>
    rw [hstack] at hs
    cases hs

/-- In the user's callback no session is current, until it calls `Connect` or returns. -/
theorem stack_of_callback (h : Network.ClientStep c a c') (ha : ∀ peer, a ≠ .connect peer)
    (hreturn : a ≠ .callbackReturn) {rest : List Network.Frame}
    (hstack : c.stack = .disconnectedDelegate :: rest) (hptr : c.socketRunnablePtr = none) :
    c'.stack = c.stack ∧ c'.socketRunnablePtr = none := by
  cases h with
  | connect | noConnect => exact absurd rfl (ha _)
  | callbackReturn | mgrReturn => exact absurd rfl hreturn
  | disconnect hr hp | mgrDisconnect hr hp | send hr hp =>
    rw [hptr] at hp
    cases hp
  | noDisconnect | noSend | mgrEmpty | io => exact ⟨rfl, hptr⟩
  | join hs | connected hs | connectionError hs | lateConnectionError hs | tick hs =>
    rw [hstack] at hs
    cases hs

/-- When no session is current, nothing is dispatched any more once the queue is empty. -/
theorem messageQueue_of_none (hwf : Network.Wf c) (h : Network.ClientStep c a c')
    (ha : ∀ peer, a ≠ .connect peer) (hptr : c.socketRunnablePtr = none)
    (hqueue : c.mem.messageQueue = []) :
    c'.socketRunnablePtr = none ∧ c'.mem.messageQueue = [] := by
  cases h with
  | connect | noConnect => exact absurd rfl (ha _)
  | disconnect hr hp | mgrDisconnect hr hp | send hr hp =>
    rw [hptr] at hp
    cases hp
  | connectionError hs ht hp =>
    rw [hptr] at hp
    cases hp
  | join hs =>
    have := hwf.waiting _ (hs ▸ List.mem_cons_self)
    rw [hptr] at this
    cases this
  | tick hs hq =>
    rw [hqueue] at hq
    cases hq
  | io ht hio =>
    have := hwf.live _ _ ht hio.pc_ne_ended
    rw [hptr] at this
    cases this
  | mgrEmpty | mgrReturn => exact ⟨hptr, rfl⟩
  | noDisconnect | noSend | callbackReturn | connected | lateConnectionError =>
    exact ⟨hptr, hqueue⟩

/-- A step that is neither `Connect` nor `Send` starts no session and gives none an array. -/
theorem enqueued_of_step (h : Network.ClientStep c a c') (ha : ∀ peer, a ≠ .connect peer)
    (hsend : ∀ data, a ≠ .send data) :
    c'.threads.map (·.enqueued) = c.threads.map (·.enqueued) := by
  have hstop : ∀ j, (c.threads.modify j fun t => { t with bManuallyStop := true }).map
      (·.enqueued) = c.threads.map (·.enqueued) := by
    intro j
    refine List.ext_getElem? fun i => ?_
    rw [List.getElem?_map, List.getElem?_map, List.getElem?_modify, Option.map_eq_map,
      Option.map_map]
    refine Option.map_congr fun t _ => ?_
    simp only [Function.comp_apply]
    split <;> rfl
  cases h with
  | connect | noConnect => exact absurd rfl (ha _)
  | send | noSend => exact absurd rfl (hsend _)
  | disconnect | mgrDisconnect | connectionError => exact hstop _
  | @io k b t t' m' ht hio =>
    have hk : (c.threads.map (·.enqueued))[k]? = some t.enqueued := by
      rw [List.getElem?_map, ht, Option.map_some]
    obtain ⟨hlt, hget⟩ := List.getElem?_eq_some_iff.mp hk
    rw [List.map_set, hio.enqueued_eq, ← hget]
    exact List.set_getElem_self hlt
  | _ => rfl

end

/-! ### The subsystem -/

section

variable {P : Protobuf M D} [DecidableEq D] {g : Generated D} {s s' : UMgrMessage M}

omit [DecidableEq D] in
/-- The channel is not looked at. -/
theorem Leaving.congr (h : Leaving s) (hphase : s'.phase = s.phase)
    (hclient : s'.client = s.client) : Leaving s' := by
  unfold Leaving at h ⊢
  rw [hphase, hclient]
  exact h

/-- A step of the socket in `Deinitialize`, but for `Connect` and the return of the user's
callback. -/
theorem Leaving.socket {a : Network.Act} (hwf : Network.Wf s.client) (h : Leaving s)
    (hs : s.socket a = some s') (ha : ∀ peer, a ≠ .connect peer)
    (hreturn : a = .callbackReturn → ∀ depth, s.phase ≠ .deinitializing depth) : Leaving s' := by
  obtain ⟨client, hc, rfl⟩ := Option.map_eq_some_iff.mp hs
  have hstep := Network.ClientStep.of_step hc
  unfold Leaving at h ⊢
  cases hphase : s.phase with
  | constructed | initialized => trivial
  | deinitializing depth =>
    simp only [hphase] at h ⊢
    obtain ⟨k, rest, hlen, hstack | ⟨hstack, hptr⟩⟩ := h
    · refine ⟨k, rest, hlen, ?_⟩
      rw [← hstack]
      exact stack_of_waiting hstep ha hstack
    · refine ⟨k, rest, hlen, .inr ?_⟩
      rw [← hstack]
      exact stack_of_callback hstep ha (fun he => hreturn he depth hphase) hstack hptr
  | deinitialized =>
    simp only [hphase] at h ⊢
    exact messageQueue_of_none hwf hstep ha h.1 h.2

omit [DecidableEq D] in
/-- A call of `Connect` or `Disconnect`. -/
theorem Leaving.internalFunc {a : Network.Act} (hwf : Network.Wf s.client) (h : Leaving s)
    (hs : s.internalFunc a = some s')
    (ha : ∀ peer, a = .connect peer → ∀ depth, s.phase ≠ .deinitializing depth)
    (hreturn : a ≠ .callbackReturn) : Leaving s' := by
  unfold UMgrMessage.internalFunc at hs
  split at hs
  · rename_i hinstalled
    by_cases hconnect : ∃ peer, a = .connect peer
    · -- `Initialize` has been called, and `Deinitialize` has not
      obtain ⟨peer, rfl⟩ := hconnect
      obtain ⟨client, hc, rfl⟩ := Option.map_eq_some_iff.mp hs
      unfold installed at hinstalled
      unfold Leaving
      cases hphase : s.phase with
      | initialized => trivial
      | deinitializing depth => exact absurd hphase (ha peer rfl depth)
      | constructed | deinitialized =>
        rw [hphase] at hinstalled
        cases hinstalled
    · exact h.socket hwf hs (fun peer he => hconnect ⟨peer, he⟩) fun he => absurd he hreturn
  · split at hs <;> cases hs
    exact h

omit [DecidableEq D] in
/-- `SendMessage`, of a frame that is dropped or handed over. -/
theorem Leaving.sendMessage (hwf : Network.Wf s.client) (hr : s.client.ready = true)
    (h : Leaving s) {message : RpcMessage} (hs : s.sendMessage P message = some s') :
    Leaving s' := by
  unfold UMgrMessage.sendMessage at hs
  split at hs
  · cases hs
    exact h
  · obtain ⟨data, -, rfl⟩ := Option.map_eq_some_iff.mp hs
    have hsocket : s.socket (.send data) = some { s with client := s.client.send data } := by
      rw [UMgrMessage.socket, Network.Client.step, if_pos hr]
      rfl
    exact h.socket hwf hsocket (fun _ => Network.Act.noConfusion) Network.Act.noConfusion

/-- `Send`. -/
theorem Leaving.send (hwf : Network.Wf s.client) (hr : s.client.ready = true) (h : Leaving s)
    {request : Option M} (hs : s.send P g request = some s') : Leaving s' := by
  unfold UMgrMessage.send at hs
  split at hs
  · cases hs
    exact h
  · rename_i r info hf
    have hsent : Leaving { s with channel := s.channel.sendRequest P r info } := h.congr rfl rfl
    refine Leaving.sendMessage ?_ ?_ hsent hs
    · exact hwf
    · exact hr

omit [DecidableEq D] in
/-- What `settle` does, when the innermost call has returned. -/
theorem settle_eq_self (h : ∀ depth, s.phase ≠ .deinitializing depth) : s.settle = s := by
  unfold settle
  split
  · exact absurd ‹_› (h _)
  · rfl

omit [DecidableEq D] in
/-- Where `Deinitialize` is, after a step of its `Disconnect`: it waits, or it has returned. -/
theorem leaving_settle {depth : ℕ} (hphase : s.phase = .deinitializing depth)
    (h : (∃ k rest, rest.length = depth ∧
        s.client.stack = .waitForCompletion k :: .internalDisconnectFunc k :: rest) ∨
      s.client.stack.length ≤ depth ∧ s.client.socketRunnablePtr = none ∧
        s.client.mem.messageQueue = []) : Leaving s.settle := by
  unfold settle
  simp only [hphase]
  split
  · rename_i hle
    rcases h with ⟨k, rest, hlen, hstack⟩ | ⟨-, hptr, hqueue⟩
    · rw [hstack, List.length_cons, List.length_cons] at hle
      omega
    · exact ⟨hptr, hqueue⟩
  · rename_i hle
    rcases h with ⟨k, rest, hlen, hstack⟩ | ⟨hle', -⟩
    · unfold Leaving
      simp only [hphase]
      exact ⟨k, rest, hlen, .inl hstack⟩
    · exact absurd hle' hle

omit [DecidableEq D] in
/-- The user's callback returns; `Deinitialize` has returned when its `Disconnect` has. -/
theorem Leaving.callbackReturn (hwf : Network.Wf s.client) (h : Leaving s)
    (hs : s.socket .callbackReturn = some s') : Leaving s'.settle := by
  have hsocket := hs
  obtain ⟨client, hc, rfl⟩ := Option.map_eq_some_iff.mp hsocket
  by_cases hphase : ∃ depth, s.phase = .deinitializing depth
  · obtain ⟨depth, hphase⟩ := hphase
    unfold Leaving at h
    simp only [hphase] at h
    obtain ⟨k, rest, hlen, hstack | ⟨hstack, hptr⟩⟩ := h
    · cases Network.ClientStep.of_step hc with
      | callbackReturn hhead | mgrReturn hhead =>
        rw [hstack] at hhead
        cases hhead
    · simp only [Network.Client.step, Network.Client.callbackReturn, hstack] at hc
      cases hc
      exact leaving_settle hphase (.inr ⟨hlen.le, hptr, rfl⟩)
  · have hne : ∀ depth, s.phase ≠ .deinitializing depth := fun depth he => hphase ⟨depth, he⟩
    have hself : ({ s with client := client } : UMgrMessage M).settle = { s with client := client } :=
      settle_eq_self hne
    rw [hself]
    exact h.socket hwf hs (fun _ => Network.Act.noConfusion) fun _ => hne

/-- **A step keeps what `Deinitialize` has done**, when it is not a `Connect` in it. -/
theorem leaving_step {l : Label M} (hwf : Network.Wf s.client) (h : Leaving s)
    (hn : NoReconnect s l) (hs : s.step P g l = some s') : Leaving s' := by
  cases l with
  | init peer =>
    simp only [step, Option.ite_none_right_eq_some] at hs
    obtain ⟨client, hc, rfl⟩ := Option.map_eq_some_iff.mp hs.2
    trivial
  | deinit =>
    simp only [step, Option.ite_none_right_eq_some] at hs
    obtain ⟨client, hc, rfl⟩ := Option.map_eq_some_iff.mp hs.2
    cases Network.ClientStep.of_step hc with
    | mgrDisconnect hr hp =>
      exact leaving_settle rfl (.inl ⟨_, _, rfl, rfl⟩)
    | mgrEmpty hr hp => exact leaving_settle rfl (.inr ⟨le_rfl, hp, rfl⟩)
  | connect peer =>
    refine h.internalFunc hwf hs (fun _ _ => hn) Network.Act.noConfusion
  | disconnect =>
    exact h.internalFunc hwf hs (fun _ => Network.Act.noConfusion) Network.Act.noConfusion
  | send request =>
    simp only [step, Option.ite_none_right_eq_some] at hs
    exact h.send hwf hs.1 hs.2
  | sendMessage message =>
    simp only [step, Option.ite_none_right_eq_some] at hs
    exact h.sendMessage hwf hs.1 hs.2
  | setAccid accid =>
    simp only [step, Option.ite_none_right_eq_some, Option.some.injEq] at hs
    obtain ⟨-, rfl⟩ := hs
    exact h.congr rfl rfl
  | tick =>
    simp only [step] at hs
    split at hs
    · cases hs
    · obtain ⟨s₁, hs₁, hm⟩ := Option.bind_eq_some_iff.mp hs
      have h₁ : Leaving s₁ :=
        h.socket hwf hs₁ (fun _ => Network.Act.noConfusion) Network.Act.noConfusion
      unfold onMessage at hm
      split at hm
      · obtain ⟨⟨p, called⟩, -, rfl⟩ := Option.map_eq_some_iff.mp hm
        exact h₁.congr rfl rfl
      · cases hm
        exact h₁
  | callbackReturn =>
    obtain ⟨s₁, hs₁, rfl⟩ := Option.map_eq_some_iff.mp hs
    exact h.callbackReturn hwf hs₁
  | join | runTask | io k a =>
    exact h.socket hwf hs (fun _ => Network.Act.noConfusion) Network.Act.noConfusion

/-- A step keeps the session discipline. -/
theorem wf_step {l : Label M} (hwf : Network.Wf s.client) (hs : s.step P g l = some s') :
    Network.Wf s'.client := by
  cases Stepped.of_step hs with
  | socket hc => exact Network.wf_step hwf hc
  | idle => exact hwf
  | send hr hsend =>
    rcases send_cases hsend with ⟨-, rfl⟩ | ⟨r, info, -, ⟨-, rfl⟩ | ⟨k, data, -, -, rfl⟩⟩
    · exact hwf
    · exact hwf
    · exact Network.wf_step hwf (.of_step (a := .send data) (if_pos hr))

/-- **When `Deinitialize` has returned**, no session is started and no array handed over. -/
theorem left_step {l : Label M} (hphase : s.phase = .deinitialized)
    (hs : s.step P g l = some s') : s'.phase = .deinitialized ∧
      s'.client.threads.map (·.enqueued) = s.client.threads.map (·.enqueued) := by
  have hinstalled : s.installed = false := by rw [installed, hphase]
  have hsession : s.session = none := by rw [session, hinstalled]; rfl
  have hsocket : ∀ {a : Network.Act} {t : UMgrMessage M}, s.socket a = some t →
      (∀ peer, a ≠ .connect peer) → (∀ data, a ≠ .send data) → t.phase = .deinitialized ∧
        t.client.threads.map (·.enqueued) = s.client.threads.map (·.enqueued) := by
    intro a t ht ha hsend
    obtain ⟨client, hc, rfl⟩ := Option.map_eq_some_iff.mp ht
    exact ⟨hphase, enqueued_of_step (.of_step hc) ha hsend⟩
  have hfunc : ∀ {a : Network.Act}, s.internalFunc a = some s' → s' = s := by
    intro a ha
    unfold UMgrMessage.internalFunc at ha
    rw [hinstalled] at ha
    simp only [Bool.false_eq_true, if_false, Option.ite_none_right_eq_some,
      Option.some.injEq] at ha
    exact ha.2.symm
  cases l with
  | init peer =>
    simp only [step, hphase, reduceCtorEq, if_false] at hs
  | deinit =>
    simp only [step, hphase, reduceCtorEq, if_false] at hs
  | connect peer | disconnect =>
    rw [hfunc hs]
    exact ⟨hphase, rfl⟩
  | send request =>
    simp only [step, Option.ite_none_right_eq_some] at hs
    rcases send_cases hs.2 with ⟨-, rfl⟩ | ⟨r, info, -, ⟨-, rfl⟩ | ⟨k, data, hk, -⟩⟩
    · exact ⟨hphase, rfl⟩
    · exact ⟨hphase, rfl⟩
    · rw [hsession] at hk
      cases hk
  | sendMessage message =>
    simp only [step, UMgrMessage.sendMessage, hsession, Option.ite_none_right_eq_some,
      Option.some.injEq] at hs
    obtain ⟨-, rfl⟩ := hs
    exact ⟨hphase, rfl⟩
  | setAccid accid =>
    simp only [step, Option.ite_none_right_eq_some, Option.some.injEq] at hs
    obtain ⟨-, rfl⟩ := hs
    exact ⟨hphase, rfl⟩
  | tick =>
    simp only [step] at hs
    split at hs
    · cases hs
    · obtain ⟨s₁, hs₁, hm⟩ := Option.bind_eq_some_iff.mp hs
      have h₁ := hsocket hs₁ (fun _ => Network.Act.noConfusion) fun _ => Network.Act.noConfusion
      unfold onMessage at hm
      split at hm
      · obtain ⟨⟨p, called⟩, -, rfl⟩ := Option.map_eq_some_iff.mp hm
        exact h₁
      · cases hm
        exact h₁
  | callbackReturn =>
    obtain ⟨s₁, hs₁, rfl⟩ := Option.map_eq_some_iff.mp hs
    have h₁ := hsocket hs₁ (fun _ => Network.Act.noConfusion) fun _ => Network.Act.noConfusion
    have hne : ∀ depth, s₁.phase ≠ .deinitializing depth := by
      intro depth
      rw [h₁.1]
      exact Phase.noConfusion
    rw [settle_eq_self hne]
    exact h₁
  | join | runTask | io k a =>
    exact hsocket hs (fun _ => Network.Act.noConfusion) fun _ => Network.Act.noConfusion

/-- **After `Deinitialize`**, in every run. Whatever is called later, no session is started
and no array is handed over. And when `Connect` was not called while it was in its
`Disconnect`, then no session is current, every IO thread has been stopped and has completed,
and no message waits to be dispatched. -/
theorem deinitialized_run {d : UInt64} {labels : List (Label M)}
    (h : run (step P g) (.initial d) labels = some s) (hphase : s.phase = .deinitialized) :
    (∀ labels' s', run (step P g) s labels' = some s' → s'.phase = .deinitialized ∧
      s'.client.threads.map (·.enqueued) = s.client.threads.map (·.enqueued)) ∧
    (EachStep (step P g) NoReconnect (.initial d) labels →
      s.client.socketRunnablePtr = none ∧ s.client.mem.messageQueue = [] ∧
        ∀ t ∈ s.client.threads, t.pc = .ended ∧ t.bManuallyStop = true) := by
  constructor
  · intro labels' s' h'
    refine run_invariant (step P g) (I := fun s' => s'.phase = .deinitialized ∧
      s'.client.threads.map (·.enqueued) = s.client.threads.map (·.enqueued)) ⟨hphase, rfl⟩ ?_ h'
    intro t l t' ht ha
    obtain ⟨hphase', hsame⟩ := left_step ht.1 ha
    exact ⟨hphase', hsame.trans ht.2⟩
  · intro hno
    have hstart : Network.Wf (.initial d : UMgrMessage M).client ∧
        Leaving (.initial d : UMgrMessage M) := ⟨Network.wf_start, trivial⟩
    have hI := run_invariant_of_eachStep (step P g)
      (I := fun s => Network.Wf s.client ∧ Leaving s) hstart ?_ hno h
    · obtain ⟨hwf, hleaving⟩ := hI
      unfold Leaving at hleaving
      simp only [hphase] at hleaving
      refine ⟨hleaving.1, hleaving.2, fun t ht => ?_⟩
      obtain ⟨k, hk⟩ := List.mem_iff_getElem?.mp ht
      exact hwf.ended_of_none hleaving.1 hk
    · intro t l t' ht hl ha
      exact ⟨wf_step ht.1 ha, leaving_step ht.1 ht.2 hl ha⟩

end

/-! ### A client that leaves -/

section

open SignIn

instance (s : UMgrMessage Msg) : ∀ l : Label Msg, Decidable (NoReconnect s l)
  | .connect _ =>
    match hphase : s.phase with
    | .deinitializing depth => isFalse fun h => h depth hphase
    | .constructed | .initialized | .deinitialized =>
      isTrue fun _ he => by rw [hphase] at he; cases he
  | .init _ | .deinit | .disconnect | .send _ | .sendMessage _ | .setAccid _ | .tick | .join
  | .callbackReturn | .runTask | .io _ _ => inferInstanceAs (Decidable True)

/-- The player signs in and leaves; the connected task of the session runs later. -/
def signInAndLeave : List (Label Msg) :=
  [.init [], .io 0 (.init true true true), .send (some (.userSignInArg 7)), .deinit,
    .io 0 (.loopTest true), .io 0 .exit, .join, .disconnect, .callbackReturn, .runTask]

/-- The one session has ended, with its frame not sent, and no other is started. -/
theorem deinitialized_run_signIn :
    ∃ s : UMgrMessage Msg,
      run (step protobuf generated) (.initial 0) signInAndLeave = some s ∧
      s.phase = .deinitialized ∧
      EachStep (step protobuf generated) NoReconnect (.initial 0) signInAndLeave ∧
      (∀ labels' s', run (step protobuf generated) s labels' = some s' →
        s'.phase = .deinitialized ∧
          s'.client.threads.map (·.enqueued) = s.client.threads.map (·.enqueued)) ∧
      s.client.socketRunnablePtr = none ∧ s.client.mem.messageQueue = [] ∧
      ∀ t ∈ s.client.threads, t.pc = .ended ∧ t.bManuallyStop = true := by
  obtain ⟨s, hs⟩ : ∃ s : UMgrMessage Msg,
    run (step protobuf generated) (.initial 0) signInAndLeave = some s := ⟨_, rfl⟩
  have hphase : s.phase = .deinitialized := by
    cases hs
    rfl
  have hno : EachStep (step protobuf generated) NoReconnect (.initial 0) signInAndLeave := by
    decide
  have h := deinitialized_run hs hphase
  exact ⟨s, hs, hphase, hno, h.1, h.2 hno⟩

end

end UMgrMessage

end ThirdPersonMP.System
