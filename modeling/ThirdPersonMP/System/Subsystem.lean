import ThirdPersonMP.Network.Encoder
import ThirdPersonMP.Network.TcpSocket
import ThirdPersonMP.Rpc.Outstanding

/-!
# The message subsystem

`UMgrMessage` (`MgrMessage.cpp`, 21–29, 47–59 and 61–177) puts the channel and the socket
together. Its constructor installs functions that do nothing for `Connect`, `Disconnect` and
sending; `Initialize` installs those that call the socket, connects, and fills the service
tables; `Deinitialize` disconnects and installs those that do nothing again. The engine calls
each of the two once.

`RpcChannel::Send` makes the entry in `m_outstandings` first and then calls one function
after the other that returns nothing; three of them drop the frame. The game thread makes
the calls in any order, and the IO threads run between them. What a handler, a callback or a
delegate does is a sequence of further calls, and so is the reply to a request
(`Label.sendMessage`).

* `sendOk_iff` — a `Send` hands over what it enters exactly when a session is current, the
  functions of `Initialize` are installed, and the frame has fewer than `2^31` bytes.
* `channel_send` — what a `Send` does to the channel is what the channel does by itself.
* `tracked_run` — when each `Send` is made under the condition, each outstanding call has its
  frame among those that a session was given.
* `handedOver_run` — the two together, of every run.
-/

namespace ThirdPersonMP.System

open Base Library Rpc

variable {M D : Type*}

/-- What the engine has called. -/
inductive Phase where
  | constructed
  | initialized
  /-- `Deinitialize` is in its `Disconnect`, with this many calls open around it. -/
  | deinitializing (depth : ℕ)
  | deinitialized
  deriving DecidableEq

/-- `UMgrMessage`. -/
structure UMgrMessage (M : Type*) where
  phase : Phase := .constructed
  /-- `TCPSocketPtr`, and the IO threads. -/
  client : Network.Client := {}
  /-- `m_RpcChannelPtr`. -/
  channel : Peer M

/-- The message that `RpcChannel::Send` builds (158–168). -/
def requestMessage (P : Protobuf M D) (p : Peer M) (request : M) (info : SServiceInfo) :
    RpcMessage :=
  { type := .request
    id := p.mId + 1
    service := info.serviceType
    method := info.methodIndex
    from_ := .client
    to_ := info.to_
    accid := p.mAccid
    request := P.serializeAsString request }

/-- It is what the channel sends. -/
theorem out_sendRequest (P : Protobuf M D) (p : Peer M) (request : M) (info : SServiceInfo) :
    (p.sendRequest P request info).out = p.out ++ [requestMessage P p request info] :=
  sendRequest_out P p request info

namespace UMgrMessage

/-- A call of the game thread, or a step of an IO thread. -/
inductive Label (M : Type*) where
  /-- `Initialize`; `peer` is what the other side will send to the session it starts. -/
  | init (peer : Bytes)
  /-- `Deinitialize`. -/
  | deinit
  /-- `Connect`. -/
  | connect (peer : Bytes)
  /-- `Disconnect`. -/
  | disconnect
  /-- `Send`. -/
  | send (request : Option M)
  /-- `SendMessage`, for a reply. -/
  | sendMessage (message : RpcMessage)
  /-- `SetAccid`. -/
  | setAccid (accid : UInt64)
  /-- A round of the loop of `TickMessageQueue`. -/
  | tick
  /-- `WaitForCompletion` returns. -/
  | join
  /-- The user's `DisconnectedDelegate` returns. -/
  | callbackReturn
  /-- The first task posted to the game thread is run. -/
  | runTask
  /-- A step of the IO thread of a session. -/
  | io (session : ℕ) (a : Network.IoAct)

/-- Before `Initialize`. -/
def initial (d : UInt64) : UMgrMessage M := { channel := { mDelayResponseId := d } }

section

variable (P : Protobuf M D) [DecidableEq D] (g : Generated D) (s : UMgrMessage M)

/-- The functions that `Initialize` has installed are still there. -/
def installed : Bool :=
  match s.phase with
  | .initialized | .deinitializing _ => true
  | .constructed | .deinitialized => false

/-- The session that the installed functions send to. -/
def session : Option ℕ := if s.installed then s.client.socketRunnablePtr else none

/-- When its `Disconnect` has returned, `Deinitialize` installs the functions that do
nothing. -/
def settle : UMgrMessage M :=
  match s.phase with
  | .deinitializing depth =>
    if s.client.stack.length ≤ depth then { s with phase := .deinitialized } else s
  | _ => s

/-- A step of the socket. -/
def socket (a : Network.Act) : Option (UMgrMessage M) :=
  (s.client.step a).map fun client => { s with client := client }

/-- `InternalConnectFunc` and `InternalDisconnectFunc`. -/
def internalFunc (a : Network.Act) : Option (UMgrMessage M) :=
  if s.installed then s.socket a else if s.client.ready then some s else none

/-- The service tables: `registerService` is the end of `Initialize`. -/
def tables : MgrMessage D :=
  match s.phase with
  | .constructed =>
    { mArrayService := List.replicate g.serviceTypeMax none
      mMapRequest2ServiceInfo := fun _ => none }
  | _ => registerService g

/-- `SendMessage(const RpcMessage&)`, to `FTCPSocket::Send`; without a session the frame is
dropped. -/
def sendMessage (message : RpcMessage) : Option (UMgrMessage M) :=
  match s.session with
  | none => some s
  | some _ =>
    (Network.internalSendPbcFunc (P.serializeRpcMessage message)).map fun data =>
      { s with client := s.client.send data }

/-- The request that `RpcChannel::Send` goes on with, and its service info (155–157). -/
def found (request : Option M) : Option (M × SServiceInfo) :=
  request.bind fun r => ((s.tables g).getServiceInfo (P.getDescriptor r)).map (r, ·)

/-- `RpcChannel::Send`: the entry, and then the message. -/
def send (request : Option M) : Option (UMgrMessage M) :=
  match s.found P g request with
  | none => some s
  | some (r, info) =>
    { s with channel := s.channel.sendRequest P r info }.sendMessage P
      (requestMessage P s.channel r info)

/-- `OnMessage`, up to the user's code. -/
def onMessage (data : Bytes) : Option (UMgrMessage M) :=
  match (P.parseRpcMessage data).1.type with
  | .response =>
    (s.channel.stubHandleResponseMsg P g (P.parseRpcMessage data).1).map fun (p, _) =>
      { s with channel := p }
  | _ => some s

/-- One step; `none` when it is not possible. -/
def step : Label M → Option (UMgrMessage M)
  | .init peer =>
    if s.phase = .constructed then
      (s.client.step (.connect peer)).map fun client =>
        { s with phase := .initialized, client := client }
    else none
  | .deinit =>
    if s.phase = .initialized then
      (s.client.step .mgrDisconnect).map fun client =>
        { s with phase := .deinitializing s.client.stack.length, client := client }.settle
    else none
  | .connect peer => s.internalFunc (.connect peer)
  | .disconnect => s.internalFunc .mgrDisconnect
  | .send request => if s.client.ready then s.send P g request else none
  | .sendMessage message => if s.client.ready then s.sendMessage P message else none
  | .setAccid accid =>
    if s.client.ready then some { s with channel := { s.channel with mAccid := accid } } else none
  | .tick =>
    match s.client.mem.messageQueue with
    | [] => none
    | msg :: _ => (s.socket .tick).bind fun s => s.onMessage P g msg.data
  | .join => s.socket .join
  | .callbackReturn => (s.socket .callbackReturn).map settle
  | .runTask => s.socket .runTask
  | .io k a => s.socket (.io k a)

end

/-! ### What a `Send` leaves behind -/

section

variable (P : Protobuf M D) [DecidableEq D] (g : Generated D)

/-- A `Send` that makes an entry puts the complete frame of its request on the `SendBuffer`
of the current session, and one that drops the frame leaves `m_outstandings` as it was. -/
structure SendOk (s : UMgrMessage M) (request : Option M) : Prop where
  handedOver : ∀ found ∈ s.found P g request, ∃ k s', s.client.socketRunnablePtr = some k ∧
    s.send P g request = some s' ∧
      s'.client.mem.sendBuffer = s.client.mem.sendBuffer ++ [Network.encoder
        (P.serializeRpcMessage (requestMessage P s.channel found.1 found.2))]
  dropped : ∀ s', s.send P g request = some s' →
    s'.client.mem.sendBuffer = s.client.mem.sendBuffer →
    s'.channel.mOutstandings = s.channel.mOutstandings

/-- The condition: a request that is in the service tables is sent while a session is
current and the functions of `Initialize` are installed, and its frame has fewer than `2^31`
bytes. -/
def Deliverable (s : UMgrMessage M) (request : Option M) : Prop :=
  ∀ found ∈ s.found P g request, s.session.isSome = true ∧ (Network.encoder
    (P.serializeRpcMessage (requestMessage P s.channel found.1 found.2))).length < 2 ^ 31

instance (s : UMgrMessage M) (request : Option M) : Decidable (Deliverable P g s request) :=
  inferInstanceAs (Decidable (∀ found ∈ s.found P g request, _ ∧ _))

/-- A condition on the calls of `Send`. -/
def OnSend (C : UMgrMessage M → Option M → Prop) (s : UMgrMessage M) : Label M → Prop
  | .send request => C s request
  | _ => True

instance (C : UMgrMessage M → Option M → Prop) [∀ s request, Decidable (C s request)] :
    ∀ (s : UMgrMessage M) (l : Label M), Decidable (OnSend C s l)
  | s, .send request => inferInstanceAs (Decidable (C s request))
  | _, .init _ | _, .deinit | _, .connect _ | _, .disconnect | _, .sendMessage _
  | _, .setAccid _ | _, .tick | _, .join | _, .callbackReturn | _, .runTask | _, .io _ _ =>
    inferInstanceAs (Decidable True)

variable {P g} {s s' : UMgrMessage M} {request : Option M}

/-- A session that `SendMessage` sends to is the current one. -/
theorem session_eq_some {k : ℕ} (h : s.session = some k) : s.client.socketRunnablePtr = some k := by
  unfold session at h
  split at h
  · exact h
  · cases h

/-- What `Send` does. -/
theorem send_cases (h : s.send P g request = some s') :
    (s.found P g request = none ∧ s' = s) ∨
    ∃ r info, s.found P g request = some (r, info) ∧
      ((s.session = none ∧ s' = { s with channel := s.channel.sendRequest P r info }) ∨
        ∃ k data, s.session = some k ∧ Network.internalSendPbcFunc (P.serializeRpcMessage
          (requestMessage P s.channel r info)) = some data ∧
          s' = { s with
            channel := s.channel.sendRequest P r info
            client := s.client.send data }) := by
  unfold send at h
  split at h
  · rename_i hf
    cases h
    exact .inl ⟨hf, rfl⟩
  · rename_i r info hf
    refine .inr ⟨r, info, hf, ?_⟩
    unfold sendMessage at h
    split at h
    · rename_i hs
      cases h
      exact .inl ⟨hs, rfl⟩
    · rename_i k hs
      obtain ⟨data, hd, rfl⟩ := Option.map_eq_some_iff.mp h
      exact .inr ⟨k, data, hs, hd, rfl⟩

/-- What the channel does by itself, when the service tables are filled. -/
theorem channel_send (hphase : s.phase ≠ .constructed) (h : s.send P g request = some s') :
    s'.channel = s.channel.send P g request := by
  have htables : s.tables g = registerService g := by
    unfold tables
    split
    · exact absurd ‹_› hphase
    · rfl
  have hsend : s.channel.send P g request =
      match s.found P g request with
      | none => s.channel
      | some (r, info) => s.channel.sendRequest P r info := by
    cases request with
    | none => rfl
    | some r =>
      simp only [Peer.send, found, Option.bind_some, htables]
      cases (registerService g).getServiceInfo (P.getDescriptor r) <;> rfl
  rw [hsend]
  rcases send_cases h with ⟨hf, rfl⟩ | ⟨r, info, hf, ⟨-, rfl⟩ | ⟨k, data, -, -, rfl⟩⟩
  all_goals rw [hf]

/-- `FTCPSocket::Send` to a session. -/
theorem sendBuffer_send {c : Network.Client} {k : ℕ} {data : Bytes}
    (h : c.socketRunnablePtr = some k) :
    (c.send data).mem.sendBuffer = c.mem.sendBuffer ++ [data] := by
  simp only [Network.Client.send, h]

/-- **When a `Send` hands over what it enters.** -/
theorem sendOk_iff : SendOk P g s request ↔ Deliverable P g s request := by
  constructor
  · rintro h ⟨r, info⟩ hf
    obtain ⟨k, s', hk, hs', hbuffer⟩ := h.handedOver (r, info) hf
    rcases send_cases hs' with ⟨hnone, -⟩ | ⟨r', info', hf', hcases⟩
    · rw [hnone] at hf
      cases hf
    · rw [Option.mem_def, hf', Option.some.injEq, Prod.mk.injEq] at hf
      obtain ⟨rfl, rfl⟩ := hf
      rcases hcases with ⟨-, rfl⟩ | ⟨k', data, hk', hdata, rfl⟩
      · -- the frame is dropped
        simp at hbuffer
      · rw [sendBuffer_send (session_eq_some hk'), List.append_cancel_left_eq,
          List.singleton_inj] at hbuffer
        subst hbuffer
        exact ⟨by rw [hk']; rfl, (Network.internalSendPbcFunc_eq_some hdata).2.2⟩
  · intro h
    constructor
    · rintro ⟨r, info⟩ hf
      obtain ⟨hsession, hlt⟩ := h (r, info) hf
      obtain ⟨k, hk⟩ := Option.isSome_iff_exists.mp hsession
      have hsend : s.send P g request = some
          { s with
            channel := s.channel.sendRequest P r info
            client := s.client.send (Network.encoder
              (P.serializeRpcMessage (requestMessage P s.channel r info))) } := by
        rw [Option.mem_def] at hf
        have hk' : ({ s with channel := s.channel.sendRequest P r info } : UMgrMessage M).session =
          some k := hk
        simp only [send, hf, sendMessage, hk', Network.internalSendPbcFunc_eq hlt, Option.map_some]
      exact ⟨k, _, session_eq_some hk, hsend, sendBuffer_send (session_eq_some hk)⟩
    · intro s' hs' hbuffer
      rcases send_cases hs' with ⟨-, rfl⟩ | ⟨r, info, hf, hcases⟩
      · rfl
      · obtain ⟨hsession, -⟩ := h (r, info) hf
        rcases hcases with ⟨hnone, -⟩ | ⟨k, data, hk, -, rfl⟩
        · rw [hnone] at hsession
          cases hsession
        · -- the frame is not dropped
          rw [sendBuffer_send (session_eq_some hk)] at hbuffer
          simp at hbuffer

/-! ### What a step can do -/

variable (P g) in
/-- What a step can do: a step of the socket that enters nothing, a change of the channel
that enters nothing, or a `Send`. -/
inductive Stepped (s : UMgrMessage M) : Label M → UMgrMessage M → Prop
  | socket {l : Label M} {a : Network.Act} {client : Network.Client} {channel : Peer M}
      {phase : Phase} (h : Network.ClientStep s.client a client)
      (ho : ∀ id out, channel.mOutstandings.lookup id = some out →
        s.channel.mOutstandings.lookup id = some out) :
      Stepped s l { phase := phase, client := client, channel := channel }
  | idle {l : Label M} {channel : Peer M}
      (ho : channel.mOutstandings = s.channel.mOutstandings) :
      Stepped s l { s with channel := channel }
  | send {request : Option M} {s' : UMgrMessage M} (hr : s.client.ready = true)
      (h : s.send P g request = some s') : Stepped s (.send request) s'

theorem settle_eq (s : UMgrMessage M) : ∃ phase, s.settle = { s with phase := phase } := by
  unfold settle
  split
  · split <;> exact ⟨_, rfl⟩
  · exact ⟨_, rfl⟩

theorem Stepped.of_socket {l : Label M} {a : Network.Act} (h : s.socket a = some s') :
    Stepped P g s l s' := by
  obtain ⟨client, hc, rfl⟩ := Option.map_eq_some_iff.mp h
  exact .socket (.of_step hc) fun _ _ => id

theorem Stepped.of_internalFunc {l : Label M} {a : Network.Act} (h : s.internalFunc a = some s') :
    Stepped P g s l s' := by
  unfold internalFunc at h
  split at h
  · exact .of_socket h
  · split at h <;> cases h
    exact .idle rfl

/-- The inversion of `step`. -/
theorem Stepped.of_step {l : Label M} (h : s.step P g l = some s') : Stepped P g s l s' := by
  cases l with
  | init peer =>
    simp only [step, Option.ite_none_right_eq_some] at h
    obtain ⟨client, hc, rfl⟩ := Option.map_eq_some_iff.mp h.2
    exact .socket (.of_step hc) fun _ _ => id
  | deinit =>
    simp only [step, Option.ite_none_right_eq_some] at h
    obtain ⟨client, hc, rfl⟩ := Option.map_eq_some_iff.mp h.2
    obtain ⟨phase, hphase⟩ := settle_eq
      { s with phase := .deinitializing s.client.stack.length, client := client }
    rw [hphase]
    exact .socket (.of_step hc) fun _ _ => id
  | connect peer => exact .of_internalFunc h
  | disconnect => exact .of_internalFunc h
  | send request =>
    simp only [step, Option.ite_none_right_eq_some] at h
    exact .send h.1 h.2
  | sendMessage message =>
    simp only [step, Option.ite_none_right_eq_some] at h
    obtain ⟨hr, h⟩ := h
    unfold sendMessage at h
    split at h
    · cases h
      exact .idle rfl
    · obtain ⟨data, -, rfl⟩ := Option.map_eq_some_iff.mp h
      exact .socket (.of_step (a := .send data) (if_pos hr)) fun _ _ => id
  | setAccid accid =>
    simp only [step, Option.ite_none_right_eq_some, Option.some.injEq] at h
    obtain ⟨-, rfl⟩ := h
    exact .idle rfl
  | tick =>
    simp only [step] at h
    split at h
    · cases h
    · obtain ⟨s₁, hs, hm⟩ := Option.bind_eq_some_iff.mp h
      obtain ⟨client, hc, rfl⟩ := Option.map_eq_some_iff.mp hs
      unfold onMessage at hm
      split at hm
      · obtain ⟨⟨p, called⟩, hstub, rfl⟩ := Option.map_eq_some_iff.mp hm
        refine .socket (.of_step hc) fun id out hl => ?_
        exact lookup_of_stubHandleResponseMsg hstub hl
      · cases hm
        exact .socket (.of_step hc) fun _ _ => id
  | join => exact .of_socket h
  | callbackReturn =>
    obtain ⟨s₁, hs, rfl⟩ := Option.map_eq_some_iff.mp h
    obtain ⟨client, hc, rfl⟩ := Option.map_eq_some_iff.mp hs
    obtain ⟨phase, hphase⟩ := settle_eq { s with client := client }
    rw [hphase]
    exact .socket (.of_step hc) fun _ _ => id
  | runTask => exact .of_socket h
  | io k a => exact .of_socket h

/-! ### Runs -/

variable (P) in
/-- Each outstanding call has its complete frame among those that a session was given. -/
def Tracked (s : UMgrMessage M) : Prop :=
  ∀ id out, s.channel.mOutstandings.lookup id = some out →
    ∃ (k : ℕ) (t : Network.FTCPSocketRunnable) (message : RpcMessage),
      s.client.threads[k]? = some t ∧
      Network.encoder (P.serializeRpcMessage message) ∈ t.enqueued ∧ message.type = .request ∧
      message.id = id ∧ message.service = out.serviceType ∧ message.method = out.methodIndex ∧
      message.request = P.serializeAsString out.request

omit [DecidableEq D] in
theorem Tracked.socket (h : Tracked P s) {a : Network.Act}
    (hc : Network.ClientStep s.client a s'.client)
    (ho : ∀ id out, s'.channel.mOutstandings.lookup id = some out →
      s.channel.mOutstandings.lookup id = some out) : Tracked P s' := by
  intro id out hl
  obtain ⟨k, t, message, ht, hmem, hmessage⟩ := h id out (ho id out hl)
  obtain ⟨t', ht', hpre⟩ := hc.enqueued ht
  exact ⟨k, t', message, ht', hpre.subset hmem, hmessage⟩

/-- A `Send` whose frame is not dropped. -/
theorem Tracked.send (h : Tracked P s) (hwf : Network.Wf s.client) (hr : s.client.ready = true)
    (hs : s.send P g request = some s') (hok : Deliverable P g s request) :
    Tracked P s' ∧ Network.Wf s'.client := by
  rcases send_cases hs with ⟨-, rfl⟩ | ⟨r, info, hf, hcases⟩
  · exact ⟨h, hwf⟩
  · obtain ⟨hsession, hlt⟩ := hok (r, info) hf
    rcases hcases with ⟨hnone, -⟩ | ⟨k, data, hk, hdata, rfl⟩
    · rw [hnone] at hsession
      cases hsession
    · rw [Network.internalSendPbcFunc_eq hlt, Option.some.injEq] at hdata
      have hstep : Network.ClientStep s.client (.send data) (s.client.send data) :=
        .of_step (if_pos hr)
      refine ⟨fun id out hl => ?_, Network.wf_step hwf hstep⟩
      by_cases hid : id = s.channel.mId + 1
      · subst hid
        rw [sendRequest_mOutstandings, AList.lookup_insert, Option.some.injEq] at hl
        subst hl
        -- the current session is the last
        have hk := session_eq_some hk
        have hlen : k < s.client.threads.length := by
          have := hwf.current k hk
          omega
        obtain ⟨t, ht⟩ : ∃ t, s.client.threads[k]? = some t := ⟨_, List.getElem?_eq_getElem hlen⟩
        refine ⟨k, { t with enqueued := t.enqueued ++ [data] },
          requestMessage P s.channel r info, ?_, ?_, rfl, rfl, rfl, rfl, rfl⟩
        · simp only [Network.Client.send, hk]
          exact getElem?_modify_eq_some.mpr ⟨t, ht, by rw [if_pos rfl]⟩
        · rw [hdata]
          exact List.mem_append_right _ (List.mem_singleton_self _)
      · rw [sendRequest_mOutstandings, AList.lookup_insert_ne hid] at hl
        obtain ⟨j, t, message, ht, hmem, hmessage⟩ := h id out hl
        obtain ⟨t', ht', hpre⟩ := hstep.enqueued ht
        exact ⟨j, t', message, ht', hpre.subset hmem, hmessage⟩

/-- In every run in which each `Send` is made under the condition, no call is outstanding
whose frame was dropped. -/
theorem tracked_run {d : UInt64} {labels : List (Label M)}
    (h : run (step P g) (.initial d) labels = some s)
    (hok : EachStep (step P g) (OnSend (Deliverable P g)) (.initial d) labels) : Tracked P s := by
  have hstart : Tracked P (.initial d : UMgrMessage M) ∧
      Network.Wf (.initial d : UMgrMessage M).client := by
    refine ⟨fun id out hl => ?_, Network.wf_start⟩
    cases hl
  refine (run_invariant_of_eachStep (step P g) (I := fun s => Tracked P s ∧
    Network.Wf s.client) hstart ?_ hok h).1
  rintro s l s' ⟨ht, hwf⟩ hl hs
  cases Stepped.of_step hs with
  | socket hc ho => exact ⟨ht.socket hc ho, Network.wf_step hwf hc⟩
  | idle ho => exact ⟨by rw [Tracked, ho]; exact ht, hwf⟩
  | send hr hs => exact ht.send hwf hr hs hl

/-- **In every run**, whatever the order of `Send`, `Connect`, `Disconnect`, connection
errors, `Initialize` and `Deinitialize`: each `Send` hands over what it enters exactly when
each is made under the condition, and then every outstanding call has its frame among those
that a session was given. -/
theorem handedOver_run {d : UInt64} {labels : List (Label M)}
    (h : run (step P g) (.initial d) labels = some s) :
    (EachStep (step P g) (OnSend (SendOk P g)) (.initial d) labels ↔
      EachStep (step P g) (OnSend (Deliverable P g)) (.initial d) labels) ∧
    (EachStep (step P g) (OnSend (Deliverable P g)) (.initial d) labels → Tracked P s) := by
  refine ⟨⟨.mono fun s l hl => ?_, .mono fun s l hl => ?_⟩, tracked_run h⟩
  · cases l with
    | send request => exact sendOk_iff.mp hl
    | _ => trivial
  · cases l with
    | send request => exact sendOk_iff.mpr hl
    | _ => trivial

end

/-! ### The sign-in call -/

section

open SignIn

/-- The IO thread of the session cannot create its socket. -/
def ended (k : ℕ) : Label Msg := .io k (.init false true true)

/-- The player signs in, the session is disconnected, and another is started. -/
def signInConnected : List (Label Msg) :=
  [.init [], .send (some (.userSignInArg 7)), ended 0, .disconnect, .join, .callbackReturn,
    .send none, .connect [], .send (some (.userSignInArg 8))]

/-- Both calls have their frames among those that the sessions were given. -/
theorem handedOver_run_signIn :
    ∃ s : UMgrMessage Msg,
      run (step protobuf generated) (.initial 0) signInConnected = some s ∧
      EachStep (step protobuf generated) (OnSend (SendOk protobuf generated)) (.initial 0)
        signInConnected ∧ Tracked protobuf s := by
  have hok : EachStep (step protobuf generated) (OnSend (Deliverable protobuf generated))
    (.initial 0) signInConnected := by decide
  have h := @handedOver_run _ _ protobuf _ generated _ 0 signInConnected rfl
  exact ⟨_, rfl, h.1.mpr hok, h.2 hok⟩

/-- The player signs in when the session has been disconnected; and when `Deinitialize` has
returned, though the user's callback has started another session. The entry stays in the
table, the frame is nowhere. -/
theorem not_handedOver :
    (∃ s s' : UMgrMessage Msg,
      run (step protobuf generated) (.initial 0)
        [.init [], ended 0, .disconnect, .join, .callbackReturn] = some s ∧
      s.send protobuf generated (some (.userSignInArg 7)) = some s' ∧
      s'.client.mem.sendBuffer = [] ∧
      s'.channel.mOutstandings.lookup 1 = some ⟨.userSignInArg 7, 1, 0⟩ ∧
      ¬ SendOk protobuf generated s (some (.userSignInArg 7))) ∧
    ∃ s s' : UMgrMessage Msg,
      run (step protobuf generated) (.initial 0)
        [.init [], ended 0, .deinit, .join, .connect [], .callbackReturn] = some s ∧
      s.client.socketRunnablePtr = some 1 ∧
      s.send protobuf generated (some (.userSignInArg 7)) = some s' ∧
      s'.client.mem.sendBuffer = [] ∧
      s'.channel.mOutstandings.lookup 1 = some ⟨.userSignInArg 7, 1, 0⟩ ∧
      ¬ SendOk protobuf generated s (some (.userSignInArg 7)) := by
  refine ⟨⟨_, _, rfl, rfl, rfl, rfl, fun h => ?_⟩, _, _, rfl, rfl, rfl, rfl, rfl, fun h => ?_⟩
  · exact absurd (sendOk_iff.mp h) (by decide)
  · exact absurd (sendOk_iff.mp h) (by decide)

end

end UMgrMessage

end ThirdPersonMP.System
