import ThirdPersonMP.Library.Simulation
import ThirdPersonMP.Network.Delivery
import ThirdPersonMP.Network.ErrorReport
import ThirdPersonMP.Network.SendPath
import ThirdPersonMP.Rpc.Agreement

/-!
# Two sides of a connection

Two sides that execute `UMgrMessage`, after `Initialize`: on each the channel
(`RpcChannel.cpp`) over the socket and its IO threads (`TcpSocket.cpp`,
`TcpSocketRunnable.cpp`), with the encoder and the decoder between them
(`MgrMessage.cpp`, 55–58, 80–98, 124–138, 159–177).

The sides start and end sessions when they like. `Links` says which session of the one is
connected to which of the other, if to any: TCP delivers to a session the bytes that the
socket of the other has accepted, in order, and no more than it has accepted so far
(`Causal`). Everything else is as in `Network.Client`: the threads take turns, `Send` and
`Recv` handle some of the bytes or fail, a session may be ended with frames on its way.

A call of the user's code or a message first changes the channel, and the messages that it
passes to `SendMessage` then go to the socket one after the other (`Label.sendMessage`),
while the IO thread runs. No message is taken from `MessageQueue` between two of them.

* `delivered_run` — what a side dispatches of a session is among what the other has passed
  to `FTCPSocket::Send` in the session it is connected to, in order and complete but for
  what `MessageQueue.Empty` has taken; and no message is dispatched twice.
-/

namespace ThirdPersonMP.System

open Base Library Rpc

variable {M D : Type*}

/-! ### One side -/

/-- `UMgrMessage`, with a history that no step reads. -/
structure Endpoint (M : Type*) where
  /-- `TCPSocketPtr`, and the IO threads. -/
  client : Network.Client := {}
  /-- `m_RpcChannelPtr`; `out` holds the messages passed to `SendMessage` that have not
  reached the socket. -/
  channel : Peer M
  /-- History: the messages passed on to `FTCPSocket::Send`, with the session. -/
  given : List (ℕ × RpcMessage) := []

namespace Endpoint

/-- What happens next on a side. -/
inductive Label (M : Type*) where
  /-- A call from outside. -/
  | act (a : Rpc.Act M)
  /-- The next message passed to `SendMessage` goes to `InternalSendPbcFunc`. -/
  | sendMessage
  /-- A round of the loop of `TickMessageQueue`. -/
  | tick (handler : Handler M) (callback : List (Rpc.Act M))
  /-- Another call of the socket, or a step of an IO thread. -/
  | socket (a : Network.Act)

/-- Neither `FTCPSocket::Send` nor a tick. -/
def isSocket : Network.Act → Bool
  | .send _ | .tick => false
  | _ => true

section

variable (P : Protobuf M D) [DecidableEq D] (g : Generated D) (e : Endpoint M)

/-- `SendMessage(const RpcMessage&)`, to `FTCPSocket::Send`, which does nothing without a
session. -/
def sendMessage (message : RpcMessage) : Option (Endpoint M) :=
  match e.client.socketRunnablePtr with
  | none => some e
  | some k =>
    (Network.internalSendPbcFunc (P.serializeRpcMessage message)).map fun data =>
      { e with client := e.client.send data, given := e.given ++ [(k, message)] }

/-- A round of `TickMessageQueue`: the first message is taken, and `OnMessage` is called. -/
def tick (handler : Handler M) (callback : List (Rpc.Act M)) : Option (Endpoint M) :=
  match e.client.mem.messageQueue with
  | [] => none
  | msg :: _ =>
    (e.client.step .tick).bind fun client =>
      (e.channel.onMessage P g msg.data handler callback).map fun p =>
        { e with client := client, channel := p }

/-- One step; `none` when it is not possible. -/
def step : Label M → Option (Endpoint M)
  | .act a =>
    if e.client.ready ∧ e.channel.out = [] then
      (e.channel.act P g a).map fun p => { e with channel := p }
    else none
  | .sendMessage =>
    match e.channel.out with
    | [] => none
    | message :: out =>
      if e.client.ready then
        { e with channel := { e.channel with out := out } }.sendMessage P message
      else none
  | .tick handler callback =>
    if e.channel.out = [] then e.tick P g handler callback else none
  | .socket a =>
    if isSocket a then (e.client.step a).map fun client => { e with client := client } else none

end

end Endpoint

/-! ### The two sides -/

/-- Which sessions are connected. -/
structure Links where
  /-- The session of the other side that a session is connected to. -/
  peerOf : Side → ℕ → Option ℕ
  /-- It is connected to that one. -/
  symm : ∀ x j k, peerOf x j = some k → peerOf x.other k = some j

/-- Both sides. -/
abbrev Endpoints (M : Type*) := Side → Endpoint M

namespace Endpoints

/-- Before the first session. -/
def initial (d : Side → UInt64) : Endpoints M := fun x => { channel := { mDelayResponseId := d x } }

section

variable (P : Protobuf M D) [DecidableEq D] (g : Generated D) (links : Links) (s : Endpoints M)

/-- What the socket of the other side has accepted for session `k` of `x`. -/
def acceptedFor (x : Side) (k : ℕ) : Bytes :=
  match links.peerOf x k with
  | none => []
  | some j => ((s x.other).client.threads[j]?.map (·.accepted)).getD []

/-- TCP: what the sockets of `x` have delivered was accepted on the other side. -/
def Causal (x : Side) : Prop :=
  ∀ k < (s x).client.threads.length, ∀ t ∈ (s x).client.threads[k]?,
    t.consumed <+: s.acceptedFor links x k

instance (x : Side) : Decidable (Causal links s x) :=
  inferInstanceAs (Decidable (∀ k < _, ∀ t ∈ (s x).client.threads[k]?, _))

/-- One step of a side. -/
def step (l : Side × Endpoint.Label M) : Option (Endpoints M) :=
  ((s l.1).step P g l.2).bind fun e =>
    let s' : Endpoints M := Function.update s l.1 e
    if Causal links s' l.1 then some s' else none

end

end Endpoints

/-! ### What a step can do -/

section

variable (P : Protobuf M D) [DecidableEq D] (g : Generated D)

/-- What a step of a side can do, one constructor for each outcome. -/
inductive Endpoint.Stepped (e : Endpoint M) : Endpoint.Label M → Endpoint M → Prop
  | act {a : Rpc.Act M} {p : Peer M} (hout : e.channel.out = [])
      (h : e.channel.act P g a = some p) : Stepped e (.act a) { e with channel := p }
  | dropped {message : RpcMessage} {out : List RpcMessage}
      (hout : e.channel.out = message :: out) (hp : e.client.socketRunnablePtr = none) :
      Stepped e .sendMessage { e with channel := { e.channel with out := out } }
  | given {message : RpcMessage} {out : List RpcMessage} {k : ℕ} {data : Bytes}
      (hout : e.channel.out = message :: out) (hp : e.client.socketRunnablePtr = some k)
      (hd : Network.internalSendPbcFunc (P.serializeRpcMessage message) = some data)
      (hc : e.client.step (.send data) = some (e.client.send data)) :
      Stepped e .sendMessage
        { client := e.client.send data
          channel := { e.channel with out := out }
          given := e.given ++ [(k, message)] }
  | tick {handler : Handler M} {callback : List (Rpc.Act M)} {client : Network.Client}
      {msg : Network.Message} {queue : List Network.Message} {p : Peer M}
      (hout : e.channel.out = []) (hq : e.client.mem.messageQueue = msg :: queue)
      (hc : e.client.step .tick = some client)
      (h : e.channel.onMessage P g msg.data handler callback = some p) :
      Stepped e (.tick handler callback) { e with client := client, channel := p }
  | socket {a : Network.Act} {client : Network.Client} (ha : Endpoint.isSocket a = true)
      (hc : e.client.step a = some client) : Stepped e (.socket a) { e with client := client }

variable {P g}

/-- The inversion of `Endpoint.step`. -/
theorem Endpoint.Stepped.of_step {e e' : Endpoint M} {l : Endpoint.Label M}
    (h : e.step P g l = some e') : Stepped P g e l e' := by
  cases l with
  | act a =>
    simp only [Endpoint.step, Option.ite_none_right_eq_some] at h
    obtain ⟨⟨-, hout⟩, h⟩ := h
    obtain ⟨p, hp, rfl⟩ := Option.map_eq_some_iff.mp h
    exact .act hout hp
  | sendMessage =>
    simp only [Endpoint.step] at h
    split at h
    · cases h
    · rename_i message out hout
      simp only [Option.ite_none_right_eq_some] at h
      obtain ⟨hr, h⟩ := h
      simp only [Endpoint.sendMessage] at h
      split at h
      · cases h
        exact .dropped hout ‹_›
      · obtain ⟨data, hd, rfl⟩ := Option.map_eq_some_iff.mp h
        exact .given hout ‹_› hd (if_pos hr)
  | tick handler callback =>
    simp only [Endpoint.step, Option.ite_none_right_eq_some] at h
    obtain ⟨hout, h⟩ := h
    simp only [Endpoint.tick] at h
    split at h
    · cases h
    · obtain ⟨client, hc, h⟩ := Option.bind_eq_some_iff.mp h
      obtain ⟨p, hp, rfl⟩ := Option.map_eq_some_iff.mp h
      exact .tick hout ‹_› hc hp
  | socket a =>
    simp only [Endpoint.step, Option.ite_none_right_eq_some] at h
    obtain ⟨ha, h⟩ := h
    obtain ⟨client, hc, rfl⟩ := Option.map_eq_some_iff.mp h
    exact .socket ha hc

/-- The inversion of `Endpoints.step`. -/
theorem Endpoints.step_eq_some {links : Links} {s s' : Endpoints M} {x : Side}
    {l : Endpoint.Label M} (h : Endpoints.step P g links s (x, l) = some s') :
    ∃ e, Endpoint.Stepped P g (s x) l e ∧ s' = Function.update s x e ∧
      Endpoints.Causal links s' x := by
  obtain ⟨e, he, h⟩ := Option.bind_eq_some_iff.mp h
  simp only [Option.ite_none_right_eq_some, Option.some.injEq] at h
  obtain ⟨hc, rfl⟩ := h
  exact ⟨e, .of_step he, rfl, hc⟩

end

/-! ### A side in order -/

section

variable (P : Protobuf M D)

/-- The frame of a message. -/
def frame (message : RpcMessage) : Bytes := Network.encoder (P.serializeRpcMessage message)

/-- A session receives fewer than `2^31` bytes, and no header from `2^32 - 4` on. -/
def Endpoint.StreamOk : Endpoint.Label M → Prop
  | .socket (.connect peer) => peer.length < 2 ^ 31 ∧ Network.HeadersOk peer
  | _ => True

/-- A frame has fewer than `2^31` bytes. -/
def Endpoint.FrameOk (e : Endpoint M) : Endpoint.Label M → Prop
  | .sendMessage => ∀ message ∈ e.channel.out.head?, (frame P message).length < 2 ^ 31
  | _ => True

instance (e : Endpoint M) : ∀ l : Endpoint.Label M, Decidable (e.FrameOk P l)
  | .sendMessage => inferInstanceAs (Decidable (∀ message ∈ e.channel.out.head?, _))
  | .act _ | .tick _ _ | .socket _ => inferInstanceAs (Decidable True)

/-- The sizes are those that the source can handle. -/
def Endpoints.SizeOk (s : Endpoints M) (l : Side × Endpoint.Label M) : Prop :=
  Endpoint.StreamOk l.2 ∧ (s l.1).FrameOk P l.2

/-- What is known of a side by itself. -/
structure Endpoint.Ok (e : Endpoint M) : Prop where
  /-- The socket and its threads are in a state of a run of theirs. -/
  reached : ∃ as, run Network.Client.step {} as = some e.client
  /-- A session was passed the frames of the messages noted for it. -/
  enqueued : ∀ (k : ℕ) (t : Network.FTCPSocketRunnable), e.client.threads[k]? = some t →
    t.enqueued = (tagged k e.given).map (frame P)
  /-- The sessions noted are sessions, the frames are of a size that fits. -/
  given : ∀ r ∈ e.given, r.1 < e.client.threads.length ∧ (frame P r.2).length < 2 ^ 31
  /-- The streams are of a size that fits. -/
  streams : ∀ (k : ℕ) (t : Network.FTCPSocketRunnable), e.client.threads[k]? = some t →
    t.peer.length < 2 ^ 31 ∧ Network.HeadersOk t.peer

variable {P} [DecidableEq D] {g : Generated D} {e e' : Endpoint M}

theorem tagged_eq_nil {k : ℕ} {given : List (ℕ × RpcMessage)} (h : ∀ r ∈ given, r.1 ≠ k) :
    tagged k given = [] := by
  rw [tagged, List.filter_eq_nil_iff.mpr fun r hr => by simpa using h r hr]
  rfl

theorem tagged_concat (k j : ℕ) (message : RpcMessage) (given : List (ℕ × RpcMessage)) :
    tagged k (given ++ [(j, message)]) = tagged k given ++ if j = k then [message] else [] := by
  by_cases hj : j = k <;> simp [tagged, hj]

omit [DecidableEq D] in
/-- A step of the socket that is given no message. -/
theorem Endpoint.Ok.socket (h : e.Ok P) {a : Network.Act} {client : Network.Client}
    (ha : ∀ data, a ≠ .send data) (hc : e.client.step a = some client)
    (hsize : ∀ peer, a = .connect peer → peer.length < 2 ^ 31 ∧ Network.HeadersOk peer)
    {channel : Peer M} : ({ e with client := client, channel := channel } : Endpoint M).Ok P := by
  have hstep := Network.ClientStep.of_step hc
  have hsent : ∀ k, Network.sentTo e.client k a = [] := by
    intro k
    cases a with
    | send data => exact absurd rfl (ha data)
    | _ => rfl
  obtain ⟨as, has⟩ := h.reached
  refine ⟨⟨as ++ [a], (run_concat _).mpr ⟨_, has, hc⟩⟩, fun k u hu => ?_, fun r hr => ?_,
    fun k u hu => ?_⟩
  · rcases hstep.threads hu with ⟨t, ht, -, -, henq⟩ | ⟨rfl, henq, -⟩
    · rw [henq, hsent, List.append_nil]
      exact h.enqueued k t ht
    · rw [henq, tagged_eq_nil fun r hr => (h.given r hr).1.ne]
      rfl
  · exact ⟨(h.given r hr).1.trans_le hstep.length_le, (h.given r hr).2⟩
  · rcases hstep.threads hu with ⟨t, ht, hpeer, -, -⟩ | ⟨rfl, -, hconnect⟩
    · rw [hpeer]
      exact h.streams k t ht
    · exact hsize u.peer hconnect

/-- **A step keeps a side in order.** -/
theorem Endpoint.ok_step (h : e.Ok P) {l : Endpoint.Label M} (hstream : Endpoint.StreamOk l)
    (hframe : e.FrameOk P l) (hs : Endpoint.Stepped P g e l e') : e'.Ok P := by
  cases hs with
  | act hout ha => exact ⟨h.reached, h.enqueued, h.given, h.streams⟩
  | dropped hout hp => exact ⟨h.reached, h.enqueued, h.given, h.streams⟩
  | @given message out k data hout hp hd hc =>
    have hlt : (frame P message).length < 2 ^ 31 := hframe message (by rw [hout]; rfl)
    have hdata : data = frame P message := by
      rw [Network.internalSendPbcFunc_eq hlt, Option.some.injEq] at hd
      exact hd.symm
    have hstep := Network.ClientStep.of_step hc
    obtain ⟨as, has⟩ := h.reached
    have hk : k < e.client.threads.length := by
      have := (Network.wf_run has).current k hp
      omega
    refine ⟨⟨as ++ [.send data], (run_concat _).mpr ⟨_, has, hc⟩⟩, fun j u hu => ?_, fun r hr => ?_,
      fun j u hu => ?_⟩
    · rcases hstep.threads hu with ⟨t, ht, -, -, henq⟩ | ⟨-, -, hconnect⟩
      · rw [henq, h.enqueued j t ht, tagged_concat, List.map_append, Network.sentTo, hp, hdata]
        by_cases hj : k = j <;> simp [hj]
      · cases hconnect
    · rcases List.mem_append.mp hr with hr | hr
      · exact ⟨(h.given r hr).1.trans_le hstep.length_le, (h.given r hr).2⟩
      · obtain rfl := List.mem_singleton.mp hr
        exact ⟨hk.trans_le hstep.length_le, hlt⟩
    · rcases hstep.threads hu with ⟨t, ht, hpeer, -, -⟩ | ⟨-, -, hconnect⟩
      · rw [hpeer]
        exact h.streams j t ht
      · cases hconnect
  | tick hout hq hc hm => exact h.socket (fun data => by simp) hc (fun peer => by simp)
  | @socket a client ha hc =>
    refine h.socket (fun data hdata => ?_) hc fun peer hpeer => ?_
    · rw [hdata] at ha
      cases ha
    · rw [hpeer] at hstream
      exact hstream

/-- A step of a side is a step of its socket, or leaves the socket alone. -/
theorem Endpoint.Stepped.client {l : Endpoint.Label M} (h : Endpoint.Stepped P g e l e') :
    e'.client = e.client ∨ ∃ a, Network.ClientStep e.client a e'.client := by
  cases h with
  | act | dropped => exact .inl rfl
  | given _ _ _ hc => exact .inr ⟨_, .of_step hc⟩
  | tick _ _ hc _ => exact .inr ⟨_, .of_step hc⟩
  | socket _ hc => exact .inr ⟨_, .of_step hc⟩

end

/-! ### Both sides in order -/

section

variable (P : Protobuf M D) (links : Links)

/-- The sides are in order, and what they have received was sent. -/
def Linked (s : Endpoints M) : Prop := ∀ x, (s x).Ok P ∧ Endpoints.Causal links s x

variable {P links} [DecidableEq D] {g : Generated D} {s s' : Endpoints M}

/-- What a socket has accepted stays accepted. -/
theorem acceptedFor_update {x : Side} {l : Endpoint.Label M} {e : Endpoint M}
    (h : Endpoint.Stepped P g (s x) l e) (k : ℕ) :
    s.acceptedFor links x.other k <+:
      Endpoints.acceptedFor links (Function.update s x e) x.other k := by
  unfold Endpoints.acceptedFor
  rw [Side.other_other, Function.update_self]
  split
  · exact List.prefix_rfl
  · rename_i j hj
    rcases h.client with heq | ⟨a, hstep⟩
    · rw [heq]
    · cases ht : (s x).client.threads[j]? with
      | none => exact List.nil_prefix
      | some t =>
        have hlt := (List.getElem?_eq_some_iff.mp ht).1
        obtain ⟨u, hu⟩ : ∃ u, e.client.threads[j]? = some u :=
          ⟨_, List.getElem?_eq_getElem (hlt.trans_le hstep.length_le)⟩
        rcases hstep.threads hu with ⟨t', ht', -, hacc, -⟩ | ⟨rfl, -, -⟩
        · rw [ht, Option.some.injEq] at ht'
          subst ht'
          rw [hu]
          exact hacc
        · exact absurd hlt (lt_irrefl _)

/-- **A step keeps both sides in order.** -/
theorem linked_step (h : Linked P links s) {l : Side × Endpoint.Label M}
    (hsize : s.SizeOk P l) (hs : Endpoints.step P g links s l = some s') :
    Linked P links s' := by
  obtain ⟨x, l⟩ := l
  obtain ⟨e, he, rfl, hcausal⟩ := Endpoints.step_eq_some hs
  intro y
  rcases y.eq_or_eq_other x with rfl | rfl
  · rw [Function.update_self]
    exact ⟨Endpoint.ok_step (h y).1 hsize.1 hsize.2 he, hcausal⟩
  · have hother : Function.update s x e x.other = s x.other :=
      Function.update_of_ne (Side.other_ne x) ..
    rw [hother]
    refine ⟨(h x.other).1, fun k hk t ht => ?_⟩
    rw [hother] at hk ht
    exact ((h x.other).2 k hk t ht).trans (acceptedFor_update he k)

omit [DecidableEq D] in
theorem linked_initial (d : Side → UInt64) : Linked P links (.initial d) := by
  refine fun x => ⟨⟨⟨[], rfl⟩, ?_, ?_, ?_⟩, ?_⟩
  · intro k t ht
    cases ht
  · intro r hr
    cases hr
  · intro k t ht
    cases ht
  · intro k hk
    cases hk

/-- **In every run**, both sides are in order. -/
theorem linked_run {d : Side → UInt64} {labels : List (Side × Endpoint.Label M)}
    (hsize : EachStep (Endpoints.step P g links) (Endpoints.SizeOk P) (.initial d) labels)
    (h : run (Endpoints.step P g links) (.initial d) labels = some s) : Linked P links s :=
  run_invariant_of_eachStep _ (linked_initial d) (fun _ _ _ hs hl => linked_step hs hl) hsize h

/-! ### What is delivered -/

/-- The messages passed to `FTCPSocket::Send` in session `k` of `x`, serialized. -/
def Endpoint.sent (P : Protobuf M D) (e : Endpoint M) (k : ℕ) : List Bytes :=
  (tagged k e.given).map P.serializeRpcMessage

/-- The messages passed to `OnMessage` from session `k`. -/
def Endpoint.received (e : Endpoint M) (k : ℕ) : List Bytes :=
  Network.payloads k (e.client.dispatched.map Prod.snd)

omit [DecidableEq D] in
/-- What a session was given has frames of a size that fits. -/
theorem Endpoint.Ok.length_sent {e : Endpoint M} (h : e.Ok P) (j : ℕ) :
    ∀ m ∈ e.sent P j, m.length < 2 ^ 32 := by
  intro m hm
  obtain ⟨message, hmem, rfl⟩ := List.mem_map.mp hm
  obtain ⟨r, hr, rfl⟩ := List.mem_map.mp hmem
  have := (h.given r (List.mem_of_mem_filter hr)).2
  rw [frame, Network.length_encoder] at this
  omega

omit [DecidableEq D] in
/-- The bytes that a session was given. -/
theorem Endpoint.Ok.flatMap_sent {e : Endpoint M} (h : e.Ok P) {j : ℕ}
    {u : Network.FTCPSocketRunnable} (hu : e.client.threads[j]? = some u) :
    (e.sent P j).flatMap Network.encoder = u.enqueued.flatten := by
  rw [h.enqueued j u hu, Endpoint.sent, List.flatMap_map, List.flatMap_def]
  rfl

omit [DecidableEq D] in
/-- The frames that a session has received are the first of the messages sent in the session it
is connected to. -/
theorem Linked.frames_prefix (h : Linked P links s) {x : Side} {k j : ℕ}
    {t : Network.FTCPSocketRunnable} (ht : (s x).client.threads[k]? = some t)
    (hj : links.peerOf x k = some j) :
    Network.framing.frames t.consumed <+: (s x.other).sent P j := by
  obtain ⟨-, hcausal⟩ := h x
  have hconsumed := hcausal k (List.getElem?_eq_some_iff.mp ht).1 t ht
  simp only [Endpoints.acceptedFor, hj] at hconsumed
  cases hu : (s x.other).client.threads[j]? with
  | none =>
    rw [hu] at hconsumed
    rw [List.prefix_nil.mp hconsumed, Network.framing.frames_of_none Network.framing_next_nil]
    exact List.nil_prefix
  | some u =>
    rw [hu] at hconsumed
    obtain ⟨hok, -⟩ := h x.other
    obtain ⟨as, has⟩ := hok.reached
    refine Network.frames_prefix_of_encoders (hok.length_sent j) ?_
    rw [hok.flatMap_sent hu]
    exact hconsumed.trans (Network.sent_run has j u hu).enqueued

omit [DecidableEq D] in
/-- What a session has dispatched was sent in the session it is connected to. -/
theorem Linked.received (h : Linked P links s) (x : Side) (k : ℕ) :
    (s x).received k = [] ∨ ∃ j, links.peerOf x k = some j ∧
      ((s x).received k).Sublist ((s x.other).sent P j) ∧
      (Network.payloads k ((s x).client.discarded.map Prod.snd) = [] →
        (s x).received k <+: (s x.other).sent P j) := by
  obtain ⟨hok, hcausal⟩ := h x
  obtain ⟨as, has⟩ := hok.reached
  by_cases hk : k < (s x).client.threads.length
  · have ht : (s x).client.threads[k]? = some (s x).client.threads[k] :=
      List.getElem?_eq_getElem hk
    generalize (s x).client.threads[k] = t at ht
    obtain ⟨hlen, hheaders⟩ := hok.streams k t ht
    obtain ⟨hsub, hpre⟩ := (Network.inOrder_run has ht hlen hheaders).sublist
    cases hj : links.peerOf x k with
    | none =>
      have hconsumed := hcausal k hk t ht
      simp only [Endpoints.acceptedFor, hj] at hconsumed
      rw [List.prefix_nil.mp hconsumed,
        Network.framing.frames_of_none Network.framing_next_nil] at hsub
      exact .inl (List.sublist_nil.mp hsub)
    | some j =>
      have hframes := h.frames_prefix ht hj
      exact .inr ⟨j, rfl, hsub.trans hframes.sublist, fun hnone => (hpre hnone).trans hframes⟩
  · left
    refine Network.payloads_eq_nil fun msg hmsg => ?_
    obtain ⟨d, hd, rfl⟩ := List.mem_map.mp hmsg
    have := (Network.tagged_run has).dispatched d hd
    omega

omit [DecidableEq D] in
/-- All that a side has dispatched was sent by the other, each message as often as it was
dispatched. -/
theorem Linked.subperm (h : Linked P links s) (x : Side) :
    ((s x).client.dispatched.map (·.2.data)).Subperm
      ((s x.other).given.map fun r => P.serializeRpcMessage r.2) := by
  have hl : ∀ k, tagged k ((s x).client.dispatched.map fun d => (d.2.session, d.2.data)) =
      (s x).received k := by
    intro k
    simp [tagged, Endpoint.received, Network.payloads, List.filter_map, Function.comp_def]
  have hl' : ∀ j, tagged j ((s x.other).given.map fun r => (r.1, P.serializeRpcMessage r.2)) =
      (s x.other).sent P j := by
    intro j
    simp [tagged, Endpoint.sent, List.filter_map, Function.comp_def]
  have htags : (((s x).client.dispatched.map fun d => (d.2.session, d.2.data)).map Prod.snd).Subperm
      (((s x.other).given.map fun r => (r.1, P.serializeRpcMessage r.2)).map Prod.snd) := by
    refine subperm_of_tags (links.peerOf x) (fun k j i hk hj => ?_) fun k hne => ?_
    · have hk := links.symm x k i hk
      rw [links.symm x j i hj, Option.some.injEq] at hk
      exact hk.symm
    · rw [hl] at hne ⊢
      rcases h.received x k with hnil | ⟨j, hj, hsub, -⟩
      · exact absurd hnil hne
      · exact ⟨j, hj, (hl' j).symm ▸ hsub.subperm⟩
  simpa [List.map_map, Function.comp_def] using htags

/-- **In every run** of two sides, with sessions started and ended at any time on either
side, and streams and frames of a size that the source can handle: what a side passes to
`OnMessage` from a session is among the messages that the other has passed to
`FTCPSocket::Send` in the session connected to it, unchanged and in the same order, and without
a gap if none was discarded from `MessageQueue`; nothing comes from a session that is not
connected; and over all sessions no message is dispatched more often than it was sent. -/
theorem delivered_run {d : Side → UInt64} {labels : List (Side × Endpoint.Label M)}
    (h : run (Endpoints.step P g links) (.initial d) labels = some s)
    (hsize : EachStep (Endpoints.step P g links) (Endpoints.SizeOk P) (.initial d) labels)
    (x : Side) :
    (∀ k, (s x).received k = [] ∨ ∃ j, links.peerOf x k = some j ∧
      ((s x).received k).Sublist ((s x.other).sent P j) ∧
      (Network.payloads k ((s x).client.discarded.map Prod.snd) = [] →
        (s x).received k <+: (s x.other).sent P j)) ∧
    ((s x).client.dispatched.map (·.2.data)).Subperm
      ((s x.other).given.map fun r => P.serializeRpcMessage r.2) :=
  have hlinked := linked_run hsize h
  ⟨hlinked.received x, hlinked.subperm x⟩

end

/-! ### The sign-in call -/

section

open SignIn

/-- The session numbers are the same on both sides. -/
def sameNumber : Links where
  peerOf _ k := some k
  symm := by rintro x j k ⟨⟩; rfl

/-- The frame of the request to sign in. -/
def signInFrame : Bytes := [12, 0, 0, 0, 0, 1, 2, 0, 2, 4, 0, 2, 8, 7, 0, 0]

/-- The frame of the response to it. -/
def signInResFrame : Bytes := [12, 0, 0, 0, 2, 1, 0, 0, 2, 2, 0, 0, 2, 8, 1, 0]

/-- Steps of the IO thread of the first session. -/
def ioSteps (x : Side) (as : List Network.IoAct) : List (Side × Endpoint.Label Msg) :=
  as.map fun a => (x, .socket (.io 0 a))

/-- One side signs in and the other answers; the request is sent and received in two parts. -/
def signInOverTcp : List (Side × Endpoint.Label Msg) :=
  [(.a, .socket (.connect signInResFrame)), (.b, .socket (.connect signInFrame)),
    (.a, .act (.send (some (.userSignInArg 7)))), (.a, .sendMessage)] ++
  ioSteps .a [.init true true true, .loopTest true, .sendTest, .peek, .send (some 10)] ++
  ioSteps .b [.init true true true, .loopTest true, .sendTest, .peek, .sendDone,
    .hasPendingData (some 10), .recv (some 10), .received, .decode, .recvDone] ++
  ioSteps .a [.send (some 6), .pop, .sendTest, .peek, .sendDone] ++
  ioSteps .b [.loopTest true, .sendTest, .peek, .sendDone, .hasPendingData (some 6),
    .recv (some 6), .received, .decode] ++
  [(.b, .tick ⟨[], false, .userSignInRes true⟩ []), (.b, .sendMessage)] ++
  ioSteps .b [.decode, .recvDone, .loopTest true, .sendTest, .peek, .send (some 16), .pop] ++
  ioSteps .a [.hasPendingData (some 16), .recv (some 16), .received, .decode] ++
  [(.a, .tick ⟨[], false, .userSignInRes true⟩ [])]

/-- The state it ends in. -/
def signedIn : Endpoints Msg :=
  (run (Endpoints.step protobuf generated sameNumber) (.initial fun _ => 0) signInOverTcp).getD
    (.initial fun _ => 0)

theorem run_signInOverTcp : run (Endpoints.step protobuf generated sameNumber)
    (.initial fun _ => 0) signInOverTcp = some signedIn := by
  have hsome : (run (Endpoints.step protobuf generated sameNumber) (.initial fun _ => 0)
    signInOverTcp).isSome = true := by decide
  obtain ⟨s, hs⟩ := Option.isSome_iff_exists.mp hsome
  rw [signedIn, hs]
  rfl

theorem headersOk_signIn : Network.HeadersOk signInFrame ∧ Network.HeadersOk signInResFrame :=
  ⟨@Network.headersOk_flatMap_encoder [signInFrame.drop 4] (by decide),
    @Network.headersOk_flatMap_encoder [signInResFrame.drop 4] (by decide)⟩

theorem length_signIn : signInFrame.length = 16 ∧ signInResFrame.length = 16 := ⟨rfl, rfl⟩

theorem sizeOk_signInOverTcp : EachStep (Endpoints.step protobuf generated sameNumber)
    (Endpoints.SizeOk protobuf) (.initial fun _ => 0) signInOverTcp := by
  refine EachStep.and (eachStep_of_forall
    (C := fun l : Side × Endpoint.Label Msg => Endpoint.StreamOk l.2) ?_) (by decide)
  simp [signInOverTcp, ioSteps, Endpoint.StreamOk, headersOk_signIn, length_signIn]

/-- The request and the response have arrived as they were sent. -/
theorem delivered_run_signIn :
    (signedIn .b).received 0 = [signInFrame.drop 4] ∧
      (signedIn .a).received 0 = [signInResFrame.drop 4] ∧
      ((signedIn .b).client.dispatched.map (·.2.data)).Subperm
        ((signedIn .a).given.map fun r => protobuf.serializeRpcMessage r.2) :=
  ⟨by decide, by decide, (delivered_run run_signInOverTcp sizeOk_signInOverTcp .b).2⟩

end

end ThirdPersonMP.System
