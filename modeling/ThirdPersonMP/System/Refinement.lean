import ThirdPersonMP.Rpc.InFlight
import ThirdPersonMP.System.Connection

/-!
# The two sides are two peers

Seen from the channels, the sockets of `Endpoints` are a network that may lose messages and
let one overtake another, and does nothing else: each run of the two sides is a run of
`Rpc.Net`, whose messages in flight are those sent and not yet dispatched.

* `Seen` — a call of the user's code is that call, a tick is the delivery of a message in
  flight, and the other steps are no step of the network: `Represents.step`, `simulates`.
* `Complete` — unless a message is passed on without a session, none is lost that the network
  does not have in flight.
* `refines_run` — so a run of the two sides is a run of the network, in which the user's code
  keeps its obligations when it does on the two sides.
* `executed_run` — a callback is of one execution on the other side, whatever becomes of the
  sessions.
-/

namespace ThirdPersonMP.System

open Base Library Rpc

variable {M D : Type*}

section

variable (P : Protobuf M D) [DecidableEq D] (g : Generated D)

/-! ### The user's code -/

/-- The user's code answers as it should. -/
def Endpoints.UserOk (s : Endpoints M) : Side × Endpoint.Label M → Prop
  | (x, .act a) => a.delays = none ∧ ActOk P g (s x).channel a
  | (x, .tick handler callback) => ∀ msg ∈ (s x).client.mem.messageQueue.head?,
    DelayOk (P.parseRpcMessage msg.data).1 handler callback ∧
      EachCall P g (ActOk P g) (s x).channel (P.parseRpcMessage msg.data).1 handler callback
  | _ => True

instance (s : Endpoints M) : ∀ l : Side × Endpoint.Label M, Decidable (s.UserOk P g l)
  | (x, .act a) => inferInstanceAs (Decidable (a.delays = none ∧ ActOk P g (s x).channel a))
  | (x, .tick _ _) => inferInstanceAs (Decidable (∀ msg ∈ (s x).client.mem.messageQueue.head?, _))
  | (_, .sendMessage) | (_, .socket _) => inferInstanceAs (Decidable True)

/-! ### The states -/

/-- How often the message that serializes to `b` was passed to `SendMessage`. -/
def Endpoint.passed (e : Endpoint M) (b : Bytes) : ℕ :=
  (e.given.map fun r => P.serializeRpcMessage r.2).count b +
    (e.channel.out.map P.serializeRpcMessage).count b

/-- The channels are those of the network, and what was passed to `SendMessage`, and not
dropped without a session, is in flight or dispatched. -/
structure Represents (s : Endpoints M) (net : Net M) : Prop where
  channel : ∀ x, net x = { (s x).channel with out := (net x).out }
  inFlight : ∀ x b, (s x).passed P b ≤ ((net x).out.map P.serializeRpcMessage).count b +
    ((s x.other).client.dispatched.map (·.2.data)).count b

/-- No message is lost: as many are in flight or dispatched as were passed to `SendMessage`. -/
def Complete (s : Endpoints M) (net : Net M) : Prop :=
  ∀ x, (net x).out.length + (s x.other).client.dispatched.length =
    (s x).given.length + (s x).channel.out.length

/-- A message that is passed on finds a session. -/
def Endpoints.HasSession (s : Endpoints M) : Side × Endpoint.Label M → Prop
  | (x, .sendMessage) => (s x).client.socketRunnablePtr ≠ none
  | _ => True

instance (s : Endpoints M) : ∀ l : Side × Endpoint.Label M, Decidable (s.HasSession l)
  | (x, .sendMessage) => inferInstanceAs (Decidable ((s x).client.socketRunnablePtr ≠ none))
  | (_, .act _) | (_, .tick _ _) | (_, .socket _) => inferInstanceAs (Decidable True)

/-- What a step of the two sides is in the network. -/
inductive Seen (s : Endpoints M) (net : Net M) :
    Side × Endpoint.Label M → List (NetLabel M) → Prop
  /-- A call of the user's code. -/
  | act (x : Side) (a : Act M) (hout : (s x).channel.out = []) :
      Seen s net (x, .act a) [.act x a]
  /-- A message in flight is dispatched. -/
  | tick (x : Side) (handler : Handler M) (callback : List (Act M)) {msg : Network.Message}
      {i : ℕ} {message : RpcMessage} (hout : (s x).channel.out = [])
      (hq : (s x).client.mem.messageQueue.head? = some msg)
      (hi : (net x.other).out[i]? = some message)
      (hmessage : P.serializeRpcMessage message = msg.data) :
      Seen s net (x, .tick handler callback) [.deliver x i handler callback]
  /-- A step that the channels do not see. -/
  | silent (l : Side × Endpoint.Label M) : Seen s net l []

variable {P g} {links : Links} {s s' : Endpoints M} {net : Net M}

omit [DecidableEq D] in
theorem represents_initial (d : Side → UInt64) : Represents P (.initial d) (Net.initial d) where
  channel _ := rfl
  inFlight _ _ := Nat.le_refl _

omit [DecidableEq D] in
/-- A channel that waits for no message to reach the socket. -/
theorem Represents.prepend (h : Represents P s net) {x : Side} (hout : (s x).channel.out = []) :
    net x = (s x).channel.prepend (net x).out := by
  rw [Peer.prepend, hout, List.append_nil]
  exact h.channel x

omit [DecidableEq D] in
/-- A step that changes no channel but for what it waits for, and loses no message. -/
theorem Represents.of_channel (h : Represents P s net) {x : Side} {e : Endpoint M}
    (hc : ∃ out, e.channel = { (s x).channel with out := out })
    (hp : ∀ b, e.passed P b ≤ (s x).passed P b)
    (hd : e.client.dispatched = (s x).client.dispatched) :
    Represents P (Function.update s x e) net := by
  refine ⟨fun y => ?_, fun y b => ?_⟩
  · rcases y.eq_or_eq_other x with rfl | rfl
    · obtain ⟨out, hout⟩ := hc
      rw [Function.update_self, hout]
      exact h.channel y
    · rw [Function.update_of_ne (Side.other_ne x)]
      exact h.channel x.other
  · rcases y.eq_or_eq_other x with rfl | rfl
    · rw [Function.update_self, Function.update_of_ne (Side.other_ne y)]
      exact (hp b).trans (h.inFlight y b)
    · rw [Function.update_of_ne (Side.other_ne x), Side.other_other, Function.update_self, hd]
      have := h.inFlight x.other b
      rwa [Side.other_other] at this

/-- Nothing is lost in a step of one side that the channels do not see. -/
theorem Complete.of_channel (h : Complete s net) {x : Side} {e : Endpoint M}
    (hg : e.given.length + e.channel.out.length = (s x).given.length + (s x).channel.out.length)
    (hd : e.client.dispatched = (s x).client.dispatched) :
    Complete (Function.update s x e) net := by
  intro y
  rcases y.eq_or_eq_other x with rfl | rfl
  · rw [Function.update_self, Function.update_of_ne (Side.other_ne y), hg]
    exact h y
  · have hother := h x.other
    rw [Side.other_other] at hother
    rw [Function.update_of_ne (Side.other_ne x), Side.other_other, Function.update_self, hd]
    exact hother

/-! ### The steps -/

omit [DecidableEq D] in
/-- A message that has just been dispatched was in flight. -/
theorem Represents.exists_inFlight (h : Represents P s net) {x : Side} {e : Endpoint M}
    {msg : Network.Message} {k : Option ℕ} (hlinked : Linked P links (Function.update s x e))
    (hd : e.client.dispatched = (s x).client.dispatched ++ [(k, msg)]) :
    ∃ (i : ℕ) (message : RpcMessage), (net x.other).out[i]? = some message ∧
      P.serializeRpcMessage message = msg.data := by
  have hcount := (hlinked.subperm x).count_le msg.data
  rw [Function.update_self, Function.update_of_ne (Side.other_ne x), hd, List.map_append,
    List.count_append] at hcount
  have hin := h.inFlight x.other msg.data
  rw [Side.other_other, Endpoint.passed] at hin
  simp only [List.map_cons, List.map_nil, List.count_singleton_self] at hcount
  have hpos : 0 < ((net x.other).out.map P.serializeRpcMessage).count msg.data := by omega
  obtain ⟨message, hmem, hmessage⟩ := List.mem_map.mp (List.count_pos_iff.mp hpos)
  obtain ⟨i, hi⟩ := List.mem_iff_getElem?.mp hmem
  exact ⟨i, message, hi, hmessage⟩

omit [DecidableEq D] in
/-- A message in flight has arrived. -/
theorem count_delivered {p : Peer M} {i : ℕ} {message : RpcMessage}
    (hi : p.out[i]? = some message) (b : Bytes) :
    (p.out.map P.serializeRpcMessage).count b =
      ((p.delivered i).out.map P.serializeRpcMessage).count b +
        [P.serializeRpcMessage message].count b := by
  obtain ⟨l, l', hout, hout'⟩ := out_delivered hi
  rw [hout, hout']
  simp only [List.map_append, List.map_cons, List.count_append, List.count_cons, List.count_nil]
  omega

/-- A call of the user's code is that call. -/
theorem Represents.act (h : Represents P s net) {x : Side} {a : Act M} {p : Peer M}
    (hout : (s x).channel.out = []) (ha : (s x).channel.act P g a = some p) :
    ∃ net', Net.step P g net (.act x a) = some net' ∧
      Represents P (Function.update s x { s x with channel := p }) net' ∧
      (Complete s net → Complete (Function.update s x { s x with channel := p }) net') := by
  have hnet := Peer.act_prepend (P := P) (g := g) (net x).out (s x).channel a
  rw [← h.prepend hout, ha, Option.map_some] at hnet
  refine ⟨Function.update net x (p.prepend (net x).out), ?_, ⟨?_, ?_⟩, fun hc y => ?_⟩
  · rw [Net.step, ← hnet]
    rfl
  · intro y
    rcases y.eq_or_eq_other x with rfl | rfl
    · rw [Function.update_self, Function.update_self]
      rfl
    · rw [Function.update_of_ne (Side.other_ne x), Function.update_of_ne (Side.other_ne x)]
      exact h.channel x.other
  · intro y b
    rcases y.eq_or_eq_other x with rfl | rfl
    · have := h.inFlight y b
      rw [Endpoint.passed, hout] at this
      rw [Function.update_self, Function.update_self, Function.update_of_ne (Side.other_ne y)]
      simp only [Endpoint.passed, Peer.prepend, List.map_append, List.count_append, List.map_nil,
        List.count_nil] at this ⊢
      omega
    · rw [Function.update_of_ne (Side.other_ne x), Function.update_of_ne (Side.other_ne x),
        Side.other_other, Function.update_self]
      have := h.inFlight x.other b
      rwa [Side.other_other] at this
  · have hcy := hc y
    rcases y.eq_or_eq_other x with rfl | rfl
    · rw [hout, List.length_nil] at hcy
      rw [Function.update_self, Function.update_self, Function.update_of_ne (Side.other_ne y),
        Peer.prepend, List.length_append]
      dsimp only
      omega
    · rw [Side.other_other] at hcy
      rwa [Function.update_of_ne (Side.other_ne x), Function.update_of_ne (Side.other_ne x),
        Side.other_other, Function.update_self]

/-- A tick is the delivery of a message in flight. -/
theorem Represents.tick (h : Represents P s net) {x : Side} {handler : Handler M}
    {callback : List (Act M)} {client : Network.Client} {msg : Network.Message} {k : Option ℕ}
    {p : Peer M}
    (hlinked : Linked P links (Function.update s x { s x with client := client, channel := p }))
    (hout : (s x).channel.out = [])
    (hd : client.dispatched = (s x).client.dispatched ++ [(k, msg)])
    (hm : (s x).channel.onMessage P g msg.data handler callback = some p) :
    ∃ (i : ℕ) (message : RpcMessage) (net' : Net M), (net x.other).out[i]? = some message ∧
      P.serializeRpcMessage message = msg.data ∧
      Net.step P g net (.deliver x i handler callback) = some net' ∧
      Represents P (Function.update s x { s x with client := client, channel := p }) net' ∧
      (Complete s net →
        Complete (Function.update s x { s x with client := client, channel := p }) net') := by
  obtain ⟨i, message, hi, hmessage⟩ := h.exists_inFlight hlinked hd
  have hnet := Peer.onMessage_prepend (P := P) (g := g) (net x).out (s x).channel msg.data handler
    callback
  rw [← h.prepend hout, hm, Option.map_some, ← hmessage] at hnet
  refine ⟨i, message, Function.update (Function.update net x.other ((net x.other).delivered i)) x
    (p.prepend (net x).out), hi, hmessage, ?_, ⟨?_, ?_⟩, fun hc y => ?_⟩
  · simp only [Net.step, hi, ← hnet, Option.map_some]
  · intro y
    rcases y.eq_or_eq_other x with rfl | rfl
    · rw [Function.update_self, Function.update_self]
      rfl
    · rw [Function.update_of_ne (Side.other_ne x), Function.update_self,
        Function.update_of_ne (Side.other_ne x), Peer.delivered]
      exact congrArg (fun q : Peer M => { q with out := (net x.other).out.eraseIdx i })
        (h.channel x.other)
  · intro y b
    rcases y.eq_or_eq_other x with rfl | rfl
    · have := h.inFlight y b
      rw [Endpoint.passed, hout] at this
      rw [Function.update_self, Function.update_self, Function.update_of_ne (Side.other_ne y)]
      simp only [Endpoint.passed, Peer.prepend, List.map_append, List.count_append, List.map_nil,
        List.count_nil] at this ⊢
      omega
    · have := h.inFlight x.other b
      rw [Side.other_other, count_delivered hi b, hmessage] at this
      rw [Function.update_of_ne (Side.other_ne x), Function.update_of_ne (Side.other_ne x),
        Side.other_other, Function.update_self, Function.update_self, hd, List.map_append,
        List.count_append]
      simp only [List.map_cons, List.map_nil]
      omega
  · have hcy := hc y
    rcases y.eq_or_eq_other x with rfl | rfl
    · rw [hout, List.length_nil] at hcy
      rw [Function.update_self, Function.update_self, Function.update_of_ne (Side.other_ne y),
        Peer.prepend, List.length_append]
      dsimp only
      omega
    · have hlt := (List.getElem?_eq_some_iff.mp hi).1
      rw [Side.other_other] at hcy
      rw [Function.update_of_ne (Side.other_ne x), Function.update_self,
        Function.update_of_ne (Side.other_ne x), Side.other_other, Function.update_self, hd,
        Peer.delivered, List.length_eraseIdx_of_lt hlt, List.length_append,
        List.length_singleton]
      omega

/-- **A step** of the two sides in the network. -/
theorem Represents.step (h : Represents P s net) {l : Side × Endpoint.Label M}
    (hlinked : Linked P links s') (hs : Endpoints.step P g links s l = some s') :
    ∃ bs net', Seen P s net l bs ∧ run (Net.step P g) net bs = some net' ∧
      Represents P s' net' ∧ (s.HasSession l → Complete s net → Complete s' net') := by
  obtain ⟨x, l⟩ := l
  obtain ⟨e, he, rfl, -⟩ := Endpoints.step_eq_some hs
  cases he with
  | @act a p hout ha =>
    obtain ⟨net', hnet, h', hc⟩ := h.act hout ha
    exact ⟨[.act x a], net', .act x a hout, by rw [run_cons, hnet]; rfl, h', fun _ => hc⟩
  | @dropped message out hout hp =>
    refine ⟨[], net, .silent _, rfl, h.of_channel ⟨out, rfl⟩ (fun b => ?_) rfl, fun hsession => ?_⟩
    · simp only [Endpoint.passed, hout, List.map_cons, List.count_cons]
      omega
    · exact absurd hp hsession
  | @given message out k data hout hp hd hc =>
    have hsame : ((s x).client.send data).dispatched = (s x).client.dispatched := by
      simpa using (Network.ClientStep.of_step hc).dispatched
    refine ⟨[], net, .silent _, rfl, h.of_channel ⟨out, rfl⟩ (fun b => ?_) hsame,
      fun _ hcomplete => hcomplete.of_channel ?_ hsame⟩
    · simp only [Endpoint.passed, hout, List.map_cons, List.map_append, List.map_nil,
        List.count_append, List.count_cons, List.count_nil]
      omega
    · simp only [hout, List.length_append, List.length_cons, List.length_nil]
      omega
  | @tick handler callback client msg queue p hout hq hc hm =>
    have hd : client.dispatched =
        (s x).client.dispatched ++ [((s x).client.socketRunnablePtr, msg)] := by
      cases Network.ClientStep.of_step hc with
      | tick hs' hq' =>
        rw [hq, List.cons.injEq] at hq'
        rw [hq'.1]
    obtain ⟨i, message, net', hi, hmessage, hnet, h', hcomplete⟩ := h.tick hlinked hout hd hm
    exact ⟨[.deliver x i handler callback], net',
      .tick x handler callback hout (by rw [hq]; rfl) hi hmessage, by rw [run_cons, hnet]; rfl, h',
      fun _ => hcomplete⟩
  | @socket a client ha hc =>
    have hsame : client.dispatched = (s x).client.dispatched := by
      rcases (Network.ClientStep.of_step hc).dispatched with hd | ⟨rfl, -⟩
      · exact hd
      · cases ha
    exact ⟨[], net, .silent _, rfl, h.of_channel ⟨_, rfl⟩ (fun b => Nat.le_refl _) hsame,
      fun _ hcomplete => hcomplete.of_channel rfl hsame⟩

/-- The user's code that answers as it should on the two sides does so in the network. -/
theorem Represents.netOk (hP : P.Lawful) (h : Represents P s net) {l : Side × Endpoint.Label M}
    {bs : List (NetLabel M)} (hseen : Seen P s net l bs) (hok : s.UserOk P g l) :
    EachStep (Net.step P g) (NetOk P g) net bs := by
  cases hseen with
  | act x a hout =>
    refine ⟨⟨hok.1, ?_⟩, fun _ _ => trivial⟩
    show ActOk P g (net x) a
    rw [h.prepend hout]
    exact hok.2
  | @tick x handler callback msg i message hout hq hi hmessage =>
    obtain ⟨hdelay, hcall⟩ := hok msg hq
    rw [← hmessage, hP.parse_serializeRpcMessage] at hdelay hcall
    refine ⟨⟨fun message' hi' => ?_, fun message' hi' => ?_⟩, fun _ _ => trivial⟩
    · rw [hi, Option.mem_some] at hi'
      exact hi' ▸ hdelay
    · rw [hi, Option.mem_some] at hi'
      rw [← hi', h.prepend hout]
      exact eachCall_prepend (fun p a ha => ha) hcall
  | silent => trivial

/-- **The two sides refine the network.** -/
theorem simulates (hP : P.Lawful) : Simulates (Endpoints.step P g links) (Net.step P g)
    (fun s net => Linked P links s ∧ Represents P s net) (Endpoints.SizeOk P)
    (Endpoints.UserOk P g) (NetOk P g) := by
  rintro s net l s' ⟨hlinked, h⟩ hsize hs
  have hlinked' := linked_step hlinked hsize hs
  obtain ⟨bs, net', hseen, hrun, h', -⟩ := h.step hlinked' hs
  exact ⟨bs, net', hrun, ⟨hlinked', h'⟩, h.netOk hP hseen⟩

/-! ### Runs -/

/-- **Every run** of the two sides, with sessions started, ended and lost at any time and
streams and frames of a size that the source can handle, is a run of the network: it ends with
the same channels, but for the messages in flight, and the user's code keeps its obligations in
the network if it keeps them on the two sides. -/
theorem refines_run (hP : P.Lawful) {d : Side → UInt64}
    {labels : List (Side × Endpoint.Label M)}
    (h : run (Endpoints.step P g links) (.initial d) labels = some s)
    (hsize : EachStep (Endpoints.step P g links) (Endpoints.SizeOk P) (.initial d) labels) :
    ∃ netLabels net, run (Net.step P g) (Net.initial d) netLabels = some net ∧
      (∀ x, net x = { (s x).channel with out := (net x).out }) ∧
      (EachStep (Endpoints.step P g links) (Endpoints.UserOk P g) (.initial d) labels →
        EachStep (Net.step P g) (NetOk P g) (Net.initial d) netLabels) := by
  obtain ⟨netLabels, net, hrun, ⟨-, hnet⟩, hok⟩ := run_simulated (simulates hP)
    ⟨linked_initial d, represents_initial d⟩ hsize h
  exact ⟨netLabels, net, hrun, hnet.channel, hok⟩

/-- What a side and the other agree on: what was called there, and the callbacks here. -/
structure Executed (p q : Peer M) : Prop where
  /-- A method is called with a request that was sent, of the service and method it was sent
  as. -/
  called : ∀ id r serviceType methodIndex, .callMethod id r serviceType methodIndex ∈ q.trace →
    .accepted id r serviceType methodIndex ∈ p.trace
  /-- For no request twice. -/
  once : (callIds q.trace).Nodup
  /-- A callback is of a call that was executed, with the response that was passed to
  `RpcChannel::DoneCallback` for it. -/
  callback : ∀ id r response serviceType methodIndex,
    .doneCallback id r response serviceType methodIndex ∈ p.trace →
      .callMethod id r serviceType methodIndex ∈ q.trace ∧ .reply id response ∈ q.trace
  /-- No call is answered or completed twice. -/
  completed : (replyIds q.trace).Nodup ∧ (doneIds p.trace).Nodup

/-- What two peers agree on. -/
theorem Executed.of_inv {p q : Peer M} (hinv : Rpc.Inv P g [] 0 p q)
    (hle : (acceptedIds p.trace).length ≤ 2 ^ 64) : Executed p q := by
  have hcalls : ∀ id, (callIds q.trace).count id ≤ 1 := by
    intro id
    have := List.nodup_iff_count_le_one.mp (hinv.matched.nodup hle) id
    have := hinv.agree.requests id
    omega
  refine ⟨hinv.agree.called, List.nodup_iff_count_le_one.mpr hcalls, ?_, ?_,
    (hinv.matched.once hle).1⟩
  · intro id r response serviceType methodIndex hdone
    have hreply := hinv.agree.done hle id r response serviceType methodIndex hdone
    have hpos := List.count_pos_iff.mpr (mem_replyIds.mpr ⟨response, hreply⟩)
    have hrep := hinv.serving'.replies id
    -- the request that was called is the one that was sent
    obtain ⟨r', s', m', hcall⟩ := mem_callIds.mp
      (List.count_pos_iff.mp (show 0 < (callIds q.trace).count id by omega))
    obtain ⟨rfl, rfl, rfl⟩ := hinv.matched.accepted_unique hle
      (hinv.matched.done id r response serviceType methodIndex hdone)
      (hinv.agree.called id r' s' m' hcall)
    exact ⟨hcall, hreply⟩
  · rw [List.nodup_iff_count_le_one]
    intro id
    have := hcalls id
    have := hinv.serving'.replies id
    omega

/-- **In every run** over TCP, with sessions started, ended and lost at any time, streams and
frames of a size that the source can handle, and at most `2^64` calls of a side: the other side
calls a method only for a request that was sent, and for none twice, and a callback is of such a
call, with the response given to it. -/
theorem executed_run (hP : P.Lawful) (hg : g.Lawful) {d : Side → UInt64}
    {labels : List (Side × Endpoint.Label M)}
    (h : run (Endpoints.step P g links) (.initial d) labels = some s)
    (hsize : EachStep (Endpoints.step P g links) (Endpoints.SizeOk P) (.initial d) labels)
    (huser : EachStep (Endpoints.step P g links) (Endpoints.UserOk P g) (.initial d) labels)
    (x : Side) (hle : (acceptedIds (s x).channel.trace).length ≤ 2 ^ 64) :
    Executed (s x).channel (s x.other).channel := by
  obtain ⟨netLabels, net, hrun, ⟨-, hnet⟩, hok⟩ := run_simulated (simulates hP)
    ⟨linked_initial d, represents_initial d⟩ hsize h
  have hinv := inv_run hP hg hrun (hok huser) x
  rw [hnet.channel x, hnet.channel x.other] at hinv
  have hexecuted := Executed.of_inv hinv hle
  exact ⟨hexecuted.called, hexecuted.once, hexecuted.callback, hexecuted.completed⟩

end

/-! ### The sign-in call -/

section

open SignIn

theorem userOk_signInOverTcp : EachStep (Endpoints.step protobuf generated sameNumber)
    (Endpoints.UserOk protobuf generated) (.initial fun _ => 0) signInOverTcp := by
  decide

/-- The run over TCP is a run of the network, with one delivery to each side. -/
theorem refines_run_signIn :
    ∃ netLabels net, run (Net.step protobuf generated) (Net.initial fun _ => 0) netLabels =
        some net ∧
      (∀ x, net x = { (signedIn x).channel with out := (net x).out }) ∧
      EachStep (Net.step protobuf generated) (NetOk protobuf generated) (Net.initial fun _ => 0)
        netLabels := by
  obtain ⟨netLabels, net, hrun, hnet, hok⟩ :=
    refines_run protobuf_lawful run_signInOverTcp sizeOk_signInOverTcp
  exact ⟨netLabels, net, hrun, hnet, hok userOk_signInOverTcp⟩

/-- The call is executed once and completed with its response. -/
theorem executed_run_signIn :
    (signedIn .b).channel.trace =
        [.callMethod 1 (.userSignInArg 7) 1 0, .reply 1 (.userSignInRes true)] ∧
      (signedIn .a).channel.trace =
        [.accepted 1 (.userSignInArg 7) 1 0,
          .doneCallback 1 (.userSignInArg 7) (.userSignInRes true) 1 0] ∧
      Executed (signedIn .a).channel (signedIn .b).channel :=
  ⟨rfl, rfl, executed_run protobuf_lawful generated_lawful run_signInOverTcp
    sizeOk_signInOverTcp userOk_signInOverTcp .a (by decide)⟩

end

end ThirdPersonMP.System
