import ThirdPersonMP.Rpc.Outstanding

/-!
# Malformed bytes

A message is parsed in three places. `serviceHandleRequestMsg` looks at the result of the
parse, and answers a request it cannot read with `ERR_WRONG_PROTO`. `OnMessage` and
`stubHandleResponseMsg` ignore it: they go on with the fields that were read before the
malformed point.

`harmless_iff` — malformed bytes have no effect exactly when the fields read make up
neither a request nor a response to an outstanding call, and the body of a response that
does not parse is empty.
-/

namespace ThirdPersonMP.Rpc

open Base Library

variable {M D : Type*} {P : Protobuf M D} [DecidableEq D] {g : Generated D}

/-! ### What the user's code cannot undo -/

section

variable {p p' : Peer M}

/-- The calls of the user's code serve no call and complete none. -/
theorem callIds_doneIds_acts {acts : List (Act M)} (h : run (Peer.act P g) p acts = some p') :
    callIds p'.trace = callIds p.trace ∧ doneIds p'.trace = doneIds p.trace := by
  refine run_invariant (Peer.act P g) (I := fun q =>
    callIds q.trace = callIds p.trace ∧ doneIds q.trace = doneIds p.trace) ⟨rfl, rfl⟩ ?_ h
  intro q a q' hq ha
  cases ActStep.of_act ha with
  | send hi => simpa using hq
  | doDelayResponse hx hr => simpa using hq
  | noSend | newDelayResponse | fill | noDelayResponse | dropDelayResponse | setAccid => exact hq

end

/-! ### Malformed messages -/

section

variable (P g) (p : Peer M) (data : Bytes) (handler : Handler M) (callback : List (Act M))

/-- The frame has no effect: no `CallMethod` and no `Service::DoneCallback` runs, no message
is sent, and `m_id` and `m_outstandings` are unchanged. -/
def NoEffect : Prop :=
  ∃ p', p.onMessage P g data handler callback = some p' ∧
    callIds p'.trace = callIds p.trace ∧ doneIds p'.trace = doneIds p.trace ∧ p'.out = p.out ∧
    p'.mId = p.mId ∧ p'.mOutstandings = p.mOutstandings

/-- `Service::DoneCallback` is not run. -/
def NotDone : Prop :=
  ∃ p', p.onMessage P g data handler callback = some p' ∧ doneIds p'.trace = doneIds p.trace

/-- The response of an outstanding call does not parse as the response type of its method. -/
def BodyFails (message : RpcMessage) : Prop :=
  ∃ out method, p.mOutstandings.lookup message.id = some out ∧
    Finds g out.serviceType out.methodIndex method ∧
    (P.parseFromString method.responsePrototype message.response).2 = false

/-- Malformed bytes have no effect. -/
structure Harmless : Prop where
  /-- The frame is not an `RpcMessage`. -/
  frame : (P.parseRpcMessage data).2 = false → NoEffect P g p data handler callback
  /-- The frame is a response whose body does not parse. -/
  body : (P.parseRpcMessage data).2 = true → (P.parseRpcMessage data).1.type = .response →
    BodyFails P g p (P.parseRpcMessage data).1 → NotDone P g p data handler callback

/-- The condition: a frame that does not parse leaves neither a request in the message nor
a response to an outstanding call, and a body that does not parse is empty. -/
structure Inert : Prop where
  request : (P.parseRpcMessage data).2 = false → (P.parseRpcMessage data).1.type ≠ .request
  response : (P.parseRpcMessage data).2 = false → (P.parseRpcMessage data).1.type = .response →
    (P.parseRpcMessage data).1.response = [] ∨ (P.parseRpcMessage data).1.id ∉ p.mOutstandings
  body : (P.parseRpcMessage data).2 = true → (P.parseRpcMessage data).1.type = .response →
    BodyFails P g p (P.parseRpcMessage data).1 → (P.parseRpcMessage data).1.response = []

variable {P g p data handler callback}

/-- A request always has an effect: its method is called, or it is answered. -/
theorem not_noEffect_of_request (ht : (P.parseRpcMessage data).1.type = .request) :
    ¬ NoEffect P g p data handler callback := by
  rintro ⟨p', hp', hcalls, -, hout, -⟩
  have hanswered : ∀ {message : RpcMessage}, p.out ++ [message] ≠ p.out := by simp
  have hcalled : ∀ {q : Peer M} {request : M},
      run (Peer.act P g) (p.called (P.parseRpcMessage data).1 request) handler.acts = some q →
      callIds q.trace ≠ callIds p.trace := by
    intro q request ha
    rw [(callIds_doneIds_acts ha).1]
    simp
  cases OnMessage.of_handleMessage hp' with
  | noService | wrongProto => exact hanswered hout
  | noReply ht hm hp ha hn => exact hcalled ha hcalls
  | reply ht hm hp ha hne hd hr => exact hcalled ha (by simpa using hcalls)
  | other ht' | emptyResponse ht' | notFound ht' | stubNoService ht' | callback ht' =>
    rw [ht] at ht'
    cases ht'

/-- When `Service::DoneCallback` is called, that it was stays in the history. -/
theorem doneIds_ne_of_completed {out : OutstandingCall M} {id : UInt64} {response : M}
    {q : Peer M} (ha : run (Peer.act P g) (p.completed id out response) callback = some q) :
    doneIds q.trace ≠ doneIds p.trace := by
  rw [(callIds_doneIds_acts ha).2]
  simp

/-- A response to an outstanding call has an effect: the call is ended. -/
theorem not_noEffect_of_response (ht : (P.parseRpcMessage data).1.type = .response)
    (hr : (P.parseRpcMessage data).1.response ≠ [])
    (hid : (P.parseRpcMessage data).1.id ∈ p.mOutstandings) :
    ¬ NoEffect P g p data handler callback := by
  rintro ⟨p', hp', -, hdone, -, -, hentries⟩
  cases OnMessage.of_handleMessage hp' with
  | emptyResponse ht hnil => exact hr hnil
  | notFound ht hl => exact AList.lookup_eq_none.mp hl hid
  | stubNoService ht hr hl hs =>
    rw [← hentries, AList.mem_erase] at hid
    exact hid.1 rfl
  | callback ht hr hl hm ha => exact doneIds_ne_of_completed ha hdone
  | other ht' | noService ht' | wrongProto ht' | noReply ht' | reply ht' =>
    rw [ht] at ht'
    cases ht'

/-- `Service::DoneCallback` runs for a response to an outstanding call, whether its body
parses or not. -/
theorem not_notDone (ht : (P.parseRpcMessage data).1.type = .response)
    (hr : (P.parseRpcMessage data).1.response ≠ [])
    (hb : BodyFails P g p (P.parseRpcMessage data).1) : ¬ NotDone P g p data handler callback := by
  obtain ⟨out, method, hl, ⟨service, hs, hm⟩, -⟩ := hb
  rintro ⟨p', hp', hdone⟩
  cases OnMessage.of_handleMessage hp' with
  | emptyResponse ht hnil => exact hr hnil
  | notFound ht hl' =>
    rw [hl] at hl'
    cases hl'
  | stubNoService ht hr hl' hs' =>
    rw [hl, Option.some.injEq] at hl'
    subst hl'
    rw [hs] at hs'
    cases hs'
  | callback ht hr hl hm ha => exact doneIds_ne_of_completed ha hdone
  | other ht' | noService ht' | wrongProto ht' | noReply ht' | reply ht' =>
    rw [ht] at ht'
    cases ht'

/-- A response with an empty body, or to no outstanding call, is dropped. -/
theorem onMessage_of_dropped (ht : (P.parseRpcMessage data).1.type = .response)
    (hr : (P.parseRpcMessage data).1.response = [] ∨
      (P.parseRpcMessage data).1.id ∉ p.mOutstandings) :
    p.onMessage P g data handler callback = some p := by
  rw [Peer.onMessage, Peer.handleMessage, ht]
  rcases hr with hnil | hid
  · simp only [Peer.stubHandleResponseMsg, if_pos hnil]
  · simp only [Peer.stubHandleResponseMsg, AList.lookup_eq_none.mpr hid, ite_self]

end

/-- **When malformed bytes have no effect.** -/
theorem harmless_iff (p : Peer M) (data : Bytes) (handler : Handler M) (callback : List (Act M)) :
    Harmless P g p data handler callback ↔ Inert P g p data := by
  constructor
  · intro h
    constructor
    · exact fun hp ht => not_noEffect_of_request ht (h.frame hp)
    · intro hp ht
      by_contra hdrop
      rw [not_or, not_not] at hdrop
      exact not_noEffect_of_response ht hdrop.1 hdrop.2 (h.frame hp)
    · intro hp ht hb
      by_contra hr
      exact not_notDone ht hr hb (h.body hp ht hb)
  · intro h
    refine ⟨fun hp => ?_, fun hp ht hb => ?_⟩
    · cases ht : (P.parseRpcMessage data).1.type with
      | request => exact absurd ht (h.request hp)
      | response =>
        exact ⟨p, onMessage_of_dropped ht (h.response hp ht), rfl, rfl, rfl, rfl, rfl⟩
      | other value =>
        refine ⟨p, ?_, rfl, rfl, rfl, rfl, rfl⟩
        rw [Peer.onMessage, Peer.handleMessage, ht]
    · exact ⟨p, onMessage_of_dropped ht (.inl (h.body hp ht hb)), rfl⟩

/-! ### The sign-in messages -/

section

open SignIn

/-- A request to sign in, and a byte more. -/
def signInTrailing : Bytes :=
  protobuf.serializeRpcMessage
    { type := .request, id := 1, service := 1, request := [] } ++ [0]

/-- A reply with the id of the call, whose body is cut off after the tag of its field. -/
def signInCutOff : Bytes :=
  protobuf.serializeRpcMessage { signInReply true with response := [8] }

theorem parse_signInTrailing : protobuf.parseRpcMessage signInTrailing =
    ({ type := .request, id := 1, service := 1, request := [] }, false) := by
  have := rpcMessage.decode_encode { type := .request, id := 1, service := 1, request := [] } [0]
  simp only [protobuf, signInTrailing, this]
  rfl

theorem parse_signInCutOff :
    protobuf.parseRpcMessage signInCutOff = ({ signInReply true with response := [8] }, true) :=
  protobuf_lawful.parse_serializeRpcMessage _

/-- The malformed request is served, and the malformed response ends its call. -/
theorem not_harmless :
    ¬ Harmless protobuf generated signInSent signInTrailing ⟨[], false, .userSignInRes true⟩ [] ∧
    ¬ Harmless protobuf generated signInSent signInCutOff ⟨[], false, .userSignInRes true⟩ [] := by
  constructor
  · intro h
    refine not_noEffect_of_request ?_ (h.frame ?_)
    · rw [parse_signInTrailing]
    · rw [parse_signInTrailing]
  · intro h
    have hb : BodyFails protobuf generated signInSent
        (protobuf.parseRpcMessage signInCutOff).1 := by
      rw [parse_signInCutOff]
      exact ⟨_, _, lookup_signInSent, finds_userSignIn, rfl⟩
    refine not_notDone ?_ ?_ hb (h.body ?_ ?_ hb)
    all_goals rw [parse_signInCutOff]
    · rfl
    · decide
    · rfl

end

end ThirdPersonMP.Rpc
