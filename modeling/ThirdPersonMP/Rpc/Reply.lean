import ThirdPersonMP.Rpc.SignIn

/-!
# Replies and the calls they end

The serving side builds a reply in two places: `RpcChannel::DoneCallback` puts the
serialized response into it, `funcErrorCode` an error code. The requesting side handles it
in `stubHandleResponseMsg`, which returns at once when `response()` is the empty string
(111–112). That is the case of every error reply, and of a success reply whose response
has all its fields at their defaults.

`endsCall_iff` — a reply ends its call exactly when it is a success reply whose response
does not serialize to the empty string.
-/

namespace ThirdPersonMP.Rpc

open Base Library

variable {M D : Type*} (P : Protobuf M D)

/-- A reply to the call `id`: the message that the serving side sends, and the response
in it, if there is one. -/
inductive ReplyTo (id : UInt64) : Option M → RpcMessage → Prop
  /-- `RpcChannel::DoneCallback` sends it. -/
  | success {p : Peer M} {response : M} {accid : UInt64} {from_ : EServerType}
      {message : RpcMessage}
      (h : (p.doneCallback P (some response) id accid from_).out = p.out ++ [message]) :
      ReplyTo id (some response) message
  /-- `funcErrorCode` sends it, on a request with this id. -/
  | error {p : Peer M} {request message : RpcMessage} {errorCode : ErrorCode}
      (hid : request.id = id) (he : errorCode ≠ .noError)
      (h : (p.funcErrorCode request errorCode).out = p.out ++ [message]) :
      ReplyTo id none message

variable {P}

/-- A reply is of the call, and its `response()` is the serialized response, or empty. -/
theorem ReplyTo.fields {id : UInt64} {response : Option M} {message : RpcMessage}
    (h : ReplyTo P id response message) :
    message.type = .response ∧ message.id = id ∧
      message.response = (response.map P.serializeAsString).getD [] := by
  cases h with
  | success h =>
    rw [Peer.doneCallback, Peer.sendMessage, List.append_cancel_left_eq, List.singleton_inj] at h
    subst h
    exact ⟨rfl, rfl, rfl⟩
  | error hid he h =>
    rw [funcErrorCode_of_ne _ he, Peer.sendMessage, List.append_cancel_left_eq,
      List.singleton_inj] at h
    subst h
    exact ⟨rfl, hid, rfl⟩

section

variable (P) [DecidableEq D] (g : Generated D)

/-- The message ends the outstanding call `id`: its entry is removed, and
`Service::DoneCallback` runs once, with the request of the call and the response that was
sent; not at all, when it is an error reply. -/
def EndsCall (p : Peer M) (id : UInt64) (out : OutstandingCall M) (response : Option M)
    (message : RpcMessage) : Prop :=
  ∃ p' called, p.stubHandleResponseMsg P g message = some (p', called) ∧
    p'.mOutstandings.lookup id = none ∧ called = response.isSome ∧
    p'.trace = p.trace ++ response.toList.map fun r =>
      .doneCallback id out.request r out.serviceType out.methodIndex

variable {P g}

/-- **When a reply ends its call**: exactly when it is a success reply with a non-empty
serialization. -/
theorem endsCall_iff (hP : P.Lawful) {p : Peer M} {id : UInt64} {out : OutstandingCall M}
    {method : MethodDescriptor D} {response : Option M} {message : RpcMessage}
    (hl : p.mOutstandings.lookup id = some out) (hm : Finds g out.serviceType out.methodIndex method)
    (ht : ∀ r ∈ response, P.getDescriptor r = method.responsePrototype)
    (hr : ReplyTo P id response message) :
    EndsCall P g p id out response message ↔ ∃ r ∈ response, P.serializeAsString r ≠ [] := by
  obtain ⟨-, rfl, hresp⟩ := hr.fields
  constructor
  · rintro ⟨p', called, hstub, hnone, -⟩
    by_contra hempty
    have hnil : message.response = [] := by
      rw [hresp]
      cases response with
      | none => rfl
      | some r =>
        by_contra hne
        exact hempty ⟨r, rfl, hne⟩
    -- the early return leaves the entry where it is
    rw [Peer.stubHandleResponseMsg, if_pos hnil, Option.some.injEq, Prod.mk.injEq] at hstub
    rw [← hstub.1, hl] at hnone
    cases hnone
  · rintro ⟨r, hmem, hne⟩
    rw [Option.mem_def] at hmem
    subst hmem
    rw [Option.map_some, Option.getD_some] at hresp
    obtain ⟨service, hs, hmeth⟩ := hm
    have hparse : (P.parseFromString method.responsePrototype message.response).1 = r := by
      rw [hresp, ← ht r rfl, hP.parse_serialize]
    refine ⟨p.completed message.id out r, true, ?_, ?_, rfl, rfl⟩
    · rw [← hresp] at hne
      simp only [Peer.stubHandleResponseMsg, if_neg hne, hl, hs, hmeth, hparse, Peer.completed]
    · exact AList.lookup_erase _ _

end

/-! ### The sign-in call -/

section

open SignIn

/-- A peer that has sent `C2A_UserSignIn`. -/
def signInSent : Peer Msg :=
  ({ mDelayResponseId := 0 } : Peer Msg).send protobuf generated (some (.userSignInArg 7))

/-- The reply that `RpcChannel::DoneCallback` sends to it. -/
def signInReply (allowSignIn : Bool) : RpcMessage :=
  { type := .response, id := 1, from_ := .client, to_ := .client,
    response := protobuf.serializeAsString (.userSignInRes allowSignIn) }

theorem lookup_signInSent :
    signInSent.mOutstandings.lookup 1 = some ⟨.userSignInArg 7, 1, 0⟩ := rfl

theorem finds_userSignIn : Finds generated 1 0 ⟨.userSignInArg, .userSignInRes⟩ :=
  ⟨userService, rfl, rfl⟩

theorem replyTo_signInReply (allowSignIn : Bool) :
    ReplyTo protobuf 1 (some (.userSignInRes allowSignIn)) (signInReply allowSignIn) :=
  @ReplyTo.success _ _ _ _ { mDelayResponseId := 0 } _ 0 .client _ rfl

/-- Signing in is allowed: the reply ends the call. -/
theorem endsCall_iff_signIn :
    EndsCall protobuf generated signInSent 1 ⟨.userSignInArg 7, 1, 0⟩ (some (.userSignInRes true))
      (signInReply true) ↔
    ∃ r ∈ some (Msg.userSignInRes true), protobuf.serializeAsString r ≠ [] :=
  endsCall_iff protobuf_lawful lookup_signInSent finds_userSignIn (by decide)
    (replyTo_signInReply true)

/-- Signing in is refused, so the response has its field at the default and serializes to
the empty string; or the request was not parsed. Neither reply ends the call. -/
theorem not_endsCall :
    ¬ EndsCall protobuf generated signInSent 1 ⟨.userSignInArg 7, 1, 0⟩
      (some (.userSignInRes false)) (signInReply false) ∧
    ∃ message, ReplyTo protobuf 1 none message ∧
      ¬ EndsCall protobuf generated signInSent 1 ⟨.userSignInArg 7, 1, 0⟩ none message := by
  have hstays : ∀ message : RpcMessage, message.response = [] → ∀ response,
      ¬ EndsCall protobuf generated signInSent 1 ⟨.userSignInArg 7, 1, 0⟩ response message := by
    rintro message hnil response ⟨p', called, hstub, hnone, -⟩
    rw [Peer.stubHandleResponseMsg, if_pos hnil, Option.some.injEq, Prod.mk.injEq] at hstub
    rw [← hstub.1, lookup_signInSent] at hnone
    cases hnone
  refine ⟨hstays _ rfl _, { type := .response, id := 1, error := .wrongProto }, ?_, hstays _ rfl _⟩
  exact @ReplyTo.error _ _ _ _ { mDelayResponseId := 0 } { type := .request, id := 1 } _ .wrongProto
    rfl (by decide) rfl

end

end ThirdPersonMP.Rpc
