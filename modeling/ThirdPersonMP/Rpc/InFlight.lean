import ThirdPersonMP.Rpc.Peers

/-!
# Messages in flight

Nothing that a channel does depends on the messages in flight: `RpcChannel` passes its
messages to `UMgrMessage::SendMessage` (`RpcChannel.cpp`, 180–187) and reads none of them
again.

* `Peer.act_prepend`, `Peer.onMessage_prepend` — a call and a message do the same whatever
  was in flight before.
* `eachCall_prepend` — and so do the calls that the user's code makes in a message.
-/

namespace ThirdPersonMP.Rpc

open Base Library

variable {M D : Type*}

namespace Peer

/-- More messages are in flight, sent before the others. -/
def prepend (out : List RpcMessage) (p : Peer M) : Peer M := { p with out := out ++ p.out }

section

variable {P : Protobuf M D} [DecidableEq D] {g : Generated D} (out : List RpcMessage)

omit [DecidableEq D] in
theorem sendRequest_prepend (p : Peer M) (request : M) (info : SServiceInfo) :
    (p.prepend out).sendRequest P request info = (p.sendRequest P request info).prepend out := by
  simp [prepend, sendRequest, sendMessage]

omit [DecidableEq D] in
theorem doneCallback_prepend (p : Peer M) (response : Option M) (id accid : UInt64)
    (from_ : EServerType) : (p.prepend out).doneCallback P response id accid from_ =
      (p.doneCallback P response id accid from_).prepend out := by
  cases response with
  | none => rfl
  | some response => simp [prepend, doneCallback, sendMessage]

/-- A call of the user's code. -/
theorem act_prepend (p : Peer M) (a : Act M) :
    (p.act P g a).map (prepend out) = (p.prepend out).act P g a := by
  cases a with
  | send request =>
    cases request with
    | none => rfl
    | some request =>
      simp only [act, send, Option.map_some]
      cases (registerService g).getServiceInfo (P.getDescriptor request) with
      | none => rfl
      | some info => simp only [sendRequest_prepend]
  | newDelayResponse args => rfl
  | fill x response =>
    simp only [act, fill, prepend]
    cases p.mDelayResponse.lookup x <;> rfl
  | doDelayResponse x =>
    simp only [act, doDelayResponse, prepend, Option.map_some]
    cases p.mDelayResponse.lookup x with
    | none => rfl
    | some e =>
      exact congrArg some (doneCallback_prepend out { p with
        mDelayResponse := p.mDelayResponse.erase x } e.response e.msgId e.accid e.from_).symm
  | setAccid accid => rfl

omit [DecidableEq D] in
theorem funcErrorCode_prepend (p : Peer M) (message : RpcMessage) (errorCode : ErrorCode) :
    (p.prepend out).funcErrorCode message errorCode =
      (p.funcErrorCode message errorCode).prepend out := by
  unfold funcErrorCode
  split
  · simp [prepend, sendMessage]
  · rfl

theorem serviceEnterMethod_prepend (p : Peer M) (message : RpcMessage) :
    (p.serviceEnterMethod P g message).map (Prod.map (prepend out) id) =
      (p.prepend out).serviceEnterMethod P g message := by
  unfold serviceEnterMethod
  split
  · rfl
  · simp [funcErrorCode_prepend]
  · split
    · rfl
    · split
      · simp [funcErrorCode_prepend]
      · rfl

theorem serviceLeaveMethod_prepend (p : Peer M) (message : RpcMessage)
    (method : MethodDescriptor D) (handler : Handler M) :
    (p.serviceLeaveMethod P message method handler).map (prepend out) =
      (p.prepend out).serviceLeaveMethod P message method handler := by
  unfold serviceLeaveMethod
  split
  · rfl
  · split
    · rw [doneCallback_prepend]
      rfl
    · rfl

theorem stubHandleResponseMsg_prepend (p : Peer M) (message : RpcMessage) :
    (p.stubHandleResponseMsg P g message).map (Prod.map (prepend out) id) =
      (p.prepend out).stubHandleResponseMsg P g message := by
  unfold stubHandleResponseMsg
  split
  · rfl
  · cases hl : p.mOutstandings.lookup message.id with
    | none => simp only [prepend, hl]; rfl
    | some call =>
      simp only [prepend, hl]
      split
      · rfl
      · rfl
      · split <;> rfl

/-- A message of the other side. -/
theorem onMessage_prepend (p : Peer M) (data : Bytes) (handler : Handler M)
    (callback : List (Act M)) : (p.onMessage P g data handler callback).map (prepend out) =
      (p.prepend out).onMessage P g data handler callback := by
  unfold onMessage handleMessage
  split
  · rw [← stubHandleResponseMsg_prepend]
    cases p.stubHandleResponseMsg P g (P.parseRpcMessage data).1 with
    | none => rfl
    | some r =>
      obtain ⟨q, called⟩ := r
      cases called with
      | false => rfl
      | true => exact run_map (act_prepend out) q callback
  · unfold serviceHandleRequestMsg
    rw [← serviceEnterMethod_prepend]
    cases p.serviceEnterMethod P g (P.parseRpcMessage data).1 with
    | none => rfl
    | some r =>
      obtain ⟨q, method⟩ := r
      cases method with
      | none => rfl
      | some method =>
        simp only [Option.map_some, Prod.map_apply, id_eq]
        rw [← run_map (act_prepend out), Option.map_bind, Option.bind_map]
        exact Option.bind_congr fun q' _ => serviceLeaveMethod_prepend out q' _ method handler
  · rfl

end

end Peer

section

variable {P : Protobuf M D} [DecidableEq D] {g : Generated D} {C : Peer M → Act M → Prop}

/-- The calls of the user's code, one after the other. -/
theorem eachStep_prepend {out : List RpcMessage} (hC : ∀ p a, C p a → C (p.prepend out) a)
    {p : Peer M} {acts : List (Act M)} (h : EachStep (Peer.act P g) C p acts) :
    EachStep (Peer.act P g) C (p.prepend out) acts :=
  eachStep_of_map (Peer.act_prepend out) (h.mono hC)

/-- The calls of the user's code in a message. -/
theorem eachCall_prepend {out : List RpcMessage} (hC : ∀ p a, C p a → C (p.prepend out) a)
    {p : Peer M} {message : RpcMessage} {handler : Handler M} {callback : List (Act M)}
    (h : EachCall P g C p message handler callback) :
    EachCall P g C (p.prepend out) message handler callback := by
  unfold EachCall at h ⊢
  rw [← Peer.serviceEnterMethod_prepend, ← Peer.stubHandleResponseMsg_prepend]
  split
  · rename_i ht
    rw [ht] at h
    cases hr : p.serviceEnterMethod P g message with
    | none => trivial
    | some r =>
      obtain ⟨q, method⟩ := r
      rw [hr] at h
      cases method with
      | none => trivial
      | some method => exact eachStep_prepend hC h
  · rename_i ht
    rw [ht] at h
    cases hr : p.stubHandleResponseMsg P g message with
    | none => trivial
    | some r =>
      obtain ⟨q, called⟩ := r
      rw [hr] at h
      cases called with
      | false => trivial
      | true => exact eachStep_prepend hC h
  · trivial

end

end ThirdPersonMP.Rpc
