import ThirdPersonMP.Base.TArray
import ThirdPersonMP.Library.Run
import ThirdPersonMP.Rpc.MgrMessage
import Mathlib.Data.List.AList

/-!
# The RPC channel

`RpcChannel` (`RpcChannel.cpp`) sends requests and handles the messages of the other side;
`UMgrMessage` keeps the table of delayed responses (`MgrMessage.cpp`, 272–298). `Peer` is
the state of the two.

Protobuf and the generated message types are parameters (`Protobuf`): `M` is the type of
messages, `D` that of their descriptors.

The user's code runs in four places: a call from outside, the handler that
`Service::CallMethod` calls, the callback that `Service::DoneCallback` calls, and the code
that answers a delayed call later. What it does there is a sequence of calls (`Act`),
which may send requests from inside a handler or a callback. `m_pMgrMessage` is set by the
constructor that `UMgrMessage` uses, and is never null.

A function has no result (`none`) where the source throws, reads outside an array or
writes through a pointer to an entry that is gone.

* `ActStep`, `OnMessage` — what a call and a message can do; `ActStep.of_act` and
  `OnMessage.of_handleMessage` are the inversions of `act` and `handleMessage`.
-/

namespace ThirdPersonMP.Rpc

open Base Library

/-! ### Messages -/

/-- `CMD::MsgType`. -/
inductive MsgType where
  | request
  | response
  | other (value : ℤ)
  deriving DecidableEq

/-- `CMD::ErrorCode`. -/
inductive ErrorCode where
  | noError
  | noService
  | noMethod
  | wrongProto
  | other (value : ℤ)
  deriving DecidableEq

/-- `CMD::RpcMessage`, a field that is not set has its default. -/
structure RpcMessage where
  type : MsgType
  id : UInt64
  service : ℤ := 0
  method : ℤ := 0
  from_ : EServerType := .min
  to_ : EServerType := .min
  accid : UInt64 := 0
  request : Bytes := []
  response : Bytes := []
  error : ErrorCode := .noError
  deriving DecidableEq

/-- What the source uses of protobuf. -/
structure Protobuf (M D : Type*) where
  /-- `GetDescriptor()`. -/
  getDescriptor : M → D
  /-- The descriptor of `EmptyResponse`. -/
  emptyResponse : D
  /-- `SerializeAsString()`. -/
  serializeAsString : M → Bytes
  /-- `ParseFromString` into a new message of a type: the message, and the result. -/
  parseFromString : D → Bytes → M × Bool
  /-- `RpcMessage::SerializeAsString()`. -/
  serializeRpcMessage : RpcMessage → Bytes
  /-- `RpcMessage::ParseFromArray`: the message, and the result. -/
  parseRpcMessage : Bytes → RpcMessage × Bool

/-- Parsing undoes serializing. -/
structure Protobuf.Lawful {M D : Type*} (P : Protobuf M D) : Prop where
  parse_serialize : ∀ m, P.parseFromString (P.getDescriptor m) (P.serializeAsString m) = (m, true)
  parse_serializeRpcMessage : ∀ msg, P.parseRpcMessage (P.serializeRpcMessage msg) = (msg, true)

/-! ### State -/

variable {M D : Type*}

/-- `OutstandingCall`. -/
structure OutstandingCall (M : Type*) where
  request : M
  serviceType : ℤ
  methodIndex : ℤ

/-- `SRpcChannelMethodArgs`, but for `bDelay`, which only the handler sets. -/
structure SRpcChannelMethodArgs where
  from_ : EServerType
  msgId : UInt64
  accid : UInt64
  deriving DecidableEq

/-- `SDelayResponse`. -/
structure SDelayResponse (M : Type*) where
  from_ : EServerType
  response : Option M := none
  delayResponseId : UInt64
  msgId : UInt64
  accid : UInt64

/-- History: what happened, by the id of the message. -/
inductive Event (M : Type*) where
  /-- `RpcChannel::Send` sent a request. -/
  | accepted (id : UInt64) (request : M) (serviceType methodIndex : ℤ)
  /-- `Service::CallMethod` was called. -/
  | callMethod (id : UInt64) (request : M) (serviceType methodIndex : ℤ)
  /-- `RpcChannel::DoneCallback` sent a response. -/
  | reply (id : UInt64) (response : M)
  /-- `Service::DoneCallback` was called. -/
  | doneCallback (id : UInt64) (request response : M) (serviceType methodIndex : ℤ)

/-- `RpcChannel`, the delayed responses of `UMgrMessage`, and a history that no step reads. -/
structure Peer (M : Type*) where
  /-- `m_id`. -/
  mId : UInt64 := 0
  /-- `m_outstandings`. -/
  mOutstandings : AList (fun _ : UInt64 => OutstandingCall M) := ∅
  /-- `m_accid`. -/
  mAccid : UInt64 := 0
  /-- `m_delayResponseId`, which no constructor sets. -/
  mDelayResponseId : UInt64
  /-- `m_delayResponse`. -/
  mDelayResponse : AList (fun _ : UInt64 => SDelayResponse M) := ∅
  /-- The messages passed to `SendMessage` whose frames have not been delivered. -/
  out : List RpcMessage := []
  /-- History: the events so far. -/
  trace : List (Event M) := []

/-! ### Calls -/

/-- A call that the user's code makes. -/
inductive Act (M : Type*) where
  /-- `UMgrMessage::Send`. -/
  | send (request : Option M)
  /-- `UMgrMessage::NewDelayResponse`. -/
  | newDelayResponse (args : SRpcChannelMethodArgs)
  /-- Set the response of the entry that `NewDelayResponse` returned. -/
  | fill (delayResponseId : UInt64) (response : Option M)
  /-- `UMgrMessage::DoDelayResponse`. -/
  | doDelayResponse (delayResponseId : UInt64)
  /-- `UMgrMessage::SetAccid`. -/
  | setAccid (accid : UInt64)

/-- What a handler does: its calls, the `bDelay` it sets, and what it leaves in the
response. -/
structure Handler (M : Type*) where
  acts : List (Act M)
  bDelay : Bool
  response : M

namespace Peer

/-- `UMgrMessage::SendMessage(const RpcMessage&)`. -/
def sendMessage (p : Peer M) (message : RpcMessage) : Peer M :=
  { p with out := p.out ++ [message] }

variable (P : Protobuf M D)

/-- `RpcChannel::Send`, when `GetServiceInfo` has found the request (158–177). -/
def sendRequest (p : Peer M) (request : M) (info : SServiceInfo) : Peer M :=
  let mId := p.mId + 1
  { p with
    mId := mId
    mOutstandings := p.mOutstandings.insert mId ⟨request, info.serviceType, info.methodIndex⟩
    trace := p.trace ++ [Event.accepted mId request info.serviceType info.methodIndex] }.sendMessage
      { type := .request
        id := mId
        service := info.serviceType
        method := info.methodIndex
        from_ := .client
        to_ := info.to_
        accid := p.mAccid
        request := P.serializeAsString request }

/-- `RpcChannel::DoneCallback` (189–204). -/
def doneCallback (p : Peer M) (response : Option M) (id accid : UInt64) (from_ : EServerType) :
    Peer M :=
  match response with
  | none => p
  | some response =>
    { p with trace := p.trace ++ [Event.reply id response] }.sendMessage
      { type := .response
        id := id
        accid := accid
        from_ := .client
        to_ := from_
        response := P.serializeAsString response }

/-- `UMgrMessage::NewDelayResponse` (272–282). -/
def newDelayResponse (p : Peer M) (args : SRpcChannelMethodArgs) : Peer M :=
  let delayId := p.mDelayResponseId + 1
  -- `m_delayResponse[delayId]`: an entry that is there keeps its response
  let response := (p.mDelayResponse.lookup delayId).bind SDelayResponse.response
  { p with
    mDelayResponseId := delayId
    mDelayResponse := p.mDelayResponse.insert delayId
      { from_ := args.from_
        response := response
        delayResponseId := delayId
        msgId := args.msgId
        accid := args.accid } }

/-- The user's code sets the response of an entry of `m_delayResponse`. -/
def fill (p : Peer M) (delayResponseId : UInt64) (response : Option M) : Option (Peer M) :=
  match p.mDelayResponse.lookup delayResponseId with
  | none => none
  | some e =>
    some { p with
      mDelayResponse := p.mDelayResponse.insert delayResponseId { e with response := response } }

/-- `UMgrMessage::DoDelayResponse` (284–298). -/
def doDelayResponse (p : Peer M) (delayResponseId : UInt64) : Peer M :=
  match p.mDelayResponse.lookup delayResponseId with
  | none => p
  | some e =>
    { p with mDelayResponse := p.mDelayResponse.erase delayResponseId }.doneCallback P
      e.response e.msgId e.accid e.from_

variable [DecidableEq D] (g : Generated D)

/-- `RpcChannel::Send(const MessagePtr&)` (151–178). -/
def send (p : Peer M) (request : Option M) : Peer M :=
  match request with
  | none => p
  | some request =>
    match (registerService g).getServiceInfo (P.getDescriptor request) with
    | none => p
    | some info => p.sendRequest P request info

/-- A call of the user's code. -/
def act (p : Peer M) : Act M → Option (Peer M)
  | .send request => some (p.send P g request)
  | .newDelayResponse args => some (p.newDelayResponse args)
  | .fill delayResponseId response => p.fill delayResponseId response
  | .doDelayResponse delayResponseId => some (p.doDelayResponse P delayResponseId)
  | .setAccid accid => some { p with mAccid := accid }

/-! ### Messages of the other side -/

/-- `funcErrorCode` (51–62). -/
def funcErrorCode (p : Peer M) (message : RpcMessage) (errorCode : ErrorCode) : Peer M :=
  if errorCode ≠ .noError then
    p.sendMessage { type := .response, id := message.id, error := errorCode }
  else p

/-- `serviceHandleRequestMsg` up to the call of `CallMethod` (47–97): the method that is
called, or no method when an error was sent. -/
def serviceEnterMethod (p : Peer M) (message : RpcMessage) :
    Option (Peer M × Option (MethodDescriptor D)) :=
  match (registerService g).getServicePtr g message.service with
  | none => none
  | some none => some (p.funcErrorCode message .noService, none)
  | some (some service) =>
    match service.method message.method with
    | none => none
    | some method =>
      match P.parseFromString method.requestPrototype message.request with
      | (_, false) => some (p.funcErrorCode message .wrongProto, none)
      | (request, true) =>
        some ({ p with
          trace := p.trace ++ [.callMethod message.id request message.service message.method] },
          some method)

/-- `serviceHandleRequestMsg` after `CallMethod` (99–104): `response` is an object of the
method's response type, which the handler has filled, or null for an `EmptyResponse`. -/
def serviceLeaveMethod (p : Peer M) (message : RpcMessage) (method : MethodDescriptor D)
    (handler : Handler M) : Option (Peer M) :=
  if method.responsePrototype = P.emptyResponse ∨ handler.bDelay then some p
  else if P.getDescriptor handler.response = method.responsePrototype then
    some (p.doneCallback P (some handler.response) message.id message.accid message.from_)
  else none

/-- `serviceHandleRequestMsg` (47–105). -/
def serviceHandleRequestMsg (p : Peer M) (message : RpcMessage) (handler : Handler M) :
    Option (Peer M) :=
  match p.serviceEnterMethod P g message with
  | none => none
  | some (p, none) => some p
  | some (p, some method) =>
    (run (act P g) p handler.acts).bind fun p => p.serviceLeaveMethod P message method handler

/-- `stubHandleResponseMsg` (107–149), whose last statement is the call of
`Service::DoneCallback`: whether that is reached. -/
def stubHandleResponseMsg (p : Peer M) (message : RpcMessage) : Option (Peer M × Bool) :=
  if message.response = [] then some (p, false)
  else
    match p.mOutstandings.lookup message.id with
    | none => some (p, false)
    | some out =>
      let p := { p with mOutstandings := p.mOutstandings.erase message.id }
      match (registerService g).getServicePtr g out.serviceType with
      | none => none
      | some none => some (p, false)
      | some (some service) =>
        match service.method out.methodIndex with
        | none => none
        | some method =>
          let response := (P.parseFromString method.responsePrototype message.response).1
          some ({ p with trace := p.trace ++
            [.doneCallback message.id out.request response out.serviceType out.methodIndex] }, true)

/-- What `OnMessage` does with the message it has parsed. -/
def handleMessage (p : Peer M) (message : RpcMessage) (handler : Handler M)
    (callback : List (Act M)) : Option (Peer M) :=
  match message.type with
  | .response =>
    match p.stubHandleResponseMsg P g message with
    | none => none
    | some (p, false) => some p
    | some (p, true) => run (act P g) p callback
  | .request => p.serviceHandleRequestMsg P g message handler
  | .other _ => some p

/-- `OnMessage` (32–45); the result of the parse is ignored. `handler` and `callback` are
what the user's code does when it is called. -/
def onMessage (p : Peer M) (data : Bytes) (handler : Handler M) (callback : List (Act M)) :
    Option (Peer M) :=
  p.handleMessage P g (P.parseRpcMessage data).1 handler callback

end Peer

/-! ### Tables -/

/-- An entry of a table that lost another is an entry of the table. -/
theorem lookup_of_lookup_erase {α : Type*} {table : AList fun _ : UInt64 => α} {x y : UInt64}
    {e : α} (h : (table.erase x).lookup y = some e) : table.lookup y = some e := by
  by_cases hy : y = x
  · subst hy
    rw [AList.lookup_erase] at h
    cases h
  · rwa [AList.lookup_erase_ne hy] at h

/-! ### What a call can do -/

section

variable (P : Protobuf M D) [DecidableEq D] (g : Generated D)

/-- What a call of the user's code can do, one constructor for each outcome. -/
inductive ActStep (p : Peer M) : Act M → Peer M → Prop
  | send {request : M} {info : SServiceInfo}
      (hi : (registerService g).getServiceInfo (P.getDescriptor request) = some info) :
      ActStep p (.send (some request)) (p.sendRequest P request info)
  | noSend {request : Option M}
      (hr : ∀ r ∈ request, (registerService g).getServiceInfo (P.getDescriptor r) = none) :
      ActStep p (.send request) p
  | newDelayResponse (args : SRpcChannelMethodArgs) :
      ActStep p (.newDelayResponse args) (p.newDelayResponse args)
  | fill {x : UInt64} {e : SDelayResponse M} {response : Option M}
      (hx : p.mDelayResponse.lookup x = some e) :
      ActStep p (.fill x response)
        { p with mDelayResponse := p.mDelayResponse.insert x { e with response := response } }
  | noDelayResponse {x : UInt64} (hx : p.mDelayResponse.lookup x = none) :
      ActStep p (.doDelayResponse x) p
  | dropDelayResponse {x : UInt64} {e : SDelayResponse M}
      (hx : p.mDelayResponse.lookup x = some e) (hr : e.response = none) :
      ActStep p (.doDelayResponse x) { p with mDelayResponse := p.mDelayResponse.erase x }
  | doDelayResponse {x : UInt64} {e : SDelayResponse M} {response : M}
      (hx : p.mDelayResponse.lookup x = some e) (hr : e.response = some response) :
      ActStep p (.doDelayResponse x)
        ({ p with mDelayResponse := p.mDelayResponse.erase x }.doneCallback P (some response)
          e.msgId e.accid e.from_)
  | setAccid (accid : UInt64) : ActStep p (.setAccid accid) { p with mAccid := accid }

variable {P g}

/-- The inversion of `act`. -/
theorem ActStep.of_act {p p' : Peer M} {a : Act M} (h : p.act P g a = some p') :
    ActStep P g p a p' := by
  cases a with
  | send request =>
    simp only [Peer.act, Option.some.injEq] at h
    cases request with
    | none =>
      subst h
      exact .noSend (by simp)
    | some request =>
      simp only [Peer.send] at h
      split at h <;> subst h
      · exact .noSend (by simpa using ‹_›)
      · exact .send ‹_›
  | newDelayResponse args =>
    cases h
    exact .newDelayResponse args
  | fill x response =>
    simp only [Peer.act, Peer.fill] at h
    split at h <;> cases h
    exact .fill ‹_›
  | doDelayResponse x =>
    simp only [Peer.act, Peer.doDelayResponse, Option.some.injEq] at h
    split at h
    · subst h
      exact .noDelayResponse ‹_›
    · rename_i e hx
      cases hr : e.response with
      | none =>
        rw [hr] at h
        subst h
        exact .dropDelayResponse hx hr
      | some response =>
        rw [hr] at h
        subst h
        exact .doDelayResponse hx hr
  | setAccid accid =>
    cases h
    exact .setAccid accid

end

/-! ### What a message can do -/

section

variable (P : Protobuf M D) [DecidableEq D] (g : Generated D)

/-- The channel when `CallMethod` is called. -/
def Peer.called (p : Peer M) (message : RpcMessage) (request : M) : Peer M :=
  { p with trace := p.trace ++ [.callMethod message.id request message.service message.method] }

/-- The channel when `Service::DoneCallback` is called. -/
def Peer.completed (p : Peer M) (id : UInt64) (out : OutstandingCall M) (response : M) : Peer M :=
  { p with
    mOutstandings := p.mOutstandings.erase id
    trace := p.trace ++ [.doneCallback id out.request response out.serviceType out.methodIndex] }

/-- A message in flight has arrived, the `i`-th of `out`. -/
def Peer.delivered (p : Peer M) (i : ℕ) : Peer M := { p with out := p.out.eraseIdx i }

/-- The service and the method of a request or of an outstanding call. -/
def Finds (serviceType methodIndex : ℤ) (method : MethodDescriptor D) : Prop :=
  ∃ service, (registerService g).getServicePtr g serviceType = some (some service) ∧
    service.method methodIndex = some method

/-- What a message of the other side can do, one constructor for each outcome. -/
inductive OnMessage (p : Peer M) (message : RpcMessage) (handler : Handler M)
    (callback : List (Act M)) : Peer M → Prop
  | other {value : ℤ} (ht : message.type = .other value) : OnMessage p message handler callback p
  | emptyResponse (ht : message.type = .response) (hr : message.response = []) :
      OnMessage p message handler callback p
  | notFound (ht : message.type = .response) (hl : p.mOutstandings.lookup message.id = none) :
      OnMessage p message handler callback p
  | stubNoService {out : OutstandingCall M} (ht : message.type = .response)
      (hr : message.response ≠ []) (hl : p.mOutstandings.lookup message.id = some out)
      (hs : (registerService g).getServicePtr g out.serviceType = some none) :
      OnMessage p message handler callback
        { p with mOutstandings := p.mOutstandings.erase message.id }
  | callback {out : OutstandingCall M} {method : MethodDescriptor D} {p' : Peer M}
      (ht : message.type = .response) (hr : message.response ≠ [])
      (hl : p.mOutstandings.lookup message.id = some out)
      (hm : Finds g out.serviceType out.methodIndex method)
      (ha : run (Peer.act P g)
        (p.completed message.id out
          (P.parseFromString method.responsePrototype message.response).1) callback = some p') :
      OnMessage p message handler callback p'
  | noService (ht : message.type = .request)
      (hs : (registerService g).getServicePtr g message.service = some none) :
      OnMessage p message handler callback (p.funcErrorCode message .noService)
  | wrongProto {method : MethodDescriptor D} (ht : message.type = .request)
      (hm : Finds g message.service message.method method)
      (hp : (P.parseFromString method.requestPrototype message.request).2 = false) :
      OnMessage p message handler callback (p.funcErrorCode message .wrongProto)
  | noReply {method : MethodDescriptor D} {request : M} {p' : Peer M} (ht : message.type = .request)
      (hm : Finds g message.service message.method method)
      (hp : P.parseFromString method.requestPrototype message.request = (request, true))
      (ha : run (Peer.act P g) (p.called message request) handler.acts = some p')
      (hn : method.responsePrototype = P.emptyResponse ∨ handler.bDelay = true) :
      OnMessage p message handler callback p'
  | reply {method : MethodDescriptor D} {request : M} {p' : Peer M} (ht : message.type = .request)
      (hm : Finds g message.service message.method method)
      (hp : P.parseFromString method.requestPrototype message.request = (request, true))
      (ha : run (Peer.act P g) (p.called message request) handler.acts = some p')
      (hne : method.responsePrototype ≠ P.emptyResponse) (hd : handler.bDelay = false)
      (hr : P.getDescriptor handler.response = method.responsePrototype) :
      OnMessage p message handler callback
        (p'.doneCallback P (some handler.response) message.id message.accid message.from_)

variable {P g}

/-- What `CallMethod` was called with, if it was. -/
theorem serviceEnterMethod_eq_some {p p' : Peer M} {message : RpcMessage}
    {method : MethodDescriptor D} (h : p.serviceEnterMethod P g message = some (p', some method)) :
    ∃ request, Finds g message.service message.method method ∧
      P.parseFromString method.requestPrototype message.request = (request, true) ∧
      p' = p.called message request := by
  unfold Peer.serviceEnterMethod at h
  split at h
  · cases h
  · cases h
  · rename_i service hs
    split at h
    · cases h
    · rename_i method' hm
      split at h
      · cases h
      · rename_i request hp
        cases h
        exact ⟨request, ⟨service, hs, hm⟩, hp, rfl⟩

/-- The state when `Service::DoneCallback` is called, if it is. -/
theorem stubHandleResponseMsg_eq_some {p p' : Peer M} {message : RpcMessage}
    (h : p.stubHandleResponseMsg P g message = some (p', true)) :
    ∃ out method, message.response ≠ [] ∧ p.mOutstandings.lookup message.id = some out ∧
      Finds g out.serviceType out.methodIndex method ∧
      p' = p.completed message.id out
        (P.parseFromString method.responsePrototype message.response).1 := by
  unfold Peer.stubHandleResponseMsg at h
  split at h
  · cases h
  · rename_i hr
    split at h
    · cases h
    · rename_i out hl
      split at h
      · cases h
      · cases h
      · rename_i service hs
        split at h
        · cases h
        · rename_i method hm
          cases h
          exact ⟨out, method, hr, hl, ⟨service, hs, hm⟩, rfl⟩

/-- A response makes no entry and alters none. -/
theorem lookup_of_stubHandleResponseMsg {p p' : Peer M} {message : RpcMessage} {called : Bool}
    (h : p.stubHandleResponseMsg P g message = some (p', called)) {id : UInt64}
    {out : OutstandingCall M} (hl : p'.mOutstandings.lookup id = some out) :
    p.mOutstandings.lookup id = some out := by
  unfold Peer.stubHandleResponseMsg at h
  split at h
  · cases h
    exact hl
  · split at h
    · cases h
      exact hl
    · split at h
      · cases h
      · cases h
        exact lookup_of_lookup_erase hl
      · split at h <;> cases h
        exact lookup_of_lookup_erase hl

/-- The inversion of `handleMessage`. -/
theorem OnMessage.of_handleMessage {p p' : Peer M} {message : RpcMessage} {handler : Handler M}
    {callback : List (Act M)} (h : p.handleMessage P g message handler callback = some p') :
    OnMessage P g p message handler callback p' := by
  unfold Peer.handleMessage at h
  split at h
  · rename_i ht
    split at h
    · cases h
    · rename_i q hq
      cases h
      unfold Peer.stubHandleResponseMsg at hq
      split at hq
      · cases hq
        exact .emptyResponse ht ‹_›
      · split at hq
        · cases hq
          exact .notFound ht ‹_›
        · split at hq
          · cases hq
          · cases hq
            exact .stubNoService ht ‹_› ‹_› ‹_›
          · split at hq <;> cases hq
    · rename_i q hq
      obtain ⟨out, method, hr, hl, hm, rfl⟩ := stubHandleResponseMsg_eq_some hq
      exact .callback ht hr hl hm h
  · rename_i ht
    unfold Peer.serviceHandleRequestMsg at h
    split at h
    · cases h
    · rename_i q hq
      cases h
      unfold Peer.serviceEnterMethod at hq
      split at hq
      · cases hq
      · cases hq
        exact .noService ht ‹_›
      · rename_i service hs
        split at hq
        · cases hq
        · rename_i method hm
          split at hq <;> cases hq
          rename_i hp
          exact .wrongProto ht ⟨service, hs, hm⟩ (by rw [hp])
    · rename_i q method hq
      obtain ⟨request, hm, hp, rfl⟩ := serviceEnterMethod_eq_some hq
      obtain ⟨p₁, ha, hl⟩ := Option.bind_eq_some_iff.mp h
      unfold Peer.serviceLeaveMethod at hl
      split at hl
      · cases hl
        exact .noReply ht hm hp ha ‹_›
      · rename_i hn
        rw [not_or, Bool.not_eq_true] at hn
        split at hl <;> cases hl
        exact .reply ht hm hp ha hn.1 hn.2 ‹_›
  · rename_i ht
    cases h
    exact .other ht

end

/-! ### What the operations change -/

section

variable (P : Protobuf M D) (p : Peer M)

section

variable (request : M) (info : SServiceInfo)

@[simp] theorem sendRequest_mOutstandings : (p.sendRequest P request info).mOutstandings =
    p.mOutstandings.insert (p.mId + 1) ⟨request, info.serviceType, info.methodIndex⟩ := rfl

@[simp] theorem sendRequest_out : (p.sendRequest P request info).out = p.out ++
    [{ type := .request, id := p.mId + 1, service := info.serviceType, method := info.methodIndex,
       from_ := .client, to_ := info.to_, accid := p.mAccid,
       request := P.serializeAsString request }] := rfl

@[simp] theorem sendRequest_trace : (p.sendRequest P request info).trace = p.trace ++
    [.accepted (p.mId + 1) request info.serviceType info.methodIndex] := rfl

end

section

variable (response : M) (id accid : UInt64) (from_ : EServerType)

@[simp] theorem doneCallback_out : (p.doneCallback P (some response) id accid from_).out = p.out ++
    [{ type := .response, id := id, accid := accid, from_ := .client, to_ := from_,
       response := P.serializeAsString response }] := rfl

@[simp] theorem doneCallback_mDelayResponse :
    (p.doneCallback P (some response) id accid from_).mDelayResponse = p.mDelayResponse := rfl

@[simp] theorem doneCallback_trace : (p.doneCallback P (some response) id accid from_).trace =
    p.trace ++ [.reply id response] := rfl

end

/-- `funcErrorCode`, called with an error. -/
theorem funcErrorCode_of_ne {message : RpcMessage} {errorCode : ErrorCode}
    (h : errorCode ≠ .noError) : p.funcErrorCode message errorCode =
      p.sendMessage { type := .response, id := message.id, error := errorCode } :=
  if_pos h

@[simp] theorem called_mDelayResponse (message : RpcMessage) (request : M) :
    (p.called message request).mDelayResponse = p.mDelayResponse := rfl

@[simp] theorem called_out (message : RpcMessage) (request : M) :
    (p.called message request).out = p.out := rfl

@[simp] theorem called_trace (message : RpcMessage) (request : M) :
    (p.called message request).trace =
      p.trace ++ [.callMethod message.id request message.service message.method] := rfl

section

variable (id : UInt64) (out : OutstandingCall M) (response : M)

@[simp] theorem completed_mOutstandings :
    (p.completed id out response).mOutstandings = p.mOutstandings.erase id := rfl

@[simp] theorem completed_out : (p.completed id out response).out = p.out := rfl

@[simp] theorem completed_trace : (p.completed id out response).trace = p.trace ++
    [.doneCallback id out.request response out.serviceType out.methodIndex] := rfl

end

@[simp] theorem delivered_trace (i : ℕ) : (p.delivered i).trace = p.trace := rfl

end

end ThirdPersonMP.Rpc
