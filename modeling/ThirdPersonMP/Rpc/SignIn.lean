import ThirdPersonMP.Library.Codec
import ThirdPersonMP.Rpc.RpcChannel

/-!
# The sign-in messages

An instance of the parameters of the channel: two of the services that the client has
stubs for, `C2A_UserService`, whose method `C2A_UserSignIn` answers with a flag
(`c2a_user_stub.cpp`), and `C2G_SceneService`, whose method `C2G_NotifyLoadedScene` has an
`EmptyResponse` (`c2g_scene_stub.cpp`).

The messages are serialized as protobuf does it: a field that has its default is left out,
so a message all of whose fields have their defaults is the empty string. The fields of
`RpcMessage` are written one after the other.

* `protobuf_lawful`, `generated_lawful` — parsing undoes serializing, and the generated
  code is as the source relies on.
-/

namespace ThirdPersonMP.Rpc.SignIn

open Base Library

/-- The descriptors. -/
inductive Desc where
  | userSignInArg
  | userSignInRes
  | notifyLoadedSceneArg
  | emptyResponse
  deriving DecidableEq

/-- The messages. -/
inductive Msg where
  | userSignInArg (accid : UInt64)
  | userSignInRes (allowSignIn : Bool)
  | notifyLoadedSceneArg
  | emptyResponse
  deriving DecidableEq

/-- `GetDescriptor()`. -/
def Msg.desc : Msg → Desc
  | userSignInArg _ => .userSignInArg
  | userSignInRes _ => .userSignInRes
  | notifyLoadedSceneArg => .notifyLoadedSceneArg
  | emptyResponse => .emptyResponse

/-! ### Serialization -/

/-- `SerializeAsString()`. -/
def Msg.serialize : Msg → Bytes
  | userSignInArg accid => if accid = 0 then [] else 8 :: Codec.uint64.encode accid
  | userSignInRes allowSignIn => if allowSignIn then [8, 1] else []
  | notifyLoadedSceneArg | emptyResponse => []

/-- `ParseFromString`. -/
def parse : Desc → Bytes → Msg × Bool
  | .userSignInArg, [] => (.userSignInArg 0, true)
  | .userSignInArg, _ :: bs =>
    match Codec.uint64.decode bs with
    | some (accid, []) => (.userSignInArg accid, true)
    | _ => (.userSignInArg 0, false)
  | .userSignInRes, bs => (.userSignInRes (bs == [8, 1]), bs == [8, 1] || bs == [])
  | .notifyLoadedSceneArg, bs => (.notifyLoadedSceneArg, bs == [])
  | .emptyResponse, bs => (.emptyResponse, bs == [])

theorem parse_serialize (m : Msg) : parse m.desc m.serialize = (m, true) := by
  cases m with
  | userSignInArg accid =>
    rw [Msg.desc, Msg.serialize]
    split
    · rename_i h
      rw [h, parse]
    · have := Codec.uint64.decode_encode accid []
      rw [List.append_nil] at this
      rw [parse, this]
  | userSignInRes allowSignIn => cases allowSignIn <;> rfl
  | notifyLoadedSceneArg => rfl
  | emptyResponse => rfl

/-- A message type. -/
def msgType : Codec MsgType :=
  (Codec.openEnum 2).imap
    (fun s => match s with
      | .inl 0 => .request
      | .inl 1 => .response
      | .inr v => .other v)
    (fun t => match t with
      | .request => .inl 0
      | .response => .inl 1
      | .other v => .inr v) (by intro t; cases t <;> rfl)

/-- A server type. -/
def serverType : Codec EServerType :=
  (Codec.openEnum 4).imap
    (fun s => match s with
      | .inl 0 => .min
      | .inl 1 => .client
      | .inl 2 => .gateServer
      | .inl 3 => .gameServer
      | .inr v => .other v)
    (fun t => match t with
      | .min => .inl 0
      | .client => .inl 1
      | .gateServer => .inl 2
      | .gameServer => .inl 3
      | .other v => .inr v) (by intro t; cases t <;> rfl)

/-- An error code. -/
def errorCode : Codec ErrorCode :=
  (Codec.openEnum 4).imap
    (fun s => match s with
      | .inl 0 => .noError
      | .inl 1 => .noService
      | .inl 2 => .noMethod
      | .inl 3 => .wrongProto
      | .inr v => .other v)
    (fun e => match e with
      | .noError => .inl 0
      | .noService => .inl 1
      | .noMethod => .inl 2
      | .wrongProto => .inl 3
      | .other v => .inr v) (by intro e; cases e <;> rfl)

/-- `RpcMessage`, field after field. -/
def rpcMessage : Codec RpcMessage :=
  (msgType.seq <| Codec.uint64.seq <| Codec.int.seq <| Codec.int.seq <| serverType.seq <|
    serverType.seq <| Codec.uint64.seq <| Codec.bytes.seq <| Codec.bytes.seq errorCode).imap
    (fun (type, id, service, method, from_, to_, accid, request, response, error) =>
      { type, id, service, method, from_, to_, accid, request, response, error })
    (fun m => (m.type, m.id, m.service, m.method, m.from_, m.to_, m.accid, m.request, m.response,
      m.error))
    fun _ => rfl

/-- The messages, as the channel uses them. -/
def protobuf : Protobuf Msg Desc where
  getDescriptor := Msg.desc
  emptyResponse := .emptyResponse
  serializeAsString := Msg.serialize
  parseFromString := parse
  serializeRpcMessage := rpcMessage.encode
  parseRpcMessage bs :=
    match rpcMessage.decode bs with
    | some (message, rest) => (message, rest == [])
    | none => ({ type := .other 0, id := 0 }, false)

theorem protobuf_lawful : protobuf.Lawful where
  parse_serialize := parse_serialize
  parse_serializeRpcMessage := by
    intro message
    have := rpcMessage.decode_encode message []
    rw [List.append_nil] at this
    simp only [protobuf, this]
    rfl

/-! ### Services -/

/-- `C2A_UserService`. -/
def userService : Service Desc := ⟨[⟨.userSignInArg, .userSignInRes⟩]⟩

/-- `C2G_SceneService`. -/
def sceneService : Service Desc := ⟨[⟨.notifyLoadedSceneArg, .emptyResponse⟩]⟩

/-- The service types and the classes registered. -/
def generated : Generated Desc where
  serviceTypeMin := 0
  serviceTypeMax := 3
  eServiceTypeIsValid := fun t => 0 ≤ t ∧ t ≤ 3
  eServiceTypeName := fun t =>
    if t = 0 then "SERVICETYPE_MIN" else if t = 1 then "C2A_UserService" else
    if t = 2 then "C2G_SceneService" else if t = 3 then "SERVICETYPE_MAX" else ""
  createService := fun typeName =>
    if typeName = "RPC::C2A_UserService_Stub" then some userService
    else if typeName = "RPC::C2G_SceneService_Stub" then some sceneService
    else none

theorem generated_lawful : generated.Lawful where
  valid := by
    intro t ht
    simp only [generated] at ht ⊢
    split_ifs at ht with h0 h1 h2 h3
    · simp [h0]
    · simp [h1]
    · simp [h2]
    · simp [h3]
    · exact absurd rfl ht
  unnamed := by decide
  stub := by
    intro t service stub hs
    have hnone : generated.createService ("RPC::" ++ generated.eServiceTypeName t) = none := by
      simp only [generated]
      split_ifs <;> first | rfl | simp_all
    rw [hnone] at hs
    cases hs

end ThirdPersonMP.Rpc.SignIn
