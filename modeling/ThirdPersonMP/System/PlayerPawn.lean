import ThirdPersonMP.Rpc.Peers
import ThirdPersonMP.Rpc.SignIn

/-!
# Signing in, and the player's pawn

The user types an account id and presses a button: `UTestUI::onButtonTest` (`TestUI.cpp`,
23–42) sets `m_accid`, sends `C2A_UserSignIn` and hides the widget.
`C2A_UserSignIn_DoneCb` (`c2a_user_stub.cpp`, 22–33) sets `m_accid` again when the reply
allows it. The server has a level opened by `G2C_EnterScene`; the game mode of the level
tells it so when it begins (`ThirdPersonMPGameMode.cpp`, 40–46 and 69–78), and every player's
pawn is spawned by a `G2C_CreatePlayerPawn` (`g2c_scene.cpp`, 22–45), which has the controller
possess the player's own. The pawn that the engine itself spawns and has it possess
(`DefaultPawnClass`) is not modelled: a pawn is one spawned by `G2C_CreatePlayerPawn`.

The messages of the server are arbitrary bytes, in any order; the engine constructs widgets, of
which several may be visible, opens levels and ticks the controller between them.

* `SignedIn` — whose account the client acts for; kept by every step (`signedIn_step`).
* `signedIn_run` — in every run, whatever the server sends: the account id is one that the
  user typed; no request carries another one, but `0` before the first; and a pawn that
  `G2C_CreatePlayerPawn` had the controller possess was spawned for one of these.
-/

namespace ThirdPersonMP.System

open Base Library Rpc

variable {M D Cmd : Type*}

/-! ### Messages -/

/-- The requests of `G2C_SceneService`. -/
inductive SceneRequest where
  | enterScene
  | createPlayerPawn (accid : UInt64)
  deriving DecidableEq

/-- The messages that the client builds and reads; `Cmd` is `CMD::MoveStateCmd`. -/
structure UserMessages (M Cmd : Type*) where
  /-- A `C2A_UserSignInArg` with this `accid`. -/
  userSignInArg : UInt64 → M
  /-- A `C2G_NotifyLoadedSceneArg` with this `mapid`. -/
  notifyLoadedSceneArg : ℤ → M
  /-- A `C2G_MoveStateArg` with this `cmd`. -/
  moveStateArg : Cmd → M
  /-- The `accid` of a `C2A_UserSignInArg`. -/
  userSignIn : M → Option UInt64
  /-- `allow_sign_in` of a `C2A_UserSignInRes`. -/
  allowSignIn : M → Bool
  /-- The argument of a method of `G2C_SceneService`. -/
  sceneRequest : M → Option SceneRequest

/-- The types of the messages are different. -/
structure UserMessages.Lawful (U : UserMessages M Cmd) : Prop where
  userSignIn_userSignInArg : ∀ accid, U.userSignIn (U.userSignInArg accid) = some accid
  userSignIn_notifyLoadedSceneArg : ∀ mapid, U.userSignIn (U.notifyLoadedSceneArg mapid) = none
  userSignIn_moveStateArg : ∀ cmd, U.userSignIn (U.moveStateArg cmd) = none

/-! ### State -/

/-- The world of the level that is open. -/
structure Scene where
  /-- `GetAuthGameMode()` is an `AThirdPersonMPGameMode`. -/
  gameMode : Bool := false
  /-- What `UMgrActor::SpawnActor` has spawned, each with the `accid` of its request. -/
  pawns : List UInt64 := []
  /-- The one of them that the player controller possesses, if it possesses one of them. -/
  possessed : Option ℕ := none
  deriving DecidableEq

/-- The client, and a history that no step reads. -/
structure Game (M : Type*) where
  /-- `UMgrMessage` and its channel. -/
  channel : Peer M
  scene : Scene := {}
  /-- The engine has a level to open: the default map, or that of `OpenLevel`. -/
  openLevel : Bool := true
  /-- How many `UTestUI` are there, and visible. -/
  visible : ℕ := 0
  /-- History: the account ids that were typed. -/
  typed : List UInt64 := []

/-- What a handler finds: `GetWorld()`, `GetGameInstance()`, its `UMgrActor`, what
`SpawnActor` returns and `GetPlayerController(GetWorld(), 0)` are not null. -/
structure Found where
  world : Bool := true
  gameInstance : Bool := true
  mgrActor : Bool := true
  pawn : Bool := true
  controller : Bool := true
  deriving DecidableEq

namespace Game

/-- What happens next. -/
inductive Label (Cmd : Type*) where
  /-- `UTestUI::NativeConstruct`. -/
  | nativeConstruct
  /-- `UTestUI::onButtonTest` of one that is visible, by the text in its box, and whether its
  widgets and `UMgrMessage` are there. -/
  | onButtonTest (text : String) (widgets mgrMessage : Bool)
  /-- `RpcChannel::OnMessage`. -/
  | onMessage (data : Bytes) (found : Found)
  /-- The engine opens the level, by whether its game mode is an `AThirdPersonMPGameMode`. -/
  | beginPlay (gameMode : Bool)
  /-- `syncMove`, with the command that it builds for the account id. -/
  | syncMove (cmd : UInt64 → Cmd)

/-- Before the default map is open. -/
def initial (d : UInt64) : Game M := { channel := { mDelayResponseId := d } }

variable (P : Protobuf M D) [DecidableEq D] (g : Generated D) (U : UserMessages M Cmd)
  (strtoui64 : String → UInt64) (s : Game M)

/-! ### What the user's code does -/

/-- `onButtonTest` (23–42). -/
def onButtonTest (text : String) (widgets mgrMessage : Bool) : Game M :=
  if !widgets then s
  else if !mgrMessage then { s with visible := s.visible - 1 }
  else
    let accid := strtoui64 text
    { s with
      channel := { s.channel with mAccid := accid }.send P g (some (U.userSignInArg accid))
      visible := s.visible - 1
      typed := s.typed ++ [accid] }

omit [DecidableEq D] in
/-- `C2A_UserSignIn_DoneCb` (22–33): what it calls. -/
def userSignInDoneCb (request response : M) (world : Bool) : List (Act M) :=
  match U.userSignIn request with
  | none => []
  | some accid => if U.allowSignIn response && world then [.setAccid accid] else []

/-- What the callback of a response calls; that of the other methods logs only. -/
def callback (message : RpcMessage) (found : Found) : List (Act M) :=
  match s.channel.mOutstandings.lookup message.id with
  | none => []
  | some out =>
    match findMethod g out.serviceType out.methodIndex with
    | none => []
    | some method =>
      userSignInDoneCb U out.request
        (P.parseFromString method.responsePrototype message.response).1 found.world

/-- What the handler of a request leaves: the response as `New()` has made it. No handler
calls `UMgrMessage`. -/
def handler (message : RpcMessage) : Handler M where
  acts := []
  bDelay := false
  response :=
    match findMethod g message.service message.method with
    | none => (P.parseFromString P.emptyResponse []).1
    | some method => (P.parseFromString method.responsePrototype []).1

/-- The request that `CallMethod` is called with, if it is. -/
def called (message : RpcMessage) : Option M :=
  match message.type with
  | .request =>
    match s.channel.serviceEnterMethod P g message with
    | some (_, some method) => some (P.parseFromString method.requestPrototype message.request).1
    | _ => none
  | _ => none

omit [DecidableEq D] in
/-- `ChangeApawn` (59–67). -/
def changeApawn (pawn : ℕ) (controller : Bool) : Game M :=
  if controller then { s with scene := { s.scene with possessed := some pawn } } else s

omit [DecidableEq D] in
/-- `G2C_CreatePlayerPawn` (31–45); it has no result when the cast of the game mode fails. -/
def createPlayerPawn (accid : UInt64) (found : Found) : Option (Game M) :=
  if !found.gameInstance || !found.mgrActor || !found.pawn then some s
  else
    let spawned := { s with scene := { s.scene with pawns := s.scene.pawns ++ [accid] } }
    if accid ≠ s.channel.mAccid then some spawned
    else if !s.scene.gameMode then none
    else some (spawned.changeApawn s.scene.pawns.length found.controller)

omit [DecidableEq D] in
/-- What the handlers of `G2C_SceneService` do; `OpenLevel` does nothing without a world. -/
def handleScene (found : Found) : SceneRequest → Option (Game M)
  | .enterScene => some { s with openLevel := s.openLevel || found.world }
  | .createPlayerPawn accid => s.createPlayerPawn accid found

/-- `RpcChannel::OnMessage`, and what the user's code does in it. -/
def onMessage (data : Bytes) (found : Found) : Option (Game M) :=
  let message := (P.parseRpcMessage data).1
  (s.channel.onMessage P g data (handler P g message) (s.callback P g U message found)).bind
    fun channel =>
      match (s.called P g message).bind U.sceneRequest with
      | none => some { s with channel := channel }
      | some request => { s with channel := channel }.handleScene found request

/-- The engine opens the level: the actors of the old one are gone, and its game mode begins
(`BeginPlay`, 40–46, and `C2G_NotifyLoadedScene`, 69–78). -/
def beginPlay (gameMode : Bool) : Game M :=
  let opened := { s with scene := { gameMode := gameMode }, openLevel := false }
  if gameMode then
    { opened with channel := s.channel.send P g (some (U.notifyLoadedSceneArg 1)) }
  else opened

/-- One step; `none` when it is not possible. -/
def step : Label Cmd → Option (Game M)
  | .nativeConstruct => some { s with visible := s.visible + 1 }
  | .onButtonTest text widgets mgrMessage =>
    if 0 < s.visible then some (s.onButtonTest P g U strtoui64 text widgets mgrMessage) else none
  | .onMessage data found => s.onMessage P g U data found
  | .beginPlay gameMode => if s.openLevel then some (s.beginPlay P g U gameMode) else none
  | .syncMove cmd =>
    some { s with
      channel := s.channel.send P g (some (U.moveStateArg (cmd s.channel.mAccid))) }

end Game

/-! ### The channel -/

/-- What a message of the server does to the channel: it makes no entry, sends responses
only, and sets the account id to that of an outstanding sign-in, if at all. -/
structure Received (U : UserMessages M Cmd) (p p' : Peer M) : Prop where
  outstandings : ∀ id out, p'.mOutstandings.lookup id = some out →
    p.mOutstandings.lookup id = some out
  accid : p'.mAccid = p.mAccid ∨
    ∃ id out, p.mOutstandings.lookup id = some out ∧ p'.mAccid ∈ U.userSignIn out.request
  out : ∃ responses, p'.out = p.out ++ responses ∧ ∀ m ∈ responses, m.type = .response

section

variable {P : Protobuf M D} [DecidableEq D] {g : Generated D} {U : UserMessages M Cmd}

/-- Nothing is sent, and nothing set. -/
theorem Received.of_eq {p p' : Peer M} (ho : p'.mOutstandings = p.mOutstandings)
    (ha : p'.mAccid = p.mAccid) (hout : p'.out = p.out) : Received U p p' where
  outstandings := fun _ _ => by rw [ho]; exact id
  accid := .inl ha
  out := ⟨[], by rw [hout, List.append_nil], List.forall_mem_nil _⟩

/-- One more response is sent. -/
theorem Received.of_response {p p' : Peer M} {m : RpcMessage}
    (ho : p'.mOutstandings = p.mOutstandings) (ha : p'.mAccid = p.mAccid)
    (hout : p'.out = p.out ++ [m]) (hm : m.type = .response) : Received U p p' where
  outstandings := fun _ _ => by rw [ho]; exact id
  accid := .inl ha
  out := ⟨[m], hout, List.forall_mem_singleton.mpr hm⟩

/-- **What a message of the server does.** -/
theorem received_of_onMessage {s : Game M} {p' : Peer M} {data : Bytes} {found : Found}
    (h : s.channel.onMessage P g data (Game.handler P g (P.parseRpcMessage data).1)
      (s.callback P g U (P.parseRpcMessage data).1 found) = some p') :
    Received U s.channel p' := by
  generalize hmessage : (P.parseRpcMessage data).1 = message at h
  rw [Peer.onMessage, hmessage] at h
  cases OnMessage.of_handleMessage h with
  | other ht | emptyResponse ht hr | notFound ht hl => exact .of_eq rfl rfl rfl
  | stubNoService ht hr hl hs =>
    exact ⟨fun _ _ => lookup_of_lookup_erase, .inl rfl, [], (List.append_nil _).symm,
      List.forall_mem_nil _⟩
  | @callback out method p' ht hr hl hm ha =>
    have hcall : s.callback P g U message found = Game.userSignInDoneCb U out.request
        (P.parseFromString method.responsePrototype message.response).1 found.world := by
      rw [Game.callback, hl]
      simp only [findMethod_eq_some.mpr hm]
    have hnone : ∀ {q : Peer M}, run (Peer.act P g) (s.channel.completed message.id out
        (P.parseFromString method.responsePrototype message.response).1) [] = some q →
        Received U s.channel q := by
      intro q hq
      rw [run_nil, Option.some.injEq] at hq
      subst hq
      exact ⟨fun _ _ => lookup_of_lookup_erase, .inl rfl, [], (List.append_nil _).symm,
        List.forall_mem_nil _⟩
    rw [hcall, Game.userSignInDoneCb] at ha
    split at ha
    · exact hnone ha
    · rename_i accid haccid
      split at ha
      · -- the account id of the request that the reply is to
        rw [run_cons, Peer.act, Option.bind_some, run_nil, Option.some.injEq] at ha
        subst ha
        exact ⟨fun _ _ => lookup_of_lookup_erase, .inr ⟨_, out, hl, haccid⟩, [],
          (List.append_nil _).symm, List.forall_mem_nil _⟩
      · exact hnone ha
  | noService ht hs =>
    rw [funcErrorCode_of_ne _ (by decide)]
    exact .of_response rfl rfl rfl rfl
  | wrongProto ht hm hp =>
    rw [funcErrorCode_of_ne _ (by decide)]
    exact .of_response rfl rfl rfl rfl
  | @noReply method request p' ht hm hp ha hn =>
    rw [show (Game.handler P g message).acts = [] from rfl, run_nil, Option.some.injEq] at ha
    subst ha
    exact .of_eq rfl rfl rfl
  | @reply method request p' ht hm hp ha hne hd hr =>
    rw [show (Game.handler P g message).acts = [] from rfl, run_nil, Option.some.injEq] at ha
    subst ha
    exact .of_response rfl rfl rfl rfl

end

/-! ### Whose account -/

/-- The account ids of the requests sent: `0` at first, and later one that was typed. -/
def SentFor (typed : List UInt64) (out : List RpcMessage) : Prop :=
  ∃ before after, out = before ++ after ∧ (∀ m ∈ before, m.type = .request → m.accid = 0) ∧
    ∀ m ∈ after, m.type = .request → m.accid ∈ typed

/-- Whose account the client acts for. -/
structure SignedIn (U : UserMessages M Cmd) (s : Game M) : Prop where
  /-- The account id is one that was typed, once one was. -/
  accid : s.typed = [] ∧ s.channel.mAccid = 0 ∨ s.channel.mAccid ∈ s.typed
  /-- A sign-in is for an account id that was typed. -/
  outstandings : ∀ id out, s.channel.mOutstandings.lookup id = some out →
    ∀ accid ∈ U.userSignIn out.request, accid ∈ s.typed
  sent : SentFor s.typed s.channel.out
  /-- The pawn was spawned for the account id at that time. -/
  possessed : ∀ i ∈ s.scene.possessed, ∃ accid ∈ s.scene.pawns[i]?, accid = 0 ∨ accid ∈ s.typed

/-- More is sent. -/
theorem SentFor.append {typed : List UInt64} {out ms : List RpcMessage} (h : SentFor typed out)
    (hms : ∀ m ∈ ms, m.type = .request → typed = [] ∧ m.accid = 0 ∨ m.accid ∈ typed) :
    SentFor typed (out ++ ms) := by
  obtain ⟨before, after, rfl, hbefore, hafter⟩ := h
  by_cases ht : typed = []
  · -- nothing was typed, so no request has another account id than `0`
    subst ht
    refine ⟨before ++ after ++ ms, [], (List.append_nil _).symm, ?_, List.forall_mem_nil _⟩
    intro m hm hreq
    rcases List.mem_append.mp hm with hm | hm
    · rcases List.mem_append.mp hm with hm | hm
      · exact hbefore m hm hreq
      · exact absurd (hafter m hm hreq) List.not_mem_nil
    · exact (hms m hm hreq).elim And.right fun h => absurd h List.not_mem_nil
  · refine ⟨before, after ++ ms, List.append_assoc .., hbefore, fun m hm hreq => ?_⟩
    rcases List.mem_append.mp hm with hm | hm
    · exact hafter m hm hreq
    · exact (hms m hm hreq).resolve_left fun h => ht h.1

/-- More is typed. -/
theorem SentFor.mono {typed typed' : List UInt64} {out : List RpcMessage} (h : SentFor typed out)
    (ht : typed ⊆ typed') : SentFor typed' out := by
  obtain ⟨before, after, hout, hbefore, hafter⟩ := h
  exact ⟨before, after, hout, hbefore, fun m hm hreq => ht (hafter m hm hreq)⟩

namespace SignedIn

variable {U : UserMessages M Cmd} {s : Game M}

/-- A message of the server. -/
theorem received {p' : Peer M} (h : SignedIn U s) (hr : Received U s.channel p') :
    SignedIn U { s with channel := p' } where
  accid := by
    rcases hr.accid with heq | ⟨id, out, hl, hmem⟩
    · rw [heq]
      exact h.accid
    · exact .inr (h.outstandings id out hl _ hmem)
  outstandings := fun id out hl => h.outstandings id out (hr.outstandings id out hl)
  sent := by
    obtain ⟨responses, hout, hresponses⟩ := hr.out
    rw [hout]
    refine h.sent.append fun m hm hreq => ?_
    rw [hresponses m hm] at hreq
    cases hreq
  possessed := h.possessed

/-- A request of the client. -/
theorem send {P : Protobuf M D} [DecidableEq D] {g : Generated D} (h : SignedIn U s) {request : M}
    (hr : ∀ accid ∈ U.userSignIn request, accid ∈ s.typed) :
    SignedIn U { s with channel := s.channel.send P g (some request) } := by
  rw [Peer.send]
  split
  · exact h
  · rename_i info _
    refine ⟨h.accid, fun id out hl => ?_, ?_, h.possessed⟩
    · rw [sendRequest_mOutstandings] at hl
      by_cases hid : id = s.channel.mId + 1
      · subst hid
        rw [AList.lookup_insert, Option.some.injEq] at hl
        subst hl
        exact hr
      · rw [AList.lookup_insert_ne hid] at hl
        exact h.outstandings id out hl
    · rw [sendRequest_out]
      exact h.sent.append (List.forall_mem_singleton.mpr fun _ => h.accid)

/-- `onButtonTest` sets the account id, and sends it. -/
theorem onButtonTest {P : Protobuf M D} [DecidableEq D] {g : Generated D}
    {strtoui64 : String → UInt64} (hU : U.Lawful) (h : SignedIn U s) (text : String)
    (widgets mgrMessage : Bool) :
    SignedIn U (s.onButtonTest P g U strtoui64 text widgets mgrMessage) := by
  unfold Game.onButtonTest
  split
  · exact h
  · split
    · exact ⟨h.accid, h.outstandings, h.sent, h.possessed⟩
    · have hsub : s.typed ⊆ s.typed ++ [strtoui64 text] := List.subset_append_left ..
      have hlast : strtoui64 text ∈ s.typed ++ [strtoui64 text] := List.mem_concat_self
      have hset : SignedIn U { s with
          channel := { s.channel with mAccid := strtoui64 text }
          visible := s.visible - 1
          typed := s.typed ++ [strtoui64 text] } := by
        refine ⟨.inr hlast, fun id out hl accid ha => hsub (h.outstandings id out hl accid ha),
          h.sent.mono hsub, fun i hi => ?_⟩
        obtain ⟨accid, ha, hor⟩ := h.possessed i hi
        exact ⟨accid, ha, hor.imp_right fun hm => hsub hm⟩
      refine hset.send fun accid ha => ?_
      rw [hU.userSignIn_userSignInArg, Option.mem_some] at ha
      exact ha ▸ hlast

/-- `G2C_CreatePlayerPawn` possesses the pawn of the account id. -/
theorem createPlayerPawn {s' : Game M} {accid : UInt64} {found : Found} (h : SignedIn U s)
    (hs : s.createPlayerPawn accid found = some s') : SignedIn U s' := by
  have hspawned : SignedIn U
      { s with scene := { s.scene with pawns := s.scene.pawns ++ [accid] } } := by
    refine ⟨h.accid, h.outstandings, h.sent, fun i hi => ?_⟩
    obtain ⟨a, ha, hor⟩ := h.possessed i hi
    exact ⟨a, List.getElem?_append_left (List.getElem?_eq_some_iff.mp ha).1 ▸ ha, hor⟩
  unfold Game.createPlayerPawn at hs
  split at hs
  · cases hs
    exact h
  · split at hs
    · cases hs
      exact hspawned
    · rename_i haccid
      split at hs <;> cases hs
      unfold Game.changeApawn
      split
      · refine ⟨h.accid, h.outstandings, h.sent, fun i hi => ?_⟩
        rw [Option.mem_some] at hi
        subst hi
        refine ⟨accid, List.getElem?_concat_length, ?_⟩
        rw [not_not.mp haccid]
        exact h.accid.imp_left And.right
      · exact hspawned

/-- The handlers of `G2C_SceneService`. -/
theorem handleScene {s' : Game M} {found : Found} {request : SceneRequest} (h : SignedIn U s)
    (hs : s.handleScene found request = some s') : SignedIn U s' := by
  cases request with
  | enterScene =>
    cases hs
    exact ⟨h.accid, h.outstandings, h.sent, h.possessed⟩
  | createPlayerPawn accid => exact h.createPlayerPawn hs

/-- The pawns are gone with their level. -/
theorem beginPlay {P : Protobuf M D} [DecidableEq D] {g : Generated D} (hU : U.Lawful)
    (h : SignedIn U s) (gameMode : Bool) : SignedIn U (s.beginPlay P g U gameMode) := by
  have hopened : SignedIn U { s with scene := { gameMode := gameMode }, openLevel := false } :=
    ⟨h.accid, h.outstandings, h.sent, fun i hi => by cases hi⟩
  unfold Game.beginPlay
  split
  · refine hopened.send fun accid ha => ?_
    rw [hU.userSignIn_notifyLoadedSceneArg] at ha
    cases ha
  · exact hopened

end SignedIn

section

variable {P : Protobuf M D} [DecidableEq D] {g : Generated D} {U : UserMessages M Cmd}
  {strtoui64 : String → UInt64}

/-- **A step keeps whose account the client acts for.** -/
theorem signedIn_step (hU : U.Lawful) {s s' : Game M} {l : Game.Label Cmd} (h : SignedIn U s)
    (hs : s.step P g U strtoui64 l = some s') : SignedIn U s' := by
  cases l with
  | nativeConstruct =>
    cases hs
    exact ⟨h.accid, h.outstandings, h.sent, h.possessed⟩
  | onButtonTest text widgets mgrMessage =>
    simp only [Game.step, Option.ite_none_right_eq_some, Option.some.injEq] at hs
    exact hs.2 ▸ h.onButtonTest hU text widgets mgrMessage
  | onMessage data found =>
    obtain ⟨p', hp, hs⟩ := Option.bind_eq_some_iff.mp hs
    have hreceived := h.received (received_of_onMessage hp)
    split at hs
    · cases hs
      exact hreceived
    · exact hreceived.handleScene hs
  | beginPlay gameMode =>
    simp only [Game.step, Option.ite_none_right_eq_some, Option.some.injEq] at hs
    exact hs.2 ▸ h.beginPlay hU gameMode
  | syncMove cmd =>
    cases hs
    refine h.send fun accid ha => ?_
    rw [hU.userSignIn_moveStateArg] at ha
    cases ha

/-- A widget is constructed. -/
def Game.Label.constructs : Game.Label Cmd → Bool
  | .nativeConstruct => true
  | _ => false

/-- A widget signs in once: then it is hidden. -/
theorem length_typed_step {s s' : Game M} {l : Game.Label Cmd}
    (hs : s.step P g U strtoui64 l = some s') :
    s'.typed.length + s'.visible ≤ s.typed.length + s.visible + (if l.constructs then 1 else 0) := by
  have hscene : ∀ {s₁ s₂ : Game M} {found : Found} {request : SceneRequest},
      s₁.handleScene found request = some s₂ → s₂.typed = s₁.typed ∧ s₂.visible = s₁.visible := by
    intro s₁ s₂ found request h
    cases request with
    | enterScene =>
      cases h
      exact ⟨rfl, rfl⟩
    | createPlayerPawn accid =>
      simp only [Game.handleScene, Game.createPlayerPawn, Game.changeApawn] at h
      split_ifs at h <;> cases h <;> exact ⟨rfl, rfl⟩
  cases l with
  | nativeConstruct =>
    cases hs
    exact Nat.le_refl _
  | onButtonTest text widgets mgrMessage =>
    simp only [Game.step, Option.ite_none_right_eq_some, Option.some.injEq] at hs
    obtain ⟨hv, rfl⟩ := hs
    simp only [Game.onButtonTest, Game.Label.constructs, Bool.false_eq_true, if_false]
    split_ifs
    · exact Nat.le_refl _
    · -- hidden, although nothing is sent
      dsimp only
      omega
    · dsimp only
      rw [List.length_append, List.length_singleton]
      omega
  | onMessage data found =>
    obtain ⟨p', hp, hs⟩ := Option.bind_eq_some_iff.mp hs
    split at hs
    · cases hs
      exact Nat.le_add_right ..
    · obtain ⟨ht, hv⟩ := hscene hs
      rw [ht, hv]
      exact Nat.le_add_right ..
  | beginPlay gameMode =>
    simp only [Game.step, Option.ite_none_right_eq_some, Option.some.injEq] at hs
    obtain ⟨-, rfl⟩ := hs
    simp only [Game.beginPlay]
    split_ifs <;> exact Nat.le_add_right ..
  | syncMove cmd =>
    cases hs
    exact Nat.le_add_right ..

/-- **Whose account the client acts for**, in every run, whatever the server sends. The
account id is `0` until the user has typed one, and from then on one that was typed; so are
the account ids of the requests that the client sends. The pawn that a `G2C_CreatePlayerPawn`
had its controller possess was spawned for one of these. No more are typed than widgets are
constructed. -/
theorem signedIn_run (hU : U.Lawful) {d : UInt64} {ls : List (Game.Label Cmd)} {s : Game M}
    (h : run (Game.step P g U strtoui64) (.initial d) ls = some s) :
    (s.typed = [] ∧ s.channel.mAccid = 0 ∨ s.channel.mAccid ∈ s.typed) ∧
      SentFor s.typed s.channel.out ∧
      (∀ i ∈ s.scene.possessed, ∃ accid ∈ s.scene.pawns[i]?, accid = 0 ∨ accid ∈ s.typed) ∧
      s.typed.length ≤ ls.countP Game.Label.constructs := by
  have hstart : SignedIn U (.initial d : Game M) :=
    ⟨.inl ⟨rfl, rfl⟩, fun _ _ hl => (by simp [Game.initial] at hl),
      ⟨[], [], rfl, List.forall_mem_nil _, List.forall_mem_nil _⟩, fun _ hi => by cases hi⟩
  have hsigned : SignedIn U s :=
    run_invariant _ hstart (fun _ _ _ hs ha => signedIn_step hU hs ha) h
  have hcount : s.typed.length + s.visible ≤ ls.countP Game.Label.constructs := by
    have hzero : (.initial d : Game M).typed.length + (.initial d : Game M).visible ≤
        ([] : List (Game.Label Cmd)).countP Game.Label.constructs := Nat.le_refl 0
    refine run_history (Game.step P g U strtoui64)
      (I := fun ls s => s.typed.length + s.visible ≤ ls.countP Game.Label.constructs)
      hzero ?_ h
    intro ls s l s' _ hle ha
    have hstep := length_typed_step ha
    rw [List.countP_append, List.countP_singleton]
    omega
  exact ⟨hsigned.accid, hsigned.sent, hsigned.possessed, by omega⟩

end

/-! ### A game -/

namespace Player

/-- The messages, each with the fields that are used. -/
inductive Msg where
  | userSignInArg (accid : UInt64)
  | userSignInRes (allowSignIn : Bool)
  | notifyLoadedSceneArg (mapid : ℤ)
  | moveStateArg (guid : UInt64)
  | enterSceneArg
  | createPlayerPawnArg (accid : UInt64)
  | emptyResponse
  deriving DecidableEq

/-- Their descriptors. -/
inductive Desc where
  | userSignInArg
  | userSignInRes
  | notifyLoadedSceneArg
  | moveStateArg
  | enterSceneArg
  | createPlayerPawnArg
  | emptyResponse
  deriving DecidableEq

/-- `GetDescriptor()`. -/
def Msg.desc : Msg → Desc
  | userSignInArg _ => .userSignInArg
  | userSignInRes _ => .userSignInRes
  | notifyLoadedSceneArg _ => .notifyLoadedSceneArg
  | moveStateArg _ => .moveStateArg
  | enterSceneArg => .enterSceneArg
  | createPlayerPawnArg _ => .createPlayerPawnArg
  | emptyResponse => .emptyResponse

/-- The field of a message as a number; it is left out when it is `0`. -/
def Msg.field : Msg → UInt64
  | userSignInArg accid | moveStateArg accid | createPlayerPawnArg accid => accid
  | userSignInRes allowSignIn => if allowSignIn then 1 else 0
  | notifyLoadedSceneArg mapid => .ofInt mapid
  | enterSceneArg | emptyResponse => 0

/-- The message with this field. -/
def Desc.message (field : UInt64) : Desc → Msg
  | .userSignInArg => .userSignInArg field
  | .userSignInRes => .userSignInRes (field ≠ 0)
  | .notifyLoadedSceneArg => .notifyLoadedSceneArg field.toNat
  | .moveStateArg => .moveStateArg field
  | .enterSceneArg => .enterSceneArg
  | .createPlayerPawnArg => .createPlayerPawnArg field
  | .emptyResponse => .emptyResponse

/-- The messages, as the channel uses them. -/
def protobuf : Protobuf Msg Desc where
  getDescriptor := Msg.desc
  emptyResponse := .emptyResponse
  serializeAsString m := if m.field = 0 then [] else 8 :: Codec.uint64.encode m.field
  parseFromString desc bs :=
    match bs with
    | [] => (desc.message 0, true)
    | _ :: bs =>
      match Codec.uint64.decode bs with
      | some (field, []) => (desc.message field, true)
      | _ => (desc.message 0, false)
  serializeRpcMessage := SignIn.rpcMessage.encode
  parseRpcMessage := SignIn.protobuf.parseRpcMessage

/-- What the client builds and reads. -/
def userMessages : UserMessages Msg UInt64 where
  userSignInArg := .userSignInArg
  notifyLoadedSceneArg := .notifyLoadedSceneArg
  moveStateArg := .moveStateArg
  userSignIn
    | .userSignInArg accid => some accid
    | _ => none
  allowSignIn
    | .userSignInRes allowSignIn => allowSignIn
    | _ => false
  sceneRequest
    | .enterSceneArg => some .enterScene
    | .createPlayerPawnArg accid => some (.createPlayerPawn accid)
    | _ => none

theorem userMessages_lawful : userMessages.Lawful := ⟨fun _ => rfl, fun _ => rfl, fun _ => rfl⟩

/-- The services of the client. -/
def generated : Generated Desc where
  serviceTypeMin := 0
  serviceTypeMax := 4
  eServiceTypeIsValid := fun t => 0 ≤ t ∧ t ≤ 4
  eServiceTypeName := fun t =>
    if t = 1 then "C2A_UserService" else if t = 2 then "C2G_SceneService" else
    if t = 3 then "G2C_SceneService" else ""
  createService := fun typeName =>
    if typeName = "RPC::C2A_UserService_Stub" then some ⟨[⟨.userSignInArg, .userSignInRes⟩]⟩
    else if typeName = "RPC::C2G_SceneService_Stub" then
      some ⟨[⟨.notifyLoadedSceneArg, .emptyResponse⟩, ⟨.moveStateArg, .emptyResponse⟩]⟩
    else if typeName = "RPC::G2C_SceneService" then
      some ⟨[⟨.enterSceneArg, .emptyResponse⟩, ⟨.createPlayerPawnArg, .emptyResponse⟩]⟩
    else none

/-- The text in the box is `"7"`. -/
def strtoui64 (text : String) : UInt64 := if text = "7" then 7 else 0

/-- A message of the server. -/
def frame (m : RpcMessage) : Bytes := protobuf.serializeRpcMessage m

/-- A request of the server for the method of `G2C_SceneService`. -/
def request (id : UInt64) (method : ℤ) (m : Msg) : Game.Label UInt64 :=
  .onMessage (frame
    { type := .request
      id := id
      service := 3
      method := method
      request := protobuf.serializeAsString m }) {}

/-- The user signs in as `7`, is let in, and enters the scene; the server asks for the pawn of
player `5` and for the user's own, and the user moves. -/
def enter : List (Game.Label UInt64) :=
  [.beginPlay true, .nativeConstruct, .onButtonTest "7" true true,
    .onMessage (frame { type := .response, id := 2, response := [8, 1] }) {},
    request 1 0 .enterSceneArg, .beginPlay true, request 2 1 (.createPlayerPawnArg 5),
    request 3 1 (.createPlayerPawnArg 7), .syncMove id]

end Player

open Player in
/-- The user's own pawn is possessed, and what was sent before the sign-in carries `0`. -/
theorem signedIn_run_enter :
    ∃ s, run (Game.step protobuf generated userMessages strtoui64) (.initial 0) enter = some s ∧
      s.scene = ⟨true, [5, 7], some 1⟩ ∧ s.channel.out.map (·.accid) = [0, 7, 7, 7] ∧
      (s.typed = [] ∧ s.channel.mAccid = 0 ∨ s.channel.mAccid ∈ s.typed) ∧
      SentFor s.typed s.channel.out ∧
      (∀ i ∈ s.scene.possessed, ∃ accid ∈ s.scene.pawns[i]?, accid = 0 ∨ accid ∈ s.typed) ∧
      s.typed.length ≤ enter.countP Game.Label.constructs := by
  have hrun : (run (Game.step protobuf generated userMessages strtoui64) (.initial 0) enter).map
      (fun s => (s.scene, s.channel.out.map (·.accid))) =
        some (⟨true, [5, 7], some 1⟩, [0, 7, 7, 7]) := by decide +kernel
  obtain ⟨s, hs, h⟩ := Option.map_eq_some_iff.mp hrun
  rw [Prod.mk.injEq] at h
  exact ⟨s, hs, h.1, h.2, signedIn_run userMessages_lawful hs⟩

end ThirdPersonMP.System
