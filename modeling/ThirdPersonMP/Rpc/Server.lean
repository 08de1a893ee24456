import ThirdPersonMP.Library.Indexed
import ThirdPersonMP.Rpc.Peers

/-!
# The serving side

A reply to a request is sent in three places: `funcErrorCode` sends one when the request
cannot be dispatched, `serviceHandleRequestMsg` after a handler that has not set `bDelay`,
and `DoDelayResponse` whenever the user's code calls it. `Server` is a peer with a history
that says which request each reply is of: the ids that `NewDelayResponse` gives out belong
to the call whose handler asked for them.

No step of the peer reads that history (`Server.step_peer`). `Server.Acted` and
`Server.Handled` are what a call of the user's code and a message can do to the two.

`addressed_run` — in every run, the replies to a request are addressed to the requester
exactly when its method was called: `funcErrorCode` sets neither `accid` nor `from` nor
`to`.
-/

namespace ThirdPersonMP.Rpc

open Base Library

variable {M D : Type*}

/-! ### Requests and their replies -/

/-- A request that `serviceHandleRequestMsg` has got. -/
structure Call where
  /-- The request. -/
  message : RpcMessage
  /-- `CallMethod` was called, and the handler has set `bDelay`. -/
  delayed : Bool := false
  /-- `DoDelayResponse` was called with the id of its delay. -/
  triggered : Bool := false
  /-- The replies to it. -/
  replies : List RpcMessage := []

/-- The call gets replies. -/
def Call.reply (replies : List RpcMessage) (call : Call) : Call :=
  { call with replies := call.replies ++ replies }

/-- `DoDelayResponse` is called for the call, and sends these replies. -/
def Call.trigger (replies : List RpcMessage) (call : Call) : Call :=
  { call with triggered := true, replies := call.replies ++ replies }

/-- A peer, and whose its replies are: a history that no step of the peer reads. -/
structure Server (M : Type*) where
  peer : Peer M
  /-- The requests so far. -/
  calls : List Call := []
  /-- The ids that `NewDelayResponse` has given out, the latest first, each with the number
  of the request whose handler asked for it, if a handler did. -/
  delays : List (UInt64 × Option ℕ) := []

namespace Server

/-- Before the first step. -/
def initial (d : UInt64) : Server M := { peer := { mDelayResponseId := d } }

/-- The request with this number. -/
def request (s : Server M) (n : ℕ) : Option RpcMessage := s.calls[n]?.map Call.message

/-- The number of the request that a delay id is of. -/
def owner (s : Server M) (x : UInt64) : Option ℕ := (s.delays.lookup x).join

/-- `DoDelayResponse(x)` has left the peer as `p`. -/
def trigger (s : Server M) (x : UInt64) (p : Peer M) : Server M :=
  match s.owner x with
  | none => { s with peer := p }
  | some n =>
    { s with
      peer := p
      calls := s.calls.modify n (Call.trigger (p.out.drop s.peer.out.length)) }

section

variable (P : Protobuf M D) [DecidableEq D] (g : Generated D)

/-- A call of the user's code has left the peer as `p`; `current` is the number of the
request whose handler makes the call. -/
def record (s : Server M) (current : Option ℕ) (p : Peer M) : Act M → Server M
  | .newDelayResponse _ =>
    { s with peer := p, delays := (p.mDelayResponseId, current) :: s.delays }
  | .doDelayResponse x => s.trigger x p
  | _ => { s with peer := p }

/-- A call of the user's code. -/
def act (current : Option ℕ) (s : Server M) (a : Act M) : Option (Server M) :=
  (s.peer.act P g a).map fun p => s.record current p a

/-- `CallMethod` is called. -/
def called (s : Server M) (p : Peer M) (message : RpcMessage) (bDelay : Bool) : Server M :=
  { s with peer := p, calls := s.calls ++ [{ message := message, delayed := bDelay }] }

/-- The request with number `n` gets the replies that were sent on the way to `p`. -/
def replied (s : Server M) (n : ℕ) (p : Peer M) : Server M :=
  { s with
    peer := p
    calls := s.calls.modify n (Call.reply (p.out.drop s.peer.out.length)) }

/-- `serviceHandleRequestMsg`. -/
def serviceHandleRequestMsg (s : Server M) (message : RpcMessage) (handler : Handler M) :
    Option (Server M) :=
  match s.peer.serviceEnterMethod P g message with
  | none => none
  | some (p, none) => some ((s.called s.peer message false).replied s.calls.length p)
  | some (p, some method) =>
    (run (act P g (some s.calls.length)) (s.called p message handler.bDelay) handler.acts).bind
      fun s' => (s'.peer.serviceLeaveMethod P message method handler).map
        (s'.replied s.calls.length)

/-- What `OnMessage` does with the message it has parsed. -/
def handleMessage (s : Server M) (message : RpcMessage) (handler : Handler M)
    (callback : List (Act M)) : Option (Server M) :=
  match message.type with
  | .response =>
    match s.peer.stubHandleResponseMsg P g message with
    | none => none
    | some (p, false) => some { s with peer := p }
    | some (p, true) => run (act P g none) { s with peer := p } callback
  | .request => s.serviceHandleRequestMsg P g message handler
  | .other _ => some s

/-- A step of the serving side. -/
def step (s : Server M) : Label M → Option (Server M)
  | .act a => s.act P g none a
  | .onMessage data handler callback =>
    s.handleMessage P g (P.parseRpcMessage data).1 handler callback

end

/-! ### The history is a history -/

section

variable {P : Protobuf M D} [DecidableEq D] {g : Generated D} {s s' : Server M}

theorem record_peer (current : Option ℕ) (p : Peer M) (a : Act M) :
    (s.record current p a).peer = p := by
  cases a with
  | doDelayResponse x =>
    rw [record, trigger]
    split <;> rfl
  | _ => rfl

theorem act_peer (current : Option ℕ) (s : Server M) (a : Act M) :
    (s.act P g current a).map Server.peer = s.peer.act P g a := by
  rw [act, Option.map_map]
  exact (Option.map_congr fun p _ => record_peer current p a).trans Option.map_id'

/-- **A step of the peer**, whatever the history. -/
theorem step_peer (s : Server M) (l : Label M) :
    (s.step P g l).map Server.peer = s.peer.step P g l := by
  cases l with
  | act a => exact act_peer none s a
  | onMessage data handler callback =>
    rw [step, Peer.step, Peer.onMessage]
    generalize (P.parseRpcMessage data).1 = message
    cases ht : message.type with
    | other value => simp only [handleMessage, Peer.handleMessage, ht, Option.map_some]
    | response =>
      simp only [handleMessage, Peer.handleMessage, ht]
      rcases s.peer.stubHandleResponseMsg P g message with _ | ⟨p, _ | _⟩
      · rfl
      · rfl
      · exact run_map (act_peer none) _ _
    | request =>
      simp only [handleMessage, Peer.handleMessage, ht, serviceHandleRequestMsg,
        Peer.serviceHandleRequestMsg]
      rcases s.peer.serviceEnterMethod P g message with _ | ⟨p, _ | method⟩
      · rfl
      · rfl
      · have hrun := run_map (@act_peer _ _ P _ g (some s.calls.length))
          (s.called p message handler.bDelay) handler.acts
        rw [called] at hrun
        simp only [called, ← hrun, Option.bind_map, Option.map_bind]
        refine Option.bind_congr fun s' _ => ?_
        rw [Function.comp_apply, Function.comp_apply, Option.map_map]
        exact Option.map_id'

end

/-! ### What a step can do -/

/-- A call delays no response and sends none. -/
structure Still (p p' : Peer M) : Prop where
  mDelayResponse : p'.mDelayResponse = p.mDelayResponse
  mDelayResponseId : p'.mDelayResponseId = p.mDelayResponseId
  out : p'.out.filter (·.type = .response) = p.out.filter (·.type = .response)

theorem Still.refl (p : Peer M) : Still p p := ⟨rfl, rfl, rfl⟩

section

variable (P : Protobuf M D) [DecidableEq D] (g : Generated D)

/-- What a call of the user's code can do. -/
inductive Acted (current : Option ℕ) (s : Server M) : Act M → Server M → Prop
  | still {a : Act M} {p : Peer M} (ha : a.delays = none) (h : Still s.peer p) :
      Acted current s a { s with peer := p }
  | newDelayResponse (args : SRpcChannelMethodArgs) :
      Acted current s (.newDelayResponse args)
        { s with
          peer := s.peer.newDelayResponse args
          delays := (s.peer.mDelayResponseId + 1, current) :: s.delays }
  | fill {x : UInt64} {e : SDelayResponse M} {response : Option M}
      (hx : s.peer.mDelayResponse.lookup x = some e) :
      Acted current s (.fill x response)
        { s with peer :=
          { s.peer with
            mDelayResponse := s.peer.mDelayResponse.insert x { e with response := response } } }
  | doDelayResponse (x : UInt64) :
      Acted current s (.doDelayResponse x) (s.trigger x (s.peer.doDelayResponse P x))

/-- The method of the request is called: its service is registered, it is a method of the
service, and its body parses. -/
def CallsMethod (message : RpcMessage) : Prop :=
  ∃ method, Finds g message.service message.method method ∧
    (P.parseFromString method.requestPrototype message.request).2 = true

/-- What a message can do. -/
inductive Handled (s : Server M) (message : RpcMessage) (handler : Handler M)
    (callback : List (Act M)) : Server M → Prop
  | still {p : Peer M} (ht : message.type ≠ .request) (h : Still s.peer p) :
      Handled s message handler callback { s with peer := p }
  | callback {p : Peer M} {s' : Server M} (ht : message.type = .response) (h : Still s.peer p)
      (hc : s.peer.stubHandleResponseMsg P g message = some (p, true))
      (ha : run (act P g none) { s with peer := p } callback = some s') :
      Handled s message handler callback s'
  | refused {errorCode : ErrorCode} (ht : message.type = .request) (he : errorCode ≠ .noError)
      (hno : ¬ CallsMethod P g message) :
      Handled s message handler callback ((s.called s.peer message false).replied s.calls.length
        (s.peer.funcErrorCode message errorCode))
  | method {request : M} {method : MethodDescriptor D} {s' : Server M} {p : Peer M}
      (ht : message.type = .request) (hm : Finds g message.service message.method method)
      (hp : P.parseFromString method.requestPrototype message.request = (request, true))
      (ha : run (act P g (some s.calls.length))
        (s.called (s.peer.called message request) message handler.bDelay) handler.acts = some s')
      (hl : s'.peer.serviceLeaveMethod P message method handler = some p) :
      Handled s message handler callback (s'.replied s.calls.length p)

variable {P g} {s s' : Server M}

/-- The inversion of `act`. -/
theorem Acted.of_act {current : Option ℕ} {a : Act M} (h : s.act P g current a = some s') :
    Acted P current s a s' := by
  obtain ⟨p, hp, rfl⟩ := Option.map_eq_some_iff.mp h
  cases a with
  | send request =>
    refine .still rfl ?_
    cases ActStep.of_act hp with
    | send hi => exact ⟨rfl, rfl, by simp⟩
    | noSend hr => exact .refl _
  | newDelayResponse args =>
    cases hp
    exact .newDelayResponse args
  | fill x response =>
    cases ActStep.of_act hp with
    | fill hx => exact .fill hx
  | doDelayResponse x =>
    cases hp
    exact .doDelayResponse x
  | setAccid accid =>
    cases hp
    exact .still rfl ⟨rfl, rfl, rfl⟩

/-- The inversion of `handleMessage`. -/
theorem Handled.of_handleMessage {message : RpcMessage} {handler : Handler M}
    {callback : List (Act M)} (h : s.handleMessage P g message handler callback = some s') :
    Handled P g s message handler callback s' := by
  have hne : message.type = .response → message.type ≠ .request := fun ht => by simp [ht]
  unfold handleMessage at h
  split at h
  · rename_i ht
    split at h
    · cases h
    · rename_i p hstub
      cases h
      refine .still (hne ht) ?_
      unfold Peer.stubHandleResponseMsg at hstub
      split at hstub
      · cases hstub
        exact .refl _
      · split at hstub
        · cases hstub
          exact .refl _
        · split at hstub
          · cases hstub
          · cases hstub
            exact ⟨rfl, rfl, rfl⟩
          · split at hstub <;> cases hstub
    · rename_i p hstub
      refine .callback ht ?_ hstub h
      obtain ⟨out, method, -, -, -, rfl⟩ := stubHandleResponseMsg_eq_some hstub
      exact ⟨rfl, rfl, rfl⟩
  · rename_i ht
    unfold serviceHandleRequestMsg at h
    split at h
    · cases h
    · rename_i p henter
      cases h
      unfold Peer.serviceEnterMethod at henter
      split at henter
      · cases henter
      · rename_i hs
        cases henter
        refine .refused ht (by decide) ?_
        rintro ⟨method, ⟨service, hs', -⟩, -⟩
        rw [hs] at hs'
        cases hs'
      · rename_i service hs
        split at henter
        · cases henter
        · rename_i method hm
          split at henter <;> cases henter
          rename_i hp
          refine .refused ht (by decide) ?_
          rintro ⟨method', hm', hp'⟩
          rw [← Finds.unique ⟨service, hs, hm⟩ hm', hp] at hp'
          cases hp'
    · rename_i p method henter
      obtain ⟨request, hm, hp, rfl⟩ := serviceEnterMethod_eq_some henter
      obtain ⟨s₁, ha, hl⟩ := Option.bind_eq_some_iff.mp h
      obtain ⟨p, hleave, rfl⟩ := Option.map_eq_some_iff.mp hl
      exact .method ht hm hp ha hleave
  · rename_i ht
    cases h
    exact .still (by simp [ht]) (.refl _)

end

end Server

/-! ### What is sent -/

/-- The arguments of the call that a request makes. -/
def RpcMessage.args (message : RpcMessage) : SRpcChannelMethodArgs :=
  ⟨message.from_, message.id, message.accid⟩

/-- The arguments that `NewDelayResponse` has stored. -/
def SDelayResponse.args (e : SDelayResponse M) : SRpcChannelMethodArgs :=
  ⟨e.from_, e.msgId, e.accid⟩

/-- A reply is addressed to who made the call. -/
structure Addressed (args : SRpcChannelMethodArgs) (reply : RpcMessage) : Prop where
  id : reply.id = args.msgId
  accid : reply.accid = args.accid
  to_ : reply.to_ = args.from_
  from_ : reply.from_ = .client

/-- On the way from `p` to `p'`, this many responses are sent, addressed to who made the
call, and nothing else. -/
def Responds (p p' : Peer M) (count : ℕ) (args : SRpcChannelMethodArgs) : Prop :=
  ∃ new, p'.out = p.out ++ new ∧ new.length = count ∧
    ∀ reply ∈ new, reply.type = .response ∧ Addressed args reply

section

variable {P : Protobuf M D} {p p' : Peer M}

theorem Responds.refl {args : SRpcChannelMethodArgs} : Responds p p 0 args :=
  ⟨[], (List.append_nil _).symm, rfl, by simp⟩

/-- `RpcChannel::DoneCallback` sends the response, if there is one. -/
theorem responds_doneCallback (response : Option M) (id accid : UInt64) (from_ : EServerType) :
    Responds p (p.doneCallback P response id accid from_) response.toList.length
      ⟨from_, id, accid⟩ := by
  cases response with
  | none => exact .refl
  | some response => exact ⟨[_], rfl, rfl, by simpa using ⟨rfl, rfl, rfl, rfl⟩⟩

/-- `DoDelayResponse` of an id that is not in the table. -/
theorem doDelayResponse_of_none {x : UInt64} (hx : p.mDelayResponse.lookup x = none) :
    p.doDelayResponse P x = p := by
  rw [Peer.doDelayResponse, hx]

/-- `DoDelayResponse` of one that is. -/
theorem responds_doDelayResponse {x : UInt64} {e : SDelayResponse M}
    (hx : p.mDelayResponse.lookup x = some e) :
    Responds p (p.doDelayResponse P x) e.response.toList.length e.args := by
  rw [Peer.doDelayResponse, hx]
  exact responds_doneCallback e.response e.msgId e.accid e.from_

theorem doneCallback_table (response : Option M) (id accid : UInt64) (from_ : EServerType) :
    (p.doneCallback P response id accid from_).mDelayResponse = p.mDelayResponse ∧
      (p.doneCallback P response id accid from_).mDelayResponseId = p.mDelayResponseId := by
  cases response <;> exact ⟨rfl, rfl⟩

/-- The table after `DoDelayResponse`: the other entries are as they were. -/
theorem doDelayResponse_table (p : Peer M) (x : UInt64) :
    (p.doDelayResponse P x).mDelayResponse.lookup x = none ∧
      (∀ y, y ≠ x →
        (p.doDelayResponse P x).mDelayResponse.lookup y = p.mDelayResponse.lookup y) ∧
      (p.doDelayResponse P x).mDelayResponseId = p.mDelayResponseId := by
  cases hx : p.mDelayResponse.lookup x with
  | none =>
    rw [doDelayResponse_of_none hx]
    exact ⟨hx, fun _ _ => rfl, rfl⟩
  | some e =>
    simp only [Peer.doDelayResponse, hx]
    rw [(doneCallback_table _ _ _ _).1, (doneCallback_table _ _ _ _).2]
    exact ⟨AList.lookup_erase _ _, fun y hy => AList.lookup_erase_ne hy, rfl⟩

/-- What is sent after `CallMethod`. -/
theorem responds_serviceLeaveMethod [DecidableEq D] {message : RpcMessage}
    {method : MethodDescriptor D} {handler : Handler M}
    (h : p.serviceLeaveMethod P message method handler = some p') :
    Responds p p' (if method.responsePrototype = P.emptyResponse ∨ handler.bDelay then 0 else 1)
        message.args ∧
      p'.mDelayResponse = p.mDelayResponse ∧ p'.mDelayResponseId = p.mDelayResponseId := by
  unfold Peer.serviceLeaveMethod at h
  split at h
  · rename_i hn
    cases h
    rw [if_pos hn]
    exact ⟨.refl, rfl, rfl⟩
  · rename_i hn
    split at h <;> cases h
    rw [if_neg hn]
    exact ⟨responds_doneCallback _ _ _ _, doneCallback_table _ _ _ _⟩

end

/-! ### Where replies go -/

section

variable (P : Protobuf M D) [DecidableEq D] (g : Generated D)

/-- The replies to a request, so far. -/
structure Call.Routed (call : Call) : Prop where
  reply : ∀ reply ∈ call.replies, reply.type = .response ∧ reply.id = call.message.id
  /-- The method was called: they are addressed to the requester. -/
  addressed : Server.CallsMethod P g call.message →
    ∀ reply ∈ call.replies, Addressed call.message.args reply
  /-- The method was not called: one was sent, and is not. -/
  refused : ¬ Server.CallsMethod P g call.message →
    ∃ reply ∈ call.replies, ¬ Addressed call.message.args reply

variable {P g}

/-- More replies, to the requester. -/
theorem Call.Routed.more {call call' : Call} {new : List RpcMessage} (h : call.Routed P g)
    (hm : call'.message = call.message) (hr : call'.replies = call.replies ++ new)
    (hnew : ∀ reply ∈ new, reply.type = .response ∧ Addressed call.message.args reply) :
    call'.Routed P g := by
  constructor
  · intro reply hmem
    rw [hr, List.mem_append] at hmem
    rw [hm]
    exact hmem.elim (h.reply reply) fun hmem => ⟨(hnew reply hmem).1, (hnew reply hmem).2.id⟩
  · intro hc reply hmem
    rw [hr, List.mem_append] at hmem
    rw [hm] at hc ⊢
    exact hmem.elim (h.addressed hc reply) fun hmem => (hnew reply hmem).2
  · intro hno
    rw [hm] at hno
    obtain ⟨reply, hmem, hnot⟩ := h.refused hno
    rw [hm, hr]
    exact ⟨reply, List.mem_append_left _ hmem, hnot⟩

namespace Server

variable {s s' : Server M} {n : ℕ} {p : Peer M} {message : RpcMessage}

/-- What the calls hold that `f` does not change. -/
theorem map_modify {β : Type*} {k : Call → β} {f : Call → Call} (hf : ∀ call, k (f call) = k call)
    (calls : List Call) (m : ℕ) : (calls.modify n f)[m]?.map k = calls[m]?.map k := by
  rw [List.getElem?_modify, Option.map_eq_map, Option.map_map]
  refine Option.map_congr fun call _ => ?_
  rw [Function.comp_apply]
  split
  · exact hf call
  · rfl

theorem request_replied (p : Peer M) (m : ℕ) : (s.replied n p).request m = s.request m :=
  map_modify (f := Call.reply _) (fun _ => rfl) s.calls m

theorem request_called (p : Peer M) (message : RpcMessage) (bDelay : Bool) {m : ℕ}
    {message' : RpcMessage} (h : s.request m = some message') :
    (s.called p message bDelay).request m = some message' := by
  obtain ⟨call, hcall, hm⟩ := Option.map_eq_some_iff.mp h
  exact Option.map_eq_some_iff.mpr ⟨call, getElem?_concat_eq_some.mpr (.inl hcall), hm⟩

/-- The request whose method is called is the last. -/
theorem getElem?_called_length (p : Peer M) (message : RpcMessage) (bDelay : Bool) :
    (s.called p message bDelay).calls[s.calls.length]? =
      some { message := message, delayed := bDelay } :=
  getElem?_concat_eq_some.mpr (.inr ⟨rfl, rfl⟩)

theorem request_called_length (p : Peer M) (message : RpcMessage) (bDelay : Bool) :
    (s.called p message bDelay).request s.calls.length = some message :=
  Option.map_eq_some_iff.mpr ⟨_, getElem?_called_length p message bDelay, rfl⟩

omit [DecidableEq D] in
/-- A call of the user's code alters no request: what `DoDelayResponse` does not change. -/
theorem Acted.map {β : Type*} {k : Call → β}
    (hk : ∀ replies call, k (Call.trigger replies call) = k call) {current : Option ℕ} {a : Act M}
    (h : Acted P current s a s') (m : ℕ) : s'.calls[m]?.map k = s.calls[m]?.map k := by
  cases h with
  | doDelayResponse x =>
    unfold trigger
    split
    · rfl
    · exact map_modify (hk _) s.calls m
  | still | newDelayResponse | fill => rfl

omit [DecidableEq D] in
theorem Acted.request {current : Option ℕ} {a : Act M} (h : Acted P current s a s') (m : ℕ) :
    s'.request m = s.request m :=
  h.map (fun _ _ => rfl) m

/-- Neither do the calls of a handler or a callback. -/
theorem acts_map {β : Type*} {k : Call → β}
    (hk : ∀ replies call, k (Call.trigger replies call) = k call) {current : Option ℕ}
    {acts : List (Act M)} (ha : run (act P g current) s acts = some s') (m : ℕ) :
    s'.calls[m]?.map k = s.calls[m]?.map k := by
  refine run_invariant (act P g current) (I := fun s₁ => s₁.calls[m]?.map k = s.calls[m]?.map k)
    rfl ?_ ha
  exact fun s₁ a s₂ h hs => ((Acted.of_act hs).map hk m).trans h

variable (P g) in
/-- Where the replies go, and where those go that are still to come. -/
structure Routed (s : Server M) : Prop where
  /-- A delayed response is stored with the arguments of its request. -/
  table : ∀ x e n, s.peer.mDelayResponse.lookup x = some e → s.owner x = some n →
    ∃ message, s.request n = some message ∧ e.args = message.args
  calls : ∀ call ∈ s.calls, call.Routed P g

/-- The owner of a delay id, when another is given out. -/
theorem owner_cons (s : Server M) (p : Peer M) (x y : UInt64) (c : Option ℕ) :
    ({ s with peer := p, delays := (x, c) :: s.delays } : Server M).owner y =
      if y = x then c else s.owner y := by
  rw [owner, owner, List.lookup_cons]
  by_cases h : y = x
  · rw [if_pos h, beq_iff_eq.mpr h, Option.join_some]
  · rw [if_neg h, beq_eq_false_iff_ne.mpr h]

theorem owner_trigger (x y : UInt64) (p : Peer M) : (s.trigger x p).owner y = s.owner y := by
  unfold trigger
  split <;> rfl

namespace Routed

theorem initial (d : UInt64) : Routed P g (.initial d : Server M) :=
  ⟨by simp [Server.initial], by simp [Server.initial]⟩

/-- The replies to a request, when `DoneCallback` has sent some more to the requester. -/
theorem responds (h : Routed P g s) {p : Peer M} {count : ℕ} {f : Call → Call}
    (hf : ∀ call, (f call).message = call.message ∧
      (f call).replies = call.replies ++ p.out.drop s.peer.out.length)
    (hn : s.request n = some message) (hr : Responds s.peer p count message.args) :
    ∀ call ∈ s.calls.modify n f, call.Routed P g := by
  obtain ⟨new, hout, -, hnew⟩ := hr
  refine forall_mem_modify h.calls fun call hcall => ?_
  have hm : call.message = message := by
    rw [request, hcall, Option.map_some, Option.some.injEq] at hn
    exact hn
  refine (h.calls call (List.mem_of_getElem? hcall)).more (hf call).1 (hf call).2 ?_
  rw [hout, List.drop_left, hm]
  exact hnew

theorem still (h : Routed P g s) {p : Peer M} (hs : Still s.peer p) :
    Routed P g { s with peer := p } :=
  ⟨by rw [hs.mDelayResponse]; exact h.table, h.calls⟩

/-- A call of the user's code: a handler calls `NewDelayResponse` with the arguments of
its own call. -/
theorem acted (h : Routed P g s) {current : Option ℕ} {a : Act M} (ha : Acted P current s a s')
    (hargs : ∀ args ∈ a.delays, ∀ n ∈ current,
      ∃ message, s.request n = some message ∧ args = message.args) : Routed P g s' := by
  cases ha with
  | still ha hs => exact h.still hs
  | newDelayResponse args =>
    refine ⟨fun y e n hl ho => ?_, h.calls⟩
    rw [owner_cons] at ho
    by_cases hy : y = s.peer.mDelayResponseId + 1
    · rw [if_pos hy] at ho
      subst hy
      rw [Peer.newDelayResponse, AList.lookup_insert, Option.some.injEq] at hl
      subst hl
      exact hargs args rfl n ho
    · rw [if_neg hy] at ho
      rw [Peer.newDelayResponse, AList.lookup_insert_ne hy] at hl
      exact h.table y e n hl ho
  | @fill x e response hx =>
    refine ⟨fun y e' n hl ho => ?_, h.calls⟩
    by_cases hy : y = x
    · subst hy
      rw [AList.lookup_insert, Option.some.injEq] at hl
      subst hl
      exact h.table y e n hx ho
    · rw [AList.lookup_insert_ne hy] at hl
      exact h.table y e' n hl ho
  | doDelayResponse x =>
    obtain ⟨hnone, hsame, -⟩ := doDelayResponse_table (P := P) s.peer x
    constructor
    · intro y e n hl ho
      rw [trigger] at hl
      rw [owner_trigger] at ho
      have ha : Acted P current s (.doDelayResponse x) (s.trigger x (s.peer.doDelayResponse P x)) :=
        .doDelayResponse x
      rw [ha.request n]
      have hl : (s.peer.doDelayResponse P x).mDelayResponse.lookup y = some e := by
        split at hl <;> exact hl
      have hy : y ≠ x := by
        rintro rfl
        rw [hnone] at hl
        cases hl
      rw [hsame y hy] at hl
      exact h.table y e n hl ho
    · unfold trigger
      split
      · exact h.calls
      · rename_i n hn
        cases hx : s.peer.mDelayResponse.lookup x with
        | none =>
          rw [doDelayResponse_of_none hx]
          refine forall_mem_modify h.calls fun call hcall => ?_
          exact (h.calls call (List.mem_of_getElem? hcall)).more rfl rfl (by simp)
        | some e =>
          obtain ⟨message, hm, hargs⟩ := h.table x e n hx hn
          have hr := responds_doDelayResponse (P := P) hx
          rw [hargs] at hr
          exact h.responds (fun _ => ⟨rfl, rfl⟩) hm hr

/-- The calls of a handler or a callback. -/
theorem acts (h : Routed P g s) {current : Option ℕ} {acts : List (Act M)} (message : RpcMessage)
    (hn : ∀ n ∈ current, s.request n = some message ∧
      ∀ a ∈ acts, ∀ args ∈ a.delays, args = message.args)
    (ha : run (act P g current) s acts = some s') :
    Routed P g s' ∧ ∀ m, s'.request m = s.request m := by
  have hargs : ∀ a ∈ acts, ∀ n ∈ current, ∀ args ∈ a.delays, args = message.args :=
    fun a ha n hc => (hn n hc).2 a ha
  refine run_invariant_of_eachStep (act P g current)
    (I := fun s₁ => Routed P g s₁ ∧ ∀ m, s₁.request m = s.request m) ⟨h, fun _ => rfl⟩ ?_
    (eachStep_of_forall hargs) ha
  rintro s₁ a s₂ ⟨h₁, hreq⟩ hargs hs
  have hs := Acted.of_act hs
  refine ⟨h₁.acted hs fun args hmem n hc => ?_, fun m => (hs.request m).trans (hreq m)⟩
  exact ⟨message, (hreq n).trans (hn n hc).1, hargs n hc args hmem⟩

/-- `CallMethod` is called. -/
theorem called (h : Routed P g s) {p : Peer M} (hs : Still s.peer p)
    (hc : CallsMethod P g message) (bDelay : Bool) : Routed P g (s.called p message bDelay) := by
  constructor
  · intro x e n hl ho
    obtain ⟨message', hm, hargs⟩ := (h.still hs).table x e n hl ho
    exact ⟨message', request_called p message bDelay hm, hargs⟩
  · intro call hcall
    rcases List.mem_append.mp hcall with hcall | hcall
    · exact h.calls call hcall
    · rw [List.mem_singleton] at hcall
      subst hcall
      exact ⟨by simp, fun _ => by simp, fun hno => absurd hc hno⟩

/-- A request that is answered with an error. -/
theorem refused (h : Routed P g s) {errorCode : ErrorCode} (he : errorCode ≠ .noError)
    (hno : ¬ CallsMethod P g message) :
    Routed P g ((s.called s.peer message false).replied s.calls.length
      (s.peer.funcErrorCode message errorCode)) := by
  rw [funcErrorCode_of_ne _ he]
  constructor
  · intro x e n hl ho
    obtain ⟨message', hm, hargs⟩ := h.table x e n hl ho
    exact ⟨message', (request_replied _ n).trans (request_called _ message false hm), hargs⟩
  · have hcalls : ((s.called s.peer message false).replied s.calls.length
        (s.peer.sendMessage { type := .response, id := message.id, error := errorCode })).calls =
        s.calls ++ [
          { message := message
            replies := [{ type := .response, id := message.id, error := errorCode }] }] := by
      simp only [Server.called, replied, modify_concat, Call.reply, Peer.sendMessage,
        List.drop_left, List.nil_append]
    rw [hcalls]
    intro call hcall
    rcases List.mem_append.mp hcall with hcall | hcall
    · exact h.calls call hcall
    · rw [List.mem_singleton] at hcall
      subst hcall
      refine ⟨by simp, fun hc => absurd hc hno, fun _ => ?_⟩
      -- `from` is not set
      exact ⟨_, List.mem_singleton_self _, fun haddr => EServerType.noConfusion haddr.from_⟩

/-- A message. -/
theorem handled (h : Routed P g s) {handler : Handler M} {callback : List (Act M)}
    (hs : Handled P g s message handler callback s')
    (hargs : message.type = .request → ∀ a ∈ handler.acts, ∀ args ∈ a.delays,
      args = message.args) : Routed P g s' := by
  cases hs with
  | still ht hs => exact h.still hs
  | callback ht hs hc ha => exact ((h.still hs).acts message (by simp) ha).1
  | refused ht he hno => exact h.refused he hno
  | @method request method s₁ p ht hm hp ha hl =>
    have hcalls : CallsMethod P g message := ⟨method, hm, by rw [hp]⟩
    have hcalled := h.called (p := s.peer.called message request) ⟨rfl, rfl, rfl⟩ hcalls
      handler.bDelay
    have hlength := request_called_length (s := s) (s.peer.called message request) message
      handler.bDelay
    obtain ⟨hrouted, hreq⟩ := hcalled.acts message
      (fun n hn => by cases hn; exact ⟨hlength, hargs ht⟩) ha
    obtain ⟨hr, htable, -⟩ := responds_serviceLeaveMethod hl
    refine ⟨fun x e n hx ho => ?_, hrouted.responds (fun _ => ⟨rfl, rfl⟩)
      ((hreq _).trans hlength) hr⟩
    rw [request_replied]
    rw [replied, htable] at hx
    exact hrouted.table x e n hx ho

end Routed

end Server

end

/-! ### Runs -/

section

variable (P : Protobuf M D) [DecidableEq D] (g : Generated D)

/-- A handler calls `NewDelayResponse` with the arguments of its own call. -/
def OwnArgs : Label M → Prop
  | .act _ => True
  | .onMessage data handler _ => (P.parseRpcMessage data).1.type = .request →
    ∀ a ∈ handler.acts, ∀ args ∈ a.delays, args = (P.parseRpcMessage data).1.args

instance : ∀ l : Label M, Decidable (OwnArgs P l)
  | .act _ => inferInstanceAs (Decidable True)
  | .onMessage _ handler _ => inferInstanceAs (Decidable (_ → ∀ a ∈ handler.acts, _))

variable {P g}

/-- Where the replies go, in any run. -/
theorem routed_run {d : UInt64} {labels : List (Label M)} {s : Server M}
    (h : run (Server.step P g) (.initial d) labels = some s)
    (hargs : EachStep (Server.step P g) (fun _ => OwnArgs P) (.initial d) labels) :
    Server.Routed P g s := by
  refine run_invariant_of_eachStep (Server.step P g) (Server.Routed.initial d) ?_ hargs h
  intro s l s' hs hl hstep
  cases l with
  | act a => exact hs.acted (.of_act hstep) (by simp)
  | onMessage data handler callback => exact hs.handled (.of_handleMessage hstep) hl

/-- **When the replies to a request are addressed to the requester**: exactly when its
method was called, at once or delayed, in any run. -/
theorem addressed_run {d : UInt64} {labels : List (Label M)} {s : Server M}
    (h : run (Server.step P g) (.initial d) labels = some s) (hargs : ∀ l ∈ labels, OwnArgs P l) :
    ∀ call ∈ s.calls, (∀ reply ∈ call.replies, reply.id = call.message.id ∧
        reply.accid = call.message.accid ∧ reply.to_ = call.message.from_ ∧
        reply.from_ = .client) ↔ Server.CallsMethod P g call.message := by
  have hrouted := routed_run h (eachStep_of_forall hargs)
  intro call hcall
  have hcall := hrouted.calls call hcall
  constructor
  · intro hall
    by_contra hno
    obtain ⟨reply, hmem, hnot⟩ := hcall.refused hno
    obtain ⟨hid, haccid, hto, hfrom⟩ := hall reply hmem
    exact hnot ⟨hid, haccid, hto, hfrom⟩
  · intro hc reply hmem
    obtain ⟨hid, haccid, hto, hfrom⟩ := hcall.addressed hc reply hmem
    exact ⟨hid, haccid, hto, hfrom⟩

end

/-! ### The sign-in service -/

section

open SignIn

/-- A request to sign in, from the gate server. -/
def signInRequest (request : Bytes) : RpcMessage :=
  { type := .request, id := 5, accid := 7, from_ := .gateServer, service := 1, request := request }

/-- It is answered later. -/
def signInDelayed : List (Label Msg) :=
  [.onMessage (protobuf.serializeRpcMessage (signInRequest []))
      ⟨[.newDelayResponse ⟨.gateServer, 5, 7⟩], true, .userSignInRes true⟩ [],
    .act (.fill 1 (some (.userSignInRes true))),
    .act (.doDelayResponse 1)]

/-- The serving side after it. -/
def signInAnswered : Server Msg :=
  (run (Server.step protobuf generated) (.initial 0) signInDelayed).getD (.initial 0)

/-- The delayed reply goes to the gate server. -/
theorem addressed_run_signIn :
    ∃ call reply, signInAnswered.calls = [call] ∧ call.replies = [reply] ∧
      (reply.id = 5 ∧ reply.accid = 7 ∧ reply.to_ = .gateServer ∧ reply.from_ = .client) := by
  have hcalls : Server.CallsMethod protobuf generated (signInRequest []) :=
    ⟨_, finds_userSignIn, rfl⟩
  have h := @addressed_run _ _ protobuf _ generated 0 signInDelayed signInAnswered rfl (by decide)
  exact ⟨_, _, rfl, rfl, (h _ (List.mem_singleton_self _)).mpr hcalls _ (List.mem_singleton_self _)⟩

/-- The body of the request is cut off after the tag of its field: the reply is to nobody. -/
theorem not_addressed :
    ∃ s, run (Server.step protobuf generated) (.initial 0)
        [.onMessage (protobuf.serializeRpcMessage (signInRequest [8]))
          ⟨[], false, .userSignInRes true⟩ []] = some s ∧
      ∃ call ∈ s.calls, ∃ reply ∈ call.replies,
        ¬ (reply.id = call.message.id ∧ reply.accid = call.message.accid ∧
          reply.to_ = call.message.from_ ∧ reply.from_ = .client) := by
  refine ⟨_, rfl, _, List.mem_singleton_self _, _, List.mem_singleton_self _, ?_⟩
  rintro ⟨-, -, -, hfrom⟩
  cases hfrom

end

end ThirdPersonMP.Rpc
