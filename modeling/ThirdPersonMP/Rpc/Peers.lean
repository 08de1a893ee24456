import ThirdPersonMP.Rpc.Outstanding
import Mathlib.Data.List.Perm.Basic

/-!
# Two connected peers

Two channels execute this code with the same registered services. What one passes to
`SendMessage` is in flight until the other's `OnMessage` gets it, in any order, each
message once. Each side sends requests and serves those of the other, and both number
theirs from `1` on.

A handler answers at once, or sets `bDelay` and calls `NewDelayResponse` once, with the
arguments of its call; then the response is filled in, and `DoDelayResponse` is called at
any later time (`NetOk`). Whatever else the user's code does, it may do.

A channel has two roles, and each invariant is of one of them:

* `Client` — its requests in flight, and the entries of those not completed;
* `Serving` — its responses in flight, the delayed ones, and those it owes.

`Client.actStep` and `Serving.actStep` are the step lemmas for a call of the user's code.
`Delivered` is what a message of the other side can do.
-/

namespace ThirdPersonMP.Rpc

open Base Library

variable {M D : Type*}

/-! ### The network -/

/-- The two sides. -/
inductive Side where
  | a
  | b
  deriving DecidableEq

/-- The other side. -/
def Side.other : Side → Side
  | a => b
  | b => a

@[simp] theorem Side.other_other (x : Side) : x.other.other = x := by cases x <;> rfl

@[simp] theorem Side.other_ne (x : Side) : x.other ≠ x := by cases x <;> decide

theorem Side.eq_or_eq_other (x y : Side) : x = y ∨ x = y.other := by
  cases x <;> cases y <;> simp [other]

/-- Two channels; what is in flight to one is in `out` of the other. -/
abbrev Net (M : Type*) := Side → Peer M

/-- Before anything is sent. -/
def Net.initial (d : Side → UInt64) : Net M := fun x => { mDelayResponseId := d x }

/-- A step of a side. -/
inductive NetLabel (M : Type*) where
  /-- A call from outside. -/
  | act (x : Side) (a : Act M)
  /-- A message in flight to `x` arrives. -/
  | deliver (x : Side) (i : ℕ) (handler : Handler M) (callback : List (Act M))

section

variable (P : Protobuf M D) [DecidableEq D] (g : Generated D)

/-- A step of the two. -/
def Net.step (net : Net M) : NetLabel M → Option (Net M)
  | .act x a => ((net x).act P g a).map (Function.update net x)
  | .deliver x i handler callback =>
    match (net x.other).out[i]? with
    | none => none
    | some message =>
      ((net x).onMessage P g (P.serializeRpcMessage message) handler callback).map
        (Function.update (Function.update net x.other ((net x.other).delivered i)) x)

/-! ### How the user's code answers -/

/-- The arguments of a call of `NewDelayResponse`. -/
def Act.delays : Act M → Option SRpcChannelMethodArgs
  | .newDelayResponse args => some args
  | _ => none

/-- The method of a service type, if there is one. -/
def findMethod (serviceType methodIndex : ℤ) : Option (MethodDescriptor D) :=
  ((registerService g).getServicePtr g serviceType).join.bind fun service =>
    service.method methodIndex

/-- The method of the call with this id that the peer serves. -/
def Peer.methodOf (p : Peer M) (id : UInt64) : Option (MethodDescriptor D) :=
  p.trace.findSome? fun e => match e with
    | .callMethod id' _ s m => if id' = id then findMethod g s m else none
    | _ => none

/-- A response that is filled in is of the response type of its call. -/
def ActOk (p : Peer M) : Act M → Prop
  | .fill x (some response) => ∀ e ∈ p.mDelayResponse.lookup x, ∀ method ∈ p.methodOf g e.msgId,
      P.getDescriptor response = method.responsePrototype
  | _ => True

/-- The calls that the user's code makes in a message are all made under `C`. -/
def EachCall (C : Peer M → Act M → Prop) (p : Peer M) (message : RpcMessage) (handler : Handler M)
    (callback : List (Act M)) : Prop :=
  match message.type with
  | .request =>
    match p.serviceEnterMethod P g message with
    | some (p, some _) => EachStep (Peer.act P g) C p handler.acts
    | _ => True
  | .response =>
    match p.stubHandleResponseMsg P g message with
    | some (p, true) => EachStep (Peer.act P g) C p callback
    | _ => True
  | .other _ => True

/-- The calls that the user's code makes in a step are all made under `C`. -/
def EachAct (C : Peer M → Act M → Prop) (net : Net M) : NetLabel M → Prop
  | .act x a => C (net x) a
  | .deliver x i handler callback =>
    ∀ message ∈ (net x.other).out[i]?, EachCall P g C (net x) message handler callback

/-- A handler that sets `bDelay` calls `NewDelayResponse` once, with the arguments of its
call; another does not, and neither does a callback, which has no arguments for it. -/
def DelayOk (message : RpcMessage) (handler : Handler M) (callback : List (Act M)) : Prop :=
  (message.type = .request → handler.acts.filterMap Act.delays =
    if handler.bDelay then [⟨message.from_, message.id, message.accid⟩] else []) ∧
  (message.type = .response → callback.filterMap Act.delays = [])

/-- `NewDelayResponse` is called as it should. -/
def DelaysOk (net : Net M) : NetLabel M → Prop
  | .act _ a => a.delays = none
  | .deliver x i handler callback =>
    ∀ message ∈ (net x.other).out[i]?, DelayOk message handler callback

/-- The user's code answers as it should. -/
def NetOk (net : Net M) (l : NetLabel M) : Prop :=
  DelaysOk net l ∧ EachAct P g (ActOk P g) net l

instance : ∀ (p : Peer M) (a : Act M), Decidable (ActOk P g p a)
  | p, .fill x (some response) =>
    inferInstanceAs (Decidable (∀ e ∈ p.mDelayResponse.lookup x, ∀ method ∈ p.methodOf g e.msgId,
      P.getDescriptor response = method.responsePrototype))
  | _, .fill _ none | _, .send _ | _, .newDelayResponse _ | _, .doDelayResponse _
  | _, .setAccid _ => inferInstanceAs (Decidable True)

instance (C : Peer M → Act M → Prop) [∀ p a, Decidable (C p a)] (p : Peer M)
    (message : RpcMessage) (handler : Handler M) (callback : List (Act M)) :
    Decidable (EachCall P g C p message handler callback) := by
  unfold EachCall
  split
  · split <;> infer_instance
  · split <;> infer_instance
  · infer_instance

instance (C : Peer M → Act M → Prop) [∀ p a, Decidable (C p a)] :
    ∀ (net : Net M) (l : NetLabel M), Decidable (EachAct P g C net l)
  | net, .act x a => inferInstanceAs (Decidable (C (net x) a))
  | net, .deliver x i handler callback =>
    inferInstanceAs (Decidable (∀ message ∈ (net x.other).out[i]?,
      EachCall P g C (net x) message handler callback))

instance (message : RpcMessage) (handler : Handler M) (callback : List (Act M)) :
    Decidable (DelayOk message handler callback) :=
  inferInstanceAs (Decidable ((_ → _) ∧ (_ → _)))

instance : ∀ (net : Net M) (l : NetLabel M), Decidable (DelaysOk net l)
  | _, .act _ a => inferInstanceAs (Decidable (a.delays = none))
  | net, .deliver x i handler callback =>
    inferInstanceAs (Decidable (∀ message ∈ (net x.other).out[i]?,
      DelayOk message handler callback))

instance (net : Net M) (l : NetLabel M) : Decidable (NetOk P g net l) :=
  inferInstanceAs (Decidable (_ ∧ _))

variable {P g} {C : Peer M → Act M → Prop} {p p' : Peer M} {message : RpcMessage}
  {handler : Handler M} {callback : List (Act M)} {method : MethodDescriptor D}

/-- The calls of the handler that a request calls. -/
theorem EachCall.of_request {request : M} (h : EachCall P g C p message handler callback)
    (ht : message.type = .request) (hm : Finds g message.service message.method method)
    (hp : P.parseFromString method.requestPrototype message.request = (request, true)) :
    EachStep (Peer.act P g) C (p.called message request) handler.acts := by
  obtain ⟨service, hs, hmeth⟩ := hm
  have henter : p.serviceEnterMethod P g message =
      some (p.called message request, some method) := by
    simp only [Peer.serviceEnterMethod, hs, hmeth, hp, Peer.called]
  simpa only [EachCall, ht, henter] using h

/-- The calls of the callback that a response calls. -/
theorem EachCall.of_response {out : OutstandingCall M}
    (h : EachCall P g C p message handler callback) (ht : message.type = .response)
    (hr : message.response ≠ []) (hl : p.mOutstandings.lookup message.id = some out)
    (hm : Finds g out.serviceType out.methodIndex method) :
    EachStep (Peer.act P g) C (p.completed message.id out
      (P.parseFromString method.responsePrototype message.response).1) callback := by
  obtain ⟨service, hs, hmeth⟩ := hm
  have hstub : p.stubHandleResponseMsg P g message = some (p.completed message.id out
      (P.parseFromString method.responsePrototype message.response).1, true) := by
    simp only [Peer.stubHandleResponseMsg, if_neg hr, hl, hs, hmeth, Peer.completed]
  simpa only [EachCall, ht, hstub] using h

/-- Two conditions on the same calls. -/
theorem EachCall.and {C' : Peer M → Act M → Prop} (h : EachCall P g C p message handler callback)
    (h' : EachCall P g C' p message handler callback) :
    EachCall P g (fun p a => C p a ∧ C' p a) p message handler callback := by
  unfold EachCall at *
  split
  · rename_i ht
    rw [ht] at h h'
    split
    · rename_i henter
      simp only [henter] at h h'
      exact h.and h'
    · trivial
  · rename_i ht
    rw [ht] at h h'
    split
    · rename_i hstub
      simp only [hstub] at h h'
      exact h.and h'
    · trivial
  · trivial

/-- The ids of the calls for which `NewDelayResponse` is called. -/
def delayed (acts : List (Act M)) : List UInt64 :=
  (acts.filterMap Act.delays).map SRpcChannelMethodArgs.msgId

/-- What a handler or a callback keeps, while it uses up the calls that it may delay. -/
theorem run_delayed {J : List UInt64 → Peer M → Prop} {acts : List (Act M)}
    (hstep : ∀ todo p a p', J (delayed [a] ++ todo) p → C p a → ActStep P g p a p' → J todo p')
    (ha : run (Peer.act P g) p acts = some p') (hC : EachStep (Peer.act P g) C p acts)
    (h : J (delayed acts) p) : J [] p' := by
  rw [delayed, List.filterMap_eq_flatMap_toList] at h
  refine run_uses (Peer.act P g) (J := fun todo => J (todo.map SRpcChannelMethodArgs.msgId))
    (fun rest p a p' h hC ha => hstep _ p a p' ?_ hC (ActStep.of_act ha)) ha hC h
  rw [List.map_append] at h
  rwa [delayed, List.filterMap_eq_flatMap_toList, List.flatMap_singleton]

end

/-! ### What is in flight and pending -/

/-- The ids of the messages of a type. -/
def sentIds (type : MsgType) (out : List RpcMessage) : List UInt64 :=
  (out.filter (·.type = type)).map RpcMessage.id

theorem sentIds_append (type : MsgType) (out out' : List RpcMessage) :
    sentIds type (out ++ out') = sentIds type out ++ sentIds type out' := by
  rw [sentIds, List.filter_append, List.map_append, sentIds, sentIds]

theorem sentIds_singleton {type : MsgType} {message : RpcMessage} (ht : message.type = type) :
    sentIds type [message] = [message.id] := by
  simp [sentIds, ht]

theorem mem_sentIds {type : MsgType} {out : List RpcMessage} {id : UInt64} :
    id ∈ sentIds type out ↔ ∃ message ∈ out, message.type = type ∧ message.id = id := by
  simp only [sentIds, List.mem_map, List.mem_filter, decide_eq_true_eq, and_assoc]

/-- The ids of the calls whose responses are delayed. -/
def pendingIds (table : AList fun _ : UInt64 => SDelayResponse M) : List UInt64 :=
  table.entries.map fun e => e.2.msgId

section

variable {table : AList fun _ : UInt64 => SDelayResponse M} {x : UInt64} {e : SDelayResponse M}

theorem pendingIds_insert :
    pendingIds (table.insert x e) = e.msgId :: pendingIds (table.erase x) := by
  rw [pendingIds, AList.entries_insert, List.map_cons, pendingIds]
  rfl

theorem pendingIds_of_lookup (h : table.lookup x = some e) :
    (pendingIds table).Perm (e.msgId :: pendingIds (table.erase x)) := by
  have hperm : table.entries.Perm ((table.erase x).insert x e).entries := by
    refine List.lookup_ext table.nodupKeys (AList.nodupKeys _) fun k y => ?_
    change y ∈ table.lookup k ↔ y ∈ ((table.erase x).insert x e).lookup k
    by_cases hk : k = x
    · subst hk
      rw [AList.lookup_insert, h]
    · rw [AList.lookup_insert_ne hk, AList.lookup_erase_ne hk]
  have hx : x ∉ table.erase x := by simp [AList.mem_erase]
  rw [AList.entries_insert_of_notMem hx] at hperm
  exact hperm.map _

theorem count_pendingIds_erase_le (table : AList fun _ : UInt64 => SDelayResponse M)
    (x id : UInt64) : (pendingIds (table.erase x)).count id ≤ (pendingIds table).count id :=
  ((List.kerase_sublist x table.entries).map _).count_le id

theorem mem_pendingIds_of_lookup (h : table.lookup x = some e) : e.msgId ∈ pendingIds table :=
  (pendingIds_of_lookup h).mem_iff.mpr List.mem_cons_self

end

/-! ### Steps that a role does not see -/

/-- A step leaves what the channel has as a client. -/
structure SameClient (p p' : Peer M) : Prop where
  mOutstandings : p'.mOutstandings = p.mOutstandings
  out : p'.out.filter (·.type = .request) = p.out.filter (·.type = .request)
  trace : ∃ new, p'.trace = p.trace ++ new ∧ acceptedIds new = [] ∧ doneIds new = []

/-- A step leaves what the channel has sent and done as a server. -/
structure SameServer (p p' : Peer M) : Prop where
  out : p'.out.filter (·.type = .response) = p.out.filter (·.type = .response)
  trace : ∃ new, p'.trace = p.trace ++ new ∧ callIds new = [] ∧ replyIds new = []

section

variable {p p' : Peer M}

theorem SameClient.of_eq (ho : p'.mOutstandings = p.mOutstandings) (hout : p'.out = p.out)
    (ht : p'.trace = p.trace) : SameClient p p' :=
  ⟨ho, by rw [hout], [], by rw [ht, List.append_nil], rfl, rfl⟩

theorem SameServer.of_eq (hout : p'.out = p.out) (ht : p'.trace = p.trace) : SameServer p p' :=
  ⟨by rw [hout], [], by rw [ht, List.append_nil], rfl, rfl⟩

theorem sameServer_sendRequest (P : Protobuf M D) (p : Peer M) (request : M)
    (info : SServiceInfo) : SameServer p (p.sendRequest P request info) :=
  ⟨by simp, [_], rfl, rfl, rfl⟩

theorem sameClient_doneCallback (P : Protobuf M D) (p : Peer M) (response : Option M)
    (id accid : UInt64) (from_ : EServerType) :
    SameClient p (p.doneCallback P response id accid from_) := by
  cases response with
  | none => exact .of_eq rfl rfl rfl
  | some response =>
    exact ⟨rfl, by simp, [_], rfl, rfl, rfl⟩

theorem sameClient_called (p : Peer M) (message : RpcMessage) (request : M) :
    SameClient p (p.called message request) := ⟨rfl, rfl, [_], rfl, rfl, rfl⟩

theorem sameServer_completed (p : Peer M) (id : UInt64) (out : OutstandingCall M) (response : M) :
    SameServer p (p.completed id out response) := ⟨rfl, [_], rfl, rfl, rfl⟩

/-- Of the calls of the user's code only a `Send` changes what the channel has as a
client. -/
theorem ActStep.sameClient_or_send {P : Protobuf M D} [DecidableEq D] {g : Generated D}
    {a : Act M} (h : ActStep P g p a p') : SameClient p p' ∨
      ∃ request info, a = .send (some request) ∧
        (registerService g).getServiceInfo (P.getDescriptor request) = some info ∧
        p' = p.sendRequest P request info := by
  cases h with
  | send hi => exact .inr ⟨_, _, rfl, hi, rfl⟩
  | @doDelayResponse x e response hx hr =>
    have hdone := sameClient_doneCallback P { p with mDelayResponse := p.mDelayResponse.erase x }
      (some response) e.msgId e.accid e.from_
    exact .inl ⟨hdone.mOutstandings, hdone.out, hdone.trace⟩
  | noSend | newDelayResponse | fill | noDelayResponse | dropDelayResponse | setAccid =>
    exact .inl (.of_eq rfl rfl rfl)

/-- The message that has arrived, and the others. -/
theorem out_delivered {i : ℕ} {message : RpcMessage} (h : p.out[i]? = some message) :
    ∃ l l', p.out = l ++ message :: l' ∧ (p.delivered i).out = l ++ l' := by
  obtain ⟨hi, rfl⟩ := List.getElem?_eq_some_iff.mp h
  refine ⟨p.out.take i, p.out.drop (i + 1), ?_, ?_⟩
  · rw [List.getElem_cons_drop, List.take_append_drop]
  · exact List.eraseIdx_eq_take_drop_succ _ _

theorem SameClient.delivered {i : ℕ} {message : RpcMessage} (h : p.out[i]? = some message)
    (ht : message.type ≠ .request) : SameClient p (p.delivered i) := by
  obtain ⟨l, l', hout, hdel⟩ := out_delivered h
  refine ⟨rfl, ?_, [], (List.append_nil _).symm, rfl, rfl⟩
  rw [hout, hdel]
  simp [ht]

end

/-! ### The client -/

section

variable (P : Protobuf M D) [DecidableEq D] (g : Generated D)

/-- The channel as a client. -/
structure Client (p : Peer M) : Prop where
  /-- A request in flight is a request that was sent. -/
  frame : ∀ message ∈ p.out, message.type = .request →
    ∃ r, .accepted message.id r message.service message.method ∈ p.trace ∧
      message.request = P.serializeAsString r
  /-- A request was sent as one of the method that takes it. -/
  finds : ∀ id r s m, .accepted id r s m ∈ p.trace →
    ∃ method, Finds g s m method ∧ method.requestPrototype = P.getDescriptor r
  /-- Its entry stays until its call is completed. -/
  kept : ∀ id ∈ acceptedIds p.trace, id ∈ p.mOutstandings ∨ id ∈ doneIds p.trace

variable {P g} {p p' : Peer M}

theorem Finds.unique {s m : ℤ} {method method' : MethodDescriptor D} (h : Finds g s m method)
    (h' : Finds g s m method') : method = method' := by
  obtain ⟨service, hs, hm⟩ := h
  obtain ⟨service', hs', hm'⟩ := h'
  rw [hs, Option.some.injEq, Option.some.injEq] at hs'
  subst hs'
  rw [hm, Option.some.injEq] at hm'
  exact hm'

theorem findMethod_eq_some {s m : ℤ} {method : MethodDescriptor D} :
    findMethod g s m = some method ↔ Finds g s m method := by
  simp only [findMethod, Option.bind_eq_some_iff, Option.join_eq_some_iff, Finds]

namespace Client

theorem initial {d : UInt64} : Client P g ({ mDelayResponseId := d } : Peer M) where
  frame := by simp
  finds := by simp
  kept := by simp [acceptedIds]

theorem same (h : Client P g p) (hs : SameClient p p') : Client P g p' := by
  obtain ⟨ho, hout, new, ht, ha, hd⟩ := hs
  constructor
  · intro message hmem hreq
    have hmem : message ∈ p.out.filter (·.type = .request) := by
      rw [← hout]
      simpa using ⟨hmem, hreq⟩
    obtain ⟨r, hacc, hser⟩ := h.frame message (List.mem_of_mem_filter hmem) hreq
    rw [ht]
    exact ⟨r, List.mem_append_left _ hacc, hser⟩
  · intro id r s m hacc
    rw [ht] at hacc
    exact h.finds id r s m (accepted_mem_of_append ha hacc)
  · rw [ht, acceptedIds_append, doneIds_append, ha, hd, List.append_nil, List.append_nil, ho]
    exact h.kept

theorem sendRequest (hg : g.Lawful) (h : Client P g p) {request : M} {info : SServiceInfo}
    (hi : (registerService g).getServiceInfo (P.getDescriptor request) = some info) :
    Client P g (p.sendRequest P request info) := by
  constructor
  · intro message hmem hreq
    simp only [sendRequest_out, sendRequest_trace, List.mem_append, List.mem_singleton] at hmem ⊢
    rcases hmem with hmem | rfl
    · obtain ⟨r, hacc, hser⟩ := h.frame message hmem hreq
      exact ⟨r, .inl hacc, hser⟩
    · exact ⟨request, .inr rfl, rfl⟩
  · intro id r s m hacc
    simp only [sendRequest_trace, List.mem_append, List.mem_singleton] at hacc
    rcases hacc with hacc | hacc
    · exact h.finds id r s m hacc
    · cases hacc
      obtain ⟨service, method, hs, hm, hd⟩ := registerService_consistent hg hi
      exact ⟨method, ⟨service, hs, hm⟩, hd⟩
  · intro id hid
    simp only [sendRequest_mOutstandings, sendRequest_trace, acceptedIds_append, doneIds_append,
      ids_accepted, List.append_nil, List.mem_append, List.mem_singleton] at hid ⊢
    rcases hid with hid | rfl
    · exact (h.kept id hid).imp_left fun hmem => AList.mem_insert _ |>.mpr (.inr hmem)
    · exact .inl (AList.mem_insert _ |>.mpr (.inl rfl))

theorem completed (h : Client P g p) {id : UInt64} {out : OutstandingCall M} {response : M} :
    Client P g (p.completed id out response) := by
  constructor
  · intro message hmem hreq
    obtain ⟨r, hacc, hser⟩ := h.frame message hmem hreq
    exact ⟨r, List.mem_append_left _ hacc, hser⟩
  · intro id' r s m hacc
    simp only [completed_trace, List.mem_append, List.mem_singleton, reduceCtorEq, or_false] at hacc
    exact h.finds id' r s m hacc
  · intro id' hid'
    simp only [completed_mOutstandings, completed_trace, acceptedIds_append, doneIds_append,
      ids_doneCallback, List.append_nil, List.mem_append, List.mem_singleton] at hid' ⊢
    by_cases hid : id' = id
    · exact .inr (.inr hid)
    · exact (h.kept id' hid').imp (fun hmem => AList.mem_erase.mpr ⟨hid, hmem⟩) .inl

/-- A request in flight is of a method, and is parsed. -/
theorem finds_frame (hP : P.Lawful) (h : Client P g p) {message : RpcMessage}
    (hmem : message ∈ p.out) (ht : message.type = .request) : ∃ r method,
      .accepted message.id r message.service message.method ∈ p.trace ∧
      Finds g message.service message.method method ∧
      P.parseFromString method.requestPrototype message.request = (r, true) := by
  obtain ⟨r, hacc, hser⟩ := h.frame message hmem ht
  obtain ⟨method, hm, hd⟩ := h.finds _ _ _ _ hacc
  exact ⟨r, method, hacc, hm, by rw [hser, hd, hP.parse_serialize]⟩

/-- A message has arrived. -/
theorem delivered (h : Client P g p) (i : ℕ) : Client P g (p.delivered i) :=
  ⟨fun message hmem => h.frame message (List.mem_of_mem_eraseIdx hmem), h.finds, h.kept⟩

/-- A call of the user's code. -/
theorem actStep (hg : g.Lawful) (h : Client P g p) {a : Act M} (hs : ActStep P g p a p') :
    Client P g p' := by
  rcases hs.sameClient_or_send with hsame | ⟨request, info, -, hi, rfl⟩
  · exact h.same hsame
  · exact h.sendRequest hg hi

end Client

end

/-! ### What a message in flight can do -/

section

variable (P : Protobuf M D) [DecidableEq D] (g : Generated D)

/-- What a message in flight from `q` to `p` can do: a request is of a method and is parsed,
and an entry is of a service, so no error is sent. -/
inductive Delivered (p q : Peer M) (message : RpcMessage) (handler : Handler M)
    (callback : List (Act M)) : Peer M → Prop
  | drop (ht : message.type ≠ .request) (hno : message.type = .response → message.response ≠ [] →
      message.id ∉ p.mOutstandings) : Delivered p q message handler callback p
  | callback {out : OutstandingCall M} {method : MethodDescriptor D} {p' : Peer M}
      (ht : message.type = .response) (hr : message.response ≠ [])
      (hl : p.mOutstandings.lookup message.id = some out)
      (hm : Finds g out.serviceType out.methodIndex method)
      (ha : run (Peer.act P g)
        (p.completed message.id out
          (P.parseFromString method.responsePrototype message.response).1) callback = some p') :
      Delivered p q message handler callback p'
  | noReply {method : MethodDescriptor D} {request : M} {p' : Peer M}
      (ht : message.type = .request)
      (hacc : .accepted message.id request message.service message.method ∈ q.trace)
      (hm : Finds g message.service message.method method)
      (hp : P.parseFromString method.requestPrototype message.request = (request, true))
      (ha : run (Peer.act P g) (p.called message request) handler.acts = some p')
      (hn : method.responsePrototype = P.emptyResponse ∨ handler.bDelay = true) :
      Delivered p q message handler callback p'
  | reply {method : MethodDescriptor D} {request : M} {p' : Peer M}
      (ht : message.type = .request)
      (hacc : .accepted message.id request message.service message.method ∈ q.trace)
      (hm : Finds g message.service message.method method)
      (hp : P.parseFromString method.requestPrototype message.request = (request, true))
      (ha : run (Peer.act P g) (p.called message request) handler.acts = some p')
      (hne : method.responsePrototype ≠ P.emptyResponse) (hd : handler.bDelay = false)
      (hr : P.getDescriptor handler.response = method.responsePrototype) :
      Delivered p q message handler callback
        (p'.doneCallback P (some handler.response) message.id message.accid message.from_)

variable {P g} {p p' q : Peer M}

/-- The inversion of the handling of a message in flight. -/
theorem Delivered.of_onMessage (hP : P.Lawful) (hm : Matched p) (hp : Client P g p)
    (hq : Client P g q) {message : RpcMessage} {handler : Handler M} {callback : List (Act M)}
    (hmem : message ∈ q.out) (hs : OnMessage P g p message handler callback p') :
    Delivered P g p q message handler callback p' := by
  have hrequest := hq.finds_frame hP hmem
  have hnot : ∀ {type}, message.type = type → type ≠ .request → message.type ≠ .request :=
    fun ht hne => ht ▸ hne
  cases hs with
  | other ht =>
    exact .drop (hnot ht MsgType.noConfusion) fun ht' => MsgType.noConfusion (ht.symm.trans ht')
  | emptyResponse ht hr => exact .drop (hnot ht MsgType.noConfusion) fun _ hne => absurd hr hne
  | notFound ht hl =>
    exact .drop (hnot ht MsgType.noConfusion) fun _ _ => AList.lookup_eq_none.mp hl
  | stubNoService ht hr hl hs =>
    obtain ⟨method, ⟨service, hs', -⟩, -⟩ :=
      hp.finds _ _ _ _ (hm.outstanding _ _ hl)
    rw [hs, Option.some.injEq] at hs'
    cases hs'
  | callback ht hr hl hfind ha => exact .callback ht hr hl hfind ha
  | noService ht hs =>
    obtain ⟨r, method, -, ⟨service, hs', -⟩, -⟩ := hrequest ht
    rw [hs, Option.some.injEq] at hs'
    cases hs'
  | wrongProto ht hfind hparse =>
    obtain ⟨r, method, -, hfind', hparse'⟩ := hrequest ht
    rw [hfind.unique hfind', hparse'] at hparse
    cases hparse
  | @noReply method request p' ht hfind hparse ha hn =>
    obtain ⟨r, method', hacc, hfind', hparse'⟩ := hrequest ht
    rw [← hfind.unique hfind', hparse, Prod.mk.injEq] at hparse'
    obtain ⟨rfl, -⟩ := hparse'
    exact .noReply ht hacc hfind hparse ha hn
  | @reply method request p' ht hfind hparse ha hne hd hr =>
    obtain ⟨r, method', hacc, hfind', hparse'⟩ := hrequest ht
    rw [← hfind.unique hfind', hparse, Prod.mk.injEq] at hparse'
    obtain ⟨rfl, -⟩ := hparse'
    exact .reply ht hacc hfind hparse ha hne hd hr

/-- The client after a message in flight. -/
theorem Client.onMessage (hP : P.Lawful) (hg : g.Lawful) (hm : Matched p) (hp : Client P g p)
    (hq : Client P g q) {message : RpcMessage} {handler : Handler M} {callback : List (Act M)}
    (hmem : message ∈ q.out) (hs : OnMessage P g p message handler callback p') :
    Client P g p' := by
  have hacts : ∀ {p p' : Peer M} {acts : List (Act M)}, Client P g p →
      run (Peer.act P g) p acts = some p' → Client P g p' := fun h ha =>
    run_invariant (Peer.act P g) h (fun _ _ _ h hs => h.actStep hg (ActStep.of_act hs)) ha
  cases Delivered.of_onMessage hP hm hp hq hmem hs with
  | drop ht hno => exact hp
  | callback ht hr hl hfind ha => exact hacts hp.completed ha
  | noReply ht hacc hfind hparse ha hn => exact hacts (hp.same (sameClient_called p message _)) ha
  | reply ht hacc hfind hparse ha hne hd hr =>
    exact (hacts (hp.same (sameClient_called p message _)) ha).same
      (sameClient_doneCallback P _ _ _ _ _)

end

/-! ### The server -/

section

variable (P : Protobuf M D) [DecidableEq D] (g : Generated D)

/-- The response is of the response type of a call that was served. -/
def Answers (trace : List (Event M)) (id : UInt64) (response : M) : Prop :=
  ∃ r s m method, .callMethod id r s m ∈ trace ∧ Finds g s m method ∧
    P.getDescriptor response = method.responsePrototype

/-- The channel as a server that still owes a response to each call of `todo`, or its
delay. -/
structure Serving (todo : List UInt64) (p : Peer M) : Prop where
  /-- A call that was served is of a method. -/
  served : ∀ id r s m, .callMethod id r s m ∈ p.trace → ∃ method, Finds g s m method
  /-- A call has at most one response: sent, delayed or still owed. -/
  replies : ∀ id, (replyIds p.trace).count id + (pendingIds p.mDelayResponse).count id +
    todo.count id ≤ (callIds p.trace).count id
  /-- A response in flight is a response that was sent. -/
  frame : ∀ message ∈ p.out, message.type = .response →
    ∃ r, .reply message.id r ∈ p.trace ∧ message.response = P.serializeAsString r
  /-- A response that was sent answers its call. -/
  replied : (callIds p.trace).length ≤ 2 ^ 64 → ∀ id r, .reply id r ∈ p.trace →
    Answers P g p.trace id r
  /-- So does one that is delayed. -/
  pending : (callIds p.trace).length ≤ 2 ^ 64 → ∀ x e, p.mDelayResponse.lookup x = some e →
    ∀ r ∈ e.response, Answers P g p.trace e.msgId r

/-- The ids of the delayed responses are among the last ones given out, of which there are
as many as calls, less `k`. -/
def DelayIds (k : ℕ) (p : Peer M) : Prop :=
  ∃ n, n + k ≤ (callIds p.trace).length ∧
    ∀ x ∈ p.mDelayResponse, ∃ j < n, x + UInt64.ofNat j = p.mDelayResponseId

variable {P g} {p p' : Peer M} {todo : List UInt64} {k : ℕ}

theorem Answers.append {trace : List (Event M)} {id : UInt64} {response : M}
    (h : Answers P g trace id response) (new : List (Event M)) :
    Answers P g (trace ++ new) id response := by
  obtain ⟨r, s, m, method, hcall, hm, hd⟩ := h
  exact ⟨r, s, m, method, List.mem_append_left _ hcall, hm, hd⟩

namespace DelayIds

theorem initial {d : UInt64} : DelayIds 0 ({ mDelayResponseId := d } : Peer M) :=
  ⟨0, Nat.zero_le _, by simp⟩

theorem mono {k' : ℕ} (h : DelayIds k p) (hk : k' ≤ k) : DelayIds k' p := by
  obtain ⟨n, hn, hids⟩ := h
  exact ⟨n, by omega, hids⟩

theorem congr (h : DelayIds k p) (hid : p'.mDelayResponseId = p.mDelayResponseId)
    (hsub : ∀ x ∈ p'.mDelayResponse, x ∈ p.mDelayResponse) {new : List (Event M)}
    (ht : p'.trace = p.trace ++ new) : DelayIds k p' := by
  obtain ⟨n, hn, hids⟩ := h
  refine ⟨n, ?_, fun x hx => ?_⟩
  · rw [ht, callIds_append, List.length_append]
    omega
  · rw [hid]
    exact hids x (hsub x hx)

/-- `NewDelayResponse` finds no entry under its id. -/
theorem fresh (h : DelayIds (k + 1) p) (hle : (callIds p.trace).length ≤ 2 ^ 64) :
    p.mDelayResponseId + 1 ∉ p.mDelayResponse := by
  obtain ⟨n, hn, hids⟩ := h
  intro hmem
  obtain ⟨j, hj, hx⟩ := hids _ hmem
  have := congrArg UInt64.toNat hx
  rw [UInt64.toNat_add, UInt64.toNat_add, UInt64.toNat_ofNat'] at this
  have := p.mDelayResponseId.toNat_lt
  have : (1 : UInt64).toNat = 1 := rfl
  omega

theorem newDelayResponse (h : DelayIds (k + 1) p) (args : SRpcChannelMethodArgs) :
    DelayIds k (p.newDelayResponse args) := by
  obtain ⟨n, hn, hids⟩ := h
  refine ⟨n + 1, ?_, fun x hx => ?_⟩
  · change n + 1 + k ≤ (callIds p.trace).length
    omega
  · rcases (AList.mem_insert _).mp hx with rfl | hx
    · exact ⟨0, Nat.succ_pos n, by simp [Peer.newDelayResponse]⟩
    · obtain ⟨j, hj, hx⟩ := hids x hx
      refine ⟨j + 1, Nat.succ_lt_succ hj, ?_⟩
      rw [UInt64.ofNat_add, ← UInt64.add_assoc, hx]
      rfl

theorem called (h : DelayIds k p) (message : RpcMessage) (request : M) :
    DelayIds (k + 1) (p.called message request) := by
  obtain ⟨n, hn, hids⟩ := h
  refine ⟨n, ?_, hids⟩
  simp only [called_trace, callIds_append, ids_callMethod, List.length_append,
    List.length_singleton]
  omega

/-- A call of the user's code. -/
theorem actStep {a : Act M} (h : DelayIds (a.delays.toList.length + k) p)
    (hs : ActStep P g p a p') : DelayIds k p' := by
  cases hs with
  | newDelayResponse args =>
    rw [Act.delays, Option.toList_some, List.length_singleton, Nat.add_comm] at h
    exact h.newDelayResponse args
  | send hi =>
    exact (h.mono (Nat.le_add_left _ _)).congr rfl (fun _ hx => hx) rfl
  | doDelayResponse hx hr =>
    exact (h.mono (Nat.le_add_left _ _)).congr rfl (fun _ hx => (AList.mem_erase.mp hx).2) rfl
  | dropDelayResponse hx hr =>
    exact (h.mono (Nat.le_add_left _ _)).congr rfl (fun _ hx => (AList.mem_erase.mp hx).2)
      (List.append_nil _).symm
  | @fill x e response hx =>
    refine (h.mono (Nat.le_add_left _ _)).congr rfl (fun y hy => ?_) (List.append_nil _).symm
    rcases (AList.mem_insert _).mp hy with rfl | hy
    · rw [← AList.lookup_isSome, hx]
      rfl
    · exact hy
  | noSend | noDelayResponse | setAccid =>
    exact (h.mono (Nat.le_add_left _ _)).congr rfl (fun _ hx => hx) (List.append_nil _).symm

end DelayIds

namespace Serving

theorem initial {d : UInt64} : Serving P g [] ({ mDelayResponseId := d } : Peer M) where
  served := by simp
  replies := by simp [replyIds, pendingIds]
  frame := by simp
  replied := by simp
  pending := by simp

theorem same (h : Serving P g todo p) (hs : SameServer p p')
    (hd : p'.mDelayResponse = p.mDelayResponse) : Serving P g todo p' := by
  obtain ⟨hout, new, ht, hc, hr⟩ := hs
  have hcall : callIds p'.trace = callIds p.trace := by
    rw [ht, callIds_append, hc, List.append_nil]
  have hreply : replyIds p'.trace = replyIds p.trace := by
    rw [ht, replyIds_append, hr, List.append_nil]
  constructor
  · intro id r s m hmem
    rw [ht] at hmem
    exact h.served id r s m (callMethod_mem_of_append hc hmem)
  · rw [hcall, hreply, hd]
    exact h.replies
  · intro message hmem hresp
    have hmem : message ∈ p.out.filter (·.type = .response) := by
      rw [← hout]
      simpa using ⟨hmem, hresp⟩
    obtain ⟨r, hrep, hser⟩ := h.frame message (List.mem_of_mem_filter hmem) hresp
    rw [ht]
    exact ⟨r, List.mem_append_left _ hrep, hser⟩
  · intro hle id r hmem
    rw [hcall] at hle
    rw [ht] at hmem ⊢
    exact (h.replied hle id r (reply_mem_of_append hr hmem)).append _
  · intro hle x e hx r hmem
    rw [hcall] at hle
    rw [hd] at hx
    rw [ht]
    exact (h.pending hle x e hx r hmem).append _

/-- The method of a call that was served. -/
theorem methodOf_eq_some (h : Serving P g todo p) {id : UInt64} {r : M} {s m : ℤ}
    (hmem : .callMethod id r s m ∈ p.trace) : ∃ r' s' m' method,
      .callMethod id r' s' m' ∈ p.trace ∧ Finds g s' m' method ∧ p.methodOf g id = some method := by
  cases hof : p.methodOf g id with
  | none =>
    obtain ⟨method, hm⟩ := h.served id r s m hmem
    rw [Peer.methodOf, List.findSome?_eq_none_iff] at hof
    have := hof _ hmem
    simp only [if_true, findMethod_eq_some.mpr hm, reduceCtorEq] at this
  | some method =>
    obtain ⟨e, he, hm⟩ := List.exists_of_findSome?_eq_some hof
    cases e with
    | callMethod id' r' s' m' =>
      simp only [Option.ite_none_right_eq_some] at hm
      obtain ⟨rfl, hm⟩ := hm
      exact ⟨r', s', m', method, he, findMethod_eq_some.mp hm, rfl⟩
    | _ => cases hm

/-- `CallMethod` is called: a response is owed to the call. -/
theorem called (h : Serving P g [] p) {message : RpcMessage} {request : M}
    {method : MethodDescriptor D} (hm : Finds g message.service message.method method) :
    Serving P g [message.id] (p.called message request) := by
  constructor
  · intro id r s m hmem
    simp only [called_trace, List.mem_append, List.mem_singleton] at hmem
    rcases hmem with hmem | hmem
    · exact h.served id r s m hmem
    · cases hmem
      exact ⟨method, hm⟩
  · intro id
    have := h.replies id
    simp only [called_mDelayResponse, called_trace, replyIds_append, callIds_append, ids_callMethod,
      List.append_nil, List.count_append, List.count_nil] at this ⊢
    omega
  · intro msg hmem hresp
    obtain ⟨r, hrep, hser⟩ := h.frame msg hmem hresp
    exact ⟨r, List.mem_append_left _ hrep, hser⟩
  · intro hle id r hmem
    simp only [called_trace, callIds_append, List.length_append, List.mem_append,
      List.mem_singleton, reduceCtorEq, or_false] at hle hmem ⊢
    exact (h.replied (by omega) id r hmem).append _
  · intro hle x e hx r hmem
    simp only [called_trace, callIds_append, List.length_append] at hle ⊢
    exact (h.pending (by omega) x e hx r hmem).append _

/-- `NewDelayResponse` is called for a call to which a response is owed. -/
theorem newDelayResponse {args : SRpcChannelMethodArgs} (h : Serving P g (args.msgId :: todo) p)
    (hd : DelayIds (k + 1) p) : Serving P g todo (p.newDelayResponse args) := by
  refine ⟨h.served, fun id => ?_, h.frame, h.replied, fun hle x e hx r hmem => ?_⟩
  · have hreplies := h.replies id
    have := count_pendingIds_erase_le p.mDelayResponse (p.mDelayResponseId + 1) id
    simp only [Peer.newDelayResponse, pendingIds_insert, List.count_cons] at hreplies ⊢
    omega
  · have hfresh := AList.lookup_eq_none.mpr (hd.fresh hle)
    simp only [Peer.newDelayResponse, hfresh, Option.bind_none] at hx
    by_cases hid : x = p.mDelayResponseId + 1
    · subst hid
      rw [AList.lookup_insert, Option.some.injEq] at hx
      subst hx
      cases hmem
    · rw [AList.lookup_insert_ne hid] at hx
      exact h.pending hle x e hx r hmem

/-- The response of an entry is set. -/
theorem fill (h : Serving P g todo p) {x : UInt64} {e : SDelayResponse M} {response : Option M}
    (hx : p.mDelayResponse.lookup x = some e) (hok : ActOk P g p (.fill x response)) :
    Serving P g todo { p with
      mDelayResponse := p.mDelayResponse.insert x { e with response := response } } := by
  have hperm := pendingIds_of_lookup hx
  refine ⟨h.served, fun id => ?_, h.frame, h.replied, fun hle y e' hy r hmem => ?_⟩
  · have := h.replies id
    rw [hperm.count_eq] at this
    rw [pendingIds_insert]
    exact this
  · by_cases hyx : y = x
    · subst hyx
      rw [AList.lookup_insert, Option.some.injEq] at hy
      subst hy
      rw [Option.mem_def] at hmem
      subst hmem
      -- the entry is of a call that was served, and the response of its type
      have hcall : 0 < (callIds p.trace).count e.msgId := by
        have := h.replies e.msgId
        have := List.count_pos_iff.mpr (mem_pendingIds_of_lookup hx)
        omega
      obtain ⟨r₀, s, m, hmem⟩ := mem_callIds.mp (List.count_pos_iff.mp hcall)
      obtain ⟨r₁, s', m', method, hmem', hm', hof⟩ := h.methodOf_eq_some hmem
      exact ⟨r₁, s', m', method, hmem', hm', hok e hx method hof⟩
    · rw [AList.lookup_insert_ne hyx] at hy
      exact h.pending hle y e' hy r hmem

/-- An entry is removed. -/
theorem erase (h : Serving P g todo p) (x : UInt64) :
    Serving P g todo { p with mDelayResponse := p.mDelayResponse.erase x } := by
  refine ⟨h.served, fun id => ?_, h.frame, h.replied, fun hle y e hy r hmem => ?_⟩
  · have := h.replies id
    have := count_pendingIds_erase_le p.mDelayResponse x id
    simp only at this ⊢
    omega
  · by_cases hyx : y = x
    · subst hyx
      rw [AList.lookup_erase] at hy
      cases hy
    · rw [AList.lookup_erase_ne hyx] at hy
      exact h.pending hle y e hy r hmem

/-- An entry is removed, and its response is owed. -/
theorem eraseOf (h : Serving P g todo p) {x : UInt64} {e : SDelayResponse M}
    (hx : p.mDelayResponse.lookup x = some e) :
    Serving P g (e.msgId :: todo) { p with mDelayResponse := p.mDelayResponse.erase x } := by
  refine ⟨h.served, fun id => ?_, h.frame, h.replied, (h.erase x).pending⟩
  have := h.replies id
  rw [(pendingIds_of_lookup hx).count_eq, List.count_cons] at this
  rw [List.count_cons]
  dsimp only
  omega

/-- `RpcChannel::DoneCallback` sends a response that is owed. -/
theorem doneCallback {id accid : UInt64} {from_ : EServerType} {response : M}
    (h : Serving P g (id :: todo) p)
    (ha : (callIds p.trace).length ≤ 2 ^ 64 → Answers P g p.trace id response) :
    Serving P g todo (p.doneCallback P (some response) id accid from_) := by
  constructor
  · intro id' r s m hmem
    simp only [doneCallback_trace, List.mem_append, List.mem_singleton,
      reduceCtorEq, or_false] at hmem
    exact h.served id' r s m hmem
  · intro id'
    have := h.replies id'
    simp only [doneCallback_mDelayResponse, doneCallback_trace, replyIds_append, callIds_append,
      ids_reply, List.append_nil, List.count_append, List.count_cons, List.count_nil] at this ⊢
    omega
  · intro message hmem hresp
    simp only [doneCallback_out, doneCallback_trace, List.mem_append, List.mem_singleton] at hmem ⊢
    rcases hmem with hmem | rfl
    · obtain ⟨r, hrep, hser⟩ := h.frame message hmem hresp
      exact ⟨r, .inl hrep, hser⟩
    · exact ⟨response, .inr rfl, rfl⟩
  · intro hle id' r hmem
    simp only [doneCallback_trace, callIds_append, ids_reply, List.append_nil,
      List.mem_append, List.mem_singleton] at hle hmem ⊢
    rcases hmem with hmem | hmem
    · exact (h.replied hle id' r hmem).append _
    · cases hmem
      exact (ha hle).append _
  · intro hle x e hx r hmem
    simp only [doneCallback_trace, callIds_append, ids_reply,
      List.append_nil] at hle ⊢
    exact (h.pending hle x e hx r hmem).append _

/-- A message has arrived. -/
theorem delivered (h : Serving P g todo p) (i : ℕ) : Serving P g todo (p.delivered i) :=
  ⟨h.served, h.replies, fun message hmem => h.frame message (List.mem_of_mem_eraseIdx hmem),
    h.replied, h.pending⟩

/-- A response that is owed need not be sent. -/
theorem mono (h : Serving P g todo p) : Serving P g [] p := by
  refine ⟨h.served, fun id => ?_, h.frame, h.replied, h.pending⟩
  have := h.replies id
  rw [List.count_nil]
  omega

/-- A call of the user's code. -/
theorem actStep {a : Act M}
    (h : Serving P g ((a.delays.map SRpcChannelMethodArgs.msgId).toList ++ todo) p)
    (hd : DelayIds (a.delays.toList.length + k) p) (hok : ActOk P g p a)
    (hs : ActStep P g p a p') : Serving P g todo p' := by
  cases hs with
  | send hi => exact h.same (sameServer_sendRequest P p _ _) rfl
  | noSend hr => exact h
  | newDelayResponse args =>
    rw [Act.delays, Option.toList_some, List.length_singleton, Nat.add_comm] at hd
    exact Serving.newDelayResponse h hd
  | fill hx => exact Serving.fill h hx hok
  | noDelayResponse hx => exact h
  | dropDelayResponse hx hr => exact Serving.erase h _
  | doDelayResponse hx hr =>
    exact (Serving.eraseOf h hx).doneCallback fun hle => h.pending hle _ _ hx _ hr
  | setAccid accid => exact h.same (.of_eq rfl rfl) rfl

end Serving

end

end ThirdPersonMP.Rpc
