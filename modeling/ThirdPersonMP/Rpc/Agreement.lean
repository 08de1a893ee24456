import ThirdPersonMP.Rpc.Peers

/-!
# The two peers agree

Both sides count their ids from `1`, so a number alone says nothing: what connects a
callback here with an execution there is the invariant of two peers.

* `Agree` — a request is in flight or was served, once; a callback has used up a response;
  and the data are those of the other side.
* `Inv` — the invariants of both roles of both sides. `Inv.act` is the step lemma for a
  call of the user's code, `Inv.deliver` for a message.
* `agreed_run` — in every run a callback has the response of the one execution of its
  call, on an equal request, with the same service and method; and a response in flight
  finds its entry.
-/

namespace ThirdPersonMP.Rpc

open Base Library

variable {M D : Type*}

/-! ### A client and its server -/

/-- The client `p` and the server `q`. -/
structure Agree (p q : Peer M) : Prop where
  /-- A request is in flight, or `CallMethod` was called for it. -/
  requests : ∀ id, (sentIds .request p.out).count id + (callIds q.trace).count id =
    (acceptedIds p.trace).count id
  /-- A response that was sent is in flight, or it completed its call, or it was dropped. -/
  responses : ∀ id, (sentIds .response q.out).count id + (doneIds p.trace).count id ≤
    (replyIds q.trace).count id
  /-- `CallMethod` was called with what was sent. -/
  called : ∀ id r s m, .callMethod id r s m ∈ q.trace → .accepted id r s m ∈ p.trace
  /-- `Service::DoneCallback` was called with the response that was sent. -/
  done : (acceptedIds p.trace).length ≤ 2 ^ 64 → ∀ id r response s m,
    .doneCallback id r response s m ∈ p.trace → .reply id response ∈ q.trace

namespace Agree

variable {p p' q q' : Peer M}

theorem initial {d d' : UInt64} :
    Agree ({ mDelayResponseId := d } : Peer M) { mDelayResponseId := d' } where
  requests := by simp [sentIds, callIds, acceptedIds]
  responses := by simp [sentIds, doneIds, replyIds]
  called := by simp
  done := by simp

/-- The server has served no more calls than were sent. -/
theorem length_callIds_le (h : Agree p q) :
    (callIds q.trace).length ≤ (acceptedIds p.trace).length := by
  have hperm : (sentIds .request p.out ++ callIds q.trace).Perm (acceptedIds p.trace) := by
    rw [List.perm_iff_count]
    intro id
    rw [List.count_append]
    exact h.requests id
  rw [← hperm.length_eq, List.length_append]
  exact Nat.le_add_left _ _

theorem same_left (h : Agree p q) (hs : SameClient p p') : Agree p' q := by
  obtain ⟨-, hout, new, ht, ha, hd⟩ := hs
  have hacc : acceptedIds p'.trace = acceptedIds p.trace := by
    rw [ht, acceptedIds_append, ha, List.append_nil]
  constructor
  · intro id
    rw [sentIds, hout, hacc]
    exact h.requests id
  · intro id
    rw [ht, doneIds_append, hd, List.append_nil]
    exact h.responses id
  · intro id r s m hmem
    rw [ht]
    exact List.mem_append_left _ (h.called id r s m hmem)
  · intro hle id r response s m hmem
    rw [hacc] at hle
    rw [ht] at hmem
    exact h.done hle id r response s m (doneCallback_mem_of_append hd hmem)

theorem same_right (h : Agree p q) (hs : SameServer q q') : Agree p q' := by
  obtain ⟨hout, new, ht, hc, hr⟩ := hs
  constructor
  · intro id
    rw [ht, callIds_append, hc, List.append_nil]
    exact h.requests id
  · intro id
    rw [sentIds, hout, ht, replyIds_append, hr, List.append_nil]
    exact h.responses id
  · intro id r s m hmem
    rw [ht] at hmem
    exact h.called id r s m (callMethod_mem_of_append hc hmem)
  · intro hle id r response s m hmem
    rw [ht]
    exact List.mem_append_left _ (h.done hle id r response s m hmem)

/-- `RpcChannel::Send` of the client. -/
theorem sendRequest (h : Agree p q) (P : Protobuf M D) (request : M) (info : SServiceInfo) :
    Agree (p.sendRequest P request info) q := by
  constructor
  · intro id
    have := h.requests id
    simp only [sendRequest_out, sendRequest_trace, sentIds_append, sentIds_singleton,
      acceptedIds_append, ids_accepted, List.count_append]
    omega
  · intro id
    simpa using h.responses id
  · intro id r s m hmem
    exact List.mem_append_left _ (h.called id r s m hmem)
  · intro hle id r response s m hmem
    simp only [sendRequest_trace, acceptedIds_append, List.length_append,
      List.mem_append, List.mem_singleton, reduceCtorEq, or_false] at hle hmem
    exact h.done (by omega) id r response s m hmem

/-- `RpcChannel::DoneCallback` of the server. -/
theorem doneCallback (h : Agree p q) (P : Protobuf M D) (response : M) (id accid : UInt64)
    (from_ : EServerType) : Agree p (q.doneCallback P (some response) id accid from_) := by
  constructor
  · intro id'
    simpa using h.requests id'
  · intro id'
    have := h.responses id'
    simp only [doneCallback_out, doneCallback_trace, sentIds_append, sentIds_singleton,
      replyIds_append, ids_reply, List.count_append]
    omega
  · intro id' r s m hmem
    simp only [doneCallback_trace, List.mem_append, List.mem_singleton,
      reduceCtorEq, or_false] at hmem
    exact h.called id' r s m hmem
  · intro hle id' r response' s m hmem
    exact List.mem_append_left _ (h.done hle id' r response' s m hmem)

section

variable {P : Protobuf M D} [DecidableEq D] {g : Generated D}

/-- A call of the user's code of the client. -/
theorem actStep_left (h : Agree p q) {a : Act M} (hs : ActStep P g p a p') : Agree p' q := by
  rcases hs.sameClient_or_send with hsame | ⟨request, info, -, -, rfl⟩
  · exact h.same_left hsame
  · exact h.sendRequest P request info

/-- A call of the user's code of the server. -/
theorem actStep_right (h : Agree p q) {a : Act M} (hs : ActStep P g q a q') : Agree p q' := by
  cases hs with
  | send hi => exact h.same_right (sameServer_sendRequest P q _ _)
  | @doDelayResponse x e response hx hr =>
    have herase : Agree p { q with mDelayResponse := q.mDelayResponse.erase x } :=
      h.same_right (.of_eq rfl rfl)
    exact herase.doneCallback P response e.msgId e.accid e.from_
  | noSend | newDelayResponse | fill | noDelayResponse | dropDelayResponse | setAccid =>
    exact h.same_right (.of_eq rfl rfl)

end

/-- The ids in flight, before a message arrives. -/
theorem count_sentIds {i : ℕ} {message : RpcMessage} (hi : p.out[i]? = some message)
    (id : UInt64) : (sentIds message.type p.out).count id =
      (sentIds message.type (p.delivered i).out).count id + [message.id].count id := by
  obtain ⟨l, l', hout, hdel⟩ := out_delivered hi
  rw [hout, hdel, sentIds_append, ← List.singleton_append, sentIds_append, sentIds_append,
    sentIds_singleton rfl]
  simp only [List.count_append]
  omega

/-- A request arrives, and `CallMethod` is called for it. -/
theorem deliver_request (h : Agree p q) {i : ℕ} {message : RpcMessage}
    (hi : p.out[i]? = some message) (ht : message.type = .request) {r : M}
    (hacc : .accepted message.id r message.service message.method ∈ p.trace) :
    Agree (p.delivered i) (q.called message r) := by
  constructor
  · intro id
    have hreq := h.requests id
    have := count_sentIds hi id
    rw [ht] at this
    simp only [called_trace, callIds_append, ids_callMethod, List.count_append]
    rw [delivered_trace]
    omega
  · intro id
    simpa using h.responses id
  · intro id r' s m hmem
    simp only [called_trace, List.mem_append, List.mem_singleton] at hmem
    rcases hmem with hmem | hmem
    · exact h.called id r' s m hmem
    · cases hmem
      exact hacc
  · intro hle id r' response s m hmem
    exact List.mem_append_left _ (h.done hle id r' response s m hmem)

/-- A message of the server arrives, and the client drops it. -/
theorem deliver_drop (h : Agree p q) (i : ℕ) : Agree p (q.delivered i) := by
  refine ⟨h.requests, fun id => ?_, h.called, h.done⟩
  have := h.responses id
  have hle : (sentIds .response (q.delivered i).out).count id ≤
      (sentIds .response q.out).count id :=
    (((List.eraseIdx_sublist q.out i).filter _).map _).count_le id
  rw [delivered_trace]
  omega

/-- A response arrives, and completes its call. -/
theorem deliver_response (h : Agree p q) {i : ℕ} {message : RpcMessage}
    (hi : q.out[i]? = some message) (ht : message.type = .response) {out : OutstandingCall M}
    {response : M} (hreply : (acceptedIds p.trace).length ≤ 2 ^ 64 →
      .reply message.id response ∈ q.trace) :
    Agree (p.completed message.id out response) (q.delivered i) := by
  constructor
  · intro id
    simpa using h.requests id
  · intro id
    have hresp := h.responses id
    have := count_sentIds hi id
    rw [ht] at this
    simp only [completed_trace, doneIds_append, ids_doneCallback, List.count_append]
    rw [delivered_trace]
    omega
  · intro id r s m hmem
    exact List.mem_append_left _ (h.called id r s m hmem)
  · intro hle id r response' s m hmem
    simp only [completed_trace, acceptedIds_append, ids_doneCallback, List.append_nil,
      List.mem_append, List.mem_singleton] at hle hmem
    rcases hmem with hmem | hmem
    · exact h.done hle id r response' s m hmem
    · cases hmem
      exact hreply hle

end Agree

/-! ### The invariant of two peers -/

section

variable (P : Protobuf M D) [DecidableEq D] (g : Generated D)

/-- The invariants of `p` and `q`, while `p` owes a response to each call of `todo`, and
may call `NewDelayResponse` for `k` of them. -/
structure Inv (todo : List UInt64) (k : ℕ) (p q : Peer M) : Prop where
  matched : Matched p
  matched' : Matched q
  client : Client P g p
  client' : Client P g q
  serving : Serving P g todo p
  serving' : Serving P g [] q
  delayIds : DelayIds k p
  delayIds' : DelayIds 0 q
  agree : Agree p q
  agree' : Agree q p

variable {P g} {p p' q : Peer M} {todo : List UInt64} {k : ℕ}

namespace Inv

theorem symm (h : Inv P g [] 0 p q) : Inv P g [] 0 q p where
  matched := h.matched'
  matched' := h.matched
  client := h.client'
  client' := h.client
  serving := h.serving'
  serving' := h.serving
  delayIds := h.delayIds'
  delayIds' := h.delayIds
  agree := h.agree'
  agree' := h.agree

/-- A call of the user's code. -/
theorem act (hg : g.Lawful) {a : Act M}
    (h : Inv P g (delayed [a] ++ todo) ((delayed [a]).length + k) p q) (hok : ActOk P g p a)
    (hs : ActStep P g p a p') : Inv P g todo k p' q := by
  have hdel : delayed [a] = (a.delays.map SRpcChannelMethodArgs.msgId).toList := by
    cases a <;> rfl
  have hlen : (delayed [a]).length = a.delays.toList.length := by cases a <;> rfl
  have hids := h.delayIds
  have hserv := h.serving
  rw [hlen] at hids
  rw [hdel] at hserv
  exact {
    matched := h.matched.actStep hs
    matched' := h.matched'
    client := h.client.actStep hg hs
    client' := h.client'
    serving := hserv.actStep hids hok hs
    serving' := h.serving'
    delayIds := hids.actStep hs
    delayIds' := h.delayIds'
    agree := h.agree.actStep_left hs
    agree' := h.agree'.actStep_right hs }

/-- The calls of a handler or a callback. -/
theorem acts (hg : g.Lawful) {acts : List (Act M)} (ha : run (Peer.act P g) p acts = some p')
    (hok : EachStep (Peer.act P g) (ActOk P g) p acts)
    (h : Inv P g (delayed acts ++ todo) ((delayed acts).length + k) p q) :
    Inv P g todo k p' q := by
  have hrun : Inv P g ([] ++ todo) (0 + k) p' q := by
    refine run_delayed (J := fun t p => Inv P g (t ++ todo) (t.length + k) p q) ?_ ha hok h
    intro t p a p' h hok hs
    rw [List.append_assoc, List.length_append, Nat.add_assoc] at h
    exact h.act hg hok hs
  rwa [List.nil_append, Nat.zero_add] at hrun

/-- A response that is owed need not be sent. -/
theorem mono (h : Inv P g todo k p q) : Inv P g [] 0 p q :=
  { h with
    serving := h.serving.mono
    delayIds := h.delayIds.mono (Nat.zero_le k) }

/-- `RpcChannel::DoneCallback` sends a response that is owed. -/
theorem doneCallback {id accid : UInt64} {from_ : EServerType} {response : M}
    (h : Inv P g (id :: todo) k p q)
    (ha : (callIds p.trace).length ≤ 2 ^ 64 → Answers P g p.trace id response) :
    Inv P g todo k (p.doneCallback P (some response) id accid from_) q where
  matched := h.matched.doneCallback
  matched' := h.matched'
  client := h.client.same (sameClient_doneCallback P p _ id accid from_)
  client' := h.client'
  serving := h.serving.doneCallback ha
  serving' := h.serving'
  delayIds := h.delayIds.congr rfl (fun _ hx => hx) rfl
  delayIds' := h.delayIds'
  agree := h.agree.same_left (sameClient_doneCallback P p _ id accid from_)
  agree' := h.agree'.doneCallback P response id accid from_

/-- A response arrives and is dropped. -/
theorem drop (h : Inv P g todo k p q) {i : ℕ} {message : RpcMessage}
    (hi : q.out[i]? = some message) (ht : message.type ≠ .request) :
    Inv P g todo k p (q.delivered i) :=
  { h with
    matched' := h.matched'.quiet [] rfl rfl (List.append_nil _).symm rfl rfl
    client' := h.client'.delivered i
    serving' := h.serving'.delivered i
    delayIds' := h.delayIds'
    agree := h.agree.deliver_drop i
    agree' := h.agree'.same_left (.delivered hi ht) }

/-- A response arrives and completes its call, with the response that was sent. -/
theorem completed (hP : P.Lawful) (h : Inv P g [] 0 p q) {i : ℕ} {message : RpcMessage}
    (hi : q.out[i]? = some message) (ht : message.type = .response) {out : OutstandingCall M}
    {method : MethodDescriptor D} (hl : p.mOutstandings.lookup message.id = some out)
    (hm : Finds g out.serviceType out.methodIndex method) :
    Inv P g [] 0 (p.completed message.id out
      (P.parseFromString method.responsePrototype message.response).1) (q.delivered i) := by
  have hdrop := h.drop hi (by rw [ht]; exact MsgType.noConfusion)
  have hreply : (acceptedIds p.trace).length ≤ 2 ^ 64 →
      .reply message.id (P.parseFromString method.responsePrototype message.response).1 ∈
        q.trace := by
    intro hle
    obtain ⟨r, hrep, hser⟩ := h.serving'.frame message (List.mem_of_getElem? hi) ht
    obtain ⟨r₀, s, m, method', hcall, hm', hd⟩ :=
      h.serving'.replied (Nat.le_trans h.agree.length_callIds_le hle) _ _ hrep
    -- the call that was served is the one that is outstanding
    obtain ⟨-, rfl, rfl⟩ := h.matched.accepted_unique hle
      (h.matched.outstanding _ _ hl) (h.agree.called _ _ _ _ hcall)
    rw [hm.unique hm', ← hd, hser, hP.parse_serialize]
    exact hrep
  exact { hdrop with
    matched := h.matched.completed hl
    client := h.client.completed
    serving := h.serving.same (sameServer_completed p _ _ _) rfl
    delayIds := h.delayIds.congr rfl (fun _ hx => hx) rfl
    agree := h.agree.deliver_response hi ht hreply
    agree' := hdrop.agree'.same_right (sameServer_completed p _ _ _) }

/-- A request arrives, and `CallMethod` is called for it. -/
theorem called (h : Inv P g [] 0 p q) {i : ℕ} {message : RpcMessage}
    (hi : q.out[i]? = some message) (ht : message.type = .request) {r : M}
    {method : MethodDescriptor D} (hm : Finds g message.service message.method method)
    (hacc : .accepted message.id r message.service message.method ∈ q.trace) :
    Inv P g [message.id] 1 (p.called message r) (q.delivered i) where
  matched := h.matched.quiet [_] rfl rfl rfl rfl rfl
  matched' := h.matched'.quiet [] rfl rfl (List.append_nil _).symm rfl rfl
  client := h.client.same (sameClient_called p message r)
  client' := h.client'.delivered i
  serving := h.serving.called hm
  serving' := h.serving'.delivered i
  delayIds := h.delayIds.called message r
  delayIds' := h.delayIds'
  agree := (h.agree.deliver_drop i).same_left (sameClient_called p message r)
  agree' := h.agree'.deliver_request hi ht hacc

/-- A message in flight is handled. -/
theorem deliver (hP : P.Lawful) (hg : g.Lawful) (h : Inv P g [] 0 p q) {i : ℕ}
    {message : RpcMessage} {handler : Handler M} {callback : List (Act M)}
    (hi : q.out[i]? = some message) (hdelay : DelayOk message handler callback)
    (hok : EachCall P g (ActOk P g) p message handler callback)
    (hs : OnMessage P g p message handler callback p') : Inv P g [] 0 p' (q.delivered i) := by
  cases Delivered.of_onMessage hP h.matched h.client h.client' (List.mem_of_getElem? hi) hs with
  | drop ht hno => exact h.drop hi ht
  | callback ht hr hl hm ha =>
    have hcompleted := h.completed hP hi ht hl hm
    apply Inv.acts hg ha (hok.of_response ht hr hl hm)
    rw [delayed, hdelay.2 ht]
    exact hcompleted
  | @noReply method request p' ht hacc hm hp ha hn =>
    have hdel := hdelay.1 ht
    have hacts := hok.of_request ht hm hp
    have hcalled := h.called hi ht hm hacc
    by_cases hd : handler.bDelay = true
    · apply Inv.acts hg ha hacts
      rw [delayed, hdel, if_pos hd]
      exact hcalled
    · have hrun : Inv P g [message.id] 1 p' (q.delivered i) := by
        apply Inv.acts hg ha hacts
        rw [delayed, hdel, if_neg hd]
        exact hcalled
      exact hrun.mono
  | @reply method request p' ht hacc hm hp ha hne hd hr =>
    have hdel := hdelay.1 ht
    have hacts := hok.of_request ht hm hp
    have hcalled := h.called hi ht hm hacc
    have hrun : Inv P g [message.id] 1 p' (q.delivered i) := by
      apply Inv.acts hg ha hacts
      rw [delayed, hdel, hd]
      exact hcalled
    obtain ⟨new, hnew, -⟩ := entries_of_acts ha
    have hmem : .callMethod message.id request message.service message.method ∈ p'.trace := by
      rw [hnew]
      exact List.mem_append_left _ (List.mem_append_right _ (List.mem_singleton_self _))
    exact (hrun.doneCallback fun _ => ⟨_, _, _, method, hmem, hm, hr⟩).mono

end Inv

end

/-! ### Runs -/

/-- What the side `x` of the two relies on. -/
structure Agreed (net : Net M) (x : Side) : Prop where
  /-- A callback is of one execution on the other side, of the same service and method, with
  the request of the call, and has the response passed to `RpcChannel::DoneCallback` for it. -/
  executed : ∀ id r response s m, .doneCallback id r response s m ∈ (net x).trace →
    (.callMethod id r s m ∈ (net x.other).trace ∧ (callIds (net x.other).trace).count id = 1) ∧
    .reply id response ∈ (net x.other).trace ∧ (replyIds (net x.other).trace).count id = 1
  /-- Different callbacks are of different executions. -/
  distinct : (doneIds (net x).trace).Nodup
  /-- A response in flight finds the entry of its call. -/
  found : ∀ message ∈ (net x.other).out, message.type = .response →
    message.id ∈ (net x).mOutstandings

section

variable {P : Protobuf M D} [DecidableEq D] {g : Generated D}

/-- The invariant of one side is that of both. -/
theorem Inv.sides {net : Net M} {x : Side} (h : Inv P g [] 0 (net x) (net x.other)) (y : Side) :
    Inv P g [] 0 (net y) (net y.other) := by
  rcases y.eq_or_eq_other x with rfl | rfl
  · exact h
  · rw [Side.other_other]
    exact h.symm

/-- A step of the two. -/
theorem inv_step (hP : P.Lawful) (hg : g.Lawful) {net net' : Net M} {l : NetLabel M}
    (h : ∀ x, Inv P g [] 0 (net x) (net x.other)) (hok : NetOk P g net l)
    (hs : Net.step P g net l = some net') : ∀ x, Inv P g [] 0 (net' x) (net' x.other) := by
  cases l with
  | act x a =>
    obtain ⟨p', ha, rfl⟩ := Option.map_eq_some_iff.mp hs
    apply Inv.sides (x := x)
    rw [Function.update_self, Function.update_of_ne (Side.other_ne x)]
    have hdelay : a.delays = none := hok.1
    have hdel : delayed [a] = [] := by
      rw [delayed, List.filterMap_cons_none hdelay]
      rfl
    refine Inv.act hg ?_ hok.2 (ActStep.of_act ha)
    rw [hdel]
    exact h x
  | deliver x i handler callback =>
    rw [Net.step] at hs
    split at hs
    · cases hs
    · rename_i message hi
      obtain ⟨p', ha, rfl⟩ := Option.map_eq_some_iff.mp hs
      rw [Peer.onMessage, hP.parse_serializeRpcMessage] at ha
      apply Inv.sides (x := x)
      rw [Function.update_self, Function.update_of_ne (Side.other_ne x), Function.update_self]
      exact (h x).deliver hP hg hi (hok.1 message hi) (hok.2 message hi)
        (OnMessage.of_handleMessage ha)

/-- The invariant holds after every run. -/
theorem inv_run (hP : P.Lawful) (hg : g.Lawful) {d : Side → UInt64} {labels : List (NetLabel M)}
    {net : Net M} (h : run (Net.step P g) (Net.initial d) labels = some net)
    (hok : EachStep (Net.step P g) (NetOk P g) (Net.initial d) labels) (x : Side) :
    Inv P g [] 0 (net x) (net x.other) := by
  refine run_invariant_of_eachStep (Net.step P g) (I := fun net => ∀ x, Inv P g [] 0 (net x)
    (net x.other)) (fun x => ?_) (fun net l net' h hok hs => inv_step hP hg h hok hs) hok h x
  exact ⟨.initial, .initial, .initial, .initial, .initial, .initial, .initial, .initial, .initial,
    .initial⟩

/-- **The two peers agree**, in every state that they reach with at most `2^64` requests
sent on each side. -/
theorem agreed_run (hP : P.Lawful) (hg : g.Lawful) {d : Side → UInt64}
    {labels : List (NetLabel M)} {net : Net M}
    (h : run (Net.step P g) (Net.initial d) labels = some net)
    (hok : EachStep (Net.step P g) (NetOk P g) (Net.initial d) labels)
    (hle : ∀ x, (acceptedIds (net x).trace).length ≤ 2 ^ 64) (x : Side) : Agreed net x := by
  have hinv := inv_run hP hg h hok x
  have hone : ∀ id, (acceptedIds (net x).trace).count id ≤ 1 :=
    List.nodup_iff_count_le_one.mp (hinv.matched.nodup (hle x))
  obtain ⟨hnodup, hnone⟩ := hinv.matched.once (hle x)
  refine ⟨fun id r response s m hdone => ?_, hnodup, fun message hmem ht => ?_⟩
  · have hreply := hinv.agree.done (hle x) id r response s m hdone
    have hacc := hinv.matched.done id r response s m hdone
    have hrep := List.count_pos_iff.mpr (mem_replyIds.mpr ⟨response, hreply⟩)
    have := hinv.agree.requests id
    have := hinv.serving'.replies id
    have := hone id
    have hcall : (callIds (net x.other).trace).count id = 1 := by omega
    refine ⟨⟨?_, hcall⟩, hreply, by omega⟩
    have hmem : 0 < (callIds (net x.other).trace).count id := by omega
    obtain ⟨r', s', m', hcall⟩ := mem_callIds.mp (List.count_pos_iff.mp hmem)
    obtain ⟨rfl, rfl, rfl⟩ := hinv.matched.accepted_unique (hle x) hacc
      (hinv.agree.called id r' s' m' hcall)
    exact hcall
  · have hsent := List.count_pos_iff.mpr (mem_sentIds.mpr ⟨message, hmem, ht, rfl⟩)
    have := hinv.agree.responses message.id
    have := hinv.agree.requests message.id
    have := hinv.serving'.replies message.id
    have := hone message.id
    have hacc : 0 < (acceptedIds (net x).trace).count message.id := by omega
    refine (hinv.client.kept message.id (List.count_pos_iff.mp hacc)).resolve_right fun hdone => ?_
    have := List.count_pos_iff.mpr hdone
    omega

end

/-! ### Ids that come round again -/

section

variable (P : Protobuf M D) [DecidableEq D] (g : Generated D)

/-- User's code that makes no calls and answers at once answers as it should. -/
theorem netOk_deliver_nil (net : Net M) (x : Side) (i : ℕ) (response : M) :
    NetOk P g net (.deliver x i ⟨[], false, response⟩ []) := by
  refine ⟨fun message _ => ⟨fun _ => rfl, fun _ => rfl⟩, fun message _ => ?_⟩
  unfold EachCall
  split
  · split <;> trivial
  · split <;> trivial
  · trivial

/-- A side sends a request `n` times. -/
theorem run_sends {request : M} {info : SServiceInfo}
    (hi : (registerService g).getServiceInfo (P.getDescriptor request) = some info) (x : Side)
    (n : ℕ) (net : Net M) : ∃ p, run (Net.step P g) net
        (List.replicate n (.act x (.send (some request)))) = some (Function.update net x p) ∧
      EachStep (Net.step P g) (NetOk P g) net (List.replicate n (.act x (.send (some request)))) ∧
      p.mId = (net x).mId + UInt64.ofNat n ∧
      (n ≠ 0 → p.mOutstandings.lookup p.mId =
        some ⟨request, info.serviceType, info.methodIndex⟩) := by
  have hsend : ∀ net : Net M, Net.step P g net (.act x (.send (some request))) =
      some (Function.update net x ((net x).sendRequest P request info)) := by
    intro net
    simp only [Net.step, Peer.act, Peer.send, hi, Option.map_some]
  induction n generalizing net with
  | zero =>
    refine ⟨net x, ?_, trivial, by simp, fun h => absurd rfl h⟩
    rw [Function.update_eq_self]
    rfl
  | succ n ih =>
    obtain ⟨p, hrun, hok, hid, hlast⟩ :=
      ih (Function.update net x ((net x).sendRequest P request info))
    rw [Function.update_idem] at hrun
    rw [Function.update_self] at hid
    refine ⟨p, ?_, ⟨⟨rfl, trivial⟩, fun net' hnet' => ?_⟩, ?_, fun _ => ?_⟩
    · rw [List.replicate_succ, run_cons, hsend]
      exact hrun
    · rw [hsend, Option.mem_some] at hnet'
      exact hnet' ▸ hok
    · rw [hid, Nat.add_comm, UInt64.ofNat_add, ← UInt64.add_assoc]
      rfl
    · by_cases hn : n = 0
      · subst hn
        rw [List.replicate_zero, run_nil, Option.some.injEq] at hrun
        have hp := congrFun hrun x
        rw [Function.update_self, Function.update_self] at hp
        subst hp
        exact AList.lookup_insert _
      · exact hlast hn

end

/-! ### The sign-in call -/

section

open SignIn

/-- Both sides sign in with the id `1`. One answers later and the other at once; a second
call, made meanwhile, is completed first. -/
def signInBoth : List (NetLabel Msg) :=
  let answer := Msg.userSignInRes true
  [.act .a (.send (some (.userSignInArg 7))),
    .act .b (.send (some (.userSignInArg 9))),
    .deliver .b 0 ⟨[.newDelayResponse ⟨.client, 1, 0⟩, .fill 1 (some answer)], true, answer⟩ [],
    .act .a (.send (some (.userSignInArg 8))),
    .deliver .b 0 ⟨[], false, answer⟩ [],
    .deliver .a 1 ⟨[], false, answer⟩ [],
    .deliver .a 0 ⟨[], false, answer⟩ [],
    .act .b (.doDelayResponse 1),
    .deliver .a 0 ⟨[], false, answer⟩ [],
    .deliver .b 0 ⟨[], false, answer⟩ []]

/-- The two sides after it. -/
def signInNet : Net Msg :=
  (run (Net.step protobuf generated) (Net.initial fun _ => 0) signInBoth).getD
    (Net.initial fun _ => 0)

/-- All three calls are completed, and the two sides agree. -/
theorem agreed_run_signIn :
    doneIds (signInNet .a).trace = [2, 1] ∧ doneIds (signInNet .b).trace = [1] ∧
      Agreed signInNet .a ∧ Agreed signInNet .b := by
  have h := @agreed_run _ _ protobuf _ generated protobuf_lawful generated_lawful (fun _ => 0)
    signInBoth signInNet rfl (by decide) (by intro x; cases x <;> decide)
  exact ⟨by decide, by decide, h .a, h .b⟩

/-- The client signs in, and the other side serves the call at once. -/
def signInServed : List (NetLabel Msg) :=
  [.act .a (.send (some (.userSignInArg 7))),
    .deliver .b 0 ⟨[], false, .userSignInRes true⟩ []]

/-- Before the response arrives `2^64` other calls are made, and the last of them has the
id of the first. -/
def signInWrap : List (NetLabel Msg) :=
  signInServed ++ (List.replicate (2 ^ 64) (.act .a (.send (some (.userSignInArg 8)))) ++
    [.deliver .a 0 ⟨[], false, .userSignInRes true⟩ []])

/-- The response completes the call that is outstanding under its id. -/
theorem onMessage_signInReply {p : Peer Msg} {out : OutstandingCall Msg}
    (hl : p.mOutstandings.lookup 1 = some out) (hs : out.serviceType = 1)
    (hm : out.methodIndex = 0) : p.onMessage protobuf generated
      (protobuf.serializeRpcMessage (signInReply true)) ⟨[], false, .userSignInRes true⟩ [] =
      some (p.completed 1 out (.userSignInRes true)) := by
  have hservice : (registerService generated).getServicePtr generated 1 = some (some userService) :=
    rfl
  have hmethod : userService.method 0 = some ⟨.userSignInArg, .userSignInRes⟩ := rfl
  rw [Peer.onMessage, protobuf_lawful.parse_serializeRpcMessage]
  simp only [Peer.handleMessage, signInReply, Peer.stubHandleResponseMsg, hl, hs, hm, hservice,
    hmethod]
  rw [Peer.completed, hs, hm]
  rfl

/-- The callback gets the request of the last call. -/
theorem run_signInWrap : ∃ net : Net Msg,
    run (Net.step protobuf generated) (Net.initial fun _ => 0) signInWrap = some net ∧
      EachStep (Net.step protobuf generated) (NetOk protobuf generated) (Net.initial fun _ => 0)
        signInWrap ∧
      .doneCallback 1 (.userSignInArg 8) (.userSignInRes true) 1 0 ∈ (net .a).trace ∧
      (net .b).trace = [.callMethod 1 (.userSignInArg 7) 1 0, .reply 1 (.userSignInRes true)] := by
  obtain ⟨served, hserved⟩ : ∃ net, run (Net.step protobuf generated)
      (Net.initial fun _ => 0) signInServed = some net := ⟨_, rfl⟩
  have hid : (served .a).mId = 1 := by
    cases hserved
    rfl
  have htrace : (served .b).trace =
      [.callMethod 1 (.userSignInArg 7) 1 0, .reply 1 (.userSignInRes true)] := by
    cases hserved
    rfl
  have hout : (served .b).out[0]? = some (signInReply true) := by
    cases hserved
    rfl
  have hi : (registerService generated).getServiceInfo
      (protobuf.getDescriptor (.userSignInArg 8)) = some ⟨1, 0, .client, .gateServer⟩ := rfl
  obtain ⟨p, hrun, hok, hwrap, hlast⟩ := run_sends protobuf generated hi .a (2 ^ 64) served
  have hone : p.mId = 1 := by
    rw [hwrap, hid]
    rfl
  rw [hone] at hlast
  have hdeliver : Net.step protobuf generated (Function.update served .a p)
      (.deliver .a 0 ⟨[], false, .userSignInRes true⟩ []) =
      some (Function.update (Function.update (Function.update served .a p) .b
        ((served .b).delivered 0)) .a
        (p.completed 1 ⟨.userSignInArg 8, 1, 0⟩ (.userSignInRes true))) := by
    have hother : Function.update served .a p .b = served .b := rfl
    simp only [Net.step, Side.other, hother, hout, Function.update_self,
      onMessage_signInReply (hlast (by decide)) rfl rfl, Option.map_some]
  refine ⟨Function.update (Function.update (Function.update served .a p) .b
    ((served .b).delivered 0)) .a
    (p.completed 1 ⟨.userSignInArg 8, 1, 0⟩ (.userSignInRes true)), ?_, ?_, ?_, htrace⟩
  · rw [signInWrap, run_append, hserved, Option.bind_some, run_append, hrun, Option.bind_some,
      run_cons, hdeliver, Option.bind_some, run_nil]
  · refine eachStep_append (by decide) fun m hm => ?_
    rw [hserved, Option.some.injEq] at hm
    subst hm
    exact eachStep_append hok fun m hm => ⟨netOk_deliver_nil _ _ _ _ _ _, fun _ _ => trivial⟩
  · exact List.mem_append_right _ (List.mem_singleton_self _)

/-- With more than `2^64` requests the two sides do not agree: the request of the callback
was never served. -/
theorem not_agreed : ∃ net : Net Msg,
    run (Net.step protobuf generated) (Net.initial fun _ => 0) signInWrap = some net ∧
      EachStep (Net.step protobuf generated) (NetOk protobuf generated) (Net.initial fun _ => 0)
        signInWrap ∧ ¬ Agreed net .a := by
  obtain ⟨net, hrun, hok, hdone, htrace⟩ := run_signInWrap
  refine ⟨net, hrun, hok, fun hagreed => ?_⟩
  have hcalled := (hagreed.executed _ _ _ _ _ hdone).1.1
  rw [Side.other, htrace] at hcalled
  simp at hcalled

end

end ThirdPersonMP.Rpc
