import ThirdPersonMP.Rpc.Agreement

/-!
# Calls that are never completed

`RpcChannel::Send` puts every request into `m_outstandings`. The serving side sends no
response when the response type is `EmptyResponse` (81–85): the entry of such a call stays
for good. Where no such request is sent, every entry belongs to a request in flight, a
delayed response or a response in flight, as long as no reply is the empty string and
delayed responses are answered (`RepliesOk`).

* `Tracked` — where the call of an entry is; kept by a call of the user's code and by a
  message.
* `noLeak_run` — so no entry is left behind, in any run without requests for an
  `EmptyResponse`; `not_noLeak` is a run with one.
-/

namespace ThirdPersonMP.Rpc

open Base Library

variable {M D : Type*}

section

variable (P : Protobuf M D) [DecidableEq D] (g : Generated D)

/-! ### Conditions on the user's code -/

/-- A delayed response is answered with a response that does not serialize to the empty
string, and no other takes its entry before that. -/
def ReplyActOk (p : Peer M) : Act M → Prop
  | .newDelayResponse _ => p.mDelayResponseId + 1 ∉ p.mDelayResponse
  | .doDelayResponse x => ∀ e ∈ p.mDelayResponse.lookup x,
      ∃ response ∈ e.response, P.serializeAsString response ≠ []
  | _ => True

/-- A handler that sets `bDelay` calls `NewDelayResponse` with the arguments of its call;
the response of another does not serialize to the empty string, unless it is an
`EmptyResponse`, which is not sent. -/
def AnswerOk (message : RpcMessage) (handler : Handler M) : Prop :=
  message.type = .request →
    if handler.bDelay then
      ⟨message.from_, message.id, message.accid⟩ ∈ handler.acts.filterMap Act.delays
    else P.getDescriptor handler.response ≠ P.emptyResponse →
      P.serializeAsString handler.response ≠ []

/-- No reply is the empty string, and delayed responses are answered. -/
def RepliesOk (net : Net M) (l : NetLabel M) : Prop :=
  EachAct P g (ReplyActOk P) net l ∧
  match l with
  | .act _ _ => True
  | .deliver x i handler _ => ∀ message ∈ (net x.other).out[i]?, AnswerOk P message handler

/-- A request is sent only if its method has a response other than `EmptyResponse`. -/
def TwoWay (_ : Peer M) : Act M → Prop
  | .send (some request) => ∀ info ∈ (registerService g).getServiceInfo (P.getDescriptor request),
      ∀ method ∈ findMethod g info.serviceType info.methodIndex,
        method.responsePrototype ≠ P.emptyResponse
  | _ => True

instance : ∀ (p : Peer M) (a : Act M), Decidable (ReplyActOk P p a)
  | p, .newDelayResponse _ =>
    inferInstanceAs (Decidable (p.mDelayResponseId + 1 ∉ p.mDelayResponse))
  | p, .doDelayResponse x => inferInstanceAs (Decidable (∀ e ∈ p.mDelayResponse.lookup x,
      ∃ response ∈ e.response, P.serializeAsString response ≠ []))
  | _, .send _ | _, .fill _ _ | _, .setAccid _ => inferInstanceAs (Decidable True)

instance (message : RpcMessage) (handler : Handler M) : Decidable (AnswerOk P message handler) :=
  inferInstanceAs (Decidable (_ → ite _ _ _))

instance : ∀ (net : Net M) (l : NetLabel M), Decidable (RepliesOk P g net l)
  | net, .act _ _ => inferInstanceAs (Decidable (EachAct P g (ReplyActOk P) net _ ∧ True))
  | net, .deliver x i handler _ => inferInstanceAs (Decidable (EachAct P g (ReplyActOk P) net _ ∧
      ∀ message ∈ (net x.other).out[i]?, AnswerOk P message handler))

instance : ∀ (p : Peer M) (a : Act M), Decidable (TwoWay P g p a)
  | _, .send (some request) => inferInstanceAs (Decidable
      (∀ info ∈ (registerService g).getServiceInfo (P.getDescriptor request),
        ∀ method ∈ findMethod g info.serviceType info.methodIndex,
          method.responsePrototype ≠ P.emptyResponse))
  | _, .send none | _, .newDelayResponse _ | _, .fill _ _ | _, .doDelayResponse _
  | _, .setAccid _ => inferInstanceAs (Decidable True)

/-! ### Where the call of an entry is -/

/-- Every entry of the client `p` is of a call whose request is in flight, whose response
the server `q` has delayed, still owes (`todo`) or has sent. -/
structure Tracked (todo : List UInt64) (p q : Peer M) : Prop where
  /-- The method of a request that was sent has a response. -/
  twoWay : ∀ id r s m, .accepted id r s m ∈ p.trace → ∀ method, Finds g s m method →
    method.responsePrototype ≠ P.emptyResponse
  entry : ∀ id ∈ p.mOutstandings, id ∈ sentIds .request p.out ∨
    id ∈ pendingIds q.mDelayResponse ∨ id ∈ todo ∨
    ∃ message ∈ q.out, message.type = .response ∧ message.id = id ∧ message.response ≠ []

end

namespace Tracked

variable {P : Protobuf M D} [DecidableEq D] {g : Generated D} {p p' q q' : Peer M}
  {todo : List UInt64}

theorem initial {d d' : UInt64} :
    Tracked P g [] ({ mDelayResponseId := d } : Peer M) { mDelayResponseId := d' } where
  twoWay := by simp
  entry := by simp

theorem same_left (h : Tracked P g todo p q) (hs : SameClient p p') : Tracked P g todo p' q := by
  obtain ⟨ho, hout, new, ht, ha, -⟩ := hs
  constructor
  · intro id r s m hacc
    rw [ht] at hacc
    exact h.twoWay id r s m (accepted_mem_of_append ha hacc)
  · rw [ho, sentIds, hout]
    exact h.entry

theorem mono_right (h : Tracked P g todo p q)
    (hp : ∀ id ∈ pendingIds q.mDelayResponse, id ∈ pendingIds q'.mDelayResponse)
    (hout : ∀ message ∈ q.out, message ∈ q'.out) : Tracked P g todo p q' := by
  refine ⟨h.twoWay, fun id hid => ?_⟩
  rcases h.entry id hid with hreq | hpend | htodo | ⟨message, hmem, hmessage⟩
  · exact .inl hreq
  · exact .inr (.inl (hp id hpend))
  · exact .inr (.inr (.inl htodo))
  · exact .inr (.inr (.inr ⟨message, hout message hmem, hmessage⟩))

/-- More is owed. -/
theorem mono {todo' : List UInt64} (h : Tracked P g todo p q) (hsub : ∀ id ∈ todo, id ∈ todo') :
    Tracked P g todo' p q := by
  refine ⟨h.twoWay, fun id hid => ?_⟩
  rcases h.entry id hid with hreq | hpend | htodo | hmessage
  · exact .inl hreq
  · exact .inr (.inl hpend)
  · exact .inr (.inr (.inl (hsub id htodo)))
  · exact .inr (.inr (.inr hmessage))

/-! ### Calls -/

/-- `RpcChannel::Send` of the client. -/
theorem sendRequest (h : Tracked P g todo p q) {request : M} {info : SServiceInfo}
    (htwo : ∀ method, Finds g info.serviceType info.methodIndex method →
      method.responsePrototype ≠ P.emptyResponse) :
    Tracked P g todo (p.sendRequest P request info) q := by
  constructor
  · intro id r s m hacc
    simp only [sendRequest_trace, List.mem_append, List.mem_singleton] at hacc
    rcases hacc with hacc | hacc
    · exact h.twoWay id r s m hacc
    · cases hacc
      exact htwo
  · intro id hid
    simp only [sendRequest_mOutstandings, sendRequest_out, sentIds_append, sentIds_singleton,
      List.mem_append, List.mem_singleton] at hid ⊢
    rcases (AList.mem_insert _).mp hid with rfl | hid
    · exact .inl (.inr rfl)
    · exact (h.entry id hid).imp_left .inl

/-- `NewDelayResponse` of the server, for a call to which it owes a response. -/
theorem newDelayResponse {args : SRpcChannelMethodArgs} (h : Tracked P g (args.msgId :: todo) p q)
    (hfresh : q.mDelayResponseId + 1 ∉ q.mDelayResponse) :
    Tracked P g todo p (q.newDelayResponse args) := by
  have hpend : pendingIds (q.newDelayResponse args).mDelayResponse =
      args.msgId :: pendingIds q.mDelayResponse := by
    rw [Peer.newDelayResponse, pendingIds, AList.entries_insert_of_notMem hfresh]
    rfl
  refine ⟨h.twoWay, fun id hid => ?_⟩
  rw [hpend, List.mem_cons]
  rcases h.entry id hid with hreq | hpend | htodo | hmessage
  · exact .inl hreq
  · exact .inr (.inl (.inr hpend))
  · rcases List.mem_cons.mp htodo with rfl | htodo
    · exact .inr (.inl (.inl rfl))
    · exact .inr (.inr (.inl htodo))
  · exact .inr (.inr (.inr hmessage))

/-- An entry is removed, and its response is owed. -/
theorem eraseOf (h : Tracked P g todo p q) {x : UInt64} {e : SDelayResponse M}
    (hx : q.mDelayResponse.lookup x = some e) : Tracked P g (e.msgId :: todo) p
      { q with mDelayResponse := q.mDelayResponse.erase x } := by
  refine ⟨h.twoWay, fun id hid => ?_⟩
  rw [List.mem_cons]
  rcases h.entry id hid with hreq | hpend | htodo | hmessage
  · exact .inl hreq
  · rcases List.mem_cons.mp ((pendingIds_of_lookup hx).mem_iff.mp hpend) with hid | hpend
    · exact .inr (.inr (.inl (.inl hid)))
    · exact .inr (.inl hpend)
  · exact .inr (.inr (.inl (.inr htodo)))
  · exact .inr (.inr (.inr hmessage))

/-- `RpcChannel::DoneCallback` of the server sends a response that is owed. -/
theorem doneCallback {id accid : UInt64} {from_ : EServerType} {response : M}
    (h : Tracked P g (id :: todo) p q) (hne : P.serializeAsString response ≠ []) :
    Tracked P g todo p (q.doneCallback P (some response) id accid from_) := by
  refine ⟨h.twoWay, fun id' hid => ?_⟩
  rcases h.entry id' hid with hreq | hpend | htodo | ⟨message, hmem, hmessage⟩
  · exact .inl hreq
  · exact .inr (.inl hpend)
  · rcases List.mem_cons.mp htodo with rfl | htodo
    · exact .inr (.inr (.inr ⟨_, List.mem_append_right _ (List.mem_singleton_self _), rfl, rfl,
        hne⟩))
    · exact .inr (.inr (.inl htodo))
  · exact .inr (.inr (.inr ⟨message, List.mem_append_left _ hmem, hmessage⟩))

/-- A call of the user's code of the client. -/
theorem actStep_left (h : Tracked P g todo p q) {a : Act M} (htwo : TwoWay P g p a)
    (hs : ActStep P g p a p') : Tracked P g todo p' q := by
  rcases hs.sameClient_or_send with hsame | ⟨request, info, rfl, hi, rfl⟩
  · exact h.same_left hsame
  · exact h.sendRequest fun method hm => htwo info hi method (findMethod_eq_some.mpr hm)

/-- A call of the user's code of the server. -/
theorem actStep_right {a : Act M} (h : Tracked P g (delayed [a] ++ todo) p q)
    (hok : ReplyActOk P q a) (hs : ActStep P g q a q') : Tracked P g todo p q' := by
  cases hs with
  | send hi => exact h.mono_right (fun _ hid => hid) fun _ hmem => List.mem_append_left _ hmem
  | newDelayResponse args => exact Tracked.newDelayResponse h hok
  | @fill x e response hx =>
    refine Tracked.mono_right h (fun id hid => ?_) fun _ hmem => hmem
    rw [pendingIds_insert]
    exact (pendingIds_of_lookup hx).mem_iff.mp hid
  | dropDelayResponse hx hr =>
    obtain ⟨response, hmem, -⟩ := hok _ hx
    rw [hr] at hmem
    cases hmem
  | doDelayResponse hx hr =>
    obtain ⟨response, hmem, hne⟩ := hok _ hx
    rw [hr, Option.mem_some] at hmem
    subst hmem
    exact (Tracked.eraseOf h hx).doneCallback hne
  | noSend | noDelayResponse | setAccid =>
    exact Tracked.mono_right h (fun _ hid => hid) fun _ hmem => hmem

/-! ### Messages -/

/-- A request of the client arrives, and its call is owed a response. -/
theorem deliver_request (h : Tracked P g todo p q) {i : ℕ} {message : RpcMessage}
    (hi : p.out[i]? = some message) : Tracked P g (message.id :: todo) (p.delivered i) q := by
  obtain ⟨l, l', hout, hdel⟩ := out_delivered hi
  refine ⟨h.twoWay, fun id hid => ?_⟩
  rcases h.entry id hid with hreq | hpend | htodo | hmessage
  · obtain ⟨message', hmem, ht, hid'⟩ := mem_sentIds.mp hreq
    rw [hout] at hmem
    by_cases heq : message' = message
    · subst heq
      exact .inr (.inr (.inl (hid' ▸ List.mem_cons_self)))
    · refine .inl (mem_sentIds.mpr ⟨message', ?_, ht, hid'⟩)
      rw [hdel]
      simpa [heq] using hmem
  · exact .inr (.inl hpend)
  · exact .inr (.inr (.inl (List.mem_cons_of_mem _ htodo)))
  · exact .inr (.inr (.inr hmessage))

/-- A message of the server arrives that is of no entry. -/
theorem deliver_response (h : Tracked P g todo p q) {i : ℕ} {message : RpcMessage}
    (hi : q.out[i]? = some message) (hno : message.type = .response → message.response ≠ [] →
      message.id ∉ p.mOutstandings) : Tracked P g todo p (q.delivered i) := by
  obtain ⟨l, l', hout, hdel⟩ := out_delivered hi
  refine ⟨h.twoWay, fun id hid => ?_⟩
  rcases h.entry id hid with hreq | hpend | htodo | ⟨message', hmem, ht, rfl, hne⟩
  · exact .inl hreq
  · exact .inr (.inl hpend)
  · exact .inr (.inr (.inl htodo))
  · have heq : message' ≠ message := by
      rintro rfl
      exact hno ht hne hid
    refine .inr (.inr (.inr ⟨message', ?_, ht, rfl, hne⟩))
    rw [hout] at hmem
    rw [hdel]
    simpa [heq] using hmem

/-- A call of the client is completed. -/
theorem completed (h : Tracked P g todo p q) {id : UInt64} {out : OutstandingCall M}
    {response : M} : Tracked P g todo (p.completed id out response) q := by
  constructor
  · intro id' r s m hacc
    simp only [completed_trace, List.mem_append, List.mem_singleton, reduceCtorEq, or_false] at hacc
    exact h.twoWay id' r s m hacc
  · intro id' hid
    exact h.entry id' (AList.mem_erase.mp hid).2

end Tracked

/-! ### The two peers -/

section

variable (P : Protobuf M D) [DecidableEq D] (g : Generated D)

/-- The entries of both, while `p` owes a response to each call of `todo`. -/
structure Tracks (todo : List UInt64) (p q : Peer M) : Prop where
  left : Tracked P g [] p q
  right : Tracked P g todo q p

variable {P g} {p p' q : Peer M} {todo : List UInt64}

namespace Tracks

/-- The calls of a handler or a callback. -/
theorem acts {acts : List (Act M)} (ha : run (Peer.act P g) p acts = some p')
    (hok : EachStep (Peer.act P g) (fun p a => ReplyActOk P p a ∧ TwoWay P g p a) p acts)
    (h : Tracks P g (delayed acts ++ todo) p q) : Tracks P g todo p' q := by
  refine run_delayed (J := fun t p => Tracks P g (t ++ todo) p q) ?_ ha hok h
  intro t p a p' h hok hs
  rw [List.append_assoc] at h
  exact ⟨h.left.actStep_left hok.2 hs, h.right.actStep_right hok.1 hs⟩

/-- More is owed. -/
theorem mono {todo' : List UInt64} (h : Tracks P g todo p q) (hsub : ∀ id ∈ todo, id ∈ todo') :
    Tracks P g todo' p q :=
  ⟨h.left, h.right.mono hsub⟩

/-- A message in flight is handled. -/
theorem deliver (h : Tracks P g [] p q) {i : ℕ} {message : RpcMessage} {handler : Handler M}
    {callback : List (Act M)} (hi : q.out[i]? = some message)
    (hok : EachCall P g (fun p a => ReplyActOk P p a ∧ TwoWay P g p a) p message handler callback)
    (hanswer : AnswerOk P message handler)
    (hs : Delivered P g p q message handler callback p') : Tracks P g [] p' (q.delivered i) := by
  -- `CallMethod` is called
  have hcalled : message.type = .request → ∀ r,
      Tracks P g [message.id] (p.called message r) (q.delivered i) := fun ht r =>
    ⟨(h.left.same_left (sameClient_called p message r)).deliver_response hi fun ht' =>
        MsgType.noConfusion (ht.symm.trans ht'),
      (h.right.deliver_request hi).mono_right (fun _ hid => hid) fun _ hmem => hmem⟩
  cases hs with
  | drop ht hno =>
    exact ⟨h.left.deliver_response hi hno, h.right.same_left (.delivered hi ht)⟩
  | @callback out method p' ht hr hl hm ha =>
    have hcompleted : Tracks P g [] (p.completed message.id out
        (P.parseFromString method.responsePrototype message.response).1) (q.delivered i) := by
      refine ⟨h.left.completed.deliver_response hi fun _ _ => ?_, ?_⟩
      · simp [AList.mem_erase]
      · have hright := h.right.same_left (.delivered hi (by rw [ht]; exact MsgType.noConfusion))
        exact hright.mono_right (fun _ hid => hid) fun _ hmem => hmem
    apply Tracks.acts ha (hok.of_response ht hr hl hm)
    exact hcompleted.mono fun id hid => absurd hid List.not_mem_nil
  | @noReply method request p' ht hacc hm hp ha hn =>
    -- the method has a response, so its handler has set `bDelay`
    have hdelay := hanswer ht
    rw [if_pos (hn.resolve_left (h.right.twoWay _ _ _ _ hacc method hm))] at hdelay
    apply Tracks.acts ha (hok.of_request ht hm hp)
    refine (hcalled ht request).mono fun id hid => ?_
    rw [List.mem_singleton] at hid
    subst hid
    exact List.mem_append_left _ (List.mem_map_of_mem hdelay)
  | @reply method request p' ht hacc hm hp ha hne hd hr =>
    have hnonempty := hanswer ht
    rw [hd, if_neg Bool.false_ne_true, hr] at hnonempty
    have hrun : Tracks P g [message.id] p' (q.delivered i) := by
      apply Tracks.acts ha (hok.of_request ht hm hp)
      exact (hcalled ht request).mono fun id hid => List.mem_append_right _ hid
    exact ⟨hrun.left.same_left (sameClient_doneCallback P p' _ _ _ _),
      hrun.right.doneCallback (hnonempty hne)⟩

theorem symm (h : Tracks P g [] p q) : Tracks P g [] q p := ⟨h.right, h.left⟩

end Tracks

end

/-! ### Runs -/

/-- No call is leaked. -/
structure NoLeak (net : Net M) : Prop where
  /-- An entry is of a call whose request is in flight, whose response is delayed at the other
  side, or whose response is in flight. -/
  entry : ∀ x, ∀ id ∈ (net x).mOutstandings, id ∈ sentIds .request (net x).out ∨
    id ∈ pendingIds (net x.other).mDelayResponse ∨ id ∈ sentIds .response (net x.other).out
  /-- So there is no entry when nothing is in flight and nothing delayed. -/
  empty : (∀ x, (net x).out = [] ∧ (net x).mDelayResponse = ∅) → ∀ x, (net x).mOutstandings = ∅

section

variable {P : Protobuf M D} [DecidableEq D] {g : Generated D}

theorem NoLeak.of_tracks {net : Net M} (h : ∀ x, Tracks P g [] (net x) (net x.other)) :
    NoLeak net := by
  have hentry : ∀ x, ∀ id ∈ (net x).mOutstandings, id ∈ sentIds .request (net x).out ∨
      id ∈ pendingIds (net x.other).mDelayResponse ∨ id ∈ sentIds .response (net x.other).out := by
    intro x id hid
    rcases (h x).left.entry id hid with hreq | hpend | htodo | ⟨message, hmem, ht, hid, -⟩
    · exact .inl hreq
    · exact .inr (.inl hpend)
    · cases htodo
    · exact .inr (.inr (mem_sentIds.mpr ⟨message, hmem, ht, hid⟩))
  refine ⟨hentry, fun hnone x => ?_⟩
  have hkeys : ∀ id, id ∉ (net x).mOutstandings := by
    intro id hid
    have := hentry x id hid
    rw [(hnone x).1, (hnone x.other).1, (hnone x.other).2] at this
    simp [sentIds, pendingIds] at this
  apply AList.ext
  rw [AList.empty_entries, List.eq_nil_iff_forall_not_mem]
  intro e he
  exact hkeys e.1 (List.mem_map_of_mem he)

/-- Both sides as clients, and what they owe. -/
def Kept (P : Protobuf M D) (g : Generated D) (net : Net M) : Prop :=
  ∀ x, Matched (net x) ∧ Client P g (net x) ∧ Tracks P g [] (net x) (net x.other)

/-- A step of the two. -/
theorem kept_step (hP : P.Lawful) (hg : g.Lawful) {net net' : Net M} {l : NetLabel M}
    (h : Kept P g net) (hreplies : RepliesOk P g net l) (htwo : EachAct P g (TwoWay P g) net l)
    (hs : Net.step P g net l = some net') : Kept P g net' := by
  cases l with
  | act x a =>
    obtain ⟨p', ha, rfl⟩ := Option.map_eq_some_iff.mp hs
    have hs := ActStep.of_act ha
    obtain ⟨hm, hc, htracks⟩ := h x
    have hright : Tracked P g (delayed [a] ++ []) (net x.other) (net x) :=
      htracks.right.mono fun id hid => absurd hid List.not_mem_nil
    have htracks' : Tracks P g [] p' (net x.other) :=
      ⟨htracks.left.actStep_left htwo hs, hright.actStep_right hreplies.1 hs⟩
    intro y
    rcases y.eq_or_eq_other x with rfl | rfl
    · rw [Function.update_self, Function.update_of_ne (Side.other_ne y)]
      exact ⟨hm.actStep hs, hc.actStep hg hs, htracks'⟩
    · rw [Side.other_other, Function.update_self, Function.update_of_ne (Side.other_ne x)]
      exact ⟨(h x.other).1, (h x.other).2.1, htracks'.symm⟩
  | deliver x i handler callback =>
    rw [Net.step] at hs
    split at hs
    · cases hs
    · rename_i message hi
      obtain ⟨p', ha, rfl⟩ := Option.map_eq_some_iff.mp hs
      rw [Peer.onMessage, hP.parse_serializeRpcMessage] at ha
      have hs := OnMessage.of_handleMessage ha
      obtain ⟨hm, hc, htracks⟩ := h x
      obtain ⟨hm', hc', -⟩ := h x.other
      have hmem := List.mem_of_getElem? hi
      have htracks' := htracks.deliver hi (EachCall.and (hreplies.1 message hi) (htwo message hi))
        (hreplies.2 message hi) (Delivered.of_onMessage hP hm hc hc' hmem hs)
      intro y
      rcases y.eq_or_eq_other x with rfl | rfl
      · rw [Function.update_self, Function.update_of_ne (Side.other_ne y), Function.update_self]
        exact ⟨hm.onMessage hs, hc.onMessage hP hg hm hc' hmem hs, htracks'⟩
      · rw [Side.other_other, Function.update_self, Function.update_of_ne (Side.other_ne x),
          Function.update_self]
        have hquiet : Matched ((net x.other).delivered i) :=
          hm'.quiet [] rfl rfl (List.append_nil _).symm rfl rfl
        exact ⟨hquiet, hc'.delivered i, htracks'.symm⟩

/-- **No call is leaked**, in every state of every run in which no request is sent whose
method has an `EmptyResponse`. -/
theorem noLeak_run (hP : P.Lawful) (hg : g.Lawful) {d : Side → UInt64}
    {labels : List (NetLabel M)} {net : Net M}
    (h : run (Net.step P g) (Net.initial d) labels = some net)
    (hreplies : EachStep (Net.step P g) (RepliesOk P g) (Net.initial d) labels)
    (htwo : EachStep (Net.step P g) (EachAct P g (TwoWay P g)) (Net.initial d) labels) :
    NoLeak net := by
  have hstart : Kept P g (Net.initial d) := fun x =>
    ⟨.initial, .initial, ⟨.initial, .initial⟩⟩
  have hkept := run_invariant_of_eachStep (Net.step P g) hstart
    (fun net l net' hkept hok hs => kept_step hP hg hkept hok.1 hok.2 hs) (hreplies.and htwo) h
  exact .of_tracks fun x => (hkept x).2.2

end

/-! ### The sign-in call and the scene that is loaded -/

section

open SignIn

/-- No call of the run in which both sides sign in is leaked. -/
theorem noLeak_run_signIn : NoLeak signInNet :=
  @noLeak_run _ _ protobuf _ generated protobuf_lawful generated_lawful (fun _ => 0) signInBoth
    signInNet rfl (by decide) (by decide)

/-- The client tells that the scene is loaded, and the other side serves the call. -/
def loadedScene : List (NetLabel Msg) :=
  [.act .a (.send (some .notifyLoadedSceneArg)), .deliver .b 0 ⟨[], false, .emptyResponse⟩ []]

/-- Nothing is in flight and nothing delayed, and the entry of the call is still there. -/
theorem not_noLeak : ∃ net : Net Msg,
    run (Net.step protobuf generated) (Net.initial fun _ => 0) loadedScene = some net ∧
      EachStep (Net.step protobuf generated) (RepliesOk protobuf generated)
        (Net.initial fun _ => 0) loadedScene ∧
      (∀ x, (net x).out = [] ∧ (net x).mDelayResponse = ∅) ∧
      (net .a).mOutstandings.keys = [1] ∧ ¬ NoLeak net := by
  obtain ⟨net, hrun⟩ : ∃ net, run (Net.step protobuf generated) (Net.initial fun _ => 0)
      loadedScene = some net := ⟨_, rfl⟩
  have hnone : ∀ x, (net x).out = [] ∧ (net x).mDelayResponse = ∅ := by
    cases hrun
    intro x
    cases x <;> exact ⟨rfl, rfl⟩
  have hkeys : (net .a).mOutstandings.keys = [1] := by
    cases hrun
    rfl
  refine ⟨net, hrun, by decide, hnone, hkeys, fun h => ?_⟩
  rw [h.empty hnone .a] at hkeys
  cases hkeys

end

end ThirdPersonMP.Rpc
