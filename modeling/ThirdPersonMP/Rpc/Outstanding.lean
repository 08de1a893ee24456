import ThirdPersonMP.Rpc.Reply
import Mathlib.Data.List.Nodup

/-!
# Outstanding calls

`RpcChannel::Send` numbers the requests from `1` on and keeps each in `m_outstandings`
until its response arrives. The other side may send anything: responses twice, in any
order, with any id, requests whose ids collide with ours. The user's code may send from
inside a handler or a callback.

* `Matched` — what connects the ids, the table and the callbacks; kept by every call
  (`Matched.actStep`) and by every message (`Matched.onMessage`).
* `entries_of_onMessage` — a request of the other side changes the table only where its
  handler sends.
* `invariant_peer_run` — the induction along a run of the channel.
* `completed_run` — in every run with fewer than `2^64 - 1` requests sent, each call is
  completed at most once, with its own request, service and method.
-/

namespace ThirdPersonMP.Rpc

open Base Library

variable {M D : Type*}

/-! ### The history -/

/-- The ids of the requests sent. -/
def acceptedIds (trace : List (Event M)) : List UInt64 :=
  trace.filterMap fun e => match e with
    | .accepted id .. => some id
    | _ => none

/-- The ids of the calls of `Service::CallMethod`. -/
def callIds (trace : List (Event M)) : List UInt64 :=
  trace.filterMap fun e => match e with
    | .callMethod id .. => some id
    | _ => none

/-- The ids of the responses sent. -/
def replyIds (trace : List (Event M)) : List UInt64 :=
  trace.filterMap fun e => match e with
    | .reply id _ => some id
    | _ => none

/-- The ids of the calls of `Service::DoneCallback`. -/
def doneIds (trace : List (Event M)) : List UInt64 :=
  trace.filterMap fun e => match e with
    | .doneCallback id .. => some id
    | _ => none

section

variable (trace new : List (Event M))

@[simp] theorem acceptedIds_append :
    acceptedIds (trace ++ new) = acceptedIds trace ++ acceptedIds new := List.filterMap_append

@[simp] theorem callIds_append : callIds (trace ++ new) = callIds trace ++ callIds new :=
  List.filterMap_append

@[simp] theorem replyIds_append : replyIds (trace ++ new) = replyIds trace ++ replyIds new :=
  List.filterMap_append

@[simp] theorem doneIds_append : doneIds (trace ++ new) = doneIds trace ++ doneIds new :=
  List.filterMap_append

end

section

variable {trace : List (Event M)} {id : UInt64} {r r' : M} {s m : ℤ}

@[simp] theorem ids_accepted :
    acceptedIds [Event.accepted id r s m] = [id] ∧ callIds [Event.accepted id r s m] = [] ∧
      replyIds [Event.accepted id r s m] = [] ∧ doneIds [Event.accepted id r s m] = [] :=
  ⟨rfl, rfl, rfl, rfl⟩

@[simp] theorem ids_callMethod :
    acceptedIds [Event.callMethod id r s m] = [] ∧ callIds [Event.callMethod id r s m] = [id] ∧
      replyIds [Event.callMethod id r s m] = [] ∧ doneIds [Event.callMethod id r s m] = [] :=
  ⟨rfl, rfl, rfl, rfl⟩

@[simp] theorem ids_reply :
    acceptedIds [Event.reply id r] = [] ∧ callIds [Event.reply id r] = [] ∧
      replyIds [Event.reply id r] = [id] ∧ doneIds [Event.reply id r] = [] :=
  ⟨rfl, rfl, rfl, rfl⟩

@[simp] theorem ids_doneCallback :
    acceptedIds [Event.doneCallback id r r' s m] = [] ∧
      callIds [Event.doneCallback id r r' s m] = [] ∧
      replyIds [Event.doneCallback id r r' s m] = [] ∧
      doneIds [Event.doneCallback id r r' s m] = [id] :=
  ⟨rfl, rfl, rfl, rfl⟩

theorem mem_acceptedIds : id ∈ acceptedIds trace ↔ ∃ r s m, Event.accepted id r s m ∈ trace := by
  rw [acceptedIds, List.mem_filterMap]
  constructor
  · rintro ⟨e, he, hid⟩
    cases e with
    | accepted id' r s m =>
      cases hid
      exact ⟨r, s, m, he⟩
    | _ => cases hid
  · rintro ⟨r, s, m, he⟩
    exact ⟨_, he, rfl⟩

theorem mem_callIds : id ∈ callIds trace ↔ ∃ r s m, Event.callMethod id r s m ∈ trace := by
  rw [callIds, List.mem_filterMap]
  constructor
  · rintro ⟨e, he, hid⟩
    cases e with
    | callMethod id' r s m =>
      cases hid
      exact ⟨r, s, m, he⟩
    | _ => cases hid
  · rintro ⟨r, s, m, he⟩
    exact ⟨_, he, rfl⟩

theorem mem_replyIds : id ∈ replyIds trace ↔ ∃ r, Event.reply id r ∈ trace := by
  rw [replyIds, List.mem_filterMap]
  constructor
  · rintro ⟨e, he, hid⟩
    cases e with
    | reply id' r =>
      cases hid
      exact ⟨r, he⟩
    | _ => cases hid
  · rintro ⟨r, he⟩
    exact ⟨_, he, rfl⟩

theorem mem_doneIds :
    id ∈ doneIds trace ↔ ∃ r r' s m, Event.doneCallback id r r' s m ∈ trace := by
  rw [doneIds, List.mem_filterMap]
  constructor
  · rintro ⟨e, he, hid⟩
    cases e with
    | doneCallback id' r r' s m =>
      cases hid
      exact ⟨r, r', s, m, he⟩
    | _ => cases hid
  · rintro ⟨r, r', s, m, he⟩
    exact ⟨_, he, rfl⟩

/-- An element that `f` keeps, when `f` keeps none of those appended. -/
theorem mem_of_filterMap_eq_nil {α β : Type*} {f : α → Option β} {l l' : List α} {a : α} {b : β}
    (hn : l'.filterMap f = []) (ha : f a = some b) (h : a ∈ l ++ l') : a ∈ l := by
  refine (List.mem_append.mp h).resolve_right fun hmem => ?_
  have hb : b ∈ l'.filterMap f := List.mem_filterMap.mpr ⟨a, hmem, ha⟩
  rw [hn] at hb
  cases hb

variable {new : List (Event M)}

/-- A request that was sent, when none was sent since. -/
theorem accepted_mem_of_append (hn : acceptedIds new = [])
    (h : .accepted id r s m ∈ trace ++ new) : .accepted id r s m ∈ trace :=
  mem_of_filterMap_eq_nil hn rfl h

/-- A call that was served, when none was served since. -/
theorem callMethod_mem_of_append (hn : callIds new = [])
    (h : .callMethod id r s m ∈ trace ++ new) : .callMethod id r s m ∈ trace :=
  mem_of_filterMap_eq_nil hn rfl h

/-- A response that was sent, when none was sent since. -/
theorem reply_mem_of_append (hn : replyIds new = [])
    (h : .reply id r ∈ trace ++ new) : .reply id r ∈ trace :=
  mem_of_filterMap_eq_nil hn rfl h

/-- A call that was completed, when none was completed since. -/
theorem doneCallback_mem_of_append (hn : doneIds new = [])
    (h : .doneCallback id r r' s m ∈ trace ++ new) : .doneCallback id r r' s m ∈ trace :=
  mem_of_filterMap_eq_nil hn rfl h

end

/-! ### Ids -/

/-- The id of the request sent after `i` others. -/
def idOf (i : ℕ) : UInt64 := UInt64.ofNat (i + 1)

/-- The first `2^64` ids are different. -/
theorem idOf_injOn {i j : ℕ} (hi : i < 2 ^ 64) (hj : j < 2 ^ 64) (h : idOf i = idOf j) : i = j := by
  have hmod : (i + 1) % 2 ^ 64 = (j + 1) % 2 ^ 64 := by
    simpa [idOf] using congrArg UInt64.toNat h
  omega

/-- So they are without repetition. -/
theorem nodup_map_idOf {n : ℕ} (hn : n ≤ 2 ^ 64) : ((List.range n).map idOf).Nodup := by
  refine List.Nodup.map_on (fun i hi j hj h => ?_) List.nodup_range
  rw [List.mem_range] at hi hj
  exact idOf_injOn (by omega) (by omega) h

/-- Where the values are without repetition, a value is of one element. -/
theorem eq_of_nodup_filterMap {α β : Type*} {f : α → Option β} {l : List α} {a a' : α} {b : β}
    (h : (l.filterMap f).Nodup) (ha : a ∈ l) (ha' : a' ∈ l) (hb : f a = some b)
    (hb' : f a' = some b) : a = a' := by
  induction l with
  | nil => cases ha
  | cons c l ih =>
    have hmem : ∀ {x}, x ∈ l → f x = some b → b ∈ l.filterMap f := fun hx hfx =>
      List.mem_filterMap.mpr ⟨_, hx, hfx⟩
    by_cases hc : f c = some b
    · rw [List.filterMap_cons_some hc, List.nodup_cons] at h
      rcases List.mem_cons.mp ha with rfl | ha
      · rcases List.mem_cons.mp ha' with rfl | ha'
        · rfl
        · exact absurd (hmem ha' hb') h.1
      · exact absurd (hmem ha hb) h.1
    · have hsub : ((l.filterMap f).Sublist ((c :: l).filterMap f)) :=
        (List.sublist_cons_self c l).filterMap f
      have hne : ∀ {x}, x ∈ c :: l → f x = some b → x ∈ l := fun hx hfx =>
        (List.mem_cons.mp hx).resolve_left fun hxc => hc (hxc ▸ hfx)
      exact ih (h.sublist hsub) (hne ha hb) (hne ha' hb')

/-! ### The invariant -/

/-- What connects the ids, the table and the callbacks. -/
structure Matched (p : Peer M) : Prop where
  /-- `m_id` counts the requests. -/
  mId : p.mId = UInt64.ofNat (acceptedIds p.trace).length
  /-- They are numbered from `1` on. -/
  ids : acceptedIds p.trace = (List.range (acceptedIds p.trace).length).map idOf
  /-- An entry is of a request that was sent, and says what it was sent with. -/
  outstanding : ∀ id out, p.mOutstandings.lookup id = some out →
    .accepted id out.request out.serviceType out.methodIndex ∈ p.trace
  /-- A callback is of a request that was sent, and runs with what it was sent with. -/
  done : ∀ id r resp s m, .doneCallback id r resp s m ∈ p.trace → .accepted id r s m ∈ p.trace
  /-- A call that is completed has no entry any more, and is completed once. -/
  once : (acceptedIds p.trace).length ≤ 2 ^ 64 →
    (doneIds p.trace).Nodup ∧ ∀ id ∈ doneIds p.trace, p.mOutstandings.lookup id = none

namespace Matched

variable {p p' : Peer M}

theorem initial {d : UInt64} : Matched ({ mDelayResponseId := d } : Peer M) where
  mId := rfl
  ids := rfl
  outstanding := by simp
  done := by simp
  once := by simp [doneIds]

/-- No two requests have one id. -/
theorem nodup (h : Matched p) (hle : (acceptedIds p.trace).length ≤ 2 ^ 64) :
    (acceptedIds p.trace).Nodup := by
  rw [h.ids]
  exact nodup_map_idOf hle

/-- Two requests with one id are one. -/
theorem accepted_unique (h : Matched p) (hle : (acceptedIds p.trace).length ≤ 2 ^ 64)
    {id : UInt64} {r r' : M} {s s' m m' : ℤ} (he : .accepted id r s m ∈ p.trace)
    (he' : .accepted id r' s' m' ∈ p.trace) : r = r' ∧ s = s' ∧ m = m' := by
  cases eq_of_nodup_filterMap (h.nodup hle) he he' rfl rfl
  exact ⟨rfl, rfl, rfl⟩

/-- The id of a request is at most `m_id`. -/
theorem mem_range (h : Matched p) (hlt : (acceptedIds p.trace).length < 2 ^ 64) {id : UInt64}
    (hid : id ∈ acceptedIds p.trace) : 1 ≤ id ∧ id ≤ p.mId := by
  rw [h.ids, List.mem_map] at hid
  obtain ⟨i, hi, rfl⟩ := hid
  rw [List.mem_range] at hi
  rw [h.mId, UInt64.le_iff_toNat_le, UInt64.le_iff_toNat_le, idOf, UInt64.toNat_ofNat',
    UInt64.toNat_ofNat', Nat.mod_eq_of_lt (by omega), Nat.mod_eq_of_lt hlt]
  exact ⟨Nat.succ_le_succ (Nat.zero_le i), by omega⟩

/-- Nothing changes but the rest of the state, and the history of calls served. -/
theorem quiet (h : Matched p) (new : List (Event M)) (hid : p'.mId = p.mId)
    (ho : p'.mOutstandings = p.mOutstandings) (ht : p'.trace = p.trace ++ new)
    (ha : acceptedIds new = []) (hd : doneIds new = []) : Matched p' := by
  have hacc : acceptedIds p'.trace = acceptedIds p.trace := by
    rw [ht, acceptedIds_append, ha, List.append_nil]
  have hdone : doneIds p'.trace = doneIds p.trace := by
    rw [ht, doneIds_append, hd, List.append_nil]
  constructor
  · rw [hid, hacc]
    exact h.mId
  · rw [hacc]
    exact h.ids
  · intro id out hl
    rw [ho] at hl
    rw [ht]
    exact List.mem_append_left _ (h.outstanding id out hl)
  · intro id r resp s m he
    rw [ht] at he ⊢
    exact List.mem_append_left _ (h.done id r resp s m (doneCallback_mem_of_append hd he))
  · rw [hacc, hdone, ho]
    exact h.once

/-- `RpcChannel::Send`. -/
theorem sendRequest (h : Matched p) (P : Protobuf M D) (request : M) (info : SServiceInfo) :
    Matched (p.sendRequest P request info) := by
  have hnew : p.mId + 1 = idOf (acceptedIds p.trace).length := by
    rw [h.mId, idOf, UInt64.ofNat_add]
    rfl
  have hids : acceptedIds (p.sendRequest P request info).trace =
      (List.range ((acceptedIds p.trace).length + 1)).map idOf := by
    rw [List.range_succ, List.map_append, ← h.ids, List.map_singleton, ← hnew]
    simp
  have hlen : (acceptedIds (p.sendRequest P request info).trace).length =
      (acceptedIds p.trace).length + 1 := by
    rw [hids, List.length_map, List.length_range]
  constructor
  · rw [hlen, ← idOf]
    exact hnew
  · rw [hlen]
    exact hids
  · intro id out hl
    simp only [sendRequest_mOutstandings, sendRequest_trace] at hl ⊢
    by_cases hid : id = p.mId + 1
    · subst hid
      rw [AList.lookup_insert, Option.some.injEq] at hl
      subst hl
      simp
    · rw [AList.lookup_insert_ne hid] at hl
      exact List.mem_append_left _ (h.outstanding id out hl)
  · intro id r resp s m he
    simp only [sendRequest_trace, List.mem_append, List.mem_singleton,
      reduceCtorEq, or_false] at he ⊢
    exact .inl (h.done id r resp s m he)
  · intro hle
    rw [hlen] at hle
    have hdone : doneIds (p.sendRequest P request info).trace = doneIds p.trace := by
      simp
    rw [hdone]
    obtain ⟨hn, hnone⟩ := h.once (by omega)
    refine ⟨hn, fun id hid => ?_⟩
    -- the new id is of no request before, and so of no call that is completed
    have hne : id ≠ p.mId + 1 := by
      intro heq
      obtain ⟨r, resp, s, m, he⟩ := mem_doneIds.mp hid
      have hacc := mem_acceptedIds.mpr ⟨r, s, m, h.done id r resp s m he⟩
      rw [h.ids, List.mem_map] at hacc
      obtain ⟨i, hi, hi'⟩ := hacc
      rw [List.mem_range] at hi
      have := idOf_injOn (by omega) (by omega) (hi'.trans (heq.trans hnew))
      omega
    simp only [sendRequest_mOutstandings, AList.lookup_insert_ne hne]
    exact hnone id hid

/-- An entry is removed without a callback. -/
theorem erase (h : Matched p) (id : UInt64) :
    Matched { p with mOutstandings := p.mOutstandings.erase id } := by
  refine ⟨h.mId, h.ids, fun id' out hl => h.outstanding id' out (lookup_of_lookup_erase hl),
    h.done, fun hlen => ?_⟩
  refine ⟨(h.once hlen).1, fun id' hid' => ?_⟩
  by_contra hne
  obtain ⟨out, hl⟩ := Option.ne_none_iff_exists'.mp hne
  have := (h.once hlen).2 id' hid'
  rw [lookup_of_lookup_erase hl] at this
  cases this

/-- `Service::DoneCallback` is called for an entry. -/
theorem completed (h : Matched p) {id : UInt64} {out : OutstandingCall M} {response : M}
    (hl : p.mOutstandings.lookup id = some out) : Matched (p.completed id out response) := by
  have hacc : acceptedIds (p.completed id out response).trace = acceptedIds p.trace := by
    simp
  constructor
  · rw [hacc]
    exact h.mId
  · rw [hacc]
    exact h.ids
  · intro id' out' hl'
    exact List.mem_append_left _ ((h.erase id).outstanding id' out' hl')
  · intro id' r resp s m he
    rw [Peer.completed, List.mem_append, List.mem_singleton] at he
    apply List.mem_append_left _
    rcases he with he | he
    · exact h.done id' r resp s m he
    · cases he
      exact h.outstanding id out hl
  · intro hle
    rw [hacc] at hle
    obtain ⟨hn, hnone⟩ := h.once hle
    have hdone : doneIds (p.completed id out response).trace = doneIds p.trace ++ [id] := by
      simp
    have hnot : id ∉ doneIds p.trace := by
      intro hid
      rw [hnone id hid] at hl
      cases hl
    rw [hdone]
    refine ⟨hn.append (List.nodup_singleton id) (by simpa using hnot), fun id' hid' => ?_⟩
    rw [List.mem_append, List.mem_singleton] at hid'
    by_cases hid : id' = id
    · subst hid
      exact AList.lookup_erase _ _
    · exact ((h.erase id).once hle).2 id' (hid'.resolve_right hid)

/-- `RpcChannel::DoneCallback`. -/
theorem doneCallback (h : Matched p) {P : Protobuf M D} {response : Option M} {id accid : UInt64}
    {from_ : EServerType} : Matched (p.doneCallback P response id accid from_) := by
  cases response with
  | none => exact h
  | some response => exact h.quiet [.reply id response] rfl rfl rfl rfl rfl

variable {P : Protobuf M D} [DecidableEq D] {g : Generated D}

/-- A call of the user's code. -/
theorem actStep (h : Matched p) {a : Act M} (hs : ActStep P g p a p') : Matched p' := by
  cases hs with
  | send hi => exact h.sendRequest P _ _
  | noSend hr => exact h
  | newDelayResponse args => exact h.quiet [] rfl rfl (List.append_nil _).symm rfl rfl
  | fill hx => exact h.quiet [] rfl rfl (List.append_nil _).symm rfl rfl
  | noDelayResponse hx => exact h
  | dropDelayResponse hx hr => exact h.quiet [] rfl rfl (List.append_nil _).symm rfl rfl
  | doDelayResponse hx hr => exact h.quiet [.reply _ _] rfl rfl rfl rfl rfl
  | setAccid accid => exact h.quiet [] rfl rfl (List.append_nil _).symm rfl rfl

/-- The calls of a handler or a callback. -/
theorem acts (h : Matched p) {acts : List (Act M)} (ha : run (Peer.act P g) p acts = some p') :
    Matched p' :=
  run_invariant (Peer.act P g) h (fun _ _ _ h hs => h.actStep (ActStep.of_act hs)) ha

/-- A message of the other side. -/
theorem onMessage (h : Matched p) {message : RpcMessage} {handler : Handler M}
    {callback : List (Act M)} (hs : OnMessage P g p message handler callback p') : Matched p' := by
  have hcalled : ∀ request, Matched (p.called message request) := fun request =>
    h.quiet [.callMethod message.id request message.service message.method] rfl rfl rfl
      rfl rfl
  cases hs with
  | other ht => exact h
  | emptyResponse ht hr => exact h
  | notFound ht hl => exact h
  | stubNoService ht hr hl hs => exact h.erase _
  | callback ht hr hl hm ha => exact (h.completed hl).acts ha
  | noService ht hs => exact h.quiet [] rfl rfl (List.append_nil _).symm rfl rfl
  | wrongProto ht hm hp => exact h.quiet [] rfl rfl (List.append_nil _).symm rfl rfl
  | noReply ht hm hp ha hn => exact (hcalled _).acts ha
  | reply ht hm hp ha hne hd hr => exact ((hcalled _).acts ha).doneCallback

end Matched

/-! ### What changes an entry -/

section

variable {P : Protobuf M D} [DecidableEq D] {g : Generated D} {p p' : Peer M}

/-- A call leaves an entry as it is, or it is the `Send` that made it. -/
theorem entries_of_actStep {a : Act M} (h : ActStep P g p a p') : ∃ new, p'.trace = p.trace ++ new ∧
    ∀ id, p'.mOutstandings.lookup id = p.mOutstandings.lookup id ∨
      ∃ out, p'.mOutstandings.lookup id = some out ∧ a = .send (some out.request) ∧
        .accepted id out.request out.serviceType out.methodIndex ∈ new := by
  cases h with
  | @send request info hi =>
    refine ⟨[.accepted (p.mId + 1) request info.serviceType info.methodIndex], rfl, fun id => ?_⟩
    by_cases hid : id = p.mId + 1
    · subst hid
      exact .inr ⟨_, AList.lookup_insert _, rfl, List.mem_singleton_self _⟩
    · exact .inl (AList.lookup_insert_ne hid)
  | doDelayResponse hx hr => exact ⟨[.reply _ _], rfl, fun id => .inl rfl⟩
  | noSend | newDelayResponse | fill | noDelayResponse | dropDelayResponse | setAccid =>
    exact ⟨[], (List.append_nil _).symm, fun id => .inl rfl⟩

/-- The calls of a handler or a callback leave an entry as it is, or one of them is the
`Send` that made it. -/
theorem entries_of_acts {acts : List (Act M)} (h : run (Peer.act P g) p acts = some p') :
    ∃ new, p'.trace = p.trace ++ new ∧
      ∀ id, p'.mOutstandings.lookup id = p.mOutstandings.lookup id ∨
        ∃ out, p'.mOutstandings.lookup id = some out ∧ .send (some out.request) ∈ acts ∧
          .accepted id out.request out.serviceType out.methodIndex ∈ new := by
  induction acts generalizing p with
  | nil =>
    cases h
    exact ⟨[], (List.append_nil _).symm, fun id => .inl rfl⟩
  | cons a acts ih =>
    obtain ⟨q, ha, hrun⟩ := Option.bind_eq_some_iff.mp h
    obtain ⟨new, ht, hstep⟩ := entries_of_actStep (ActStep.of_act ha)
    obtain ⟨new', ht', hacts⟩ := ih hrun
    refine ⟨new ++ new', by rw [ht', ht, List.append_assoc], fun id => ?_⟩
    rcases hacts id with hsame | ⟨out, hl, hmem, hacc⟩
    · rcases hstep id with hsame' | ⟨out, hl, rfl, hacc⟩
      · exact .inl (hsame.trans hsame')
      · exact .inr ⟨out, hsame.trans hl, List.mem_cons_self, List.mem_append_left _ hacc⟩
    · exact .inr ⟨out, hl, List.mem_cons_of_mem _ hmem, List.mem_append_right _ hacc⟩

/-- A request of the other side leaves an entry as it is, or its handler made the `Send`
that made the entry. -/
theorem entries_of_onMessage {message : RpcMessage} {handler : Handler M} {callback : List (Act M)}
    (h : OnMessage P g p message handler callback p') (ht : message.type = .request) :
    ∃ new, p'.trace = p.trace ++ new ∧
      ∀ id, p'.mOutstandings.lookup id = p.mOutstandings.lookup id ∨
        ∃ out, p'.mOutstandings.lookup id = some out ∧ .send (some out.request) ∈ handler.acts ∧
          .accepted id out.request out.serviceType out.methodIndex ∈ new := by
  cases h with
  | noService | wrongProto => exact ⟨[], (List.append_nil _).symm, fun id => .inl rfl⟩
  | @noReply method request p' ht hm hp ha hn =>
    obtain ⟨new, hnew, hacts⟩ := entries_of_acts ha
    refine ⟨.callMethod message.id request message.service message.method :: new, ?_, fun id => ?_⟩
    · rw [hnew, Peer.called, List.append_assoc]
      rfl
    · rcases hacts id with hsame | ⟨out, hl, hmem, hacc⟩
      · exact .inl hsame
      · exact .inr ⟨out, hl, hmem, List.mem_cons_of_mem _ hacc⟩
  | @reply method request q ht hm hp ha hne hd hr =>
    obtain ⟨new, hnew, hacts⟩ := entries_of_acts ha
    refine ⟨.callMethod message.id request message.service message.method ::
      (new ++ [.reply message.id handler.response]), ?_, fun id => ?_⟩
    · rw [Peer.doneCallback, Peer.sendMessage, hnew, Peer.called, List.append_assoc,
        List.append_assoc]
      rfl
    · rcases hacts id with hsame | ⟨out, hl, hmem, hacc⟩
      · exact .inl hsame
      · exact .inr ⟨out, hl, hmem, List.mem_cons_of_mem _ (List.mem_append_left _ hacc)⟩
  | other ht' | emptyResponse ht' | notFound ht' | stubNoService ht' | callback ht' =>
    rw [ht] at ht'
    cases ht'

/-- So a request of the other side removes and alters no entry. -/
theorem Matched.entry_stays (h : Matched p) {message : RpcMessage} {handler : Handler M}
    {callback : List (Act M)} (hs : OnMessage P g p message handler callback p')
    (ht : message.type = .request) (hle : (acceptedIds p'.trace).length ≤ 2 ^ 64) {id : UInt64}
    {out : OutstandingCall M} (hl : p.mOutstandings.lookup id = some out) :
    p'.mOutstandings.lookup id = some out := by
  obtain ⟨new, hnew, hentries⟩ := entries_of_onMessage hs ht
  rcases hentries id with hsame | ⟨out', hl', hmem, hacc⟩
  · exact hsame.trans hl
  · -- the id would be given out twice
    have hnodup := (h.onMessage hs).nodup hle
    rw [hnew, acceptedIds_append] at hnodup
    exact absurd (mem_acceptedIds.mpr ⟨_, _, _, hacc⟩) fun hid =>
      List.disjoint_of_nodup_append hnodup
        (mem_acceptedIds.mpr ⟨_, _, _, h.outstanding id out hl⟩) hid

end

/-! ### Runs -/

section

variable (P : Protobuf M D) [DecidableEq D] (g : Generated D)

/-- A step: a call from outside, or a message with what the user's code does when the
message calls it. -/
inductive Label (M : Type*) where
  | act (a : Act M)
  | onMessage (data : Bytes) (handler : Handler M) (callback : List (Act M))

/-- A step of the channel in an arbitrary environment. -/
def Peer.step (p : Peer M) : Label M → Option (Peer M)
  | .act a => p.act P g a
  | .onMessage data handler callback => p.onMessage P g data handler callback

variable {P g}

/-- What every call and every message keep holds in every run of the channel. -/
theorem invariant_peer_run {I : Peer M → Prop} {p₀ p : Peer M} (h₀ : I p₀)
    (hact : ∀ p a p', I p → ActStep P g p a p' → I p')
    (hmessage : ∀ p message handler callback p', I p →
      OnMessage P g p message handler callback p' → I p')
    {labels : List (Label M)} (h : run (Peer.step P g) p₀ labels = some p) : I p := by
  refine run_invariant (Peer.step P g) h₀ (fun p l p' hp hs => ?_) h
  cases l with
  | act a => exact hact p a p' hp (.of_act hs)
  | onMessage data handler callback =>
    exact hmessage p _ handler callback p' hp (.of_handleMessage hs)

/-- The invariant holds after every run. -/
theorem matched_run {d : UInt64} {labels : List (Label M)} {p : Peer M}
    (h : run (Peer.step P g) { mDelayResponseId := d } labels = some p) : Matched p :=
  invariant_peer_run Matched.initial (fun _ _ _ hp hs => hp.actStep hs)
    (fun _ _ _ _ _ hp hs => hp.onMessage hs) h

/-- **At most once, and matched**: after any calls and any messages, with fewer than
`2^64 - 1` requests sent, the keys of `m_outstandings` lie in `1..m_id`, the requests have
different ids, and each is completed at most once, with its own request, service and method;
a response with an id that is not outstanding changes nothing; and a request of the other
side leaves every entry as it is and adds one only for a `Send` of its handler. -/
theorem completed_run {d : UInt64} {labels : List (Label M)} {p : Peer M}
    (h : run (Peer.step P g) { mDelayResponseId := d } labels = some p)
    (hlt : (acceptedIds p.trace).length < 2 ^ 64 - 1) :
    (∀ id ∈ p.mOutstandings.keys, 1 ≤ id ∧ id ≤ p.mId) ∧
    (acceptedIds p.trace).Nodup ∧
    (doneIds p.trace).Nodup ∧
    (∀ id r resp s m, .doneCallback id r resp s m ∈ p.trace → .accepted id r s m ∈ p.trace) ∧
    (∀ data handler callback, (P.parseRpcMessage data).1.type = .response →
      (P.parseRpcMessage data).1.id ∉ p.mOutstandings →
      p.onMessage P g data handler callback = some p) ∧
    ∀ data handler callback p', (P.parseRpcMessage data).1.type = .request →
      p.onMessage P g data handler callback = some p' →
      (acceptedIds p'.trace).length < 2 ^ 64 - 1 →
      (∀ id ∈ p.mOutstandings, p'.mOutstandings.lookup id = p.mOutstandings.lookup id) ∧
      ∃ new, p'.trace = p.trace ++ new ∧
        ∀ id out, id ∉ p.mOutstandings → p'.mOutstandings.lookup id = some out →
          .send (some out.request) ∈ handler.acts ∧
            .accepted id out.request out.serviceType out.methodIndex ∈ new := by
  have hp := matched_run h
  refine ⟨fun id hid => ?_, hp.nodup (by omega), (hp.once (by omega)).1, hp.done, ?_, ?_⟩
  · obtain ⟨out, hl⟩ := Option.isSome_iff_exists.mp (AList.lookup_isSome.mpr hid)
    exact hp.mem_range (by omega) (mem_acceptedIds.mpr ⟨_, _, _, hp.outstanding id out hl⟩)
  · intro data handler callback ht hid
    rw [← AList.lookup_eq_none] at hid
    rw [Peer.onMessage, Peer.handleMessage, ht]
    simp only [Peer.stubHandleResponseMsg, hid, ite_self]
  · intro data handler callback p' ht hs hlt'
    have hs := OnMessage.of_handleMessage hs
    constructor
    · intro id hid
      obtain ⟨out, hl⟩ := Option.isSome_iff_exists.mp (AList.lookup_isSome.mpr hid)
      rw [hl]
      exact hp.entry_stays hs ht (by omega) hl
    · obtain ⟨new, hnew, hentries⟩ := entries_of_onMessage hs ht
      refine ⟨new, hnew, fun id out hid hl => ?_⟩
      rcases hentries id with hsame | ⟨out', hl', hmem, hacc⟩
      · rw [AList.lookup_eq_none.mpr hid, hl] at hsame
        cases hsame
      · rw [hl, Option.some.injEq] at hl'
        subst hl'
        exact ⟨hmem, hacc⟩

end

/-! ### The sign-in call -/

section

open SignIn

/-- The client signs in. While its call is outstanding, a response with another id arrives
and a request with the id of the call, whose handler sends; then the response, whose
callback signs in again, and the response once more. -/
def signInLabels : List (Label Msg) :=
  [.act (.send (some (.userSignInArg 7))),
    .onMessage (protobuf.serializeRpcMessage { signInReply true with id := 9 })
      ⟨[], false, .emptyResponse⟩ [],
    .onMessage (protobuf.serializeRpcMessage { type := .request, id := 1, service := 2 })
      ⟨[.send (some .notifyLoadedSceneArg)], false, .emptyResponse⟩ [],
    .onMessage (protobuf.serializeRpcMessage (signInReply true))
      ⟨[], false, .emptyResponse⟩ [.send (some (.userSignInArg 8))],
    .onMessage (protobuf.serializeRpcMessage (signInReply true))
      ⟨[], false, .emptyResponse⟩ []]

/-- The channel after it. -/
def signInAgain : Peer Msg :=
  (run (Peer.step protobuf generated) { mDelayResponseId := 0 } signInLabels).getD
    { mDelayResponseId := 0 }

/-- Three requests were sent, one call was completed. -/
theorem completed_run_signIn :
    acceptedIds signInAgain.trace = [1, 2, 3] ∧ doneIds signInAgain.trace = [1] ∧
      (acceptedIds signInAgain.trace).Nodup ∧ (doneIds signInAgain.trace).Nodup := by
  have h := @completed_run _ _ protobuf _ generated 0 signInLabels signInAgain rfl (by decide)
  exact ⟨by decide, by decide, h.2.1, h.2.2.1⟩

end

end ThirdPersonMP.Rpc
