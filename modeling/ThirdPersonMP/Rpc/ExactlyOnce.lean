import ThirdPersonMP.Rpc.Server

/-!
# Exactly one reply

Requests of registered services arrive, their ids and bodies arbitrary. Their handlers
answer at once, or delay and have the response filled in before `DoDelayResponse` is called
with the id; that may be called with any id at any time (`ServeOk`).

* `Exact` — how many replies each request has got, and what connects the delay ids that
  were given out, the table and the requests; `todo` is what the handler that runs is
  still to ask for. `Exact.acted` is the step lemma for a call of the user's code,
  `Exact.handled` that for a message.
* `exactlyOnce_run` — each request gets one reply: when its body does not parse, when its
  handler did not delay and the method's response is not an `EmptyResponse`, and at the
  first `DoDelayResponse` of its delay id, when it delayed.
-/

namespace ThirdPersonMP.Rpc

open Base Library

variable {M D : Type*}

section

variable (P : Protobuf M D) [DecidableEq D] (g : Generated D)

/-! ### The user's code -/

/-- `DoDelayResponse` is called after the response was filled in. -/
def FilledOk (p : Peer M) : Act M → Prop
  | .doDelayResponse x => ∀ e ∈ p.mDelayResponse.lookup x, e.response.isSome = true
  | _ => True

/-- A request is of a method of a registered service, and its handler delays as it should;
nothing else calls `NewDelayResponse`. -/
def ServeOk (p : Peer M) : Label M → Prop
  | .act a => a.delays = none ∧ FilledOk p a
  | .onMessage data handler callback =>
    ((P.parseRpcMessage data).1.type = .request → (findMethod g (P.parseRpcMessage data).1.service
      (P.parseRpcMessage data).1.method).isSome = true) ∧
    DelayOk (P.parseRpcMessage data).1 handler callback ∧
    EachCall P g FilledOk p (P.parseRpcMessage data).1 handler callback

instance : ∀ (p : Peer M) (a : Act M), Decidable (FilledOk p a)
  | p, .doDelayResponse x =>
    inferInstanceAs (Decidable (∀ e ∈ p.mDelayResponse.lookup x, e.response.isSome = true))
  | _, .send _ | _, .newDelayResponse _ | _, .fill _ _ | _, .setAccid _ =>
    inferInstanceAs (Decidable True)

instance : ∀ (p : Peer M) (l : Label M), Decidable (ServeOk P g p l)
  | p, .act a => inferInstanceAs (Decidable (a.delays = none ∧ FilledOk p a))
  | _, .onMessage _ _ _ => inferInstanceAs (Decidable ((_ → _) ∧ _ ∧ _))

/-! ### The invariant -/

/-- How many replies a request of the method gets. -/
def Call.expected (method : MethodDescriptor D) (call : Call) : ℕ :=
  if call.delayed then
    if call.triggered then 1 else 0
  else if (P.parseFromString method.requestPrototype call.message.request).2 = true ∧
      method.responsePrototype = P.emptyResponse then 0
  else 1

variable {P} in
theorem Call.expected_of_delayed {method : MethodDescriptor D} {call : Call}
    (h : call.delayed = true) : call.expected P method = if call.triggered then 1 else 0 := by
  rw [expected, if_pos h]

namespace Server

/-- While the handler of the request `current` runs and is still to call `NewDelayResponse`
with the arguments `todo`. -/
structure Counted (current : Option ℕ) (todo : List SRpcChannelMethodArgs) (s : Server M) :
    Prop where
  /-- Every delayed response is of a request. -/
  keys : ∀ x ∈ s.peer.mDelayResponse, ∃ n, s.owner x = some n
  /-- A delay id is of a request that was delayed, and in the table until it is triggered. -/
  owned : ∀ x n, s.owner x = some n → ∃ call, s.calls[n]? = some call ∧ call.delayed = true ∧
    (call.triggered = false ↔ x ∈ s.peer.mDelayResponse)
  /-- A request has at most one. -/
  once : ∀ x y n, s.owner x = some n → s.owner y = some n → x = y
  /-- A request that was delayed has one. -/
  asked : ∀ n call, s.calls[n]? = some call → call.delayed = true →
    (current = some n → todo = []) → ∃ x, s.owner x = some n
  /-- The request that is to ask for one has none yet. -/
  owing : todo ≠ [] → todo.length = 1 ∧ ∃ n call, current = some n ∧ s.calls[n]? = some call ∧
    call.delayed = true ∧ call.triggered = false ∧ ∀ x, s.owner x ≠ some n
  /-- The replies to a request. -/
  count : ∀ n call, s.calls[n]? = some call →
    ∃ method, Finds g call.message.service call.message.method method ∧
      call.replies.length =
        if current = some n ∧ call.delayed = false then 0 else call.expected P method
  /-- The responses sent are the replies to the requests. -/
  responses : (s.peer.out.filter (·.type = .response)).Perm (s.calls.flatMap Call.replies)

/-- The ids are given out one after the other, and as long as there are different ones, each
request gets the replies it should. -/
structure Exact (d : UInt64) (current : Option ℕ) (todo : List SRpcChannelMethodArgs)
    (s : Server M) : Prop where
  last : s.peer.mDelayResponseId = d + UInt64.ofNat s.delays.length
  ids : (s.delays.map Prod.fst).reverse = (List.range s.delays.length).map fun i => d + idOf i
  counted : s.delays.length ≤ 2 ^ 64 → Counted P g current todo s

variable {P g} {s s' : Server M} {d : UInt64} {current : Option ℕ}
  {todo : List SRpcChannelMethodArgs}

theorem Exact.initial : Exact P g d none [] (.initial d : Server M) where
  last := by simp [Server.initial]
  ids := rfl
  counted _ := by
    constructor <;> simp [Server.initial, owner]

/-- The id that `NewDelayResponse` gives out next was not given out before. -/
theorem Exact.fresh (h : Exact P g d current todo s) (hlt : s.delays.length < 2 ^ 64) :
    s.owner (s.peer.mDelayResponseId + 1) = none := by
  have hnew : s.peer.mDelayResponseId + 1 = d + idOf s.delays.length := by
    rw [h.last, UInt64.add_assoc, idOf, UInt64.ofNat_add]
    rfl
  have hnot : s.peer.mDelayResponseId + 1 ∉ s.delays.map Prod.fst := by
    intro hmem
    rw [← List.mem_reverse, h.ids, List.mem_map] at hmem
    obtain ⟨i, hi, hid⟩ := hmem
    rw [List.mem_range] at hi
    rw [hnew, UInt64.add_right_inj] at hid
    have := idOf_injOn (by omega) hlt hid
    omega
  rw [owner, List.lookup_eq_none_iff.mpr, Option.join_none]
  intro y hy
  refine bne_iff_ne.mpr fun hxy => hnot ?_
  exact List.mem_map.mpr ⟨y, hy, hxy.symm⟩

/-! ### Calls of the user's code -/

namespace Counted

/-- Between two steps no handler runs. -/
theorem count_none (h : Counted P g none todo s) {n : ℕ} {call : Call}
    (hcall : s.calls[n]? = some call) :
    ∃ method, Finds g call.message.service call.message.method method ∧
      call.replies.length = call.expected P method := by
  obtain ⟨method, hfind, hcount⟩ := h.count n call hcall
  exact ⟨method, hfind, hcount.trans (if_neg fun hn => Option.some_ne_none _ hn.1.symm)⟩

/-- The responses sent, when some more are, as replies to the same request. -/
theorem responses_modify (h : Counted P g current todo s) {n : ℕ} {call : Call}
    {new : List RpcMessage} {f : Call → Call} (hcall : s.calls[n]? = some call)
    (hf : (f call).replies = call.replies ++ new) (htype : ∀ reply ∈ new, reply.type = .response) :
    ((s.peer.out ++ new).filter (·.type = .response)).Perm
      ((s.calls.modify n f).flatMap Call.replies) := by
  have hnew : new.filter (·.type = .response) = new :=
    List.filter_eq_self.mpr fun reply hreply => by simpa using htype reply hreply
  rw [List.filter_append, hnew]
  exact (h.responses.append_right new).trans (perm_flatMap_modify hcall hf).symm

/-- Nothing changes but the contents of the table. -/
theorem congr (h : Counted P g current todo s) (hcalls : s'.calls = s.calls)
    (hdelays : s'.delays = s.delays)
    (htable : ∀ x, x ∈ s'.peer.mDelayResponse ↔ x ∈ s.peer.mDelayResponse)
    (hout : s'.peer.out.filter (·.type = .response) = s.peer.out.filter (·.type = .response)) :
    Counted P g current todo s' := by
  have howner : ∀ x, s'.owner x = s.owner x := fun x => by rw [owner, owner, hdelays]
  constructor
  · intro x hx
    rw [howner]
    exact h.keys x ((htable x).mp hx)
  · intro x n ho
    rw [howner] at ho
    rw [hcalls, htable]
    exact h.owned x n ho
  · intro x y n hx hy
    rw [howner] at hx hy
    exact h.once x y n hx hy
  · intro n call hcall hd htodo
    rw [hcalls] at hcall
    obtain ⟨x, hx⟩ := h.asked n call hcall hd htodo
    exact ⟨x, (howner x).trans hx⟩
  · intro htodo
    obtain ⟨hone, n, call, hc, hcall, hd, ht, hno⟩ := h.owing htodo
    refine ⟨hone, n, call, hc, ?_, hd, ht, fun x => ?_⟩
    · rw [hcalls]
      exact hcall
    · rw [howner]
      exact hno x
  · intro n call hcall
    rw [hcalls] at hcall
    exact h.count n call hcall
  · rw [hout, hcalls]
    exact h.responses

/-- `NewDelayResponse` in the handler that is to call it. -/
theorem newDelayResponse {args args' : SRpcChannelMethodArgs}
    (h : Counted P g current (args' :: todo) s)
    (hfresh : s.owner (s.peer.mDelayResponseId + 1) = none) :
    Counted P g current todo
      { s with
        peer := s.peer.newDelayResponse args
        delays := (s.peer.mDelayResponseId + 1, current) :: s.delays } := by
  obtain ⟨hone, n, call, rfl, hcall, hd, ht, hno⟩ := h.owing (List.cons_ne_nil _ _)
  have htodo : todo = [] := List.length_eq_zero_iff.mp (Nat.succ.inj hone)
  have hold : ∀ {y m}, s.owner y = some m → y ≠ s.peer.mDelayResponseId + 1 := by
    rintro y m hy rfl
    rw [hfresh] at hy
    cases hy
  constructor
  · intro x hx
    rw [owner_cons]
    split
    · exact ⟨n, rfl⟩
    · rename_i hne
      exact h.keys x (((AList.mem_insert _).mp hx).resolve_left hne)
  · intro x m ho
    rw [owner_cons] at ho
    split at ho
    · rename_i hx
      cases ho
      exact ⟨call, hcall, hd, iff_of_true ht ((AList.mem_insert _).mpr (.inl hx))⟩
    · rename_i hne
      obtain ⟨call', hcall', hd', ht'⟩ := h.owned x m ho
      refine ⟨call', hcall', hd', ht'.trans ?_⟩
      exact ⟨fun hx => (AList.mem_insert _).mpr (.inr hx),
        fun hx => ((AList.mem_insert _).mp hx).resolve_left hne⟩
  · intro x y m hx hy
    rw [owner_cons] at hx hy
    split at hx <;> split at hy
    · rename_i hx' hy'
      rw [hx', hy']
    · cases hx
      exact absurd hy (hno y)
    · cases hy
      exact absurd hx (hno x)
    · exact h.once x y m hx hy
  · intro m call' hcall' hd' _
    by_cases hm : m = n
    · subst hm
      exact ⟨s.peer.mDelayResponseId + 1, by rw [owner_cons, if_pos rfl]⟩
    · obtain ⟨x, hx⟩ := h.asked m call' hcall' hd' fun hc => absurd (Option.some.inj hc).symm hm
      exact ⟨x, by rw [owner_cons, if_neg (hold hx)]; exact hx⟩
  · exact fun hne => absurd htodo hne
  · exact h.count
  · exact h.responses

/-- `DoDelayResponse` with a delay id whose response was filled in. -/
theorem trigger (h : Counted P g current todo s) {x : UInt64} {e : SDelayResponse M}
    (hx : s.peer.mDelayResponse.lookup x = some e) (hr : e.response.isSome = true) :
    Counted P g current todo (s.trigger x (s.peer.doDelayResponse P x)) := by
  obtain ⟨hnone, hsame, -⟩ := doDelayResponse_table (P := P) s.peer x
  obtain ⟨new, hout, hlen, hresp⟩ := responds_doDelayResponse (P := P) hx
  have hmem : ∀ y, y ∈ (s.peer.doDelayResponse P x).mDelayResponse ↔
      y ≠ x ∧ y ∈ s.peer.mDelayResponse := by
    intro y
    rw [← AList.lookup_isSome, ← AList.lookup_isSome]
    by_cases hy : y = x
    · subst hy
      simp [hnone]
    · simp [hy, hsame y hy]
  obtain ⟨n, ho⟩ := h.keys x (AList.lookup_isSome.mp (by rw [hx]; rfl))
  obtain ⟨call, hcall, hd, ht⟩ := h.owned x n ho
  have ht : call.triggered = false := ht.mpr (AList.lookup_isSome.mp (by rw [hx]; rfl))
  have htrigger : s.trigger x (s.peer.doDelayResponse P x) =
      { s with
        peer := s.peer.doDelayResponse P x
        calls := s.calls.modify n (Call.trigger new) } := by
    rw [Server.trigger, ho, hout, List.drop_left]
  rw [htrigger]
  constructor
  · exact fun y hy => h.keys y ((hmem y).mp hy).2
  · intro y m hy
    obtain ⟨call', hcall', hd', ht'⟩ := h.owned y m hy
    refine ⟨_, getElem?_modify_eq_some.mpr ⟨call', hcall', rfl⟩, ?_⟩
    rw [hmem]
    by_cases hm : n = m
    · subst hm
      rw [if_pos rfl]
      refine ⟨hd', iff_of_false Bool.noConfusion fun hyx => hyx.1 (h.once y x n hy ho)⟩
    · rw [if_neg hm]
      refine ⟨hd', ht'.trans ⟨fun hyt => ⟨?_, hyt⟩, fun hyt => hyt.2⟩⟩
      rintro rfl
      exact hm (Option.some.inj (ho.symm.trans hy))
  · exact fun y z m hy hz => h.once y z m hy hz
  · intro m call' hcall' hd' htodo
    obtain ⟨c, hc, rfl⟩ := getElem?_modify_eq_some.mp hcall'
    refine h.asked m c hc ?_ htodo
    split at hd' <;> exact hd'
  · intro htodo
    obtain ⟨hone, m, c, hcur, hc, hcd, hct, hno⟩ := h.owing htodo
    refine ⟨hone, m, c, hcur, getElem?_modify_eq_some.mpr ⟨c, hc, ?_⟩, hcd, hct, hno⟩
    rw [if_neg]
    rintro rfl
    exact hno x ho
  · intro m call' hcall'
    obtain ⟨c, hc, rfl⟩ := getElem?_modify_eq_some.mp hcall'
    obtain ⟨method, hfind, hcount⟩ := h.count m c hc
    by_cases hm : n = m
    · subst hm
      rw [hcall, Option.some.injEq] at hc
      subst hc
      refine ⟨method, by rw [if_pos rfl]; exact hfind, ?_⟩
      -- none so far, and now the one
      have hd' : (Call.trigger new call).delayed = true := hd
      have ht' : (Call.trigger new call).triggered = true := rfl
      rw [if_neg (by simp [hd]), Call.expected_of_delayed hd, if_neg (by simp [ht])] at hcount
      rw [if_pos rfl, if_neg (by simp [hd']), Call.expected_of_delayed hd', if_pos ht',
        Call.trigger, List.length_append, hcount, hlen]
      obtain ⟨response, hr⟩ := Option.isSome_iff_exists.mp hr
      rw [hr]
      rfl
    · rw [if_neg hm]
      exact ⟨method, hfind, hcount⟩
  · rw [hout]
    exact h.responses_modify hcall rfl fun reply hreply => (hresp reply hreply).1

end Counted

namespace Exact

theorem still (h : Exact P g d current todo s) {p : Peer M} (hs : Still s.peer p) :
    Exact P g d current todo { s with peer := p } := by
  refine ⟨hs.mDelayResponseId.trans h.last, h.ids, fun hle => ?_⟩
  exact (h.counted hle).congr rfl rfl (fun x => by rw [hs.mDelayResponse]) hs.out

/-- A call of the user's code. -/
theorem acted {a : Act M} (h : Exact P g d current (a.delays.toList ++ todo) s)
    (hok : FilledOk s.peer a) (ha : Acted P current s a s') : Exact P g d current todo s' := by
  cases ha with
  | still hnone hs =>
    rw [hnone, Option.toList_none, List.nil_append] at h
    exact h.still hs
  | newDelayResponse args =>
    have hnew : s.peer.mDelayResponseId + 1 = d + UInt64.ofNat (s.delays.length + 1) := by
      rw [h.last, UInt64.add_assoc, UInt64.ofNat_add]
      rfl
    refine ⟨hnew, ?_, fun hle => ?_⟩
    · rw [List.map_cons, List.reverse_cons, h.ids, List.length_cons, List.range_succ,
        List.map_append, List.map_singleton, hnew]
      rfl
    · rw [List.length_cons] at hle
      exact (h.counted (by omega)).newDelayResponse (h.fresh (by omega))
  | @fill x e response hx =>
    refine ⟨h.last, h.ids, fun hle => (h.counted hle).congr rfl rfl (fun y => ?_) rfl⟩
    rw [AList.mem_insert]
    refine ⟨fun hy => hy.elim ?_ id, .inr⟩
    rintro rfl
    exact AList.lookup_isSome.mp (by rw [hx]; rfl)
  | doDelayResponse x =>
    have hdelays : ∀ p, (s.trigger x p).delays = s.delays := by
      intro p
      unfold Server.trigger
      split <;> rfl
    have hlast : ∀ p, (s.trigger x p).peer = p := fun p => record_peer none p (.doDelayResponse x)
    refine ⟨?_, by rw [hdelays]; exact h.ids, fun hle => ?_⟩
    · rw [hdelays, hlast, (doDelayResponse_table s.peer x).2.2]
      exact h.last
    · rw [hdelays] at hle
      have hcounted := h.counted hle
      cases hx : s.peer.mDelayResponse.lookup x with
      | some e => exact hcounted.trigger hx (hok e hx)
      | none =>
        -- the id was given to no request, or the response was sent before
        rw [doDelayResponse_of_none hx]
        have hsame : (s.trigger x s.peer).calls = s.calls := by
          unfold Server.trigger
          split
          · rfl
          · rename_i n ho
            refine modify_eq_self fun call hcall => ?_
            obtain ⟨call', hcall', hd, ht⟩ := hcounted.owned x n ho
            rw [hcall, Option.some.injEq] at hcall'
            subst hcall'
            have ht : call.triggered = true := by
              rw [← Bool.not_eq_false, ht]
              exact AList.lookup_eq_none.mp hx
            rw [Call.trigger, List.drop_length, List.append_nil, ← ht]
        exact hcounted.congr hsame (hdelays _) (fun y => by rw [hlast]) (by rw [hlast])

/-- The calls of a handler or a callback. -/
theorem acts {acts : List (Act M)}
    (h : Exact P g d current (acts.filterMap Act.delays) s)
    (hok : EachStep (Peer.act P g) FilledOk s.peer acts)
    (ha : run (act P g current) s acts = some s') : Exact P g d current [] s' := by
  rw [List.filterMap_eq_flatMap_toList] at h
  refine run_uses (act P g current) (fun rest s a s' h hok hs => ?_) ha
    (eachStep_map (act_peer current) hok) h
  exact h.acted hok (.of_act hs)

/-- `CallMethod` is called: the handler is to call `NewDelayResponse`, if it delays. -/
theorem called (h : Exact P g d none [] s) {p : Peer M} (hs : Still s.peer p)
    {message : RpcMessage} {method : MethodDescriptor D}
    (hm : Finds g message.service message.method method) (bDelay : Bool)
    (args : SRpcChannelMethodArgs) :
    Exact P g d (some s.calls.length) (if bDelay then [args] else [])
      (s.called p message bDelay) := by
  refine ⟨hs.mDelayResponseId.trans h.last, h.ids, fun hle => ?_⟩
  have hc := h.counted hle
  have hlt : ∀ {m : ℕ} {call : Call}, s.calls[m]? = some call → m < s.calls.length :=
    fun hm => (List.getElem?_eq_some_iff.mp hm).1
  constructor
  · intro x hx
    rw [Server.called, hs.mDelayResponse] at hx
    exact hc.keys x hx
  · intro x n ho
    obtain ⟨call, hcall, hd, ht⟩ := hc.owned x n ho
    refine ⟨call, getElem?_concat_eq_some.mpr (.inl hcall), hd, ?_⟩
    rw [Server.called, hs.mDelayResponse]
    exact ht
  · exact hc.once
  · intro n call hcall hd htodo
    rcases getElem?_concat_eq_some.mp hcall with hcall | ⟨rfl, rfl⟩
    · exact hc.asked n call hcall hd fun _ => rfl
    · have htodo := htodo rfl
      rw [if_pos hd] at htodo
      cases htodo
  · intro htodo
    cases bDelay with
    | false => exact absurd rfl htodo
    | true =>
      refine ⟨rfl, _, _, rfl, getElem?_called_length p message true, rfl, rfl, ?_⟩
      intro x ho
      obtain ⟨call, hcall, -⟩ := hc.owned x _ ho
      exact absurd (hlt hcall) (lt_irrefl _)
  · intro n call hcall
    rcases getElem?_concat_eq_some.mp hcall with hcall | ⟨rfl, rfl⟩
    · obtain ⟨method', hfind, hcount⟩ := hc.count_none hcall
      refine ⟨method', hfind, hcount.trans (if_neg fun hn => ?_).symm⟩
      have := hlt hcall
      rw [Option.some.injEq] at hn
      omega
    · refine ⟨method, hm, ?_⟩
      cases bDelay with
      | false => rw [if_pos ⟨rfl, rfl⟩, List.length_nil]
      | true =>
        rw [if_neg fun hn => Bool.noConfusion hn.2, Call.expected_of_delayed rfl]
        rfl
  · rw [Server.called, hs.out, List.flatMap_append]
    simpa using hc.responses

/-- The request has been handled, and gets these replies. -/
theorem replied {n : ℕ} (h : Exact P g d (some n) [] s) {p : Peer M} {new : List RpcMessage}
    (hout : p.out = s.peer.out ++ new) (htype : ∀ reply ∈ new, reply.type = .response)
    (htable : p.mDelayResponse = s.peer.mDelayResponse)
    (hid : p.mDelayResponseId = s.peer.mDelayResponseId) {call : Call}
    (hcall : s.calls[n]? = some call)
    (hlen : ∀ method, Finds g call.message.service call.message.method method →
      new.length = if call.delayed then 0 else call.expected P method) :
    Exact P g d none [] (s.replied n p) := by
  refine ⟨hid.trans h.last, h.ids, fun hle => ?_⟩
  have hc := h.counted hle
  have hreplied : s.replied n p =
      { s with peer := p, calls := s.calls.modify n (Call.reply new) } := by
    rw [Server.replied, hout, List.drop_left]
  rw [hreplied]
  constructor
  · intro x hx
    rw [htable] at hx
    exact hc.keys x hx
  · intro x m ho
    obtain ⟨call', hcall', hd, ht⟩ := hc.owned x m ho
    refine ⟨_, getElem?_modify_eq_some.mpr ⟨call', hcall', rfl⟩, ?_⟩
    rw [htable]
    split <;> exact ⟨hd, ht⟩
  · exact hc.once
  · intro m call' hcall' hd _
    obtain ⟨c, hcm, rfl⟩ := getElem?_modify_eq_some.mp hcall'
    refine hc.asked m c hcm ?_ fun _ => rfl
    split at hd <;> exact hd
  · exact fun hne => absurd rfl hne
  · intro m call' hcall'
    obtain ⟨c, hcm, rfl⟩ := getElem?_modify_eq_some.mp hcall'
    obtain ⟨method, hfind, hcount⟩ := hc.count m c hcm
    by_cases hm : n = m
    · subst hm
      rw [hcall, Option.some.injEq] at hcm
      subst hcm
      rw [if_pos rfl]
      refine ⟨method, hfind, ?_⟩
      have hexpected : (Call.reply new call).expected P method = call.expected P method := rfl
      rw [if_neg fun hn => Option.some_ne_none _ hn.1.symm, hexpected, Call.reply,
        List.length_append, hcount, hlen method hfind]
      cases hd : call.delayed with
      | false => simp
      | true => simp
    · rw [if_neg fun hn => hm (Option.some.inj hn.1)] at hcount
      rw [if_neg hm]
      refine ⟨method, hfind, ?_⟩
      rw [if_neg fun hn => Option.some_ne_none _ hn.1.symm]
      exact hcount
  · rw [hout]
    exact hc.responses_modify hcall rfl htype

/-- A message. -/
theorem handled (h : Exact P g d none [] s) {message : RpcMessage} {handler : Handler M}
    {callback : List (Act M)} (hs : Handled P g s message handler callback s')
    (hfind : message.type = .request → ∃ method, Finds g message.service message.method method)
    (hdelay : DelayOk message handler callback)
    (hok : EachCall P g FilledOk s.peer message handler callback) : Exact P g d none [] s' := by
  cases hs with
  | still ht hs => exact h.still hs
  | @callback p s' ht hs hc ha =>
    have hstill := h.still hs
    rw [← hdelay.2 ht] at hstill
    exact hstill.acts (by simpa only [EachCall, ht, hc] using hok) ha
  | @refused errorCode ht he hno =>
    obtain ⟨method, hm⟩ := hfind ht
    have hcalled := h.called (.refl s.peer) hm false message.args
    rw [funcErrorCode_of_ne _ he]
    refine hcalled.replied rfl (by simp) rfl rfl (getElem?_called_length _ message false) ?_
    intro method' hm'
    have hparse : (P.parseFromString method'.requestPrototype message.request).2 = false :=
      Bool.eq_false_iff.mpr fun hp => hno ⟨method', hm', hp⟩
    simp [Call.expected, hparse]
  | @method request method s₁ p ht hm hp ha hl =>
    have hcalled := h.called (p := s.peer.called message request) ⟨rfl, rfl, rfl⟩ hm
      handler.bDelay message.args
    rw [RpcMessage.args, ← hdelay.1 ht] at hcalled
    have hacts := hcalled.acts (hok.of_request ht hm hp) ha
    obtain ⟨⟨new, hout, hlen, hresp⟩, htable, hid⟩ := responds_serviceLeaveMethod hl
    -- the handler has not changed what the request is
    have hsame : (s₁.calls[s.calls.length]?).map (fun c => (c.message, c.delayed)) =
        some (message, handler.bDelay) := by
      rw [acts_map (fun _ _ => rfl) ha]
      exact Option.map_eq_some_iff.mpr ⟨_, getElem?_called_length _ message handler.bDelay, rfl⟩
    obtain ⟨call, hcall, hsame⟩ := Option.map_eq_some_iff.mp hsame
    obtain ⟨rfl, hd⟩ := Prod.mk.inj hsame
    refine hacts.replied hout (fun reply hreply => (hresp reply hreply).1) htable hid hcall ?_
    intro method' hm'
    rw [hlen, hm'.unique hm, Call.expected, hp, hd]
    cases handler.bDelay <;> simp

end Exact

end Server

/-! ### Runs -/

variable {P g}

/-- What `ServeOk` says of the arguments of `NewDelayResponse`. -/
theorem ServeOk.ownArgs {p : Peer M} {l : Label M} (h : ServeOk P g p l) : OwnArgs P l := by
  cases l with
  | act a => trivial
  | onMessage data handler callback =>
    intro ht a ha args hargs
    have hmem : args ∈ handler.acts.filterMap Act.delays := List.mem_filterMap.mpr ⟨a, ha, hargs⟩
    rw [h.2.1.1 ht] at hmem
    split at hmem
    · exact List.mem_singleton.mp hmem
    · cases hmem

/-- How many replies each request has got, in any run under `ServeOk`. -/
theorem exact_run {d : UInt64} {labels : List (Label M)} {s : Server M}
    (h : run (Server.step P g) (.initial d) labels = some s)
    (hok : EachStep (Server.step P g) (fun s => ServeOk P g s.peer) (.initial d) labels) :
    Server.Exact P g d none [] s := by
  refine run_invariant_of_eachStep (Server.step P g) (I := Server.Exact P g d none []) .initial
    ?_ hok h
  intro s l s' he hl hstep
  cases l with
  | act a =>
    refine Server.Exact.acted ?_ hl.2 (.of_act hstep)
    rw [hl.1]
    exact he
  | onMessage data handler callback =>
    refine he.handled (.of_handleMessage hstep) (fun ht => ?_) hl.2.1 hl.2.2
    obtain ⟨method, hmethod⟩ := Option.isSome_iff_exists.mp (hl.1 ht)
    exact ⟨method, findMethod_eq_some.mp hmethod⟩

/-- **Exactly one reply.** In every run with fewer than `2^64 - 1` delays: the replies to a
request are responses with its id; it gets one if its body does not parse, none if its
method has an `EmptyResponse`, one otherwise, but if its handler delayed, none before the
first `DoDelayResponse` of its delay id and one from then on. No two requests have one delay
id, the responses sent are these replies, and `DoDelayResponse` changes no entry but its
own. -/
theorem exactlyOnce_run {d : UInt64} {labels : List (Label M)} {s : Server M}
    (h : run (Server.step P g) (.initial d) labels = some s)
    (hok : EachStep (Server.step P g) (fun s => ServeOk P g s.peer) (.initial d) labels)
    (hlt : s.delays.length < 2 ^ 64 - 1) :
    (∀ n call, s.calls[n]? = some call →
      (∀ reply ∈ call.replies, reply.type = .response ∧ reply.id = call.message.id) ∧
      (∃ method, Finds g call.message.service call.message.method method ∧
        call.replies.length = call.expected P method) ∧
      (call.delayed = true → ∃ x, s.owner x = some n ∧ ∀ y, s.owner y = some n → y = x)) ∧
    (s.peer.out.filter (·.type = .response)).Perm (s.calls.flatMap Call.replies) ∧
    ∀ x p, s.peer.act P g (.doDelayResponse x) = some p →
      ∀ y, y ≠ x → p.mDelayResponse.lookup y = s.peer.mDelayResponse.lookup y := by
  have hrouted := routed_run h (.mono (fun _ _ => ServeOk.ownArgs) hok)
  have hc := (exact_run h hok).counted (by omega)
  refine ⟨fun n call hcall => ⟨?_, ?_, fun hd => ?_⟩, hc.responses, ?_⟩
  · exact (hrouted.calls call (List.mem_of_getElem? hcall)).reply
  · exact hc.count_none hcall
  · obtain ⟨x, hx⟩ := hc.asked n call hcall hd fun _ => rfl
    exact ⟨x, hx, fun y hy => hc.once y x n hy hx⟩
  · intro x p hp y hy
    cases hp
    exact (doDelayResponse_table s.peer x).2.1 y hy

end

/-! ### The sign-in service -/

section

open SignIn

/-- A request to sign in is delayed; one with the same id does not parse, and one for a
method with an `EmptyResponse` is served. An id that was not given out is triggered, and
then the delay, twice. -/
def signInOnce : List (Label Msg) :=
  [.onMessage (protobuf.serializeRpcMessage (signInRequest []))
      ⟨[.newDelayResponse ⟨.gateServer, 5, 7⟩], true, .userSignInRes true⟩ [],
    .onMessage (protobuf.serializeRpcMessage (signInRequest [8])) ⟨[], false, .emptyResponse⟩ [],
    .onMessage (protobuf.serializeRpcMessage { signInRequest [] with service := 2 })
      ⟨[], false, .emptyResponse⟩ [],
    .act (.doDelayResponse 9),
    .act (.fill 1 (some (.userSignInRes true))),
    .act (.doDelayResponse 1),
    .act (.doDelayResponse 1)]

/-- The serving side after it. -/
def servedOnce : Server Msg :=
  (run (Server.step protobuf generated) (.initial 0) signInOnce).getD (.initial 0)

/-- The first two requests have one reply each, the third has none. -/
theorem exactlyOnce_run_signIn :
    servedOnce.calls.map (·.replies.length) = [1, 1, 0] ∧
      (servedOnce.peer.out.filter (·.type = .response)).Perm
        (servedOnce.calls.flatMap Call.replies) := by
  have h := @exactlyOnce_run _ _ protobuf _ generated 0 signInOnce servedOnce rfl (by decide)
    (by decide)
  exact ⟨by decide, h.2.1⟩

end

end ThirdPersonMP.Rpc
