import ThirdPersonMP.System.Conservation

/-!
# What is sent arrives

Two sessions that are connected and go on: the thread of the one sends what is in its
`SendBuffer`, that of the other receives what has arrived and has the decoder take the frames
out of it. The two run at their own pace, both game threads may send more, and bytes that
arrive meanwhile and arrays that are to be sent first delay what is waiting.

* `Quiet`, `Prompt` — what a step must not do, and what is asked of `HasPendingData`.
* `Fed` — nobody waits for a byte that has not arrived: `fed_step`, `fed_run`.
* `arrival`, `traffic` — a bound on the steps of the receiving thread, and what raises it;
  `receiving_step`.
* `arrives_run` — neither gets stuck; and after a bounded number of steps of the sending
  thread, and then of the receiving one, all messages are on `MessageQueue` or dispatched, when
  none was discarded.
-/

namespace ThirdPersonMP.System

open Base Library Rpc

variable {M D : Type*}

/-! ### Conditions on a step -/

/-- The step of an IO thread, and its session. -/
def Endpoint.Label.io : Endpoint.Label M → Option (ℕ × Network.IoAct)
  | .socket (.io k a) => some (k, a)
  | _ => none

/-- The steps of the thread of session `k` of `x`. -/
def ofThread (x : Side) (k : ℕ) (l : Side × Endpoint.Label M) : Bool :=
  l.1 = x && l.2.io.any fun r => r.1 = k

/-- It does not disturb the current session. -/
def Endpoint.Undisturbed (e : Endpoint M) : Endpoint.Label M → Prop
  | .socket a => Network.Undisturbed e.client a
  | _ => True

instance (e : Endpoint M) : ∀ l : Endpoint.Label M, Decidable (e.Undisturbed l)
  | .socket a => inferInstanceAs (Decidable (Network.Undisturbed e.client a))
  | .act _ | .sendMessage | .tick _ _ => inferInstanceAs (Decidable True)

section

variable (P : Protobuf M D) (links : Links) (s : Endpoints M)

/-- `HasPendingData` announces no more than has arrived. -/
def Endpoints.Announced (l : Side × Endpoint.Label M) : Prop :=
  ∀ r ∈ l.2.io, ∀ t ∈ (s l.1).client.threads[r.1]?,
    t.Announced (s.acceptedFor links l.1 r.1).length r.2

/-- It announces something of what has arrived. -/
def Endpoints.Prompt (l : Side × Endpoint.Label M) : Prop :=
  ∀ r ∈ l.2.io, ∀ t ∈ (s l.1).client.threads[r.1]?,
    t.Prompt (s.acceptedFor links l.1 r.1).length r.2

instance (l : Side × Endpoint.Label M) : Decidable (s.Announced links l) :=
  inferInstanceAs (Decidable (∀ r ∈ l.2.io, ∀ t ∈ (s l.1).client.threads[r.1]?, _))

instance (l : Side × Endpoint.Label M) : Decidable (s.Prompt links l) :=
  inferInstanceAs (Decidable (∀ r ∈ l.2.io, ∀ t ∈ (s l.1).client.threads[r.1]?, _))

/-- Nobody stops a session, no call fails, and `HasPendingData` is right. -/
structure Endpoints.Quiet (l : Side × Endpoint.Label M) : Prop where
  sizeOk : s.SizeOk P l
  announced : s.Announced links l
  undisturbed : (s l.1).Undisturbed l.2

/-- The streams that `x` receives begin with what the other side's sockets have accepted. -/
def Endpoints.Carried (x : Side) : Prop :=
  ∀ k < (s x).client.threads.length, ∀ t ∈ (s x).client.threads[k]?,
    s.acceptedFor links x k <+: t.peer

instance (x : Side) : Decidable (s.Carried links x) :=
  inferInstanceAs (Decidable (∀ k < _, ∀ t ∈ (s x).client.threads[k]?, _))

/-- The chunks that are being read have arrived. -/
def Endpoints.Fed : Prop :=
  ∀ (x : Side) (k : ℕ) (t : Network.FTCPSocketRunnable), (s x).client.threads[k]? = some t →
    t.Fed (s.acceptedFor links x k).length

end

/-! ### The sockets of the two sides -/

section

variable {P : Protobuf M D} {links : Links} [DecidableEq D] {g : Generated D} {s s' : Endpoints M}
  {l : Side × Endpoint.Label M}

/-- What a step of a side is for its socket: nothing, or a step with the same effect on the
threads. -/
theorem Endpoint.Stepped.client_step {e e' : Endpoint M} {l : Endpoint.Label M}
    (h : Endpoint.Stepped P g e l e') :
    e'.client = e.client ∧ l.io = none ∨
      ∃ a, e.client.step a = some e'.client ∧
        (e.Undisturbed l → Network.Undisturbed e.client a) ∧
        ∀ k b, a = .io k b ↔ l.io = some (k, b) := by
  cases h with
  | act | dropped => exact .inl ⟨rfl, rfl⟩
  | given _ _ _ hc =>
    refine .inr ⟨_, hc, fun _ => trivial, fun k b => ?_⟩
    simp [Endpoint.Label.io]
  | tick _ _ hc _ =>
    refine .inr ⟨_, hc, fun _ => trivial, fun k b => ?_⟩
    simp [Endpoint.Label.io]
  | @socket a client _ hc =>
    refine .inr ⟨a, hc, id, fun k b => ?_⟩
    cases a <;> simp [Endpoint.Label.io]

/-- The same of the two sides. -/
theorem Endpoints.client_step (hs : Endpoints.step P g links s l = some s') (x : Side) :
    (s' x).client = (s x).client ∧ (∀ k, ofThread x k l = false) ∨
      ∃ a, (s x).client.step a = some (s' x).client ∧ l.1 = x ∧
        ((s l.1).Undisturbed l.2 → Network.Undisturbed (s x).client a) ∧
        ∀ k b, a = .io k b ↔ l.2.io = some (k, b) := by
  obtain ⟨y, l⟩ := l
  obtain ⟨e, he, rfl, -⟩ := Endpoints.step_eq_some hs
  by_cases hy : y = x
  · subst hy
    rw [Function.update_self]
    rcases he.client_step with ⟨hc, hio⟩ | ⟨a, hc, ha, hio⟩
    · exact .inl ⟨hc, fun k => by simp [ofThread, hio]⟩
    · exact .inr ⟨a, hc, rfl, ha, hio⟩
  · rw [Function.update_of_ne (Ne.symm hy)]
    exact .inl ⟨rfl, fun k => by simp [ofThread, hy]⟩

/-- The steps of a thread are those of the socket's. -/
theorem ofThread_eq {x : Side} {a : Network.Act} (hx : l.1 = x)
    (hio : ∀ k b, a = .io k b ↔ l.2.io = some (k, b)) (k : ℕ) : ofThread x k l = a.ofThread k := by
  rw [ofThread, decide_eq_true hx, Bool.true_and]
  cases hl : l.2.io with
  | none =>
    cases a with
    | io i b => exact absurd ((hio i b).mp rfl) (by simp [hl])
    | _ => rfl
  | some r =>
    obtain rfl := (hio r.1 r.2).mpr hl
    rfl

/-- A run of the two sides is, for the sockets of one, a run with as many steps of each
thread. -/
theorem exists_client_run {as : List (Side × Endpoint.Label M)}
    (h : run (Endpoints.step P g links) s as = some s')
    (hq : EachStep (Endpoints.step P g links) (fun s l => (s l.1).Undisturbed l.2) s as) (x : Side) :
    ∃ bs, run Network.Client.step (s x).client bs = some (s' x).client ∧
      EachStep Network.Client.step Network.Undisturbed (s x).client bs ∧
      ∀ k, bs.countP (Network.Act.ofThread k) = as.countP (ofThread x k) := by
  induction as generalizing s with
  | nil =>
    rw [run_nil, Option.some.injEq] at h
    exact ⟨[], by rw [h, run_nil], trivial, fun _ => rfl⟩
  | cons l as ih =>
    obtain ⟨m, hl, hrun⟩ := Option.bind_eq_some_iff.mp h
    obtain ⟨bs, hbs, hquiet, hcount⟩ := ih hrun (hq.2 m hl)
    rcases Endpoints.client_step hl x with ⟨hc, hno⟩ | ⟨a, hc, hx, ha, hio⟩
    · rw [hc] at hbs hquiet
      refine ⟨bs, hbs, hquiet, fun k => ?_⟩
      rw [hcount, List.countP_cons, hno]
      rfl
    · refine ⟨a :: bs, ?_, (eachStep_cons hc bs).mpr ⟨ha hq.1, hquiet⟩, fun k => ?_⟩
      · rw [run_cons, hc]
        exact hbs
      · rw [List.countP_cons, List.countP_cons, hcount, ofThread_eq hx hio]

omit [DecidableEq D] in
theorem Linked.flowing (h : Linked P links s) {x : Side} {k : ℕ} {t : Network.FTCPSocketRunnable}
    (ht : (s x).client.threads[k]? = some t) (hlive : Network.Live t) :
    Network.Flowing (s x).client k t :=
  have hok := (h x).1
  ⟨hok.reached, ht, (hok.streams k t ht).1, (hok.streams k t ht).2, hlive⟩

/-- What a socket has accepted for a session. -/
theorem acceptedFor_mono (hs : Endpoints.step P g links s l = some s') (x : Side) (k : ℕ) :
    s.acceptedFor links x k <+: s'.acceptedFor links x k := by
  obtain ⟨y, l⟩ := l
  obtain ⟨e, he, rfl, -⟩ := Endpoints.step_eq_some hs
  rcases y.eq_or_eq_other x with rfl | rfl
  · unfold Endpoints.acceptedFor
    rw [Function.update_of_ne (Side.other_ne y)]
  · have hupdate : s.acceptedFor links x.other.other k <+: _ := acceptedFor_update he k
    rwa [Side.other_other] at hupdate

end

/-! ### What is being read has arrived -/

section

variable {P : Protobuf M D} {links : Links} [DecidableEq D] {g : Generated D} {s s' : Endpoints M}
  {l : Side × Endpoint.Label M}

omit [DecidableEq D] in
/-- What is still to come is a part of the stream. -/
theorem Linked.length_incoming (h : Linked P links s) {x : Side} {k : ℕ}
    {t : Network.FTCPSocketRunnable} (ht : (s x).client.threads[k]? = some t) :
    t.incoming.length ≤ t.peer.length := by
  obtain ⟨hok, -⟩ := h x
  obtain ⟨as, has⟩ := hok.reached
  obtain ⟨hlen, hheaders⟩ := hok.streams k t ht
  obtain ⟨read, hwhole⟩ := (Network.inOrder_run has ht hlen hheaders).whole
  rw [← hwhole, List.length_append]
  omega

/-- **A step keeps** that the chunks that are being read have arrived, when no more is announced
than has. -/
theorem fed_step (hl : Linked P links s) (h : s.Fed links) (ha : s.Announced links l)
    (hs : Endpoints.step P g links s l = some s') : s'.Fed links := by
  intro x k u hu
  have hmono := (acceptedFor_mono hs x k).length_le
  rcases Endpoints.client_step hs x with ⟨hc, -⟩ | ⟨a, hc, hx, -, hio⟩
  · rw [hc] at hu
    exact (h x k u hu).mono hmono
  · refine Network.FTCPSocketRunnable.Fed.mono ?_ hmono
    rcases (Network.ClientStep.of_step hc).thread_cases hu with
      ⟨t, b, ht, hb, hstep⟩ | ⟨t, ht, hsame⟩ | hinit
    · subst hx
      exact (h l.1 k t ht).ioStep (hl.length_incoming ht) hstep
        (ha (k, b) ((hio k b).mp hb) t ht)
    · exact (h x k t ht).same hsame
    · intro o p c hpc
      rw [hinit] at hpc
      cases hpc

theorem fed_run {d : Side → UInt64} {labels : List (Side × Endpoint.Label M)}
    (hsize : EachStep (Endpoints.step P g links) (Endpoints.SizeOk P) (.initial d) labels)
    (hannounced : EachStep (Endpoints.step P g links) (Endpoints.Announced links) (.initial d)
      labels)
    (h : run (Endpoints.step P g links) (.initial d) labels = some s) :
    Linked P links s ∧ s.Fed links := by
  refine run_invariant_of_eachStep _ (I := fun s => Linked P links s ∧ s.Fed links)
    ⟨linked_initial d, ?_⟩ ?_ (hsize.and hannounced) h
  · intro x k t ht
    cases ht
  · exact fun s l s' hI ha hs => ⟨linked_step hI.1 ha.1 hs, fed_step hI.1 hI.2 ha.2 hs⟩

/-! ### The receiving thread -/

/-- A live thread of a session has a next step, when its stream brings what has arrived. -/
theorem exists_prompt_step (hl : Linked P links s) (hfed : s.Fed links) {x : Side} {k : ℕ}
    {t : Network.FTCPSocketRunnable} (hflow : Network.Flowing (s x).client k t)
    (hcarried : s.Carried links x) :
    ∃ b s', s.Quiet P links (x, .socket (.io k b)) ∧ s.Prompt links (x, .socket (.io k b)) ∧
      Endpoints.step P g links s (x, .socket (.io k b)) = some s' := by
  have ht := hflow.thread
  have hlt := (List.getElem?_eq_some_iff.mp ht).1
  have hin := hl.length_incoming ht
  have hpeer := hcarried k hlt t ht
  have hconsumed := (hl x).2 k hlt t ht
  obtain ⟨b, t', m', hb, hprogress, hannounced, hprompt, hio, hread⟩ :=
    Network.exists_prompt (m := (s x).client.mem) hflow.live hflow.looping (hfed x k t ht)
      (Network.FTCPSocketRunnable.length_consumed_add hin) hconsumed.length_le hpeer.length_le
      hflow.ne_fault
  have hthread : ∀ u ∈ (s x).client.threads[k]?, u = t := by
    intro u hu
    rw [ht, Option.mem_some] at hu
    exact hu.symm
  obtain ⟨e, hstep, hthreads⟩ : ∃ e, Endpoint.step P g (s x) (.socket (.io k b)) = some e ∧
      e.client.threads = (s x).client.threads.set k t' := by
    refine ⟨{ s x with client :=
      { (s x).client with threads := (s x).client.threads.set k t', mem := m' } }, ?_, rfl⟩
    simp only [Endpoint.step, Endpoint.isSocket, if_true, Network.Client.step, ht, hio,
      Option.map_some]
  have hcausal : Endpoints.Causal links (Function.update s x e) x := by
    intro i hi u hu
    unfold Endpoints.acceptedFor
    rw [Function.update_self] at hi hu
    rw [Function.update_of_ne (Side.other_ne x)]
    rw [hthreads] at hi hu
    rcases (getElem?_set_eq_some ht).mp hu with ⟨rfl, rfl⟩ | ⟨-, hu⟩
    · -- what it has read now, and what was accepted, are both the beginning of its stream
      have hpeer' : u.peer = t.peer := (Network.IoStep.of_ioStep hio).peer_eq
      refine List.prefix_of_prefix_length_le ?_ hpeer hread
      rw [← hpeer']
      exact List.take_prefix _ _
    · rw [List.length_set] at hi
      exact (hl x).2 i hi u hu
  have hundisturbed : Network.Undisturbed (s x).client (.io k b) :=
    ⟨hb, fun u hu => hthread u hu ▸ hprogress⟩
  refine ⟨b, Function.update s x e, ⟨⟨trivial, trivial⟩, ?_, hundisturbed⟩, ?_, ?_⟩
  · rintro r ⟨⟩ u hu
    exact hthread u hu ▸ hannounced
  · rintro r ⟨⟩ u hu
    exact hthread u hu ▸ hprompt
  · simp only [Endpoints.step, hstep, Option.bind_some, if_pos hcausal]

end

/-! ### The bound -/

section

variable (links : Links) (s : Endpoints M) (x : Side) (k : ℕ)

/-- A bound on the steps of a session's thread until it has received what has been accepted. -/
def Endpoints.arrival : ℕ :=
  ((s x).client.threads[k]?.map fun t =>
    Network.arrival (t.upTo (s.acceptedFor links x k).length) (s x).client.mem).getD 0

/-- What raises it: the arrays that the session is given to send, and the bytes that are
accepted for it. -/
def Endpoints.traffic : ℕ :=
  ((s x).client.threads[k]?.map fun t =>
    Network.queueCost t.enqueued.length t.enqueued).getD 0 +
      12 * (s.acceptedFor links x k).length

variable {links s x k} {t : Network.FTCPSocketRunnable}

theorem Endpoints.arrival_eq (ht : (s x).client.threads[k]? = some t) :
    s.arrival links x k =
      Network.arrival (t.upTo (s.acceptedFor links x k).length) (s x).client.mem := by
  rw [Endpoints.arrival, ht, Option.map_some, Option.getD_some]

theorem Endpoints.traffic_eq (ht : (s x).client.threads[k]? = some t) :
    s.traffic links x k = Network.queueCost t.enqueued.length t.enqueued +
      12 * (s.acceptedFor links x k).length := by
  rw [Endpoints.traffic, ht, Option.map_some, Option.getD_some]

end

section

variable (P : Protobuf M D) (links : Links) (s : Endpoints M) (x : Side) (k : ℕ) (first : Bytes)

/-- Session `k` of `x` is going on, and `first` has been accepted for it. -/
structure Receiving : Prop where
  linked : Linked P links s
  fed : s.Fed links
  flowing : ∃ t, Network.Flowing (s x).client k t ∧ first <+: t.peer
  accepted : first <+: s.acceptedFor links x k

/-- The frames of `first` have been enqueued. -/
def Enqueued : Prop :=
  ∃ t ∈ (s x).client.threads[k]?, Network.Decoded first t (s x).client.mem.recvData

variable {P links s x k first} [DecidableEq D] {g : Generated D} {s' : Endpoints M}
  {l : Side × Endpoint.Label M} {t : Network.FTCPSocketRunnable}

omit [DecidableEq D] in
/-- A session that has read what was accepted for it, and is between two receives, has enqueued
the frames of it. -/
theorem Receiving.enqueued (h : Receiving P links s x k first)
    (hflow : Network.Flowing (s x).client k t) (hpeer : first <+: t.peer)
    (he : Network.Emptied (t.upTo (s.acceptedFor links x k).length)) :
    Enqueued s x k first := by
  have hlt := (List.getElem?_eq_some_iff.mp hflow.thread).1
  have hconsumed := (h.linked x).2 k hlt t hflow.thread
  have hin := h.linked.length_incoming hflow.thread
  have hadd := Network.FTCPSocketRunnable.length_consumed_add hin
  obtain ⟨hnil, hpc⟩ := he
  have hfirst : first <+: t.consumed := by
    rcases List.take_eq_nil_iff.mp hnil with hall | hnone
    · have heq := hconsumed.eq_of_length_le (by omega)
      rw [heq]
      exact h.accepted
    · refine List.prefix_of_prefix_length_le hpeer (List.take_prefix _ _) ?_
      rw [hnone, List.length_nil, Nat.add_zero] at hadd
      exact hpeer.length_le.trans hadd.ge
  exact ⟨t, hflow.thread, hflow.buffered.decoded hflow.recvFailed hflow.stopSeen hpc hfirst⟩

/-- **A step of the two sides**, while a session is receiving: it goes on, what was enqueued
stays so, and until then a step of its thread lowers the bound, which is raised by no more than
the traffic. -/
theorem receiving_step (h : Receiving P links s x k first) (hq : s.Quiet P links l)
    (hp : s.Prompt links l) (hs : Endpoints.step P g links s l = some s') :
    Receiving P links s' x k first ∧ (Enqueued s x k first → Enqueued s' x k first) ∧
      (¬ Enqueued s x k first →
        s'.arrival links x k + (if ofThread x k l then 1 else 0) + s.traffic links x k ≤
          s.arrival links x k + s'.traffic links x k) := by
  obtain ⟨t, hflow, hpeer⟩ := h.flowing
  have hacc := acceptedFor_mono hs x k
  have hnext : ∀ t', Network.Flowing (s' x).client k t' → t'.peer = t.peer →
      Receiving P links s' x k first := fun t' hflow' hpeer' =>
    ⟨linked_step h.linked hq.sizeOk hs, fed_step h.linked h.fed hq.announced hs,
      ⟨t', hflow', hpeer' ▸ hpeer⟩, h.accepted.trans hacc⟩
  -- what is accepted meanwhile raises the bound
  have hmore : ∀ (t' : Network.FTCPSocketRunnable) (m : Network.Shared),
      Network.arrival (t'.upTo (s'.acceptedFor links x k).length) m ≤
        Network.arrival (t'.upTo (s.acceptedFor links x k).length) m +
          12 * ((s'.acceptedFor links x k).length - (s.acceptedFor links x k).length) :=
    fun _ _ => Network.arrival_upTo_le hacc.length_le
  have hlen := hacc.length_le
  rcases Endpoints.client_step hs x with ⟨hc, hno⟩ | ⟨a, hc, hx, ha, hio⟩
  · have hflow' : Network.Flowing (s' x).client k t := hc ▸ hflow
    refine ⟨hnext t hflow' rfl, fun henq => by rwa [Enqueued, hc], fun _ => ?_⟩
    have hle := hmore t (s x).client.mem
    rw [Endpoints.arrival_eq hflow'.thread, Endpoints.arrival_eq hflow.thread,
      Endpoints.traffic_eq hflow'.thread, Endpoints.traffic_eq hflow.thread, hno, hc]
    simp only [Bool.false_eq_true, if_false]
    omega
  · obtain ⟨t', hflow', ⟨hno, rfl, hb, hr⟩ | ⟨b, rfl, hstep⟩⟩ :=
      Network.flowing_cases hflow (ha hq.undisturbed) hc
    · -- the game thread
      refine ⟨hnext _ hflow' rfl, ?_, fun _ => ?_⟩
      · rintro ⟨u, hu, hdecoded⟩
        rw [hflow.thread, Option.mem_some] at hu
        subst hu
        refine ⟨_, hflow'.thread, ?_⟩
        rw [hr]
        exact hdecoded
      · have hle := hmore { t with enqueued := t.enqueued ++ Network.sentTo (s x).client k a }
          (s' x).client.mem
        have hsent : Network.arrival
            (({ t with enqueued := t.enqueued ++ Network.sentTo (s x).client k a } :
              Network.FTCPSocketRunnable).upTo (s.acceptedFor links x k).length)
            (s' x).client.mem ≤ _ :=
          Network.arrival_sentTo (t := t.upTo (s.acceptedFor links x k).length) hb hr _
        have hcost := Network.queueCost_length_append t.enqueued
          (Network.sentTo (s x).client k a)
        rw [Endpoints.arrival_eq hflow'.thread, Endpoints.arrival_eq hflow.thread,
          Endpoints.traffic_eq hflow'.thread, Endpoints.traffic_eq hflow.thread,
          ofThread_eq hx hio, hno]
        simp only [Bool.false_eq_true, if_false]
        omega
    · -- the thread itself
      have hl : l.2.io = some (k, b) := (hio k b).mp rfl
      have hundisturbed := ha hq.undisturbed
      refine ⟨hnext t' hflow' hstep.peer_eq, ?_, fun hne => ?_⟩
      · rintro ⟨u, hu, hdecoded⟩
        rw [hflow.thread, Option.mem_some] at hu
        subst hu
        exact ⟨t', hflow'.thread, hdecoded.ioStep hflow.length hflow.headers hflow.inOrder.marked
          hflow.buffered hstep⟩
      · subst hx
        have hle := hmore t' (s' l.1).client.mem
        have hlt := hstep.arrival_upTo_lt hflow.live hflow.looping (h.fed _ k t hflow.thread)
          (h.linked.length_incoming hflow.thread) hundisturbed.1
          (hundisturbed.2 t hflow.thread) (hq.announced (k, b) hl t hflow.thread)
          (hp (k, b) hl t hflow.thread) hflow.sent.2 hflow.recvData
          ((h.linked _).2 k (List.getElem?_eq_some_iff.mp hflow.thread).1 t
            hflow.thread).length_le
          hflow'.ne_fault fun he => hne (h.enqueued hflow hpeer he)
        rw [Endpoints.arrival_eq hflow'.thread, Endpoints.arrival_eq hflow.thread,
          Endpoints.traffic_eq hflow'.thread, Endpoints.traffic_eq hflow.thread,
          ofThread_eq rfl hio, hstep.enqueued_eq]
        simp only [Network.Act.ofThread, decide_true, if_true]
        omega

/-- **A run of the two sides**: after as many steps of its thread as the bound says, and the
traffic meanwhile adds, a session has enqueued the frames of what had been accepted for it. -/
theorem receiving_run {bs : List (Side × Endpoint.Label M)} (h : Receiving P links s x k first)
    (hP : EachStep (Endpoints.step P g links)
      (fun s l => s.Quiet P links l ∧ s.Prompt links l) s bs)
    (hbs : run (Endpoints.step P g links) s bs = some s')
    (hmany : s.arrival links x k + s'.traffic links x k ≤
      bs.countP (ofThread x k) + s.traffic links x k) : Enqueued s' x k first := by
  refine reaches_of_variant (I := fun s => Receiving P links s x k first)
    (G := fun s => Enqueued s x k first) (μ := fun s => s.arrival links x k)
    (Φ := fun s => s.traffic links x k) (c := ofThread x k) (r := fun _ => 0) ?_ ?_ ?_ h hP hbs ?_
  · intro s hI hzero
    obtain ⟨t, hflow, -⟩ := hI.flowing
    rw [Endpoints.arrival_eq hflow.thread] at hzero
    have hacc := hflow.sent.2.congr (u := t.upTo (s.acceptedFor links x k).length) rfl rfl rfl rfl
    exact absurd hzero (Network.arrival_pos hflow.live.upTo
      (hflow.looping.upTo (hI.fed x k t hflow.thread)) hacc hflow.ne_fault).ne'
  · intro s l s' hI hq hs henq
    obtain ⟨hI', hstays, -⟩ := receiving_step hI hq.1 hq.2 hs
    exact ⟨hI', hstays henq⟩
  · intro s l s' hI hq hs hne
    obtain ⟨hI', -, hlowers⟩ := receiving_step hI hq.1 hq.2 hs
    exact ⟨hI', hlowers hne⟩
  · simpa using hmany

end

/-! ### From end to end -/

section

variable {P : Protobuf M D} {links : Links} [DecidableEq D] {g : Generated D}
  {s m s' : Endpoints M}

/-- A run in which nobody disturbs a session keeps it going. -/
theorem flowing_run {as : List (Side × Endpoint.Label M)} {x : Side} {k : ℕ}
    {t : Network.FTCPSocketRunnable} (h : Network.Flowing (s x).client k t)
    (hquiet : EachStep (Endpoints.step P g links) (fun s l => s.Quiet P links l) s as)
    (has : run (Endpoints.step P g links) s as = some m) :
    ∃ t', Network.Flowing (m x).client k t' ∧ t'.peer = t.peer ∧ t.enqueued <+: t'.enqueued := by
  obtain ⟨bs, hbs, hundisturbed, -⟩ :=
    exists_client_run has (hquiet.mono fun _ _ hq => hq.undisturbed) x
  exact Network.flowing_run h hundisturbed hbs

/-- It keeps both sides in order, and nobody waiting for what has not arrived. -/
theorem quiet_run {as : List (Side × Endpoint.Label M)} (hl : Linked P links s)
    (hfed : s.Fed links)
    (hquiet : EachStep (Endpoints.step P g links) (fun s l => s.Quiet P links l) s as)
    (has : run (Endpoints.step P g links) s as = some m) : Linked P links m ∧ m.Fed links :=
  run_invariant_of_eachStep _ (I := fun s => Linked P links s ∧ s.Fed links) ⟨hl, hfed⟩
    (fun _ _ _ hI hq hs =>
      ⟨linked_step hI.1 hq.sizeOk hs, fed_step hI.1 hI.2 hq.announced hs⟩) hquiet has

theorem acceptedFor_run {as : List (Side × Endpoint.Label M)}
    (has : run (Endpoints.step P g links) s as = some m) (x : Side) (k : ℕ) :
    s.acceptedFor links x k <+: m.acceptedFor links x k :=
  run_invariant _ (I := fun m => s.acceptedFor links x k <+: m.acceptedFor links x k)
    List.prefix_rfl (fun _ _ _ hI hs => hI.trans (acceptedFor_mono hs x k)) has

/-- What a session has been given to send arrives, while both sessions are going on. -/
theorem sent_prefix {x : Side} {k j : ℕ} {t u : Network.FTCPSocketRunnable}
    (hlinked : Linked P links s) (hfed : s.Fed links) (hj : links.peerOf x k = some j)
    (hreceiver : Network.Flowing (s x).client k t)
    (hsender : Network.Flowing (s x.other).client j u) {as bs : List (Side × Endpoint.Label M)}
    (has : run (Endpoints.step P g links) s as = some m)
    (hquiet : EachStep (Endpoints.step P g links) (fun s l => s.Quiet P links l) s as)
    (hbs : run (Endpoints.step P g links) m bs = some s')
    (hprompt : EachStep (Endpoints.step P g links)
      (fun s l => s.Quiet P links l ∧ s.Prompt links l) m bs)
    (hcarried : s'.Carried links x)
    (hdrain : (s x.other).client.drain j u.enqueued.length ≤ as.countP (ofThread x.other j))
    (hmany : m.arrival links x k + s'.traffic links x k ≤
      bs.countP (ofThread x k) + m.traffic links x k)
    (hnone : Network.payloads k ((s' x).client.discarded.map Prod.snd) = [])
    (hlast : ∀ msg ∈ ((s x.other).sent P j).getLast?, msg ≠ []) :
    (s x.other).sent P j <+: (s' x).received k ++ (s' x).queued k := by
  obtain ⟨hlinkedm, hfedm⟩ := quiet_run hlinked hfed hquiet has
  have hquiet' := hprompt.mono fun _ _ hq => hq.1
  obtain ⟨tm, hreceiving, -, -⟩ := flowing_run hreceiver hquiet has
  obtain ⟨um, hsending, -, hfirst⟩ := flowing_run hsender hquiet has
  obtain ⟨t', hreceiving', hpeer, -⟩ := flowing_run hreceiving hquiet' hbs
  -- all bytes are with the socket of the one side in `m`
  obtain ⟨cs, hcs, hundisturbed, hcount⟩ :=
    exists_client_run has (hquiet.mono fun _ _ hq => hq.undisturbed) x.other
  have haccepted : u.enqueued.flatten <+: um.accepted := by
    refine hsending.accepted hfirst ?_
    rw [← hsending.drain_eq]
    exact Network.drain_run hsender hundisturbed hcs (hcount j ▸ hdrain)
  have hfor : u.enqueued.flatten <+: m.acceptedFor links x k := by
    rw [Endpoints.acceptedFor, hj]
    simp only [hsending.thread, Option.map_some, Option.getD_some]
    exact haccepted
  have hstream : u.enqueued.flatten <+: tm.peer := by
    rw [← hpeer]
    exact (hfor.trans (acceptedFor_run hbs x k)).trans
      (hcarried k (List.getElem?_eq_some_iff.mp hreceiving'.thread).1 t' hreceiving'.thread)
  -- and in `s'` the other has enqueued their frames
  obtain ⟨v, hv, enqueued, hframes, hpre⟩ := receiving_run
    ⟨hlinkedm, hfedm, ⟨tm, hreceiving, hstream⟩, hfor⟩ hprompt hbs hmany
  rw [hreceiving'.thread, Option.mem_some] at hv
  subst hv
  obtain ⟨enqueued', hframes', -, hkept⟩ := hreceiving'.inOrder.frames
  rw [← hframes', List.append_left_inj] at hframes
  rw [← (hlinked x.other).1.flatMap_sent hsender.thread,
    Network.frames_flatMap_encoder_eq ((hlinked x.other).1.length_sent j) hlast] at hpre
  rw [Endpoint.received, Endpoint.queued, hkept hnone, ← hframes]
  exact hpre

/-- **In every run** of two sides with streams and frames of a size that the source can handle,
from every state of it in which two connected sessions are going on: as long as nobody stops
them, their calls succeed, `HasPendingData` announces what has arrived and no more, and TCP
carries what was accepted, each of the two threads has a next step. The messages that were
passed to `FTCPSocket::Send` in the one session are dispatched or on `MessageQueue` in the
other, all of them and in order, after a bounded number of steps of the one thread and then of
the other, when `MessageQueue.Empty` has discarded none of the other session and the last of
them is not empty; whatever else the game threads do meanwhile. -/
theorem arrives_run {d : Side → UInt64} {labels : List (Side × Endpoint.Label M)}
    (h : run (Endpoints.step P g links) (.initial d) labels = some s)
    (hsize : EachStep (Endpoints.step P g links) (Endpoints.SizeOk P) (.initial d) labels)
    (hannounced : EachStep (Endpoints.step P g links) (Endpoints.Announced links) (.initial d)
      labels)
    {x : Side} {k j : ℕ} {t u : Network.FTCPSocketRunnable} (hj : links.peerOf x k = some j)
    (ht : (s x).client.threads[k]? = some t) (hlive : Network.Live t)
    (hu : (s x.other).client.threads[j]? = some u) (hlive' : Network.Live u)
    {as bs : List (Side × Endpoint.Label M)}
    (has : run (Endpoints.step P g links) s as = some m)
    (hquiet : EachStep (Endpoints.step P g links) (fun s l => s.Quiet P links l) s as)
    (hbs : run (Endpoints.step P g links) m bs = some s')
    (hprompt : EachStep (Endpoints.step P g links)
      (fun s l => s.Quiet P links l ∧ s.Prompt links l) m bs)
    (hcarried : ∀ y, s'.Carried links y) :
    (∀ y i, (y, i) = (x, k) ∨ (y, i) = (x.other, j) → ∃ b s'',
      s'.Quiet P links (y, .socket (.io i b)) ∧ s'.Prompt links (y, .socket (.io i b)) ∧
        Endpoints.step P g links s' (y, .socket (.io i b)) = some s'') ∧
      ((s x.other).client.drain j u.enqueued.length ≤ as.countP (ofThread x.other j) →
        m.arrival links x k + s'.traffic links x k ≤
          bs.countP (ofThread x k) + m.traffic links x k →
        Network.payloads k ((s' x).client.discarded.map Prod.snd) = [] →
        (∀ msg ∈ ((s x.other).sent P j).getLast?, msg ≠ []) →
        (s x.other).sent P j <+: (s' x).received k ++ (s' x).queued k) := by
  obtain ⟨hlinked, hfed⟩ := fed_run hsize hannounced h
  obtain ⟨hlinkedm, hfedm⟩ := quiet_run hlinked hfed hquiet has
  have hquiet' := hprompt.mono fun _ _ hq => hq.1
  obtain ⟨hlinked', hfed'⟩ := quiet_run hlinkedm hfedm hquiet' hbs
  have hreceiver := hlinked.flowing ht hlive
  have hsender := hlinked.flowing hu hlive'
  refine ⟨?_, fun hdrain hmany hnone hlast => ?_⟩
  · -- both sessions go on, up to `m` and then up to `s'`
    obtain ⟨tm, hreceiving, -, -⟩ := flowing_run hreceiver hquiet has
    obtain ⟨um, hsending, -, -⟩ := flowing_run hsender hquiet has
    obtain ⟨t', hreceiving', -, -⟩ := flowing_run hreceiving hquiet' hbs
    obtain ⟨u', hsending', -, -⟩ := flowing_run hsending hquiet' hbs
    rintro y i (heq | heq)
    · cases heq
      exact exists_prompt_step hlinked' hfed' hreceiving' (hcarried x)
    · cases heq
      exact exists_prompt_step hlinked' hfed' hsending' (hcarried x.other)
  · exact sent_prefix hlinked hfed hj hreceiver hsender has hquiet hbs hprompt (hcarried x) hdrain
      hmany hnone hlast

end

/-! ### The sign-in call -/

section

open SignIn

/-- All of the request is with the socket, and the other side is told that its second part has
arrived. -/
def signInAccepted : List (Side × Endpoint.Label Msg) :=
  [(.a, .socket (.connect signInResFrame)), (.b, .socket (.connect signInFrame)),
    (.a, .act (.send (some (.userSignInArg 7)))), (.a, .sendMessage)] ++
  ioSteps .a [.init true true true, .loopTest true, .sendTest, .peek, .send (some 10)] ++
  ioSteps .b [.init true true true, .loopTest true, .sendTest, .peek, .sendDone,
    .hasPendingData (some 10), .recv (some 10), .received, .decode, .recvDone, .loopTest true,
    .sendTest, .peek, .sendDone] ++
  ioSteps .a [.send (some 6)] ++ ioSteps .b [.hasPendingData (some 6)]

/-- A round of the loop with nothing to send and nothing to receive. -/
def idle : List Network.IoAct :=
  [.loopTest true, .sendTest, .peek, .sendDone, .hasPendingData none, .recvDone]

/-- It is popped; -/
def signInPopped : List (Side × Endpoint.Label Msg) := ioSteps .a [.pop, .sendTest]

/-- and it is received and dispatched, and the thread goes on. -/
def signInReceived : List (Side × Endpoint.Label Msg) :=
  ioSteps .b [.recv (some 6), .received, .decode] ++
  [(.b, .tick ⟨[], false, .userSignInRes true⟩ [])] ++
  ioSteps .b ([.decode, .recvDone] ++ idle ++ idle ++ idle ++ idle ++ [.loopTest true, .sendTest])

/-- The states from which these are. -/
def accepted : Endpoints Msg := afterSignIn signInAccepted

def popped : Endpoints Msg := afterSignIn (signInAccepted ++ signInPopped)

def arrived : Endpoints Msg := afterSignIn (signInAccepted ++ (signInPopped ++ signInReceived))

theorem run_signInAccepted :
    run (Endpoints.step protobuf generated sameNumber) (.initial fun _ => 0) signInAccepted =
        some accepted ∧
      run (Endpoints.step protobuf generated sameNumber) accepted signInPopped = some popped ∧
      run (Endpoints.step protobuf generated sameNumber) popped signInReceived = some arrived := by
  have hfirst := run_afterSignIn signInAccepted signInPopped (by decide)
  have hsecond := run_afterSignIn (signInAccepted ++ signInPopped) signInReceived (by decide)
  rw [List.append_assoc] at hsecond
  exact ⟨hfirst.1, hfirst.2, hsecond.2⟩

/-- No step of these connects a session. -/
theorem quiet_of_decide (s : Endpoints Msg) (labels : List (Side × Endpoint.Label Msg))
    (hstream : ∀ l ∈ labels, Endpoint.StreamOk l.2)
    (h : EachStep (Endpoints.step protobuf generated sameNumber) (fun s l =>
      (s l.1).FrameOk protobuf l.2 ∧ s.Announced sameNumber l ∧ (s l.1).Undisturbed l.2) s labels) :
    EachStep (Endpoints.step protobuf generated sameNumber)
      (fun s l => s.Quiet protobuf sameNumber l) s labels :=
  ((eachStep_of_forall hstream).and h).mono fun _ _ hq => ⟨⟨hq.1, hq.2.1⟩, hq.2.2.1, hq.2.2.2⟩

/-- The request has arrived after two steps of the one thread and 31 of the other, at most. -/
theorem arrives_run_signIn :
    (accepted .a).client.drain 0 1 = 2 ∧ popped.arrival sameNumber .b 0 = 31 ∧
      (accepted .a).sent protobuf 0 = [signInFrame.drop 4] ∧
      (accepted .a).sent protobuf 0 <+: (arrived .b).received 0 ++ (arrived .b).queued 0 := by
  obtain ⟨hrun, hpopped, harrived⟩ := run_signInAccepted
  obtain ⟨t, ht⟩ : ∃ t, (accepted .b).client.threads[0]? = some t :=
    Option.isSome_iff_exists.mp (by decide)
  obtain ⟨u, hu⟩ : ∃ u, (accepted .a).client.threads[0]? = some u :=
    Option.isSome_iff_exists.mp (by decide)
  have hlive : ∀ t ∈ (accepted .b).client.threads[0]?, t.bManuallyStop = false ∧
      t.bConnectionError = false ∧ t.pc ≠ .exit ∧ t.pc ≠ .ended := by decide
  have hlive' : ∀ u ∈ (accepted .a).client.threads[0]?, (u.bManuallyStop = false ∧
      u.bConnectionError = false ∧ u.pc ≠ .exit ∧ u.pc ≠ .ended) ∧ u.enqueued.length = 1 := by
    decide
  obtain ⟨h1, h2, h3, h4⟩ := hlive t ht
  obtain ⟨⟨h1', h2', h3', h4'⟩, hlength⟩ := hlive' u hu
  have hsize : EachStep (Endpoints.step protobuf generated sameNumber)
      (Endpoints.SizeOk protobuf) (.initial fun _ => 0) signInAccepted := by
    refine EachStep.and (eachStep_of_forall
      (C := fun l : Side × Endpoint.Label Msg => Endpoint.StreamOk l.2) ?_) (by decide)
    simp [signInAccepted, ioSteps, Endpoint.StreamOk, headersOk_signIn, length_signIn]
  have hquiet := quiet_of_decide accepted signInPopped
    (by simp [signInPopped, ioSteps, Endpoint.StreamOk]) (by decide)
  have hquiet' := quiet_of_decide popped signInReceived
    (by simp [signInReceived, ioSteps, idle, Endpoint.StreamOk]) (by decide)
  have harrives := (arrives_run (x := .b) (k := 0) (j := 0) hrun hsize (by decide) rfl ht
    ⟨h1, h2, h3, h4⟩ hu ⟨h1', h2', h3', h4'⟩ hpopped hquiet harrived (hquiet'.and (by decide))
    (fun y => by cases y <;> decide)).2
  rw [hlength] at harrives
  exact ⟨by decide, by decide, by decide, harrives (by decide) (by decide) (by decide) (by decide)⟩

end

end ThirdPersonMP.System
