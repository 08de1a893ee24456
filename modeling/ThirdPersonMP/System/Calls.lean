import ThirdPersonMP.Rpc.Leak
import ThirdPersonMP.System.Conservation
import ThirdPersonMP.System.Refinement

/-!
# Where a call is

A call stays in `m_outstandings` from `RpcChannel::Send` on until its response is dispatched.
Meanwhile its request, then its entry among the delayed responses, and then its response is
somewhere on the two sides or between them; a message that goes to `FTCPSocket::Send` is cut
into pieces that are in different places.

* `Endpoints.AnswersOk` — each method that is called has a response, no reply is the empty
  string, and delayed responses are answered.
* `Connected` — the two sides have one session each, which has lost nothing.
* `unfinished_run` — in every run each entry is of a call whose request or response is in one of
  these places; and when nothing is, there is no entry and every call has been completed.
-/

namespace ThirdPersonMP.System

open Base Library Rpc

variable {M D : Type*}

section

variable (P : Protobuf M D) [DecidableEq D] (g : Generated D)

/-! ### The user's code -/

/-- Methods that are called have a response, no reply is the empty string, and delayed
responses are answered. -/
def Endpoints.AnswersOk (s : Endpoints M) : Side × Endpoint.Label M → Prop
  | (x, .act a) => ReplyActOk P (s x).channel a ∧ TwoWay P g (s x).channel a
  | (x, .tick handler callback) => ∀ msg ∈ (s x).client.mem.messageQueue.head?,
    AnswerOk P (P.parseRpcMessage msg.data).1 handler ∧
      EachCall P g (ReplyActOk P) (s x).channel (P.parseRpcMessage msg.data).1 handler callback ∧
      EachCall P g (TwoWay P g) (s x).channel (P.parseRpcMessage msg.data).1 handler callback
  | _ => True

instance (s : Endpoints M) : ∀ l : Side × Endpoint.Label M, Decidable (s.AnswersOk P g l)
  | (x, .act a) =>
    inferInstanceAs (Decidable (ReplyActOk P (s x).channel a ∧ TwoWay P g (s x).channel a))
  | (x, .tick _ _) => inferInstanceAs (Decidable (∀ msg ∈ (s x).client.mem.messageQueue.head?, _))
  | (_, .sendMessage) | (_, .socket _) => inferInstanceAs (Decidable True)

variable {P g} {links : Links} {s s' : Endpoints M} {net : Net M}

/-- The user's code that answers so on the two sides does so in the network. -/
theorem Represents.answersOk (hP : P.Lawful) (h : Represents P s net)
    {l : Side × Endpoint.Label M} {bs : List (NetLabel M)} (hseen : Seen P s net l bs)
    (hok : s.AnswersOk P g l) :
    EachStep (Net.step P g) (fun net l => RepliesOk P g net l ∧ EachAct P g (TwoWay P g) net l)
      net bs := by
  cases hseen with
  | act x a hout =>
    refine ⟨⟨⟨?_, trivial⟩, ?_⟩, fun _ _ => trivial⟩
    · show ReplyActOk P (net x) a
      rw [h.prepend hout]
      exact hok.1
    · show TwoWay P g (net x) a
      rw [h.prepend hout]
      exact hok.2
  | @tick x handler callback msg i message hout hq hi hmessage =>
    obtain ⟨hanswer, hreplies, htwo⟩ := hok msg hq
    rw [← hmessage, hP.parse_serializeRpcMessage] at hanswer hreplies htwo
    have hthis : ∀ message' ∈ (net x.other).out[i]?, message = message' := fun message' hi' =>
      Option.some.inj (hi.symm.trans hi')
    refine ⟨⟨⟨fun message' hi' => ?_, fun message' hi' => ?_⟩, fun message' hi' => ?_⟩,
      fun _ _ => trivial⟩
    · rw [← hthis message' hi', h.prepend hout]
      exact eachCall_prepend (fun p a ha => ha) hreplies
    · exact hthis message' hi' ▸ hanswer
    · rw [← hthis message' hi', h.prepend hout]
      exact eachCall_prepend (fun p a ha => ha) htwo
  | silent => trivial

/-- When every message finds a session, none is lost. -/
theorem simulates_complete (hP : P.Lawful) : Simulates (Endpoints.step P g links) (Net.step P g)
    (fun s net => Linked P links s ∧ Represents P s net ∧ Complete s net)
    (fun s l => s.SizeOk P l ∧ s.HasSession l) (Endpoints.AnswersOk P g)
    (fun net l => RepliesOk P g net l ∧ EachAct P g (TwoWay P g) net l) := by
  rintro s net l s' ⟨hlinked, h, hcomplete⟩ ⟨hsize, hsession⟩ hs
  have hlinked' := linked_step hlinked hsize hs
  obtain ⟨bs, net', hseen, hrun, h', hcomplete'⟩ := h.step hlinked' hs
  exact ⟨bs, net', hrun, ⟨hlinked', h', hcomplete' hsession hcomplete⟩, h.answersOk hP hseen⟩

end

/-! ### What is in flight -/

section

variable {P : Protobuf M D} {links : Links} {s : Endpoints M} {net : Net M}

/-- The messages passed to `SendMessage` are those in flight, and those dispatched. -/
theorem Complete.perm (hc : Complete s net) (h : Represents P s net) (x : Side) :
    ((s x).given.map (fun r => P.serializeRpcMessage r.2) ++
        (s x).channel.out.map P.serializeRpcMessage).Perm
      ((net x).out.map P.serializeRpcMessage ++
        (s x.other).client.dispatched.map (·.2.data)) := by
  refine List.Subperm.perm_of_length_le (List.subperm_ext_iff.mpr fun b _ => ?_) ?_
  · rw [List.count_append, List.count_append]
    exact h.inFlight x b
  · have hx := hc x
    simp only [List.length_append, List.length_map]
    omega

/-- Each side has one session that was given messages; the two are connected and current, and
have lost nothing. -/
structure Endpoints.Connected (links : Links) (s : Endpoints M) (k : Side → ℕ)
    (t : Side → Network.FTCPSocketRunnable) : Prop where
  whole : ∀ x, s.Whole links x (k x) (k x.other) (t x) (t x.other)
  only : ∀ x, ∀ r ∈ (s x).given, r.1 = k x

variable {k : Side → ℕ} {t : Side → Network.FTCPSocketRunnable}

/-- What a side has dispatched is of its session. -/
theorem Endpoints.Connected.dispatched_eq (h : s.Connected links k t) (hlinked : Linked P links s)
    (x : Side) : (s x).client.dispatched.map (·.2.data) = (s x).received (k x) := by
  rw [Endpoint.received, Network.payloads_eq_map, List.map_map]
  · rfl
  · intro msg hmsg
    have hmem : msg.data ∈ (s x).received msg.session :=
      List.mem_map_of_mem (List.mem_filter.mpr ⟨hmsg, decide_eq_true rfl⟩)
    rcases hlinked.received x msg.session with hnil | ⟨j, hj, hsub, -⟩
    · rw [hnil] at hmem
      cases hmem
    · -- something was sent in the session it is connected to, which can only be the one
      obtain ⟨message, hmessage, -⟩ := List.mem_map.mp (hsub.subset hmem)
      obtain ⟨r, hr, -⟩ := List.mem_map.mp hmessage
      rw [List.mem_filter, decide_eq_true_eq] at hr
      have hkj := (h.only x.other r hr.1).symm.trans hr.2
      have hsym := links.symm x _ _ hj
      rw [← hkj, links.symm x _ _ (h.whole x).peerOf, Option.some.injEq] at hsym
      exact hsym.symm

/-- What a side has been given was given to its session. -/
theorem Endpoints.Connected.given_eq (h : s.Connected links k t) (x : Side) :
    (s x).given.map (fun r => P.serializeRpcMessage r.2) = (s x).sent P (k x) := by
  rw [Endpoint.sent, tagged, List.filter_eq_self.mpr fun r hr => decide_eq_true (h.only x r hr),
    List.map_map]
  rfl

/-- A message that `x` has passed to `SendMessage` is on its way: it has not reached the socket,
is on `MessageQueue` of the other side, or among `rest`, whose frames are between the two. -/
def Endpoints.OnItsWay (P : Protobuf M D) (s : Endpoints M) (x : Side) (k : ℕ) (rest : List Bytes)
    (type : MsgType) (id : UInt64) : Prop :=
  ∃ message : RpcMessage, message.type = type ∧ message.id = id ∧
    P.serializeRpcMessage message ∈ (s x).channel.out.map P.serializeRpcMessage ++
      ((s x.other).queued k ++ rest)

/-- What is in flight in the network is on its way. -/
theorem Endpoints.Connected.onItsWay (h : s.Connected links k t) (hlinked : Linked P links s)
    (hnet : Represents P s net) (hc : Complete s net) {x : Side} {rest : List Bytes}
    (hrest : (s x).sent P (k x) =
      (s x.other).received (k x.other) ++ (s x.other).queued (k x.other) ++ rest)
    {type : MsgType} {id : UInt64} (hid : id ∈ sentIds type (net x).out) :
    s.OnItsWay P x (k x.other) rest type id := by
  obtain ⟨message, hmem, htype, hid⟩ := mem_sentIds.mp hid
  refine ⟨message, htype, hid, ?_⟩
  have hperm := hc.perm hnet x
  rw [h.given_eq, h.dispatched_eq hlinked, hrest] at hperm
  -- what was dispatched is on both sides
  have hflight : ((s x).channel.out.map P.serializeRpcMessage ++
      ((s x.other).queued (k x.other) ++ rest)).Perm ((net x).out.map P.serializeRpcMessage) := by
    refine List.perm_iff_count.mpr fun b => ?_
    have hcount := hperm.count_eq b
    simp only [List.count_append] at hcount ⊢
    omega
  exact hflight.mem_iff.mpr (List.mem_map_of_mem hmem)

/-- Between the two sides, and on them, there is no message. -/
structure Endpoints.AtRest (links : Links) (s : Endpoints M) (k : Side → ℕ)
    (t : Side → Network.FTCPSocketRunnable) : Prop where
  out : ∀ x, (s x).channel.out = []
  unsent : ∀ x, (t x).unsent (s x).client.mem.sendBuffer = []
  underWay : ∀ x, s.underWay links x (k x) (t x) = []
  held : ∀ x, (t x).held (s x).client.mem.recvData = []
  queued : ∀ x, (s x).queued (k x) = []

/-- Frames are not empty. -/
theorem eq_nil_of_flatMap_encoder {rest : List Bytes} (h : rest.flatMap Network.encoder = []) :
    rest = [] := by
  cases rest with
  | nil => rfl
  | cons msg rest =>
    have hlen := congrArg List.length h
    rw [List.flatMap_cons, List.length_append, Network.length_encoder, List.length_nil] at hlen
    omega

/-- At rest no message is on its way. -/
theorem Endpoints.AtRest.not_onItsWay (h : s.AtRest links k t) {x : Side} {rest : List Bytes}
    (hrest : rest.flatMap Network.encoder =
      (t x.other).held (s x.other).client.mem.recvData ++
        s.underWay links x.other (k x.other) (t x.other) ++
        (t x).unsent (s x).client.mem.sendBuffer) (type : MsgType) (id : UInt64) :
    ¬ s.OnItsWay P x (k x.other) rest type id := by
  rw [h.held, h.underWay, h.unsent] at hrest
  rw [Endpoints.OnItsWay, h.out, h.queued, eq_nil_of_flatMap_encoder hrest]
  simp

/-- Where the calls of the two sides are. -/
structure Unfinished (P : Protobuf M D) (links : Links) (s : Endpoints M) (k : Side → ℕ)
    (t : Side → Network.FTCPSocketRunnable) (rest : Side → List Bytes) : Prop where
  /-- What is between the two sides. -/
  bytes : ∀ x, (rest x).flatMap Network.encoder =
    (t x.other).held (s x.other).client.mem.recvData ++
      s.underWay links x.other (k x.other) (t x.other) ++
      (t x).unsent (s x).client.mem.sendBuffer
  /-- An entry is of a call whose request is on its way, whose response is delayed, or whose
  response is on its way. -/
  entry : ∀ x, ∀ id ∈ (s x).channel.mOutstandings,
    s.OnItsWay P x (k x.other) (rest x) .request id ∨
      id ∈ pendingIds (s x.other).channel.mDelayResponse ∨
      s.OnItsWay P x.other (k x) (rest x.other) .response id

/-- No call is lost in the network, so none is on the two sides. -/
theorem Endpoints.Connected.exists_unfinished (h : s.Connected links k t)
    (hlinked : Linked P links s) (hnet : Represents P s net) (hcomplete : Complete s net)
    (hnoLeak : NoLeak net) : ∃ rest, Unfinished P links s k t rest := by
  have hexists : ∀ x, ∃ rest, (s x).sent P (k x) =
      (s x.other).received (k x.other) ++ (s x.other).queued (k x.other) ++ rest ∧
      rest.flatMap Network.encoder = (t x.other).held (s x.other).client.mem.recvData ++
        s.underWay links x.other (k x.other) (t x.other) ++
        (t x).unsent (s x).client.mem.sendBuffer := by
    intro x
    obtain ⟨rest, hsent, hbytes⟩ := hlinked.accounted (h.whole x.other)
    simp only [Side.other_other] at hsent hbytes
    exact ⟨rest, hsent, hbytes⟩
  choose rest hrest hbytes using hexists
  refine ⟨rest, hbytes, fun x id hid => ?_⟩
  have hmem : id ∈ (net x).mOutstandings := by
    rw [hnet.channel x]
    exact hid
  have hother : (net x.other).mDelayResponse = (s x.other).channel.mDelayResponse := by
    rw [hnet.channel x.other]
  rcases hnoLeak.entry x id hmem with hreq | hpend | hres
  · exact .inl (h.onItsWay hlinked hnet hcomplete (hrest x) hreq)
  · exact .inr (.inl (hother ▸ hpend))
  · have hway := h.onItsWay hlinked hnet hcomplete (hrest x.other) hres
    rw [Side.other_other] at hway
    exact .inr (.inr hway)

/-- At rest, and with nothing delayed, there is no entry. -/
theorem Unfinished.not_mem {rest : Side → List Bytes} (h : Unfinished P links s k t rest)
    (hatRest : s.AtRest links k t) (hnone : ∀ x, (s x).channel.mDelayResponse = ∅) (x : Side)
    (id : UInt64) : id ∉ (s x).channel.mOutstandings := by
  intro hid
  rcases h.entry x id hid with hreq | hpend | hres
  · exact hatRest.not_onItsWay (h.bytes x) _ _ hreq
  · rw [hnone] at hpend
    cases hpend
  · have hno := hatRest.not_onItsWay (P := P) (h.bytes x.other) .response id
    rw [Side.other_other] at hno
    exact hno hres

end

/-! ### Runs -/

section

variable {P : Protobuf M D} [DecidableEq D] {g : Generated D} {links : Links} {s : Endpoints M}

/-- **In every run** of two sides with streams and frames of a size that the source can handle,
in which every message finds a session, the methods called have responses, and these are given:
of two connected sessions that have lost nothing, and are the only ones that were given messages,
every entry of `m_outstandings` is of a call whose request is on its way to the other side, byte
for byte, or whose response is delayed there or on its way back; and when nothing is on its way
and nothing delayed, there is no entry, and every call that was made has been completed. -/
theorem unfinished_run (hP : P.Lawful) (hg : g.Lawful) {d : Side → UInt64}
    {labels : List (Side × Endpoint.Label M)}
    (h : run (Endpoints.step P g links) (.initial d) labels = some s)
    (hsize : EachStep (Endpoints.step P g links) (Endpoints.SizeOk P) (.initial d) labels)
    (hsession : EachStep (Endpoints.step P g links) Endpoints.HasSession (.initial d) labels)
    (hanswers : EachStep (Endpoints.step P g links) (Endpoints.AnswersOk P g) (.initial d) labels)
    {k : Side → ℕ} {t : Side → Network.FTCPSocketRunnable} (hconnected : s.Connected links k t) :
    (∃ rest, Unfinished P links s k t rest) ∧
      (s.AtRest links k t → (∀ x, (s x).channel.mDelayResponse = ∅) → ∀ x,
        (s x).channel.mOutstandings = ∅ ∧
          ∀ id ∈ acceptedIds (s x).channel.trace, id ∈ doneIds (s x).channel.trace) := by
  obtain ⟨netLabels, net, hrun, ⟨hlinked, hnet, hcomplete⟩, hok⟩ :=
    run_simulated (simulates_complete hP)
      ⟨linked_initial d, represents_initial d, fun _ => rfl⟩ (hsize.and hsession) h
  have hkept : Kept P g net := run_invariant_of_eachStep (Net.step P g)
    (fun x => ⟨.initial, .initial, ⟨.initial, .initial⟩⟩)
    (fun net l net' hkept hok hs => kept_step hP hg hkept hok.1 hok.2 hs) (hok hanswers) hrun
  obtain ⟨rest, hunfinished⟩ := hconnected.exists_unfinished hlinked hnet hcomplete
    (.of_tracks fun x => (hkept x).2.2)
  refine ⟨⟨rest, hunfinished⟩, fun hatRest hnone x => ?_⟩
  have hempty := hunfinished.not_mem hatRest hnone x
  constructor
  · apply AList.ext
    rw [AList.empty_entries, List.eq_nil_iff_forall_not_mem]
    exact fun e he => hempty e.1 (List.mem_map_of_mem he)
  · -- an entry stays until its call is completed
    intro id hid
    have hclient := (hkept x).2.1.kept id
    rw [hnet.channel x] at hclient
    exact (hclient hid).resolve_left (hempty id)

end

/-! ### The sign-in call -/

section

open SignIn

/-- Two first sessions that have lost nothing. -/
theorem connected_of_decide (s : Endpoints Msg) {t : Side → Network.FTCPSocketRunnable}
    (ht : ∀ x, (s x).client.threads[0]? = some (t x))
    (hthread : ∀ x, ∀ u ∈ (s x).client.threads[0]?,
      u.recvFailed = false ∧ u.stopSeen = false ∧ u.bConnectionError = false)
    (hs : ∀ x, (s x).client.socketRunnablePtr = some 0 ∧
      Network.payloads 0 ((s x).client.discarded.map Prod.snd) = [] ∧ ∀ r ∈ (s x).given, r.1 = 0) :
    s.Connected sameNumber (fun _ => 0) t where
  whole x :=
    have hreceiver := hthread x (t x) (ht x)
    { peerOf := rfl
      receiver := ht x
      sender := ht x.other
      receiving := (hs x).1
      sending := (hs x.other).1
      recvFailed := hreceiver.1
      stopSeen := hreceiver.2.1
      bConnectionError := (hthread x.other _ (ht x.other)).2.2
      kept := (hs x).2.1 }
  only x := (hs x).2.2

/-- The request is in pieces; the call has not been completed. Later all is at rest, and it
has. -/
theorem unfinished_run_signIn :
    ((inPieces .a).channel.mOutstandings.keys = [1] ∧
      ∃ t rest, Unfinished protobuf sameNumber inPieces (fun _ => 0) t rest) ∧
    ((∃ t, signedIn.AtRest sameNumber (fun _ => 0) t) ∧
      acceptedIds (signedIn .a).channel.trace = [1] ∧
      ∀ x, (signedIn x).channel.mOutstandings = ∅ ∧
        ∀ id ∈ acceptedIds (signedIn x).channel.trace, id ∈ doneIds (signedIn x).channel.trace) := by
  constructor
  · have hexists : ∀ x, ∃ t, (inPieces x).client.threads[0]? = some t := fun x =>
      Option.isSome_iff_exists.mp (by cases x <;> decide)
    choose t ht using hexists
    have hrun : run (Endpoints.step protobuf generated sameNumber) (.initial fun _ => 0)
        signInInPieces = some inPieces := (run_afterSignIn signInInPieces [] (by decide)).1
    refine ⟨by decide, t, (unfinished_run protobuf_lawful generated_lawful hrun
      sizeOk_signInInPieces (by decide) (by decide)
      (connected_of_decide inPieces ht ?_ ?_)).1⟩
    · intro x
      cases x <;> decide
    · intro x
      cases x <;> decide
  · have hexists : ∀ x, ∃ t, (signedIn x).client.threads[0]? = some t := fun x =>
      Option.isSome_iff_exists.mp (by cases x <;> decide)
    choose t ht using hexists
    have hat : ∀ x, ∀ u ∈ (signedIn x).client.threads[0]?,
        u.unsent (signedIn x).client.mem.sendBuffer = [] ∧
          signedIn.underWay sameNumber x 0 u = [] ∧
          u.held (signedIn x).client.mem.recvData = [] := by
      intro x
      cases x <;> decide
    have hatRest : signedIn.AtRest sameNumber (fun _ => 0) t :=
      { out := fun x => by cases x <;> decide
        unsent := fun x => (hat x (t x) (ht x)).1
        underWay := fun x => (hat x (t x) (ht x)).2.1
        held := fun x => (hat x (t x) (ht x)).2.2
        queued := fun x => by cases x <;> decide }
    refine ⟨⟨t, hatRest⟩, by decide, (unfinished_run protobuf_lawful generated_lawful run_signInOverTcp
      sizeOk_signInOverTcp (by decide) (by decide) (connected_of_decide signedIn ht ?_ ?_)).2
      hatRest ?_⟩
    · intro x
      cases x <;> decide
    · intro x
      cases x <;> decide
    · intro x
      cases x <;> rfl

end

end ThirdPersonMP.System
