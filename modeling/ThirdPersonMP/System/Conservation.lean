import ThirdPersonMP.Network.Transit
import ThirdPersonMP.System.Connection

/-!
# Where a message is

Between `FTCPSocket::Send` on one side and `RpcChannel::OnMessage` on the other a message is in
`SendBuffer`, with a socket or the network, in `RecvData` or on `MessageQueue`, and its frame
may be cut into pieces that are in different places.

* `Whole` — two connected sessions that are current, of which nothing was lost.
* `accounted_run` — in every run: what was sent in the one is what is dispatched and queued in
  the other, and the messages whose frames are, byte for byte, in the places before that.
-/

namespace ThirdPersonMP.System

open Base Library Rpc

variable {M D : Type*}

/-- The messages from session `k` that are on `MessageQueue`. -/
def Endpoint.queued (e : Endpoint M) (k : ℕ) : List Bytes :=
  Network.payloads k e.client.mem.messageQueue

section

variable (links : Links) (s : Endpoints M) (x : Side) (k j : ℕ)
  (t u : Network.FTCPSocketRunnable)

/-- What the socket of the other side has accepted, and `Recv` has not delivered. -/
def Endpoints.underWay : Bytes := (s.acceptedFor links x k).drop t.consumed.length

/-- Session `k` of `x`, whose thread is `t`, and session `j` of the other side, whose thread is
`u`, are connected and current; no `Recv` of the one and no call of the other has failed, and
no message was discarded. -/
structure Endpoints.Whole : Prop where
  peerOf : links.peerOf x k = some j
  receiver : (s x).client.threads[k]? = some t
  sender : (s x.other).client.threads[j]? = some u
  receiving : (s x).client.socketRunnablePtr = some k
  sending : (s x.other).client.socketRunnablePtr = some j
  recvFailed : t.recvFailed = false
  stopSeen : t.stopSeen = false
  bConnectionError : u.bConnectionError = false
  kept : Network.payloads k ((s x).client.discarded.map Prod.snd) = []

end

section

variable {P : Protobuf M D} {links : Links} [DecidableEq D] {g : Generated D} {s : Endpoints M}
  {x : Side} {k j : ℕ} {t u : Network.FTCPSocketRunnable}

omit [DecidableEq D] in
/-- **Where the bytes are**: those passed to `Send` in the one session are the frames that the
other has taken off the stream, and what is held, under way and unsent. -/
theorem Linked.flatMap_sent (h : Linked P links s) (ho : s.Whole links x k j t u) :
    ((s x.other).sent P j).flatMap Network.encoder =
      ((s x).received k ++ (s x).queued k).flatMap Network.encoder ++
        (t.held (s x).client.mem.recvData ++ s.underWay links x k t ++
          u.unsent (s x.other).client.mem.sendBuffer) := by
  obtain ⟨hx, hcausal⟩ := h x
  obtain ⟨hother, -⟩ := h x.other
  obtain ⟨as, has⟩ := hx.reached
  obtain ⟨bs, hbs⟩ := hother.reached
  obtain ⟨hlen, hheaders⟩ := hx.streams k t ho.receiver
  have horder := Network.inOrder_run has ho.receiver hlen hheaders
  have hlast := (Network.wf_run has).current k ho.receiving
  obtain ⟨enqueued, hframes, -, hkept⟩ := horder.frames
  have hconsumed := (horder.buffered hlast).consumed_eq ho.recvFailed ho.stopSeen hframes
  rw [← hkept ho.kept] at hconsumed
  have hacc : s.acceptedFor links x k = u.accepted := by
    rw [Endpoints.acceptedFor, ho.peerOf]
    simp only [ho.sender, Option.map_some, Option.getD_some]
  have hprefix : t.consumed <+: u.accepted :=
    hacc ▸ hcausal k (List.getElem?_eq_some_iff.mp ho.receiver).1 t ho.receiver
  have hsent := (Network.sent_run hbs j u ho.sender).accepted_append ho.sending
    ho.bConnectionError
  calc ((s x.other).sent P j).flatMap Network.encoder
      = u.accepted ++ u.unsent (s x.other).client.mem.sendBuffer := by
        rw [hother.flatMap_sent ho.sender, hsent]
    _ = t.consumed ++ s.underWay links x k t ++ u.unsent (s x.other).client.mem.sendBuffer := by
        rw [Endpoints.underWay, hacc, List.prefix_iff_eq_append.mp hprefix]
    _ = _ := by
        rw [← hconsumed, List.append_assoc, List.append_assoc, List.append_assoc]
        rfl

omit [DecidableEq D] in
/-- What is dispatched and queued are the first of the messages sent. -/
theorem Linked.received_queued_prefix (h : Linked P links s) (ho : s.Whole links x k j t u) :
    (s x).received k ++ (s x).queued k <+: (s x.other).sent P j := by
  obtain ⟨hx, -⟩ := h x
  obtain ⟨as, has⟩ := hx.reached
  obtain ⟨hlen, hheaders⟩ := hx.streams k t ho.receiver
  have horder := Network.inOrder_run has ho.receiver hlen hheaders
  obtain ⟨enqueued, hframes, -, hkept⟩ := horder.frames
  rw [Endpoint.received, Endpoint.queued, hkept ho.kept]
  exact (hframes ▸ List.prefix_append _ _).trans
    ((Network.framing.frames_prefix horder.handed_prefix).trans
      (h.frames_prefix ho.receiver ho.peerOf))

omit [DecidableEq D] in
/-- The others are those whose frames are not completely received. -/
theorem Linked.accounted (h : Linked P links s) (ho : s.Whole links x k j t u) :
    ∃ rest, (s x.other).sent P j = (s x).received k ++ (s x).queued k ++ rest ∧
      rest.flatMap Network.encoder =
        t.held (s x).client.mem.recvData ++ s.underWay links x k t ++
          u.unsent (s x.other).client.mem.sendBuffer := by
  obtain ⟨rest, hrest⟩ := h.received_queued_prefix ho
  refine ⟨rest, hrest.symm, ?_⟩
  have hbytes := h.flatMap_sent ho
  rwa [← hrest, List.flatMap_append, List.append_cancel_left_eq] at hbytes

/-- **In every run** of two sides with streams and frames of a size that the source can handle,
of two connected sessions that are current and have lost nothing: the messages that were passed
to `FTCPSocket::Send` in the one are those that the other has passed to `OnMessage`, those on
its `MessageQueue`, and the rest, whose frames are what the other has in `RecvData`, what is
under way, and what the one has in `SendBuffer`. -/
theorem accounted_run {d : Side → UInt64} {labels : List (Side × Endpoint.Label M)}
    (h : run (Endpoints.step P g links) (.initial d) labels = some s)
    (hsize : EachStep (Endpoints.step P g links) (Endpoints.SizeOk P) (.initial d) labels)
    (ho : s.Whole links x k j t u) :
    ∃ rest, (s x.other).sent P j = (s x).received k ++ (s x).queued k ++ rest ∧
      rest.flatMap Network.encoder =
        t.held (s x).client.mem.recvData ++ s.underWay links x k t ++
          u.unsent (s x.other).client.mem.sendBuffer :=
  (linked_run hsize h).accounted ho

end

/-! ### The sign-in call -/

section

open SignIn

/-- Of the frame of the request ten bytes are accepted and seven of them read. -/
def signInInPieces : List (Side × Endpoint.Label Msg) :=
  [(.a, .socket (.connect signInResFrame)), (.b, .socket (.connect signInFrame)),
    (.a, .act (.send (some (.userSignInArg 7)))), (.a, .sendMessage)] ++
  ioSteps .a [.init true true true, .loopTest true, .sendTest, .peek, .send (some 10)] ++
  ioSteps .b [.init true true true, .loopTest true, .sendTest, .peek, .sendDone,
    .hasPendingData (some 10), .recv (some 7)]

/-- The state after a run. -/
def afterSignIn (labels : List (Side × Endpoint.Label Msg)) : Endpoints Msg :=
  (run (Endpoints.step protobuf generated sameNumber) (.initial fun _ => 0) labels).getD
    (.initial fun _ => 0)

theorem run_afterSignIn (as bs : List (Side × Endpoint.Label Msg))
    (h : (run (Endpoints.step protobuf generated sameNumber) (.initial fun _ => 0)
      (as ++ bs)).isSome = true) :
    run (Endpoints.step protobuf generated sameNumber) (.initial fun _ => 0) as =
        some (afterSignIn as) ∧
      run (Endpoints.step protobuf generated sameNumber) (afterSignIn as) bs =
        some (afterSignIn (as ++ bs)) := by
  obtain ⟨s', hs'⟩ := Option.isSome_iff_exists.mp h
  have hboth := hs'
  rw [run_append] at hboth
  obtain ⟨s, hs, hbs⟩ := Option.bind_eq_some_iff.mp hboth
  have hafter : afterSignIn as = s := by rw [afterSignIn, hs, Option.getD_some]
  have hafter' : afterSignIn (as ++ bs) = s' := by rw [afterSignIn, hs', Option.getD_some]
  rw [hafter, hafter']
  exact ⟨hs, hbs⟩

/-- The state after `signInInPieces`. -/
def inPieces : Endpoints Msg := afterSignIn signInInPieces

theorem sizeOk_signInInPieces : EachStep (Endpoints.step protobuf generated sameNumber)
    (Endpoints.SizeOk protobuf) (.initial fun _ => 0) signInInPieces := by
  refine EachStep.and (eachStep_of_forall
    (C := fun l : Side × Endpoint.Label Msg => Endpoint.StreamOk l.2) ?_) (by decide)
  simp [signInInPieces, ioSteps, Endpoint.StreamOk, headersOk_signIn, length_signIn]

/-- The rest is the request, in three pieces. -/
theorem accounted_run_signIn :
    ∃ (t u : Network.FTCPSocketRunnable) (rest : List Bytes),
      (inPieces .a).sent protobuf 0 =
        (inPieces .b).received 0 ++ (inPieces .b).queued 0 ++ rest ∧
      rest.flatMap Network.encoder =
        t.held (inPieces .b).client.mem.recvData ++ inPieces.underWay sameNumber .b 0 t ++
          u.unsent (inPieces .a).client.mem.sendBuffer ∧
      t.held (inPieces .b).client.mem.recvData = signInFrame.take 7 ∧
      inPieces.underWay sameNumber .b 0 t = (signInFrame.drop 7).take 3 ∧
      u.unsent (inPieces .a).client.mem.sendBuffer = signInFrame.drop 10 := by
  obtain ⟨t, ht⟩ : ∃ t, (inPieces .b).client.threads[0]? = some t :=
    Option.isSome_iff_exists.mp (by decide)
  obtain ⟨u, hu⟩ : ∃ u, (inPieces .a).client.threads[0]? = some u :=
    Option.isSome_iff_exists.mp (by decide)
  have hreceiver : ∀ t ∈ (inPieces .b).client.threads[0]?, t.recvFailed = false ∧
      t.stopSeen = false ∧ t.held (inPieces .b).client.mem.recvData = signInFrame.take 7 ∧
      inPieces.underWay sameNumber .b 0 t = (signInFrame.drop 7).take 3 := by decide
  have hsender : ∀ u ∈ (inPieces .a).client.threads[0]?, u.bConnectionError = false ∧
      u.unsent (inPieces .a).client.mem.sendBuffer = signInFrame.drop 10 := by decide
  obtain ⟨hfailed, hseen, hheld, hway⟩ := hreceiver t ht
  obtain ⟨herr, hunsent⟩ := hsender u hu
  have hrun : run (Endpoints.step protobuf generated sameNumber) (.initial fun _ => 0)
      signInInPieces = some inPieces := (run_afterSignIn signInInPieces [] (by decide)).1
  obtain ⟨rest, hrest, hbytes⟩ := accounted_run hrun sizeOk_signInInPieces (x := .b) (k := 0)
    (j := 0) ⟨rfl, ht, hu, by decide, by decide, hfailed, hseen, herr, by decide⟩
  exact ⟨t, u, rest, hrest, hbytes, hheld, hway, hunsent⟩

end

end ThirdPersonMP.System
