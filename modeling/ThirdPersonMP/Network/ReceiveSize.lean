import ThirdPersonMP.Network.Residue

/-!
# The size of the receive buffer

`Run` grows `RecvData` by what `HasPendingData` reports: `RecvData.SetNum(OriginalNum +
PendingDataSize)` (`TcpSocketRunnable.cpp`, 100–129), a `uint32` sum that is passed as
`int32`. What `RecvData` holds before is what the decoder left, and that is bounded only by
the headers it agrees to wait for. The decoder has no largest length: the codec it was taken
from (`ProtobufCodecLite.cpp`, 60–70) rejects a header above `kMaxMessageLen`, 64 MiB, but
the decode callback (`MgrMessage.cpp`, 80–98) waits for any header below `2^32 - 4`.

* `Sized` — what `RecvData` and the bytes still to come are, at every statement of the IO
  thread: the stream from a frame boundary on, of which the decoder waits for the rest.
* `sizesExact_iff` — for chunks of at most `2^16` bytes, the size that is passed to `SetNum`
  is the exact sum in every run exactly when the stream does not go on for `2^31` bytes
  after a boundary with a header near `2^31` or above.
* `not_sizesExact_unfinished` — a header of `2^31` and as many bytes make the size negative.
-/

namespace ThirdPersonMP.Network

open Base Library Relation

/-! ### What is to hold, and when -/

/-- A reported `PendingDataSize` is at most `2^16`. -/
def SmallChunk : Act → Prop
  | .io _ (.hasPendingData (some pendingDataSize)) => pendingDataSize.toNat ≤ 2 ^ 16
  | _ => True

/-- The size passed to `SetNum` is the exact sum, and is not negative. -/
def SizeExact (originalNum : ℕ) (pendingDataSize : UInt32) : Prop :=
  toInt32 (.ofNat originalNum + pendingDataSize) = originalNum + pendingDataSize.toNat ∧
    0 ≤ toInt32 (.ofNat originalNum + pendingDataSize)

/-- In every run of small chunks, every size passed to `SetNum` in a session with this
stream is exact. -/
def SizesExact (peer : Bytes) : Prop :=
  ∀ (as : List Act) (s s' : Client) (k : ℕ) (t : FTCPSocketRunnable) (pendingDataSize : UInt32),
    (∀ a ∈ as, SmallChunk a) → run Client.step {} as = some s → s.threads[k]? = some t →
    t.peer = peer → pendingDataSize.toNat ≤ 2 ^ 16 →
    s.step (.io k (.hasPendingData (some pendingDataSize))) = some s' →
    SizeExact s.mem.recvData.length pendingDataSize

/-- A frame of the stream that the decoder cuts off. -/
def Cut (b r : Bytes) : Prop := header b < 2 ^ 32 - 4 ∧ ∃ f, nextFrame b = some (f, r)

/-- The condition: a frame at which the decoder arrives, and of which `2^31` bytes come,
header included, does not announce so many that the decoder waits for it until `RecvData`
has `2^31 - 2^16` bytes. -/
def SizesFit (peer : Bytes) : Prop :=
  ∀ r, ReflTransGen Cut peer r → header r < 2 ^ 32 - 4 → 2 ^ 31 ≤ r.length →
    header r < 2 ^ 31 - 2 ^ 16 - 3

/-! ### What the decoder waits for -/

/-- The buffer is less than a header, or less than the frame that its header announces. -/
def Waits (b : Bytes) : Prop := 4 < b.length → header b < 2 ^ 32 - 4 ∧ b.length < 4 + header b

/-- What a round of the loop finds: a buffer to wait with, a frame, or a header that makes
the sum wrap. -/
theorem iteration_cases {b : Bytes} (hb : b.length < 2 ^ 31) :
    (Waits b ∧ (iteration b = .done ∨ iteration b = .incomplete)) ∨
      (∃ f r, header b < 2 ^ 32 - 4 ∧ nextFrame b = some (f, r) ∧
        iteration b = .frame (some f) r) ∨
      ∃ r, iteration b = .frame none r := by
  by_cases hwrap : 4 < b.length ∧ 2 ^ 32 - 4 ≤ header b
  · exact .inr (.inr ⟨_, iteration_of_wrap hb hwrap.1 hwrap.2⟩)
  · have hok : 4 < b.length → header b < 2 ^ 32 - 4 := fun h4 =>
      Nat.lt_of_not_le fun h => hwrap ⟨h4, h⟩
    rcases iteration_eq hb hok with ⟨hn, hi⟩ | ⟨f, r, hn, hi⟩
    · refine .inl ⟨fun h4 => ⟨hok h4, Nat.lt_of_not_le fun hle => ?_⟩, hi⟩
      rw [nextFrame, if_pos ⟨h4, hle⟩] at hn
      cases hn
    · exact .inr (.inl ⟨f, r, hok (nextFrame_eq_some.mp hn).1.1, hn, hi⟩)

/-- A frame is cut off the stream when it is cut off what has come of it. -/
theorem Cut.append {b r : Bytes} (h : Cut b r) (c : Bytes) : Cut (b ++ c) (r ++ c) := by
  obtain ⟨hh, f, hn⟩ := h
  refine ⟨?_, f, framing.next_append c hn⟩
  rw [header_append (nextFrame_eq_some.mp hn).1.1.le]
  exact hh

/-- What `RecvData` holds while the decoder waits: the stream from a frame boundary on, and
not a frame of it. -/
def Held (peer recvData incoming : Bytes) : Prop :=
  ReflTransGen Cut peer (recvData ++ incoming) ∧ Waits recvData

/-- A size is exact when the sum is below `2^31`. -/
theorem sizeExact_iff {n : ℕ} {p : UInt32} : SizeExact n p ↔ n + p.toNat < 2 ^ 31 := by
  constructor
  · rintro ⟨hsum, -⟩
    have hlt := toInt32_lt (.ofNat n + p)
    omega
  · intro h
    rw [SizeExact, toInt32_ofNat_add h]
    omega

/-- While the decoder waits there is room for a small chunk. -/
theorem Held.length_add_lt {peer recvData incoming : Bytes} {n : ℕ}
    (hb : Held peer recvData incoming) (hfit : SizesFit peer) (hn : n ≤ 2 ^ 16)
    (hi : n ≤ incoming.length) : recvData.length + n < 2 ^ 31 := by
  by_cases h4 : 4 < recvData.length
  · obtain ⟨hh, hlt⟩ := hb.2 h4
    by_cases hlen : 2 ^ 31 ≤ (recvData ++ incoming).length
    · have := hfit _ hb.1 (by rwa [header_append h4.le]) hlen
      rw [header_append h4.le] at this
      omega
    · rw [List.length_append] at hlen
      omega
  · omega

/-! ### The receive buffer of any stream -/

/-- What `RecvData` and the bytes still to come are, by the next statement of the thread. -/
def Sized (t : FTCPSocketRunnable) (recvData : Bytes) : Prop :=
  match t.pc with
  | .receiving originalNum pendingDataSize bytesReadTotal =>
    ∃ kept read, originalNum = kept.length ∧ bytesReadTotal = read.length ∧
      recvData = kept ++ read ++ List.replicate (pendingDataSize - bytesReadTotal) 0 ∧
      bytesReadTotal ≤ pendingDataSize ∧ ReflTransGen Cut t.peer (kept ++ read ++ t.incoming)
  | .received _ =>
    t.bConnectionError = true ∨ ReflTransGen Cut t.peer (recvData ++ t.incoming)
  | .decoding => ReflTransGen Cut t.peer (recvData ++ t.incoming)
  | .recvDone =>
    Held t.peer recvData t.incoming ∨ t.bConnectionError = true ∨ t.bManuallyStop = true
  | .exit | .ended | .fault => True
  | .init | .loopTest | .sendTest | .peek | .sending _ _ | .sent _ _ | .sendDone | .recvTest =>
    Held t.peer recvData t.incoming

section

variable {t t' u : FTCPSocketRunnable} {m m' : Shared} {a : IoAct}

theorem Sized.same {recvData : Bytes} (h : Sized t recvData) (hu : Same t u) :
    Sized u recvData := by
  unfold Sized at h ⊢
  rw [hu.pc, hu.peer, hu.incoming, hu.bConnectionError]
  cases hpc : t.pc with
  | recvDone =>
    simp only [hpc] at h ⊢
    exact h.imp_right fun h => h.imp_right hu.bManuallyStop
  | exit | ended | fault => trivial
  | _ =>
    simp only [hpc] at h ⊢
    exact h

/-- **A step of the IO thread keeps what `RecvData` is**, when the chunk it reports is small. -/
theorem Sized.ioStep (hfit : SizesFit t.peer) (hlt : m.recvData.length < 2 ^ 31)
    (hsmall : ∀ p, a = .hasPendingData (some p) → p.toNat ≤ 2 ^ 16) (hb : Sized t m.recvData)
    (h : IoStep t m a t' m') : Sized t' m'.recvData := by
  cases h with
  | noSocket hpc | noHost hpc | refused hpc | setNumFault hpc | writeFault hpc | decodeFault hpc
  | report hpc | exit hpc => trivial
  | connected hpc | peek hpc | peekEmpty hpc | sendFail hpc | pop hpc | noPop hpc =>
    simpa only [Sized, hpc] using hb
  | loopTest hpc | sendTest hpc | sendDone hpc =>
    simp only [Sized, hpc] at hb
    unfold Sized
    split_ifs
    · first | exact hb | trivial
    · first | exact hb | trivial
  | send hpc hk =>
    simp only [Sized, hpc] at hb
    unfold Sized FTCPSocketRunnable.sendMore
    split_ifs <;> exact hb
  | noPendingData hpc =>
    simp only [Sized, hpc] at hb ⊢
    exact .inl hb
  | @hasPendingData p recvData hpc hp hs =>
    simp only [Sized, hpc] at hb ⊢
    have hsum := hb.length_add_lt hfit (hsmall p rfl) hp
    rw [toInt32_ofNat_add hsum, TArray.setNum_grow, Option.some.injEq] at hs
    refine ⟨m.recvData, [], rfl, rfl, ?_, Nat.zero_le _, ?_⟩
    · rw [← hs, List.append_nil, Nat.sub_zero]
    · rw [List.append_nil]
      exact hb.1
  | recvFail hpc => exact .inl rfl
  | @recv o p n k recvData hpc hk hi hw =>
    simp only [Sized, hpc] at hb
    obtain ⟨kept, read, rfl, rfl, hr, hle, hp⟩ := hb
    obtain ⟨hlen, rfl⟩ := eq_of_writeAt_recvData hr hk hi hw
    have hp' : ReflTransGen Cut t.peer
        (kept ++ (read ++ t.incoming.take k) ++ t.incoming.drop k) := by
      simpa only [List.append_assoc, List.take_append_drop] using hp
    unfold Sized FTCPSocketRunnable.recvMore
    split_ifs with hmore
    · exact ⟨kept, _, rfl, hlen, rfl, hmore.le, hp'⟩
    · refine .inr ?_
      rw [replicate_of_not_lt hmore]
      exact hp'
  | hand hpc hs he =>
    simp only [Sized, hpc] at hb ⊢
    exact hb.resolve_left (by rw [he]; decide)
  | noHand hpc hse =>
    simp only [Sized]
    exact .inr hse.symm
  | decodeDone hpc hi =>
    simp only [Sized, hpc] at hb ⊢
    rcases iteration_cases hlt with ⟨hwait, -⟩ | ⟨f, r, -, -, hi'⟩ | ⟨r, hi'⟩
    · exact .inl ⟨hb, hwait⟩
    · simp [hi'] at hi
    · simp [hi'] at hi
  | decodeFrame hpc hi =>
    simp only [Sized, hpc] at hb ⊢
    rcases iteration_cases hlt with ⟨-, hi'⟩ | ⟨f', r', hh, hn, hi'⟩ | ⟨r', hi'⟩
    · simp [hi] at hi'
    · rw [hi, Iteration.frame.injEq] at hi'
      rw [hi'.2]
      exact hb.tail (Cut.append ⟨hh, f', hn⟩ t.incoming)
    · rw [hi] at hi'
      cases hi'
  | recvDone hpc =>
    simp only [Sized, hpc] at hb
    unfold Sized
    split_ifs with hse
    · trivial
    · -- neither an error nor a stop, for that would have ended the loop
      simp only [Bool.or_eq_true, not_or, Bool.not_eq_true] at hse
      refine hb.resolve_right ?_
      rw [hse.1, hse.2]
      decide

end

/-! ### Runs -/

/-- The last session, when its stream meets the condition. -/
def LastSized : Client → Prop :=
  LastThread fun t recvData => SizesFit t.peer → Sized t recvData

/-- **A step keeps what `RecvData` is.** -/
theorem sized_step {s s' : Client} {a : Act} (hw : Wf s) (h : LastSized s) (ha : SmallChunk a)
    (hstep : ClientStep s a s') : LastSized s' := by
  refine lastThread_step hw h (fun t u recvData hb hu hfit => ?_) (fun _ _ _ => ?_)
    (fun k b t t' m m' hab hlt hb hio hfit => ?_) hstep
  · rw [hu.peer] at hfit
    exact (hb hfit).same hu
  · exact ⟨.refl, fun h4 => absurd h4 (Nat.not_lt_zero _)⟩
  · rw [hio.peer_eq] at hfit
    refine (hb hfit).ioStep hfit hlt (fun p hp => ?_) hio
    rw [hab, hp] at ha
    exact ha

theorem sized_run {as : List Act} {s : Client} (hsmall : ∀ a ∈ as, SmallChunk a)
    (h : run Client.step {} as = some s) : LastSized s := by
  have hstart : LastSized {} := ⟨by decide, by simp⟩
  exact invariant_run_of_eachStep hstart
    (fun s a s' hw hs ha hstep => sized_step hw hs ha hstep) (eachStep_of_forall hsmall) h

/-- The condition is enough. -/
theorem SizesFit.sizesExact {peer : Bytes} (hfit : SizesFit peer) : SizesExact peer := by
  rintro as s s' k t p hsmall h ht rfl hp hs
  have hw := wf_run h
  cases ClientStep.of_step hs with
  | @io _ _ t₁ t₂ m' ht₁ hio =>
    rw [ht, Option.some.injEq] at ht₁
    subst ht₁
    have hb := (sized_run hsmall h).2 k t ht (hw.last_of_io ht hio) hfit
    cases hio with
    | hasPendingData hpc hi | setNumFault hpc hi =>
      simp only [Sized, hpc] at hb
      exact sizeExact_iff.mpr (hb.length_add_lt hfit hp hi)

/-! ### Feeding the decoder byte by byte -/

/-- A step of an IO thread, in which it reports no more than a small chunk. -/
def SmallIoStep (x y : FTCPSocketRunnable × Shared) : Prop :=
  ∃ a, SmallChunk (.io 0 a) ∧ ioStep x.1 x.2 a = some y

/-- The steps of the only thread, as a run. -/
theorem exists_run_of_smallIoSteps {s : Client} {t : FTCPSocketRunnable}
    {x : FTCPSocketRunnable × Shared} (ht : s.threads = [t])
    (h : ReflTransGen SmallIoStep (t, s.mem) x) :
    ∃ as, (∀ a ∈ as, SmallChunk a) ∧
      run Client.step s as = some { s with threads := [x.1], mem := x.2 } := by
  let client (x : FTCPSocketRunnable × Shared) : Client := { s with threads := [x.1], mem := x.2 }
  have hs : client (t, s.mem) = s := by
    simp only [client, ← ht]
  have hreach : ReflTransGen (fun s s' => ∃ a, SmallChunk a ∧ s.step a = some s')
      (client (t, s.mem)) (client x) := by
    refine h.lift client fun x y ⟨a, ha, hxy⟩ => ⟨.io 0 a, ha, ?_⟩
    simp only [client, Client.step, List.getElem?_cons_zero, hxy, Option.map_some,
      List.set_cons_zero]
  rw [hs] at hreach
  exact exists_run_of_reaches Client.step hreach

/-- The thread is at a statement, connected, with nothing to send, no error and no stop. -/
structure Quiet (peer : Bytes) (pc : Pc) (recvData incoming : Bytes) (t : FTCPSocketRunnable)
    (m : Shared) : Prop where
  peer : t.peer = peer
  pc : t.pc = pc
  recvData : m.recvData = recvData
  incoming : t.incoming = incoming
  socketPtr : t.socketPtr = true
  bConnectionError : t.bConnectionError = false
  bManuallyStop : t.bManuallyStop = false
  sendBuffer : m.sendBuffer = []

namespace Quiet

variable {peer recvData incoming : Bytes} {t : FTCPSocketRunnable} {m : Shared}

/-- From the outer loop test to the receive part. -/
theorem send (h : Quiet peer .loopTest recvData incoming t m) :
    ∃ t' m', ReflTransGen SmallIoStep (t, m) (t', m') ∧
      Quiet peer .recvTest recvData incoming t' m' := by
  obtain ⟨rfl, hpc, rfl, rfl, hp, he, hs, hb⟩ := h
  refine ⟨{ t with pc := .recvTest }, m, ?_, ⟨rfl, rfl, rfl, rfl, hp, he, hs, hb⟩⟩
  refine .head (b := ({ t with pc := .sendTest }, m)) ⟨.loopTest true, trivial, ?_⟩ ?_
  · unfold ioStep
    simp only [hpc, hs, hp, Bool.not_false, Bool.and_self, if_true]
  refine .head (b := ({ t with pc := .peek }, m)) ⟨.sendTest, trivial, ?_⟩ ?_
  · unfold ioStep
    simp only [hs, he, Bool.not_false, Bool.and_self, if_true]
  refine .head (b := ({ t with pc := .sendDone }, m)) ⟨.peek, trivial, ?_⟩ ?_
  · unfold ioStep
    simp only [hb]
  refine .single ⟨.sendDone, trivial, ?_⟩
  unfold ioStep
  simp only [hs, he, Bool.or_self, Bool.false_eq_true, if_false]

/-- A chunk of one byte is read and handed to the decoder. -/
theorem receive {c : UInt8} (h : Quiet peer .recvTest recvData (c :: incoming) t m)
    (hlt : recvData.length + 1 < 2 ^ 31) :
    ∃ t' m', ReflTransGen SmallIoStep (t, m) (t', m') ∧
      Quiet peer .decoding (recvData ++ [c]) incoming t' m' := by
  obtain ⟨rfl, hpc, rfl, hi, hp, he, hs, hb⟩ := h
  have hgrow : TArray.setNum m.recvData (toInt32 (.ofNat m.recvData.length + 1)) =
      some (m.recvData ++ [0]) := by
    rw [toInt32_ofNat_add (p := 1) hlt]
    exact TArray.setNum_grow _ 1
  have hwrite : TArray.writeAt (m.recvData ++ [0]) m.recvData.length [c] =
      some (m.recvData ++ [c]) := by
    have := TArray.writeAt_append m.recvData [0] [c] (Nat.le_refl 1)
    rwa [List.drop_of_length_le (Nat.le_refl 1), List.append_nil] at this
  let o := m.recvData.length
  let m' := { m with recvData := m.recvData ++ [c] }
  refine ⟨{ t with incoming := incoming, handed := t.handed ++ [c], pc := .decoding }, m', ?_,
    ⟨rfl, rfl, rfl, rfl, hp, he, hs, hb⟩⟩
  refine .head (b := ({ t with pc := .receiving o 1 0 }, { m with recvData := m.recvData ++ [0] }))
    ⟨.hasPendingData (some 1), (by decide : (1 : UInt32).toNat ≤ 2 ^ 16), ?_⟩ ?_
  · unfold ioStep
    simp only [hpc, hi, hgrow, o]
    rfl
  refine .head (b := ({ t with incoming := incoming, pc := .received o }, m'))
    ⟨.recv (some 1), trivial, ?_⟩ ?_
  · unfold ioStep
    simp [hi, hwrite, FTCPSocketRunnable.recvMore, o, m']
  refine .single ⟨.received, trivial, ?_⟩
  unfold ioStep
  simp only [hs, he, o, m', Bool.not_false, Bool.and_self, if_true, List.drop_left]

/-- The decode callback cuts off the frames. -/
theorem decode (hlt : recvData.length < 2 ^ 31) (hok : HeadersOk recvData)
    (h : Quiet peer .decoding recvData incoming t m) :
    ∃ t' m', ReflTransGen SmallIoStep (t, m) (t', m') ∧
      Quiet peer .recvDone (framing.residue recvData) incoming t' m' := by
  induction recvData using framing.induction generalizing m with
  | hnone b hn =>
    obtain ⟨rfl, hpc, rfl, rfl, hp, he, hs, hb⟩ := h
    refine ⟨{ t with pc := .recvDone }, m, .single ⟨.decode, trivial, ?_⟩,
      ⟨rfl, rfl, (StreamDecoder.residue_of_none hn).symm, rfl, hp, he, hs, hb⟩⟩
    rcases iteration_eq hlt (hok _ (.refl _)) with ⟨-, hi | hi⟩ | ⟨f, r, hn', -⟩
    · unfold ioStep
      simp only [hpc, hi]
    · unfold ioStep
      simp only [hpc, hi]
    · rw [show nextFrame m.recvData = _ from hn] at hn'
      cases hn'
  | hsome b f r hn ih =>
    obtain ⟨rfl, hpc, rfl, rfl, hp, he, hs, hb⟩ := h
    have hshort : r.length < m.recvData.length := framing.next_length hn
    have hi := iteration_of_nextFrame hlt hn
    let m₁ := { m with recvData := r, messageQueue := m.messageQueue ++ [Message.mk t.session f] }
    obtain ⟨t', m', hrun, hq⟩ := ih (m := m₁) (by omega) (hok.reach (.cut hn (.refl r)))
      ⟨rfl, hpc, rfl, rfl, hp, he, hs, hb⟩
    refine ⟨t', m', .head (b := (t, m₁)) ⟨.decode, trivial, ?_⟩ hrun, ?_⟩
    · unfold ioStep
      simp only [hpc, hi, m₁]
    · rw [StreamDecoder.residue_of_some hn]
      exact hq

/-- From the end of the receive part to the outer loop test. -/
theorem loop (h : Quiet peer .recvDone recvData incoming t m) :
    ∃ t' m', ReflTransGen SmallIoStep (t, m) (t', m') ∧
      Quiet peer .loopTest recvData incoming t' m' := by
  obtain ⟨rfl, hpc, rfl, rfl, hp, he, hs, hb⟩ := h
  refine ⟨{ t with pc := .loopTest }, m, .single ⟨.recvDone, trivial, ?_⟩,
    ⟨rfl, rfl, rfl, rfl, hp, he, hs, hb⟩⟩
  unfold ioStep
  simp only [hpc, hs, he, Bool.or_self, Bool.false_eq_true, if_false]

/-- One more byte. -/
theorem feed {c : UInt8} (h : Quiet peer .recvTest recvData (c :: incoming) t m)
    (hlt : recvData.length + 1 < 2 ^ 31) (hok : HeadersOk (recvData ++ [c])) :
    ∃ t' m', ReflTransGen SmallIoStep (t, m) (t', m') ∧
      Quiet peer .recvTest (framing.residue (recvData ++ [c])) incoming t' m' := by
  obtain ⟨t₁, m₁, h₁, hq₁⟩ := h.receive hlt
  obtain ⟨t₂, m₂, h₂, hq₂⟩ := hq₁.decode (by rwa [List.length_append]) hok
  obtain ⟨t₃, m₃, h₃, hq₃⟩ := hq₂.loop
  obtain ⟨t₄, m₄, h₄, hq₄⟩ := hq₃.send
  exact ⟨t₄, m₄, h₁.trans (h₂.trans (h₃.trans h₄)), hq₄⟩

end Quiet

/-- The IO thread of the first session, connected. -/
theorem exists_quiet_connect (peer : Bytes) :
    ∃ t m, ReflTransGen SmallIoStep ({ session := 0, peer := peer }, {}) (t, m) ∧
      Quiet peer .recvTest [] peer t m := by
  have hconnect : SmallIoStep ({ session := 0, peer := peer }, {})
      ({ session := 0, peer := peer, socketPtr := true, pc := .loopTest },
        { tasks := [(0, .connected)] }) := ⟨.init true true true, trivial, rfl⟩
  have hquiet : Quiet peer .loopTest [] peer
      { session := 0, peer := peer, socketPtr := true, pc := .loopTest }
      { tasks := [(0, .connected)] } := ⟨rfl, rfl, rfl, rfl, rfl, rfl, rfl, rfl⟩
  obtain ⟨t, m, h, hq⟩ := hquiet.send
  exact ⟨t, m, .head hconnect h, hq⟩

section

variable {peer : Bytes}

/-- The size for the next chunk of a thread that is reached is exact. -/
theorem SizesExact.sizeExact (h : SizesExact peer) {t : FTCPSocketRunnable} {m : Shared}
    {recvData incoming : Bytes} {p : UInt32}
    (hrun : ReflTransGen SmallIoStep ({ session := 0, peer := peer }, {}) (t, m))
    (hq : Quiet peer .recvTest recvData incoming t m) (hp : p.toNat ≤ 2 ^ 16)
    (hi : p.toNat ≤ incoming.length) : SizeExact recvData.length p := by
  obtain ⟨as, hsmall, has⟩ :=
    @exists_run_of_smallIoSteps (({} : Client).connect peer) _ _ rfl hrun
  have hstep : ∃ y, ioStep t m (.hasPendingData (some p)) = some y := by
    unfold ioStep
    simp only [hq.pc, hq.incoming, if_pos hi]
    split
    · exact ⟨_, rfl⟩
    · exact ⟨_, rfl⟩
  obtain ⟨y, hy⟩ := hstep
  have hall : ∀ a ∈ Act.connect peer :: as, SmallChunk a := by
    intro a ha
    rcases List.mem_cons.mp ha with rfl | ha
    · trivial
    · exact hsmall a ha
  have hconnect : run Client.step {} (.connect peer :: as) =
      some { ({} : Client).connect peer with threads := [t], mem := m } := has
  have hnext : ({ ({} : Client).connect peer with threads := [t], mem := m } : Client).step
      (.io 0 (.hasPendingData (some p))) =
        some { ({} : Client).connect peer with threads := [y.1], mem := y.2 } := by
    simp only [Client.step, List.getElem?_cons_zero, hy, Option.map_some, List.set_cons_zero]
  have hsize := h _ _ _ 0 t p hall hconnect rfl hq.peer hp hnext
  rwa [← hq.recvData]

/-- The thread gets to the end of any part of the stream whose headers are in order. -/
theorem SizesExact.exists_quiet (h : SizesExact peer) {q rest : Bytes} (hpeer : q ++ rest = peer)
    (hok : HeadersOk q) :
    ∃ t m, ReflTransGen SmallIoStep ({ session := 0, peer := peer }, {}) (t, m) ∧
      Quiet peer .recvTest (framing.residue q) rest t m := by
  induction q using List.reverseRecOn generalizing rest with
  | nil =>
    rw [framing_residue_nil]
    obtain rfl : rest = peer := hpeer
    exact exists_quiet_connect rest
  | append_singleton q c ih =>
    rw [List.append_assoc, List.singleton_append] at hpeer
    obtain ⟨t, m, hrun, hq⟩ := ih hpeer (hok.of_prefix (List.prefix_append q [c]))
    have hsize := h.sizeExact hrun hq (p := 1) (by decide) (by simp)
    have hreach : framing.Reach (q ++ [c]) (framing.residue q ++ [c]) :=
      (framing.reach_residue q).append [c]
    obtain ⟨t', m', hrun', hq'⟩ := hq.feed (sizeExact_iff.mp hsize) (hok.reach hreach)
    rw [framing.residue_append]
    exact ⟨t', m', hrun.trans hrun', hq'⟩

/-- The part of a stream that ends `n` bytes after a boundary at which the decoder arrives:
it leaves those, when they are not yet the frame. -/
theorem exists_headersOk_of_cut {b r : Bytes} {n : ℕ} (h : ReflTransGen Cut b r)
    (hr : header r < 2 ^ 32 - 4) (h4 : 4 ≤ n) (hlen : n ≤ r.length) (hwait : n < 4 + header r) :
    ∃ q, q ++ r.drop n = b ∧ HeadersOk q ∧ framing.residue q = r.take n := by
  have hhead : header (r.take n) = header r := by
    have := header_append (b := r.take n) (by rw [List.length_take]; omega) (r.drop n)
    rw [← this, List.take_append_drop]
  induction h using ReflTransGen.head_induction_on with
  | refl =>
    have hnone : nextFrame (r.take n) = none := by
      refine if_neg fun hf => ?_
      rw [hhead, List.length_take] at hf
      omega
    exact ⟨r.take n, List.take_append_drop n r, .of_none hnone fun _ => by rwa [hhead],
      StreamDecoder.residue_of_none hnone⟩
  | @head b b' hcut _ ih =>
    obtain ⟨q, rfl, hok, hres⟩ := ih
    obtain ⟨hh, f, hf⟩ := hcut
    have hb : encoder f ++ (q ++ r.drop n) = b := encoder_nextFrame hf
    have hf32 : f.length < 2 ^ 32 := by
      obtain ⟨-, rfl, -⟩ := nextFrame_eq_some.mp hf
      exact (List.length_take_le _ _).trans_lt (header_lt b)
    have hne : q ≠ [] := by
      rintro rfl
      have := congrArg List.length hres
      rw [framing_residue_nil, List.length_nil, List.length_take] at this
      omega
    have hnext : nextFrame (encoder f ++ q) = some (f, q) := nextFrame_encoder hf32 hne
    refine ⟨encoder f ++ q, by rw [List.append_assoc, hb], fun x hx h4 => ?_, ?_⟩
    · cases hx with
      | refl =>
        rw [← header_append h4.le (r.drop n), List.append_assoc, hb]
        exact hh
      | cut hn' hx' =>
        rw [show nextFrame (encoder f ++ q) = _ from hn', Option.some.injEq,
          Prod.mk.injEq] at hnext
        rw [hnext.2] at hx'
        exact hok x hx' h4
    · rw [StreamDecoder.residue_of_some hnext, hres]

/-- The condition is necessary: at the boundary of a frame that breaks it, the decoder waits
with `2^31 - 2^16` bytes, and then `2^16` more are reported. -/
theorem SizesExact.sizesFit (h : SizesExact peer) : SizesFit peer := by
  intro r hcut hr hlen
  by_contra hbig
  obtain ⟨q, hpeer, hok, hres⟩ := exists_headersOk_of_cut (n := 2 ^ 31 - 2 ^ 16) hcut hr
    (by omega) (by omega) (by omega)
  obtain ⟨t, m, hrun, hq⟩ := h.exists_quiet hpeer hok
  have hchunk : (.ofNat (2 ^ 16) : UInt32).toNat = 2 ^ 16 := by decide
  have hsize := h.sizeExact hrun hq hchunk.le (by rw [hchunk, List.length_drop]; omega)
  rw [sizeExact_iff, hchunk, hres, List.length_take] at hsize
  omega

end

/-- **When the size of the receive buffer stays in range.** In every run of small chunks
every size passed to `SetNum` is exact and not negative, exactly when no frame at which the
decoder arrives and of which `2^31` bytes come announces `2^31 - 2^16 - 3` bytes or more,
below the `2^32 - 4` at which the decoder's own sum wraps. -/
theorem sizesExact_iff (peer : Bytes) : SizesExact peer ↔ SizesFit peer :=
  ⟨SizesExact.sizesFit, SizesFit.sizesExact⟩

/-- A frame that announces `n` bytes, of which four do not come. -/
def unfinished (n : ℕ) : Bytes := storeUInt32 (.ofNat n) ++ List.replicate (n - 4) 0

/-- The peer announces `2^31` bytes and sends `2^31` in all: the size becomes negative. -/
theorem not_sizesExact_unfinished : ¬ SizesExact (unfinished (2 ^ 31)) := by
  intro h
  have hhead : header (unfinished (2 ^ 31)) = 2 ^ 31 := by
    rw [header, unfinished, loadUInt32_storeUInt32]
    decide
  have hlen : (unfinished (2 ^ 31)).length = 2 ^ 31 := by
    rw [unfinished, List.length_append, length_storeUInt32, List.length_replicate]
    omega
  have := h.sizesFit _ .refl (by rw [hhead]; decide) hlen.ge
  rw [hhead] at this
  exact absurd this (by decide)

end ThirdPersonMP.Network
