import ThirdPersonMP.Network.Encoder
import ThirdPersonMP.Network.Receive

/-!
# What the decoder leaves

The decoder copies a frame out of `DataBuffer` and cuts it off the same buffer, so what it
enqueues and what it leaves are together what was there: `encoder_decoder` puts the frames
back in front of the rest, with the encoder, and has the bytes that came, whoever sent them.

What it leaves is meant to be less than a frame. The guard of its loop is
`DataBuffer.Num() > 4`, so four bytes that are a whole frame, the empty one, stay.

* `lastThread_step` — the rule for what holds of `RecvData` and the thread of the last session:
  it is enough that the steps of that thread keep it.
* `Resting` — what `RecvData` holds, at every statement of the IO thread, of a stream and a
  run of any length; kept by every step (`resting_step`).
* `withheld_iff` — when the decode callback returns, a complete frame is left exactly when
  the bytes handed to it so far end in an empty one.
-/

namespace ThirdPersonMP.Network

open Base Library

/-! ### Encode undoes decode -/

/-- A frame cut off, put back. -/
theorem encoder_nextFrame {b f r : Bytes} (h : nextFrame b = some (f, r)) : encoder f ++ r = b := by
  obtain ⟨⟨h4, hle⟩, rfl, rfl⟩ := nextFrame_eq_some.mp h
  have hlen : ((b.drop 4).take (header b)).length = header b := by
    rw [List.length_take, List.length_drop]
    omega
  rw [encoder, hlen, header, UInt32.ofNat_toNat, storeUInt32_loadUInt32 h4.le, ← header,
    List.append_assoc, ← List.drop_drop, List.take_append_drop, List.take_append_drop]

/-- The frames of a buffer, and what is left of it, are the buffer. -/
theorem flatMap_encoder_frames (b : Bytes) :
    (framing.frames b).flatMap encoder ++ framing.residue b = b :=
  framing.flatMap_frames_append_residue (fun _ _ _ => encoder_nextFrame) b

/-- Messages whose frames together have fewer than `2^31` bytes are sent as they are. -/
theorem mapM_internalSendPbcFunc {ms : List Bytes} (h : (ms.flatMap encoder).length < 2 ^ 31) :
    ms.mapM internalSendPbcFunc = some (ms.map encoder) := by
  induction ms with
  | nil => rfl
  | cons m ms ih =>
    rw [List.flatMap_cons, List.length_append] at h
    rw [List.mapM_cons, internalSendPbcFunc_eq (by omega), ih (by omega)]
    rfl

/-- **Encode undoes decode**, on bytes that need not come from the encoder: sending the
arrays that a run of the loop enqueues, in order, and then what it leaves in `DataBuffer`
gives back the bytes that were there; and a second run on what is left enqueues nothing
and leaves it. -/
theorem encoder_decoder {b : Bytes} (hb : b.length < 2 ^ 31) (h : HeadersOk b) :
    ∃ messageQueue left sent, decoder b = some (messageQueue, left) ∧
      messageQueue.mapM internalSendPbcFunc = some sent ∧ sent.flatten ++ left = b ∧
      decoder left = some ([], left) := by
  have hbytes := flatMap_encoder_frames b
  have hreach := framing.reach_residue b
  have hleft := framing.residue_done b
  refine ⟨_, _, _, decoder_eq hb h, mapM_internalSendPbcFunc ?_, ?_, ?_⟩
  · rw [← hbytes, List.length_append] at hb
    omega
  · rw [← List.flatMap_def]
    exact hbytes
  · rw [decoder_eq (hreach.length_le.trans_lt hb) (h.reach hreach),
      StreamDecoder.frames_of_none hleft, StreamDecoder.residue_of_none hleft]

/-- An empty frame, a frame of one byte and the header of a third. -/
theorem encoder_decoder_empty :
    ∃ messageQueue left sent, decoder [0, 0, 0, 0, 1, 0, 0, 0, 7, 9, 0, 0, 0] =
        some (messageQueue, left) ∧
      messageQueue.mapM internalSendPbcFunc = some sent ∧
      sent.flatten ++ left = [0, 0, 0, 0, 1, 0, 0, 0, 7, 9, 0, 0, 0] ∧
      decoder left = some ([], left) :=
  encoder_decoder (by decide) <|
    .of_some (f := []) (r := [1, 0, 0, 0, 7, 9, 0, 0, 0]) (by decide) (by decide) <|
      .of_some (f := [7]) (r := [9, 0, 0, 0]) (by decide) (by decide) <|
        .of_none (by decide) (by decide)

/-! ### No complete frame is withheld -/

/-- The buffer starts with a complete frame: its header, and as many bytes as that
announces. -/
def StartsWithFrame (b : Bytes) : Prop := 4 ≤ b.length ∧ 4 + header b ≤ b.length

instance (b : Bytes) : Decidable (StartsWithFrame b) :=
  inferInstanceAs (Decidable (_ ∧ _))

/-- The bytes are complete frames, the last of them empty. -/
def EndsInEmptyFrame (b : Bytes) : Prop :=
  ∃ ms : List Bytes, (∀ m ∈ ms, m.length < 2 ^ 32) ∧ b = ms.flatMap encoder ++ encoder []

/-- What is left is a complete frame only when it is the empty one. -/
theorem eq_of_startsWithFrame {b : Bytes} (hn : nextFrame b = none) (h : StartsWithFrame b) :
    b = encoder [] := by
  have h4 : ¬ 4 < b.length := by
    intro h4
    rw [nextFrame, if_pos ⟨h4, h.2⟩] at hn
    cases hn
  have hlen : b.length = 4 := by have := h.1; omega
  have hzero : header b = 0 := by have := h.2; omega
  have hload : loadUInt32 b = 0 := UInt32.toNat_inj.mp hzero
  calc b = b.take 4 := (List.take_of_length_le hlen.le).symm
    _ = storeUInt32 (loadUInt32 b) := (storeUInt32_loadUInt32 hlen.ge).symm
    _ = encoder [] := by rw [hload]; rfl

/-- A frame that is followed by another is cut off, whatever its length. -/
theorem nextFrame_encoder {m rest : Bytes} (hm : m.length < 2 ^ 32) (hr : rest ≠ []) :
    nextFrame (encoder m ++ rest) = some (m, rest) := by
  have hpos := List.length_pos_iff.mpr hr
  have hhead : header (encoder m ++ rest) = m.length := by
    rw [header_encoder, Nat.mod_eq_of_lt hm]
  have hdrop : (encoder m ++ rest).drop 4 = m ++ rest := by
    rw [encoder, List.append_assoc]
    exact List.drop_left' (length_storeUInt32 _)
  rw [nextFrame_eq_some, hhead, ← List.drop_drop, hdrop, List.length_append, length_encoder]
  exact ⟨⟨by omega, by omega⟩, List.take_left' rfl, List.drop_left' rfl⟩

/-- The empty frame at the end of complete ones is what the loop leaves. -/
theorem residue_of_endsInEmptyFrame {b : Bytes} (h : EndsInEmptyFrame b) :
    framing.residue b = encoder [] := by
  obtain ⟨ms, hms, rfl⟩ := h
  induction ms with
  | nil => exact StreamDecoder.residue_of_none (by decide)
  | cons m ms ih =>
    have hne : ms.flatMap encoder ++ encoder [] ≠ [] := by
      intro hnil
      have := congrArg List.length hnil
      rw [List.length_append, length_encoder, List.length_nil] at this
      omega
    have hnext := nextFrame_encoder (hms m List.mem_cons_self) hne
    rw [List.flatMap_cons, List.append_assoc, StreamDecoder.residue_of_some hnext]
    exact ih fun m' hm' => hms m' (List.mem_cons_of_mem m hm')

/-- The frames of a buffer are as long as their headers say. -/
theorem length_lt_of_mem_frames {b f : Bytes} (h : f ∈ framing.frames b) : f.length < 2 ^ 32 := by
  induction b using framing.induction with
  | hnone b hn =>
    rw [StreamDecoder.frames_of_none hn] at h
    cases h
  | hsome b f' r hn ih =>
    rw [StreamDecoder.frames_of_some hn] at h
    rcases List.mem_cons.mp h with rfl | h
    · obtain ⟨-, rfl, -⟩ := nextFrame_eq_some.mp hn
      exact (List.length_take_le _ _).trans_lt (header_lt b)
    · exact ih h

/-- What is left of a buffer starts with a complete frame exactly when the buffer ends in
an empty one. -/
theorem startsWithFrame_residue_iff (b : Bytes) :
    StartsWithFrame (framing.residue b) ↔ EndsInEmptyFrame b := by
  constructor
  · intro h
    refine ⟨framing.frames b, fun m hm => length_lt_of_mem_frames hm, ?_⟩
    rw [← eq_of_startsWithFrame (framing.residue_done b) h]
    exact (flatMap_encoder_frames b).symm
  · intro h
    rw [residue_of_endsInEmptyFrame h]
    decide

/-! ### The receive buffer of a stream of any length -/

/-- What `RecvData` holds, by the next statement of the thread, however long the stream is:
a chunk that makes the `uint32` sum in `SetNum` wrap shortens the buffer, and then no byte
of it can be written. -/
def Resting (t : FTCPSocketRunnable) (recvData : Bytes) : Prop :=
  match t.pc with
  | .receiving originalNum _ _ =>
    t.bConnectionError = false ∧ originalNum = (framing.residue t.handed).length ∧
      (framing.residue t.handed <+: recvData ∨ recvData.length < originalNum)
  | .received originalNum =>
    t.bConnectionError = true ∨
      originalNum = (framing.residue t.handed).length ∧ framing.residue t.handed <+: recvData
  | .decoding => framing.Reach t.handed recvData
  | .recvDone =>
    recvData = framing.residue t.handed ∨ t.bConnectionError = true ∨ t.bManuallyStop = true
  | .recvTest => t.bConnectionError = false ∧ recvData = framing.residue t.handed
  | .exit | .ended | .fault => True
  | .init | .loopTest | .sendTest | .peek | .sending _ _ | .sent _ _ | .sendDone =>
    recvData = framing.residue t.handed

section

variable {t t' u : FTCPSocketRunnable} {m m' : Shared} {a : IoAct}

theorem Resting.same {recvData : Bytes} (h : Resting t recvData) (hu : Same t u) :
    Resting u recvData := by
  unfold Resting at h ⊢
  rw [hu.pc, hu.handed, hu.bConnectionError]
  cases hpc : t.pc with
  | recvDone =>
    simp only [hpc] at h ⊢
    exact h.imp_right fun h => h.imp_right hu.bManuallyStop
  | exit | ended | fault => trivial
  | _ =>
    simp only [hpc] at h ⊢
    exact h

/-- A round of the loop makes the buffer no longer. -/
theorem length_le_of_iteration {b r : Bytes} {toData : Option Bytes}
    (h : iteration b = .frame toData r) : r.length ≤ b.length := by
  rw [iteration] at h
  split at h
  · dsimp only at h
    split at h
    · cases h
    · cases h
      rw [TArray.removeAt0, List.length_drop]
      omega
  · cases h

/-- `RecvData` has fewer than `2^31` elements, as a `TArray` does. -/
theorem IoStep.length_recvData_lt (h : IoStep t m a t' m') (hlt : m.recvData.length < 2 ^ 31) :
    m'.recvData.length < 2 ^ 31 := by
  cases h with
  | @hasPendingData p recvData hpc hp hs =>
    have hsize := toInt32_lt (.ofNat m.recvData.length + p)
    have hlen := TArray.length_setNum hs
    show recvData.length < _
    omega
  | recv hpc hk hi hw => exact (TArray.length_writeAt hw).1.trans_lt hlt
  | decodeFrame hpc hi => exact (length_le_of_iteration hi).trans_lt hlt
  | _ => exact hlt

/-- What was handed to the decoder was handed before or is handed now. -/
theorem IoStep.handed_prefix (h : IoStep t m a t' m') : t.handed <+: t'.handed := by
  cases h with
  | hand => exact List.prefix_append _ _
  | _ => exact List.prefix_rfl

/-- When the loop ends, it has cut off all the frames. -/
theorem eq_residue_of_decodeDone (hok : HeadersOk t.handed) (hlt : m.recvData.length < 2 ^ 31)
    (hb : framing.Reach t.handed m.recvData)
    (hi : iteration m.recvData = .done ∨ iteration m.recvData = .incomplete) :
    m.recvData = framing.residue t.handed := by
  rcases iteration_eq hlt (hok _ hb) with ⟨hn, -⟩ | ⟨f, r, -, hi'⟩
  · rw [← hb.residue_eq, StreamDecoder.residue_of_none hn]
  · simp [hi'] at hi

/-- **A step of the IO thread keeps what `RecvData` holds.** -/
theorem Resting.ioStep (hok : HeadersOk t.handed) (hlt : m.recvData.length < 2 ^ 31)
    (hb : Resting t m.recvData) (h : IoStep t m a t' m') : Resting t' m'.recvData := by
  cases h with
  | noSocket hpc | noHost hpc | refused hpc | setNumFault hpc | writeFault hpc | decodeFault hpc
  | report hpc | exit hpc => trivial
  | connected hpc | peek hpc | peekEmpty hpc | sendFail hpc | pop hpc | noPop hpc =>
    simpa only [Resting, hpc] using hb
  | loopTest hpc | sendTest hpc =>
    simp only [Resting, hpc] at hb
    unfold Resting
    split_ifs
    · exact hb
    · first | exact hb | trivial
  | send hpc hk =>
    simp only [Resting, hpc] at hb
    unfold Resting FTCPSocketRunnable.sendMore
    split_ifs <;> exact hb
  | sendDone hpc =>
    simp only [Resting, hpc] at hb
    unfold Resting
    split_ifs with hse
    · trivial
    · simp only [Bool.or_eq_true, not_or, Bool.not_eq_true] at hse
      exact ⟨hse.2, hb⟩
  | noPendingData hpc =>
    simp only [Resting, hpc] at hb ⊢
    exact .inl hb.2
  | @hasPendingData p recvData hpc hp hs =>
    simp only [Resting, hpc] at hb ⊢
    refine ⟨hb.1, by rw [hb.2], ?_⟩
    -- the sum in `SetNum` is no less than the old size, or it has wrapped
    by_cases hle : m.recvData.length ≤ recvData.length
    · left
      rw [← hb.2]
      exact TArray.prefix_setNum hs hle
    · exact .inr (Nat.lt_of_not_le hle)
  | recvFail hpc => exact .inl rfl
  | @recv o p n k recvData hpc hk hi hw =>
    simp only [Resting, hpc] at hb
    obtain ⟨he, rfl, hb⟩ := hb
    -- the write is inside the buffer, so the buffer was not shortened
    have hlen := (TArray.length_writeAt hw).2
    have hpre : framing.residue t.handed <+: recvData :=
      TArray.prefix_writeAt hw (hb.resolve_right (by omega)) (Nat.le_add_right _ _)
    unfold Resting FTCPSocketRunnable.recvMore
    split_ifs
    · exact ⟨he, rfl, .inl hpre⟩
    · exact .inr ⟨rfl, hpre⟩
  | hand hpc hs he =>
    simp only [Resting, hpc] at hb ⊢
    obtain ⟨rfl, tail, htail⟩ := hb.resolve_left (by rw [he]; decide)
    rw [← htail, List.drop_left]
    exact (framing.reach_residue t.handed).append tail
  | noHand hpc hse =>
    simp only [Resting]
    exact .inr hse.symm
  | decodeDone hpc hi =>
    simp only [Resting, hpc] at hb ⊢
    exact .inl (eq_residue_of_decodeDone hok hlt hb hi)
  | decodeFrame hpc hi =>
    simp only [Resting, hpc] at hb ⊢
    rcases iteration_eq hlt (hok _ hb) with ⟨-, hi'⟩ | ⟨f, r, hn, hi'⟩
    · simp [hi] at hi'
    · rw [hi] at hi'
      cases hi'
      exact hb.trans (.cut hn (.refl _))
  | recvDone hpc =>
    simp only [Resting, hpc] at hb
    unfold Resting
    split_ifs with hse
    · trivial
    · simp only [Bool.or_eq_true, not_or, Bool.not_eq_true] at hse
      refine hb.resolve_right ?_
      rw [hse.1, hse.2]
      decide

end

/-! ### Runs -/

/-- What holds of `RecvData` and the thread of the last session. -/
def LastThread (J : FTCPSocketRunnable → Bytes → Prop) (s : Client) : Prop :=
  s.mem.recvData.length < 2 ^ 31 ∧ ∀ (k : ℕ) (t : FTCPSocketRunnable),
    s.threads[k]? = some t → k + 1 = s.threads.length → J t s.mem.recvData

section

variable {J : FTCPSocketRunnable → Bytes → Prop}

/-- A step that leaves `RecvData` alone, and no more than stops the threads or notes what
they are to send. -/
theorem LastThread.congr {s s' : Client} (h : LastThread J s)
    (hsame : ∀ t u recvData, J t recvData → Same t u → J u recvData)
    (hr : s'.mem.recvData = s.mem.recvData) (hlen : s'.threads.length = s.threads.length)
    (ht : ∀ (k : ℕ) (u : FTCPSocketRunnable), s'.threads[k]? = some u →
      ∃ t, s.threads[k]? = some t ∧ Same t u) : LastThread J s' := by
  refine ⟨by rw [hr]; exact h.1, fun k u hu hk => ?_⟩
  obtain ⟨t, htk, htu⟩ := ht k u hu
  rw [hr]
  exact hsame t u _ (h.2 k t htk (by rw [hk, hlen])) htu

/-- **A step keeps what holds of the last session**, if a new session has it and the steps of
its thread keep it. -/
theorem lastThread_step {s s' : Client} {a : Act} (hw : Wf s) (h : LastThread J s)
    (hsame : ∀ t u recvData, J t recvData → Same t u → J u recvData)
    (hnew : ∀ session peer, J { session := session, peer := peer } [])
    (hio : ∀ k b t t' m m', a = .io k b → m.recvData.length < 2 ^ 31 → J t m.recvData →
      IoStep t m b t' m' → J t' m'.recvData)
    (hstep : ClientStep s a s') : LastThread J s' := by
  cases hstep with
  | noConnect | noDisconnect | noSend => exact h
  | join | callbackReturn | mgrReturn | mgrEmpty | connected | lateConnectionError | tick =>
    exact h.congr hsame rfl rfl fun k u hu => ⟨u, hu, .refl u⟩
  | disconnect | mgrDisconnect | connectionError =>
    refine h.congr hsame rfl (List.length_modify ..) fun k u hu => ?_
    obtain ⟨t, ht, rfl⟩ := getElem?_modify_eq_some.mp hu
    exact ⟨t, ht, (Same.stop t).ite⟩
  | @send data j =>
    refine h.congr hsame rfl (List.length_modify ..) fun k u hu => ?_
    obtain ⟨t, ht, rfl⟩ := getElem?_modify_eq_some.mp hu
    exact ⟨t, ht, (Same.enqueue t data).ite⟩
  | connect hr hp =>
    refine ⟨Nat.two_pow_pos 31, fun k u hu hk => ?_⟩
    rw [List.length_append, List.length_singleton] at hk
    rcases getElem?_concat_eq_some.mp hu with hu | ⟨rfl, rfl⟩
    · have := (List.getElem?_eq_some_iff.mp hu).1
      omega
    · exact hnew _ _
  | @io j b t t' m' ht hb =>
    have hlast := hw.last_of_io ht hb
    refine ⟨hb.length_recvData_lt h.1, fun k u hu hk => ?_⟩
    rw [List.length_set] at hk
    obtain rfl : k = j := by omega
    obtain rfl : u = t' := eq_of_getElem?_set ht hu
    exact hio k b t u s.mem m' rfl h.1 (h.2 k t ht hlast) hb

end

/-- The last session, as long as the headers of the bytes handed to the decoder are in
order. -/
def LastResting (s : Client) : Prop :=
  s.mem.recvData.length < 2 ^ 31 ∧ ∀ (k : ℕ) (t : FTCPSocketRunnable),
    s.threads[k]? = some t → k + 1 = s.threads.length → HeadersOk t.handed →
      Resting t s.mem.recvData

/-- **A step keeps what `RecvData` holds.** -/
theorem resting_step {s s' : Client} {a : Act} (hw : Wf s) (h : LastResting s)
    (hstep : ClientStep s a s') : LastResting s' := by
  refine lastThread_step (J := fun t recvData => HeadersOk t.handed → Resting t recvData) hw h
    (fun t u recvData hb hu hok => ?_) (fun _ _ _ => ?_)
    (fun _ _ t t' m m' _ hlt hb hio hok => ?_) hstep
  · rw [hu.handed] at hok
    exact (hb hok).same hu
  · exact framing_residue_nil.symm
  · have hok' := hok.of_prefix hio.handed_prefix
    exact (hb hok').ioStep hok' hlt hio

theorem resting_run {as : List Act} {s : Client} (h : run Client.step {} as = some s) :
    LastResting s := by
  have hstart : LastResting {} := ⟨by decide, by simp⟩
  exact invariant_run hstart (fun s a s' hw hs hstep => resting_step hw hs hstep) h

/-- **When a complete frame is withheld.** In every run, whatever the chunks, the pieces in
which they are read and what the game thread does meanwhile: when the decode callback of a
session returns, `RecvData` does not start with a complete frame, unless the bytes handed
to it so far end in an empty one. -/
theorem withheld_iff {as : List Act} {s s' : Client} {k : ℕ} {t t' : FTCPSocketRunnable}
    (h : run Client.step {} as = some s) (ht : s.threads[k]? = some t)
    (hok : HeadersOk t.handed) (hs : s.step (.io k .decode) = some s')
    (ht' : s'.threads[k]? = some t') (hret : t'.pc = .recvDone) :
    ¬ StartsWithFrame s'.mem.recvData ↔ ¬ EndsInEmptyFrame t.handed := by
  have hw := wf_run h
  obtain ⟨hlt, hrest⟩ := resting_run h
  cases ClientStep.of_step hs with
  | @io _ _ t₁ t₂ m' ht₁ hio =>
    rw [ht, Option.some.injEq] at ht₁
    subst ht₁
    obtain rfl : t' = t₂ := eq_of_getElem?_set ht ht'
    have hb := hrest k t ht (hw.last_of_io ht hio) hok
    cases hio with
    | decodeDone hpc hi =>
      simp only [Resting, hpc] at hb
      show ¬ StartsWithFrame s.mem.recvData ↔ _
      rw [eq_residue_of_decodeDone hok hlt hb hi, startsWithFrame_residue_iff]
    | decodeFrame hpc hi =>
      rw [hpc] at hret
      cases hret
    | decodeFault hpc hi => cases hret

/-- All that the peer sends arrives in one chunk, and is handed to the decoder. -/
def receive (peer : Bytes) : List Act := .connect peer :: receiveChunk 0 peer.length

/-- What `withheld_iff` says of the header of a frame that has not come. -/
theorem withheld_iff_header :
    ∃ s s' t t', run Client.step {} (receive [9, 0, 0, 0]) = some s ∧
      s.threads[0]? = some t ∧ HeadersOk t.handed ∧ s.step (.io 0 .decode) = some s' ∧
      s'.threads[0]? = some t' ∧ t'.pc = .recvDone ∧
      (¬ StartsWithFrame s'.mem.recvData ↔ ¬ EndsInEmptyFrame t.handed) := by
  have hok : HeadersOk [9, 0, 0, 0] := .of_none (by decide) (by decide)
  refine ⟨_, _, _, _, rfl, rfl, hok, rfl, rfl, rfl, ?_⟩
  exact @withheld_iff (receive [9, 0, 0, 0]) _ _ 0 _ _ rfl rfl hok rfl rfl rfl

/-- The peer sends an empty frame. The callback returns, and the frame is still there. -/
theorem startsWithFrame_receive_empty :
    ∃ s s' t', run Client.step {} (receive [0, 0, 0, 0]) = some s ∧
      s.step (.io 0 .decode) = some s' ∧ s'.threads[0]? = some t' ∧ t'.pc = .recvDone ∧
      t'.handed = [0, 0, 0, 0] ∧ HeadersOk t'.handed ∧ StartsWithFrame s'.mem.recvData := by
  have hok : HeadersOk [0, 0, 0, 0] := .of_none (by decide) (by decide)
  exact ⟨_, _, _, rfl, rfl, rfl, rfl, rfl, hok, by decide, by decide⟩

end ThirdPersonMP.Network
