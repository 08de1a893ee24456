import ThirdPersonMP.Network.Decoder
import Mathlib.Data.List.Flatten

/-!
# The encoder

`InternalSendPbcFunc` (`MgrMessage.cpp`, 124–138) puts the length of a message, four
bytes in host order, in front of it and passes the result to `FTCPSocket::Send`:

    uint32_t length = msg.size();
    tosend.append((char*)&length, 4);
    tosend.append(msg);
    TCPSocketPtr->Send((uint8*)tosend.data(), tosend.size());

`Send` takes its count as an `int32`, so what it appends to the send buffer is the first
`Count` bytes of `tosend` (`internalSendPbcFunc`); for every message whose frame has
fewer than `2^31` bytes this is `tosend` itself (`internalSendPbcFunc_eq`).

`decoder_encoder` — the decoder undoes the encoder, with any part of one further frame
following.
-/

namespace ThirdPersonMP.Network

open Base

/-- `tosend`: the length of the message, then the message. -/
def encoder (msg : Bytes) : Bytes := storeUInt32 (.ofNat msg.length) ++ msg

/-- What `InternalSendPbcFunc` has `FTCPSocket::Send` append to the send buffer: the
first `Count` bytes of `tosend`, where `Count` is its size as an `int32`. -/
def internalSendPbcFunc (msg : Bytes) : Option Bytes :=
  TArray.ofPtr (encoder msg) (toInt32 (.ofNat (encoder msg).length))

@[simp] theorem length_encoder (msg : Bytes) : (encoder msg).length = 4 + msg.length := by
  rw [encoder, List.length_append, length_storeUInt32]

theorem header_encoder (msg rest : Bytes) : header (encoder msg ++ rest) = msg.length % 2 ^ 32 := by
  rw [header, encoder, List.append_assoc, loadUInt32_storeUInt32, UInt32.toNat_ofNat']

/-- A frame of fewer than `2^31` bytes is sent whole. -/
theorem internalSendPbcFunc_eq {msg : Bytes} (h : (encoder msg).length < 2 ^ 31) :
    internalSendPbcFunc msg = some (encoder msg) := by
  have hsize : (UInt32.ofNat (encoder msg).length).toNat = (encoder msg).length := by
    rw [UInt32.toNat_ofNat', Nat.mod_eq_of_lt (by omega)]
  rw [internalSendPbcFunc, toInt32_of_lt (by omega), hsize, TArray.ofPtr_natCast le_rfl,
    List.take_length]

/-- What is sent is a prefix of `tosend`, as long as `Count` says. -/
theorem internalSendPbcFunc_eq_some {msg f : Bytes} (h : internalSendPbcFunc msg = some f) :
    f <+: encoder msg ∧ f.length = (4 + msg.length) % 2 ^ 32 ∧ f.length < 2 ^ 31 := by
  by_cases hlt : (UInt32.ofNat (encoder msg).length).toNat < 2 ^ 31
  · rw [UInt32.toNat_ofNat', length_encoder] at hlt
    have hle : (4 + msg.length) % 2 ^ 32 ≤ (encoder msg).length := by
      rw [length_encoder]
      exact Nat.mod_le _ _
    rw [internalSendPbcFunc, toInt32_of_lt (by rwa [UInt32.toNat_ofNat', length_encoder]),
      UInt32.toNat_ofNat', length_encoder, TArray.ofPtr_natCast hle, Option.some.injEq] at h
    subst h
    rw [List.length_take, Nat.min_eq_left hle]
    exact ⟨List.take_prefix _ _, rfl, hlt⟩
  · -- a negative count sends nothing
    rw [internalSendPbcFunc, TArray.ofPtr_of_neg (toInt32_neg_of_le (Nat.le_of_not_lt hlt))] at h
    cases h

/-- A whole frame at the front of the buffer is cut off. -/
theorem iteration_encoder {msg rest : Bytes} (hne : msg ≠ []) (hm : (encoder msg).length < 2 ^ 31)
    (ht : (encoder msg ++ rest).length < 2 ^ 32) :
    iteration (encoder msg ++ rest) = .frame (some msg) rest := by
  have hpos : 0 < msg.length := List.length_pos_iff.mpr hne
  rw [length_encoder] at hm
  have hh : header (encoder msg ++ rest) = msg.length := by
    rw [header_encoder, Nat.mod_eq_of_lt (by omega)]
  have hlen : (encoder msg ++ rest).length = 4 + msg.length + rest.length := by
    rw [List.length_append, length_encoder]
  have hcopy : toInt32 (loadUInt32 (encoder msg ++ rest)) = msg.length := by
    rw [toInt32_of_lt (by rw [← header]; omega), ← header, hh]
  have hcut : toInt32 (kHeaderLen + loadUInt32 (encoder msg ++ rest)) = (4 + msg.length : ℕ) := by
    rw [toInt32_of_lt] <;> rw [toNat_kHeaderLen_add (by rw [← header]; omega), ← header, hh]
    omega
  have hdrop : (encoder msg ++ rest).drop 4 = msg ++ rest := by
    rw [encoder, List.append_assoc]
    exact List.drop_left' (length_storeUInt32 _)
  rw [iteration, if_pos (by omega)]
  simp only [size_lt_iff ht (by omega), if_neg (show ¬ (encoder msg ++ rest).length <
    4 + header (encoder msg ++ rest) by omega), hcopy, hcut, TArray.removeAt0_natCast]
  rw [show kHeaderLen.toNat = 4 from rfl, hdrop, TArray.ofPtr_natCast (by simp),
    List.take_left' rfl, ← List.drop_drop, hdrop, List.drop_left' rfl]

/-- A part of a frame at the front of the buffer stays there. -/
theorem iteration_of_prefix {msg f p : Bytes} (hf : internalSendPbcFunc msg = some f)
    (hp : p <+: f) (hne : p ≠ f) : iteration p = .done ∨ iteration p = .incomplete := by
  obtain ⟨hpre, hlen, -⟩ := internalSendPbcFunc_eq_some hf
  have hlt : p.length < f.length :=
    lt_of_le_of_ne hp.length_le fun h => hne (hp.eq_of_length h)
  by_cases h4 : 4 < p.length
  · obtain ⟨c, hc⟩ := hp.trans hpre
    have hh : header p = msg.length % 2 ^ 32 := by
      have := header_encoder msg []
      rwa [List.append_nil, ← hc, header_append h4.le] at this
    right
    rw [iteration, if_pos h4]
    simp only [size_lt_iff (b := p) (by omega) (by omega),
      if_pos (show p.length < 4 + header p by omega)]
  · exact .inl (if_neg h4)

/-- The loop on whole frames and a part of one more, given enough rounds. -/
theorem decoderLoop_encoder {m f p : Bytes} (hf : internalSendPbcFunc m = some f) (hp : p <+: f)
    (hne : p ≠ f) {ms : List Bytes} (hms : ∀ m ∈ ms, m ≠ []) {n : ℕ}
    (hlen : (ms.flatMap encoder).length < 2 ^ 31) (hn : ms.length < n) :
    decoderLoop n (ms.flatMap encoder ++ p) = some (ms, p) := by
  have hp32 : p.length < 2 ^ 31 := hp.length_le.trans_lt (internalSendPbcFunc_eq_some hf).2.2
  induction ms generalizing n with
  | nil =>
    obtain ⟨n, rfl⟩ : ∃ k, n = k + 1 := ⟨n - 1, by simp at hn; omega⟩
    rw [List.flatMap_nil, List.nil_append, decoderLoop]
    rcases iteration_of_prefix hf hp hne with hi | hi <;> rw [hi]
  | cons a ms ih =>
    obtain ⟨n, rfl⟩ : ∃ k, n = k + 1 := ⟨n - 1, by simp at hn; omega⟩
    rw [List.flatMap_cons, List.length_append] at hlen
    rw [List.length_cons] at hn
    have ha : iteration (encoder a ++ (ms.flatMap encoder ++ p)) = .frame (some a) _ :=
      iteration_encoder (hms a (List.mem_cons_self ..)) (by omega)
        (by rw [List.length_append, List.length_append]; omega)
    rw [List.flatMap_cons, List.append_assoc, decoderLoop, ha]
    simp only [ih (fun m hm => hms m (List.mem_cons_of_mem a hm)) (n := n) (by omega) (by omega),
      Option.map_some]

/-- **Decode undoes encode**: from whole frames of non-empty messages followed by a
strict part of the frame of one more, a run of the loop enqueues exactly the messages,
in order, and leaves exactly the part. -/
theorem decoder_encoder {ms : List Bytes} {m f p : Bytes} (hms : ∀ m ∈ ms, m ≠ [])
    (hlen : (ms.flatMap encoder).length < 2 ^ 31) (hf : internalSendPbcFunc m = some f)
    (hp : p <+: f) (hne : p ≠ f) : decoder (ms.flatMap encoder ++ p) = some (ms, p) := by
  apply decoderLoop_encoder hf hp hne hms hlen
  -- a frame has at least one byte, so there are at least as many rounds as frames
  have hle : ms.length ≤ (ms.flatMap encoder).length := by
    clear hlen hms
    induction ms with
    | nil => exact Nat.zero_le _
    | cons a ms ih =>
      rw [List.flatMap_cons, List.length_append, List.length_cons, length_encoder]
      omega
  rw [List.length_append]
  omega

/-- Two messages and five of the seven bytes of a third frame. -/
theorem decoder_encoder_two :
    decoder ([[7], [8, 9]].flatMap encoder ++ [3, 0, 0, 0, 5]) =
      some ([[7], [8, 9]], [3, 0, 0, 0, 5]) :=
  decoder_encoder (m := [5, 6, 7]) (f := [3, 0, 0, 0, 5, 6, 7]) (by decide) (by decide)
    (by decide) (by decide) (by decide)

end ThirdPersonMP.Network
