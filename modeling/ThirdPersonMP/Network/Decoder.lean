import ThirdPersonMP.Base.TArray
import ThirdPersonMP.Library.StreamDecoder
import Mathlib.Logic.Relation

/-!
# The decoder

`UMgrMessage::Initialize` binds `ReceivedMessageDelegate` to the lambda that cuts the
received bytes into messages (`MgrMessage.cpp`, 80–98):

    uint32 Size = DataBuffer.Num();
    while (DataBuffer.Num() > 4) {
        auto Length = *(uint32*)(&DataBuffer[0]);
        if (Size < kHeaderLen + Length) return;
        TArray<uint8> toData(Data + kHeaderLen, Length);
        DataBuffer.RemoveAt(0, kHeaderLen + Length, false);
        Size = DataBuffer.Num();
        MessageQueue.Enqueue(MoveTemp(toData));
    }

`iteration` is one round of that loop with the source's arithmetic: `kHeaderLen + Length`
is a `uint32` sum that can wrap, and the copy and the removal take their counts as
`int32`. `decoder` is the whole run of the loop.

`framing` is what the loop is for, in exact arithmetic: the first frame of a buffer is
there when the buffer has more than four bytes and at least four plus what its header
announces. It is a `StreamDecoder`, so what it does to a stream that arrives in pieces
is known (`Library.StreamDecoder`).

* `iteration_eq` — a round of the loop is a step of `framing`, unless the header read is
  `2^32 - 4` or more; `decoder_eq` — so is the whole run.
* `decoderSafe_iff` — the loop stays inside the received bytes, shrinks them at every
  round and ends exactly when no such header is read.
-/

namespace ThirdPersonMP.Network

open Base Library Relation

/-! ### The loop -/

/-- `kHeaderLen = sizeof(uint32_t)`. -/
def kHeaderLen : UInt32 := 4

/-- What a round of the loop does. -/
inductive Iteration where
  /-- The `while` condition is false. -/
  | done
  /-- The frame is not complete: `return`. -/
  | incomplete
  /-- A frame is cut off: the copy `toData` (`none` when it would leave the received
  bytes) and the bytes left in `DataBuffer`. -/
  | frame (toData : Option Bytes) (dataBuffer : Bytes)
  deriving DecidableEq

/-- One round of the loop. `Size` is `DataBuffer.Num()` whenever it is read. -/
def iteration (dataBuffer : Bytes) : Iteration :=
  if 4 < dataBuffer.length then
    let size : UInt32 := .ofNat dataBuffer.length
    let length := loadUInt32 dataBuffer
    if size < kHeaderLen + length then .incomplete
    else .frame (TArray.ofPtr (dataBuffer.drop kHeaderLen.toNat) (toInt32 length))
      (TArray.removeAt0 dataBuffer (toInt32 (kHeaderLen + length)))
  else .done

/-- The loop, for at most `fuel` rounds: the arrays enqueued on `MessageQueue` and what
is left in `DataBuffer`; `none` when a copy leaves the received bytes. -/
def decoderLoop : ℕ → Bytes → Option (List Bytes × Bytes)
  | 0, _ => none
  | fuel + 1, dataBuffer =>
    match iteration dataBuffer with
    | .done | .incomplete => some ([], dataBuffer)
    | .frame none _ => none
    | .frame (some toData) rest =>
      (decoderLoop fuel rest).map fun (messageQueue, left) => (toData :: messageQueue, left)

/-- One run of the loop. A round that goes on shortens the buffer, so there are no more
rounds than bytes (`decoder_eq`). -/
def decoder (dataBuffer : Bytes) : Option (List Bytes × Bytes) :=
  decoderLoop (dataBuffer.length + 1) dataBuffer

/-! ### Framing -/

/-- What the header at the front of the buffer announces. -/
def header (b : Bytes) : ℕ := (loadUInt32 b).toNat

theorem header_append {b : Bytes} (h : 4 ≤ b.length) (c : Bytes) : header (b ++ c) = header b := by
  rw [header, loadUInt32_append h, ← header]

theorem header_lt (b : Bytes) : header b < 2 ^ 32 := (loadUInt32 b).toNat_lt

/-- The first frame of a buffer and the rest, in exact arithmetic. -/
def nextFrame (b : Bytes) : Option (Bytes × Bytes) :=
  if 4 < b.length ∧ 4 + header b ≤ b.length then
    some ((b.drop 4).take (header b), b.drop (4 + header b))
  else none

theorem nextFrame_eq_some {b f r : Bytes} : nextFrame b = some (f, r) ↔
    (4 < b.length ∧ 4 + header b ≤ b.length) ∧ (b.drop 4).take (header b) = f ∧
      b.drop (4 + header b) = r := by
  rw [nextFrame]
  by_cases h : 4 < b.length ∧ 4 + header b ≤ b.length
  · rw [if_pos h, Option.some.injEq, Prod.mk.injEq, and_iff_right h]
  · rw [if_neg h, eq_false h, false_and]
    simp

/-- The decoder that `ReceivedMessageDelegate` is meant to be. -/
def framing : StreamDecoder UInt8 Bytes where
  next := nextFrame
  next_length := by
    intro b f r h
    obtain ⟨⟨h4, hle⟩, -, rfl⟩ := nextFrame_eq_some.mp h
    rw [List.length_drop]
    omega
  next_append := by
    intro b f r c h
    obtain ⟨⟨h4, hle⟩, rfl, rfl⟩ := nextFrame_eq_some.mp h
    rw [nextFrame_eq_some, header_append h4.le]
    refine ⟨⟨by rw [List.length_append]; omega, by rw [List.length_append]; omega⟩, ?_, ?_⟩
    · rw [List.drop_append_of_le_length h4.le,
        List.take_append_of_le_length (by rw [List.length_drop]; omega)]
    · rw [List.drop_append_of_le_length hle]

theorem framing_next_nil : framing.next [] = none := by decide

theorem framing_residue_nil : framing.residue [] = [] :=
  StreamDecoder.residue_of_none framing_next_nil

/-- Every header read on the way through the buffer is less than `2^32 - 4`. -/
def HeadersOk (b : Bytes) : Prop :=
  ∀ r, framing.Reach b r → 4 < r.length → header r < 2 ^ 32 - 4

theorem HeadersOk.reach {b r : Bytes} (h : HeadersOk b) (hr : framing.Reach b r) : HeadersOk r :=
  fun r' hr' => h r' (hr.trans hr')

/-- The headers read in a prefix of a stream are read in the stream. -/
theorem HeadersOk.of_prefix {a b : Bytes} (h : HeadersOk b) (hp : a <+: b) : HeadersOk a := by
  obtain ⟨c, rfl⟩ := hp
  intro r hr h4
  rw [← header_append h4.le c]
  exact h (r ++ c) (hr.append c) (by rw [List.length_append]; omega)

/-- A buffer without a complete frame: only its own header is read. -/
theorem HeadersOk.of_none {b : Bytes} (hn : nextFrame b = none)
    (h : 4 < b.length → header b < 2 ^ 32 - 4) : HeadersOk b := by
  intro r hr
  cases hr with
  | refl => exact h
  | cut hn' =>
    rw [show nextFrame b = _ from hn'] at hn
    cases hn

/-- The header of a complete frame is less than the size of the buffer; the others are
read in the rest. -/
theorem HeadersOk.of_some {b f r : Bytes} (hb : b.length < 2 ^ 32) (hn : nextFrame b = some (f, r))
    (h : HeadersOk r) : HeadersOk b := by
  intro r' hr'
  cases hr' with
  | refl =>
    have := (nextFrame_eq_some.mp hn).1.2
    omega
  | cut hn' hr' =>
    rw [show nextFrame b = _ from hn', Option.some.injEq, Prod.mk.injEq] at hn
    rw [← hn.2] at h
    exact h _ hr'

/-! ### A round of the loop is a step of the framing -/

theorem toNat_kHeaderLen_add {l : UInt32} (h : l.toNat < 2 ^ 32 - 4) :
    (kHeaderLen + l).toNat = 4 + l.toNat := by
  rw [UInt32.toNat_add, kHeaderLen, show (4 : UInt32).toNat = 4 from rfl,
    Nat.mod_eq_of_lt (by omega)]

/-- The size test, when the sum does not wrap. -/
theorem size_lt_iff {b : Bytes} (hb : b.length < 2 ^ 32) (h : header b < 2 ^ 32 - 4) :
    UInt32.ofNat b.length < kHeaderLen + loadUInt32 b ↔ b.length < 4 + header b := by
  rw [UInt32.lt_iff_toNat_lt, toNat_kHeaderLen_add h, UInt32.toNat_ofNat',
    Nat.mod_eq_of_lt hb, header]

/-- A round of the loop, on a header that does not make the sum wrap: it ends the run
or cuts off the first frame. -/
theorem iteration_eq {b : Bytes} (hb : b.length < 2 ^ 31)
    (h : 4 < b.length → header b < 2 ^ 32 - 4) :
    (nextFrame b = none ∧ (iteration b = .done ∨ iteration b = .incomplete)) ∨
      ∃ f r, nextFrame b = some (f, r) ∧ iteration b = .frame (some f) r := by
  by_cases h4 : 4 < b.length
  · by_cases hle : 4 + header b ≤ b.length
    · right
      refine ⟨_, _, nextFrame_eq_some.mpr ⟨⟨h4, hle⟩, rfl, rfl⟩, ?_⟩
      have hcopy : toInt32 (loadUInt32 b) = header b := toInt32_of_lt (by rw [← header]; omega)
      have hcut : toInt32 (kHeaderLen + loadUInt32 b) = (4 + header b : ℕ) := by
        rw [toInt32_of_lt] <;> rw [toNat_kHeaderLen_add (h h4), ← header]
        omega
      rw [iteration, if_pos h4]
      simp only [size_lt_iff (by omega) (h h4), if_neg (Nat.not_lt.mpr hle), hcopy, hcut,
        TArray.removeAt0_natCast]
      rw [TArray.ofPtr_natCast
        (by rw [List.length_drop, show kHeaderLen.toNat = 4 from rfl]; omega)]
      rfl
    · left
      refine ⟨if_neg fun h' => hle h'.2, Or.inr ?_⟩
      rw [iteration, if_pos h4]
      simp only [size_lt_iff (by omega) (h h4), if_pos (Nat.lt_of_not_le hle)]
  · left
    exact ⟨if_neg fun h' => h4 h'.1, Or.inl (if_neg h4)⟩

/-- A frame of the framing is a round of the loop, whatever follows: the header of a
complete frame is less than the size of the buffer. -/
theorem iteration_of_nextFrame {b f r : Bytes} (hb : b.length < 2 ^ 31)
    (h : nextFrame b = some (f, r)) : iteration b = .frame (some f) r := by
  have hle := (nextFrame_eq_some.mp h).1.2
  rcases iteration_eq hb (fun _ => by omega) with ⟨hn, -⟩ | ⟨f', r', hn, hi⟩
  · rw [h] at hn; cases hn
  · rw [h] at hn
    cases hn
    exact hi

/-- The loop, given enough rounds, cuts off the frames. -/
theorem decoderLoop_eq {b : Bytes} {fuel : ℕ} (hf : b.length < fuel) (hb : b.length < 2 ^ 31)
    (h : HeadersOk b) : decoderLoop fuel b = some (framing.frames b, framing.residue b) := by
  induction fuel generalizing b with
  | zero => exact absurd hf (Nat.not_lt_zero _)
  | succ fuel ih =>
    rcases iteration_eq hb (h b (.refl b)) with ⟨hn, hi | hi⟩ | ⟨f, r, hn, hi⟩
    · rw [decoderLoop, hi, StreamDecoder.frames_of_none hn, StreamDecoder.residue_of_none hn]
    · rw [decoderLoop, hi, StreamDecoder.frames_of_none hn, StreamDecoder.residue_of_none hn]
    · have hlt : r.length < b.length := framing.next_length hn
      have hr : HeadersOk r := h.reach (.cut hn (.refl r))
      rw [decoderLoop, hi, StreamDecoder.frames_of_some hn, StreamDecoder.residue_of_some hn]
      simp only [ih (by omega) (by omega) hr, Option.map_some]

/-- **The run of the loop**, when no header read makes the sum wrap: it enqueues the
frames of the buffer and leaves what follows the last complete one. -/
theorem decoder_eq {b : Bytes} (hb : b.length < 2 ^ 31) (h : HeadersOk b) :
    decoder b = some (framing.frames b, framing.residue b) :=
  decoderLoop_eq (Nat.lt_succ_self _) hb h

/-! ### Safety -/

/-- A round of the loop that passes the size test takes `DataBuffer` from `b` to `b'`. -/
def Passes (b b' : Bytes) : Prop := ∃ toData, iteration b = .frame toData b'

/-- The loop is safe on `b`: whatever the rounds before, a round that passes the size
test handles a frame that lies, header and payload, within `DataBuffer`, so that it
copies and removes received bytes; the buffer shrinks; and the loop ends. -/
structure DecoderSafe (b : Bytes) : Prop where
  /-- The exact extent of the frame is within `DataBuffer.Num()`. -/
  extent : ∀ r r', ReflTransGen Passes b r → Passes r r' → 4 + header r ≤ r.length
  /-- The copy is of received bytes, and the removal removes just the frame. -/
  copy : ∀ r toData r', ReflTransGen Passes b r → iteration r = .frame toData r' →
    toData = some ((r.drop 4).take (header r)) ∧ r' = r.drop (4 + header r)
  /-- Every round shrinks the buffer. -/
  shrinks : ∀ r r', ReflTransGen Passes b r → Passes r r' → r'.length < r.length
  /-- There is no endless sequence of rounds. -/
  ends : Acc (fun r' r => Passes r r') b

/-- A header that makes the sum wrap passes the size test of any buffer; the copy leaves
the received bytes, and the removal takes the sum's few bytes only. -/
theorem iteration_of_wrap {b : Bytes} (hb : b.length < 2 ^ 31) (h4 : 4 < b.length)
    (h : 2 ^ 32 - 4 ≤ header b) :
    iteration b = .frame none (b.drop (4 + header b - 2 ^ 32)) := by
  have hlt := header_lt b
  have hsum : (kHeaderLen + loadUInt32 b).toNat = 4 + header b - 2 ^ 32 := by
    rw [UInt32.toNat_add, ← header, kHeaderLen, show (4 : UInt32).toNat = 4 from rfl]
    omega
  have hsize : ¬ UInt32.ofNat b.length < kHeaderLen + loadUInt32 b := by
    rw [UInt32.lt_iff_toNat_lt, UInt32.toNat_ofNat', Nat.mod_eq_of_lt (by omega)]
    omega
  have hcopy : toInt32 (loadUInt32 b) < 0 := toInt32_neg_of_le (by rw [← header]; omega)
  have hcut : toInt32 (kHeaderLen + loadUInt32 b) = (4 + header b - 2 ^ 32 : ℕ) := by
    rw [toInt32_of_lt (by omega), hsum]
  rw [iteration, if_pos h4]
  simp only [if_neg hsize, TArray.ofPtr_of_neg hcopy, hcut, TArray.removeAt0_natCast]

/-- The buffers of the framing are buffers of the loop. -/
theorem passes_of_reach {b r : Bytes} (hb : b.length < 2 ^ 31) (h : framing.Reach b r) :
    ReflTransGen Passes b r := by
  induction h with
  | refl => exact .refl
  | cut hn _ ih =>
    have hlt := framing.next_length hn
    exact .head ⟨_, iteration_of_nextFrame hb hn⟩ (ih (by omega))

/-- The buffers of the loop are buffers of the framing, when no header makes the sum
wrap. -/
theorem reach_of_passes {b r : Bytes} (hb : b.length < 2 ^ 31) (h : HeadersOk b)
    (hr : ReflTransGen Passes b r) : framing.Reach b r := by
  induction hr with
  | refl => exact .refl b
  | tail hbr hp ih =>
    obtain ⟨toData, hi⟩ := hp
    have hlen := ih.length_le
    rcases iteration_eq (by omega) (h _ ih) with ⟨-, hi' | hi'⟩ | ⟨f, r', hn, hi'⟩
    · rw [hi] at hi'; cases hi'
    · rw [hi] at hi'; cases hi'
    · rw [hi] at hi'
      cases hi'
      exact ih.trans (.cut hn (.refl _))

/-- A round of the loop cuts off a frame of the framing, when no header makes the sum
wrap. -/
theorem nextFrame_of_iteration {b r r' : Bytes} {toData : Option Bytes} (hb : b.length < 2 ^ 31)
    (h : HeadersOk b) (hr : ReflTransGen Passes b r) (hi : iteration r = .frame toData r') :
    ∃ f, toData = some f ∧ nextFrame r = some (f, r') := by
  have hreach := reach_of_passes hb h hr
  have hlen := hreach.length_le
  rcases iteration_eq (by omega) (h _ hreach) with ⟨-, hi' | hi'⟩ | ⟨f, r'', hn, hi'⟩
  · rw [hi] at hi'; cases hi'
  · rw [hi] at hi'; cases hi'
  · rw [hi] at hi'
    cases hi'
    exact ⟨f, rfl, hn⟩

theorem DecoderSafe.of_headersOk {b : Bytes} (hb : b.length < 2 ^ 31) (h : HeadersOk b) :
    DecoderSafe b where
  extent := by
    rintro r r' hr ⟨toData, hi⟩
    obtain ⟨f, -, hn⟩ := nextFrame_of_iteration hb h hr hi
    exact (nextFrame_eq_some.mp hn).1.2
  copy := by
    intro r toData r' hr hi
    obtain ⟨f, rfl, hn⟩ := nextFrame_of_iteration hb h hr hi
    obtain ⟨-, rfl, rfl⟩ := nextFrame_eq_some.mp hn
    exact ⟨rfl, rfl⟩
  shrinks := by
    rintro r r' hr ⟨toData, hi⟩
    obtain ⟨f, -, hn⟩ := nextFrame_of_iteration hb h hr hi
    exact framing.next_length hn
  ends := by
    -- each round makes the buffer shorter
    induction hn : b.length using Nat.strongRecOn generalizing b with
    | _ n ih =>
      subst hn
      refine ⟨_, ?_⟩
      rintro r ⟨toData, hi⟩
      obtain ⟨f, -, hn⟩ := nextFrame_of_iteration hb h .refl hi
      have hlt : r.length < b.length := framing.next_length hn
      exact ih r.length hlt (by omega) (h.reach (.cut hn (.refl r))) rfl

/-- **When the loop is safe**: exactly when no header it reads is `2^32 - 4` or more. -/
theorem decoderSafe_iff {b : Bytes} (hb : b.length < 2 ^ 31) : DecoderSafe b ↔ HeadersOk b := by
  constructor
  · intro hs r hr h4
    by_contra hwrap
    have hlen := hr.length_le
    have hi := iteration_of_wrap (by omega) h4 (Nat.le_of_not_lt hwrap)
    have hext : 4 + header r ≤ r.length := hs.extent r _ (passes_of_reach hb hr) ⟨_, hi⟩
    omega
  · exact DecoderSafe.of_headersOk hb

/-- One frame and the first byte of the next. -/
theorem decoderSafe_iff_frame :
    ([1, 0, 0, 0, 7, 2] : Bytes).length < 2 ^ 31 ∧
      (DecoderSafe [1, 0, 0, 0, 7, 2] ↔ HeadersOk [1, 0, 0, 0, 7, 2]) :=
  ⟨by decide, decoderSafe_iff (by decide)⟩

/-- A header of `2^32 - 4` followed by one byte: the sum wraps to `0`, the size test
passes, and the frame it announces does not lie within the five received bytes. -/
theorem not_decoderSafe_wrap : ¬ DecoderSafe [0xFC, 0xFF, 0xFF, 0xFF, 0] := by
  intro h
  have := h.extent _ [0xFC, 0xFF, 0xFF, 0xFF, 0] .refl ⟨none, by decide⟩
  exact absurd this (by decide)

end ThirdPersonMP.Network
