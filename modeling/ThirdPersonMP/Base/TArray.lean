import Mathlib.Algebra.Group.Int.Defs
import Mathlib.Algebra.Group.Nat.Defs
import Mathlib.Data.Int.Notation
import Mathlib.Data.Nat.Notation
import Mathlib.Data.List.GetD
import Mathlib.Data.List.TakeDrop
import Mathlib.Tactic.Common

/-!
# Byte arrays and the two integer types they are counted with

`TArray<uint8>` and `std::string` are lists of bytes. The program counts bytes in
`int32` (`TArray::Num`) and `uint32` (the header, `PendingDataSize`) and passes values
of the second type where the first is expected, so the conversion `toInt32` is written
out wherever the source makes it.

The operations of `TArray` that the program calls with a computed count say what they
do for every count. A count that leaves the array (a copy past the end, a negative
count) has no result: `none` is undefined behaviour of the program.
-/

namespace ThirdPersonMP.Base

/-- `TArray<uint8>`, `std::string`. -/
abbrev Bytes := List UInt8

/-! ### Integers -/

/-- A `uint32` passed as `int32`. -/
def toInt32 (u : UInt32) : ℤ := if u.toNat < 2 ^ 31 then u.toNat else u.toNat - 2 ^ 32

theorem toInt32_of_lt {u : UInt32} (h : u.toNat < 2 ^ 31) : toInt32 u = u.toNat := if_pos h

theorem toInt32_neg_of_le {u : UInt32} (h : 2 ^ 31 ≤ u.toNat) : toInt32 u < 0 := by
  have := u.toNat_lt
  rw [toInt32, if_neg (by omega)]
  omega

theorem toInt32_lt (u : UInt32) : toInt32 u < 2 ^ 31 := by
  have := u.toNat_lt
  rw [toInt32]
  split <;> omega

/-- A size in `int32` plus a `uint32`, a `uint32` sum passed as `int32`, when it is small. -/
theorem toInt32_ofNat_add {n : ℕ} {p : UInt32} (h : n + p.toNat < 2 ^ 31) :
    toInt32 (.ofNat n + p) = (n + p.toNat : ℕ) := by
  have hsum : (UInt32.ofNat n + p).toNat = n + p.toNat := by
    rw [UInt32.toNat_add, UInt32.toNat_ofNat', Nat.mod_eq_of_lt (a := n) (by omega),
      Nat.mod_eq_of_lt (by omega)]
  rw [toInt32_of_lt (by omega), hsum]

/-- The sum is no greater, whatever overflows. -/
theorem toInt32_ofNat_add_le (n : ℕ) (p : UInt32) :
    toInt32 (.ofNat n + p) ≤ (n + p.toNat : ℕ) := by
  have hsum : (UInt32.ofNat n + p).toNat ≤ n + p.toNat := by
    rw [UInt32.toNat_add, UInt32.toNat_ofNat']
    have := Nat.mod_le (n % 2 ^ 32 + p.toNat) (2 ^ 32)
    have := Nat.mod_le n (2 ^ 32)
    omega
  rw [toInt32]
  split <;> omega

/-- `*(uint32*)p`, in host order: the least significant byte first. -/
def loadUInt32 (p : Bytes) : UInt32 :=
  .ofNat ((p.getD 0 0).toNat + 2 ^ 8 * (p.getD 1 0).toNat + 2 ^ 16 * (p.getD 2 0).toNat +
    2 ^ 24 * (p.getD 3 0).toNat)

/-- The four bytes `(char*)&v`. -/
def storeUInt32 (v : UInt32) : Bytes :=
  [.ofNat v.toNat, .ofNat (v.toNat / 2 ^ 8), .ofNat (v.toNat / 2 ^ 16), .ofNat (v.toNat / 2 ^ 24)]

@[simp] theorem length_storeUInt32 (v : UInt32) : (storeUInt32 v).length = 4 := rfl

/-- Reading back what was stored, whatever follows it. -/
@[simp] theorem loadUInt32_storeUInt32 (v : UInt32) (rest : Bytes) :
    loadUInt32 (storeUInt32 v ++ rest) = v := by
  apply UInt32.toNat_inj.mp
  have := v.toNat_lt
  simp [loadUInt32, storeUInt32]
  omega

/-- Storing back what was read. -/
theorem storeUInt32_loadUInt32 {p : Bytes} (h : 4 ≤ p.length) :
    storeUInt32 (loadUInt32 p) = p.take 4 := by
  obtain ⟨a, b, c, d, rest, rfl⟩ : ∃ a b c d rest, p = a :: b :: c :: d :: rest := by
    match p, h with
    | a :: b :: c :: d :: rest, _ => exact ⟨a, b, c, d, rest, rfl⟩
  have ha := a.toNat_lt
  have hb := b.toNat_lt
  have hc := c.toNat_lt
  have hd := d.toNat_lt
  have hload : (loadUInt32 (a :: b :: c :: d :: rest)).toNat =
      a.toNat + 2 ^ 8 * b.toNat + 2 ^ 16 * c.toNat + 2 ^ 24 * d.toNat := by
    simp only [loadUInt32, List.getD_cons_zero, List.getD_cons_succ, UInt32.toNat_ofNat']
    omega
  rw [storeUInt32, hload]
  simp only [List.take_succ_cons, List.take_zero, List.cons.injEq, and_true]
  refine ⟨?_, ?_, ?_, ?_⟩ <;>
    · apply UInt8.toNat_inj.mp
      rw [UInt8.toNat_ofNat']
      omega

/-- Only the first four bytes are read. -/
theorem loadUInt32_append {p : Bytes} (h : 4 ≤ p.length) (rest : Bytes) :
    loadUInt32 (p ++ rest) = loadUInt32 p := by
  have hget : ∀ i, i < 4 → (p ++ rest).getD i 0 = p.getD i 0 := fun i hi =>
    List.getD_append _ _ _ _ (by omega)
  rw [loadUInt32, hget 0 (by omega), hget 1 (by omega), hget 2 (by omega), hget 3 (by omega),
    ← loadUInt32]

/-! ### `TArray` -/

namespace TArray

/-- `TArray(Ptr, Count)`: a copy of the `Count` bytes at `Ptr`, of which `ptr` is what
the allocation still holds. -/
def ofPtr (ptr : Bytes) (count : ℤ) : Option Bytes :=
  if 0 ≤ count ∧ count ≤ ptr.length then some (ptr.take count.toNat) else none

/-- `RemoveAt(0, Count)`. -/
def removeAt0 (a : Bytes) (count : ℤ) : Bytes := a.drop count.toNat

/-- `SetNum(NewNum)`: new elements are zero, a negative size is not an array. -/
def setNum (a : Bytes) (newNum : ℤ) : Option Bytes :=
  if 0 ≤ newNum then some (a.take newNum.toNat ++ List.replicate (newNum.toNat - a.length) 0)
  else none

/-- The bytes `data` written into the array from index `start`. -/
def writeAt (a : Bytes) (start : ℕ) (data : Bytes) : Option Bytes :=
  if start + data.length ≤ a.length then some (a.take start ++ data ++ a.drop (start + data.length))
  else none

theorem ofPtr_natCast {ptr : Bytes} {n : ℕ} (h : n ≤ ptr.length) :
    ofPtr ptr n = some (ptr.take n) := by
  rw [ofPtr, if_pos ⟨by omega, by omega⟩, Int.toNat_natCast]

theorem ofPtr_of_neg {ptr : Bytes} {count : ℤ} (h : count < 0) : ofPtr ptr count = none :=
  if_neg fun h' => by omega

theorem removeAt0_natCast (a : Bytes) (n : ℕ) : removeAt0 a n = a.drop n := by
  rw [removeAt0, Int.toNat_natCast]

/-- Growing an array keeps it and adds zeros. -/
theorem setNum_grow (a : Bytes) (n : ℕ) :
    setNum a ((a.length + n : ℕ) : ℤ) = some (a ++ List.replicate n 0) := by
  rw [setNum, if_pos (by omega), Int.toNat_natCast, List.take_of_length_le (by omega),
    Nat.add_sub_cancel_left]

/-- `SetNum` makes the array as long as it is told to. -/
theorem length_setNum {a b : Bytes} {newNum : ℤ} (h : setNum a newNum = some b) :
    (b.length : ℤ) = newNum := by
  unfold setNum at h
  split at h <;> cases h
  rw [List.length_append, List.length_take, List.length_replicate]
  omega

/-- `SetNum` keeps the array, when it does not cut it. -/
theorem prefix_setNum {a b : Bytes} {newNum : ℤ} (h : setNum a newNum = some b)
    (hle : a.length ≤ b.length) : a <+: b := by
  have hlen := length_setNum h
  unfold setNum at h
  split at h <;> cases h
  rw [List.take_of_length_le (i := newNum.toNat) (by omega)]
  exact List.prefix_append _ _

/-- Writing does not change the length. -/
theorem length_writeAt {a b data : Bytes} {start : ℕ} (h : writeAt a start data = some b) :
    b.length = a.length ∧ start ≤ a.length := by
  unfold writeAt at h
  split at h <;> cases h
  simp only [List.length_append, List.length_take, List.length_drop]
  omega

/-- Writing leaves what is before it. -/
theorem prefix_writeAt {p a b data : Bytes} {start : ℕ} (h : writeAt a start data = some b)
    (hp : p <+: a) (hle : p.length ≤ start) : p <+: b := by
  unfold writeAt at h
  split at h <;> cases h
  rw [List.append_assoc]
  exact (List.prefix_take_iff.mpr ⟨hp, hle⟩).trans (List.prefix_append _ _)

/-- Writing over the front of the unwritten tail of an array. -/
theorem writeAt_append (a zs data : Bytes) (h : data.length ≤ zs.length) :
    writeAt (a ++ zs) a.length data = some (a ++ data ++ zs.drop data.length) := by
  rw [writeAt, if_pos (by simp; omega), List.take_left, List.drop_append,
    List.drop_of_length_le (by omega), List.nil_append, Nat.add_sub_cancel_left]

end TArray

end ThirdPersonMP.Base
