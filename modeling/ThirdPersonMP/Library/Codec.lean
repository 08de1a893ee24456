import Mathlib.Algebra.Group.Nat.Defs
import Mathlib.Data.Nat.Notation
import Mathlib.Data.Int.Notation
import Mathlib.Tactic.Common

/-!
# Self-delimiting codecs

A codec writes a value as bytes and reads it back from the front of any bytes that begin
with what it wrote; so codecs can be put one after the other.

* `nat`, `uint64`, `int`, `openEnum`, `bytes` — numbers as base-128 digits, the least
  significant first, with the high bit set on all but the last; byte strings with their
  length in front.
* `seq`, `imap` — two codecs in sequence, and a codec through a pair of functions.
-/

namespace ThirdPersonMP.Library

universe u v

/-- A codec of values of type `α`. -/
structure Codec (α : Type u) where
  /-- The bytes of a value. -/
  encode : α → List UInt8
  /-- The value at the front of the bytes, and the rest. -/
  decode : List UInt8 → Option (α × List UInt8)
  /-- A value is read back, whatever follows it. -/
  decode_encode : ∀ a rest, decode (encode a ++ rest) = some (a, rest)

namespace Codec

variable {α : Type u} {β : Type v}

/-- One after the other. -/
def seq (c : Codec α) (d : Codec β) : Codec (α × β) where
  encode ab := c.encode ab.1 ++ d.encode ab.2
  decode bs := (c.decode bs).bind fun ar => (d.decode ar.2).map fun br => ((ar.1, br.1), br.2)
  decode_encode := by
    intro ab rest
    rw [List.append_assoc, c.decode_encode, Option.bind_some, d.decode_encode, Option.map_some]

/-- Through `g`, of which `f` is a left inverse. -/
def imap (c : Codec α) (f : α → β) (g : β → α) (h : ∀ b, f (g b) = b) : Codec β where
  encode b := c.encode (g b)
  decode bs := (c.decode bs).map fun ar => (f ar.1, ar.2)
  decode_encode := by
    intro b rest
    rw [c.decode_encode, Option.map_some, h]

/-! ### Numbers -/

/-- The base-128 digits of `n`, at most `fuel` of them before the last. -/
def digits : ℕ → ℕ → List UInt8
  | 0, n => [.ofNat n]
  | fuel + 1, n =>
    if n < 128 then [.ofNat n] else .ofNat (n % 128 + 128) :: digits fuel (n / 128)

/-- The number whose digits are at the front of the bytes, and the rest. -/
def undigits : List UInt8 → Option (ℕ × List UInt8)
  | [] => none
  | b :: bs =>
    if b.toNat < 128 then some (b.toNat, bs)
    else (undigits bs).map fun nr => (b.toNat - 128 + 128 * nr.1, nr.2)

theorem undigits_digits {fuel n : ℕ} (h : n < 128 ^ (fuel + 1)) (rest : List UInt8) :
    undigits (digits fuel n ++ rest) = some (n, rest) := by
  induction fuel generalizing n with
  | zero =>
    have hn : (UInt8.ofNat n).toNat = n := by
      rw [UInt8.toNat_ofNat', Nat.mod_eq_of_lt (by omega)]
    rw [digits, List.singleton_append, undigits, hn, if_pos (by omega)]
  | succ fuel ih =>
    rw [digits]
    split
    · rename_i hlt
      have hn : (UInt8.ofNat n).toNat = n := by
        rw [UInt8.toNat_ofNat', Nat.mod_eq_of_lt (by omega)]
      rw [List.singleton_append, undigits, hn, if_pos hlt]
    · have hb : (UInt8.ofNat (n % 128 + 128)).toNat = n % 128 + 128 := by
        rw [UInt8.toNat_ofNat', Nat.mod_eq_of_lt (by omega)]
      have hdiv : n / 128 < 128 ^ (fuel + 1) := by
        rw [Nat.div_lt_iff_lt_mul (by decide), ← Nat.pow_succ]
        exact h
      rw [List.cons_append, undigits, hb, if_neg (by omega), ih hdiv, Option.map_some]
      congr 2
      omega

/-- There are enough digits for `n`. -/
theorem lt_pow_succ_self (n : ℕ) : n < 128 ^ (n + 1) :=
  calc n < 128 ^ n := Nat.lt_pow_self (by decide)
    _ ≤ 128 ^ (n + 1) := Nat.pow_le_pow_right (by decide) (Nat.le_succ n)

/-- A number. -/
def nat : Codec ℕ where
  encode n := digits n n
  decode := undigits
  decode_encode n rest := undigits_digits (lt_pow_succ_self n) rest

/-- A 64-bit number. -/
def uint64 : Codec UInt64 := nat.imap .ofNat UInt64.toNat fun _ => UInt64.ofNat_toNat

/-- An integer: the even numbers are the ones from zero on. -/
def int : Codec ℤ :=
  nat.imap (fun n => if n % 2 = 0 then (n / 2 : ℕ) else -((n / 2 : ℕ) : ℤ) - 1)
    (fun z => if 0 ≤ z then 2 * z.toNat else 2 * (-z - 1).toNat + 1) (by
      intro z
      split <;> split <;> omega)

/-- An open enumeration: `n` named values, or an integer. -/
def openEnum (n : ℕ) : Codec (Fin n ⊕ ℤ) :=
  int.imap
    (fun z => if h : 0 ≤ z ∧ z < n then .inl ⟨z.toNat, by omega⟩
      else .inr (if 0 ≤ z then z - n else z))
    (fun s => match s with
      | .inl i => i.val
      | .inr v => if 0 ≤ v then v + n else v) (by
    intro s
    cases s with
    | inl i =>
      have hi : (i.val : ℤ) < n := Int.ofNat_lt.mpr i.isLt
      exact dif_pos ⟨Int.natCast_nonneg _, hi⟩
    | inr v =>
      by_cases hv : 0 ≤ v
      · simp only [if_pos hv]
        rw [dif_neg (by omega), if_pos (by omega), Int.add_sub_cancel]
      · simp only [if_neg hv]
        rw [dif_neg (by omega)])

/-! ### Byte strings -/

/-- A byte string, after its length. -/
def bytes : Codec (List UInt8) where
  encode b := nat.encode b.length ++ b
  decode bs := (nat.decode bs).bind fun nr =>
    if nr.1 ≤ nr.2.length then some (nr.2.take nr.1, nr.2.drop nr.1) else none
  decode_encode := by
    intro b rest
    rw [List.append_assoc, nat.decode_encode, Option.bind_some, if_pos (by simp)]
    simp

end Codec

end ThirdPersonMP.Library
