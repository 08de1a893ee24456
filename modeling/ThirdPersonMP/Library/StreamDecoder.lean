import Mathlib.Data.List.Infix
import Mathlib.Tactic.Common

/-!
# Incremental decoders

A decoder cuts the first complete item off the front of a buffer, when there is one
(`next`). Two laws make it usable on a stream that arrives in pieces: cutting shortens
the buffer, and bytes that arrive later do not change an item that is complete now.

`run` cuts items as long as it can. The theorem the module exists for is `frames_append`:
decoding what is there and going on when more arrives is decoding the whole at once.

* `frames_prefix` — what has been decoded of a prefix of the stream is a prefix of
  what is decoded of the stream.
* `flatMap_frames_append_residue` — writing the items back, and what is left after them,
  gives back the buffer; `residue_done` — and nothing more can be decoded of what is left.
* `Reach` — the buffers a run goes through.
-/

namespace ThirdPersonMP.Library

universe u v

/-- A decoder of items `β` from a stream of `α`. -/
structure StreamDecoder (α : Type u) (β : Type v) where
  /-- The first complete item of the buffer, and the rest. -/
  next : List α → Option (β × List α)
  /-- Cutting an item shortens the buffer. -/
  next_length : ∀ {b f r}, next b = some (f, r) → r.length < b.length
  /-- What arrives later does not change a complete item. -/
  next_append : ∀ {b f r} (c : List α), next b = some (f, r) → next (b ++ c) = some (f, r ++ c)

namespace StreamDecoder

variable {α : Type u} {β : Type v} (D : StreamDecoder α β)

/-- Cut items as long as there is a complete one: the items, and what is left. -/
def run (b : List α) : List β × List α :=
  match _h : D.next b with
  | none => ([], b)
  | some (f, r) => (f :: (run r).1, (run r).2)
termination_by b.length
decreasing_by all_goals exact D.next_length _h

/-- The items of a buffer. -/
def frames (b : List α) : List β := (D.run b).1

/-- What is left of a buffer when its items are cut off. -/
def residue (b : List α) : List α := (D.run b).2

variable {D}

theorem frames_of_none {b : List α} (h : D.next b = none) : D.frames b = [] := by
  rw [frames, run]; split <;> simp_all

theorem residue_of_none {b : List α} (h : D.next b = none) : D.residue b = b := by
  rw [residue, run]; split <;> simp_all

theorem frames_of_some {b r : List α} {f : β} (h : D.next b = some (f, r)) :
    D.frames b = f :: D.frames r := by
  rw [frames, run]; split <;> simp_all [frames]

theorem residue_of_some {b r : List α} {f : β} (h : D.next b = some (f, r)) :
    D.residue b = D.residue r := by
  rw [residue, run]; split <;> simp_all [residue]

variable (D)

/-- Induction along the items of a buffer. -/
theorem induction {P : List α → Prop} (hnone : ∀ b, D.next b = none → P b)
    (hsome : ∀ b f r, D.next b = some (f, r) → P r → P b) (b : List α) : P b := by
  induction hn : b.length using Nat.strongRecOn generalizing b with
  | _ n ih =>
    subst hn
    cases h : D.next b with
    | none => exact hnone b h
    | some fr => exact hsome b fr.1 fr.2 h (ih _ (D.next_length h) _ rfl)

/-- Decoding what is there and going on when more arrives is decoding it all at once. -/
theorem frames_append (a b : List α) :
    D.frames (a ++ b) = D.frames a ++ D.frames (D.residue a ++ b) := by
  induction a using D.induction with
  | hnone a h => rw [frames_of_none h, residue_of_none h, List.nil_append]
  | hsome a f r h ih =>
    rw [frames_of_some (D.next_append b h), frames_of_some h, residue_of_some h, ih,
      List.cons_append]

/-- What is left, when decoding goes on with more. -/
theorem residue_append (a b : List α) : D.residue (a ++ b) = D.residue (D.residue a ++ b) := by
  induction a using D.induction with
  | hnone a h => rw [residue_of_none h]
  | hsome a f r h ih => rw [residue_of_some (D.next_append b h), residue_of_some h, ih]

/-- After a run no complete item is left. -/
theorem residue_done (b : List α) : D.next (D.residue b) = none := by
  induction b using D.induction with
  | hnone b h => rw [residue_of_none h, h]
  | hsome b f r h ih => rw [residue_of_some h, ih]

/-- When an item is written back as it was read, so is a buffer: its items, and what is
left. -/
theorem flatMap_frames_append_residue {enc : β → List α}
    (henc : ∀ b f r, D.next b = some (f, r) → enc f ++ r = b) (b : List α) :
    (D.frames b).flatMap enc ++ D.residue b = b := by
  induction b using D.induction with
  | hnone b h => rw [frames_of_none h, residue_of_none h, List.flatMap_nil, List.nil_append]
  | hsome b f r h ih =>
    rw [frames_of_some h, residue_of_some h, List.flatMap_cons, List.append_assoc, ih,
      henc b f r h]

/-- What is decoded of a prefix of a stream is a prefix of what is decoded of the stream. -/
theorem frames_prefix {a b : List α} (h : a <+: b) : D.frames a <+: D.frames b := by
  obtain ⟨c, rfl⟩ := h
  rw [frames_append]
  exact List.prefix_append _ _

/-! ### The buffers a run goes through -/

/-- `Reach b r`: cutting items off `b` leads through `r`. -/
inductive Reach : List α → List α → Prop
  /-- The buffer itself. -/
  | refl (b : List α) : Reach b b
  /-- One item further. -/
  | cut {b r r' : List α} {f : β} (h : D.next b = some (f, r)) : Reach r r' → Reach b r'

variable {D}

theorem Reach.trans {a b c : List α} (h : D.Reach a b) (h' : D.Reach b c) : D.Reach a c := by
  induction h with
  | refl => exact h'
  | cut hn _ ih => exact .cut hn (ih h')

theorem Reach.append {a b : List α} (h : D.Reach a b) (c : List α) : D.Reach (a ++ c) (b ++ c) := by
  induction h with
  | refl => exact .refl _
  | cut hn _ ih => exact .cut (D.next_append c hn) ih

theorem Reach.length_le {a b : List α} (h : D.Reach a b) : b.length ≤ a.length := by
  induction h with
  | refl => exact Nat.le_refl _
  | cut hn _ ih => exact Nat.le_trans ih (Nat.le_of_lt (D.next_length hn))

theorem Reach.residue_eq {a b : List α} (h : D.Reach a b) : D.residue b = D.residue a := by
  induction h with
  | refl => rfl
  | cut hn _ ih => rw [ih, residue_of_some hn]

variable (D)

theorem reach_residue (b : List α) : D.Reach b (D.residue b) := by
  induction b using D.induction with
  | hnone b h => rw [residue_of_none h]; exact .refl b
  | hsome b f r h ih => rw [residue_of_some h]; exact .cut h ih

end StreamDecoder

end ThirdPersonMP.Library
