import Mathlib.Data.List.Perm.Basic
import Mathlib.Logic.Function.Basic
import Mathlib.Tactic.Common

/-!
# Lists and tables by index

What is at an index of a list when the element at another is changed, or one is appended; and
what is at a key of a table that a loop fills, where a later entry overwrites an earlier one
with the same key.

* `perm_flatMap_modify` — what the elements hold, when one of them gets more.
* `foldl_update` — what the table holds for a key: the last entry with that key;
  `foldl_update_of_mem` — an entry is found when no other has its key.
-/

namespace ThirdPersonMP.Library

variable {α β : Type*} {l : List α} {a b b' : α} {k j : ℕ}

/-- The element at `j` when the element at `k` is changed by `f`. -/
theorem getElem?_modify_eq_some {f : α → α} :
    (l.modify k f)[j]? = some b ↔ ∃ a, l[j]? = some a ∧ b = if k = j then f a else a := by
  rw [List.getElem?_modify, Option.map_eq_map, Option.map_eq_some_iff]
  simp only [eq_comm]

/-- The element at `j` when the element at `k` becomes `b'`. -/
theorem getElem?_set_eq_some (hk : l[k]? = some a) :
    (l.set k b')[j]? = some b ↔ (k = j ∧ b = b') ∨ (k ≠ j ∧ l[j]? = some b) := by
  have hlt : k < l.length := (List.getElem?_eq_some_iff.mp hk).1
  rw [List.getElem?_set, if_pos hlt]
  by_cases h : k = j <;> simp [h, eq_comm]

/-- The element at `k` itself. -/
theorem eq_of_getElem?_set (hk : l[k]? = some a) (h : (l.set k b')[k]? = some b) : b = b' := by
  rcases (getElem?_set_eq_some hk).mp h with ⟨-, hb⟩ | ⟨hne, -⟩
  · exact hb
  · exact absurd rfl hne

/-- The element at `k` when `a` is appended. -/
theorem getElem?_concat_eq_some :
    (l ++ [a])[k]? = some b ↔ l[k]? = some b ∨ (k = l.length ∧ b = a) := by
  rw [List.getElem?_append]
  by_cases hk : k < l.length
  · rw [if_pos hk]
    exact ⟨.inl, fun h => h.elim id fun h => absurd h.1 (by omega)⟩
  · rw [if_neg hk, List.getElem?_eq_none (Nat.le_of_not_lt hk), List.getElem?_singleton]
    constructor
    · intro h
      split at h
      · cases h
        exact .inr ⟨by omega, rfl⟩
      · cases h
    · rintro (h | ⟨rfl, rfl⟩)
      · cases h
      · simp

/-- The last element is changed. -/
theorem modify_concat (f : α → α) : (l ++ [a]).modify l.length f = l ++ [f a] := by
  induction l with
  | nil => rfl
  | cons c l ih =>
    rw [List.cons_append, List.length_cons, List.modify_succ_cons, ih, List.cons_append]

/-- What holds of every element still does when one is changed, if it holds of that. -/
theorem forall_mem_modify {p : α → Prop} {f : α → α} (h : ∀ a ∈ l, p a)
    (hf : ∀ a, l[k]? = some a → p (f a)) : ∀ a ∈ l.modify k f, p a := by
  intro b hb
  obtain ⟨j, hj⟩ := List.mem_iff_getElem?.mp hb
  obtain ⟨a, ha, rfl⟩ := getElem?_modify_eq_some.mp hj
  split
  · rename_i hkj
    subst hkj
    exact hf a ha
  · exact h a (List.mem_of_getElem? ha)

/-- The element is changed to itself. -/
theorem modify_eq_self {f : α → α} (hf : ∀ a, l[k]? = some a → f a = a) : l.modify k f = l := by
  refine List.ext_getElem? fun j => ?_
  rw [List.getElem?_modify]
  by_cases hkj : k = j
  · subst hkj
    cases hk : l[k]? with
    | none => rfl
    | some a => simp [hf a hk]
  · simp [hkj]

/-- What the elements hold, when the element at `k` gets `new`. -/
theorem perm_flatMap_modify {f : α → α} {g : α → List β} {new : List β} (hk : l[k]? = some a)
    (hf : g (f a) = g a ++ new) : ((l.modify k f).flatMap g).Perm (l.flatMap g ++ new) := by
  induction l generalizing k with
  | nil => cases hk
  | cons c l ih =>
    cases k with
    | zero =>
      rw [List.getElem?_cons_zero, Option.some.injEq] at hk
      subst hk
      rw [List.modify_zero_cons, List.flatMap_cons, List.flatMap_cons, hf, List.append_assoc,
        List.append_assoc]
      exact List.perm_append_comm.append_left _
    | succ k =>
      rw [List.getElem?_cons_succ] at hk
      rw [List.modify_succ_cons, List.flatMap_cons, List.flatMap_cons, List.append_assoc]
      exact (ih hk).append_left _

/-! ### Tables -/

section

variable {κ : Type*} [DecidableEq κ] (key : α → κ) (val : α → β)

/-- The last entry with the key is in the table, or what was there before. -/
theorem foldl_update (as : List α) (table : κ → β) (k : κ) :
    as.foldl (fun table a => Function.update table (key a) (val a)) table k =
      ((as.filter (key · = k)).getLast?.map val).getD (table k) := by
  induction as generalizing table with
  | nil => rfl
  | cons a as ih =>
    rw [List.foldl_cons, ih]
    by_cases hk : key a = k
    · rw [List.filter_cons_of_pos (by simpa using hk), List.getLast?_cons, ← hk,
        Function.update_self]
      cases (as.filter (key · = key a)).getLast? <;> rfl
    · rw [List.filter_cons_of_neg (by simpa using hk), Function.update_of_ne (Ne.symm hk)]

variable {key val}

/-- An entry is in the table, when all entries with its key have its value. -/
theorem foldl_update_of_mem {as : List α} {table : κ → β} {a : α} (ha : a ∈ as)
    (huniq : ∀ b ∈ as, key b = key a → val b = val a) :
    as.foldl (fun table a => Function.update table (key a) (val a)) table (key a) = val a := by
  have hmem : a ∈ as.filter (key · = key a) := List.mem_filter.mpr ⟨ha, by simp⟩
  rw [foldl_update, List.getLast?_eq_getLast_of_ne_nil (List.ne_nil_of_mem hmem)]
  have hlast := List.mem_filter.mp (List.getLast_mem (List.ne_nil_of_mem hmem))
  exact huniq _ hlast.1 (by simpa using hlast.2)

end

end ThirdPersonMP.Library
