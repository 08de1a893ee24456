import Mathlib.Algebra.Ring.Nat
import ThirdPersonMP.Library.Run
import Mathlib.Data.List.Perm.Subperm
import Mathlib.Data.List.Count

/-!
# Simulation of a machine by another

A machine refines another when each of its steps is a run of the other one, of no step or
of several, and the two states stay related. Then each of its runs is a run of the other.

* `run_simulated` — the runs from the steps, with the conditions under which the steps of
  the two machines are taken.
* `length_le_of_variant`, `reaches_of_variant` — a measure that every step lowers bounds the
  runs; one that every step of a kind lowers has a goal reached after enough of them.
* `subperm_of_tags` — elements that come with a tag, matched tag by tag.
-/

namespace ThirdPersonMP.Library

universe u v

/-! ### Simulation -/

section

variable {σ τ : Type u} {α β : Type v} {step : σ → α → Option σ} {step' : τ → β → Option τ}

/-- Each step of one machine that is taken under `P` is a run of the other, whose steps are
taken under `Q'` when it is taken under `Q`. -/
def Simulates (step : σ → α → Option σ) (step' : τ → β → Option τ) (R : σ → τ → Prop)
    (P Q : σ → α → Prop) (Q' : τ → β → Prop) : Prop :=
  ∀ s t a s', R s t → P s a → step s a = some s' →
    ∃ bs t', run step' t bs = some t' ∧ R s' t' ∧ (Q s a → EachStep step' Q' t bs)

/-- **A run of one machine is a run of the other.** -/
theorem run_simulated {R : σ → τ → Prop} {P Q : σ → α → Prop} {Q' : τ → β → Prop}
    (hsim : Simulates step step' R P Q Q') {s s' : σ} {t : τ} {as : List α} (hR : R s t)
    (hP : EachStep step P s as) (h : run step s as = some s') :
    ∃ bs t', run step' t bs = some t' ∧ R s' t' ∧
      (EachStep step Q s as → EachStep step' Q' t bs) := by
  induction as generalizing s t with
  | nil =>
    rw [run_nil, Option.some.injEq] at h
    subst h
    exact ⟨[], t, rfl, hR, fun _ => trivial⟩
  | cons a as ih =>
    obtain ⟨m, ha, hrun⟩ := Option.bind_eq_some_iff.mp h
    obtain ⟨bs, n, hbs, hRn, hQ⟩ := hsim s t a m hR hP.1 ha
    obtain ⟨cs, t', hcs, hR', hQ'⟩ := ih hRn (hP.2 m ha) hrun
    refine ⟨bs ++ cs, t', ?_, hR', fun hq => eachStep_append (hQ hq.1) fun n' hn' => ?_⟩
    · rw [run_append, hbs]
      exact hcs
    · rw [hbs, Option.some.injEq] at hn'
      exact hn' ▸ hQ' (hq.2 m ha)

end

/-! ### Variants -/

section

variable {σ : Type u} {α : Type v} {step : σ → α → Option σ}

/-- Every step taken under `P` keeps the invariant and lowers the measure. -/
def Lowers (step : σ → α → Option σ) (I : σ → Prop) (P : σ → α → Prop) (μ : σ → ℕ) : Prop :=
  ∀ s a s', I s → P s a → step s a = some s' → I s' ∧ μ s' < μ s

/-- A run is no longer than the measure. -/
theorem length_le_of_variant {I : σ → Prop} {P : σ → α → Prop} {μ : σ → ℕ}
    (hstep : Lowers step I P μ) {s s' : σ} {as : List α} (hI : I s) (hP : EachStep step P s as)
    (h : run step s as = some s') : I s' ∧ as.length + μ s' ≤ μ s := by
  induction as generalizing s with
  | nil =>
    rw [run_nil, Option.some.injEq] at h
    subst h
    exact ⟨hI, by simp⟩
  | cons a as ih =>
    obtain ⟨m, ha, hrun⟩ := Option.bind_eq_some_iff.mp h
    obtain ⟨hIm, hlt⟩ := hstep s a m hI hP.1 ha
    obtain ⟨hI', hle⟩ := ih hIm (hP.2 m ha) hrun
    refine ⟨hI', ?_⟩
    rw [List.length_cons]
    omega

/-- Steps of a kind lower a measure, others may raise it, by what their label says or by what a
potential grows: a goal that stays reached, and is reached when the measure is `0`, is reached
after as many steps of the kind as the measure was, and as it was raised by. -/
theorem reaches_of_variant {I G : σ → Prop} {P : σ → α → Prop} {μ Φ : σ → ℕ} {c : α → Bool}
    {r : α → ℕ} (hzero : ∀ s, I s → μ s = 0 → G s)
    (hstays : ∀ s a s', I s → P s a → step s a = some s' → G s → I s' ∧ G s')
    (hstep : ∀ s a s', I s → P s a → step s a = some s' → ¬ G s →
      I s' ∧ μ s' + (if c a then 1 else 0) + Φ s ≤ μ s + r a + Φ s')
    {s s' : σ} {as : List α} (hI : I s) (hP : EachStep step P s as) (h : run step s as = some s')
    (hmany : μ s + (as.map r).sum + Φ s' ≤ as.countP c + Φ s) : G s' := by
  induction as generalizing s with
  | nil =>
    rw [run_nil, Option.some.injEq] at h
    subst h
    rw [List.map_nil, List.sum_nil, List.countP_nil] at hmany
    exact hzero s hI (by omega)
  | cons a as ih =>
    by_cases hG : G s
    · -- the goal is reached, and stays so
      exact (run_invariant_of_eachStep step ⟨hI, hG⟩
        (fun s a s' hs ha hstep => hstays s a s' hs.1 ha hstep hs.2) hP h).2
    · obtain ⟨m, ha, hrun⟩ := Option.bind_eq_some_iff.mp h
      obtain ⟨hIm, hle⟩ := hstep s a m hI hP.1 ha hG
      refine ih hIm (hP.2 m ha) hrun ?_
      rw [List.map_cons, List.sum_cons, List.countP_cons] at hmany
      omega

/-- Where a step can always be taken until a state is final, a run to a final state exists,
from every state. -/
theorem exists_run_final {I Final : σ → Prop} {P : σ → α → Prop} {μ : σ → ℕ}
    (hstep : Lowers step I P μ)
    (hprogress : ∀ s, I s → ¬ Final s → ∃ a s', P s a ∧ step s a = some s') (s : σ) (hI : I s) :
    ∃ as s', run step s as = some s' ∧ EachStep step P s as ∧ Final s' := by
  induction hn : μ s using Nat.strongRecOn generalizing s with
  | _ n ih =>
    by_cases hf : Final s
    · exact ⟨[], s, rfl, trivial, hf⟩
    · obtain ⟨a, m, hPa, ha⟩ := hprogress s hI hf
      obtain ⟨hIm, hlt⟩ := hstep s a m hI hPa ha
      obtain ⟨as, s', hrun, hP, hf'⟩ := ih (μ m) (hn ▸ hlt) m hIm rfl
      refine ⟨a :: as, s', ?_, ⟨hPa, fun t ht => ?_⟩, hf'⟩
      · rw [run_cons, ha]
        exact hrun
      · rw [ha, Option.mem_some] at ht
        exact ht ▸ hP

end

/-! ### Tags -/

section

variable {κ κ' β : Type*} [DecidableEq κ] [DecidableEq κ']

/-- The elements with a tag. -/
def tagged (k : κ) (l : List (κ × β)) : List β := (l.filter fun e => e.1 = k).map Prod.snd

theorem tagged_append (k : κ) (l l' : List (κ × β)) :
    tagged k (l ++ l') = tagged k l ++ tagged k l' := by
  unfold tagged
  rw [List.filter_append, List.map_append]

@[simp] theorem tagged_singleton_self (k : κ) (b : β) : tagged k [(k, b)] = [b] := by
  simp [tagged]

theorem tagged_eq_nil {k : κ} {l : List (κ × β)} (h : ∀ e ∈ l, e.1 ≠ k) : tagged k l = [] := by
  unfold tagged
  rw [List.map_eq_nil_iff, List.filter_eq_nil_iff]
  intro e he
  simpa using h e he

theorem count_tagged [DecidableEq β] (k : κ) (b : β) (l : List (κ × β)) :
    (tagged k l).count b = l.count (k, b) := by
  induction l with
  | nil => rfl
  | cons e l ih =>
    obtain ⟨k', b'⟩ := e
    by_cases hk : k' = k
    · subst hk
      simpa [tagged, List.count_cons] using ih
    · simpa [tagged, hk, List.count_cons] using ih

/-- When each tag of one list is matched to a tag of the other, different ones to different
ones, and the elements with it are among those with the other, then all the elements are
among the elements of the other. -/
theorem subperm_of_tags [DecidableEq β] (link : κ → Option κ')
    (hinj : ∀ k j i, link k = some i → link j = some i → k = j) {l : List (κ × β)}
    {l' : List (κ' × β)}
    (h : ∀ k, tagged k l ≠ [] → ∃ i, link k = some i ∧ (tagged k l).Subperm (tagged i l')) :
    (l.map Prod.snd).Subperm (l'.map Prod.snd) := by
  have hsome : ∀ e ∈ l, ∃ i, link e.1 = some i ∧ l.count e ≤ l'.count (i, e.2) := by
    intro e he
    have hne : tagged e.1 l ≠ [] := by
      refine List.ne_nil_of_mem (a := e.2) (List.mem_map.mpr ⟨e, ?_, rfl⟩)
      exact List.mem_filter.mpr ⟨he, by simp⟩
    obtain ⟨i, hi, hsub⟩ := h e.1 hne
    refine ⟨i, hi, ?_⟩
    have := hsub.count_le e.2
    rwa [count_tagged, count_tagged] at this
  -- the list with its tags replaced is among the other list
  have hlinked : (l.map fun e => (link e.1, e.2)).Subperm (l'.map fun e => (some e.1, e.2)) := by
    rw [List.subperm_ext_iff]
    intro e' he'
    obtain ⟨e, he, rfl⟩ := List.mem_map.mp he'
    obtain ⟨i, hi, hcount⟩ := hsome e he
    have hleft : (l.map fun e => (link e.1, e.2)).count (link e.1, e.2) = l.count e := by
      rw [List.count_eq_countP, List.count_eq_countP, List.countP_map]
      refine List.countP_congr fun e' he' => ?_
      obtain ⟨i', hi', -⟩ := hsome e' he'
      simp only [Function.comp_apply, beq_iff_eq, Prod.mk.injEq]
      constructor
      · rintro ⟨hk, hb⟩
        exact Prod.ext (hinj e'.1 e.1 i' hi' (hk ▸ hi')) hb
      · rintro rfl
        exact ⟨rfl, rfl⟩
    have hright : (l'.map fun e => (some e.1, e.2)).count (some i, e.2) = l'.count (i, e.2) :=
      List.count_map_of_injective l' (fun e : κ' × β => (some e.1, e.2))
        (fun e e' h => by simpa [Prod.ext_iff] using h) (i, e.2)
    rw [hleft, hi, hright]
    exact hcount
  obtain ⟨m, hperm, hsub⟩ := hlinked
  refine ⟨m.map Prod.snd, ?_, ?_⟩
  · simpa [List.map_map, Function.comp_def] using hperm.map Prod.snd
  · simpa [List.map_map, Function.comp_def] using hsub.map Prod.snd

end

end ThirdPersonMP.Library
