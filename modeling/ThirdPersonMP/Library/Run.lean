import Mathlib.Data.List.Induction
import Mathlib.Logic.Relation
import Mathlib.Tactic.Common

/-!
# Runs of a machine

A machine is a partial step function `step : σ → α → Option σ`: from a state, a
label (who acts, and what its environment answers) either takes the machine to a
next state or is not possible there. A run is a list of labels, taken in order.

* `run_invariant` — what holds at the start and survives every step holds at the
  end of every run.
* `run_history` — the same for a property of the run so far and its state.
* `EachStep` — every step of a run is taken under a condition on the state before
  it and its label; `run_invariant_of_eachStep` is the invariant rule under it.
* `run_uses` — the invariant rule for a run that uses up a list.
* `exists_run_of_reaches` — a run from single steps.
* `outputs` — what the steps of a run put out.
* `run_map`, `eachStep_map` — two machines, one of which has a history besides.
-/

namespace ThirdPersonMP.Library

universe u v

variable {σ : Type u} {α : Type v} (step : σ → α → Option σ)

/-- The machine takes the labels in order, if it can. -/
def run (s : σ) (as : List α) : Option σ := as.foldlM step s

@[simp] theorem run_nil (s : σ) : run step s [] = some s := rfl

@[simp] theorem run_cons (s : σ) (a : α) (as : List α) :
    run step s (a :: as) = (step s a).bind fun s' => run step s' as := rfl

theorem run_append (s : σ) (as bs : List α) :
    run step s (as ++ bs) = (run step s as).bind fun s' => run step s' bs := by
  simp [run, List.foldlM_append]

/-- The last step of a run. -/
theorem run_concat {s s' : σ} {as : List α} {a : α} :
    run step s (as ++ [a]) = some s' ↔ ∃ m, run step s as = some m ∧ step m a = some s' := by
  simp [run_append, Option.bind_eq_some_iff]

/-- A property of the run so far and its state, true at the start and kept by every
step, is true at the end. -/
theorem run_history {I : List α → σ → Prop} {s₀ : σ} (h₀ : I [] s₀)
    (hstep : ∀ as s a s', run step s₀ as = some s → I as s → step s a = some s' → I (as ++ [a]) s') :
    ∀ {as s}, run step s₀ as = some s → I as s := by
  intro as
  induction as using List.reverseRecOn with
  | nil =>
    intro s h
    rw [run_nil, Option.some.injEq] at h
    exact h ▸ h₀
  | append_singleton as a ih =>
    intro s h
    obtain ⟨m, hm, ha⟩ := (run_concat step).mp h
    exact hstep as m a s hm (ih hm) ha

/-- An invariant of the start and of every step holds at the end of every run. -/
theorem run_invariant {I : σ → Prop} {s₀ : σ} (h₀ : I s₀)
    (hstep : ∀ s a s', I s → step s a = some s' → I s') {as : List α} {s : σ}
    (h : run step s₀ as = some s) : I s :=
  run_history step (I := fun _ => I) h₀ (fun _ s a s' _ hs ha => hstep s a s' hs ha) h

/-- Every step of the run from `s` is taken under `P`, a condition on the state before
the step and its label. -/
def EachStep (P : σ → α → Prop) (s : σ) : List α → Prop
  | [] => True
  | a :: as => P s a ∧ ∀ s' ∈ step s a, EachStep P s' as

instance EachStep.decidable {P : σ → α → Prop} [∀ s a, Decidable (P s a)] :
    ∀ s as, Decidable (EachStep step P s as)
  | _, [] => inferInstanceAs (Decidable True)
  | s, a :: as =>
    have := fun s' => EachStep.decidable (P := P) s' as
    inferInstanceAs (Decidable (P s a ∧ ∀ s' ∈ step s a, EachStep step P s' as))

variable {step}

/-- The condition on a run is the condition on its steps one after the other. -/
theorem eachStep_concat {P : σ → α → Prop} {s m : σ} {as : List α} {a : α}
    (h : EachStep step P s (as ++ [a])) (hm : run step s as = some m) :
    EachStep step P s as ∧ P m a := by
  induction as generalizing s with
  | nil =>
    rw [run_nil, Option.some.injEq] at hm
    exact ⟨trivial, hm ▸ h.1⟩
  | cons b as ih =>
    obtain ⟨s', hb, hm⟩ := Option.bind_eq_some_iff.mp hm
    refine ⟨⟨h.1, fun t ht => ?_⟩, (ih (h.2 s' hb) hm).2⟩
    rw [hb, Option.mem_some] at ht
    exact ht ▸ (ih (h.2 s' hb) hm).1

/-- A weaker condition. -/
theorem EachStep.mono {P Q : σ → α → Prop} (hPQ : ∀ s a, P s a → Q s a) {s : σ} {as : List α}
    (h : EachStep step P s as) : EachStep step Q s as := by
  induction as generalizing s with
  | nil => trivial
  | cons a as ih => exact ⟨hPQ s a h.1, fun t ht => ih (h.2 t ht)⟩

/-- A condition on the labels only. -/
theorem eachStep_of_forall {C : α → Prop} {s : σ} {as : List α} (h : ∀ a ∈ as, C a) :
    EachStep step (fun _ a => C a) s as := by
  induction as generalizing s with
  | nil => trivial
  | cons a as ih =>
    rw [List.forall_mem_cons] at h
    exact ⟨h.1, fun t _ => ih h.2⟩

/-- Two conditions on the same run. -/
theorem EachStep.and {P Q : σ → α → Prop} {s : σ} {as : List α} (h : EachStep step P s as)
    (h' : EachStep step Q s as) : EachStep step (fun s a => P s a ∧ Q s a) s as := by
  induction as generalizing s with
  | nil => trivial
  | cons a as ih => exact ⟨⟨h.1, h'.1⟩, fun t ht => ih (h.2 t ht) (h'.2 t ht)⟩

/-- A run whose first step is known. -/
theorem eachStep_cons {P : σ → α → Prop} {s m : σ} {a : α} (h : step s a = some m) (as : List α) :
    EachStep step P s (a :: as) ↔ P s a ∧ EachStep step P m as := by
  refine and_congr_right fun _ => ⟨fun hall => hall m h, fun hm t ht => ?_⟩
  rw [h, Option.mem_some] at ht
  exact ht ▸ hm

/-- Two runs, one after the other. -/
theorem eachStep_append {P : σ → α → Prop} {s : σ} {as bs : List α} (h : EachStep step P s as)
    (h' : ∀ m, run step s as = some m → EachStep step P m bs) : EachStep step P s (as ++ bs) := by
  induction as generalizing s with
  | nil => exact h' s rfl
  | cons a as ih =>
    refine ⟨h.1, fun t ht => ih (h.2 t ht) fun m hm => h' m ?_⟩
    rw [run_cons, ht]
    exact hm

variable (step)

/-- An invariant that survives every step taken under `P` holds at the end of every run
whose steps are all taken under `P`. -/
theorem run_invariant_of_eachStep {P : σ → α → Prop} {I : σ → Prop} {s₀ : σ} (h₀ : I s₀)
    (hstep : ∀ s a s', I s → P s a → step s a = some s' → I s') {as : List α} {s : σ}
    (hP : EachStep step P s₀ as) (h : run step s₀ as = some s) : I s := by
  refine run_history step (I := fun as s => EachStep step P s₀ as → I s) (fun _ => h₀) ?_ h hP
  intro as s a s' hs hI ha hP
  obtain ⟨hP, hPa⟩ := eachStep_concat hP hs
  exact hstep s a s' (hI hP) hPa ha

/-- What a run keeps, while it uses up a list: each label takes elements from its front. -/
theorem run_uses {β : Type*} {P : σ → α → Prop} {uses : α → List β} {J : List β → σ → Prop}
    (hstep : ∀ rest s a s', J (uses a ++ rest) s → P s a → step s a = some s' → J rest s')
    {s s' : σ} {as : List α} (h : run step s as = some s') (hP : EachStep step P s as)
    (hJ : J (as.flatMap uses) s) : J [] s' := by
  induction as generalizing s with
  | nil =>
    rw [run_nil, Option.some.injEq] at h
    exact h ▸ hJ
  | cons a as ih =>
    obtain ⟨m, ha, hrun⟩ := Option.bind_eq_some_iff.mp h
    rw [List.flatMap_cons] at hJ
    exact ih hrun (hP.2 m ha) (hstep _ s a m hJ hP.1 ha)

/-- Single steps, each with a label that meets a condition, make up a run. -/
theorem exists_run_of_reaches {C : α → Prop} {s s' : σ}
    (h : Relation.ReflTransGen (fun m m' => ∃ a, C a ∧ step m a = some m') s s') :
    ∃ as, (∀ a ∈ as, C a) ∧ run step s as = some s' := by
  induction h with
  | refl => exact ⟨[], List.forall_mem_nil _, run_nil step s⟩
  | tail _ hstep ih =>
    obtain ⟨as, hC, hrun⟩ := ih
    obtain ⟨a, ha, hstep⟩ := hstep
    refine ⟨as ++ [a], ?_, (run_concat step).mpr ⟨_, hrun, hstep⟩⟩
    exact List.forall_mem_append.mpr ⟨hC, List.forall_mem_singleton.mpr ha⟩

/-! ### Outputs -/

section

variable {β : Type*} (out : σ → α → List β)

/-- What the steps of a run put out, in order. -/
def outputs (s : σ) : List α → List β
  | [] => []
  | a :: as => out s a ++ ((step s a).map fun s' => outputs s' as).getD []

/-- The last step of a run puts out last. -/
theorem outputs_concat {s s' : σ} {as : List α} (h : run step s as = some s') (a : α) :
    outputs step out s (as ++ [a]) = outputs step out s as ++ out s' a := by
  induction as generalizing s with
  | nil =>
    rw [run_nil, Option.some.injEq] at h
    subst h
    rw [List.nil_append, outputs, outputs, List.nil_append]
    cases step s a with
    | none => exact List.append_nil _
    | some t => exact List.append_nil _
  | cons b as ih =>
    obtain ⟨m, hb, hrun⟩ := Option.bind_eq_some_iff.mp h
    rw [List.cons_append, outputs, outputs, hb, Option.map_some, Option.map_some,
      Option.getD_some, Option.getD_some, ih hrun, List.append_assoc]

end

/-! ### Two machines -/

section

variable {step} {τ : Type*} {step' : τ → α → Option τ} {f : σ → τ}

/-- A machine whose state has more in it than that of another, which takes the same steps. -/
theorem run_map (hf : ∀ s a, (step s a).map f = step' (f s) a) (s : σ) (as : List α) :
    (run step s as).map f = run step' (f s) as := by
  induction as generalizing s with
  | nil => rfl
  | cons a as ih =>
    rw [run_cons, run_cons, ← hf, Option.map_bind, Option.bind_map]
    exact Option.bind_congr fun m _ => ih m

/-- A condition on what the two have in common. -/
theorem eachStep_map (hf : ∀ s a, (step s a).map f = step' (f s) a) {P : τ → α → Prop} {s : σ}
    {as : List α} (h : EachStep step' P (f s) as) : EachStep step (fun s => P (f s)) s as := by
  induction as generalizing s with
  | nil => trivial
  | cons a as ih =>
    refine ⟨h.1, fun t ht => ih (h.2 (f t) ?_)⟩
    rw [← hf, ht]
    rfl

/-- The other way round: each state of the one is reached by the other. -/
theorem eachStep_of_map (hf : ∀ s a, (step s a).map f = step' (f s) a) {P : τ → α → Prop} {s : σ}
    {as : List α} (h : EachStep step (fun s => P (f s)) s as) : EachStep step' P (f s) as := by
  induction as generalizing s with
  | nil => trivial
  | cons a as ih =>
    refine ⟨h.1, fun t ht => ?_⟩
    rw [← hf, Option.mem_def, Option.map_eq_some_iff] at ht
    obtain ⟨m, hm, rfl⟩ := ht
    exact ih (h.2 m hm)

end

end ThirdPersonMP.Library
