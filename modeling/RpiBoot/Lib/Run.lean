import Mathlib.Data.Nat.Notation
import Mathlib.Data.List.Induction
import Mathlib.Tactic.Common

/-!
# Runs of a partial step function

`run step s os` performs the operations `os` in order from state `s`; a step that is not defined
ends the run with `none`.

* `run_append`, `run_append_eq_some`: runs of concatenated operation lists.
* `Along`: a condition on the state before a step and its operation, met at every step of a run;
  `along_congr`: only the steps that are taken matter.
* **`run_invariant`**: a property preserved by every step that meets the condition is preserved by
  every run along which the condition is met.
* **`run_iff`**: a property that only the good steps keep holds behind just the runs of good steps.
* **`run_since`**: what a deciding step establishes and the others keep holds since the last deciding
  step.
* **`run_rel`**: a relation between two runs of one operation list.
-/

namespace Runs

variable {σ τ ω : Type}

/-- Perform the operations in order. -/
def run (step : σ → ω → Option σ) : σ → List ω → Option σ
  | s, [] => some s
  | s, o :: os => (step s o).bind fun s' => run step s' os

/-- Every step that is taken meets `ok`. -/
def Along (step : σ → ω → Option σ) (ok : σ → ω → Prop) : σ → List ω → Prop
  | _, [] => True
  | s, o :: os => ok s o ∧ ∀ s', step s o = some s' → Along step ok s' os

section Algebra

variable (step : σ → ω → Option σ)

@[simp] theorem run_nil (s : σ) : run step s [] = some s := rfl

theorem run_cons (s : σ) (o : ω) (os : List ω) :
    run step s (o :: os) = (step s o).bind fun s' => run step s' os := rfl

theorem run_cons_eq_some {s t : σ} {o : ω} {os : List ω} :
    run step s (o :: os) = some t ↔ ∃ s', step s o = some s' ∧ run step s' os = some t := by
  rw [run_cons, Option.bind_eq_some_iff]

theorem run_append (s : σ) (os os' : List ω) :
    run step s (os ++ os') = (run step s os).bind fun s' => run step s' os' := by
  induction os generalizing s with
  | nil => rfl
  | cons o os ih =>
    rw [List.cons_append, run_cons, run_cons, Option.bind_assoc]
    exact congrArg _ (funext fun s' => ih s')

theorem run_append_eq_some {s t : σ} {os os' : List ω} :
    run step s (os ++ os') = some t ↔ ∃ u, run step s os = some u ∧ run step u os' = some t := by
  rw [run_append, Option.bind_eq_some_iff]

end Algebra

section Conditions

variable {step : σ → ω → Option σ} {ok : σ → ω → Prop}

@[simp] theorem along_nil (s : σ) : Along step ok s [] := trivial

theorem Along.mono {ok' : σ → ω → Prop} (h : ∀ s o, ok s o → ok' s o) {s : σ} {os : List ω}
    (hs : Along step ok s os) : Along step ok' s os := by
  induction os generalizing s with
  | nil => trivial
  | cons o os ih => exact ⟨h s o hs.1, fun s' hs' => ih (hs.2 s' hs')⟩

theorem Along.and {ok' : σ → ω → Prop} {s : σ} {os : List ω} (h : Along step ok s os)
    (h' : Along step ok' s os) : Along step (fun s o => ok s o ∧ ok' s o) s os := by
  induction os generalizing s with
  | nil => trivial
  | cons o os ih => exact ⟨⟨h.1, h'.1⟩, fun s' hs' => ih (h.2 s' hs') (h'.2 s' hs')⟩

/-- Conditions that agree on the steps that are taken agree along a run. -/
theorem along_congr {ok' : σ → ω → Prop} (h : ∀ s o s', step s o = some s' → (ok s o ↔ ok' s o))
    {s t : σ} {os : List ω} (hr : run step s os = some t) : Along step ok s os ↔ Along step ok' s os := by
  induction os generalizing s with
  | nil => exact Iff.rfl
  | cons o os ih =>
    obtain ⟨s', hs', hr'⟩ := (run_cons_eq_some step).mp hr
    simp only [Along, hs', Option.some.injEq, forall_eq', h s o s' hs', ih hr']

/-- Conditions that agree while an invariant holds, which the steps that meet them keep, agree along a
run. -/
theorem along_iff {p ok' : σ → ω → Prop} {I : σ → Prop}
    (hstep : ∀ s o, I s → p s o → (ok s o ↔ ok' s o) ∧ ∀ s', step s o = some s' → ok s o → I s')
    {s : σ} {os : List ω} (hs : I s) (hp : Along step p s os) :
    Along step ok s os ↔ Along step ok' s os := by
  induction os generalizing s with
  | nil => exact Iff.rfl
  | cons o os ih =>
    obtain ⟨hiff, hI⟩ := hstep s o hs hp.1
    constructor
    · rintro ⟨hok, hrest⟩
      exact ⟨hiff.mp hok, fun s' hs' => (ih (hI s' hs' hok) (hp.2 s' hs')).mp (hrest s' hs')⟩
    · rintro ⟨hok', hrest⟩
      have hok := hiff.mpr hok'
      exact ⟨hok, fun s' hs' => (ih (hI s' hs' hok) (hp.2 s' hs')).mpr (hrest s' hs')⟩

/-- A condition on operations alone. -/
theorem along_of_forall {p : ω → Prop} {os : List ω} (h : ∀ o ∈ os, p o) (s : σ) :
    Along step (fun _ o => p o) s os := by
  induction os generalizing s with
  | nil => trivial
  | cons o os ih =>
    exact ⟨h o List.mem_cons_self, fun s' _ => ih (fun o' ho' => h o' (List.mem_cons_of_mem _ ho')) s'⟩

/-- The second part of a run meets the condition as well. -/
theorem Along.of_append {s u : σ} {os os' : List ω} (h : Along step ok s (os ++ os'))
    (hr : run step s os = some u) : Along step ok u os' := by
  induction os generalizing s with
  | nil => obtain rfl : s = u := Option.some.inj hr; exact h
  | cons o os ih =>
    obtain ⟨s', hs', hr'⟩ := (run_cons_eq_some step).mp hr
    exact ih (h.2 s' hs') hr'

/-- A condition that holds while an invariant does, which the steps keep, holds along a run. -/
theorem along_of_invariant {p : σ → ω → Prop} {I : σ → Prop}
    (hstep : ∀ s o, I s → p s o → ok s o ∧ ∀ s', step s o = some s' → I s') {s : σ} {os : List ω}
    (hs : I s) (hp : Along step p s os) : Along step ok s os := by
  induction os generalizing s with
  | nil => trivial
  | cons o os ih =>
    obtain ⟨hok, hI⟩ := hstep s o hs hp.1
    exact ⟨hok, fun s' hs' => ih (hI s' hs') (hp.2 s' hs')⟩

/-- **Invariants along a run.** -/
theorem run_invariant {I : σ → Prop}
    (hstep : ∀ s o s', I s → ok s o → step s o = some s' → I s') {s t : σ} {os : List ω}
    (hs : I s) (ha : Along step ok s os) (hr : run step s os = some t) : I t := by
  induction os generalizing s with
  | nil => obtain rfl : s = t := Option.some.inj hr; exact hs
  | cons o os ih =>
    obtain ⟨s', hs', hr'⟩ := (run_cons_eq_some step).mp hr
    exact ih (hstep s o s' hs ha.1 hs') (ha.2 s' hs') hr'

/-- Invariants that every step preserves. -/
theorem run_invariant' {I : σ → Prop} (hstep : ∀ s o s', I s → step s o = some s' → I s')
    {s t : σ} {os : List ω} (hs : I s) (hr : run step s os = some t) : I t :=
  run_invariant (fun s o s' h (_ : True) hs' => hstep s o s' h hs') hs
    (along_of_forall (fun _ _ => trivial) s) hr

/-- **Properties that hold just along the good steps.** While `I` holds, a step keeps the property `P` if
and only if it is good, and never restores it. -/
theorem run_iff {good : σ → ω → Prop} {I P : σ → Prop}
    (hstep : ∀ s o s', I s → ok s o → step s o = some s' → I s' ∧ (P s' ↔ P s ∧ good s o))
    {s t : σ} {os : List ω} (hs : I s) (ha : Along step ok s os) (hr : run step s os = some t) :
    P t ↔ P s ∧ Along step good s os := by
  induction os generalizing s with
  | nil =>
    obtain rfl : s = t := Option.some.inj hr
    simp
  | cons o os ih =>
    obtain ⟨s', hs', hr'⟩ := (run_cons_eq_some step).mp hr
    obtain ⟨hI, hP⟩ := hstep s o s' hs ha.1 hs'
    simp only [ih hI (ha.2 s' hs') hr', hP, Along, hs', Option.some.injEq, forall_eq', and_assoc]

/-- **Since the last deciding step.** A run without deciding steps keeps what every other step keeps; else
what a deciding step establishes of the state before it, and the others keep, holds at the end. -/
theorem run_since {d : ω → Prop} {I N : σ → Prop} {Q : σ → ω → σ → Prop}
    (hI : ∀ s o s', I s → step s o = some s' → I s')
    (hnone : ∀ s o s', I s → N s → ¬ d o → step s o = some s' → N s')
    (hset : ∀ s o s', I s → d o → step s o = some s' → Q s o s')
    (hkeep : ∀ u o s o' s', I s → Q u o s → ¬ d o' → step s o' = some s' → Q u o s')
    {s t : σ} {os : List ω} (hs : I s) (hN : N s) (hr : run step s os = some t) :
    N t ∨ ∃ pre o post u, os = pre ++ o :: post ∧ (∀ o' ∈ post, ¬ d o') ∧ d o ∧
      run step s pre = some u ∧ Q u o t := by
  induction os using List.reverseRec generalizing t with
  | nil =>
    obtain rfl : s = t := Option.some.inj hr
    exact Or.inl hN
  | append_singleton os o ih =>
    obtain ⟨v, hv, hlast⟩ := (run_append_eq_some step).mp hr
    obtain ⟨t', hstep, ht'⟩ := (run_cons_eq_some step).mp hlast
    obtain rfl : t' = t := Option.some.inj ht'
    have hIv : I v := run_invariant' hI hs hv
    by_cases ho : d o
    · exact Or.inr ⟨os, o, [], v, rfl, by simp, ho, hv, hset v o t' hIv ho hstep⟩
    · rcases ih hv with hN' | ⟨pre, o', post, u, rfl, hpost, ho', hu, hQ⟩
      · exact Or.inl (hnone v o t' hIv hN' ho hstep)
      · refine Or.inr ⟨pre, o', post ++ [o], u, by simp, fun x hx => ?_, ho', hu,
          hkeep u o' v o t' hIv hQ ho hstep⟩
        rcases List.mem_append.mp hx with hx | hx
        · exact hpost x hx
        · rwa [List.mem_singleton.mp hx]

/-- **Two runs of the same operations**, related step by step, under a condition on the second. -/
theorem run_rel {step' : τ → ω → Option τ} {ok : τ → ω → Prop} {R : σ → τ → Prop}
    (hstep : ∀ s t o, R s t → ok t o → ∃ s' t', step s o = some s' ∧ step' t o = some t' ∧ R s' t')
    {s : σ} {t : τ} {os : List ω} (hR : R s t) (ha : Along step' ok t os) :
    ∃ s' t', run step s os = some s' ∧ run step' t os = some t' ∧ R s' t' := by
  induction os generalizing s t with
  | nil => exact ⟨s, t, rfl, rfl, hR⟩
  | cons o os ih =>
    obtain ⟨u, v, hu, hv, huv⟩ := hstep s t o hR ha.1
    obtain ⟨s', t', hs', ht', hR'⟩ := ih huv (ha.2 v hv)
    exact ⟨s', t', by rw [run_cons, hu, Option.bind_some, hs'],
      by rw [run_cons, hv, Option.bind_some, ht'], hR'⟩

end Conditions

end Runs
