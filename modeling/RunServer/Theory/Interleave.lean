/-
# Theory.Interleave -- runs of a shared-state system

A system is a guarded step function: `step s a` is `some t` when action `a` is
possible in `s`.  `Run step guard s₀ h t` says that the actions `h`, in that
order, lead from `s₀` to `t`, each of them taken under `guard`, which may look at
the actions before it.  `Free` is the guard that asks for nothing, so
`Run step Free` is every interleaving.

* `Run.invariant`: what one step keeps, every run keeps;
* `Run.reguard`: two conditions on the steps that say the same on every state a run
  reaches admit the same runs;
* `Run.constrain`, `Run.passed`: a run meets a guard just when each of its actions passes it behind
  those before it;
* `Run.of_follow`: a list of actions that a computation can follow is a run.
-/

namespace RunServer.Theory.Interleave

set_option autoImplicit false

universe u v

section Runs

variable {σ : Type u} {α : Type v} (step : σ → α → Option σ)
variable (guard : List α → σ → α → Prop)

inductive Run (s₀ : σ) : List α → σ → Prop where
  | start : Run s₀ [] s₀
  | step {h : List α} {s t : σ} {a : α} (before : Run s₀ h s) (allowed : guard h s a)
      (taken : step s a = some t) : Run s₀ (h ++ [a]) t

/-- The guard of an unrestricted run. -/
def Free : List α → σ → α → Prop := fun _ _ _ => True

variable {step guard}

/-- **Invariant rule.**  `I h s` may speak of the actions taken so far. -/
theorem Run.invariant {I : List α → σ → Prop} {s₀ t : σ} {h : List α}
    (run : Run step guard s₀ h t) (start : I [] s₀)
    (kept : ∀ h s a t, Run step guard s₀ h s → I h s → guard h s a → step s a = some t →
      I (h ++ [a]) t) : I h t := by
  induction run with
  | start => exact start
  | step before allowed taken ih => exact kept _ _ _ _ before ih allowed taken

/-- A guard may be replaced where every step that the run takes passes the new one. -/
theorem Run.reguard {guard' : List α → σ → α → Prop} {s₀ t : σ} {h : List α}
    (run : Run step guard s₀ h t)
    (passes : ∀ h s a t, Run step guard s₀ h s → guard h s a → step s a = some t →
      guard' h s a) : Run step guard' s₀ h t := by
  induction run with
  | start => exact .start
  | step before allowed taken ih =>
      exact .step ih (passes _ _ _ _ before allowed taken) taken

/-- A run meets a guard that each of its actions passes behind those before it. -/
theorem Run.constrain {s₀ t : σ} {h : List α} (run : Run step Free s₀ h t)
    (passes : ∀ before s a after, h = before ++ a :: after → guard before s a) :
    Run step guard s₀ h t := by
  induction run with
  | start => exact .start
  | step before allowed taken ih =>
      refine .step (ih fun before s a after split => ?_) (passes _ _ _ [] rfl) taken
      exact passes before s a (after ++ [_]) (by rw [split, List.append_assoc]; rfl)

/-- Each action of a run has passed the guard. -/
theorem Run.passed {s₀ t : σ} {h before after : List α} {a : α} (run : Run step guard s₀ h t)
    (split : h = before ++ a :: after) : ∃ s, guard before s a := by
  induction run generalizing after with
  | start => simp at split
  | @step h s t b earlier allowed taken ih =>
      rcases List.eq_nil_or_concat after with rfl | ⟨after, last, rfl⟩
      · obtain ⟨rfl, same⟩ := List.append_inj' split rfl
        cases same
        exact ⟨s, allowed⟩
      · rw [List.concat_eq_append, ← List.cons_append, ← List.append_assoc] at split
        exact ih (List.append_inj' split rfl).1

/-- The state a list of actions leads to, each of them checked as it is taken. -/
def follow (step : σ → α → Option σ) (guard : List α → σ → α → Prop)
    [∀ h s a, Decidable (guard h s a)] (h : List α) (s : σ) : List α → Option σ
  | [] => some s
  | a :: rest =>
      if guard h s a then
        match step s a with
        | none => none
        | some t => follow step guard (h ++ [a]) t rest
      else none

theorem Run.follow [∀ h s a, Decidable (guard h s a)] {s₀ s t : σ} {h rest : List α}
    (run : Run step guard s₀ h s) (leads : Interleave.follow step guard h s rest = some t) :
    Run step guard s₀ (h ++ rest) t := by
  induction rest generalizing h s with
  | nil =>
      cases leads
      simpa using run
  | cons a rest ih =>
      unfold Interleave.follow at leads
      split at leads
      · rename_i allowed
        split at leads
        · cases leads
        · rename_i t' taken
          simpa using ih (run.step allowed taken) leads
      · cases leads

theorem Run.of_follow [∀ h s a, Decidable (guard h s a)] {s₀ t : σ} {h : List α}
    (leads : Interleave.follow step guard [] s₀ h = some t) : Run step guard s₀ h t :=
  Run.start.follow leads

instance (h : List α) (s : σ) (a : α) : Decidable (Free h s a) := isTrue trivial

end Runs

end RunServer.Theory.Interleave
