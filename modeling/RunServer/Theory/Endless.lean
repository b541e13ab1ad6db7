/-
# Theory.Endless -- endless loops, and what makes them end

An endless loop (`for (;;) { ... }`) is a body `σ → Option (Pass σ ρ)`: a pass asks for
another one, or is done with a result.  The body answers `none` where a loop inside it has
not come to an end.

* `run` makes a bounded number of passes;
* `Begins body s t`: in the loop entered in `s`, a pass begins in `t`;
* `run_unique`: two runs that end, end with one result, however many passes they may make;
* `run_of_progress`: where every pass is done or leaves a smaller measure behind, the
  loop ends, within as many passes as the measure says, and with what its last pass promises;
  `run_ends` is the case without an invariant;
* `run_map`: a loop that follows another one, pass by pass, ends with the image of its result.
-/
import Mathlib.Data.Nat.Notation

namespace RunServer.Theory.Endless

set_option autoImplicit false

universe u v

/-- How one pass ends. -/
inductive Pass (σ : Type u) (ρ : Type v) where
  | again (s : σ)
  | done (r : ρ)
  deriving DecidableEq

section Run

variable {σ : Type u} {ρ : Type v} (body : σ → Option (Pass σ ρ))

def run : Nat → σ → Option ρ
  | 0, _ => none
  | fuel + 1, s =>
      match body s with
      | none => none
      | some (.done r) => some r
      | some (.again t) => run fuel t

/-- The states in which the passes of the loop begin. -/
inductive Begins (s : σ) : σ → Prop where
  | first : Begins s s
  | next {t u : σ} (earlier : Begins s t) (turn : body t = some (.again u)) : Begins s u

variable {body}

theorem run_done {s : σ} {r : ρ} (last : body s = some (.done r)) (fuel : Nat) :
    run body (fuel + 1) s = some r := by
  simp [run, last]

theorem run_again {s t : σ} (turn : body s = some (.again t)) (fuel : Nat) :
    run body (fuel + 1) s = run body fuel t := by
  simp [run, turn]

/-- Passes to spare change nothing. -/
theorem run_mono {fuel more : Nat} {s : σ} {r : ρ} (ended : run body fuel s = some r)
    (le : fuel ≤ more) : run body more s = some r := by
  induction fuel generalizing more s with
  | zero => simp [run] at ended
  | succ fuel ih =>
      obtain ⟨spare, rfl⟩ : ∃ spare, more = spare + 1 := ⟨more - 1, by omega⟩
      cases found : body s with
      | none => simp [run, found] at ended
      | some pass =>
          cases pass with
          | done r' =>
              rw [run_done found] at ended ⊢
              exact ended
          | again t =>
              rw [run_again found] at ended ⊢
              exact ih ended (by omega)

theorem run_unique {fuel fuel' : Nat} {s : σ} {r r' : ρ} (ended : run body fuel s = some r)
    (ended' : run body fuel' s = some r') : r = r' := by
  have first := run_mono ended (Nat.le_max_left fuel fuel')
  have second := run_mono ended' (Nat.le_max_right fuel fuel')
  rw [first] at second
  exact Option.some.inj second

/-- **Invariant rule.** -/
theorem Begins.invariant {I : σ → Prop} {s t : σ} (begins : Begins body s t) (start : I s)
    (kept : ∀ t u, I t → body t = some (.again u) → I u) : I t := by
  induction begins with
  | first => exact start
  | next _ turn ih => exact kept _ _ ih turn

/-- **Progress rule.**  What a pass keeps is `I`, what the last one promises is `Q`. -/
theorem run_of_progress (I : σ → Prop) (Q : ρ → Prop) (measure : σ → Nat)
    (passes : ∀ s, I s → (∃ r, body s = some (.done r) ∧ Q r) ∨
      ∃ t, body s = some (.again t) ∧ I t ∧ measure t < measure s)
    {s : σ} (start : I s) {fuel : Nat} (enough : measure s < fuel) :
    ∃ r, run body fuel s = some r ∧ Q r := by
  induction fuel generalizing s with
  | zero => exact absurd enough (Nat.not_lt_zero _)
  | succ fuel ih =>
      rcases passes s start with ⟨r, last, promised⟩ | ⟨t, turn, kept, less⟩
      · exact ⟨r, run_done last fuel, promised⟩
      · rw [run_again turn]
        exact ih kept (by omega)

theorem run_ends (measure : σ → Nat)
    (advances : ∀ s, ∃ e, body s = some e ∧ ∀ t, e = .again t → measure t < measure s) (s : σ) :
    ∃ r, run body (measure s + 1) s = some r := by
  have passes : ∀ s, True → (∃ r, body s = some (.done r) ∧ True) ∨
      ∃ t, body s = some (.again t) ∧ True ∧ measure t < measure s := by
    intro s _
    obtain ⟨e, pass, less⟩ := advances s
    cases e with
    | done r => exact Or.inl ⟨r, pass, trivial⟩
    | again t => exact Or.inr ⟨t, pass, trivial, less t rfl⟩
  obtain ⟨r, ended, -⟩ := run_of_progress _ _ measure passes trivial (Nat.lt_succ_self (measure s))
  exact ⟨r, ended⟩

end Run

section Follows

variable {σ τ : Type u} {ρ π : Type v}
variable {body : σ → Option (Pass σ ρ)} {body' : τ → Option (Pass τ π)}

def Pass.map (onState : σ → τ) (onResult : ρ → π) : Pass σ ρ → Pass τ π
  | .again s => .again (onState s)
  | .done r => .done (onResult r)

theorem run_map {onState : σ → τ} {onResult : ρ → π}
    (follows : ∀ s, body' (onState s) = (body s).map (Pass.map onState onResult))
    (fuel : Nat) (s : σ) : run body' fuel (onState s) = (run body fuel s).map onResult := by
  induction fuel generalizing s with
  | zero => rfl
  | succ fuel ih =>
      have turn := follows s
      cases found : body s with
      | none => simp [run, turn, found]
      | some pass =>
          rw [found] at turn
          cases pass with
          | done r => rw [run_done found, run_done turn, Option.map_some]
          | again t => rw [run_again found, run_again turn, ih]

end Follows

end RunServer.Theory.Endless
