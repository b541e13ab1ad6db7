/-
# Theory.Loop -- loops that consume a list and may break or fail

An endless loop that reads one item a turn (`while (1) { wait4(...); ... }`) is a
body `σ → α → Except ε (Turn σ)` driven down a list of items.  A turn either asks
for another one or leaves the loop; the body may also fail.  When the list runs
out first, the loop is still waiting for its next item.

* `drive` runs the body down a list;
* `visited` lists the states its turns leave, `passed` the items that asked for another;
* `Passes body s pre t`: every item of `pre` asked for another turn, from `s` to `t`;
* `drive_left_iff` / `drive_failed_iff`: a loop that left (or failed) passed some
  items and then left (or failed) at the next one;
* `Passes.invariant`: what one turn keeps, with the items read so far in view,
  every sequence of turns keeps;
* `drive_simulated`: a loop whose every turn another loop can follow, that loop follows
  to the end;
* `Extends f body body'`: the second loop does what the first does, and has turns of its
  own only where the first fails.
-/
import Mathlib.Data.List.Basic

namespace RunServer.Theory.Loop

set_option autoImplicit false

universe u v w

/-- How one turn ends: another turn, or a break. -/
inductive Turn (σ : Type u) where
  | again (s : σ)
  | leave (s : σ)
  deriving DecidableEq

/-- The state the turn leaves. -/
def Turn.state {σ : Type u} : Turn σ → σ
  | .again s => s
  | .leave s => s

/-- How a driven loop ends: it left at an item, it is waiting, or it failed. -/
inductive Outcome (σ : Type u) (α : Type v) (ε : Type w) where
  | left (s : σ) (last : α)
  | waiting (s : σ)
  | failed (e : ε)
  deriving DecidableEq

section Drive

variable {σ : Type u} {α : Type v} {ε : Type w} (body : σ → α → Except ε (Turn σ))

def drive : σ → List α → Outcome σ α ε
  | s, [] => .waiting s
  | s, a :: rest =>
      match body s a with
      | .error e => .failed e
      | .ok (.leave t) => .left t a
      | .ok (.again t) => drive t rest

/-- Every item of the list asked for another turn. -/
inductive Passes : σ → List α → σ → Prop where
  | nil (s : σ) : Passes s [] s
  | cons {s t u : σ} {a : α} {rest : List α} (turn : body s a = .ok (.again t))
      (tail : Passes t rest u) : Passes s (a :: rest) u

variable {body}

theorem Passes.append {s t u : σ} {pre post : List α} (first : Passes body s pre t)
    (second : Passes body t post u) : Passes body s (pre ++ post) u := by
  induction first with
  | nil s => exact second
  | cons turn _ ih => exact .cons turn (ih second)

theorem Passes.snoc {s t u : σ} {pre : List α} {a : α} (first : Passes body s pre t)
    (turn : body t a = .ok (.again u)) : Passes body s (pre ++ [a]) u :=
  first.append (.cons turn (.nil u))

theorem Passes.split {s u : σ} {pre post : List α} (all : Passes body s (pre ++ post) u) :
    ∃ t, Passes body s pre t ∧ Passes body t post u := by
  induction pre generalizing s with
  | nil => exact ⟨s, .nil s, all⟩
  | cons a pre ih =>
      cases all with
      | cons turn tail =>
          obtain ⟨t, first, second⟩ := ih tail
          exact ⟨t, .cons turn first, second⟩

/-- **Invariant rule.**  `I pre s` may speak of the items read so far. -/
theorem Passes.invariant {I : List α → σ → Prop} {s t : σ} {pre : List α}
    (run : Passes body s pre t) (start : I [] s)
    (kept : ∀ read m a m', Passes body s read m → I read m →
      body m a = .ok (.again m') → I (read ++ [a]) m') : I pre t := by
  suffices ∀ read m rest u, Passes body s read m → I read m → Passes body m rest u →
      I (read ++ rest) u by
    simpa using this [] s pre t (.nil s) start run
  intro read m rest u before held after
  induction after generalizing read with
  | nil => simpa using held
  | @cons m m' u a rest turn _ ih =>
      have next := ih (read ++ [a]) (before.snoc turn) (kept read m a m' before held turn)
      simpa using next

variable (body) in
/-- The state each turn leaves, in order. -/
def visited : σ → List α → List σ
  | _, [] => []
  | s, a :: rest =>
      match body s a with
      | .error _ => []
      | .ok (.leave t) => [t]
      | .ok (.again t) => t :: visited t rest

theorem visited_append {s t : σ} {pre : List α} (run : Passes body s pre t) (rest : List α) :
    visited body s (pre ++ rest) = visited body s pre ++ visited body t rest := by
  induction run with
  | nil => rfl
  | cons turn _ ih => simpa [visited, turn] using ih

variable (body) in
/-- The items that asked for another turn. -/
def passed : σ → List α → List α
  | _, [] => []
  | s, a :: rest =>
      match body s a with
      | .ok (.again t) => a :: passed t rest
      | _ => []

theorem passed_append {s t : σ} {pre : List α} (run : Passes body s pre t) (rest : List α) :
    passed body s (pre ++ rest) = pre ++ passed body t rest := by
  induction run with
  | nil => rfl
  | cons turn _ ih => simpa [passed, turn] using ih

theorem drive_append {s t : σ} {pre : List α} (run : Passes body s pre t) (rest : List α) :
    drive body s (pre ++ rest) = drive body t rest := by
  induction run with
  | nil => rfl
  | cons turn _ ih => simpa [drive, turn] using ih

variable (body) in
/-- A driven loop has passed some items before whatever ends it. -/
theorem drive_cases (s : σ) (items : List α) :
    (∃ t, Passes body s items t ∧ drive body s items = .waiting t) ∨
      ∃ pre a post t, items = pre ++ a :: post ∧ Passes body s pre t ∧
        ((∃ e, body t a = .error e ∧ drive body s items = .failed e) ∨
          ∃ u, body t a = .ok (.leave u) ∧ drive body s items = .left u a) := by
  induction items generalizing s with
  | nil => exact Or.inl ⟨s, .nil s, rfl⟩
  | cons a rest ih =>
      cases found : body s a with
      | error e =>
          exact Or.inr ⟨[], a, rest, s, rfl, .nil s, Or.inl ⟨e, found, by simp [drive, found]⟩⟩
      | ok turn =>
          cases turn with
          | leave u =>
              exact Or.inr ⟨[], a, rest, s, rfl, .nil s, Or.inr ⟨u, found, by simp [drive, found]⟩⟩
          | again t =>
              have unfolds : drive body s (a :: rest) = drive body t rest := by simp [drive, found]
              rw [unfolds]
              rcases ih t with ⟨u, run, waits⟩ | ⟨pre, b, post, u, split, run, ended⟩
              · exact Or.inl ⟨u, .cons found run, waits⟩
              · exact Or.inr ⟨a :: pre, b, post, u, by rw [split]; rfl, .cons found run, ended⟩

theorem passes_of_waiting {s t : σ} {items : List α} (waits : drive body s items = .waiting t) :
    Passes body s items t := by
  rcases drive_cases body s items with
    ⟨u, run, waits'⟩ | ⟨_, _, _, _, -, -, ⟨_, -, ended⟩ | ⟨_, -, ended⟩⟩
  · rw [waits] at waits'
    cases waits'
    exact run
  · rw [waits] at ended; cases ended
  · rw [waits] at ended; cases ended

theorem drive_left_iff {s u : σ} {items : List α} {a : α} :
    drive body s items = .left u a ↔
      ∃ pre post t, items = pre ++ a :: post ∧ Passes body s pre t ∧
        body t a = .ok (.leave u) := by
  constructor
  · intro left
    rcases drive_cases body s items with ⟨t, -, waits⟩ | ⟨pre, b, post, t, split, run, ended⟩
    · rw [left] at waits; cases waits
    · rcases ended with ⟨e, -, fails⟩ | ⟨u', leaves, left'⟩
      · rw [left] at fails; cases fails
      · rw [left] at left'
        cases left'
        exact ⟨pre, post, t, split, run, leaves⟩
  · rintro ⟨pre, post, t, rfl, run, leaves⟩
    rw [drive_append run]
    simp [drive, leaves]

theorem drive_failed_iff {s : σ} {items : List α} {e : ε} :
    drive body s items = .failed e ↔
      ∃ pre a post t, items = pre ++ a :: post ∧ Passes body s pre t ∧ body t a = .error e := by
  constructor
  · intro failed
    rcases drive_cases body s items with ⟨t, -, waits⟩ | ⟨pre, b, post, t, split, run, ended⟩
    · rw [failed] at waits; cases waits
    · rcases ended with ⟨e', fails, failed'⟩ | ⟨u', -, left'⟩
      · rw [failed] at failed'
        cases failed'
        exact ⟨pre, b, post, t, split, run, fails⟩
      · rw [failed] at left'; cases left'
  · rintro ⟨pre, a, post, t, rfl, run, fails⟩
    rw [drive_append run]
    simp [drive, fails]

end Drive

section Mapped

variable {σ : Type u} {α β : Type v} {ε : Type w}

/-- The same end, at the item `f` makes of the last one. -/
def Outcome.map (f : α → β) : Outcome σ α ε → Outcome σ β ε
  | .left s last => .left s (f last)
  | .waiting s => .waiting s
  | .failed e => .failed e

theorem drive_map {body : σ → α → Except ε (Turn σ)} {body' : σ → β → Except ε (Turn σ)}
    {f : α → β} (same : ∀ s a, body' s (f a) = body s a) (s : σ) (items : List α) :
    drive body' s (items.map f) = (drive body s items).map f := by
  induction items generalizing s with
  | nil => rfl
  | cons a rest ih =>
      simp only [List.map_cons, drive, same]
      cases body s a with
      | error e => rfl
      | ok turn =>
          cases turn with
          | leave t => rfl
          | again t => exact ih t

end Mapped

section Related

variable {σ τ : Type u} {α β : Type v} {ε : Type w}
variable {body : σ → α → Except ε (Turn σ)} {body' : τ → β → Except ε (Turn τ)}

/-- Two turns that end the same way, in related states. -/
inductive TurnRelated (R : σ → τ → Prop) : Except ε (Turn σ) → Except ε (Turn τ) → Prop where
  | again {s : σ} {t : τ} (related : R s t) : TurnRelated R (.ok (.again s)) (.ok (.again t))
  | leave {s : σ} {t : τ} (related : R s t) : TurnRelated R (.ok (.leave s)) (.ok (.leave t))
  | error (e : ε) : TurnRelated R (.error e) (.error e)

theorem TurnRelated.ite {R : σ → τ → Prop} {c : Prop} [Decidable c]
    {first second : Except ε (Turn σ)} {first' second' : Except ε (Turn τ)}
    (yes : TurnRelated R first first') (no : TurnRelated R second second') :
    TurnRelated R (if c then first else second) (if c then first' else second') := by
  split
  · exact yes
  · exact no

/-- Two outcomes of one kind, in related states and at paired items. -/
inductive OutcomeRelated (R : σ → τ → Prop) (P : α → β → Prop) :
    Outcome σ α ε → Outcome τ β ε → Prop where
  | left {s : σ} {t : τ} {a : α} {b : β} (related : R s t) (paired : P a b) :
      OutcomeRelated R P (.left s a) (.left t b)
  | waiting {s : σ} {t : τ} (related : R s t) : OutcomeRelated R P (.waiting s) (.waiting t)
  | failed (e : ε) : OutcomeRelated R P (.failed e) (.failed e)

/-- **Simulation rule.**  Where every turn of the one loop can be followed by the
other at some paired item, a whole loop can be followed at some paired items. -/
theorem drive_simulated {R : σ → τ → Prop} {P : α → β → Prop}
    (turns : ∀ s t a, R s t → ∃ b, P a b ∧ TurnRelated R (body s a) (body' t b))
    {s : σ} {t : τ} (related : R s t) (items : List α) :
    ∃ items', List.Forall₂ P items items' ∧
      OutcomeRelated R P (drive body s items) (drive body' t items') := by
  induction items generalizing s t with
  | nil => exact ⟨[], .nil, .waiting related⟩
  | cons a rest ih =>
      obtain ⟨b, pair, turn⟩ := turns s t a related
      -- past a turn that ends the loop, the items only have to be paired
      have paired : ∃ rest', List.Forall₂ P rest rest' := (ih related).imp fun _ => And.left
      simp only [drive]
      generalize body s a = first at turn ⊢
      generalize found : body' t b = second at turn
      cases turn with
      | again next =>
          obtain ⟨rest', pairs, outcome⟩ := ih next
          exact ⟨b :: rest', .cons pair pairs, by simpa [drive, found] using outcome⟩
      | leave next =>
          obtain ⟨rest', pairs⟩ := paired
          exact ⟨b :: rest', .cons pair pairs, by simpa [drive, found] using .left next pair⟩
      | error e =>
          obtain ⟨rest', pairs⟩ := paired
          exact ⟨b :: rest', .cons pair pairs, by simpa [drive, found] using .failed e⟩

end Related

section Extended

variable {σ τ : Type u} {α : Type v} {ε ε' : Type w}

/-- Seen through `f`, every turn of the one loop that does not fail is one of the other. -/
structure Extends (f : σ → τ) (body : σ → α → Except ε (Turn σ))
    (body' : τ → α → Except ε' (Turn τ)) : Prop where
  again : ∀ s a t, body s a = .ok (.again t) → body' (f s) a = .ok (.again (f t))
  leave : ∀ s a t, body s a = .ok (.leave t) → body' (f s) a = .ok (.leave (f t))

namespace Extends

variable {f : σ → τ} {body : σ → α → Except ε (Turn σ)} {body' : τ → α → Except ε' (Turn τ)}

theorem passes (extends_ : Extends f body body') {s t : σ} {pre : List α}
    (run : Passes body s pre t) : Passes body' (f s) pre (f t) := by
  induction run with
  | nil s => exact .nil (f s)
  | cons turn _ ih => exact .cons (extends_.again _ _ _ turn) ih

theorem drive_left (extends_ : Extends f body body') {s t : σ} {items : List α} {a : α}
    (left : drive body s items = .left t a) : drive body' (f s) items = .left (f t) a := by
  obtain ⟨pre, post, u, split, run, leaves⟩ := drive_left_iff.1 left
  exact drive_left_iff.2
    ⟨pre, post, f u, split, extends_.passes run, extends_.leave _ _ _ leaves⟩

theorem drive_waiting (extends_ : Extends f body body') {s t : σ} {items : List α}
    (waits : drive body s items = .waiting t) : drive body' (f s) items = .waiting (f t) := by
  have run := extends_.passes (passes_of_waiting waits)
  have all := drive_append run []
  rwa [List.append_nil] at all

/-- It shows what the other shows, and more only where the other fails. -/
theorem visited_eq (extends_ : Extends f body body') (s : σ) (items : List α) :
    ∃ rest, visited body' (f s) items = (visited body s items).map f ++ rest ∧
      (rest ≠ [] → ∃ e, drive body s items = .failed e) := by
  induction items generalizing s with
  | nil => exact ⟨[], rfl, fun more => absurd rfl more⟩
  | cons a items ih =>
      cases found : body s a with
      | error e =>
          refine ⟨visited body' (f s) (a :: items), ?_, fun _ => ⟨e, ?_⟩⟩
          · simp [visited, found]
          · simp [drive, found]
      | ok turn =>
          cases turn with
          | leave t =>
              refine ⟨[], ?_, fun more => absurd rfl more⟩
              simp [visited, found, extends_.leave _ _ _ found]
          | again t =>
              obtain ⟨rest, shown, fails⟩ := ih t
              refine ⟨rest, ?_, ?_⟩
              · simp [visited, found, extends_.again _ _ _ found, shown]
              · simpa [drive, found] using fails

end Extends

end Extended

end RunServer.Theory.Loop
