/-
# Dispatch.Queue -- the waiting queue between the handlers and `JudgeForever`

Every HTTP request runs `Handler` in its own goroutine: it decodes an `Info` and
adds it to the back of `waittingQueue`.  One goroutine runs `JudgeForever`: it asks
whether the queue is empty, and if not, removes the front and starts `Judge` on it.
The question and the removal take the mutex separately, and any number of
submissions may be added between them.

`Held` ties the program point of `JudgeForever` to the queue: what was enqueued is
what was judged, then the one it has in hand, then the queue; and between the two
critical sections the queue is not empty, since nobody else removes.
-/
import Mathlib.Data.List.Basic
import RunServer.Theory.Interleave

namespace RunServer.Dispatch

open RunServer.Theory.Interleave

set_option autoImplicit false

/-- What a request carries. -/
structure Info where
  sid : Int
  pid : Int
  oj : String
  rejudge : Bool
  deriving DecidableEq, Repr

namespace Queue

/-! ## The goroutines -/

/-- Where `JudgeForever` is. -/
inductive Point where
  | testing
  | removing
  /-- The front has been removed, and `go Judge(*info)` comes next. -/
  | starting (info : Info)
  | sleeping
  /-- `Front()` was nil. -/
  | panicked
  deriving DecidableEq, Repr

structure Dispatcher where
  /-- What running calls of `Handler` have decoded and not yet added. -/
  loaded : List Info
  waittingQueue : List Info
  forever : Point
  deriving DecidableEq, Repr

inductive Action where
  /-- A request arrives, and its body decodes or does not. -/
  | loadJson (decoded : Option Info)
  | addQueue (info : Info)
  | isEmpty
  | getFrontAndRemove
  | judge (info : Info)
  | wake
  deriving DecidableEq, Repr

def start : Dispatcher := { loaded := [], waittingQueue := [], forever := .testing }

def step (s : Dispatcher) : Action → Option Dispatcher
  | .loadJson none => some s
  | .loadJson (some info) => some { s with loaded := info :: s.loaded }
  | .addQueue info =>
      if info ∈ s.loaded then
        some
          { s with
            loaded := s.loaded.erase info
            waittingQueue := s.waittingQueue ++ [info] }
      else none
  | .isEmpty =>
      if s.forever = .testing then
        some { s with forever := if s.waittingQueue.length = 0 then .sleeping else .removing }
      else none
  | .getFrontAndRemove =>
      if s.forever = .removing then
        match s.waittingQueue with
        | [] => some { s with forever := .panicked }
        | info :: rest => some { s with waittingQueue := rest, forever := .starting info }
      else none
  | .judge info =>
      if s.forever = .starting info then some { s with forever := .sleeping } else none
  | .wake => if s.forever = .sleeping then some { s with forever := .testing } else none

/-! ## What a run has enqueued and judged -/

def Action.added : Action → Option Info
  | .addQueue info => some info
  | _ => none

def Action.started : Action → Option Info
  | .judge info => some info
  | _ => none

def enqueued (h : List Action) : List Info := h.filterMap Action.added

def judged (h : List Action) : List Info := h.filterMap Action.started

def Point.inHand : Point → List Info
  | .starting info => [info]
  | _ => []

/-- What every interleaving keeps. -/
structure Held (h : List Action) (s : Dispatcher) : Prop where
  order : enqueued h = judged h ++ s.forever.inHand ++ s.waittingQueue
  nonempty : s.forever = .removing → s.waittingQueue ≠ []
  alive : s.forever ≠ .panicked

theorem enqueued_snoc (h : List Action) (a : Action) :
    enqueued (h ++ [a]) = enqueued h ++ a.added.toList := by
  cases a <;> simp [enqueued, Action.added]

theorem judged_snoc (h : List Action) (a : Action) :
    judged (h ++ [a]) = judged h ++ a.started.toList := by
  cases a <;> simp [judged, Action.started]

theorem held_start : Held [] start := ⟨rfl, nofun, nofun⟩

theorem Held.next {h : List Action} {s t : Dispatcher} {a : Action} (held : Held h s)
    (taken : step s a = some t) : Held (h ++ [a]) t := by
  have order := held.order
  cases a with
  | loadJson decoded =>
      have same : t.waittingQueue = s.waittingQueue ∧ t.forever = s.forever := by
        cases decoded <;> cases taken <;> exact ⟨rfl, rfl⟩
      refine ⟨?_, ?_, ?_⟩
      · simpa [enqueued_snoc, judged_snoc, Action.added, Action.started, same] using order
      · simpa [same] using held.nonempty
      · simpa [same] using held.alive
  | addQueue info =>
      simp only [step] at taken
      split at taken
      · cases taken
        refine ⟨?_, fun _ => by simp, held.alive⟩
        simp [enqueued_snoc, judged_snoc, Action.added, Action.started, order]
      · cases taken
  | isEmpty =>
      simp only [step] at taken
      split at taken
      · rename_i testing
        cases taken
        rw [testing] at order
        by_cases empty : s.waittingQueue.length = 0
        · refine ⟨?_, ?_, ?_⟩
          · simpa [enqueued_snoc, judged_snoc, Action.added, Action.started, Point.inHand, empty]
              using order
          · simp [empty]
          · simp [empty]
        · -- the answer says so, and only this goroutine removes
          refine ⟨?_, fun _ none_ => empty (List.length_eq_zero_iff.2 none_), by simp [empty]⟩
          simpa [enqueued_snoc, judged_snoc, Action.added, Action.started, Point.inHand, empty]
            using order
      · cases taken
  | getFrontAndRemove =>
      simp only [step] at taken
      split at taken
      · rename_i removing
        split at taken
        · rename_i empty
          exact absurd empty (held.nonempty removing)
        · rename_i info rest front
          cases taken
          rw [removing, front] at order
          refine ⟨?_, nofun, nofun⟩
          simpa [enqueued_snoc, judged_snoc, Action.added, Action.started, Point.inHand]
            using order
      · cases taken
  | judge info =>
      simp only [step] at taken
      split at taken
      · rename_i starting
        cases taken
        rw [starting] at order
        refine ⟨?_, nofun, nofun⟩
        simpa [enqueued_snoc, judged_snoc, Action.added, Action.started, Point.inHand] using order
      · cases taken
  | wake =>
      simp only [step] at taken
      split at taken
      · rename_i sleeping
        cases taken
        rw [sleeping] at order
        refine ⟨?_, nofun, nofun⟩
        simpa [enqueued_snoc, judged_snoc, Action.added, Action.started, Point.inHand] using order
      · cases taken

/-- **Exactly once, in order, never on empty**, in every interleaving. -/
theorem judged_in_order {h : List Action} {s : Dispatcher} (run : Run step Free start h s) :
    judged h <+: enqueued h ∧
      enqueued h = judged h ++ s.forever.inHand ++ s.waittingQueue ∧
      (s.forever = .removing → s.waittingQueue ≠ []) ∧ s.forever ≠ .panicked := by
  have held : Held h s := run.invariant held_start fun _ _ _ _ _ held _ taken => held.next taken
  refine ⟨?_, held.order, held.nonempty, held.alive⟩
  rw [held.order, List.append_assoc]
  exact List.prefix_append _ _

namespace Sample

def first : Info := ⟨1, 1000, "", false⟩
def second : Info := ⟨2, 1000, "ZJGSU", false⟩

/-- The second submission arrives between the question and the removal. -/
def arrivals : List Action :=
  [.loadJson (some first), .addQueue first, .isEmpty, .loadJson (some second), .addQueue second,
    .getFrontAndRemove, .judge first, .wake]

end Sample

theorem judged_in_order_sample :
    judged Sample.arrivals <+: enqueued Sample.arrivals ∧
      enqueued Sample.arrivals = judged Sample.arrivals ++ [Sample.second] := by
  have run : Run step Free start Sample.arrivals ⟨[], [Sample.second], .testing⟩ :=
    Run.of_follow (by decide)
  obtain ⟨inOrder, order, -⟩ := judged_in_order run
  exact ⟨inOrder, order⟩

end Queue

end RunServer.Dispatch
