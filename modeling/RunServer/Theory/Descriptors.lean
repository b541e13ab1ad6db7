/-
# Theory.Descriptors -- what reaches one of the files a family of processes shares

A process writes through its descriptors; a descriptor stands for a file, or for
nothing.  A forked child has a copy of its parent's table, and what either does to
its own table the other does not see.  `received file d calls` is the text that the
calls of a process that starts with table `d`, and of the children it forks, write to
`file`, each child's before what its parent does next.

* `received_of_absent`: a process with no descriptor for the file writes to it only what
  it and its children write where they have opened it anew (`reopened`);
* `Puts file fd text calls`: with `fd` the only descriptor for the file, these calls write
  this text to it and leave it at that; such calls compose (`Puts.append`), quiet ones
  (`Quiet`) among them.
-/
import Mathlib.Data.List.Basic
import Mathlib.Logic.Function.Basic

namespace RunServer.Theory.Descriptors

set_option autoImplicit false

variable {τ : Type}

abbrev Table (τ : Type) := Nat → Option τ

inductive Call (τ : Type) where
  /-- The descriptor now stands for this file, or is closed. -/
  | point (fd : Nat) (file : Option τ)
  | dup (old new : Nat)
  | write (fd : Nat) (text : List Char)
  | fork (child : List (Call τ))

/-- The table of a process after its own calls. -/
def after (d : Table τ) : List (Call τ) → Table τ
  | [] => d
  | .point fd file :: rest => after (Function.update d fd file) rest
  | .dup old new :: rest => after (Function.update d new (d old)) rest
  | .write _ _ :: rest => after d rest
  | .fork _ :: rest => after d rest

def received [DecidableEq τ] (file : τ) (d : Table τ) : List (Call τ) → List Char
  | [] => []
  | .point fd target :: rest => received file (Function.update d fd target) rest
  | .dup old new :: rest => received file (Function.update d new (d old)) rest
  | .write fd text :: rest => (if d fd = some file then text else []) ++ received file d rest
  | .fork child :: rest => received file d child ++ received file d rest

theorem received_append [DecidableEq τ] (file : τ) (d : Table τ) (first second : List (Call τ)) :
    received file d (first ++ second) =
      received file d first ++ received file (after d first) second := by
  induction first generalizing d with
  | nil => simp [received, after]
  | cons call rest ih =>
      cases call with
      | point fd target => simp [received, after, ih]
      | dup old new => simp [received, after, ih]
      | write fd text => simp [received, after, ih]
      | fork child => simp [received, after, ih]

theorem after_append (d : Table τ) (first second : List (Call τ)) :
    after d (first ++ second) = after (after d first) second := by
  induction first generalizing d with
  | nil => rfl
  | cons call rest ih =>
      cases call with
      | point fd target => exact ih _
      | dup old new => exact ih _
      | write fd text => exact ih d
      | fork child => exact ih d

/-! ## No descriptor for the file -/

/-- No descriptor stands for the file. -/
def Absent (file : τ) (d : Table τ) : Prop := ∀ fd, d fd ≠ some file

theorem Absent.update {file : τ} {d : Table τ} (absent : Absent file d) (fd : Nat)
    {target : Option τ} (other : target ≠ some file) :
    Absent file (Function.update d fd target) := by
  intro fd'
  by_cases same : fd' = fd
  · subst same
    simpa using other
  · rw [Function.update_of_ne same]
    exact absent fd'

/-- Only the descriptors that stand for the file matter. -/
theorem received_congr [DecidableEq τ] {file : τ} {d d' : Table τ} (calls : List (Call τ))
    (same : ∀ fd, d fd = some file ↔ d' fd = some file) :
    received file d calls = received file d' calls := by
  have updated {fd : Nat} {target target' : Option τ}
      (alike : target = some file ↔ target' = some file) (fd' : Nat) :
      Function.update d fd target fd' = some file ↔
        Function.update d' fd target' fd' = some file := by
    by_cases here : fd' = fd
    · subst here
      simpa using alike
    · rw [Function.update_of_ne here, Function.update_of_ne here]
      exact same fd'
  match calls with
  | [] => simp [received]
  | .point fd target :: rest =>
      simp only [received]
      exact received_congr rest (updated Iff.rfl)
  | .dup old new :: rest =>
      simp only [received]
      exact received_congr rest (updated (same old))
  | .write fd text :: rest =>
      simp only [received, same fd]
      rw [received_congr rest same]
  | .fork child :: rest =>
      simp only [received]
      rw [received_congr child same, received_congr rest same]

/-- What reaches the file through descriptors that the process, or one of its children,
has opened it at anew. -/
def reopened [DecidableEq τ] (file : τ) (calls : List (Call τ)) : List Char :=
  received file (fun _ => none) calls

/-- **A process without the file** writes to it only what it writes where it has opened it
anew. -/
theorem received_of_absent [DecidableEq τ] {file : τ} {d : Table τ} (absent : Absent file d)
    (calls : List (Call τ)) : received file d calls = reopened file calls := by
  refine received_congr calls fun fd => ?_
  simp [absent fd]

/-- The calls never open the file anew. -/
inductive NeverOpens (file : τ) : List (Call τ) → Prop
  | nil : NeverOpens file []
  | point {fd : Nat} {target : Option τ} {rest : List (Call τ)} :
      target ≠ some file → NeverOpens file rest → NeverOpens file (.point fd target :: rest)
  | dup {old new : Nat} {rest : List (Call τ)} :
      NeverOpens file rest → NeverOpens file (.dup old new :: rest)
  | write {fd : Nat} {text : List Char} {rest : List (Call τ)} :
      NeverOpens file rest → NeverOpens file (.write fd text :: rest)
  | fork {child rest : List (Call τ)} :
      NeverOpens file child → NeverOpens file rest → NeverOpens file (.fork child :: rest)

theorem NeverOpens.reopened_eq [DecidableEq τ] {file : τ} {calls : List (Call τ)}
    (never : NeverOpens file calls) : reopened file calls = [] := by
  suffices ∀ d, Absent file d → received file d calls = [] by
    exact this _ fun fd => by simp
  induction never with
  | nil => simp [received]
  | point other _ ih =>
      intro d absent
      simpa [received] using ih _ (absent.update _ other)
  | dup _ ih =>
      intro d absent
      simpa [received] using ih _ (absent.update _ (absent _))
  | write _ ih =>
      intro d absent
      simpa [received, absent _] using ih d absent
  | fork _ _ ihChild ih =>
      intro d absent
      simp [received, ihChild d absent, ih d absent]

/-! ## One descriptor for the file -/

/-- Exactly `fd` stands for the file. -/
def Only (file : τ) (fd : Nat) (d : Table τ) : Prop := ∀ fd', d fd' = some file ↔ fd' = fd

theorem Only.update {file : τ} {fd other : Nat} {d : Table τ} (only : Only file fd d)
    (differ : other ≠ fd) {target : Option τ} (elsewhere : target ≠ some file) :
    Only file fd (Function.update d other target) := by
  intro fd'
  by_cases same : fd' = other
  · subst same
    simp [elsewhere, differ]
  · rw [Function.update_of_ne same]
    exact only fd'

/-- Closing the one descriptor, or pointing it elsewhere, leaves none. -/
theorem Only.absent {file : τ} {fd : Nat} {d : Table τ} (only : Only file fd d)
    {target : Option τ} (elsewhere : target ≠ some file) :
    Absent file (Function.update d fd target) := by
  intro fd' here
  by_cases same : fd' = fd
  · subst same
    exact elsewhere (by simpa using here)
  · rw [Function.update_of_ne same] at here
    exact same ((only fd').1 here)

/-- With `fd` the only descriptor for the file, these calls write this text to it, and it
stays the only one. -/
def Puts [DecidableEq τ] (file : τ) (fd : Nat) (text : List Char) (calls : List (Call τ)) : Prop :=
  ∀ d, Only file fd d → received file d calls = text ∧ Only file fd (after d calls)

/-- Nothing is written to the file. -/
abbrev Quiet [DecidableEq τ] (file : τ) (fd : Nat) (calls : List (Call τ)) : Prop :=
  Puts file fd [] calls

section Puts

variable [DecidableEq τ] {file : τ} {fd : Nat}

theorem quiet_nil : Quiet file fd [] := by
  intro d only
  simpa [received, after] using only

theorem Puts.append {text text' : List Char} {first second : List (Call τ)}
    (puts : Puts file fd text first) (puts' : Puts file fd text' second) :
    Puts file fd (text ++ text') (first ++ second) := by
  intro d only
  obtain ⟨wrote, still⟩ := puts d only
  obtain ⟨wrote', still'⟩ := puts' _ still
  rw [received_append, after_append, wrote, wrote']
  exact ⟨rfl, still'⟩

theorem Quiet.append {first second : List (Call τ)} (quiet : Quiet file fd first)
    (quiet' : Quiet file fd second) : Quiet file fd (first ++ second) :=
  Puts.append quiet quiet'

theorem quiet_point {other : Nat} {target : Option τ} (differ : other ≠ fd)
    (elsewhere : target ≠ some file) : Quiet file fd [.point other target] := by
  intro d only
  simpa [received, after] using only.update differ elsewhere

theorem quiet_write {other : Nat} {text : List Char} (differ : other ≠ fd) :
    Quiet file fd [.write other text] := by
  intro d only
  have missing : d other ≠ some file := fun here => differ ((only other).1 here)
  simpa [received, after, missing] using only

theorem puts_write (text : List Char) : Puts file fd text [.write fd text] := by
  intro d only
  have here : d fd = some file := (only fd).2 rfl
  simpa [received, after, here] using only

theorem puts_fork {text : List Char} {child : List (Call τ)}
    (puts : ∀ d, Only file fd d → received file d child = text) :
    Puts file fd text [.fork child] := by
  intro d only
  simpa [received, after, puts d only] using only

/-- Calls made for each item of a list, in turn. -/
inductive InTurn {α : Type} (R : α → List (Call τ) → Prop) : List α → List (Call τ) → Prop
  | nil : InTurn R [] []
  | cons {a : α} {rest : List α} {calls later : List (Call τ)} :
      R a calls → InTurn R rest later → InTurn R (a :: rest) (calls ++ later)

theorem InTurn.quiet {α : Type} {R : α → List (Call τ) → Prop} {items : List α}
    {calls : List (Call τ)} (inTurn : InTurn R items calls)
    (each : ∀ a calls, R a calls → Quiet file fd calls) : Quiet file fd calls := by
  induction inTurn with
  | nil => exact quiet_nil
  | cons made _ ih => exact (each _ _ made).append ih

omit [DecidableEq τ] in
theorem exists_inTurn {α : Type} {R : α → List (Call τ) → Prop}
    (each : ∀ a, ∃ calls, R a calls) (items : List α) : ∃ calls, InTurn R items calls := by
  induction items with
  | nil => exact ⟨[], .nil⟩
  | cons a rest ih =>
      obtain ⟨calls, made⟩ := each a
      obtain ⟨later, inTurn⟩ := ih
      exact ⟨calls ++ later, .cons made inTurn⟩

end Puts

end RunServer.Theory.Descriptors
