/-
# Theory.Aggregate -- a derived value that many parties bring up to date

Parties write to a shared store.  After its writes, each party brings a stored copy
of a value derived from the store up to date: it reads the value in two parts and
publishes what it holds.  Anything may happen between these steps, so a write of
another party can overtake what a party holds (`overtaken`), and publishing it then
would undo that party's work.

`UpToDate` is what a run keeps: a party that has not been overtaken holds the current
value, and while the stored copy is out of date some such party is still at work.
There is one lemma for each kind of step; only `publish` asks for anything, and what
it asks for is a condition on the order of the steps.
-/
import Mathlib.Logic.Function.Basic

namespace RunServer.Theory.Aggregate

set_option autoImplicit false

universe u v w x

/-! ## Overtaken by a write -/

section Overtaken

variable {α : Type u} {reads writes : α → Bool}

/-- There is a write after the first read. -/
def overtaken (reads writes : α → Bool) (h : List α) : Bool :=
  (h.dropWhile fun a => !reads a).any writes

theorem overtaken_of_unread {h : List α} (unread : h.any reads = false) :
    overtaken reads writes h = false := by
  induction h with
  | nil => rfl
  | cons a h ih =>
      simp only [List.any_cons, Bool.or_eq_false_iff] at unread
      simpa [overtaken, unread.1] using ih unread.2

/-- The last action overtakes when it writes, and a read has come before. -/
theorem overtaken_snoc (h : List α) {a : α} (apart : reads a = true → writes a = false) :
    overtaken reads writes (h ++ [a]) =
      (overtaken reads writes h || (h.any reads && writes a)) := by
  induction h with
  | nil =>
      cases read : reads a with
      | false => simp [overtaken, read]
      | true => simp [overtaken, read, apart read]
  | cons b h ih =>
      cases read : reads b with
      | false => simpa [overtaken, read] using ih
      | true => simp [overtaken, read, Bool.or_assoc]

theorem overtaken_snoc_of_quiet (h : List α) {a : α} (quiet : writes a = false) :
    overtaken reads writes (h ++ [a]) = overtaken reads writes h := by
  rw [overtaken_snoc h fun _ => quiet, quiet, Bool.and_false, Bool.or_false]

end Overtaken

/-! ## The parties -/

/-- How far a party is, and what it holds. -/
inductive Phase (β : Type w) (γ : Type x) where
  | writing
  | half (b : β)
  | full (b : β) (c : γ)
  | done
  deriving DecidableEq

structure UpToDate {ι : Type u} {α : Type v} {β : Type w} {γ : Type x} (reads : ι → α → Bool)
    (writes : α → Bool) (h : List α) (phase : ι → Phase β γ) (value stored : β × γ) : Prop where
  writing : ∀ i, phase i = .writing → h.any (reads i) = false
  half : ∀ i b, phase i = .half b → h.any (reads i) = true ∧
    (overtaken (reads i) writes h = false → b = value.1)
  full : ∀ i b c, phase i = .full b c → h.any (reads i) = true ∧
    (overtaken (reads i) writes h = false → (b, c) = value)
  stored : (∃ i, phase i ≠ .done ∧ overtaken (reads i) writes h = false) ∨ stored = value

namespace UpToDate

variable {ι : Type u} {α : Type v} {β : Type w} {γ : Type x}
variable {reads : ι → α → Bool} {writes : α → Bool} {h : List α} {a : α}
variable {phase : ι → Phase β γ} {value stored : β × γ}

theorem start {i : ι} (member : phase i = .writing)
    (all : ∀ j, phase j = .writing ∨ phase j = .done) :
    UpToDate reads writes [] phase value stored where
  writing := fun _ _ => rfl
  half := fun j b at_ => by rcases all j with is | is <;> rw [is] at at_ <;> cases at_
  full := fun j b c at_ => by rcases all j with is | is <;> rw [is] at at_ <;> cases at_
  stored := Or.inl ⟨i, by simp [member], rfl⟩

/-- **The end**: when no party is at work, the stored copy is the value. -/
theorem finish (upToDate : UpToDate reads writes h phase value stored)
    (finished : ∀ i, phase i = .done) : stored = value := by
  rcases upToDate.stored with ⟨i, working, -⟩ | fresh
  · exact absurd (finished i) working
  · exact fresh

theorem any_snoc_of_unread {i : ι} (unread : reads i a = false) :
    (h ++ [a]).any (reads i) = h.any (reads i) := by simp [unread]

/-- A step that neither writes nor reads for a party at work. -/
theorem idle (upToDate : UpToDate reads writes h phase value stored) (quiet : writes a = false)
    (absent : ∀ i, reads i a = true → phase i = .done) :
    UpToDate reads writes (h ++ [a]) phase value stored := by
  have unread (i : ι) (working : phase i ≠ .done) : reads i a = false :=
    Bool.eq_false_iff.2 fun read => working (absent i read)
  refine ⟨fun i at_ => ?_, fun i b at_ => ?_, fun i b c at_ => ?_, ?_⟩
  · rw [any_snoc_of_unread (unread i (by simp [at_]))]
    exact upToDate.writing i at_
  · rw [any_snoc_of_unread (unread i (by simp [at_])), overtaken_snoc_of_quiet h quiet]
    exact upToDate.half i b at_
  · rw [any_snoc_of_unread (unread i (by simp [at_])), overtaken_snoc_of_quiet h quiet]
    exact upToDate.full i b c at_
  · refine upToDate.stored.imp_left fun ⟨i, working, current⟩ => ⟨i, working, ?_⟩
    rwa [overtaken_snoc_of_quiet h quiet]

/-- A write may change the value in any way.  It overtakes every party that holds a
part of the old one; the writer itself has still to read. -/
theorem write (upToDate : UpToDate reads writes h phase value stored) {i : ι}
    (writer : phase i = .writing) (writes_ : writes a = true) (unread : ∀ j, reads j a = false)
    (value' : β × γ) : UpToDate reads writes (h ++ [a]) phase value' stored := by
  have snoc (j : ι) : overtaken (reads j) writes (h ++ [a]) =
      (overtaken (reads j) writes h || h.any (reads j)) := by
    rw [overtaken_snoc h fun read => absurd read (by simp [unread j]), writes_, Bool.and_true]
  refine ⟨fun j at_ => ?_, fun j b at_ => ?_, fun j b c at_ => ?_, Or.inl ⟨i, ?_, ?_⟩⟩
  · rw [any_snoc_of_unread (unread j)]
    exact upToDate.writing j at_
  · have read := (upToDate.half j b at_).1
    rw [any_snoc_of_unread (unread j), snoc, read, Bool.or_true]
    exact ⟨rfl, fun current => by cases current⟩
  · have read := (upToDate.full j b c at_).1
    rw [any_snoc_of_unread (unread j), snoc, read, Bool.or_true]
    exact ⟨rfl, fun current => by cases current⟩
  · simp [writer]
  · have before := upToDate.writing i writer
    rw [snoc, before, overtaken_of_unread before]
    rfl

section Own

variable [DecidableEq ι]

/-- A step of one party, past its writes, is all that the others do not see. -/
theorem move (upToDate : UpToDate reads writes h phase value stored) {i : ι} {p : Phase β γ}
    {stored' : β × γ} (quiet : writes a = false) (unread : ∀ j, j ≠ i → reads j a = false)
    (read : (h ++ [a]).any (reads i) = true) (past : p ≠ .writing)
    (half : ∀ b, p = .half b → overtaken (reads i) writes h = false → b = value.1)
    (full : ∀ b c, p = .full b c → overtaken (reads i) writes h = false → (b, c) = value)
    (working : (∃ j, Function.update phase i p j ≠ .done ∧
      overtaken (reads j) writes h = false) ∨ stored' = value) :
    UpToDate reads writes (h ++ [a]) (Function.update phase i p) value stored' := by
  refine ⟨fun j at_ => ?_, fun j b at_ => ?_, fun j b c at_ => ?_, ?_⟩
  · rcases eq_or_ne j i with rfl | other
    · exact absurd (by simpa using at_) past
    · rw [Function.update_of_ne other] at at_
      rw [any_snoc_of_unread (unread j other)]
      exact upToDate.writing j at_
  · rw [overtaken_snoc_of_quiet h quiet]
    rcases eq_or_ne j i with rfl | other
    · exact ⟨read, half b (by simpa using at_)⟩
    · rw [Function.update_of_ne other] at at_
      rw [any_snoc_of_unread (unread j other)]
      exact upToDate.half j b at_
  · rw [overtaken_snoc_of_quiet h quiet]
    rcases eq_or_ne j i with rfl | other
    · exact ⟨read, full b c (by simpa using at_)⟩
    · rw [Function.update_of_ne other] at at_
      rw [any_snoc_of_unread (unread j other)]
      exact upToDate.full j b c at_
  · simpa only [overtaken_snoc_of_quiet h quiet] using working

theorem readFirst (upToDate : UpToDate reads writes h phase value stored) {i : ι}
    (reader : phase i = .writing) (quiet : writes a = false)
    (own : ∀ j, reads j a = true ↔ j = i) :
    UpToDate reads writes (h ++ [a]) (Function.update phase i (.half value.1)) value stored := by
  refine upToDate.move quiet (fun j other => ?_) ?_ (by simp) (fun b at_ _ => ?_)
    (fun b c at_ => by cases at_) (Or.inl ⟨i, by simp, ?_⟩)
  · exact Bool.eq_false_iff.2 fun read => other ((own j).1 read)
  · simp [(own i).2 rfl]
  · cases at_
    rfl
  · exact overtaken_of_unread (upToDate.writing i reader)

theorem readSecond (upToDate : UpToDate reads writes h phase value stored) {i : ι} {b : β}
    (reader : phase i = .half b) (quiet : writes a = false) (unread : ∀ j, reads j a = false) :
    UpToDate reads writes (h ++ [a]) (Function.update phase i (.full b value.2)) value stored := by
  obtain ⟨read, first⟩ := upToDate.half i b reader
  refine upToDate.move quiet (fun j _ => unread j) ?_ (by simp) (fun b at_ => by cases at_)
    (fun b c at_ current => ?_) ?_
  · rwa [any_snoc_of_unread (unread i)]
  · cases at_
    rw [first current]
  · refine upToDate.stored.imp_left fun ⟨j, working, current⟩ => ⟨j, ?_, current⟩
    rcases eq_or_ne j i with rfl | other
    · simp
    · rwa [Function.update_of_ne other]

/-- **Publishing** is safe when the party has not been overtaken, and harmless while
another party that has not been overtaken is still at work. -/
theorem publish (upToDate : UpToDate reads writes h phase value stored) {i : ι} {b : β} {c : γ}
    (holder : phase i = .full b c) (quiet : writes a = false) (unread : ∀ j, reads j a = false)
    (allowed : overtaken (reads i) writes h = true →
      ∃ j, j ≠ i ∧ phase j ≠ .done ∧ overtaken (reads j) writes h = false) :
    UpToDate reads writes (h ++ [a]) (Function.update phase i .done) value (b, c) := by
  obtain ⟨read, both⟩ := upToDate.full i b c holder
  refine upToDate.move quiet (fun j _ => unread j) ?_ (by simp) (fun b at_ => by cases at_)
    (fun b c at_ => by cases at_) ?_
  · rwa [any_snoc_of_unread (unread i)]
  · cases stale : overtaken (reads i) writes h with
    | false => exact Or.inr (both stale)
    | true =>
        obtain ⟨j, other, working, current⟩ := allowed stale
        exact Or.inl ⟨j, by rwa [Function.update_of_ne other], current⟩

end Own

end UpToDate

end RunServer.Theory.Aggregate
