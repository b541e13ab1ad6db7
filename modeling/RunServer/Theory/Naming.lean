/-
# Theory.Naming -- a file that parties share under one name

The name leads to at most one file at a time.  Writing makes the file or overwrites
it, opening keeps hold of the file the name leads to, and unlinking takes only the
name away: who has the file open still reads it, and the next write makes another.

`Tracked` reads the same off the order of the events: the file behind the name holds
what `writer` wrote, the last to write since the name was last taken away; and a file
that is open holds what the `writer` of the events that reached it wrote.
-/
import Mathlib.Data.List.TakeWhile
import Mathlib.Logic.Function.Basic

namespace RunServer.Theory.Naming

set_option autoImplicit false

universe u v

inductive Event (ι : Type u) where
  | write (i : ι)
  | open_ (i : ι)
  | unlink
  deriving DecidableEq

/-- Files by number, the file the name leads to, and the file each party has open. -/
structure Files (ι : Type u) (γ : Type v) where
  named : Option Nat
  contents : Nat → γ
  fresh : Nat
  opened : ι → Option Nat

namespace Files

variable {ι : Type u} {γ : Type v}

def write (f : Files ι γ) (c : γ) : Files ι γ :=
  match f.named with
  | some n => { f with contents := Function.update f.contents n c }
  | none =>
      { f with
        named := some f.fresh
        contents := Function.update f.contents f.fresh c
        fresh := f.fresh + 1 }

theorem write_of_named {f : Files ι γ} {n : Nat} (named : f.named = some n) (c : γ) :
    f.write c = { f with contents := Function.update f.contents n c } := by
  simp only [write, named]

theorem write_of_unnamed {f : Files ι γ} (unnamed : f.named = none) (c : γ) :
    f.write c =
      { f with
        named := some f.fresh
        contents := Function.update f.contents f.fresh c
        fresh := f.fresh + 1 } := by
  simp only [write, unnamed]

/-- The file is `none` afterwards when the name leads nowhere. -/
def open_ [DecidableEq ι] (f : Files ι γ) (i : ι) : Files ι γ :=
  { f with opened := Function.update f.opened i f.named }

def unlink (f : Files ι γ) : Files ι γ := { f with named := none }

def stat (f : Files ι γ) : Bool := f.named.isSome

def read (f : Files ι γ) (i : ι) : Option γ := (f.opened i).map f.contents

def apply [DecidableEq ι] (value : ι → γ) (f : Files ι γ) : Event ι → Files ι γ
  | .write i => f.write (value i)
  | .open_ i => f.open_ i
  | .unlink => f.unlink

@[simp] theorem write_opened (f : Files ι γ) (c : γ) : (f.write c).opened = f.opened := by
  unfold write
  split <;> rfl

theorem apply_opened [DecidableEq ι] {value : ι → γ} {f : Files ι γ} {e : Event ι} {i : ι}
    (other : e ≠ .open_ i) : (f.apply value e).opened i = f.opened i := by
  cases e with
  | write k => rw [apply, write_opened]
  | open_ k =>
      have ne : i ≠ k := fun same => other (congrArg _ same.symm)
      simp [apply, open_, ne]
  | unlink => rfl

end Files

/-! ## Who has written a file -/

section Events

variable {ι : Type u} [DecidableEq ι]

def Event.author : Event ι → Option ι
  | .write i => some i
  | .open_ _ | .unlink => none

/-- The last to write since the name was last taken away. -/
def writer (es : List (Event ι)) : Option ι :=
  (es.reverse.takeWhile (· ≠ .unlink)).findSome? Event.author

/-- What comes after `i` has opened the file. -/
def sinceOpened (i : ι) (es : List (Event ι)) : List (Event ι) := es.dropWhile (· ≠ .open_ i)

/-- The name still leads to the file that `i` has opened. -/
def Linked (i : ι) (es : List (Event ι)) : Prop := .unlink ∉ sinceOpened i es

/-- What could reach the file that `i` has opened. -/
def reaching (i : ι) (es : List (Event ι)) : List (Event ι) :=
  es.takeWhile (· ≠ .open_ i) ++ (sinceOpened i es).takeWhile (· ≠ .unlink)

theorem writer_snoc (es : List (Event ι)) (e : Event ι) :
    writer (es ++ [e]) = if e = .unlink then none else e.author.or (writer es) := by
  unfold writer
  rw [List.reverse_append, List.reverse_singleton, List.singleton_append, List.takeWhile_cons]
  cases e with
  | unlink => simp
  | write i => simp [List.findSome?_cons, Event.author]
  | open_ i => simp [List.findSome?_cons, Event.author]

@[simp] theorem writer_write (es : List (Event ι)) (i : ι) :
    writer (es ++ [.write i]) = some i := by simp [writer_snoc, Event.author]

@[simp] theorem writer_open (es : List (Event ι)) (i : ι) :
    writer (es ++ [.open_ i]) = writer es := by simp [writer_snoc, Event.author]

@[simp] theorem writer_unlink (es : List (Event ι)) :
    writer (es ++ [.unlink]) = none := by simp [writer_snoc]

variable {i : ι} {es : List (Event ι)}

theorem mem_of_writer (wrote : writer es = some i) : .write i ∈ es := by
  obtain ⟨e, member, author⟩ := List.exists_of_findSome?_eq_some wrote
  cases e <;> cases author
  exact List.mem_reverse.1 ((List.takeWhile_prefix _).subset member)

theorem reaching_subset (i : ι) (es : List (Event ι)) : reaching i es ⊆ es := by
  refine List.append_subset.2 ⟨(List.takeWhile_prefix _).subset, ?_⟩
  exact List.Subset.trans (List.takeWhile_prefix _).subset (List.dropWhile_suffix _).subset

theorem dropWhile_snoc_of_mem {α : Type u} {p : α → Bool} {l : List α} {x : α} (member : x ∈ l)
    (stops : p x = false) (a : α) : (l ++ [a]).dropWhile p = l.dropWhile p ++ [a] := by
  rw [List.dropWhile_append, if_neg]
  intro none_
  have all := List.dropWhile_eq_nil_iff.1 (List.isEmpty_iff.1 none_) x member
  rw [stops] at all
  cases all

theorem takeWhile_snoc_of_mem {α : Type u} {p : α → Bool} {l : List α} {x : α} (member : x ∈ l)
    (stops : p x = false) (a : α) : (l ++ [a]).takeWhile p = l.takeWhile p := by
  rw [List.takeWhile_append, if_neg]
  intro whole
  have all := List.takeWhile_eq_self_iff.1
    ((List.takeWhile_prefix p).eq_of_length whole) x member
  rw [stops] at all
  cases all

theorem sinceOpened_snoc (opened : .open_ i ∈ es) (e : Event ι) :
    sinceOpened i (es ++ [e]) = sinceOpened i es ++ [e] :=
  dropWhile_snoc_of_mem opened (by simp) e

theorem linked_snoc_iff (opened : .open_ i ∈ es) (e : Event ι) :
    Linked i (es ++ [e]) ↔ Linked i es ∧ e ≠ .unlink := by
  unfold Linked
  rw [sinceOpened_snoc opened]
  simp [eq_comm]

theorem Linked.named (linked : Linked i es) :
    ∀ e ∈ sinceOpened i es, decide (e ≠ .unlink) = true := fun e member => by
  simpa using fun (gone : e = .unlink) => linked (gone ▸ member)

/-- Nothing is cut off as long as the name is there. -/
theorem Linked.reaching_eq (linked : Linked i es) : reaching i es = es := by
  unfold reaching
  rw [List.takeWhile_eq_self_iff.2 linked.named]
  exact List.takeWhile_append_dropWhile

/-- Once the name is gone, nothing more reaches the file. -/
theorem reaching_snoc_of_unlinked (opened : .open_ i ∈ es) (unlinked : ¬ Linked i es)
    (e : Event ι) : reaching i (es ++ [e]) = reaching i es := by
  unfold reaching
  rw [sinceOpened_snoc opened, takeWhile_snoc_of_mem opened (by simp),
    takeWhile_snoc_of_mem (not_not.1 unlinked) (by simp)]

theorem Linked.reaching_snoc_unlink (linked : Linked i es) (opened : .open_ i ∈ es) :
    reaching i (es ++ [.unlink]) = es := by
  unfold reaching
  rw [sinceOpened_snoc opened, takeWhile_snoc_of_mem opened (by simp),
    List.takeWhile_append_of_pos linked.named]
  have stop : ([.unlink] : List (Event ι)).takeWhile (· ≠ .unlink) = [] := by simp
  rw [stop, List.append_nil]
  exact List.takeWhile_append_dropWhile

theorem linked_open (unopened : .open_ i ∉ es) : Linked i (es ++ [.open_ i]) := by
  unfold Linked sinceOpened
  rw [List.dropWhile_append_of_pos]
  · simp
  · intro e member
    simpa using fun (same : e = .open_ i) => unopened (same ▸ member)

end Events

/-! ## Read off the events -/

section Tracked

variable {ι : Type u} {γ : Type v} [DecidableEq ι] {value : ι → γ}

/-- What the files hold, and who has written it. -/
structure Tracked (value : ι → γ) (es : List (Event ι)) (f : Files ι γ) : Prop where
  unnamed : f.named = none → writer es = none
  named : ∀ n, f.named = some n →
    n < f.fresh ∧ ∃ i, writer es = some i ∧ f.contents n = value i
  opened : ∀ i n, f.opened i = some n →
    n < f.fresh ∧ ∃ j, writer (reaching i es) = some j ∧ f.contents n = value j
  linked : ∀ i n, f.opened i = some n → (f.named = some n ↔ Linked i es)
  unopened : ∀ i, .open_ i ∉ es → f.opened i = none

namespace Tracked

variable {es : List (Event ι)} {f : Files ι γ}

theorem start (contents : Nat → γ) :
    Tracked value [] { named := none, contents, fresh := 0, opened := fun _ => none } where
  unnamed := fun _ => rfl
  named := fun n named => by cases named
  opened := fun i n opened => by cases opened
  linked := fun i n opened => by cases opened
  unopened := fun _ _ => rfl

theorem mem_of_opened (tracked : Tracked value es f) {i : ι} {n : Nat}
    (opened : f.opened i = some n) : .open_ i ∈ es := by
  by_contra never
  rw [tracked.unopened i never] at opened
  cases opened

/-- The name leads somewhere as long as somebody has written it. -/
theorem stat_eq (tracked : Tracked value es f) : f.stat = (writer es).isSome := by
  unfold Files.stat
  cases named : f.named with
  | none => rw [tracked.unnamed named]; rfl
  | some n =>
      obtain ⟨-, i, wrote, -⟩ := tracked.named n named
      rw [wrote]
      rfl

theorem overwrite (tracked : Tracked value es f) {m : Nat} (named : f.named = some m) (k : ι) :
    Tracked value (es ++ [.write k]) (f.write (value k)) := by
  rw [Files.write_of_named named]
  refine ⟨fun none_ => ?_, fun n same => ?_, fun i n opened => ?_, fun i n opened => ?_,
    fun i never => tracked.unopened i fun member => never (List.mem_append_left _ member)⟩
  · rw [named] at none_
    cases none_
  · rw [named] at same
    cases same
    exact ⟨(tracked.named m named).1, k, writer_write es k, by simp⟩
  · obtain ⟨old, j, wrote, holds⟩ := tracked.opened i n opened
    have member := tracked.mem_of_opened opened
    by_cases linked : Linked i es
    · -- this party has the file open that is overwritten
      have same := (tracked.linked i n opened).2 linked
      rw [named] at same
      cases same
      have still := (linked_snoc_iff member (.write k)).2 ⟨linked, by simp⟩
      exact ⟨old, k, by rw [still.reaching_eq, writer_write], by simp⟩
    · have other : n ≠ m := fun same => linked <|
        (tracked.linked i n opened).1 (by rw [named, same])
      refine ⟨old, j, ?_, by simpa [other] using holds⟩
      rwa [reaching_snoc_of_unlinked member linked]
  · rw [linked_snoc_iff (tracked.mem_of_opened opened), ← tracked.linked i n opened]
    simp

theorem writeNew (tracked : Tracked value es f) (unnamed : f.named = none) (k : ι) :
    Tracked value (es ++ [.write k]) (f.write (value k)) := by
  rw [Files.write_of_unnamed unnamed]
  refine ⟨fun none_ => (by cases none_), fun n named => ?_, fun i n opened => ?_,
    fun i n opened => ?_,
    fun i never => tracked.unopened i fun member => never (List.mem_append_left _ member)⟩
  · cases named
    exact ⟨Nat.lt_succ_self _, k, writer_write es k, by simp⟩
  · obtain ⟨old, j, wrote, holds⟩ := tracked.opened i n opened
    have unlinked : ¬ Linked i es := fun linked => by
      rw [(tracked.linked i n opened).2 linked] at unnamed
      cases unnamed
    refine ⟨old.trans (Nat.lt_succ_self _), j, ?_, by simpa [old.ne] using holds⟩
    rwa [reaching_snoc_of_unlinked (tracked.mem_of_opened opened) unlinked]
  · have old := (tracked.opened i n opened).1
    rw [linked_snoc_iff (tracked.mem_of_opened opened), ← tracked.linked i n opened, unnamed]
    simp [old.ne']

theorem write (tracked : Tracked value es f) (k : ι) :
    Tracked value (es ++ [.write k]) (f.write (value k)) := by
  cases named : f.named with
  | none => exact tracked.writeNew named k
  | some m => exact tracked.overwrite named k

theorem unlink (tracked : Tracked value es f) : Tracked value (es ++ [.unlink]) f.unlink := by
  refine ⟨fun _ => writer_unlink es, fun n named => (by cases named), fun i n opened => ?_,
    fun i n opened => ?_, fun i never => ?_⟩
  · obtain ⟨old, j, wrote, holds⟩ := tracked.opened i n opened
    refine ⟨old, j, ?_, holds⟩
    by_cases linked : Linked i es
    · rw [linked.reaching_snoc_unlink (tracked.mem_of_opened opened), ← wrote,
        linked.reaching_eq]
    · rwa [reaching_snoc_of_unlinked (tracked.mem_of_opened opened) linked]
  · rw [linked_snoc_iff (tracked.mem_of_opened opened)]
    simp [Files.unlink]
  · exact tracked.unopened i fun member => never (List.mem_append_left _ member)

/-- Nobody opens the name twice. -/
theorem open_ (tracked : Tracked value es f) {k : ι} (first : .open_ k ∉ es) :
    Tracked value (es ++ [.open_ k]) (f.open_ k) := by
  refine ⟨fun none_ => ?_, fun n named => ?_, fun i n opened => ?_, fun i n opened => ?_,
    fun i never => ?_⟩
  · rw [writer_open]
    exact tracked.unnamed none_
  · rw [writer_open]
    exact tracked.named n named
  · by_cases mine : i = k
    · subst mine
      have named : f.named = some n := by simpa [Files.open_] using opened
      rw [(linked_open first).reaching_eq, writer_open]
      exact tracked.named n named
    · have before : f.opened i = some n := by simpa [Files.open_, mine] using opened
      obtain ⟨old, j, wrote, holds⟩ := tracked.opened i n before
      have member := tracked.mem_of_opened before
      refine ⟨old, j, ?_, holds⟩
      by_cases linked : Linked i es
      · rw [((linked_snoc_iff member (.open_ k)).2 ⟨linked, by simp⟩).reaching_eq, writer_open,
          ← wrote, linked.reaching_eq]
      · rwa [reaching_snoc_of_unlinked member linked]
  · by_cases mine : i = k
    · subst mine
      have named : f.named = some n := by simpa [Files.open_] using opened
      exact ⟨fun _ => linked_open first, fun _ => named⟩
    · have before : f.opened i = some n := by simpa [Files.open_, mine] using opened
      rw [linked_snoc_iff (tracked.mem_of_opened before), ← tracked.linked i n before]
      simp [Files.open_]
  · simp only [List.mem_append, List.mem_singleton, Event.open_.injEq, not_or] at never
    simpa [Files.open_, never.2] using tracked.unopened i never.1

/-- Every event, with the writes of `value`. -/
theorem apply (tracked : Tracked value es f) {e : Event ι}
    (first : ∀ i, e = .open_ i → .open_ i ∉ es) :
    Tracked value (es ++ [e]) (f.apply value e) := by
  cases e with
  | write i => exact tracked.write i
  | open_ i => exact tracked.open_ (first i rfl)
  | unlink => exact tracked.unlink

end Tracked

end Tracked

end RunServer.Theory.Naming
