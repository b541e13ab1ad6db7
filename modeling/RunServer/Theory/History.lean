/-
# Theory.History -- what holds of an item given the items before it

`EachAfter C l` says that every item of `l` satisfies `C` together with the items
before it: the shape of "at that moment" in a statement about a trace.
`runningMax` is the maximum of a list and a start value; `upTo` cuts a list after
the first item that ends it.
-/
import Mathlib.Data.List.Induction
import Mathlib.Data.List.Perm.Basic
import Mathlib.Order.Lattice

namespace RunServer.Theory

set_option autoImplicit false

universe u

section Each

variable {α : Type u} {C D : List α → α → Prop}

def EachAfter (C : List α → α → Prop) (l : List α) : Prop :=
  ∀ before a after, l = before ++ a :: after → C before a

@[simp] theorem eachAfter_nil : EachAfter C [] := by
  intro before a after split
  simp at split

theorem EachAfter.initial {l l' : List α} (each : EachAfter C (l ++ l')) : EachAfter C l :=
  fun before a after split => each before a (after ++ l') (by simp [split])

theorem eachAfter_snoc_iff {l : List α} {a : α} :
    EachAfter C (l ++ [a]) ↔ EachAfter C l ∧ C l a := by
  constructor
  · intro each
    exact ⟨each.initial, each l a [] rfl⟩
  · rintro ⟨each, last⟩ before b after split
    rcases List.eq_nil_or_concat after with rfl | ⟨after, c, rfl⟩
    · obtain ⟨rfl, same⟩ := List.append_inj' split rfl
      cases same
      exact last
    · have shorter : l ++ [a] = (before ++ b :: after) ++ [c] := by simpa using split
      obtain ⟨rfl, -⟩ := List.append_inj' shorter rfl
      exact each before b after rfl

theorem eachAfter_append_iff {l l' : List α} :
    EachAfter C (l ++ l') ↔ EachAfter C l ∧ EachAfter (fun before => C (l ++ before)) l' := by
  induction l' using List.reverseRecOn with
  | nil => simp
  | append_singleton l' a ih =>
      rw [← List.append_assoc, eachAfter_snoc_iff, eachAfter_snoc_iff, ih, and_assoc]

theorem eachAfter_singleton_iff {a : α} : EachAfter C [a] ↔ C [] a := by
  simpa using eachAfter_snoc_iff (C := C) (l := []) (a := a)

theorem EachAfter.mono {l : List α} (each : EachAfter C l)
    (weaker : ∀ before a, C before a → D before a) : EachAfter D l :=
  fun before a after split => weaker before a (each before a after split)

end Each

section Max

variable {α : Type u} [LinearOrder α]

def runningMax (start : α) (l : List α) : α := l.foldl max start

@[simp] theorem runningMax_nil (start : α) : runningMax start [] = start := rfl

theorem runningMax_append (start : α) (l l' : List α) :
    runningMax start (l ++ l') = runningMax (runningMax start l) l' :=
  List.foldl_append

@[simp] theorem runningMax_snoc (start : α) (l : List α) (a : α) :
    runningMax start (l ++ [a]) = max (runningMax start l) a := by
  simp [runningMax]

theorem runningMax_le_iff {start bound : α} {l : List α} :
    runningMax start l ≤ bound ↔ start ≤ bound ∧ ∀ a ∈ l, a ≤ bound := by
  induction l generalizing start with
  | nil => simp
  | cons a l ih =>
      simp only [runningMax, List.foldl_cons] at ih ⊢
      rw [ih]
      simp [and_assoc]

theorem le_runningMax (start : α) (l : List α) : start ≤ runningMax start l :=
  (runningMax_le_iff.1 le_rfl).1

/-- Two readings of the items have one maximum where each of them does to the maximum so
far what the other does. -/
theorem runningMax_map_congr {β : Type u} {f g : β → α} {start : α} {l : List β}
    (each : EachAfter (fun before b => max (runningMax start (before.map g)) (f b) =
      max (runningMax start (before.map g)) (g b)) l) :
    runningMax start (l.map f) = runningMax start (l.map g) := by
  induction l using List.reverseRecOn with
  | nil => rfl
  | append_singleton l b ih =>
      obtain ⟨earlier, last⟩ := eachAfter_snoc_iff.1 each
      simp only [List.map_append, List.map_singleton, runningMax_snoc, ih earlier, last]

/-- The order of the items does not matter. -/
theorem runningMax_perm {start : α} {l l' : List α} (perm : l.Perm l') :
    runningMax start l = runningMax start l' := by
  apply le_antisymm
  · rw [runningMax_le_iff]
    have bound := runningMax_le_iff.1 (le_refl (runningMax start l'))
    exact ⟨bound.1, fun a member => bound.2 a (perm.mem_iff.1 member)⟩
  · rw [runningMax_le_iff]
    have bound := runningMax_le_iff.1 (le_refl (runningMax start l))
    exact ⟨bound.1, fun a member => bound.2 a (perm.mem_iff.2 member)⟩

end Max

section UpTo

variable {α : Type u} {ends : α → Bool}

/-- The items up to and with the first that ends the list. -/
def upTo (ends : α → Bool) : List α → List α
  | [] => []
  | a :: rest => if ends a then [a] else a :: upTo ends rest

theorem upTo_append {pre post : List α} {last : α} (running : ∀ a ∈ pre, ends a = false)
    (ended : ends last = true) : upTo ends (pre ++ last :: post) = pre ++ [last] := by
  induction pre with
  | nil => simp [upTo, ended]
  | cons a pre ih =>
      have first := running a List.mem_cons_self
      have rest := ih fun x member => running x (List.mem_cons_of_mem a member)
      simp [upTo, first, rest]

/-- Where a cut list ends, the list went on only after that item. -/
theorem upTo_split {items pre : List α} {last : α} (cut : upTo ends items = pre ++ [last])
    (ended : ends last = true) : ∃ post, items = pre ++ last :: post := by
  induction items generalizing pre with
  | nil => simp [upTo] at cut
  | cons a rest ih =>
      simp only [upTo] at cut
      split at cut
      · obtain ⟨rfl, same⟩ := List.append_inj' (show [] ++ [a] = pre ++ [last] from cut) rfl
        cases same
        exact ⟨rest, rfl⟩
      · rename_i running
        cases pre with
        | nil =>
            obtain ⟨rfl, -⟩ := List.cons.inj cut
            exact absurd ended running
        | cons first pre =>
            obtain ⟨rfl, tail⟩ := List.cons.inj cut
            obtain ⟨post, split⟩ := ih tail
            exact ⟨post, by rw [split]; rfl⟩

theorem upTo_initial (ends : α → Bool) (items : List α) : upTo ends items <+: items := by
  induction items with
  | nil => exact List.prefix_rfl
  | cons a rest ih =>
      simp only [upTo]
      split
      · exact ⟨rest, rfl⟩
      · exact List.cons_prefix_cons.2 ⟨rfl, ih⟩

end UpTo

end RunServer.Theory
