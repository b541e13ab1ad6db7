/-
# Theory.Threads -- a list threaded through nodes

Nodes have addresses, and `next` at the address of a node is the node that follows it; where
the first one is, is kept beside.  `Thread.insert` puts a fresh node behind a node of the
thread, or at its beginning.

* `Threaded.insert`: the thread then has the one node more, in that place;
* `walk_of_threaded`: following `next` from the first node gives the thread, and ends.
-/
import Mathlib.Data.List.Induction
import Mathlib.Logic.Function.Basic

namespace RunServer.Theory.Threads

set_option autoImplicit false

universe u v

section Nodes

variable {β : Type u} {κ : Type v} (address : β → κ)

/-- From `start` on there are these nodes, and then the end. -/
def Threaded (next : κ → Option β) : Option β → List β → Prop
  | start, [] => start = none
  | start, b :: l => start = some b ∧ Threaded next (next (address b)) l

/-- The nodes from `start` on; `none` when the steps do not do. -/
def walk (next : κ → Option β) : Nat → Option β → Option (List β)
  | 0, _ => none
  | _ + 1, none => some []
  | fuel + 1, some b => (walk next fuel (next (address b))).map (b :: ·)

variable {address}

theorem walk_of_threaded {next : κ → Option β} {start : Option β} {l : List β}
    (threaded : Threaded address next start l) {fuel : Nat} (enough : l.length < fuel) :
    walk address next fuel start = some l := by
  induction l generalizing start fuel with
  | nil =>
      obtain ⟨fuel, rfl⟩ := Nat.exists_eq_add_of_lt enough
      obtain rfl := threaded
      rfl
  | cons b l ih =>
      obtain ⟨fuel, rfl⟩ : ∃ n, fuel = n + 1 := ⟨fuel - 1, by omega⟩
      obtain ⟨rfl, rest⟩ := threaded
      rw [List.length_cons] at enough
      rw [walk, ih rest (by omega), Option.map_some]

theorem Threaded.congr {next next' : κ → Option β} {start : Option β} {l : List β}
    (threaded : Threaded address next start l)
    (same : ∀ b ∈ l, next' (address b) = next (address b)) :
    Threaded address next' start l := by
  induction l generalizing start with
  | nil => exact threaded
  | cons b l ih =>
      rw [List.forall_mem_cons] at same
      exact ⟨threaded.1, same.1 ▸ ih threaded.2 same.2⟩

end Nodes

/-! ## One more node -/

section Insert

variable {β : Type u} {κ : Type v} [DecidableEq κ] (address : β → κ)

/-- Where the first node is, and which one follows each. -/
structure Thread (β : Type u) (κ : Type v) where
  start : Option β
  next : κ → Option β

/-- `new` behind `prev`, or at the beginning. -/
def Thread.insert (t : Thread β κ) (prev : Option β) (new : β) : Thread β κ :=
  match prev with
  | none => { start := some new, next := Function.update t.next (address new) t.start }
  | some b =>
      { start := t.start
        next := Function.update (Function.update t.next (address new) (t.next (address b)))
          (address b) (some new) }

variable {address}

theorem Threaded.insert_behind {next : κ → Option β} {start : Option β} {xs ys : List β} {b new : β}
    (threaded : Threaded address next start (xs ++ b :: ys))
    (nodup : ((xs ++ b :: ys).map address).Nodup)
    (fresh : address new ∉ (xs ++ b :: ys).map address) :
    Threaded address (Function.update
        (Function.update next (address new) (next (address b))) (address b) (some new))
      start (xs ++ b :: new :: ys) := by
  have stays {c : β} (other : address c ≠ address b) (other' : address c ≠ address new) :
      Function.update (Function.update next (address new) (next (address b))) (address b)
        (some new) (address c) = next (address c) := by
    rw [Function.update_of_ne other, Function.update_of_ne other']
  induction xs generalizing start with
  | nil =>
      simp only [List.nil_append, List.map_cons, List.nodup_cons, List.mem_cons, not_or]
        at threaded nodup fresh ⊢
      refine ⟨threaded.1, Function.update_self .., ?_⟩
      rw [Function.update_of_ne fresh.1, Function.update_self]
      refine threaded.2.congr fun c member => stays ?_ ?_
      · exact fun same => nodup.1 (same ▸ List.mem_map_of_mem member)
      · exact fun same => fresh.2 (same ▸ List.mem_map_of_mem member)
  | cons c xs ih =>
      simp only [List.cons_append, List.map_cons, List.nodup_cons, List.mem_cons, not_or]
        at threaded nodup fresh ⊢
      have other : address c ≠ address b := fun same =>
        nodup.1 (same ▸ List.mem_map_of_mem (by simp))
      refine ⟨threaded.1, ?_⟩
      rw [stays other (Ne.symm fresh.1)]
      exact ih threaded.2 nodup.2 fresh.2

theorem Threaded.insert {t : Thread β κ} {xs ys : List β} {new : β}
    (threaded : Threaded address t.next t.start (xs ++ ys))
    (nodup : ((xs ++ ys).map address).Nodup) (fresh : address new ∉ (xs ++ ys).map address) :
    Threaded address (t.insert address xs.getLast? new).next
      (t.insert address xs.getLast? new).start (xs ++ new :: ys) := by
  induction xs using List.reverseRecOn with
  | nil =>
      refine ⟨rfl, ?_⟩
      simp only [List.nil_append, List.getLast?_nil, Thread.insert, Function.update_self]
        at threaded fresh ⊢
      refine threaded.congr fun b member => Function.update_of_ne (fun same => fresh ?_) _ _
      rw [← same]
      exact List.mem_map_of_mem member
  | append_singleton xs b _ =>
      rw [List.append_assoc, List.singleton_append] at threaded nodup fresh
      rw [List.getLast?_concat, List.append_assoc, List.singleton_append]
      exact threaded.insert_behind nodup fresh

end Insert

end RunServer.Theory.Threads
