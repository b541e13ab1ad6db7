/-
# Sim.Aiso -- arbitrary in, sorted out

Without `-p` the runs go into a binary search tree, whose nodes are also threaded on a list
in their order.  On the way down to the place of a new node the tree is rotated, once
every `ln aiso_size` node accesses; `acc_mark` counts these by doubling.

* `insertAt_spec`: wherever it rotates, the new node comes behind all it need not stand before,
  in the tree and on the list;
* `insertAt_isSome`: it never rotates twice in one place, so it ends;
* `insertAiso_kept`: the tree, the list and `aiso_size` keep agreeing;
* `iterate_addAllToRuns`: scanned in the end, the runs for which there was memory come by falling
  size, and those of one size in the order they were found;
* `printed_addAllToRuns`: a missing run is told once, however many are missing.
-/
import RunServer.Sim.Runs
import RunServer.Theory.Ranking
import RunServer.Theory.Threads

namespace RunServer.Sim

open RunServer.Theory.Ranking
open RunServer.Theory.Threads

set_option autoImplicit false

/-! ## The tree -/

/-- A `struct aiso_node` without its links. -/
structure AisoNode (α : Type) where
  address : Nat
  value : α

inductive AisoTree (α : Type) where
  | null
  | node (left : AisoTree α) (an : AisoNode α) (right : AisoTree α)

namespace AisoTree

variable {α : Type}

def isNull : AisoTree α → Bool
  | null => true
  | node .. => false

def items : AisoTree α → List (AisoNode α)
  | null => []
  | node l an r => l.items ++ an :: r.items

def size : AisoTree α → Nat
  | null => 0
  | node l _ r => l.size + r.size + 1

/-- Change `(l A r) B (C)` into `(l) A (r B C)`. -/
def rotateRight : AisoTree α → AisoTree α
  | node (node l a r) b c => node l a (node r b c)
  | t => t

/-- Change `(A) B (l C r)` into `(A B l) C (r)`. -/
def rotateLeft : AisoTree α → AisoTree α
  | node a b (node l c r) => node (node a b l) c r
  | t => t

theorem length_items (t : AisoTree α) : t.items.length = t.size := by
  induction t with
  | null => rfl
  | node l an r ihl ihr => simp [items, size, ihl, ihr]; omega

theorem rotateRight_items (t : AisoTree α) : t.rotateRight.items = t.items := by
  unfold rotateRight
  split
  · simp [items]
  · rfl

theorem rotateLeft_items (t : AisoTree α) : t.rotateLeft.items = t.items := by
  unfold rotateLeft
  split
  · simp [items]
  · rfl

theorem rotateRight_size (t : AisoTree α) : t.rotateRight.size = t.size := by
  rw [← length_items, rotateRight_items, length_items]

theorem rotateLeft_size (t : AisoTree α) : t.rotateLeft.size = t.size := by
  rw [← length_items, rotateLeft_items, length_items]

theorem size_pos {t : AisoTree α} (some_ : ¬ t.isNull) : 0 < t.size := by
  cases t with
  | null => exact absurd rfl some_
  | node l an r => exact Nat.succ_pos _

end AisoTree

/-- `aiso_size` and `acc_mark`. -/
structure AisoPolicy where
  aisoSize : UInt64
  accMark : UInt64

namespace AisoPolicy

def addEntry (p : AisoPolicy) : AisoPolicy := { p with aisoSize := p.aisoSize + 1 }
def resetAccess (p : AisoPolicy) : AisoPolicy := { p with accMark := 1 }
def countAccess (p : AisoPolicy) : AisoPolicy := { p with accMark := p.accMark <<< 1 }
def mustRotate (p : AisoPolicy) : Bool := p.accMark > p.aisoSize

/-- Not on the first access after a rotation, with two nodes or more. -/
theorem mustRotate_countAccess {p : AisoPolicy} (two : 2 ≤ p.aisoSize.toNat)
    (reset : p.accMark = 1) : p.countAccess.mustRotate = false := by
  have mark : p.countAccess.accMark = 2 := by
    simp only [countAccess, reset]
    decide
  rw [mustRotate, mark]
  refine decide_eq_false fun more => ?_
  have less : p.aisoSize.toNat < 2 := UInt64.lt_iff_toNat_lt.1 more
  omega

end AisoPolicy

/-! ## The loop of `InsertAiso` -/

section Insert

variable {α : Type} (before : α → α → Bool)

/-- What is at `*hook` in the end, and the node that `prev` is in; at first it is `&list`. -/
structure Hooked (α : Type) where
  hook : AisoTree α
  policy : AisoPolicy
  prev : Option (AisoNode α)

/-- `while (*hook)`; `none` when the turns do not do. -/
def insertAt (new : AisoNode α) :
    Nat → AisoTree α → AisoPolicy → Option (AisoNode α) → Option (Hooked α)
  | 0, _, _, _ => none
  | _ + 1, .null, p, prev => some ⟨.node .null new .null, p, prev⟩
  | fuel + 1, .node l an r, p, prev =>
      let p := p.countAccess
      if before new.value an.value then
        if l.isNull || !p.mustRotate then
          (insertAt new fuel l p prev).map fun h => { h with hook := .node h.hook an r }
        else insertAt new fuel (AisoTree.node l an r).rotateRight p.resetAccess prev
      else if r.isNull || !p.mustRotate then
        (insertAt new fuel r p (some an)).map fun h => { h with hook := .node l an h.hook }
      else insertAt new fuel (AisoTree.node l an r).rotateLeft p.resetAccess (some an)

/-- `AISO_BEFORE` on nodes. -/
def nodeBefore (a b : AisoNode α) : Bool := before a.value b.value

variable {before} {new : AisoNode α}

theorem takeWhile_stop {β : Type} {p : β → Bool} {b : β} (stop : ¬ p b) (l r : List β) :
    (l ++ b :: r).takeWhile p = l.takeWhile p ∧
      (l ++ b :: r).dropWhile p = l.dropWhile p ++ b :: r := by
  induction l with
  | nil => simp [stop]
  | cons c l ih => by_cases goes : p c <;> simp [goes, ih]

/-- The nodes that the new one need not stand before, and the others. -/
def front (before : α → α → Bool) (new : AisoNode α) (t : AisoTree α) : List (AisoNode α) :=
  t.items.takeWhile fun an => !nodeBefore before new an

def back (before : α → α → Bool) (new : AisoNode α) (t : AisoTree α) : List (AisoNode α) :=
  t.items.dropWhile fun an => !nodeBefore before new an

/-- Once the new node stands before one, it stands before all that follow. -/
def Onward (before : α → α → Bool) (new : AisoNode α) (t : AisoTree α) : Prop :=
  t.items.Pairwise fun a b => nodeBefore before new a → nodeBefore before new b

theorem front_left {l r : AisoTree α} {an : AisoNode α} (left : nodeBefore before new an) :
    front before new (.node l an r) = front before new l ∧
      back before new (.node l an r) = back before new l ++ an :: r.items :=
  takeWhile_stop (by simp [left]) _ _

theorem front_right {l r : AisoTree α} {an : AisoNode α}
    (onward : Onward before new (.node l an r)) (right : ¬ nodeBefore before new an) :
    front before new (.node l an r) = l.items ++ an :: front before new r ∧
      back before new (.node l an r) = back before new r := by
  have waits : ∀ a ∈ l.items, !nodeBefore before new a := by
    intro a member
    have across := (List.pairwise_append.1 onward).2.2 a member an List.mem_cons_self
    simpa using mt across right
  constructor
  · rw [front, AisoTree.items, List.takeWhile_append_of_pos waits,
      List.takeWhile_cons_of_pos (by simpa using right)]
    rfl
  · rw [back, AisoTree.items, List.dropWhile_append_of_pos waits,
      List.dropWhile_cons_of_pos (by simpa using right)]
    rfl

/-- The new node comes behind its front, and `prev` is in the last node of that. -/
theorem insertAt_spec {fuel : Nat} {t : AisoTree α} {p : AisoPolicy} {prev : Option (AisoNode α)}
    {h : Hooked α} (done : insertAt before new fuel t p prev = some h)
    (onward : Onward before new t) :
    h.hook.items = front before new t ++ new :: back before new t ∧
      h.prev = (front before new t).getLast?.or prev ∧ h.policy.aisoSize = p.aisoSize := by
  induction fuel generalizing t p prev h with
  | zero => cases done
  | succ fuel ih =>
      cases t with
      | null =>
          cases done
          exact ⟨rfl, rfl, rfl⟩
      | node l an r =>
          rw [insertAt] at done
          obtain ⟨onl, onr, across⟩ := List.pairwise_append.1 onward
          split at done
          · rename_i left
            obtain ⟨front_eq, back_eq⟩ := front_left (l := l) (r := r) left
            split at done
            · obtain ⟨h', done', rfl⟩ := Option.map_eq_some_iff.1 done
              obtain ⟨items, prev_eq, size⟩ := ih done' onl
              refine ⟨?_, by rw [front_eq]; exact prev_eq, size⟩
              rw [front_eq, back_eq, AisoTree.items, items]
              simp
            · have turned := (AisoTree.node l an r).rotateRight_items
              have := ih done (by rwa [Onward, turned])
              rwa [front, back, turned] at this
          · rename_i right
            obtain ⟨front_eq, back_eq⟩ := front_right onward right
            split at done
            · obtain ⟨h', done', rfl⟩ := Option.map_eq_some_iff.1 done
              obtain ⟨items, prev_eq, size⟩ := ih done' (List.pairwise_cons.1 onr).2
              refine ⟨?_, ?_, size⟩
              · rw [front_eq, back_eq, AisoTree.items, items]
                simp
              · rw [front_eq, prev_eq, List.getLast?_append, List.getLast?_cons]
                cases (front before new r).getLast? <;> rfl
            · have turned := (AisoTree.node l an r).rotateLeft_items
              obtain ⟨items, prev_eq, size⟩ := ih done (by rwa [Onward, turned])
              rw [front, turned] at prev_eq
              rw [front, back, turned] at items
              refine ⟨items, prev_eq.trans ?_, size⟩
              rw [← front, front_eq, List.getLast?_append, List.getLast?_cons]
              rfl

/-- Each turn goes down by a node, or rotates and resets the mark; and behind a reset it goes
down. -/
theorem insertAt_isSome {fuel : Nat} {t : AisoTree α} {p : AisoPolicy}
    (all : t.size ≤ p.aisoSize.toNat)
    (enough : 2 * t.size + (if p.accMark = 1 then 0 else 1) < fuel) (prev : Option (AisoNode α)) :
    (insertAt before new fuel t p prev).isSome := by
  induction fuel generalizing t p prev with
  | zero => omega
  | succ fuel ih =>
      cases t with
      | null => rfl
      | node l an r =>
          rw [AisoTree.size] at all enough
          have down {t : AisoTree α} (smaller : t.size ≤ l.size + r.size)
              (prev : Option (AisoNode α)) :
              (insertAt before new fuel t p.countAccess prev).isSome := by
            have room : t.size ≤ p.countAccess.aisoSize.toNat :=
              Nat.le_trans smaller (Nat.le_of_succ_le all)
            refine ih room ?_ prev
            split <;> split at enough <;> omega
          have turn {t : AisoTree α} (same : t.size = l.size + r.size + 1) {child : AisoTree α}
              (has : ¬ child.isNull) (part : child.size ≤ l.size + r.size)
              (must : p.countAccess.mustRotate) (prev : Option (AisoNode α)) :
              (insertAt before new fuel t p.countAccess.resetAccess prev).isSome := by
            have two : 2 ≤ p.aisoSize.toNat := by
              have := AisoTree.size_pos has
              omega
            have marked : p.accMark ≠ 1 := fun reset => by
              rw [AisoPolicy.mustRotate_countAccess two reset] at must
              cases must
            have unmarked : p.countAccess.resetAccess.accMark = 1 := rfl
            rw [if_neg marked] at enough
            refine ih ?_ ?_ prev
            · rw [same]
              exact all
            · rw [same, if_pos unmarked]
              omega
          rw [insertAt]
          split
          · split
            · rw [Option.isSome_map]
              exact down (Nat.le_add_right _ _) prev
            · rename_i goes
              rw [Bool.or_eq_true, not_or] at goes
              exact turn (AisoTree.rotateRight_size _) goes.1 (Nat.le_add_right _ _)
                (by simpa using goes.2) prev
          · split
            · rw [Option.isSome_map]
              exact down (Nat.le_add_left _ _) (some an)
            · rename_i goes
              rw [Bool.or_eq_true, not_or] at goes
              exact turn (AisoTree.rotateLeft_size _) goes.1 (Nat.le_add_left _ _)
                (by simpa using goes.2) (some an)

end Insert

/-! ## `InsertAiso` -/

section Aiso

variable {α : Type} (before : α → α → Bool)

/-- `root`, `list` with the `an_next`s, and the policy. -/
structure Aiso (α : Type) where
  root : AisoTree α
  list : Thread (AisoNode α) Nat
  policy : AisoPolicy

def Aiso.empty : Aiso α where
  root := .null
  list := { start := none, next := fun _ => none }
  policy := { aisoSize := 0, accMark := 1 }

/-- `InsertAiso(v)`, with what `TryMalloc` gives. -/
def insertAiso (tryMalloc : Option Nat) (v : α) (a : Aiso α) : Option (Bool × Aiso α) :=
  match tryMalloc with
  | none => some (false, a)
  | some address =>
      (insertAt before ⟨address, v⟩ (2 * a.root.size + 2) a.root a.policy none).map fun h =>
        (true,
          { root := h.hook
            list := a.list.insert AisoNode.address h.prev ⟨address, v⟩
            policy := h.policy.addEntry })

/-- `OpenIter`, and `GetAisoItem` until it fails. -/
def Aiso.iterate (a : Aiso α) (fuel : Nat) : Option (List α) :=
  (walk AisoNode.address a.list.next fuel a.list.start).map (List.map AisoNode.value)

/-- The tree and the list have these nodes, in order. -/
structure Aiso.Kept (a : Aiso α) (nodes : List (AisoNode α)) : Prop where
  root : a.root.items = nodes
  list : Threaded AisoNode.address a.list.next a.list.start nodes
  apart : (nodes.map AisoNode.address).Nodup
  sorted : Sorted (nodeBefore before) nodes
  size : a.policy.aisoSize.toNat = nodes.length

variable {before}

theorem strict_node (strict : Strict before) : Strict (nodeBefore before) where
  asymm := fun a b => strict.asymm a.value b.value
  trans := fun a b c => strict.trans a.value b.value c.value

theorem kept_empty : (Aiso.empty : Aiso α).Kept before [] where
  root := rfl
  list := rfl
  apart := .nil
  sorted := .nil
  size := rfl

theorem Onward.of_sorted (strict : Strict before) {t : AisoTree α} {new : AisoNode α}
    (sorted : Sorted (nodeBefore before) t.items) : Onward before new t :=
  sorted.imp fun {a b} waits first => by
    by_contra behind
    exact (strict_node strict).trans a b new waits behind first

theorem insertAiso_kept (strict : Strict before) {a : Aiso α} {nodes : List (AisoNode α)}
    (kept : a.Kept before nodes) {address : Nat} (fresh : address ∉ nodes.map AisoNode.address)
    (counted : nodes.length + 1 < 2 ^ 64) (v : α) :
    ∃ a', insertAiso before (some address) v a = some (true, a') ∧
      a'.Kept before (insertBehind (nodeBefore before) ⟨address, v⟩ nodes) := by
  have size : a.root.size = nodes.length := by rw [← AisoTree.length_items, kept.root]
  have sorted := kept.sorted
  rw [← kept.root] at sorted
  have ends : (insertAt before ⟨address, v⟩ (2 * a.root.size + 2) a.root a.policy none).isSome :=
    insertAt_isSome (by rw [size, kept.size]) (by split <;> omega) none
  obtain ⟨h, done⟩ := Option.isSome_iff_exists.1 ends
  obtain ⟨items, prev, counts⟩ := insertAt_spec done (.of_sorted strict sorted)
  rw [Option.or_none] at prev
  have split : front before ⟨address, v⟩ a.root ++ back before ⟨address, v⟩ a.root = nodes := by
    rw [front, back, List.takeWhile_append_dropWhile, kept.root]
  have is : h.hook.items = insertBehind (nodeBefore before) ⟨address, v⟩ nodes := by
    rw [items, front, back, kept.root]
    rfl
  have perm := insertBehind_perm (nodeBefore before) ⟨address, v⟩ nodes
  refine ⟨_, by rw [insertAiso, done]; rfl, is, ?_, ?_, insertBehind_sorted
    (strict_node strict) kept.sorted _, ?_⟩
  · rw [← is, items, prev]
    refine Threaded.insert ?_ ?_ ?_ <;> rw [split]
    · exact kept.list
    · exact kept.apart
    · exact fresh
  · exact (perm.map AisoNode.address).nodup_iff.2 (List.nodup_cons.2 ⟨fresh, kept.apart⟩)
  · have one : (1 : UInt64).toNat = 1 := rfl
    rw [perm.length_eq, List.length_cons, AisoPolicy.addEntry, counts, UInt64.toNat_add, kept.size,
      one]
    exact Nat.mod_eq_of_lt counted

theorem Aiso.Kept.iterate {a : Aiso α} {nodes : List (AisoNode α)} (kept : a.Kept before nodes)
    {fuel : Nat} (enough : nodes.length < fuel) :
    a.iterate fuel = some (nodes.map AisoNode.value) := by
  rw [Aiso.iterate, walk_of_threaded kept.list enough, Option.map_some]

end Aiso

/-! ## The runs that are shown -/

section Shown

/-- `AISO_BEFORE(r0, r1)`. -/
def runBefore (r0 r1 : Run) : Bool := r0.size > r1.size

theorem strict_runBefore : Strict runBefore where
  asymm := fun a b first second => by
    simp only [runBefore, decide_eq_true_eq] at first second
    omega
  trans := fun a b c first second => by
    simp only [runBefore, decide_eq_true_eq] at first second ⊢
    omega

/-- The tree, and `aiso_overflow` with what was printed. -/
structure RunsFound where
  aiso : Aiso Run
  overflow : Bool
  printed : List String

/-- A failed insert is told of once. -/
def RunsFound.failed (s : RunsFound) : RunsFound :=
  if s.overflow then s
  else { s with
    overflow := true
    printed := s.printed ++ [">>>> Memory overflow: too many runs found\n"] }

theorem RunsFound.failed_aiso (s : RunsFound) : s.failed.aiso = s.aiso := by
  rw [RunsFound.failed]
  split <;> rfl

/-- `add_to_runs(r)`. -/
def addToRuns (s : RunsFound) (found : Option Nat × Run) : Option RunsFound :=
  (insertAiso runBefore found.1 found.2 s.aiso).map fun inserted =>
    if inserted.1 then { s with aiso := inserted.2 } else { s with aiso := inserted.2 }.failed

theorem addToRuns_none (s : RunsFound) (r : Run) : addToRuns s (none, r) = some s.failed := rfl

/-- All of `Compare_Files`' runs, each with what `TryMalloc` gives for its node. -/
def addAllToRuns (found : List (Option Nat × Run)) : Option RunsFound :=
  found.foldlM addToRuns { aiso := .empty, overflow := false, printed := [] }

/-- The nodes there was memory for. -/
def nodesOf (found : List (Option Nat × Run)) : List (AisoNode Run) :=
  found.filterMap fun r => r.1.map fun address => ⟨address, r.2⟩

theorem nodesOf_concat (found : List (Option Nat × Run)) (r : Option Nat × Run) :
    nodesOf (found ++ [r]) = nodesOf found ++ (r.1.map fun address => ⟨address, r.2⟩).toList := by
  rw [nodesOf, List.filterMap_append, List.filterMap_cons, List.filterMap_nil]
  cases r.1 <;> rfl

theorem addAllToRuns_kept {found : List (Option Nat × Run)}
    (apart : ((nodesOf found).map AisoNode.address).Nodup) (counted : found.length < 2 ^ 64) :
    ∃ s, addAllToRuns found = some s ∧
      s.aiso.Kept runBefore (insertAll (nodeBefore runBefore) (nodesOf found)) := by
  induction found using List.reverseRecOn with
  | nil => exact ⟨_, rfl, kept_empty⟩
  | append_singleton found r ih =>
      obtain ⟨tryMalloc, r⟩ := r
      rw [List.length_append, List.length_singleton] at counted
      rw [nodesOf_concat] at apart ⊢
      have earlier : ((nodesOf found).map AisoNode.address).Nodup := by
        rw [List.map_append] at apart
        exact (List.nodup_append.1 apart).1
      obtain ⟨s, ended, kept⟩ := ih earlier (Nat.lt_of_succ_lt counted)
      have last (s' : RunsFound) (next : addToRuns s (tryMalloc, r) = some s') :
          addAllToRuns (found ++ [(tryMalloc, r)]) = some s' := by
        have ended' : found.foldlM addToRuns _ = some s := ended
        rw [addAllToRuns, List.foldlM_append, ended']
        simpa using next
      cases tryMalloc with
      | none =>
          rw [Option.map_none, Option.toList_none, List.append_nil]
          exact ⟨s.failed, last _ (addToRuns_none s r), s.failed_aiso ▸ kept⟩
      | some address =>
          rw [Option.map_some, Option.toList_some] at apart ⊢
          have fresh : address ∉ (insertAll (nodeBefore runBefore) (nodesOf found)).map
              AisoNode.address := by
            intro member
            have inside := ((insertAll_perm _ _).map AisoNode.address).mem_iff.1 member
            rw [List.map_append] at apart
            exact (List.nodup_append.1 apart).2.2 _ inside _ List.mem_cons_self rfl
          have length : (insertAll (nodeBefore runBefore) (nodesOf found)).length + 1 < 2 ^ 64 := by
            have le : (nodesOf found).length ≤ found.length := List.length_filterMap_le _ _
            rw [(insertAll_perm _ _).length_eq]
            omega
          obtain ⟨aiso, inserted, kept'⟩ := insertAiso_kept strict_runBefore kept fresh length r
          refine ⟨{ s with aiso }, last _ (by simp [addToRuns, inserted]), ?_⟩
          rw [insertAll_concat]
          exact kept'

/-- The runs there was memory for. -/
def shownRuns (found : List (Option Nat × Run)) : List Run :=
  (nodesOf found).map AisoNode.value

/-- Scanned in the end, the runs come by falling size, those of one size in the order they were
found. -/
theorem iterate_addAllToRuns {found : List (Option Nat × Run)}
    (apart : ((nodesOf found).map AisoNode.address).Nodup) (counted : found.length < 2 ^ 64) :
    ∃ s runs, addAllToRuns found = some s ∧ s.aiso.iterate (found.length + 1) = some runs ∧
      runs.Perm (shownRuns found) ∧ runs.Pairwise (fun r0 r1 => r1.size ≤ r0.size) ∧
      ∀ size, runs.filter (·.size = size) = (shownRuns found).filter (·.size = size) := by
  obtain ⟨s, ended, kept⟩ := addAllToRuns_kept apart counted
  have length : (insertAll (nodeBefore runBefore) (nodesOf found)).length < found.length + 1 := by
    rw [(insertAll_perm _ _).length_eq]
    exact Nat.lt_succ_of_le (List.length_filterMap_le _ _)
  refine ⟨s, _, ended, kept.iterate length, (insertAll_perm _ _).map _, ?_, fun size => ?_⟩
  · refine List.pairwise_map.2 (kept.sorted.imp fun {a b} waits => ?_)
    simpa [nodeBefore, runBefore] using waits
  · have level (a b : AisoNode Run) (one : decide (a.value.size = size) = true)
        (other : decide (b.value.size = size) = true) : ¬ nodeBefore runBefore a b := by
      simp only [decide_eq_true_eq] at one other
      simp [nodeBefore, runBefore, one, other]
    rw [shownRuns, List.filter_map, List.filter_map]
    exact congrArg _ (filter_insertAll (strict_node strict_runBefore) _ level)

/-- It is told once that runs are missing. -/
def Told (found : List (Option Nat × Run)) (s : RunsFound) : Prop :=
  s.overflow = found.any (·.1.isNone) ∧
    s.printed =
      if found.any (·.1.isNone) then [">>>> Memory overflow: too many runs found\n"] else []

theorem told_of_ended {found : List (Option Nat × Run)} {s : RunsFound}
    (ended : addAllToRuns found = some s) : Told found s := by
  induction found using List.reverseRecOn generalizing s with
  | nil =>
      cases ended
      exact ⟨rfl, rfl⟩
  | append_singleton found r ih =>
      rw [addAllToRuns, List.foldlM_append, Option.bind_eq_bind, Option.bind_eq_some_iff] at ended
      obtain ⟨before, earlier, last⟩ := ended
      obtain ⟨overflow, printed⟩ := ih earlier
      have added : addToRuns before r = some s := by simpa using last
      obtain ⟨tryMalloc, r⟩ := r
      rw [Told, List.any_append]
      cases tryMalloc with
      | none =>
          rw [addToRuns_none, Option.some.injEq] at added
          subst added
          rw [RunsFound.failed]
          by_cases missing : before.overflow
          · rw [missing] at overflow
            simp [missing, printed, ← overflow]
          · rw [Bool.not_eq_true] at missing
            rw [missing] at overflow
            simp [missing, printed, ← overflow]
      | some address =>
          obtain ⟨inserted, done, rfl⟩ := Option.map_eq_some_iff.1 added
          obtain ⟨h, -, rfl⟩ := Option.map_eq_some_iff.1 done
          have same : [((some address : Option Nat), r)].any (·.1.isNone) = false := rfl
          rw [same, Bool.or_false]
          exact ⟨overflow, printed⟩

/-- A sequence of runs ends, and tells it once if one of them is missing. -/
theorem printed_addAllToRuns (found : List (Option Nat × Run)) :
    (((nodesOf found).map AisoNode.address).Nodup → found.length < 2 ^ 64 →
      (addAllToRuns found).isSome) ∧
    ∀ s, addAllToRuns found = some s → Told found s := by
  refine ⟨fun apart counted => ?_, fun s ended => told_of_ended ended⟩
  obtain ⟨s, ended, -⟩ := addAllToRuns_kept apart counted
  exact Option.isSome_iff_exists.2 ⟨s, ended⟩

namespace Sample

def run (size : Nat) : Run := ⟨0, 1, 1, 1 + size, size⟩

/-- There is no memory for the third run. -/
def found : List (Option Nat × Run) :=
  [(some 1, run 8), (some 2, run 9), (none, run 30), (some 3, run 8), (some 4, run 12)]

theorem iterate_addAllToRuns_sample : ∃ s runs, addAllToRuns found = some s ∧
    s.aiso.iterate 6 = some runs ∧ runs.Pairwise fun r0 r1 => r1.size ≤ r0.size := by
  have apart : ((nodesOf found).map AisoNode.address).Nodup := by decide
  obtain ⟨s, runs, ended, shown, -, falling, -⟩ := iterate_addAllToRuns apart (by decide)
  exact ⟨s, runs, ended, shown, falling⟩

theorem printed_addAllToRuns_sample : ∃ s, addAllToRuns found = some s ∧
    s.printed = [">>>> Memory overflow: too many runs found\n"] := by
  have apart : ((nodesOf found).map AisoNode.address).Nodup := by decide
  obtain ⟨ends, told⟩ := printed_addAllToRuns found
  obtain ⟨s, ended⟩ := Option.isSome_iff_exists.1 (ends apart (by decide))
  exact ⟨s, ended, (told s ended).2⟩

end Sample

example : ((addAllToRuns Sample.found).bind fun s => s.aiso.iterate 6) =
    some [Sample.run 12, Sample.run 9, Sample.run 8, Sample.run 8] := by decide

end Shown

end RunServer.Sim
