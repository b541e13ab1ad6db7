/-
# Theory.Ranking -- lists put in order, and put together by key

A linked list is sorted by dealing its elements to two lists in turn, sorting these and
merging them; `before a b` says that `a` is to stand before `b`, and of two that neither
stands before the other either may come first.  Elements that come one after the other are
inserted behind all that they need not stand before.  A sorted list is read in groups: its
first element with all the others of the same key, and so on with what is left.

* `sortList_perm`, `sortList_sorted`: the sort of a whole list;
* `insertAll_perm`, `insertAll_sorted`, `filter_insertAll`: the insertion, which keeps the order
  of those of which none stands before the other;
* `groups_perm`, `groups_key`, `groups_apart`: the groups are the list, each under one key, and
  each key has one;
* `groups_sorted`, `groups_heads`: in a sorted list each group is sorted, and the groups
  come in the order of their first elements.
-/
import Mathlib.Data.List.Induction
import Mathlib.Data.List.Perm.Basic
import Mathlib.Data.List.TakeWhile

namespace RunServer.Theory.Ranking

set_option autoImplicit false

universe u v

section Sorting

variable {α : Type u}

/-- The elements in turn, to the first list first. -/
def deal : List α → List α × List α
  | [] => ([], [])
  | a :: l => (a :: (deal l).2, (deal l).1)

theorem deal_perm (l : List α) : ((deal l).1 ++ (deal l).2).Perm l := by
  induction l with
  | nil => exact .nil
  | cons a l ih => exact (List.perm_append_comm.trans ih).cons a

theorem length_deal (l : List α) : (deal l).1.length + (deal l).2.length = l.length := by
  rw [← List.length_append, (deal_perm l).length_eq]

theorem deal_shorter (a b : α) (l : List α) :
    (deal (a :: b :: l)).1.length < (a :: b :: l).length ∧
      (deal (a :: b :: l)).2.length < (a :: b :: l).length := by
  have whole := length_deal (a :: b :: l)
  simp only [deal, List.length_cons] at whole ⊢
  omega

variable (before : α → α → Bool)

def sortList : List α → List α
  | [] => []
  | [a] => [a]
  | a :: b :: l =>
      List.merge (sortList (deal (a :: b :: l)).1) (sortList (deal (a :: b :: l)).2) before
termination_by l => l.length
decreasing_by
  · exact (deal_shorter a b l).1
  · exact (deal_shorter a b l).2

theorem sortList_perm (l : List α) : (sortList before l).Perm l := by
  induction l using sortList.induct with
  | case1 => rw [sortList]
  | case2 a => rw [sortList]
  | case3 a b l first second =>
      rw [sortList]
      exact (List.merge_perm_append before).trans ((first.append second).trans (deal_perm _))

/-- No element stands before one that comes earlier. -/
def Sorted (l : List α) : Prop := l.Pairwise fun a b => ¬ before b a

/-- A strict order in which being neither before nor behind is transitive. -/
structure Strict : Prop where
  asymm : ∀ a b, before a b → ¬ before b a
  trans : ∀ a b c, ¬ before b a → ¬ before c b → ¬ before c a

variable {before}

theorem merge_sorted (strict : Strict before) {l r : List α} (left : Sorted before l)
    (right : Sorted before r) : Sorted before (List.merge l r before) := by
  induction l generalizing r with
  | nil => simpa only [List.nil_merge] using right
  | cons a l ihl =>
      induction r with
      | nil => simpa only [List.merge_right] using left
      | cons b r ihr =>
          obtain ⟨first, left'⟩ := List.pairwise_cons.1 left
          obtain ⟨first', right'⟩ := List.pairwise_cons.1 right
          by_cases wins : before a b
          · rw [List.cons_merge_cons_pos before l r wins]
            refine List.pairwise_cons.2 ⟨fun c member => ?_, ihl left' right⟩
            rcases List.mem_merge.1 member with member | member
            · exact first c member
            · have behind := strict.asymm a b wins
              rcases List.mem_cons.1 member with rfl | member
              · exact behind
              · exact strict.trans a b c behind (first' c member)
          · rw [List.cons_merge_cons_neg before l r wins]
            refine List.pairwise_cons.2 ⟨fun c member => ?_, ihr right'⟩
            rcases List.mem_merge.1 member with member | member
            · rcases List.mem_cons.1 member with rfl | member
              · exact wins
              · exact strict.trans b a c wins (first c member)
            · exact first' c member

theorem sortList_sorted (strict : Strict before) (l : List α) :
    Sorted before (sortList before l) := by
  induction l using sortList.induct with
  | case1 =>
      rw [sortList]
      exact .nil
  | case2 a =>
      rw [sortList]
      exact List.pairwise_singleton _ a
  | case3 a b l first second =>
      rw [sortList]
      exact merge_sorted strict first second

end Sorting

/-! ## One after the other -/

section Inserting

variable {α : Type u} (before : α → α → Bool)

/-- `a` behind all that it is not to stand before. -/
def insertBehind (a : α) (l : List α) : List α :=
  l.takeWhile (fun b => !before a b) ++ a :: l.dropWhile (fun b => !before a b)

def insertAll (l : List α) : List α := l.foldl (fun sorted a => insertBehind before a sorted) []

theorem insertBehind_perm (a : α) (l : List α) : (insertBehind before a l).Perm (a :: l) := by
  refine List.perm_middle.trans (List.Perm.of_eq ?_)
  rw [List.takeWhile_append_dropWhile]

variable {before}

/-- What `a` stands before, it stands before all that comes behind it. -/
theorem Strict.behind (strict : Strict before) {l : List α} (sorted : Sorted before l) (a : α) :
    ∀ b ∈ l.dropWhile (fun b => !before a b), before a b := by
  induction l with
  | nil => simp
  | cons b l ih =>
      obtain ⟨first, rest⟩ := List.pairwise_cons.1 sorted
      by_cases wins : before a b
      · rw [List.dropWhile_cons_of_neg (by simp [wins])]
        intro c member
        rcases List.mem_cons.1 member with rfl | member
        · exact wins
        · by_contra behind
          exact strict.trans b c a (first c member) behind wins
      · rw [List.dropWhile_cons_of_pos (by simp [wins])]
        exact ih rest

theorem insertBehind_sorted (strict : Strict before) {l : List α} (sorted : Sorted before l)
    (a : α) : Sorted before (insertBehind before a l) := by
  have wins := strict.behind sorted a
  have waits : ∀ b ∈ l.takeWhile (fun b => !before a b), ¬ before a b := fun b member => by
    simpa using List.mem_takeWhile_imp member
  have whole := sorted
  rw [← List.takeWhile_append_dropWhile (p := fun b => !before a b) (l := l), Sorted,
    List.pairwise_append] at whole
  obtain ⟨left, right, across⟩ := whole
  rw [insertBehind, Sorted, List.pairwise_append]
  refine ⟨left, List.pairwise_cons.2 ⟨fun b member => strict.asymm _ _ (wins b member), right⟩,
    fun b member c other => ?_⟩
  rcases List.mem_cons.1 other with rfl | other
  · exact waits b member
  · exact across b member c other

/-- Among elements of which none stands before another, `a` comes last. -/
theorem filter_insertBehind (strict : Strict before) {l : List α} (sorted : Sorted before l) (a : α)
    {q : α → Bool} (level : ∀ a b, q a → q b → ¬ before a b) :
    (insertBehind before a l).filter q = (l ++ [a]).filter q := by
  have split := List.takeWhile_append_dropWhile (p := fun b => !before a b) (l := l)
  rw [insertBehind, List.filter_append, List.filter_append]
  by_cases has : q a
  · have none_ : (l.dropWhile fun b => !before a b).filter q = [] :=
      List.filter_eq_nil_iff.2 fun b member also =>
        level a b has also (strict.behind sorted a b member)
    conv_rhs => rw [← split]
    rw [List.filter_append, List.filter_cons_of_pos has, none_, List.append_nil,
      List.filter_cons_of_pos has, List.filter_nil]
  · conv_rhs => rw [← split]
    rw [List.filter_append, List.filter_cons_of_neg has, List.filter_cons_of_neg has,
      List.filter_nil, List.append_nil]

variable (before) in
theorem insertAll_concat (l : List α) (a : α) :
    insertAll before (l ++ [a]) = insertBehind before a (insertAll before l) := by
  rw [insertAll, List.foldl_append]
  rfl

variable (before) in
theorem insertAll_perm (l : List α) : (insertAll before l).Perm l := by
  induction l using List.reverseRecOn with
  | nil => exact .nil
  | append_singleton l a ih =>
      rw [insertAll_concat]
      exact ((insertBehind_perm before a _).trans (ih.cons a)).trans
        (List.perm_append_singleton a l).symm

theorem insertAll_sorted (strict : Strict before) (l : List α) :
    Sorted before (insertAll before l) := by
  induction l using List.reverseRecOn with
  | nil => exact .nil
  | append_singleton l a ih =>
      rw [insertAll_concat]
      exact insertBehind_sorted strict ih a

/-- The order of elements of which none stands before another is kept. -/
theorem filter_insertAll (strict : Strict before) (l : List α) {q : α → Bool}
    (level : ∀ a b, q a → q b → ¬ before a b) : (insertAll before l).filter q = l.filter q := by
  induction l using List.reverseRecOn with
  | nil => rfl
  | append_singleton l a ih =>
      rw [insertAll_concat, filter_insertBehind strict (insertAll_sorted strict l) a level,
        List.filter_append, ih, List.filter_append]

end Inserting

/-! ## By key -/

section Groups

variable {α : Type u} {κ : Type v} [DecidableEq κ] (key : α → κ)

def same (k : κ) (l : List α) : List α := l.filter (key · = k)

def others (k : κ) (l : List α) : List α := l.filter (key · ≠ k)

theorem length_others_le (k : κ) (l : List α) : (others key k l).length ≤ l.length :=
  List.length_filter_le _ l

def groups : List α → List (List α)
  | [] => []
  | a :: l => (a :: same key (key a) l) :: groups (others key (key a) l)
termination_by l => l.length
decreasing_by exact Nat.lt_succ_of_le (length_others_le key _ l)

theorem groups_perm (l : List α) : (groups key l).flatten.Perm l := by
  induction l using groups.induct key with
  | case1 =>
      rw [groups]
      exact .nil
  | case2 a l ih =>
      rw [groups, List.flatten_cons, List.cons_append]
      refine .cons a ((List.Perm.append_left _ ih).trans ?_)
      have split := List.filter_append_perm (fun b => decide (key b = key a)) l
      simpa only [same, others, ne_eq, decide_not] using split

theorem mem_of_mem_groups {l g : List α} (group : g ∈ groups key l) {b : α} (member : b ∈ g) :
    b ∈ l :=
  (groups_perm key l).mem_iff.1 (List.mem_flatten.2 ⟨g, group, member⟩)

/-- A group is not empty, and under one key. -/
theorem groups_key {l g : List α} (group : g ∈ groups key l) :
    ∃ a rest, g = a :: rest ∧ ∀ b ∈ rest, key b = key a := by
  induction l using groups.induct key with
  | case1 =>
      rw [groups] at group
      cases group
  | case2 a l ih =>
      rw [groups, List.mem_cons] at group
      rcases group with rfl | group
      · exact ⟨a, _, rfl, fun b member => of_decide_eq_true (List.mem_filter.1 member).2⟩
      · exact ih group

/-- No two groups have a key in common. -/
theorem groups_apart (l : List α) :
    (groups key l).Pairwise fun g g' => ∀ a ∈ g, ∀ b ∈ g', key b ≠ key a := by
  induction l using groups.induct key with
  | case1 =>
      rw [groups]
      exact .nil
  | case2 a l ih =>
      rw [groups, List.pairwise_cons]
      refine ⟨fun g group b first c second => ?_, ih⟩
      have apart : key c ≠ key a :=
        of_decide_eq_true (List.mem_filter.1 (mem_of_mem_groups key group second)).2
      rcases List.mem_cons.1 first with rfl | first
      · exact apart
      · have alike : key b = key a := of_decide_eq_true (List.mem_filter.1 first).2
        rwa [alike]

variable {key} {before : α → α → Bool}

theorem groups_sorted {l g : List α} (sorted : Sorted before l) (group : g ∈ groups key l) :
    Sorted before g := by
  induction l using groups.induct key with
  | case1 =>
      rw [groups] at group
      cases group
  | case2 a l ih =>
      rw [groups, List.mem_cons] at group
      rcases group with rfl | group
      · exact sorted.sublist (List.filter_sublist.cons_cons a)
      · exact ih (sorted.tail.sublist List.filter_sublist) group

/-- The first elements of the groups are in order. -/
theorem groups_heads {l : List α} (sorted : Sorted before l) :
    (groups key l).Pairwise fun g g' => ∀ a ∈ g.head?, ∀ b ∈ g', ¬ before b a := by
  induction l using groups.induct key with
  | case1 =>
      rw [groups]
      exact .nil
  | case2 a l ih =>
      rw [groups, List.pairwise_cons]
      refine ⟨fun g group b first c second => ?_, ih (sorted.tail.sublist List.filter_sublist)⟩
      obtain rfl : a = b := by simpa using first
      have member : c ∈ l := (List.mem_filter.1 (mem_of_mem_groups key group second)).1
      exact (List.pairwise_cons.1 sorted).1 c member

end Groups

end RunServer.Theory.Ranking
