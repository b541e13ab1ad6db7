/-
# Dispatch.Finding -- what a finding of `get_sim` says

`get_sim` writes the submission and the earlier ones of its problem into a directory,
and `sim.sh` asks `sim_text` about one pair of files after the other (`Sim.Report`).  A
finding is the first pair above 50.  `sim_text` compares tokens, 16 bits of a hash for each
word: a finding says that tokens agree, and a word cut in another way is another token.

* `found_iff`: the program found is the earliest of those above 50;
* `found_blocks`: more than half of the tokens of the submission are in blocks that program
  has, too;
* `returned_of_copied`: a submission whose tokens an earlier one contains is not overlooked.

The last two are about whole runs of many judgings (`Dispatch.Similarity`), of which no
step was disturbed.
-/
import RunServer.Dispatch.Similarity
import RunServer.Sim.Report

namespace RunServer.Dispatch.Finding

open RunServer.Dispatch.Similarity
open RunServer.Sim
open RunServer.Theory.Interleave

set_option autoImplicit false

/-! ## The first above 50 -/

theorem simSh_eq_some_iff {compared : List (Int × Option Int)} {sim simSId : Int} :
    simSh compared = some (sim, simSId) ↔
      ∃ before after, compared = before ++ (simSId, some sim) :: after ∧ 50 < sim ∧
        ∀ file ∈ before, ∀ other ∈ file.2, other ≤ 50 := by
  induction compared with
  | nil => simp [simSh]
  | cons file rest ih =>
      obtain ⟨first, percentage⟩ := file
      have skips (small : ∀ other ∈ percentage, other ≤ 50) :
          (∃ before after, rest = before ++ (simSId, some sim) :: after ∧ 50 < sim ∧
            ∀ file ∈ before, ∀ other ∈ file.2, other ≤ 50) ↔
          ∃ before after, (first, percentage) :: rest = before ++ (simSId, some sim) :: after ∧
            50 < sim ∧ ∀ file ∈ before, ∀ other ∈ file.2, other ≤ 50 := by
        constructor
        · rintro ⟨before, after, rfl, above, below⟩
          exact ⟨(first, percentage) :: before, after, rfl, above,
            List.forall_mem_cons.2 ⟨small, below⟩⟩
        · rintro ⟨before, after, split, above, below⟩
          cases before with
          | nil =>
              rw [List.nil_append, List.cons.injEq, Prod.mk.injEq] at split
              have := small sim split.1.2
              omega
          | cons file before =>
              rw [List.cons_append, List.cons.injEq] at split
              exact ⟨before, after, split.2, above, (List.forall_mem_cons.1 below).2⟩
      cases percentage with
      | none => exact ih.trans (skips fun other member => by cases member)
      | some percentage =>
          rw [simSh]
          by_cases above : 50 < percentage
          · rw [if_pos above, Option.some.injEq, Prod.mk.injEq]
            constructor
            · rintro ⟨rfl, rfl⟩
              exact ⟨[], rest, rfl, above, fun file member => by cases member⟩
            · rintro ⟨before, after, split, -, below⟩
              cases before with
              | nil =>
                  rw [List.nil_append, List.cons.injEq, Prod.mk.injEq, Option.some.injEq] at split
                  exact ⟨split.1.2, split.1.1⟩
              | cons file before =>
                  rw [List.cons_append, List.cons.injEq] at split
                  have := (List.forall_mem_cons.1 below).1 percentage (by rw [← split.1]; rfl)
                  omega
          · rw [if_neg above]
            exact ih.trans (skips fun other is => by cases is; omega)

theorem simSh_isSome_iff {compared : List (Int × Option Int)} :
    (simSh compared).isSome ↔ ∃ file ∈ compared, ∃ sim ∈ file.2, 50 < sim := by
  induction compared with
  | nil => simp [simSh]
  | cons file rest ih =>
      obtain ⟨simSId, sim⟩ := file
      cases sim with
      | none => simpa [simSh] using ih
      | some sim =>
          rw [simSh]
          by_cases above : 50 < sim <;> simp [above, ih]

/-! ## The files -/

/-- `WriteString(Code)`. -/
def bytes (code : String) : List UInt8 := code.toUTF8.data.toList

/-- The files `get_sim` has made in `sim_test`, in the order of `ls -v`; `list` is what
`List(qry)` has returned. -/
def simTest (s : Solution) (store : Store) (list : List Int) : List (Int × List UInt8) :=
  (list.dedup.mergeSort (· ≤ ·)).filterMap fun sid =>
    (store.detail sid).bind fun sol =>
      if sid < s.sid then some (sid, bytes sol.val.code) else none

section Files

variable {s : Solution} {store : Store} {list : List Int}

theorem mem_simTest {other : Int} {text : List UInt8} :
    (other, text) ∈ simTest s store list ↔
      other ∈ list ∧ other < s.sid ∧
        ∃ sol, store.detail other = some sol ∧ text = bytes sol.val.code := by
  simp only [simTest, List.mem_filterMap, List.mem_mergeSort, List.mem_dedup,
    Option.bind_eq_some_iff]
  constructor
  · rintro ⟨sid, listed, sol, known, made⟩
    split at made
    · rename_i earlier
      cases made
      exact ⟨listed, earlier, sol, known, rfl⟩
    · cases made
  · rintro ⟨listed, earlier, sol, known, rfl⟩
    exact ⟨other, listed, sol, known, if_pos earlier⟩

/-- A file for each submission, in order. -/
theorem pairwise_simTest : (simTest s store list).Pairwise fun x y => x.1 < y.1 := by
  have sorted : (list.dedup.mergeSort (· ≤ ·)).Pairwise (· < ·) := by
    have le : (list.dedup.mergeSort (· ≤ ·)).Pairwise fun x y => decide (x ≤ y) :=
      List.pairwise_mergeSort (fun _ _ _ => by simpa using Int.le_trans)
        (fun x y => by simpa using Int.le_total x y) list.dedup
    have ne : (list.dedup.mergeSort (· ≤ ·)).Nodup :=
      (List.mergeSort_perm _ _).nodup_iff.2 list.nodup_dedup
    refine le.imp₂ (fun x y less differ => ?_) ne
    have := of_decide_eq_true less
    omega
  refine sorted.filterMap _ fun x y less file made file' made' => ?_
  have name {sid : Int} {file : Int × List UInt8}
      (made : (store.detail sid).bind (fun sol =>
        if sid < s.sid then some (sid, bytes sol.val.code) else none) = some file) :
      file.1 = sid := by
    obtain ⟨sol, -, made⟩ := Option.bind_eq_some_iff.1 made
    split at made
    · cases made
      rfl
    · cases made
  rw [name made, name made']
  exact less

end Files

/-! ## The finding -/

section Script

variable (tryCalloc : Nat → Bool)

/-- `sim_text -p -e -s $FILE $i | grep ^"$FILE" | awk '{print $4}'`. -/
def percentageOf (file i : List UInt8) : Option Int :=
  match simText tryCalloc [.file file, .file i] with
  | some (.ok lines) => simOf lines
  | _ => none

/-- How `sim.sh` ends for a submission. -/
def outcome (s : Solution) (store : Store) (list : List Int) : Outcome :=
  .ran ((simTest s store list).map fun file =>
    (file.1, percentageOf tryCalloc (bytes s.code) file.2))

variable {tryCalloc} {s : Solution} {store : Store} {list : List Int}

theorem percentageOf_eq_some_iff {file i : List UInt8} {sim : Int} :
    percentageOf tryCalloc file i = some sim ↔
      ∃ lines, simText tryCalloc [.file file, .file i] = pure lines ∧ simOf lines = some sim := by
  unfold percentageOf
  constructor
  · intro read
    split at read
    · rename_i lines ended
      exact ⟨lines, ended, read⟩
    · cases read
  · rintro ⟨lines, ended, read⟩
    rw [ended]
    exact read

/-- An earlier submission of the problem that `sim_text` puts above 50. -/
structure Similar (tryCalloc : Nat → Bool) (s : Solution) (store : Store) (list : List Int)
    (other sim : Int) : Prop where
  listed : other ∈ list
  earlier : other < s.sid
  known : other ∈ store.sids
  percentage : percentageOf tryCalloc (bytes s.code) (bytes (store.record other).val.code) =
    some sim
  above : 50 < sim

theorem similar_iff {other sim : Int} :
    Similar tryCalloc s store list other sim ↔
      (other, some sim) ∈ (simTest s store list).map (fun file =>
        (file.1, percentageOf tryCalloc (bytes s.code) file.2)) ∧ 50 < sim := by
  simp only [List.mem_map, Prod.mk.injEq]
  constructor
  · intro similar
    refine ⟨⟨(other, bytes (store.record other).val.code), mem_simTest.2 ⟨similar.listed,
      similar.earlier, store.record other, ?_, rfl⟩, rfl, similar.percentage⟩, similar.above⟩
    exact Store.detail_eq_some_iff.2 ⟨similar.known, rfl⟩
  · rintro ⟨⟨⟨sid, text⟩, made, rfl, percentage⟩, above⟩
    obtain ⟨listed, earlier, sol, found, rfl⟩ := mem_simTest.1 made
    obtain ⟨known, rfl⟩ := Store.detail_eq_some_iff.1 found
    exact ⟨listed, earlier, known, percentage, above⟩

/-- The program found is the earliest of those above 50. -/
theorem found_iff {other sim : Int} :
    (outcome tryCalloc s store list).found = some (sim, other) ↔
      Similar tryCalloc s store list other sim ∧
        ∀ other' sim', Similar tryCalloc s store list other' sim' → other ≤ other' := by
  have sorted : ((simTest s store list).map fun file =>
      (file.1, percentageOf tryCalloc (bytes s.code) file.2)).Pairwise fun x y => x.1 < y.1 :=
    List.pairwise_map.2 pairwise_simTest
  rw [outcome, Outcome.found, simSh_eq_some_iff]
  simp only [similar_iff]
  generalize (simTest s store list).map (fun file =>
    (file.1, percentageOf tryCalloc (bytes s.code) file.2)) = compared at sorted ⊢
  constructor
  · rintro ⟨before, after, rfl, above, below⟩
    rw [List.pairwise_append, List.pairwise_cons] at sorted
    refine ⟨⟨List.mem_append_right _ List.mem_cons_self, above⟩, fun other' sim' similar => ?_⟩
    rcases List.mem_append.1 similar.1 with inside | inside
    · have := below _ inside sim' rfl
      omega
    · rcases List.mem_cons.1 inside with same | inside
      · exact Int.le_of_eq (congrArg Prod.fst same).symm
      · exact Int.le_of_lt (sorted.2.1.1 _ inside)
  · rintro ⟨⟨member, above⟩, least⟩
    obtain ⟨before, after, rfl⟩ := List.append_of_mem member
    refine ⟨before, after, rfl, above, fun file inside sim' is => ?_⟩
    rw [List.pairwise_append] at sorted
    by_contra exceeds
    have := sorted.2.2 file inside _ List.mem_cons_self
    have := least file.1 sim' ⟨List.mem_append_left _ (by rwa [← Option.mem_def.1 is]), by omega⟩
    omega

end Script

/-! ## Blocks and copies -/

section Tokens

variable {tryCalloc : Nat → Bool} {s : Solution} {store : Store} {list : List Int}
variable {other sim : Int}

/-- The tokens of a program as `sim_text` reads it. -/
def tokensOf (code : String) : List Token := words (bytes code)

/-- More than half of the tokens of `code` lie in blocks of 8 or more that `code'` has, too. -/
def InBlocks (code code' : String) : Prop :=
  (tokensOf code).length <
    2 * (List.range (tokensOf code).length).countP
      (inBlock textMinRunSize (tokensOf code) (tokensOf code'))

theorem Similar.blocks (similar : Similar tryCalloc s store list other sim) :
    InBlocks s.code (store.record other).val.code := by
  obtain ⟨lines, ended, read⟩ := percentageOf_eq_some_iff.1 similar.percentage
  exact blocks_of_percentage ended read similar.above

/-- An earlier submission of the problem that contains the tokens of the code, 8 or more. -/
structure Copied (s : Solution) (store : Store) (list : List Int) (other : Int) : Prop where
  listed : other ∈ list
  earlier : other < s.sid
  known : other ∈ store.sids
  long : textMinRunSize ≤ (tokensOf s.code).length
  contained : tokensOf s.code <:+: tokensOf (store.record other).val.code

theorem Copied.similar (copy : Copied s store list other)
    (obtained : ∀ length, (initHashTable tryCalloc length).isSome) :
    Similar tryCalloc s store list other 100 where
  listed := copy.listed
  earlier := copy.earlier
  known := copy.known
  percentage := percentageOf_eq_some_iff.2 (copied (obtained _) copy.long copy.contained)
  above := by decide

theorem found_of_copied (copy : Copied s store list other)
    (obtained : ∀ length, (initHashTable tryCalloc length).isSome) :
    ∃ sim first, (outcome tryCalloc s store list).found = some (sim, first) ∧ 50 < sim ∧
      first ≤ other := by
  have similar := copy.similar obtained
  have some_ : (outcome tryCalloc s store list).found.isSome := by
    rw [outcome, Outcome.found, simSh_isSome_iff]
    exact ⟨_, (similar_iff.1 similar).1, 100, rfl, similar.above⟩
  obtain ⟨⟨sim, first⟩, found⟩ := Option.isSome_iff_exists.1 some_
  obtain ⟨least, first_le⟩ := found_iff.1 found
  exact ⟨sim, first, found, least.above, first_le _ _ similar⟩

/-- Where the copy is the only other program, it is all that is compared. -/
theorem outcome_of_copied (copy : Copied s store [other] other)
    (obtained : ∀ length, (initHashTable tryCalloc length).isSome) :
    outcome tryCalloc s store [other] = .ran [(other, some 100)] := by
  have known : store.detail other = some (store.record other) :=
    Store.detail_eq_some_iff.2 ⟨copy.known, rfl⟩
  have files : simTest s store [other] = [(other, bytes (store.record other).val.code)] := by
    simp [simTest, known, copy.earlier]
  rw [outcome, files, List.map_singleton, (copy.similar obtained).percentage]

end Tokens

/-! ## Runs of many judgings -/

/-- What a judging calls `get_sim` with, and what it then finds. -/
structure Asked where
  user : Solution
  store : Store
  list : List Int
  tryCalloc : Nat → Bool

def outcomes (asked : Int → Asked) (sid : Int) : Outcome :=
  outcome (asked sid).tryCalloc (asked sid).user (asked sid).store (asked sid).list

section Runs

variable {asked : Int → Asked} {h : List Action} {t : Server} {sid sim other : Int}

theorem own_of_run {outcomes : Int → Outcome}
    (run : Run (step outcomes) (Undisturbed outcomes) start h t) : OwnResults outcomes t := by
  induction run with
  | start =>
      intro sid result set_
      cases set_
  | step before allowed taken results =>
      exact ((kept_of_run before).undisturbed_iff results taken).1 allowed

/-- What is said of a submission's own finding: the program is there, and nothing before it. -/
theorem blocks_of_own (finds : own (outcomes asked) sid = (sim, other)) (said : sim ≠ 0) :
    let a := asked sid
    Similar a.tryCalloc a.user a.store a.list other sim ∧
      InBlocks a.user.code (a.store.record other).val.code ∧
      ∀ other' sim', Similar a.tryCalloc a.user a.store a.list other' sim' → other ≤ other' := by
  intro a
  rw [own, Outcome.own] at finds
  cases found : (outcomes asked sid).found with
  | none =>
      rw [found, Option.getD_none, Prod.mk.injEq] at finds
      exact absurd finds.1.symm said
  | some result =>
      rw [found, Option.getD_some] at finds
      obtain ⟨similar, least⟩ := found_iff.1 (found.trans (congrArg some finds))
      exact ⟨similar, similar.blocks, least⟩

theorem above_of_own (finds : own (outcomes asked) sid = (sim, other)) {copy : Int}
    (copied : Copied (asked sid).user (asked sid).store (asked sid).list copy)
    (obtained : ∀ length, (initHashTable (asked sid).tryCalloc length).isSome) :
    50 < sim ∧ other ≤ copy := by
  obtain ⟨sim', first, found, above, le⟩ := found_of_copied copied obtained
  rw [own, Outcome.own, outcomes, found, Option.getD_some, Prod.mk.injEq] at finds
  obtain ⟨rfl, rfl⟩ := finds
  exact ⟨above, le⟩

theorem found_of_returned
    (run : Run (step (outcomes asked)) (Undisturbed (outcomes asked)) start h t)
    (returned : t.points sid = .returned (sim, other)) : own (outcomes asked) sid = (sim, other) :=
  (own_of_run run sid (sim, other) (by rw [returned]; rfl)).symm

/-- A submission that is said to be like another one is later than it, and more than half of its
tokens are in blocks that the other has, too; no earlier submission is above 50. -/
theorem found_blocks (run : Run (step (outcomes asked)) (Undisturbed (outcomes asked)) start h t)
    (returned : t.points sid = .returned (sim, other)) (said : sim ≠ 0) :
    let a := asked sid
    Similar a.tryCalloc a.user a.store a.list other sim ∧
      InBlocks a.user.code (a.store.record other).val.code ∧
      ∀ other' sim', Similar a.tryCalloc a.user a.store a.list other' sim' → other ≤ other' := by
  exact blocks_of_own (found_of_returned run returned) said

/-- A submission whose tokens an earlier one contains is not overlooked. -/
theorem returned_of_copied
    (run : Run (step (outcomes asked)) (Undisturbed (outcomes asked)) start h t)
    (returned : t.points sid = .returned (sim, other)) {copy : Int}
    (copied : Copied (asked sid).user (asked sid).store (asked sid).list copy)
    (obtained : ∀ length, (initHashTable (asked sid).tryCalloc length).isSome) :
    50 < sim ∧ other ≤ copy :=
  above_of_own (found_of_returned run returned) copied obtained

end Runs

/-! ## A copy -/

namespace Sample

open RunServer.Dispatch.Similarity.Sample (reading)

/-- Submission 1 has a line more than submission 2. -/
def asked : Asked where
  user := { Solution.zero with sid := 2, code := "ab\nab\nab\nab\nab\nab\nab\nab\n" }
  store :=
    { sids := {1}
      record := fun sid =>
        ⟨{ Model.Solution.zero with
            sid
            code := "ab\nab\nab\nab\nab\nab\nab\nab\nab\n" }, rfl⟩ }
  list := [1]
  tryCalloc := fun _ => true

theorem asked_copied : Copied asked.user asked.store asked.list 1 where
  listed := List.mem_singleton.2 rfl
  earlier := by decide
  known := Finset.mem_singleton_self 1
  long := Sim.Sample.contained_lines.1
  contained := Sim.Sample.contained_lines.2

theorem outcomes_asked : outcomes (fun _ => asked) = fun _ => .ran [(1, some 100)] :=
  funext fun _ => outcome_of_copied asked_copied (initHashTable_isSome fun _ => rfl)

theorem run_asked :
    ∃ t, Run (step (outcomes fun _ => asked)) (Undisturbed (outcomes fun _ => asked)) start
        (reading 2) t ∧ t.points 2 = .returned (100, 1) := by
  rw [outcomes_asked]
  exact ⟨_, Run.of_follow rfl, rfl⟩

theorem found_blocks_sample : InBlocks asked.user.code (asked.store.record 1).val.code := by
  obtain ⟨t, run, returned⟩ := run_asked
  exact (found_blocks run returned (by decide)).2.1

theorem returned_of_copied_sample :
    ∃ t : Server, t.points 2 = .returned (100, 1) ∧ (50 : Int) < 100 ∧ (1 : Int) ≤ 1 := by
  obtain ⟨t, run, returned⟩ := run_asked
  exact ⟨t, returned,
    returned_of_copied run returned asked_copied (initHashTable_isSome fun _ => rfl)⟩

end Sample

end RunServer.Dispatch.Finding
