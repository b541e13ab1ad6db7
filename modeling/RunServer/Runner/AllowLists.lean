/-
# Runner.AllowLists -- is every listed system call allowed?

`okcalls.h` means a number table and its limit table to be read side by side.  On x86-64
the limit tables are shorter, and `init_syscalls_limits` stops with them: a number that
is listed only past their end stays at 0, like one that is not listed.

`unusable` are these numbers, and `listedAllowed_iff` says that a program which keeps to
the number table of its language is left alone exactly while it avoids them.
-/
import RunServer.Runner.Budget

namespace RunServer.Runner

open RunServer.Theory
open RunServer.Theory.Loop

set_option autoImplicit false

/-! ## The tables -/

/-- The number table of a language, up to the closing 0. -/
def listed (lang : Int) : List (Fin callArraySize) :=
  if lang = langJava then langTableJV.dropLast else langTableCV.dropLast

/-- Listed past the end of the limit table, and nowhere before it. -/
def unusable (lang : Int) : List (Fin callArraySize) :=
  if lang = langJava then
    [Sys.uname, Sys.getuid, Sys.getgid, Sys.geteuid, Sys.getegid, Sys.setThreadArea]
  else [Sys.open_, Sys.close, Sys.mprotect, Sys.setThreadArea, 252]

/-- The three languages a program can be in. -/
def Supported (lang : Int) : Prop := lang = langC ∨ lang = langCC ∨ lang = langJava

/-- Every number of the first list is in just one of the other two. -/
def splitBy (numbers first second : List (Fin callArraySize)) : Bool :=
  numbers.all fun number => first.contains number != second.contains number

theorem mem_iff_of_splitBy {numbers first second : List (Fin callArraySize)}
    (parts : splitBy numbers first second = true) {number : Fin callArraySize}
    (member : number ∈ numbers) : number ∈ first ↔ number ∉ second := by
  have one := List.all_eq_true.mp parts number member
  by_cases inFirst : number ∈ first
  · simpa [inFirst] using one
  · simpa [inFirst] using one

/-- **What becomes of a listed number.** -/
theorem entered_iff_usable {lang : Int} {number : Fin callArraySize} (supported : Supported lang)
    (inTable : number ∈ listed lang) : Entered lang number ↔ number ∉ unusable lang := by
  have native : splitBy langTableCV.dropLast
      ((pairLimits langTableCV langTableCC).map Prod.fst) (unusable langC) = true := by rfl
  have java : splitBy langTableJV.dropLast
      ((pairLimits langTableJV langTableJC).map Prod.fst) (unusable langJava) = true := by rfl
  rcases supported with rfl | rfl | rfl
  · exact mem_iff_of_splitBy native inTable
  · exact mem_iff_of_splitBy native inTable
  · exact mem_iff_of_splitBy java inTable

/-! ## Programs that keep to the table -/

section Listed

variable {p : Parameters} {usedtime topmemory : Int} {observations pre : List Observation}
variable {w : Watch} {o : Observation} {number : Fin callArraySize}

/-- Every stop that is checked is at a listed number, and no number is called as often as
its limit. -/
structure KeepsToTable (p : Parameters) (usedtime topmemory : Int)
    (observations : List Observation) : Prop where
  numbers : ∀ pre w o, ChecksAfter p usedtime topmemory observations pre w o →
    ∃ number ∈ listed p.lang, number.val = o.origRax.toNat
  calls : ∀ pre w o, ChecksAfter p usedtime topmemory observations pre w o →
    ∀ number, 0 < initSyscallsLimits false p.lang number →
      secondStops (pre ++ [o]) number < initSyscallsLimits false p.lang number

theorem secondStops_le_snoc (stops : List Observation) (o : Observation)
    (number : Fin callArraySize) :
    secondStops stops number ≤ secondStops (stops ++ [o]) number := by
  rw [secondStops_snoc]
  omega

/-- A number with a limit that is not used up has calls left. -/
theorem remainingCalls_of_fewer {lang : Int} {stops : List Observation}
    (entered : Entered lang number)
    (fewer : 0 < initSyscallsLimits false lang number →
      secondStops stops number < initSyscallsLimits false lang number) :
    remainingCalls lang stops number ≠ 0 := by
  by_cases limited : 0 < initSyscallsLimits false lang number
  · exact (remainingCalls_limited limited).mpr (fewer limited)
  · unfold remainingCalls
    simp only [limited, if_false]
    exact (initSyscallsLimits_ne_zero_iff lang number).mpr entered

/-- At a listed number, the check goes by whether the number was entered. -/
theorem ChecksAfter.unflagged_iff (keeps : KeepsToTable p usedtime topmemory observations)
    (checks : ChecksAfter p usedtime topmemory observations pre w o)
    (same : number.val = o.origRax.toNat) :
    Unflagged p usedtime w o ↔ Entered p.lang number := by
  constructor
  · intro unflagged
    by_contra absent
    exact (checks.rejected same (remainingCalls_of_not_entered absent pre)).not_unflagged unflagged
  · intro entered
    refine checks.unflagged same (remainingCalls_of_fewer entered fun limited => ?_)
    have total := keeps.calls pre w o checks number limited
    have sooner := secondStops_le_snoc pre o number
    omega

end Listed

/-- **A program that keeps to the number table is never flagged** exactly while none of its
stops is at an unusable number. -/
theorem listedAllowed_iff {p : Parameters} {usedtime topmemory : Int}
    {observations : List Observation} (supported : Supported p.lang)
    (keeps : KeepsToTable p usedtime topmemory observations) :
    (∀ pre w o, ChecksAfter p usedtime topmemory observations pre w o →
      Unflagged p usedtime w o) ↔
    ∀ pre w o, ChecksAfter p usedtime topmemory observations pre w o →
      ∀ number ∈ unusable p.lang, number.val ≠ o.origRax.toNat := by
  constructor
  · intro allowed pre w o checks number avoided same
    obtain ⟨number', inTable, same'⟩ := keeps.numbers pre w o checks
    obtain rfl : number' = number := Fin.ext (same'.trans same.symm)
    have entered := (checks.unflagged_iff keeps same).mp (allowed pre w o checks)
    exact (entered_iff_usable supported inTable).mp entered avoided
  · intro avoids pre w o checks
    obtain ⟨number, inTable, same⟩ := keeps.numbers pre w o checks
    refine (checks.unflagged_iff keeps same).mpr ((entered_iff_usable supported inTable).mpr ?_)
    exact fun avoided => avoids pre w o checks number avoided same

namespace Sample

theorem secondStops_absent {stops : List Observation} {number : Fin callArraySize}
    (absent : ∀ o ∈ stops, o.origRax.toNat ≠ number.val) : secondStops stops number = 0 := by
  induction stops using List.reverseRecOn with
  | nil => rfl
  | append_singleton stops o ih =>
      have earlier := ih fun o member => absent o (List.mem_append_left _ member)
      have last := absent o (by simp)
      simp [secondStops_snoc, earlier, last]

/-- C programs whose stops are all at listed numbers other than `time`. -/
theorem keepsToTable {observations : List Observation}
    (numbers : ∀ o ∈ observations,
      (listed langC).any (fun number => number.val = o.origRax.toNat) = true)
    (timeless : ∀ o ∈ observations, o.origRax.toNat ≠ Sys.time.val) :
    KeepsToTable parameters 0 0 observations := by
  refine ⟨?_, ?_⟩
  · rintro pre w o ⟨⟨post, rfl⟩, -, -⟩
    obtain ⟨number, inTable, same⟩ := List.any_eq_true.mp (numbers o (by simp))
    exact ⟨number, inTable, of_decide_eq_true same⟩
  · rintro pre w o ⟨⟨post, rfl⟩, -, -⟩ number limited
    obtain ⟨-, rfl⟩ := limited_iff.mp limited
    rw [secondStops_absent fun o member => timeless o (by simp at member ⊢; tauto)]
    exact limited

/-- `execve` and `exit_group`. -/
theorem listedAllowed_iff_sample :
    (∃ pre w o, ChecksAfter parameters 0 0 [stop 59, stop 231, exit] pre w o) ∧
      ∀ pre w o, ChecksAfter parameters 0 0 [stop 59, stop 231, exit] pre w o →
        Unflagged parameters 0 w o := by
  refine ⟨⟨[], _, stop 59, ⟨_, rfl⟩, .nil _, by constructor <;> decide⟩, ?_⟩
  refine (listedAllowed_iff (Or.inl rfl) (keepsToTable (by decide) (by decide))).mpr ?_
  rintro pre w o ⟨⟨post, split⟩, -, -⟩ number avoided
  have inside : o ∈ [stop 59, stop 231, exit] := by simp [split]
  have apart : ∀ o ∈ [stop 59, stop 231, exit],
      (unusable langC).all (fun number => number.val ≠ o.origRax.toNat) = true := by decide
  exact of_decide_eq_true (List.all_eq_true.mp (apart o inside) number avoided)

/-- `mprotect` is listed for C, and rejected. -/
theorem listed_rejected_sample :
    ¬ ∀ p usedtime topmemory observations, Supported p.lang →
      KeepsToTable p usedtime topmemory observations →
      ∀ pre w o, ChecksAfter p usedtime topmemory observations pre w o →
        Unflagged p usedtime w o := by
  intro allowed
  have keeps : KeepsToTable parameters 0 0 [stop 59, stop 10] :=
    keepsToTable (by decide) (by decide)
  have run : Passes (iteration false parameters 0)
      (startWatch 0 (initSyscallsLimits false langC)) [stop 59] _ := passes_of_waiting rfl
  have checks : ChecksAfter parameters 0 0 [stop 59, stop 10] [stop 59] _ (stop 10) :=
    ⟨⟨[], rfl⟩, run, by constructor <;> decide⟩
  have same : Sys.mprotect.val = (stop 10).origRax.toNat := by decide
  exact (checks.rejected same (by decide)).not_unflagged
    (allowed _ _ _ _ (Or.inl rfl) keeps _ _ _ checks)

end Sample

end RunServer.Runner
