/-
# Runner.Recording -- do the recorded tables reproduce the recording?

With `record_call` set nothing is limited, every checked number is marked in
`call_counter`, and at the end `print_call_array` writes the marked numbers as a pair of
tables in the form of `okcalls.h`.  Read back (`readTables`), they make
`init_syscalls_limits` allow the marked numbers without limit and no others
(`fillLimits_recorded`).

But the counter is cleared before each test, so the marks are those of the last test
only (`recorded_iff`).
-/
import RunServer.Runner.Finality

namespace RunServer.Runner

open RunServer.Theory
open RunServer.Theory.Loop

set_option autoImplicit false

/-! ## `print_call_array` -/

/-- `"int LANG_%sV[256]={"` and `"int LANG_%sC[256]={"`; `LANG_NAME` is never set. -/
def numbersHead : List Char := "int LANG_V[256]=\x7b".toList
def limitsHead : List Char := "int LANG_C[256]=\x7b".toList

def limitEntry : List Char := "HOJ_MAX_LIMIT,".toList
def tableEnd : List Char := "0\x7d;\n".toList

/-- The numbers whose entries are not 0, in order. -/
def markedNumbers (table : CallCounter) : List (Fin callArraySize) :=
  (List.finRange callArraySize).filter fun number => table number ≠ 0

/-- The texts given to `write_log`. -/
def printCallArray (table : CallCounter) : List (List Char) :=
  numbersHead :: (markedNumbers table).map (fun number => decimal number.val ++ [',']) ++
    tableEnd :: limitsHead :: (markedNumbers table).map (fun _ => limitEntry) ++ [tableEnd]

/-! ## Reading the tables back -/

/-- One entry of an initialiser, with the comma after it. -/
def readEntry (line : List Char) : Option Int :=
  if line = limitEntry then some hojMaxLimit
  else if line.getLast? = some ',' then ofDecimal? line.dropLast
  else none

/-- The entries up to the closing 0, and the lines after it. -/
def readEntries : List (List Char) → Option (List Int × List (List Char))
  | [] => none
  | line :: rest =>
      if line = tableEnd then some ([0], rest)
      else
        match readEntry line, readEntries rest with
        | some x, some (xs, more) => some (x :: xs, more)
        | _, _ => none

def readTables : List (List Char) → Option (List Int × List Int)
  | [] => none
  | head :: rest =>
      if head = numbersHead then
        match readEntries rest with
        | some (numbers, head' :: rest') =>
            if head' = limitsHead then
              match readEntries rest' with
              | some (limits, []) => some (numbers, limits)
              | _ => none
            else none
        | _ => none
      else none

/-- An entry of a number table, as an index. -/
def toNumber (x : Int) : Fin callArraySize := Fin.ofNat callArraySize x.toNat

/-- `call_counter` after `init_syscalls_limits` has walked these tables. -/
def fillFrom (numbers limits : List Int) : CallCounter :=
  fillLimits (numbers.map toNumber) limits fun _ => 0

/-! ## The round trip -/

section RoundTrip

variable {table : CallCounter} {number : Fin callArraySize}

theorem toNumber_val (number : Fin callArraySize) : toNumber (number.val : Int) = number := by
  apply Fin.ext
  simp [toNumber]

theorem readEntry_decimal (n : Nat) : readEntry (decimal n ++ [',']) = some (n : Int) := by
  have differs : decimal n ++ [','] ≠ limitEntry := by
    intro same
    have first : 'H' ∈ decimal n ++ [','] := by
      rw [same]
      decide
    simp only [List.mem_append, List.mem_singleton] at first
    exact first.elim (not_mem_decimal (by decide) (by decide) _) (by decide)
  simp [readEntry, differs, ofDecimal?_decimal]

theorem decimal_ne_tableEnd (n : Nat) : decimal n ++ [','] ≠ tableEnd := by
  intro same
  have last := congrArg List.getLast? same
  rw [List.getLast?_concat] at last
  exact absurd last (by decide)

/-- Entries that are read one by one are read as a table. -/
theorem readEntries_map {α : Type} (xs : List α) (line : α → List Char) (value : α → Int)
    (more : List (List Char)) (reads : ∀ x, readEntry (line x) = some (value x))
    (goesOn : ∀ x, line x ≠ tableEnd) :
    readEntries (xs.map line ++ tableEnd :: more) = some (xs.map value ++ [0], more) := by
  induction xs with
  | nil => simp [readEntries]
  | cons x xs ih =>
      simp only [List.map_cons, List.cons_append, readEntries, if_neg (goesOn x), reads, ih]

theorem readTables_printCallArray (table : CallCounter) :
    readTables (printCallArray table) =
      some ((markedNumbers table).map (fun number => (number.val : Int)) ++ [0],
        (markedNumbers table).map (fun _ => hojMaxLimit) ++ [0]) := by
  have numbers := readEntries_map (markedNumbers table)
    (fun number => decimal number.val ++ [',']) (fun number => (number.val : Int))
    (limitsHead :: ((markedNumbers table).map (fun _ => limitEntry) ++ [tableEnd]))
    (fun number => readEntry_decimal number.val) fun number => decimal_ne_tableEnd number.val
  have limits := readEntries_map (markedNumbers table) (fun _ => limitEntry)
    (fun _ => hojMaxLimit) [] (fun _ => by decide) fun _ => by decide
  have lines : printCallArray table = numbersHead ::
      ((markedNumbers table).map (fun number => decimal number.val ++ [',']) ++
        tableEnd :: limitsHead :: ((markedNumbers table).map (fun _ => limitEntry) ++
          [tableEnd])) := by
    simp [printCallArray]
  rw [lines]
  simp only [readTables, if_true, numbers, limits]

theorem mem_markedNumbers : number ∈ markedNumbers table ↔ table number ≠ 0 := by
  simp [markedNumbers]

theorem fillLimits_unlimited (numbers tail : List (Fin callArraySize)) (table : CallCounter)
    (number : Fin callArraySize) :
    (number ∈ numbers → fillLimits (numbers ++ tail)
      (numbers.map (fun _ => hojMaxLimit) ++ [0]) table number = hojMaxLimit) ∧
    (number ∉ numbers → fillLimits (numbers ++ tail)
      (numbers.map (fun _ => hojMaxLimit) ++ [0]) table number = table number) := by
  induction numbers generalizing table with
  | nil => simp [fillLimits]
  | cons first numbers ih =>
      have unlimited : hojMaxLimit ≠ 0 := by decide
      simp only [List.map_cons, List.cons_append, fillLimits, if_neg unlimited, List.tail_cons,
        List.headD_cons, List.mem_cons, not_or]
      obtain ⟨later, absent⟩ := ih (Function.update table first hojMaxLimit)
      constructor
      · intro member
        by_cases again : number ∈ numbers
        · exact later again
        · rw [absent again, member.resolve_right again, Function.update_self]
      · rintro ⟨other, noLater⟩
        rw [absent noLater, Function.update_of_ne other]

/-- **Read back, the tables allow the marked numbers without limit, and no others.** -/
theorem fillFrom_printed (table : CallCounter) : ∃ numbers limits,
    readTables (printCallArray table) = some (numbers, limits) ∧
      numbers.length = (markedNumbers table).length + 1 ∧
      limits.length = (markedNumbers table).length + 1 ∧
      ∀ number, fillFrom numbers limits number = if table number ≠ 0 then hojMaxLimit else 0 := by
  refine ⟨_, _, readTables_printCallArray table, by simp, by simp, fun number => ?_⟩
  have numbers : ((markedNumbers table).map (fun marked : Fin callArraySize =>
      (marked.val : Int)) ++ [0]).map toNumber = markedNumbers table ++ [0] := by
    simp only [List.map_append, List.map_map, Function.comp_def, toNumber_val, List.map_id']
    rfl
  obtain ⟨allowed, forbidden⟩ := fillLimits_unlimited (markedNumbers table) [0] (fun _ => 0) number
  rw [mem_markedNumbers] at allowed forbidden
  rw [fillFrom, numbers]
  split
  · rename_i marked
    exact allowed marked
  · rename_i unmarked
    exact forbidden unmarked

end RoundTrip

/-! ## What a run has recorded -/

/-- The stops of the child that are let through to the check, in a recorded test. -/
def observedStops (p : Parameters) (s : Progress) (t : Test) : List Observation :=
  passed (iteration true p s.usedtime)
    (startWatch s.topmemory (initSyscallsLimits true p.lang)) t.observations

/-- The child of a test started in `s` made this call. -/
def Observed (p : Parameters) (started : Progress × Test) (number : Fin callArraySize) : Prop :=
  ∃ o ∈ observedStops p started.1 started.2, o.origRax.toNat = number.val

instance (p : Parameters) (started : Progress × Test) (number : Fin callArraySize) :
    Decidable (Observed p started number) := inferInstanceAs (Decidable (∃ o ∈ _, _))

/-- The tests that are started, in order, each with the state it is started in. -/
def startedTests (b : Build) (p : Parameters) : Progress → List Entry → List (Progress × Test)
  | _, [] => []
  | s, e :: rest =>
      if s.judgeFlag = .AC then
        if isTest b e then
          (s, e.test) ::
            match runTest b p s e.test with
            | .error _ => []
            | .ok s' => startedTests b p s' rest
        else startedTests b p s rest
      else []

/-- The printed tables fit where they belong, and allow exactly what was observed in some
test. -/
def Reproduced (b : Build) (p : Parameters) (entries : List Entry) (s : Progress) : Prop :=
  ∃ numbers limits, readTables (printCallArray s.callCounter) = some (numbers, limits) ∧
    numbers.length ≤ 256 ∧ limits.length ≤ 256 ∧
    ∀ number, fillFrom numbers limits number =
      if ∃ started ∈ startedTests b p startProgress entries, Observed p started number then
        hojMaxLimit
      else 0

section Recorded

variable {fallOff : Int} {p : Parameters} {usedtime topmemory : Int} {w w' : Watch}
variable {number : Fin callArraySize}

/-- A recorded stop marks its number, and nothing else. -/
theorem checkSyscall_records {callid : UInt64}
    (turn : checkSyscall true callid w = .ok (.again w')) :
    w'.callCounter number = if callid.toNat = number.val then 1 else w.callCounter number := by
  have inside := inside_of_again turn
  simp only [checkSyscall, inside, dif_pos, Bool.not_true, Bool.false_and, Bool.false_eq_true,
    if_false, if_true] at turn
  cases turn
  by_cases here : callid.toNat = number.val
  · obtain rfl : number = ⟨callid.toNat, inside⟩ := Fin.ext here.symm
    simp
  · have differs : number ≠ ⟨callid.toNat, inside⟩ := fun same => here (by rw [same])
    simp [here, differs]

theorem passes_records {pre : List Observation}
    (run : Passes (iteration true p usedtime) w pre w') :
    w'.callCounter number =
      if ∃ o ∈ pre, o.origRax.toNat = number.val then 1 else w.callCounter number := by
  induction run with
  | nil => simp
  | @cons w next w' o rest turn _ ih =>
      rw [ih, checkSyscall_records (passable_of_again turn).2]
      by_cases later : ∃ o ∈ rest, o.origRax.toNat = number.val
      · simp [later]
      · simp [later]

/-- A pass that leaves the loop leaves the counter. -/
theorem leave_callCounter {recordCall : Bool} {o : Observation}
    (leaves : iteration recordCall p usedtime w o = .ok (.leave w')) :
    w'.callCounter = w.callCounter := by
  rcases iteration_cases recordCall p usedtime w o with
    ⟨pass, checks⟩ | ⟨-, ends⟩ | ⟨judgeFlag, requests, -, ends⟩
  · rw [checks] at leaves
    exact absurd leaves (checkSyscall_ne_leave _)
  · rw [ends] at leaves
    cases leaves
    rfl
  · rw [ends] at leaves
    cases leaves
    rfl

theorem runTest_records {s s' : Progress} {t : Test}
    (ran : runTest ⟨true, fallOff⟩ p s t = .ok s') :
    s'.callCounter number ≠ 0 ↔ Observed p (s, t) number := by
  obtain ⟨w, used, watched, -, -, same⟩ := runTest_watched ran
  obtain ⟨last, left, -⟩ := watchSolution_left watched
  obtain ⟨pre, post, before, split, run, leaves⟩ := drive_left_iff.1 left
  have stops : observedStops p s t = pre := by
    unfold observedStops
    rw [split, passed_append run, passed, leaves]
    simp
  have cleared : (startWatch s.topmemory (initSyscallsLimits true p.lang)).callCounter number =
      0 := rfl
  unfold Observed
  rw [same, leave_callCounter leaves, passes_records run, cleared, stops]
  simp

theorem startedTests_ran {b : Build} {s s' : Progress} {e : Entry} {rest : List Entry}
    (accepted : s.judgeFlag = .AC) (test : isTest b e = true)
    (ran : runTest b p s e.test = .ok s') :
    startedTests b p s (e :: rest) = (s, e.test) :: startedTests b p s' rest := by
  simp [startedTests, accepted, test, ran]

/-- **What the counter holds at the end**: the calls of the last test that was started. -/
theorem testLoop_records {s s' : Progress} {entries : List Entry}
    (loop : testLoop ⟨true, fallOff⟩ p s entries = .ok s') :
    (startedTests ⟨true, fallOff⟩ p s entries = [] ∧ s'.callCounter = s.callCounter) ∨
      ∃ last ∈ (startedTests ⟨true, fallOff⟩ p s entries).getLast?,
        ∀ number, s'.callCounter number ≠ 0 ↔ Observed p last number := by
  induction entries generalizing s with
  | nil =>
      cases loop
      exact Or.inl ⟨rfl, rfl⟩
  | cons e rest ih =>
      by_cases accepted : s.judgeFlag = .AC
      · by_cases test : isTest ⟨true, fallOff⟩ e = true
        · cases ran : runTest ⟨true, fallOff⟩ p s e.test with
          | error stuck => simp [testLoop, accepted, test, ran] at loop
          | ok next =>
              simp only [testLoop, accepted, test, ran, if_true] at loop
              rw [startedTests_ran accepted test ran]
              rcases ih loop with ⟨none, same⟩ | ⟨last, isLast, marks⟩
              · refine Or.inr ⟨(s, e.test), by simp [none], fun number => ?_⟩
                rw [same]
                exact runTest_records ran
              · refine Or.inr ⟨last, ?_, marks⟩
                rw [Option.mem_def] at isLast ⊢
                rw [List.getLast?_cons, isLast]
                rfl
        · simp only [testLoop, accepted, test, if_true, Bool.false_eq_true, if_false] at loop
          simp only [startedTests, accepted, test, if_true, Bool.false_eq_true, if_false]
          exact ih loop
      · simp only [testLoop, accepted, if_false] at loop
        cases loop
        exact Or.inl ⟨by simp [startedTests, accepted], rfl⟩

end Recorded

/-- What is reproduced is marked at the end. -/
theorem Reproduced.marked {b : Build} {p : Parameters} {entries : List Entry} {s : Progress}
    (reproduced : Reproduced b p entries s) {started : Progress × Test}
    (member : started ∈ startedTests b p startProgress entries) {number : Fin callArraySize}
    (seen : Observed p started number) : s.callCounter number ≠ 0 := by
  obtain ⟨numbers, limits, reads, -, -, fills⟩ := fillFrom_printed s.callCounter
  obtain ⟨numbers', limits', reads', -, -, fills'⟩ := reproduced
  rw [reads] at reads'
  cases reads'
  have allowed : fillFrom numbers limits number = hojMaxLimit :=
    (fills' number).trans (if_pos ⟨started, member, seen⟩)
  intro zero
  rw [fills, zero] at allowed
  exact absurd allowed (by decide)

/-- **The tables reproduce the recording** exactly when every number observed in some test
is observed in the last one. -/
theorem recorded_iff {fallOff : Int} {p : Parameters} {entries : List Entry} {s : Progress}
    (loop : testLoop ⟨true, fallOff⟩ p startProgress entries = .ok s)
    (few : ∃ known : List (Fin callArraySize), known.length ≤ 255 ∧
      ∀ started ∈ startedTests ⟨true, fallOff⟩ p startProgress entries,
        ∀ number, Observed p started number → number ∈ known) :
    Reproduced ⟨true, fallOff⟩ p entries s ↔
      ∀ started ∈ startedTests ⟨true, fallOff⟩ p startProgress entries,
        ∀ number, Observed p started number →
          ∃ last ∈ (startedTests ⟨true, fallOff⟩ p startProgress entries).getLast?,
            Observed p last number := by
  obtain ⟨numbers, limits, reads, length, length', fills⟩ := fillFrom_printed s.callCounter
  have marked : ∀ number, s.callCounter number ≠ 0 ↔
      ∃ last ∈ (startedTests ⟨true, fallOff⟩ p startProgress entries).getLast?,
        Observed p last number := by
    intro number
    rcases testLoop_records loop with ⟨none, same⟩ | ⟨last, isLast, marks⟩
    · have cleared : startProgress.callCounter number = 0 := rfl
      simp [none, same, cleared]
    · rw [marks number]
      constructor
      · exact fun seen => ⟨last, isLast, seen⟩
      · rintro ⟨other, isLast', seen⟩
        exact Option.mem_unique isLast' isLast ▸ seen
  constructor
  · intro reproduced started member number seen
    exact (marked number).mp (reproduced.marked member seen)
  · intro again
    have known : (markedNumbers s.callCounter).length ≤ 255 := by
      obtain ⟨known, small, all⟩ := few
      have subset : markedNumbers s.callCounter ⊆ known := by
        intro number member
        obtain ⟨last, isLast, seen⟩ := (marked number).mp (mem_markedNumbers.mp member)
        exact all last (List.mem_of_getLast? isLast) number seen
      have nodup : (markedNumbers s.callCounter).Nodup := (List.nodup_finRange _).filter _
      exact (List.subperm_of_subset nodup subset).length_le.trans small
    refine ⟨numbers, limits, reads, by omega, by omega, fun number => ?_⟩
    rw [fills]
    refine if_congr ?_ rfl rfl
    rw [marked number]
    constructor
    · rintro ⟨last, isLast, seen⟩
      exact ⟨last, List.mem_of_getLast? isLast, seen⟩
    · rintro ⟨started, member, seen⟩
      exact again started member number seen

namespace Sample

def recording : Build := ⟨true, 8⟩

/-- `"a.in"` and `"b.in"`, whose children make these calls. -/
def recorded (first second : List UInt64) : List Entry :=
  [entry first, ⟨[98, 46, 105, 110], test second⟩]

/-- The calls a test was observed to make. -/
def callsOf (started : Progress × Test) : List UInt64 :=
  (observedStops parameters started.1 started.2).map Observation.origRax

theorem observed_iff {started : Progress × Test} {number : Fin callArraySize} :
    Observed parameters started number ↔ ∃ call ∈ callsOf started, call.toNat = number.val := by
  simp [Observed, callsOf]

theorem mem_of_observed {started : Progress × Test} {number m n : Fin callArraySize}
    (known : (callsOf started).all (fun call => call.toNat = m.val ∨ call.toNat = n.val) = true)
    (seen : Observed parameters started number) : number ∈ [m, n] := by
  obtain ⟨call, isCall, same⟩ := observed_iff.mp seen
  rcases of_decide_eq_true (List.all_eq_true.mp known call isCall) with first | second
  · simp [Fin.ext (same.symm.trans first)]
  · simp [Fin.ext (same.symm.trans second)]

/-- Two tests that make the same calls. -/
theorem recorded_iff_sample :
    ∃ s, testLoop recording parameters startProgress (recorded [59, 231] [59, 231]) = .ok s ∧
      Reproduced recording parameters (recorded [59, 231] [59, 231]) s := by
  have calls : ∀ started ∈ startedTests recording parameters startProgress
      (recorded [59, 231] [59, 231]), callsOf started = [59, 231] := by decide
  refine ⟨_, rfl, (recorded_iff rfl ⟨[Sys.execve, Sys.exitGroup], by decide, ?_⟩).mpr ?_⟩
  · intro started member number seen
    refine mem_of_observed ?_ seen
    rw [calls started member]
    decide
  · intro started member number seen
    rw [observed_iff, calls started member] at seen
    have isLast := List.getLast?_eq_some_getLast (List.ne_nil_of_mem member)
    refine ⟨_, isLast, ?_⟩
    rw [observed_iff, calls _ (List.mem_of_getLast? isLast)]
    exact seen

/-- The first test calls `mmap` and the second does not: the tables forbid it. -/
theorem unrecorded_sample :
    ¬ ∀ fallOff p entries s, testLoop ⟨true, fallOff⟩ p startProgress entries = .ok s →
      (∃ known : List (Fin callArraySize), known.length ≤ 255 ∧
        ∀ started ∈ startedTests ⟨true, fallOff⟩ p startProgress entries,
          ∀ number, Observed p started number → number ∈ known) →
      Reproduced ⟨true, fallOff⟩ p entries s := by
  intro reproduced
  have known : ∀ started ∈ startedTests recording parameters startProgress
      (recorded [59, 9] [59]), (callsOf started).all (fun call =>
        call.toNat = Sys.execve.val ∨ call.toNat = Sys.mmap.val) = true := by decide
  have held := reproduced 8 parameters (recorded [59, 9] [59]) _ rfl
    ⟨[Sys.execve, Sys.mmap], by decide, fun started member number seen => ?_⟩
  · have seen : Observed parameters (startProgress, test [59, 9]) Sys.mmap := by decide
    exact held.marked (List.mem_cons_self ..) seen (by decide)
  · exact mem_of_observed (known started member) seen

end Sample

end RunServer.Runner
