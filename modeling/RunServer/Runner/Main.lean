/-
# Runner.Main -- the runner's test loop and its one line of output

`main` reads the command line, enters the work directory, and runs the child once
for each directory entry that `prepare_files` takes for a test, as long as the
verdict is `JudgeAC`.  An `Entry` is a name with what the world shows the runner
while it is that entry's turn: the reports of `wait4`, and the two files `compare`
opens.

Two things the source leaves open are parameters (`Build`): the constant
`record_call`, and the value the caller of `prepare_files` finds after it has run
off its end without a `return`.
-/
import RunServer.Theory.Decimal
import RunServer.Runner.Watch

namespace RunServer.Runner

open RunServer.Theory
open RunServer.Theory.Loop

set_option autoImplicit false

structure Build where
  recordCall : Bool
  fallOff : Int
  deriving DecidableEq, Repr

/-! ## `prepare_files` -/

/-- `".in"`, `".out"` and `"user.out"`. -/
def dotIn : List UInt8 := [46, 105, 110]
def dotOut : List UInt8 := [46, 111, 117, 116]
def userOutName : List UInt8 := [117, 115, 101, 114, 46, 111, 117, 116]

structure TestFiles where
  infile : List UInt8
  outfile : List UInt8
  userfile : List UInt8
  deriving DecidableEq, Repr

/-- `return 0`, or off the end of the function with the three names written. -/
inductive Prepared where
  | refused
  | fellOff (files : TestFiles)
  deriving DecidableEq, Repr

def prepareFiles (filename : List UInt8) : Prepared :=
  let l := filename.length
  if l ≤ 3 ∨ filename.drop (l - 3) ≠ dotIn then .refused
  else
    let fname := filename.take (l - 3)
    .fellOff { infile := fname ++ dotIn, outfile := fname ++ dotOut, userfile := userOutName }

/-- The names a test is given are those of its stem. -/
theorem prepareFiles_stem {name : List UInt8} {files : TestFiles}
    (prepared : prepareFiles name = .fellOff files) :
    ∃ stem, name = stem ++ dotIn ∧ files = ⟨stem ++ dotIn, stem ++ dotOut, userOutName⟩ := by
  unfold prepareFiles at prepared
  dsimp only at prepared
  split at prepared
  · cases prepared
  · rename_i taken
    cases prepared
    rw [not_or, not_not] at taken
    refine ⟨name.take (name.length - 3), ?_, rfl⟩
    rw [← taken.2, List.take_append_drop]

/-- What the caller compares with 0. -/
def Prepared.value (fallOff : Int) : Prepared → Int
  | .refused => 0
  | .fellOff _ => fallOff

/-! ## One test -/

structure Test where
  observations : List Observation
  /-- `outfile` and `userfile` when `compare` opens them. -/
  answer : Option (List UInt8)
  output : Option (List UInt8)
  deriving DecidableEq, Repr

structure Entry where
  dName : List UInt8
  test : Test
  deriving DecidableEq, Repr

/-- The variables of `main`, and the global counter. -/
structure Progress where
  judgeFlag : Judge
  usedtime : Int
  topmemory : Int
  count : Nat
  callCounter : CallCounter

def startProgress : Progress :=
  { judgeFlag := .AC, usedtime := 0, topmemory := 0, count := 0, callCounter := fun _ => 0 }

def judgeSolution (p : Parameters) (usedtime topmemory : Int)
    (outfile userfile : Option (List UInt8)) : Option Judge :=
  if usedtime > p.timeLimit then some .TLE
  else if topmemory > p.memoryLimit then some .MLE
  else compare outfile userfile

section Main

variable (b : Build) (p : Parameters)

def isTest (e : Entry) : Bool := (prepareFiles e.dName).value b.fallOff ≠ 0

/-- The body of the loop for one test: fresh limits, the watched run, the comparison. -/
def runTest (s : Progress) (t : Test) : Except Stuck Progress :=
  match watchSolution b.recordCall p s.usedtime s.topmemory
      (initSyscallsLimits b.recordCall p.lang) t.observations with
  | .error stuck => .error stuck
  | .ok (w, usedtime) =>
      let s' : Progress :=
        { judgeFlag := w.judgeFlag, usedtime, topmemory := w.topmemory, count := s.count + 1,
          callCounter := w.callCounter }
      if w.judgeFlag = .AC then
        match judgeSolution p usedtime w.topmemory t.answer t.output with
        | none => .error .unfinished
        | some judgeFlag => .ok { s' with judgeFlag }
      else .ok s'

/-- `for (; judge_flag == JudgeAC && (dirp = readdir(dp)) != NULL;)`. -/
def testLoop : Progress → List Entry → Except Stuck Progress
  | s, [] => .ok s
  | s, e :: rest =>
      if s.judgeFlag = .AC then
        if isTest b e then
          match runTest b p s e.test with
          | .error stuck => .error stuck
          | .ok s' => testLoop s' rest
        else testLoop s rest
      else .ok s

/-- What the last lines of `main` make of it. -/
structure Report where
  judgeFlag : Judge
  usedtime : Int
  topmemory : Int
  deriving DecidableEq, Repr

def report (s : Progress) : Report :=
  let judgeFlag := if s.count = 0 then .NA else s.judgeFlag
  { judgeFlag
    usedtime := if judgeFlag = .TLE then p.timeLimit else s.usedtime
    topmemory := s.topmemory }

/-- From the start of the test loop to the printed values. -/
def runTests (entries : List Entry) : Except Stuck Report :=
  match testLoop b p startProgress entries with
  | .error stuck => .error stuck
  | .ok s => .ok (report p s)

end Main

/-! ## The process -/

/-- `printf("%d %d %d", ...)`. -/
def Report.print (r : Report) : List Char :=
  [' '].intercalate [decimal r.judgeFlag.code, decimal r.usedtime, decimal r.topmemory]

def Report.exitCode (r : Report) : Int :=
  if r.judgeFlag = .AC then 0 else if r.judgeFlag = .NA then 3 else r.judgeFlag.code

/-- What `chdir` and `opendir` find at `work_dir`. -/
inductive WorkDir where
  | noDirectory
  | unreadable
  | opened (entries : List Entry)
  deriving DecidableEq, Repr

structure Exit where
  code : Int
  stdout : List Char
  deriving DecidableEq, Repr

def main (b : Build) (argv : List (List UInt8)) (workDir : Parameters → WorkDir) :
    Except Stuck Exit :=
  match initParameters argv with
  | .error (.exit code) => .ok ⟨code, []⟩
  | .error .undefined => .error .undefined
  | .ok p =>
      match workDir p with
      | .noDirectory => .ok ⟨Judge.NA.code, []⟩
      | .unreadable => .ok ⟨Judge.NA.code, []⟩
      | .opened entries =>
          match runTests b p entries with
          | .error stuck => .error stuck
          | .ok r => .ok ⟨r.exitCode, r.print⟩

/-! ## Rules of the test loop -/

section Rules

variable {b : Build} {p : Parameters}

/-- What a test leaves, apart from the verdict, its watch has left. -/
theorem runTest_watched {s s' : Progress} {t : Test} (ran : runTest b p s t = .ok s') :
    ∃ w used, watchSolution b.recordCall p s.usedtime s.topmemory
        (initSyscallsLimits b.recordCall p.lang) t.observations = .ok (w, used) ∧
      s'.usedtime = used ∧ s'.topmemory = w.topmemory ∧ s'.callCounter = w.callCounter := by
  unfold runTest at ran
  split at ran
  · cases ran
  · rename_i w used watched
    refine ⟨w, used, watched, ?_⟩
    dsimp only at ran
    split at ran
    · split at ran
      · cases ran
      · cases ran
        exact ⟨rfl, rfl, rfl⟩
    · cases ran
      exact ⟨rfl, rfl, rfl⟩

theorem testLoop_append (s : Progress) (before after : List Entry) :
    testLoop b p s (before ++ after) =
      match testLoop b p s before with
      | .error stuck => .error stuck
      | .ok s' => testLoop b p s' after := by
  induction before generalizing s with
  | nil => rfl
  | cons e before ih =>
      simp only [List.cons_append, testLoop]
      split
      · split
        · cases runTest b p s e.test with
          | error stuck => rfl
          | ok s' => exact ih s'
        · exact ih s
      · rename_i stopped
        cases after <;> simp [testLoop, stopped]

/-- **Invariant rule**: what one accepted start of a test keeps, the loop keeps. -/
theorem testLoop_invariant {I : Progress → Prop} {s s' : Progress} {entries : List Entry}
    (start : I s) (loop : testLoop b p s entries = .ok s')
    (kept : ∀ s t s', I s → s.judgeFlag = .AC → runTest b p s t = .ok s' → I s') : I s' := by
  induction entries generalizing s with
  | nil =>
      cases loop
      exact start
  | cons e rest ih =>
      simp only [testLoop] at loop
      split at loop
      · rename_i accepted
        split at loop
        · cases ran : runTest b p s e.test with
          | error stuck => rw [ran] at loop; cases loop
          | ok next =>
              rw [ran] at loop
              exact ih (kept s e.test next start accepted ran) loop
        · exact ih start loop
      · cases loop
        exact start

end Rules

/-- `main` starts the test of an entry in state `s`. -/
structure StartsTest (b : Build) (p : Parameters) (entries : List Entry) (s : Progress)
    (t : Test) : Prop where
  accepted : s.judgeFlag = .AC
  reached : ∃ before e after, entries = before ++ e :: after ∧ isTest b e = true ∧ e.test = t ∧
    testLoop b p startProgress before = .ok s

/-! ## A small run -/

namespace Sample

/-- What an unoptimised build leaves for the missing `return`: the count of the
last `sprintf`. -/
def build : Build := ⟨false, 8⟩

/-- C, one second, 64 MB. -/
def parameters : Parameters := ⟨langC, 1, 64, [], by decide, by decide⟩

/-- A stop at a system call (`SIGTRAP`), one millisecond in, 100 kB. -/
def stop (callid : UInt64) : Observation :=
  { status := 5 * 256 + 127, ruse := ⟨⟨0, 1000⟩, ⟨0, 0⟩, 30⟩, vmPeak := 100, errorOut := 0,
    userOut := 0, answer := 0, origRax := callid }

/-- `exit(0)`, one millisecond in. -/
def exit : Observation := { stop 0 with status := 0, vmPeak := 0 }

/-- A child that makes these stops, exits, and writes the empty answer. -/
def test (callids : List UInt64) : Test := ⟨callids.map stop ++ [exit], some [], some []⟩

/-- `"a.in"`. -/
def entry (callids : List UInt64) : Entry := ⟨[97, 46, 105, 110], test callids⟩

/-- `execve` returns, `exit_group` is entered, and the run is accepted. -/
example : (runTests build parameters [entry [59, 231]]).toOption =
    some ⟨.AC, 1, 122880⟩ := by decide

end Sample

end RunServer.Runner
