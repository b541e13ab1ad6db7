/-
# Runner.Directory -- the runner in its work directory

In `Runner.Watch` the sizes a report comes with are given.  Here they are what
`stat` finds: a `Directory` of files, the child writing `user.out` and `error.out`
up to each report (`Event`), the parent appending to `error.out`, and `run_solution`
opening the two files for the next child, one truncated and one not.

`runCase_refines` connects the two layers: whatever a run does here, the runner of
`Runner.Main` does on reports that pair with its events.
-/
import RunServer.Runner.Usage

namespace RunServer.Runner

open RunServer.Theory
open RunServer.Theory.Loop

set_option autoImplicit false

/-! ## Files -/

/-- The files of `work_dir` by name. -/
abbrev Directory := List UInt8 → Option (List UInt8)

/-- `"error.out"`. -/
def errorOutName : List UInt8 := [101, 114, 114, 111, 114, 46, 111, 117, 116]

namespace Directory

def contents (d : Directory) (name : List UInt8) : List UInt8 := (d name).getD []

/-- `get_file_size`: 0 for a file that is not there. -/
def size (d : Directory) (name : List UInt8) : Nat := (d.contents name).length

def write (d : Directory) (name bytes : List UInt8) : Directory :=
  Function.update d name (some bytes)

/-- A file opened with `"a+"`, and then written. -/
def append (d : Directory) (name bytes : List UInt8) : Directory :=
  d.write name (d.contents name ++ bytes)

/-- The directory without what earlier runs wrote. -/
def fresh (d : Directory) : Directory :=
  Function.update (Function.update d userOutName none) errorOutName none

theorem write_self (d : Directory) (name bytes : List UInt8) :
    d.write name bytes name = some bytes :=
  Function.update_self ..

theorem write_of_ne {d : Directory} {name other bytes : List UInt8} (differ : name ≠ other) :
    d.write other bytes name = d name :=
  Function.update_of_ne differ _ _

theorem append_self (d : Directory) (name bytes : List UInt8) :
    d.append name bytes name = some (d.contents name ++ bytes) :=
  d.write_self ..

theorem append_of_ne {d : Directory} {name other bytes : List UInt8} (differ : name ≠ other) :
    d.append other bytes name = d name :=
  write_of_ne differ

theorem contents_of_eq {d : Directory} {name bytes : List UInt8} (there : d name = some bytes) :
    d.contents name = bytes := by
  rw [contents, there]
  rfl

theorem contents_write_of_ne {d : Directory} {name other bytes : List UInt8}
    (differ : name ≠ other) : (d.write other bytes).contents name = d.contents name := by
  rw [contents, write_of_ne differ, contents]

end Directory

theorem errorOutName_ne : errorOutName ≠ userOutName := by decide

/-! ## The child and the parent write -/

/-- What a child writes up to its next report, and the report.  `user.out` is written at
any position, `error.out` at its end. -/
structure Event where
  userOut : List UInt8 → List UInt8
  stderr : List UInt8
  status : Nat
  ruse : Rusage
  vmPeak : Int
  origRax : UInt64

def Event.write (e : Event) (d : Directory) : Directory :=
  (d.write userOutName (e.userOut (d.contents userOutName))).append errorOutName e.stderr

/-- What the parent reads with the report. -/
def Event.observe (e : Event) (files : TestFiles) (d : Directory) : Observation :=
  { status := e.status
    ruse := e.ruse
    vmPeak := e.vmPeak
    errorOut := d.size errorOutName
    userOut := d.size files.userfile
    answer := d.size files.outfile
    origRax := e.origRax }

section Files

variable {name : List UInt8} (e : Event) (d : Directory)

@[simp] theorem Event.write_userOut :
    e.write d userOutName = some (e.userOut (d.contents userOutName)) :=
  (Directory.append_of_ne errorOutName_ne.symm).trans (d.write_self ..)

@[simp] theorem Event.write_errorOut :
    e.write d errorOutName = some (d.contents errorOutName ++ e.stderr) := by
  rw [Event.write, Directory.append_self, Directory.contents_write_of_ne errorOutName_ne]

variable {e d} in
theorem Event.write_of_ne (user : name ≠ userOutName) (error : name ≠ errorOutName) :
    e.write d name = d name :=
  (Directory.append_of_ne error).trans (Directory.write_of_ne user)

/-- The two files a child writes, and all others. -/
theorem Directory.ext_files {d d' : Directory} (user : d userOutName = d' userOutName)
    (error : d errorOutName = d' errorOutName)
    (others : ∀ name, name ≠ userOutName → name ≠ errorOutName → d name = d' name) : d = d' := by
  funext name
  by_cases isUser : name = userOutName
  · rw [isUser, user]
  · by_cases isError : name = errorOutName
    · rw [isError, error]
    · exact others name isUser isError

end Files

def ascii (s : String) : List UInt8 := s.toUTF8.toList

section Run

variable (strsignal : Nat → String)

def RuntimeError.text : RuntimeError → String
  | .signal sig => strsignal sig
  | .notAllowed callid => s!"[ERROR] A Not allowed system call! callid:{callid.toNat}\n"

/-- `print_runtimeerror` appends; the other requests leave the files alone. -/
def Request.write (d : Directory) : Request → Directory
  | .printRuntimeerror err =>
      d.append errorOutName (ascii s!"Runtime Error:{err.text strsignal}\n")
  | _ => d

structure Running where
  watch : Watch
  dir : Directory

/-- One pass of `watch_solution` in the directory. -/
def iterationIn (recordCall : Bool) (p : Parameters) (files : TestFiles) (usedtime : Int)
    (r : Running) (e : Event) : Except Undefined (Turn Running) :=
  let d := e.write r.dir
  match iteration recordCall p usedtime r.watch (e.observe files d) with
  | .error err => .error err
  | .ok (.leave w) => .ok (.leave ⟨w, w.requests.foldl (Request.write strsignal) d⟩)
  | .ok (.again w) => .ok (.again ⟨w, w.requests.foldl (Request.write strsignal) d⟩)

/-- A test with the names `prepare_files` has written, and what its child will do. -/
structure Case where
  files : TestFiles
  events : List Event
  prepared : ∃ dName, prepareFiles dName = .fellOff files

/-- `run_solution` opens the files of the child: `user.out` with `"w"`, `error.out` with `"a+"`. -/
def openFiles (d : Directory) : Directory := (d.write userOutName []).append errorOutName []

/-- The body of the test loop, in the directory. -/
def runCase (b : Build) (p : Parameters) (d : Directory) (s : Progress) (c : Case) :
    Except Stuck (Directory × Progress) :=
  let start : Running :=
    ⟨startWatch s.topmemory (initSyscallsLimits b.recordCall p.lang), openFiles d⟩
  match drive (iterationIn strsignal b.recordCall p c.files s.usedtime) start c.events with
  | .waiting _ => .error .unfinished
  | .failed _ => .error .undefined
  | .left r last =>
      let usedtime := chargeTime s.usedtime last.ruse
      let s' : Progress :=
        { judgeFlag := r.watch.judgeFlag, usedtime, topmemory := r.watch.topmemory,
          count := s.count + 1, callCounter := r.watch.callCounter }
      if r.watch.judgeFlag = .AC then
        match judgeSolution p usedtime r.watch.topmemory (r.dir c.files.outfile)
            (r.dir c.files.userfile) with
        | none => .error .unfinished
        | some judgeFlag => .ok (r.dir, { s' with judgeFlag })
      else .ok (r.dir, s')

/-- The test loop: it stops at the first test that is not judged `JudgeAC`. -/
def runCases (b : Build) (p : Parameters) :
    Directory → Progress → List Case → Except Stuck (Directory × Progress)
  | d, s, [] => .ok (d, s)
  | d, s, c :: rest =>
      if s.judgeFlag = .AC then
        match runCase strsignal b p d s c with
        | .error stuck => .error stuck
        | .ok (d', s') => runCases b p d' s' rest
      else .ok (d, s)

variable {strsignal} in
theorem runCases_of_refused {b : Build} {p : Parameters} {s : Progress}
    (refused : s.judgeFlag ≠ .AC) (d : Directory) (cases_ : List Case) :
    runCases strsignal b p d s cases_ = .ok (d, s) := by
  cases cases_ with
  | nil => rfl
  | cons c rest => rw [runCases, if_neg refused]

end Run

section Opened

variable (d : Directory)

@[simp] theorem openFiles_userOut : openFiles d userOutName = some [] :=
  (Directory.append_of_ne errorOutName_ne.symm).trans (d.write_self ..)

/-- What earlier children wrote there stays. -/
@[simp] theorem openFiles_errorOut :
    openFiles d errorOutName = some (d.contents errorOutName) := by
  rw [openFiles, Directory.append_self, Directory.contents_write_of_ne errorOutName_ne,
    List.append_nil]

variable {d} in
theorem openFiles_of_ne {name : List UInt8} (user : name ≠ userOutName)
    (error : name ≠ errorOutName) : openFiles d name = d name :=
  (Directory.append_of_ne error).trans (Directory.write_of_ne user)

end Opened

/-! ## Refinement -/

section Refines

variable {strsignal : Nat → String} {b : Build} {p : Parameters}

/-- The report an event is seen as. -/
structure Seen (e : Event) (o : Observation) : Prop where
  status : o.status = e.status
  ruse : o.ruse = e.ruse
  vmPeak : o.vmPeak = e.vmPeak
  origRax : o.origRax = e.origRax

variable (strsignal b p) in
theorem iterationIn_refines (files : TestFiles) (usedtime : Int) (r : Running) (w : Watch)
    (e : Event) (same : r.watch = w) :
    ∃ o, Seen e o ∧ TurnRelated (fun r w => r.watch = w)
      (iterationIn strsignal b.recordCall p files usedtime r e)
      (iteration b.recordCall p usedtime w o) := by
  subst same
  refine ⟨e.observe files (e.write r.dir), ⟨rfl, rfl, rfl, rfl⟩, ?_⟩
  unfold iterationIn
  dsimp only
  cases iteration b.recordCall p usedtime r.watch (e.observe files (e.write r.dir)) with
  | error err => exact .error err
  | ok turn =>
      cases turn with
      | again w => exact .again rfl
      | leave w => exact .leave rfl

/-- **A run in the directory is one of the runner.** -/
theorem runCase_refines {d d' : Directory} {s s' : Progress} {c : Case}
    (ran : runCase strsignal b p d s c = .ok (d', s')) :
    ∃ observations, List.Forall₂ Seen c.events observations ∧
      runTest b p s ⟨observations, d' c.files.outfile, d' c.files.userfile⟩ = .ok s' := by
  obtain ⟨observations, seen, outcome⟩ := drive_simulated
    (R := fun (r : Running) (w : Watch) => r.watch = w) (P := Seen)
    (iterationIn_refines strsignal b p c.files s.usedtime)
    (s := ⟨startWatch s.topmemory (initSyscallsLimits b.recordCall p.lang), openFiles d⟩) rfl
    c.events
  refine ⟨observations, seen, ?_⟩
  unfold runCase at ran
  dsimp only at ran
  generalize drive (iterationIn strsignal b.recordCall p c.files s.usedtime) _ c.events = ended
    at ran outcome
  unfold runTest watchSolution
  generalize drive (iteration b.recordCall p s.usedtime) _ observations = ended' at outcome
  cases outcome with
  | waiting _ => cases ran
  | failed _ => cases ran
  | left same pair =>
      subst same
      simp only [pair.ruse] at ran ⊢
      split at ran
      · rename_i accepted
        split at ran
        · cases ran
        · rename_i judged
          cases ran
          simp only [accepted, judged, if_true]
      · rename_i refused
        cases ran
        simp only [refused, if_false]

end Refines

end RunServer.Runner
