/-
# Dispatch.Protocol -- the runner's line, written and read back

The runner ends with `printf("%d %d %d", ...)`; `GetStatus` splits its standard output
at spaces and reads the fields with `strconv.Atoi`.  The two invert each other for
every three `int`s (`readBack_line`).

Whether a judging stores what the runner found is then a matter of what else reaches
the standard output.  The runner keeps it clean; a program that it has started may open
the pipe anew, and then what is read back is not the line (`delivered_iff`).
-/
import RunServer.Dispatch.Terminal
import RunServer.Runner.Streams

namespace RunServer.Dispatch

open RunServer.Theory
open RunServer.Theory.Descriptors

set_option autoImplicit false

/-! ## One line -/

/-- `"%d %d %d"`. -/
def line (verdict usedtime topmemory : Int) : List Char :=
  [' '].intercalate [decimal verdict, decimal usedtime, decimal topmemory]

/-- `GetStatus` reads these three values off `out`. -/
structure ReadBack (user : Solution) (out : List Char) (verdict usedtime topmemory : Int) :
    Prop where
  fields : out.splitOn ' ' = [decimal verdict, decimal usedtime, decimal topmemory]
  ended : (readStatus user out).2 = .ok
  judge : (readStatus user out).1.judge = verdict
  time : (readStatus user out).1.time = usedtime
  memory : (readStatus user out).1.memory = Int.tdiv topmemory 1024

theorem atoi_decimal_of_fits {x : Int} (fits : Fits x) : atoi (decimal x) = x := by
  obtain ⟨lower, upper⟩ := fits
  exact atoi_decimal (by omega) (by omega)

/-- Any three `int`s are read back as they were written. -/
theorem readBack_line (user : Solution) {v t m : Int} (verdict : Fits v) (usedtime : Fits t)
    (topmemory : Fits m) : ReadBack user (line v t m) v t m := by
  have read : readStatus user (line v t m) =
      ((user.setResult v).setResource t (Int.tdiv m 1024) user.code.utf8ByteSize, .ok) := by
    rw [line, readStatus_line, atoi_decimal_of_fits verdict, atoi_decimal_of_fits usedtime,
      atoi_decimal_of_fits topmemory]
  exact ⟨splitOn_line v t m, by rw [read], by rw [read]; rfl, by rw [read]; rfl,
    by rw [read]; rfl⟩

/-! ## What the runner finds fits -/

section Report

open RunServer.Runner
open RunServer.Theory.Loop

variable {b : Build} {p : Parameters} {behind : Behind} {entries : List Entry} {r : Report}

theorem tempmemory_fits (lang : Int) (o : Observation) : Fits (tempmemory lang o) := by
  unfold tempmemory getPageFaultMem
  split
  · exact int32_fits _
  · dsimp only
    split
    · exact int32_fits _
    · exact int32_fits _

theorem max_fits {x y : Int} (left : Fits x) (right : Fits y) : Fits (max x y) := by
  unfold Fits at left right ⊢
  omega

theorem passes_topmemory_fits {recordCall : Bool} {usedtime : Int} {m m' : Built}
    {pre : List Observation} (run : Passes (iterationBuilt recordCall p usedtime) m pre m')
    (start : Fits m.watch.topmemory) : Fits m'.watch.topmemory := by
  induction run with
  | nil => exact start
  | cons turn _ ih =>
      apply ih
      have charged := iterationBuilt_topmemory turn
      rw [Turn.state] at charged
      rw [charged]
      exact max_fits start (tempmemory_fits _ _)

theorem watchBuilt_fits {recordCall : Bool} {usedtime topmemory : Int} {table : CallCounter}
    {observations : List Observation} {m : Built} {used : Int}
    (watched : watchBuilt recordCall p usedtime topmemory table behind observations =
      .ok (m, used))
    (start : Fits topmemory) : Fits used ∧ Fits m.watch.topmemory := by
  unfold watchBuilt at watched
  split at watched
  · rename_i m' last left
    cases watched
    obtain ⟨pre, post, before, -, run, leaves⟩ := drive_left_iff.1 left
    have charged := iterationBuilt_topmemory leaves
    rw [Turn.state] at charged
    refine ⟨int32_fits _, ?_⟩
    rw [charged]
    exact max_fits (passes_topmemory_fits run start) (tempmemory_fits _ _)
  · cases watched
  · cases watched

theorem runTestBuilt_fits {s s' : Progress} {behind' : Behind} {t : Test}
    (ran : runTestBuilt b p s behind t = .ok (s', behind')) (start : Fits s.topmemory) :
    Fits s'.usedtime ∧ Fits s'.topmemory := by
  unfold runTestBuilt at ran
  split at ran
  · cases ran
  · rename_i m used watched
    have fits := watchBuilt_fits watched start
    dsimp only at ran
    split at ran
    · split at ran
      · cases ran
      · cases ran
        exact fits
    · cases ran
      exact fits

theorem testLoopBuilt_fits {s s' : Progress} {behind' : Behind}
    (loop : testLoopBuilt b p s behind entries = .ok (s', behind'))
    (start : Fits s.usedtime ∧ Fits s.topmemory) : Fits s'.usedtime ∧ Fits s'.topmemory := by
  induction entries generalizing s behind with
  | nil =>
      cases loop
      exact start
  | cons e rest ih =>
      simp only [testLoopBuilt] at loop
      split at loop
      · split at loop
        · split at loop
          · cases loop
          · rename_i next behind'' ran
            exact ih loop (runTestBuilt_fits ran start.2)
        · exact ih loop start
      · cases loop
        exact start

/-- The values of the final `printf` are `int`s. -/
theorem runTestsBuilt_fits (ran : runTestsBuilt b p behind entries = .ok r) :
    Fits r.judgeFlag.code ∧ Fits r.usedtime ∧ Fits r.topmemory := by
  unfold runTestsBuilt at ran
  split at ran
  · cases ran
  · rename_i s behind' loop
    cases ran
    have fits := testLoopBuilt_fits loop ⟨by decide, by decide⟩
    refine ⟨?_, ?_, fits.2⟩
    · cases (report p s).judgeFlag <;> decide
    · simp only [report]
      generalize (if s.count = 0 then Judge.NA else s.judgeFlag) = flag
      split
      · exact int32_fits _
      · exact fits.1

end Report

/-! ## The protocol -/

/-- The line of this report is all that reaches the standard output, and it is read back. -/
structure Delivered (user : Solution) (calls : Runner.Calls) (r : Runner.Report) : Prop where
  stdout : received Runner.Sink.pipe Runner.startTable calls =
    line r.judgeFlag.code r.usedtime r.topmemory
  read : ReadBack user (received Runner.Sink.pipe Runner.startTable calls)
    r.judgeFlag.code r.usedtime r.topmemory

section Runs

variable {b : Runner.Build} {argv : List (List UInt8)}
variable {workDir : Runner.Parameters → Runner.WorkDir} {behind : Runner.Behind}
variable {cp calls : Runner.Calls} {r : Runner.Report} {programs : List Runner.Calls}

/-- A run's result is delivered unless a program writes to the pipe it has opened anew. -/
theorem delivered_iff (user : Solution)
    (copies : ∀ d, Only Runner.Sink.pipe 1 d → received Runner.Sink.pipe d cp = [])
    (made : Runner.MainCalls b argv workDir behind cp r programs calls) :
    Delivered user calls r ↔ ∀ program ∈ programs, reopened Runner.Sink.pipe program = [] := by
  have reaches : received Runner.Sink.pipe Runner.startTable calls =
      Runner.reopenedBy programs ++ line r.judgeFlag.code r.usedtime r.topmemory :=
    made.received_eq copies
  rw [← Runner.reopenedBy_eq_nil_iff]
  constructor
  · intro delivered
    have whole := delivered.stdout
    rw [reaches] at whole
    exact List.append_left_eq_self.1 whole
  · intro nothing
    obtain ⟨p, entries, -, -, ran⟩ := made.ran
    obtain ⟨verdict, usedtime, topmemory⟩ := runTestsBuilt_fits ran
    rw [nothing, List.nil_append] at reaches
    refine ⟨reaches, ?_⟩
    rw [reaches]
    exact readBack_line user verdict usedtime topmemory

/-- Programs that leave the pipe alone. -/
theorem delivered_of_neverOpens (user : Solution)
    (copies : ∀ d, Only Runner.Sink.pipe 1 d → received Runner.Sink.pipe d cp = [])
    (made : Runner.MainCalls b argv workDir behind cp r programs calls)
    (never : ∀ program ∈ programs, NeverOpens Runner.Sink.pipe program) :
    Delivered user calls r :=
  (delivered_iff user copies made).2 fun program member => (never program member).reopened_eq

end Runs

namespace Sample

/-- A command that makes no calls is silent. -/
theorem noCalls (d : Table Runner.Sink) (_ : Only Runner.Sink.pipe 1 d) :
    received Runner.Sink.pipe d [] = [] := by
  simp [received]

/-- `runner 1 1 8192 ""` on a directory with one test, accepted after 1 ms with 120 kB. -/
theorem exists_run (program : Runner.Calls) :
    ∃ programs calls, (∀ c ∈ programs, c = program) ∧
      Runner.MainCalls Runner.Sample.build [[114], [49], [49], [56, 49, 57, 50], []]
        (fun _ => .opened [Runner.Sample.entry [59, 231]]) (fun _ => none) [] ⟨.AC, 1, 122880⟩
        programs calls := by
  have parameters : Runner.initParameters [[114], [49], [49], [56, 49, 57, 50], []] =
      .ok Runner.Sample.parameters := by rfl
  have ran : Runner.runTestsBuilt Runner.Sample.build Runner.Sample.parameters (fun _ => none)
      [Runner.Sample.entry [59, 231]] = .ok ⟨.AC, 1, 122880⟩ := by decide
  let workDir : Runner.Parameters → Runner.WorkDir :=
    fun _ => .opened [Runner.Sample.entry [59, 231]]
  have opened : workDir Runner.Sample.parameters = .opened [Runner.Sample.entry [59, 231]] := rfl
  exact Runner.exists_mainCalls parameters opened ran [] program

end Sample

namespace Sample

/-- `runner 1 1 8192 w`.  The directory is named from the one that `main` has left with
`chdir`, so the `chroot` of `run_solution` fails. -/
def relativeArgv : List (List UInt8) := [[114], [49], [49], [56, 49, 57, 50], [119]]

def unconfined : Runner.Parameters := { Runner.Sample.parameters with workDir := [119] }

/-- A test whose answer is `"a"`, and a program that prints nothing.  It opens two files, by
the number that `open` has behind `int $0x80` and `fstat` in the table. -/
def refused : Runner.Entry :=
  let stops : List UInt64 := [59, 5, 5, 0, 0, 5, 5, 1, 1, 231]
  { Runner.Sample.entry stops with test := { Runner.Sample.test stops with answer := some [97] } }

/-- The second is the runner's pipe, by its name below `/proc`, and gets a line of its own. -/
def forging : Runner.Calls := [.point 3 (some .pipe), .write 3 "3 0 0 ".toList]

theorem exists_forged :
    ∃ calls, Runner.MainCalls Runner.Sample.build relativeArgv (fun _ => .opened [refused])
      (fun _ => none) [] ⟨.WA, 1, 122880⟩ [forging] calls := by
  have parameters : Runner.initParameters relativeArgv = .ok unconfined := by rfl
  obtain ⟨s, ran, reported⟩ : ∃ s, Runner.runTestBuilt Runner.Sample.build unconfined
      Runner.startProgress (fun _ => none) refused.test = .ok (s, fun _ => none) ∧
      Runner.report unconfined s = ⟨.WA, 1, 122880⟩ := ⟨_, rfl, by decide⟩
  obtain ⟨child, solution⟩ := Runner.exists_runSolution refused.dName forging
  obtain ⟨watching, watched⟩ := exists_inTurn
    (fun m : Runner.Built => Runner.exists_passCalls unconfined m.watch) _
  have tested : Runner.TestCalls Runner.Sample.build unconfined Runner.startProgress
      (fun _ => none) refused [forging] (.fork child :: watching) := .forked rfl solution watched
  rw [← reported]
  exact ⟨_, .mk parameters ⟨[], .nil⟩ rfl (.test rfl (by decide) ran tested .nil) ⟨[], .nil⟩⟩

end Sample

end RunServer.Dispatch
