/-
# Runner.Parameters -- the command line, and the limits it sets

`init_parameters` reads the language and the limits with `atoi`, scales them and
clamps them; whatever it was given, a `Parameters` it leaves has a time limit
between 1 and 30 seconds and a memory limit between 1 and 1024 megabytes, and
carries the proof.  `runSolutionLimits` is what `run_solution` installs for the
child before it starts it.

Arithmetic is that of a 32-bit `int` (`int32`); an `rlim_t` is an unsigned
64-bit number.
-/
import RunServer.Config
import RunServer.Theory.Int32
import RunServer.Runner.Compare

namespace RunServer.Runner

open RunServer.Theory

set_option autoImplicit false

/-! ## `atoi` -/

/-- The value of the leading decimal digits, after those already read. -/
def leadingDigits : List UInt8 → Nat → Nat
  | [], value => value
  | b :: bs, value =>
      if 48 ≤ b ∧ b ≤ 57 then leadingDigits bs (value * 10 + (b.toNat - 48)) else value

/-- glibc's `atoi`: `strtol` in base 10, which stops at the ends of `long`,
stored in an `int`. -/
def atoi (s : List UInt8) : Int :=
  let long : Int :=
    match s.dropWhile fun b => isspace (some b) with
    | 45 :: digits => max (-2 ^ 63) (-(leadingDigits digits 0 : Int))
    | 43 :: digits => min (2 ^ 63 - 1) (leadingDigits digits 0 : Int)
    | digits => min (2 ^ 63 - 1) (leadingDigits digits 0 : Int)
  int32 long

/-! ## `init_parameters` -/

structure Parameters where
  lang : Int
  timeLmt : Int
  memLmt : Int
  workDir : List UInt8
  timeLmt_range : 1 ≤ timeLmt ∧ timeLmt ≤ 30
  memLmt_range : 1 ≤ memLmt ∧ memLmt ≤ 1024

/-- "Never bigger than judged set value": out of range on either side is the top. -/
def clampLimit (top limit : Int) : Int := if limit > top ∨ limit < 1 then top else limit

theorem clampLimit_range {top : Int} (pos : 1 ≤ top) (limit : Int) :
    1 ≤ clampLimit top limit ∧ clampLimit top limit ≤ top := by
  unfold clampLimit
  split <;> omega

/-- `atoi(argv[3])*1024/STD_MB*8`. -/
def scaleMemory (kilobytes : Int) : Int :=
  int32 (Int.tdiv (int32 (kilobytes * 1024)) stdMB * 8)

/-- "Java is lucky": twice the declared limit. -/
def doubleForJava (lang limit : Int) : Int :=
  if lang = langJava then int32 (limit * 2) else limit

/-- How `init_parameters` ends when it does not return: with `exit`, or with an
access the language gives no meaning to. -/
inductive Refused where
  | exit (code : Int)
  | undefined
  deriving DecidableEq, Repr

/-- `char work_dir[1024]`, and `char cmd[512]` for the copy of `java.policy`
(44 characters before the directory, 12 after it). -/
def buffersHold (lang : Int) (workDir : List UInt8) : Bool :=
  workDir.length < 1024 && (lang ≠ langJava || 44 + workDir.length + 12 < 512)

/-- `argv` includes the program's own name.  With `argc == 4` the test passes and
`argv[4]` is the null pointer. -/
def initParameters (argv : List (List UInt8)) : Except Refused Parameters :=
  match argv with
  | _ :: language :: time :: memory :: tail =>
      match tail with
      | [] => .error .undefined
      | workDir :: _ =>
          let lang := atoi language
          if buffersHold lang workDir then
            .ok
              { lang
                timeLmt := clampLimit 30 (doubleForJava lang (atoi time))
                memLmt := clampLimit 1024 (doubleForJava lang (scaleMemory (atoi memory)))
                workDir
                timeLmt_range := clampLimit_range (by decide) _
                memLmt_range := clampLimit_range (by decide) _ }
          else .error .undefined
  | _ => .error (.exit 1)

namespace Parameters

variable (p : Parameters)

/-- `time_lmt*1000`, the time limit in milliseconds. -/
def timeLimit : Int := int32 (p.timeLmt * 1000)

/-- `mem_lmt*STD_MB`, the memory limit in bytes. -/
def memoryLimit : Int := int32 (p.memLmt * stdMB)

theorem timeLimit_eq : p.timeLimit = p.timeLmt * 1000 := by
  have range := p.timeLmt_range
  exact int32_of_fits ⟨by omega, by omega⟩

theorem memoryLimit_eq : p.memoryLimit = p.memLmt * stdMB := by
  have range := p.memLmt_range
  unfold memoryLimit stdMB
  exact int32_of_fits ⟨by omega, by omega⟩

theorem timeLimit_range : 1000 ≤ p.timeLimit ∧ p.timeLimit ≤ 30000 := by
  have range := p.timeLmt_range
  rw [timeLimit_eq]
  omega

theorem memoryLimit_range : stdMB ≤ p.memoryLimit ∧ p.memoryLimit ≤ 1024 * stdMB := by
  have range := p.memLmt_range
  rw [memoryLimit_eq]
  unfold stdMB
  omega

end Parameters

/-! ## The limits of the child -/

/-- An `int` stored in an `rlim_t`. -/
def rlimT (x : Int) : Nat := (x % 2 ^ 64).toNat

structure Rlimit where
  cur : Nat
  max : Nat
  deriving DecidableEq, Repr

structure RunLimits where
  cpu : Rlimit
  /-- Seconds until `SIGALRM`. -/
  alarm : Nat
  fsize : Rlimit
  nproc : Rlimit
  stack : Rlimit
  /-- `RLIMIT_AS`; not set for Java. -/
  as : Option Rlimit
  deriving DecidableEq, Repr

/-- `(time_lmt - usedtime / 1000) + 1`. -/
def cpuSeconds (p : Parameters) (usedtime : Int) : Int :=
  int32 (int32 (p.timeLmt - Int.tdiv usedtime 1000) + 1)

def runSolutionLimits (p : Parameters) (usedtime : Int) : RunLimits :=
  let cpu := rlimT (cpuSeconds p usedtime)
  let procs := rlimT (if p.lang = langJava then 1000 else 1)
  let stack := rlimT (int32 (stdMB * 2 ^ 6))
  { cpu := ⟨cpu, cpu⟩
    alarm := (int32 (p.timeLmt * 10) % 2 ^ 32).toNat
    fsize := ⟨rlimT stdFLim, rlimT (int32 (stdFLim + stdMB))⟩
    nproc := ⟨procs, procs⟩
    stack := ⟨stack, stack⟩
    as :=
      if p.lang = langJava then none
      else some
        ⟨rlimT (int32 (Int.tdiv (int32 (stdMB * p.memLmt)) 2 * 3)),
          rlimT (int32 (int32 (stdMB * p.memLmt) * 2))⟩ }

end RunServer.Runner
