/-
# Runner.Limits -- are the limits exact, and in the order they were declared?

The memory limit is declared in kilobytes and scaled to a limit in megabytes
(`scaleMemory`): 8 for each whole megabyte declared, 16 for Java.  A number under one
megabyte scales to 0, which the clamp takes for the top, and `kilobytes * 1024`
overflows from two gigabytes on.  `parameters_of_accepted` is the limit that is left, and
`limits_ordered_iff` when a smaller declaration leaves a smaller one.

At the top the limits overflow too: `STD_MB*mem_lmt*2` is 2^31.  `LimitArithmetic`
says that no expression the limits and their checks are computed by does, and
`limitArithmetic_iff` for which declarations that is so.
-/
import RunServer.Theory.IntExpr
import RunServer.Runner.Main

namespace RunServer.Runner

open RunServer.Theory
open RunServer.Theory.Loop

set_option autoImplicit false

/-! ## What is declared -/

/-- The number that argument `i` of the command line stands for. -/
def declared (argv : List (List UInt8)) (i : Nat) : Int := atoi (argv.getD i [])

/-- From how many whole megabytes on the memory limit is the top. -/
def topMegabytes (lang : Int) : Int := if lang = langJava then 64 else 128

theorem declared_fits (argv : List (List UInt8)) (i : Nat) : Fits (declared argv i) :=
  int32_fits _

/-- What `int` arithmetic makes of the kilobytes: the whole megabytes, modulo 4096. -/
theorem scaleMemory_eq (kilobytes : Int) :
    scaleMemory kilobytes =
      8 * (if kilobytes / 1024 % 4096 < 2048 then kilobytes / 1024 % 4096
        else -((4194304 - kilobytes % 4194304) / 1024)) := by
  have bytes : int32 (kilobytes * 1024) =
      if kilobytes % 4194304 < 2097152 then kilobytes % 4194304 * 1024
      else -((4194304 - kilobytes % 4194304) * 1024) := by
    unfold int32
    rw [Int.bmod_def]
    norm_num
    split <;> split <;> omega
  unfold scaleMemory stdMB
  rw [bytes]
  by_cases low : kilobytes % 4194304 < 2097152
  · have whole : kilobytes / 1024 % 4096 < 2048 := by omega
    rw [if_pos low, if_pos whole, Int.tdiv_eq_ediv_of_nonneg (by omega)]
    rw [int32_of_fits ⟨by omega, by omega⟩]
    omega
  · have whole : ¬ kilobytes / 1024 % 4096 < 2048 := by omega
    rw [if_neg low, if_neg whole, Int.neg_tdiv, Int.tdiv_eq_ediv_of_nonneg (by omega)]
    rw [int32_of_fits ⟨by omega, by omega⟩]
    omega

/-- **The memory limit that is left of a declaration.** -/
theorem clampMemory_eq (lang kilobytes : Int) :
    clampLimit 1024 (doubleForJava lang (scaleMemory kilobytes)) =
      if 1 ≤ kilobytes / 1024 % 4096 ∧ kilobytes / 1024 % 4096 < topMegabytes lang then
        kilobytes / 1024 % 4096 * (1024 / topMegabytes lang)
      else 1024 := by
  rw [scaleMemory_eq]
  unfold clampLimit doubleForJava topMegabytes
  by_cases java : lang = langJava
  · simp only [java, if_true]
    rw [int32_of_fits (by unfold Fits; split <;> omega)]
    split <;> split <;> omega
  · simp only [java, if_false]
    split <;> split <;> omega

/-- The clamp hides the overflow of the doubling. -/
theorem clampTime_eq {lang seconds : Int} (pos : 0 < seconds) (fits : Fits seconds) :
    clampLimit 30 (doubleForJava lang seconds) =
      min 30 (if lang = langJava then 2 * seconds else seconds) := by
  unfold Fits at fits
  unfold clampLimit doubleForJava
  by_cases java : lang = langJava
  · simp only [java, if_true]
    by_cases small : seconds < 2 ^ 30
    · rw [int32_of_fits ⟨by omega, by omega⟩]
      split <;> omega
    · have wraps : int32 (seconds * 2) = seconds * 2 - 2 ^ 32 := by
        unfold int32
        rw [Int.bmod_def]
        norm_num
        split <;> omega
      rw [wraps]
      split <;> omega
  · simp only [java, if_false]
    split <;> omega

/-- A smaller memory limit is left, or the other is the top. -/
theorem clampMemory_le_iff (lang first second : Int) :
    clampLimit 1024 (doubleForJava lang (scaleMemory first)) ≤
        clampLimit 1024 (doubleForJava lang (scaleMemory second)) ↔
      second / 1024 % 4096 = 0 ∨ topMegabytes lang ≤ second / 1024 % 4096 ∨
        1 ≤ first / 1024 % 4096 ∧ first / 1024 % 4096 ≤ second / 1024 % 4096 := by
  rw [clampMemory_eq, clampMemory_eq]
  have bounds := Int.emod_nonneg (second / 1024) (show (4096 : Int) ≠ 0 by decide)
  generalize first / 1024 % 4096 = m
  generalize second / 1024 % 4096 = m' at bounds
  unfold topMegabytes
  by_cases java : lang = langJava
  · simp only [java, if_true]
    split <;> split <;> omega
  · simp only [java, if_false]
    split <;> split <;> omega

/-- What an accepted command line leaves. -/
theorem parameters_of_accepted {argv : List (List UInt8)} {p : Parameters}
    (accepted : initParameters argv = .ok p) :
    p.lang = declared argv 1 ∧
      p.timeLmt = clampLimit 30 (doubleForJava p.lang (declared argv 2)) ∧
      p.memLmt = clampLimit 1024 (doubleForJava p.lang (scaleMemory (declared argv 3))) := by
  unfold initParameters at accepted
  split at accepted
  · split at accepted
    · cases accepted
    · dsimp only at accepted
      split at accepted
      · cases accepted
        exact ⟨rfl, rfl, rfl⟩
      · cases accepted
  · cases accepted

/-! ## The order of the limits -/

/-- The limits are in their ranges, and the first are no looser than the second. -/
structure Ordered (p p' : Parameters) : Prop where
  time : p.timeLmt ≤ p'.timeLmt
  memory : p.memLmt ≤ p'.memLmt
  range : (1 ≤ p.timeLmt ∧ p.timeLmt ≤ 30) ∧ (1 ≤ p.memLmt ∧ p.memLmt ≤ 1024)
  range' : (1 ≤ p'.timeLmt ∧ p'.timeLmt ≤ 30) ∧ (1 ≤ p'.memLmt ∧ p'.memLmt ≤ 1024)

/-- **The stricter declaration leaves the stricter limits** exactly when the other memory
limit is the top one, or the whole megabytes, modulo 4096, are in order and not 0. -/
theorem limits_ordered_iff {argv argv' : List (List UInt8)} {p p' : Parameters}
    (accepted : initParameters argv = .ok p) (accepted' : initParameters argv' = .ok p')
    (language : declared argv 1 = declared argv' 1)
    (time : 0 < declared argv 2 ∧ declared argv 2 ≤ declared argv' 2) :
    Ordered p p' ↔
      declared argv' 3 / 1024 % 4096 = 0 ∨
        topMegabytes p.lang ≤ declared argv' 3 / 1024 % 4096 ∨
        1 ≤ declared argv 3 / 1024 % 4096 ∧
          declared argv 3 / 1024 % 4096 ≤ declared argv' 3 / 1024 % 4096 := by
  obtain ⟨lang, timeLmt, memLmt⟩ := parameters_of_accepted accepted
  obtain ⟨lang', timeLmt', memLmt'⟩ := parameters_of_accepted accepted'
  have same : p'.lang = p.lang := by rw [lang, lang', language]
  rw [same] at timeLmt' memLmt'
  have inTime : p.timeLmt ≤ p'.timeLmt := by
    rw [timeLmt, timeLmt', clampTime_eq time.1 (declared_fits _ _),
      clampTime_eq (lt_of_lt_of_le time.1 time.2) (declared_fits _ _)]
    split <;> omega
  rw [← clampMemory_le_iff, ← memLmt, ← memLmt']
  constructor
  · exact Ordered.memory
  · intro inMemory
    exact ⟨inTime, inMemory, ⟨p.timeLmt_range, p.memLmt_range⟩,
      ⟨p'.timeLmt_range, p'.memLmt_range⟩⟩

namespace Sample

/-- `runner 1 1 <kilobytes> /w`, for C. -/
def commandLine (kilobytes : List UInt8) : List (List UInt8) :=
  [[114, 117, 110, 110, 101, 114], [49], [49], kilobytes, [47, 119]]

/-- `512`, `65536` and `131072`. -/
def halfMegabyte : List UInt8 := [53, 49, 50]
def megabytes64 : List UInt8 := [54, 53, 53, 51, 54]
def megabytes128 : List UInt8 := [49, 51, 49, 48, 55, 50]

theorem one_le_top : (1 : Int) ≤ 1024 := by decide

/-- The limits it leaves. -/
def limits (kilobytes : List UInt8) : Parameters :=
  { parameters with
    memLmt := clampLimit 1024 (scaleMemory (atoi kilobytes))
    workDir := [47, 119]
    memLmt_range := clampLimit_range one_le_top _ }

theorem commandLine_accepted (kilobytes : List UInt8) :
    initParameters (commandLine kilobytes) = .ok (limits kilobytes) := by rfl

/-- 64 MB and 128 MB. -/
theorem limits_ordered_iff_sample : Ordered (limits megabytes64) (limits megabytes128) :=
  (limits_ordered_iff (commandLine_accepted _) (commandLine_accepted _) (by decide)
    (by decide)).mpr (by decide)

/-- 512 kB leaves a limit of 1024 MB, 64 MB one of 512 MB. -/
theorem limits_unordered_sample :
    ¬ ∀ argv argv' p p', initParameters argv = .ok p → initParameters argv' = .ok p' →
      declared argv 1 = declared argv' 1 →
      0 < declared argv 2 ∧ declared argv 2 ≤ declared argv' 2 →
      0 < declared argv 3 ∧ declared argv 3 ≤ declared argv' 3 → Ordered p p' := by
  intro ordered
  have held := ordered (commandLine halfMegabyte) (commandLine megabytes64) _ _
    (commandLine_accepted _) (commandLine_accepted _) (by decide) (by decide) (by decide)
  exact absurd held.memory (by decide)

end Sample

/-! ## The expressions of the limits -/

section Expressions

open IntExpr IntOp

/-- `atoi(argv[3])*1024/STD_MB*8`. -/
def scaleExpr (kilobytes : Int) : IntExpr :=
  op mul (op div (op mul (val kilobytes) (val 1024)) (val stdMB)) (val 8)

/-- `time_lmt * 2` and `mem_lmt * 2`, for Java. -/
def doublingExpr (limit : Int) : IntExpr := op mul (val limit) (val 2)

/-- `STD_MB << 5` (`STD_F_LIM`) and `STD_MB << 6`. -/
def shiftExpr (places : Int) : IntExpr := op shl (val stdMB) (val places)

/-- `STD_F_LIM + STD_MB`. -/
def fileMaxExpr : IntExpr := op add (shiftExpr 5) (val stdMB)

variable (p : Parameters)

/-- `(time_lmt - usedtime / 1000) + 1`. -/
def cpuExpr (usedtime : Int) : IntExpr :=
  op add (op sub (val p.timeLmt) (op div (val usedtime) (val 1000))) (val 1)

/-- `time_lmt*10`. -/
def alarmExpr : IntExpr := op mul (val p.timeLmt) (val 10)

/-- `STD_MB *mem_lmt/2*3`. -/
def memoryCurExpr : IntExpr :=
  op mul (op div (op mul (val stdMB) (val p.memLmt)) (val 2)) (val 3)

/-- `STD_MB *mem_lmt*2`. -/
def memoryMaxExpr : IntExpr := op mul (op mul (val stdMB) (val p.memLmt)) (val 2)

/-- `time_lmt*1000`. -/
def timeLimitExpr : IntExpr := op mul (val p.timeLmt) (val 1000)

/-- `mem_lmt*STD_MB`. -/
def memoryLimitExpr : IntExpr := op mul (val p.memLmt) (val stdMB)

/-- Every expression between the command line and `setrlimit` or a check. -/
def limitExprs (argv : List (List UInt8)) (usedtime : Int) : List IntExpr :=
  [scaleExpr (declared argv 3), cpuExpr p usedtime, alarmExpr p, shiftExpr 5, fileMaxExpr,
    shiftExpr 6, memoryCurExpr p, memoryMaxExpr p, timeLimitExpr p, memoryLimitExpr p]

/-- "Java is lucky." -/
def doublingExprs (argv : List (List UInt8)) : List IntExpr :=
  if p.lang = langJava then
    [doublingExpr (declared argv 2), doublingExpr (scaleExpr (declared argv 3)).eval]
  else []

/-! ## What the source computes by them -/

variable {p} {argv : List (List UInt8)} {kilobytes usedtime : Int}

theorem timeLmt_fits : Fits p.timeLmt := by
  have range := p.timeLmt_range
  exact ⟨by omega, by omega⟩

theorem memLmt_fits : Fits p.memLmt := by
  have range := p.memLmt_range
  exact ⟨by omega, by omega⟩

theorem stdMB_fits : Fits stdMB := by decide

theorem eval_mul {x y : Int} (left : Fits x) (right : Fits y) :
    (op mul (val x) (val y)).eval = int32 (x * y) := by
  simp only [eval, apply, int32_of_fits left, int32_of_fits right]

theorem eval_scale (fits : Fits kilobytes) :
    (scaleExpr kilobytes).eval = scaleMemory kilobytes := by
  unfold scaleExpr scaleMemory
  simp only [eval, apply, int32_of_fits fits, int32_of_fits stdMB_fits]
  rw [int32_of_fits (x := 1024) (by decide), int32_of_fits (x := 8) (by decide)]
  rw [int32_of_fits (fits_tdiv (int32_fits _) (by decide))]

theorem eval_cpu (fits : Fits usedtime) : (cpuExpr p usedtime).eval = cpuSeconds p usedtime := by
  unfold cpuExpr cpuSeconds
  simp only [eval, apply, int32_of_fits fits, int32_of_fits (timeLmt_fits (p := p))]
  rw [int32_of_fits (x := 1000) (by decide), int32_of_fits (x := 1) (by decide),
    int32_of_fits (fits_tdiv fits (by decide))]

theorem eval_memoryCur :
    (memoryCurExpr p).eval = int32 (Int.tdiv (int32 (stdMB * p.memLmt)) 2 * 3) := by
  unfold memoryCurExpr
  simp only [eval, apply, int32_of_fits stdMB_fits, int32_of_fits (memLmt_fits (p := p))]
  rw [int32_of_fits (x := 2) (by decide), int32_of_fits (x := 3) (by decide),
    int32_of_fits (fits_tdiv (int32_fits _) (by decide))]

theorem eval_memoryMax :
    (memoryMaxExpr p).eval = int32 (int32 (stdMB * p.memLmt) * 2) := by
  unfold memoryMaxExpr
  simp only [eval, apply, int32_of_fits stdMB_fits, int32_of_fits (memLmt_fits (p := p))]
  rw [int32_of_fits (x := 2) (by decide)]

theorem eval_alarm : (alarmExpr p).eval = int32 (p.timeLmt * 10) :=
  eval_mul timeLmt_fits (by decide)

theorem eval_timeLimit : (timeLimitExpr p).eval = p.timeLimit :=
  eval_mul timeLmt_fits (by decide)

theorem eval_memoryLimit : (memoryLimitExpr p).eval = p.memoryLimit :=
  eval_mul memLmt_fits stdMB_fits

/-- **`run_solution` installs the values of these expressions.** -/
theorem runSolutionLimits_eval (fits : Fits usedtime) :
    runSolutionLimits p usedtime =
      { cpu := ⟨rlimT (cpuExpr p usedtime).eval, rlimT (cpuExpr p usedtime).eval⟩
        alarm := ((alarmExpr p).eval % 2 ^ 32).toNat
        fsize := ⟨rlimT (shiftExpr 5).eval, rlimT fileMaxExpr.eval⟩
        nproc :=
          ⟨rlimT (if p.lang = langJava then 1000 else 1),
            rlimT (if p.lang = langJava then 1000 else 1)⟩
        stack := ⟨rlimT (shiftExpr 6).eval, rlimT (shiftExpr 6).eval⟩
        as :=
          if p.lang = langJava then none
          else some ⟨rlimT (memoryCurExpr p).eval, rlimT (memoryMaxExpr p).eval⟩ } := by
  have shift5 : (shiftExpr 5).eval = stdFLim := by decide
  have fileMax : fileMaxExpr.eval = int32 (stdFLim + stdMB) := by decide
  have shift6 : (shiftExpr 6).eval = int32 (stdMB * 2 ^ 6) := by decide
  rw [eval_cpu fits, eval_alarm, eval_memoryCur, eval_memoryMax, shift5, fileMax, shift6]
  rfl

end Expressions

/-! ## No overflow -/

section Overflow

variable {b : Build} {p : Parameters} {argv : List (List UInt8)} {entries : List Entry}
variable {s : Progress} {t : Test} {usedtime : Int}

/-- Every expression has its exact value, and a native child is given 1.5 and 2 times
the memory limit. -/
structure LimitArithmetic (argv : List (List UInt8)) (p : Parameters) (usedtime : Int) :
    Prop where
  exact : ∀ e ∈ limitExprs p argv usedtime, e.Exact
  installed : p.lang ≠ langJava → ∃ as, (runSolutionLimits p usedtime).as = some as ∧
    2 * (as.cur : Int) = 3 * (p.memLmt * stdMB) ∧ (as.max : Int) = 2 * (p.memLmt * stdMB) ∧
      as.cur ≤ as.max

theorem StartsTest.usedtime_fits (starts : StartsTest b p entries s t) : Fits s.usedtime := by
  obtain ⟨before, e, after, -, -, -, reached⟩ := starts.reached
  refine testLoop_invariant (I := fun s => Fits s.usedtime) (by decide) reached ?_
  intro s t s' _ _ ran
  obtain ⟨w, used, watched, time, -, -⟩ := runTest_watched ran
  obtain ⟨last, -, charged⟩ := watchSolution_left watched
  rw [time, charged]
  exact int32_fits _

theorem exact_mul {x y : Int} (left : Fits x) (right : Fits y) (product : Fits (x * y)) :
    (IntExpr.op .mul (.val x) (.val y)).Exact := by
  simp only [IntExpr.exact_op_iff, IntExpr.exact_val_iff, IntExpr.exact, IntOp.apply]
  exact ⟨left, right, product⟩

theorem exact_scale_iff {kilobytes : Int} (fits : Fits kilobytes) :
    (scaleExpr kilobytes).Exact ↔ Fits (kilobytes * 1024) := by
  unfold scaleExpr
  simp only [IntExpr.exact_op_iff, IntExpr.exact_val_iff, IntExpr.exact, IntOp.apply]
  refine ⟨fun held => held.1.1.2.2, fun bytes => ?_⟩
  have quotient := fits_tdiv (d := stdMB) bytes (by decide)
  refine ⟨⟨⟨fits, by decide, bytes⟩, by decide, quotient⟩, by decide, ?_⟩
  obtain ⟨lower, upper⟩ := bytes
  have megabytes := tdiv_between (x := kilobytes * 1024) (d := stdMB) (-2048) 2048 (by decide)
    (by unfold stdMB; omega) (by unfold stdMB; omega)
  exact ⟨by omega, by omega⟩

theorem exact_cpu (fits : Fits usedtime) : (cpuExpr p usedtime).Exact := by
  have range := p.timeLmt_range
  obtain ⟨lower, upper⟩ := fits
  have seconds := tdiv_between (x := usedtime) (d := 1000) (-2147484) 2147484 (by decide)
    (by omega) (by omega)
  unfold cpuExpr
  simp only [IntExpr.exact_op_iff, IntExpr.exact_val_iff, IntExpr.exact, IntOp.apply]
  unfold Fits
  omega

theorem exact_memoryCur : (memoryCurExpr p).Exact := by
  have range := p.memLmt_range
  unfold memoryCurExpr stdMB
  simp only [IntExpr.exact_op_iff, IntExpr.exact_val_iff, IntExpr.exact, IntOp.apply]
  rw [Int.tdiv_eq_ediv_of_nonneg (by omega)]
  unfold Fits
  omega

theorem exact_memoryMax_iff : (memoryMaxExpr p).Exact ↔ p.memLmt < 1024 := by
  have range := p.memLmt_range
  unfold memoryMaxExpr stdMB
  simp only [IntExpr.exact_op_iff, IntExpr.exact_val_iff, IntExpr.exact, IntOp.apply]
  unfold Fits
  omega

theorem exact_alarm : (alarmExpr p).Exact := by
  have range := p.timeLmt_range
  exact exact_mul timeLmt_fits (by decide) ⟨by omega, by omega⟩

theorem exact_timeLimit : (timeLimitExpr p).Exact := by
  have range := p.timeLmt_range
  exact exact_mul timeLmt_fits (by decide) ⟨by omega, by omega⟩

theorem exact_memoryLimit : (memoryLimitExpr p).Exact := by
  have range := p.memLmt_range
  exact exact_mul memLmt_fits (by decide) ⟨by unfold stdMB; omega, by unfold stdMB; omega⟩

/-- Two of the expressions can overflow. -/
theorem limitExprs_exact_iff (fits : Fits usedtime) :
    (∀ e ∈ limitExprs p argv usedtime, e.Exact) ↔
      Fits (declared argv 3 * 1024) ∧ p.memLmt < 1024 := by
  have shift5 : (shiftExpr 5).Exact := by simp [shiftExpr]; decide
  have fileMax : fileMaxExpr.Exact := by simp [fileMaxExpr, shiftExpr]; decide
  have shift6 : (shiftExpr 6).Exact := by simp [shiftExpr]; decide
  simp only [limitExprs, List.forall_mem_cons, List.not_mem_nil, false_imp_iff, implies_true,
    exact_scale_iff (declared_fits argv 3), exact_cpu fits, exact_alarm, shift5, fileMax, shift6,
    exact_memoryCur, exact_memoryMax_iff, exact_timeLimit, exact_memoryLimit, true_and, and_true]

theorem exact_doubling_iff {limit : Int} (fits : Fits limit) :
    (doublingExpr limit).Exact ↔ -2 ^ 30 ≤ limit ∧ limit < 2 ^ 30 := by
  unfold doublingExpr
  simp only [IntExpr.exact_op_iff, IntExpr.exact_val_iff, IntExpr.exact, IntOp.apply]
  constructor
  · rintro ⟨-, -, lower, upper⟩
    omega
  · intro small
    exact ⟨fits, by decide, by omega, by omega⟩

/-- The doubling of the memory limit never overflows. -/
theorem doublingExprs_exact_iff :
    (∀ e ∈ doublingExprs p argv, e.Exact) ↔
      (p.lang = langJava → -2 ^ 30 ≤ declared argv 2 ∧ declared argv 2 < 2 ^ 30) := by
  unfold doublingExprs
  by_cases java : p.lang = langJava
  · have scaled : (scaleExpr (declared argv 3)).eval = scaleMemory (declared argv 3) :=
      eval_scale (declared_fits argv 3)
    have memory : (doublingExpr (scaleMemory (declared argv 3))).Exact := by
      have fits : Fits (scaleMemory (declared argv 3)) := int32_fits _
      rw [exact_doubling_iff fits, scaleMemory_eq]
      split <;> omega
    simp only [java, if_true, List.forall_mem_cons, List.not_mem_nil, false_imp_iff, implies_true,
      scaled, memory, and_true, exact_doubling_iff (declared_fits argv 2), true_imp_iff]
  · simp [java]

/-- What an unclamped memory limit says of the declaration. -/
theorem memLmt_lt_iff (accepted : initParameters argv = .ok p) :
    Fits (declared argv 3 * 1024) ∧ p.memLmt < 1024 ↔
      1024 ≤ declared argv 3 ∧ declared argv 3 < topMegabytes p.lang * 1024 := by
  obtain ⟨-, -, memLmt⟩ := parameters_of_accepted accepted
  rw [memLmt, clampMemory_eq]
  unfold Fits topMegabytes
  by_cases java : p.lang = langJava
  · simp only [java, if_true]
    split <;> omega
  · simp only [java, if_false]
    split <;> omega

theorem rlimT_eq {x : Int} (range : 0 ≤ x ∧ x < 2 ^ 64) : (rlimT x : Int) = x := by
  unfold rlimT
  rw [Int.emod_eq_of_lt range.1 range.2, Int.toNat_of_nonneg range.1]

/-- `rlim_cur` of `RLIMIT_AS` is always 1.5 times the memory limit. -/
theorem installedCur_eq :
    (rlimT (int32 (Int.tdiv (int32 (stdMB * p.memLmt)) 2 * 3)) : Int) =
      stdMB * p.memLmt / 2 * 3 := by
  have range := p.memLmt_range
  have half : Int.tdiv (stdMB * p.memLmt) 2 = stdMB * p.memLmt / 2 :=
    Int.tdiv_eq_ediv_of_nonneg (by unfold stdMB; omega)
  have cur : int32 (Int.tdiv (int32 (stdMB * p.memLmt)) 2 * 3) = stdMB * p.memLmt / 2 * 3 := by
    rw [← eval_memoryCur, ← half]
    exact exact_memoryCur.eq
  rw [cur]
  unfold stdMB
  exact rlimT_eq ⟨by omega, by omega⟩

/-- Below the top a native child is given 1.5 and 2 times the limit. -/
theorem installed_of_lt (below : p.memLmt < 1024) (native : p.lang ≠ langJava) :
    ∃ as, (runSolutionLimits p usedtime).as = some as ∧
      2 * (as.cur : Int) = 3 * (p.memLmt * stdMB) ∧ (as.max : Int) = 2 * (p.memLmt * stdMB) ∧
        as.cur ≤ as.max := by
  have range := p.memLmt_range
  have cur := installedCur_eq (p := p)
  have exact : int32 (int32 (stdMB * p.memLmt) * 2) = stdMB * p.memLmt * 2 := by
    rw [← eval_memoryMax]
    exact (exact_memoryMax_iff.mpr below).eq
  have max : (rlimT (int32 (int32 (stdMB * p.memLmt) * 2)) : Int) = stdMB * p.memLmt * 2 := by
    rw [exact]
    unfold stdMB
    exact rlimT_eq ⟨by omega, by omega⟩
  refine ⟨_, if_neg native, ?_⟩
  dsimp only
  unfold stdMB at cur max ⊢
  omega

/-- **Nothing overflows exactly for a declaration of a megabyte or more that stays under
the top**; with the doublings for Java counted, also for a time under 2^30 seconds. -/
theorem limitArithmetic_iff (accepted : initParameters argv = .ok p)
    (starts : StartsTest b p entries s t) :
    (LimitArithmetic argv p s.usedtime ↔
      1024 ≤ declared argv 3 ∧ declared argv 3 < topMegabytes p.lang * 1024) ∧
    (LimitArithmetic argv p s.usedtime ∧ (∀ e ∈ doublingExprs p argv, e.Exact) ↔
      (1024 ≤ declared argv 3 ∧ declared argv 3 < topMegabytes p.lang * 1024) ∧
        (p.lang = langJava → -2 ^ 30 ≤ declared argv 2 ∧ declared argv 2 < 2 ^ 30)) := by
  have exprs : (∀ e ∈ limitExprs p argv s.usedtime, e.Exact) ↔
      1024 ≤ declared argv 3 ∧ declared argv 3 < topMegabytes p.lang * 1024 :=
    (limitExprs_exact_iff starts.usedtime_fits).trans (memLmt_lt_iff accepted)
  have arithmetic : LimitArithmetic argv p s.usedtime ↔
      1024 ≤ declared argv 3 ∧ declared argv 3 < topMegabytes p.lang * 1024 := by
    refine ⟨fun held => exprs.mp held.exact, fun between => ⟨exprs.mpr between, fun native => ?_⟩⟩
    exact installed_of_lt ((memLmt_lt_iff accepted).mpr between).2 native
  exact ⟨arithmetic, by rw [arithmetic, doublingExprs_exact_iff]⟩

namespace Sample

theorem startsTest_limits (kilobytes : List UInt8) :
    StartsTest build (limits kilobytes) [entry [59, 231]] startProgress (test [59, 231]) :=
  ⟨rfl, [], entry [59, 231], [], rfl, by decide, rfl, rfl⟩

/-- 64 MB. -/
theorem limitArithmetic_iff_sample :
    LimitArithmetic (commandLine megabytes64) (limits megabytes64) 0 :=
  (limitArithmetic_iff (commandLine_accepted _) (startsTest_limits _)).1.mpr (by decide)

/-- 128 MB: `STD_MB *mem_lmt*2` is 2^31. -/
theorem memory_overflow_sample :
    ¬ ∀ argv p b entries s t, initParameters argv = .ok p → StartsTest b p entries s t →
      LimitArithmetic argv p s.usedtime := by
  intro exact
  have held := exact (commandLine megabytes128) _ _ _ _ _ (commandLine_accepted _)
    (startsTest_limits _)
  have expr := held.exact (memoryMaxExpr (limits megabytes128)) (by simp [limitExprs])
  exact absurd (exact_memoryMax_iff.mp expr) (by decide)

end Sample

end Overflow

end RunServer.Runner
