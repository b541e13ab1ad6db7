/-
# Runner.OkCalls -- the system call tables and the counter they fill

`okcalls.h` lists, for each language, system call numbers (`LANG_CV`, `LANG_JV`)
and, in a parallel table, how often each may be made (`LANG_CC`, `LANG_JC`): a
positive number, or `hojMaxLimit` for no limit.  The `#else` branch (x86-64) is
modelled.  Each table is an `int[256]`, zero past the listed entries.

`initSyscallsLimits` clears `call_counter` and walks the limits up to the first
zero.  The number tables are longer than the limit tables, so their tails are
never entered (`LANG_CV` has 30 numbers for 16 limits, `LANG_JV` 65 for 43).
`limitTable` is what is left of the two tables of a language, and
`initSyscallsLimits_apply` says that the counter holds exactly that.
-/
import Mathlib.Logic.Function.Basic
import RunServer.Config

namespace RunServer.Runner

set_option autoImplicit false

def hojMaxLimit : Int := -1

def callArraySize : Nat := 512

/-- `int call_counter[call_array_size]`. -/
abbrev CallCounter := Fin callArraySize → Int

instance : NeZero callArraySize := ⟨by decide⟩

/-! ## `sys/syscall.h`, x86-64 -/

namespace Sys

def read : Fin callArraySize := 0
def write : Fin callArraySize := 1
def open_ : Fin callArraySize := 2
def close : Fin callArraySize := 3
def stat : Fin callArraySize := 4
def fstat : Fin callArraySize := 5
def mmap : Fin callArraySize := 9
def mprotect : Fin callArraySize := 10
def munmap : Fin callArraySize := 11
def brk : Fin callArraySize := 12
def rtSigaction : Fin callArraySize := 13
def rtSigprocmask : Fin callArraySize := 14
def access : Fin callArraySize := 21
def clone : Fin callArraySize := 56
def execve : Fin callArraySize := 59
def uname : Fin callArraySize := 63
def fcntl : Fin callArraySize := 72
def readlink : Fin callArraySize := 89
def getrlimit : Fin callArraySize := 97
def getuid : Fin callArraySize := 102
def getgid : Fin callArraySize := 104
def geteuid : Fin callArraySize := 107
def getegid : Fin callArraySize := 108
def archPrctl : Fin callArraySize := 158
def time : Fin callArraySize := 201
def futex : Fin callArraySize := 202
def setThreadArea : Fin callArraySize := 205
def getdents64 : Fin callArraySize := 217
def setTidAddress : Fin callArraySize := 218
def exitGroup : Fin callArraySize := 231
def setRobustList : Fin callArraySize := 273

end Sys

def langTableJV : List (Fin callArraySize) :=
  [0, 2, 3, 4, 5, 9, 10, 11, 12, 13, 14, 21, 56, 59, 89, 97, 158, 202, 218, 231, 273, 257, 61,
    22, 6, 33, 8, 13, 16, 111, 110, 39, 79, Sys.fcntl, Sys.getdents64, Sys.getrlimit,
    Sys.rtSigprocmask, Sys.futex, Sys.read, Sys.mmap, Sys.stat, Sys.open_, Sys.close,
    Sys.execve, Sys.access, Sys.brk, Sys.readlink, Sys.munmap, Sys.close, Sys.uname, Sys.clone,
    Sys.uname, Sys.mprotect, Sys.rtSigaction, Sys.getrlimit, Sys.fstat, Sys.getuid, Sys.getgid,
    Sys.geteuid, Sys.getegid, Sys.setThreadArea, Sys.setTidAddress, Sys.setRobustList,
    Sys.exitGroup, 158, 0]

def langTableJC : List Int := List.replicate 43 hojMaxLimit ++ [0]

def langTableCV : List (Fin callArraySize) :=
  [0, 1, 5, 9, 11, 12, 21, 59, 63, 89, 158, 231, 8, Sys.time, Sys.read, Sys.uname, Sys.write,
    Sys.open_, Sys.close, Sys.execve, Sys.access, Sys.brk, Sys.munmap, Sys.mprotect, Sys.mmap,
    Sys.fstat, Sys.setThreadArea, 252, Sys.archPrctl, 231, 0]

def langTableCC : List Int :=
  List.replicate 13 hojMaxLimit ++ [2, hojMaxLimit, hojMaxLimit, 0]

/-! ## Filling the counter -/

/-- `for (i = 0; C[i]; i++) call_counter[V[i]] = C[i]`.  A list that has ended
reads as the zeros its array is padded with. -/
def fillLimits : List (Fin callArraySize) → List Int → CallCounter → CallCounter
  | _, [], table => table
  | numbers, limit :: limits, table =>
      if limit = 0 then table
      else fillLimits numbers.tail limits (Function.update table (numbers.headD 0) limit)

def initSyscallsLimits (recordCall : Bool) (lang : Int) : CallCounter :=
  let cleared : CallCounter := fun _ => 0
  if recordCall then cleared
  else if lang ≤ langCC then fillLimits langTableCV langTableCC cleared
  else if lang = langJava then fillLimits langTableJV langTableJC cleared
  else cleared

/-- The numbers a walk over two parallel tables reaches, each with its limit. -/
def pairLimits : List (Fin callArraySize) → List Int → List (Fin callArraySize × Int)
  | _, [] => []
  | numbers, limit :: limits =>
      if limit = 0 then [] else (numbers.headD 0, limit) :: pairLimits numbers.tail limits

def limitTable (lang : Int) : List (Fin callArraySize × Int) :=
  if lang ≤ langCC then pairLimits langTableCV langTableCC
  else if lang = langJava then pairLimits langTableJV langTableJC
  else []

/-- The numbers `init_syscalls_limits` enters into the counter for a language. -/
def Entered (lang : Int) (number : Fin callArraySize) : Prop :=
  number ∈ (limitTable lang).map Prod.fst

instance (lang : Int) (number : Fin callArraySize) : Decidable (Entered lang number) := by
  unfold Entered; infer_instance

/-- A later entry of the same number overwrites an earlier one. -/
theorem fillLimits_apply (numbers : List (Fin callArraySize)) (limits : List Int)
    (table : CallCounter) (number : Fin callArraySize) :
    fillLimits numbers limits table number =
      ((pairLimits numbers limits).reverse.lookup number).getD (table number) := by
  induction limits generalizing numbers table with
  | nil => simp [fillLimits, pairLimits]
  | cons limit limits ih =>
      by_cases stop : limit = 0
      · simp [fillLimits, pairLimits, stop]
      · simp only [fillLimits, pairLimits, if_neg stop, ih, List.reverse_cons, List.lookup_append]
        cases (pairLimits numbers.tail limits).reverse.lookup number with
        | some later => rfl
        | none =>
            by_cases here : number = numbers.headD 0
            · subst here; simp
            · have differs : (number == numbers.headD 0) = false := by simpa using here
              rw [List.lookup_cons, differs, Function.update_of_ne here]
              rfl

theorem initSyscallsLimits_apply (lang : Int) (number : Fin callArraySize) :
    initSyscallsLimits false lang number =
      ((limitTable lang).reverse.lookup number).getD 0 := by
  unfold initSyscallsLimits limitTable
  simp only [Bool.false_eq_true, if_false]
  split
  · exact fillLimits_apply _ _ _ _
  · split
    · exact fillLimits_apply _ _ _ _
    · simp

theorem pairLimits_ne_zero {numbers : List (Fin callArraySize)} {limits : List Int}
    {entry : Fin callArraySize × Int} (member : entry ∈ pairLimits numbers limits) :
    entry.2 ≠ 0 := by
  induction limits generalizing numbers with
  | nil => simp [pairLimits] at member
  | cons limit limits ih =>
      by_cases stop : limit = 0
      · simp [pairLimits, stop] at member
      · simp only [pairLimits, if_neg stop, List.mem_cons] at member
        rcases member with rfl | later
        · exact stop
        · exact ih later

theorem limitTable_ne_zero {lang : Int} {entry : Fin callArraySize × Int}
    (member : entry ∈ limitTable lang) : entry.2 ≠ 0 := by
  unfold limitTable at member
  split at member
  · exact pairLimits_ne_zero member
  · split at member
    · exact pairLimits_ne_zero member
    · simp at member

/-- An entry that is not 0 is the limit of its number in the table. -/
theorem mem_limitTable {lang : Int} {number : Fin callArraySize}
    (nonzero : initSyscallsLimits false lang number ≠ 0) :
    (number, initSyscallsLimits false lang number) ∈ limitTable lang := by
  rw [initSyscallsLimits_apply] at nonzero ⊢
  cases found : (limitTable lang).reverse.lookup number with
  | none => simp [found] at nonzero
  | some limit =>
      obtain ⟨before, after, split, -⟩ := List.lookup_eq_some_iff.1 found
      rw [← List.mem_reverse, split]
      simp

/-- **The counter starts non-zero exactly at the numbers that were entered.** -/
theorem initSyscallsLimits_ne_zero_iff (lang : Int) (number : Fin callArraySize) :
    initSyscallsLimits false lang number ≠ 0 ↔ Entered lang number := by
  constructor
  · intro nonzero
    exact List.mem_map.2 ⟨_, mem_limitTable nonzero, rfl⟩
  · intro entered zero
    rw [initSyscallsLimits_apply] at zero
    cases found : (limitTable lang).reverse.lookup number with
    | none =>
        rw [List.lookup_eq_none_iff] at found
        obtain ⟨entry, member, rfl⟩ := List.mem_map.1 entered
        simpa using found entry (List.mem_reverse.2 member)
    | some limit =>
        obtain ⟨before, after, split, -⟩ := List.lookup_eq_some_iff.1 found
        have member : (number, limit) ∈ limitTable lang := by
          rw [← List.mem_reverse, split]
          simp
        rw [found] at zero
        exact limitTable_ne_zero member zero

end RunServer.Runner
