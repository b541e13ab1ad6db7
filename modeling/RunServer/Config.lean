/-
# Config -- the constants the runner, the compiler and the dispatcher share

`Cjudger/config.h` and `config/config.go` number the verdicts and the languages
the same way; `Judge.code` and `lang*` are that numbering.  The modules of a
submission exist on the Go side only.
-/
import Mathlib.Algebra.Order.Ring.Int

namespace RunServer

set_option autoImplicit false

inductive Judge where
  | PD | RJ | CE | AC | RE | WA | TLE | MLE | OLE | PE | NA
  deriving DecidableEq, Repr

def Judge.code : Judge → Int
  | .PD => 0
  | .RJ => 1
  | .CE => 2
  | .AC => 3
  | .RE => 4
  | .WA => 5
  | .TLE => 6
  | .MLE => 7
  | .OLE => 8
  | .PE => 9
  | .NA => 10

theorem Judge.eq_of_code {j j' : Judge} (same : j.code = j'.code) : j = j' := by
  cases j <;> cases j' <;> revert same <;> decide

/-- A verdict a judging may end with; `PD` and `RJ` say it is still going on. -/
def Judge.Terminal (j : Judge) : Prop := j ≠ .PD ∧ j ≠ .RJ

instance (j : Judge) : Decidable j.Terminal := by unfold Judge.Terminal; infer_instance

def langC : Int := 1
def langCC : Int := 2
def langJava : Int := 3

def moduleP : Int := 1
def moduleC : Int := 2

def stdMB : Int := 1048576
def stdFLim : Int := stdMB * 2 ^ 5

end RunServer
