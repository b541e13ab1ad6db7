/-
# Dispatch.Judger -- the four stages of a judging

`ZJGSUJudger.Run` applies `Init`, `Login`, `Submit` and `GetStatus` in turn, and
stops at the first error.  They work on the submission's own `solution` and on what
all judgings share (`Shared`): the one `ZJGSUJudger` in `VJs`, the tree of
directories `runPath/Sid/Vid`, and the stored records.

The programs a stage starts, the problem records and the test data are parameters
(`Programs`); what they do may depend on everything they are given.
-/
import RunServer.Theory.Decimal
import RunServer.Dispatch.Solution

namespace RunServer.Dispatch

open RunServer.Theory

set_option autoImplicit false

/-! ## Directories and processes -/

/-- A directory by file name. -/
abbrev Dir := String → Option String

/-- `runPath/Sid/Vid`. -/
abbrev Path := Int × Int

abbrev Tree := Path → Option Dir

/-- `cmd.ProcessState`; it stays nil when the program could not be started. -/
inductive ProcessState where
  | exited (code : Nat)
  | signaled (sig : Nat)
  | notStarted
  deriving DecidableEq, Repr

/-- `cmd.ProcessState.String() != "exit status 0"`. -/
def ProcessState.failed (state : ProcessState) : Bool := state ≠ .exited 0

/-- How a stage comes back. -/
inductive Ended where
  | ok
  | err
  | panicked
  deriving DecidableEq, Repr

structure ZJGSUJudger where
  token : String
  /-- `none` for the empty string. -/
  workdir : Option Path
  time : Int
  mem : Int
  deriving DecidableEq, Repr

structure Shared where
  z : ZJGSUJudger
  tree : Tree
  store : Store

namespace Shared

/-- The directory a program finds at `z.workdir`. -/
def workdir (w : Shared) : Option Dir := w.z.workdir.bind w.tree

/-- What a program has left there. -/
def setWorkdir (w : Shared) (dir : Option Dir) : Shared :=
  match w.z.workdir with
  | none => w
  | some path => { w with tree := Function.update w.tree path dir }

/-- `os.RemoveAll(runPath + "/" + sid)`. -/
def removeAll (w : Shared) (sid : Int) : Shared :=
  { w with tree := fun path => if path.1 = sid then none else w.tree path }

end Shared

structure Programs where
  /-- `compiler lang workdir`. -/
  compiler : Int → Option Dir → Option Dir × ProcessState
  /-- `runner lang time mem workdir`, with its standard output. -/
  runner : Int → Int → Int → Option Dir → Option Dir × List Char
  /-- `dataPath/Vid`. -/
  dataPath : Int → Dir
  /-- `Time` and `Memory` of `model.ProblemModel.Detail`. -/
  problem : Int → Option (Int × Int)
  /-- The other two `Vjudger`s of `VJs`. -/
  others : Shared → Solution → Shared × Solution × Ended

/-! ## Parsing -/

/-- `strconv.Atoi` with its error dropped: 0 for a malformed string, the nearest
`int` for a number out of range. -/
def atoi (s : List Char) : Int :=
  match ofDecimal? s with
  | none => 0
  | some x => max (-2 ^ 63) (min (2 ^ 63 - 1) x)

theorem atoi_decimal {x : Int} (lower : -2 ^ 63 ≤ x) (upper : x < 2 ^ 63) :
    atoi (decimal x) = x := by
  rw [atoi, ofDecimal?_decimal]
  dsimp only
  omega

/-! ## The stages -/

def codefilename (lang : Int) : Option String :=
  if lang = langC then some "Main.c"
  else if lang = langCC then some "Main.cc"
  else if lang = langJava then some "Main.java"
  else none

/-- `files`; for another language `os.Create("")` fails, and nothing is written. -/
def files (user : Solution) (dir : Dir) : Dir :=
  match codefilename user.language with
  | none => dir
  | some name => Function.update dir name (some user.code)

/-- `mkdir -p`, then the source file. -/
def stageInit (w : Shared) (user : Solution) : Shared × Solution × Ended :=
  let path := (user.sid, user.vid)
  let dir := (w.tree path).getD fun _ => none
  ({ w with
      z := { w.z with token := "ZJGSU", workdir := some path }
      tree := Function.update w.tree path (some (files user dir)) },
    user, .ok)

section Stages

variable (progs : Programs)

/-- `pro, _ := proModel.Detail(...)`: an unknown problem is a nil dereference. -/
def stageLogin (w : Shared) (user : Solution) : Shared × Solution × Ended :=
  match progs.problem user.vid with
  | none => (w, user, .panicked)
  | some (time, mem) => ({ w with z := { w.z with time, mem } }, user, .ok)

def compile (w : Shared) (user : Solution) : Shared × Solution :=
  let made := progs.compiler user.language w.workdir
  (w.setWorkdir made.1, if made.2.failed then user.setResult Judge.CE.code else user)

/-- `cp -r dataPath/Vid runPath/Sid`, into the directory `Init` has made. -/
def copyData (user : Solution) (tree : Tree) : Tree :=
  match tree (user.sid, user.vid) with
  | none => tree
  | some dir =>
      Function.update tree (user.sid, user.vid)
        (some fun name => (progs.dataPath user.vid name).or (dir name))

def stageSubmit (w : Shared) (user : Solution) : Shared × Solution × Ended :=
  let c := compile progs w user
  if c.2.judge ≠ Judge.CE.code then
    let user := c.2.setResult Judge.RJ.code
    ({ c.1 with store := user.updateSolution c.1.store, tree := copyData progs user c.1.tree },
      user, .ok)
  else
    let text := (c.1.workdir.bind fun dir => dir "ce.txt").getD ""
    (c.1, c.2.setErrorInfo text, .err)

/-- The fields of the runner's line; `sp[1]` or `sp[2]` may be out of range. -/
def readStatus (user : Solution) (out : List Char) : Solution × Ended :=
  let sp := out.splitOn ' '
  let user := user.setResult (atoi (sp.headD []))
  match sp with
  | _ :: time :: mem :: _ =>
      (user.setResource (atoi time) (Int.tdiv (atoi mem) 1024) user.code.utf8ByteSize, .ok)
  | _ => (user, .panicked)

def stageGetStatus (w : Shared) (user : Solution) : Shared × Solution × Ended :=
  let ran := progs.runner user.language w.z.time w.z.mem w.workdir
  (w.setWorkdir ran.1, readStatus user ran.2)

abbrev Stage := Shared → Solution → Shared × Solution × Ended

def applyAll : List Stage → Stage
  | [], w, user => (w, user, .ok)
  | stage :: rest, w, user =>
      match stage w user with
      | (w, user, .ok) => applyAll rest w user
      | (w, user, ended) => (w, user, ended)

/-- `Run`; the deferred `RemoveAll` also runs on a panic. -/
def run (w : Shared) (user : Solution) : Shared × Solution × Ended :=
  let (w, user, ended) :=
    applyAll [stageInit, stageLogin progs, stageSubmit progs, stageGetStatus progs] w
      (user.setResult Judge.PD.code)
  (w.removeAll user.sid, user, ended)

/-- `ZJGSUJudger.Match`. -/
def matchesToken (token : String) : Bool := "ZJGSU" = token || token = ""

/-- `Judge`, up to `UpdateSim`.  A panic is not recovered, and ends the server. -/
def judge (getSim : Int × Int) (info : Info) (w : Shared) : Shared × Solution × Ended :=
  let user := Solution.init info w.store
  let (w, user, ended) := if matchesToken user.oj then run progs w user else progs.others w user
  if ended = .panicked then (w, user, .panicked)
  else
    let (user, store) := user.updateSim getSim w.store
    ({ w with store }, user, .ok)

end Stages

end RunServer.Dispatch
