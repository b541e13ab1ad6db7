/-
# Runner.Compare -- the output checker

`compare` reads the expected answer and the user's output side by side, one
character ahead of each (`Reader.head`, `none` for `EOF`).  Its loops are written
with fuel, so that they evaluate: a loop that has used its fuel answers `none`.
The fuel each call is given is computed from what is left of the two files.
-/
import Mathlib.Data.List.Basic
import RunServer.Config

namespace RunServer.Runner

set_option autoImplicit false

/-- A file opened for reading: the character `fgetc` returned last, and what
it has not returned yet. -/
structure Reader where
  head : Option UInt8
  rest : List UInt8
  deriving DecidableEq, Repr

namespace Reader

/-- A file just opened; nothing has been read, and `head` is not looked at. -/
def fopen (bytes : List UInt8) : Reader := ⟨none, bytes⟩

def fgetc (r : Reader) : Reader :=
  match r.rest with
  | [] => ⟨none, []⟩
  | b :: bs => ⟨some b, bs⟩

/-- The bytes a loop over this reader can still go through. -/
def size (r : Reader) : Nat := r.rest.length + r.head.toList.length

end Reader

/-- `isspace` in the C locale; `EOF` is not a space. -/
def isspace : Option UInt8 → Bool
  | some b => b = 32 || (9 ≤ b && b ≤ 13)
  | none => false

def cr : Option UInt8 := some 13
def lf : Option UInt8 := some 10
def nul : Option UInt8 := some 0

/-- `do c = fgetc(f); while (isspace(c));` -/
def skipSpaces : List UInt8 → Reader
  | [] => ⟨none, []⟩
  | b :: bs => if isspace (some b) then skipSpaces bs else ⟨some b, bs⟩

/-- `if (isspace(c)) c = fgetc(f);` -/
def Reader.advance (r : Reader) : Reader := if isspace r.head then r.fgetc else r

/-! ## `find_next_nonspace` -/

def findNextNonspaceLoop : Nat → Reader → Reader → Judge → Option (Reader × Reader × Judge)
  | 0, _, _, _ => none
  | fuel + 1, r1, r2, ret =>
      if isspace r1.head || isspace r2.head then
        if r1.head ≠ r2.head then
          if r2.head = none then findNextNonspaceLoop fuel (skipSpaces r1.rest) r2 ret
          else if r1.head = none then findNextNonspaceLoop fuel r1 (skipSpaces r2.rest) ret
          else if r1.head = cr ∧ r2.head = lf then
            findNextNonspaceLoop fuel r1.fgetc.advance r2.advance ret
          else if r2.head = cr ∧ r1.head = lf then
            findNextNonspaceLoop fuel r1.advance r2.fgetc.advance ret
          else findNextNonspaceLoop fuel r1.advance r2.advance .PE
        else findNextNonspaceLoop fuel r1.advance r2.advance ret
      else some (r1, r2, ret)

def findNextNonspace (r1 r2 : Reader) (ret : Judge) : Option (Reader × Reader × Judge) :=
  findNextNonspaceLoop (r1.size + r2.size + 1) r1 r2 ret

/-! ## `compare` -/

/-- `!isspace(c) && c`: a visible character.  `EOF` counts as one, `NUL` does not. -/
def visible (c : Option UInt8) : Bool := !isspace c && c ≠ nul

/-- How a part of `compare` ends: with `goto end`, or at two heads. -/
inductive Scan where
  | finished (ret : Judge)
  | heads (r1 r2 : Reader)
  deriving DecidableEq, Repr

/-- "Read until 2 files return a space or 0 together." -/
def readWord : Nat → Reader → Reader → Judge → Option Scan
  | 0, _, _, _ => none
  | fuel + 1, r1, r2, ret =>
      if visible r1.head || visible r2.head then
        if r1.head = none ∧ r2.head = none then some (.finished ret)
        else if r1.head = none ∨ r2.head = none then some (.heads r1 r2)
        else if r1.head ≠ r2.head then some (.finished .WA)
        else readWord fuel r1.fgetc r2.fgetc ret
      else some (.heads r1 r2)

/-- `c == '\n' || !c`. -/
def endsLine (c : Option UInt8) : Bool := c = lf || c = nul

/-- Where `compare` is: at the top of its outer loop or of its inner one. -/
inductive Point where
  | outer | inner
  deriving DecidableEq, Repr

def compareLoop : Nat → Point → Reader → Reader → Judge → Option Judge
  | 0, _, _, _, _ => none
  | fuel + 1, .outer, r1, r2, ret =>
      -- the first non-space character of a line; blank lines are skipped
      match findNextNonspace r1.fgetc r2.fgetc ret with
      | none => none
      | some (r1, r2, ret) => compareLoop fuel .inner r1 r2 ret
  | fuel + 1, .inner, r1, r2, ret =>
      match readWord (r1.size + r2.size + 1) r1 r2 ret with
      | none => none
      | some (.finished ret) => some ret
      | some (.heads r1 r2) =>
          match findNextNonspace r1 r2 ret with
          | none => none
          | some (r1, r2, ret) =>
              if r1.head = none ∧ r2.head = none then some ret
              else if r1.head = none ∨ r2.head = none then some .WA
              else if endsLine r1.head && endsLine r2.head then compareLoop fuel .outer r1 r2 ret
              else compareLoop fuel .inner r1 r2 ret

/-- `compare(file1, file2)`; a file that cannot be opened is `none`. -/
def compare (file1 file2 : Option (List UInt8)) : Option Judge :=
  match file1, file2 with
  | some s, some t =>
      compareLoop (2 * (s.length + t.length) + 3) .outer (Reader.fopen s) (Reader.fopen t) .AC
  | _, _ => some .RE

/-! ## The verdicts it can give -/

/-- The verdict so far of a comparison that has found no wrong answer. -/
def Tolerant (ret : Judge) : Prop := ret = .AC ∨ ret = .PE

/-- The verdicts `compare` can give. -/
def Checked (ret : Judge) : Prop := ret = .AC ∨ ret = .PE ∨ ret = .WA ∨ ret = .RE

theorem Tolerant.checked {ret : Judge} (tolerant : Tolerant ret) : Checked ret := by
  rcases tolerant with rfl | rfl
  · exact Or.inl rfl
  · exact Or.inr (Or.inl rfl)

theorem findNextNonspaceLoop_tolerant {fuel : Nat} {r1 r2 s1 s2 : Reader} {ret ret' : Judge}
    (tolerant : Tolerant ret)
    (found : findNextNonspaceLoop fuel r1 r2 ret = some (s1, s2, ret')) : Tolerant ret' := by
  induction fuel generalizing r1 r2 ret with
  | zero => simp [findNextNonspaceLoop] at found
  | succ fuel ih =>
      simp only [findNextNonspaceLoop] at found
      split at found
      · split at found
        · split at found
          · exact ih tolerant found
          · split at found
            · exact ih tolerant found
            · split at found
              · exact ih tolerant found
              · split at found
                · exact ih tolerant found
                · exact ih (Or.inr rfl) found
        · exact ih tolerant found
      · simp only [Option.some.injEq, Prod.mk.injEq] at found
        exact found.2.2 ▸ tolerant

theorem readWord_finished {fuel : Nat} {r1 r2 : Reader} {ret ret' : Judge}
    (found : readWord fuel r1 r2 ret = some (.finished ret')) : ret' = ret ∨ ret' = .WA := by
  induction fuel generalizing r1 r2 with
  | zero => simp [readWord] at found
  | succ fuel ih =>
      simp only [readWord] at found
      split at found
      · split at found
        · simp only [Option.some.injEq, Scan.finished.injEq] at found
          exact Or.inl found.symm
        · split at found
          · simp at found
          · split at found
            · simp only [Option.some.injEq, Scan.finished.injEq] at found
              exact Or.inr found.symm
            · exact ih found
      · simp at found

theorem compareLoop_checked {fuel : Nat} {point : Point} {r1 r2 : Reader} {ret ret' : Judge}
    (tolerant : Tolerant ret) (found : compareLoop fuel point r1 r2 ret = some ret') :
    Checked ret' := by
  induction fuel generalizing point r1 r2 ret with
  | zero => simp [compareLoop] at found
  | succ fuel ih =>
      cases point with
      | outer =>
          simp only [compareLoop] at found
          split at found
          · simp at found
          · rename_i nonspace
            exact ih (findNextNonspaceLoop_tolerant tolerant nonspace) found
      | inner =>
          simp only [compareLoop] at found
          split at found
          · simp at found
          · rename_i ended
            simp only [Option.some.injEq] at found
            subst found
            rcases readWord_finished ended with rfl | rfl
            · exact tolerant.checked
            · exact Or.inr (Or.inr (Or.inl rfl))
          · split at found
            · simp at found
            · rename_i nonspace
              have next := findNextNonspaceLoop_tolerant tolerant nonspace
              split at found
              · simp only [Option.some.injEq] at found
                exact found ▸ next.checked
              · split at found
                · simp only [Option.some.injEq] at found
                  exact found ▸ Or.inr (Or.inr (Or.inl rfl))
                · split at found
                  · exact ih next found
                  · exact ih next found

/-- **`compare` gives AC, PE, WA, or RE for a file it cannot open.** -/
theorem compare_checked {file1 file2 : Option (List UInt8)} {ret : Judge}
    (found : compare file1 file2 = some ret) : Checked ret := by
  unfold compare at found
  split at found
  · exact compareLoop_checked (Or.inl rfl) found
  · simp only [Option.some.injEq] at found
    exact found ▸ Or.inr (Or.inr (Or.inr rfl))

end RunServer.Runner
