/-
# Runner.Status -- the peak of memory, read off `/proc/<pid>/status`

`get_proc_status` reads the file with `fgets` into 511 bytes, cuts the last byte off,
and takes the number behind the mark from the lines that begin with it.  A line that
does not fit comes in pieces, each of which is a line to it.

* `getProcStatus_field`: what the kernel has printed behind the mark is read back, whatever the
  other lines are, also those that do not fit;
* `getProcStatus_of_others`: without such a line, as of a child that has ended, the answer is 0;
* `topmemory_of_status`: so an accepted C or C++ run is charged the largest peak the kernel has
  printed, and page faults where it printed none.
-/
import Mathlib.Data.List.TakeWhile
import RunServer.Runner.Measure

namespace RunServer.Runner

open RunServer.Theory

set_option autoImplicit false

/-! ## `get_proc_status` -/

/-- `BUFFER_SIZE`. -/
def bufferSize : Nat := 512

/-- How many bytes `fgets` stores, at most `room`. -/
def fgetsLength : Nat → List UInt8 → Nat
  | 0, _ => 0
  | _, [] => 0
  | room + 1, b :: s => if b = 10 then 1 else fgetsLength room s + 1

/-- `fgets(buf, BUFFER_SIZE - 1, pf)` stores one byte less, and the closing `NUL`. -/
def fgets (s : List UInt8) : List UInt8 × List UInt8 :=
  s.splitAt (fgetsLength (bufferSize - 2) s)

/-- `sscanf(s, "%d", &ret)`; `none` where nothing is assigned. -/
def scanInt (s : List UInt8) : Option Int :=
  let number := s.dropWhile fun b => isspace (some b)
  let digits := if number.head? = some 43 ∨ number.head? = some 45 then number.tail else number
  if digits.head?.any (fun b => 48 ≤ b && b ≤ 57) then some (atoi s) else none

/-- The body of the loop.  `buf[strlen(buf) - 1]` is outside of `buf` when the first byte is
`NUL`. -/
def statusTurn (mark : List UInt8) (ret : Int) (buf : List UInt8) : Option Int :=
  if buf.takeWhile (· ≠ 0) = [] then none
  else
    let buf := (buf.takeWhile (· ≠ 0)).dropLast
    some (if mark.isPrefixOf buf then (scanInt (buf.drop (mark.length + 1))).getD ret else ret)

theorem fgetsLength_pos {room : Nat} (some_ : 0 < room) {s : List UInt8} (left : s ≠ []) :
    0 < fgetsLength room s := by
  obtain ⟨b, s, rfl⟩ := List.exists_cons_of_ne_nil left
  obtain ⟨room, rfl⟩ := Nat.exists_eq_add_of_lt some_
  rw [Nat.zero_add, fgetsLength]
  split <;> omega

def statusLoop (mark : List UInt8) (ret : Int) (s : List UInt8) : Option Int :=
  if _left : s = [] then some ret
  else (statusTurn mark ret (fgets s).1).bind fun ret => statusLoop mark ret (fgets s).2
termination_by s.length
decreasing_by
  have room : 0 < bufferSize - 2 := by decide
  have := fgetsLength_pos room _left
  have := List.length_pos_iff.2 _left
  simp only [fgets, List.splitAt_eq, List.length_drop]
  omega

/-- `get_proc_status(pid, mark)`, by what is in the file; `none` where `fopen` fails. -/
def getProcStatus (status : Option (List UInt8)) (mark : List UInt8) : Option Int :=
  status.elim (some 0) (statusLoop mark 0)

/-! ## Pieces of lines -/

theorem fgetsLength_line {body : List UInt8} (one : 10 ∉ body) (room : Nat) (rest : List UInt8) :
    fgetsLength room (body ++ 10 :: rest) = min room (body.length + 1) := by
  induction body generalizing room with
  | nil => cases room <;> simp [fgetsLength]
  | cons b body ih =>
      rw [List.mem_cons, not_or] at one
      cases room with
      | zero => simp [fgetsLength]
      | succ room =>
          rw [List.cons_append, fgetsLength, if_neg (Ne.symm one.1), ih one.2, List.length_cons]
          omega

/-- The whole line, where it fits. -/
theorem fgets_of_fits {body : List UInt8} (one : 10 ∉ body) (fits : body.length + 2 < bufferSize)
    (rest : List UInt8) : fgets (body ++ 10 :: rest) = (body ++ [10], rest) := by
  have length : fgetsLength (bufferSize - 2) (body ++ 10 :: rest) = (body ++ [10]).length := by
    rw [fgetsLength_line one, List.length_append]
    exact Nat.min_eq_right (Nat.le_sub_of_add_le fits)
  have split : body ++ 10 :: rest = (body ++ [10]) ++ rest := by
    rw [List.append_assoc, List.singleton_append]
  rw [fgets, length, List.splitAt_eq, split, List.take_left, List.drop_left]

/-- And else the first piece of it. -/
theorem fgets_of_long {body : List UInt8} (one : 10 ∉ body)
    (long : bufferSize ≤ body.length + 2) (rest : List UInt8) :
    fgets (body ++ 10 :: rest) =
      (body.take (bufferSize - 2), body.drop (bufferSize - 2) ++ 10 :: rest) := by
  have length : fgetsLength (bufferSize - 2) (body ++ 10 :: rest) = bufferSize - 2 := by
    rw [fgetsLength_line one]
    exact Nat.min_eq_left (by omega)
  rw [fgets, length, List.splitAt_eq, List.take_append_of_le_length (by omega),
    List.drop_append_of_le_length (by omega)]

theorem statusLoop_nil (mark : List UInt8) (ret : Int) : statusLoop mark ret [] = some ret := by
  rw [statusLoop, dif_pos rfl]

theorem statusLoop_cons {mark s : List UInt8} (left : s ≠ []) (ret : Int) :
    statusLoop mark ret s =
      (statusTurn mark ret (fgets s).1).bind fun ret => statusLoop mark ret (fgets s).2 := by
  rw [statusLoop, dif_neg left]

theorem takeWhile_text {s : List UInt8} (text : 0 ∉ s) : s.takeWhile (· ≠ 0) = s := by
  refine List.takeWhile_eq_self_iff.2 fun b member => ?_
  simpa using fun null : b = 0 => text (null ▸ member)

theorem statusTurn_text {mark buf : List UInt8} (text : 0 ∉ buf) (some_ : buf ≠ []) (ret : Int) :
    statusTurn mark ret buf =
      some (if mark <+: buf.dropLast then
        (scanInt (buf.dropLast.drop (mark.length + 1))).getD ret else ret) := by
  rw [statusTurn, takeWhile_text text, if_neg some_]
  simp only [List.isPrefixOf_iff_prefix]

/-! ## The lines that are read past -/

/-- A line without the mark at its beginning; and where it does not fit, the mark is not in
it at all. -/
structure Unmarked (mark body : List UInt8) : Prop where
  text : 0 ∉ body
  one : 10 ∉ body
  unmarked : ¬ mark <+: body
  long : bufferSize ≤ body.length + 2 → ¬ mark <:+: body

variable {mark : List UInt8}

theorem Unmarked.skip {body : List UInt8} (other : Unmarked mark body) (ret : Int)
    (rest : List UInt8) :
    statusLoop mark ret (body ++ 10 :: rest) = statusLoop mark ret rest := by
  -- piece by piece
  induction size : body.length using Nat.strongRecOn generalizing body with
  | _ n ih =>
      rw [statusLoop_cons (by simp)]
      by_cases fits : body.length + 2 < bufferSize
      · have text : 0 ∉ body ++ [10] := by simpa using other.text
        rw [fgets_of_fits other.one fits, statusTurn_text text (by simp), List.dropLast_concat,
          if_neg other.unmarked]
        rfl
      · have long : bufferSize ≤ body.length + 2 := by omega
        have nowhere := other.long long
        have cut := List.take_append_drop (bufferSize - 2) body
        have text : 0 ∉ body.take (bufferSize - 2) := fun member =>
          other.text (List.mem_of_mem_take member)
        have some_ : body.take (bufferSize - 2) ≠ [] := by
          refine List.ne_nil_of_length_pos ?_
          rw [List.length_take]
          simp only [bufferSize] at long ⊢
          omega
        have inside (part : List UInt8) (infix_ : part <:+: body) : ¬ mark <:+: part :=
          fun found => nowhere (found.trans infix_)
        have first : ¬ mark <+: (body.take (bufferSize - 2)).dropLast := fun found =>
          inside _ ((List.dropLast_prefix _).trans (List.take_prefix _ _)).isInfix found.isInfix
        have last := (List.drop_suffix (bufferSize - 2) body).isInfix
        have remaining : Unmarked mark (body.drop (bufferSize - 2)) :=
          { text := fun member => other.text (List.mem_of_mem_drop member)
            one := fun member => other.one (List.mem_of_mem_drop member)
            unmarked := fun found => inside _ last found.isInfix
            long := fun _ => inside _ last }
        have shorter : (body.drop (bufferSize - 2)).length < n := by
          rw [List.length_drop, ← size]
          simp only [bufferSize] at long ⊢
          omega
        rw [fgets_of_long other.one long, statusTurn_text text some_, if_neg first]
        exact ih _ shorter remaining rfl

/-- A file of lines. -/
def linesOf (bodies : List (List UInt8)) : List UInt8 := bodies.flatMap (· ++ [10])

theorem statusLoop_of_others {bodies : List (List UInt8)}
    (others : ∀ body ∈ bodies, Unmarked mark body) (ret : Int) (rest : List UInt8) :
    statusLoop mark ret (linesOf bodies ++ rest) = statusLoop mark ret rest := by
  induction bodies with
  | nil => rfl
  | cons body bodies ih =>
      rw [List.forall_mem_cons] at others
      have split : linesOf (body :: bodies) ++ rest = body ++ 10 :: (linesOf bodies ++ rest) := by
        simp [linesOf]
      rw [split, others.1.skip, ih others.2]

theorem getProcStatus_of_others {bodies : List (List UInt8)}
    (others : ∀ body ∈ bodies, Unmarked mark body) :
    getProcStatus (some (linesOf bodies)) mark = some 0 := by
  have read := statusLoop_of_others others 0 []
  rw [List.append_nil, statusLoop_nil] at read
  exact read

/-! ## The field -/

/-- `%lu`. -/
def printed (n : Nat) : List UInt8 := (Nat.toDigits 10 n).map fun c => UInt8.ofNat c.toNat

/-- What the kernel prints: the mark, a tab, the number padded with blanks, and the unit. -/
def field (mark : List UInt8) (pad n : Nat) : List UInt8 :=
  mark ++ 9 :: (List.replicate pad 32 ++ printed n ++ [32, 107, 66])

theorem digit_byte {c : Char} (digit : c.isDigit = true) :
    48 ≤ UInt8.ofNat c.toNat ∧ UInt8.ofNat c.toNat ≤ 57 ∧
      (UInt8.ofNat c.toNat).toNat = c.toNat := by
  have bounds : 48 ≤ c.toNat ∧ c.toNat ≤ 57 := Char.isDigit_iff_toNat.1 digit
  have same : (UInt8.ofNat c.toNat).toNat = c.toNat := by
    rw [UInt8.toNat_ofNat']
    omega
  refine ⟨?_, ?_, same⟩ <;> rw [UInt8.le_iff_toNat_le, same]
  · exact bounds.1
  · exact bounds.2

theorem leadingDigits_printed {cs : List Char} (digits : ∀ c ∈ cs, c.isDigit = true)
    {rest : List UInt8} (stops : ∀ b ∈ rest.head?, ¬ (48 ≤ b ∧ b ≤ 57)) (value : Nat) :
    leadingDigits (cs.map (fun c => UInt8.ofNat c.toNat) ++ rest) value =
      Nat.ofDigitChars 10 cs value := by
  induction cs generalizing value with
  | nil =>
      cases rest with
      | nil => rfl
      | cons b rest => rw [List.map_nil, List.nil_append, leadingDigits, if_neg (stops b rfl)]; rfl
  | cons c cs ih =>
      rw [List.forall_mem_cons] at digits
      obtain ⟨lower, upper, same⟩ := digit_byte digits.1
      rw [List.map_cons, List.cons_append, leadingDigits, if_pos ⟨lower, upper⟩, same, ih digits.2,
        Nat.ofDigitChars_cons, Nat.mul_comm]
      rfl

theorem isDigit_toDigits (n : Nat) : ∀ c ∈ Nat.toDigits 10 n, c.isDigit = true :=
  fun _ member => Nat.isDigit_of_mem_toDigits (by decide) (by decide) member

theorem exists_printed (n : Nat) : ∃ b s, printed n = b :: s ∧ 48 ≤ b ∧ b ≤ 57 := by
  obtain ⟨c, cs, split⟩ := List.exists_cons_of_ne_nil (Nat.toDigits_ne_nil (b := 10) (n := n))
  obtain ⟨lower, upper, -⟩ := digit_byte (isDigit_toDigits n c (split ▸ List.mem_cons_self))
  exact ⟨_, _, by rw [printed, split, List.map_cons], lower, upper⟩

theorem dropWhile_blanks (pad : Nat) {b : UInt8} (digit : 48 ≤ b) (s : List UInt8) :
    ((List.replicate pad 32 ++ b :: s).dropWhile fun b => isspace (some b)) = b :: s := by
  have lower : 48 ≤ b.toNat := UInt8.le_iff_toNat_le.1 digit
  have visible : isspace (some b) = false := by
    have blank : b ≠ 32 := by rintro rfl; exact absurd lower (by decide)
    have control : ¬ b ≤ 13 := by
      rw [UInt8.le_iff_toNat_le]
      simp only [UInt8.reduceToNat]
      omega
    simp [isspace, blank, control]
  induction pad with
  | zero =>
      rw [List.replicate_zero, List.nil_append, List.dropWhile_cons_of_neg (by simp [visible])]
  | succ pad ih =>
      rw [List.replicate_succ, List.cons_append, List.dropWhile_cons_of_pos (by decide), ih]

/-- The number behind the blanks. -/
theorem scanInt_printed (pad : Nat) {n : Nat} (fits : n < 2 ^ 31) {rest : List UInt8}
    (stops : ∀ b ∈ rest.head?, ¬ (48 ≤ b ∧ b ≤ 57)) :
    scanInt (List.replicate pad 32 ++ printed n ++ rest) = some (n : Int) := by
  obtain ⟨b, s, split, lower, upper⟩ := exists_printed n
  have value : leadingDigits (b :: (s ++ rest)) 0 = n := by
    rw [← List.cons_append, ← split, printed, leadingDigits_printed (isDigit_toDigits n) stops]
    exact Nat.ofDigitChars_toDigits (by decide) (by decide)
  have plus : b ≠ 43 := by rintro rfl; exact absurd lower (by decide)
  have minus : b ≠ 45 := by rintro rfl; exact absurd lower (by decide)
  have number : atoi (List.replicate pad 32 ++ b :: (s ++ rest)) = n := by
    have all_digits : atoi (List.replicate pad 32 ++ b :: (s ++ rest)) =
        int32 (min (2 ^ 63 - 1) (leadingDigits (b :: (s ++ rest)) 0 : Int)) := by
      rw [atoi, dropWhile_blanks pad lower]
      split <;> simp_all
    rw [all_digits, value, min_eq_right (by omega)]
    exact int32_of_fits ⟨by omega, by omega⟩
  rw [split, List.append_assoc, List.cons_append, scanInt, dropWhile_blanks pad lower]
  simp [plus, minus, lower, upper, number]

/-- What the kernel has printed behind the mark is read back. -/
theorem getProcStatus_field {before after : List (List UInt8)} (text : 0 ∉ mark) (one : 10 ∉ mark)
    (earlier : ∀ body ∈ before, Unmarked mark body) (later : ∀ body ∈ after, Unmarked mark body)
    {pad n : Nat} (fits : n < 2 ^ 31) (short : (field mark pad n).length + 2 < bufferSize) :
    getProcStatus (some (linesOf (before ++ field mark pad n :: after))) mark = some (n : Int) := by
  have split : linesOf (before ++ field mark pad n :: after) =
      linesOf before ++ (field mark pad n ++ 10 :: (linesOf after ++ [])) := by
    simp [linesOf]
  have not_printed (b : UInt8) (other : ¬ (48 ≤ b ∧ b ≤ 57)) : b ∉ printed n := by
    intro member
    obtain ⟨c, digit, rfl⟩ := List.mem_map.1 member
    obtain ⟨lower, upper, -⟩ := digit_byte (isDigit_toDigits n c digit)
    exact other ⟨lower, upper⟩
  have no_newline : 10 ∉ field mark pad n := by
    simp [field, one, not_printed 10 (by decide)]
  have no_null : 0 ∉ field mark pad n ++ [10] := by
    simp [field, text, not_printed 0 (by decide)]
  have begins : mark <+: field mark pad n := List.prefix_append _ _
  have behind : (field mark pad n).drop (mark.length + 1) =
      List.replicate pad 32 ++ printed n ++ [32, 107, 66] := by
    rw [← List.drop_drop, field, List.drop_left]
    rfl
  have stops : ∀ b ∈ ([32, 107, 66] : List UInt8).head?, ¬ (48 ≤ b ∧ b ≤ 57) := by
    rintro b ⟨⟩
    decide
  have read : statusTurn mark 0 (field mark pad n ++ [10]) = some (n : Int) := by
    rw [statusTurn_text no_null (by simp), List.dropLast_concat, if_pos begins, behind,
      scanInt_printed pad fits stops]
    rfl
  rw [getProcStatus, Option.elim_some, split, statusLoop_of_others earlier,
    statusLoop_cons (by simp), fgets_of_fits no_newline short, read, Option.bind_some,
    statusLoop_of_others later, statusLoop_nil]

/-! ## The peaks of a run -/

/-- `"VmPeak:"`. -/
def vmPeakMark : List UInt8 := [86, 109, 80, 101, 97, 107, 58]

/-- `/proc/<pid>/status` of a child: with its peak in kB, or without one once it has ended. -/
inductive VmStatus : List UInt8 → Option Nat → Prop where
  | gone {bodies : List (List UInt8)} (others : ∀ body ∈ bodies, Unmarked vmPeakMark body) :
      VmStatus (linesOf bodies) none
  | peak {before after : List (List UInt8)} {pad n : Nat}
      (earlier : ∀ body ∈ before, Unmarked vmPeakMark body)
      (later : ∀ body ∈ after, Unmarked vmPeakMark body)
      (short : (field vmPeakMark pad n).length + 2 < bufferSize) :
      VmStatus (linesOf (before ++ field vmPeakMark pad n :: after)) (some n)

theorem VmStatus.read {file : List UInt8} {peak : Option Nat} (status : VmStatus file peak)
    (fits : ∀ n ∈ peak, n < 2 ^ 31) :
    getProcStatus (some file) vmPeakMark = some (peak.elim 0 fun n => (n : Int)) := by
  cases status with
  | gone others => exact getProcStatus_of_others others
  | peak earlier later short =>
      exact getProcStatus_field (by decide) (by decide) earlier later (fits _ rfl) short

/-- What `vmPeak` of the reports is read from. -/
structure ReadFrom (file : Observation → List UInt8) (peak : Observation → Option Nat)
    (o : Observation) : Prop where
  status : VmStatus (file o) (peak o)
  read : getProcStatus (some (file o)) vmPeakMark = some o.vmPeak
  range : ∀ n ∈ peak o, 0 < n ∧ n < 2 ^ 21

section Charge

variable {file : Observation → List UInt8} {peak : Observation → Option Nat}

theorem ReadFrom.charge {lang : Int} (native : lang ≠ langJava) {o : Observation}
    (from_ : ReadFrom file peak o) :
    tempmemory lang o = (peak o).elim (getPageFaultMem o.ruse) fun n => (n : Int) * 1024 := by
  have read := from_.status.read fun n is => by have := from_.range n is; omega
  rw [from_.read, Option.some.injEq] at read
  cases is : peak o with
  | none =>
      rw [is, Option.elim_none] at read
      rw [tempmemory_of_peak native (by omega), if_pos read, Option.elim_none]
  | some n =>
      have range := from_.range n is
      rw [is, Option.elim_some] at read
      rw [tempmemory_of_peak native (by omega), if_neg (by omega), Option.elim_some, read]

/-- An accepted C or C++ run is charged the largest peak the kernel has printed at its reports,
and the page faults of a report of a child that has ended. -/
theorem topmemory_of_status {b : Build} {p : Parameters} {entries : List Entry} {s : Progress}
    (native : p.lang ≠ langJava) (loop : testLoop b p startProgress entries = .ok s)
    (accepted : s.judgeFlag = .AC) (from_ : ∀ o ∈ readBefore b entries, ReadFrom file peak o) :
    s.topmemory = runningMax 0 ((readBefore b entries).map fun o =>
      (peak o).elim (getPageFaultMem o.ruse) fun n => (n : Int) * 1024) := by
  rw [testLoop_topmemory loop accepted]
  exact congrArg _ (List.map_congr_left fun o member => (from_ o member).charge native)

end Charge

namespace Sample

/-- `"Name:\tMain"`. -/
def name : List UInt8 := [78, 97, 109, 101, 58, 9, 77, 97, 105, 110]

/-- `"Groups:\t"`, and `n` groups. -/
def groups (n : Nat) : List UInt8 :=
  [71, 114, 111, 117, 112, 115, 58, 9] ++ (List.replicate n [49, 32]).flatten

theorem name_unmarked : Unmarked vmPeakMark name where
  text := by decide
  one := by decide
  unmarked := by decide
  long := fun long => absurd long (by decide)

theorem groups_unmarked (n : Nat) : Unmarked vmPeakMark (groups n) := by
  have absent {b : UInt8} (first : b ∉ [71, 114, 111, 117, 112, 115, 58, 9, 49, 32]) :
      b ∉ groups n := by
    simp only [List.mem_cons, List.not_mem_nil, not_or] at first
    simp [groups, first]
  have nowhere : ¬ vmPeakMark <:+: groups n := fun infix_ =>
    absent (b := 86) (by decide) (infix_.subset List.mem_cons_self)
  exact ⟨absent (by decide), absent (by decide), fun begins => nowhere begins.isInfix,
    fun _ => nowhere⟩

/-- `fgets` reads the second line in two pieces. -/
example :
    getProcStatus (some (linesOf ([name, groups 300] ++ field vmPeakMark 5 100 :: [name])))
        vmPeakMark = some ((100 : Nat) : Int) :=
  getProcStatus_field (by decide) (by decide)
    (List.forall_mem_cons.2 ⟨name_unmarked, List.forall_mem_singleton.2 (groups_unmarked 300)⟩)
    (List.forall_mem_singleton.2 name_unmarked) (by decide) (by decide)

/-- 100 kB while the child is there. -/
def peak (o : Observation) : Option Nat := if o.vmPeak = 0 then none else some 100

def file (o : Observation) : List UInt8 :=
  linesOf (if o.vmPeak = 0 then [name] else [name, field vmPeakMark 5 100])

theorem topmemory_of_status_sample : ∃ s,
    testLoop build parameters startProgress [entry [59, 231]] = .ok s ∧ s.topmemory = 122880 := by
  have named : ∀ body ∈ [name], Unmarked vmPeakMark body :=
    List.forall_mem_singleton.2 name_unmarked
  have gone : ReadFrom file peak exit :=
    { status := .gone named
      read := getProcStatus_of_others named
      range := fun n is => by cases is }
  have there (callid : UInt64) : ReadFrom file peak (stop callid) :=
    { status := .peak named (List.forall_mem_nil _) (by decide)
      read := getProcStatus_field (by decide) (by decide) named (List.forall_mem_nil _) (by decide)
        (by decide)
      range := fun n is => by cases is; decide }
  have reports : readBefore build [entry [59, 231]] = [stop 59, stop 231, exit] := by rfl
  have from_ : ∀ o ∈ readBefore build [entry [59, 231]], ReadFrom file peak o := by
    rw [reports]
    exact List.forall_mem_cons.2 ⟨there 59, List.forall_mem_cons.2
      ⟨there 231, List.forall_mem_singleton.2 gone⟩⟩
  obtain ⟨s, loop, accepted⟩ : ∃ s,
      testLoop build parameters startProgress [entry [59, 231]] = .ok s ∧ s.judgeFlag = .AC :=
    ⟨_, rfl, rfl⟩
  refine ⟨s, loop, ?_⟩
  rw [topmemory_of_status (by decide) loop accepted from_, reports]
  decide

end Sample

end RunServer.Runner
