/-
# Sim.Show -- the runs side by side

Pass 3 opens the files of a run once more, as characters, skips to the first line of each
chunk and shows its lines, in two columns or one chunk below the other as diff(1) does.
Blanks at the beginning of a line are condensed, eight to one.

* `fillLine_eq`: character by character, a line comes out condensed and cut to the column;
* `showRun_columns`, `showRun_diff`: what is shown line by line, for lines that the file does
  not have, too;
* `showRun_aligned`: the columns are separated in one place, and nothing is wider than the page.
-/
import RunServer.Sim.Lines
import RunServer.Theory.Pieces

namespace RunServer.Sim

open RunServer.Theory.Pieces

set_option autoImplicit false

/-! ## Numbers -/

/-- `int2string(val, 0, 0)`, in front of `res`. -/
def int2string (val : Nat) (res : List UInt8) : List UInt8 :=
  if 0 < val / 10 then int2string (val / 10) (UInt8.ofNat (48 + val % 10) :: res)
  else UInt8.ofNat (48 + val % 10) :: res
decreasing_by omega

def sizeT2string (s : Nat) : List UInt8 := int2string s []

/-- How many characters `size_t2string` takes. -/
def unslen (u : Nat) : Nat := if 9 < u then unslen (u / 10) + 1 else 1

theorem length_int2string (val : Nat) (res : List UInt8) :
    (int2string val res).length = unslen val + res.length := by
  induction val, res using int2string.induct with
  | case1 val res more ih =>
      rw [int2string, if_pos more, ih, unslen.eq_def val, if_pos (by omega), List.length_cons]
      omega
  | case2 val res last =>
      rw [int2string, if_neg last, unslen, if_neg (by omega), List.length_cons]
      omega

/-- `pru` returns how much it has printed. -/
theorem length_sizeT2string (s : Nat) : (sizeT2string s).length = unslen s :=
  length_int2string s []

/-! ## A line -/

section Line

/-- `while (nl_cnt > 1)` of `open_chunk`. -/
def skipLines : Nat → List UInt8 → List UInt8
  | _, [] => []
  | nlCnt, ch :: f =>
      if 1 < nlCnt then skipLines (if ch = 10 then nlCnt - 1 else nlCnt) f else ch :: f

variable (maxLineLength : Nat)

/-- `if (lpos < max_line_length) ln[lpos++] = ch;` -/
def store (ln : List UInt8) (ch : UInt8) : List UInt8 :=
  if ln.length < maxLineLength then ln ++ [ch] else ln

/-- Condense and skip initial blank. -/
def initialBlank : Nat → List UInt8 → List UInt8 → List UInt8 × List UInt8
  | _, ln, [] => (ln, [])
  | indent, ln, ch :: f =>
      if ch = 32 ∨ ch = 9 then
        let indent := if ch = 9 then 8 else indent + 1
        if indent = 8 then initialBlank 0 (store maxLineLength ln 32) f
        else initialBlank indent ln f
      else (ln, ch :: f)

/-- Store the rest. -/
def storeRest : List UInt8 → List UInt8 → List UInt8 × List UInt8
  | ln, [] => (ln, [])
  | ln, ch :: f =>
      if ch = 10 then (ln, f)
      else storeRest (store maxLineLength ln (if ch = 9 then 32 else ch)) f

/-- `fill_line(f, ln)`: `ln` without the closing `NUL`, and what is left of `f`. -/
def fillLine (f : List UInt8) : List UInt8 × List UInt8 :=
  storeRest maxLineLength (initialBlank maxLineLength 0 [] f).1
    (initialBlank maxLineLength 0 [] f).2

/-- `show_1C_line`, without the marker; it takes a `NUL` for the end of the line. -/
def show1CLine : List UInt8 → List UInt8 × List UInt8
  | [] => ([], [])
  | ch :: f => if ch = 0 ∨ ch = 10 then ([], f) else (ch :: (show1CLine f).1, (show1CLine f).2)

def blank (ch : UInt8) : Bool := ch = 32 || ch = 9

/-- How many blanks are given for blanks, `indent` into the first eight. -/
def condensed : Nat → List UInt8 → Nat
  | _, [] => 0
  | indent, ch :: s =>
      if ch = 9 ∨ indent = 7 then condensed 0 s + 1 else condensed (indent + 1) s

/-- A line in condensed form. -/
def condense (line : List UInt8) : List UInt8 :=
  List.replicate (condensed 0 (line.takeWhile blank)) 32 ++
    (line.dropWhile blank).map fun ch => if ch = 9 then 32 else ch

variable {maxLineLength}

theorem skipLines_eq (n : Nat) (f : List UInt8) : skipLines (n + 1) f = skip 10 n f := by
  induction f generalizing n with
  | nil => rw [skip_nil, skipLines]
  | cons ch f ih =>
      cases n with
      | zero => rfl
      | succ n =>
          rw [skipLines, if_pos (by omega), skip]
          by_cases newline : ch = 10
          · rw [if_pos newline, newline, rest_cons_self, Nat.add_sub_cancel]
            exact ih n
          · rw [if_neg newline, rest_cons newline, ih, skip]

theorem store_take (full : List UInt8) (ch : UInt8) :
    store maxLineLength (full.take maxLineLength) ch = (full ++ [ch]).take maxLineLength := by
  rw [store, List.length_take]
  by_cases room : full.length < maxLineLength
  · rw [if_pos (by omega), List.take_of_length_le (by omega),
      List.take_of_length_le (by rw [List.length_append, List.length_singleton]; omega)]
  · rw [if_neg (by omega), List.take_append_of_le_length (by omega)]

theorem initialBlank_eq (maxLineLength : Nat) (f full : List UInt8) {indent : Nat}
    (some_ : indent < 8) :
    initialBlank maxLineLength indent (full.take maxLineLength) f =
      ((full ++ List.replicate (condensed indent (f.takeWhile blank)) 32).take maxLineLength,
        f.dropWhile blank) := by
  induction f generalizing full indent with
  | nil => simp [initialBlank, condensed]
  | cons ch f ih =>
      rw [initialBlank]
      by_cases is : ch = 32 ∨ ch = 9
      · have is' : blank ch := by simpa [blank] using is
        rw [if_pos is, List.takeWhile_cons_of_pos is', List.dropWhile_cons_of_pos is', condensed]
        have eight : (if ch = 9 then 8 else indent + 1) = 8 ↔ ch = 9 ∨ indent = 7 := by
          by_cases tab : ch = 9 <;> simp [tab]
        by_cases full_ : ch = 9 ∨ indent = 7
        · simp only [eight.2 full_, if_true, if_pos full_]
          rw [store_take, ih _ (by decide), List.append_assoc, List.singleton_append,
            ← List.replicate_succ]
        · have less : (if ch = 9 then 8 else indent + 1) = indent + 1 :=
            if_neg fun tab => full_ (Or.inl tab)
          simp only [less, if_neg full_]
          rw [if_neg (by omega), ih _ (by omega)]
      · have not_blank : ¬ blank ch := by simpa [blank] using is
        rw [if_neg is, List.takeWhile_cons_of_neg not_blank, List.dropWhile_cons_of_neg not_blank,
          condensed, List.replicate_zero, List.append_nil]

theorem storeRest_eq (f full : List UInt8) :
    storeRest maxLineLength (full.take maxLineLength) f =
      ((full ++ (piece 10 f).map fun ch => if ch = 9 then 32 else ch).take maxLineLength,
        rest 10 f) := by
  induction f generalizing full with
  | nil => simp [storeRest]
  | cons ch f ih =>
      rw [storeRest]
      by_cases newline : ch = 10
      · simp [newline]
      · rw [if_neg newline, store_take, ih, piece_cons newline, rest_cons newline, List.map_cons,
          List.append_assoc, List.singleton_append]

theorem blanks_piece (f : List UInt8) :
    (piece 10 f).takeWhile blank = f.takeWhile blank ∧
      (piece 10 f).dropWhile blank = piece 10 (f.dropWhile blank) ∧
      rest 10 f = rest 10 (f.dropWhile blank) := by
  induction f with
  | nil => exact ⟨rfl, rfl, rfl⟩
  | cons ch f ih =>
      obtain ⟨taken, dropped, left⟩ := ih
      by_cases is : blank ch
      · have other : ch ≠ 10 := by
          rintro rfl
          cases is
        rw [piece_cons other, rest_cons other, List.takeWhile_cons_of_pos is,
          List.takeWhile_cons_of_pos is, List.dropWhile_cons_of_pos is,
          List.dropWhile_cons_of_pos is, taken]
        exact ⟨rfl, dropped, left⟩
      · rw [List.takeWhile_cons_of_neg is, List.dropWhile_cons_of_neg is]
        by_cases newline : ch = 10
        · subst newline
          exact ⟨by simp, by simp, rfl⟩
        · rw [piece_cons newline, List.takeWhile_cons_of_neg is, List.dropWhile_cons_of_neg is]
          exact ⟨rfl, rfl, rfl⟩

/-- The line comes out condensed, and cut to the column. -/
theorem fillLine_eq (f : List UInt8) :
    fillLine maxLineLength f = ((condense (piece 10 f)).take maxLineLength, rest 10 f) := by
  obtain ⟨taken, dropped, left⟩ := blanks_piece f
  have first := initialBlank_eq maxLineLength f [] (show 0 < 8 by decide)
  rw [List.take_nil, List.nil_append] at first
  rw [fillLine, first, storeRest_eq, condense, taken, dropped, left]

theorem show1CLine_eq {f : List UInt8} (text : 0 ∉ piece 10 f) :
    show1CLine f = (piece 10 f, rest 10 f) := by
  induction f with
  | nil => rfl
  | cons ch f ih =>
      rw [show1CLine]
      by_cases newline : ch = 10
      · simp [newline]
      · rw [piece_cons newline, List.mem_cons, not_or] at text
        have goes : ¬(ch = 0 ∨ ch = 10) := not_or.2 ⟨Ne.symm text.1, newline⟩
        rw [if_neg goes, ih text.2, piece_cons newline, rest_cons newline]

end Line

/-! ## A run -/

/-- `struct chunk` after pass 2, and what `fopen` gives for its file. -/
structure Chunk where
  txFname : List UInt8
  file : Option (List UInt8)
  first : Nat
  last : Nat
  counted : 0 < first
  ordered : first ≤ last

namespace Chunk

/-- `nl_cnt0` and `nl_cnt1`. -/
def nlCnt (cnk : Chunk) : Nat := cnk.last - cnk.first

/-- `open_chunk(cnk)`; a file that has disappeared is read as the null file. -/
def openChunk (cnk : Chunk) : List UInt8 := skipLines cnk.first (cnk.file.getD [])

/-- The line `i` of the chunk, as the file has it. -/
def line (cnk : Chunk) (i : Nat) : List UInt8 :=
  ((cnk.file.getD []).splitOn 10).getD (cnk.first - 1 + i) []

theorem piece_openChunk (cnk : Chunk) (i : Nat) :
    piece 10 (skip 10 i cnk.openChunk) = cnk.line i := by
  have behind : cnk.first = cnk.first - 1 + 1 := (Nat.sub_add_cancel cnk.counted).symm
  rw [openChunk, behind, skipLines_eq, ← skip_add, line, getD_splitOn]

end Chunk

/-- What has been printed of a line, and `pos`. -/
structure Printed where
  row : List UInt8
  pos : Nat

namespace Printed

def prs (p : Printed) (str : List UInt8) : Printed := ⟨p.row ++ str, p.pos + str.length⟩

def pru (p : Printed) (u : Nat) : Printed := ⟨p.row ++ sizeT2string u, p.pos + unslen u⟩

/-- `": line "` and `"-"`. -/
def prHead (p : Printed) (cnk : Chunk) : Printed :=
  ((((p.prs cnk.txFname).prs [58, 32, 108, 105, 110, 101, 32]).pru cnk.first).prs [45]).pru
    (cnk.last - 1)

/-- `while (pos < limit)`. -/
def pad (limit : Nat) (p : Printed) : Printed :=
  if p.pos < limit then pad limit (p.prs [32]) else p
termination_by limit - p.pos
decreasing_by
  simp only [prs, List.length_singleton]
  omega

end Printed

section Run

variable (maxLineLength : Nat)

/-- The head of the two columns. -/
def heading (size : Nat) (cnk0 cnk1 : Chunk) : List UInt8 :=
  let left := (Printed.prHead ⟨[], 0⟩ cnk0).pad (maxLineLength + 1)
  let right := ((left.prs [124]).prHead cnk1).pad (2 * maxLineLength - unslen size)
  right.row ++ 91 :: (sizeT2string size ++ [93])

/-- What `show_2C_line` prints of a line. -/
def shownLine (ln : List UInt8) : List UInt8 := (ln.take maxLineLength).takeWhile (· ≠ 0)

def show2CLine (ln0 ln1 : List UInt8) : List UInt8 :=
  shownLine maxLineLength ln0 ++
    List.replicate (maxLineLength - (shownLine maxLineLength ln0).length) 32 ++
    [32, 124] ++ shownLine maxLineLength ln1

/-- `fill_line` or `clear_line`. -/
def column : Nat → List UInt8 → List UInt8 × List UInt8
  | 0, f => ([], f)
  | _ + 1, f => fillLine maxLineLength f

/-- `while (nl_cnt0 != 0 || nl_cnt1 != 0)`. -/
def twoColumns (nlCnt0 nlCnt1 : Nat) (f0 f1 : List UInt8) : List (List UInt8) :=
  if nlCnt0 ≠ 0 ∨ nlCnt1 ≠ 0 then
    show2CLine maxLineLength (column maxLineLength nlCnt0 f0).1
        (column maxLineLength nlCnt1 f1).1 ::
      twoColumns (nlCnt0 - 1) (nlCnt1 - 1) (column maxLineLength nlCnt0 f0).2
        (column maxLineLength nlCnt1 f1).2
  else []
termination_by nlCnt0 + nlCnt1

/-- `while (nl_cnt--)`. -/
def oneColumn (marker : UInt8) : Nat → List UInt8 → List (List UInt8)
  | 0, _ => []
  | nlCnt + 1, f => (marker :: (show1CLine f).1) :: oneColumn marker nlCnt (show1CLine f).2

/-- `show_run(run)`, line by line; `d` and `n` are options. -/
def showRun (d n : Bool) (size : Nat) (cnk0 cnk1 : Chunk) : List (List UInt8) :=
  if d then
    (Printed.prHead ⟨[], 0⟩ cnk0).row :: (Printed.prHead ⟨[], 0⟩ cnk1).row ::
      if n then []
      else oneColumn 60 cnk0.nlCnt cnk0.openChunk ++
        [45, 45, 45] :: oneColumn 62 cnk1.nlCnt cnk1.openChunk
  else
    heading maxLineLength size cnk0 cnk1 ::
      if n then []
      else twoColumns maxLineLength cnk0.nlCnt cnk1.nlCnt cnk0.openChunk cnk1.openChunk

/-- `Show_Runs()`, with the size and the chunks of each run; `none` where a line of the page has
no room for the closing `NUL`. -/
def showRuns (d n : Bool) (pageWidth : Int) (runs : List (Nat × Chunk × Chunk)) :
    Option (List (List UInt8)) :=
  if 0 ≤ pageWidth.tdiv 2 - 2 then
    some (runs.flatMap fun run =>
      showRun (pageWidth.tdiv 2 - 2).toNat d n run.1 run.2.1 run.2.2 ++ [[]])
  else none

variable {maxLineLength}

/-! ## Line by line -/

/-- What stands in a column in the row `i`, when it has `nlCnt` lines from `f` on. -/
def cell (maxLineLength nlCnt : Nat) (f : List UInt8) (i : Nat) : List UInt8 :=
  if i < nlCnt then (condense (piece 10 (skip 10 i f))).take maxLineLength else []

theorem column_cell (maxLineLength nlCnt : Nat) (f : List UInt8) :
    (column maxLineLength nlCnt f).1 = cell maxLineLength nlCnt f 0 ∧
      ∀ i, cell maxLineLength (nlCnt - 1) (column maxLineLength nlCnt f).2 i =
        cell maxLineLength nlCnt f (i + 1) := by
  cases nlCnt with
  | zero => exact ⟨rfl, fun i => by simp [cell]⟩
  | succ nlCnt =>
      rw [column, fillLine_eq]
      refine ⟨(if_pos (Nat.succ_pos nlCnt)).symm, fun i => ?_⟩
      simp only [cell, Nat.add_sub_cancel, skip, Nat.add_lt_add_iff_right]

theorem twoColumns_eq (nlCnt0 nlCnt1 : Nat) (f0 f1 : List UInt8) :
    twoColumns maxLineLength nlCnt0 nlCnt1 f0 f1 =
      (List.range (max nlCnt0 nlCnt1)).map fun i =>
        show2CLine maxLineLength (cell maxLineLength nlCnt0 f0 i)
          (cell maxLineLength nlCnt1 f1 i) := by
  induction nlCnt0, nlCnt1, f0, f1 using twoColumns.induct maxLineLength with
  | case1 nlCnt0 nlCnt1 f0 f1 more ih =>
      obtain ⟨first0, next0⟩ := column_cell maxLineLength nlCnt0 f0
      obtain ⟨first1, next1⟩ := column_cell maxLineLength nlCnt1 f1
      have rows : max nlCnt0 nlCnt1 = max (nlCnt0 - 1) (nlCnt1 - 1) + 1 := by omega
      rw [twoColumns, if_pos more, ih, first0, first1, rows, List.range_succ_eq_map,
        List.map_cons, List.map_map]
      refine congrArg _ (List.map_congr_left fun i _ => ?_)
      rw [next0, next1]
      rfl
  | case2 nlCnt0 nlCnt1 f0 f1 none_ =>
      have rows : max nlCnt0 nlCnt1 = 0 := by omega
      rw [twoColumns, if_neg none_, rows]
      rfl

theorem oneColumn_eq {marker : UInt8} {nlCnt : Nat} {f : List UInt8}
    (text : ∀ i < nlCnt, 0 ∉ piece 10 (skip 10 i f)) :
    oneColumn marker nlCnt f =
      (List.range nlCnt).map fun i => marker :: piece 10 (skip 10 i f) := by
  induction nlCnt generalizing f with
  | zero => rfl
  | succ nlCnt ih =>
      have first : 0 ∉ piece 10 f := text 0 (Nat.succ_pos nlCnt)
      rw [oneColumn, show1CLine_eq first, ih fun i less => text (i + 1) (Nat.succ_lt_succ less),
        List.range_succ_eq_map, List.map_cons, List.map_map]
      rfl

theorem cell_openChunk (cnk : Chunk) (i : Nat) :
    cell maxLineLength cnk.nlCnt cnk.openChunk i =
      if i < cnk.nlCnt then (condense (cnk.line i)).take maxLineLength else [] := by
  rw [cell, cnk.piece_openChunk]

/-- In two columns, a row shows the lines of the chunks side by side as long as they have one. -/
theorem showRun_columns (size : Nat) (cnk0 cnk1 : Chunk) :
    showRun maxLineLength false false size cnk0 cnk1 =
      heading maxLineLength size cnk0 cnk1 ::
        (List.range (max cnk0.nlCnt cnk1.nlCnt)).map fun i =>
          show2CLine maxLineLength
            (if i < cnk0.nlCnt then (condense (cnk0.line i)).take maxLineLength else [])
            (if i < cnk1.nlCnt then (condense (cnk1.line i)).take maxLineLength else []) := by
  have cells : showRun maxLineLength false false size cnk0 cnk1 =
      heading maxLineLength size cnk0 cnk1 ::
        twoColumns maxLineLength cnk0.nlCnt cnk1.nlCnt cnk0.openChunk cnk1.openChunk := rfl
  rw [cells, twoColumns_eq]
  simp only [cell_openChunk]

/-- As diff(1) does it, the lines are shown as the file has them. -/
theorem showRun_diff (size : Nat) {cnk0 cnk1 : Chunk} (text0 : ∀ i < cnk0.nlCnt, 0 ∉ cnk0.line i)
    (text1 : ∀ i < cnk1.nlCnt, 0 ∉ cnk1.line i) :
    showRun maxLineLength true false size cnk0 cnk1 =
      [(Printed.prHead ⟨[], 0⟩ cnk0).row, (Printed.prHead ⟨[], 0⟩ cnk1).row] ++
        (List.range cnk0.nlCnt).map (fun i => 60 :: cnk0.line i) ++ [[45, 45, 45]] ++
        (List.range cnk1.nlCnt).map (fun i => 62 :: cnk1.line i) := by
  have columns : showRun maxLineLength true false size cnk0 cnk1 =
      (Printed.prHead ⟨[], 0⟩ cnk0).row :: (Printed.prHead ⟨[], 0⟩ cnk1).row ::
        (oneColumn 60 cnk0.nlCnt cnk0.openChunk ++
          [45, 45, 45] :: oneColumn 62 cnk1.nlCnt cnk1.openChunk) := rfl
  rw [columns, oneColumn_eq (fun i less => by rw [cnk0.piece_openChunk]; exact text0 i less),
    oneColumn_eq (fun i less => by rw [cnk1.piece_openChunk]; exact text1 i less)]
  simp [Chunk.piece_openChunk]

namespace Sample

/-- The second and the third line. -/
def chunk : Chunk where
  txFname := [97]
  file := some (lines 8)
  first := 2
  last := 4
  counted := by decide
  ordered := by decide

theorem showRun_diff_sample : ∃ heads, showRun 38 true false 2 chunk chunk =
    heads ++ [[60, 97, 98], [60, 97, 98], [45, 45, 45], [62, 97, 98], [62, 97, 98]] := by
  have text : ∀ i < chunk.nlCnt, 0 ∉ chunk.line i := by decide
  refine ⟨[(Printed.prHead ⟨[], 0⟩ chunk).row, (Printed.prHead ⟨[], 0⟩ chunk).row], ?_⟩
  rw [showRun_diff 2 text text]
  rfl

end Sample

/-! ## The page -/

namespace Printed

/-- `pos` is how much has been printed. -/
def Counted (p : Printed) : Prop := p.pos = p.row.length

theorem Counted.prs {p : Printed} (counted : p.Counted) (str : List UInt8) :
    (p.prs str).Counted := by
  show p.pos + str.length = (p.row ++ str).length
  rw [counted, List.length_append]

theorem Counted.pru {p : Printed} (counted : p.Counted) (u : Nat) : (p.pru u).Counted := by
  show p.pos + unslen u = (p.row ++ sizeT2string u).length
  rw [counted, List.length_append, length_sizeT2string]

theorem Counted.prHead {p : Printed} (counted : p.Counted) (cnk : Chunk) :
    (p.prHead cnk).Counted :=
  ((((counted.prs _).prs _).pru _).prs _).pru _

theorem prHead_row (p : Printed) (cnk : Chunk) :
    (p.prHead cnk).row = p.row ++ (Printed.prHead ⟨[], 0⟩ cnk).row := by
  simp [prHead, prs, pru]

theorem pad_row (limit : Nat) (p : Printed) :
    (p.pad limit).row = p.row ++ List.replicate (limit - p.pos) 32 ∧
      (p.pad limit).pos = max limit p.pos := by
  induction p using pad.induct limit with
  | case1 p more ih =>
      have left : limit - p.pos = limit - (p.pos + 1) + 1 := by omega
      rw [pad, if_pos more, ih.1, ih.2, left, List.replicate_succ]
      refine ⟨?_, ?_⟩
      · simp [prs]
      · simp only [prs, List.length_singleton]
        omega
  | case2 p done =>
      rw [pad, if_neg done, Nat.sub_eq_zero_of_le (by omega)]
      exact ⟨(List.append_nil _).symm, (Nat.max_eq_right (by omega)).symm⟩

theorem Counted.pad {p : Printed} (counted : p.Counted) (limit : Nat) :
    (p.pad limit).Counted := by
  obtain ⟨row, pos⟩ := p.pad_row limit
  show (p.pad limit).pos = _
  rw [row, pos, List.length_append, List.length_replicate, ← counted]
  omega

end Printed

/-- The heads of a run fit into their columns. -/
structure Fits (maxLineLength size : Nat) (cnk0 cnk1 : Chunk) : Prop where
  left : (Printed.prHead ⟨[], 0⟩ cnk0).row.length ≤ maxLineLength + 1
  right : (Printed.prHead ⟨[], 0⟩ cnk1).row.length + unslen size + 2 ≤ maxLineLength

theorem length_shownLine_le (maxLineLength : Nat) (ln : List UInt8) :
    (shownLine maxLineLength ln).length ≤ maxLineLength :=
  Nat.le_trans (List.takeWhile_prefix _).length_le (List.length_take_le _ _)

theorem show2CLine_aligned (ln0 ln1 : List UInt8) :
    (show2CLine maxLineLength ln0 ln1)[maxLineLength + 1]? = some 124 ∧
      (show2CLine maxLineLength ln0 ln1).length ≤ 2 * maxLineLength + 2 := by
  have le0 := length_shownLine_le maxLineLength ln0
  have le1 := length_shownLine_le maxLineLength ln1
  rw [show2CLine]
  generalize shownLine maxLineLength ln0 = left at le0
  generalize shownLine maxLineLength ln1 = right at le1
  constructor
  · have width : (left ++ List.replicate (maxLineLength - left.length) (32 : UInt8)).length =
        maxLineLength := by
      rw [List.length_append, List.length_replicate]
      omega
    rw [List.append_assoc, List.getElem?_append_right (by omega), width, Nat.add_sub_cancel_left]
    rfl
  · simp only [List.length_append, List.length_replicate, List.length_cons, List.length_nil]
    omega

theorem heading_aligned {size : Nat} {cnk0 cnk1 : Chunk}
    (fits : Fits maxLineLength size cnk0 cnk1) :
    (heading maxLineLength size cnk0 cnk1)[maxLineLength + 1]? = some 124 ∧
      (heading maxLineLength size cnk0 cnk1).length = 2 * maxLineLength + 2 := by
  have nothing : Printed.Counted ⟨[], 0⟩ := rfl
  have fit0 := fits.left
  have fit1 := fits.right
  have left := (nothing.prHead cnk0).pad (maxLineLength + 1)
  obtain ⟨-, pos0⟩ := (Printed.prHead ⟨[], 0⟩ cnk0).pad_row (maxLineLength + 1)
  rw [heading]
  generalize (Printed.prHead ⟨[], 0⟩ cnk0).pad (maxLineLength + 1) = p at left pos0 ⊢
  have width : p.row.length = maxLineLength + 1 := by
    rw [← left, pos0, nothing.prHead cnk0]
    omega
  have both := (left.prs [124]).prHead cnk1
  have right := both.pad (2 * maxLineLength - unslen size)
  obtain ⟨row1, pos1⟩ := ((p.prs [124]).prHead cnk1).pad_row (2 * maxLineLength - unslen size)
  have both_length : ((p.prs [124]).prHead cnk1).pos =
      maxLineLength + 2 + (Printed.prHead ⟨[], 0⟩ cnk1).row.length := by
    rw [both, Printed.prHead_row, Printed.prs, List.length_append, List.length_append, width]
    rfl
  constructor
  · rw [row1, Printed.prHead_row, Printed.prs, List.append_assoc, List.append_assoc,
      List.append_assoc, List.getElem?_append_right (by omega), width, Nat.sub_self]
    rfl
  · rw [List.length_append, List.length_cons, List.length_append, List.length_singleton,
      length_sizeT2string, ← right, pos1, both_length]
    omega

/-- In every row the columns are separated in the same place, and none is wider than both. -/
theorem showRun_aligned {size : Nat} {cnk0 cnk1 : Chunk}
    (fits : Fits maxLineLength size cnk0 cnk1) (n : Bool) :
    ∀ row ∈ showRun maxLineLength false n size cnk0 cnk1,
      row[maxLineLength + 1]? = some 124 ∧ row.length ≤ 2 * maxLineLength + 2 := by
  obtain ⟨separated, width⟩ := heading_aligned fits
  intro row member
  rcases List.mem_cons.1 member with rfl | member
  · exact ⟨separated, Nat.le_of_eq width⟩
  · cases n with
    | true => cases member
    | false =>
        have member' : row ∈ twoColumns maxLineLength cnk0.nlCnt cnk1.nlCnt cnk0.openChunk
            cnk1.openChunk := member
        rw [twoColumns_eq, List.mem_map] at member'
        obtain ⟨i, -, rfl⟩ := member'
        exact show2CLine_aligned _ _

/-- On the whole page the columns are separated in one place, and nothing is wider than it. -/
theorem showRuns_aligned {n : Bool} {pageWidth : Int} {runs : List (Nat × Chunk × Chunk)}
    {rows : List (List UInt8)} (shown : showRuns false n pageWidth runs = some rows)
    (fits : ∀ run ∈ runs, Fits (pageWidth.tdiv 2 - 2).toNat run.1 run.2.1 run.2.2) :
    ∀ row ∈ rows, row ≠ [] →
      row[(pageWidth.tdiv 2 - 1).toNat]? = some 124 ∧ row.length + 2 ≤ pageWidth := by
  rw [showRuns] at shown
  split at shown
  · rename_i room
    intro row member some_
    rw [← Option.some.inj shown, List.mem_flatMap] at member
    obtain ⟨run, found, member⟩ := member
    rw [List.mem_append, List.mem_singleton] at member
    obtain ⟨separated, width⟩ :=
      showRun_aligned (fits run found) n row (member.resolve_right some_)
    have at_ : (pageWidth.tdiv 2 - 1).toNat = (pageWidth.tdiv 2 - 2).toNat + 1 := by omega
    have half : 2 * pageWidth.tdiv 2 ≤ pageWidth := by
      have positive : 0 ≤ pageWidth := by
        by_contra negative
        have below := Int.tdiv_nonneg (a := -pageWidth) (b := 2) (by omega) (by decide)
        rw [Int.neg_tdiv] at below
        omega
      rw [Int.tdiv_eq_ediv_of_nonneg positive]
      omega
    rw [at_]
    exact ⟨separated, by omega⟩
  · cases shown

theorem Sample.showRuns_aligned_sample : ∃ rows,
    showRuns false false 80 [(2, Sample.chunk, Sample.chunk)] = some rows ∧
      ∀ row ∈ rows, row ≠ [] →
        row[((80 : Int).tdiv 2 - 1).toNat]? = some 124 ∧ row.length + 2 ≤ (80 : Int) := by
  have digit {u : Nat} (small : u ≤ 9) : unslen u = 1 := by
    rw [unslen, if_neg (by omega)]
  have fits : Fits 38 2 Sample.chunk Sample.chunk := by
    constructor <;>
      simp [Printed.prHead, Printed.prs, Printed.pru, length_sizeT2string, digit, Sample.chunk]
  exact ⟨_, rfl, showRuns_aligned rfl (List.forall_mem_singleton.2 fits)⟩

end Run

end RunServer.Sim
