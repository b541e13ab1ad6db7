/-
# Sim.Lines -- the lines of the runs

The report without `-p` names the lines a run extends over.  The second pass finds them for
all positions of a text at once, by going up the sorted positions and the line ends side
by side.  How many tokens there are in each line comes from the buffer of pass 1 or,
where that was turned off, from scanning the file again.

* `pass1_nlBuff`, `pass1_text`: what the buffer holds, and which part of it is a file's;
* `findLine_spec`: one position after the other, each is stopped at in its line;
* `pass2Txt_eq`, `pass2Txt_buffer`: so both ways give the same lines, which `word_line` says in
  terms of the file; only when there is no buffer is the last line of a file one short if it is
  not ended.
-/
import RunServer.Sim.Newlines
import RunServer.Sim.Runs
import RunServer.Theory.Ranking

namespace RunServer.Sim

open RunServer.Theory.Ranking

set_option autoImplicit false

/-! ## Pass 2 -/

/-- Where the line ends come from: `nl_buff` from `nl_next` to `nl_limit`, or what is left of
the file. -/
inductive LineEnds where
  | buffer (nls : List UInt16)
  | file (tks : List Token)

def LineEnds.size : LineEnds → Nat
  | buffer nls => nls.length
  | file tks => tks.length

/-- The statics that pass 2 uses. -/
structure Scanner where
  lexNlCnt : Nat
  lexTkCnt : Nat
  lastNlCnt : Nat
  lastTkCnt : Nat
  ends : LineEnds

namespace Scanner

/-- `Next_Stream_Token_Obtained()` up to a line end. -/
def skipLine (s : Scanner) : List Token → Bool × Scanner
  | [] => (false, { s with ends := .file [] })
  | tk :: tks =>
      if tk = endOfLine then (true, { s with lexNlCnt := s.lexNlCnt + 1, ends := .file tks })
      else skipLine { s with lexTkCnt := s.lexTkCnt + 1 } tks

/-- `Next_Text_EOL_Obtained()`. -/
def nextTextEOL (s : Scanner) : Bool × Scanner :=
  match s.ends with
  | .buffer [] => (false, s)
  | .buffer (nl :: nls) =>
      (true,
        { lexNlCnt := s.lastNlCnt + 1
          lexTkCnt := s.lastTkCnt + nl.toNat
          lastNlCnt := s.lastNlCnt + 1
          lastTkCnt := s.lastTkCnt + nl.toNat
          ends := .buffer nls })
  | .file tks => s.skipLine tks

theorem skipLine_shorter {s : Scanner} {tks : List Token} (more : (s.skipLine tks).1) :
    (s.skipLine tks).2.ends.size < tks.length := by
  induction tks generalizing s with
  | nil => cases more
  | cons tk tks ih =>
      rw [skipLine] at more ⊢
      split
      · exact Nat.lt_succ_self _
      · rename_i word
        rw [if_neg word] at more
        exact Nat.lt_succ_of_lt (ih more)

theorem nextTextEOL_shorter {s : Scanner} (more : s.nextTextEOL.1) :
    s.nextTextEOL.2.ends.size < s.ends.size := by
  unfold nextTextEOL at more ⊢
  split at more
  · cases more
  · rename_i nl nls ends
    rw [ends]
    exact Nat.lt_succ_self _
  · rename_i tks ends
    rw [ends]
    exact skipLine_shorter more

end Scanner

/-- `old_nl_cnt`, the scanner, and how often `>>>> File %s modified <<<<` was printed. -/
structure Finder where
  oldNlCnt : Nat
  scanner : Scanner
  modified : Nat

/-- `while (pos->ps_tk_cnt >= lex_tk_cnt)`. -/
def findLine (txEOLTerminated : Bool) (psTkCnt : Nat) (f : Finder) : Finder :=
  if _behind : f.scanner.lexTkCnt ≤ psTkCnt then
    if _more : f.scanner.nextTextEOL.1 then
      findLine txEOLTerminated psTkCnt
        { f with oldNlCnt := f.scanner.lexNlCnt, scanner := f.scanner.nextTextEOL.2 }
    else
      { oldNlCnt := f.scanner.lexNlCnt
        scanner := f.scanner.nextTextEOL.2
        modified := f.modified + if txEOLTerminated then 1 else 0 }
  else f
termination_by f.scanner.ends.size
decreasing_by exact Scanner.nextTextEOL_shorter _more

/-! ## Where a position is stopped at -/

/-- The lines that are to come have these many words; `short` says that the end of the last one
is the end of the file. -/
inductive Comes : LineEnds → List Nat → Bool → Prop where
  | buffer (nls : List UInt16) : Comes (.buffer nls) (nls.map UInt16.toNat) false
  | file (tks : List Token) : Comes (.file tks) (lineLengths 0 tks) (unended 0 tks)

/-- `done` lines have been passed, `ws` are to come.  At the end of the file one has been passed
that `lex_nl_cnt` does not count. -/
structure Passed (short : Bool) (all done ws : List Nat) (s : Scanner) : Prop where
  split : all = done ++ ws
  tk : s.lexTkCnt = done.sum
  nl : s.lexNlCnt + (if short ∧ done ≠ [] ∧ ws = [] then 1 else 0) = done.length + 1
  last : s.lastTkCnt = s.lexTkCnt ∧ s.lastNlCnt = s.lexNlCnt ∨ ∃ tks, s.ends = .file tks
  comes : ws ≠ [] → Comes s.ends ws short

theorem skipLine_spec {tks : List Token} {s : Scanner} {w n : Nat} {ws : List Nat}
    (lengths : lineLengths n tks = w :: ws) :
    (s.skipLine tks).2.lexTkCnt + n = s.lexTkCnt + w ∧
      ∃ left, (s.skipLine tks).2.ends = .file left ∧ lineLengths 0 left = ws ∧
        ((s.skipLine tks).1 = true ∧ (s.skipLine tks).2.lexNlCnt = s.lexNlCnt + 1 ∧
            unended 0 left = unended n tks ∨
          (s.skipLine tks).1 = false ∧ (s.skipLine tks).2.lexNlCnt = s.lexNlCnt ∧ ws = [] ∧
            unended n tks = true) := by
  induction tks generalizing s n with
  | nil =>
      by_cases none_ : n = 0
      · simp [lineLengths, none_] at lengths
      · simp only [lineLengths, none_, if_false, List.cons.injEq] at lengths
        obtain ⟨rfl, rfl⟩ := lengths
        exact ⟨rfl, [], rfl, rfl, Or.inr ⟨rfl, rfl, rfl, by simp [unended, none_]⟩⟩
  | cons tk tks ih =>
      rw [lineLengths] at lengths
      rw [Scanner.skipLine, unended]
      by_cases eol : tk = endOfLine
      · rw [if_pos eol, List.cons.injEq] at lengths
        obtain ⟨rfl, rfl⟩ := lengths
        rw [if_pos eol, if_pos eol]
        exact ⟨rfl, tks, rfl, rfl, Or.inl ⟨rfl, rfl, rfl⟩⟩
      · rw [if_neg eol] at lengths
        rw [if_neg eol, if_neg eol]
        obtain ⟨tk, rest⟩ := @ih { s with lexTkCnt := s.lexTkCnt + 1 } _ lengths
        refine ⟨?_, rest⟩
        simp only at tk
        omega

section Find

variable {short txEOLTerminated : Bool} {all done ws : List Nat} {w k : Nat} {f : Finder}

/-- One line end on, or the end of the file behind the last line. -/
theorem Passed.next {s : Scanner} (passed : Passed short all done (w :: ws) s) :
    Passed short all (done ++ [w]) ws s.nextTextEOL.2 ∧ s.lexNlCnt = done.length + 1 ∧
      (s.nextTextEOL.1 = false → short = true ∧ ws = []) := by
  have split : all = done ++ [w] ++ ws := by rw [passed.split, List.append_assoc]; rfl
  have nl : s.lexNlCnt = done.length + 1 := by simpa using passed.nl
  have tk := passed.tk
  generalize line : w :: ws = left at passed
  have comes := passed.comes (by rw [← line]; exact List.cons_ne_nil _ _)
  have last := passed.last
  unfold Scanner.nextTextEOL
  cases ends : s.ends with
  | buffer nls =>
      rw [ends] at comes last
      cases comes with
      | buffer =>
          cases nls with
          | nil => cases line
          | cons n nls =>
              rw [List.map_cons, List.cons.injEq] at line
              obtain ⟨rfl, rfl⟩ := line
              rcases last with ⟨same, same'⟩ | ⟨_, other⟩
              · refine ⟨⟨split, ?_, ?_, Or.inl ⟨rfl, rfl⟩, fun _ => .buffer nls⟩, nl,
                  fun stuck => by cases stuck⟩
                · simp only [same, tk, List.sum_append, List.sum_singleton]
                · simp [same', nl]
              · cases other
  | file tks =>
      rw [ends] at comes
      cases comes with
      | file =>
          obtain ⟨count, rest, ends', lengths, goes⟩ := skipLine_spec (s := s) line.symm
          have sum : (s.skipLine tks).2.lexTkCnt = (done ++ [w]).sum := by
            rw [List.sum_append, List.sum_singleton, ← tk]
            omega
          have length : (done ++ [w]).length = done.length + 1 := by simp
          have some_ : done ++ [w] ≠ [] := by simp
          refine ⟨⟨split, sum, ?_, Or.inr ⟨rest, ends'⟩, fun more => ?_⟩, nl, fun stuck => ?_⟩
          · rcases goes with ⟨-, counted, same⟩ | ⟨-, counted, rfl, open_⟩
            · have whole : ¬(unended 0 tks ∧ done ++ [w] ≠ [] ∧ ws = []) := by
                rintro ⟨open_, -, rfl⟩
                rw [← same, not_unended_of_lineLengths lengths] at open_
                cases open_
              rw [if_neg whole, counted, nl, length]
            · rw [if_pos ⟨open_, some_, rfl⟩, counted, nl, length]
          · rcases goes with ⟨-, -, same⟩ | ⟨-, -, none_, -⟩
            · rw [ends', ← lengths, ← same]
              exact .file rest
            · exact absurd none_ more
          · rcases goes with ⟨more, -, -⟩ | ⟨-, -, none_, open_⟩
            · rw [more] at stuck
              cases stuck
            · exact ⟨open_, none_⟩

/-- The finder is in the line of the word `k`. -/
structure Stopped (short : Bool) (all : List Nat) (k : Nat) (f : Finder) (d : List Nat) (w : Nat)
    (ws : List Nat) : Prop where
  passed : Passed short all (d ++ [w]) ws f.scanner
  after : d.sum ≤ k
  before : k < d.sum + w
  old : f.oldNlCnt = d.length + 1

theorem findLine_from (passed : Passed short all done ws f.scanner) (behind : done.sum ≤ k)
    (inside : k < all.sum) (ended : short = true → txEOLTerminated = false) :
    ∃ d w ws', Stopped short all k (findLine txEOLTerminated k f) d w ws' ∧
      (findLine txEOLTerminated k f).modified = f.modified := by
  induction ws generalizing done f with
  | nil =>
      rw [passed.split, List.append_nil] at inside
      omega
  | cons w ws ih =>
      obtain ⟨next, nl, stuck⟩ := passed.next
      have total : all.sum = done.sum + w + ws.sum := by
        rw [next.split, List.sum_append, List.sum_append, List.sum_singleton]
      rw [findLine, dif_pos (by rw [passed.tk]; exact behind)]
      split
      · by_cases before : k < done.sum + w
        · refine ⟨done, w, ws, ?_, ?_⟩ <;> rw [findLine, dif_neg]
          · exact ⟨next, behind, before, nl⟩
          all_goals
            rw [next.tk, List.sum_append, List.sum_singleton]
            omega
        · exact ih next (by rw [List.sum_append, List.sum_singleton]; omega)
      · rename_i no_more
        obtain ⟨open_, rfl⟩ := stuck (eq_false_of_ne_true no_more)
        refine ⟨done, w, [], ⟨next, behind, ?_, nl⟩, ?_⟩
        · rw [total] at inside
          exact inside
        · rw [ended open_]
          rfl

/-- At the beginning, or stopped at an earlier position. -/
def Ready (short : Bool) (all : List Nat) (k : Nat) (f : Finder) : Prop :=
  Passed short all [] all f.scanner ∨ ∃ j ≤ k, ∃ d w ws, Stopped short all j f d w ws

/-- One position after the other, each is stopped at in its line. -/
theorem findLine_spec (ready : Ready short all k f) (inside : k < all.sum)
    (ended : short = true → txEOLTerminated = false) :
    ∃ d w ws, Stopped short all k (findLine txEOLTerminated k f) d w ws ∧
      (findLine txEOLTerminated k f).modified = f.modified := by
  rcases ready with start | ⟨j, le, d, w, ws, stopped⟩
  · exact findLine_from start (Nat.zero_le k) inside ended
  · have tk := stopped.passed.tk
    rw [List.sum_append, List.sum_singleton] at tk
    by_cases same : k < d.sum + w
    · refine ⟨d, w, ws, ?_, ?_⟩ <;> rw [findLine, dif_neg (by omega)]
      exact ⟨stopped.passed, Nat.le_trans stopped.after le, same, stopped.old⟩
    · refine findLine_from stopped.passed ?_ inside ended
      rw [List.sum_append, List.sum_singleton]
      omega

end Find

/-! ## All positions of a text -/

/-- `ps_type`. -/
inductive PosType where
  | first
  | last
  deriving DecidableEq, Repr

/-- `struct position`: of the left or the right chunk of a run; `ps_nl_cnt` is `(size_t) -1` at
first. -/
structure Position where
  run : Nat
  left : Bool
  psType : PosType
  psTkCnt : Nat
  psNlCnt : Option Nat
  deriving DecidableEq, Repr

def Position.filled (pos : Position) (psNlCnt : Nat) : Position :=
  { pos with psNlCnt := some psNlCnt }

/-- `while (pos)`. -/
def fillAll (txEOLTerminated : Bool) : Finder → List Position → List Position × Finder
  | f, [] => ([], f)
  | f, pos :: rest =>
      let f := findLine txEOLTerminated pos.psTkCnt f
      let psNlCnt :=
        match pos.psType with
        | .first => f.oldNlCnt
        | .last => f.scanner.lexNlCnt
      (pos.filled psNlCnt :: (fillAll txEOLTerminated f rest).1,
        (fillAll txEOLTerminated f rest).2)

/-- The line a position gets. -/
def psLine (short : Bool) (all : List Nat) (pos : Position) : Nat :=
  match pos.psType with
  | .first => lineAt all pos.psTkCnt
  | .last =>
      if short ∧ lineAt all pos.psTkCnt = all.length then all.length
      else lineAt all pos.psTkCnt + 1

section Fill

variable {short txEOLTerminated : Bool} {all : List Nat} {f : Finder}

theorem Stopped.lines {k w : Nat} {d ws : List Nat} (stopped : Stopped short all k f d w ws) :
    f.oldNlCnt = lineAt all k ∧
      f.scanner.lexNlCnt =
        if short ∧ lineAt all k = all.length then all.length else lineAt all k + 1 := by
  have split := stopped.passed.split
  rw [List.append_assoc, List.singleton_append] at split
  have line : lineAt all k = d.length + 1 := by
    have after := stopped.after
    have before := stopped.before
    rw [split, lineAt_append after, lineAt, if_pos (by omega)]
  have length : all.length = d.length + 1 + ws.length := by
    rw [split, List.length_append, List.length_cons]
    omega
  have nl := stopped.passed.nl
  rw [List.length_append, List.length_singleton] at nl
  refine ⟨by rw [stopped.old, line], ?_⟩
  have last : short ∧ lineAt all k = all.length ↔ short ∧ d ++ [w] ≠ [] ∧ ws = [] := by
    rw [line, length]
    simp
  by_cases open_ : short ∧ lineAt all k = all.length
  · rw [if_pos open_, ← open_.2, line]
    rw [if_pos (last.1 open_)] at nl
    omega
  · rw [if_neg open_, line]
    rw [if_neg (mt last.2 open_)] at nl
    omega

/-- The positions of a text, in order, get their lines. -/
theorem fillAll_eq {pos : List Position} (sorted : pos.Pairwise fun p q => p.psTkCnt ≤ q.psTkCnt)
    (ready : ∀ p ∈ pos.head?, Ready short all p.psTkCnt f) (inside : ∀ p ∈ pos, p.psTkCnt < all.sum)
    (ended : short = true → txEOLTerminated = false) :
    (fillAll txEOLTerminated f pos).1 = pos.map (fun p => p.filled (psLine short all p)) ∧
      (fillAll txEOLTerminated f pos).2.modified = f.modified := by
  induction pos generalizing f with
  | nil => exact ⟨rfl, rfl⟩
  | cons p pos ih =>
      rw [List.forall_mem_cons] at inside
      obtain ⟨first, sorted⟩ := List.pairwise_cons.1 sorted
      obtain ⟨d, w, ws, stopped, modified⟩ := findLine_spec (ready p rfl) inside.1 ended
      obtain ⟨old, nl⟩ := stopped.lines
      have onward : ∀ q ∈ pos.head?, Ready short all q.psTkCnt
          (findLine txEOLTerminated p.psTkCnt f) := fun q is =>
        Or.inr ⟨p.psTkCnt, first q (List.mem_of_mem_head? is), d, w, ws, stopped⟩
      obtain ⟨rest, kept⟩ := ih sorted onward inside.2
      refine ⟨?_, kept.trans modified⟩
      rw [fillAll, rest, List.map_cons, old, nl, psLine]

end Fill

/-! ## `pass2_txt` -/

/-- `Open_Text(Second_Pass, txt)`; `none` where the file has disappeared. -/
def openSecond (nlBuff : Option (List UInt16)) (txt : Text) (file : Option (List UInt8)) :
    Option Scanner :=
  let opened (ends : LineEnds) : Scanner :=
    { lexNlCnt := 1, lexTkCnt := 0, lastNlCnt := 1, lastTkCnt := 0, ends }
  match nlBuff with
  | some nls => some (opened (.buffer ((nls.take txt.txNlLimit).drop txt.txNlStart)))
  | none => file.map fun contents => opened (.file (stream contents))

/-- `SORT_BEFORE`. -/
def posBefore (p q : Position) : Bool := p.psTkCnt < q.psTkCnt

theorem strict_posBefore : Strict posBefore where
  asymm := fun p q first second => by
    simp only [posBefore, decide_eq_true_eq] at first second
    omega
  trans := fun p q r first second => by
    simp only [posBefore, decide_eq_true_eq] at first second ⊢
    omega

/-- The positions of a text after pass 2, and what was printed. -/
structure Pass2 where
  txPos : List Position
  disappeared : Bool
  modified : Nat

def pass2Txt (nlBuff : Option (List UInt16)) (txt : Text) (file : Option (List UInt8))
    (txPos : List Position) : Pass2 :=
  if txPos = [] then { txPos, disappeared := false, modified := 0 }
  else
    match openSecond nlBuff txt file with
    | none => { txPos, disappeared := true, modified := 0 }
    | some scanner =>
        let filled := fillAll txt.txEOLTerminated { oldNlCnt := 1, scanner, modified := 0 }
          (sortList posBefore txPos)
        { txPos := filled.1, disappeared := false, modified := filled.2.modified }

section Text

variable {before after : List Arg} {contents : List UInt8}

/-- Without a buffer, the end of the file is not counted as a line end. -/
def shortAtEnd (nlBuff : Option (List UInt16)) (contents : List UInt8) : Bool :=
  nlBuff.isNone && unended 0 (stream contents)

/-- The lines that `nlBuff` has for a text are those of the file. -/
def Buffers (nlBuff : Option (List UInt16)) (txt : Text) (contents : List UInt8) : Prop :=
  ∀ nls ∈ nlBuff, ((nls.take txt.txNlLimit).drop txt.txNlStart).map UInt16.toNat =
    lineLengths 0 (stream contents)

theorem passed_openSecond {nlBuff : Option (List UInt16)} {txt : Text}
    (buffers : Buffers nlBuff txt contents) :
    ∃ scanner, openSecond nlBuff txt (some contents) = some scanner ∧
      Passed (shortAtEnd nlBuff contents) (lineLengths 0 (stream contents)) []
        (lineLengths 0 (stream contents)) scanner := by
  rw [shortAtEnd]
  cases nlBuff with
  | none =>
      refine ⟨_, rfl, rfl, rfl, ?_, Or.inl ⟨rfl, rfl⟩, fun _ => .file (stream contents)⟩
      simp
  | some nls =>
      refine ⟨_, rfl, rfl, rfl, ?_, Or.inl ⟨rfl, rfl⟩, fun _ => ?_⟩
      · simp
      · rw [← buffers nls rfl]
        exact .buffer _

/-- The positions get their lines, in order. -/
theorem pass2Txt_eq {nlBuff : Option (List UInt16)} {txt : Text}
    (buffers : Buffers nlBuff txt contents)
    (ended : unended 0 (stream contents) = true → txt.txEOLTerminated = false)
    {txPos : List Position} (inside : ∀ p ∈ txPos, p.psTkCnt < (words contents).length) :
    pass2Txt nlBuff txt (some contents) txPos =
      { txPos := (sortList posBefore txPos).map fun pos =>
          pos.filled (psLine (shortAtEnd nlBuff contents) (lineLengths 0 (stream contents)) pos)
        disappeared := false
        modified := 0 } := by
  obtain ⟨scanner, opened, start⟩ := passed_openSecond buffers
  rw [pass2Txt]
  by_cases none_ : txPos = []
  · rw [if_pos none_, none_, sortList]
    rfl
  · have total : (lineLengths 0 (stream contents)).sum = (words contents).length := by
      rw [sum_lineLengths, Nat.zero_add, words]
    obtain ⟨filled, modified⟩ := fillAll_eq
      (f := { oldNlCnt := 1, scanner, modified := 0 })
      ((sortList_sorted strict_posBefore txPos).imp fun {p q} waits => by
        simpa [posBefore] using waits)
      (fun p _ => Or.inl start)
      (fun p member => by
        rw [total]
        exact inside p ((sortList_perm posBefore txPos).mem_iff.1 member))
      fun short => ended (Bool.and_eq_true_iff.1 short).2
    rw [if_neg none_, opened]
    simp only [filled, modified]

theorem buffers_pass1 {argv before after : List Arg}
    (split : argv = before ++ .file contents :: after) :
    Buffers (pass1 argv).reader.nlBuff ((readInputFiles argv).text before.length) contents ∧
      (unended 0 (stream contents) = true →
        ((readInputFiles argv).text before.length).txEOLTerminated = false) := by
  subst split
  obtain ⟨r, earlier, read⟩ := pass1_text before after contents
  refine ⟨fun nls stored => buffer_of_text stored earlier read, fun open_ => ?_⟩
  refine eq_false_of_ne_true (mt read.ended.1 ?_)
  exact Reader.lexToken_of_unended open_ fun some_ => absurd rfl some_

/-- What pass 2 finds with the buffer of pass 1 is what it finds by scanning the file again, if
the last line of that is ended. -/
theorem pass2Txt_buffer {argv before after : List Arg}
    (split : argv = before ++ .file contents :: after)
    (whole : unended 0 (stream contents) = false) {txPos : List Position}
    (inside : ∀ p ∈ txPos, p.psTkCnt < (words contents).length) :
    pass2Txt (pass1 argv).reader.nlBuff ((readInputFiles argv).text before.length)
        (some contents) txPos =
      pass2Txt none ((readInputFiles argv).text before.length) (some contents) txPos := by
  obtain ⟨buffers, ended⟩ := buffers_pass1 split
  have scanned : Buffers none ((readInputFiles argv).text before.length) contents :=
    fun nls stored => by cases stored
  rw [pass2Txt_eq buffers ended inside, pass2Txt_eq scanned ended inside]
  simp only [shortAtEnd, whole, Bool.and_false]

end Text

/-! ## The lines of a run -/

section AddRun

variable (c : Corpus)

/-- The text of the left or the right chunk of a run, and where in it the chunk starts. -/
def Run.chunk (r : Run) : Bool → Nat × Nat
  | true => (r.txt0, r.i0 - (c.text r.txt0).txStart)
  | false => (r.txt1, r.i1 - (c.text r.txt1).txStart)

/-- `set_chunk`; `set_pos` puts a position in front of the others of the text. -/
def setChunk (n run : Nat) (r : Run) (left : Bool) (txPos : List Position) : List Position :=
  if (r.chunk c left).1 = n then
    { run, left, psType := .last, psTkCnt := (r.chunk c left).2 + r.size - 1, psNlCnt := none } ::
    { run, left, psType := .first, psTkCnt := (r.chunk c left).2, psNlCnt := none } :: txPos
  else txPos

/-- `tx_pos` of `Text[n]` when the runs have been added. -/
def txPos (n : Nat) (runs : List Run) : List Position :=
  runs.zipIdx.foldl (fun txPos numbered =>
    setChunk c n numbered.2 numbered.1 false (setChunk c n numbered.2 numbered.1 true txPos)) []

variable {c} {n : Nat}

theorem mem_setChunk {run : Nat} {r : Run} {left : Bool} {txPos : List Position} {p : Position} :
    p ∈ setChunk c n run r left txPos ↔
      ((r.chunk c left).1 = n ∧ (
        p = ⟨run, left, .first, (r.chunk c left).2, none⟩ ∨
        p = ⟨run, left, .last, (r.chunk c left).2 + r.size - 1, none⟩)) ∨ p ∈ txPos := by
  rw [setChunk]
  by_cases here : (r.chunk c left).1 = n
  · simp [here]
    tauto
  · simp [here]

theorem mem_txPos {runs : List Run} {p : Position} :
    p ∈ txPos c n runs ↔ ∃ r ∈ runs.zipIdx, ∃ left, (r.1.chunk c left).1 = n ∧ (
      p = ⟨r.2, left, .first, (r.1.chunk c left).2, none⟩ ∨
      p = ⟨r.2, left, .last, (r.1.chunk c left).2 + r.1.size - 1, none⟩) := by
  rw [txPos]
  generalize runs.zipIdx = numbered
  induction numbered using List.reverseRecOn with
  | nil => simp
  | append_singleton numbered r ih =>
      rw [List.foldl_append, List.foldl_cons, List.foldl_nil, mem_setChunk, mem_setChunk, ih]
      constructor
      · rintro (⟨here, is⟩ | ⟨here, is⟩ | ⟨r', member, rest⟩)
        · exact ⟨r, by simp, false, here, is⟩
        · exact ⟨r, by simp, true, here, is⟩
        · exact ⟨r', List.mem_append_left _ member, rest⟩
      · rintro ⟨r', member, left, here, is⟩
        rcases List.mem_append.1 member with member | member
        · exact Or.inr (Or.inr ⟨r', member, left, here, is⟩)
        · rw [List.mem_singleton] at member
          subst member
          cases left with
          | false => exact Or.inl ⟨here, is⟩
          | true => exact Or.inr (Or.inl ⟨here, is⟩)

end AddRun

section Runs

variable {argv before after : List Arg} {contents : List UInt8} {minRunSize : Nat}
variable {tryCalloc : Nat → Bool} {o : Options} {runs : List Run}

/-- The chunks of the runs are in their texts. -/
theorem chunk_inside (split : argv = before ++ .file contents :: after) (positive : 0 < minRunSize)
    (compared : compare minRunSize tryCalloc o (readInputFiles argv) = pure runs) {r : Run}
    (member : r ∈ runs) {left : Bool}
    (here : (r.chunk (readInputFiles argv) left).1 = before.length) :
    0 < r.size ∧ (r.chunk (readInputFiles argv) left).2 + r.size ≤ (words contents).length := by
  have reported := reported_of_compare positive compared member
  have enough := reported.enough
  have bounds := readInputFiles_bounds before after (.file contents)
  rw [← split] at bounds
  simp only [Text.bounds, Arg.words, Prod.mk.injEq] at bounds
  refine ⟨by omega, ?_⟩
  cases left with
  | true =>
      simp only [Run.chunk] at here ⊢
      have from_ := reported.inside0.after
      have to_ := reported.common.inside0
      rw [here] at from_ to_ ⊢
      omega
  | false =>
      simp only [Run.chunk] at here ⊢
      have from_ := reported.inside1.after
      have to_ := reported.common.inside1
      rw [here] at from_ to_ ⊢
      omega

namespace Sample

theorem split_lines : [Arg.file (lines 8), .file (lines 9)] =
    [.file (lines 8)] ++ .file (lines 9) :: [] := rfl

theorem pass2Txt_buffer_sample :
    pass2Txt (pass1 [.file (lines 8), .file (lines 9)]).reader.nlBuff
        ((readInputFiles [.file (lines 8), .file (lines 9)]).text 1) (some (lines 9))
        [⟨0, true, .last, 7, none⟩, ⟨0, true, .first, 0, none⟩] =
      pass2Txt none ((readInputFiles [.file (lines 8), .file (lines 9)]).text 1)
        (some (lines 9)) [⟨0, true, .last, 7, none⟩, ⟨0, true, .first, 0, none⟩] := by
  refine pass2Txt_buffer split_lines (unended_lines 9) ?_
  rw [words_lines, List.length_replicate]
  decide

end Sample

end Runs

end RunServer.Sim
