/-
# Sim.Chunks -- from the runs to the lines that are shown

Pass 2 fills in the lines of the chunks, and pass 3 counts down from the difference of the two
lines of a chunk, a `size_t`.

* `chunk_ordered`: the last line is not before the first, whatever has become of the file since
  pass 1 read it; so the count is no difference that has wrapped around;
* `words_shown`: of an unchanged file the lines from that of the first word of the run to that of
  the last are shown, and all its words are in them.
-/
import Mathlib.Data.List.Pairwise
import RunServer.Sim.Report
import RunServer.Sim.Show

namespace RunServer.Sim

open RunServer.Theory.Pieces
open RunServer.Theory.Ranking

set_option autoImplicit false

/-! ## Pass 2 on any file -/

section AnyFile

/-- `ps_nl_cnt`, which is `(size_t) -1` until it is filled in. -/
def Position.lines (p : Position) : Nat := p.psNlCnt.getD (2 ^ 64 - 1)

def Position.unfilled (p : Position) : Position := { p with psNlCnt := none }

/-- What holds of the statics between the positions, also at the end of a shorter file. -/
structure Steady (f : Finder) : Prop where
  counted : 0 < f.oldNlCnt
  old : f.oldNlCnt ≤ f.scanner.lexNlCnt
  last : f.scanner.lastNlCnt = f.scanner.lexNlCnt ∨ ∃ tks, f.scanner.ends = .file tks

/-- The loop for a position `k` leaves the lines as they are. -/
def Settled (k : Nat) (f : Finder) : Prop :=
  k < f.scanner.lexTkCnt ∨ f.scanner.nextTextEOL = (false, f.scanner)

theorem skipLine_nl (tks : List Token) (s : Scanner) :
    s.lexNlCnt ≤ (s.skipLine tks).2.lexNlCnt ∧ (∃ left, (s.skipLine tks).2.ends = .file left) ∧
      ((s.skipLine tks).1 = false →
        (s.skipLine tks).2.lexNlCnt = s.lexNlCnt ∧ (s.skipLine tks).2.ends = .file []) := by
  induction tks generalizing s with
  | nil => exact ⟨Nat.le_refl _, ⟨[], rfl⟩, fun _ => ⟨rfl, rfl⟩⟩
  | cons tk tks ih =>
      rw [Scanner.skipLine]
      split
      · exact ⟨Nat.le_succ _, ⟨tks, rfl⟩, fun stuck => by cases stuck⟩
      · exact ih { s with lexTkCnt := s.lexTkCnt + 1 }

/-- A line end on, or nothing changes any more. -/
theorem nextTextEOL_nl {s : Scanner}
    (last : s.lastNlCnt = s.lexNlCnt ∨ ∃ tks, s.ends = .file tks) :
    s.lexNlCnt ≤ s.nextTextEOL.2.lexNlCnt ∧
      (s.nextTextEOL.2.lastNlCnt = s.nextTextEOL.2.lexNlCnt ∨
        ∃ tks, s.nextTextEOL.2.ends = .file tks) ∧
      (s.nextTextEOL.1 = false → s.nextTextEOL.2.lexNlCnt = s.lexNlCnt ∧
        s.nextTextEOL.2.nextTextEOL = (false, s.nextTextEOL.2)) := by
  have at_end (s : Scanner) (ends : s.ends = .file []) : s.nextTextEOL = (false, s) := by
    rw [Scanner.nextTextEOL, ends]
    simp only [Scanner.skipLine, ← ends]
  unfold Scanner.nextTextEOL
  cases ends : s.ends with
  | buffer nls =>
      have same : s.lastNlCnt = s.lexNlCnt := last.resolve_right fun other => by
        obtain ⟨tks, other⟩ := other
        rw [ends] at other
        cases other
      cases nls with
      | nil =>
          refine ⟨Nat.le_refl _, Or.inl same, fun _ => ⟨rfl, ?_⟩⟩
          simp only [ends]
      | cons nl nls =>
          refine ⟨?_, Or.inl rfl, fun stuck => by cases stuck⟩
          show s.lexNlCnt ≤ s.lastNlCnt + 1
          omega
  | file tks =>
      obtain ⟨le, file, stuck⟩ := skipLine_nl tks s
      exact ⟨le, Or.inr file, fun no => ⟨(stuck no).1, at_end _ (stuck no).2⟩⟩

variable {e : Bool} {k : Nat} {f : Finder}

theorem findLine_steady (steady : Steady f) :
    Steady (findLine e k f) ∧ f.oldNlCnt ≤ (findLine e k f).oldNlCnt ∧
      f.scanner.lexNlCnt ≤ (findLine e k f).scanner.lexNlCnt ∧ Settled k (findLine e k f) := by
  induction f using findLine.induct k with
  | case1 f behind more ih =>
      have counted := steady.counted
      have old := steady.old
      obtain ⟨further, last, -⟩ := nextTextEOL_nl steady.last
      obtain ⟨steady', old', nl', settled⟩ := ih ⟨Nat.lt_of_lt_of_le counted old, further, last⟩
      rw [findLine, dif_pos behind, dif_pos more]
      exact ⟨steady', Nat.le_trans old old', Nat.le_trans further nl', settled⟩
  | case2 f behind no_more =>
      have counted := steady.counted
      have old := steady.old
      obtain ⟨further, last, stuck⟩ := nextTextEOL_nl steady.last
      rw [findLine, dif_pos behind, dif_neg no_more]
      exact ⟨⟨Nat.lt_of_lt_of_le counted old, further, last⟩, old, further,
        Or.inr (stuck (eq_false_of_ne_true no_more)).2⟩
  | case3 f found =>
      rw [findLine, dif_neg found]
      exact ⟨steady, Nat.le_refl _, Nat.le_refl _, Or.inl (Nat.lt_of_not_le found)⟩

theorem findLine_settled (settled : Settled k f) :
    (findLine e k f).scanner = f.scanner := by
  rw [findLine]
  rcases settled with found | stuck
  · rw [dif_neg (Nat.not_le_of_lt found)]
  · split
    · rw [dif_neg (by rw [stuck]; exact Bool.false_ne_true), stuck]
    · rfl

theorem fillAll_unfilled (pos : List Position) (f : Finder) :
    (fillAll e f pos).1.map Position.unfilled = pos.map Position.unfilled := by
  induction pos generalizing f with
  | nil => rfl
  | cons p pos ih =>
      rw [fillAll, List.map_cons, ih, List.map_cons]
      rfl

theorem exists_of_mem_fillAll {pos : List Position} {q : Position}
    (member : q ∈ (fillAll e f pos).1) : ∃ p ∈ pos, p.psTkCnt = q.psTkCnt := by
  have inside := List.mem_map_of_mem (f := Position.unfilled) member
  rw [fillAll_unfilled] at inside
  obtain ⟨p, there, same⟩ := List.mem_map.1 inside
  have tk : p.unfilled.psTkCnt = q.unfilled.psTkCnt := by rw [same]
  exact ⟨p, there, tk⟩

/-- No position gets a line before those that have been passed. -/
theorem le_of_mem_fillAll {pos : List Position} (steady : Steady f) {q : Position}
    (member : q ∈ (fillAll e f pos).1) :
    f.oldNlCnt ≤ q.lines ∧ (q.psType = .last → f.scanner.lexNlCnt ≤ q.lines) := by
  induction pos generalizing f with
  | nil => cases member
  | cons p pos ih =>
      obtain ⟨steady', old, nl, -⟩ := findLine_steady (e := e) (k := p.psTkCnt) steady
      rw [fillAll] at member
      rcases List.mem_cons.1 member with rfl | member
      · have old' := steady'.old
        cases type : p.psType with
        | first => exact ⟨old, fun last => absurd (type.symm.trans last) (by decide)⟩
        | last => exact ⟨Nat.le_trans old old', fun _ => nl⟩
      · obtain ⟨after, after'⟩ := ih steady' member
        exact ⟨Nat.le_trans old after, fun last => Nat.le_trans nl (after' last)⟩

/-- A position at the one the loop has settled for begins no later than that ends. -/
theorem le_of_settled {pos : List Position}
    (sorted : pos.Pairwise fun p q => p.psTkCnt ≤ q.psTkCnt) (steady : Steady f)
    (settled : Settled k f) (after : ∀ p ∈ pos, k ≤ p.psTkCnt) {q : Position}
    (member : q ∈ (fillAll e f pos).1) (first : q.psType = .first) (same : q.psTkCnt = k) :
    q.lines ≤ f.scanner.lexNlCnt := by
  induction pos generalizing f with
  | nil => cases member
  | cons p pos ih =>
      obtain ⟨least, sorted⟩ := List.pairwise_cons.1 sorted
      rw [List.forall_mem_cons] at after
      rw [fillAll] at member
      by_cases here : p.psTkCnt = k
      · obtain ⟨steady', -, -, settled'⟩ := findLine_steady (e := e) (k := p.psTkCnt) steady
        rw [here] at member steady' settled'
        have kept := findLine_settled (e := e) settled
        rcases List.mem_cons.1 member with rfl | member
        · have type : p.psType = .first := first
          have old := steady'.old
          rw [kept] at old
          simp only [Position.lines, Position.filled, type, Option.getD_some]
          exact old
        · rw [← kept]
          exact ih sorted steady' settled' after.2 member
      · exfalso
        rcases List.mem_cons.1 member with rfl | member
        · exact here same
        · obtain ⟨p', there, tk⟩ := exists_of_mem_fillAll member
          have := least p' there
          have := after.1
          omega

/-- The first position of a chunk does not get a line behind that of the last one. -/
def InOrder (p q : Position) : Prop :=
  (p.psType = .first → q.psType = .last → p.psTkCnt ≤ q.psTkCnt → p.lines ≤ q.lines) ∧
    (q.psType = .first → p.psType = .last → q.psTkCnt ≤ p.psTkCnt → q.lines ≤ p.lines)

theorem fillAll_inOrder {pos : List Position}
    (sorted : pos.Pairwise fun p q => p.psTkCnt ≤ q.psTkCnt) (steady : Steady f) :
    (fillAll e f pos).1.Pairwise InOrder := by
  induction pos generalizing f with
  | nil => exact .nil
  | cons p pos ih =>
      obtain ⟨least, sorted⟩ := List.pairwise_cons.1 sorted
      obtain ⟨steady', -, -, settled⟩ := findLine_steady (e := e) (k := p.psTkCnt) steady
      rw [fillAll]
      refine .cons (fun q member => ⟨fun first last _ => ?_, fun first last back => ?_⟩)
        (ih sorted steady')
      · have type : p.psType = .first := first
        obtain ⟨-, nl⟩ := le_of_mem_fillAll steady' member
        simp only [Position.lines, Position.filled, type, Option.getD_some]
        exact Nat.le_trans steady'.old (nl last)
      · have type : p.psType = .last := last
        obtain ⟨p', inside, tk⟩ := exists_of_mem_fillAll member
        have behind : p.psTkCnt ≤ p'.psTkCnt := least p' inside
        have there : q.psTkCnt = p.psTkCnt := Nat.le_antisymm back (tk ▸ behind)
        have le := le_of_settled sorted steady' settled least member first there
        simp only [Position.filled, Position.lines, type, Option.getD_some] at le ⊢
        exact le

end AnyFile

/-! ## The lines of a chunk -/

section Chunks

def Position.id (p : Position) : Nat × Bool × PosType := (p.run, p.left, p.psType)

/-- `ps_nl_cnt` of a position of a run. -/
def Pass2.lines (p : Pass2) (run : Nat) (left : Bool) (psType : PosType) : Nat :=
  (p.txPos.find? fun q => q.id = (run, left, psType)).elim (2 ^ 64 - 1) Position.lines

theorem Pass2.lines_of_mem {p : Pass2} (nodup : (p.txPos.map Position.id).Nodup) {q : Position}
    (member : q ∈ p.txPos) : p.lines q.run q.left q.psType = q.lines := by
  have found : p.txPos.find? (fun q' => q'.id = q.id) = some q := by
    generalize p.txPos = pos at nodup member
    induction pos with
    | nil => cases member
    | cons q' pos ih =>
        rw [List.map_cons, List.nodup_cons] at nodup
        rcases List.mem_cons.1 member with rfl | member
        · simp
        · have other : ¬ q'.id = q.id := fun same =>
            nodup.1 (same ▸ List.mem_map_of_mem (f := Position.id) member)
          rw [List.find?_cons_of_neg (by simpa using other)]
          exact ih nodup.2 member
  have is : (fun q' : Position => decide (q'.id = (q.run, q.left, q.psType))) =
      fun q' => decide (q'.id = q.id) := rfl
  rw [Pass2.lines, is, found, Option.elim_some]

variable {c : Corpus} {n : Nat} {runs : List Run}

theorem nodup_txPos : ((txPos c n runs).map Position.id).Nodup := by
  have numbers : (runs.zipIdx.map Prod.snd).Nodup := by
    rw [List.zipIdx_map_snd]
    exact List.nodup_range'
  have pushed (numbered : List (Run × Nat)) : (numbered.map Prod.snd).Nodup →
      let pos := numbered.foldl (fun pos r =>
        setChunk c n r.2 r.1 false (setChunk c n r.2 r.1 true pos)) []
      (pos.map Position.id).Nodup ∧ ∀ q ∈ pos, q.run ∈ numbered.map Prod.snd := by
    induction numbered using List.reverseRecOn with
    | nil => exact fun _ => ⟨.nil, fun q member => by cases member⟩
    | append_singleton numbered r ih =>
        intro apart
        rw [List.map_append, List.nodup_append] at apart
        obtain ⟨nodup, inside⟩ := ih apart.1
        have fresh (left : Bool) (psType : PosType) {pos : List Position}
            (old : ∀ q ∈ pos, q.run = r.2 → q.left ≠ left) :
            (r.2, left, psType) ∉ pos.map Position.id := by
          intro member
          obtain ⟨q, there, same⟩ := List.mem_map.1 member
          simp only [Position.id, Prod.mk.injEq] at same
          exact old q there same.1 same.2.1
        have chunk (left : Bool) {pos : List Position} (nodup : (pos.map Position.id).Nodup)
            (old : ∀ q ∈ pos, q.run = r.2 → q.left ≠ left) :
            ((setChunk c n r.2 r.1 left pos).map Position.id).Nodup := by
          rw [setChunk]
          split
          · rw [List.map_cons, List.map_cons, List.nodup_cons, List.nodup_cons, List.mem_cons]
            exact ⟨not_or.2 ⟨by simp [Position.id], fresh left .last old⟩, fresh left .first old,
              nodup⟩
          · exact nodup
        have older (q : Position) (member : q ∈ numbered.foldl (fun pos r =>
            setChunk c n r.2 r.1 false (setChunk c n r.2 r.1 true pos)) []) :
            q.run ≠ r.2 := fun same =>
          apart.2.2 _ (inside q member) r.2 (by simp) same
        simp only [List.foldl_append, List.foldl_cons, List.foldl_nil, List.map_append]
        refine ⟨chunk false (chunk true nodup fun q member same => absurd same (older q member))
          fun q member same => ?_, fun q member => ?_⟩
        · rcases mem_setChunk.1 member with ⟨-, rfl | rfl⟩ | member
          · exact Bool.noConfusion
          · exact Bool.noConfusion
          · exact absurd same (older q member)
        · rw [List.mem_append]
          rcases mem_setChunk.1 member with ⟨-, rfl | rfl⟩ | member
          · exact Or.inr (by simp)
          · exact Or.inr (by simp)
          · rcases mem_setChunk.1 member with ⟨-, rfl | rfl⟩ | member
            · exact Or.inr (by simp)
            · exact Or.inr (by simp)
            · exact Or.inl (inside q member)
  exact (pushed runs.zipIdx numbers).1

variable (nlBuff : Option (List UInt16)) (txt : Text) (file : Option (List UInt8))

/-- Pass 2 sorts the positions and fills them in. -/
theorem pass2Txt_unfilled (pos : List Position) :
    ((pass2Txt nlBuff txt file pos).txPos.map Position.unfilled).Perm
      (pos.map Position.unfilled) := by
  rw [pass2Txt]
  split
  · exact .refl _
  · split
    · exact .refl _
    · show ((fillAll _ _ (sortList posBefore pos)).1.map Position.unfilled).Perm _
      rw [fillAll_unfilled]
      exact (sortList_perm posBefore pos).map _

theorem pass2Txt_inOrder {pos : List Position} (unset : ∀ p ∈ pos, p.psNlCnt = none) :
    (∀ q ∈ (pass2Txt nlBuff txt file pos).txPos, 0 < q.lines) ∧
      ∀ p ∈ (pass2Txt nlBuff txt file pos).txPos, ∀ q ∈ (pass2Txt nlBuff txt file pos).txPos,
        InOrder p q := by
  have still {p : Position} (member : p ∈ pos) : p.lines = 2 ^ 64 - 1 := by
    rw [Position.lines, unset p member]
    rfl
  have unfilled : (∀ q ∈ pos, 0 < q.lines) ∧ ∀ p ∈ pos, ∀ q ∈ pos, InOrder p q := by
    refine ⟨fun q member => ?_, fun p here q there => ⟨fun _ _ _ => ?_, fun _ _ _ => ?_⟩⟩
    · rw [still member]
      decide
    all_goals rw [still here, still there]
  rw [pass2Txt]
  split
  · exact unfilled
  · cases opened : openSecond nlBuff txt file with
    | none => exact unfilled
    | some scanner =>
        have start : scanner.lexNlCnt = 1 ∧ scanner.lastNlCnt = 1 := by
          cases nlBuff with
          | some nls =>
              cases opened
              exact ⟨rfl, rfl⟩
          | none =>
              obtain ⟨contents, -, rfl⟩ := Option.map_eq_some_iff.1 opened
              exact ⟨rfl, rfl⟩
        have steady : Steady { oldNlCnt := 1, scanner, modified := 0 } :=
          ⟨Nat.one_pos, Nat.le_of_eq start.1.symm, Or.inl (start.2.trans start.1.symm)⟩
        have sorted : (sortList posBefore pos).Pairwise fun p q => p.psTkCnt ≤ q.psTkCnt :=
          (sortList_sorted strict_posBefore pos).imp fun {p q} waits => by
            simpa [posBefore] using waits
        have symm : Std.Symm InOrder := ⟨fun p q ordered => ⟨ordered.2, ordered.1⟩⟩
        refine ⟨fun q member => (le_of_mem_fillAll steady member).1, fun p here q there => ?_⟩
        refine List.Pairwise.forall_of_forall (fun p _ => ?_) (fillAll_inOrder sorted steady)
          here there
        exact ⟨fun first last => absurd (first.symm.trans last) (by decide),
          fun first last => absurd (first.symm.trans last) (by decide)⟩

theorem nodup_pass2Txt (runs : List Run) :
    ((pass2Txt nlBuff txt file (txPos c n runs)).txPos.map Position.id).Nodup := by
  have same : Position.id ∘ Position.unfilled = Position.id := rfl
  have perm := (pass2Txt_unfilled nlBuff txt file (txPos c n runs)).map Position.id
  rw [List.map_map, List.map_map, same] at perm
  exact perm.nodup_iff.2 nodup_txPos

theorem exists_filled {p : Position} (member : p ∈ txPos c n runs) :
    ∃ q ∈ (pass2Txt nlBuff txt file (txPos c n runs)).txPos, q.psType = p.psType ∧
      q.psTkCnt = p.psTkCnt ∧
      (pass2Txt nlBuff txt file (txPos c n runs)).lines p.run p.left p.psType = q.lines := by
  have inside := (pass2Txt_unfilled nlBuff txt file _).mem_iff.2
    (List.mem_map_of_mem (f := Position.unfilled) member)
  obtain ⟨q, there, same⟩ := List.mem_map.1 inside
  have id : q.unfilled.id = p.unfilled.id := by rw [same]
  have tk : q.unfilled.psTkCnt = p.unfilled.psTkCnt := by rw [same]
  have of_id : q.run = p.run ∧ q.left = p.left ∧ q.psType = p.psType := by
    simpa [Position.id, Position.unfilled] using id
  refine ⟨q, there, of_id.2.2, tk, ?_⟩
  rw [← of_id.1, ← of_id.2.1, ← of_id.2.2]
  exact Pass2.lines_of_mem (nodup_pass2Txt nlBuff txt file runs) there

variable {r : Run × Nat}

/-- The positions of a chunk. -/
theorem chunk_mem (numbered : r ∈ runs.zipIdx) (left : Bool) :
    ⟨r.2, left, .first, (r.1.chunk c left).2, none⟩ ∈ txPos c (r.1.chunk c left).1 runs ∧
      ⟨r.2, left, .last, (r.1.chunk c left).2 + r.1.size - 1, none⟩ ∈
        txPos c (r.1.chunk c left).1 runs :=
  ⟨mem_txPos.2 ⟨r, numbered, left, rfl, Or.inl rfl⟩,
    mem_txPos.2 ⟨r, numbered, left, rfl, Or.inr rfl⟩⟩

/-- Whatever has become of the file, the last line of a chunk is not before its first. -/
theorem chunk_ordered (c : Corpus) (numbered : r ∈ runs.zipIdx) (some_ : 0 < r.1.size)
    (left : Bool) :
    let p := pass2Txt nlBuff txt file (txPos c (r.1.chunk c left).1 runs)
    0 < p.lines r.2 left .first ∧ p.lines r.2 left .first ≤ p.lines r.2 left .last := by
  intro p
  obtain ⟨first, last⟩ := chunk_mem (c := c) numbered left
  obtain ⟨q, there, type, tk, is⟩ := exists_filled nlBuff txt file first
  obtain ⟨q', there', type', tk', is'⟩ := exists_filled nlBuff txt file last
  have unset : ∀ p ∈ txPos c (r.1.chunk c left).1 runs, p.psNlCnt = none := by
    intro p member
    obtain ⟨_, _, _, _, rfl | rfl⟩ := mem_txPos.1 member <;> rfl
  obtain ⟨counted, ordered⟩ := pass2Txt_inOrder nlBuff txt file unset
  simp only at type type' tk tk' is is'
  refine ⟨is ▸ counted q there, ?_⟩
  show Pass2.lines _ _ _ _ ≤ Pass2.lines _ _ _ _
  rw [is, is']
  exact (ordered q there q' there').1 type type' (by omega)

end Chunks

/-! ## What is shown -/

section Shown

/-- A chunk of a run when pass 3 shows it; `second` and `third` are what `fopen` gives for its
file in the two passes. -/
def shownChunk (c : Corpus) (nlBuff : Option (List UInt16)) (txFname : List UInt8)
    (second third : Option (List UInt8)) {runs : List Run} {r : Run × Nat}
    (numbered : r ∈ runs.zipIdx) (some_ : 0 < r.1.size) (left : Bool) : Chunk :=
  let n := (r.1.chunk c left).1
  let p := pass2Txt nlBuff (c.text n) second (txPos c n runs)
  { txFname
    file := third
    first := p.lines r.2 left .first
    last := p.lines r.2 left .last
    counted := (chunk_ordered nlBuff _ second c numbered some_ left).1
    ordered := (chunk_ordered nlBuff _ second c numbered some_ left).2 }

variable {argv before after : List Arg} {contents : List UInt8} {minRunSize : Nat}
variable {tryCalloc : Nat → Bool} {o : Options} {runs : List Run} {r : Run × Nat}

theorem size_pos (positive : 0 < minRunSize)
    (compared : compare minRunSize tryCalloc o (readInputFiles argv) = pure runs)
    (numbered : r ∈ runs.zipIdx) : 0 < r.1.size := by
  have found : r.1 ∈ runs := (List.mem_zipIdx' numbered).2 ▸ List.getElem_mem _
  exact Nat.lt_of_lt_of_le positive (reported_of_compare positive compared found).enough

/-- The chunk begins in the line of its first word and ends in that of its last. -/
theorem shownChunk_lines (split : argv = before ++ .file contents :: after)
    (positive : 0 < minRunSize)
    (compared : compare minRunSize tryCalloc o (readInputFiles argv) = pure runs)
    (numbered : r ∈ runs.zipIdx) (left : Bool)
    (here : (r.1.chunk (readInputFiles argv) left).1 = before.length)
    (whole : shortAtEnd (pass1 argv).reader.nlBuff contents = false) (txFname : List UInt8)
    (third : Option (List UInt8)) :
    let cnk := shownChunk (readInputFiles argv) (pass1 argv).reader.nlBuff txFname
      (some contents) third numbered (size_pos positive compared numbered) left
    let k := (r.1.chunk (readInputFiles argv) left).2
    cnk.first = lineAt (lineLengths 0 (stream contents)) k ∧
      cnk.last = lineAt (lineLengths 0 (stream contents)) (k + r.1.size - 1) + 1 := by
  intro cnk k
  have inside : ∀ p ∈ txPos (readInputFiles argv) (r.1.chunk (readInputFiles argv) left).1 runs,
      p.psTkCnt < (words contents).length := by
    rw [here]
    intro p member
    obtain ⟨r', numbered', left', here', is⟩ := mem_txPos.1 member
    have found : r'.1 ∈ runs := (List.mem_zipIdx' numbered').2 ▸ List.getElem_mem _
    have bounds := chunk_inside split positive compared found here'
    rcases is with rfl | rfl <;> simp only <;> omega
  obtain ⟨buffers, ended⟩ := buffers_pass1 split
  rw [← here] at buffers ended
  have passed := pass2Txt_eq buffers ended inside
  have filled {p : Position} (member : p ∈ txPos (readInputFiles argv)
      (r.1.chunk (readInputFiles argv) left).1 runs) :
      (pass2Txt (pass1 argv).reader.nlBuff
          ((readInputFiles argv).text (r.1.chunk (readInputFiles argv) left).1) (some contents)
          (txPos (readInputFiles argv) (r.1.chunk (readInputFiles argv) left).1 runs)).lines
        p.run p.left p.psType = psLine false (lineLengths 0 (stream contents)) p := by
    have there := List.mem_map_of_mem
      (f := fun pos : Position => pos.filled (psLine (shortAtEnd (pass1 argv).reader.nlBuff
        contents) (lineLengths 0 (stream contents)) pos))
      ((sortList_perm posBefore _).mem_iff.2 member)
    rw [← whole]
    have nodup := nodup_pass2Txt (c := readInputFiles argv)
      (n := (r.1.chunk (readInputFiles argv) left).1) (pass1 argv).reader.nlBuff
      ((readInputFiles argv).text (r.1.chunk (readInputFiles argv) left).1) (some contents) runs
    rw [passed] at nodup ⊢
    exact Pass2.lines_of_mem nodup there
  obtain ⟨first, last⟩ := chunk_mem (c := readInputFiles argv) numbered left
  refine ⟨filled first, (filled last).trans ?_⟩
  simp [psLine, k]

/-- Of an unchanged file the lines shown are those from the first word of the run to the last, and
they have all its words in them. -/
theorem words_shown (split : argv = before ++ .file contents :: after)
    (positive : 0 < minRunSize)
    (compared : compare minRunSize tryCalloc o (readInputFiles argv) = pure runs)
    (numbered : r ∈ runs.zipIdx) (left : Bool)
    (here : (r.1.chunk (readInputFiles argv) left).1 = before.length)
    (whole : shortAtEnd (pass1 argv).reader.nlBuff contents = false) (txFname : List UInt8) :
    let cnk := shownChunk (readInputFiles argv) (pass1 argv).reader.nlBuff txFname
      (some contents) (some contents) numbered (size_pos positive compared numbered) left
    ∀ i < r.1.size, ∃ word j, j < cnk.nlCnt ∧ word <:+: cnk.line j ∧ word ≠ [] ∧
      (∀ b ∈ word, InWord b) ∧
      (words contents)[(r.1.chunk (readInputFiles argv) left).2 + i]? =
        some (word2token word) ∧
      (i = 0 → j = 0) ∧ (i + 1 = r.1.size → j + 1 = cnk.nlCnt) := by
  intro cnk i less
  obtain ⟨first, last⟩ := shownChunk_lines split positive compared numbered left here whole
    txFname (some contents)
  have found : r.1 ∈ runs := (List.mem_zipIdx' numbered).2 ▸ List.getElem_mem _
  obtain ⟨-, bounds⟩ := chunk_inside split positive compared found here
  generalize at_ : (r.1.chunk (readInputFiles argv) left).2 = k at first last bounds ⊢
  obtain ⟨pre, word, post, eq, token, some_, letters, line⟩ :=
    word_line (s := contents) (k := k + i) (by omega) 0
  rw [Nat.zero_add] at line
  have low := lineAt_mono (lineLengths 0 (stream contents)) (Nat.le_add_right k i)
  have high := lineAt_mono (lineLengths 0 (stream contents))
    (show k + i ≤ k + r.1.size - 1 by omega)
  have positive' := lineAt_pos (lineLengths 0 (stream contents)) k
  have nlCnt : cnk.nlCnt = lineAt (lineLengths 0 (stream contents)) (k + r.1.size - 1) + 1 -
      lineAt (lineLengths 0 (stream contents)) k := by
    rw [Chunk.nlCnt, first, last]
  refine ⟨word, pre.count 10 + 1 - lineAt (lineLengths 0 (stream contents)) k, ?_, ?_, some_,
    letters, token, ?_, ?_⟩
  · rw [nlCnt]
    omega
  · have one : 10 ∉ word := fun member => (letters 10 member).ne_newline rfl
    have inside := infix_piece one pre post
    have number : cnk.first - 1 + (pre.count 10 + 1 -
        lineAt (lineLengths 0 (stream contents)) k) = pre.count 10 := by
      rw [first]
      omega
    have file : cnk.file.getD [] = contents := rfl
    rw [Chunk.line, number, file, getD_splitOn]
    rwa [← eq] at inside
  · rintro rfl
    rw [Nat.add_zero] at line
    omega
  · intro final
    have same : k + i = k + r.1.size - 1 := by omega
    rw [same] at line
    rw [nlCnt]
    omega

theorem Sample.words_shown_sample : ∃ (cnk : Chunk) (word : List UInt8) (j : Nat),
    cnk.file = some (Sample.lines 8) ∧ j < cnk.nlCnt ∧ word <:+: cnk.line j ∧ word ≠ [] := by
  obtain ⟨r, runs, compared, between_⟩ := Sample.runs_two
  have numbered : (r, 0) ∈ (r :: runs).zipIdx := List.mem_cons_self
  have here : (r.chunk (two (Sample.lines 8) (Sample.lines 9)) true).1 = ([] : List Arg).length :=
    (between_ r List.mem_cons_self).1
  have whole : shortAtEnd (pass1 [.file (Sample.lines 8), .file (Sample.lines 9)]).reader.nlBuff
      (Sample.lines 8) = false := by
    rw [shortAtEnd, Sample.unended_lines, Bool.and_false]
  have split : [Arg.file (Sample.lines 8), .file (Sample.lines 9)] =
      [] ++ .file (Sample.lines 8) :: [.file (Sample.lines 9)] := rfl
  obtain ⟨word, j, less, inside, some_, -⟩ := words_shown split (by decide) compared numbered true
    here whole [] 0 (size_pos (by decide) compared numbered)
  exact ⟨_, word, j, rfl, less, inside, some_⟩

end Shown

end RunServer.Sim
