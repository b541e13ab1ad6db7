/-
# Runner.Reading -- what a comparison goes through

`Compared place s t ret ret'` says, without fuel and without file handles, how
`compare` gets from verdict `ret` to its answer `ret'` when `s` and `t` are left of
the two files: in `.gap` it is inside `find_next_nonspace`, in `.word` inside the
loop that reads two words together.  `compare_compared` shows that `compare` always
answers, and that its answer is one that `Compared` allows, so that what is proved
along `Compared` holds of the answer.
-/
import RunServer.Runner.Compare

namespace RunServer.Runner

set_option autoImplicit false

/-! ## Readers one character ahead -/

/-- `isspace` on a byte that was read. -/
def space (b : UInt8) : Bool := isspace (some b)

/-- `s` after its first byte, if that is a space. -/
def dropSpace : List UInt8 → List UInt8
  | [] => []
  | b :: s => if space b then s else b :: s

/-- No space comes next. -/
def Settled (s : List UInt8) : Prop := ∀ b ∈ s.head?, ¬ space b

namespace Reader

/-- A file of which `s` is left, its first byte in hand. -/
def ahead (s : List UInt8) : Reader := (fopen s).fgetc

@[simp] theorem ahead_nil_head : (ahead []).head = none := rfl
@[simp] theorem ahead_cons_head (b : UInt8) (s : List UInt8) : (ahead (b :: s)).head = some b := rfl
@[simp] theorem ahead_nil_fgetc : (ahead []).fgetc = ahead [] := rfl
@[simp] theorem ahead_cons_rest (b : UInt8) (s : List UInt8) : (ahead (b :: s)).rest = s := rfl
@[simp] theorem ahead_cons_fgetc (b : UInt8) (s : List UInt8) :
    (ahead (b :: s)).fgetc = ahead s := rfl

theorem fgetc_eq_ahead (r : Reader) : r.fgetc = ahead r.rest := rfl

@[simp] theorem ahead_size (s : List UInt8) : (ahead s).size = s.length := by
  cases s with
  | nil => rfl
  | cons b s => simp [size]

@[simp] theorem ahead_advance (s : List UInt8) : (ahead s).advance = ahead (dropSpace s) := by
  cases s with
  | nil => rfl
  | cons b s =>
      by_cases blank : isspace (some b)
      · simp [advance, dropSpace, space, blank]
      · simp [advance, dropSpace, space, blank]

end Reader

open Reader (ahead)

@[simp] theorem isspace_some (b : UInt8) : isspace (some b) = space b := rfl
@[simp] theorem isspace_none : isspace none = false := rfl

theorem visible_iff {b : UInt8} : visible (some b) ↔ ¬ space b ∧ b ≠ 0 := by
  simp [visible, nul]

theorem not_visible_of_space {b : UInt8} (blank : space b) : ¬ visible (some b) :=
  fun seen => (visible_iff.mp seen).1 blank

@[simp] theorem visible_none : visible none = true := rfl

theorem space_cr : space 13 := by decide
theorem space_lf : space 10 := by decide

theorem skipSpaces_eq (s : List UInt8) : skipSpaces s = ahead (s.dropWhile space) := by
  induction s with
  | nil => rfl
  | cons b s ih =>
      by_cases blank : space b
      · simpa [skipSpaces, blank] using ih
      · simp [skipSpaces, blank, ahead, Reader.fopen, Reader.fgetc]

theorem dropSpace_cons {b : UInt8} {s : List UInt8} (blank : space b) : dropSpace (b :: s) = s := by
  simp [dropSpace, blank]

theorem dropSpace_length_le (s : List UInt8) : (dropSpace s).length ≤ s.length := by
  cases s with
  | nil => exact Nat.le_refl 0
  | cons b s =>
      simp only [dropSpace]
      split
      · exact Nat.le_succ s.length
      · exact Nat.le_refl _

theorem dropSpace_dropWhile (s : List UInt8) :
    (dropSpace s).dropWhile space = s.dropWhile space := by
  cases s with
  | nil => rfl
  | cons b s =>
      by_cases blank : space b
      · simp [dropSpace, blank]
      · simp [dropSpace, blank]

theorem dropWhile_length_le (s : List UInt8) : (s.dropWhile space).length ≤ s.length :=
  (List.dropWhile_sublist space).length_le

theorem dropWhile_eq_or_shorter (s : List UInt8) :
    s.dropWhile space = s ∨ (s.dropWhile space).length < s.length := by
  rcases Nat.lt_or_ge (s.dropWhile space).length s.length with shorter | kept
  · exact Or.inr shorter
  · exact Or.inl ((List.dropWhile_sublist space).eq_of_length_le kept)

/-- Skipping the space on both sides leaves everything as it is, or less. -/
theorem dropWhile_same_or_fewer (s t : List UInt8) :
    s.dropWhile space = s ∧ t.dropWhile space = t ∨
      (s.dropWhile space).length + (t.dropWhile space).length < s.length + t.length := by
  have left := dropWhile_length_le s
  have right := dropWhile_length_le t
  rcases dropWhile_eq_or_shorter s with same | shorter
  · rcases dropWhile_eq_or_shorter t with same' | shorter'
    · exact Or.inl ⟨same, same'⟩
    · exact Or.inr (by omega)
  · exact Or.inr (by omega)

theorem settled_dropWhile (s : List UInt8) : Settled (s.dropWhile space) := by
  intro b first blank
  have := List.head?_dropWhile_not space s
  simp_all

theorem Settled.dropWhile_eq {s : List UInt8} (settled : Settled s) : s.dropWhile space = s := by
  cases s with
  | nil => rfl
  | cons b s => exact List.dropWhile_cons_of_neg (settled b rfl)

theorem Settled.isspace_head {s : List UInt8} (settled : Settled s) :
    isspace (ahead s).head = false := by
  cases s with
  | nil => rfl
  | cons b s => simpa using settled b rfl

@[simp] theorem dropWhile_dropWhile (s : List UInt8) :
    (s.dropWhile space).dropWhile space = s.dropWhile space :=
  (settled_dropWhile s).dropWhile_eq

/-! ## The steps of a comparison -/

/-- One turn of the loop in `find_next_nonspace`. -/
inductive Skips : List UInt8 → List UInt8 → Judge → List UInt8 → List UInt8 → Judge → Prop
  | left {b : UInt8} {s : List UInt8} {ret : Judge} :
      space b → Skips (b :: s) [] ret (s.dropWhile space) [] ret
  | right {c : UInt8} {t : List UInt8} {ret : Judge} :
      space c → Skips [] (c :: t) ret [] (t.dropWhile space) ret
  | crLf {s t : List UInt8} {ret : Judge} : Skips (13 :: s) (10 :: t) ret (dropSpace s) t ret
  | lfCr {s t : List UInt8} {ret : Judge} : Skips (10 :: s) (13 :: t) ret s (dropSpace t) ret
  | differ {b c : UInt8} {s t : List UInt8} {ret : Judge} :
      space b ∨ space c → b ≠ c → ¬ (b = 13 ∧ c = 10) → ¬ (b = 10 ∧ c = 13) →
      Skips (b :: s) (c :: t) ret (dropSpace (b :: s)) (dropSpace (c :: t)) .PE
  | same {b : UInt8} {s t : List UInt8} {ret : Judge} :
      space b → Skips (b :: s) (b :: t) ret s t ret

/-- The loop a comparison is in: between two words, or in one. -/
inductive Place where
  | gap | word
  deriving DecidableEq, Repr

/-- `compare`, from verdict `ret` with `s` and `t` left of the files, answers `ret'`. -/
inductive Compared : Place → List UInt8 → List UInt8 → Judge → Judge → Prop
  | skip {s t s' t' : List UInt8} {ret mid ret' : Judge} :
      Skips s t ret s' t' mid → Compared .gap s' t' mid ret' → Compared .gap s t ret ret'
  | begin {s t : List UInt8} {ret ret' : Judge} :
      Settled s → Settled t → Compared .word s t ret ret' → Compared .gap s t ret ret'
  | finished {ret : Judge} : Compared .word [] [] ret ret
  | extraLeft {b : UInt8} {s : List UInt8} {ret : Judge} :
      ¬ space b → Compared .word (b :: s) [] ret .WA
  | extraRight {c : UInt8} {t : List UInt8} {ret : Judge} :
      ¬ space c → Compared .word [] (c :: t) ret .WA
  | wrong {b c : UInt8} {s t : List UInt8} {ret : Judge} :
      visible (some b) ∨ visible (some c) → b ≠ c → Compared .word (b :: s) (c :: t) ret .WA
  | same {b : UInt8} {s t : List UInt8} {ret ret' : Judge} :
      visible (some b) → Compared .word s t ret ret' → Compared .word (b :: s) (b :: t) ret ret'
  | bothNul {s t : List UInt8} {ret ret' : Judge} :
      Compared .gap s t ret ret' → Compared .word (0 :: s) (0 :: t) ret ret'
  | leave {s t : List UInt8} {ret ret' : Judge} :
      (∀ b ∈ s.head?, ¬ visible (some b)) → (∀ c ∈ t.head?, ¬ visible (some c)) →
      ¬ (Settled s ∧ Settled t) → Compared .gap s t ret ret' → Compared .word s t ret ret'

/-! ## `find_next_nonspace` skips the space of both -/

section Skips

variable {s t s' t' : List UInt8} {ret mid : Judge}

theorem Skips.shorter (skips : Skips s t ret s' t' mid) :
    s'.length + t'.length < s.length + t.length := by
  cases skips with
  | @left b s _ =>
      have := dropWhile_length_le s
      simp only [List.length_cons]
      omega
  | @right c t _ =>
      have := dropWhile_length_le t
      simp only [List.length_cons]
      omega
  | @crLf s t =>
      have := dropSpace_length_le s
      simp only [List.length_cons]
      omega
  | @lfCr s t =>
      have := dropSpace_length_le t
      simp only [List.length_cons]
      omega
  | @differ b c s t _ blank =>
      have left := dropSpace_length_le (b :: s)
      have right := dropSpace_length_le (c :: t)
      rcases blank with blank | blank
      · simp only [dropSpace_cons blank, List.length_cons] at right ⊢
        omega
      · simp only [dropSpace_cons blank, List.length_cons] at left ⊢
        omega
  | same _ =>
      simp only [List.length_cons]
      omega

theorem Skips.dropWhile_left (skips : Skips s t ret s' t' mid) :
    s'.dropWhile space = s.dropWhile space := by
  cases skips with
  | left blank => simp [blank]
  | right _ => rfl
  | crLf => simp [dropSpace_dropWhile, space_cr]
  | lfCr => simp [space_lf]
  | differ _ => exact dropSpace_dropWhile _
  | same blank => simp [blank]

theorem Skips.dropWhile_right (skips : Skips s t ret s' t' mid) :
    t'.dropWhile space = t.dropWhile space := by
  cases skips with
  | left _ => rfl
  | right blank => simp [blank]
  | crLf => simp [space_lf]
  | lfCr => simp [dropSpace_dropWhile, space_cr]
  | differ _ => exact dropSpace_dropWhile _
  | same blank => simp [blank]

/-- The verdict a turn leaves is the one before it, or PE. -/
theorem Skips.verdict (skips : Skips s t ret s' t' mid) : mid = ret ∨ mid = .PE := by
  cases skips with
  | differ _ => exact Or.inr rfl
  | _ => exact Or.inl rfl

/-- The loop takes a turn wherever a space is next. -/
theorem exists_skips (more : ¬ (Settled s ∧ Settled t)) :
    ∃ s' t' mid, Skips s t ret s' t' mid := by
  cases s with
  | nil =>
      cases t with
      | nil => simp [Settled] at more
      | cons c t => exact ⟨_, _, _, .right (by simpa [Settled] using more)⟩
  | cons b s =>
      cases t with
      | nil => exact ⟨_, _, _, .left (by simpa [Settled] using more)⟩
      | cons c t =>
          have blank : space b ∨ space c := by
            by_contra none
            exact more (by simpa [Settled] using none)
          by_cases equal : b = c
          · subst equal
            exact ⟨_, _, _, .same (or_self_iff.mp blank)⟩
          · by_cases left : b = 13 ∧ c = 10
            · obtain ⟨rfl, rfl⟩ := left
              exact ⟨_, _, _, .crLf⟩
            · by_cases right : b = 10 ∧ c = 13
              · obtain ⟨rfl, rfl⟩ := right
                exact ⟨_, _, _, .lfCr⟩
              · exact ⟨_, _, _, .differ blank equal left right⟩

theorem Skips.loop_eq (skips : Skips s t ret s' t' mid) (fuel : Nat) :
    findNextNonspaceLoop (fuel + 1) (ahead s) (ahead t) ret =
      findNextNonspaceLoop fuel (ahead s') (ahead t') mid := by
  cases skips with
  | left blank => simp [findNextNonspaceLoop, blank, skipSpaces_eq]
  | right blank => simp [findNextNonspaceLoop, blank, skipSpaces_eq]
  | crLf => simp [findNextNonspaceLoop, space_cr, cr, lf, dropSpace_cons space_lf]
  | lfCr => simp [findNextNonspaceLoop, space_cr, cr, lf, dropSpace_cons space_lf]
  | differ blank differ left right =>
      rw [and_comm] at right
      simp [findNextNonspaceLoop, blank, differ, cr, lf, left, right]
  | same blank => simp [findNextNonspaceLoop, blank, dropSpace_cons blank]

theorem findNextNonspaceLoop_settled (left : Settled s) (right : Settled t) (fuel : Nat) :
    findNextNonspaceLoop (fuel + 1) (ahead s) (ahead t) ret = some (ahead s, ahead t, ret) := by
  simp [findNextNonspaceLoop, left.isspace_head, right.isspace_head]

theorem findNextNonspaceLoop_compared {fuel : Nat} (enough : s.length + t.length < fuel) :
    ∃ mid, findNextNonspaceLoop fuel (ahead s) (ahead t) ret =
        some (ahead (s.dropWhile space), ahead (t.dropWhile space), mid) ∧
      ∀ ret', Compared .word (s.dropWhile space) (t.dropWhile space) mid ret' →
        Compared .gap s t ret ret' := by
  induction fuel generalizing s t ret with
  | zero => exact absurd enough (Nat.not_lt_zero _)
  | succ fuel ih =>
      by_cases settled : Settled s ∧ Settled t
      · rw [settled.1.dropWhile_eq, settled.2.dropWhile_eq]
        exact ⟨ret, findNextNonspaceLoop_settled settled.1 settled.2 fuel,
          fun ret' later => .begin settled.1 settled.2 later⟩
      · obtain ⟨s', t', mid, skips⟩ := @exists_skips s t ret settled
        have shorter := skips.shorter
        obtain ⟨last, found, leads⟩ := @ih s' t' mid (by omega)
        rw [skips.dropWhile_left, skips.dropWhile_right] at found leads
        refine ⟨last, (skips.loop_eq fuel).trans found, fun ret' later => ?_⟩
        exact .skip skips (leads ret' later)

theorem findNextNonspace_compared (s t : List UInt8) (ret : Judge) :
    ∃ mid, findNextNonspace (ahead s) (ahead t) ret =
        some (ahead (s.dropWhile space), ahead (t.dropWhile space), mid) ∧
      ∀ ret', Compared .word (s.dropWhile space) (t.dropWhile space) mid ret' →
        Compared .gap s t ret ret' :=
  findNextNonspaceLoop_compared (by simp)

end Skips

/-! ## A word is read on both sides -/

/-- Where the loop over a word is left without an answer: one file is at its end,
or neither has a visible character next. -/
inductive WordEnds : List UInt8 → List UInt8 → Prop
  | left {c : UInt8} {t : List UInt8} : WordEnds [] (c :: t)
  | right {b : UInt8} {s : List UInt8} : WordEnds (b :: s) []
  | both {b c : UInt8} {s t : List UInt8} :
      ¬ visible (some b) → ¬ visible (some c) → WordEnds (b :: s) (c :: t)

/-- What `readWord` may return for the words at the front of `s` and `t`. -/
inductive WordRead (s t : List UInt8) (ret : Judge) : Scan → Prop
  | finished {ret' : Judge} : Compared .word s t ret ret' → WordRead s t ret (.finished ret')
  | heads {s' t' : List UInt8} :
      WordEnds s' t' → s'.length + t'.length ≤ s.length + t.length →
      (∀ ret', Compared .word s' t' ret ret' → Compared .word s t ret ret') →
      WordRead s t ret (.heads (ahead s') (ahead t'))

section Words

variable {s t s' t' : List UInt8} {ret : Judge}

theorem WordRead.same {b : UInt8} {scan : Scan} (seen : visible (some b))
    (read : WordRead s t ret scan) : WordRead (b :: s) (b :: t) ret scan := by
  cases read with
  | finished compared => exact .finished (.same seen compared)
  | heads ends shorter leads =>
      refine .heads ends ?_ fun ret' later => .same seen (leads ret' later)
      simp only [List.length_cons]
      omega

theorem readWord_read {fuel : Nat} (enough : s.length + t.length < fuel) :
    ∃ scan, readWord fuel (ahead s) (ahead t) ret = some scan ∧ WordRead s t ret scan := by
  induction fuel generalizing s t with
  | zero => exact absurd enough (Nat.not_lt_zero _)
  | succ fuel ih =>
      cases s with
      | nil =>
          cases t with
          | nil => exact ⟨_, by simp [readWord], .finished .finished⟩
          | cons c t => exact ⟨_, by simp [readWord], .heads .left (Nat.le_refl _) fun _ => id⟩
      | cons b s =>
          cases t with
          | nil => exact ⟨_, by simp [readWord], .heads .right (Nat.le_refl _) fun _ => id⟩
          | cons c t =>
              by_cases seen : visible (some b) ∨ visible (some c)
              · by_cases equal : b = c
                · subst equal
                  have seen := or_self_iff.mp seen
                  simp only [List.length_cons] at enough
                  obtain ⟨scan, found, read⟩ := @ih s t (by omega)
                  refine ⟨scan, ?_, read.same seen⟩
                  simpa [readWord, seen] using found
                · refine ⟨.finished .WA, ?_, .finished (.wrong seen equal)⟩
                  simp [readWord, seen, equal]
              · have hidden := not_or.mp seen
                refine ⟨_, ?_, .heads (.both hidden.1 hidden.2) (Nat.le_refl _) fun _ => id⟩
                simp [readWord, seen]

/-- After a word, `find_next_nonspace` goes on from where the word ended. -/
theorem WordEnds.findNextNonspace (ends : WordEnds s t) (ret : Judge) :
    ∃ mid, findNextNonspace (ahead s) (ahead t) ret =
        some (ahead (s.dropWhile space), ahead (t.dropWhile space), mid) ∧
      ∀ ret', Compared .word (s.dropWhile space) (t.dropWhile space) mid ret' →
        Compared .word s t ret ret' := by
  by_cases settled : Settled s ∧ Settled t
  · rw [settled.1.dropWhile_eq, settled.2.dropWhile_eq]
    exact ⟨ret, findNextNonspaceLoop_settled settled.1 settled.2 _, fun _ => id⟩
  · obtain ⟨mid, found, leads⟩ := findNextNonspace_compared s t ret
    refine ⟨mid, found, fun ret' later => .leave ?_ ?_ settled (leads ret' later)⟩
    · cases ends with
      | left => simp
      | @right b s =>
          have blank : space b := by simpa [Settled] using settled
          simpa using not_visible_of_space blank
      | both hidden _ => simpa using hidden
    · cases ends with
      | @left c t =>
          have blank : space c := by simpa [Settled] using settled
          simpa using not_visible_of_space blank
      | right => simp
      | both _ hidden => simpa using hidden

end Words

/-! ## `compare` -/

section Loop

variable {s t : List UInt8} {ret : Judge}

/-- With no space next, a line ends only at a `NUL`. -/
theorem endsLine_settled {b : UInt8} {s : List UInt8} (settled : Settled (b :: s)) :
    endsLine (some b) ↔ b = 0 := by
  have blank : ¬ space b := settled b rfl
  have notLf : b ≠ 10 := fun newline => blank (newline ▸ space_lf)
  simp [endsLine, lf, nul, notLf]

/-- Where a word ended with no space next, and both files go on, both have a `NUL`. -/
theorem WordEnds.both_nul {b c : UInt8} (ends : WordEnds (b :: s) (c :: t))
    (left : Settled (b :: s)) (right : Settled (c :: t)) : b = 0 ∧ c = 0 := by
  cases ends with
  | both hiddenLeft hiddenRight =>
      have blankLeft := left b rfl
      have blankRight := right c rfl
      simp only [visible_iff, not_and, not_not] at hiddenLeft hiddenRight
      exact ⟨hiddenLeft blankLeft, hiddenRight blankRight⟩

/-- What `compareLoop` has to answer at each of its two places. -/
def Answers (fuel : Nat) : Prop :=
  (∀ r1 r2 ret, 2 * (r1.rest.length + r2.rest.length) + 2 ≤ fuel →
    ∃ ret', compareLoop fuel .outer r1 r2 ret = some ret' ∧
      Compared .gap r1.rest r2.rest ret ret') ∧
  ∀ s t ret, 2 * (s.length + t.length) + 1 ≤ fuel →
    ∃ ret', compareLoop fuel .inner (ahead s) (ahead t) ret = some ret' ∧
      Compared .word s t ret ret'

theorem answers_outer {fuel : Nat} (next : Answers fuel) (r1 r2 : Reader) (ret : Judge)
    (enough : 2 * (r1.rest.length + r2.rest.length) + 2 ≤ fuel + 1) :
    ∃ ret', compareLoop (fuel + 1) .outer r1 r2 ret = some ret' ∧
      Compared .gap r1.rest r2.rest ret ret' := by
  obtain ⟨mid, found, leads⟩ := findNextNonspace_compared r1.rest r2.rest ret
  have left := dropWhile_length_le r1.rest
  have right := dropWhile_length_le r2.rest
  obtain ⟨ret', answer, compared⟩ :=
    next.2 (r1.rest.dropWhile space) (r2.rest.dropWhile space) mid (by omega)
  refine ⟨ret', ?_, leads ret' compared⟩
  rw [compareLoop, Reader.fgetc_eq_ahead, Reader.fgetc_eq_ahead, found]
  exact answer

/-- The end of a turn of the inner loop, after `find_next_nonspace`. -/
def endTurn (fuel : Nat) (r1 r2 : Reader) (ret : Judge) : Option Judge :=
  if r1.head = none ∧ r2.head = none then some ret
  else if r1.head = none ∨ r2.head = none then some .WA
  else if endsLine r1.head && endsLine r2.head then compareLoop fuel .outer r1 r2 ret
  else compareLoop fuel .inner r1 r2 ret

/-- The inner loop goes round again only where something was skipped: otherwise there
is a `NUL` on both sides. -/
theorem answers_endTurn {fuel : Nat} (next : Answers fuel) (ends : WordEnds s t) (ret : Judge)
    (enough : 2 * (s.length + t.length) + 1 ≤ fuel + 1) :
    ∃ ret', endTurn fuel (ahead (s.dropWhile space)) (ahead (t.dropWhile space)) ret = some ret' ∧
      Compared .word (s.dropWhile space) (t.dropWhile space) ret ret' := by
  have left := settled_dropWhile s
  have right := settled_dropWhile t
  have skipped := dropWhile_same_or_fewer s t
  have boundLeft := dropWhile_length_le s
  have boundRight := dropWhile_length_le t
  generalize s.dropWhile space = u at *
  generalize t.dropWhile space = v at *
  cases u with
  | nil =>
      cases v with
      | nil => exact ⟨ret, by simp [endTurn], .finished⟩
      | cons c v => exact ⟨.WA, by simp [endTurn], .extraRight (right c rfl)⟩
  | cons b u =>
      cases v with
      | nil => exact ⟨.WA, by simp [endTurn], .extraLeft (left b rfl)⟩
      | cons c v =>
          by_cases nuls : b = 0 ∧ c = 0
          · obtain ⟨rfl, rfl⟩ := nuls
            simp only [List.length_cons] at boundLeft boundRight
            have remaining : 2 * (u.length + v.length) + 2 ≤ fuel := by omega
            obtain ⟨ret', answer, compared⟩ :=
              next.1 (ahead (0 :: u)) (ahead (0 :: v)) ret remaining
            exact ⟨ret', by simpa [endTurn, endsLine, nul] using answer, .bothNul compared⟩
          · have again : ¬ (endsLine (some b) ∧ endsLine (some c)) := by
              rwa [endsLine_settled left, endsLine_settled right]
            rcases skipped with ⟨rfl, rfl⟩ | fewer
            · exact absurd (ends.both_nul left right) nuls
            · obtain ⟨ret', answer, compared⟩ := next.2 (b :: u) (c :: v) ret (by omega)
              exact ⟨ret', by simpa [endTurn, again] using answer, compared⟩

theorem answers_inner {fuel : Nat} (next : Answers fuel) (s t : List UInt8) (ret : Judge)
    (enough : 2 * (s.length + t.length) + 1 ≤ fuel + 1) :
    ∃ ret', compareLoop (fuel + 1) .inner (ahead s) (ahead t) ret = some ret' ∧
      Compared .word s t ret ret' := by
  obtain ⟨scan, scanned, read⟩ := @readWord_read s t ret ((ahead s).size + (ahead t).size + 1)
    (by simp)
  cases read with
  | @finished ret' compared => exact ⟨ret', by rw [compareLoop, scanned], compared⟩
  | @heads s' t' ends shorter leads =>
      obtain ⟨mid, found, after⟩ := ends.findNextNonspace ret
      obtain ⟨ret', answer, compared⟩ := answers_endTurn next ends mid (by omega)
      refine ⟨ret', ?_, leads ret' (after ret' compared)⟩
      rw [compareLoop, scanned]
      simp only [found]
      exact answer

theorem answers (fuel : Nat) : Answers fuel := by
  induction fuel with
  | zero => exact ⟨fun _ _ _ enough => by omega, fun _ _ _ enough => by omega⟩
  | succ fuel ih => exact ⟨answers_outer ih, answers_inner ih⟩

end Loop

/-- **`compare` always answers, by the steps of `Compared`.** -/
theorem compare_compared (s t : List UInt8) :
    ∃ ret, compare (some s) (some t) = some ret ∧ Compared .gap s t .AC ret :=
  (answers _).1 (Reader.fopen s) (Reader.fopen t) .AC (by simp [Reader.fopen])

end RunServer.Runner
