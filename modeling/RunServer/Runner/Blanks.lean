/-
# Runner.Blanks -- what `find_next_nonspace` promises

`find_next_nonspace` is given the two current characters, the two files and `ret`, all by
reference: `Heads`.  `skipTurn` is one turn of its loop.  A turn never reads `ret`, so the
function is the same for every value of the `int` (`findNextNonspaceInt`), and for the
verdict that `compare` has there (`findNextNonspaceLoop_eq_run`).

`Skipped` is its contract: of each file the space in front is taken and nothing else, and
`ret` stays or becomes `JudgePE`; it stays wherever the space on the two sides is the same,
as far as the file that ends first has any (`findNextNonspace_skipped`).
-/
import RunServer.Theory.Endless
import RunServer.Runner.Reading

namespace RunServer.Runner

open RunServer.Theory.Endless
open Reader (ahead)

set_option autoImplicit false

/-! ## The loop, turn by turn -/

/-- The variables of `find_next_nonspace`. -/
structure Heads (ρ : Type) where
  r1 : Reader
  r2 : Reader
  ret : ρ
  deriving DecidableEq, Repr

section Turns

variable {ρ π : Type}

def Heads.map (f : ρ → π) (h : Heads ρ) : Heads π := ⟨h.r1, h.r2, f h.ret⟩

/-- One turn of `while ((isspace(c1)) || (isspace(c2)))`. -/
def skipTurn (judgePE : ρ) (h : Heads ρ) : Option (Pass (Heads ρ) (Heads ρ)) :=
  if isspace h.r1.head || isspace h.r2.head then
    if h.r1.head ≠ h.r2.head then
      if h.r2.head = none then some (.again ⟨skipSpaces h.r1.rest, h.r2, h.ret⟩)
      else if h.r1.head = none then some (.again ⟨h.r1, skipSpaces h.r2.rest, h.ret⟩)
      else if h.r1.head = cr ∧ h.r2.head = lf then
        some (.again ⟨h.r1.fgetc.advance, h.r2.advance, h.ret⟩)
      else if h.r2.head = cr ∧ h.r1.head = lf then
        some (.again ⟨h.r1.advance, h.r2.fgetc.advance, h.ret⟩)
      else some (.again ⟨h.r1.advance, h.r2.advance, judgePE⟩)
    else some (.again ⟨h.r1.advance, h.r2.advance, h.ret⟩)
  else some (.done h)

/-- `ret` is written, and never read. -/
theorem skipTurn_map (f : ρ → π) (judgePE : ρ) (h : Heads ρ) :
    skipTurn (f judgePE) (h.map f) =
      (skipTurn judgePE h).map (Pass.map (Heads.map f) (Heads.map f)) := by
  simp only [skipTurn, Heads.map, apply_ite (Option.map _), Option.map_some, Pass.map]
  rfl

/-- In `compare`, `ret` holds a verdict. -/
theorem findNextNonspaceLoop_eq_run (fuel : Nat) (r1 r2 : Reader) (ret : Judge) :
    findNextNonspaceLoop fuel r1 r2 ret =
      (run (skipTurn .PE) fuel ⟨r1, r2, ret⟩).map fun h => (h.r1, h.r2, h.ret) := by
  induction fuel generalizing r1 r2 ret with
  | zero => rfl
  | succ fuel ih =>
      simp only [findNextNonspaceLoop, run, skipTurn]
      split
      · split
        · split
          · exact ih _ _ _
          · split
            · exact ih _ _ _
            · split
              · exact ih _ _ _
              · split
                · exact ih _ _ _
                · exact ih _ _ _
        · exact ih _ _ _
      · rfl

end Turns

/-- `find_next_nonspace`, whatever the `int` in `ret`. -/
def findNextNonspaceInt (r1 r2 : Reader) (ret : Int) : Option (Heads Int) :=
  run (skipTurn Judge.PE.code) (r1.size + r2.size + 1) ⟨r1, r2, ret⟩

/-! ## What is left of a file -/

namespace Reader

/-- The current character first. -/
def left (r : Reader) : List UInt8 := r.head.toList ++ r.rest

/-- `EOF` is only read where the file is at its end. -/
def Genuine (r : Reader) : Prop := r.head = none → r.rest = []

@[simp] theorem ahead_left (s : List UInt8) : (ahead s).left = s := by
  cases s with
  | nil => rfl
  | cons b s => rfl

theorem ahead_rest (s : List UInt8) : (ahead s).rest = s.tail := by
  cases s with
  | nil => rfl
  | cons b s => rfl

theorem ahead_inj {s t : List UInt8} (same : ahead s = ahead t) : s = t := by
  have left := congrArg left same
  rwa [ahead_left, ahead_left] at left

theorem ahead_genuine (s : List UInt8) : (ahead s).Genuine := by
  cases s with
  | nil => exact fun _ => rfl
  | cons b s => exact fun ended => absurd ended (by simp)

theorem Genuine.eq_ahead {r : Reader} (genuine : r.Genuine) : r = ahead r.left := by
  obtain ⟨head, rest⟩ := r
  cases head with
  | none =>
      obtain rfl : rest = [] := genuine rfl
      rfl
  | some b => rfl

end Reader

/-- The space in front. -/
def blanks (s : List UInt8) : List UInt8 := s.takeWhile space

/-- The space in front of `s` is all there is of it, and is in front of `t` as well. -/
def EndsInBlanks (s t : List UInt8) : Prop := s = blanks s ∧ blanks s <+: blanks t

/-- The same space on both sides, as far as the file that ends first has any. -/
def SameBlanks (s t : List UInt8) : Prop :=
  blanks s = blanks t ∨ EndsInBlanks s t ∨ EndsInBlanks t s

/-- The contract of `find_next_nonspace`, from `r1`, `r2` and `ret` to `h`. -/
structure Skipped (r1 r2 : Reader) (ret : Int) (h : Heads Int) : Prop where
  takes : r1.left = blanks r1.left ++ h.r1.left ∧ r2.left = blanks r2.left ++ h.r2.left
  genuine : h.r1.Genuine ∧ h.r2.Genuine
  nonspace : isspace h.r1.head = false ∧ isspace h.r2.head = false
  verdict : h.ret = ret ∨ h.ret = Judge.PE.code
  kept : SameBlanks r1.left r2.left → h.ret = ret

section Contract

variable {s t s' t' : List UInt8} {ret mid : Judge}

theorem blanks_cons {b : UInt8} (blank : space b) : blanks (b :: s) = b :: blanks s := by
  simp [blanks, blank]

theorem blanks_settled (settled : Settled s) : blanks s = [] := by
  cases s with
  | nil => rfl
  | cons b s => exact List.takeWhile_cons_of_neg (settled b rfl)

theorem blanks_of_not_space {b : UInt8} (other : ¬ space b) : blanks (b :: s) = [] :=
  blanks_settled fun _ first => by
    obtain rfl : b = _ := Option.some.inj first
    exact other

theorem EndsInBlanks.tail {b c : UInt8} (ends : EndsInBlanks (b :: s) (c :: t)) :
    b = c ∧ EndsInBlanks s t := by
  obtain ⟨all, front⟩ := ends
  by_cases blank : space b
  · rw [blanks_cons blank] at all front
    by_cases blank' : space c
    · rw [blanks_cons blank', List.cons_prefix_cons] at front
      exact ⟨front.1, (List.cons.inj all).2, front.2⟩
    · rw [blanks_of_not_space blank'] at front
      simp at front
  · rw [blanks_of_not_space blank] at all
    cases all

/-- Where one side has a space in front, so has the other, and it is the same. -/
theorem SameBlanks.tail {b c : UInt8} (same : SameBlanks (b :: s) (c :: t))
    (blank : space b ∨ space c) : b = c ∧ SameBlanks s t := by
  rcases same with equal | ends | ends
  · by_cases first : space b
    · rw [blanks_cons first] at equal
      by_cases second : space c
      · rw [blanks_cons second, List.cons.injEq] at equal
        exact ⟨equal.1, Or.inl equal.2⟩
      · rw [blanks_of_not_space second] at equal
        cases equal
    · rw [blanks_of_not_space first, blanks_cons (blank.resolve_left first)] at equal
      cases equal
  · exact ⟨ends.tail.1, Or.inr (Or.inl ends.tail.2)⟩
  · exact ⟨ends.tail.1.symm, Or.inr (Or.inr ends.tail.2)⟩

/-- A turn over the same space keeps the verdict, and has the same space before it. -/
theorem Skips.sameBlanks (skips : Skips s t ret s' t' mid) (same : SameBlanks s t) :
    mid = ret ∧ SameBlanks s' t' := by
  cases skips with
  | left _ => exact ⟨rfl, Or.inl (blanks_settled (settled_dropWhile _))⟩
  | right _ => exact ⟨rfl, Or.inl (blanks_settled (settled_dropWhile _)).symm⟩
  | crLf => exact absurd (same.tail (Or.inl space_cr)).1 (by decide)
  | lfCr => exact absurd (same.tail (Or.inl space_lf)).1 (by decide)
  | differ blank differ => exact absurd (same.tail blank).1 differ
  | same blank => exact ⟨rfl, (same.tail (Or.inl blank)).2⟩

/-- **Invariant rule** of the loop. -/
theorem findNextNonspaceLoop_invariant {I : List UInt8 → List UInt8 → Judge → Prop}
    (kept : ∀ s t ret s' t' mid, Skips s t ret s' t' mid → I s t ret → I s' t' mid)
    {fuel : Nat} {r1 r2 : Reader} (start : I s t ret)
    (found : findNextNonspaceLoop fuel (ahead s) (ahead t) ret = some (r1, r2, mid)) :
    ∃ s' t', I s' t' mid := by
  induction fuel generalizing s t ret with
  | zero => simp [findNextNonspaceLoop] at found
  | succ fuel ih =>
      by_cases settled : Settled s ∧ Settled t
      · rw [findNextNonspaceLoop_settled settled.1 settled.2] at found
        simp only [Option.some.injEq, Prod.mk.injEq] at found
        exact ⟨s, t, found.2.2 ▸ start⟩
      · obtain ⟨s', t', next, skips⟩ := @exists_skips s t ret settled
        rw [skips.loop_eq] at found
        exact ih (kept _ _ _ _ _ _ skips start) found

/-- With no space in front, there is nothing to skip. -/
theorem SameBlanks.of_settled (left : Settled s) (right : Settled t) : SameBlanks s t :=
  Or.inl ((blanks_settled left).trans (blanks_settled right).symm)

theorem findNextNonspace_verdict {r1 r2 : Reader}
    (found : findNextNonspace (ahead s) (ahead t) ret = some (r1, r2, mid)) :
    mid = ret ∨ mid = .PE := by
  obtain ⟨-, -, verdict⟩ := findNextNonspaceLoop_invariant
    (I := fun _ _ last => last = ret ∨ last = .PE)
    (fun _ _ _ _ _ _ skips sofar => skips.verdict.elim (fun same => same ▸ sofar) Or.inr)
    (Or.inl rfl) found
  exact verdict

theorem findNextNonspace_kept {r1 r2 : Reader} (same : SameBlanks s t)
    (found : findNextNonspace (ahead s) (ahead t) ret = some (r1, r2, mid)) : mid = ret := by
  obtain ⟨-, -, -, kept⟩ := findNextNonspaceLoop_invariant
    (I := fun u v last => SameBlanks u v ∧ last = ret)
    (fun _ _ _ _ _ _ skips sofar =>
      ⟨(skips.sameBlanks sofar.1).2, (skips.sameBlanks sofar.1).1.trans sofar.2⟩)
    ⟨same, rfl⟩ found
  exact kept

/-- The two forms of the function agree, whatever stands for the verdicts in `ret`. -/
theorem findNextNonspaceInt_of_verdict (f : Judge → Int) (pe : f .PE = Judge.PE.code)
    (r1 r2 : Reader) (ret : Judge) :
    findNextNonspaceInt r1 r2 (f ret) =
      (findNextNonspace r1 r2 ret).map fun found => ⟨found.1, found.2.1, f found.2.2⟩ := by
  have follows := run_map (skipTurn_map f .PE) (r1.size + r2.size + 1) ⟨r1, r2, ret⟩
  unfold findNextNonspaceInt findNextNonspace
  rw [findNextNonspaceLoop_eq_run, ← pe, Option.map_map]
  exact follows

end Contract

/-- **The contract**, for any characters in hand, any contents and any `int`. -/
theorem findNextNonspace_skipped {r1 r2 : Reader} (first : r1.Genuine) (second : r2.Genuine)
    (ret : Int) : ∃ h, findNextNonspaceInt r1 r2 ret = some h ∧ Skipped r1 r2 ret h := by
  rw [first.eq_ahead, second.eq_ahead]
  generalize r1.left = s
  generalize r2.left = t
  -- the verdict `AC` stands for `ret`
  let into : Judge → Int := fun last => if last = .PE then Judge.PE.code else ret
  obtain ⟨mid, found, -⟩ := findNextNonspace_compared s t .AC
  have follows := findNextNonspaceInt_of_verdict into rfl (ahead s) (ahead t) .AC
  rw [found] at follows
  refine ⟨_, follows, ?_, ?_, ?_, ?_, ?_⟩
  · simp [blanks]
  · exact ⟨Reader.ahead_genuine _, Reader.ahead_genuine _⟩
  · exact ⟨(settled_dropWhile s).isspace_head, (settled_dropWhile t).isspace_head⟩
  · rcases findNextNonspace_verdict found with rfl | rfl
    · exact Or.inl rfl
    · exact Or.inr rfl
  · intro same
    rw [Reader.ahead_left, Reader.ahead_left] at same
    obtain rfl := findNextNonspace_kept same found
    rfl

namespace Sample

/-- A space and then `a`, against a file at its end. -/
theorem findNextNonspace_skipped_sample :
    ∃ h, findNextNonspaceInt ⟨some 32, [97]⟩ ⟨none, []⟩ 7 = some h ∧
      Skipped ⟨some 32, [97]⟩ ⟨none, []⟩ 7 h :=
  findNextNonspace_skipped (fun ended => by cases ended) (fun _ => rfl) 7

end Sample

end RunServer.Runner
