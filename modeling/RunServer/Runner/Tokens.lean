/-
# Runner.Tokens -- what makes an answer wrong

The tokens of a file are the maximal runs of bytes that are neither space nor `NUL`,
and every `NUL` by itself: the cut of `Theory.Words` with `isspace` between the words
and `NUL` alone.  `compare` answers WA for two files exactly when their tokens differ
(`compare_wrong_iff`).

The induction is along `Compared`.  Between two words (`Place.gap`) the tokens left
are those of what is left; inside a word they are those of what is left with the run
both sides have read so far in hand.
-/
import RunServer.Theory.Words
import RunServer.Runner.Reading

namespace RunServer.Runner

open RunServer.Theory

set_option autoImplicit false

def isNul (b : UInt8) : Bool := b = 0

/-- The tokens of a file. -/
def tokens (s : List UInt8) : List (List UInt8) := words space isNul s

/-- The tokens of `run ++ s`, of which `run` has been read. -/
def tokensFrom (run s : List UInt8) : List (List UInt8) := wordsFrom space isNul run s

theorem tokens_iff {s : List UInt8} {ts : List (List UInt8)} :
    Cut space isNul s ts ↔ tokens s = ts := cut_iff

example : tokens [32, 97, 98, 0, 0, 99, 10] = [[97, 98], [0], [0], [99]] := by decide

/-! ## One byte -/

theorem plain_iff {b : UInt8} : plain space isNul b ↔ visible (some b) := by
  simp [plain, isNul, visible_iff]

theorem tokens_dropWhile (s : List UInt8) : tokens (s.dropWhile space) = tokens s :=
  words_dropWhile s

theorem tokensFrom_nil (run : List UInt8) : tokensFrom run [] = flush run := rfl

theorem tokensFrom_nul (run s : List UInt8) :
    tokensFrom run (0 :: s) = flush run ++ [0] :: tokens s :=
  wordsFrom_single (by decide) (by decide)

theorem tokensFrom_visible {b : UInt8} (run s : List UInt8) (seen : visible (some b)) :
    tokensFrom run (b :: s) = tokensFrom (run ++ [b]) s :=
  wordsFrom_plain (plain_iff.mpr seen)

theorem tokensFrom_of_breaks (run : List UInt8) {s : List UInt8}
    (ends : ∀ b ∈ s.head?, ¬ visible (some b)) : tokensFrom run s = flush run ++ tokens s :=
  wordsFrom_of_breaks run (by simpa only [Breaks, plain_iff] using ends)

/-- A byte that is no space begins or continues a token. -/
theorem tokensFrom_ne_flush {b : UInt8} (run s : List UInt8) (more : ¬ space b) :
    tokensFrom run (b :: s) ≠ flush run := by
  by_cases zero : b = 0
  · subst zero
    rw [tokensFrom_nul]
    simp
  · have seen := visible_iff.mpr ⟨more, zero⟩
    exact wordsFrom_ne (t := []) (plain_iff.mpr seen) (by simp [Breaks]) (by simp)

/-- Two different bytes of which one is visible make different tokens. -/
theorem tokensFrom_ne {b c : UInt8} {run s t : List UInt8} (seen : visible (some b))
    (differ : b ≠ c) (started : run = [] → Settled (c :: t)) :
    tokensFrom run (b :: s) ≠ tokensFrom run (c :: t) := by
  by_cases both : visible (some c)
  · exact wordsFrom_ne_of_ne (plain_iff.mpr seen) (plain_iff.mpr both) differ
  · exact wordsFrom_ne (plain_iff.mpr seen) (by simpa [Breaks, plain_iff] using both) started

/-! ## Along a comparison -/

/-- `ret'` is WA exactly when what is left of the two files makes different tokens. -/
def WrongExactly : Place → List UInt8 → List UInt8 → Judge → Prop
  | .gap, s, t, ret' => ret' = .WA ↔ tokens s ≠ tokens t
  | .word, s, t, ret' => ∀ run, (run = [] → Settled s ∧ Settled t) →
      (ret' = .WA ↔ tokensFrom run s ≠ tokensFrom run t)

theorem Tolerant.not_wrong {ret : Judge} (tolerant : Tolerant ret) : ret ≠ .WA := by
  rcases tolerant with rfl | rfl <;> decide

theorem Skips.tolerant {s t s' t' : List UInt8} {ret mid : Judge}
    (skips : Skips s t ret s' t' mid) (tolerant : Tolerant ret) : Tolerant mid := by
  rcases skips.verdict with rfl | rfl
  · exact tolerant
  · exact Or.inr rfl

theorem Skips.tokens_eq {s t s' t' : List UInt8} {ret mid : Judge}
    (skips : Skips s t ret s' t' mid) : tokens s' = tokens s ∧ tokens t' = tokens t := by
  rw [← tokens_dropWhile s, ← tokens_dropWhile t, ← skips.dropWhile_left, ← skips.dropWhile_right,
    tokens_dropWhile, tokens_dropWhile]
  exact ⟨rfl, rfl⟩

theorem Compared.wrongExactly {place : Place} {s t : List UInt8} {ret ret' : Judge}
    (compared : Compared place s t ret ret') (tolerant : Tolerant ret) :
    WrongExactly place s t ret' := by
  induction compared with
  | skip skips _ ih =>
      have later := ih (skips.tolerant tolerant)
      simpa only [WrongExactly, skips.tokens_eq] using later
  | begin left right _ ih => exact ih tolerant [] fun _ => ⟨left, right⟩
  | finished => exact fun run _ => by simp [tolerant.not_wrong]
  | extraLeft more =>
      exact fun run _ => by simpa [tokensFrom_nil] using tokensFrom_ne_flush run _ more
  | extraRight more =>
      exact fun run _ => by simpa [tokensFrom_nil] using (tokensFrom_ne_flush run _ more).symm
  | wrong seen differ =>
      intro run started
      refine iff_of_true rfl ?_
      rcases seen with seen | seen
      · exact tokensFrom_ne seen differ fun fresh => (started fresh).2
      · exact (tokensFrom_ne seen differ.symm fun fresh => (started fresh).1).symm
  | same seen _ ih =>
      intro run _
      rw [tokensFrom_visible run _ seen, tokensFrom_visible run _ seen]
      exact ih tolerant (run ++ [_]) (by simp)
  | bothNul _ ih =>
      intro run _
      have later : _ ↔ tokens _ ≠ tokens _ := ih tolerant
      simpa [tokensFrom_nul] using later
  | leave left right _ _ ih =>
      intro run _
      have later : _ ↔ tokens _ ≠ tokens _ := ih tolerant
      rw [tokensFrom_of_breaks run left, tokensFrom_of_breaks run right]
      simpa using later

/-- An answer that is not WA is one of a comparison that found no wrong answer. -/
theorem Compared.tolerant {place : Place} {s t : List UInt8} {ret ret' : Judge}
    (compared : Compared place s t ret ret') (tolerant : Tolerant ret) :
    ret' = .WA ∨ Tolerant ret' := by
  induction compared with
  | skip skips _ ih => exact ih (skips.tolerant tolerant)
  | begin _ _ _ ih => exact ih tolerant
  | finished => exact Or.inr tolerant
  | extraLeft _ => exact Or.inl rfl
  | extraRight _ => exact Or.inl rfl
  | wrong _ _ => exact Or.inl rfl
  | same _ _ ih => exact ih tolerant
  | bothNul _ ih => exact ih tolerant
  | leave _ _ _ _ ih => exact ih tolerant

/-- **`compare` answers WA exactly when the tokens of the two files differ**, and AC or
PE otherwise. -/
theorem compare_wrong_iff (s t : List UInt8) :
    ∃ ret, compare (some s) (some t) = some ret ∧ (ret = .WA ↔ tokens s ≠ tokens t) ∧
      (ret ≠ .WA → ret = .AC ∨ ret = .PE) := by
  obtain ⟨ret, answer, compared⟩ := compare_compared s t
  have start : Tolerant .AC := Or.inl rfl
  refine ⟨ret, answer, compared.wrongExactly start, fun right => ?_⟩
  exact (compared.tolerant start).resolve_left right

end RunServer.Runner
