/-
# Theory.Words -- a text cut into words

A text over any alphabet is cut by two predicates.  An item that is `space` only
separates; an item that is `single` stands for itself; everything else is
gathered into runs, as long as they go.  `words` reads the text once, with the
run it has begun in hand (`wordsFrom`), so that two readers of two texts can be
compared while both are in the middle of a word.

`Cut` says the same without an order of reading, and `cut_iff` that `words` is
it: in particular the runs are maximal.
-/
import Mathlib.Data.List.Basic

namespace RunServer.Theory

set_option autoImplicit false

variable {α : Type} {space single : α → Bool}

/-- Items that belong to a run. -/
def plain (space single : α → Bool) (a : α) : Bool := !space a && !single a

/-- The run in hand, as the words it makes. -/
def flush (run : List α) : List (List α) := if run.isEmpty then [] else [run]

def wordsFrom (space single : α → Bool) (run : List α) : List α → List (List α)
  | [] => flush run
  | a :: text =>
      if space a then flush run ++ wordsFrom space single [] text
      else if single a then flush run ++ [a] :: wordsFrom space single [] text
      else wordsFrom space single (run ++ [a]) text

/-- The words of a text. -/
def words (space single : α → Bool) (text : List α) : List (List α) :=
  wordsFrom space single [] text

/-! ## One item -/

@[simp] theorem flush_nil : flush ([] : List α) = [] := rfl

theorem flush_of_ne_nil {run : List α} (begun : run ≠ []) : flush run = [run] := by
  cases run with
  | nil => exact absurd rfl begun
  | cons a run => rfl

@[simp] theorem words_nil : words space single [] = [] := rfl

theorem wordsFrom_space {run text : List α} {a : α} (blank : space a) :
    wordsFrom space single run (a :: text) = flush run ++ words space single text := by
  simp [wordsFrom, words, blank]

theorem wordsFrom_single {run text : List α} {a : α} (blank : ¬ space a) (alone : single a) :
    wordsFrom space single run (a :: text) = flush run ++ [a] :: words space single text := by
  simp [wordsFrom, words, blank, alone]

theorem wordsFrom_plain {run text : List α} {a : α} (inside : plain space single a) :
    wordsFrom space single run (a :: text) = wordsFrom space single (run ++ [a]) text := by
  simp only [plain, Bool.and_eq_true, Bool.not_eq_true'] at inside
  simp [wordsFrom, inside.1, inside.2]

theorem words_space {text : List α} {a : α} (blank : space a) :
    words space single (a :: text) = words space single text :=
  wordsFrom_space blank

theorem words_single {text : List α} {a : α} (blank : ¬ space a) (alone : single a) :
    words space single (a :: text) = [a] :: words space single text :=
  wordsFrom_single blank alone

/-- Leading space adds no words. -/
theorem words_dropWhile (text : List α) :
    words space single (text.dropWhile space) = words space single text := by
  induction text with
  | nil => rfl
  | cons a text ih =>
      by_cases blank : space a
      · rw [List.dropWhile_cons_of_pos blank, ih, words_space blank]
      · rw [List.dropWhile_cons_of_neg blank]

/-! ## A run in hand -/

/-- No run begun before `text` goes on into it. -/
def Breaks (space single : α → Bool) (text : List α) : Prop :=
  ∀ a ∈ text.head?, ¬ plain space single a

theorem wordsFrom_of_breaks (run : List α) {text : List α} (breaks : Breaks space single text) :
    wordsFrom space single run text = flush run ++ words space single text := by
  cases text with
  | nil => simp [wordsFrom]
  | cons a text =>
      have outside := breaks a rfl
      by_cases blank : space a
      · rw [wordsFrom_space blank, words_space blank]
      · have alone : single a := by simpa [plain, blank] using outside
        rw [wordsFrom_single blank alone, words_single blank alone]

theorem wordsFrom_append {run more text : List α} (inside : ∀ a ∈ more, plain space single a) :
    wordsFrom space single run (more ++ text) = wordsFrom space single (run ++ more) text := by
  induction more generalizing run with
  | nil => simp
  | cons a more ih =>
      rw [List.cons_append, wordsFrom_plain (inside a (by simp)),
        ih (fun b listed => inside b (by simp [listed])), List.append_assoc, List.singleton_append]

variable (space single) in
/-- A run in hand is the beginning of the first word. -/
theorem wordsFrom_begun {run : List α} (text : List α) (begun : run ≠ []) :
    ∃ more rest, wordsFrom space single run text = (run ++ more) :: rest := by
  induction text generalizing run with
  | nil => exact ⟨[], [], by simp [wordsFrom, flush_of_ne_nil begun]⟩
  | cons a text ih =>
      by_cases inside : plain space single a
      · have longer : run ++ [a] ≠ [] := by simp
        obtain ⟨more, rest, found⟩ := ih longer
        exact ⟨a :: more, rest, by rw [wordsFrom_plain inside, found]; simp⟩
      · have breaks : Breaks space single (a :: text) := by simpa [Breaks] using inside
        refine ⟨[], words space single (a :: text), ?_⟩
        rw [wordsFrom_of_breaks _ breaks, flush_of_ne_nil begun, List.append_nil]
        rfl

/-- An item that belongs to a run is in the first word, after the run in hand. -/
theorem wordsFrom_cons (run text : List α) {a : α} (inside : plain space single a) :
    ∃ more rest, wordsFrom space single run (a :: text) = (run ++ a :: more) :: rest := by
  have longer : run ++ [a] ≠ [] := by simp
  obtain ⟨more, rest, found⟩ := wordsFrom_begun space single text longer
  exact ⟨more, rest, by rw [wordsFrom_plain inside, found]; simp⟩

/-- A text that goes on with the run and one that does not give different words. -/
theorem wordsFrom_ne {run s t : List α} {a : α} (inside : plain space single a)
    (breaks : Breaks space single t) (started : run = [] → ∀ b ∈ t.head?, ¬ space b) :
    wordsFrom space single run (a :: s) ≠ wordsFrom space single run t := by
  obtain ⟨more, rest, found⟩ := wordsFrom_cons run s inside
  rw [found, wordsFrom_of_breaks _ breaks]
  cases run with
  | cons c run =>
      rw [flush_of_ne_nil (List.cons_ne_nil c run)]
      intro same
      have first := (List.cons.inj same).1
      simp at first
  | nil =>
      cases t with
      | nil => simp
      | cons b t =>
          have blank := started rfl b rfl
          have outside := breaks b rfl
          have alone : single b := by simpa [plain, blank] using outside
          rw [words_single blank alone]
          intro same
          have first := (List.cons.inj same).1
          simp only [List.nil_append, List.cons.injEq] at first
          simp [plain, first.1, alone] at inside

/-- Two texts that go on with the run in different ways give different words. -/
theorem wordsFrom_ne_of_ne {run s t : List α} {a b : α} (insideLeft : plain space single a)
    (insideRight : plain space single b) (differ : a ≠ b) :
    wordsFrom space single run (a :: s) ≠ wordsFrom space single run (b :: t) := by
  obtain ⟨more, rest, found⟩ := wordsFrom_cons run s insideLeft
  obtain ⟨more', rest', found'⟩ := wordsFrom_cons run t insideRight
  rw [found, found']
  intro same
  have first := (List.cons.inj same).1
  simp [differ] at first

/-! ## The cut, without an order of reading -/

/-- `Cut text ws`: `text` is the words `ws` in order, single items each alone, the
other words maximal runs, with space between. -/
inductive Cut (space single : α → Bool) : List α → List (List α) → Prop
  | nil : Cut space single [] []
  | space {a : α} {text : List α} {ws : List (List α)} :
      space a → Cut space single text ws → Cut space single (a :: text) ws
  | single {a : α} {text : List α} {ws : List (List α)} :
      ¬ space a → single a → Cut space single text ws → Cut space single (a :: text) ([a] :: ws)
  | run {run text : List α} {ws : List (List α)} :
      run ≠ [] → (∀ a ∈ run, plain space single a) → Breaks space single text →
      Cut space single text ws → Cut space single (run ++ text) (run :: ws)

theorem Cut.words_eq {text : List α} {ws : List (List α)} (cut : Cut space single text ws) :
    words space single text = ws := by
  induction cut with
  | nil => rfl
  | space blank _ ih => rw [words_space blank, ih]
  | single blank alone _ ih => rw [words_single blank alone, ih]
  | run begun inside breaks _ ih =>
      rw [words, wordsFrom_append inside, List.nil_append, wordsFrom_of_breaks _ breaks, ih,
        flush_of_ne_nil begun, List.singleton_append]

/-- The run in hand ends where the text breaks it. -/
theorem Cut.ended {run text : List α} (inside : ∀ a ∈ run, plain space single a)
    (breaks : Breaks space single text) (cut : Cut space single text (words space single text)) :
    Cut space single (run ++ text) (wordsFrom space single run text) := by
  rw [wordsFrom_of_breaks _ breaks]
  cases run with
  | nil => exact cut
  | cons c run => exact Cut.run (List.cons_ne_nil c run) inside breaks cut

theorem cut_wordsFrom {run text : List α} (inside : ∀ a ∈ run, plain space single a) :
    Cut space single (run ++ text) (wordsFrom space single run text) := by
  induction text generalizing run with
  | nil => exact Cut.ended inside (by simp [Breaks]) Cut.nil
  | cons a text ih =>
      by_cases belongs : plain space single a
      · rw [wordsFrom_plain belongs, List.append_cons]
        apply ih
        intro b listed
        rcases List.mem_append.mp listed with begun | last
        · exact inside b begun
        · exact (List.mem_singleton.mp last) ▸ belongs
      · have later : Cut space single text (words space single text) := @ih [] (by simp)
        apply Cut.ended inside (by simpa [Breaks] using belongs)
        by_cases blank : space a
        · rw [words_space blank]
          exact Cut.space blank later
        · have alone : single a := by simpa [plain, blank] using belongs
          rw [words_single blank alone]
          exact Cut.single blank alone later

/-- **`words` is the cut.** -/
theorem cut_iff {text : List α} {ws : List (List α)} :
    Cut space single text ws ↔ words space single text = ws := by
  refine ⟨Cut.words_eq, fun found => ?_⟩
  have cut := @cut_wordsFrom α space single [] text (by simp)
  exact found ▸ cut

end RunServer.Theory
