/-
# Runner.Recognition -- is every test recognised?

`prepare_files` takes a name longer than 3 bytes that ends in `.in` for a test, and
writes the names of its files; but it has no `return` on that path, so what its caller
compares with 0 is not defined.  A name it refuses is answered with 0.

With a value other than 0 there, everything the caller relies on is so, and with 0 every
test is skipped in silence (`recognises_iff`).
-/
import RunServer.Runner.Usage

namespace RunServer.Runner

open RunServer.Theory

set_option autoImplicit false

/-! ## What the test loop relies on -/

/-- The answer for a name does not depend on what the missing `return` leaves. -/
def Answered (name : List UInt8) : Prop :=
  ∃ value, ∀ fallOff, (prepareFiles name).value fallOff = value

/-- With what this build leaves there, the tests are the names that end in `.in`, each with
its own files, and each is started once. -/
structure Recognises (b : Build) (p : Parameters) (entries : List Entry) : Prop where
  taken : ∀ e ∈ entries, (prepareFiles e.dName).value b.fallOff ≠ 0 ↔ e.isIn
  files : ∀ e ∈ entries, (prepareFiles e.dName).value b.fallOff ≠ 0 → ∃ stem files,
    e.dName = stem ++ dotIn ∧ prepareFiles e.dName = .fellOff files ∧ files.infile = e.dName ∧
      files.outfile = stem ++ dotOut
  apart : ∀ e ∈ entries, ∀ e' ∈ entries, e.dName ≠ e'.dName → ∀ files files',
    prepareFiles e.dName = .fellOff files → prepareFiles e'.dName = .fellOff files' →
      files.outfile ≠ files'.outfile
  started : ∀ s, testLoop b p startProgress entries = .ok s → s.judgeFlag = .AC →
    testsRun b entries = testsOf entries ∧ s.count = (testsOf entries).length

section Names

variable {b : Build} {p : Parameters} {e : Entry} {entries : List Entry} {s : Progress}

/-- A name that is refused is no test. -/
theorem prepareFiles_refused (other : e.isIn = false) : prepareFiles e.dName = .refused := by
  cases prepared : prepareFiles e.dName with
  | refused => rfl
  | fellOff files =>
      have test := isTest_eq_isIn (b := ⟨false, 1⟩) (by decide) e
      rw [other] at test
      simp [isTest, prepared, Prepared.value] at test

theorem prepareFiles_taken (isIn : e.isIn = true) :
    ∃ files, prepareFiles e.dName = .fellOff files := by
  cases prepared : prepareFiles e.dName with
  | fellOff files => exact ⟨files, rfl⟩
  | refused =>
      have test := isTest_eq_isIn (b := ⟨false, 1⟩) (by decide) e
      rw [isIn] at test
      simp [isTest, prepared, Prepared.value] at test

/-- Only the names it refuses are answered. -/
theorem answered_iff : Answered e.dName ↔ e.isIn = false := by
  constructor
  · rintro ⟨value, same⟩
    by_contra isIn
    obtain ⟨files, prepared⟩ := prepareFiles_taken (Bool.of_not_eq_false isIn)
    rw [prepared] at same
    have zero : 0 = value := same 0
    have one : 1 = value := same 1
    omega
  · intro other
    exact ⟨0, fun fallOff => by rw [prepareFiles_refused other]; rfl⟩

/-- Names with the same answer file are the same. -/
theorem outfile_injective {name name' : List UInt8} {files files' : TestFiles}
    (prepared : prepareFiles name = .fellOff files)
    (prepared' : prepareFiles name' = .fellOff files') (same : files.outfile = files'.outfile) :
    name = name' := by
  obtain ⟨stem, rfl, rfl⟩ := prepareFiles_stem prepared
  obtain ⟨stem', rfl, rfl⟩ := prepareFiles_stem prepared'
  rw [List.append_cancel_right same]

/-- **One build**: the tests are recognised when it leaves a value other than 0, or there
are none. -/
theorem recognises_build_iff :
    Recognises b p entries ↔ b.fallOff ≠ 0 ∨ ∀ e ∈ entries, e.isIn = false := by
  constructor
  · intro recognised
    by_contra neither
    push Not at neither
    obtain ⟨zero, e, member, isIn⟩ := neither
    obtain ⟨files, prepared⟩ := prepareFiles_taken (Bool.of_not_eq_false isIn)
    have taken := (recognised.taken e member).mpr (Bool.of_not_eq_false isIn)
    rw [prepared] at taken
    exact taken zero
  · intro accepts
    have taken : ∀ e ∈ entries, isTest b e = e.isIn := by
      intro e member
      rcases accepts with nonzero | none
      · exact isTest_eq_isIn nonzero e
      · simp [isTest, prepareFiles_refused (none e member), Prepared.value, none e member]
    have value : ∀ e ∈ entries, (prepareFiles e.dName).value b.fallOff ≠ 0 ↔ e.isIn := by
      intro e member
      rw [← taken e member]
      simp [isTest]
    refine ⟨value, ?_, ?_, ?_⟩
    · intro e member nonzero
      obtain ⟨files, prepared⟩ := prepareFiles_taken ((value e member).mp nonzero)
      obtain ⟨stem, name, rfl⟩ := prepareFiles_stem prepared
      exact ⟨stem, _, name, prepared, name.symm, rfl⟩
    · intro e _ e' _ differ files files' prepared prepared' same
      exact differ (outfile_injective prepared prepared' same)
    · intro s loop accepted
      have tests : testsRun b entries = testsOf entries := by
        unfold testsRun testsOf
        rw [List.filter_congr taken]
      exact ⟨tests, by rw [testLoop_count loop accepted, tests]⟩

end Names

/-- **Tests are recognised** whatever the missing `return` leaves exactly when there are
none; and by one build when there are none or it leaves a value other than 0. -/
theorem recognises_iff (p : Parameters) (entries : List Entry) :
    ((∀ e ∈ entries, Answered e.dName) ∧ (∀ b, Recognises b p entries) ↔
      ∀ e ∈ entries, e.isIn = false) ∧
    ∀ b, Recognises b p entries ↔ b.fallOff ≠ 0 ∨ ∀ e ∈ entries, e.isIn = false := by
  refine ⟨⟨?_, ?_⟩, fun b => recognises_build_iff⟩
  · rintro ⟨answered, -⟩ e member
    exact answered_iff.mp (answered e member)
  · intro none
    refine ⟨fun e member => answered_iff.mpr (none e member), fun b => ?_⟩
    exact recognises_build_iff.mpr (Or.inr none)

namespace Sample

/-- `"a.in"` is taken for a test or not, as the missing `return` will have it. -/
theorem unanswered_sample :
    ¬ ∀ p entries, (∀ e ∈ entries, Answered e.dName) ∧ ∀ b, Recognises b p entries := by
  intro recognised
  have held := (recognised parameters [entry [59, 231]]).1 (entry [59, 231]) (by simp)
  exact absurd (answered_iff.mp held) (by decide)

end Sample

end RunServer.Runner
