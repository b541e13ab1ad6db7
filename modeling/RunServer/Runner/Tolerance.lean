/-
# Runner.Tolerance -- what the answer of `compare` does not depend on

Both follow from what `compare` computes: `tokens` for WA and `Alike` for AC.  It does not
depend on which of the two files is the answer (`compare_comm`), nor on how the lines of
a file end, nor on space after the end of one (`compare_tolerates`).
-/
import RunServer.Runner.LineEnds
import RunServer.Runner.Tokens

namespace RunServer.Runner

set_option autoImplicit false

/-! ## Line ends -/

section Ends

variable {s t w : List UInt8}

theorem crlf_cons {b : UInt8} (alone : ¬ (b = 13 ∧ StartsLf s)) : crlf (b :: s) = b :: crlf s := by
  rw [crlf]
  rintro u rfl rfl
  exact alone ⟨rfl, rfl⟩

/-- A text begins with a CR LF pair, or with a byte that `crlf` keeps. -/
theorem crlf_cases (t : List UInt8) :
    t = [] ∨ (∃ u, t = 13 :: 10 :: u) ∨ ∃ b u, t = b :: u ∧ crlf t = b :: crlf u := by
  cases t with
  | nil => exact Or.inl rfl
  | cons b u =>
      by_cases pair : b = 13 ∧ StartsLf u
      · obtain ⟨rfl, lf⟩ := pair
        obtain ⟨v, rfl⟩ := startsLf_iff.mp lf
        exact Or.inr (Or.inl ⟨v, rfl⟩)
      · exact Or.inr (Or.inr ⟨b, u, rfl, crlf_cons pair⟩)

/-- Where both sides have come to the same line, the pair on one side is the LF on the
other. -/
theorem alike_of_crlf_eq (same : crlf s = crlf t) (blank : ∀ b ∈ w, space b) :
    Alike s (t ++ w) := by
  induction s using crlf.induct generalizing t with
  | case1 =>
      rcases crlf_cases t with rfl | ⟨u, rfl⟩ | ⟨b, u, rfl, kept⟩
      · exact .endLeft blank
      · simp [crlf] at same
      · simp [kept, crlf] at same
  | case2 s ih =>
      rw [crlf] at same
      rcases crlf_cases t with rfl | ⟨u, rfl⟩ | ⟨b, u, rfl, kept⟩
      · simp [crlf] at same
      · rw [crlf] at same
        exact .same 13 (.same 10 (ih (List.cons.inj same).2))
      · rw [kept] at same
        obtain ⟨rfl, rest⟩ := List.cons.inj same
        refine .crLf ?_
        rw [dropSpace_cons space_lf]
        exact ih rest
  | case3 b s alone ih =>
      have stays : crlf (b :: s) = b :: crlf s := by
        rw [crlf]
        exact alone
      rw [stays] at same
      rcases crlf_cases t with rfl | ⟨u, rfl⟩ | ⟨c, u, rfl, kept⟩
      · simp [crlf] at same
      · rw [crlf] at same
        obtain ⟨rfl, rest⟩ := List.cons.inj same
        refine .lfCr ?_
        show Alike s (dropSpace (10 :: (u ++ w)))
        rw [dropSpace_cons space_lf]
        exact ih rest
      · rw [kept] at same
        obtain ⟨rfl, rest⟩ := List.cons.inj same
        exact .same b (ih rest)

end Ends

/-- **Tolerance**: files that differ in their line ends, and in space after one of them,
are accepted, either way round. -/
theorem compare_tolerates (s t w : List UInt8) (same : crlf s = crlf t)
    (blank : ∀ b ∈ w, space b) :
    compare (some s) (some (t ++ w)) = some .AC ∧
      compare (some (t ++ w)) (some s) = some .AC := by
  have alike := alike_of_crlf_eq same blank
  exact ⟨(compare_accepts_iff _ _).mpr alike, (compare_accepts_iff _ _).mpr alike.symm⟩

/-- `a CR LF b LF` and `a LF b CR LF`, and a tab after it. -/
theorem compare_tolerates_sample :
    compare (some [97, 13, 10, 98, 10]) (some ([97, 10, 98, 13, 10] ++ [9])) = some .AC ∧
      compare (some ([97, 10, 98, 13, 10] ++ [9])) (some [97, 13, 10, 98, 10]) = some .AC := by
  refine compare_tolerates _ _ _ (by decide) fun b member => ?_
  rw [List.mem_singleton.mp member]
  decide

/-! ## The two sides -/

/-- AC, PE and WA are told apart by what is accepted and what is wrong. -/
theorem compare_eq_of_iff {ret ret' : Judge} (left : ret ≠ .WA → ret = .AC ∨ ret = .PE)
    (right : ret' ≠ .WA → ret' = .AC ∨ ret' = .PE) (accepted : ret = .AC ↔ ret' = .AC)
    (wrong : ret = .WA ↔ ret' = .WA) : ret = ret' := by
  by_cases isWrong : ret = .WA
  · rw [isWrong, wrong.mp isWrong]
  · by_cases isAccepted : ret = .AC
    · rw [isAccepted, accepted.mp isAccepted]
    · have pe := (left isWrong).resolve_left isAccepted
      have pe' := (right (mt wrong.mpr isWrong)).resolve_left (mt accepted.mpr isAccepted)
      rw [pe, pe']

/-- **Symmetry**: the verdict does not say which file is the answer. -/
theorem compare_comm (s t : List UInt8) :
    ∃ ret, compare (some s) (some t) = some ret ∧ compare (some t) (some s) = some ret ∧
      (ret = .AC ∨ ret = .PE ∨ ret = .WA) := by
  obtain ⟨ret, answer, wrong, tolerant⟩ := compare_wrong_iff s t
  obtain ⟨ret', answer', wrong', tolerant'⟩ := compare_wrong_iff t s
  have accepts := compare_accepts_iff s t
  have accepts' := compare_accepts_iff t s
  rw [answer, Option.some.injEq] at accepts
  rw [answer', Option.some.injEq] at accepts'
  have same : ret = ret' := by
    refine compare_eq_of_iff tolerant tolerant' ?_ ?_
    · rw [accepts, accepts']
      exact ⟨Alike.symm, Alike.symm⟩
    · rw [wrong, wrong']
      exact ne_comm
  refine ⟨ret, answer, same ▸ answer', ?_⟩
  by_cases isWrong : ret = .WA
  · exact Or.inr (Or.inr isWrong)
  · exact (tolerant isWrong).imp_right Or.inl

end RunServer.Runner
