/-
# Runner.LineEnds -- what makes an answer accepted

`Alike s t` is the acceptance that `compare` computes: the files agree byte for byte,
except that a CR on one side may stand against a LF on the other, with the space after
the CR if there is one, and that one file may end with the other's last text
(`compare_accepts_iff`).

`normal` is what the two files are meant to agree on: the file without the space at
its end, with CR LF made LF.  The two differ where the CR that stands against a LF is
no part of a CR LF pair, with text still to come: `CrForLf`.  So `compare` accepts only
files with one normal form exactly outside `CrForLf` (`compare_sound_iff`).
-/
import Mathlib.Data.List.DropRight
import RunServer.Runner.Reading

namespace RunServer.Runner

set_option autoImplicit false

/-! ## The files `compare` accepts -/

/-- `compare` accepts `t` for `s`. -/
inductive Alike : List UInt8 → List UInt8 → Prop
  | endLeft {t : List UInt8} : (∀ c ∈ t, space c) → Alike [] t
  | endRight {s : List UInt8} : (∀ b ∈ s, space b) → Alike s []
  | same (b : UInt8) {s t : List UInt8} : Alike s t → Alike (b :: s) (b :: t)
  | crLf {s t : List UInt8} : Alike (dropSpace s) t → Alike (13 :: s) (10 :: t)
  | lfCr {s t : List UInt8} : Alike s (dropSpace t) → Alike (10 :: s) (13 :: t)

section Alike

variable {s t : List UInt8}

theorem alike_nil_left : Alike [] t ↔ ∀ c ∈ t, space c := by
  refine ⟨fun alike => ?_, .endLeft⟩
  cases alike with
  | endLeft blank => exact blank
  | endRight _ => simp

theorem alike_nil_right : Alike s [] ↔ ∀ b ∈ s, space b := by
  refine ⟨fun alike => ?_, .endRight⟩
  cases alike with
  | endLeft _ => simp
  | endRight blank => exact blank

theorem alike_same {b : UInt8} : Alike (b :: s) (b :: t) ↔ Alike s t := by
  refine ⟨fun alike => ?_, .same b⟩
  cases alike with
  | same _ alike => exact alike

theorem alike_crLf : Alike (13 :: s) (10 :: t) ↔ Alike (dropSpace s) t := by
  refine ⟨fun alike => ?_, .crLf⟩
  cases alike with
  | crLf alike => exact alike

theorem alike_lfCr : Alike (10 :: s) (13 :: t) ↔ Alike s (dropSpace t) := by
  refine ⟨fun alike => ?_, .lfCr⟩
  cases alike with
  | lfCr alike => exact alike

theorem not_alike_of_ne {b c : UInt8} (differ : b ≠ c) (notCrLf : ¬ (b = 13 ∧ c = 10))
    (notLfCr : ¬ (b = 10 ∧ c = 13)) : ¬ Alike (b :: s) (c :: t) := by
  intro alike
  cases alike with
  | same _ _ => exact differ rfl
  | crLf _ => exact notCrLf ⟨rfl, rfl⟩
  | lfCr _ => exact notLfCr ⟨rfl, rfl⟩

/-- Two bytes of which one is visible are accepted only if they are equal. -/
theorem not_alike_of_visible {b c : UInt8} (seen : visible (some b) ∨ visible (some c))
    (differ : b ≠ c) : ¬ Alike (b :: s) (c :: t) := by
  refine not_alike_of_ne differ ?_ ?_
  · rintro ⟨rfl, rfl⟩
    exact absurd seen (by decide)
  · rintro ⟨rfl, rfl⟩
    exact absurd seen (by decide)

theorem dropWhile_all_iff : (∀ b ∈ s.dropWhile space, space b) ↔ ∀ b ∈ s, space b := by
  rw [← List.dropWhile_eq_nil_iff, dropWhile_dropWhile, List.dropWhile_eq_nil_iff]

/-- A turn of `find_next_nonspace` keeps what will be accepted. -/
theorem Skips.alike_iff {s' t' : List UInt8} {ret mid : Judge} (skips : Skips s t ret s' t' mid) :
    mid = .AC ∧ Alike s' t' ↔ ret = .AC ∧ Alike s t := by
  cases skips with
  | left blank => simp [alike_nil_right, dropWhile_all_iff, blank]
  | right blank => simp [alike_nil_left, dropWhile_all_iff, blank]
  | crLf => rw [alike_crLf]
  | lfCr => rw [alike_lfCr]
  | differ _ differ notCrLf notLfCr => simp [not_alike_of_ne differ notCrLf notLfCr]
  | same _ => rw [alike_same]

theorem Compared.accepts_iff {place : Place} {ret ret' : Judge}
    (compared : Compared place s t ret ret') : ret' = .AC ↔ ret = .AC ∧ Alike s t := by
  induction compared with
  | skip skips _ ih => rw [ih, skips.alike_iff]
  | begin _ _ _ ih => exact ih
  | finished => simp [alike_nil_left]
  | extraLeft more => simp [alike_nil_right, more]
  | extraRight more => simp [alike_nil_left, more]
  | wrong seen differ => simp [not_alike_of_visible seen differ]
  | same _ _ ih => rw [ih, alike_same]
  | bothNul _ ih => rw [ih, alike_same]
  | leave _ _ _ _ ih => exact ih

end Alike

/-- `compare` accepts exactly the files that are alike. -/
theorem compare_accepts_iff (s t : List UInt8) :
    compare (some s) (some t) = some .AC ↔ Alike s t := by
  obtain ⟨ret, answer, compared⟩ := compare_compared s t
  have accepts := compared.accepts_iff
  simpa [answer] using accepts

/-! ## What an accepted answer is meant to agree with -/

/-- A file without the space at its end. -/
def trimEnd (s : List UInt8) : List UInt8 := s.rdropWhile space

/-- CR LF made LF. -/
def crlf : List UInt8 → List UInt8
  | [] => []
  | 13 :: 10 :: s => 10 :: crlf s
  | b :: s => b :: crlf s

/-- The file without the space at its end, and with LF for every CR LF. -/
def normal (s : List UInt8) : List UInt8 := crlf (trimEnd s)

/-- Something other than space is left. -/
def Text (s : List UInt8) : Prop := ∃ b ∈ s, ¬ space b

def StartsLf (s : List UInt8) : Prop := s.head? = some 10

section Normal

variable {s : List UInt8}

theorem text_cons {b : UInt8} : Text (b :: s) ↔ ¬ space b ∨ Text s := by simp [Text]

theorem text_space {b : UInt8} (blank : space b) : Text (b :: s) ↔ Text s := by
  simp [text_cons, blank]

theorem text_dropSpace : Text (dropSpace s) ↔ Text s := by
  cases s with
  | nil => rfl
  | cons b s =>
      by_cases blank : space b
      · rw [dropSpace_cons blank, text_space blank]
      · simp [dropSpace, blank]

theorem not_text_iff : ¬ Text s ↔ ∀ b ∈ s, space b := by simp [Text]

theorem trimEnd_cons {b : UInt8} (text : Text (b :: s)) : trimEnd (b :: s) = b :: trimEnd s := by
  unfold trimEnd List.rdropWhile
  rw [List.reverse_cons, List.dropWhile_append]
  split
  · rename_i emptied
    have blank : ∀ a ∈ s, space a := by simpa using emptied
    have inside : ¬ space b := (text_cons.mp text).resolve_right (not_text_iff.mpr blank)
    have none : s.reverse.dropWhile space = [] := List.isEmpty_iff.mp emptied
    simp [inside, none]
  · simp

theorem normal_of_not_text (blank : ¬ Text s) : normal s = [] := by
  have emptied : trimEnd s = [] := List.rdropWhile_eq_nil_iff.mpr (not_text_iff.mp blank)
  rw [normal, emptied, crlf]

theorem normal_cons {b : UInt8} (text : Text (b :: s)) (other : b ≠ 13) :
    normal (b :: s) = b :: normal s := by
  rw [normal, trimEnd_cons text, normal]
  simp [crlf, other]

theorem normal_lf (text : Text s) : normal (10 :: s) = 10 :: normal s :=
  normal_cons ((text_space space_lf).mpr text) (by decide)

/-- A CR before a LF goes. -/
theorem normal_pair (text : Text s) : normal (13 :: 10 :: s) = 10 :: normal s := by
  have later : Text (10 :: s) := (text_space space_lf).mpr text
  rw [normal, trimEnd_cons ((text_space space_cr).mpr later), trimEnd_cons later, crlf, normal]

/-- Any other CR stays. -/
theorem normal_lone (text : Text s) (noLf : ¬ StartsLf s) : normal (13 :: s) = 13 :: normal s := by
  rw [normal, trimEnd_cons ((text_space space_cr).mpr text), normal]
  cases s with
  | nil => simp [Text] at text
  | cons b s =>
      rw [trimEnd_cons text]
      have first : b ≠ 10 := by simpa [StartsLf] using noLf
      simp [crlf, first]

theorem startsLf_iff : StartsLf s ↔ ∃ u, s = 10 :: u := by
  cases s with
  | nil => simp [StartsLf]
  | cons b s => simp [StartsLf]

end Normal

/-! ## Where the two come apart -/

/-- The files agree up to a place with text after it where one has a CR that begins
no CR LF pair and the other a LF (`lone`), or where one has CR CR LF and the other CR LF
(`split`); the rest is accepted. -/
inductive CrForLf : List UInt8 → List UInt8 → Prop
  | loneLeft {s t : List UInt8} :
      Text t → ¬ StartsLf s → Alike (dropSpace s) t → CrForLf (13 :: s) (10 :: t)
  | loneRight {s t : List UInt8} :
      Text s → ¬ StartsLf t → Alike s (dropSpace t) → CrForLf (10 :: s) (13 :: t)
  | splitLeft {s t : List UInt8} :
      Text t → Alike s t → CrForLf (13 :: 13 :: 10 :: s) (13 :: 10 :: t)
  | splitRight {s t : List UInt8} :
      Text s → Alike s t → CrForLf (13 :: 10 :: s) (13 :: 13 :: 10 :: t)
  | same (b : UInt8) {s t : List UInt8} : CrForLf s t → CrForLf (b :: s) (b :: t)
  | pairLeft {s t : List UInt8} : CrForLf s t → CrForLf (13 :: 10 :: s) (10 :: t)
  | pairRight {s t : List UInt8} : CrForLf s t → CrForLf (10 :: s) (13 :: 10 :: t)

section Apart

variable {s t : List UInt8}

theorem Alike.text_iff (alike : Alike s t) : Text s ↔ Text t := by
  induction alike with
  | endLeft blank => exact iff_of_false (by simp [Text]) (not_text_iff.mpr blank)
  | endRight blank => exact iff_of_false (not_text_iff.mpr blank) (by simp [Text])
  | same b _ ih => rw [text_cons, text_cons, ih]
  | crLf _ ih => rw [text_space space_cr, text_space space_lf, ← ih, text_dropSpace]
  | lfCr _ ih => rw [text_space space_lf, text_space space_cr, ih, text_dropSpace]

theorem CrForLf.alike (apart : CrForLf s t) : Alike s t := by
  induction apart with
  | loneLeft _ _ alike => exact .crLf alike
  | loneRight _ _ alike => exact .lfCr alike
  | splitLeft _ alike => exact .same 13 (.crLf (by rwa [dropSpace_cons space_lf]))
  | splitRight _ alike => exact .same 13 (.lfCr (by rwa [dropSpace_cons space_lf]))
  | same b _ ih => exact .same b ih
  | pairLeft _ ih => exact .crLf (by rwa [dropSpace_cons space_lf])
  | pairRight _ ih => exact .lfCr (by rwa [dropSpace_cons space_lf])

theorem CrForLf.text (apart : CrForLf s t) : Text s ∧ Text t := by
  suffices Text t from ⟨apart.alike.text_iff.mpr this, this⟩
  induction apart with
  | loneLeft text _ _ => exact (text_space space_lf).mpr text
  | loneRight text _ alike =>
      exact (text_space space_cr).mpr (text_dropSpace.mp (alike.text_iff.mp text))
  | splitLeft text _ => exact (text_space space_cr).mpr ((text_space space_lf).mpr text)
  | splitRight text alike =>
      have later := alike.text_iff.mp text
      exact (text_space space_cr).mpr ((text_space space_cr).mpr ((text_space space_lf).mpr later))
  | same b _ ih => exact text_cons.mpr (Or.inr ih)
  | pairLeft _ ih => exact (text_space space_lf).mpr ih
  | pairRight _ ih => exact (text_space space_cr).mpr ((text_space space_lf).mpr ih)

theorem normal_lone_ne (left : Text s) (right : Text t) (noLf : ¬ StartsLf s) :
    normal (13 :: s) ≠ normal (10 :: t) := by
  rw [normal_lone left noLf, normal_lf right]
  simp

theorem normal_split_ne (left : Text s) (right : Text t) :
    normal (13 :: 13 :: 10 :: s) ≠ normal (13 :: 10 :: t) := by
  have later : Text (13 :: 10 :: s) := (text_space space_cr).mpr ((text_space space_lf).mpr left)
  rw [normal_lone later (by simp [StartsLf]), normal_pair right]
  simp

theorem normal_pair_ne (left : Text s) (right : Text t) (apart : normal s ≠ normal t) :
    normal (13 :: 10 :: s) ≠ normal (10 :: t) := by
  rw [normal_pair left, normal_lf right]
  simpa using apart

/-- A CR in front of only one LF keeps two normal forms apart. -/
theorem normal_cr_ne (left : Text (10 :: s)) (right : Text t) (noLf : ¬ StartsLf t) :
    normal (13 :: 10 :: s) ≠ normal (13 :: t) := by
  rw [normal_pair ((text_space space_lf).mp left), normal_lone right noLf]
  simp

/-- A byte both have in front keeps two normal forms apart. -/
theorem normal_ne_cons (b : UInt8) (left : Text s) (right : Text t) (apart : normal s ≠ normal t) :
    normal (b :: s) ≠ normal (b :: t) := by
  by_cases other : b = 13
  · subst other
    by_cases lfLeft : StartsLf s
    · obtain ⟨u, rfl⟩ := startsLf_iff.mp lfLeft
      by_cases lfRight : StartsLf t
      · obtain ⟨v, rfl⟩ := startsLf_iff.mp lfRight
        have moreLeft := (text_space space_lf).mp left
        have moreRight := (text_space space_lf).mp right
        rw [normal_pair moreLeft, normal_pair moreRight, ← normal_lf moreLeft,
          ← normal_lf moreRight]
        exact apart
      · exact normal_cr_ne left right lfRight
    · by_cases lfRight : StartsLf t
      · obtain ⟨v, rfl⟩ := startsLf_iff.mp lfRight
        exact (normal_cr_ne right left lfLeft).symm
      · rw [normal_lone left lfLeft, normal_lone right lfRight]
        simpa using apart
  · rw [normal_cons (text_cons.mpr (Or.inr left)) other,
      normal_cons (text_cons.mpr (Or.inr right)) other]
    simpa using apart

theorem CrForLf.normal_ne (apart : CrForLf s t) : normal s ≠ normal t := by
  induction apart with
  | loneLeft text noLf alike =>
      exact normal_lone_ne (text_dropSpace.mp (alike.text_iff.mpr text)) text noLf
  | loneRight text noLf alike =>
      exact (normal_lone_ne (text_dropSpace.mp (alike.text_iff.mp text)) text noLf).symm
  | splitLeft text alike => exact normal_split_ne (alike.text_iff.mpr text) text
  | splitRight text alike => exact (normal_split_ne (alike.text_iff.mp text) text).symm
  | same b apart ih => exact normal_ne_cons b apart.text.1 apart.text.2 ih
  | pairLeft apart ih => exact normal_pair_ne apart.text.1 apart.text.2 ih
  | pairRight apart ih => exact (normal_pair_ne apart.text.2 apart.text.1 ih.symm).symm

theorem Alike.symm (alike : Alike s t) : Alike t s := by
  induction alike with
  | endLeft blank => exact .endRight blank
  | endRight blank => exact .endLeft blank
  | same b _ ih => exact .same b ih
  | crLf _ ih => exact .lfCr ih
  | lfCr _ ih => exact .crLf ih

/-- A LF against something else, and yet one normal form: the other side has CR LF. -/
theorem Alike.pair_of_eq (alike : Alike (10 :: s) t) (text : Text (10 :: s)) (noLf : ¬ StartsLf t)
    (equal : normal (10 :: s) = normal t) : ∃ u, t = 13 :: 10 :: u ∧ Alike s u := by
  cases alike with
  | endRight blank => exact absurd text (not_text_iff.mpr blank)
  | same _ _ => exact absurd rfl noLf
  | @lfCr _ t alike =>
      by_cases pair : StartsLf t
      · obtain ⟨u, rfl⟩ := startsLf_iff.mp pair
        exact ⟨u, rfl, by rwa [dropSpace_cons space_lf] at alike⟩
      · have later := (text_space space_lf).mp text
        have more := text_dropSpace.mp (alike.text_iff.mp later)
        exact absurd equal.symm (normal_lone_ne more later pair)

/-- A byte in front of both tells two equal normal forms apart only if it is a CR, and
one side goes on with LF, the other with CR LF. -/
theorem Alike.split_of_eq {b : UInt8} (alike : Alike s t) (equal : normal s = normal t)
    (left : Text (b :: s)) (apart : normal (b :: s) ≠ normal (b :: t)) :
    CrForLf (b :: s) (b :: t) := by
  have right : Text (b :: t) := (alike.same b).text_iff.mp left
  by_cases other : b = 13
  · subst other
    have moreLeft := (text_space space_cr).mp left
    have moreRight := (text_space space_cr).mp right
    by_cases lfLeft : StartsLf s
    · obtain ⟨u, rfl⟩ := startsLf_iff.mp lfLeft
      have laterLeft := (text_space space_lf).mp moreLeft
      by_cases lfRight : StartsLf t
      · obtain ⟨v, rfl⟩ := startsLf_iff.mp lfRight
        have laterRight := (text_space space_lf).mp moreRight
        rw [normal_pair laterLeft, normal_pair laterRight, ← normal_lf laterLeft,
          ← normal_lf laterRight] at apart
        exact absurd equal apart
      · obtain ⟨v, rfl, rest⟩ := alike.pair_of_eq moreLeft lfRight equal
        exact .splitRight laterLeft rest
    · by_cases lfRight : StartsLf t
      · obtain ⟨v, rfl⟩ := startsLf_iff.mp lfRight
        obtain ⟨u, rfl, rest⟩ := alike.symm.pair_of_eq moreRight lfLeft equal.symm
        exact .splitLeft ((text_space space_lf).mp moreRight) rest.symm
      · rw [normal_lone moreLeft lfLeft, normal_lone moreRight lfRight, equal] at apart
        exact absurd rfl apart
  · rw [normal_cons left other, normal_cons right other, equal] at apart
    exact absurd rfl apart

/-- A CR against a LF, accepted: the CR begins a CR LF pair, or tells them apart. -/
theorem Alike.crForLf_of_cr (alike : Alike (dropSpace s) t) (text : Text t)
    (apart : normal (13 :: s) ≠ normal (10 :: t))
    (ih : normal (dropSpace s) ≠ normal t → CrForLf (dropSpace s) t) :
    CrForLf (13 :: s) (10 :: t) := by
  by_cases pair : StartsLf s
  · obtain ⟨u, rfl⟩ := startsLf_iff.mp pair
    rw [dropSpace_cons space_lf] at ih alike
    refine .pairLeft (ih fun equal => apart ?_)
    rw [normal_pair (alike.text_iff.mpr text), normal_lf text, equal]
  · exact .loneLeft text pair alike

theorem CrForLf.symm (apart : CrForLf s t) : CrForLf t s := by
  induction apart with
  | loneLeft text noLf alike => exact .loneRight text noLf alike.symm
  | loneRight text noLf alike => exact .loneLeft text noLf alike.symm
  | splitLeft text alike => exact .splitRight text alike.symm
  | splitRight text alike => exact .splitLeft text alike.symm
  | same b _ ih => exact .same b ih
  | pairLeft _ ih => exact .pairRight ih
  | pairRight _ ih => exact .pairLeft ih

theorem Alike.text_of_ne (alike : Alike s t) (apart : normal s ≠ normal t) : Text s ∧ Text t := by
  suffices Text s from ⟨this, alike.text_iff.mp this⟩
  by_contra blank
  rw [normal_of_not_text blank, normal_of_not_text (mt alike.text_iff.mpr blank)] at apart
  exact apart rfl

theorem Alike.crForLf (alike : Alike s t) (apart : normal s ≠ normal t) : CrForLf s t := by
  have text := alike.text_of_ne apart
  induction alike with
  | endLeft _ => exact absurd text.1 (by simp [Text])
  | endRight _ => exact absurd text.2 (by simp [Text])
  | @same b s t alike ih =>
      by_cases equal : normal s = normal t
      · exact alike.split_of_eq equal text.1 apart
      · exact .same b (ih equal (alike.text_of_ne equal))
  | crLf alike ih =>
      have more := (text_space space_lf).mp text.2
      exact alike.crForLf_of_cr more apart fun differ => ih differ (alike.text_of_ne differ)
  | lfCr alike ih =>
      have more := (text_space space_lf).mp text.1
      refine (alike.symm.crForLf_of_cr more apart.symm fun differ => ?_).symm
      exact (ih differ.symm (alike.text_of_ne differ.symm)).symm

end Apart

/-- **What `compare` accepts has the same normal form as the answer, except where a CR
that begins no CR LF pair stands against a LF.** -/
theorem compare_sound_iff (s t : List UInt8) :
    (compare (some s) (some t) = some .AC → normal s = normal t) ↔ ¬ CrForLf s t := by
  rw [compare_accepts_iff]
  constructor
  · exact fun sound apart => apart.normal_ne (sound apart.alike)
  · intro none alike
    by_contra apart
    exact none (alike.crForLf apart)

namespace Sample

/-- `a CR b` against `a LF b`: accepted, and no CR LF pair in sight. -/
theorem compare_unsound_sample :
    ¬ ∀ s t, compare (some s) (some t) = some .AC → normal s = normal t := by
  intro sound
  have same := sound [97, 13, 98] [97, 10, 98] (by decide)
  exact absurd same (by decide)

end Sample

end RunServer.Runner
