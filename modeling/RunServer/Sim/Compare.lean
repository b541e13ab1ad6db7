/-
# Sim.Compare -- the longest common run at one position

`lcs` follows the forward references from a position of one text and tries each position
on the chain that is in range.  It compares from the far end of what would be better than
the best so far, so that most tries end at once, and only then extends.

* `Common`: the two runs are the same, each inside its text, and apart;
* `candidate_cases`: one try finds the longest common run there, or there is none that is better;
* `lcs_plain`, `lcs_made`: the optimised search answers what the plain one over all positions in
  range answers, the first of the longest common runs, and never reaches `fatal()`.  Neither
  the hash functions nor the size of the hash table are seen in it.
-/
import RunServer.Sim.References

namespace RunServer.Sim

open RunServer.Theory.Chains
open RunServer.Theory.Endless

set_option autoImplicit false

/-! ## One try -/

section Try

variable (tk : Nat → Token)

/-- Comparing backwards: how many of `cnt` tokens are left when two differ. -/
def backwards : Nat → Nat → Nat → Nat
  | 0, _, _ => 0
  | cnt + 1, j0, j1 => if tk j0 = tk j1 then backwards cnt (j0 - 1) (j1 - 1) else cnt + 1

/-- Extending forwards; the first argument says how many tokens of `txt0` are left. -/
def forwards (limit1 : Nat) : Nat → Nat → Nat → Nat → Nat
  | 0, _, _, newSize => newSize
  | room + 1, j0, j1, newSize =>
      if j1 < limit1 ∧ j0 + newSize < j1 ∧ tk j0 = tk j1 then
        forwards limit1 room (j0 + 1) (j1 + 1) (newSize + 1)
      else newSize

/-- The size of the run at `i0` and `i1` if it has `minSize` tokens, else 0. -/
def candidate (limit0 limit1 i0 i1 minSize : Nat) : Nat :=
  if i0 + minSize - 1 < limit0 ∧ i1 + minSize - 1 < limit1 ∧
      i0 + minSize - 1 + minSize ≤ i1 + minSize - 1 ∧
      backwards tk minSize (i0 + minSize - 1) (i1 + minSize - 1) = 0 then
    if mayBeStartOfRun (tk i0) then
      bestRunSize tk i0 (forwards tk limit1 (limit0 - (i0 + minSize)) (i0 + minSize)
        (i1 + minSize) minSize)
    else 0
  else 0

/-- A run of `n` tokens at `i0` in one text and at `i1` in another, or further on in it. -/
structure Common (limit0 limit1 i0 i1 n : Nat) : Prop where
  inside0 : i0 + n ≤ limit0
  inside1 : i1 + n ≤ limit1
  apart : i0 + n ≤ i1
  agree : Agree tk i0 i1 n

variable {tk} {limit0 limit1 i0 i1 : Nat}

theorem Common.mono {m n : Nat} (common : Common tk limit0 limit1 i0 i1 n) (le : m ≤ n) :
    Common tk limit0 limit1 i0 i1 m where
  inside0 := by have := common.inside0; omega
  inside1 := by have := common.inside1; omega
  apart := by have := common.apart; omega
  agree := common.agree.mono le

theorem agree_succ {n : Nat} : Agree tk i0 i1 (n + 1) ↔
    Agree tk i0 i1 n ∧ tk (i0 + n) = tk (i1 + n) := by
  constructor
  · intro agree
    exact ⟨agree.mono (Nat.le_succ n), agree n (Nat.lt_succ_self n)⟩
  · rintro ⟨agree, last⟩ k less
    rcases Nat.lt_succ_iff_lt_or_eq.1 less with before | rfl
    · exact agree k before
    · exact last

theorem backwards_eq_zero_iff (cnt : Nat) :
    backwards tk cnt (i0 + cnt - 1) (i1 + cnt - 1) = 0 ↔ Agree tk i0 i1 cnt := by
  induction cnt with
  | zero => exact ⟨fun _ k none_ => absurd none_ (Nat.not_lt_zero k), fun _ => rfl⟩
  | succ cnt ih =>
      rw [backwards, agree_succ, ← ih]
      by_cases same : tk (i0 + cnt) = tk (i1 + cnt)
      · simp [← Nat.add_assoc, same]
      · simp [← Nat.add_assoc, same]

/-- Extending ends with the longest common run. -/
theorem forwards_longest {n : Nat} (common : Common tk limit0 limit1 i0 i1 n) :
    let size := forwards tk limit1 (limit0 - (i0 + n)) (i0 + n) (i1 + n) n
    n ≤ size ∧ Common tk limit0 limit1 i0 i1 size ∧
      ∀ m, Common tk limit0 limit1 i0 i1 m → m ≤ size := by
  induction left : limit0 - (i0 + n) generalizing n with
  | zero =>
      rw [forwards]
      refine ⟨Nat.le_refl n, common, fun m longer => ?_⟩
      have := longer.inside0
      have := common.inside0
      omega
  | succ room ih =>
      rw [forwards]
      by_cases more : i1 + n < limit1 ∧ i0 + n + n < i1 + n ∧ tk (i0 + n) = tk (i1 + n)
      · rw [if_pos more]
        obtain ⟨inside1, apart, same⟩ := more
        have next : Common tk limit0 limit1 i0 i1 (n + 1) :=
          ⟨by omega, by omega, by omega, agree_succ.2 ⟨common.agree, same⟩⟩
        have longer := ih next (by omega)
        simp only [← Nat.add_assoc] at longer
        obtain ⟨le, longest⟩ := longer
        exact ⟨by omega, longest⟩
      · rw [if_neg more]
        refine ⟨Nat.le_refl n, common, fun m longer => ?_⟩
        by_contra less
        have next := longer.mono (show n + 1 ≤ m by omega)
        have := next.inside1
        have := next.apart
        exact more ⟨by omega, by omega, (agree_succ.1 next.agree).2⟩

theorem candidate_cases (tk : Nat → Token) (limit0 limit1 i0 i1 : Nat) {minSize : Nat}
    (positive : 0 < minSize) :
    (candidate tk limit0 limit1 i0 i1 minSize = 0 ∧
        ¬ Common tk limit0 limit1 i0 i1 minSize) ∨
      minSize ≤ candidate tk limit0 limit1 i0 i1 minSize ∧
        Common tk limit0 limit1 i0 i1 (candidate tk limit0 limit1 i0 i1 minSize) ∧
        ∀ m, Common tk limit0 limit1 i0 i1 m → m ≤ candidate tk limit0 limit1 i0 i1 minSize := by
  rw [candidate]
  by_cases room : i0 + minSize - 1 < limit0 ∧ i1 + minSize - 1 < limit1 ∧
      i0 + minSize - 1 + minSize ≤ i1 + minSize - 1 ∧
      backwards tk minSize (i0 + minSize - 1) (i1 + minSize - 1) = 0
  · obtain ⟨inside0, inside1, apart, same⟩ := id room
    have common : Common tk limit0 limit1 i0 i1 minSize :=
      ⟨by omega, by omega, by omega, (backwards_eq_zero_iff minSize).1 same⟩
    rw [if_pos room]
    exact Or.inr (forwards_longest common)
  · rw [if_neg room]
    refine Or.inl ⟨rfl, fun common => room ⟨?_, ?_, ?_, ?_⟩⟩
    · have := common.inside0
      omega
    · have := common.inside1
      omega
    · have := common.apart
      omega
    · exact (backwards_eq_zero_iff minSize).2 common.agree

end Try

/-! ## All tries -/

section Lcs

variable (minRunSize : Nat) (c : Corpus) (references : Nat → Nat)

/-- `Forward_Reference(i)`. -/
def forwardReference (i : Nat) : Except String Nat :=
  if i = 0 ∨ c.length ≤ i then .error "internal error, bad forward reference"
  else .ok (references i)

/-- `while (i1 >= txt1->tx_limit) txt1++;`, with so many texts behind `txt1`. -/
def bump (i1 : Nat) : Nat → Nat → Nat
  | 0, txt1 => txt1
  | behind + 1, txt1 => if (c.text txt1).txLimit ≤ i1 then bump i1 behind (txt1 + 1) else txt1

/-- The variables of `lcs`; `txBest` and `iBest` mean something where `sizeBest` is not 0. -/
structure Lcs where
  txt1 : Nat
  i1 : Nat
  sizeBest : Nat
  txBest : Nat
  iBest : Nat
  deriving DecidableEq

def Lcs.minSize (s : Lcs) : Nat := if s.sizeBest ≠ 0 then s.sizeBest + 1 else minRunSize

/-- The body of the loop, for a position in range. -/
def Lcs.consider (limit0 i0 : Nat) (s : Lcs) : Lcs :=
  let txt1 := bump c s.i1 (c.texts.length - s.txt1) s.txt1
  let newSize := candidate c.tk limit0 (c.text txt1).txLimit i0 s.i1 (s.minSize minRunSize)
  if minRunSize ≤ newSize ∧ s.sizeBest < newSize then
    { s with txt1 := txt1, sizeBest := newSize, txBest := txt1, iBest := s.i1 }
  else { s with txt1 := txt1 }

def lcsTurn (limit0 i0 iFirst iLimit : Nat) (s : Lcs) : Option (Pass Lcs (Except String Lcs)) :=
  if s.i1 = 0 ∨ iLimit ≤ s.i1 then some (.done (.ok s))
  else
    match forwardReference c references s.i1 with
    | .error msg => some (.done (.error msg))
    | .ok next =>
        if s.i1 < iFirst then some (.again { s with i1 := next })
        else some (.again { s.consider minRunSize c limit0 i0 with i1 := next })

/-- `lcs(txt0, i0, i_first, i_limit, &txt_best, &i_best)`; `none` where the loop does not
end. -/
def lcs (txt0 i0 iFirst iLimit : Nat) : Option (Except String Lcs) :=
  run (lcsTurn minRunSize c references (c.text txt0).txLimit i0 iFirst iLimit) (c.length + 1)
    { txt1 := txt0, i1 := i0, sizeBest := 0, txBest := 0, iBest := 0 }

end Lcs

/-! ## The plain search -/

section Plain

variable {minRunSize : Nat} {c : Corpus}

/-- Position `p` lies in `Text[n]`. -/
structure Inside (c : Corpus) (n p : Nat) : Prop where
  is : n < c.texts.length
  after : (c.text n).txStart ≤ p
  before : p < (c.text n).txLimit

theorem Inside.mono {m n p q : Nat} (inside : Inside c m p) (inside' : Inside c n q)
    (le : p ≤ q) : m ≤ n := by
  by_contra less
  have := Corpus.text_apart (show n < m by omega) inside.is
  have := inside.after
  have := inside'.before
  omega

theorem Inside.unique {m n p : Nat} (inside : Inside c m p) (inside' : Inside c n p) : m = n :=
  Nat.le_antisymm (inside.mono inside' (Nat.le_refl p)) (inside'.mono inside (Nat.le_refl p))

theorem Inside.start {n p : Nat} (inside : Inside c n p)
    (room : p + minRunSize ≤ (c.text n).txLimit) : Start minRunSize c p :=
  ⟨c.text n, Corpus.text_mem inside.is, inside.after, room⟩

theorem Start.inside {p : Nat} (start : Start minRunSize c p) (positive : 0 < minRunSize) :
    ∃ n, Inside c n p := by
  obtain ⟨t, member, after, before⟩ := start
  obtain ⟨n, is, rfl⟩ := List.getElem_of_mem member
  have text : c.text n = c.texts[n] := by
    simp only [Corpus.text, List.getD_eq_getElem?_getD, List.getElem?_eq_getElem is,
      Option.getD_some]
  exact ⟨n, is, by rw [text]; exact after, by rw [text]; omega⟩

/-- From `txt1` on, the loop stops at the text of the position. -/
theorem bump_eq {i1 txt1 n : Nat} (inside : Inside c n i1) (le : txt1 ≤ n) {behind : Nat}
    (enough : n - txt1 ≤ behind) : bump c i1 behind txt1 = n := by
  induction behind generalizing txt1 with
  | zero =>
      rw [bump]
      omega
  | succ behind ih =>
      rw [bump]
      rcases Nat.lt_or_eq_of_le le with less | rfl
      · have := Corpus.text_apart less inside.is
        have := inside.after
        rw [if_pos (by omega)]
        exact ih less (by omega)
      · have := inside.before
        rw [if_neg (by omega)]

/-- A run common to position `i0` of text `txt0` and a position in the range. -/
structure Shared (c : Corpus) (txt0 i0 iFirst iLimit : Nat) (n j size : Nat) : Prop where
  first : iFirst ≤ j
  limit : j < iLimit
  inside : Inside c n j
  common : Common c.tk (c.text txt0).txLimit (c.text n).txLimit i0 j size

/-- What the plain search over all positions in range answers: the first of the longest
runs, or none. -/
structure Plain (minRunSize : Nat) (c : Corpus) (txt0 i0 iFirst iLimit : Nat) (s : Lcs) : Prop where
  longest : ∀ n j size, Shared c txt0 i0 iFirst iLimit n j size → minRunSize ≤ size →
    size ≤ s.sizeBest
  none_ : s.sizeBest = 0 ∨ minRunSize ≤ s.sizeBest
  found : s.sizeBest ≠ 0 → Shared c txt0 i0 iFirst iLimit s.txBest s.iBest s.sizeBest
  first : s.sizeBest ≠ 0 → ∀ n j, j < s.iBest → ¬ Shared c txt0 i0 iFirst iLimit n j s.sizeBest

end Plain

/-! ## The optimised search -/

section Optimised

variable {minRunSize : Nat} {c : Corpus} {references : Nat → Nat} {size : Nat}
variable {txt0 i0 iFirst iLimit : Nat}

theorem Shared.start {n j size : Nat} (shared : Shared c txt0 i0 iFirst iLimit n j size)
    (le : minRunSize ≤ size) : Start minRunSize c j :=
  shared.inside.start (by have := shared.common.inside1; omega)

/-- What holds before each turn: the positions before `i1` have been tried. -/
structure Tried (minRunSize : Nat) (c : Corpus) (references : Nat → Nat)
    (txt0 i0 iFirst iLimit : Nat) (s : Lcs) : Prop where
  chain : s.i1 ≠ 0 → Reaches references i0 s.i1
  behind : ∀ n, Inside c n s.i1 → s.txt1 ≤ n
  longest : ∀ n j size, Shared c txt0 i0 iFirst iLimit n j size → minRunSize ≤ size →
    (s.i1 ≠ 0 → j < s.i1) → size ≤ s.sizeBest
  none_ : s.sizeBest = 0 ∨ minRunSize ≤ s.sizeBest
  found : s.sizeBest ≠ 0 → Shared c txt0 i0 iFirst iLimit s.txBest s.iBest s.sizeBest
  first : s.sizeBest ≠ 0 → ∀ n j, j < s.iBest → ¬ Shared c txt0 i0 iFirst iLimit n j s.sizeBest

theorem Tried.plain {s : Lcs} (tried : Tried minRunSize c references txt0 i0 iFirst iLimit s)
    (ended : s.i1 = 0 ∨ iLimit ≤ s.i1) : Plain minRunSize c txt0 i0 iFirst iLimit s where
  longest := by
    intro n j size shared le
    refine tried.longest n j size shared le fun still => ?_
    have := shared.limit
    omega
  none_ := tried.none_
  found := tried.found
  first := tried.first

/-- Nothing is shared between one position on the chain and the next. -/
theorem le_of_skipped (referenced : Referenced minRunSize c references size)
    (positive : 0 < minRunSize) (here : Start minRunSize c i0) {i n j len : Nat}
    (reaches : Reaches references i0 i) (shared : Shared c txt0 i0 iFirst iLimit n j len)
    (le : minRunSize ≤ len) (before : references i ≠ 0 → j < references i) : j ≤ i := by
  by_contra after
  have next := Links.between referenced (sameCodes_equivalence size) here reaches
    (shared.start le) (sameCodes_of_agree positive (shared.common.agree.mono le)) (by omega)
  have := before next.1
  omega

theorem Lcs.minSize_pos (positive : 0 < minRunSize) (s : Lcs) : 0 < s.minSize minRunSize := by
  simp only [Lcs.minSize]
  split <;> omega

/-- What a turn makes of the best run so far. -/
theorem consider_cases (txt0 i0 : Nat) {s : Lcs} (positive : 0 < minRunSize)
    (none_ : s.sizeBest = 0 ∨ minRunSize ≤ s.sizeBest) {n : Nat} (inside : Inside c n s.i1)
    (behind : s.txt1 ≤ n) :
    (s.consider minRunSize c (c.text txt0).txLimit i0 = { s with txt1 := n } ∧
      ∀ len, minRunSize ≤ len →
        Common c.tk (c.text txt0).txLimit (c.text n).txLimit i0 s.i1 len → len ≤ s.sizeBest) ∨
    ∃ len, s.consider minRunSize c (c.text txt0).txLimit i0 =
        { s with txt1 := n, sizeBest := len, txBest := n, iBest := s.i1 } ∧
      minRunSize ≤ len ∧ s.sizeBest < len ∧
      Common c.tk (c.text txt0).txLimit (c.text n).txLimit i0 s.i1 len ∧
      ∀ m, Common c.tk (c.text txt0).txLimit (c.text n).txLimit i0 s.i1 m → m ≤ len := by
  have text : bump c s.i1 (c.texts.length - s.txt1) s.txt1 = n :=
    bump_eq inside behind (by have := inside.is; omega)
  have minSize : s.minSize minRunSize = if s.sizeBest ≠ 0 then s.sizeBest + 1 else minRunSize := rfl
  simp only [Lcs.consider, text]
  rcases candidate_cases c.tk (c.text txt0).txLimit (c.text n).txLimit i0 s.i1
      (s.minSize_pos positive) with
    ⟨zero, none_better⟩ | ⟨enough, common, longest⟩
  · refine Or.inl ⟨?_, fun len le common => ?_⟩
    · rw [zero, if_neg (by omega)]
    · by_contra better
      refine none_better (common.mono ?_)
      rw [minSize]
      split <;> omega
  · have least : minRunSize ≤ s.minSize minRunSize ∧ s.sizeBest < s.minSize minRunSize := by
      rw [minSize]
      split <;> omega
    rw [if_pos ⟨Nat.le_trans least.1 enough, Nat.lt_of_lt_of_le least.2 enough⟩]
    exact Or.inr ⟨_, rfl, Nat.le_trans least.1 enough, Nat.lt_of_lt_of_le least.2 enough, common,
      longest⟩

variable (referenced : Referenced minRunSize c references size) (positive : 0 < minRunSize)

include referenced positive in
/-- A turn of the loop tries the position and goes on to the next one. -/
theorem Tried.next (here : Start minRunSize c i0) {s : Lcs}
    (tried : Tried minRunSize c references txt0 i0 iFirst iLimit s) (still : s.i1 ≠ 0)
    (inRange : s.i1 < iLimit) :
    Tried minRunSize c references txt0 i0 iFirst iLimit
      (if s.i1 < iFirst then { s with i1 := references s.i1 }
        else { s.consider minRunSize c (c.text txt0).txLimit i0 with i1 := references s.i1 }) := by
  have reaches := tried.chain still
  have start : Start minRunSize c s.i1 := by
    have or_start := Links.of_reaches referenced (sameCodes_equivalence size) reaches
    rcases or_start with same | ⟨-, start, -⟩
    · rwa [same]
    · exact start
  obtain ⟨n, inside⟩ := start.inside positive
  have behind := tried.behind n inside
  have chain (linked : references s.i1 ≠ 0) : Reaches references i0 (references s.i1) :=
    reaches.snoc linked
  have later {m : Nat} (inside' : Inside c m (references s.i1)) : n ≤ m := by
    refine inside.mono inside' ?_
    by_cases linked : references s.i1 = 0
    · have := inside'.after
      have := Corpus.text_positive inside'.is
      omega
    · exact Nat.le_of_lt (Links.sound referenced s.i1 linked).2.2.1
  by_cases out : s.i1 < iFirst
  · rw [if_pos out]
    refine ⟨chain, fun m inside' => Nat.le_trans behind (later inside'), ?_, tried.none_,
      tried.found, tried.first⟩
    intro m j len shared le before
    have tried_ := le_of_skipped referenced positive here reaches shared le before
    refine tried.longest m j len shared le fun _ => ?_
    have := shared.first
    omega
  · rw [if_neg out]
    rcases consider_cases txt0 i0 positive tried.none_ inside behind with
      ⟨same, longest⟩ | ⟨len, better, enough, above, common, longest⟩
    · rw [same]
      refine ⟨chain, fun m inside' => later inside', ?_, tried.none_, tried.found, tried.first⟩
      intro m j len shared le before
      rcases Nat.lt_or_eq_of_le
        (le_of_skipped referenced positive here reaches shared le before) with before' | rfl
      · exact tried.longest m j len shared le fun _ => before'
      · obtain rfl := shared.inside.unique inside
        exact longest len le shared.common
    · rw [better]
      refine ⟨chain, fun m inside' => later inside', ?_, Or.inr enough,
        fun _ => ⟨Nat.le_of_not_lt out, inRange, inside, common⟩, ?_⟩
      · intro m j size shared le before
        rcases Nat.lt_or_eq_of_le
          (le_of_skipped referenced positive here reaches shared le before) with before' | rfl
        · have := tried.longest m j size shared le fun _ => before'
          simp only
          omega
        · obtain rfl := shared.inside.unique inside
          exact longest size shared.common
      · intro _ m j before shared
        have := tried.longest m j len shared enough fun _ => before
        omega

include referenced positive in
theorem lcs_plain (inside : Inside c txt0 i0) (room : i0 + minRunSize ≤ (c.text txt0).txLimit)
    (iFirst iLimit : Nat) :
    ∃ s, lcs minRunSize c references txt0 i0 iFirst iLimit = some (.ok s) ∧
      Plain minRunSize c txt0 i0 iFirst iLimit s := by
  have here := inside.start room
  have progress : ∃ r, lcs minRunSize c references txt0 i0 iFirst iLimit = some r ∧
      ∃ s, r = .ok s ∧ Plain minRunSize c txt0 i0 iFirst iLimit s := by
    refine run_of_progress (Tried minRunSize c references txt0 i0 iFirst iLimit) _
      (fun s => if s.i1 = 0 then 0 else c.length - s.i1) (fun s tried => ?_) ?_ ?_
    · rw [lcsTurn]
      by_cases ended : s.i1 = 0 ∨ iLimit ≤ s.i1
      · rw [if_pos ended]
        exact Or.inl ⟨_, rfl, s, rfl, tried.plain ended⟩
      rw [if_neg ended]
      have still : s.i1 ≠ 0 := fun zero => ended (Or.inl zero)
      have start : Start minRunSize c s.i1 := by
        rcases Links.of_reaches referenced (sameCodes_equivalence size) (tried.chain still) with
          same | ⟨-, start, -⟩
        · rwa [same]
        · exact start
      have within := start.within
      have next := tried.next referenced positive here still (by omega)
      have good : forwardReference c references s.i1 = .ok (references s.i1) :=
        if_neg (by omega)
      refine Or.inr ⟨_, ?_, next, ?_⟩
      · rw [good]
        by_cases out : s.i1 < iFirst
        · simp only [if_pos out]
        · simp only [if_neg out]
      · have further (linked : references s.i1 ≠ 0) := (Links.sound referenced s.i1 linked).2.2.1
        have at_ : (if s.i1 < iFirst then { s with i1 := references s.i1 }
            else { s.consider minRunSize c (c.text txt0).txLimit i0 with
              i1 := references s.i1 }).i1 = references s.i1 := by
          split <;> rfl
        rw [at_, if_neg still]
        split <;> omega
    · exact {
        chain := fun _ => .here i0
        behind := fun n inside' => inside.mono inside' (Nat.le_refl i0)
        longest := by
          intro n j size shared le before
          have := shared.common.apart
          have before' : j < i0 := before (Nat.ne_of_gt here.positive)
          omega
        none_ := Or.inl rfl
        found := fun no => absurd rfl no
        first := fun no => absurd rfl no }
    · split <;> omega
  obtain ⟨r, ended, s, rfl, plain⟩ := progress
  exact ⟨s, ended, plain⟩

end Optimised

/-- Whatever the size of the hash table, at any position where a run can start and for any range
the search ends, and its answer is that of the plain one. -/
theorem lcs_made {minRunSize : Nat} (positive : 0 < minRunSize) {c : Corpus}
    {tryCalloc : Nat → Bool} (obtained : (initHashTable tryCalloc c.length).isSome) :
    ∃ references, makeForwardReferences minRunSize c tryCalloc = pure references ∧
      ∀ txt0 i0, Inside c txt0 i0 → i0 + minRunSize ≤ (c.text txt0).txLimit →
        ∀ iFirst iLimit, ∃ s, lcs minRunSize c references txt0 i0 iFirst iLimit = some (.ok s) ∧
          Plain minRunSize c txt0 i0 iFirst iLimit s := by
  obtain ⟨size, obtained⟩ := Option.isSome_iff_exists.1 obtained
  obtain ⟨references, made, referenced⟩ := makeForwardReferences_links positive obtained
  exact ⟨references, made, fun txt0 i0 inside room iFirst iLimit =>
    lcs_plain referenced positive inside room iFirst iLimit⟩

theorem Sample.lcs_made_sample : ∃ references,
    makeForwardReferences 8 Sample.corpus (fun _ => true) = pure references ∧
      ∃ s, lcs 8 Sample.corpus references 0 1 9 18 = some (.ok s) ∧
        Plain 8 Sample.corpus 0 1 9 18 s := by
  obtain ⟨references, made, searched⟩ := lcs_made (c := Sample.corpus) (show 0 < 8 by decide)
    (initHashTable_isSome (fun _ => rfl) _)
  have bounds := readInputFiles_bounds [] [.file (Sample.lines 9)] (.file (Sample.lines 8))
  simp only [Text.bounds, Arg.words, Sample.words_lines, List.length_replicate,
    Prod.mk.injEq] at bounds
  have start : (Sample.corpus.text 0).txStart = 1 := bounds.1
  have limit : (Sample.corpus.text 0).txLimit = 9 := bounds.2
  have is : 0 < Sample.corpus.texts.length := by
    rw [Sample.corpus, readInputFiles, pass1_length]
    decide
  exact ⟨references, made, searched 0 1 ⟨is, by omega, by omega⟩ (by omega) 9 18⟩

end RunServer.Sim
