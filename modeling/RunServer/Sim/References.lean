/-
# Sim.References -- the forward references

For every position at which a run of `Min_Run_Size` tokens can start inside a text,
`forward_reference` gives the next one with the same hash code, and 0 where there is none.
`hash1` codes index the table `last_index`, the size of which depends on the memory there
is; `hash2` codes weed out what has met in that table by chance.  Both look at samples
of the run only.

* `makeForwardReferences_links`: the table comes to be for every size of `last_index`, and is
  the one table of `Theory.Chains` that links each start to the next one with equal codes;
* `makeForwardReferences_chains`: so from a start, the chain meets every later start of the same
  `Min_Run_Size` tokens; and two chains never touch, as the source says where it debugs them.
-/
import Mathlib.Data.List.Basic
import RunServer.Sim.Texts
import RunServer.Theory.Chains

namespace RunServer.Sim

open RunServer.Theory.Chains

set_option autoImplicit false

/-- The same tokens from `i` and from `j`, for `n` of them. -/
def Agree (tk : Nat → Token) (i j n : Nat) : Prop := ∀ k < n, tk (i + k) = tk (j + k)

theorem Agree.mono {tk : Nat → Token} {i j m n : Nat} (agree : Agree tk i j n) (le : m ≤ n) :
    Agree tk i j m := fun k less => agree k (by omega)

/-- `May_Be_Start_Of_Run` of `textlang.l`: any token is acceptable. -/
def mayBeStartOfRun (_ : Token) : Bool := true

/-- `Best_Run_Size` of `textlang.l`: any run size is acceptable. -/
def bestRunSize (_ : Nat → Token) (_ size : Nat) : Nat := size

/-! ## Hashing -/

section Hashing

variable (minRunSize : Nat) (tk : Nat → Token)

def nSamples : Nat := 24

def samplePos (n : Nat) : Nat :=
  (2 * n * (minRunSize - 1) + (nSamples - 1)) / (2 * (nSamples - 1))

/-- The 31 right-most bits are shifted in a circle. -/
def shifted (hVal : UInt32) : UInt32 :=
  if hVal <<< 1 &&& (1 : UInt32) <<< 31 ≠ 0 then hVal <<< 1 ^^^ ((1 : UInt32) <<< 31 ||| 1)
  else hVal <<< 1

/-- `hash1(&Token_Array[p])`. -/
def hash1 (p : Nat) : UInt32 :=
  (List.range nSamples).foldl
    (fun hVal n => shifted hVal ^^^ (tk (p + samplePos minRunSize n)).toUInt32) 0

def extractToken (p pos : Nat) : UInt64 := (tk (p + samplePos minRunSize pos)).toUInt64

/-- `hash2(&Token_Array[p])`; the shifts are fifths of the 64 bits of a `vlong_uint`. -/
def hash2 (p : Nat) : UInt64 :=
  extractToken minRunSize tk p 0 ^^^ extractToken minRunSize tk p 23 <<< 12 ^^^
    extractToken minRunSize tk p 11 <<< 25 ^^^ extractToken minRunSize tk p 5 <<< 38 ^^^
    extractToken minRunSize tk p 17 <<< 51

variable {minRunSize tk}

theorem samplePos_lt {n : Nat} (positive : 0 < minRunSize) (sample : n < nSamples) :
    samplePos minRunSize n < minRunSize := by
  simp only [samplePos, nSamples] at sample ⊢
  have scaled : n * (minRunSize - 1) ≤ 23 * (minRunSize - 1) := Nat.mul_le_mul_right _ (by omega)
  rw [Nat.div_lt_iff_lt_mul (by decide), Nat.mul_assoc]
  omega

variable {i j : Nat}

theorem sample_of_agree (positive : 0 < minRunSize) (agree : Agree tk i j minRunSize) {n : Nat}
    (sample : n < nSamples) : tk (i + samplePos minRunSize n) = tk (j + samplePos minRunSize n) :=
  agree _ (samplePos_lt positive sample)

theorem hash1_of_agree (positive : 0 < minRunSize) (agree : Agree tk i j minRunSize) :
    hash1 minRunSize tk i = hash1 minRunSize tk j := by
  refine List.foldl_ext _ _ _ fun hVal n member => ?_
  rw [sample_of_agree positive agree (List.mem_range.1 member)]

theorem hash2_of_agree (positive : 0 < minRunSize) (agree : Agree tk i j minRunSize) :
    hash2 minRunSize tk i = hash2 minRunSize tk j := by
  have sample {n : Nat} (less : n < nSamples) :
      extractToken minRunSize tk i n = extractToken minRunSize tk j n :=
    congrArg UInt16.toUInt64 (sample_of_agree positive agree less)
  simp only [hash2, sample (show 0 < nSamples by decide), sample (show 23 < nSamples by decide),
    sample (show 11 < nSamples by decide), sample (show 5 < nSamples by decide),
    sample (show 17 < nSamples by decide)]

end Hashing

/-! ## The hash table -/

def prime : List Nat :=
  [14051, 28111, 56239, 112507, 225023, 450067, 900139, 1800311, 3600659, 7201351, 14402743,
    28805519, 57611039, 115222091, 230444239, 460888499, 921777067, 1843554151, 3687108307,
    7374216631, 14748433279, 29496866579, 58993733159, 117987466379, 235974932759,
    471949865531, 943899731087]

/-- The size of `last_index`: the first prime that is not below the length of the token
array, or the next smaller one for which there is memory; `none` is
`fatal("out of memory")`. -/
def initHashTable (tryCalloc : Nat → Bool) (tokenArrayLength : Nat) : Option Nat :=
  ((prime.take ((prime.takeWhile (· < tokenArrayLength)).length + 1)).reverse).find? tryCalloc

theorem initHashTable_isSome {tryCalloc : Nat → Bool} (enough : ∀ size, tryCalloc size = true)
    (tokenArrayLength : Nat) : (initHashTable tryCalloc tokenArrayLength).isSome := by
  have first : 14051 ∈ prime.take ((prime.takeWhile (· < tokenArrayLength)).length + 1) :=
    List.mem_cons_self
  exact List.find?_isSome.2 ⟨14051, List.mem_reverse.2 first, enough _⟩

/-! ## The references -/

section References

variable (minRunSize : Nat) (c : Corpus)

/-- `for (j = txt->tx_start; j + Min_Run_Size - 1 < txt->tx_limit; j++)`. -/
def Text.positions (t : Text) : List Nat :=
  List.range' t.txStart (t.txLimit - (minRunSize - 1) - t.txStart)

/-- The index in `last_index`. -/
def hashIndex (size p : Nat) : Nat := (hash1 minRunSize c.tk p).toNat % size

def makeForwardReferencesHash1 (size : Nat) : Nat → Nat :=
  (c.texts.foldl (fun table txt => (txt.positions minRunSize).foldl
    (fun table j => if mayBeStartOfRun (c.tk j) then table.enter (hashIndex minRunSize c size) j
      else table) table) empty).next

/-- `for (i = 0; i+Min_Run_Size < Token_Array_Length(); i++)`; `none` where a search in it
does not end. -/
def cleanForwardReferencesHash2 (references : Nat → Nat) : Option (Nat → Nat) :=
  clean (hash2 minRunSize c.tk) (c.length + 1) (c.length - minRunSize) references

/-- `Make_Forward_References`. -/
def makeForwardReferences (tryCalloc : Nat → Bool) : ExceptT String Option (Nat → Nat) :=
  match initHashTable tryCalloc c.length with
  | none => throw "out of memory"
  | some size =>
      ExceptT.lift (cleanForwardReferencesHash2 minRunSize c
        (makeForwardReferencesHash1 minRunSize c size))

/-- A run of `Min_Run_Size` tokens can start here. -/
def Start (p : Nat) : Prop :=
  ∃ t ∈ c.texts, t.txStart ≤ p ∧ p + minRunSize ≤ t.txLimit

def SameCodes (size i j : Nat) : Prop :=
  hashIndex minRunSize c size i = hashIndex minRunSize c size j ∧
    hash2 minRunSize c.tk i = hash2 minRunSize c.tk j

/-- What the references are. -/
def Referenced (references : Nat → Nat) (size : Nat) : Prop :=
  Links (Start minRunSize c) (SameCodes minRunSize c size) references

variable {minRunSize c}

theorem sameCodes_equivalence (size : Nat) : Equivalence (SameCodes minRunSize c size) where
  refl := fun _ => ⟨rfl, rfl⟩
  symm := fun same => ⟨same.1.symm, same.2.symm⟩
  trans := fun same same' => ⟨same.1.trans same'.1, same.2.trans same'.2⟩

theorem mem_positions (positive : 0 < minRunSize) {t : Text} {p : Nat} :
    p ∈ t.positions minRunSize ↔ t.txStart ≤ p ∧ p + minRunSize ≤ t.txLimit := by
  rw [Text.positions, List.mem_range'_1]
  omega

theorem mem_flatMap_positions (positive : 0 < minRunSize) {p : Nat} :
    p ∈ c.texts.flatMap (Text.positions minRunSize) ↔ Start minRunSize c p := by
  simp only [List.mem_flatMap, mem_positions positive, Start]

theorem positions_sorted (positive : 0 < minRunSize) :
    (c.texts.flatMap (Text.positions minRunSize)).Pairwise (· < ·) := by
  rw [List.pairwise_flatMap]
  refine ⟨fun t _ => List.pairwise_lt_range', c.laid.apart.imp fun apart p here q there => ?_⟩
  rw [mem_positions positive] at here there
  omega

theorem Start.positive {p : Nat} (start : Start minRunSize c p) : 0 < p := by
  obtain ⟨t, member, after, -⟩ := start
  have := c.laid.positive t member
  omega

theorem Start.within {p : Nat} (start : Start minRunSize c p) : p + minRunSize ≤ c.length := by
  obtain ⟨t, member, -, before⟩ := start
  have := c.laid.within t member
  simp only [Corpus.length]
  omega

theorem makeForwardReferencesHash1_eq (size : Nat) :
    makeForwardReferencesHash1 minRunSize c size =
      (thread (hashIndex minRunSize c size)
        (c.texts.flatMap (Text.positions minRunSize))).next := by
  rw [makeForwardReferencesHash1, thread, List.foldl_flatMap]
  rfl

theorem makeForwardReferencesHash1_links (positive : 0 < minRunSize) (size : Nat) :
    Links (Start minRunSize c)
      (fun i j => hashIndex minRunSize c size i = hashIndex minRunSize c size j)
      (makeForwardReferencesHash1 minRunSize c size) := by
  have starts : (· ∈ c.texts.flatMap (Text.positions minRunSize)) = Start minRunSize c :=
    funext fun p => propext (mem_flatMap_positions positive)
  rw [makeForwardReferencesHash1_eq, ← starts]
  exact thread_links (positions_sorted positive) fun p member =>
    ((mem_flatMap_positions positive).1 member).positive

/-- Whatever the size of the hash table, the references come to be, and are all there. -/
theorem makeForwardReferences_links (positive : 0 < minRunSize) {tryCalloc : Nat → Bool}
    {size : Nat} (obtained : initHashTable tryCalloc c.length = some size) :
    ∃ references, makeForwardReferences minRunSize c tryCalloc = pure references ∧
      Referenced minRunSize c references size := by
  have links := makeForwardReferencesHash1_links (c := c) positive size
  have equiv : Equivalence fun i j =>
      hashIndex minRunSize c size i = hashIndex minRunSize c size j :=
    ⟨fun _ => rfl, Eq.symm, Eq.trans⟩
  have bounded (j : Nat) (start : Start minRunSize c j) : j < c.length := by
    have := start.within
    omega
  have past (i : Nat) (after : c.length - minRunSize ≤ i) :
      makeForwardReferencesHash1 minRunSize c size i = 0 := by
    by_contra linked
    obtain ⟨-, start, further, -⟩ := links.sound i linked
    have := start.within
    omega
  obtain ⟨references, swept, refined⟩ :=
    clean_links (hash2 minRunSize c.tk) links equiv bounded past
  have made : makeForwardReferences minRunSize c tryCalloc = pure references := by
    have swept' : cleanForwardReferencesHash2 minRunSize c
        (makeForwardReferencesHash1 minRunSize c size) = some references := swept
    rw [makeForwardReferences, obtained]
    simp only [swept']
    rfl
  exact ⟨references, made, refined⟩

variable {references : Nat → Nat} {size : Nat}

theorem sameCodes_of_agree (positive : 0 < minRunSize) {i j : Nat}
    (agree : Agree c.tk i j minRunSize) : SameCodes minRunSize c size i j := by
  refine ⟨?_, hash2_of_agree positive agree⟩
  rw [hashIndex, hashIndex, hash1_of_agree positive agree]

theorem Referenced.reaches_of_agree (referenced : Referenced minRunSize c references size)
    (positive : 0 < minRunSize) {i j : Nat} (here : Start minRunSize c i)
    (there : Start minRunSize c j) (after : i ≤ j) (agree : Agree c.tk i j minRunSize) :
    Reaches references i j :=
  Links.reaches referenced (sameCodes_equivalence size) here there after
    (sameCodes_of_agree positive agree)

theorem Referenced.inj (referenced : Referenced minRunSize c references size) {i i' : Nat}
    (linked : references i ≠ 0) (meet : references i = references i') : i = i' :=
  Links.inj referenced (sameCodes_equivalence size) linked meet

/-- Whatever the size of the hash table, the references go up from start to start, no two end in
one place, and from a start all later starts of the same tokens are met. -/
theorem makeForwardReferences_chains (positive : 0 < minRunSize) {tryCalloc : Nat → Bool}
    (obtained : (initHashTable tryCalloc c.length).isSome) :
    ∃ references, makeForwardReferences minRunSize c tryCalloc = pure references ∧
      (∀ i, references i ≠ 0 →
        Start minRunSize c i ∧ Start minRunSize c (references i) ∧ i < references i) ∧
      (∀ i i', references i ≠ 0 → references i = references i' → i = i') ∧
      ∀ i j, Start minRunSize c i → Start minRunSize c j → i ≤ j →
        Agree c.tk i j minRunSize → Reaches references i j := by
  obtain ⟨size, obtained⟩ := Option.isSome_iff_exists.1 obtained
  obtain ⟨references, made, referenced⟩ := makeForwardReferences_links positive obtained
  refine ⟨references, made, fun i linked => ?_, fun i i' linked meet => ?_,
    fun i j here there after agree => ?_⟩
  · obtain ⟨here, there, further, -⟩ := Links.sound referenced i linked
    exact ⟨here, there, further⟩
  · exact referenced.inj linked meet
  · exact referenced.reaches_of_agree positive here there after agree

theorem Sample.makeForwardReferences_chains_sample : ∃ references,
    makeForwardReferences 8 Sample.corpus (fun _ => true) = pure references ∧
      ∀ i i', references i ≠ 0 → references i = references i' → i = i' := by
  obtain ⟨references, made, -, apart, -⟩ := makeForwardReferences_chains (c := Sample.corpus)
    (show 0 < 8 by decide) (initHashTable_isSome (fun _ => rfl) _)
  exact ⟨references, made, apart⟩

end References

end RunServer.Sim
