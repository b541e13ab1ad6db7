/-
# Sim.Words -- the text front end of the similarity tester

`textlang.l` cuts a file into words.  A word is a run of letters, digits and bytes from
128 on, or a run of single ones with one space between them that ends before some other
byte; line ends are reported; every other byte is skipped.  A word is hashed to a
token without regard to case, and without the spaces inside it.

* `idfHashed_range`: no word becomes `No_Token`, a regular token or `End_Of_Line`,
  although the hash wraps around in a 32-bit `int`; and all other tokens are those of words
  (`stream_range`);
* `stream_map_plain`: two files whose bytes have the same `plain` ones have the same tokens:
  neither case nor the kind of punctuation is seen;
* `stream_spaced`: a word whose letters stand apart is the token of the word, if what comes
  behind it is neither a letter nor a space;
* `count_stream`: one `End_Of_Line` is reported for each line end.
-/
import Mathlib.Data.List.TakeDrop
import Mathlib.Data.List.TakeWhile
import RunServer.Theory.Int32

namespace RunServer.Sim

open RunServer.Theory

set_option autoImplicit false

/-- `typedef unsigned short Token`. -/
abbrev Token := UInt16

def noToken : Token := 0

/-- `End_Of_Line`. -/
def endOfLine : Token := 0xFFFF

def nTokens : Nat := 65536

def nRegularTokens : Nat := 512

/-! ## `idf.c` -/

def HASH (h ch : Int) : Int := int32 (h * 8209 + ch * 613)

def raised (h : Int) : Int := if h < 0 then h + 2147483647 else h

/-- One turn of the loop of `idf_hashed`. -/
def hashTurn (h : Int) (ch : UInt8) : Int :=
  if ch = 32 then h else raised (HASH h ch.toNat)

/-- The `int` that `idf_hashed` makes a token of. -/
def hashed (str : List UInt8) : Int :=
  let h := str.foldl hashTurn 0
  (if h < 0 then 0 else h).tmod (nTokens - nRegularTokens - 1 : Nat) + nRegularTokens

def idfHashed (str : List UInt8) : Token := UInt16.ofNat (hashed str).toNat

def lowerCase (s : UInt8) : UInt8 := if 65 ≤ s.toNat ∧ s.toNat ≤ 90 then s + 32 else s

theorem raised_range {h : Int} (fits : Fits h) : -1 ≤ raised h ∧ raised h ≤ 2147483647 := by
  simp only [Fits] at fits
  simp only [raised]
  split <;> omega

/-- `-1 <= h <= 2^31-1`. -/
theorem hashTurn_range {h : Int} (ch : UInt8) (low : -1 ≤ h) (high : h ≤ 2147483647) :
    -1 ≤ hashTurn h ch ∧ hashTurn h ch ≤ 2147483647 := by
  simp only [hashTurn]
  split
  · exact ⟨low, high⟩
  · exact raised_range (int32_fits _)

theorem foldl_hashTurn_range (str : List UInt8) {h : Int} (low : -1 ≤ h) (high : h ≤ 2147483647) :
    -1 ≤ str.foldl hashTurn h ∧ str.foldl hashTurn h ≤ 2147483647 := by
  induction str generalizing h with
  | nil => exact ⟨low, high⟩
  | cons ch str ih =>
      have turn := hashTurn_range ch low high
      exact ih turn.1 turn.2

theorem hashed_range (str : List UInt8) :
    (nRegularTokens : Int) ≤ hashed str ∧ hashed str < nTokens - 1 := by
  have range := foldl_hashTurn_range str (h := 0) (by decide) (by decide)
  simp only [hashed, nTokens, nRegularTokens]
  generalize str.foldl hashTurn 0 = h at range
  have positive : 0 ≤ (if h < 0 then 0 else h) := by split <;> omega
  rw [Int.tmod_eq_emod_of_nonneg positive]
  omega

/-- No word is hashed to a regular token or to `End_Of_Line`. -/
theorem idfHashed_range (str : List UInt8) :
    nRegularTokens ≤ (idfHashed str).toNat ∧ (idfHashed str).toNat < endOfLine.toNat := by
  have range := hashed_range str
  have eol : endOfLine.toNat = 65535 := rfl
  simp only [idfHashed, UInt16.toNat_ofNat', eol]
  simp only [nTokens, nRegularTokens] at range ⊢
  omega

theorem idfHashed_ne_endOfLine (str : List UInt8) : idfHashed str ≠ endOfLine := by
  intro same
  have range := idfHashed_range str
  rw [same] at range
  omega

/-- Spaces in a word are not hashed. -/
theorem hashed_filter (str : List UInt8) : hashed (str.filter (· ≠ 32)) = hashed str := by
  have same (h : Int) : (str.filter (· ≠ 32)).foldl hashTurn h = str.foldl hashTurn h := by
    induction str generalizing h with
    | nil => rfl
    | cons ch str ih =>
        by_cases space : ch = 32
        · subst space
          rw [List.filter_cons_of_neg (by decide), List.foldl_cons, ih]
          rfl
        · rw [List.filter_cons_of_pos (by simpa using space), List.foldl_cons, List.foldl_cons, ih]
  simp only [hashed, same]

/-! ## `textlang.l` -/

/-- `WordElem ([a-zA-Z0-9\200-\377])`. -/
def wordElem (b : UInt8) : Bool :=
  (97 ≤ b.toNat && b.toNat ≤ 122) || (65 ≤ b.toNat && b.toNat ≤ 90) ||
    (48 ≤ b.toNat && b.toNat ≤ 57) || 128 ≤ b.toNat

/-- The length of the longest `{SpacedWord}` at the beginning that has a `{NonWordElem}`
behind it; 0 where there is none. -/
def spacedWord : List UInt8 → Nat
  | a :: b :: c :: rest =>
      if wordElem a ∧ b = 32 ∧ wordElem c then
        if spacedWord (c :: rest) ≠ 0 then spacedWord (c :: rest) + 2
        else if rest.head?.any (fun d => !wordElem d) then 3 else 0
      else 0
  | _ => 0

def word2token (word : List UInt8) : Token := idfHashed (word.map lowerCase)

/-- The token that the next rule returns, and what is left of the file.  A `{SpacedWord}`
goes before a `{TightWord}`, which is one byte long there (`tightWord_of_spacedWord`). -/
def yylex : List UInt8 → Option (Token × List UInt8)
  | [] => none
  | b :: s =>
      if spacedWord (b :: s) ≠ 0 then
        some (word2token ((b :: s).take (spacedWord (b :: s))),
          (b :: s).drop (spacedWord (b :: s)))
      else if wordElem b then
        some (word2token ((b :: s).takeWhile wordElem), (b :: s).dropWhile wordElem)
      else if b = 10 then some (endOfLine, s)
      else yylex s

theorem tightWord_of_spacedWord {s : List UInt8} (spaced : spacedWord s ≠ 0) :
    (s.takeWhile wordElem).length = 1 := by
  match s, spaced with
  | a :: b :: c :: rest, spaced =>
      rw [spacedWord] at spaced
      split at spaced
      · rename_i found
        obtain ⟨word, rfl, -⟩ := found
        rw [List.takeWhile_cons_of_pos word, List.takeWhile_cons_of_neg (by decide)]
        rfl
      · exact absurd rfl spaced

/-- What a `{SpacedWord}` is made of. -/
def InWord (b : UInt8) : Prop := wordElem b ∨ b = 32

theorem inWord_of_spacedWord (s : List UInt8) : ∀ b ∈ s.take (spacedWord s), InWord b := by
  induction s using spacedWord.induct with
  | case1 a b c rest found longer ih =>
      have eq : spacedWord (a :: b :: c :: rest) = spacedWord (c :: rest) + 2 := by
        rw [spacedWord, if_pos found, if_pos longer]
      obtain ⟨word, space, -⟩ := found
      intro d member
      rw [eq, List.take_succ_cons, List.take_succ_cons, List.mem_cons, List.mem_cons] at member
      rcases member with rfl | rfl | member
      · exact Or.inl word
      · exact Or.inr space
      · exact ih d member
  | case2 a b c rest found none_ ended =>
      obtain ⟨word, space, word'⟩ := found
      have eq : spacedWord (a :: b :: c :: rest) = 3 := by
        rw [spacedWord]
        simp_all
      intro d member
      rw [eq] at member
      simp only [List.take_succ_cons, List.take_zero, List.mem_cons, List.not_mem_nil,
        or_false] at member
      rcases member with rfl | rfl | rfl
      · exact Or.inl word
      · exact Or.inr space
      · exact Or.inl word'
  | case3 a b c rest found none_ goes =>
      have eq : spacedWord (a :: b :: c :: rest) = 0 := by
        rw [spacedWord]
        simp_all
      rw [eq]
      intro d member
      cases member
  | case4 a b c rest other =>
      rw [spacedWord, if_neg other]
      intro d member
      cases member
  | case5 s other =>
      have eq : spacedWord s = 0 := by
        rw [spacedWord]
        exact other
      rw [eq]
      intro d member
      cases member

/-- What a call of `yylex` that returns a token has read. -/
structure Lexed (s : List UInt8) (tk : Token) (rest : List UInt8) : Prop where
  cut : ∃ skipped taken, s = skipped ++ taken ++ rest ∧ (∀ b ∈ skipped, ¬ wordElem b ∧ b ≠ 10) ∧
    ((taken = [10] ∧ tk = endOfLine) ∨
      (taken ≠ [] ∧ (∀ b ∈ taken, InWord b) ∧ tk = word2token taken))

theorem lexed_of_yylex {s rest : List UInt8} {tk : Token} (lexed : yylex s = some (tk, rest)) :
    Lexed s tk rest := by
  induction s with
  | nil => cases lexed
  | cons b s ih =>
      rw [yylex] at lexed
      by_cases spaced : spacedWord (b :: s) ≠ 0
      · rw [if_pos spaced] at lexed
        cases lexed
        refine ⟨[], _, (List.take_append_drop _ _).symm, List.forall_mem_nil _,
          Or.inr ⟨?_, inWord_of_spacedWord _, rfl⟩⟩
        simp [spaced]
      rw [if_neg spaced] at lexed
      by_cases word : wordElem b
      · rw [if_pos word] at lexed
        cases lexed
        have inside (c : UInt8) (member : c ∈ (b :: s).takeWhile wordElem) : InWord c :=
          Or.inl (List.mem_takeWhile_imp member)
        refine ⟨[], (b :: s).takeWhile wordElem, List.takeWhile_append_dropWhile.symm,
          List.forall_mem_nil _, Or.inr ⟨?_, inside, rfl⟩⟩
        simp [word]
      rw [if_neg word] at lexed
      by_cases newline : b = 10
      · rw [if_pos newline] at lexed
        cases lexed
        exact ⟨[], [10], by simp [newline], List.forall_mem_nil _, Or.inl ⟨rfl, rfl⟩⟩
      · rw [if_neg newline] at lexed
        obtain ⟨skipped, taken, cut, skips, read⟩ := ih lexed
        refine ⟨b :: skipped, taken, by rw [cut]; rfl, fun c member => ?_, read⟩
        rcases List.mem_cons.1 member with rfl | member
        · exact ⟨word, newline⟩
        · exact skips c member

theorem yylex_shorter {s rest : List UInt8} {tk : Token} (lexed : yylex s = some (tk, rest)) :
    rest.length < s.length := by
  obtain ⟨skipped, taken, rfl, -, read⟩ := lexed_of_yylex lexed
  have read_some : 0 < taken.length := by
    rcases read with ⟨rfl, -⟩ | ⟨some_, -⟩
    · decide
    · exact List.length_pos_iff.2 some_
  simp only [List.length_append]
  omega

/-- What `Next_Stream_Token_Obtained` returns, call by call. -/
def stream (s : List UInt8) : List Token :=
  match _lexed : yylex s with
  | none => []
  | some (tk, rest) => tk :: stream rest
termination_by s.length
decreasing_by exact yylex_shorter _lexed

theorem stream_none {s : List UInt8} (ended : yylex s = none) : stream s = [] := by
  rw [stream]
  split
  · rfl
  · rename_i lexed
    rw [ended] at lexed
    cases lexed

theorem stream_some {s rest : List UInt8} {tk : Token} (lexed : yylex s = some (tk, rest)) :
    stream s = tk :: stream rest := by
  rw [stream]
  split
  · rename_i ended
    rw [lexed] at ended
    cases ended
  · rename_i lexed'
    rw [lexed] at lexed'
    cases lexed'
    rfl

/-! ## What the front end does not see -/

/-- A byte as the front end sees it: small letters for capitals, and one byte for all that
are skipped. -/
def plain (b : UInt8) : UInt8 :=
  if wordElem b then lowerCase b else if b = 32 ∨ b = 10 then b else 0

theorem wordElem_lowerCase (b : UInt8) (word : wordElem b) : wordElem (lowerCase b) := by
  simp only [lowerCase]
  split
  · rename_i capital
    have small : (b + 32).toNat = b.toNat + 32 := by
      rw [UInt8.toNat_add]
      exact Nat.mod_eq_of_lt (by have := capital.2; simp only [UInt8.reduceToNat]; omega)
    simp only [wordElem, small, Bool.or_eq_true, Bool.and_eq_true, decide_eq_true_eq]
    omega
  · exact word

theorem lowerCase_lowerCase (b : UInt8) : lowerCase (lowerCase b) = lowerCase b := by
  by_cases capital : 65 ≤ b.toNat ∧ b.toNat ≤ 90
  · have small : (b + 32).toNat = b.toNat + 32 := by
      rw [UInt8.toNat_add]
      exact Nat.mod_eq_of_lt (by have := capital.2; simp only [UInt8.reduceToNat]; omega)
    have once : lowerCase b = b + 32 := by simp only [lowerCase, capital, if_true, and_self]
    have again : ¬(65 ≤ (b + 32).toNat ∧ (b + 32).toNat ≤ 90) := by omega
    rw [once]
    simp only [lowerCase, again, if_false]
  · have same : lowerCase b = b := by simp only [lowerCase, capital, if_false]
    rw [same, same]

theorem wordElem_plain (b : UInt8) : wordElem (plain b) = wordElem b := by
  simp only [plain]
  by_cases word : wordElem b
  · simp only [word, if_true]
    exact wordElem_lowerCase b word
  · simp only [word, Bool.false_eq_true, if_false]
    split
    · exact eq_false_of_ne_true word
    · decide

theorem lowerCase_plain {b : UInt8} (inside : InWord b) :
    lowerCase (plain b) = lowerCase b := by
  simp only [plain]
  by_cases word : wordElem b
  · simp only [word, if_true]
    exact lowerCase_lowerCase b
  · rcases inside with word' | rfl
    · exact absurd word' word
    · rfl

theorem plain_eq_space (b : UInt8) : plain b = 32 ↔ b = 32 := by
  constructor
  · intro space
    by_contra other
    have not_word : wordElem b = false := by
      rw [← wordElem_plain, space]
      rfl
    simp only [plain, not_word, Bool.false_eq_true, if_false, other, false_or] at space
    split at space
    · exact other space
    · exact absurd space (by decide)
  · rintro rfl
    rfl

theorem plain_eq_newline (b : UInt8) : plain b = 10 ↔ b = 10 := by
  constructor
  · intro newline
    by_contra other
    have not_word : wordElem b = false := by
      rw [← wordElem_plain, newline]
      rfl
    simp only [plain, not_word, Bool.false_eq_true, if_false, other, or_false] at newline
    split at newline
    · exact other newline
    · exact absurd newline (by decide)
  · rintro rfl
    rfl

theorem word2token_plain {word : List UInt8} (inside : ∀ b ∈ word, InWord b) :
    word2token (word.map plain) = word2token word := by
  simp only [word2token, List.map_map]
  congr 1
  exact List.map_congr_left fun b member => lowerCase_plain (inside b member)

theorem head?_plain (s : List UInt8) :
    (s.map plain).head?.any (fun d => !wordElem d) = s.head?.any (fun d => !wordElem d) := by
  cases s with
  | nil => rfl
  | cons b s => simp [wordElem_plain]

theorem spacedWord_plain : ∀ s : List UInt8, spacedWord (s.map plain) = spacedWord s
  | [] => rfl
  | [_] => rfl
  | [_, _] => rfl
  | a :: b :: c :: rest => by
      have ih := spacedWord_plain (c :: rest)
      have after := head?_plain rest
      simp only [List.map_cons] at ih ⊢
      rw [spacedWord, spacedWord, ih, after]
      simp only [wordElem_plain, plain_eq_space]

theorem yylex_plain (s : List UInt8) :
    yylex (s.map plain) = (yylex s).map (Prod.map id (List.map plain)) := by
  induction s with
  | nil => rfl
  | cons b s ih =>
      have length_eq := spacedWord_plain (b :: s)
      have words_eq : (wordElem ∘ plain) = wordElem := funext wordElem_plain
      rw [List.map_cons] at length_eq ⊢
      rw [yylex, yylex, length_eq, ← List.map_cons, wordElem_plain]
      by_cases spaced : spacedWord (b :: s) ≠ 0
      · rw [if_pos spaced, if_pos spaced, ← List.map_take, ← List.map_drop,
          word2token_plain (inWord_of_spacedWord _)]
        rfl
      rw [if_neg spaced, if_neg spaced]
      by_cases word : wordElem b
      · have inside : ∀ c ∈ (b :: s).takeWhile wordElem, InWord c :=
          fun c member => Or.inl (List.mem_takeWhile_imp member)
        rw [if_pos word, if_pos word, List.takeWhile_map, List.dropWhile_map, words_eq,
          word2token_plain inside]
        rfl
      rw [if_neg word, if_neg word]
      by_cases newline : b = 10
      · rw [if_pos ((plain_eq_newline b).2 newline), if_pos newline]
        rfl
      · rw [if_neg (mt (plain_eq_newline b).1 newline), if_neg newline]
        exact ih

theorem stream_map_plain (s : List UInt8) : stream (s.map plain) = stream s := by
  induction s using stream.induct with
  | case1 s ended =>
      rw [stream_none ended, stream_none (by rw [yylex_plain, ended]; rfl)]
  | case2 s tk rest lexed ih =>
      rw [stream_some lexed, ← ih]
      exact stream_some (by rw [yylex_plain, lexed]; rfl)

/-- Files that look the same to the front end have the same tokens. -/
theorem stream_eq_of_plain {s t : List UInt8} (same : s.map plain = t.map plain) :
    stream s = stream t := by
  rw [← stream_map_plain s, same, stream_map_plain t]

/-- `"Hi, a b\n"` and `"hI; A B\n"`. -/
theorem Sample.stream_eq_of_plain_sample :
    stream [72, 105, 44, 32, 97, 32, 98, 10] = stream [104, 73, 59, 32, 65, 32, 66, 10] :=
  stream_eq_of_plain rfl

/-! ## Spaced words -/

theorem spacedWord_intersperse {word : List UInt8} (two : 2 ≤ word.length)
    (letters : ∀ b ∈ word, wordElem b) {d : UInt8} (ends : ¬ wordElem d) (other : d ≠ 32)
    (rest : List UInt8) :
    spacedWord (word.intersperse 32 ++ d :: rest) = (word.intersperse 32).length := by
  induction word with
  | nil => cases two
  | cons a word ih =>
      rw [List.forall_mem_cons] at letters
      cases word with
      | nil =>
          rw [List.length_singleton] at two
          omega
      | cons b word =>
          have letter : wordElem b := letters.2 b List.mem_cons_self
          rw [List.intersperse_cons_cons]
          cases word with
          | nil =>
              have alone : spacedWord (b :: d :: rest) = 0 := by
                cases rest with
                | nil => rfl
                | cons c rest => simp [spacedWord, other]
              simp [spacedWord, letters.1, letter, alone, ends]
          | cons c word =>
              have longer := ih (by simp) letters.2
              rw [List.intersperse_cons_cons] at longer ⊢
              simp only [List.cons_append] at longer ⊢
              rw [spacedWord, longer]
              simp [letters.1, letter]

theorem filter_intersperse {word : List UInt8} (letters : ∀ b ∈ word, wordElem b) :
    ((word.intersperse 32).map lowerCase).filter (· ≠ 32) = word.map lowerCase := by
  induction word with
  | nil => rfl
  | cons a word ih =>
      rw [List.forall_mem_cons] at letters
      have letter : lowerCase a ≠ 32 := fun space =>
        absurd (space ▸ wordElem_lowerCase a letters.1) (by decide)
      cases word with
      | nil => simp [letter]
      | cons b word =>
          rw [List.intersperse_cons_cons, List.map_cons, List.map_cons,
            List.filter_cons_of_pos (by simpa using letter), List.filter_cons_of_neg (by decide),
            ih letters.2, List.map_cons (l := b :: word)]

/-- A spaced word is the same token as the word without the spaces.  The rule for it needs
the byte `d`: at the end of the file its last letter would be cut off. -/
theorem stream_spaced {word : List UInt8} (two : 2 ≤ word.length)
    (letters : ∀ b ∈ word, wordElem b) {d : UInt8} (ends : ¬ wordElem d) (other : d ≠ 32)
    (rest : List UInt8) :
    stream (word.intersperse 32 ++ d :: rest) = stream (word ++ d :: rest) := by
  have spaced := spacedWord_intersperse two letters ends other rest
  have no_space : 32 ∉ word := fun member => absurd (letters 32 member) (by decide)
  obtain ⟨a, b, word, rfl⟩ : ∃ a b letters, word = a :: b :: letters := by
    cases word with
    | nil => cases two
    | cons a word =>
        cases word with
        | nil => exact absurd two (Nat.lt_irrefl 1)
        | cons b word => exact ⟨a, b, word, rfl⟩
  have same : word2token ((a :: b :: word).intersperse 32) = word2token (a :: b :: word) := by
    rw [word2token, word2token, idfHashed, ← hashed_filter, filter_intersperse letters, idfHashed]
  have tight : yylex ((a :: b :: word) ++ d :: rest) =
      some (word2token (a :: b :: word), d :: rest) := by
    have letter : wordElem a := letters a List.mem_cons_self
    have none_ : spacedWord ((a :: b :: word) ++ d :: rest) = 0 := by
      have blank : b ≠ 32 := fun space => no_space (by simp [space])
      cases word <;> simp [spacedWord, blank]
    have all : ((a :: b :: word) ++ d :: rest).takeWhile wordElem = a :: b :: word ∧
        ((a :: b :: word) ++ d :: rest).dropWhile wordElem = d :: rest := by
      rw [List.takeWhile_append_of_pos letters, List.dropWhile_append_of_pos letters,
        List.takeWhile_cons_of_neg ends, List.dropWhile_cons_of_neg ends, List.append_nil]
      exact ⟨rfl, rfl⟩
    rw [List.cons_append] at none_ all ⊢
    rw [yylex, if_neg (not_not.2 none_), if_pos letter, all.1, all.2]
  have apart : yylex ((a :: b :: word).intersperse 32 ++ d :: rest) =
      some (word2token (a :: b :: word), d :: rest) := by
    rw [List.intersperse_cons_cons, List.cons_append] at spaced ⊢
    have some_ : spacedWord (a :: (32 :: (b :: word).intersperse 32 ++ d :: rest)) ≠ 0 := by
      rw [spaced]
      exact Nat.succ_ne_zero _
    rw [yylex, if_pos some_, spaced, ← List.cons_append, List.take_left, List.drop_left,
      ← List.intersperse_cons_cons, same]
  rw [stream_some apart, stream_some tight]

/-- `"s i m."` and `"sim."`. -/
theorem Sample.stream_spaced_sample :
    stream [115, 32, 105, 32, 109, 46] = stream [115, 105, 109, 46] :=
  have two : 2 ≤ ([115, 105, 109] : List UInt8).length := by decide
  have letters : ∀ b ∈ ([115, 105, 109] : List UInt8), wordElem b :=
    List.all_eq_true.1 (show ([115, 105, 109] : List UInt8).all wordElem = true from rfl)
  stream_spaced two letters (by decide) (by decide) []

/-! ## Line ends -/

theorem word2token_ne_endOfLine (word : List UInt8) : word2token word ≠ endOfLine :=
  idfHashed_ne_endOfLine _

theorem InWord.ne_newline {b : UInt8} (inside : InWord b) : b ≠ 10 := by
  rintro rfl
  rcases inside with word | space
  · exact absurd word (by decide)
  · exact absurd space (by decide)

theorem count_of_yylex {s rest : List UInt8} {tk : Token} (lexed : yylex s = some (tk, rest)) :
    s.count 10 = (if tk = endOfLine then 1 else 0) + rest.count 10 := by
  obtain ⟨skipped, taken, rfl, skips, read⟩ := lexed_of_yylex lexed
  have skipped_none : skipped.count 10 = 0 := List.count_eq_zero.2 fun member =>
    (skips 10 member).2 rfl
  rw [List.count_append, List.count_append, skipped_none, Nat.zero_add]
  rcases read with ⟨rfl, rfl⟩ | ⟨-, inside, rfl⟩
  · simp
  · have taken_none : taken.count 10 = 0 := List.count_eq_zero.2 fun member =>
      (inside 10 member).ne_newline rfl
    rw [taken_none, if_neg (word2token_ne_endOfLine taken)]

theorem count_of_yylex_none {s : List UInt8} (ended : yylex s = none) : s.count 10 = 0 := by
  induction s with
  | nil => rfl
  | cons b s ih =>
      rw [yylex] at ended
      split at ended
      · cases ended
      · split at ended
        · cases ended
        · split at ended
          · cases ended
          · rename_i newline
            rw [List.count_cons_of_ne (by simpa using newline), ih ended]

theorem count_stream (s : List UInt8) : (stream s).count endOfLine = s.count 10 := by
  induction s using stream.induct with
  | case1 s ended =>
      rw [stream_none ended, count_of_yylex_none ended]
      rfl
  | case2 s tk rest lexed ih =>
      rw [stream_some lexed, List.count_cons, ih, count_of_yylex lexed]
      simp [Nat.add_comm]

/-- `tk` is that of a word that stands in the file. -/
def TokenOfWord (s : List UInt8) (tk : Token) : Prop :=
  ∃ word, word ≠ [] ∧ word <:+: s ∧ (∀ b ∈ word, InWord b) ∧ tk = word2token word

/-- A token is a line end or a hashed word, and never both. -/
theorem stream_range {s : List UInt8} {tk : Token} (member : tk ∈ stream s) :
    tk = endOfLine ∨
      TokenOfWord s tk ∧ nRegularTokens ≤ tk.toNat ∧ tk.toNat < endOfLine.toNat := by
  induction s using stream.induct with
  | case1 s ended =>
      rw [stream_none ended] at member
      cases member
  | case2 s tk' rest lexed ih =>
      rw [stream_some lexed, List.mem_cons] at member
      obtain ⟨skipped, taken, cut, -, read⟩ := lexed_of_yylex lexed
      rcases member with rfl | member
      · rcases read with ⟨-, newline⟩ | ⟨some_, inside, word⟩
        · exact Or.inl newline
        · exact Or.inr ⟨⟨taken, some_, ⟨skipped, rest, cut.symm⟩, inside, word⟩,
            word ▸ idfHashed_range _⟩
      · refine (ih member).imp_right fun found => ⟨?_, found.2⟩
        obtain ⟨word, some_, within, inside, is⟩ := found.1
        have later : rest <:+: s := ⟨skipped ++ taken, [], by rw [List.append_nil, cut]⟩
        exact ⟨word, some_, within.trans later, inside, is⟩

/-- The tokens of the words of a file. -/
def words (s : List UInt8) : List Token := (stream s).filter (· ≠ endOfLine)

-- `aux` and `hai`: a token is 16 bits of a hash, which different words may share
example : word2token [97, 117, 120] = word2token [104, 97, 105] := by decide

theorem yylex_newline (s : List UInt8) : yylex (10 :: s) = some (endOfLine, s) := by
  have no_word : wordElem 10 = false := by decide
  have spaced : spacedWord (10 :: s) = 0 := by
    cases s with
    | nil => rfl
    | cons b s => cases s <;> simp [spacedWord, no_word]
  simp [yylex, spaced, no_word]

namespace Sample

/-- `n` lines of one word each. -/
def lines (n : Nat) : List UInt8 := (List.replicate n [97, 98, 10]).flatten

theorem stream_lines (n : Nat) :
    stream (lines (n + 1)) = word2token [97, 98] :: endOfLine :: stream (lines n) := by
  have word : yylex (97 :: 98 :: 10 :: lines n) = some (word2token [97, 98], 10 :: lines n) := rfl
  have split : lines (n + 1) = 97 :: 98 :: 10 :: lines n := rfl
  rw [split, stream_some word, stream_some (yylex_newline _)]

theorem stream_range_sample : word2token [97, 98] = endOfLine ∨
    TokenOfWord (lines 1) (word2token [97, 98]) ∧
      nRegularTokens ≤ (word2token [97, 98]).toNat ∧
      (word2token [97, 98]).toNat < endOfLine.toNat :=
  stream_range (s := lines 1) (by rw [stream_lines]; exact List.mem_cons_self)

theorem words_lines (n : Nat) : words (lines n) = List.replicate n (word2token [97, 98]) := by
  induction n with
  | zero =>
      rw [words, lines, List.replicate_zero, List.flatten_nil, stream_none rfl]
      rfl
  | succ n ih =>
      have word := word2token_ne_endOfLine [97, 98]
      rw [words] at ih ⊢
      rw [stream_lines, List.replicate_succ, ← ih]
      simp [word]

end Sample

end RunServer.Sim
