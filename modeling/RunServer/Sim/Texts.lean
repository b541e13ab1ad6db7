/-
# Sim.Texts -- the files in one array

Pass 1 reads the files one behind the other into `Token_Array`, of which position 0 is not
used, and notes for each where its tokens begin and end.  On the way it stores for the
second pass how many tokens each line has, in 16 bits; the first line that is too long
for these turns the storing off for all files (`nlBuff` is `none` from there on).

* `Laid`: the texts lie in the array in order and apart; a `Corpus` carries it;
* `pass1_tokenArray`, `readInputFiles_bounds`, `readInputFiles_tokens`: what the array holds, and
  where.
-/
import Mathlib.Data.List.Flatten
import RunServer.Sim.Words

namespace RunServer.Sim

set_option autoImplicit false

/-- What `sim` is called with: `/` or `|`, or a file.  One that cannot be opened is read
as the null file. -/
inductive Arg where
  | separator
  | file (contents : List UInt8)
  deriving DecidableEq, Repr

def Arg.words : Arg → List Token
  | .separator => []
  | .file contents => Sim.words contents

/-- `struct text`, less the positions of the chunks.  Names are compared as pointers into
`argv`, so `txFname` is the number of the argument. -/
structure Text where
  txFname : Nat := 0
  txStart : Nat := 0
  txLimit : Nat := 0
  txNlStart : Nat := 0
  txNlLimit : Nat := 0
  txEOLTerminated : Bool := false
  deriving DecidableEq, Repr

/-- The texts lie in the first `length` positions, in order and apart. -/
structure Laid (length : Nat) (texts : List Text) : Prop where
  positive : ∀ t ∈ texts, 0 < t.txStart
  ordered : ∀ t ∈ texts, t.txStart ≤ t.txLimit
  within : ∀ t ∈ texts, t.txLimit ≤ length
  apart : texts.Pairwise fun t t' => t.txLimit ≤ t'.txStart

/-- The statics after pass 1. -/
structure Corpus where
  tokenArray : List Token
  texts : List Text
  numberOfNewTexts : Nat
  laid : Laid tokenArray.length texts
  named : texts.map Text.txFname = List.range texts.length
  new_le : numberOfNewTexts ≤ texts.length

namespace Corpus

/-- `Token_Array[p]`. -/
def tk (c : Corpus) (p : Nat) : Token := c.tokenArray.getD p noToken

/-- `Text[n]`. -/
def text (c : Corpus) (n : Nat) : Text := c.texts.getD n {}

/-- `Token_Array_Length()`. -/
def length (c : Corpus) : Nat := c.tokenArray.length

theorem text_mem {c : Corpus} {n : Nat} (is : n < c.texts.length) : c.text n ∈ c.texts := by
  simp only [text, List.getD_eq_getElem?_getD, List.getElem?_eq_getElem is, Option.getD_some]
  exact List.getElem_mem is

theorem text_apart {c : Corpus} {m n : Nat} (before : m < n) (is : n < c.texts.length) :
    (c.text m).txLimit ≤ (c.text n).txStart := by
  have is' : m < c.texts.length := by omega
  simp only [text, List.getD_eq_getElem?_getD, List.getElem?_eq_getElem is,
    List.getElem?_eq_getElem is', Option.getD_some]
  exact List.pairwise_iff_getElem.1 c.laid.apart m n is' is before

theorem text_ordered {c : Corpus} {n : Nat} (is : n < c.texts.length) :
    (c.text n).txStart ≤ (c.text n).txLimit := c.laid.ordered _ (text_mem is)

theorem text_within {c : Corpus} {n : Nat} (is : n < c.texts.length) :
    (c.text n).txLimit ≤ c.length := c.laid.within _ (text_mem is)

theorem text_positive {c : Corpus} {n : Nat} (is : n < c.texts.length) :
    0 < (c.text n).txStart := c.laid.positive _ (text_mem is)

theorem text_named {c : Corpus} {n : Nat} (is : n < c.texts.length) : (c.text n).txFname = n := by
  have at_ := congrArg (·[n]?) c.named
  simp only [List.getElem?_map, List.getElem?_eq_getElem is, Option.map_some,
    List.getElem?_range is, Option.some.injEq] at at_
  rw [text, List.getD_eq_getElem?_getD, List.getElem?_eq_getElem is, Option.getD_some, at_]

theorem text_limit_mono {c : Corpus} {m n : Nat} (le : m ≤ n) (is : n < c.texts.length) :
    (c.text m).txLimit ≤ (c.text n).txLimit := by
  rcases Nat.lt_or_eq_of_le le with before | rfl
  · exact Nat.le_trans (text_apart before is) (text_ordered is)
  · exact Nat.le_refl _

end Corpus

/-! ## Reading -/

/-- The statics of the scanner, of `text.c` and of `tokenarray.c`. -/
structure Reader where
  lexToken : Token
  lexNlCnt : Nat
  lexTkCnt : Nat
  lastTkCnt : Nat
  nlBuff : Option (List UInt16)
  tokenArray : List Token

namespace Reader

/-- `Init_Text()` and `Init_Token_Array()`. -/
def init : Reader where
  lexToken := noToken
  lexNlCnt := 0
  lexTkCnt := 0
  lastTkCnt := 0
  nlBuff := some []
  tokenArray := [noToken]

/-- `return_tk` and `return_eol`. -/
def lexed (r : Reader) (tk : Token) : Reader :=
  if tk = endOfLine then { r with lexToken := tk, lexNlCnt := r.lexNlCnt + 1 }
  else { r with lexToken := tk, lexTkCnt := r.lexTkCnt + 1 }

/-- A difference that does not fit turns the buffer off. -/
def storeNewline (r : Reader) : Reader :=
  { r with
    nlBuff := r.nlBuff.bind fun nls =>
      if (UInt16.ofNat (r.lexTkCnt - r.lastTkCnt)).toNat = r.lexTkCnt - r.lastTkCnt then
        some (nls ++ [UInt16.ofNat (r.lexTkCnt - r.lastTkCnt)])
      else none }

def nextTextToken (r : Reader) (tk : Token) : Reader :=
  if tk = endOfLine then
    { (r.lexed tk).storeNewline with lastTkCnt := (r.lexed tk).lexTkCnt }
  else r.lexed tk

def storeToken (r : Reader) (tk : Token) : Reader :=
  { r with tokenArray := r.tokenArray ++ [tk] }

/-- The loop of `Read_Input_Files` over the tokens of a file. -/
def turn (r : Reader) (tk : Token) : Reader :=
  if tk = endOfLine then r.nextTextToken tk else (r.nextTextToken tk).storeToken tk

/-- `Open_Text(First_Pass, txt)`. -/
def openText (r : Reader) : Reader := { r with lastTkCnt := 0, lexNlCnt := 1, lexTkCnt := 0 }

/-- `Close_Text(First_Pass, txt)`. -/
def closeText (r : Reader) : Reader := if r.lastTkCnt ≠ r.lexTkCnt then r.storeNewline else r

def read (r : Reader) (contents : List UInt8) : Reader :=
  ((stream contents).foldl turn r.openText).closeText

def nlFree (r : Reader) : Nat := (r.nlBuff.getD []).length

end Reader

structure Pass1 where
  reader : Reader
  texts : List Text
  numberOfNewTexts : Nat

/-- One argument. -/
def Pass1.readArg (p : Pass1) : Arg → Pass1
  | .separator =>
      { p with
        texts := p.texts ++ [{
          txFname := p.texts.length
          txStart := p.reader.tokenArray.length
          txLimit := p.reader.tokenArray.length }]
        numberOfNewTexts := p.texts.length }
  | .file contents =>
      { p with
        reader := p.reader.read contents
        texts := p.texts ++ [{
          txFname := p.texts.length
          txStart := p.reader.tokenArray.length
          txLimit := (p.reader.read contents).tokenArray.length
          txNlStart := p.reader.nlFree
          txNlLimit := (p.reader.read contents).nlFree
          txEOLTerminated := (p.reader.read contents).lexToken = endOfLine }] }

def pass1 (argv : List Arg) : Pass1 :=
  argv.foldl Pass1.readArg { reader := Reader.init, texts := [], numberOfNewTexts := argv.length }

/-! ## Where the words are -/

namespace Reader

@[simp] theorem lexed_tokenArray (r : Reader) (tk : Token) :
    (r.lexed tk).tokenArray = r.tokenArray := by
  simp only [lexed]
  split <;> rfl

@[simp] theorem nextTextToken_tokenArray (r : Reader) (tk : Token) :
    (r.nextTextToken tk).tokenArray = r.tokenArray := by
  simp only [nextTextToken]
  split
  · exact lexed_tokenArray r tk
  · exact lexed_tokenArray r tk

theorem foldl_turn_tokenArray (tks : List Token) (r : Reader) :
    (tks.foldl turn r).tokenArray = r.tokenArray ++ tks.filter (· ≠ endOfLine) := by
  induction tks generalizing r with
  | nil => simp
  | cons tk tks ih =>
      rw [List.foldl_cons, ih]
      by_cases eol : tk = endOfLine
      · simp [turn, eol]
      · simp [turn, eol, storeToken]

theorem read_tokenArray (r : Reader) (contents : List UInt8) :
    (r.read contents).tokenArray = r.tokenArray ++ words contents := by
  have closed (r : Reader) : r.closeText.tokenArray = r.tokenArray := by
    simp only [closeText]
    split <;> rfl
  rw [read, closed, foldl_turn_tokenArray]
  rfl

end Reader

/-- The bounds of the texts, where the first of them starts in `start`. -/
def bounds : Nat → List Arg → List (Nat × Nat)
  | _, [] => []
  | start, a :: argv => (start, start + a.words.length) :: bounds (start + a.words.length) argv

theorem bounds_append (start : Nat) (before after : List Arg) :
    bounds start (before ++ after) =
      bounds start before ++ bounds (start + (before.flatMap Arg.words).length) after := by
  induction before generalizing start with
  | nil => rfl
  | cons a before ih =>
      simp only [List.cons_append, bounds, ih, List.flatMap_cons, List.length_append,
        Nat.add_assoc]

theorem length_bounds (start : Nat) (argv : List Arg) :
    (bounds start argv).length = argv.length := by
  induction argv generalizing start with
  | nil => rfl
  | cons a argv ih => rw [bounds, List.length_cons, ih, List.length_cons]

def Text.bounds (t : Text) : Nat × Nat := (t.txStart, t.txLimit)

theorem Pass1.readArg_tokenArray (p : Pass1) (a : Arg) :
    (p.readArg a).reader.tokenArray = p.reader.tokenArray ++ a.words := by
  cases a with
  | separator => exact (List.append_nil _).symm
  | file contents => exact Reader.read_tokenArray _ _

theorem Pass1.readArg_bounds (p : Pass1) (a : Arg) :
    (p.readArg a).texts.map Text.bounds = p.texts.map Text.bounds ++
      [(p.reader.tokenArray.length, p.reader.tokenArray.length + a.words.length)] := by
  cases a with
  | separator => simp [readArg, Text.bounds, Arg.words]
  | file contents => simp [readArg, Text.bounds, Arg.words, Reader.read_tokenArray]

theorem foldl_readArg_tokenArray (argv : List Arg) (p : Pass1) :
    (argv.foldl Pass1.readArg p).reader.tokenArray =
      p.reader.tokenArray ++ argv.flatMap Arg.words := by
  induction argv generalizing p with
  | nil => simp
  | cons a argv ih => rw [List.foldl_cons, ih, p.readArg_tokenArray]; simp

theorem foldl_readArg_bounds (argv : List Arg) (p : Pass1) :
    (argv.foldl Pass1.readArg p).texts.map Text.bounds =
      p.texts.map Text.bounds ++ bounds p.reader.tokenArray.length argv := by
  induction argv generalizing p with
  | nil => simp [bounds]
  | cons a argv ih =>
      rw [List.foldl_cons, ih, p.readArg_bounds, p.readArg_tokenArray, bounds]
      simp

theorem pass1_tokenArray (argv : List Arg) :
    (pass1 argv).reader.tokenArray = noToken :: argv.flatMap Arg.words :=
  foldl_readArg_tokenArray argv _

theorem pass1_bounds (argv : List Arg) :
    (pass1 argv).texts.map Text.bounds = bounds 1 argv :=
  foldl_readArg_bounds argv _

theorem pass1_length (argv : List Arg) : (pass1 argv).texts.length = argv.length := by
  rw [← List.length_map Text.bounds, pass1_bounds, length_bounds]

theorem foldl_readArg_new (argv : List Arg) (p : Pass1)
    (le : p.numberOfNewTexts ≤ p.texts.length + argv.length) :
    (argv.foldl Pass1.readArg p).numberOfNewTexts ≤ p.texts.length + argv.length := by
  induction argv generalizing p with
  | nil => exact le
  | cons a argv ih =>
      have longer : (p.readArg a).texts.length = p.texts.length + 1 := by
        cases a <;> simp [Pass1.readArg]
      have kept : (p.readArg a).numberOfNewTexts ≤ (p.readArg a).texts.length + argv.length := by
        rw [List.length_cons] at le
        cases a with
        | separator =>
            rw [longer]
            simp only [Pass1.readArg]
            omega
        | file contents =>
            rw [longer]
            simp only [Pass1.readArg]
            omega
      have := ih (p.readArg a) kept
      rw [longer] at this
      rw [List.foldl_cons, List.length_cons]
      omega

/-! ## The corpus -/

theorem bounds_mem {start : Nat} {argv : List Arg} {b : Nat × Nat}
    (member : b ∈ bounds start argv) :
    start ≤ b.1 ∧ b.1 ≤ b.2 ∧ b.2 ≤ start + (argv.flatMap Arg.words).length := by
  induction argv generalizing start with
  | nil => cases member
  | cons a argv ih =>
      rw [bounds, List.mem_cons] at member
      rw [List.flatMap_cons, List.length_append]
      rcases member with rfl | member
      · simp only
        omega
      · have := ih member
        omega

theorem bounds_apart (start : Nat) (argv : List Arg) :
    (bounds start argv).Pairwise fun b b' => b.2 ≤ b'.1 := by
  induction argv generalizing start with
  | nil => exact .nil
  | cons a argv ih => exact .cons (fun b member => (bounds_mem member).1) (ih _)

theorem pass1_laid (argv : List Arg) :
    Laid (pass1 argv).reader.tokenArray.length (pass1 argv).texts := by
  have mem {t : Text} (member : t ∈ (pass1 argv).texts) : t.bounds ∈ bounds 1 argv :=
    pass1_bounds argv ▸ List.mem_map_of_mem member
  refine ⟨fun t member => (bounds_mem (mem member)).1,
    fun t member => (bounds_mem (mem member)).2.1, fun t member => ?_, ?_⟩
  · have := (bounds_mem (mem member)).2.2
    rw [pass1_tokenArray, List.length_cons, Nat.add_comm]
    exact this
  · have apart := bounds_apart 1 argv
    rw [← pass1_bounds, List.pairwise_map] at apart
    exact apart

theorem foldl_readArg_named (argv : List Arg) (p : Pass1)
    (named : p.texts.map Text.txFname = List.range p.texts.length) :
    (argv.foldl Pass1.readArg p).texts.map Text.txFname =
      List.range (argv.foldl Pass1.readArg p).texts.length := by
  induction argv generalizing p with
  | nil => exact named
  | cons a argv ih =>
      refine ih (p.readArg a) ?_
      cases a with
      | separator => simp [Pass1.readArg, named, List.range_succ]
      | file contents => simp [Pass1.readArg, named, List.range_succ]

/-- `Read_Input_Files`. -/
def readInputFiles (argv : List Arg) : Corpus where
  tokenArray := (pass1 argv).reader.tokenArray
  texts := (pass1 argv).texts
  numberOfNewTexts := (pass1 argv).numberOfNewTexts
  laid := pass1_laid argv
  named := foldl_readArg_named argv _ rfl
  new_le := by
    rw [pass1_length]
    simpa [pass1] using foldl_readArg_new argv
      { reader := Reader.init, texts := [], numberOfNewTexts := argv.length } (by simp)

namespace Corpus

/-- The tokens of `Text[n]`. -/
def tokens (c : Corpus) (n : Nat) : List Token :=
  (c.tokenArray.drop (c.text n).txStart).take ((c.text n).txLimit - (c.text n).txStart)

theorem getElem?_tokens {c : Corpus} {n i : Nat} (is : n < c.texts.length)
    (inside : (c.text n).txStart + i < (c.text n).txLimit) :
    (c.tokens n)[i]? = some (c.tk ((c.text n).txStart + i)) := by
  have within := text_within is
  rw [length] at within
  rw [tokens, List.getElem?_take_of_lt (by omega), List.getElem?_drop, tk,
    List.getD_eq_getElem?_getD, List.getElem?_eq_getElem (by omega), Option.getD_some]

end Corpus

theorem readInputFiles_bounds (before after : List Arg) (a : Arg) :
    ((readInputFiles (before ++ a :: after)).text before.length).bounds =
      (1 + (before.flatMap Arg.words).length,
        1 + (before.flatMap Arg.words).length + a.words.length) := by
  have layout := pass1_bounds (before ++ a :: after)
  rw [bounds_append, bounds] at layout
  have here := congrArg (·[before.length]?) layout
  simp only [List.getElem?_map, List.getElem?_append_right (Nat.le_of_eq (length_bounds 1 before)),
    length_bounds, Nat.sub_self, List.getElem?_cons_zero, Option.map_eq_some_iff] at here
  obtain ⟨t, at_, is⟩ := here
  rw [← is, Corpus.text, List.getD_eq_getElem?_getD]
  exact congrArg Text.bounds (by rw [readInputFiles, at_, Option.getD_some])

/-- The tokens of a text are the words of the file. -/
theorem readInputFiles_tokens (before after : List Arg) (a : Arg) :
    (readInputFiles (before ++ a :: after)).tokens before.length = a.words := by
  have is := readInputFiles_bounds before after a
  simp only [Text.bounds, Prod.mk.injEq] at is
  have array : (readInputFiles (before ++ a :: after)).tokenArray =
      noToken :: (before.flatMap Arg.words ++ (a.words ++ after.flatMap Arg.words)) :=
    (pass1_tokenArray _).trans (by simp)
  rw [Corpus.tokens, is.1, is.2, array, Nat.add_comm 1, List.drop_succ_cons,
    List.drop_append_of_le_length (Nat.le_refl _), List.drop_length, List.nil_append,
    Nat.add_sub_cancel_left, List.take_append_of_le_length (Nat.le_refl _), List.take_length]

/-- Two files that share 8 words. -/
def Sample.corpus : Corpus := readInputFiles [.file (Sample.lines 8), .file (Sample.lines 9)]

end RunServer.Sim
