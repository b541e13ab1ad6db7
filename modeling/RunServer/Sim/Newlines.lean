/-
# Sim.Newlines -- how many words each line has

Pass 1 stores for the second pass how many words there are in each line, in 16 bits; the first
line that does not fit turns the storing off for all files.

* `word_line`: the number of the line a word is in, said of the bytes of the file;
* `pass1_nlBuff`, `buffer_of_text`: what the buffer holds, and which part of it is a file's;
* `Reader.lexToken_of_unended`: a file is not taken to be ended when words come last.
-/
import RunServer.Sim.Texts

namespace RunServer.Sim

set_option autoImplicit false

/-! ## Words in lines -/

/-- How many words each line has, after `w` words of the first; the last line counts only if
there are words in it. -/
def lineLengths : Nat → List Token → List Nat
  | w, [] => if w = 0 then [] else [w]
  | w, tk :: tks => if tk = endOfLine then w :: lineLengths 0 tks else lineLengths (w + 1) tks

/-- There are words behind the last line end. -/
def unended : Nat → List Token → Bool
  | w, [] => w ≠ 0
  | w, tk :: tks => if tk = endOfLine then unended 0 tks else unended (w + 1) tks

/-- The number of the line the word `k` is in. -/
def lineAt : List Nat → Nat → Nat
  | [], _ => 1
  | w :: ws, k => if k < w then 1 else lineAt ws (k - w) + 1

theorem lineAt_append {ws : List Nat} {k : Nat} (past : ws.sum ≤ k) (ws' : List Nat) :
    lineAt (ws ++ ws') k = ws.length + lineAt ws' (k - ws.sum) := by
  induction ws generalizing k with
  | nil => simp
  | cons w ws ih =>
      rw [List.sum_cons] at past
      rw [List.cons_append, lineAt, if_neg (by omega), ih (by omega), List.length_cons,
        List.sum_cons, Nat.sub_sub]
      omega

theorem sum_lineLengths (w : Nat) (tks : List Token) :
    (lineLengths w tks).sum = w + (tks.filter (· ≠ endOfLine)).length := by
  induction tks generalizing w with
  | nil => by_cases none_ : w = 0 <;> simp [lineLengths, none_]
  | cons tk tks ih =>
      rw [lineLengths]
      by_cases eol : tk = endOfLine
      · rw [if_pos eol, List.sum_cons, ih, List.filter_cons_of_neg (by simpa using eol)]
        omega
      · rw [if_neg eol, ih, List.filter_cons_of_pos (by simpa using eol), List.length_cons]
        omega

theorem not_unended_of_lineLengths {w : Nat} {tks : List Token} (none_ : lineLengths w tks = []) :
    unended w tks = false := by
  induction tks generalizing w with
  | nil =>
      by_cases zero : w = 0
      · simp [unended, zero]
      · simp [lineLengths, zero] at none_
  | cons tk tks ih =>
      rw [lineLengths] at none_
      split at none_
      · cases none_
      · rename_i word
        rw [unended, if_neg word]
        exact ih none_

theorem le_head_of_lineLengths {w m : Nat} {tks : List Token} {ws : List Nat}
    (lengths : lineLengths w tks = m :: ws) : w ≤ m := by
  induction tks generalizing w with
  | nil =>
      by_cases none_ : w = 0
      · exact none_ ▸ Nat.zero_le m
      · simp only [lineLengths, none_, if_false, List.cons.injEq] at lengths
        omega
  | cons tk tks ih =>
      rw [lineLengths] at lengths
      split at lengths
      · rw [List.cons.injEq] at lengths
        omega
      · have := ih lengths
        omega

theorem lineAt_pos (ws : List Nat) (k : Nat) : 0 < lineAt ws k := by
  cases ws with
  | nil => exact Nat.one_pos
  | cons w ws =>
      rw [lineAt]
      split
      · exact Nat.one_pos
      · exact Nat.succ_pos _

theorem lineAt_mono (ws : List Nat) {j k : Nat} (le : j ≤ k) : lineAt ws j ≤ lineAt ws k := by
  induction ws generalizing j k with
  | nil => exact Nat.le_refl 1
  | cons w ws ih =>
      rw [lineAt, lineAt]
      by_cases here : j < w
      · rw [if_pos here]
        split
        · exact Nat.le_refl 1
        · exact Nat.succ_pos _
      · rw [if_neg here, if_neg (by omega)]
        exact Nat.succ_le_succ (ih (by omega))

/-- A word stands in the file behind as many newlines as there are lines before its own. -/
theorem word_line {s : List UInt8} {k : Nat} (is : k < (words s).length) (w : Nat) :
    ∃ pre word post, s = pre ++ word ++ post ∧ (words s)[k]? = some (word2token word) ∧
      word ≠ [] ∧ (∀ b ∈ word, InWord b) ∧
      lineAt (lineLengths w (stream s)) (w + k) = pre.count 10 + 1 := by
  induction s using stream.induct generalizing k w with
  | case1 s ended =>
      rw [words, stream_none ended] at is
      cases is
  | case2 s tk rest lexed ih =>
      obtain ⟨skipped, taken, rfl, skips, read⟩ := lexed_of_yylex lexed
      have none_ : skipped.count 10 = 0 :=
        List.count_eq_zero.2 fun member => (skips 10 member).2 rfl
      rw [words, stream_some lexed] at is ⊢
      rcases read with ⟨rfl, rfl⟩ | ⟨some_, inside, rfl⟩
      · rw [List.filter_cons_of_neg (by simp)] at is ⊢
        obtain ⟨pre, word, post, rfl, token, some_, letters, line⟩ := ih is 0
        refine ⟨skipped ++ [10] ++ pre, word, post, by simp, token, some_, letters, ?_⟩
        rw [Nat.zero_add] at line
        rw [lineLengths, if_pos rfl, lineAt, if_neg (by omega), Nat.add_sub_cancel_left, line]
        simp [none_]
      · have word := word2token_ne_endOfLine taken
        have no_newline : taken.count 10 = 0 :=
          List.count_eq_zero.2 fun member => (inside 10 member).ne_newline rfl
        rw [List.filter_cons_of_pos (by simpa using word)] at is ⊢
        cases k with
        | zero =>
            refine ⟨skipped, taken, rest, rfl, rfl, some_, inside, ?_⟩
            rw [lineLengths, if_neg word, none_, Nat.add_zero]
            cases lengths : lineLengths (w + 1) (stream rest) with
            | nil => rfl
            | cons m ws =>
                have := le_head_of_lineLengths lengths
                rw [lineAt, if_pos (by omega)]
        | succ k =>
            rw [List.length_cons, Nat.add_lt_add_iff_right] at is
            obtain ⟨pre, word', post, rfl, token, some', letters, line⟩ := ih is (w + 1)
            refine ⟨skipped ++ taken ++ pre, word', post, by simp, token, some', letters, ?_⟩
            rw [Nat.add_right_comm, Nat.add_assoc] at line
            rw [lineLengths, if_neg word, line]
            simp [none_, no_newline]

/-! ## Pass 1 -/

/-- Line lengths into the buffer, if all of them fit. -/
def storeLines (ws : List Nat) (nls : List UInt16) : Option (List UInt16) :=
  if ws.all (· < 65536) then some (nls ++ ws.map UInt16.ofNat) else none

theorem storeLines_append (ws ws' : List Nat) (nls : List UInt16) :
    storeLines (ws ++ ws') nls = (storeLines ws nls).bind (storeLines ws') := by
  rw [storeLines, List.all_append]
  by_cases first : ws.all (· < 65536)
  · by_cases second : ws'.all (· < 65536)
    · simp [storeLines, first, second]
    · rw [Bool.not_eq_true] at second
      simp [storeLines, first, second]
  · rw [Bool.not_eq_true] at first
    simp [storeLines, first]

namespace Reader

theorem storeNewline_nlBuff (r : Reader) :
    r.storeNewline.nlBuff = r.nlBuff.bind (storeLines [r.lexTkCnt - r.lastTkCnt]) := by
  rw [storeNewline]
  cases r.nlBuff with
  | none => rfl
  | some nls =>
      have fits : (UInt16.ofNat (r.lexTkCnt - r.lastTkCnt)).toNat = r.lexTkCnt - r.lastTkCnt ↔
          r.lexTkCnt - r.lastTkCnt < 65536 := by
        rw [UInt16.toNat_ofNat']
        omega
      simp only [Option.bind_some, storeLines, List.all_cons, List.all_nil, Bool.and_true,
        decide_eq_true_eq, List.map_cons, List.map_nil, fits]

/-- The lines of a file go into the buffer one after the other. -/
theorem foldl_turn_nlBuff (tks : List Token) {r : Reader} {w : Nat}
    (since : r.lexTkCnt = r.lastTkCnt + w) :
    ((tks.foldl turn r).closeText).nlBuff = r.nlBuff.bind (storeLines (lineLengths w tks)) := by
  induction tks generalizing r w with
  | nil =>
      rw [List.foldl_nil, closeText, lineLengths]
      by_cases none_ : w = 0
      · rw [if_neg (by omega), if_pos none_]
        cases r.nlBuff <;> simp [storeLines]
      · rw [if_pos (by omega), if_neg none_, storeNewline_nlBuff, since, Nat.add_sub_cancel_left]
  | cons tk tks ih =>
      rw [List.foldl_cons, lineLengths]
      by_cases eol : tk = endOfLine
      · rw [if_pos eol]
        have stored : (r.turn tk).nlBuff = r.nlBuff.bind (storeLines [w]) := by
          have difference : (r.lexed tk).lexTkCnt - (r.lexed tk).lastTkCnt = w := by
            simp only [lexed, eol, if_true]
            omega
          have kept : (r.lexed tk).nlBuff = r.nlBuff := by simp only [lexed, eol, if_true]
          rw [turn, if_pos eol, nextTextToken, if_pos eol]
          exact (storeNewline_nlBuff _).trans (by rw [difference, kept])
        have fresh : (r.turn tk).lexTkCnt = (r.turn tk).lastTkCnt + 0 := by
          simp [turn, nextTextToken, eol, storeNewline]
        have split (nls : List UInt16) : storeLines (w :: lineLengths 0 tks) nls =
            (storeLines [w] nls).bind (storeLines (lineLengths 0 tks)) :=
          storeLines_append [w] _ nls
        rw [ih fresh, stored, Option.bind_assoc, funext split]
      · rw [if_neg eol]
        have more : (r.turn tk).lexTkCnt = (r.turn tk).lastTkCnt + (w + 1) := by
          simp only [turn, nextTextToken, eol, if_false, storeToken, lexed]
          omega
        have kept : (r.turn tk).nlBuff = r.nlBuff := by
          simp only [turn, nextTextToken, eol, if_false, storeToken, lexed]
        rw [ih more, kept]

theorem read_nlBuff (r : Reader) (contents : List UInt8) :
    (r.read contents).nlBuff = r.nlBuff.bind (storeLines (lineLengths 0 (stream contents))) :=
  foldl_turn_nlBuff _ rfl

end Reader

def Arg.lines : Arg → List Nat
  | .separator => []
  | .file contents => lineLengths 0 (stream contents)

theorem Pass1.readArg_nlBuff (p : Pass1) (a : Arg) :
    (p.readArg a).reader.nlBuff = p.reader.nlBuff.bind (storeLines a.lines) := by
  cases a with
  | separator =>
      have same (nls : List UInt16) : storeLines [] nls = some nls := by simp [storeLines]
      simp [readArg, Arg.lines, funext same]
  | file contents => exact p.reader.read_nlBuff contents

theorem foldl_readArg_nlBuff (argv : List Arg) (p : Pass1) :
    (argv.foldl Pass1.readArg p).reader.nlBuff =
      p.reader.nlBuff.bind (storeLines (argv.flatMap Arg.lines)) := by
  induction argv generalizing p with
  | nil =>
      have same (nls : List UInt16) : storeLines [] nls = some nls := by simp [storeLines]
      simp [funext same]
  | cons a argv ih =>
      rw [List.foldl_cons, ih, p.readArg_nlBuff, Option.bind_assoc, List.flatMap_cons]
      simp only [storeLines_append]

/-- The buffer has all lines of all files, or is turned off. -/
theorem pass1_nlBuff (argv : List Arg) :
    (pass1 argv).reader.nlBuff = storeLines (argv.flatMap Arg.lines) [] := by
  rw [pass1, foldl_readArg_nlBuff]
  rfl

theorem foldl_readArg_texts (argv : List Arg) (p : Pass1) :
    p.texts <+: (argv.foldl Pass1.readArg p).texts := by
  induction argv generalizing p with
  | nil => exact List.prefix_rfl
  | cons a argv ih =>
      refine List.IsPrefix.trans ?_ (ih (p.readArg a))
      cases a with
      | separator => exact List.prefix_append _ _
      | file contents => exact List.prefix_append _ _

theorem length_foldl_readArg (argv : List Arg) (p : Pass1) :
    (argv.foldl Pass1.readArg p).texts.length = p.texts.length + argv.length := by
  induction argv generalizing p with
  | nil => rfl
  | cons a argv ih =>
      have longer : (p.readArg a).texts.length = p.texts.length + 1 := by
        cases a <;> simp [Pass1.readArg]
      rw [List.foldl_cons, ih, longer, List.length_cons]
      omega

theorem text_readArg (p : Pass1) (contents : List UInt8) (after : List Arg) :
    (after.foldl Pass1.readArg (p.readArg (.file contents))).texts[p.texts.length]? =
      some {
        txFname := p.texts.length
        txStart := p.reader.tokenArray.length
        txLimit := (p.reader.read contents).tokenArray.length
        txNlStart := p.reader.nlFree
        txNlLimit := (p.reader.read contents).nlFree
        txEOLTerminated := (p.reader.read contents).lexToken = endOfLine } := by
  obtain ⟨rest, split⟩ := foldl_readArg_texts after (p.readArg (.file contents))
  have inside : p.texts.length < (p.readArg (.file contents)).texts.length := by
    simp [Pass1.readArg]
  rw [← split, List.getElem?_append_left inside]
  simp [Pass1.readArg]

/-- What was set when a file had been read. -/
structure ReadFrom (r : Reader) (contents : List UInt8) (txt : Text) : Prop where
  nlStart : txt.txNlStart = r.nlFree
  nlLimit : txt.txNlLimit = (r.read contents).nlFree
  ended : txt.txEOLTerminated ↔ (r.read contents).lexToken = endOfLine

theorem pass1_text (before after : List Arg) (contents : List UInt8) :
    ∃ r : Reader, r.nlBuff = storeLines (before.flatMap Arg.lines) [] ∧
      ReadFrom r contents
        ((readInputFiles (before ++ .file contents :: after)).text before.length) := by
  let start : Pass1 :=
    { reader := Reader.init
      texts := []
      numberOfNewTexts := (before ++ .file contents :: after).length }
  have here := (length_foldl_readArg before start).trans (Nat.zero_add before.length)
  have at_ := text_readArg (before.foldl Pass1.readArg start) contents after
  have texts : (readInputFiles (before ++ .file contents :: after)).texts =
      (after.foldl Pass1.readArg
        ((before.foldl Pass1.readArg start).readArg (.file contents))).texts := by
    show (pass1 (before ++ .file contents :: after)).texts = _
    rw [pass1, List.foldl_append, List.foldl_cons]
  refine ⟨(before.foldl Pass1.readArg start).reader, foldl_readArg_nlBuff before start, ?_⟩
  rw [here] at at_
  rw [Corpus.text, texts, List.getD_eq_getElem?_getD, at_, Option.getD_some]
  exact ⟨rfl, rfl, decide_eq_true_iff⟩

theorem storeLines_eq_some_iff {ws : List Nat} {nls nls' : List UInt16} :
    storeLines ws nls = some nls' ↔
      (∀ w ∈ ws, w < 65536) ∧ nls' = nls ++ ws.map UInt16.ofNat := by
  rw [storeLines]
  by_cases fits : ws.all (· < 65536)
  · rw [if_pos fits, Option.some.injEq, eq_comm]
    simp only [List.all_eq_true, decide_eq_true_eq] at fits
    exact (and_iff_right fits).symm
  · rw [if_neg fits]
    simp only [List.all_eq_true, decide_eq_true_eq] at fits
    simp [fits]

namespace Reader

theorem lexToken_of_unended {tks : List Token} {r : Reader} {w : Nat}
    (open_ : unended w tks = true) (last : w ≠ 0 → r.lexToken ≠ endOfLine) :
    ((tks.foldl turn r).closeText).lexToken ≠ endOfLine := by
  induction tks generalizing r w with
  | nil =>
      have kept : r.closeText.lexToken = r.lexToken := by
        rw [closeText]
        split <;> rfl
      rw [List.foldl_nil, kept]
      exact last (by simpa [unended] using open_)
  | cons tk tks ih =>
      rw [unended] at open_
      rw [List.foldl_cons]
      split at open_
      · exact ih open_ fun some_ => absurd rfl some_
      · rename_i word
        refine ih open_ fun _ => ?_
        simp [turn, nextTextToken, storeToken, lexed, word]

end Reader

section Text

variable {before after : List Arg} {contents : List UInt8}

/-- The part of the buffer that is a file's. -/
theorem buffer_of_text {nls : List UInt16}
    (buffer : (pass1 (before ++ .file contents :: after)).reader.nlBuff = some nls) {r : Reader}
    (earlier : r.nlBuff = storeLines (before.flatMap Arg.lines) []) {txt : Text}
    (read : ReadFrom r contents txt) :
    ((nls.take txt.txNlLimit).drop txt.txNlStart).map UInt16.toNat =
      lineLengths 0 (stream contents) := by
  rw [pass1_nlBuff, storeLines_eq_some_iff, List.flatMap_append, List.flatMap_cons] at buffer
  obtain ⟨fits, rfl⟩ := buffer
  simp only [List.mem_append] at fits
  have first : r.nlBuff = some ((before.flatMap Arg.lines).map UInt16.ofNat) :=
    earlier.trans (storeLines_eq_some_iff.2 ⟨fun w member => fits w (Or.inl member), rfl⟩)
  have here (w : Nat) (member : w ∈ lineLengths 0 (stream contents)) : w < 65536 :=
    fits w (Or.inr (Or.inl member))
  have second : (r.read contents).nlBuff = some ((before.flatMap Arg.lines).map UInt16.ofNat ++
      (lineLengths 0 (stream contents)).map UInt16.ofNat) := by
    rw [r.read_nlBuff, first, Option.bind_some]
    exact storeLines_eq_some_iff.2 ⟨here, rfl⟩
  have start : txt.txNlStart = ((before.flatMap Arg.lines).map UInt16.ofNat).length := by
    rw [read.nlStart, Reader.nlFree, first, Option.getD_some]
  have limit : txt.txNlLimit = ((before.flatMap Arg.lines).map UInt16.ofNat ++
      (lineLengths 0 (stream contents)).map UInt16.ofNat).length := by
    rw [read.nlLimit, Reader.nlFree, second, Option.getD_some]
  have same : ((lineLengths 0 (stream contents)).map UInt16.ofNat).map UInt16.toNat =
      lineLengths 0 (stream contents) := by
    rw [List.map_map]
    refine (List.map_congr_left fun w member => ?_).trans (List.map_id _)
    rw [Function.comp_apply, UInt16.toNat_ofNat']
    exact Nat.mod_eq_of_lt (here w member)
  have lines : (Arg.file contents).lines = lineLengths 0 (stream contents) := rfl
  rw [List.nil_append, List.map_append, List.map_append, ← List.append_assoc, lines, limit,
    List.take_left, start, List.drop_left]
  exact same

end Text

namespace Sample

theorem unended_lines (n : Nat) : unended 0 (stream (lines n)) = false := by
  have word := word2token_ne_endOfLine [97, 98]
  induction n with
  | zero =>
      rw [lines, List.replicate_zero, List.flatten_nil, stream_none rfl]
      rfl
  | succ n ih => rw [stream_lines, unended, if_neg word, unended, if_pos rfl, ih]

end Sample

end RunServer.Sim
