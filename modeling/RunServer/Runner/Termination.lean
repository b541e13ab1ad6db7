/-
# Runner.Termination -- does a comparison come to its end?

`compare` has two endless loops, one in the other.  `innerPass` and `outerPass` are one pass
of each, and the two loops made of them are those of `compareLoop` (`compare_eq_run`).

A pass of the outer loop takes a byte of one of the files, or it is the last.  So does a
pass of the inner one, unless it begins with a `NUL` in hand on both sides: then it takes
nothing, and leaves the inner loop by its `break` (`compare_progresses`).  The next pass of
the outer loop drops the two.
-/
import RunServer.Runner.Blanks

namespace RunServer.Runner

open RunServer.Theory.Endless
open Reader (ahead ahead_inj)

set_option autoImplicit false

/-! ## The passes of the two loops -/

/-- How the inner loop is left. -/
inductive InnerExit where
  | gotoEnd (ret : Judge)
  | broke (h : Heads Judge)
  deriving DecidableEq, Repr

/-- The end of a pass of the inner loop, after `find_next_nonspace`. -/
def endPass (h : Heads Judge) : Pass (Heads Judge) InnerExit :=
  if h.r1.head = none ∧ h.r2.head = none then .done (.gotoEnd h.ret)
  else if h.r1.head = none ∨ h.r2.head = none then .done (.gotoEnd .WA)
  else if endsLine h.r1.head && endsLine h.r2.head then .done (.broke h)
  else .again h

/-- "Compare the current line." -/
def innerPass (h : Heads Judge) : Option (Pass (Heads Judge) InnerExit) :=
  match readWord (h.r1.size + h.r2.size + 1) h.r1 h.r2 h.ret with
  | none => none
  | some (.finished ret) => some (.done (.gotoEnd ret))
  | some (.heads r1 r2) =>
      match findNextNonspace r1 r2 h.ret with
      | none => none
      | some (r1, r2, ret) => some (endPass ⟨r1, r2, ret⟩)

/-- The pass of the outer loop ends where the inner one is left. -/
def InnerExit.toOuter : InnerExit → Pass (Heads Judge) Judge
  | .gotoEnd ret => .done ret
  | .broke h => .again h

/-- Blank lines are skipped, and then the inner loop is entered. -/
def outerPass (h : Heads Judge) : Option (Pass (Heads Judge) Judge) :=
  match findNextNonspace h.r1.fgetc h.r2.fgetc h.ret with
  | none => none
  | some (r1, r2, ret) =>
      (run innerPass (r1.size + r2.size + 1) ⟨r1, r2, ret⟩).map InnerExit.toOuter

/-- Both files have been opened. -/
def opened (s t : List UInt8) : Heads Judge := ⟨Reader.fopen s, Reader.fopen t, .AC⟩

/-- The bytes `fgetc` has not returned yet. -/
def Heads.unread {ρ : Type} (h : Heads ρ) : Nat := h.r1.rest.length + h.r2.rest.length

/-- While `s` and `t` are compared, a pass of the outer loop begins in `h`. -/
def OuterBegins (s t : List UInt8) (h : Heads Judge) : Prop := Begins outerPass (opened s t) h

/-- While `s` and `t` are compared, a pass of the inner loop begins in `h`. -/
def InnerBegins (s t : List UInt8) (h : Heads Judge) : Prop :=
  ∃ outer inner, OuterBegins s t outer ∧
    findNextNonspace outer.r1.fgetc outer.r2.fgetc outer.ret =
      some (inner.r1, inner.r2, inner.ret) ∧
    Begins innerPass inner h

/-- Where the comparison goes on after a pass of the inner loop. -/
def goesOn? : Pass (Heads Judge) InnerExit → Option (Heads Judge)
  | .again h => some h
  | .done (.broke h) => some h
  | .done (.gotoEnd _) => none

/-- The pass of the outer loop ends the comparison, or takes a byte of one of the files. -/
def OuterAdvances (h : Heads Judge) : Prop :=
  ∃ e, outerPass h = some e ∧ ∀ h', e = .again h' → h'.unread < h.unread

/-- The pass of the inner loop ends the comparison, or takes a byte of one of the files. -/
def InnerAdvances (h : Heads Judge) : Prop :=
  ∃ e, innerPass h = some e ∧ ∀ h' ∈ goesOn? e, h'.unread < h.unread

/-- The pass of the inner loop has a `NUL` in hand on both sides, and ends in a `break`. -/
def BreaksAtNul (h : Heads Judge) : Prop :=
  h.r1.head = nul ∧ h.r2.head = nul ∧ innerPass h = some (.done (.broke h))

/-! ## One pass of the inner loop -/

section Inner

variable {s t : List UInt8} {ret mid : Judge}

/-- The loop over a word takes something, or leaves everything as it is. -/
theorem readWord_heads {fuel : Nat} {r1 r2 : Reader}
    (found : readWord fuel (ahead s) (ahead t) ret = some (.heads r1 r2)) :
    r1 = ahead s ∧ r2 = ahead t ∨ r1.size + r2.size < s.length + t.length := by
  induction fuel generalizing s t with
  | zero => simp [readWord] at found
  | succ fuel ih =>
      simp only [readWord] at found
      split at found
      · split at found
        · cases found
        · split at found
          · cases found
            exact Or.inl ⟨rfl, rfl⟩
          · split at found
            · cases found
            · rename_i both _
              refine Or.inr ?_
              cases s with
              | nil => simp at both
              | cons b s =>
                  cases t with
                  | nil => simp at both
                  | cons c t =>
                      simp only [List.length_cons]
                      rcases ih found with ⟨rfl, rfl⟩ | fewer
                      · simp only [Reader.ahead_size]
                        omega
                      · omega
      · cases found
        exact Or.inl ⟨rfl, rfl⟩

/-- How a pass of the inner loop that begins with `s` and `t` in hand can end. -/
inductive InnerEnds (s t : List UInt8) (ret : Judge) : Pass (Heads Judge) InnerExit → Prop
  | finished {ret' : Judge} : InnerEnds s t ret (.done (.gotoEnd ret'))
  | again {b c : UInt8} {u v : List UInt8} {mid : Judge} :
      (b :: u).length + (c :: v).length < s.length + t.length →
      InnerEnds s t ret (.again ⟨ahead (b :: u), ahead (c :: v), mid⟩)
  | broke {b c : UInt8} {u v : List UInt8} {mid : Judge} :
      (b :: u).length + (c :: v).length < s.length + t.length →
      InnerEnds s t ret (.done (.broke ⟨ahead (b :: u), ahead (c :: v), mid⟩))
  | atNul {u v : List UInt8} : s = 0 :: u → t = 0 :: v →
      InnerEnds s t ret (.done (.broke ⟨ahead s, ahead t, ret⟩))

/-- A pass that has taken something goes on behind it. -/
theorem innerEnds_of_fewer {u v : List UInt8}
    (fewer : u.length + v.length < s.length + t.length) :
    InnerEnds s t ret (endPass ⟨ahead u, ahead v, mid⟩) := by
  cases u with
  | nil =>
      cases v with
      | nil => exact .finished
      | cons c v => exact .finished
  | cons b u =>
      cases v with
      | nil => exact .finished
      | cons c v =>
          by_cases line : endsLine (some b) && endsLine (some c)
          · have ends : endPass ⟨ahead (b :: u), ahead (c :: v), mid⟩ = .done (.broke _) :=
              if_pos line
            rw [ends]
            exact .broke fewer
          · have ends : endPass ⟨ahead (b :: u), ahead (c :: v), mid⟩ = .again _ := if_neg line
            rw [ends]
            exact .again fewer

/-- A pass that ends where its word ended, with no space next. -/
theorem innerEnds_of_settled (ends : WordEnds s t) (left : Settled s) (right : Settled t) :
    InnerEnds s t ret (endPass ⟨ahead s, ahead t, ret⟩) := by
  cases ends with
  | left => exact .finished
  | right => exact .finished
  | @both b c u v hidden hidden' =>
      obtain ⟨rfl, rfl⟩ := (WordEnds.both hidden hidden').both_nul left right
      exact .atNul rfl rfl

theorem InnerEnds.of_fewer {u v : List UInt8} {e : Pass (Heads Judge) InnerExit}
    (ends : InnerEnds u v ret e) (fewer : u.length + v.length < s.length + t.length) :
    InnerEnds s t ret e := by
  cases ends with
  | finished => exact .finished
  | again more => exact .again (by omega)
  | broke more => exact .broke (by omega)
  | atNul first second =>
      subst first second
      exact .broke fewer

/-- **One pass of the inner loop.** -/
theorem innerPass_ends (s t : List UInt8) (ret : Judge) :
    ∃ e, innerPass ⟨ahead s, ahead t, ret⟩ = some e ∧ InnerEnds s t ret e := by
  obtain ⟨scan, scanned, read⟩ := @readWord_read s t ret ((ahead s).size + (ahead t).size + 1)
    (by simp)
  cases read with
  | @finished ret' _ => exact ⟨.done (.gotoEnd ret'), by rw [innerPass, scanned], .finished⟩
  | @heads u v ends shorter _ =>
      obtain ⟨mid, found, -⟩ := ends.findNextNonspace ret
      refine ⟨endPass ⟨ahead (u.dropWhile space), ahead (v.dropWhile space), mid⟩,
        by rw [innerPass, scanned]; simp only [found], ?_⟩
      rcases dropWhile_same_or_fewer u v with ⟨same, same'⟩ | fewer
      · have left : Settled u := same ▸ settled_dropWhile u
        have right : Settled v := same' ▸ settled_dropWhile v
        obtain rfl := findNextNonspace_kept (.of_settled left right) found
        rw [same, same']
        have later : InnerEnds u v mid _ := innerEnds_of_settled ends left right
        rcases readWord_heads scanned with ⟨first, second⟩ | fewer
        · obtain rfl := ahead_inj first
          obtain rfl := ahead_inj second
          exact later
        · exact later.of_fewer (by simpa using fewer)
      · exact innerEnds_of_fewer (by omega)

end Inner

/-! ## The loops end -/

section Loops

variable {s t : List UInt8} {ret : Judge}

/-- No more is in hand and unread than was at first. -/
def Within (s t : List UInt8) (h : Heads Judge) : Prop :=
  ∃ u v, h.r1 = ahead u ∧ h.r2 = ahead v ∧ u.length + v.length ≤ s.length + t.length

/-- The inner loop is left by a `break` with a byte in hand on both sides. -/
def LeftWithin (s t : List UInt8) (x : InnerExit) : Prop :=
  ∀ h, x = .broke h → h.unread + 2 ≤ s.length + t.length

theorem innerLoop_ends {fuel : Nat} (enough : s.length + t.length < fuel) :
    ∃ x, run innerPass fuel ⟨ahead s, ahead t, ret⟩ = some x ∧ LeftWithin s t x := by
  have size : (ahead s).size + (ahead t).size < fuel := by simpa using enough
  refine run_of_progress (Within s t) (LeftWithin s t) (fun h => h.r1.size + h.r2.size) ?_
    ⟨s, t, rfl, rfl, le_refl _⟩ size
  rintro ⟨r1, r2, ret⟩ ⟨u, v, rfl, rfl, fits⟩
  obtain ⟨e, pass, ends⟩ := innerPass_ends u v ret
  cases ends with
  | finished => exact Or.inl ⟨_, pass, fun _ broke => by cases broke⟩
  | @again b c u v mid fewer =>
      refine Or.inr ⟨_, pass, ⟨b :: u, c :: v, rfl, rfl, by omega⟩, ?_⟩
      simpa only [Reader.ahead_size] using fewer
  | broke fewer =>
      refine Or.inl ⟨_, pass, ?_⟩
      rintro h broke
      cases broke
      simp only [Heads.unread, Reader.ahead_cons_rest, List.length_cons] at fewer ⊢
      omega
  | atNul first second =>
      refine Or.inl ⟨_, pass, ?_⟩
      rintro h broke
      cases broke
      subst first second
      simp only [Heads.unread, Reader.ahead_cons_rest, List.length_cons] at fits ⊢
      omega

/-- A pass of the outer loop ends as its inner loop does. -/
theorem outerPass_eq {h : Heads Judge} {mid : Judge} {n : Nat} {x : InnerExit}
    (found : findNextNonspace h.r1.fgetc h.r2.fgetc h.ret = some (ahead s, ahead t, mid))
    (inner : run innerPass n ⟨ahead s, ahead t, mid⟩ = some x) :
    outerPass h = some x.toOuter := by
  have enough : s.length + t.length < (ahead s).size + (ahead t).size + 1 := by simp
  obtain ⟨x', inner', -⟩ := @innerLoop_ends s t mid _ enough
  obtain rfl := run_unique inner inner'
  simp only [outerPass, found, inner', Option.map_some]

/-- **One pass of the outer loop.** -/
theorem outerAdvances (h : Heads Judge) : OuterAdvances h := by
  obtain ⟨mid, found, -⟩ := findNextNonspace_compared h.r1.rest h.r2.rest h.ret
  have left := dropWhile_length_le h.r1.rest
  have right := dropWhile_length_le h.r2.rest
  obtain ⟨x, inner, within⟩ := @innerLoop_ends (h.r1.rest.dropWhile space)
    (h.r2.rest.dropWhile space) mid _ (Nat.lt_succ_self _)
  refine ⟨x.toOuter, outerPass_eq found inner, ?_⟩
  rintro h' more
  cases x with
  | gotoEnd ret => cases more
  | broke h' =>
      cases more
      have fewer := within h' rfl
      unfold Heads.unread at fewer ⊢
      omega

/-- How `compareLoop` goes on after a pass of the inner loop. -/
def resume (fuel : Nat) : Pass (Heads Judge) InnerExit → Option Judge
  | .again h => compareLoop fuel .inner h.r1 h.r2 h.ret
  | .done (.broke h) => compareLoop fuel .outer h.r1 h.r2 h.ret
  | .done (.gotoEnd ret) => some ret

theorem compareLoop_inner (fuel : Nat) (h : Heads Judge) :
    compareLoop (fuel + 1) .inner h.r1 h.r2 h.ret = (innerPass h).bind (resume fuel) := by
  rw [compareLoop, innerPass]
  cases readWord (h.r1.size + h.r2.size + 1) h.r1 h.r2 h.ret with
  | none => rfl
  | some scan =>
      cases scan with
      | finished ret => rfl
      | heads r1 r2 =>
          dsimp only
          cases findNextNonspace r1 r2 h.ret with
          | none => rfl
          | some found =>
              simp only [endPass, Option.bind_some, apply_ite (resume fuel)]
              rfl

/-- The comparison goes on from the end of the inner loop to this answer. -/
def InnerExit.Leads (x : InnerExit) (ret' : Judge) : Prop :=
  x = .gotoEnd ret' ∨ ∃ h n, x = .broke h ∧ run outerPass n h = some ret'

/-- What `compareLoop` answers, the loops made of the passes answer. -/
def Runs (fuel : Nat) : Prop :=
  (∀ (h : Heads Judge) ret', compareLoop fuel .outer h.r1 h.r2 h.ret = some ret' →
    ∃ n, run outerPass n h = some ret') ∧
  ∀ s t ret ret', compareLoop fuel .inner (ahead s) (ahead t) ret = some ret' →
    ∃ n x, run innerPass n ⟨ahead s, ahead t, ret⟩ = some x ∧ x.Leads ret'

theorem runs_outer {fuel : Nat} (next : Runs fuel) (h : Heads Judge) (ret' : Judge)
    (answer : compareLoop (fuel + 1) .outer h.r1 h.r2 h.ret = some ret') :
    ∃ n, run outerPass n h = some ret' := by
  obtain ⟨mid, found, -⟩ := findNextNonspace_compared h.r1.rest h.r2.rest h.ret
  simp only [compareLoop, Reader.fgetc_eq_ahead, found] at answer
  obtain ⟨n, x, inner, leads⟩ := next.2 _ _ _ _ answer
  have pass := outerPass_eq found inner
  rcases leads with rfl | ⟨h', m, rfl, later⟩
  · exact ⟨1, run_done pass 0⟩
  · exact ⟨m + 1, (run_again pass m).trans later⟩

theorem runs_inner {fuel : Nat} (next : Runs fuel) (s t : List UInt8) (ret ret' : Judge)
    (answer : compareLoop (fuel + 1) .inner (ahead s) (ahead t) ret = some ret') :
    ∃ n x, run innerPass n ⟨ahead s, ahead t, ret⟩ = some x ∧ x.Leads ret' := by
  obtain ⟨e, pass, ends⟩ := innerPass_ends s t ret
  have goes := compareLoop_inner fuel ⟨ahead s, ahead t, ret⟩
  rw [pass, Option.bind_some, answer] at goes
  cases ends with
  | finished =>
      obtain rfl := Option.some.inj goes
      exact ⟨1, _, run_done pass 0, Or.inl rfl⟩
  | @again b c u v mid _ =>
      obtain ⟨n, x, inner, leads⟩ := next.2 (b :: u) (c :: v) mid ret' goes.symm
      exact ⟨n + 1, x, (run_again pass n).trans inner, leads⟩
  | broke _ =>
      obtain ⟨n, later⟩ := next.1 _ _ goes.symm
      exact ⟨1, _, run_done pass 0, Or.inr ⟨_, n, rfl, later⟩⟩
  | atNul _ _ =>
      obtain ⟨n, later⟩ := next.1 _ _ goes.symm
      exact ⟨1, _, run_done pass 0, Or.inr ⟨_, n, rfl, later⟩⟩

theorem runs (fuel : Nat) : Runs fuel := by
  induction fuel with
  | zero =>
      constructor
      · intro h ret' answer
        cases answer
      · intro s t ret ret' answer
        cases answer
  | succ fuel ih => exact ⟨runs_outer ih, runs_inner ih⟩

end Loops

/-! ## `compare` -/

section Compare

variable {s t : List UInt8} {h : Heads Judge}

/-- **`compare` is the loop of these passes.** -/
theorem compare_eq_run (s t : List UInt8) :
    ∃ ret, compare (some s) (some t) = some ret ∧
      run outerPass (s.length + t.length + 1) (opened s t) = some ret := by
  obtain ⟨ret, answer, -⟩ := compare_compared s t
  obtain ⟨n, ran⟩ := (runs _).1 (opened s t) ret answer
  obtain ⟨ret', ended⟩ := run_ends Heads.unread outerAdvances (opened s t)
  obtain rfl := run_unique ran ended
  exact ⟨ret, answer, ended⟩

/-- A pass of the inner loop begins one character ahead in each file. -/
theorem InnerBegins.eq_ahead (begins : InnerBegins s t h) :
    ∃ u v, h.r1 = ahead u ∧ h.r2 = ahead v := by
  obtain ⟨outer, ⟨r1, r2, ret⟩, -, found, begins⟩ := begins
  obtain ⟨mid, found', -⟩ := findNextNonspace_compared outer.r1.rest outer.r2.rest outer.ret
  rw [Reader.fgetc_eq_ahead, Reader.fgetc_eq_ahead, found'] at found
  cases found
  refine begins.invariant (I := fun h => ∃ u v, h.r1 = ahead u ∧ h.r2 = ahead v)
    ⟨_, _, rfl, rfl⟩ ?_
  rintro ⟨r1, r2, ret⟩ next ⟨u, v, rfl, rfl⟩ turn
  obtain ⟨e, pass, ends⟩ := innerPass_ends u v ret
  rw [pass] at turn
  cases turn
  cases ends with
  | @again b c u v _ _ => exact ⟨b :: u, c :: v, rfl, rfl⟩

/-- A pass that goes on with less has taken a byte. -/
theorem unread_lt {u v u' v' : List UInt8} {b c : UInt8} {ret mid : Judge}
    (fewer : (b :: u').length + (c :: v').length < u.length + v.length) :
    ∀ h' ∈ some (Heads.mk (ahead (b :: u')) (ahead (c :: v')) mid),
      h'.unread < (Heads.mk (ahead u) (ahead v) ret).unread := by
  rintro h' goesOn
  cases goesOn
  simp only [Heads.unread, Reader.ahead_rest, List.length_tail, List.length_cons] at fewer ⊢
  omega

/-- A pass of the inner loop advances, or breaks at a `NUL` on both sides. -/
theorem innerAdvances_or (begins : InnerBegins s t h) : InnerAdvances h ∨ BreaksAtNul h := by
  obtain ⟨u, v, first, second⟩ := begins.eq_ahead
  obtain ⟨r1, r2, ret⟩ := h
  subst first second
  obtain ⟨e, pass, ends⟩ := innerPass_ends u v ret
  cases ends with
  | finished => exact Or.inl ⟨_, pass, fun _ goesOn => by cases goesOn⟩
  | again fewer => exact Or.inl ⟨_, pass, unread_lt fewer⟩
  | broke fewer => exact Or.inl ⟨_, pass, unread_lt fewer⟩
  | atNul left right =>
      subst left right
      exact Or.inr ⟨rfl, rfl, pass⟩

end Compare

/-- **Progress.**  `compare` ends.  A pass of its outer loop is the last or takes a byte, and
so is one of its inner loop, unless it begins with a `NUL` in hand on both sides. -/
theorem compare_progresses (s t : List UInt8) :
    (∃ ret, compare (some s) (some t) = some ret ∧
      run outerPass (s.length + t.length + 1) (opened s t) = some ret) ∧
    (∀ h, OuterBegins s t h → OuterAdvances h) ∧
    ∀ h, InnerBegins s t h → InnerAdvances h ∨ BreaksAtNul h :=
  ⟨compare_eq_run s t, fun h _ => outerAdvances h, fun _ begins => innerAdvances_or begins⟩

namespace Sample

/-- Two files of one `NUL`: the pass of the inner loop takes nothing, and breaks. -/
theorem nul_kept_sample :
    ¬ ∀ s t, (∃ ret, compare (some s) (some t) = some ret) ∧
      (∀ h, OuterBegins s t h → OuterAdvances h) ∧
      ∀ h, InnerBegins s t h → InnerAdvances h := by
  intro progresses
  obtain ⟨-, -, inner⟩ := progresses [0] [0]
  have begins : InnerBegins [0] [0] ⟨ahead [0], ahead [0], .AC⟩ :=
    ⟨opened [0] [0], ⟨ahead [0], ahead [0], .AC⟩, .first, rfl, .first⟩
  obtain ⟨e, pass, advances⟩ := inner _ begins
  have breaks : innerPass ⟨ahead [0], ahead [0], .AC⟩ =
      some (.done (.broke ⟨ahead [0], ahead [0], .AC⟩)) := rfl
  rw [breaks] at pass
  cases pass
  exact absurd (advances _ rfl) (by decide)

end Sample

end RunServer.Runner
