/-
# Dispatch.Requests -- several judgings in one directory

A request starts a judging whatever else is running, another judging of the same `Sid`
among it.  Each judging makes `runPath/Sid/Vid`, writes its source there, compiles it,
copies the test data, runs, and removes `runPath/Sid` with everything below it; an
accepted contest submission makes and removes it once more in `get_sim`.  These are the
steps here, in any interleaving, and what is kept of a directory is which judging has
put each of its files there.

A judging `Needs` what it has put until it has run.  `owned_iff` says that every
compilation and every run finds the judging's own files, and that nothing still needed
has been lost, just when no step was taken over another judging's needs
(`Undisturbing`).
-/
import RunServer.Theory.Interleave
import RunServer.Dispatch.Alone

namespace RunServer.Dispatch.Requests

open RunServer.Theory.Interleave

set_option autoImplicit false

/-! ## Directories -/

/-- What a judging puts into its directory. -/
inductive Item where
  | source (codefilename : String)
  | binary
  | data
  deriving DecidableEq, Repr

/-- The judging that has put an item there. -/
abbrev Holders := Item → Option Nat

inductive Point where
  | mkdir
  | write
  | compile
  | copy
  | run
  | removeAll
  /-- `get_sim` comes next, if this judging comes to it. -/
  | similarity
  | simRemoveAll
  | finished
  deriving DecidableEq, Repr

inductive Call where
  | mkdir
  | write
  | compile (ok : Bool)
  | copy
  | run
  | removeAll
  | simMkdir
  | simRemoveAll
  deriving DecidableEq, Repr

def Call.at : Call → Point
  | .mkdir => .mkdir
  | .write => .write
  | .compile _ => .compile
  | .copy => .copy
  | .run => .run
  | .removeAll => .removeAll
  | .simMkdir => .similarity
  | .simRemoveAll => .simRemoveAll

def Call.next : Call → Point
  | .mkdir => .write
  | .write => .compile
  | .compile true => .copy
  | .compile false => .removeAll
  | .copy => .run
  | .run => .removeAll
  | .removeAll => .similarity
  | .simMkdir => .simRemoveAll
  | .simRemoveAll => .finished

structure Action where
  judging : Nat
  call : Call
  deriving DecidableEq, Repr

structure Server where
  /-- `runPath/Sid` is there. -/
  roots : Int → Bool
  dirs : Path → Option Holders
  points : Nat → Point

def Server.held (s : Server) (path : Path) (item : Item) : Option Nat :=
  (s.dirs path).bind fun dir => dir item

/-- Directories may be left over, with nothing in them that a judging has put there. -/
def start (roots : Int → Bool) (left : Path → Bool) : Server :=
  { roots
    dirs := fun path => if left path then some fun _ => none else none
    points := fun _ => .mkdir }

section Steps

-- the submission that each judging has loaded
variable (users : Nat → Solution)

def path (j : Nat) : Path := ((users j).sid, (users j).vid)

/-- What `files` creates; nothing for another language. -/
def sourceOf (j : Nat) : Option Item := (codefilename (users j).language).map .source

/-- Into a directory that is not there nothing is put. -/
def put (s : Server) (j : Nat) (item : Option Item) : Server :=
  match item, s.dirs (path users j) with
  | some item, some dir =>
      { s with
        dirs := Function.update s.dirs (path users j)
          (some (Function.update dir item (some j))) }
  | _, _ => s

def mkdir (s : Server) (j : Nat) : Server :=
  { s with
    roots := Function.update s.roots (users j).sid true
    dirs := Function.update s.dirs (path users j)
      (some ((s.dirs (path users j)).getD fun _ => none)) }

/-- `cp -r dataPath/Vid runPath/Sid`: with no directory of that name in `runPath/Sid` the
copy is a new one, and with no `runPath/Sid` the copy gets this name itself. -/
def copyData (s : Server) (j : Nat) : Server :=
  match s.dirs (path users j) with
  | some _ => put users s j (some .data)
  | none =>
      if s.roots (users j).sid then
        { s with
          dirs := Function.update s.dirs (path users j)
            (some (Function.update (fun _ => none) .data (some j))) }
      else { s with roots := Function.update s.roots (users j).sid true }

def removeAll (s : Server) (j : Nat) : Server :=
  { s with
    roots := Function.update s.roots (users j).sid false
    dirs := fun path => if path.1 = (users j).sid then none else s.dirs path }

def act (s : Server) (a : Action) : Server :=
  match a.call with
  | .mkdir => mkdir users s a.judging
  | .write => put users s a.judging (sourceOf users a.judging)
  | .compile true => put users s a.judging (some .binary)
  | .compile false | .run => s
  | .copy => copyData users s a.judging
  | .removeAll | .simRemoveAll => removeAll users s a.judging
  | .simMkdir => { s with roots := Function.update s.roots (users a.judging).sid true }

def step (s : Server) (a : Action) : Option Server :=
  if s.points a.judging = a.call.at then
    some { act users s a with points := Function.update s.points a.judging a.call.next }
  else none

/-! ## Needs -/

/-- What a step puts into its judging's directory. -/
def Action.puts (a : Action) : Option Item :=
  match a.call with
  | .write => sourceOf users a.judging
  | .compile true => some .binary
  | .copy => some .data
  | _ => none

def Action.Removes (a : Action) : Prop := a.call = .removeAll ∨ a.call = .simRemoveAll

instance (a : Action) : Decidable a.Removes := by unfold Action.Removes; infer_instance

/-- What a judging has put, as long as it has not run; `none` for a source it could not. -/
def needs (s : Server) (j : Nat) : List (Option Item) :=
  match s.points j with
  | .compile => [sourceOf users j]
  | .copy => [sourceOf users j, some .binary]
  | .run => [sourceOf users j, some .binary, some .data]
  | _ => []

/-- The item is there as this judging has put it. -/
def Own (s : Server) (j : Nat) (item : Option Item) : Prop :=
  ∃ x ∈ item, s.held (path users j) x = some j

/-- Nothing that the judging still needs has been removed or replaced. -/
def Sound (s : Server) (j : Nat) : Prop := ∀ item ∈ needs users s j, Own users s j item

/-- A compilation finds its own source; a run finds its own source, binary and data. -/
def FindsOwn (_ : List Action) (s : Server) (a : Action) : Prop :=
  a.call.at = .compile ∨ a.call.at = .run → Sound users s a.judging

/-- The source is written into a directory that is there, in a language that has a name for
it; and what a step puts or removes, no other judging needs. -/
structure Undisturbing (h : List Action) (s : Server) (a : Action) : Prop where
  write : a.call = .write →
    (s.dirs (path users a.judging)).isSome ∧ (sourceOf users a.judging).isSome
  put : ∀ item ∈ a.puts users, ∀ j, j ≠ a.judging → path users j = path users a.judging →
    some item ∉ needs users s j
  remove : a.Removes → ∀ j, j ≠ a.judging → (users j).sid = (users a.judging).sid →
    needs users s j = []

end Steps

/-! ## What a step does to a file -/

section Files

variable {users : Nat → Solution} {s t : Server} {a : Action} {j : Nat} {item : Option Item}

theorem of_step (taken : step users s a = some t) :
    s.points a.judging = a.call.at ∧
      t = { act users s a with points := Function.update s.points a.judging a.call.next } := by
  unfold step at taken
  split at taken
  · rename_i point
    exact ⟨point, (Option.some.inj taken).symm⟩
  · cases taken

theorem held_put (s : Server) (j : Nat) {x : Item} {dir : Holders}
    (there : s.dirs (path users j) = some dir) :
    (put users s j (some x)).held (path users j) x = some j := by
  simp [put, there, Server.held]

/-- Putting one item leaves the others alone. -/
theorem held_put_of_ne {x : Item} {place : Path}
    (other : place = path users j → item ≠ some x) :
    (put users s j item).held place x = s.held place x := by
  unfold put
  split
  · rename_i y dir there
    by_cases same : place = path users j
    · have ne : x ≠ y := fun same' => other same (by rw [same'])
      subst same
      simp [Server.held, there, ne]
    · simp [Server.held, same]
  · rfl

theorem held_act_of_removes (removes : a.Removes) {place : Path}
    (inside : place.1 = (users a.judging).sid) (x : Item) :
    (act users s a).held place x = none := by
  rcases removes with call | call <;> simp [act, call, removeAll, Server.held, inside]

/-- What is neither put nor removed stays. -/
theorem held_act_of_ne {place : Path} {x : Item}
    (kept : a.Removes → place.1 ≠ (users a.judging).sid)
    (other : place = path users a.judging → a.puts users ≠ some x) :
    (act users s a).held place x = s.held place x := by
  obtain ⟨k, call⟩ := a
  cases call with
  | mkdir =>
      by_cases same : place = path users k
      · subst same
        cases there : s.dirs (path users k) <;> simp [act, mkdir, Server.held, there]
      · simp [act, mkdir, Server.held, same]
  | write => exact held_put_of_ne other
  | compile ok =>
      cases ok with
      | true => exact held_put_of_ne other
      | false => rfl
  | copy =>
      simp only [act, copyData]
      split
      · exact held_put_of_ne other
      · rename_i missing
        split
        · by_cases same : place = path users k
          · have ne : x ≠ .data := fun same' => other same (by rw [same']; rfl)
            subst same
            simp [Server.held, missing, ne]
          · simp [Server.held, same]
        · rfl
  | run => rfl
  | removeAll =>
      have outside := kept (Or.inl rfl)
      simp [act, removeAll, Server.held, outside]
  | simMkdir => rfl
  | simRemoveAll =>
      have outside := kept (Or.inr rfl)
      simp [act, removeAll, Server.held, outside]

/-- A step puts things into a directory that is there. -/
theorem held_act_of_puts {x : Item} {dir : Holders} (puts : a.puts users = some x)
    (there : s.dirs (path users a.judging) = some dir) :
    (act users s a).held (path users a.judging) x = some a.judging := by
  obtain ⟨k, call⟩ := a
  cases call with
  | write =>
      have source : sourceOf users k = some x := puts
      simp only [act, source]
      exact held_put s k there
  | compile ok =>
      cases ok with
      | true =>
          cases puts
          exact held_put s k there
      | false => cases puts
  | copy =>
      cases puts
      simp only [act, copyData, there]
      exact held_put s k there
  | mkdir | run | removeAll | simMkdir | simRemoveAll => cases puts

/-- And it puts them there as its own judging's. -/
theorem judging_of_puts {x : Item} {j : Nat} (puts : a.puts users = some x)
    (held : (act users s a).held (path users a.judging) x = some j) : j = a.judging := by
  cases there : s.dirs (path users a.judging) with
  | some dir =>
      rw [held_act_of_puts puts there] at held
      exact (Option.some.inj held).symm
  | none =>
      obtain ⟨k, call⟩ := a
      cases call with
      | write =>
          have source : sourceOf users k = some x := puts
          simp [act, put, source, Server.held, there] at held
      | compile ok =>
          cases ok with
          | true => simp [act, put, Server.held, there] at held
          | false => cases puts
      | copy =>
          cases puts
          simp only [act, copyData, there] at held
          split at held
          · simpa [Server.held, eq_comm] using held
          · simp [Server.held, there] at held
      | mkdir | run | removeAll | simMkdir | simRemoveAll => cases puts

end Files

/-! ## Sound and spoiled -/

section Runs

variable {users : Nat → Solution} {s t : Server} {h : List Action} {a : Action} {j : Nat}
variable {item : Option Item}

theorem Own.dir (own : Own users s j item) : ∃ dir, s.dirs (path users j) = some dir := by
  obtain ⟨x, -, held⟩ := own
  obtain ⟨dir, there, -⟩ := Option.bind_eq_some_iff.1 held
  exact ⟨dir, there⟩

/-- Nobody puts anything there for another judging. -/
theorem own_of_step (taken : step users s a = some t) (own : Own users t j item) :
    Own users s j item ∨ j = a.judging ∧ a.puts users = item := by
  obtain ⟨-, rfl⟩ := of_step taken
  obtain ⟨x, mem, held⟩ := own
  change (act users s a).held (path users j) x = some j at held
  cases mem
  by_cases removed : a.Removes ∧ (path users j).1 = (users a.judging).sid
  · rw [held_act_of_removes removed.1 removed.2] at held
    cases held
  · by_cases puts : path users j = path users a.judging ∧ a.puts users = some x
    · rw [puts.1] at held
      exact Or.inr ⟨judging_of_puts puts.2 held, puts.2⟩
    · rw [held_act_of_ne (fun removes inside => removed ⟨removes, inside⟩)
        fun same puts' => puts ⟨same, puts'⟩] at held
      exact Or.inl ⟨x, rfl, held⟩

/-- What is a judging's own stays so, unless another removes or replaces it. -/
theorem Own.kept (own : Own users s j item) (taken : step users s a = some t)
    (remains : a.Removes → (users j).sid ≠ (users a.judging).sid)
    (mine : j ≠ a.judging → path users j = path users a.judging → a.puts users ≠ item) :
    Own users t j item := by
  obtain ⟨dir, there⟩ := own.dir
  obtain ⟨-, rfl⟩ := of_step taken
  obtain ⟨x, rfl, held⟩ := own
  refine ⟨x, rfl, ?_⟩
  change (act users s a).held (path users j) x = some j
  by_cases puts : path users j = path users a.judging ∧ a.puts users = some x
  · by_cases same : j = a.judging
    · subst same
      exact held_act_of_puts puts.2 there
    · exact absurd puts.2 (mine same puts.1)
  · rw [held_act_of_ne remains fun same puts' => puts ⟨same, puts'⟩]
    exact held

theorem needs_of_ne (taken : step users s a = some t) (other : j ≠ a.judging) :
    needs users t j = needs users s j := by
  obtain ⟨-, rfl⟩ := of_step taken
  simp [needs, other]

/-- A judging comes to need what it puts, and needs nothing after it removes. -/
theorem of_needs (taken : step users s a = some t) (need : item ∈ needs users t a.judging) :
    (item ∈ needs users s a.judging ∨ a.puts users = item) ∧ ¬ a.Removes := by
  obtain ⟨point, rfl⟩ := of_step taken
  obtain ⟨k, call⟩ := a
  simp only [needs, Function.update_self, point] at need ⊢
  cases call with
  | write => exact ⟨Or.inr (List.mem_singleton.1 need).symm, by simp [Action.Removes]⟩
  | compile ok =>
      cases ok with
      | true =>
          refine ⟨?_, by simp [Action.Removes]⟩
          simpa [Call.at, Call.next, Action.puts, eq_comm] using need
      | false => cases need
  | copy =>
      refine ⟨?_, by simp [Action.Removes]⟩
      simpa [Call.at, Call.next, Action.puts, eq_comm, or_assoc] using need
  | mkdir | run | removeAll | simMkdir | simRemoveAll => cases need

theorem own_of_puts (sound : Sound users s a.judging) (allowed : Undisturbing users h s a)
    (taken : step users s a = some t) (need : item ∈ needs users t a.judging)
    (puts : a.puts users = item) : Own users t a.judging item := by
  obtain ⟨point, rfl⟩ := of_step taken
  simp only [needs, Function.update_self] at need
  -- the directory is there, since the source is, or is about to be
  have there : ∃ x dir, a.puts users = some x ∧ s.dirs (path users a.judging) = some dir := by
    obtain ⟨k, call⟩ := a
    cases call with
    | write =>
        obtain ⟨dir, source⟩ := allowed.write rfl
        obtain ⟨x, source⟩ := Option.isSome_iff_exists.1 source
        obtain ⟨dir, there⟩ := Option.isSome_iff_exists.1 dir
        exact ⟨x, dir, source, there⟩
    | compile ok =>
        cases ok with
        | true =>
            obtain ⟨dir, there⟩ := (sound (sourceOf users k) (by simp [needs, point, Call.at])).dir
            exact ⟨_, dir, rfl, there⟩
        | false => cases need
    | copy =>
        obtain ⟨dir, there⟩ := (sound (sourceOf users k) (by simp [needs, point, Call.at])).dir
        exact ⟨_, dir, rfl, there⟩
    | mkdir | run | removeAll | simMkdir | simRemoveAll => cases need
  obtain ⟨x, dir, puts', there⟩ := there
  exact ⟨x, puts.symm.trans puts', held_act_of_puts puts' there⟩

/-- **Undisturbed judgings stay sound.** -/
theorem sound_next (sound : ∀ j, Sound users s j) (allowed : Undisturbing users h s a)
    (taken : step users s a = some t) (j : Nat) : Sound users t j := by
  intro item need
  by_cases mine : j = a.judging
  · subst mine
    obtain ⟨before | puts, remains⟩ := of_needs taken need
    · exact (sound _ item before).kept taken (fun removes => absurd removes remains)
        fun other => absurd rfl other
    · exact own_of_puts (sound _) allowed taken need puts
  · rw [needs_of_ne taken mine] at need
    refine (sound j item need).kept taken (fun removes same => ?_) fun _ same puts => ?_
    · rw [allowed.remove removes j mine same] at need
      cases need
    · obtain ⟨x, mem, -⟩ := sound j item need
      cases mem
      exact allowed.put x puts j mine same need

/-- What is lost does not come back. -/
theorem spoiled_next (spoiled : ¬ Sound users s j) (found : FindsOwn users h s a)
    (taken : step users s a = some t) : ¬ Sound users t j := by
  intro sound
  refine spoiled fun item need => ?_
  by_cases mine : j = a.judging
  · subst mine
    obtain ⟨point, after⟩ := of_step taken
    obtain ⟨k, call⟩ := a
    cases call with
    | compile ok => exact found (Or.inl rfl) item need
    | run => exact found (Or.inr rfl) item need
    | copy =>
        -- the copy puts neither source nor binary
        have later : item ∈ needs users t k := by
          simp only [needs, point, Call.at] at need
          simp only [needs, after, Function.update_self, Call.next]
          exact List.mem_append_left [some .data] need
        refine (own_of_step taken (sound item later)).resolve_right fun puts => ?_
        simp [needs, point, Call.at, ← puts.2, Action.puts, sourceOf] at need
    | mkdir | write | removeAll | simMkdir | simRemoveAll =>
        simp [needs, point, Call.at] at need
  · have own := sound item (by rwa [needs_of_ne taken mine])
    exact (own_of_step taken own).resolve_right fun puts => mine puts.1

/-- A disturbance spoils the judging that it disturbs. -/
theorem spoiled_of_disturbing (disturbing : ¬ Undisturbing users h s a)
    (taken : step users s a = some t) : ∃ j, ¬ Sound users t j := by
  by_contra none_
  have sound (j : Nat) : Sound users t j := not_not.1 fun spoiled => none_ ⟨j, spoiled⟩
  obtain ⟨point, after⟩ := of_step taken
  refine disturbing ⟨fun call => ?_, fun x puts j other same need => ?_,
    fun removes j other same => ?_⟩
  · have own : Own users t a.judging (sourceOf users a.judging) :=
      sound _ _ (by simp [needs, after, call, Call.next])
    refine ⟨Option.isSome_iff_ne_none.2 fun missing => ?_, ?_⟩
    · obtain ⟨dir, there⟩ := own.dir
      simp [after, act, call, put, missing] at there
    · obtain ⟨x, mem, -⟩ := own
      exact Option.isSome_of_mem mem
  · obtain ⟨y, mem, held⟩ := sound j (some x) (by rwa [needs_of_ne taken other])
    cases mem
    rw [after, same] at held
    exact other (judging_of_puts puts held)
  · refine List.eq_nil_iff_forall_not_mem.2 fun item need => ?_
    obtain ⟨x, -, held⟩ := sound j item (by rwa [needs_of_ne taken other])
    have gone : (act users s a).held (path users j) x = none :=
      held_act_of_removes removes same x
    rw [after] at held
    exact absurd (gone.symm.trans held) (by simp)

theorem sound_of_run {roots : Int → Bool} {left : Path → Bool}
    (run : Run (step users) (Undisturbing users) (start roots left) h t) (j : Nat) :
    Sound users t j := by
  refine run.invariant (I := fun _ s => ∀ j, Sound users s j) (fun j item need => ?_) ?_ j
  · cases need
  · exact fun h s a t _ sound allowed taken => sound_next sound allowed taken

variable (users) in
/-- **Each judging its own directory.**  Every compilation and every run of a run has found
its own files, and nothing still needed has been lost, just when no step was taken over
another judging's needs. -/
theorem owned_iff (roots : Int → Bool) (left : Path → Bool) (h : List Action) (t : Server) :
    Run (step users) (FindsOwn users) (start roots left) h t ∧ (∀ j, Sound users t j) ↔
      Run (step users) (Undisturbing users) (start roots left) h t := by
  constructor
  · rintro ⟨run, sound⟩
    have owned : Run (step users) (Undisturbing users) (start roots left) h t ∨
        ∃ j, ¬ Sound users t j := by
      clear sound
      induction run with
      | start => exact Or.inl .start
      | @step h s t a before found taken ih =>
          rcases ih with undisturbed | ⟨j, spoiled⟩
          · by_cases allowed : Undisturbing users h s a
            · exact Or.inl (.step undisturbed allowed taken)
            · exact Or.inr (spoiled_of_disturbing allowed taken)
          · exact Or.inr ⟨j, spoiled_next spoiled found taken⟩
    exact owned.resolve_right fun ⟨j, spoiled⟩ => spoiled (sound j)
  · intro run
    refine ⟨run.reguard fun _ _ a _ before _ _ _ => sound_of_run before a.judging, ?_⟩
    exact sound_of_run run

/-! ## One judging for each `Sid` -/

/-- A step reaches no directory of another `Sid`. -/
theorem dirs_act_of_ne {place : Path} (other : place.1 ≠ (users a.judging).sid) :
    (act users s a).dirs place = s.dirs place := by
  have ne : place ≠ path users a.judging := fun same => other (congrArg Prod.fst same)
  have kept (item : Option Item) : (put users s a.judging item).dirs place = s.dirs place := by
    unfold put
    split
    · exact Function.update_of_ne ne _ _
    · rfl
  unfold act
  split
  · exact Function.update_of_ne ne _ _
  · exact kept _
  · exact kept _
  · rfl
  · rfl
  · unfold copyData
    split
    · exact kept _
    · split
      · exact Function.update_of_ne ne _ _
      · rfl
  · exact if_neg other
  · exact if_neg other
  · rfl

section Distinct

variable {roots : Int → Bool} {left : Path → Bool}

/-- Nobody removes the directory between `mkdir` and the source. -/
theorem dir_of_write (distinct : Function.Injective fun j => (users j).sid)
    (run : Run (step users) Free (start roots left) h s) :
    ∀ j, s.points j = .write → (s.dirs (path users j)).isSome := by
  induction run with
  | start =>
      intro j point
      cases point
  | @step h s t a before _ taken there =>
      intro j point
      obtain ⟨-, rfl⟩ := of_step taken
      by_cases mine : j = a.judging
      · subst mine
        obtain ⟨k, call⟩ := a
        rcases call with - | - | (_ | _) | - | - | - | - | - <;> simp [Call.next] at point
        simp [act, mkdir]
      · have other : (path users j).1 ≠ (users a.judging).sid := fun same => mine (distinct same)
        change ((act users s a).dirs (path users j)).isSome
        rw [dirs_act_of_ne other]
        exact there j (by simpa [mine] using point)

/-- **Different submissions**, in languages the judger knows, do not disturb each other. -/
theorem undisturbing_of_distinct (distinct : Function.Injective fun j => (users j).sid)
    (named : ∀ j, (sourceOf users j).isSome)
    (run : Run (step users) Free (start roots left) h t) :
    Run (step users) (Undisturbing users) (start roots left) h t := by
  refine run.reguard fun h s a t before _ taken => ?_
  obtain ⟨point, -⟩ := of_step taken
  refine ⟨fun call => ⟨dir_of_write distinct before _ ?_, named _⟩, fun x _ j other same => ?_,
    fun _ j other same => absurd (distinct same) other⟩
  · rw [point, call]
    rfl
  · exact absurd (distinct (congrArg Prod.fst same)) other

end Distinct

end Runs

/-! ## A rejudge -/

namespace Sample

/-- Every judging is for submission 1. -/
def users (_ : Nat) : Solution := { (Dispatch.Sample.record 1).val with vid := 1000, oj := "" }

def begin : Server := start (fun _ => false) fun _ => false

/-- Judging 1 starts while judging 0 is running, and judging 0 then removes. -/
def rejudged : List Action :=
  [⟨0, .mkdir⟩, ⟨0, .write⟩, ⟨0, .compile true⟩, ⟨0, .copy⟩, ⟨1, .mkdir⟩, ⟨0, .run⟩,
    ⟨1, .write⟩, ⟨0, .removeAll⟩]

end Sample

/-- Judging 1 goes on to compile in a directory that is gone. -/
theorem removed_sample :
    ∃ s t, Run (step Sample.users) Free Sample.begin Sample.rejudged s ∧
      step Sample.users s ⟨1, .compile false⟩ = some t ∧
      ¬ FindsOwn Sample.users Sample.rejudged s ⟨1, .compile false⟩ := by
  refine ⟨_, _, Run.of_follow rfl, rfl, fun found => ?_⟩
  obtain ⟨dir, there⟩ := (found (Or.inl rfl) _ (List.mem_singleton.2 rfl)).dir
  cases there

end RunServer.Dispatch.Requests
