/-
  CovProcess.Handle.Destroy — `~member_holder` after any calls on a handle
  (`process.hpp`; see `CovProcess.Handle.Model` and `CovProcess.Handle.WaitTimeout`).

  The destructor joins the wait work, then the readers, and closes the pipes last.
  `uv_cancel` takes a work off the queue; one that runs is waited for, a `waitid` until the
  child exits. The child here also reads its stdin to the end before it writes on, and
  the methods include `close_stdin` and reads through `out()` and `err()`. With one handle
  no work waits for a thread: there are three at most.

  Proved: `destroy_hangs_iff`, from where the destructor starts a state can be reached in
  which it waits for the wait work and nobody can go on, exactly when a worker is inside
  `waitid` for a child that cannot finish with the handle's pipes as they are
  (`Released`); `stdin_held`, the shortest such run.
-/

import CovProcess.Handle.WaitTimeout

namespace CovProcess.Handle

open CovProcess.Stream (StreamName fdOf closeStdin)

/-- A pool with a thread for every work. -/
def ownPool (cap : Nat) (hcap : 0 < cap) : Config := ⟨cap, hcap, fun _ _ => true⟩

/-- Where `~member_holder` is: before an `await_work`, in its loop, before `close_process`,
    or at its end. It starts with a `join .wait`. -/
inductive Dtor where
  | join (k : Kind)
  | spin (k : Kind)
  | close
  | gone

structure Lifetime where
  timed : Timed
  /-- What the child writes after each time it has read its stdin to the end. -/
  later : List (List StreamName) := []
  dtor : Option Dtor := none

namespace State

/-- `uv_cancel`: a work that has no thread is posted without having run. -/
def cancel (s : State) (i : Nat) (k : Kind) (w : AsyncWork) : State :=
  if w.phase = .queued then
    { s.setWork i k (some { w with phase := .posted }) with pool := s.pool.erase ⟨i, k⟩ }
  else s

def closeProcess (s : State) (i : Nat) : State :=
  s.setHandle i { s.handle i with
    info := { (s.handle i).info with stdin := FD_INVALID, stdout := FD_INVALID, stderr := FD_INVALID } }

end State

/-- The order of the joins. -/
def Kind.next : Kind → Dtor
  | .wait => .join (.read .stdout)
  | .read .stdout => .join (.read .stderr)
  | .read .stderr => .close

/-- The destructor goes on; an empty work is passed by. -/
def State.join (s : State) : Dtor → Option (State × Dtor)
  | .join k =>
    match (s.handle 0).work k with
    | none => some (s, k.next)
    | some w => some (s.cancel 0 k w, .spin k)
  | .spin k =>
    match (s.handle 0).work k with
    | none => none
    | some w => if w.phase = .done then some (s.setWork 0 k none, k.next) else some (s.uvRun, .spin k)
  | .close => some (s.closeProcess 0, .gone)
  | .gone => none

inductive LifeEvent
  | method (e : TimedEvent)
  | closeStdin
  /-- A read through `out()` or `err()` takes bytes that are there. -/
  | get (x : StreamName) (n : Nat)
  /-- The child comes to the end of its stdin. -/
  | readEof
  | destroy
  | join

def TimedEvent.outside : TimedEvent → Bool
  | .other e => e.outside
  | _ => false

namespace Lifetime

def idle (s : Lifetime) : Bool := s.timed.base.frame.isNone && s.timed.wait.isNone && s.dtor.isNone

def setBase (s : Lifetime) (t : State) : Lifetime := { s with timed := { s.timed with base := t } }

def goOn (s : Lifetime) (d : Dtor) : Option Lifetime :=
  (s.timed.base.join d).map fun (t, d) => { s.setBase t with dtor := some d }

end Lifetime

def lifeStep (cfg : Config) (s : Lifetime) : LifeEvent → Option Lifetime
  | .method e => if e.outside || s.dtor.isNone then (timedStep cfg s.timed e).map fun t => { s with timed := t } else none
  | .closeStdin =>
    let h := s.timed.base.handle 0
    if s.idle then some (s.setBase (s.timed.base.setHandle 0 { h with info := closeStdin h.info })) else none
  | .get x n =>
    let c := s.timed.base.child 0
    if s.idle ∧ n ≤ c.buf x then
      some (s.setBase (s.timed.base.setChild 0 { c with buf := Function.update c.buf x (c.buf x - n) }))
    else none
  | .readEof =>
    let c := s.timed.base.child 0
    match s.later with
    | prog :: later =>
      if c.prog = [] ∧ c.exit = none ∧ (s.timed.base.handle 0).info.stdin = FD_INVALID then
        some { s.setBase (s.timed.base.setChild 0 { c with prog := prog }) with later := later }
      else none
    | [] => none
  | .destroy => if s.idle then s.goOn (.join .wait) else none
  | .join => s.dtor.bind s.goOn

/-- A handle whose child writes `prog`, and then what `later` says. -/
def lifetime (info : ProcessInfo) (prog : List StreamName) (later : List (List StreamName)) (birth : Nat) : Lifetime :=
  { timed := oneHandle info prog birth, later := later }

/-! ## Hanging -/

/-- The destructor waits for the wait work, and neither a thread, nor the child, nor a
    callback can go on. -/
structure Hangs (cfg : Config) (s : Lifetime) : Prop where
  dtor : s.dtor = some (.spin .wait)
  waits : ∃ w, (s.timed.base.handle 0).work .wait = some w ∧ w.phase ≠ .done
  starts : ∀ k, step cfg s.timed.base (.workStart ⟨0, k⟩) = none
  waitid : step cfg s.timed.base (.waitReturn 0) = none
  reads : ∀ x n, step cfg s.timed.base (.read 0 x n) = none
  ends : ∀ x, step cfg s.timed.base (.eof 0 x) = none
  posts : ∀ k, step cfg s.timed.base (.post ⟨0, k⟩) = none
  callbacks : ∀ k w, (s.timed.base.handle 0).work k = some w → w.phase ≠ .posted
  writes : step cfg s.timed.base (.write 0) = none
  eof : lifeStep cfg s .readEof = none
  exits : (s.timed.base.child 0).prog = [] → s.later = [] → ∀ st, step cfg s.timed.base (.exit 0 st) = none

/-- A reader that has not come to the end. -/
def State.reading (s : State) (x : StreamName) : Prop :=
  ∃ w, (s.handle 0).work (.read x) = some w ∧ w.phase.late = false

def Lifetime.left (s : Lifetime) (x : StreamName) : Nat := ((s.timed.base.child 0).prog ++ s.later.flatten).count x

/-- The child can come to its end with the pipes as they are: it does not wait for the end
    of a stdin that the handle holds, and what it writes to a pipe that the handle holds
    is read, or has room. -/
structure Finishes (cap : Nat) (s : Lifetime) : Prop where
  stdin : s.later = [] ∨ (s.timed.base.handle 0).info.stdin = FD_INVALID
  room : ∀ x, fdOf (s.timed.base.handle 0).info x = FD_INVALID ∨ s.timed.base.reading x ∨ s.left x = 0 ∨
    (s.timed.base.child 0).buf x + s.left x ≤ cap

/-- No worker is inside `waitid` for a child that cannot finish. -/
def Released (cap : Nat) (s : Lifetime) : Prop :=
  ∀ w, (s.timed.base.handle 0).work .wait = some w → w.phase = .running → (s.timed.base.child 0).exit = none →
    Finishes cap s

/-! ## Before the destructor -/

theorem TimedInv.setChild {s : Timed} (h : TimedInv s) {c : Child} (hr : c.reaped = (s.base.child 0).reaped)
    (hb : c.birth = (s.base.child 0).birth) (hx : c.exit = (s.base.child 0).exit) :
    TimedInv { s with base := s.base.setChild 0 c } := by
  refine ⟨?_, ?_⟩
  · rcases h.base with ⟨hinv, hn, he⟩ | ⟨v, st, hfrozen⟩
    · exact .inl ⟨hinv.setChild hr hb fun st hst => hx.trans hst, hn, he⟩
    · exact .inr ⟨v, st, hfrozen.setChild fun _ => hx⟩
  · intro i w hw
    obtain ⟨hi, hf, he, hseen⟩ := h.wait i w hw
    refine ⟨hi, hf, he, ?_⟩
    intro c' hc
    obtain ⟨st, hst, hcode⟩ := hseen c' hc
    refine ⟨st, ?_, hcode⟩
    simp only [State.setChild, Function.update_self]
    exact hx.trans hst

theorem TimedInv.closeStdin {s : Timed} (h : TimedInv s) (hf : s.base.frame = none) (hw : s.wait = none) :
    TimedInv { s with base := s.base.setHandle 0 { s.base.handle 0 with info := closeStdin (s.base.handle 0).info } } := by
  refine ⟨?_, fun i w hw' => by rw [hw] at hw'; cases hw'⟩
  rcases h.base with ⟨hinv, hn, he⟩ | ⟨v, st, hfrozen⟩
  · have hcore : Core (s.base.setHandle 0 { s.base.handle 0 with info := Stream.closeStdin (s.base.handle 0).info }) :=
      hinv.core.setHandle (Core.closeStdin_pid _) (fun hi => (hinv.core.good 0 hi).congr rfl rfl rfl) (fun _ _ => id) id
    exact .inl ⟨hcore.inv_idle hf, hn, by simpa [State.setHandle] using he⟩
  · exact .inr ⟨v, st, hfrozen.setHandle rfl⟩

/-- Until it is destroyed a handle is as in `CovProcess.Handle.WaitTimeout`. -/
def LifeInv (s : Lifetime) : Prop := s.dtor = none → TimedInv s.timed

theorem idle_iff {s : Lifetime} : s.idle = true ↔ s.timed.base.frame = none ∧ s.timed.wait = none ∧ s.dtor = none := by
  simp [Lifetime.idle, and_assoc]

theorem lifeInv_step {cfg : Config} {s t : Lifetime} {e : LifeEvent} (h : LifeInv s) (hs : lifeStep cfg s e = some t) :
    LifeInv t := by
  intro hd
  cases e with
  | method e =>
    obtain ⟨-, hs⟩ := Option.ite_none_right_eq_some.mp hs
    obtain ⟨u, hu, rfl⟩ := Option.map_eq_some_iff.mp hs
    exact (timed_step (h hd) hu).1
  | closeStdin =>
    obtain ⟨hidle, hs⟩ := Option.ite_none_right_eq_some.mp hs
    cases hs
    obtain ⟨hf, hw, hd⟩ := idle_iff.mp hidle
    exact (h hd).closeStdin hf hw
  | get x n =>
    obtain ⟨⟨hidle, -⟩, hs⟩ := Option.ite_none_right_eq_some.mp hs
    cases hs
    exact (h (idle_iff.mp hidle).2.2).setChild rfl rfl rfl
  | readEof =>
    simp only [lifeStep] at hs
    split at hs
    · obtain ⟨-, hs⟩ := Option.ite_none_right_eq_some.mp hs
      cases hs
      exact (h hd).setChild rfl rfl rfl
    · cases hs
  | destroy =>
    obtain ⟨-, hs⟩ := Option.ite_none_right_eq_some.mp hs
    obtain ⟨⟨u, d⟩, -, rfl⟩ := Option.map_eq_some_iff.mp hs
    cases hd
  | join =>
    obtain ⟨d, -, hs⟩ := Option.bind_eq_some_iff.mp hs
    obtain ⟨⟨u, d⟩, -, rfl⟩ := Option.map_eq_some_iff.mp hs
    cases hd

/-! ## Where it can finish -/

/-- The steps outside the loop thread, for a lifetime. -/
theorem method_outside {cfg : Config} {s : Lifetime} {e : Event} (he : e.outside = true) {t : State}
    (hs : step cfg s.timed.base e = some t) : lifeStep cfg s (.method (.other e)) = some (s.setBase t) := by
  have hstarts : e.starts = false := by
    cases e <;> first | rfl | cases he
  simp only [lifeStep, TimedEvent.outside, he, Bool.true_or, if_true, timedStep, hstarts, Bool.not_false, Bool.and_self, hs]
  rfl

theorem method_of_dtor {cfg : Config} {s t : Lifetime} {e : TimedEvent} (hd : s.dtor ≠ none)
    (hs : lifeStep cfg s (.method e) = some t) :
    ∃ ev b, ev.outside = true ∧ step cfg s.timed.base ev = some b ∧ t = s.setBase b := by
  obtain ⟨hout, hs⟩ := Option.ite_none_right_eq_some.mp hs
  obtain ⟨u, hu, rfl⟩ := Option.map_eq_some_iff.mp hs
  have he : e.outside = true := by
    simpa [Option.isNone_iff_eq_none, hd] using hout
  cases e with
  | other ev =>
    obtain ⟨-, hu⟩ := Option.ite_none_right_eq_some.mp hu
    obtain ⟨b, hb, rfl⟩ := Option.map_eq_some_iff.mp hu
    exact ⟨ev, b, he, hb, rfl⟩
  | waitTimeout | resume => cases he

/-- What the child has before it does not grow, and no reader goes away. -/
structure Eases (s t : Lifetime) : Prop where
  info : (t.timed.base.handle 0).info = (s.timed.base.handle 0).info
  reading : ∀ x, s.timed.base.reading x → t.timed.base.reading x
  later : s.later = [] → t.later = []
  none_left : ∀ x, s.left x = 0 → t.left x = 0
  room : ∀ x, (t.timed.base.child 0).buf x + t.left x ≤ (s.timed.base.child 0).buf x + s.left x

theorem Finishes.eases {cap : Nat} {s t : Lifetime} (h : Finishes cap s) (he : Eases s t) : Finishes cap t := by
  refine ⟨?_, ?_⟩
  · rw [he.info]
    exact h.stdin.imp_left he.later
  · intro x
    rw [he.info]
    exact (h.room x).imp_right (Or.imp (he.reading x) (Or.imp (he.none_left x) (he.room x).trans))

namespace Eases

variable {s : Lifetime}

/-- A change of the base state that leaves the child's bytes and the descriptors alone. -/
theorem of_base {b : State} (hi : (b.handle 0).info = (s.timed.base.handle 0).info)
    (hr : ∀ x, s.timed.base.reading x → b.reading x) (hc : (b.child 0).prog = (s.timed.base.child 0).prog)
    (hb : (b.child 0).buf = (s.timed.base.child 0).buf) : Eases s (s.setBase b) := by
  have hleft : ∀ x, (s.setBase b).left x = s.left x := fun x => by
    simp only [Lifetime.left, Lifetime.setBase, hc]
  refine ⟨hi, hr, id, fun x h => (hleft x).trans h, ?_⟩
  intro x
  rw [hleft]
  exact Nat.le_of_eq (congrArg (· x + s.left x) hb)

theorem setWork {i : Nat} {k : Kind} {w w' : AsyncWork} (hw : (s.timed.base.handle i).work k = some w)
    (hp : i = 0 → w.phase.late = false → w'.phase.late = false) :
    Eases s (s.setBase (s.timed.base.setWork i k (some w'))) := by
  refine of_base (setWork_info _ _ _ _ _) ?_ rfl rfl
  intro x hx
  obtain ⟨v, hv, hlate⟩ := hx
  by_cases hik : 0 = i ∧ Kind.read x = k
  · obtain ⟨rfl, rfl⟩ := hik
    rw [hw] at hv
    cases hv
    exact ⟨w', by simp [setWork_work], hp rfl hlate⟩
  · exact ⟨v, by rw [setWork_work, if_neg hik, hv], hlate⟩

theorem setChild_child_self (s : Lifetime) (c : Child) :
    (s.setBase (s.timed.base.setChild 0 c)).timed.base.child 0 = c := (setChild_child ..).trans (if_pos rfl)

theorem setChild {c : Child} (hnone : ∀ x, s.left x = 0 → (c.prog ++ s.later.flatten).count x = 0)
    (hroom : ∀ x, c.buf x + (c.prog ++ s.later.flatten).count x ≤ (s.timed.base.child 0).buf x + s.left x) :
    Eases s (s.setBase (s.timed.base.setChild 0 c)) := by
  refine ⟨rfl, fun _ => id, id, ?_, ?_⟩
  · intro x h
    rw [Lifetime.left, setChild_child_self]
    exact hnone x h
  · intro x
    rw [Lifetime.left, setChild_child_self]
    exact hroom x

theorem setChild_ne {i : Nat} (hi : i ≠ 0) (c : Child) : Eases s (s.setBase (s.timed.base.setChild i c)) := by
  have hchild : (s.timed.base.setChild i c).child 0 = s.timed.base.child 0 :=
    (setChild_child ..).trans (if_neg (Ne.symm hi))
  exact of_base rfl (fun _ => id) (by rw [hchild]) (by rw [hchild])

end Eases

theorem write_alive {s t : State} {cap i : Nat} (h : s.write cap i = some t) :
    ∃ x prog, (s.child i).prog = x :: prog ∧ (s.child i).exit = none ∧
      ((fdOf (s.handle i).info x = FD_INVALID ∧ t = s.setChild i { s.child i with prog := prog }) ∨
        (s.child i).buf x < cap ∧ t = s.setChild i
          { s.child i with prog := prog, buf := Function.update (s.child i).buf x ((s.child i).buf x + 1) }) := by
  unfold State.write at h
  split at h
  · rename_i x prog hprog hexit
    obtain ⟨hroom, h⟩ := Option.ite_none_right_eq_some.mp h
    refine ⟨x, prog, hprog, hexit, ?_⟩
    simp only [State.hasRoom, Bool.or_eq_true, decide_eq_true_eq] at hroom
    by_cases hfd : fdOf (s.handle i).info x = FD_INVALID
    · exact .inl ⟨hfd, by simpa [hfd] using h.symm⟩
    · exact .inr ⟨hroom.resolve_left hfd, by simpa [hfd] using h.symm⟩
  · cases h

theorem Eases.write {s : Lifetime} {cap i : Nat} {b : State} (h : s.timed.base.write cap i = some b) :
    Eases s (s.setBase b) := by
  obtain ⟨x, prog, hprog, -, hb⟩ := write_alive h
  by_cases hi : i = 0
  · subst hi
    have hleft : ∀ y, s.left y = (prog ++ s.later.flatten).count y + if x = y then 1 else 0 := fun y => by
      simp [Lifetime.left, hprog, List.count_cons]
    rcases hb with ⟨-, rfl⟩ | ⟨-, rfl⟩
    · refine .setChild ?_ ?_
      · intro y h
        have := hleft y
        simp only
        omega
      · intro y
        have := hleft y
        simp only
        omega
    · refine .setChild ?_ ?_
      · intro y h
        have := hleft y
        simp only
        omega
      · intro y
        have := hleft y
        by_cases hy : x = y
        · subst hy
          simp only [Function.update_self, if_true] at this ⊢
          omega
        · simp only [Function.update_of_ne (Ne.symm hy), if_neg hy] at this ⊢
          omega
  · rcases hb with ⟨-, rfl⟩ | ⟨-, rfl⟩ <;> exact setChild_ne hi _

theorem Eases.read {s : Lifetime} (i : Nat) (x : StreamName) (n : Nat) :
    Eases s (s.setBase (s.timed.base.setChild i { s.timed.base.child i with
      buf := Function.update (s.timed.base.child i).buf x ((s.timed.base.child i).buf x - n) })) := by
  by_cases hi : i = 0
  · subst hi
    refine .setChild (fun _ => id) fun y => Nat.add_le_add_right ?_ _
    by_cases hy : y = x
    · subst hy
      simp
    · simp [Function.update_of_ne hy]
  · exact setChild_ne hi _

/-- A step outside the loop thread, after which a worker is still inside `waitid` for a
    living child. -/
theorem outside_eases {cfg : Config} {s : Lifetime} {b : State} {ev : Event} (hn : s.timed.base.n = 1)
    (hout : ev.outside = true) (hs : step cfg s.timed.base ev = some b)
    (hq : ∀ w, (s.timed.base.handle 0).work .wait = some w → w.phase ≠ .queued) (hx : (b.child 0).exit = none)
    {v : AsyncWork} (hv : (b.handle 0).work .wait = some v) (hrun : v.phase = .running) :
    (s.timed.base.handle 0).work .wait = some v ∧ (s.timed.base.child 0).exit = none ∧ Eases s (s.setBase b) := by
  -- a work that moves is not that one
  have hmoved : ∀ {i k w}, ((s.timed.base.setWork i k (some w)).handle 0).work .wait = some v → w.phase ≠ .running →
      (s.timed.base.handle 0).work .wait = some v := by
    intro i k w hw hp
    rw [setWork_work] at hw
    split at hw
    · cases hw
      exact absurd hrun hp
    · exact hw
  cases step_moves hs with
  | start | call | resume => cases hout
  | @workStart j w hw hp =>
    have hwait : (s.timed.base.handle 0).work .wait = some v := by
      rw [setWork_work] at hv
      split at hv
      · rename_i hj
        rw [← hj.1, ← hj.2] at hw
        exact absurd hp (hq w hw)
      · exact hv
    exact ⟨hwait, hx, .setWork hw fun _ _ => rfl⟩
  | @waitReturn i w t c hw hp hi hwait =>
    obtain rfl : i = 0 := by omega
    rw [setWork_work, if_pos ⟨rfl, rfl⟩] at hv
    cases hv
    cases hrun
  | @read i x n =>
    exact ⟨hv, (setChild_same Child.exit (by rfl) 0).symm.trans hx, .read i x n⟩
  | @eof i x w hexit hw hp =>
    refine ⟨hmoved hv (by simp), hx, .setWork hw ?_⟩
    intro hi _
    subst hi
    exact absurd hx hexit
  | @post j w hw hp =>
    have heases : Eases s (s.setBase (s.timed.base.setWork j.handle j.kind (some ⟨.posted, w.exitCode⟩))) :=
      .setWork hw fun _ hlate => by rw [hp] at hlate; cases hlate
    exact ⟨hmoved (i := j.handle) (k := j.kind) (w := ⟨.posted, w.exitCode⟩) hv (by simp), hx,
      ⟨heases.info, heases.reading, heases.later, heases.none_left, heases.room⟩⟩
  | @write i c hr hb hexit hle =>
    obtain ⟨-, hs⟩ := Option.ite_none_right_eq_some.mp hs
    exact ⟨hv, (setChild_same Child.exit hexit 0).symm.trans hx, .write hs⟩
  | @exit i st hnone =>
    by_cases hi : i = 0
    · subst hi
      simp [State.setChild] at hx
    · exact ⟨hv, by simpa [State.setChild, Function.update_of_ne (Ne.symm hi)] using hx, .setChild_ne hi _⟩
  | spawn | vanish => exact ⟨hv, hx, .of_base rfl (fun _ => id) rfl rfl⟩

theorem TimedInv.own {s : Timed} (h : TimedInv s) (pid : Int) (j b : Nat) (hp : s.base.procs pid = some ⟨some j, b⟩) :
    j = 0 := by
  rcases h.base with ⟨hinv, hn, -⟩ | ⟨v, st, hfrozen⟩
  · exact own_of_inv hinv hn pid j b hp
  · exact hfrozen.own pid j b hp

/-- While the destructor waits for the wait work the child can finish, if it has to. -/
structure After (cap : Nat) (s : Lifetime) : Prop where
  n : s.timed.base.n = 1
  own : ∀ pid j b, s.timed.base.procs pid = some ⟨some j, b⟩ → j = 0
  dtor : ∃ d, s.dtor = some d ∧ d ≠ .join .wait
  spin : s.dtor = some (.spin .wait) → Released cap s ∧
    ∀ w, (s.timed.base.handle 0).work .wait = some w → w.phase ≠ .queued

/-- Nobody but the child takes its PID, nor does a work go back to the queue. -/
theorem outside_own {cfg : Config} {s t : State} {ev : Event} (hout : ev.outside = true) (hs : step cfg s ev = some t)
    (hown : ∀ pid j b, s.procs pid = some ⟨some j, b⟩ → j = 0) :
    (∀ pid j b, t.procs pid = some ⟨some j, b⟩ → j = 0) ∧
      ((∀ w, (s.handle 0).work .wait = some w → w.phase ≠ .queued) →
        ∀ w, (t.handle 0).work .wait = some w → w.phase ≠ .queued) := by
  have hset : ∀ (u : State) i k w, u.handle = s.handle → w.phase ≠ Phase.queued →
      (∀ w, (s.handle 0).work .wait = some w → w.phase ≠ .queued) →
        ∀ w', ((u.setWork i k (some w)).handle 0).work .wait = some w' → w'.phase ≠ .queued := by
    intro u i k w hu hp hq w' hw'
    rw [setWork_work, hu] at hw'
    split at hw'
    · cases hw'
      exact hp
    · exact hq w' hw'
  have hproc : ∀ q p, (∀ r, p = some r → r.owner = none) → ∀ pid j b,
      Function.update s.procs q p pid = some ⟨some j, b⟩ → j = 0 := by
    intro q p hp pid j b h
    by_cases hq : pid = q
    · subst hq
      rw [Function.update_self] at h
      cases hp _ h
    · rw [Function.update_of_ne hq] at h
      exact hown pid j b h
  cases step_moves hs with
  | start | call | resume => cases hout
  | workStart hw hp => exact ⟨hown, hset _ _ _ _ rfl (by simp)⟩
  | @waitReturn i w u c hw hp hi hwait =>
    unfold State.waitFor at hwait
    split at hwait <;> cases hwait
    · exact ⟨hown, hset _ _ _ _ rfl (by simp)⟩
    · exact ⟨hproc _ none (fun _ h => by cases h), hset _ _ _ _ rfl (by simp)⟩
  | eof hx hw hp => exact ⟨hown, hset _ _ _ _ rfl (by simp)⟩
  | @post j w hw hp => exact ⟨hown, hset s j.handle j.kind ⟨.posted, w.exitCode⟩ rfl (by simp)⟩
  | read | write | exit => exact ⟨hown, id⟩
  | spawn hfree => exact ⟨hproc _ _ (fun _ h => by cases h; rfl), id⟩
  | vanish hp => exact ⟨hproc _ none (fun _ h => by cases h), id⟩

theorem Released.eases {cap : Nat} {s t : Lifetime} (h : Released cap s)
    (hback : ∀ v, (t.timed.base.handle 0).work .wait = some v → v.phase = .running → (t.timed.base.child 0).exit = none →
      (s.timed.base.handle 0).work .wait = some v ∧ (s.timed.base.child 0).exit = none ∧ Eases s t) : Released cap t := by
  intro v hv hrun hx
  obtain ⟨hv', hx', heases⟩ := hback v hv hrun hx
  exact (h v hv' hrun hx').eases heases

theorem Released.setDtor {cap : Nat} {s : Lifetime} (h : Released cap s) (d : Option Dtor) :
    Released cap { s with dtor := d } :=
  fun v hv hrun hx => ⟨(h v hv hrun hx).stdin, (h v hv hrun hx).room⟩

theorem afterWork_same {w : AsyncWork} {p : Phase} (hp : w.afterWork.phase = p) (hd : p ≠ .done) : w.afterWork = w := by
  unfold AsyncWork.afterWork at hp ⊢
  split
  · rename_i h
    rw [if_pos h] at hp
    exact absurd hp.symm hd
  · rfl

theorem Eases.uvRun (s : Lifetime) : Eases s (s.setBase s.timed.base.uvRun) := by
  refine .of_base rfl ?_ rfl rfl
  intro x hx
  obtain ⟨w, hw, hlate⟩ := hx
  exact ⟨w.afterWork, by simp [State.uvRun, hw], by rw [Core.afterWork_late]; exact hlate⟩

/-- A turn of a join leaves what the other joins will find. -/
theorem goOn_after {cap : Nat} {s t : Lifetime} {d : Dtor} (hn : s.timed.base.n = 1)
    (hown : ∀ pid j b, s.timed.base.procs pid = some ⟨some j, b⟩ → j = 0)
    (hd : d = .join .wait ∨ d = .spin .wait → Released cap s)
    (hq : d = .spin .wait → ∀ w, (s.timed.base.handle 0).work .wait = some w → w.phase ≠ .queued)
    (ht : s.goOn d = some t) : After cap t := by
  obtain ⟨⟨u, d'⟩, hu, rfl⟩ := Option.map_eq_some_iff.mp ht
  have hnext : ∀ k : Kind, k.next ≠ .join .wait ∧ k.next ≠ .spin .wait := fun k => by
    rcases k with _ | _ | _ <;> exact ⟨by simp [Kind.next], by simp [Kind.next]⟩
  have hpassed : ∀ (b : State) k, b.n = 1 → (∀ pid j c, b.procs pid = some ⟨some j, c⟩ → j = 0) →
      After cap { s.setBase b with dtor := some (Kind.next k) } := fun b k hbn hbo =>
    ⟨hbn, hbo, ⟨_, rfl, (hnext k).1⟩, fun h => absurd (Option.some.inj h) (hnext k).2⟩
  have hspin : ∀ (b : State) k, b.n = 1 → (∀ pid j c, b.procs pid = some ⟨some j, c⟩ → j = 0) →
      (k = .wait → Released cap (s.setBase b) ∧ ∀ w, (b.handle 0).work .wait = some w → w.phase ≠ .queued) →
      After cap { s.setBase b with dtor := some (.spin k) } := fun b k hbn hbo hk =>
    ⟨hbn, hbo, ⟨_, rfl, by simp⟩, fun h => by
      obtain ⟨hrel, hq⟩ := hk (by cases h; rfl)
      exact ⟨hrel.setDtor _, hq⟩⟩
  cases d with
  | join k =>
    simp only [State.join] at hu
    split at hu
    · cases hu
      exact hpassed _ k hn hown
    · rename_i w hw
      cases hu
      by_cases hqueued : w.phase = .queued
      · have hcancel : s.timed.base.cancel 0 k w = { s.timed.base.setWork 0 k (some { w with phase := .posted }) with
            pool := s.timed.base.pool.erase ⟨0, k⟩ } := if_pos hqueued
        rw [hcancel]
        refine hspin _ k hn hown ?_
        intro hk
        subst hk
        have hwork : ∀ v, ((s.timed.base.setWork 0 .wait (some { w with phase := .posted })).handle 0).work .wait = some v →
            v.phase = .posted := fun v hv => by
          rw [setWork_work, if_pos ⟨rfl, rfl⟩] at hv
          cases hv
          rfl
        refine ⟨?_, ?_⟩
        · intro v hv hrun
          rw [hwork v hv] at hrun
          cases hrun
        · intro v hv hq
          rw [hwork v hv] at hq
          cases hq
      · have hcancel : s.timed.base.cancel 0 k w = s.timed.base := if_neg hqueued
        rw [hcancel]
        refine hspin _ k hn hown fun hk => ⟨?_, ?_⟩
        · exact hd (.inl (by rw [hk]))
        · intro v hv
          subst hk
          rw [hw] at hv
          cases hv
          exact hqueued
  | spin k =>
    simp only [State.join] at hu
    split at hu
    · cases hu
    · split at hu
      · cases hu
        exact hpassed _ k hn hown
      · cases hu
        refine hspin _ k hn hown ?_
        intro hk
        subst hk
        have hback : ∀ v, (s.timed.base.uvRun.handle 0).work .wait = some v → v.phase ≠ .done →
            (s.timed.base.handle 0).work .wait = some v := fun v hv hvd => by
          obtain ⟨u, hu, rfl⟩ := Option.map_eq_some_iff.mp hv
          rw [afterWork_same rfl hvd]
          exact hu
        refine ⟨(hd (.inr rfl)).eases ?_, ?_⟩
        · intro v hv hrun hx
          exact ⟨hback v hv (by simp [hrun]), hx, .uvRun s⟩
        · intro v hv hqv
          exact hq rfl v (hback v hv (by simp [hqv])) hqv
  | close =>
    cases hu
    exact ⟨hn, hown, ⟨_, rfl, by simp⟩, fun h => by cases h⟩
  | gone => cases hu

theorem readEof_some {cfg : Config} {s t : Lifetime} (h : lifeStep cfg s .readEof = some t) :
    ∃ prog later, s.later = prog :: later ∧ (s.timed.base.child 0).prog = [] ∧ (s.timed.base.child 0).exit = none ∧
      (s.timed.base.handle 0).info.stdin = FD_INVALID ∧
      t = { s.setBase (s.timed.base.setChild 0 { s.timed.base.child 0 with prog := prog }) with later := later } := by
  simp only [lifeStep] at h
  split at h
  · rename_i prog later hl
    obtain ⟨⟨hp, hx, hin⟩, h⟩ := Option.ite_none_right_eq_some.mp h
    exact ⟨prog, later, hl, hp, hx, hin, (Option.some.inj h).symm⟩
  · cases h

theorem left_readEof {s : Lifetime} {prog : List StreamName} {later : List (List StreamName)}
    (hl : s.later = prog :: later) (hp : (s.timed.base.child 0).prog = []) (x : StreamName) :
    Lifetime.left { s.setBase (s.timed.base.setChild 0 { s.timed.base.child 0 with prog := prog }) with later := later } x =
      s.left x := by
  simp [Lifetime.left, Lifetime.setBase, State.setChild, hl, hp]

theorem after_step {cfg : Config} {cap : Nat} {s t : Lifetime} {e : LifeEvent} (h : After cap s)
    (hs : lifeStep cfg s e = some t) : After cap t := by
  obtain ⟨d, hd, hjoin⟩ := h.dtor
  have hbusy : s.idle ≠ true := fun hi => by
    rw [(idle_iff.mp hi).2.2] at hd
    cases hd
  cases e with
  | method e =>
    obtain ⟨ev, b, hout, hb, rfl⟩ := method_of_dtor (by simp [hd]) hs
    have hno := (step_stores hb (by cases ev <;> first | rfl | cases hout)).resolve_right fun hin => by
      rw [hin.1] at hout
      cases hout
    obtain ⟨hown, hq⟩ := outside_own hout hb h.own
    refine ⟨hno.n.trans h.n, hown, ⟨d, hd, hjoin⟩, ?_⟩
    intro hspin
    obtain ⟨hrel, hnq⟩ := h.spin hspin
    exact ⟨hrel.eases fun v hv hrun hx => outside_eases h.n hout hb hnq hx hv hrun, hq hnq⟩
  | closeStdin => exact absurd (Option.ite_none_right_eq_some.mp hs).1 hbusy
  | get x n => exact absurd (Option.ite_none_right_eq_some.mp hs).1.1 hbusy
  | readEof =>
    obtain ⟨prog, later, hl, hp, hx, -, rfl⟩ := readEof_some hs
    refine ⟨h.n, h.own, ⟨d, hd, hjoin⟩, ?_⟩
    intro hspin
    obtain ⟨hrel, hnq⟩ := h.spin hspin
    refine ⟨hrel.eases fun v hv hrun _ => ⟨hv, hx, ⟨rfl, fun _ => id, ?_, ?_, ?_⟩⟩, hnq⟩
    · intro hn
      rw [hl] at hn
      cases hn
    · intro x h0
      exact (left_readEof hl hp x).trans h0
    · intro x
      rw [left_readEof hl hp x]
      simp [Lifetime.setBase, State.setChild]
  | destroy => exact absurd (Option.ite_none_right_eq_some.mp hs).1 hbusy
  | join =>
    rw [lifeStep, hd, Option.bind_some] at hs
    refine goOn_after h.n h.own ?_ ?_ hs
    · intro hk
      rcases hk with rfl | rfl
      · exact absurd rfl hjoin
      · exact (h.spin hd).1
    · intro hk
      subst hk
      exact (h.spin hd).2

section Hanging

variable {cap : Nat} {hcap : 0 < cap} {s : Lifetime}

theorem step_advance {cfg : Config} {s : State} {k : Kind} {w : AsyncWork} (hw : (s.handle 0).work k = some w)
    (hstart : cfg.mayStart s ⟨0, k⟩ = true) :
    (w.phase = .queued → step cfg s (.workStart ⟨0, k⟩) ≠ none) ∧
      (w.phase = .returned → step cfg s (.post ⟨0, k⟩) ≠ none) := by
  refine ⟨fun hp => ?_, fun hp => ?_⟩ <;> simp [step, State.advance, hw, hp, hstart]

theorem waitid_alive_iff {s : State} {pid : Int} :
    s.waitid pid = .alive ↔ ∃ j b, s.procs pid = some ⟨some j, b⟩ ∧ (s.child j).exit = none := by
  unfold State.waitid
  split
  · rename_i j b hp
    cases hx : (s.child j).exit <;> simp [hp, hx]
  · rename_i hp
    exact iff_of_false (by simp) fun ⟨j, b, h, _⟩ => hp j b h

theorem waitid_setChild {s : State} {pid : Int} (h : s.waitid pid = .alive) {c : Child} (hx : c.exit = none) :
    (s.setChild 0 c).waitid pid = .alive := by
  obtain ⟨j, b, hp, hj⟩ := waitid_alive_iff.mp h
  refine waitid_alive_iff.mpr ⟨j, b, hp, ?_⟩
  rw [setChild_child]
  split
  · exact hx
  · exact hj

/-- The kernel knows of no other process at the PID that could keep the worker. -/
theorem waitFor_exited {s : State} (hown : ∀ pid j b, s.procs pid = some ⟨some j, b⟩ → j = 0) {st : Status}
    (hx : (s.child 0).exit = some st) (pid : Int) : s.waitFor pid ≠ none := by
  have hwaitid : s.waitid pid ≠ .alive := fun halive => by
    obtain ⟨j, b, hp, hnone⟩ := waitid_alive_iff.mp halive
    rw [hown _ _ _ hp, hx] at hnone
    cases hnone
  unfold State.waitFor
  split
  · simp
  · exact absurd ‹_› hwaitid
  · simp

theorem write_blocked {cfg : Config} {s : State} (hn : 0 < s.n) (h : step cfg s (.write 0) = none) {x : StreamName}
    {prog : List StreamName} (hprog : (s.child 0).prog = x :: prog) (hx : (s.child 0).exit = none) :
    fdOf (s.handle 0).info x ≠ FD_INVALID ∧ cfg.cap ≤ (s.child 0).buf x := by
  have hroom : s.hasRoom cfg.cap 0 x = false := by
    rw [step, if_pos hn, State.write, hprog, hx] at h
    refine Bool.eq_false_iff.mpr ?_
    intro hr
    simp only [hr, if_true] at h
    cases h
  simpa [State.hasRoom] using hroom

theorem After.not_hangs (h : After cap s) : ¬ Hangs (ownPool cap hcap) s := by
  intro hh
  obtain ⟨hrel, hnq⟩ := h.spin hh.dtor
  obtain ⟨w, hw, hnd⟩ := hh.waits
  have hn : 0 < s.timed.base.n := by
    rw [h.n]
    exact Nat.one_pos
  cases hphase : w.phase with
  | queued => exact hnq w hw hphase
  | returned => exact (step_advance hw rfl).2 hphase (hh.posts .wait)
  | posted => exact hh.callbacks .wait w hw hphase
  | done => exact hnd hphase
  | running =>
    cases hx : (s.timed.base.child 0).exit with
    | some st =>
      have hret := hh.waitid
      simp only [step, hw, hphase, hn, and_self, if_true, Option.map_eq_none_iff] at hret
      exact waitFor_exited h.own hx _ hret
    | none =>
      obtain ⟨hstdin, hroom⟩ := hrel w hw hphase hx
      cases hprog : (s.timed.base.child 0).prog with
      | nil =>
        cases hl : s.later with
        | nil =>
          have hexit := hh.exits hprog hl (.exited 0)
          rw [step, if_pos ⟨hn, hx⟩] at hexit
          cases hexit
        | cons seg later =>
          have heof := hh.eof
          have hin : (s.timed.base.handle 0).info.stdin = FD_INVALID := hstdin.resolve_left (by simp [hl])
          simp only [lifeStep, hl, hprog, hx, hin, and_self, if_true] at heof
          cases heof
      | cons x prog =>
        obtain ⟨hfd, hfull⟩ := write_blocked hn hh.writes hprog hx
        have hfull : cap ≤ (s.timed.base.child 0).buf x := hfull
        have hleft : 0 < s.left x := by
          simp [Lifetime.left, hprog]
        rcases hroom x with hno | ⟨v, hv, hlate⟩ | h0 | hle
        · exact hfd hno
        · -- the reader has a thread, and bytes to read
          cases hvp : v.phase with
          | queued => exact (step_advance hv rfl).1 hvp (hh.starts (.read x))
          | running =>
            have hread := hh.reads x 1
            have hok : v.phase = .running ∧ 0 < 1 ∧ 1 ≤ (s.timed.base.child 0).buf x ∧ 1 ≤ Stream.BUFFER_SIZE :=
              ⟨hvp, Nat.one_pos, Nat.le_trans hcap hfull, by decide⟩
            simp only [step, hv, if_pos hok] at hread
            cases hread
          | returned | posted | done =>
            rw [hvp] at hlate
            cases hlate
        · omega
        · omega

/-! ### The way into it -/

/-- A worker is inside `waitid` for a child that cannot finish. -/
structure Doomed (cap : Nat) (s : Lifetime) : Prop where
  dtor : s.dtor = some (.spin .wait)
  n : 0 < s.timed.base.n
  waits : ∃ w, (s.timed.base.handle 0).work .wait = some w ∧ w.phase = .running
  alive : s.timed.base.waitid (s.timed.base.pid 0) = .alive
  exit : (s.timed.base.child 0).exit = none
  blocked : ¬ Finishes cap s

def Phase.toGo : Phase → Nat
  | .queued => 4
  | .running => 3
  | .returned => 2
  | .posted => 1
  | .done => 0

def State.readToGo (s : State) (x : StreamName) : Nat :=
  (((s.handle 0).work (.read x)).elim 0 fun w => w.phase.toGo) + (s.child 0).buf x

/-- The steps that threads, callbacks and the child can still take. -/
def Lifetime.toGo (s : Lifetime) : Nat :=
  s.timed.base.readToGo .stdout + s.timed.base.readToGo .stderr +
    2 * ((s.timed.base.child 0).prog.length + s.later.flatten.length) + s.later.length

/-- A step of a doomed lifetime on its way. -/
def Nears (cap : Nat) (s t : Lifetime) : Prop := Doomed cap t ∧ t.toGo < s.toGo

theorem readToGo_lt {s t : State} {x : StreamName} (hlt : t.readToGo x < s.readToGo x)
    (hle : ∀ y, t.readToGo y ≤ s.readToGo y) :
    t.readToGo .stdout + t.readToGo .stderr < s.readToGo .stdout + s.readToGo .stderr := by
  cases x with
  | stdout =>
    have := hle .stderr
    omega
  | stderr =>
    have := hle .stdout
    omega

theorem Doomed.work (h : Doomed cap s) {b : State} (hh : ∀ i, (b.handle i).info = (s.timed.base.handle i).info)
    (hc : b.child = s.timed.base.child) (hp : b.procs = s.timed.base.procs) (hn : b.n = s.timed.base.n)
    (hwait : (b.handle 0).work .wait = (s.timed.base.handle 0).work .wait)
    (hread : ∀ x, b.reading x → s.timed.base.reading x) {x : StreamName} (hlt : b.readToGo x < s.timed.base.readToGo x)
    (hle : ∀ y, b.readToGo y ≤ s.timed.base.readToGo y) : Nears cap s (s.setBase b) := by
  have hleft : ∀ y, (s.setBase b).left y = s.left y := fun y => by
    simp only [Lifetime.left, Lifetime.setBase, hc]
  refine ⟨⟨h.dtor, ?_, ?_, ?_, ?_, fun hf => h.blocked ⟨?_, ?_⟩⟩, ?_⟩
  · exact hn ▸ h.n
  · rw [Lifetime.setBase, hwait]
    exact h.waits
  · have halive := h.alive
    simp only [State.waitid, State.pid, Lifetime.setBase, hh, hc, hp] at halive ⊢
    exact halive
  · rw [Lifetime.setBase, hc]
    exact h.exit
  · have := hf.stdin
    rwa [Lifetime.setBase, hh] at this
  · intro y
    have := hf.room y
    rw [hleft] at this
    simp only [Lifetime.setBase, hh, hc] at this
    exact this.imp_right (Or.imp_left (hread y))
  · have := readToGo_lt hlt hle
    simp only [Lifetime.toGo, Lifetime.setBase, hc]
    omega

theorem Doomed.setRead (h : Doomed cap s) {x : StreamName} {w w' : AsyncWork}
    (hw : (s.timed.base.handle 0).work (.read x) = some w) (hlate : w'.phase.late = false → w.phase.late = false)
    (hlt : w'.phase.toGo < w.phase.toGo) (pool : List Job) :
    Nears cap s (s.setBase { s.timed.base.setWork 0 (.read x) (some w') with pool := pool }) := by
  have hwork := setWork_work s.timed.base 0 (.read x) (some w') 0
  have hsame : ∀ y, y ≠ x → ((s.timed.base.setWork 0 (.read x) (some w')).handle 0).work (.read y) =
      (s.timed.base.handle 0).work (.read y) := fun y hy => by simp [hwork, hy]
  have hself : ((s.timed.base.setWork 0 (.read x) (some w')).handle 0).work (.read x) = some w' := by simp [hwork]
  have hdown : State.readToGo { s.timed.base.setWork 0 (.read x) (some w') with pool := pool } x <
      s.timed.base.readToGo x := by
    simp only [State.readToGo, hself, hw, Option.elim_some]
    exact Nat.add_lt_add_right hlt _
  refine h.work (fun i => setWork_info _ _ _ _ _) rfl rfl rfl (by simp [hwork]) ?_ hdown ?_
  · intro y hy
    obtain ⟨v, hv, hvl⟩ := hy
    by_cases hyx : y = x
    · subst hyx
      rw [show ((State.handle { s.timed.base.setWork 0 (.read y) (some w') with pool := pool } 0).work (.read y)) = some w'
        from hself] at hv
      cases hv
      exact ⟨w, hw, hlate hvl⟩
    · exact ⟨v, (hsame y hyx).symm.trans hv, hvl⟩
  · intro y
    by_cases hyx : y = x
    · subst hyx
      exact Nat.le_of_lt hdown
    · simp only [State.readToGo, hsame y hyx]
      exact Nat.le_refl _

theorem Doomed.turn (h : Doomed cap s) {x : StreamName} {w : AsyncWork}
    (hw : (s.timed.base.handle 0).work (.read x) = some w) (hp : w.phase = .posted) :
    Nears cap s (s.setBase s.timed.base.uvRun) := by
  have htogo : ∀ y, s.timed.base.uvRun.readToGo y ≤ s.timed.base.readToGo y ∧
      (y = x → s.timed.base.uvRun.readToGo y < s.timed.base.readToGo y) := by
    refine fun y => ⟨Nat.add_le_add_right ?_ _, fun hy => Nat.add_lt_add_right ?_ _⟩
    · cases hu : (s.timed.base.handle 0).work (.read y) with
      | none => simp [State.uvRun, hu]
      | some u =>
        simp only [State.uvRun, hu, Option.map_some, Option.elim_some, AsyncWork.afterWork]
        split
        · exact Nat.zero_le _
        · exact Nat.le_refl _
    · subst hy
      simp [State.uvRun, hw, AsyncWork.afterWork, hp, Phase.toGo]
  obtain ⟨v, hv, hrun⟩ := h.waits
  refine h.work (fun _ => rfl) rfl rfl rfl ?_ ?_ ((htogo x).2 rfl) fun y => (htogo y).1
  · have hsame : v.afterWork = v := if_neg (by simp [hrun])
    simp [State.uvRun, hv, hsame]
  · intro y hy
    obtain ⟨u, hu, hlate⟩ := hy
    obtain ⟨u', hu', rfl⟩ := Option.map_eq_some_iff.mp hu
    exact ⟨u', hu', by rwa [Core.afterWork_late] at hlate⟩

theorem Doomed.child (h : Doomed cap s) {c : Child} (hx : c.exit = none)
    (hroom : ∀ x, fdOf (s.timed.base.handle 0).info x ≠ FD_INVALID → ¬ s.timed.base.reading x →
      (c.prog ++ s.later.flatten).count x = 0 ∨ c.buf x + (c.prog ++ s.later.flatten).count x ≤ cap →
      s.left x = 0 ∨ (s.timed.base.child 0).buf x + s.left x ≤ cap)
    (hlt : c.buf .stdout + c.buf .stderr + 2 * c.prog.length < (s.timed.base.child 0).buf .stdout +
      (s.timed.base.child 0).buf .stderr + 2 * (s.timed.base.child 0).prog.length) :
    Nears cap s (s.setBase (s.timed.base.setChild 0 c)) := by
  have hchild := Eases.setChild_child_self s c
  refine ⟨⟨h.dtor, h.n, h.waits, waitid_setChild h.alive hx, by rw [hchild]; exact hx, fun hf =>
    h.blocked ⟨hf.stdin, ?_⟩⟩, ?_⟩
  · intro x
    rcases hf.room x with hfd | hr | hrest
    · exact .inl hfd
    · exact .inr (.inl hr)
    · rw [Lifetime.left, hchild] at hrest
      by_cases hfd : fdOf (s.timed.base.handle 0).info x = FD_INVALID
      · exact .inl hfd
      · by_cases hr : s.timed.base.reading x
        · exact .inr (.inl hr)
        · exact .inr (.inr (hroom x hfd hr hrest))
  · simp only [Lifetime.toGo, State.readToGo, hchild]
    simp only [Lifetime.setBase, State.setChild]
    omega

theorem Doomed.read (h : Doomed cap s) {x : StreamName} {w : AsyncWork}
    (hw : (s.timed.base.handle 0).work (.read x) = some w) (hp : w.phase = .running)
    (hb : 0 < (s.timed.base.child 0).buf x) :
    Nears cap s (s.setBase (s.timed.base.setChild 0 { s.timed.base.child 0 with
      buf := Function.update (s.timed.base.child 0).buf x ((s.timed.base.child 0).buf x - 1) })) := by
  refine h.child h.exit ?_ ?_
  · intro y _ hr hrest
    have hy : y ≠ x := fun hy => hr ⟨w, by rw [hy]; exact hw, by rw [hp]; rfl⟩
    simp only [Function.update_of_ne hy] at hrest
    exact hrest
  · cases x <;> simp [Function.update] <;> omega

theorem Doomed.write (h : Doomed cap s) {b : State} (hs : s.timed.base.write cap 0 = some b) :
    Nears cap s (s.setBase b) := by
  obtain ⟨x, prog, hprog, hx, hb⟩ := write_alive hs
  have hleft : ∀ y, s.left y = (prog ++ s.later.flatten).count y + if x = y then 1 else 0 := fun y => by
    simp [Lifetime.left, hprog, List.count_cons]
  rcases hb with ⟨hfd, rfl⟩ | ⟨hroom, rfl⟩
  · refine h.child hx ?_ (by simp [hprog])
    intro y hy _ hrest
    have hxy : x ≠ y := fun hxy => hy (hxy ▸ hfd)
    rw [hleft y, if_neg hxy]
    exact hrest
  · refine h.child hx ?_ ?_
    · intro y _ _ hrest
      by_cases hxy : x = y
      · subst hxy
        rw [hleft x, if_pos rfl]
        simp only [Function.update_self] at hrest
        omega
      · rw [hleft y, if_neg hxy]
        simp only [Function.update_of_ne (Ne.symm hxy)] at hrest
        exact hrest
    · rw [hprog, List.length_cons]
      cases x <;> simp [Function.update] <;> omega

theorem Doomed.readEof (h : Doomed cap s) {cfg : Config} {t : Lifetime} (hs : lifeStep cfg s .readEof = some t) :
    Nears cap s t := by
  obtain ⟨prog, later, hl, hp, hx, hin, rfl⟩ := readEof_some hs
  have hchild := Eases.setChild_child_self s { s.timed.base.child 0 with prog := prog }
  refine ⟨⟨h.dtor, h.n, h.waits, waitid_setChild h.alive hx, by simpa [hchild] using hx, fun hf =>
    h.blocked ⟨.inr hin, ?_⟩⟩, ?_⟩
  · intro x
    have hroom := hf.room x
    rw [left_readEof hl hp, hchild] at hroom
    exact hroom
  · simp only [Lifetime.toGo, State.readToGo, hchild, hl, hp]
    simp [Lifetime.setBase, State.setChild]

/-- A doomed lifetime hangs, or has a step left. -/
theorem Doomed.progress (h : Doomed cap s) :
    Hangs (ownPool cap hcap) s ∨ ∃ e t, lifeStep (ownPool cap hcap) s e = some t ∧ Nears cap s t := by
  by_cases hnext : ∃ e t, lifeStep (ownPool cap hcap) s e = some t ∧ Nears cap s t
  · exact .inr hnext
  obtain ⟨v, hv, hrun⟩ := h.waits
  have hout : ∀ {e : Event} {b : State}, e.outside = true → step (ownPool cap hcap) s.timed.base e = some b →
      ¬ Nears cap s (s.setBase b) := fun hev hb hn => hnext ⟨_, _, method_outside hev hb, hn⟩
  have hreader : ∀ x w, (s.timed.base.handle 0).work (.read x) = some w →
      w.phase ≠ .queued ∧ w.phase ≠ .returned ∧ w.phase ≠ .posted := by
    refine fun x w hw => ⟨?_, ?_, ?_⟩
    · intro hp
      exact hout (e := .workStart ⟨0, .read x⟩) rfl (advance_eq (j := ⟨0, .read x⟩) hw hp)
        (h.setRead hw (fun _ => by rw [hp]; rfl) (by simp [hp, Phase.toGo]) s.timed.base.pool)
    · intro hp
      refine hout (e := .post ⟨0, .read x⟩) rfl (congrArg (Option.map _) (advance_eq (j := ⟨0, .read x⟩) hw hp)) ?_
      exact h.setRead hw (fun hlate => by cases hlate) (by simp [hp, Phase.toGo]) _
    · intro hp
      refine hnext ⟨.join, s.setBase s.timed.base.uvRun, ?_, h.turn hw hp⟩
      have hnd : v.phase ≠ .done := by simp [hrun]
      simp only [lifeStep, h.dtor, Option.bind_some, Lifetime.goOn, State.join, hv, hnd, if_false, Option.map_some]
      rw [← h.dtor]
      rfl
  have hempty : ∀ x w, (s.timed.base.handle 0).work (.read x) = some w → w.phase = .running →
      (s.timed.base.child 0).buf x = 0 := by
    intro x w hw hp
    by_contra hne
    have hpos := Nat.pos_of_ne_zero hne
    refine hout (e := .read 0 x 1) rfl ?_ (h.read hw hp hpos)
    simp only [step, hw]
    exact if_pos ⟨hp, Nat.one_pos, hpos, by decide⟩
  have hwrite : s.timed.base.write cap 0 = none := by
    cases hb : s.timed.base.write cap 0 with
    | none => rfl
    | some b => exact absurd (h.write hb) (hout (e := .write 0) rfl ((if_pos h.n).trans hb))
  have heof : lifeStep (ownPool cap hcap) s .readEof = none := by
    cases ht : lifeStep (ownPool cap hcap) s .readEof with
    | none => rfl
    | some t => exact absurd ⟨_, t, ht, h.readEof ht⟩ hnext
  refine .inl ⟨h.dtor, ⟨v, hv, by simp [hrun]⟩, ?_, ?_, ?_, ?_, ?_, ?_,
    (if_pos h.n).trans hwrite, heof, ?_⟩
  · intro k
    cases k with
    | wait => simp [step, State.advance, hv, hrun, ownPool]
    | read x =>
      cases hw : (s.timed.base.handle 0).work (.read x) with
      | none => simp [step, State.advance, hw, ownPool]
      | some w => simp [step, State.advance, hw, (hreader x w hw).1, ownPool]
  · simp [step, hv, hrun, State.waitFor, h.alive]
  · intro x n
    cases hw : (s.timed.base.handle 0).work (.read x) with
    | none => simp [step, hw]
    | some w =>
      simp only [step, hw]
      refine if_neg ?_
      intro hok
      have := hempty x w hw hok.1
      omega
  · intro x
    simp [step, h.exit]
  · intro k
    cases k with
    | wait => simp [step, State.advance, hv, hrun]
    | read x =>
      cases hw : (s.timed.base.handle 0).work (.read x) with
      | none => simp [step, State.advance, hw]
      | some w => simp [step, State.advance, hw, (hreader x w hw).2.1]
  · intro k w hw
    cases k with
    | wait =>
      rw [hv] at hw
      cases hw
      simp [hrun]
    | read x => exact (hreader x w hw).2.2
  · intro hprog hlater st
    exact absurd ⟨.inl hlater, fun x => .inr (.inr (.inl (by simp [Lifetime.left, hprog, hlater])))⟩ h.blocked

end Hanging

theorem doomed_hangs {cap : Nat} (hcap : 0 < cap) {s : Lifetime} (h : Doomed cap s) :
    ∃ es t, Runs.exec (lifeStep (ownPool cap hcap)) s es = some t ∧ Hangs (ownPool cap hcap) t := by
  induction hm : s.toGo using Nat.strong_induction_on generalizing s with
  | _ m ih =>
    rcases h.progress with hh | ⟨e, t, ht, hdoomed, hlt⟩
    · exact ⟨[], s, rfl, hh⟩
    · obtain ⟨es, u, hu, hh⟩ := ih t.toGo (hm ▸ hlt) hdoomed rfl
      exact ⟨e :: es, u, Runs.exec_cons.mpr ⟨t, ht, hu⟩, hh⟩

/-- After any calls on a handle, any steps of its threads and any behaviour of its child: a
    state in which the destructor waits for the wait work with nobody to go on can be
    reached from its start exactly when a worker is inside `waitid` for a living child that
    cannot finish with the pipes as the handle has them. -/
theorem destroy_hangs_iff (cap : Nat) (hcap : 0 < cap) (info : ProcessInfo) (prog : List StreamName)
    (later : List (List StreamName)) (birth : Nat) (es : List LifeEvent) (s t : Lifetime)
    (h : Runs.exec (lifeStep (ownPool cap hcap)) (lifetime info prog later birth) es = some s)
    (ht : lifeStep (ownPool cap hcap) s .destroy = some t) :
    (∃ es' u, Runs.exec (lifeStep (ownPool cap hcap)) t es' = some u ∧ Hangs (ownPool cap hcap) u) ↔ ¬ Released cap s := by
  obtain ⟨hidle, hgo⟩ := Option.ite_none_right_eq_some.mp ht
  have hinv : TimedInv s.timed := by
    have hlife : LifeInv s := Runs.exec_invariant (fun _ _ _ => lifeInv_step) (fun _ => timedInv_start info prog birth) h
    exact hlife (idle_iff.mp hidle).2.2
  refine ⟨fun ⟨es', u, hu, hh⟩ hrel => ?_, fun hnot => ?_⟩
  · have hafter : After cap t := goOn_after hinv.n hinv.own (fun _ => hrel) (fun hd => by cases hd) hgo
    exact (Runs.exec_invariant (fun _ _ _ => after_step) hafter hu).not_hangs hh
  · simp only [Released, not_forall] at hnot
    obtain ⟨w, hw, hrun, hx, hblocked⟩ := hnot
    have hbase : Inv s.timed.base := by
      rcases hinv.base with ⟨hbase, -, -⟩ | ⟨v, st, hfrozen⟩
      · exact hbase
      · rw [hfrozen.exit] at hx
        cases hx
    have hn : 0 < s.timed.base.n := by
      rw [hinv.n]
      exact Nat.one_pos
    have hnq : w.phase ≠ .queued := by simp [hrun]
    have hstart : t = { s with dtor := some (.spin .wait) } := by
      simp only [Lifetime.goOn, State.join, hw, State.cancel, hnq, if_false, Option.map_some] at hgo
      exact (Option.some.inj hgo).symm
    have halive := hbase.core.waitid_own hn ((hbase.core.good 0 hn).early hw (by rw [hrun]; rfl)).2
    rw [hx] at halive
    subst hstart
    exact doomed_hangs hcap ⟨rfl, hn, ⟨w, hw, hrun⟩, halive, hx, fun hf => hblocked ⟨hf.stdin, hf.room⟩⟩

/-- A child that reads its stdin to the end and exits, waited for by a worker. -/
def stdinReader : Lifetime := lifetime { pid := 10, stdin := 4 } [] [[]] 1

def waitedFor : List LifeEvent := [.method (.other (.call 0 (.beginWait true))), .method (.other (.workStart ⟨0, .wait⟩))]

/-- With `close_stdin` before it the destructor comes to its end. -/
theorem destroy_hangs_iff_closed :
    ∃ s t, Runs.exec (lifeStep (ownPool 1 Nat.one_pos)) stdinReader (waitedFor ++ [.closeStdin]) = some s ∧
      lifeStep (ownPool 1 Nat.one_pos) s .destroy = some t ∧
      ¬ ∃ es u, Runs.exec (lifeStep (ownPool 1 Nat.one_pos)) t es = some u ∧ Hangs (ownPool 1 Nat.one_pos) u := by
  refine ⟨_, _, rfl, rfl, ?_⟩
  intro hh
  refine (destroy_hangs_iff 1 Nat.one_pos { pid := 10, stdin := 4 } [] [[]] 1 (waitedFor ++ [.closeStdin]) _ _ rfl rfl).mp hh ?_
  intro w _ _ _
  exact ⟨.inr rfl, fun x => .inl (by cases x <;> rfl)⟩

/-- Without it the child waits for the end of a stdin that the destructor would close last. -/
theorem stdin_held :
    ∃ s, Runs.exec (lifeStep (ownPool 1 Nat.one_pos)) stdinReader (waitedFor ++ [.destroy]) = some s ∧
      Hangs (ownPool 1 Nat.one_pos) s ∧ (s.timed.base.child 0).exit = none ∧ s.later = [[]] ∧
      (s.timed.base.handle 0).info.stdin = 4 := by
  refine ⟨_, rfl, ⟨rfl, ⟨⟨.running, 0⟩, rfl, by decide⟩, ?_, rfl, ?_, ?_, ?_,
    ?_, rfl, rfl, ?_⟩, rfl, rfl, rfl⟩
  · intro k
    rcases k with _ | _ | _ <;> rfl
  · intro x n
    cases x <;> rfl
  · intro x
    cases x <;> rfl
  · intro k
    rcases k with _ | _ | _ <;> rfl
  · intro k w hw
    rcases k with _ | _ | _ <;> cases hw
    decide
  · intro _ hl
    cases hl

end CovProcess.Handle
