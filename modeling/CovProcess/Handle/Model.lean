/-
  CovProcess.Handle.Model — any number of process handles in one program
  (`class process` of `include/mozart++/mpp_system/process.hpp`), with libuv's thread
  pool, the children and the kernel's process table (Unix, `src/process_unix_wait.cpp`).

  The loop thread runs one method at a time. A method that waits (a drive-the-loop loop,
  a blocking `waitid`, the system calls of `terminate_process_tree`) is a `Frame`: it goes
  on by `resume` events, and pool threads, children and strangers take steps between
  them. The pool's discipline is a parameter, as is the capacity of a pipe. PIDs are
  reused as the kernel likes: a number is free once nobody holds it, and an exited child
  holds its own until it is reaped. Only this library reaps.

  A child is the bytes it has still to write to its pipes, what is buffered in them, and
  the status it exited with. `reaped`, `begun`, `log` and `signals` record what happened.
  Left out: reads through `out()` and `err()` and reads that fail (see
  `CovProcess.Stream`), descendants that keep a pipe open, `wait_timeout_ms` and the
  destructor.
-/

import CovProcess.Lib.Runs
import CovProcess.Stream.Communicate

namespace CovProcess.Handle

open CovProcess.Stream (StreamName fdOf closeStdin)

/-! ## Children and the process table -/

inductive Status where
  | exited (code : Nat)
  | killed (sig : Nat)
  | dumped (sig : Nat)
  deriving DecidableEq, Repr

/-- What the library makes of a `siginfo_t`. -/
def Status.code : Status → Int
  | .exited c => c
  | .killed sig => 128 + sig
  | .dumped sig => 128 + sig

structure Child where
  /-- The streams of the bytes still to be written, in order. -/
  prog : List StreamName := []
  buf : StreamName → Nat := fun _ => 0
  exit : Option Status := none
  reaped : Bool := false
  /-- The start time the kernel has for it. -/
  birth : Nat := 0

/-- A process holding a PID: the child of a handle, or a stranger. -/
structure Proc where
  owner : Option Nat
  birth : Nat
  deriving DecidableEq

/-! ## Handles -/

inductive Kind where
  | wait
  | read (x : StreamName)
  deriving DecidableEq

/-- An `async_work` from submission to its after-work callback. A work that `returned`
    still holds its thread; once `posted` it waits for the loop. -/
inductive Phase where
  | queued
  | running
  | returned
  | posted
  | done
  deriving DecidableEq, Repr

structure AsyncWork where
  phase : Phase
  exitCode : Int := 0
  deriving DecidableEq, Repr

/-- `after_work_cb`, for a work that was posted. -/
def AsyncWork.afterWork (w : AsyncWork) : AsyncWork :=
  if w.phase = .posted then { w with phase := .done } else w

/-- `work` is `_wait_work`, `_out_work` and `_err_work`. -/
structure MemberHolder where
  info : ProcessInfo := {}
  exitCode : Option Int := none
  observedExited : Bool := false
  work : Kind → Option AsyncWork := fun _ => none
  begun : Bool := false

structure Job where
  handle : Nat
  kind : Kind
  deriving DecidableEq

/-- A method of the loop thread that has not returned. -/
inductive Frame where
  /-- `end_communicate`, in the loop for a reader. -/
  | readLoop (i : Nat) (x : StreamName)
  | collectLoop (i : Nat)
  /-- `collect_wait`, in `wait_for`. -/
  | waitFor (i : Nat)
  /-- `terminate_process_tree`, before it reads the start time, and before it kills. -/
  | treeTime (i : Nat) (force : Bool)
  | treeKill (i : Nat) (force : Bool) (group : Bool)

inductive Report where
  | code (i : Nat) (c : Int)
  | exited (i : Nat)
  | running (i : Nat)
  deriving DecidableEq

inductive Sender where
  | interrupt
  | interruptTree
  deriving DecidableEq

/-- A `kill`: who called it for which handle, with the start time recorded there, and who
    held the PID then. -/
structure Signal where
  sender : Sender
  handle : Nat
  startTime : Nat
  force : Bool
  group : Bool
  recipient : Option Proc
  /-- The handle's child had been reaped. -/
  late : Bool

structure State where
  n : Nat := 0
  handle : Nat → MemberHolder := fun _ => {}
  child : Nat → Child := fun _ => {}
  procs : Int → Option Proc := fun _ => none
  /-- The jobs that hold or wait for a thread, in the order of submission. -/
  pool : List Job := []
  frame : Option Frame := none
  /-- Newest first. -/
  log : List Report := []
  signals : List Signal := []

/-- What a run does not change: the capacity of a pipe, and whether the pool may start a
    job now. -/
structure Config where
  cap : Nat
  cap_pos : 0 < cap
  mayStart : State → Job → Bool

namespace State

def setHandle (s : State) (i : Nat) (h : MemberHolder) : State :=
  { s with handle := Function.update s.handle i h }

def setChild (s : State) (i : Nat) (c : Child) : State :=
  { s with child := Function.update s.child i c }

def pid (s : State) (i : Nat) : Int := (s.handle i).info.pid

def report (s : State) (r : Report) : State := { s with log := r :: s.log }

/-! ## System calls -/

inductive WaitResult where
  | gone
  | alive
  | exited (j : Nat) (st : Status)

/-- `waitid(P_PID, pid)`: `gone` is `ECHILD`. -/
def waitid (s : State) (pid : Int) : WaitResult :=
  match s.procs pid with
  | some ⟨some j, _⟩ =>
    match (s.child j).exit with
    | some st => .exited j st
    | none => .alive
  | _ => .gone

/-- A `waitid` without `WNOWAIT` takes the zombie away. -/
def reap (s : State) (j : Nat) : State :=
  { s.setChild j { s.child j with reaped := true } with procs := Function.update s.procs (s.pid j) none }

/-- `wait_for`; `none` while it blocks. Interruptions are tried again. -/
def waitFor (s : State) (pid : Int) : Option (State × Int) :=
  match s.waitid pid with
  | .gone => some (s, 0)
  | .alive => none
  | .exited j st => some (s.reap j, st.code)

def processExited (s : State) (pid : Int) : Bool :=
  match s.waitid pid with
  | .alive => false
  | _ => true

/-- `get_process_start_time`; 0 when it cannot be read. -/
def startTime (s : State) (pid : Int) (readable : Bool) : Nat :=
  if readable then
    match s.procs pid with
    | some p => p.birth
    | none => 0
  else 0

/-- `kill(pid)` or `kill(-pid)`. -/
def kill (s : State) (sender : Sender) (i : Nat) (force group : Bool) : State :=
  { s with
    signals := ⟨sender, i, (s.handle i).info.startTime, force, group, s.procs (s.pid i), (s.child i).reaped⟩ ::
      s.signals }

/-! ## The loop and the pool -/

/-- `uv_run(UV_RUN_NOWAIT)`: every posted work has its callback. -/
def uvRun (s : State) : State :=
  { s with handle := fun i => { s.handle i with work := fun k => ((s.handle i).work k).map AsyncWork.afterWork } }

def setWork (s : State) (i : Nat) (k : Kind) (w : Option AsyncWork) : State :=
  s.setHandle i { s.handle i with work := Function.update (s.handle i).work k w }

/-- `uv_queue_work`, when it succeeds. -/
def submit (s : State) (i : Nat) (k : Kind) : State :=
  { s.setWork i k (some ⟨.queued, 0⟩) with pool := s.pool ++ [⟨i, k⟩] }

/-! ## The methods -/

def beginWait (s : State) (i : Nat) (queued : Bool) : State :=
  if (s.handle i).exitCode.isSome || ((s.handle i).work .wait).isSome then s
  else if queued then s.submit i .wait else s

/-- A finished wait work handed over to `_exit_code`. -/
def collectWork (s : State) (i : Nat) (w : AsyncWork) : State :=
  s.setHandle i { s.handle i with
    exitCode := some w.exitCode, work := Function.update (s.handle i).work .wait none, observedExited := true }

/-- The check of `poll_wait` and `has_exited`. -/
def checkExited (s : State) (i : Nat) : State × Bool :=
  if (s.handle i).exitCode.isSome || (s.handle i).observedExited then (s, true)
  else
    match (s.handle i).work .wait with
    | none =>
      if s.processExited (s.pid i) then (s.setHandle i { s.handle i with observedExited := true }, true)
      else (s, false)
    | some _ =>
      match (s.uvRun.handle i).work .wait with
      | some w => if w.phase = .done then (s.uvRun.collectWork i w, true) else (s.uvRun, false)
      | none => (s.uvRun, false)

def pollWait (s : State) (i : Nat) : State × Bool := s.checkExited i

def hasExited (s : State) (i : Nat) : State × Bool := s.checkExited i

/-- `collect_wait` up to the point where it returns or waits. -/
def collectWait (s : State) (i : Nat) : State :=
  match (s.handle i).exitCode with
  | some c => { s.report (.code i c) with frame := none }
  | none =>
    if ((s.handle i).work .wait).isSome then { s with frame := some (.collectLoop i) }
    else { s with frame := some (.waitFor i) }

/-- The reader of one stream in `begin_communicate`. -/
def beginRead (s : State) (i : Nat) (x : StreamName) (queued : Bool) : State :=
  if fdOf (s.handle i).info x ≠ FD_INVALID && ((s.handle i).work (.read x)).isNone && queued then
    s.submit i (.read x)
  else s

/-- `queued` says of each submission whether it succeeds. -/
def beginCommunicate (s : State) (i : Nat) (queued : Kind → Bool) : State :=
  let s := s.setHandle i { s.handle i with info := closeStdin (s.handle i).info, begun := true }
  let s := s.beginWait i (queued .wait)
  let s := s.beginRead i .stdout (queued (.read .stdout))
  s.beginRead i .stderr (queued (.read .stderr))

def pollCommunicate (s : State) (i : Nat) : State × Bool :=
  let s := s.uvRun
  (s, [StreamName.stdout, .stderr].all fun x => ((s.handle i).work (.read x)).all fun w => w.phase = .done)

/-- `end_communicate` from the stderr reader on, and from the start. -/
def endErr (s : State) (i : Nat) : State :=
  if ((s.handle i).work (.read .stderr)).isSome then { s with frame := some (.readLoop i .stderr) }
  else s.collectWait i

def endCommunicate (s : State) (i : Nat) : State :=
  if ((s.handle i).work (.read .stdout)).isSome then { s with frame := some (.readLoop i .stdout) }
  else s.endErr i

def communicate (s : State) (i : Nat) (queued : Kind → Bool) : State :=
  (s.beginCommunicate i queued).endCommunicate i

def interrupt (s : State) (i : Nat) (force : Bool) : State := s.kill .interrupt i force false

/-- `terminate_process_tree` up to its second system call. -/
def interruptTree (s : State) (i : Nat) (force : Bool) : State :=
  if s.processExited (s.pid i) then s
  else if 0 < (s.handle i).info.startTime then { s with frame := some (.treeTime i force) }
  else { s with frame := some (.treeKill i force true) }

/-! ## Methods that wait -/

/-- A method that waits goes on; `none` where it blocks. -/
def resume (s : State) (readable : Bool) : Frame → Option State
  | .readLoop i x =>
    match (s.handle i).work (.read x) with
    | none => none
    | some w =>
      if w.phase = .done then
        let s := s.setWork i (.read x) none
        some (if x = .stdout then s.endErr i else s.collectWait i)
      else some s.uvRun
  | .collectLoop i =>
    match (s.handle i).work .wait with
    | none => none
    | some w =>
      if w.phase = .done then some { (s.collectWork i w).report (.code i w.exitCode) with frame := none }
      else some s.uvRun
  | .waitFor i =>
    (s.waitFor (s.pid i)).map fun (s, c) =>
      { (s.setHandle i { s.handle i with exitCode := some c }).report (.code i c) with frame := none }
  | .treeTime i force =>
    let current := s.startTime (s.pid i) readable
    some { s with frame := some (.treeKill i force (current ≠ 0 && current = (s.handle i).info.startTime)) }
  | .treeKill i force group =>
    some { (if 0 < s.pid i then s.kill .interruptTree i force group else s) with frame := none }

end State

/-! ## The system -/

inductive Call where
  | beginWait (queued : Bool)
  | pollWait
  | hasExited
  | collectWait
  | beginCommunicate (queued : Kind → Bool)
  | pollCommunicate
  | endCommunicate
  | communicate (queued : Kind → Bool)
  | interrupt (force : Bool)
  | interruptTree (force : Bool)

/-- A call on a handle, with its result logged where it says whether the child exited. -/
def Call.run (s : State) (i : Nat) : Call → State
  | .beginWait queued => s.beginWait i queued
  | .pollWait => (s.pollWait i).1.report (if (s.pollWait i).2 then .exited i else .running i)
  | .hasExited => (s.hasExited i).1.report (if (s.hasExited i).2 then .exited i else .running i)
  | .collectWait => s.collectWait i
  | .beginCommunicate queued => s.beginCommunicate i queued
  | .pollCommunicate => (s.pollCommunicate i).1
  | .endCommunicate => s.endCommunicate i
  | .communicate queued => s.communicate i queued
  | .interrupt force => s.interrupt i force
  | .interruptTree force => s.interruptTree i force

inductive Event where
  /-- A start that succeeded, of a child that will write `prog`. -/
  | start (info : ProcessInfo) (prog : List StreamName) (birth : Nat)
  | call (i : Nat) (c : Call)
  /-- The method in progress goes on; `readable` is whether `/proc` can be read. -/
  | resume (readable : Bool)
  | workStart (j : Job)
  /-- The blocking `waitid` of a wait work returns. -/
  | waitReturn (i : Nat)
  | read (i : Nat) (x : StreamName) (n : Nat)
  | eof (i : Nat) (x : StreamName)
  | post (j : Job)
  | write (i : Nat)
  | exit (i : Nat) (st : Status)
  /-- An unrelated process appears at a PID, or is gone. -/
  | spawn (pid : Int) (birth : Nat)
  | vanish (pid : Int)

namespace State

/-- `create_process` hands over a child at a free PID. -/
def start (s : State) (info : ProcessInfo) (prog : List StreamName) (birth : Nat) : State :=
  { s with
    n := s.n + 1
    handle := Function.update s.handle s.n { info := info }
    child := Function.update s.child s.n { prog := prog, birth := birth }
    procs := Function.update s.procs info.pid (some ⟨some s.n, birth⟩) }

/-- Whether the next byte of the child has room: bytes to a stream the handle does not
    hold go elsewhere. -/
def hasRoom (s : State) (cap : Nat) (i : Nat) (x : StreamName) : Bool :=
  fdOf (s.handle i).info x = FD_INVALID || (s.child i).buf x < cap

def write (s : State) (cap : Nat) (i : Nat) : Option State :=
  match (s.child i).prog, (s.child i).exit with
  | x :: prog, none =>
    if s.hasRoom cap i x then
      let c := { s.child i with prog := prog }
      some (s.setChild i
        (if fdOf (s.handle i).info x = FD_INVALID then c
         else { c with buf := Function.update c.buf x (c.buf x + 1) }))
    else none
  | _, _ => none

def advance (s : State) (j : Job) (p q : Phase) (code : AsyncWork → Int) : Option State :=
  match (s.handle j.handle).work j.kind with
  | some w => if w.phase = p then some (s.setWork j.handle j.kind (some ⟨q, code w⟩)) else none
  | none => none

end State

open State in
def step (cfg : Config) (s : State) : Event → Option State
  | .start info prog birth =>
    if s.frame.isNone && 0 < info.pid && (s.procs info.pid).isNone &&
        (info.startTime = 0 || info.startTime = birth) then
      some (s.start info prog birth)
    else none
  | .call i c => if s.frame.isNone && i < s.n then some (c.run s i) else none
  | .resume readable => s.frame.bind fun f => s.resume readable f
  | .workStart j => if cfg.mayStart s j then s.advance j .queued .running AsyncWork.exitCode else none
  | .waitReturn i =>
    match (s.handle i).work .wait with
    | some w =>
      if w.phase = .running ∧ i < s.n then
        (s.waitFor (s.pid i)).map fun (s, c) => s.setWork i .wait (some ⟨.returned, c⟩)
      else none
    | none => none
  | .read i x n =>
    match (s.handle i).work (.read x) with
    | some w =>
      if w.phase = .running ∧ 0 < n ∧ n ≤ (s.child i).buf x ∧ n ≤ Stream.BUFFER_SIZE then
        some (s.setChild i
          { s.child i with buf := Function.update (s.child i).buf x ((s.child i).buf x - n) })
      else none
    | none => none
  | .eof i x =>
    if (s.child i).buf x = 0 ∧ (s.child i).exit.isSome then
      s.advance ⟨i, .read x⟩ .running .returned AsyncWork.exitCode
    else none
  | .post j =>
    (s.advance j .returned .posted AsyncWork.exitCode).map fun s => { s with pool := s.pool.erase j }
  | .write i => if i < s.n then s.write cfg.cap i else none
  | .exit i st =>
    if i < s.n ∧ (s.child i).exit = none then some (s.setChild i { s.child i with exit := some st }) else none
  | .spawn pid birth =>
    if (s.procs pid).isNone then some { s with procs := Function.update s.procs pid (some ⟨none, birth⟩) } else none
  | .vanish pid =>
    match s.procs pid with
    | some ⟨none, _⟩ => some { s with procs := Function.update s.procs pid none }
    | _ => none

abbrev run (cfg : Config) (es : List Event) : Option State := Runs.exec (step cfg) {} es

/-! ## What a step does -/

theorem setHandle_handle (s : State) (i : Nat) (h : MemberHolder) (j : Nat) :
    (s.setHandle i h).handle j = if j = i then h else s.handle j := Function.update_apply ..

theorem setChild_child (s : State) (i : Nat) (c : Child) (j : Nat) :
    (s.setChild i c).child j = if j = i then c else s.child j := Function.update_apply ..

/-- What the changed handle keeps, every handle keeps. -/
theorem setHandle_same {α : Sort*} (f : MemberHolder → α) {s : State} {i : Nat} {h : MemberHolder}
    (hf : f h = f (s.handle i)) (j : Nat) : f ((s.setHandle i h).handle j) = f (s.handle j) := by
  rw [setHandle_handle]
  split
  · rename_i hj
    rw [hj, hf]
  · rfl

theorem setChild_same {α : Sort*} (f : Child → α) {s : State} {i : Nat} {c : Child} (hf : f c = f (s.child i)) (j : Nat) :
    f ((s.setChild i c).child j) = f (s.child j) := by
  rw [setChild_child]
  split
  · rename_i hj
    rw [hj, hf]
  · rfl

theorem setWork_work (s : State) (i : Nat) (k : Kind) (w : Option AsyncWork) (j : Nat) (l : Kind) :
    ((s.setWork i k w).handle j).work l = if j = i ∧ l = k then w else (s.handle j).work l := by
  rw [State.setWork, setHandle_handle]
  by_cases hj : j = i
  · subst hj
    by_cases hl : l = k <;> simp [hl]
  · simp [hj]

theorem setWork_info (s : State) (i : Nat) (k : Kind) (w : Option AsyncWork) (j : Nat) :
    ((s.setWork i k w).handle j).info = (s.handle j).info := setHandle_same MemberHolder.info (by rfl) j

/-- `begin_wait` submits only where nothing is stored and nothing submitted. -/
theorem beginWait_eq (s : State) (i : Nat) (queued : Bool) :
    s.beginWait i queued = s ∨ ((s.handle i).exitCode = none ∧ (s.handle i).work .wait = none ∧
      s.beginWait i queued = s.submit i .wait) := by
  unfold State.beginWait
  split
  · exact .inl rfl
  · rename_i hfree
    split
    · simp only [Bool.or_eq_true, not_or, Bool.not_eq_true, Option.isSome_eq_false_iff,
        Option.isNone_iff_eq_none] at hfree
      exact .inr ⟨hfree.1, hfree.2, rfl⟩
    · exact .inl rfl

theorem beginRead_eq (s : State) (i : Nat) (x : StreamName) (queued : Bool) :
    s.beginRead i x queued = s ∨ ((s.handle i).work (.read x) = none ∧
      s.beginRead i x queued = s.submit i (.read x)) := by
  unfold State.beginRead
  split
  · rename_i hfree
    simp only [Bool.and_eq_true, Option.isNone_iff_eq_none] at hfree
    exact .inr ⟨hfree.1.2, rfl⟩
  · exact .inl rfl

theorem advance_some {s s' : State} {j : Job} {p q : Phase} {code : AsyncWork → Int}
    (h : s.advance j p q code = some s') :
    ∃ w, (s.handle j.handle).work j.kind = some w ∧ w.phase = p ∧
      s' = s.setWork j.handle j.kind (some ⟨q, code w⟩) := by
  unfold State.advance at h
  split at h
  · rename_i w hw
    split at h
    · exact ⟨w, hw, ‹_›, (Option.some.inj h).symm⟩
    · cases h
  · cases h

theorem advance_eq {s : State} {j : Job} {p q : Phase} {code : AsyncWork → Int} {w : AsyncWork}
    (hw : (s.handle j.handle).work j.kind = some w) (hp : w.phase = p) :
    s.advance j p q code = some (s.setWork j.handle j.kind (some ⟨q, code w⟩)) := by
  rw [State.advance, hw]
  exact if_pos hp

/-- A child that wrote a byte has no more before it than it had. -/
theorem write_some {s s' : State} {cap i : Nat} (h : s.write cap i = some s') :
    ∃ c, s' = s.setChild i c ∧ c.reaped = (s.child i).reaped ∧ c.birth = (s.child i).birth ∧
      c.exit = (s.child i).exit ∧
      ∀ x, c.buf x + c.prog.count x ≤ (s.child i).buf x + (s.child i).prog.count x := by
  unfold State.write at h
  split at h
  · rename_i y prog hprog hexit
    split at h
    · refine ⟨_, (Option.some.inj h).symm, ?_, ?_, ?_, fun x => ?_⟩
      · split <;> rfl
      · split <;> rfl
      · split <;> rfl
      rw [hprog, List.count_cons]
      by_cases hxy : x = y
      · subst hxy
        split
        · simp only [beq_self_eq_true, if_true]
          omega
        · simp only [Function.update_self, beq_self_eq_true, if_true]
          omega
      · have hyx : y ≠ x := fun he => hxy he.symm
        split <;> simp [hyx, Function.update_of_ne hxy]
    · cases h
  · cases h

/-- The ways in which a method that waits goes on. -/
inductive Resumes (s : State) : Frame → State → Prop
  /-- A turn of the loop, the work not being done. -/
  | turn {f : Frame} (hf : ∀ i, f ≠ .waitFor i) (ht : ∀ i force, f ≠ .treeTime i force)
      (hk : ∀ i force group, f ≠ .treeKill i force group) : Resumes s f s.uvRun
  | taken {i : Nat} {x : StreamName} {w : AsyncWork} (hw : (s.handle i).work (.read x) = some w)
      (hdone : w.phase = .done) : Resumes s (.readLoop i x)
        (if x = .stdout then (s.setWork i (.read x) none).endErr i else (s.setWork i (.read x) none).collectWait i)
  | collected {i : Nat} {w : AsyncWork} (hw : (s.handle i).work .wait = some w) (hdone : w.phase = .done) :
      Resumes s (.collectLoop i) { (s.collectWork i w).report (.code i w.exitCode) with frame := none }
  | waited {i : Nat} {t : State} {c : Int} (h : s.waitFor (s.pid i) = some (t, c)) : Resumes s (.waitFor i)
      { (t.setHandle i { t.handle i with exitCode := some c }).report (.code i c) with frame := none }
  | timed {i : Nat} {force group : Bool} :
      Resumes s (.treeTime i force) { s with frame := some (.treeKill i force group) }
  | killed {i : Nat} {force group : Bool} :
      Resumes s (.treeKill i force group) { s.kill .interruptTree i force group with frame := none }
  | spared {i : Nat} {force group : Bool} : Resumes s (.treeKill i force group) { s with frame := none }

theorem resume_moves {s s' : State} {readable : Bool} {f : Frame} (h : s.resume readable f = some s') :
    Resumes s f s' := by
  cases f with
  | readLoop i x =>
    simp only [State.resume] at h
    split at h
    · cases h
    · split at h <;> cases h
      · exact .taken ‹_› ‹_›
      · exact .turn (by simp) (by simp) (by simp)
  | collectLoop i =>
    simp only [State.resume] at h
    split at h
    · cases h
    · split at h <;> cases h
      · exact .collected ‹_› ‹_›
      · exact .turn (by simp) (by simp) (by simp)
  | waitFor i =>
    obtain ⟨⟨t, c⟩, ht, rfl⟩ := Option.map_eq_some_iff.mp h
    exact .waited ht
  | treeTime i force =>
    cases h
    exact .timed
  | treeKill i force group =>
    cases h
    split
    · exact .killed
    · exact .spared

/-- The steps there are, each with what it found and what it leaves. -/
inductive Moves (cfg : Config) (s : State) : Event → State → Prop
  | start {info : ProcessInfo} {prog : List StreamName} {birth : Nat} (hf : s.frame = none)
      (hfree : s.procs info.pid = none) : Moves cfg s (.start info prog birth) (s.start info prog birth)
  | call {i : Nat} {c : Call} (hf : s.frame = none) (hi : i < s.n) : Moves cfg s (.call i c) (c.run s i)
  | resume {readable : Bool} {f : Frame} {s' : State} (hf : s.frame = some f) (h : Resumes s f s') :
      Moves cfg s (.resume readable) s'
  | workStart {j : Job} {w : AsyncWork} (hw : (s.handle j.handle).work j.kind = some w) (hp : w.phase = .queued) :
      Moves cfg s (.workStart j) (s.setWork j.handle j.kind (some ⟨.running, w.exitCode⟩))
  | waitReturn {i : Nat} {w : AsyncWork} {t : State} {c : Int} (hw : (s.handle i).work .wait = some w)
      (hp : w.phase = .running) (hi : i < s.n) (h : s.waitFor (s.pid i) = some (t, c)) :
      Moves cfg s (.waitReturn i) (t.setWork i .wait (some ⟨.returned, c⟩))
  | read {i : Nat} {x : StreamName} {n : Nat} : Moves cfg s (.read i x n) (s.setChild i
      { s.child i with buf := Function.update (s.child i).buf x ((s.child i).buf x - n) })
  | eof {i : Nat} {x : StreamName} {w : AsyncWork} (hx : (s.child i).exit ≠ none)
      (hw : (s.handle i).work (.read x) = some w) (hp : w.phase = .running) :
      Moves cfg s (.eof i x) (s.setWork i (.read x) (some ⟨.returned, w.exitCode⟩))
  | post {j : Job} {w : AsyncWork} (hw : (s.handle j.handle).work j.kind = some w) (hp : w.phase = .returned) :
      Moves cfg s (.post j)
        { s.setWork j.handle j.kind (some ⟨.posted, w.exitCode⟩) with pool := s.pool.erase j }
  | write {i : Nat} {c : Child} (hr : c.reaped = (s.child i).reaped) (hb : c.birth = (s.child i).birth)
      (hx : c.exit = (s.child i).exit)
      (hle : ∀ x, c.buf x + c.prog.count x ≤ (s.child i).buf x + (s.child i).prog.count x) :
      Moves cfg s (.write i) (s.setChild i c)
  | exit {i : Nat} {st : Status} (hx : (s.child i).exit = none) :
      Moves cfg s (.exit i st) (s.setChild i { s.child i with exit := some st })
  | spawn {pid : Int} {birth : Nat} (hfree : s.procs pid = none) :
      Moves cfg s (.spawn pid birth) { s with procs := Function.update s.procs pid (some ⟨none, birth⟩) }
  | vanish {pid : Int} {birth : Nat} (hp : s.procs pid = some ⟨none, birth⟩) :
      Moves cfg s (.vanish pid) { s with procs := Function.update s.procs pid none }

theorem step_moves {cfg : Config} {s s' : State} {ev : Event} (h : step cfg s ev = some s') : Moves cfg s ev s' := by
  cases ev with
  | start info prog birth =>
    simp only [step] at h
    split at h <;> cases h
    rename_i hok
    simp only [Bool.and_eq_true, Option.isNone_iff_eq_none] at hok
    exact .start hok.1.1.1 hok.1.2
  | call i c =>
    simp only [step] at h
    split at h <;> cases h
    rename_i hok
    simp only [Bool.and_eq_true, Option.isNone_iff_eq_none, decide_eq_true_eq] at hok
    exact .call hok.1 hok.2
  | resume readable =>
    obtain ⟨f, hf, h⟩ := Option.bind_eq_some_iff.mp h
    exact .resume hf (resume_moves h)
  | workStart j =>
    simp only [step] at h
    split at h
    · obtain ⟨w, hw, hp, rfl⟩ := advance_some h
      exact .workStart hw hp
    · cases h
  | waitReturn i =>
    simp only [step] at h
    split at h
    · rename_i w hw
      split at h
      · rename_i hrun
        obtain ⟨⟨t, c⟩, ht, rfl⟩ := Option.map_eq_some_iff.mp h
        exact .waitReturn hw hrun.1 hrun.2 ht
      · cases h
    · cases h
  | read i x n =>
    simp only [step] at h
    split at h
    · split at h <;> cases h
      exact .read
    · cases h
  | eof i x =>
    simp only [step] at h
    split at h
    · rename_i hx
      obtain ⟨w, hw, hp, rfl⟩ := advance_some h
      exact .eof (Option.isSome_iff_ne_none.mp hx.2) hw hp
    · cases h
  | post j =>
    obtain ⟨t, ht, rfl⟩ := Option.map_eq_some_iff.mp h
    obtain ⟨w, hw, hp, rfl⟩ := advance_some ht
    exact .post hw hp
  | write i =>
    simp only [step] at h
    split at h
    · obtain ⟨c, rfl, hr, hb, hx, hle⟩ := write_some h
      exact .write hr hb hx hle
    · cases h
  | exit i st =>
    simp only [step] at h
    split at h <;> cases h
    exact .exit (‹_ ∧ _›).2
  | spawn pid birth =>
    simp only [step] at h
    split at h <;> cases h
    exact .spawn (Option.isNone_iff_eq_none.mp ‹_›)
  | vanish pid =>
    simp only [step] at h
    split at h <;> cases h
    exact .vanish ‹_›

end CovProcess.Handle
