/-
  CovProcess.Win32.Waits — waiting for children and ending them (`process_win32_wait.cpp`
  and the waits of `process.hpp`), over the system of `CovProcess.Handle.Holders`.

  Each system call takes the number in `_pid`, and acts on whatever the table has there.
  A process ends by its own exit or by a `TerminateProcess` of anybody, the first of them
  decides its exit code, and it is signaled some time after. A call that blocks is a step
  at the time it returns: the loop thread does nothing else in between. The destructor
  takes a wait work off the queue or waits for its end, and closes the handles last.
  Left out: the readers, and the descendants in `terminate_process_tree` (see
  `CovProcess.Win32.KillTree`), which are ended as by strangers.

  Proved: `waits_true`, along any run. Every call was made on the handle's own process, in
  a worker as in a method; every code returned is the first ending of that process as an
  `int`; an exit is reported after the process was signaled, and nothing later denies it.
-/

import CovProcess.Handle.ExitCode
import CovProcess.Win32.Children

namespace CovProcess.Win32

open FdTable
open CovProcess.Handle (AsyncWork Phase Report NoRelapse)
open CovProcess.Holders (Obj System Holds)

variable {φ : Type}

/-! ## Handles -/

/-- Where a handle is: in use, in its destructor, or past it. -/
inductive Life where
  | live
  | joining
  | gone
  deriving DecidableEq, Repr

/-- The part of a `member_holder` that waits. -/
structure Waiter where
  exitCode : Option Int := none
  observedExited : Bool := false
  work : Option AsyncWork := none
  life : Life := .live

/-- The handle answers that its child exited. -/
def Waiter.knows (u : Waiter) : Bool := u.exitCode.isSome || u.observedExited

def Waiter.uvRun (u : Waiter) : Waiter := { u with work := u.work.map AsyncWork.afterWork }

structure Waits (φ : Type) where
  sys : System φ
  waiter : Nat → Waiter := fun _ => {}
  /-- The processes that have ended. -/
  signaled : Nat → Bool := fun _ => false
  /-- Every exit of a child and every `TerminateProcess` that reached one, oldest first. -/
  endings : List (Nat × UInt32) := []
  /-- What the methods returned, newest first. -/
  log : List Report := []
  /-- For which handle a system call was made, and what its number referred to. -/
  calls : List (Nat × Option (Obj φ)) := []

def STILL_ACTIVE : UInt32 := 259

def INFINITE : Nat := 4294967295

/-- A `DWORD` as an `int`. -/
def toInt (code : UInt32) : Int := code.toInt32.toInt

/-- `_exit_code`s of `terminate_process`. -/
def killCode (force : Bool) : UInt32 := if force then 137 else 143

namespace Waits

variable (s : Waits φ)

def setWaiter (i : Nat) (u : Waiter) : Waits φ := { s with waiter := Function.update s.waiter i u }

def report (r : Report) : Waits φ := { s with log := r :: s.log }

/-! ## System calls -/

/-- What `_pid` of handle `i` refers to. -/
def object (i : Nat) : Option (Obj φ) := s.sys.handles[i]?.bind fun h => s.sys.table.file h.info.pid

def called (i : Nat) : Waits φ := { s with calls := (i, s.object i) :: s.calls }

def exitStatus (j : Nat) : Option UInt32 := (s.endings.find? fun e => e.1 == j).map Prod.snd

def getExitCodeProcess (j : Nat) : UInt32 := if s.signaled j then (s.exitStatus j).getD STILL_ACTIVE else STILL_ACTIVE

/-- `wait_for`; `none` while it blocks. On a number that is no process both calls fail. -/
def waitFor (i : Nat) : Option (Waits φ × Int) :=
  match s.object i with
  | some (.process j) => if s.signaled j then some (s.called i, toInt (s.getExitCodeProcess j)) else none
  | _ => some (s.called i, 0)

def processExited (i : Nat) : Bool :=
  match s.object i with
  | some (.process j) => s.signaled j
  | _ => false

def terminateProcess (i : Nat) (code : UInt32) : Waits φ :=
  match s.object i with
  | some (.process j) => { s.called i with endings := s.endings ++ [(j, code)] }
  | _ => s.called i

/-- `mpp_impl::wait_timeout_ms`; the second `none` is a timeout. -/
def waitTimeoutMs (i : Nat) (timeoutMs : Int) : Option (Waits φ × Option Int) :=
  let dwTimeout := if timeoutMs < 0 then INFINITE else (timeoutMs % 4294967296).toNat
  match s.object i with
  | some (.process j) =>
    if s.signaled j then some (s.called i, some (toInt (s.getExitCodeProcess j)))
    else if dwTimeout = INFINITE then none
    else some (s.called i, none)
  | _ => some (s.called i, none)

/-! ## Methods -/

/-- `uv_run(UV_RUN_NOWAIT)`. -/
def uvRun : Waits φ := { s with waiter := fun i => (s.waiter i).uvRun }

def beginWait (i : Nat) (queued : Bool) : Waits φ :=
  let u := s.waiter i
  if u.exitCode.isSome || u.work.isSome then s
  else if queued then s.setWaiter i { u with work := some ⟨.queued, 0⟩ } else s

/-- A finished wait work handed over to `_exit_code`. -/
def collectWork (i : Nat) (w : AsyncWork) : Waits φ :=
  s.setWaiter i { s.waiter i with exitCode := some w.exitCode, work := none, observedExited := true }

/-- The text of `poll_wait` and of `has_exited`. -/
def checkExited (i : Nat) : Waits φ × Bool :=
  let u := s.waiter i
  if u.exitCode.isSome || u.observedExited then (s, true)
  else
    match u.work with
    | none =>
      if s.processExited i then ((s.called i).setWaiter i { u with observedExited := true }, true) else (s.called i, false)
    | some w =>
      if w.afterWork.phase = .done then (s.uvRun.collectWork i w.afterWork, true) else (s.uvRun, false)

def collectWait (i : Nat) : Option (Waits φ) :=
  let u := s.waiter i
  match u.exitCode with
  | some c => some (s.report (.code i c))
  | none =>
    match u.work with
    | some w =>
      if w.afterWork.phase = .done then
        some ((s.uvRun.collectWork i w.afterWork).report (.code i w.afterWork.exitCode))
      else none
    | none => (s.waitFor i).map fun (s, c) => (s.setWaiter i { u with exitCode := some c }).report (.code i c)

def waitTimeout (i : Nat) (timeoutMs : Int) : Option (Waits φ) :=
  let u := s.waiter i
  match u.exitCode with
  | some c => some (s.report (.code i c))
  | none =>
    (s.waitTimeoutMs i timeoutMs).map fun (s, r) =>
      match r with
      | some c => (s.setWaiter i { u with exitCode := some c }).report (.code i c)
      | none => s.report (.running i)

def interrupt (i : Nat) (force : Bool) : Waits φ := s.terminateProcess i (killCode force)

def interruptTree (i : Nat) (force : Bool) : Waits φ :=
  if s.processExited i then s.called i else (s.called i).terminateProcess i (killCode force)

/-- `~member_holder` up to its loop: `uv_cancel` posts a work that has no thread. -/
def drop (i : Nat) : Waits φ :=
  let u := s.waiter i
  s.setWaiter i { u with
    life := .joining
    work := u.work.map fun w => if w.phase = .queued then { w with phase := .posted } else w }

def joined (i : Nat) : Bool := (s.waiter i).work.all fun w => w.phase = .done

/-- The end of `~member_holder`. -/
def close (i : Nat) : Waits φ :=
  { s.setWaiter i { s.waiter i with life := .gone, work := none } with sys := s.sys.closeProcess .win32 i }

def advance (i : Nat) (p q : Phase) : Option (Waits φ) :=
  match (s.waiter i).work with
  | some w => if w.phase = p then some (s.setWaiter i { s.waiter i with work := some { w with phase := q } }) else none
  | none => none

/-- The blocking `wait_for` of a wait work returns. -/
def waitReturn (i : Nat) : Option (Waits φ) :=
  match (s.waiter i).work with
  | some w =>
    if w.phase = .running then
      (s.waitFor i).map fun (s, c) => s.setWaiter i { s.waiter i with work := some ⟨.returned, c⟩ }
    else none
  | none => none

/-- The start of the handle returned, and its destructor has not begun. -/
def Usable (i : Nat) : Prop :=
  (s.sys.handles[i]?.any fun h => h.made.pid ≠ FD_INVALID) = true ∧ (s.waiter i).life = .live

instance (i : Nat) : Decidable (s.Usable i) := inferInstanceAs (Decidable (_ ∧ _))

end Waits

/-! ## The system -/

inductive Method where
  | beginWait (queued : Bool)
  | pollWait
  | hasExited
  | collectWait
  | waitTimeout (timeoutMs : Int)
  | interrupt (force : Bool)
  | interruptTree (force : Bool)
  | drop

/-- A call on a handle, with its result logged where it says whether the child exited. -/
def Method.run (s : Waits φ) (i : Nat) : Method → Option (Waits φ)
  | .beginWait queued => some (s.beginWait i queued)
  | .pollWait => some ((s.checkExited i).1.report (if (s.checkExited i).2 then .exited i else .running i))
  | .hasExited => some ((s.checkExited i).1.report (if (s.checkExited i).2 then .exited i else .running i))
  | .collectWait => s.collectWait i
  | .waitTimeout timeoutMs => s.waitTimeout i timeoutMs
  | .interrupt force => some (s.interrupt i force)
  | .interruptTree force => some (s.interruptTree i force)
  | .drop => some (s.drop i)

inductive WaitEvent (φ : Type) where
  /-- A start, or anything done to descriptors. -/
  | system (e : Holders.Event (Kernel (Obj φ) × ProcessStartup) φ)
  | call (i : Nat) (m : Method)
  | uvRun
  | workStart (i : Nat)
  | waitReturn (i : Nat)
  | post (i : Nat)
  /-- The destructor comes to its end. -/
  | close (i : Nat)
  /-- The child exits, or somebody ends it. -/
  | ends (j : Nat) (code : UInt32)
  | signal (j : Nat)

def destroys {κ : Type} : Holders.Event κ φ → Bool
  | .destroy _ => true
  | _ => false

def waitStep (s : Waits φ) : WaitEvent φ → Option (Waits φ)
  | .system e => if destroys e then none else (Holders.step .win32 spawn s.sys e).map fun t => { s with sys := t }
  | .call i m => if s.Usable i then m.run s i else none
  | .uvRun => some s.uvRun
  | .workStart i => s.advance i .queued .running
  | .waitReturn i => s.waitReturn i
  | .post i => s.advance i .returned .posted
  | .close i => if (s.waiter i).life = .joining && s.joined i then some (s.close i) else none
  | .ends j code => if j < s.sys.handles.length then some { s with endings := s.endings ++ [(j, code)] } else none
  | .signal j => if (s.exitStatus j).isSome then some { s with signaled := Function.update s.signaled j true } else none

def WaitReady (s : Waits φ) : WaitEvent φ → Prop
  | .system e => Holders.StartsReady Ready s.sys e
  | _ => True

def Waits.init (t : Table φ) : Waits φ := { sys := System.init t }

/-! ## The invariant -/

/-- Process `i` has ended, and `v` is the code it ended with. -/
def Tells (s : Waits φ) (i : Nat) (v : Int) : Prop :=
  s.signaled i = true ∧ ∃ c, s.exitStatus i = some c ∧ v = toInt c

def Started (s : System φ) (i : Nat) : Prop := ∃ h, s.handles[i]? = some h ∧ h.made.pid ≠ FD_INVALID

structure WaiterOk (s : Waits φ) (i : Nat) (u : Waiter) : Prop where
  code : ∀ v, u.exitCode = some v → Tells s i v
  observed : u.observedExited = true → s.signaled i = true
  /-- A work has its handle, and a result once its `wait_for` returned; one taken off the
      queue has none. -/
  work : ∀ w, u.work = some w → Started s.sys i ∧ u.life ≠ .gone ∧ (u.life = .live → w.phase.late = true → Tells s i w.exitCode)

structure Inv (s : Waits φ) : Prop where
  holds : Holds .win32 s.sys
  shielded : Shielded s.sys.table
  /-- Until its destructor ends a handle has its process open. -/
  opened : ∀ i h, s.sys.handles[i]? = some h → h.made.pid ≠ FD_INVALID → (s.waiter i).life ≠ .gone → h.info.pid ≠ FD_INVALID
  waiter : ∀ i, WaiterOk s i (s.waiter i)
  ended : ∀ i, s.signaled i = true → ∃ c, s.exitStatus i = some c
  calls : ∀ c ∈ s.calls, c.2 = some (.process c.1)
  codes : ∀ i v, .code i v ∈ s.log → (s.waiter i).exitCode = some v
  exits : ∀ i, .exited i ∈ s.log → (s.waiter i).knows = true
  sticky : s.log.Pairwise NoRelapse

section Proofs

variable {s : Waits φ} {i : Nat} {u : Waiter}

@[simp] theorem exitCode_afterWork (w : AsyncWork) : w.afterWork.exitCode = w.exitCode := by
  unfold AsyncWork.afterWork
  split <;> rfl

/-- The callback comes after the result. -/
@[simp] theorem late_afterWork (w : AsyncWork) : w.afterWork.phase.late = w.phase.late := by
  unfold AsyncWork.afterWork
  split
  · rename_i hp
    rw [hp]
    rfl
  · rfl

theorem Waits.Usable.started (h : s.Usable i) : Started s.sys i := by
  have hmade := h.1
  cases hi : s.sys.handles[i]? with
  | none => simp [hi] at hmade
  | some hd => exact ⟨hd, hi, by simpa [hi] using hmade⟩

/-- What is said of a waiter stays true as processes end and handles are started. -/
theorem WaiterOk.mono {t : Waits φ} (hu : WaiterOk s i u) (hsig : s.signaled i = true → t.signaled i = true)
    (htell : ∀ v, Tells s i v → Tells t i v) (hst : Started s.sys i → Started t.sys i) : WaiterOk t i u where
  code v hv := htell v (hu.code v hv)
  observed ho := hsig (hu.observed ho)
  work w hw := ⟨hst (hu.work w hw).1, (hu.work w hw).2.1, fun hl hp => htell _ ((hu.work w hw).2.2 hl hp)⟩

namespace Inv

theorem object_eq (h : Inv s) (hst : Started s.sys i) (hlife : (s.waiter i).life ≠ .gone) :
    s.object i = some (.process i) := by
  obtain ⟨hd, hi, hmade⟩ := hst
  have hfd := h.opened i hd hi hmade hlife
  rw [Waits.object, hi]
  exact ((h.holds.handle i hd hi).mine .pid (by simp [Holders.slots]) hfd).2

theorem called (h : Inv s) (hobj : s.object i = some (.process i)) : Inv (s.called i) where
  holds := h.holds
  shielded := h.shielded
  opened := h.opened
  waiter k := (h.waiter k).mono id (fun _ h => h) id
  ended := h.ended
  calls c hc := by
    rcases List.mem_cons.mp hc with rfl | hc
    · exact hobj
    · exact h.calls c hc
  codes := h.codes
  exits := h.exits
  sticky := h.sticky

/-- A change to one waiter that forgets nothing. -/
theorem setWaiter (h : Inv s) (hu : WaiterOk s i u) (hcode : ∀ v, (s.waiter i).exitCode = some v → u.exitCode = some v)
    (hknows : (s.waiter i).knows = true → u.knows = true) (hlife : (s.waiter i).life = .gone → u.life = .gone) :
    Inv (s.setWaiter i u) := by
  have hset : ∀ {P : Waiter → Prop} (k : Nat), (k = i → P (s.waiter i) → P u) → P (s.waiter k) →
      P ((s.setWaiter i u).waiter k) := by
    intro P k hi hk
    by_cases hki : k = i
    · subst hki
      simpa [Waits.setWaiter] using hi rfl hk
    · simpa [Waits.setWaiter, hki] using hk
  refine ⟨h.holds, h.shielded, ?_, ?_, h.ended, h.calls, ?_, ?_, h.sticky⟩
  · intro k hd hk hmade hgone
    refine h.opened k hd hk hmade fun hold => hgone ?_
    exact hset (P := fun u => u.life = .gone) k (fun _ => hlife) hold
  · intro k
    refine hset (P := fun w => WaiterOk (s.setWaiter i u) k w) k ?_ ((h.waiter k).mono id (fun _ h => h) id)
    intro heq _
    subst heq
    exact hu.mono id (fun _ h => h) id
  · intro k v hv
    exact hset (P := fun u => u.exitCode = some v) k (fun _ => hcode v) (h.codes k v hv)
  · intro k hk
    exact hset (P := fun u => u.knows = true) k (fun _ => hknows) (h.exits k hk)

theorem report (h : Inv s) {r : Report} (hc : ∀ i v, r = .code i v → (s.waiter i).exitCode = some v)
    (he : ∀ i, r = .exited i → (s.waiter i).knows = true) (hr : ∀ i, r = .running i → (s.waiter i).knows = false) :
    Inv (s.report r) where
  holds := h.holds
  shielded := h.shielded
  opened := h.opened
  waiter k := (h.waiter k).mono id (fun _ h => h) id
  ended := h.ended
  calls := h.calls
  codes i v hv := by
    rcases List.mem_cons.mp hv with heq | hv
    · exact hc i v heq.symm
    · exact h.codes i v hv
  exits i hi := by
    rcases List.mem_cons.mp hi with heq | hi
    · exact he i heq.symm
    · exact h.exits i hi
  sticky := by
    refine List.pairwise_cons.mpr ⟨?_, h.sticky⟩
    intro r' hr' i heq
    subst heq
    have hnot := hr i rfl
    refine ⟨?_, ?_⟩
    · intro heq
      subst heq
      rw [h.exits i hr'] at hnot
      cases hnot
    · intro v heq
      subst heq
      rw [Waiter.knows, h.codes i v hr'] at hnot
      cases hnot

theorem uvRun (h : Inv s) : Inv s.uvRun := by
  refine ⟨h.holds, h.shielded, h.opened, ?_, h.ended, h.calls, h.codes, h.exits, h.sticky⟩
  intro k
  have hk := h.waiter k
  refine ⟨hk.code, hk.observed, ?_⟩
  intro w hw
  obtain ⟨w₀, hw₀, rfl⟩ := Option.map_eq_some_iff.mp hw
  obtain ⟨hst, hgone, htell⟩ := hk.work w₀ hw₀
  refine ⟨hst, hgone, ?_⟩
  intro hlive hlate
  rw [late_afterWork] at hlate
  rw [exitCode_afterWork]
  exact htell hlive hlate

/-! ## Processes -/

theorem exitStatus_append {j : Nat} {c : UInt32} {e : Nat × UInt32} (h : s.exitStatus j = some c) :
    ({ s with endings := s.endings ++ [e] } : Waits φ).exitStatus j = some c := by
  obtain ⟨p, hp, rfl⟩ := Option.map_eq_some_iff.mp h
  show ((s.endings ++ [e]).find? _).map Prod.snd = _
  rw [List.find?_append, hp]
  rfl

theorem ending (h : Inv s) (e : Nat × UInt32) : Inv { s with endings := s.endings ++ [e] } := by
  refine ⟨h.holds, h.shielded, h.opened, ?_, ?_, h.calls, h.codes, h.exits, h.sticky⟩
  · intro k
    refine (h.waiter k).mono id ?_ id
    intro v hex
    obtain ⟨hsig, c, hc, rfl⟩ := hex
    exact ⟨hsig, c, exitStatus_append hc, rfl⟩
  · intro k hk
    obtain ⟨c, hc⟩ := h.ended k hk
    exact ⟨c, exitStatus_append hc⟩

theorem signal (h : Inv s) {j : Nat} (hj : (s.exitStatus j).isSome = true) :
    Inv { s with signaled := Function.update s.signaled j true } := by
  have hsig : ∀ k, s.signaled k = true → Function.update s.signaled j true k = true := by
    intro k hk
    by_cases hkj : k = j
    · subst hkj
      exact Function.update_self ..
    · rwa [Function.update_of_ne hkj]
  refine ⟨h.holds, h.shielded, h.opened, ?_, ?_, h.calls, h.codes, h.exits, h.sticky⟩
  · intro k
    exact (h.waiter k).mono (hsig k) (fun v hv => ⟨hsig k hv.1, hv.2⟩) id
  · intro k hk
    by_cases hkj : k = j
    · subst hkj
      exact Option.isSome_iff_exists.mp hj
    · exact h.ended k ((Function.update_of_ne hkj true s.signaled).symm.trans hk)

/-! ## Calls -/

theorem tells_signaled (h : Inv s) (hsig : s.signaled i = true) : Tells s i (toInt (s.getExitCodeProcess i)) := by
  obtain ⟨c, hc⟩ := h.ended i hsig
  refine ⟨hsig, c, hc, ?_⟩
  rw [Waits.getExitCodeProcess, if_pos hsig, hc]
  rfl

theorem waitFor_eq {r : Waits φ × Int} (hobj : s.object i = some (.process i)) (hr : s.waitFor i = some r) :
    s.signaled i = true ∧ r = (s.called i, toInt (s.getExitCodeProcess i)) := by
  rw [Waits.waitFor, hobj] at hr
  obtain ⟨hsig, hr⟩ := Option.ite_none_right_eq_some.mp hr
  exact ⟨hsig, (Option.some.inj hr).symm⟩

theorem terminateProcess (h : Inv s) (hobj : s.object i = some (.process i)) (code : UInt32) :
    Inv (s.terminateProcess i code) := by
  rw [Waits.terminateProcess, hobj]
  exact (h.called hobj).ending (i, code)

/-- `_exit_code` is set, from nothing, to what the process ended with. -/
theorem setCode (h : Inv s) {v : Int} (he : u.exitCode = some v) (ht : Tells s i v) (ho : u.observedExited = true → s.signaled i = true)
    (hnone : (s.waiter i).exitCode = none) (hlife : u.life = (s.waiter i).life)
    (hw : u.work = none ∨ u.work = (s.waiter i).work) : Inv (s.setWaiter i u) := by
  refine h.setWaiter ⟨?_, ho, ?_⟩ ?_ ?_ (fun hg => hlife.trans hg)
  · intro w hw
    rw [he] at hw
    cases hw
    exact ht
  · intro w hu
    rcases hw with hw | hw
    · rw [hw] at hu
      cases hu
    · rw [hw] at hu
      rw [hlife]
      exact (h.waiter i).work w hu
  · intro w hw
    rw [hnone] at hw
    cases hw
  · intro _
    rw [Waiter.knows, he]
    rfl

theorem setCode_report {v : Int} (he : u.exitCode = some v) (hset : Inv (s.setWaiter i u)) :
    Inv ((s.setWaiter i u).report (.code i v)) := by
  refine hset.report ?_ (by simp) (by simp)
  intro k w hkw
  cases hkw
  simpa [Waits.setWaiter] using he

theorem tells_done (h : Inv s) (hlive : (s.waiter i).life = .live) {w : AsyncWork} (hw : (s.waiter i).work = some w)
    (hdone : w.afterWork.phase = .done) : Tells s i w.afterWork.exitCode := by
  have hlate : w.phase.late = true := by
    rw [← late_afterWork, hdone]
    rfl
  rw [exitCode_afterWork]
  exact ((h.waiter i).work w hw).2.2 hlive hlate

theorem collectWork (h : Inv s) (hlive : (s.waiter i).life = .live) {w : AsyncWork} (hw : (s.waiter i).work = some w)
    (hnone : (s.waiter i).exitCode = none) (hdone : w.afterWork.phase = .done) : Inv (s.uvRun.collectWork i w.afterWork) := by
  have ht := h.tells_done hlive hw hdone
  exact h.uvRun.setCode rfl ht (fun _ => ht.1) hnone rfl (.inl rfl)

theorem beginWait (h : Inv s) (hst : Started s.sys i) (hlive : (s.waiter i).life = .live) (queued : Bool) :
    Inv (s.beginWait i queued) := by
  unfold Waits.beginWait
  simp only
  split
  · exact h
  split
  · refine h.setWaiter ⟨(h.waiter i).code, (h.waiter i).observed, ?_⟩ (fun _ hv => hv) id (fun hg => hg)
    intro w hw
    cases hw
    refine ⟨hst, ?_, fun _ hlate => by cases hlate⟩
    show (s.waiter i).life ≠ .gone
    rw [hlive]
    decide
  · exact h

theorem checkExited (h : Inv s) (hobj : s.object i = some (.process i)) (hlive : (s.waiter i).life = .live) :
    Inv (s.checkExited i).1 ∧ (s.checkExited i).2 = ((s.checkExited i).1.waiter i).knows := by
  unfold Waits.checkExited
  simp only
  split
  · rename_i hk
    exact ⟨h, hk.symm⟩
  rename_i hk
  have hfalse : (s.waiter i).knows = false := Bool.eq_false_iff.mpr hk
  have hnone : (s.waiter i).exitCode = none := by
    cases he : (s.waiter i).exitCode with
    | none => rfl
    | some v => simp [he] at hk
  split
  · rename_i hw
    split
    · rename_i hexit
      rw [Waits.processExited, hobj] at hexit
      refine ⟨(h.called hobj).setWaiter ⟨?_, fun _ => hexit, ?_⟩ (fun _ hv => hv) ?_ (fun hg => hg), ?_⟩
      · exact (h.waiter i).code
      · exact (h.waiter i).work
      · intro _
        simp [Waiter.knows]
      · simp [Waits.setWaiter, Waiter.knows]
    · exact ⟨h.called hobj, hfalse.symm⟩
  · rename_i w hw
    split
    · rename_i hdone
      refine ⟨h.collectWork hlive hw hnone hdone, ?_⟩
      simp [Waits.collectWork, Waits.setWaiter, Waiter.knows]
    · exact ⟨h.uvRun, hfalse.symm⟩

theorem checkExited_report (h : Inv s) (hobj : s.object i = some (.process i)) (hlive : (s.waiter i).life = .live) :
    Inv ((s.checkExited i).1.report (if (s.checkExited i).2 then .exited i else .running i)) := by
  obtain ⟨hinv, hans⟩ := h.checkExited hobj hlive
  refine hinv.report ?_ ?_ ?_
  · intro k v hk
    split at hk <;> cases hk
  · intro k hk
    split at hk
    · rename_i htrue
      cases hk
      rw [← hans, htrue]
    · cases hk
  · intro k hk
    split at hk
    · cases hk
    · rename_i hfalse
      cases hk
      rw [← hans]
      exact Bool.eq_false_iff.mpr hfalse

theorem report_stored (h : Inv s) {c : Int} (hc : (s.waiter i).exitCode = some c) : Inv (s.report (.code i c)) := by
  refine h.report ?_ (by simp) (by simp)
  intro k v hk
  cases hk
  exact hc

theorem collectWait {t : Waits φ} (h : Inv s) (hobj : s.object i = some (.process i)) (hlive : (s.waiter i).life = .live)
    (ht : s.collectWait i = some t) : Inv t := by
  unfold Waits.collectWait at ht
  simp only at ht
  split at ht
  · rename_i c hc
    cases ht
    exact h.report_stored hc
  rename_i hnone
  split at ht
  · rename_i w hw
    obtain ⟨hdone, ht⟩ := Option.ite_none_right_eq_some.mp ht
    cases ht
    exact setCode_report rfl (h.collectWork hlive hw hnone hdone)
  · obtain ⟨r, hr, rfl⟩ := Option.map_eq_some_iff.mp ht
    obtain ⟨hsig, rfl⟩ := waitFor_eq hobj hr
    refine setCode_report rfl ((h.called hobj).setCode rfl ?_ (h.waiter i).observed hnone rfl (.inr rfl))
    exact h.tells_signaled hsig

theorem waitTimeout {t : Waits φ} (h : Inv s) (hobj : s.object i = some (.process i)) {timeoutMs : Int}
    (ht : s.waitTimeout i timeoutMs = some t) : Inv t := by
  unfold Waits.waitTimeout at ht
  simp only at ht
  split at ht
  · rename_i c hc
    cases ht
    exact h.report_stored hc
  rename_i hnone
  obtain ⟨r, hr, rfl⟩ := Option.map_eq_some_iff.mp ht
  simp only [Waits.waitTimeoutMs, hobj] at hr
  split at hr
  · rename_i hsig
    cases hr
    refine setCode_report rfl ((h.called hobj).setCode rfl ?_ (h.waiter i).observed hnone rfl (.inr rfl))
    exact h.tells_signaled hsig
  · rename_i hsig
    obtain ⟨-, hr⟩ := Option.ite_none_left_eq_some.mp hr
    cases hr
    refine (h.called hobj).report (by simp) (by simp) ?_
    intro k hk
    cases hk
    have hobs : (s.waiter i).observedExited = false := by
      by_contra hobs
      exact hsig ((h.waiter i).observed (by simpa using hobs))
    show (s.waiter i).knows = false
    rw [Waiter.knows, hnone, hobs]
    rfl

theorem interruptTree (h : Inv s) (hobj : s.object i = some (.process i)) (force : Bool) : Inv (s.interruptTree i force) := by
  unfold Waits.interruptTree
  split
  · exact h.called hobj
  · exact (h.called hobj).terminateProcess hobj _

theorem drop (h : Inv s) (hlive : (s.waiter i).life = .live) : Inv (s.drop i) := by
  refine h.setWaiter ⟨(h.waiter i).code, (h.waiter i).observed, ?_⟩ (fun _ hv => hv) id ?_
  · intro w hw
    obtain ⟨w₀, hw₀, -⟩ := Option.map_eq_some_iff.mp hw
    exact ⟨((h.waiter i).work w₀ hw₀).1, by simp, fun hl => by cases hl⟩
  · intro hg
    rw [hlive] at hg
    cases hg

theorem call {t : Waits φ} (h : Inv s) (hu : s.Usable i) {m : Method} (ht : m.run s i = some t) : Inv t := by
  have hlive := hu.2
  have hobj := h.object_eq hu.started (by rw [hlive]; decide)
  cases m with
  | beginWait queued =>
    cases ht
    exact h.beginWait hu.started hlive queued
  | pollWait =>
    cases ht
    exact h.checkExited_report hobj hlive
  | hasExited =>
    cases ht
    exact h.checkExited_report hobj hlive
  | collectWait => exact h.collectWait hobj hlive ht
  | waitTimeout timeoutMs => exact h.waitTimeout hobj ht
  | interrupt force =>
    cases ht
    exact h.terminateProcess hobj _
  | interruptTree force =>
    cases ht
    exact h.interruptTree hobj force
  | drop =>
    cases ht
    exact h.drop hlive

/-! ## Workers and destructors -/

theorem setWork (h : Inv s) {w w' : AsyncWork} (hw : (s.waiter i).work = some w)
    (ht : (s.waiter i).life = .live → w'.phase.late = true → Tells s i w'.exitCode) :
    Inv (s.setWaiter i { s.waiter i with work := some w' }) := by
  refine h.setWaiter ⟨(h.waiter i).code, (h.waiter i).observed, ?_⟩ (fun _ hv => hv) id (fun hg => hg)
  intro v hv
  cases hv
  exact ⟨((h.waiter i).work w hw).1, ((h.waiter i).work w hw).2.1, ht⟩

theorem advance {t : Waits φ} (h : Inv s) {p q : Phase} (hq : q.late = true → p.late = true)
    (ht : s.advance i p q = some t) : Inv t := by
  unfold Waits.advance at ht
  split at ht
  · rename_i w hw
    obtain ⟨hp, ht⟩ := Option.ite_none_right_eq_some.mp ht
    cases ht
    refine h.setWork hw ?_
    intro hlive hlate
    exact ((h.waiter i).work w hw).2.2 hlive (by rw [hp]; exact hq hlate)
  · cases ht

theorem waitReturn {t : Waits φ} (h : Inv s) (ht : s.waitReturn i = some t) : Inv t := by
  unfold Waits.waitReturn at ht
  split at ht
  · rename_i w hw
    obtain ⟨-, ht⟩ := Option.ite_none_right_eq_some.mp ht
    obtain ⟨r, hr, rfl⟩ := Option.map_eq_some_iff.mp ht
    -- the worker's handle is not closed: its destructor waits for the work
    obtain ⟨hst, hgone, -⟩ := (h.waiter i).work w hw
    have hobj := h.object_eq hst hgone
    obtain ⟨hsig, rfl⟩ := waitFor_eq hobj hr
    exact (h.called hobj).setWork hw fun _ _ => h.tells_signaled hsig
  · cases ht

/-! ## Descriptors -/

/-- A change of the system that closes no `_pid`, but those of handles that are gone. -/
theorem setSys {t : System φ} (h : Inv s) (ht : Holds .win32 t) (hk : Shielded t.table)
    (hst : ∀ k, Started s.sys k → Started t k) (hpid : ∀ k hd, t.handles[k]? = some hd → hd.made.pid ≠ FD_INVALID →
      (s.waiter k).life ≠ .gone → hd.info.pid ≠ FD_INVALID) : Inv { s with sys := t } where
  holds := ht
  shielded := hk
  opened := hpid
  waiter k := (h.waiter k).mono id (fun _ h => h) (hst k)
  ended := h.ended
  calls := h.calls
  codes := h.codes
  exits := h.exits
  sticky := h.sticky

end Inv

/-- What the start gave a handle, and its `_pid` now. -/
def pidKey (h : Holders.Handle φ) : ProcessInfo × Fd := (h.made, h.info.pid)

theorem map_pidKey_set {l : List (Holders.Handle φ)} {h u : Holders.Handle φ} (hi : l[i]? = some h) (hu : pidKey u = pidKey h) :
    (l.set i u).map pidKey = l.map pidKey := by
  obtain ⟨hlt, rfl⟩ := List.getElem?_eq_some_iff.mp hi
  rw [List.map_set, hu, ← List.getElem_map pidKey (h := by simpa using hlt), List.set_getElem_self]

theorem step_pidKey {e : Holders.Event (Kernel (Obj φ) × ProcessStartup) φ} {a t : System φ} (hd : destroys e = false)
    (h : Holders.step .win32 spawn a e = some t) :
    ∃ new : List (ProcessInfo × Fd), t.handles.map pidKey = a.handles.map pidKey ++ new ∧ ∀ p ∈ new, p.2 = p.1.pid := by
  have hsame : t.handles.map pidKey = a.handles.map pidKey →
      ∃ new : List (ProcessInfo × Fd), t.handles.map pidKey = a.handles.map pidKey ++ new ∧ ∀ p ∈ new, p.2 = p.1.pid :=
    fun heq => ⟨[], by simpa using heq, by simp⟩
  cases e with
  | start c =>
    cases h
    exact ⟨_, List.map_append, by simp [pidKey]⟩
  | closeStdin j =>
    cases h
    refine hsame ?_
    unfold System.closeStdin
    split
    · rfl
    rename_i u hu
    split
    · rfl
    have hfirst := map_pidKey_set (u := { u with info := { u.info with stdinClosed := true } }) hu rfl
    unfold System.closeSlot
    split
    · exact hfirst
    rename_i v hv
    split
    · exact hfirst
    · exact (map_pidKey_set (u := { v with info := Holders.Slot.reset v.info .stdin }) hv rfl).trans hfirst
  | destroy j => cases hd
  | openOwn fd f c =>
    obtain ⟨-, h⟩ := Option.ite_none_right_eq_some.mp h
    cases h
    exact hsame rfl
  | closeOwn fd =>
    obtain ⟨-, h⟩ := Option.ite_none_left_eq_some.mp h
    cases h
    exact hsame rfl
  | childOpen | childDup2 | childClose | childExit =>
    cases h
    refine hsame ?_
    unfold System.onChild
    split
    · rfl
    · rename_i u hu
      exact map_pidKey_set hu rfl

theorem Inv.system {e : Holders.Event (Kernel (Obj φ) × ProcessStartup) φ} {t : System φ} (h : Inv s)
    (hr : Holders.StartsReady Ready s.sys e) (hd : destroys e = false)
    (ht : Holders.step .win32 spawn s.sys e = some t) : Inv { s with sys := t } := by
  obtain ⟨new, hkeys, hnew⟩ := step_pidKey hd ht
  refine h.setSys (Holders.step_holds spawns h.holds h.shielded hr ht) (Holders.step_keeps spawns h.shielded hr ht) ?_ ?_
  · intro k hex
    obtain ⟨hd, hk, hmade⟩ := hex
    have hold : (s.sys.handles.map pidKey)[k]? = some (pidKey hd) := by rw [List.getElem?_map, hk, Option.map_some]
    have hkey : (t.handles.map pidKey)[k]? = some (pidKey hd) := by
      rw [hkeys, List.getElem?_append_left (List.getElem?_eq_some_iff.mp hold).1, hold]
    rw [List.getElem?_map] at hkey
    obtain ⟨u, hu, heq⟩ := Option.map_eq_some_iff.mp hkey
    refine ⟨u, hu, ?_⟩
    rwa [(Prod.mk.inj heq).1]
  · intro k u hu hmade hgone
    have hkey : (t.handles.map pidKey)[k]? = some (pidKey u) := by rw [List.getElem?_map, hu, Option.map_some]
    rw [hkeys, List.getElem?_append] at hkey
    split at hkey
    · rw [List.getElem?_map] at hkey
      obtain ⟨v, hv, heq⟩ := Option.map_eq_some_iff.mp hkey
      obtain ⟨heqm, heqp⟩ := Prod.mk.inj heq
      rw [← heqp]
      exact h.opened k v hv (by rwa [heqm]) hgone
    · have heq : u.info.pid = u.made.pid := hnew _ (List.mem_of_getElem? hkey)
      rwa [heq]

theorem closeSlot_handles (a : System φ) (i : Nat) (b : Holders.Slot) (k : Nat) :
    ((a.closeSlot i b).handles[k]?).map Holders.Handle.made = (a.handles[k]?).map Holders.Handle.made ∧
      (k ≠ i → (a.closeSlot i b).handles[k]? = a.handles[k]?) := by
  unfold System.closeSlot
  split
  · exact ⟨rfl, fun _ => rfl⟩
  rename_i u hu
  split
  · exact ⟨rfl, fun _ => rfl⟩
  refine ⟨?_, fun hki => List.getElem?_set_ne (Ne.symm hki)⟩
  by_cases hki : k = i
  · rw [hki, Holders.getElem?_set_at hu, hu]
    rfl
  · rw [List.getElem?_set_ne (Ne.symm hki)]

theorem closeProcess_handles (a : System φ) (i k : Nat) :
    ((a.closeProcess .win32 i).handles[k]?).map Holders.Handle.made = (a.handles[k]?).map Holders.Handle.made ∧
      (k ≠ i → (a.closeProcess .win32 i).handles[k]? = a.handles[k]?) := by
  have hfold : ∀ (bs : List Holders.Slot) (a : System φ),
      ((bs.foldl (fun s b => s.closeSlot i b) a).handles[k]?).map Holders.Handle.made =
          (a.handles[k]?).map Holders.Handle.made ∧
        (k ≠ i → (bs.foldl (fun s b => s.closeSlot i b) a).handles[k]? = a.handles[k]?) := by
    intro bs
    induction bs with
    | nil =>
      intro a
      exact ⟨rfl, fun _ => rfl⟩
    | cons b bs ih =>
      intro a
      obtain ⟨hmade, hother⟩ := closeSlot_handles a i b k
      exact ⟨(ih _).1.trans hmade, fun hki => ((ih _).2 hki).trans (hother hki)⟩
  exact hfold _ a

theorem Inv.close (h : Inv s) : Inv (s.close i) := by
  have hwaiter : Inv (s.setWaiter i { s.waiter i with life := .gone, work := none }) := by
    refine h.setWaiter ⟨(h.waiter i).code, (h.waiter i).observed, ?_⟩ (fun _ hv => hv) id fun _ => rfl
    intro w hw
    cases hw
  have hstep : Holders.step .win32 spawn s.sys (.destroy i) = some (s.sys.closeProcess .win32 i) := rfl
  refine hwaiter.setSys (Holders.step_holds (e := .destroy i) spawns h.holds h.shielded trivial hstep)
    (Holders.step_keeps (e := .destroy i) spawns h.shielded trivial hstep) ?_ ?_
  · intro k hex
    obtain ⟨hd, hk, hmade⟩ := hex
    have hkeep := (closeProcess_handles s.sys i k).1
    rw [show s.sys.handles[k]? = some hd from hk] at hkeep
    obtain ⟨u, hu, heq⟩ := Option.map_eq_some_iff.mp hkeep
    exact ⟨u, hu, by rwa [heq]⟩
  · intro k hd hk hmade hgone
    have hki : k ≠ i := by
      intro heq
      subst heq
      exact hgone (by simp [Waits.setWaiter])
    have hold : s.sys.handles[k]? = some hd := ((closeProcess_handles s.sys i k).2 hki).symm.trans hk
    exact h.opened k hd hold hmade (by simpa [Waits.setWaiter, hki] using hgone)

theorem inv_step {e : WaitEvent φ} {t : Waits φ} (h : Inv s) (hr : WaitReady s e) (ht : waitStep s e = some t) : Inv t := by
  cases e with
  | system e =>
    obtain ⟨hd, ht⟩ := Option.ite_none_left_eq_some.mp ht
    obtain ⟨t', ht', rfl⟩ := Option.map_eq_some_iff.mp ht
    exact h.system hr (Bool.eq_false_iff.mpr hd) ht'
  | call i m =>
    obtain ⟨hu, ht⟩ := Option.ite_none_right_eq_some.mp ht
    exact h.call hu ht
  | uvRun =>
    cases ht
    exact h.uvRun
  | workStart i => exact h.advance (fun hq => by cases hq) ht
  | waitReturn i => exact h.waitReturn ht
  | post i => exact h.advance (fun _ => rfl) ht
  | close i =>
    obtain ⟨-, ht⟩ := Option.ite_none_right_eq_some.mp ht
    cases ht
    exact h.close
  | ends j code =>
    obtain ⟨-, ht⟩ := Option.ite_none_right_eq_some.mp ht
    cases ht
    exact h.ending (j, code)
  | signal j =>
    obtain ⟨hj, ht⟩ := Option.ite_none_right_eq_some.mp ht
    cases ht
    exact h.signal hj

theorem inv_init (t : Table φ) : Inv (Waits.init t) where
  holds := Holders.holds_init .win32 t
  shielded x d hx := by
    obtain ⟨d₀, -, rfl⟩ := Option.map_eq_some_iff.mp hx
    exact .inl rfl
  opened i h hi := by cases hi
  waiter i := by
    refine ⟨?_, ?_, ?_⟩
    · intro v hv
      cases hv
    · intro ho
      cases ho
    · intro w hw
      cases hw
  ended i hi := by cases hi
  calls c hc := by cases hc
  codes i v hv := by cases hv
  exits i hi := by cases hi
  sticky := List.Pairwise.nil

end Proofs

/-- Along any run, with any number of children, workers and destructors in any order, the
    handles that each start redirects to or inherits open and the program's own: every wait, kill and exit check acted on the handle's own process; each code returned is the
    first ending of that process, cast to `int`, so all of them agree; an exit is reported
    of a process that has ended, and after a report of it none says it is running. -/
theorem waits_true (t : Table φ) (es : List (WaitEvent φ)) (s : Waits φ) (hm : Runs.Meets waitStep WaitReady (Waits.init t) es)
    (h : Runs.exec waitStep (Waits.init t) es = some s) :
    (∀ c ∈ s.calls, c.2 = some (.process c.1)) ∧
    (∀ i v, .code i v ∈ s.log → s.signaled i = true ∧ ∃ c, s.exitStatus i = some c ∧ v = toInt c) ∧
    (∀ i, .exited i ∈ s.log → s.signaled i = true) ∧
    s.log.Pairwise NoRelapse := by
  have hinv : Inv s := Runs.exec_meets (fun _ _ _ hs hr ht => inv_step hs hr ht) (inv_init t) hm h
  refine ⟨hinv.calls, fun i v hv => (hinv.waiter i).code v (hinv.codes i v hv), ?_, hinv.sticky⟩
  intro i hi
  rcases Bool.or_eq_true_iff.mp (hinv.exits i hi) with hcode | hobs
  · obtain ⟨v, hv⟩ := Option.isSome_iff_exists.mp hcode
    exact ((hinv.waiter i).code v hv).1
  · exact (hinv.waiter i).observed hobs

/-- A child killed while a worker waits for it, which tries to exit with 5. -/
noncomputable def killedRun : List (WaitEvent Nat) :=
  [.system (.start (kernelAt (.named 16 20) .fails (.named 24 28) (.own 0) (.own 0), { stdout := ⟨12⟩, mergeOutputs := true })),
    .call 0 (.beginWait true), .workStart 0, .call 0 .hasExited, .call 0 (.interrupt true), .ends 0 5, .signal 0,
    .waitReturn 0, .post 0, .call 0 .pollWait, .call 0 .collectWait, .call 0 .drop, .close 0]

theorem waits_true_killed : ∃ s : Waits Nat, Runs.exec waitStep (Waits.init hostTable) killedRun = some s ∧
    s.log = [.code 0 137, .exited 0, .running 0] ∧ (∀ c ∈ s.calls, c.2 = some (.process c.1)) ∧
    ∃ c, s.exitStatus 0 = some c ∧ 137 = toInt c := by
  have hready : Runs.Meets waitStep WaitReady (Waits.init hostTable) killedRun := by
    refine ⟨ready_twelve _ rfl, ?_⟩
    intro s' hs'
    exact Runs.meets_of_forall (by simp [WaitReady])
  obtain ⟨s, hs, hlog⟩ : ∃ s : Waits Nat, Runs.exec waitStep (Waits.init hostTable) killedRun = some s ∧
      s.log = [.code 0 137, .exited 0, .running 0] := ⟨_, rfl, rfl⟩
  obtain ⟨hcalls, hcodes, -, -⟩ := waits_true hostTable killedRun s hready hs
  exact ⟨s, hs, hlog, hcalls, (hcodes 0 137 (by simp [hlog])).2⟩

end CovProcess.Win32
