/-
  CovProcess.Handle.WaitTimeout — `wait_timeout_ms` (`process.hpp`,
  `process_unix_wait.cpp`) beside the other methods of the handle and its wait work
  (see `CovProcess.Handle.Model`), in a program with one handle.

  It polls with `WNOWAIT` and takes the child away when a poll showed its status; a
  negative timeout is a `wait_for`. Both read `ECHILD` as an exit with code 0, and the
  code is stored. Between its system calls the worker and the child move on.

  Proved: `timed_codes_iff`, over every run all codes returned are the child's true status
  exactly when no look at the kernel came after the worker's `waitid`, unless the child
  exited with 0; `worker_first`, a run with such a look.
-/

import CovProcess.Handle.Signals

namespace CovProcess.Handle

/-- `mpp_impl::wait_timeout_ms` between its system calls, times in nanoseconds. -/
inductive TimedWait where
  /-- In `wait_for`. -/
  | block
  | poll (remaining interval : Int)
  | sleep (remaining interval : Int)
  /-- A poll showed this code, and the child is not yet taken away. -/
  | reap (code : Int)

structure Timed where
  base : State := {}
  /-- The handle it was called on, and where it is. -/
  wait : Option (Nat × TimedWait) := none

namespace State

/-- `_exit_code = code; return code;` -/
def store (s : State) (i : Nat) (c : Int) : State :=
  (s.setHandle i { s.handle i with exitCode := some c }).report (.code i c)

/-- `process::wait_timeout_ms` up to its first system call. -/
def waitTimeout (s : State) (i : Nat) (timeoutMs pollIntervalMs : Int) : Timed :=
  match (s.handle i).exitCode with
  | some c => { base := s.report (.code i c) }
  | none =>
    { base := s
      wait := some (i, if timeoutMs < 0 then .block
        else .poll (timeoutMs * 1000000) (max 1 pollIntervalMs * 1000000)) }

/-- It goes on; `left` is what an interrupted `nanosleep` says is left, else 0. -/
def resumeTimed (s : State) (i : Nat) (left : Int) : TimedWait → Option Timed
  | .block => (s.waitFor (s.pid i)).map fun (s, c) => { base := s.store i c }
  | .poll remaining interval =>
    match s.waitid (s.pid i) with
    | .exited _ st => some { base := s, wait := some (i, .reap st.code) }
    | .gone => some { base := s.store i 0 }
    | .alive =>
      -- with no time left this was the last poll, and the call returns `nullopt`
      some { base := s, wait := if 0 < remaining then some (i, .sleep remaining interval) else none }
  | .sleep remaining interval =>
    some { base := s, wait := some (i, .poll (remaining - (interval - left)) interval) }
  | .reap c =>
    match s.waitid (s.pid i) with
    | .exited j _ => some { base := (s.reap j).store i c }
    | _ => some { base := s.store i c }

end State

inductive TimedEvent where
  | other (e : Event)
  | waitTimeout (i : Nat) (timeoutMs pollIntervalMs : Int)
  | resume (left : Int)

def Event.starts : Event → Bool
  | .start .. => true
  | _ => false

/-- The loop thread is in one method at a time. No other handle is started. -/
def timedStep (cfg : Config) (s : Timed) : TimedEvent → Option Timed
  | .other e =>
    if !e.starts && (e.outside || s.wait.isNone) then (step cfg s.base e).map fun t => { s with base := t } else none
  | .waitTimeout i timeoutMs pollIntervalMs =>
    if s.base.frame.isNone && s.wait.isNone && i < s.base.n then some (s.base.waitTimeout i timeoutMs pollIntervalMs)
    else none
  | .resume left => s.wait.bind fun (i, w) => s.base.resumeTimed i left w

def oneHandle (info : ProcessInfo) (prog : List Stream.StreamName) (birth : Nat) : Timed :=
  { base := State.start {} info prog birth }

/-- The kernel is not asked about a child that was taken away, unless that exited with 0. -/
def TimedOk (s : Timed) : TimedEvent → Prop
  | .resume _ => ∀ i w, s.wait = some (i, w) → (w = .block ∨ ∃ r p, w = .poll r p) →
    (s.base.child i).reaped = true → Tells (s.base.child i) 0
  | _ => True

def CodesTrue (s : State) : Prop := ∀ i v, .code i v ∈ s.log → Tells (s.child i) v

/-! ## Once a code is stored -/

/-- A stored code stays, and is all that any call returns. -/
structure Frozen (s : State) (v : Int) (st : Status) : Prop where
  n : s.n = 1
  code : (s.handle 0).exitCode = some v
  exit : (s.child 0).exit = some st
  log : ∀ i w, .code i w ∈ s.log → i = 0 ∧ w = v
  told : .code 0 v ∈ s.log ∨ v = st.code
  own : ∀ pid j b, s.procs pid = some ⟨some j, b⟩ → j = 0
  frame : ∀ f, s.frame = some f → (∃ x, f = .readLoop 0 x) ∨ f.tree ≠ none

namespace Frozen

variable {s : State} {v : Int} {st : Status}

theorem setHandle (h : Frozen s v st) {i : Nat} {h' : MemberHolder} (hc : h'.exitCode = (s.handle i).exitCode) :
    Frozen (s.setHandle i h') v st := by
  exact ⟨h.n, (setHandle_same MemberHolder.exitCode hc 0).trans h.code, h.exit, h.log, h.told, h.own, h.frame⟩

theorem setChild (h : Frozen s v st) {i : Nat} {c : Child} (hx : (s.child i).exit ≠ none → c.exit = (s.child i).exit) :
    Frozen (s.setChild i c) v st := by
  refine ⟨h.n, h.code, ?_, h.log, h.told, h.own, h.frame⟩
  rw [setChild_child]
  split
  · rename_i hi
    subst hi
    exact (hx (by simp [h.exit])).trans h.exit
  · exact h.exit

theorem report (h : Frozen s v st) {r : Report} (hr : ∀ i w, r = .code i w → i = 0 ∧ w = v) : Frozen (s.report r) v st := by
  refine ⟨h.n, h.code, h.exit, ?_, h.told.imp_left (List.mem_cons_of_mem _), h.own, h.frame⟩
  intro i w hm
  rcases List.mem_cons.mp hm with heq | hm
  · exact hr i w heq.symm
  · exact h.log i w hm

theorem aside (h : Frozen s v st) (pool : List Job) (signals : List Signal) (frame : Option Frame)
    (hf : ∀ f, frame = some f → (∃ x, f = .readLoop 0 x) ∨ f.tree ≠ none) :
    Frozen { s with pool := pool, signals := signals, frame := frame } v st :=
  ⟨h.n, h.code, h.exit, h.log, h.told, h.own, hf⟩

theorem setProc (h : Frozen s v st) (pid : Int) {p : Option Proc} (hp : ∀ q, p = some q → q.owner = none) :
    Frozen { s with procs := Function.update s.procs pid p } v st := by
  refine ⟨h.n, h.code, h.exit, h.log, h.told, ?_, h.frame⟩
  intro q j b hq
  by_cases hpid : q = pid
  · subst hpid
    simp only [Function.update_self] at hq
    cases hp _ hq
  · simp only [Function.update_of_ne hpid] at hq
    exact h.own q j b hq

theorem setWork (h : Frozen s v st) (i : Nat) (k : Kind) (w : Option AsyncWork) : Frozen (s.setWork i k w) v st :=
  h.setHandle rfl

theorem submit (h : Frozen s v st) (i : Nat) (k : Kind) : Frozen (s.submit i k) v st :=
  (h.setWork i k _).aside _ _ _ h.frame

theorem uvRun (h : Frozen s v st) : Frozen s.uvRun v st := ⟨h.n, h.code, h.exit, h.log, h.told, h.own, h.frame⟩

theorem reap (h : Frozen s v st) (j : Nat) : Frozen (s.reap j) v st :=
  (h.setChild (i := j) (c := { s.child j with reaped := true }) fun _ => rfl).setProc _ fun _ hq => by cases hq

theorem waitFor (h : Frozen s v st) {t : State} {pid c : Int} (hw : s.waitFor pid = some (t, c)) : Frozen t v st := by
  unfold State.waitFor at hw
  split at hw <;> cases hw
  · exact h
  · exact h.reap _

theorem collectWait (h : Frozen s v st) : Frozen (s.collectWait 0) v st := by
  have hr : Frozen (s.report (.code 0 v)) v st := h.report fun i w heq => by cases heq; exact ⟨rfl, rfl⟩
  simp only [State.collectWait, h.code]
  exact hr.aside _ _ _ fun _ hf => by cases hf

theorem readLoop (h : Frozen s v st) (x : Stream.StreamName) : Frozen { s with frame := some (.readLoop 0 x) } v st :=
  h.aside _ _ _ fun _ hf => .inl ⟨x, (Option.some.inj hf).symm⟩

theorem endErr (h : Frozen s v st) : Frozen (s.endErr 0) v st := by
  unfold State.endErr
  split
  · exact h.readLoop _
  · exact h.collectWait

theorem endCommunicate (h : Frozen s v st) : Frozen (s.endCommunicate 0) v st := by
  unfold State.endCommunicate
  split
  · exact h.readLoop _
  · exact h.endErr

theorem beginRead (h : Frozen s v st) (x : Stream.StreamName) (queued : Bool) : Frozen (s.beginRead 0 x queued) v st := by
  rcases beginRead_eq s 0 x queued with heq | ⟨-, heq⟩ <;> rw [heq]
  · exact h
  · exact h.submit _ _

theorem beginWait (h : Frozen s v st) (queued : Bool) : Frozen (s.beginWait 0 queued) v st := by
  rw [State.beginWait, h.code]
  exact h

theorem beginCommunicate (h : Frozen s v st) (queued : Kind → Bool) : Frozen (s.beginCommunicate 0 queued) v st := by
  have hclosed : Frozen (s.setHandle 0
      { s.handle 0 with info := Stream.closeStdin (s.handle 0).info, begun := true }) v st := h.setHandle rfl
  exact ((hclosed.beginWait _).beginRead _ _).beginRead _ _

theorem check (h : Frozen s v st) : s.checkExited 0 = (s, true) := by
  rw [State.checkExited, h.code]
  rfl

theorem interruptTree (h : Frozen s v st) (force : Bool) : Frozen (s.interruptTree 0 force) v st := by
  have hframe : ∀ f, f.tree ≠ none → Frozen { s with frame := some f } v st := fun _ hf =>
    h.aside _ _ _ fun g hg => .inr (by cases hg; exact hf)
  unfold State.interruptTree
  split
  · exact h
  · split <;> exact hframe _ (Option.some_ne_none _)

theorem call (h : Frozen s v st) {i : Nat} (hi : i < s.n) (c : Call) : Frozen (c.run s i) v st := by
  obtain rfl : i = 0 := by
    rw [h.n] at hi
    omega
  cases c with
  | beginWait queued => exact h.beginWait queued
  | pollWait | hasExited =>
    simp only [Call.run, State.pollWait, State.hasExited, h.check]
    exact h.report fun i w heq => by cases heq
  | collectWait => exact h.collectWait
  | beginCommunicate queued => exact h.beginCommunicate queued
  | pollCommunicate => exact h.uvRun
  | endCommunicate => exact h.endCommunicate
  | communicate queued => exact (h.beginCommunicate queued).endCommunicate
  | interrupt force => exact h.aside _ _ _ h.frame
  | interruptTree force => exact h.interruptTree force

theorem resume (h : Frozen s v st) {f : Frame} (hf : s.frame = some f) {s' : State} (hs : Resumes s f s') : Frozen s' v st := by
  have hidle := fun signals => h.aside s.pool signals none fun _ hf => by cases hf
  cases hs with
  | turn => exact h.uvRun
  | @taken i x w hw hdone =>
    obtain ⟨y, hy⟩ | ht := h.frame _ hf
    · cases hy
      split
      · exact (h.setWork 0 (.read x) none).endErr
      · exact (h.setWork 0 (.read x) none).collectWait
    · exact absurd rfl ht
  | collected =>
    obtain ⟨y, hy⟩ | ht := h.frame _ hf
    · cases hy
    · exact absurd rfl ht
  | waited =>
    obtain ⟨y, hy⟩ | ht := h.frame _ hf
    · cases hy
    · exact absurd rfl ht
  | timed => exact h.aside _ _ _ fun g hg => .inr (by cases hg; exact Option.some_ne_none _)
  | killed => exact hidle _
  | spared => exact hidle _

theorem step {cfg : Config} (h : Frozen s v st) {e : Event} {s' : State} (hs : step cfg s e = some s')
    (he : e.starts = false) : Frozen s' v st := by
  cases step_moves hs with
  | start => cases he
  | call hf hi => exact h.call hi _
  | resume hf hs => exact h.resume hf hs
  | workStart hw hp => exact h.setWork _ _ _
  | waitReturn hw hp hi hwait => exact (h.waitFor hwait).setWork _ _ _
  | read => exact h.setChild fun _ => rfl
  | eof hx hw hp => exact h.setWork _ _ _
  | post hw hp => exact (h.setWork _ _ _).aside _ _ _ h.frame
  | write hr hb hx hle => exact h.setChild fun _ => hx
  | exit hx => exact h.setChild fun hsome => absurd hx hsome
  | spawn hfree => exact h.setProc _ fun _ hq => by cases hq; rfl
  | vanish hp => exact h.setProc _ fun _ hq => by cases hq

theorem codesTrue (h : Frozen s v st) : CodesTrue s ↔ v = st.code := by
  refine ⟨?_, ?_⟩
  · intro hc
    rcases h.told with hm | hv
    · obtain ⟨st', hst', hv⟩ := hc 0 v hm
      rw [h.exit] at hst'
      cases hst'
      exact hv
    · exact hv
  · intro hv i w hm
    obtain ⟨rfl, rfl⟩ := h.log i w hm
    exact ⟨st, h.exit, hv⟩

end Frozen

/-! ## Over a run -/

/-- A call in progress has not stored a code, and saw the one it is about to store. -/
structure Waiting (s : State) (i : Nat) (w : TimedWait) : Prop where
  i : i = 0
  frame : s.frame = none
  code : (s.handle 0).exitCode = none
  seen : ∀ c, w = .reap c → Tells (s.child 0) c

/-- Until a code is stored everything is as without `wait_timeout_ms`. -/
structure TimedInv (s : Timed) : Prop where
  base : (Inv s.base ∧ s.base.n = 1 ∧ (s.base.handle 0).exitCode = none) ∨
    ∃ v st, Frozen s.base v st
  wait : ∀ i w, s.wait = some (i, w) → Waiting s.base i w

theorem codesTrue_of_inv {s : State} (h : Inv s) : CodesTrue s := by
  intro i v hm
  obtain ⟨hi, hv⟩ := h.core.codes i v hm
  exact ((h.core.good i hi).code hv).2

/-! ### Steps that store a code -/

/-- No child is started and no code stored. -/
structure NoStore (s s' : State) : Prop where
  n : s'.n = s.n
  code : ∀ i, (s'.handle i).exitCode = (s.handle i).exitCode

namespace NoStore

variable {s t u : State}

theorem trans (h : NoStore s t) (h' : NoStore t u) : NoStore s u :=
  ⟨h'.n.trans h.n, fun i => (h'.code i).trans (h.code i)⟩

theorem of_eq (hn : t.n = s.n) (hh : t.handle = s.handle) : NoStore s t := ⟨hn, fun i => by rw [hh]⟩

theorem setHandle {i : Nat} {h' : MemberHolder} (hc : h'.exitCode = (s.handle i).exitCode) : NoStore s (s.setHandle i h') := by
  exact ⟨rfl, setHandle_same MemberHolder.exitCode hc⟩

theorem setWork (s : State) (i : Nat) (k : Kind) (w : Option AsyncWork) : NoStore s (s.setWork i k w) := setHandle rfl

theorem submit (s : State) (i : Nat) (k : Kind) : NoStore s (s.submit i k) := (setWork s i k _).trans (of_eq rfl rfl)

theorem waitFor {pid c : Int} (h : s.waitFor pid = some (t, c)) : NoStore s t := by
  unfold State.waitFor at h
  split at h <;> cases h <;> exact of_eq rfl rfl

theorem collectWait (s : State) (i : Nat) : NoStore s (s.collectWait i) := by
  unfold State.collectWait
  repeat' split
  all_goals exact of_eq rfl rfl

theorem endErr (s : State) (i : Nat) : NoStore s (s.endErr i) := by
  unfold State.endErr
  split
  · exact of_eq rfl rfl
  · exact collectWait s i

theorem endCommunicate (s : State) (i : Nat) : NoStore s (s.endCommunicate i) := by
  unfold State.endCommunicate
  split
  · exact of_eq rfl rfl
  · exact endErr s i

theorem beginWait (s : State) (i : Nat) (queued : Bool) : NoStore s (s.beginWait i queued) := by
  rcases beginWait_eq s i queued with heq | ⟨-, -, heq⟩ <;> rw [heq]
  · exact of_eq rfl rfl
  · exact submit s i .wait

theorem beginRead (s : State) (i : Nat) (x : Stream.StreamName) (queued : Bool) : NoStore s (s.beginRead i x queued) := by
  rcases beginRead_eq s i x queued with heq | ⟨-, heq⟩ <;> rw [heq]
  · exact of_eq rfl rfl
  · exact submit s i (.read x)

theorem beginCommunicate (s : State) (i : Nat) (queued : Kind → Bool) : NoStore s (s.beginCommunicate i queued) := by
  have hclosed : NoStore s (s.setHandle i
      { s.handle i with info := Stream.closeStdin (s.handle i).info, begun := true }) := setHandle rfl
  exact ((hclosed.trans (beginWait _ _ _)).trans (beginRead _ _ _ _)).trans (beginRead _ _ _ _)

end NoStore

/-- Only a step that leaves the loop thread without a method stores a code. -/
def StoresIdle (s s' : State) : Prop := NoStore s s' ∨ (s'.n = s.n ∧ s'.frame = none)

theorem call_stores {s : State} (hf : s.frame = none) (i : Nat) (c : Call) : StoresIdle s (c.run s i) := by
  have hcheck : StoresIdle s (s.checkExited i).1 := by
    refine .inr ⟨?_, (checkExited_frame s i).trans hf⟩
    unfold State.checkExited
    repeat' split
    all_goals rfl
  cases c with
  | beginWait queued => exact .inl (.beginWait s i queued)
  | pollWait | hasExited => exact hcheck.imp (fun h => h.trans (.of_eq rfl rfl)) id
  | collectWait => exact .inl (.collectWait s i)
  | beginCommunicate queued => exact .inl (.beginCommunicate s i queued)
  | pollCommunicate => exact .inr ⟨rfl, hf⟩
  | endCommunicate => exact .inl (.endCommunicate s i)
  | communicate queued => exact .inl ((NoStore.beginCommunicate s i queued).trans (.endCommunicate _ i))
  | interrupt force => exact .inl (.of_eq rfl rfl)
  | interruptTree force =>
    obtain ⟨hn, hh, -⟩ := s.interruptTree_same i force
    exact .inl (.of_eq hn hh)

theorem resume_stores {s s' : State} {f : Frame} (hs : Resumes s f s') : StoresIdle s s' := by
  cases hs with
  | turn => exact .inl ⟨rfl, fun _ => rfl⟩
  | @taken i x w hw hdone =>
    have hset := NoStore.setWork s i (.read x) none
    split
    · exact .inl (hset.trans (.endErr _ i))
    · exact .inl (hset.trans (.collectWait _ i))
  | collected => exact .inr ⟨rfl, rfl⟩
  | waited h => exact .inr ⟨(NoStore.waitFor h).n, rfl⟩
  | timed => exact .inl (.of_eq rfl rfl)
  | killed => exact .inr ⟨rfl, rfl⟩
  | spared => exact .inr ⟨rfl, rfl⟩

theorem step_stores {cfg : Config} {s s' : State} {e : Event} (hs : step cfg s e = some s')
    (he : e.starts = false) :
    NoStore s s' ∨ (e.outside = false ∧ s'.n = s.n ∧ s'.frame = none) := by
  cases step_moves hs with
  | start => cases he
  | call hf hi => exact (call_stores hf _ _).imp_right fun h => ⟨rfl, h⟩
  | resume hf hs => exact (resume_stores hs).imp_right fun h => ⟨rfl, h⟩
  | workStart | eof => exact .inl (.setWork _ _ _ _)
  | waitReturn hw hp hi hwait => exact .inl ((NoStore.waitFor hwait).trans (.setWork _ _ _ _))
  | post => exact .inl ((NoStore.setWork _ _ _ _).trans (.of_eq rfl rfl))
  | read | write | exit | spawn | vanish => exact .inl (.of_eq rfl rfl)

/-! ### The steps of `wait_timeout_ms` -/

theorem own_of_inv {s : State} (h : Inv s) (hn : s.n = 1) (pid : Int) (j b : Nat) (hp : s.procs pid = some ⟨some j, b⟩) :
    j = 0 := by
  have hj := (h.core.owns.owner pid j b hp).1
  omega

theorem frozen_of_inv {s : State} (h : Inv s) (hn : s.n = 1) {v : Int} (hv : (s.handle 0).exitCode = some v)
    (hf : s.frame = none) : ∃ st, Frozen s v st := by
  obtain ⟨-, st, hst, hcode⟩ := (h.core.good 0 (by omega)).code hv
  refine ⟨st, hn, hv, hst, ?_, .inr hcode, own_of_inv h hn, fun f hf' => by rw [hf] at hf'; cases hf'⟩
  intro i w hm
  obtain ⟨hi, hw⟩ := h.core.codes i w hm
  obtain rfl : i = 0 := by omega
  rw [hv] at hw
  exact ⟨rfl, (Option.some.inj hw).symm⟩

/-- A step of the others is one of the system without `wait_timeout_ms`, or changes
    nothing that is stored. -/
theorem other_step {cfg : Config} {s : Timed} {t : State} {e : Event} (h : TimedInv s) (hs : step cfg s.base e = some t)
    (he : e.starts = false) (hout : e.outside = true ∨ s.wait = none) :
    TimedInv { s with base := t } ∧ (CodesTrue t ↔ CodesTrue s.base) := by
  rcases h.base with ⟨hinv, hn, he0⟩ | ⟨v, st, hfrozen⟩
  · have hinv' := inv_step hinv hs
    refine ⟨⟨?_, ?_⟩, iff_of_true (codesTrue_of_inv hinv') (codesTrue_of_inv hinv)⟩
    · rcases step_stores hs he with hno | ⟨-, hn', hf'⟩
      · exact .inl ⟨hinv', hno.n.trans hn, (hno.code 0).trans he0⟩
      · cases hv : (t.handle 0).exitCode with
        | none => exact .inl ⟨hinv', hn'.trans hn, rfl⟩
        | some v =>
          obtain ⟨st, hfrozen⟩ := frozen_of_inv hinv' (hn'.trans hn) hv hf'
          exact .inr ⟨v, st, hfrozen⟩
    · intro i w hw
      have hwait := h.wait i w hw
      have hout' := hout.resolve_right fun hnone => by rw [hnone] at hw; cases hw
      have hno := (step_stores hs he).resolve_right fun hin => by rw [hin.1] at hout'; cases hout'
      refine ⟨hwait.i, (step_beside hinv hout' hs).frame.trans hwait.frame, (hno.code 0).trans he0, ?_⟩
      intro c hc
      obtain ⟨st, hst, hcode⟩ := hwait.seen c hc
      exact ⟨st, outside_exit hinv hout' hs hst, hcode⟩
  · have hfrozen' := hfrozen.step hs he
    refine ⟨⟨.inr ⟨v, st, hfrozen'⟩, ?_⟩, hfrozen'.codesTrue.trans hfrozen.codesTrue.symm⟩
    intro i w hw
    have hcode := (h.wait i w hw).code
    rw [hfrozen.code] at hcode
    cases hcode

theorem TimedInv.n {s : Timed} (h : TimedInv s) : s.base.n = 1 := by
  rcases h.base with ⟨-, hn, -⟩ | ⟨v, st, hfrozen⟩
  · exact hn
  · exact hfrozen.n

theorem frozen_store {s : State} (hn : s.n = 1) (hlog : ∀ i w, .code i w ∉ s.log) (hf : s.frame = none)
    (hown : ∀ pid j b, s.procs pid = some ⟨some j, b⟩ → j = 0) {st : Status} (hx : (s.child 0).exit = some st) (c : Int) :
    Frozen (s.store 0 c) c st := by
  refine ⟨hn, by simp [State.store, State.setHandle, State.report], hx, ?_, .inl List.mem_cons_self, hown,
    ?_⟩
  · intro i w hm
    rcases List.mem_cons.mp hm with heq | hm
    · cases heq
      exact ⟨rfl, rfl⟩
    · exact absurd hm (hlog i w)
  · intro f hf'
    have hf' : s.frame = some f := hf'
    rw [hf] at hf'
    cases hf'

theorem waitTimeout_step {s : State} (h : TimedInv { base := s }) (hf : s.frame = none) {i : Nat} (hi : i < s.n)
    (timeoutMs pollIntervalMs : Int) : TimedInv (s.waitTimeout i timeoutMs pollIntervalMs) ∧
      (CodesTrue (s.waitTimeout i timeoutMs pollIntervalMs).base ↔ CodesTrue s) := by
  obtain rfl : i = 0 := by
    have hn := h.n
    simp only at hn
    omega
  unfold State.waitTimeout
  cases he : (s.handle 0).exitCode with
  | some c =>
    rcases h.base with ⟨-, -, hnone⟩ | ⟨v, st, hfrozen⟩
    · rw [he] at hnone
      cases hnone
    · have hcv := hfrozen.code
      rw [he] at hcv
      cases hcv
      have hfrozen' := hfrozen.report (r := .code 0 c) fun i w heq => by cases heq; exact ⟨rfl, rfl⟩
      exact ⟨⟨.inr ⟨c, st, hfrozen'⟩, fun _ _ hw => by cases hw⟩, hfrozen'.codesTrue.trans hfrozen.codesTrue.symm⟩
  | none =>
    refine ⟨⟨h.base, ?_⟩, Iff.rfl⟩
    intro j w hw
    cases hw
    refine ⟨rfl, hf, he, ?_⟩
    intro c hc
    split at hc <;> cases hc

/-- No code is stored, and the loop thread is in none of the other methods. -/
structure Fresh (s : State) : Prop where
  inv : Inv s
  n : s.n = 1
  code : (s.handle 0).exitCode = none
  frame : s.frame = none

namespace Fresh

variable {s : State}

theorem store (h : Fresh s) {t : State} (ht : t = s ∨ t = s.reap 0) {st : Status} (hx : (s.child 0).exit = some st)
    (c : Int) : TimedInv { base := t.store 0 c } ∧ (CodesTrue (t.store 0 c) ↔ c = st.code) := by
  have hlog : ∀ i v, .code i v ∉ s.log := fun i v hm => by
    obtain ⟨hi, hv⟩ := h.inv.core.codes i v hm
    obtain rfl : i = 0 := by
      have := h.n
      omega
    rw [h.code] at hv
    cases hv
  have hown := own_of_inv h.inv h.n
  have hfrozen : Frozen (t.store 0 c) c st := by
    rcases ht with rfl | rfl
    · exact frozen_store h.n hlog h.frame hown hx c
    · have hx' : ((s.reap 0).child 0).exit = some st := by
        rw [reap_child_self]
        exact hx
      refine frozen_store (s := s.reap 0) h.n hlog h.frame ?_ hx' c
      intro pid j b hp
      by_cases hpid : pid = s.pid 0
      · subst hpid
        simp [State.reap] at hp
      · exact hown pid j b ((Function.update_of_ne hpid _ _).symm.trans hp)
  exact ⟨⟨.inr ⟨c, st, hfrozen⟩, fun _ _ hw => by cases hw⟩, hfrozen.codesTrue⟩

theorem good (h : Fresh s) : Good (s.handle 0) (s.child 0) := by
  refine h.inv.core.good 0 ?_
  rw [h.n]
  exact Nat.one_pos

/-- `ECHILD`: the worker took the child away, and 0 is stored. -/
theorem gone (h : Fresh s) (hr : (s.child 0).reaped = true) :
    TimedInv { base := s.store 0 0 } ∧ (CodesTrue (s.store 0 0) ↔ Tells (s.child 0) 0) := by
  obtain ⟨st, hst⟩ : ∃ st, (s.child 0).exit = some st := by
    cases hw : (s.handle 0).work .wait with
    | none =>
      rw [h.good.unreaped h.code hw] at hr
      cases hr
    | some w =>
      cases hp : w.phase.late with
      | false =>
        rw [(h.good.early hw hp).2] at hr
        cases hr
      | true =>
        obtain ⟨-, -, st, hst, -⟩ := h.good.late hw hp
        exact ⟨st, hst⟩
  obtain ⟨hinv, hcodes⟩ := h.store (.inl rfl) hst 0
  refine ⟨hinv, hcodes.trans ⟨fun h0 => ⟨st, hst, h0⟩, fun ⟨st', hst', h0⟩ => ?_⟩⟩
  rw [hst] at hst'
  cases hst'
  exact h0

theorem waitid_gone (h : Fresh s) (hr : (s.child 0).reaped = true) : s.waitid (s.pid 0) = .gone := by
  unfold State.waitid
  split
  · rename_i j b hp
    obtain ⟨hj, -, hrj, -⟩ := h.inv.core.owns.owner _ _ _ hp
    obtain rfl : j = 0 := by
      have := h.n
      omega
    rw [hr] at hrj
    cases hrj
  · rfl

theorem waitid_own (h : Fresh s) (hr : (s.child 0).reaped = false) :
    s.waitid (s.pid 0) = match (s.child 0).exit with
      | some st => .exited 0 st
      | none => .alive :=
  h.inv.core.waitid_own (by rw [h.n]; exact Nat.one_pos) hr

end Fresh

theorem resumeTimed_step {s : State} {i : Nat} {w : TimedWait} {left : Int} {t : Timed}
    (h : TimedInv { base := s, wait := some (i, w) }) (ht : s.resumeTimed i left w = some t) :
    TimedInv t ∧ (CodesTrue t.base ↔ CodesTrue s ∧ TimedOk { base := s, wait := some (i, w) } (.resume left)) := by
  obtain ⟨rfl, hf, he, hseen⟩ := h.wait i w rfl
  have hfresh : Fresh s := by
    rcases h.base with ⟨hinv, hn, -⟩ | ⟨v, st, hfrozen⟩
    · exact ⟨hinv, hn, he, hf⟩
    · have hcode := hfrozen.code
      rw [he] at hcode
      cases hcode
  have htrue := codesTrue_of_inv hfresh.inv
  rw [and_iff_right htrue]
  -- a look at the kernel while it has the child is in order
  have hok : (s.child 0).reaped = false ∨ (w ≠ .block ∧ ∀ r p, w ≠ .poll r p) →
      TimedOk { base := s, wait := some (0, w) } (.resume left) := by
    intro hno j w' hw hkind hr
    cases hw
    rcases hno with hno | ⟨hb, hp⟩
    · rw [hno] at hr
      cases hr
    · rcases hkind with rfl | ⟨r, p, rfl⟩
      · exact absurd rfl hb
      · exact absurd rfl (hp r p)
  have hbad : (s.child 0).reaped = true → (w = .block ∨ ∃ r p, w = .poll r p) →
      (TimedOk { base := s, wait := some (0, w) } (.resume left) ↔ Tells (s.child 0) 0) := by
    refine fun hr hkind => ⟨fun h => h 0 w rfl hkind hr, ?_⟩
    intro h j w' hw _ _
    cases hw
    exact h
  cases w with
  | block =>
    cases hr : (s.child 0).reaped with
    | true =>
      rw [State.resumeTimed, State.waitFor, hfresh.waitid_gone hr] at ht
      cases ht
      rw [hbad hr (.inl rfl)]
      exact hfresh.gone hr
    | false =>
      rw [State.resumeTimed, State.waitFor, hfresh.waitid_own hr] at ht
      cases hx : (s.child 0).exit with
      | none =>
        rw [hx] at ht
        cases ht
      | some st =>
        rw [hx] at ht
        cases ht
        obtain ⟨hinv, hcodes⟩ := hfresh.store (.inr rfl) hx st.code
        exact ⟨hinv, iff_of_true (hcodes.mpr rfl) (hok (.inl hr))⟩
  | poll remaining interval =>
    cases hr : (s.child 0).reaped with
    | true =>
      rw [State.resumeTimed, hfresh.waitid_gone hr] at ht
      cases ht
      rw [hbad hr (.inr ⟨_, _, rfl⟩)]
      exact hfresh.gone hr
    | false =>
      rw [State.resumeTimed, hfresh.waitid_own hr] at ht
      cases hx : (s.child 0).exit with
      | none =>
        rw [hx] at ht
        cases ht
        refine ⟨⟨h.base, ?_⟩, iff_of_true htrue (hok (.inl hr))⟩
        intro j w hw
        simp only at hw
        split at hw <;> cases hw
        exact ⟨rfl, hf, he, fun c hc => by cases hc⟩
      | some st =>
        rw [hx] at ht
        cases ht
        refine ⟨⟨h.base, ?_⟩, iff_of_true htrue (hok (.inl hr))⟩
        intro j w hw
        cases hw
        exact ⟨rfl, hf, he, fun c hc => by cases hc; exact ⟨st, hx, rfl⟩⟩
  | sleep remaining interval =>
    cases ht
    refine ⟨⟨h.base, ?_⟩, iff_of_true htrue (hok (.inr ⟨by simp, by simp⟩))⟩
    intro j w hw
    cases hw
    exact ⟨rfl, hf, he, fun c hc => by cases hc⟩
  | reap c =>
    obtain ⟨st, hst, rfl⟩ := hseen c rfl
    have hstored : ∀ u, u = s ∨ u = s.reap 0 → t = { base := u.store 0 st.code } →
        TimedInv t ∧ (CodesTrue t.base ↔ TimedOk { base := s, wait := some (0, .reap st.code) } (.resume left)) := by
      rintro u hu rfl
      obtain ⟨hinv, hcodes⟩ := hfresh.store hu hst st.code
      exact ⟨hinv, iff_of_true (hcodes.mpr rfl) (hok (.inr ⟨by simp, by simp⟩))⟩
    cases hr : (s.child 0).reaped with
    | true =>
      rw [State.resumeTimed, hfresh.waitid_gone hr] at ht
      exact hstored s (.inl rfl) (Option.some.inj ht).symm
    | false =>
      rw [State.resumeTimed, hfresh.waitid_own hr, hst] at ht
      exact hstored _ (.inr rfl) (Option.some.inj ht).symm

theorem timed_step {cfg : Config} {s t : Timed} {e : TimedEvent} (h : TimedInv s) (hs : timedStep cfg s e = some t) :
    TimedInv t ∧ (CodesTrue t.base ↔ CodesTrue s.base ∧ TimedOk s e) := by
  cases e with
  | other e =>
    obtain ⟨hok, hstep⟩ := Option.ite_none_right_eq_some.mp hs
    obtain ⟨b, hb, rfl⟩ := Option.map_eq_some_iff.mp hstep
    simp only [Bool.and_eq_true, Bool.not_eq_true', Bool.or_eq_true, Option.isNone_iff_eq_none] at hok
    obtain ⟨hinv, hcodes⟩ := other_step h hb hok.1 hok.2
    exact ⟨hinv, hcodes.trans (and_iff_left trivial).symm⟩
  | waitTimeout i timeoutMs pollIntervalMs =>
    simp only [timedStep] at hs
    split at hs <;> cases hs
    rename_i hidle
    simp only [Bool.and_eq_true, Option.isNone_iff_eq_none, decide_eq_true_eq] at hidle
    obtain ⟨base, wait⟩ := s
    obtain ⟨⟨hf, rfl⟩, hi⟩ := hidle
    obtain ⟨hinv, hcodes⟩ := waitTimeout_step h hf hi timeoutMs pollIntervalMs
    exact ⟨hinv, hcodes.trans (and_iff_left trivial).symm⟩
  | resume left =>
    obtain ⟨⟨i, w⟩, hw, ht⟩ := Option.bind_eq_some_iff.mp hs
    obtain ⟨base, wait⟩ := s
    simp only at hw
    subst hw
    exact resumeTimed_step h ht

theorem timedInv_start (info : ProcessInfo) (prog : List Stream.StreamName) (birth : Nat) :
    TimedInv (oneHandle info prog birth) :=
  ⟨.inl ⟨inv_init.start rfl prog birth rfl, rfl, rfl⟩, fun _ _ hw => by cases hw⟩

/-- In a program with one handle, for any discipline of the pool and any order of the steps
    of the loop thread, the worker, the child and strangers: every code that a wait
    returned is the child's true status exactly when `wait_timeout_ms` never asked the
    kernel about a child that the worker had taken away and that did not exit with 0. -/
theorem timed_codes_iff (cfg : Config) (info : ProcessInfo) (prog : List Stream.StreamName) (birth : Nat)
    (es : List TimedEvent) (s : Timed) (h : Runs.exec (timedStep cfg) (oneHandle info prog birth) es = some s) :
    CodesTrue s.base ↔ Runs.Meets (timedStep cfg) TimedOk (oneHandle info prog birth) es := by
  have hinit := timedInv_start info prog birth
  have hrun := Runs.exec_meets_iff (I := TimedInv) (Q := fun s => CodesTrue s.base) (P := TimedOk)
    (fun s e t hs hstep => (timed_step hs hstep).1) (fun s e t hs hstep => (timed_step hs hstep).2) hinit h
  rw [hrun]
  exact and_iff_right fun i v hm => by cases hm

/-- A wait that times out, and one that finds the child itself. -/
def timedRun : List TimedEvent :=
  [.waitTimeout 0 1 5, .resume 0, .resume 0, .resume 0, .other (.call 0 (.beginWait true)), .other (.exit 0 (.exited 3)),
    .waitTimeout 0 0 5, .resume 0, .other (.workStart ⟨0, .wait⟩), .other (.waitReturn 0), .resume 0,
    .other (.call 0 .collectWait)]

theorem timed_codes_iff_polled :
    ∃ s, Runs.exec (timedStep anyPool) (oneHandle { pid := 10 } [] 1) timedRun = some s ∧
      s.base.log = [.code 0 3, .code 0 3] ∧ Runs.Meets (timedStep anyPool) TimedOk (oneHandle { pid := 10 } [] 1) timedRun := by
  refine ⟨_, rfl, rfl, (timed_codes_iff anyPool { pid := 10 } [] 1 timedRun _ rfl).mp ?_⟩
  intro i v hm
  have hm : Report.code i v ∈ [Report.code 0 3, Report.code 0 3] := hm
  simp only [List.mem_cons, Report.code.injEq, List.not_mem_nil, or_false, or_self] at hm
  obtain ⟨rfl, rfl⟩ := hm
  exact ⟨.exited 3, rfl, rfl⟩

/-- The worker takes the child away; `wait_timeout_ms` finds nobody and stores 0. -/
theorem worker_first :
    ∃ s, Runs.exec (timedStep anyPool) (oneHandle { pid := 10 } [] 1)
        [.other (.call 0 (.beginWait true)), .other (.workStart ⟨0, .wait⟩), .other (.exit 0 (.exited 3)),
          .other (.waitReturn 0), .waitTimeout 0 0 5, .resume 0, .other (.call 0 .collectWait)] = some s ∧
      (s.base.child 0).exit = some (.exited 3) ∧ s.base.log = [.code 0 0, .code 0 0] :=
  ⟨_, rfl, rfl, rfl⟩

end CovProcess.Handle
