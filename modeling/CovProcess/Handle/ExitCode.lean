/-
  CovProcess.Handle.ExitCode — where the result of a handle's wait is, at every point of
  every run (see `CovProcess.Handle.Model`).

  A handle's child is unreaped, and holds its PID, until `_exit_code` or a wait work whose
  `waitid` returned has its status (`WaitOk`); so no `waitid` on a handle's PID ever meets
  another process, whatever the kernel does with PIDs that were given back. The invariant
  is kept by each change to one handle (`Core.setHandle`), and every method is made of
  such changes.

  Proved: `exit_codes_true`, for any discipline of the pool and any order of steps, every
  code a call returned is the child's true status, and no call reports a child as running
  after another reported it as exited.
-/

import CovProcess.Handle.Model

namespace CovProcess.Handle

open CovProcess.Stream (StreamName fdOf closeStdin)

/-! ## The invariant -/

/-- Unreaped children hold their PIDs, and nobody else's child holds one. -/
structure Owns (s : State) : Prop where
  alive : ∀ i < s.n, (s.child i).reaped = false → s.procs (s.pid i) = some ⟨some i, (s.child i).birth⟩
  owner : ∀ pid j b, s.procs pid = some ⟨some j, b⟩ →
    j < s.n ∧ s.pid j = pid ∧ (s.child j).reaped = false ∧ (s.child j).birth = b

/-- The child exited, and `v` is its status. -/
def Tells (c : Child) (v : Int) : Prop := ∃ st, c.exit = some st ∧ v = st.code

/-- The work's `waitid` has returned. -/
def Phase.late : Phase → Bool
  | .queued | .running => false
  | .returned | .posted | .done => true

/-- The result is in one place: `_exit_code`, the wait work, or still with the kernel. -/
def WaitOk (c : Child) : Option Int → Option AsyncWork → Prop
  | some v, none => c.reaped = true ∧ Tells c v
  | some _, some _ => False
  | none, none => c.reaped = false
  | none, some w => if w.phase.late then c.reaped = true ∧ Tells c w.exitCode else c.reaped = false

structure Good (h : MemberHolder) (c : Child) : Prop where
  wait : WaitOk c h.exitCode (h.work .wait)
  observed : h.observedExited = true → c.exit ≠ none

def MemberHolder.knows (h : MemberHolder) : Bool := h.exitCode.isSome || h.observedExited

/-- No report of a running child is newer than one of its exit. -/
def NoRelapse (newer older : Report) : Prop :=
  ∀ i, newer = .running i → older ≠ .exited i ∧ ∀ v, older ≠ .code i v

structure Core (s : State) : Prop where
  owns : Owns s
  good : ∀ i < s.n, Good (s.handle i) (s.child i)
  codes : ∀ i v, .code i v ∈ s.log → i < s.n ∧ (s.handle i).exitCode = some v
  exits : ∀ i, .exited i ∈ s.log → i < s.n ∧ (s.handle i).knows = true
  sticky : s.log.Pairwise NoRelapse

/-- A method inside `wait_for` got there with nothing stored and no work submitted. -/
def FrameOk (s : State) : Frame → Prop
  | .readLoop i _ => i < s.n
  | .collectLoop i => i < s.n
  | .waitFor i => i < s.n ∧ (s.handle i).exitCode = none ∧ (s.handle i).work .wait = none
  | .treeTime i _ => i < s.n
  | .treeKill i _ _ => i < s.n

structure Inv (s : State) : Prop where
  core : Core s
  frame : ∀ f, s.frame = some f → FrameOk s f

/-! ## Changes that keep it -/

theorem Good.unreaped {h : MemberHolder} {c : Child} (hg : Good h c) (he : h.exitCode = none)
    (hw : h.work .wait = none) : c.reaped = false := by
  have := hg.wait
  rwa [he, hw] at this

theorem Good.code {h : MemberHolder} {c : Child} (hg : Good h c) {v : Int} (he : h.exitCode = some v) :
    c.reaped = true ∧ Tells c v := by
  have := hg.wait
  rw [he] at this
  cases hw : h.work .wait with
  | none => rwa [hw] at this
  | some w =>
    rw [hw] at this
    exact this.elim

/-- While there is a wait work nothing is stored. -/
theorem Good.pending {h : MemberHolder} {c : Child} (hg : Good h c) {w : AsyncWork} (hw : h.work .wait = some w) :
    h.exitCode = none ∧ if w.phase.late then c.reaped = true ∧ Tells c w.exitCode else c.reaped = false := by
  have := hg.wait
  rw [hw] at this
  cases he : h.exitCode with
  | some v =>
    rw [he] at this
    exact this.elim
  | none =>
    rw [he] at this
    exact ⟨rfl, this⟩

theorem Good.early {h : MemberHolder} {c : Child} (hg : Good h c) {w : AsyncWork} (hw : h.work .wait = some w)
    (hp : w.phase.late = false) : h.exitCode = none ∧ c.reaped = false := by
  obtain ⟨he, h'⟩ := hg.pending hw
  rw [hp, if_neg (by decide)] at h'
  exact ⟨he, h'⟩

theorem Good.late {h : MemberHolder} {c : Child} (hg : Good h c) {w : AsyncWork} (hw : h.work .wait = some w)
    (hp : w.phase.late = true) : h.exitCode = none ∧ c.reaped = true ∧ Tells c w.exitCode := by
  obtain ⟨he, h'⟩ := hg.pending hw
  rw [hp, if_pos rfl] at h'
  exact ⟨he, h'⟩

/-- What is said of a handle looks at three fields of it. -/
theorem Good.congr {h h' : MemberHolder} {c : Child} (hg : Good h c) (he : h'.exitCode = h.exitCode)
    (hw : h'.work .wait = h.work .wait) (ho : h'.observedExited = h.observedExited) : Good h' c := by
  refine ⟨?_, by rw [ho]; exact hg.observed⟩
  rw [he, hw]
  exact hg.wait

theorem setHandle_pid {s : State} {i : Nat} {h' : MemberHolder} (hpid : h'.info.pid = s.pid i) (j : Nat) :
    (s.setHandle i h').pid j = s.pid j := setHandle_same (fun h => h.info.pid) hpid j

theorem Owns.setHandle {s : State} (h : Owns s) {i : Nat} {h' : MemberHolder} (hpid : h'.info.pid = s.pid i) :
    Owns (s.setHandle i h') := by
  refine ⟨?_, ?_⟩
  · intro j hj hr
    rw [setHandle_pid hpid]
    exact h.alive j hj hr
  · intro pid j b hp
    rw [setHandle_pid hpid]
    exact h.owner pid j b hp

theorem Owns.pid_ne {s : State} (h : Owns s) {i j : Nat} (hi : i < s.n) (hri : (s.child i).reaped = false)
    (hj : j < s.n) (hrj : (s.child j).reaped = false) (hne : j ≠ i) : s.pid j ≠ s.pid i := by
  intro he
  have hpi := h.alive i hi hri
  rw [← he, h.alive j hj hrj] at hpi
  cases hpi
  exact hne rfl

theorem reap_child_self (s : State) (i : Nat) : (s.reap i).child i = { s.child i with reaped := true } := by
  simp [State.reap, State.setChild]

theorem reap_child_ne (s : State) {i j : Nat} (hj : j ≠ i) : (s.reap i).child j = s.child j := by
  simp [State.reap, State.setChild, Function.update_of_ne hj]

theorem Owns.reap {s : State} (h : Owns s) {i : Nat} (hi : i < s.n) (hr : (s.child i).reaped = false) :
    Owns (s.reap i) := by
  refine ⟨?_, ?_⟩
  · intro j hj hrj
    have hji : j ≠ i := by
      intro heq
      subst heq
      rw [reap_child_self] at hrj
      cases hrj
    rw [reap_child_ne s hji] at hrj ⊢
    have hne := h.pid_ne hi hr hj hrj hji
    exact (Function.update_of_ne hne _ _).trans (h.alive j hj hrj)
  · intro pid j b hp
    have hpi : pid ≠ s.pid i := by
      intro heq
      subst heq
      simp [State.reap] at hp
    have hp' : s.procs pid = some ⟨some j, b⟩ := (Function.update_of_ne hpi _ _).symm.trans hp
    obtain ⟨hj, hjp, hjr, hjb⟩ := h.owner pid j b hp'
    have hji : j ≠ i := by
      intro heq
      subst heq
      exact hpi hjp.symm
    rw [reap_child_ne s hji]
    exact ⟨hj, hjp, hjr, hjb⟩

namespace Core

variable {s : State}

/-- A change to one handle that keeps its PID, agrees with the child and forgets nothing. -/
theorem setHandle (h : Core s) {i : Nat} {h' : MemberHolder} (hpid : h'.info.pid = s.pid i)
    (hgood : i < s.n → Good h' (s.child i))
    (hcode : i < s.n → ∀ v, (s.handle i).exitCode = some v → h'.exitCode = some v)
    (hknows : (s.handle i).knows = true → h'.knows = true) : Core (s.setHandle i h') := by
  refine ⟨h.owns.setHandle hpid, ?_, ?_, ?_, h.sticky⟩
  · intro j hj
    by_cases hji : j = i
    · subst hji
      simpa [State.setHandle] using hgood hj
    · simpa [State.setHandle, Function.update_of_ne hji] using h.good j hj
  · intro j v hm
    obtain ⟨hlt, hv⟩ := h.codes j v hm
    refine ⟨hlt, ?_⟩
    by_cases hji : j = i
    · subst hji
      simpa [State.setHandle] using hcode hlt v hv
    · simpa [State.setHandle, Function.update_of_ne hji] using hv
  · intro j hm
    obtain ⟨hlt, hk⟩ := h.exits j hm
    refine ⟨hlt, ?_⟩
    by_cases hji : j = i
    · subst hji
      simpa [State.setHandle] using hknows hk
    · simpa [State.setHandle, Function.update_of_ne hji] using hk

/-- What only the loop thread looks at says nothing about results. -/
theorem aside (h : Core s) (pool : List Job) (frame : Option Frame) (signals : List Signal) :
    Core { s with pool := pool, frame := frame, signals := signals } :=
  ⟨⟨h.owns.alive, h.owns.owner⟩, h.good, h.codes, h.exits, h.sticky⟩

theorem report_code (h : Core s) {i : Nat} {v : Int} (hi : i < s.n) (hv : (s.handle i).exitCode = some v) :
    Core (s.report (.code i v)) := by
  refine ⟨⟨h.owns.alive, h.owns.owner⟩, h.good, ?_, ?_, ?_⟩
  · intro j w hm
    rcases List.mem_cons.mp hm with heq | hm
    · cases heq
      exact ⟨hi, hv⟩
    · exact h.codes j w hm
  · intro j hm
    rcases List.mem_cons.mp hm with heq | hm
    · cases heq
    · exact h.exits j hm
  · refine List.Pairwise.cons ?_ h.sticky
    intro r _ j hj
    cases hj

theorem report_check (h : Core s) {i : Nat} {b : Bool} (hi : i < s.n) (hb : (s.handle i).knows = b) :
    Core (s.report (if b then .exited i else .running i)) := by
  refine ⟨⟨h.owns.alive, h.owns.owner⟩, h.good, ?_, ?_, ?_⟩
  · intro j w hm
    rcases List.mem_cons.mp hm with heq | hm
    · split at heq <;> cases heq
    · exact h.codes j w hm
  · intro j hm
    rcases List.mem_cons.mp hm with heq | hm
    · split at heq <;> cases heq
      exact ⟨hi, hb.trans ‹_›⟩
    · exact h.exits j hm
  · -- a running child is reported only by a handle that knows of no exit
    refine List.Pairwise.cons ?_ h.sticky
    intro r hr j hj
    split at hj <;> cases hj
    rename_i hfalse
    refine ⟨?_, ?_⟩
    · intro heq
      subst heq
      rw [(h.exits i hr).2] at hb
      exact hfalse hb.symm
    · intro v heq
      subst heq
      have hv := (h.codes i v hr).2
      rw [MemberHolder.knows, hv] at hb
      exact hfalse hb.symm

theorem afterWork_late (w : AsyncWork) : (AsyncWork.afterWork w).phase.late = w.phase.late := by
  unfold AsyncWork.afterWork
  split
  · rename_i h
    rw [h]
    rfl
  · rfl

theorem afterWork_code (w : AsyncWork) : (AsyncWork.afterWork w).exitCode = w.exitCode := by
  unfold AsyncWork.afterWork
  split <;> rfl

theorem waitOk_afterWork {c : Child} {e : Option Int} {w : Option AsyncWork} (h : WaitOk c e w) :
    WaitOk c e (w.map AsyncWork.afterWork) := by
  cases w with
  | none => exact h
  | some w =>
    cases e with
    | none => simpa [WaitOk, afterWork_late, afterWork_code] using h
    | some v => exact h

theorem uvRun (h : Core s) : Core s.uvRun :=
  ⟨⟨h.owns.alive, h.owns.owner⟩,
    fun i hi => ⟨waitOk_afterWork (h.good i hi).wait, (h.good i hi).observed⟩, h.codes, h.exits, h.sticky⟩

/-- A change of one work that is not the wait work. -/
theorem setRead (h : Core s) (i : Nat) (x : StreamName) (w : Option AsyncWork) :
    Core (s.setWork i (.read x) w) :=
  h.setHandle rfl (fun hi => (h.good i hi).congr rfl (by simp [Function.update_of_ne]) rfl) (fun _ _ => id) id

/-- A wait work without a result, where there is none. -/
theorem setWait (h : Core s) {i : Nat} {w : AsyncWork} (hw : w.phase.late = false)
    (hfree : i < s.n → (s.handle i).exitCode = none ∧ (s.child i).reaped = false) :
    Core (s.setWork i .wait (some w)) := by
  refine h.setHandle rfl (fun hi => ⟨?_, (h.good i hi).observed⟩) (fun _ _ => id) id
  obtain ⟨he, hr⟩ := hfree hi
  simp [WaitOk, he, hw, hr]

theorem setLate (h : Core s) {i : Nat} {w w' : AsyncWork} (hw : (s.handle i).work .wait = some w)
    (hp : w.phase.late = true) (hp' : w'.phase.late = true) (hc : w'.exitCode = w.exitCode) :
    Core (s.setWork i .wait (some w')) := by
  refine h.setHandle rfl (fun hi => ⟨?_, (h.good i hi).observed⟩) (fun _ _ => id) id
  obtain ⟨he, hr⟩ := (h.good i hi).late hw hp
  simp [WaitOk, he, hp', hc, hr]

theorem collectWork (h : Core s) {i : Nat} {w : AsyncWork} (hw : (s.handle i).work .wait = some w)
    (hp : w.phase.late = true) : Core (s.collectWork i w) := by
  refine h.setHandle rfl ?_ ?_ (fun _ => by simp [MemberHolder.knows])
  · intro hi
    obtain ⟨-, hr, st, hst, hcode⟩ := (h.good i hi).late hw hp
    refine ⟨?_, fun _ => by simp [hst]⟩
    simp only [WaitOk, Function.update_self]
    exact ⟨hr, st, hst, hcode⟩
  · intro hi v hv
    rw [((h.good i hi).late hw hp).1] at hv
    cases hv

theorem observe (h : Core s) {i : Nat} (hexit : i < s.n → (s.child i).exit ≠ none) :
    Core (s.setHandle i { s.handle i with observedExited := true }) :=
  h.setHandle rfl (fun hi => ⟨(h.good i hi).wait, fun _ => hexit hi⟩) (fun _ _ => id)
    (fun _ => by simp [MemberHolder.knows])

/-! ## The methods -/

theorem submit_read (h : Core s) (i : Nat) (x : StreamName) : Core (s.submit i (.read x)) :=
  (h.setRead i x _).aside _ _ _

theorem beginWait (h : Core s) (i : Nat) (queued : Bool) : Core (s.beginWait i queued) := by
  rcases beginWait_eq s i queued with heq | ⟨he, hw, heq⟩
  · rwa [heq]
  · rw [heq]
    exact (h.setWait rfl fun hi => ⟨he, (h.good i hi).unreaped he hw⟩).aside _ _ _

theorem beginRead (h : Core s) (i : Nat) (x : StreamName) (queued : Bool) : Core (s.beginRead i x queued) := by
  rcases beginRead_eq s i x queued with heq | ⟨-, heq⟩
  · rwa [heq]
  · rw [heq]
    exact h.submit_read i x

theorem closeStdin_pid (info : ProcessInfo) : (closeStdin info).pid = info.pid := by
  unfold closeStdin
  split <;> rfl

theorem beginCommunicate (h : Core s) (i : Nat) (queued : Kind → Bool) : Core (s.beginCommunicate i queued) := by
  have hbegun : Core (s.setHandle i { s.handle i with info := closeStdin (s.handle i).info, begun := true }) :=
    h.setHandle (closeStdin_pid _) (fun hi => (h.good i hi).congr rfl rfl rfl) (fun _ _ => id) id
  exact ((hbegun.beginWait i _).beginRead i .stdout _).beginRead i .stderr _

end Core

/-- A `waitid` on the PID of a handle whose child is unreaped meets that child. -/
theorem Core.waitid_own {s : State} (h : Core s) {i : Nat} (hi : i < s.n) (hr : (s.child i).reaped = false) :
    s.waitid (s.pid i) = match (s.child i).exit with
      | some st => .exited i st
      | none => .alive := by
  have hp := h.owns.alive i hi hr
  cases hx : (s.child i).exit with
  | none => simp [State.waitid, hp, hx]
  | some st => simp [State.waitid, hp, hx]

theorem Core.checkExited {s : State} (h : Core s) {i : Nat} (hi : i < s.n) :
    Core (s.checkExited i).1 ∧ ((s.checkExited i).1.handle i).knows = (s.checkExited i).2 ∧
      (s.checkExited i).1.n = s.n := by
  unfold State.checkExited
  split
  · rename_i hk
    exact ⟨h, hk, rfl⟩
  · rename_i hk
    have hknows : (s.handle i).knows = false := Bool.eq_false_iff.mpr hk
    split
    · rename_i hw
      have he : (s.handle i).exitCode = none := by
        rw [MemberHolder.knows, Bool.or_eq_false_iff] at hknows
        exact Option.isNone_iff_eq_none.mp (Option.isSome_eq_false_iff.mp hknows.1)
      split
      · rename_i hex
        refine ⟨h.observe ?_, by simp [State.setHandle, MemberHolder.knows], rfl⟩
        intro _ hnone
        rw [State.processExited, h.waitid_own hi ((h.good i hi).unreaped he hw), hnone] at hex
        cases hex
      · exact ⟨h, hknows, rfl⟩
    · have hrun : (s.uvRun.handle i).knows = false := hknows
      split
      · rename_i w hw
        split
        · rename_i hdone
          refine ⟨h.uvRun.collectWork hw (by rw [hdone]; rfl), ?_, rfl⟩
          simp [State.collectWork, State.setHandle, MemberHolder.knows]
        · exact ⟨h.uvRun, hrun, rfl⟩
      · exact ⟨h.uvRun, hrun, rfl⟩

/-- No method is in progress, or the invariant says where it is. -/
theorem Core.inv_idle {s : State} (h : Core s) (hf : s.frame = none) : Inv s :=
  ⟨h, fun f hf' => by rw [hf] at hf'; cases hf'⟩

theorem Core.collectWait {s : State} (h : Core s) {i : Nat} (hi : i < s.n) : Inv (s.collectWait i) := by
  unfold State.collectWait
  split
  · rename_i c hc
    exact Core.inv_idle ((h.report_code hi hc).aside _ _ _) rfl
  · rename_i he
    split
    · exact ⟨h.aside _ _ _, fun f hf => by cases hf; exact hi⟩
    · rename_i hw
      refine ⟨h.aside _ _ _, ?_⟩
      intro f hf
      cases hf
      exact ⟨hi, he, Option.isNone_iff_eq_none.mp (Option.isSome_eq_false_iff.mp (Bool.eq_false_iff.mpr hw))⟩

theorem Core.endErr {s : State} (h : Core s) {i : Nat} (hi : i < s.n) : Inv (s.endErr i) := by
  unfold State.endErr
  split
  · exact ⟨h.aside _ _ _, fun f hf => by cases hf; exact hi⟩
  · exact h.collectWait hi

theorem Core.endCommunicate {s : State} (h : Core s) {i : Nat} (hi : i < s.n) : Inv (s.endCommunicate i) := by
  unfold State.endCommunicate
  split
  · exact ⟨h.aside _ _ _, fun f hf => by cases hf; exact hi⟩
  · exact h.endErr hi

/-- Only a call that ends in a wait leaves a method in progress. -/
theorem beginWait_frame (s : State) (i : Nat) (queued : Bool) :
    (s.beginWait i queued).frame = s.frame ∧ (s.beginWait i queued).n = s.n := by
  unfold State.beginWait
  repeat' split
  all_goals exact ⟨rfl, rfl⟩

theorem beginRead_frame (s : State) (i : Nat) (x : StreamName) (queued : Bool) :
    (s.beginRead i x queued).frame = s.frame ∧ (s.beginRead i x queued).n = s.n := by
  unfold State.beginRead
  split <;> exact ⟨rfl, rfl⟩

theorem beginCommunicate_frame (s : State) (i : Nat) (queued : Kind → Bool) :
    (s.beginCommunicate i queued).frame = s.frame ∧ (s.beginCommunicate i queued).n = s.n := by
  unfold State.beginCommunicate
  simp only [beginRead_frame, beginWait_frame]
  exact ⟨rfl, rfl⟩

theorem checkExited_frame (s : State) (i : Nat) : (s.checkExited i).1.frame = s.frame := by
  unfold State.checkExited
  repeat' split
  all_goals rfl

theorem call_inv {s : State} (h : Core s) {i : Nat} (hi : i < s.n) (hf : s.frame = none) (c : Call) :
    Inv (c.run s i) := by
  cases c with
  | beginWait queued => exact (h.beginWait i queued).inv_idle ((beginWait_frame s i queued).1.trans hf)
  | pollWait | hasExited =>
    obtain ⟨hcore, hk, hn⟩ := h.checkExited hi
    exact (hcore.report_check (by rw [hn]; exact hi) hk).inv_idle ((checkExited_frame s i).trans hf)
  | collectWait => exact h.collectWait hi
  | beginCommunicate queued =>
    exact (h.beginCommunicate i queued).inv_idle ((beginCommunicate_frame s i queued).1.trans hf)
  | pollCommunicate => exact h.uvRun.inv_idle hf
  | endCommunicate => exact h.endCommunicate hi
  | communicate queued =>
    exact (h.beginCommunicate i queued).endCommunicate (by rw [(beginCommunicate_frame s i queued).2]; exact hi)
  | interrupt force => exact (h.aside _ _ _).inv_idle hf
  | interruptTree force =>
    simp only [Call.run, State.interruptTree]
    split
    · exact h.inv_idle hf
    · split
      · exact ⟨h.aside _ _ _, fun f hf => by cases hf; exact hi⟩
      · exact ⟨h.aside _ _ _, fun f hf => by cases hf; exact hi⟩

/-! ## Reaping -/

theorem Core.waitFor_own {s : State} (h : Core s) {i : Nat} (hi : i < s.n) (hr : (s.child i).reaped = false) :
    s.waitFor (s.pid i) = (s.child i).exit.map fun st => (s.reap i, st.code) := by
  rw [State.waitFor, h.waitid_own hi hr]
  cases (s.child i).exit <;> rfl

theorem Core.waitFor_some {s t : State} (h : Core s) {i : Nat} (hi : i < s.n) (hr : (s.child i).reaped = false)
    {c : Int} (hwait : s.waitFor (s.pid i) = some (t, c)) :
    ∃ st, (s.child i).exit = some st ∧ t = s.reap i ∧ c = st.code := by
  rw [h.waitFor_own hi hr, Option.map_eq_some_iff] at hwait
  obtain ⟨st, hst, heq⟩ := hwait
  cases heq
  exact ⟨st, hst, rfl, rfl⟩

theorem Core.waitReturn {s t : State} (h : Core s) {i : Nat} (hi : i < s.n) {w : AsyncWork} {c : Int}
    (hw : (s.handle i).work .wait = some w) (hp : w.phase = .running) (hwait : s.waitFor (s.pid i) = some (t, c)) :
    (s.handle i).exitCode = none ∧ (s.child i).reaped = false ∧
      ∃ st, (s.child i).exit = some st ∧ t = s.reap i ∧ c = st.code := by
  obtain ⟨he, hr⟩ := (h.good i hi).early hw (by rw [hp]; rfl)
  exact ⟨he, hr, h.waitFor_some hi hr hwait⟩

theorem Core.reapStore {s : State} (h : Core s) {i : Nat} {h' : MemberHolder} (hi : i < s.n)
    (hr : (s.child i).reaped = false) (he : (s.handle i).exitCode = none) (hpid : h'.info.pid = s.pid i)
    (hwait : WaitOk { s.child i with reaped := true } h'.exitCode (h'.work .wait))
    (hobs : h'.observedExited = (s.handle i).observedExited) : Core ((s.reap i).setHandle i h') := by
  refine ⟨(h.owns.reap hi hr).setHandle hpid, ?_, ?_, ?_, h.sticky⟩
  · intro j hj
    show Good (Function.update s.handle i h' j) ((s.reap i).child j)
    by_cases hji : j = i
    · subst hji
      rw [reap_child_self, Function.update_self]
      exact ⟨hwait, by rw [hobs]; exact (h.good j hi).observed⟩
    · rw [reap_child_ne s hji, Function.update_of_ne hji]
      exact h.good j hj
  · intro j v hm
    show j < s.n ∧ (Function.update s.handle i h' j).exitCode = some v
    obtain ⟨hlt, hv⟩ := h.codes j v hm
    have hji : j ≠ i := by
      intro heq
      subst heq
      rw [he] at hv
      cases hv
    rw [Function.update_of_ne hji]
    exact ⟨hlt, hv⟩
  · intro j hm
    show j < s.n ∧ (Function.update s.handle i h' j).knows = true
    obtain ⟨hlt, hk⟩ := h.exits j hm
    refine ⟨hlt, ?_⟩
    by_cases hji : j = i
    · subst hji
      rw [MemberHolder.knows, he, Option.isSome_none, Bool.false_or] at hk
      rw [Function.update_self, MemberHolder.knows, hobs, hk, Bool.or_true]
    · rwa [Function.update_of_ne hji]

theorem resume_inv {s s' : State} (h : Inv s) {f : Frame} (hf : s.frame = some f) (hs : Resumes s f s') : Inv s' := by
  have hfr := h.frame f hf
  cases hs with
  | turn hwait ht hk =>
    -- a turn of the loop leaves the method where it is
    refine ⟨h.core.uvRun, ?_⟩
    intro g hg
    cases hf.symm.trans hg
    cases f with
    | waitFor i => exact absurd rfl (hwait i)
    | _ => exact hfr
  | @taken i x w hw hdone =>
    have hcore := h.core.setRead i x none
    split
    · exact hcore.endErr hfr
    · exact hcore.collectWait hfr
  | @collected i w hw hdone =>
    have hcore := h.core.collectWork hw (by rw [hdone]; rfl)
    have hstored : ((s.collectWork i w).handle i).exitCode = some w.exitCode := by
      simp [State.collectWork, State.setHandle]
    exact ((hcore.report_code hfr hstored).aside _ none _).inv_idle rfl
  | @waited i t c hwait =>
    obtain ⟨hi, he, hw⟩ := hfr
    have hr := (h.core.good i hi).unreaped he hw
    obtain ⟨st, hst, rfl, rfl⟩ := h.core.waitFor_some hi hr hwait
    have hcore : Core ((s.reap i).setHandle i { s.handle i with exitCode := some st.code }) :=
      h.core.reapStore hi hr he rfl (by rw [hw]; exact ⟨rfl, st, hst, rfl⟩) rfl
    refine ((hcore.report_code (v := st.code) hi ?_).aside _ none _).inv_idle rfl
    simp [State.setHandle]
  | timed =>
    refine ⟨h.core.aside _ _ _, ?_⟩
    intro g hg
    cases hg
    exact hfr
  | killed => exact (h.core.aside _ none _).inv_idle rfl
  | spared => exact (h.core.aside _ none _).inv_idle rfl

/-! ## The pool, the children, the strangers -/

/-- A step outside the loop thread keeps the method in progress where it is, if it
    touches no handle the method found idle. -/
theorem Inv.of_core {s s' : State} (h : Inv s) (hcore : Core s') (hframe : s'.frame = s.frame) (hn : s.n ≤ s'.n)
    (hidle : ∀ i < s.n, (s.handle i).exitCode = none → (s.handle i).work .wait = none →
      (s'.handle i).exitCode = none ∧ (s'.handle i).work .wait = none) : Inv s' := by
  refine ⟨hcore, ?_⟩
  intro f hf
  rw [hframe] at hf
  have hok := h.frame f hf
  cases f with
  | waitFor i =>
    obtain ⟨hi, he, hw⟩ := hok
    exact ⟨hi.trans_le hn, hidle i hi he hw⟩
  | readLoop i x => exact Nat.lt_of_lt_of_le hok hn
  | collectLoop i => exact Nat.lt_of_lt_of_le hok hn
  | treeTime i force => exact Nat.lt_of_lt_of_le hok hn
  | treeKill i force group => exact Nat.lt_of_lt_of_le hok hn

/-- A change of a work that is there leaves an idle handle idle. -/
theorem setWork_idle {s : State} {i : Nat} {k : Kind} {w w' : AsyncWork} (hw : (s.handle i).work k = some w) {j : Nat}
    (he : (s.handle j).exitCode = none) (hidle : (s.handle j).work .wait = none) :
    ((s.setWork i k (some w')).handle j).exitCode = none ∧
      ((s.setWork i k (some w')).handle j).work .wait = none := by
  by_cases hji : j = i
  · subst hji
    have hk : Kind.wait ≠ k := by
      intro heq
      subst heq
      rw [hw] at hidle
      cases hidle
    simp [State.setWork, State.setHandle, he, hidle, Function.update_of_ne hk]
  · simp [State.setWork, State.setHandle, he, hidle, Function.update_of_ne hji]

/-- A work that moves on without a new result. -/
theorem Inv.setWork {s : State} (h : Inv s) {i : Nat} {k : Kind} {w w' : AsyncWork}
    (hw : (s.handle i).work k = some w)
    (hsame : k = .wait → w'.phase.late = w.phase.late ∧ w'.exitCode = w.exitCode) :
    Inv (s.setWork i k (some w')) := by
  refine h.of_core ?_ rfl (Nat.le_refl _) fun j _ he hidle => setWork_idle hw he hidle
  cases k with
  | read x => exact h.core.setRead i x _
  | wait =>
    obtain ⟨hl, hc⟩ := hsame rfl
    cases hp : w.phase.late with
    | false => exact h.core.setWait (by rw [hl, hp]) fun hi => (h.core.good i hi).early hw hp
    | true => exact h.core.setLate hw hp (by rw [hl, hp]) hc

theorem WaitOk.mono {c c' : Child} {e : Option Int} {w : Option AsyncWork} (h : WaitOk c e w)
    (hr : c'.reaped = c.reaped) (ht : ∀ v, Tells c v → Tells c' v) : WaitOk c' e w := by
  cases w with
  | none =>
    cases e with
    | none => exact hr.trans h
    | some v => exact ⟨hr.trans h.1, ht v h.2⟩
  | some w =>
    cases e with
    | some v => exact h.elim
    | none =>
      cases hl : w.phase.late with
      | true =>
        simp only [WaitOk, hl, if_true] at h ⊢
        exact ⟨hr.trans h.1, ht _ h.2⟩
      | false =>
        simp only [WaitOk, hl, Bool.false_eq_true, if_false] at h ⊢
        exact hr.trans h

/-- A child that writes, or is read from, or exits: what is said of it stays true. -/
theorem Inv.setChild {s : State} (h : Inv s) {i : Nat} {c : Child} (hr : c.reaped = (s.child i).reaped)
    (hb : c.birth = (s.child i).birth) (hx : ∀ st, (s.child i).exit = some st → c.exit = some st) :
    Inv (s.setChild i c) := by
  have htells : ∀ v, Tells (s.child i) v → Tells c v := by
    intro v hx
    obtain ⟨st, hst, hv⟩ := hx
    exact ⟨st, hx st hst, hv⟩
  refine h.of_core ⟨⟨?_, ?_⟩, ?_, h.core.codes, h.core.exits,
    h.core.sticky⟩ rfl (Nat.le_refl _) fun j _ he hw => ⟨he, hw⟩
  · intro j hj hrj
    by_cases hji : j = i
    · subst hji
      simp only [State.setChild, Function.update_self] at hrj ⊢
      rw [hb]
      exact h.core.owns.alive j hj (hr.symm.trans hrj)
    · simp only [State.setChild, Function.update_of_ne hji] at hrj ⊢
      exact h.core.owns.alive j hj hrj
  · intro pid j b hp
    obtain ⟨hj, hjp, hjr, hjb⟩ := h.core.owns.owner pid j b hp
    refine ⟨hj, hjp, ?_⟩
    by_cases hji : j = i
    · subst hji
      simp only [State.setChild, Function.update_self]
      exact ⟨hr.trans hjr, hb.trans hjb⟩
    · simp only [State.setChild, Function.update_of_ne hji]
      exact ⟨hjr, hjb⟩
  · intro j hj
    have hg := h.core.good j hj
    by_cases hji : j = i
    · subst hji
      simp only [State.setChild, Function.update_self]
      refine ⟨hg.wait.mono hr htells, fun ho hnone => hg.observed ho ?_⟩
      cases hxi : (s.child j).exit with
      | none => rfl
      | some st => rw [hx st hxi] at hnone; cases hnone
    · simpa only [State.setChild, Function.update_of_ne hji] using hg

/-- A PID that was free, or a stranger's, now or afterwards. -/
theorem Inv.setStranger {s : State} (h : Inv s) {pid : Int} {p : Option Proc}
    (hp : ∀ j b, p ≠ some ⟨some j, b⟩) (hold : ∀ j b, s.procs pid ≠ some ⟨some j, b⟩) :
    Inv { s with procs := Function.update s.procs pid p } := by
  refine h.of_core ⟨⟨?_, ?_⟩, h.core.good, h.core.codes, h.core.exits, h.core.sticky⟩
    rfl (Nat.le_refl _) fun j _ he hw => ⟨he, hw⟩
  · intro j hj hrj
    have halive := h.core.owns.alive j hj hrj
    have hne : s.pid j ≠ pid := by
      intro heq
      subst heq
      exact hold _ _ halive
    exact (Function.update_of_ne hne _ _).trans halive
  · intro q j b hq
    by_cases hqp : q = pid
    · subst hqp
      simp only [Function.update_self] at hq
      exact absurd hq (hp j b)
    · simp only [Function.update_of_ne hqp] at hq
      exact h.core.owns.owner q j b hq

theorem Inv.start {s : State} (h : Inv s) (hf : s.frame = none) {info : ProcessInfo} (prog : List StreamName)
    (birth : Nat) (hfree : s.procs info.pid = none) : Inv (s.start info prog birth) := by
  have hlt : ∀ j, j < s.n → j ≠ s.n := fun j hj => Nat.ne_of_lt hj
  have hpid : ∀ j, j < s.n → (s.start info prog birth).pid j = s.pid j := fun j hj => by
    simp [State.pid, State.start, Function.update_of_ne (hlt j hj)]
  refine Core.inv_idle ⟨⟨?_, ?_⟩, ?_, ?_, ?_,
    h.core.sticky⟩ hf
  · intro j hj hrj
    by_cases hjn : j = s.n
    · subst hjn
      simp [State.pid, State.start]
    · have hj' : j < s.n := Nat.lt_of_le_of_ne (Nat.lt_succ_iff.mp hj) hjn
      have hrj' : (s.child j).reaped = false := by
        simpa [State.start, Function.update_of_ne hjn] using hrj
      have halive := h.core.owns.alive j hj' hrj'
      have hne : s.pid j ≠ info.pid := by
        intro he
        rw [he, hfree] at halive
        cases halive
      rw [hpid j hj']
      simpa [State.start, Function.update_of_ne hne, Function.update_of_ne hjn] using halive
  · intro q j b hq
    by_cases hqp : q = info.pid
    · subst hqp
      simp only [State.start, Function.update_self] at hq
      cases hq
      simp [State.start, State.pid]
    · simp only [State.start, Function.update_of_ne hqp] at hq
      obtain ⟨hj, hjp, hjr, hjb⟩ := h.core.owns.owner q j b hq
      rw [hpid j hj]
      simp only [State.start, Function.update_of_ne (hlt j hj)]
      exact ⟨Nat.lt_succ_of_lt hj, hjp, hjr, hjb⟩
  · intro j hj
    by_cases hjn : j = s.n
    · subst hjn
      simp only [State.start, Function.update_self]
      exact ⟨rfl, by simp⟩
    · have hj' : j < s.n := Nat.lt_of_le_of_ne (Nat.lt_succ_iff.mp hj) hjn
      simpa only [State.start, Function.update_of_ne hjn] using h.core.good j hj'
  · intro j v hm
    obtain ⟨hj, hv⟩ := h.core.codes j v hm
    exact ⟨Nat.lt_succ_of_lt hj, by simpa only [State.start, Function.update_of_ne (hlt j hj)] using hv⟩
  · intro j hm
    obtain ⟨hj, hk⟩ := h.core.exits j hm
    exact ⟨Nat.lt_succ_of_lt hj, by simpa only [State.start, Function.update_of_ne (hlt j hj)] using hk⟩

/-! ## Every run -/

theorem inv_step {cfg : Config} {s s' : State} {ev : Event} (h : Inv s) (hs : step cfg s ev = some s') : Inv s' := by
  cases step_moves hs with
  | @start info prog birth hf hfree => exact h.start hf prog birth hfree
  | @call i c hf hi => exact call_inv h.core hi hf c
  | resume hf hs => exact resume_inv h hf hs
  | workStart hw hp => exact h.setWork hw fun _ => ⟨by rw [hp]; rfl, rfl⟩
  | @waitReturn i w t c hw hp hi hwait =>
    obtain ⟨he, hr, st, hst, rfl, rfl⟩ := h.core.waitReturn hi hw hp hwait
    refine h.of_core (h.core.reapStore hi hr he rfl ?_ rfl) rfl (Nat.le_refl _)
      fun j _ hej hidle => setWork_idle (s := s.reap i) hw hej hidle
    simp only [State.reap, State.setChild, Function.update_self, he, WaitOk, Phase.late, if_true]
    exact ⟨trivial, st, hst, rfl⟩
  | read => exact h.setChild rfl rfl fun _ => id
  | eof hx hw hp => exact h.setWork hw fun hk => by cases hk
  | @post j w hw hp =>
    have hi : Inv (s.setWork j.handle j.kind (some ⟨.posted, w.exitCode⟩)) :=
      h.setWork hw fun _ => ⟨by rw [hp]; rfl, rfl⟩
    exact ⟨hi.core.aside _ _ _, hi.frame⟩
  | write hr hb hx hle => exact h.setChild hr hb fun st hst => hx.trans hst
  | exit hx => exact h.setChild rfl rfl fun st hst => by rw [hx] at hst; cases hst
  | spawn hfree => exact h.setStranger (fun j b hp => by cases hp) fun j b hp => by rw [hfree] at hp; cases hp
  | vanish hp => exact h.setStranger (fun j b hq => by cases hq) fun j b hq => by rw [hp] at hq; cases hq

theorem inv_init : Inv {} := by
  refine ⟨⟨⟨fun i hi => absurd hi (Nat.not_lt_zero _), ?_⟩, fun i hi => absurd hi (Nat.not_lt_zero _), ?_, ?_,
    List.Pairwise.nil⟩, ?_⟩
  · intro pid j b hx
    cases hx
  · intro i v hm
    cases hm
  · intro i hm
    cases hm
  · intro f hf
    cases hf

theorem run_inv {cfg : Config} {es : List Event} {s : State} (h : run cfg es = some s) : Inv s :=
  Runs.exec_invariant (fun _ _ _ => inv_step) inv_init h

/-- Whatever the pool's discipline, the order of calls, workers and exits, and the reuse of
    PIDs: a code returned for a handle is its own child's status, all codes of a handle are
    equal, and after a report of an exit no call reports the child as running. -/
theorem exit_codes_true (cfg : Config) (es : List Event) (s : State) (h : run cfg es = some s) :
    (∀ i v, .code i v ∈ s.log → ∃ st, (s.child i).exit = some st ∧ v = st.code) ∧
      (∀ i v w, .code i v ∈ s.log → .code i w ∈ s.log → v = w) ∧
      ∀ i newer older, s.log = newer ++ older → (.exited i ∈ older ∨ ∃ v, .code i v ∈ older) →
        .running i ∉ newer := by
  have hi := (run_inv h).core
  refine ⟨?_, ?_, ?_⟩
  · intro i v hv
    obtain ⟨hlt, he⟩ := hi.codes i v hv
    exact ((hi.good i hlt).code he).2
  · intro i v w hv hw
    have hv' := (hi.codes i v hv).2
    have hw' := (hi.codes i w hw).2
    rw [hv'] at hw'
    exact Option.some.inj hw'
  · intro i newer older hlog hold hrun
    have hst := hi.sticky
    rw [hlog, List.pairwise_append] at hst
    rcases hold with hx | ⟨v, hv⟩
    · exact (hst.2.2 _ hrun _ hx i rfl).1 rfl
    · exact (hst.2.2 _ hrun _ hv i rfl).2 v rfl

/-- A pool that may start any job, and pipes of one byte. -/
def anyPool : Config := ⟨1, Nat.one_pos, fun _ _ => true⟩

/-- A child waited for by the pool, its PID taken by a stranger before the result is
    collected. -/
def recycledRun : List Event :=
  [.start { pid := 10 } [] 1, .call 0 (.beginWait true), .workStart ⟨0, .wait⟩, .exit 0 (.killed 9), .waitReturn 0,
    .spawn 10 2, .call 0 .pollWait, .post ⟨0, .wait⟩, .call 0 .collectWait, .resume true, .resume true,
    .call 0 .hasExited, .call 0 .collectWait]

theorem exit_codes_true_recycled :
    ∃ s, run anyPool recycledRun = some s ∧
      s.log = [.code 0 137, .exited 0, .code 0 137, .running 0] ∧
      ∀ v w, .code 0 v ∈ s.log → .code 0 w ∈ s.log → v = w :=
  ⟨_, rfl, rfl, (exit_codes_true anyPool recycledRun _ rfl).2.1 0⟩

end CovProcess.Handle
