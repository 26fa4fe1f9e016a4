/-
  CovProcess.Handle.Signals — who is hit by `interrupt` and `interrupt_tree` over every
  run, the kernel giving PIDs out again as soon as they are reaped
  (`src/process_unix_wait.cpp`, `terminate_process` and `terminate_process_tree`).

  `interrupt` checks nothing. What the handle's own flags say of the kernel is
  `reaped_iff`: the child is reaped once `_exit_code` is there or a worker's `waitid`
  returned, the loop thread having seen it or not. So:
  - `interrupt_late_iff`: no interrupt of a run comes after the reaping exactly when each
    is called with neither.
  - `kill_after_reap`: called after `collect_wait`, it hits whoever has the PID now.

  `interrupt_tree` asks the kernel, which answers for whichever child of this program has
  the PID. From its check to its `kill` an unreaped child holds the PID (`Held`), and the
  check does not say whose:
  - `tree_own`: where a living child that holds the PID is always the handle's own, or
    has the start time recorded for it, and no worker reaps the PID meanwhile, every
    signal goes to that child or its group.
  - `tree_hits_later_child`: a later child with another start time is killed.
-/

import CovProcess.Handle.ExitCode

namespace CovProcess.Handle

open CovProcess.Stream (StreamName)

/-! ## What sends signals -/

namespace State

variable (s : State) (i : Nat)

@[simp] theorem beginWait_signals (queued : Bool) : (s.beginWait i queued).signals = s.signals := by
  rcases beginWait_eq s i queued with heq | ⟨-, -, heq⟩ <;> rw [heq]
  rfl

@[simp] theorem beginRead_signals (x : StreamName) (queued : Bool) :
    (s.beginRead i x queued).signals = s.signals := by
  rcases beginRead_eq s i x queued with heq | ⟨-, heq⟩ <;> rw [heq]
  rfl

@[simp] theorem beginCommunicate_signals (queued : Kind → Bool) :
    (s.beginCommunicate i queued).signals = s.signals := by
  simp only [beginCommunicate, beginRead_signals, beginWait_signals]
  rfl

@[simp] theorem checkExited_signals : (s.checkExited i).1.signals = s.signals := by
  unfold checkExited
  split
  · rfl
  · split
    · split <;> rfl
    · split
      · split <;> rfl
      · rfl

@[simp] theorem collectWait_signals : (s.collectWait i).signals = s.signals := by
  unfold collectWait
  split
  · rfl
  · split <;> rfl

@[simp] theorem endErr_signals : (s.endErr i).signals = s.signals := by
  unfold endErr
  split
  · rfl
  · exact s.collectWait_signals i

@[simp] theorem endCommunicate_signals : (s.endCommunicate i).signals = s.signals := by
  unfold endCommunicate
  split
  · rfl
  · exact s.endErr_signals i

@[simp] theorem interruptTree_signals (force : Bool) : (s.interruptTree i force).signals = s.signals := by
  unfold interruptTree
  split
  · rfl
  · split <;> rfl

end State

/-- Of the calls only `interrupt` sends a signal; the one of `interrupt_tree` comes later. -/
theorem call_signals (s : State) (i : Nat) (c : Call) :
    (c.run s i).signals = s.signals ∨ ∃ force, c = .interrupt force := by
  cases c with
  | interrupt force => exact .inr ⟨force, rfl⟩
  | beginWait queued => exact .inl (s.beginWait_signals i queued)
  | pollWait => exact .inl (s.checkExited_signals i)
  | hasExited => exact .inl (s.checkExited_signals i)
  | collectWait => exact .inl (s.collectWait_signals i)
  | beginCommunicate queued => exact .inl (s.beginCommunicate_signals i queued)
  | pollCommunicate => exact .inl rfl
  | endCommunicate => exact .inl (s.endCommunicate_signals i)
  | communicate queued =>
    exact .inl (by rw [Call.run, State.communicate, State.endCommunicate_signals, State.beginCommunicate_signals])
  | interruptTree force => exact .inl (s.interruptTree_signals i force)

theorem waitFor_signals {s s' : State} {pid c : Int} (h : s.waitFor pid = some (s', c)) :
    s'.signals = s.signals := by
  unfold State.waitFor at h
  split at h <;> cases h <;> rfl

theorem resume_signals {s s' : State} {f : Frame} (hs : Resumes s f s') :
    s'.signals = s.signals ∨ ∃ i force group, f = .treeKill i force group ∧
      s'.signals = (s.kill .interruptTree i force group).signals := by
  cases hs with
  | taken hw hdone =>
    refine .inl ?_
    split
    · exact State.endErr_signals _ _
    · exact State.collectWait_signals _ _
  | @waited i t c h =>
    have hsig : t.signals = s.signals := waitFor_signals h
    exact .inl hsig
  | killed => exact .inr ⟨_, _, _, rfl, rfl⟩
  | _ => exact .inl rfl

theorem step_signals {cfg : Config} {s s' : State} {ev : Event} (hs : step cfg s ev = some s') :
    s'.signals = s.signals ∨
      (∃ i force, ev = .call i (.interrupt force) ∧ i < s.n ∧ s' = s.interrupt i force) ∨
      ∃ i force group, s.frame = some (.treeKill i force group) ∧
        s'.signals = (s.kill .interruptTree i force group).signals := by
  cases step_moves hs with
  | @call i c hf hi =>
    rcases call_signals s i c with h | ⟨force, rfl⟩
    · exact .inl h
    · exact .inr (.inl ⟨i, force, rfl, hi, rfl⟩)
  | resume hf hs =>
    rcases resume_signals hs with h | ⟨i, force, group, rfl, h⟩
    · exact .inl h
    · exact .inr (.inr ⟨i, force, group, hf, h⟩)
  | @waitReturn i w t c hw hp hi h =>
    have hsig : t.signals = s.signals := waitFor_signals h
    exact .inl hsig
  | _ => exact .inl rfl

/-! ## `interrupt` -/

/-- What the handle and its wait work say of the kernel. -/
theorem Good.reaped_iff {h : MemberHolder} {c : Child} (hg : Good h c) :
    c.reaped = false ↔ h.exitCode = none ∧ ∀ w, h.work .wait = some w → w.phase.late = false := by
  constructor
  · intro hr
    cases he : h.exitCode with
    | some v =>
      rw [(hg.code he).1] at hr
      cases hr
    | none =>
      refine ⟨rfl, fun w hw => Bool.eq_false_iff.mpr ?_⟩
      intro hl
      rw [(hg.late hw hl).2.1] at hr
      cases hr
  · intro hx
    obtain ⟨he, hlate⟩ := hx
    cases hw : h.work .wait with
    | none => exact hg.unreaped he hw
    | some w => exact (hg.early hw (hlate w hw)).2

/-- An interrupt is called before the result of the handle's wait is anywhere. -/
def InterruptOk (s : State) (ev : Event) : Prop :=
  ∀ i force, ev = .call i (.interrupt force) →
    (s.handle i).exitCode = none ∧ ∀ w, (s.handle i).work .wait = some w → w.phase.late = false

/-- No interrupt was sent after its handle's child had been reaped. -/
def NoLateInterrupt (s : State) : Prop := ∀ sig ∈ s.signals, sig.sender = .interrupt → sig.late = false

theorem noLateInterrupt_step {cfg : Config} {s s' : State} {ev : Event} (h : Inv s) (hs : step cfg s ev = some s') :
    NoLateInterrupt s' ↔ NoLateInterrupt s ∧ InterruptOk s ev := by
  rcases step_signals hs with hsig | ⟨i, force, rfl, hi, rfl⟩ | ⟨i, force, group, hf, hsig⟩
  · rw [NoLateInterrupt, hsig]
    refine ⟨fun hq => ⟨hq, ?_⟩, And.left⟩
    intro i force hev
    subst hev
    -- a call of `interrupt` does send a signal
    cases step_moves hs with
    | call hf hi => exact absurd hsig (List.cons_ne_self _ _)
  · have hgood := (h.core.good i hi).reaped_iff
    simp only [NoLateInterrupt, State.interrupt, State.kill, List.forall_mem_cons, forall_const]
    rw [hgood, and_comm]
    refine and_congr_right fun _ => ⟨?_, fun hok => hok i force rfl⟩
    intro hok j f hj
    cases hj
    exact hok
  · simp only [NoLateInterrupt, hsig, State.kill, List.forall_mem_cons]
    refine ⟨fun hq => ⟨hq.2, ?_⟩, fun hq => ⟨fun hsender => (by cases hsender), hq.1⟩⟩
    -- no call runs inside another
    intro j f hev
    subst hev
    cases step_moves hs with
    | call hnone hj => rw [hf] at hnone; cases hnone

/-- Over any run, under any discipline of the pool: every interrupt is sent while its
    handle's child is unreaped exactly when each is called with `_exit_code` empty and no
    wait work whose `waitid` has returned. -/
theorem interrupt_late_iff (cfg : Config) (es : List Event) (s : State) (h : run cfg es = some s) :
    (∀ sig ∈ s.signals, sig.sender = .interrupt → sig.late = false) ↔
      Runs.Meets (step cfg) InterruptOk {} es := by
  have hiff := Runs.exec_meets_iff (Q := NoLateInterrupt) (fun _ _ _ => inv_step)
    (fun _ _ _ => noLateInterrupt_step) inv_init h
  rw [NoLateInterrupt] at hiff
  rw [hiff]
  exact and_iff_right fun sig hsig => by cases hsig

/-- A child interrupted while it runs, and once more as a zombie. -/
def zombieRun : List Event :=
  [.start { pid := 10 } [] 1, .call 0 (.interrupt false), .exit 0 (.killed 15), .call 0 (.interrupt true),
    .call 0 .collectWait, .resume true]

theorem interrupt_late_iff_zombie :
    ∃ s, run anyPool zombieRun = some s ∧ s.signals.length = 2 ∧
      Runs.Meets (step anyPool) InterruptOk {} zombieRun := by
  refine ⟨_, rfl, rfl, (interrupt_late_iff anyPool zombieRun _ rfl).mp ?_⟩
  intro sig hsig _
  rcases List.mem_cons.mp hsig with rfl | hsig
  · rfl
  · obtain rfl := List.mem_singleton.mp hsig
    rfl

/-- The corner test's order: the child is waited for, then killed; a stranger has its PID. -/
theorem kill_after_reap :
    ∃ s, run anyPool [.start { pid := 10 } [] 1, .exit 0 (.exited 0), .call 0 .collectWait, .resume true,
        .spawn 10 2, .call 0 (.interrupt true)] = some s ∧
      ∃ sig ∈ s.signals, sig.sender = .interrupt ∧ sig.late = true ∧ sig.recipient = some ⟨none, 2⟩ :=
  ⟨_, rfl, _, .head _, rfl, rfl, rfl⟩

/-! ## `interrupt_tree` -/

/-- The handle a call of `interrupt_tree` in progress is about. -/
def Frame.tree : Frame → Option Nat
  | .treeTime i _ => some i
  | .treeKill i _ _ => some i
  | _ => none

/-- The signal went to the process that has the handle's PID and recorded start time. -/
def Signal.own (sig : Signal) : Prop :=
  ∃ p, sig.recipient = some p ∧ (p.owner = some sig.handle ∨ (0 < sig.startTime ∧ p.birth = sig.startTime))

theorem Signal.not_own {sig : Signal} {p : Proc} (hr : sig.recipient = some p) (ho : p.owner ≠ some sig.handle)
    (hb : p.birth ≠ sig.startTime) : ¬ sig.own := by
  intro hx
  obtain ⟨q, hq, h⟩ := hx
  obtain rfl := Option.some.inj (hr.symm.trans hq)
  rcases h with h | h
  · exact ho h
  · exact hb h.2

/-- A living child that has the PID when `interrupt_tree` is called is the handle's own,
    or has the start time recorded for it; and no worker reaps the PID while the call is
    in progress. -/
def TreeOk (s : State) : Event → Prop
  | .call i (.interruptTree _) =>
    ∀ j b, s.procs (s.pid i) = some ⟨some j, b⟩ → (s.child j).exit = none →
      j = i ∨ (0 < (s.handle i).info.startTime ∧ b = (s.handle i).info.startTime)
  | .waitReturn j => ∀ f i, s.frame = some f → f.tree = some i → s.pid j ≠ s.pid i
  | _ => True

/-- An unreaped child holds the PID of the handle, and is the right one. -/
def Held (s : State) (i : Nat) : Prop :=
  ∃ j < s.n, (s.child j).reaped = false ∧ s.pid j = s.pid i ∧
    (j = i ∨ (0 < (s.handle i).info.startTime ∧ (s.child j).birth = (s.handle i).info.startTime))

/-- A step of a worker, a child or a stranger. -/
def Event.outside : Event → Bool
  | .start .. | .call .. | .resume _ => false
  | _ => true

/-- What such a step leaves alone: of the processes it can only reap one, and that is a
    worker's `waitid`. -/
structure Beside (ev : Event) (s s' : State) : Prop where
  frame : s'.frame = s.frame
  n : s'.n = s.n
  info : ∀ j, (s'.handle j).info = (s.handle j).info
  birth : ∀ j, (s'.child j).birth = (s.child j).birth
  reaped : ∀ j, (s.child j).reaped = false → (s'.child j).reaped = true → ev = .waitReturn j

namespace Beside

variable {ev : Event} {s s' : State}

theorem of_eq (hf : s'.frame = s.frame) (hn : s'.n = s.n) (hh : s'.handle = s.handle) (hc : s'.child = s.child) :
    Beside ev s s' := by
  refine ⟨hf, hn, fun j => by rw [hh], fun j => by rw [hc], ?_⟩
  intro j hr hr'
  rw [hc, hr] at hr'
  cases hr'

theorem setWork (h : Beside ev s s') (i : Nat) (k : Kind) (w : Option AsyncWork) : Beside ev s (s'.setWork i k w) := by
  refine ⟨h.frame, h.n, ?_, h.birth, h.reaped⟩
  intro j
  rw [setWork_info]
  exact h.info j

theorem setChild {i : Nat} {c : Child} (hb : c.birth = (s.child i).birth)
    (hr : (s.child i).reaped = false → c.reaped = true → ev = .waitReturn i) : Beside ev s (s.setChild i c) := by
  refine ⟨rfl, rfl, fun _ => rfl, setChild_same Child.birth hb, ?_⟩
  intro j h h'
  rw [setChild_child] at h'
  split at h'
  · rename_i hj
    subst hj
    exact hr h h'
  · rw [h] at h'
    cases h'

end Beside

theorem step_beside {cfg : Config} {s s' : State} {ev : Event} (h : Inv s) (hev : ev.outside = true)
    (hs : step cfg s ev = some s') : Beside ev s s' := by
  cases step_moves hs with
  | start hf hfree => cases hev
  | call hf hi => cases hev
  | resume hf hs => cases hev
  | workStart hw hp => exact (Beside.of_eq rfl rfl rfl rfl).setWork _ _ _
  | @waitReturn i w t c hw hp hi hwait =>
    obtain ⟨-, -, st, -, rfl, -⟩ := h.core.waitReturn hi hw hp hwait
    have hset : Beside (.waitReturn i) s (s.setChild i { s.child i with reaped := true }) :=
      Beside.setChild rfl fun _ _ => rfl
    have hreap : Beside (.waitReturn i) s (s.reap i) :=
      ⟨hset.frame, hset.n, hset.info, hset.birth, hset.reaped⟩
    exact hreap.setWork _ _ _
  | read => exact Beside.setChild rfl fun h h' => by rw [h] at h'; cases h'
  | eof hx hw hp => exact (Beside.of_eq rfl rfl rfl rfl).setWork _ _ _
  | @post j w hw hp =>
    have hset : Beside (.post j) s (s.setWork j.handle j.kind (some ⟨.posted, w.exitCode⟩)) :=
      (Beside.of_eq rfl rfl rfl rfl).setWork _ _ _
    exact ⟨hset.frame, hset.n, hset.info, hset.birth, hset.reaped⟩
  | write hr hb hx hle => exact Beside.setChild hb fun h h' => by rw [hr, h] at h'; cases h'
  | exit hx => exact Beside.setChild rfl fun h h' => by rw [h] at h'; cases h'
  | spawn hfree => exact Beside.of_eq rfl rfl rfl rfl
  | vanish hp => exact Beside.of_eq rfl rfl rfl rfl

/-- What happens outside the loop thread brings no child back. -/
theorem outside_exit {cfg : Config} {s s' : State} {e : Event} (h : Inv s) (he : e.outside = true)
    (hs : step cfg s e = some s') {i : Nat} {st : Status} (hx : (s.child i).exit = some st) :
    (s'.child i).exit = some st := by
  have hset : ∀ j c, (∀ st, (s.child j).exit = some st → c.exit = some st) → ((s.setChild j c).child i).exit = some st := by
    intro j c hc
    by_cases hij : i = j
    · subst hij
      simpa [State.setChild] using hc st hx
    · simpa [State.setChild, Function.update_of_ne hij] using hx
  cases step_moves hs with
  | start | call | resume => cases he
  | workStart | eof | post | spawn | vanish => exact hx
  | read => exact hset _ _ fun _ => id
  | write _ _ hsame => exact hset _ _ fun st hst => hsame.trans hst
  | exit hnone =>
    refine hset _ _ ?_
    intro st hst
    rw [hnone] at hst
    cases hst
  | waitReturn hw hp hj hwait =>
    obtain ⟨-, -, st', -, rfl, -⟩ := h.core.waitReturn hj hw hp hwait
    exact hset _ _ fun _ => id

theorem Beside.held {ev : Event} {s s' : State} {i : Nat} (h : Beside ev s s') (hheld : Held s i)
    (hno : ∀ j, ev = .waitReturn j → s.pid j ≠ s.pid i) : Held s' i := by
  obtain ⟨j, hj, hr, hp, hown⟩ := hheld
  refine ⟨j, by rwa [h.n], Bool.eq_false_iff.mpr fun hr' => hno j (h.reaped j hr hr') hp, ?_, ?_⟩
  · simpa only [State.pid, h.info] using hp
  · rwa [h.info, h.birth]

theorem Held.congr {s s' : State} {i : Nat} (h : Held s i) (hn : s'.n = s.n) (hh : s'.handle = s.handle)
    (hc : s'.child = s.child) : Held s' i := by
  obtain ⟨j, hj, hr, hp, hown⟩ := h
  refine ⟨j, by rwa [hn], by rwa [hc], ?_, by rwa [hh, hc]⟩
  simpa only [State.pid, hh] using hp

/-! ## Where a call of `interrupt_tree` is -/

namespace State

variable (s : State) (i : Nat)

theorem collectWait_tree {f : Frame} (h : (s.collectWait i).frame = some f) : f.tree = none := by
  unfold collectWait at h
  split at h
  · cases h
  · split at h <;> cases h <;> rfl

theorem endErr_tree {f : Frame} (h : (s.endErr i).frame = some f) : f.tree = none := by
  unfold endErr at h
  split at h
  · cases h
    rfl
  · exact s.collectWait_tree i h

theorem endCommunicate_tree {f : Frame} (h : (s.endCommunicate i).frame = some f) : f.tree = none := by
  unfold endCommunicate at h
  split at h
  · cases h
    rfl
  · exact s.endErr_tree i h

theorem interruptTree_same (force : Bool) : (s.interruptTree i force).n = s.n ∧
    (s.interruptTree i force).handle = s.handle ∧ (s.interruptTree i force).child = s.child := by
  unfold interruptTree
  split
  · exact ⟨rfl, rfl, rfl⟩
  · split <;> exact ⟨rfl, rfl, rfl⟩

/-- `interrupt_tree` goes on only if a living child of this program has the PID. -/
theorem interruptTree_frame {force : Bool} (hf : s.frame = none) {f : Frame}
    (h : (s.interruptTree i force).frame = some f) :
    f.tree = some i ∧ ∃ j b, s.procs (s.pid i) = some ⟨some j, b⟩ ∧ (s.child j).exit = none := by
  unfold interruptTree at h
  split at h
  · rw [hf] at h
    cases h
  · rename_i hx
    refine ⟨by split at h <;> cases h <;> rfl, ?_⟩
    unfold processExited waitid at hx
    split at hx
    · rename_i heq
      split at heq
      · rename_i j b hp
        split at heq
        · cases heq
        · exact ⟨j, b, hp, ‹_›⟩
      · cases heq
    · exact absurd rfl hx

end State

theorem call_tree {s : State} {i k : Nat} (hf : s.frame = none) {c : Call} {f : Frame}
    (h : (c.run s i).frame = some f) (hk : f.tree = some k) :
    k = i ∧ (∃ force, c = .interruptTree force) ∧
      ∃ j b, s.procs (s.pid i) = some ⟨some j, b⟩ ∧ (s.child j).exit = none := by
  have hidle : ∀ {t : State}, t.frame = s.frame → t.frame ≠ some f := fun ht h' => by
    rw [ht, hf] at h'
    cases h'
  have hnone : f.tree ≠ none := by simp [hk]
  cases c with
  | interruptTree force =>
    obtain ⟨ht, hp⟩ := s.interruptTree_frame i hf h
    rw [hk] at ht
    exact ⟨Option.some.inj ht, ⟨force, rfl⟩, hp⟩
  | beginWait queued => exact absurd h (hidle (beginWait_frame s i queued).1)
  | pollWait => exact absurd h (hidle (checkExited_frame s i))
  | hasExited => exact absurd h (hidle (checkExited_frame s i))
  | collectWait => exact absurd (s.collectWait_tree i h) hnone
  | beginCommunicate queued => exact absurd h (hidle (beginCommunicate_frame s i queued).1)
  | pollCommunicate => exact absurd h (hidle rfl)
  | endCommunicate => exact absurd (s.endCommunicate_tree i h) hnone
  | communicate queued => exact absurd (State.endCommunicate_tree _ i h) hnone
  | interrupt force => exact absurd h (hidle rfl)

theorem resume_tree {s s' : State} {f g : Frame} {k : Nat} (hf : s.frame = some f) (hs : Resumes s f s')
    (hg : s'.frame = some g) (hk : g.tree = some k) :
    f.tree = some k ∧ s'.n = s.n ∧ s'.handle = s.handle ∧ s'.child = s.child := by
  have hnone : g.tree ≠ none := by simp [hk]
  cases hs with
  | turn hw ht hkill =>
    cases hf.symm.trans hg
    -- the loops are not those of `interrupt_tree`
    cases f with
    | treeTime i force => exact absurd rfl (ht i force)
    | treeKill i force group => exact absurd rfl (hkill i force group)
    | _ => cases hk
  | taken hw hdone =>
    split at hg
    · exact absurd (State.endErr_tree _ _ hg) hnone
    · exact absurd (State.collectWait_tree _ _ hg) hnone
  | collected hw hdone => cases hg
  | waited h => cases hg
  | timed =>
    cases hg
    exact ⟨hk, rfl, rfl, rfl⟩
  | killed => cases hg
  | spared => cases hg

/-! ## Who is hit -/

structure TreeInv (s : State) : Prop where
  inv : Inv s
  held : ∀ f i, s.frame = some f → f.tree = some i → Held s i
  own : ∀ sig ∈ s.signals, sig.sender = .interruptTree → sig.own

/-- While it is held the PID belongs to a process the handle can take for its own. -/
theorem Held.own {s : State} {i : Nat} (h : Inv s) (hheld : Held s i) (force group late : Bool) :
    Signal.own ⟨.interruptTree, i, (s.handle i).info.startTime, force, group, s.procs (s.pid i), late⟩ := by
  obtain ⟨j, hj, hr, hp, hown⟩ := hheld
  refine ⟨_, by rw [← hp]; exact h.core.owns.alive j hj hr, ?_⟩
  rcases hown with rfl | ⟨h0, hb⟩
  · exact .inl rfl
  · exact .inr ⟨h0, hb⟩

theorem treeHeld_step {cfg : Config} {s s' : State} {ev : Event} (h : TreeInv s) (hok : TreeOk s ev)
    (hs : step cfg s ev = some s') {g : Frame} {k : Nat} (hg : s'.frame = some g) (hk : g.tree = some k) :
    Held s' k := by
  cases hev : ev.outside with
  | true =>
    have hb := step_beside h.inv hev hs
    rw [hb.frame] at hg
    refine hb.held (h.held g k hg hk) ?_
    intro j heq
    subst heq
    exact hok g k hg hk
  | false =>
    cases step_moves hs with
    | start hf hfree => cases hf.symm.trans hg
    | @call i c hf hi =>
      obtain ⟨rfl, ⟨force, rfl⟩, j, b, hp, hx⟩ := call_tree hf hg hk
      obtain ⟨hj, hjp, hr, rfl⟩ := h.inv.core.owns.owner _ j b hp
      obtain ⟨hn, hh, hc⟩ := s.interruptTree_same k force
      exact Held.congr ⟨j, hj, hr, hjp, hok j _ hp hx⟩ hn hh hc
    | @resume readable f s' hf hs =>
      obtain ⟨hft, hn, hh, hc⟩ := resume_tree hf hs hg hk
      exact (h.held f k hf hft).congr hn hh hc
    | _ => cases hev

theorem treeInv_step {cfg : Config} {s s' : State} {ev : Event} (h : TreeInv s) (hok : TreeOk s ev)
    (hs : step cfg s ev = some s') : TreeInv s' := by
  refine ⟨inv_step h.inv hs, fun g k hg hk => treeHeld_step h hok hs hg hk, fun sig hsig hsender => ?_⟩
  · rcases step_signals hs with heq | ⟨i, force, -, -, rfl⟩ | ⟨i, force, group, hf, heq⟩
    · rw [heq] at hsig
      exact h.own sig hsig hsender
    · rcases List.mem_cons.mp hsig with rfl | hsig
      · cases hsender
      · exact h.own sig hsig hsender
    · rw [heq] at hsig
      rcases List.mem_cons.mp hsig with rfl | hsig
      · exact (h.held _ i hf rfl).own h.inv force group _
      · exact h.own sig hsig hsender

theorem treeInv_init : TreeInv {} :=
  ⟨inv_init, fun f i hf => (by cases hf), fun sig hsig => by cases hsig⟩

/-- Over any run in which the children that `interrupt_tree` finds are the handle's own, or
    have its recorded start time, and no worker reaps the PID in the middle of a call: each
    of its signals goes to the process with the handle's PID and recorded start time. -/
theorem tree_own (cfg : Config) (es : List Event) (s : State) (h : run cfg es = some s)
    (hok : Runs.Meets (step cfg) TreeOk {} es) : ∀ sig ∈ s.signals, sig.sender = .interruptTree → sig.own :=
  (Runs.exec_meets (fun _ _ _ => treeInv_step) treeInv_init hok h).own

/-- Two children, one of them killed with its group, though it is a zombie by then. -/
def treeRun : List Event :=
  [.start { pid := 10, startTime := 1 } [] 1, .start { pid := 11, startTime := 2 } [] 2,
    .call 1 (.interruptTree true), .exit 1 (.exited 3), .resume true, .resume true]

theorem tree_own_zombie :
    ∃ s, run anyPool treeRun = some s ∧ s.signals.map (·.group) = [true] ∧
      ∀ sig ∈ s.signals, sig.sender = .interruptTree → sig.own := by
  refine ⟨_, rfl, rfl, tree_own anyPool treeRun _ rfl ?_⟩
  refine (Runs.meets_cons rfl).mpr ⟨trivial, (Runs.meets_cons rfl).mpr ⟨trivial, (Runs.meets_cons rfl).mpr ⟨?_, ?_⟩⟩⟩
  · intro j b hp _
    cases hp
    exact .inl rfl
  · refine (Runs.meets_cons rfl).mpr ⟨trivial, (Runs.meets_cons rfl).mpr ⟨trivial, ?_⟩⟩
    exact (Runs.meets_cons rfl).mpr ⟨trivial, trivial⟩

/-- Waited for and reaped, the first child's PID is given to the second, with another start
    time. The check of the first handle finds a living child, the start times differ, and
    the second child is killed. Nothing was submitted to the pool. -/
theorem tree_hits_later_child :
    ∃ s, run anyPool [.start { pid := 10, startTime := 1 } [] 1, .exit 0 (.exited 0), .call 0 .collectWait,
        .resume true, .start { pid := 10, startTime := 2 } [] 2, .call 0 (.interruptTree true), .resume true,
        .resume true] = some s ∧
      ∃ sig ∈ s.signals, sig.sender = .interruptTree ∧ sig.handle = 0 ∧ sig.recipient = some ⟨some 1, 2⟩ ∧
        ¬ sig.own :=
  ⟨_, rfl, _, .head _, rfl, rfl, rfl, Signal.not_own rfl (by decide : some 1 ≠ some 0) (by decide : 2 ≠ 1)⟩

end CovProcess.Handle
