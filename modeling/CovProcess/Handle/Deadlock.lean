/-
  CovProcess.Handle.Deadlock — waits and pipe readers of all handles on libuv's four
  threads (see `CovProcess.Handle.Model`; the queue is `CovProcess.Lib.FifoPool`).

  A wait holds its thread until its child exits, a child does not exit while it has more
  to write than its pipes take, and a reader that would make room needs a thread too. So
  `begin_communicate` is not free of deadlocks: `stuck_communicate`, two waits on children
  nobody reads from, and a third child that writes more than a pipe takes to stderr.

  Proved: `never_stuck`, if after each submission the queue drains in some order (`drains`),
  then no state of the run is stuck, whatever the threads, the children and the calls do.
  A step only brings jobs forward, ends children and fills or empties pipes (`Quiet`,
  `Pooled`), so what drained still does; and a queue that drains has a step to take.
-/

import CovProcess.Handle.ExitCode
import CovProcess.Lib.FifoPool

namespace CovProcess.Handle

open CovProcess.Stream (StreamName fdOf closeStdin)

/-! ## The pool -/

def UV_THREADPOOL_SIZE : Nat := 4

/-- The first jobs of the queue have the threads; a thread gets to its job when it does. -/
def uvPool (cap : Nat) (hcap : 0 < cap) : Config :=
  ⟨cap, hcap, fun s j => decide (j ∈ s.pool.take UV_THREADPOOL_SIZE)⟩

def Phase.held : Phase → Bool
  | .queued | .running | .returned => true
  | .posted | .done => false

def Event.ofPool : Event → Bool
  | .workStart _ | .waitReturn _ | .read .. | .eof .. | .post _ => true
  | _ => false

namespace State

def workHeld (s : State) (i : Nat) (k : Kind) : Bool := ((s.handle i).work k).any fun w => w.phase.held

def workLate (s : State) (i : Nat) (k : Kind) : Bool := ((s.handle i).work k).any fun w => w.phase.late

/-- The child has more for the stream than its pipe takes. -/
def overflows (s : State) (cap : Nat) (i : Nat) (x : StreamName) : Prop :=
  fdOf (s.handle i).info x ≠ FD_INVALID ∧ cap < (s.child i).buf x + (s.child i).prog.count x

/-- A reader its child cannot do without. -/
def needs (s : State) (cap : Nat) (j : Job) : Prop :=
  match j.kind with
  | .wait => False
  | .read x => s.overflows cap j.handle x

/-- In some order all jobs of handles with a begun `communicate` get done. -/
def drains (s : State) (cap : Nat) : Prop :=
  FifoPool.Drains UV_THREADPOOL_SIZE Job.handle (s.needs cap) (fun j => (s.handle j.handle).begun = true)
    {i | (s.child i).exit ≠ none} s.pool

end State

/-- A begun `communicate` has a work that is not done, though no thread, no child and no
    callback can go on. -/
structure Stuck (cfg : Config) (s : State) : Prop where
  unfinished : ∃ i < s.n, (s.handle i).begun = true ∧ ∃ k w, (s.handle i).work k = some w ∧ w.phase ≠ .done
  threads : ∀ ev : Event, ev.ofPool = true → step cfg s ev = none
  writes : ∀ i, step cfg s (.write i) = none
  exits : ∀ i st, (s.child i).prog = [] → step cfg s (.exit i st) = none
  callbacks : ∀ i k w, (s.handle i).work k = some w → w.phase ≠ .posted

/-! ## Who is in the queue -/

/-- The queue holds each job from its submission until its result is posted. -/
structure Pooled (s : State) : Prop where
  nodup : s.pool.Nodup
  bound : ∀ j ∈ s.pool, j.handle < s.n
  held : ∀ i k, s.workHeld i k = true ↔ ⟨i, k⟩ ∈ s.pool
  ended : ∀ i k, s.workLate i k = true → (s.child i).exit ≠ none

/-- A step that submits nothing, ends no child and moves nothing through a pipe. -/
structure Quiet (s s' : State) : Prop where
  pool : s'.pool = s.pool
  n : s'.n = s.n
  info : ∀ i, (s'.handle i).info = (s.handle i).info
  begun : ∀ i, (s'.handle i).begun = (s.handle i).begun
  prog : ∀ i, (s'.child i).prog = (s.child i).prog
  buf : ∀ i, (s'.child i).buf = (s.child i).buf
  exit : ∀ i, (s'.child i).exit = (s.child i).exit
  held : ∀ i k, s'.workHeld i k = s.workHeld i k
  late : ∀ i k, s'.workLate i k = true → s.workLate i k = true ∨ (s.child i).exit ≠ none

namespace Quiet

variable {s t u : State}

theorem refl (s : State) : Quiet s s :=
  ⟨rfl, rfl, fun _ => rfl, fun _ => rfl, fun _ => rfl, fun _ => rfl, fun _ => rfl, fun _ _ => rfl, fun _ _ => .inl⟩

theorem trans (h : Quiet s t) (h' : Quiet t u) : Quiet s u := by
  refine ⟨h'.pool.trans h.pool, h'.n.trans h.n, fun i => (h'.info i).trans (h.info i),
    fun i => (h'.begun i).trans (h.begun i), fun i => (h'.prog i).trans (h.prog i),
    fun i => (h'.buf i).trans (h.buf i), fun i => (h'.exit i).trans (h.exit i),
    fun i k => (h'.held i k).trans (h.held i k), ?_⟩
  intro i k hl
  rcases h'.late i k hl with hl | hx
  · exact h.late i k hl
  · exact .inr (by rwa [h.exit] at hx)

theorem aside (h : Quiet s t) (procs : Int → Option Proc) (frame : Option Frame) (log : List Report)
    (signals : List Signal) :
    Quiet s { t with procs := procs, frame := frame, log := log, signals := signals } :=
  ⟨h.pool, h.n, h.info, h.begun, h.prog, h.buf, h.exit, h.held, h.late⟩

theorem setHandle (s : State) {i : Nat} {h' : MemberHolder} (hinfo : h'.info = (s.handle i).info)
    (hbegun : h'.begun = (s.handle i).begun)
    (hheld : ∀ k, (h'.work k).any (fun w => w.phase.held) = s.workHeld i k)
    (hlate : ∀ k, (h'.work k).any (fun w => w.phase.late) = true → s.workLate i k = true ∨ (s.child i).exit ≠ none) :
    Quiet s (s.setHandle i h') := by
  have hsame : ∀ j k, (s.setHandle i h').workHeld j k = s.workHeld j k := fun j k =>
    setHandle_same (fun h => (h.work k).any fun w : AsyncWork => w.phase.held) (hheld k) j
  refine ⟨rfl, rfl, setHandle_same MemberHolder.info hinfo, setHandle_same MemberHolder.begun hbegun, fun _ => rfl,
    fun _ => rfl, fun _ => rfl, hsame, ?_⟩
  intro j k hl
  rw [State.workLate, setHandle_handle] at hl
  split at hl
  · rename_i hj
    subst hj
    exact hlate k hl
  · exact .inl hl

/-- What only the loop thread reads of a handle. -/
theorem result (s : State) (i : Nat) (exitCode : Option Int) (observedExited : Bool) :
    Quiet s (s.setHandle i { s.handle i with exitCode := exitCode, observedExited := observedExited }) :=
  setHandle s rfl rfl (fun _ => rfl) fun _ => .inl

theorem setWork (s : State) {i : Nat} {k : Kind} {w : Option AsyncWork} {h' : MemberHolder}
    (hinfo : h'.info = (s.handle i).info) (hbegun : h'.begun = (s.handle i).begun)
    (hwork : h'.work = Function.update (s.handle i).work k w)
    (hheld : w.any (fun w => w.phase.held) = s.workHeld i k)
    (hlate : w.any (fun w => w.phase.late) = true → s.workLate i k = true ∨ (s.child i).exit ≠ none) :
    Quiet s (s.setHandle i h') := by
  refine setHandle s hinfo hbegun (fun k' => ?_) fun k' => ?_ <;> rw [hwork]
  · by_cases hk : k' = k
    · subst hk
      simpa using hheld
    · simp [State.workHeld, Function.update_of_ne hk]
  · by_cases hk : k' = k
    · subst hk
      simpa using hlate
    · exact fun hl => .inl (by simpa [State.workLate, Function.update_of_ne hk] using hl)

theorem takeWork (s : State) {i : Nat} {k : Kind} {w : AsyncWork} (hw : (s.handle i).work k = some w)
    (hdone : w.phase = .done) : Quiet s (s.setWork i k none) :=
  setWork s rfl rfl rfl (by simp [State.workHeld, hw, hdone, Phase.held]) (by simp)

theorem afterWork_held (w : AsyncWork) : w.afterWork.phase.held = w.phase.held := by
  unfold AsyncWork.afterWork
  split
  · rename_i h
    rw [h]
    rfl
  · rfl

theorem uvRun (s : State) : Quiet s s.uvRun := by
  refine ⟨rfl, rfl, fun _ => rfl, fun _ => rfl, fun _ => rfl, fun _ => rfl, fun _ => rfl, ?_,
    fun i k hl => .inl ?_⟩
  · intro i k
    simp [State.uvRun, State.workHeld, Option.any_map, afterWork_held]
  · simpa [State.uvRun, State.workLate, Option.any_map, Function.comp_def, Core.afterWork_late] using hl

theorem reap (s : State) (i : Nat) : Quiet s (s.reap i) := by
  exact ⟨rfl, rfl, fun _ => rfl, fun _ => rfl, setChild_same Child.prog rfl, setChild_same Child.buf rfl,
    setChild_same Child.exit rfl, fun _ _ => rfl, fun _ _ => .inl⟩

theorem waitFor {s s' : State} {pid c : Int} (h : s.waitFor pid = some (s', c)) : Quiet s s' := by
  unfold State.waitFor at h
  split at h
  · cases h
    exact .refl s
  · cases h
  · cases h
    exact reap s _

theorem collectWork (s : State) {i : Nat} {w : AsyncWork} (hw : (s.handle i).work .wait = some w)
    (hdone : w.phase = .done) : Quiet s (s.collectWork i w) :=
  setWork s rfl rfl rfl (by simp [State.workHeld, hw, hdone, Phase.held]) (by simp)

/-! ### The calls -/

theorem checkExited (s : State) (i : Nat) : Quiet s (s.checkExited i).1 := by
  unfold State.checkExited
  split
  · exact .refl s
  · split
    · split
      · exact result s i (s.handle i).exitCode true
      · exact .refl s
    · split
      · rename_i w hw
        split
        · exact (uvRun s).trans (collectWork _ hw ‹_›)
        · exact uvRun s
      · exact uvRun s

theorem collectWait (s : State) (i : Nat) : Quiet s (s.collectWait i) := by
  unfold State.collectWait
  split
  · exact (refl s).aside _ _ _ _
  · split <;> exact (refl s).aside _ _ _ _

theorem endErr (s : State) (i : Nat) : Quiet s (s.endErr i) := by
  unfold State.endErr
  split
  · exact (refl s).aside _ _ _ _
  · exact collectWait s i

theorem endCommunicate (s : State) (i : Nat) : Quiet s (s.endCommunicate i) := by
  unfold State.endCommunicate
  split
  · exact (refl s).aside _ _ _ _
  · exact endErr s i

theorem interruptTree (s : State) (i : Nat) (force : Bool) : Quiet s (s.interruptTree i force) := by
  unfold State.interruptTree
  split
  · exact refl s
  · split <;> exact (refl s).aside _ _ _ _

theorem resume {s s' : State} {f : Frame} (hs : Resumes s f s') : Quiet s s' := by
  cases hs with
  | turn hw ht hk => exact uvRun s
  | taken hw hdone =>
    refine (takeWork s hw hdone).trans ?_
    split
    · exact endErr _ _
    · exact collectWait _ _
  | collected hw hdone => exact (collectWork s hw hdone).aside _ _ _ _
  | @waited i t c h => exact ((waitFor h).trans (result t i (some c) (t.handle i).observedExited)).aside _ _ _ _
  | timed => exact (refl s).aside _ _ _ _
  | killed => exact (refl s).aside _ _ _ _
  | spared => exact (refl s).aside _ _ _ _

end Quiet

def Call.submits : Call → Bool
  | .beginWait _ | .beginCommunicate _ | .communicate _ => true
  | _ => false

theorem call_quiet (s : State) (i : Nat) {c : Call} (hc : c.submits = false) : Quiet s (c.run s i) := by
  cases c with
  | beginWait queued => cases hc
  | beginCommunicate queued => cases hc
  | communicate queued => cases hc
  | pollWait => exact (Quiet.checkExited s i).aside _ _ _ _
  | hasExited => exact (Quiet.checkExited s i).aside _ _ _ _
  | collectWait => exact .collectWait s i
  | pollCommunicate => exact .uvRun s
  | endCommunicate => exact .endCommunicate s i
  | interrupt force => exact (Quiet.refl s).aside _ _ _ _
  | interruptTree force => exact .interruptTree s i force

/-! ## The queue over a run -/

namespace Pooled

variable {s s' : State}

theorem quiet (h : Pooled s) (q : Quiet s s') : Pooled s' := by
  refine ⟨by rw [q.pool]; exact h.nodup, by rw [q.pool, q.n]; exact h.bound,
    fun i k => by rw [q.held, q.pool]; exact h.held i k, ?_⟩
  intro i k hl
  rw [q.exit]
  rcases q.late i k hl with hl | hx
  · exact h.ended i k hl
  · exact hx

theorem submit (h : Pooled s) {i : Nat} (hi : i < s.n) {k : Kind} (hfree : (s.handle i).work k = none) :
    Pooled (s.submit i k) := by
  have hnew : (⟨i, k⟩ : Job) ∉ s.pool := fun hm => by
    have := (h.held i k).mpr hm
    simp [State.workHeld, hfree] at this
  have hwork : ∀ j k', ((s.submit i k).handle j).work k' =
      if j = i ∧ k' = k then some ⟨.queued, 0⟩ else (s.handle j).work k' := setWork_work s i k _
  refine ⟨?_, ?_, ?_, ?_⟩
  · refine List.nodup_append.mpr ⟨h.nodup, List.nodup_singleton _, ?_⟩
    intro a ha b hb hab
    rw [hab, List.mem_singleton.mp hb] at ha
    exact hnew ha
  · intro j hj
    rcases List.mem_append.mp hj with hj | hj
    · exact h.bound j hj
    · rw [List.mem_singleton.mp hj]
      exact hi
  · intro j k'
    simp only [State.workHeld, hwork]
    by_cases hjk : j = i ∧ k' = k
    · obtain ⟨rfl, rfl⟩ := hjk
      simp [Phase.held, State.submit]
    · have := h.held j k'
      rw [if_neg hjk]
      simp only [State.submit, List.mem_append, List.mem_singleton, Job.mk.injEq, hjk, or_false]
      exact this
  · intro j k'
    simp only [State.workLate, hwork]
    by_cases hjk : j = i ∧ k' = k
    · simp [hjk, Phase.late]
    · rw [if_neg hjk]
      exact h.ended j k'

theorem beginWait (h : Pooled s) {i : Nat} (hi : i < s.n) (queued : Bool) : Pooled (s.beginWait i queued) := by
  rcases beginWait_eq s i queued with heq | ⟨-, hw, heq⟩
  · rwa [heq]
  · rw [heq]
    exact h.submit hi hw

theorem beginRead (h : Pooled s) {i : Nat} (hi : i < s.n) (x : StreamName) (queued : Bool) :
    Pooled (s.beginRead i x queued) := by
  rcases beginRead_eq s i x queued with heq | ⟨hw, heq⟩
  · rwa [heq]
  · rw [heq]
    exact h.submit hi hw

theorem beginCommunicate (h : Pooled s) {i : Nat} (hi : i < s.n) (queued : Kind → Bool) :
    Pooled (s.beginCommunicate i queued) := by
  have hbegun : Pooled (s.setHandle i { s.handle i with info := closeStdin (s.handle i).info, begun := true }) := by
    have hwork : ∀ j, ((s.setHandle i
        { s.handle i with info := closeStdin (s.handle i).info, begun := true }).handle j).work = (s.handle j).work :=
      setHandle_same MemberHolder.work rfl
    exact ⟨h.nodup, h.bound, fun j k => by rw [State.workHeld, hwork]; exact h.held j k,
      fun j k => by rw [State.workLate, hwork]; exact h.ended j k⟩
  have hwait := hbegun.beginWait hi (queued .wait)
  have hout := hwait.beginRead (by rwa [(beginWait_frame _ i _).2]) .stdout (queued (.read .stdout))
  exact hout.beginRead (by rwa [(beginRead_frame _ i _ _).2, (beginWait_frame _ i _).2]) .stderr _

theorem call (h : Pooled s) {i : Nat} (hi : i < s.n) (c : Call) : Pooled (c.run s i) := by
  cases hc : c.submits with
  | false => exact h.quiet (call_quiet s i hc)
  | true =>
    cases c with
    | beginWait queued => exact h.beginWait hi queued
    | beginCommunicate queued => exact h.beginCommunicate hi queued
    | communicate queued => exact (h.beginCommunicate hi queued).quiet (.endCommunicate _ i)
    | _ => cases hc

theorem setChild_exited {i : Nat} {c : Child} (hx : (s.child i).exit ≠ none → c.exit ≠ none) (j : Nat)
    (h : (s.child j).exit ≠ none) : ((s.setChild i c).child j).exit ≠ none := by
  rw [setChild_child]
  split
  · rename_i hj
    subst hj
    exact hx h
  · exact h

theorem setChild (h : Pooled s) {i : Nat} {c : Child} (hx : (s.child i).exit ≠ none → c.exit ≠ none) :
    Pooled (s.setChild i c) := by
  refine ⟨h.nodup, h.bound, h.held, ?_⟩
  intro j k hl
  exact setChild_exited hx j (h.ended j k hl)

end Pooled

/-- A queue that drains does so after any step that submits nothing. -/
theorem drains_mono {s s' : State} {cap : Nat} (h : s.drains cap) (hp : Pooled s) (hsub : s'.pool.Sublist s.pool)
    (hgone : ∀ j ∈ s.pool, j ∉ s'.pool → (s'.child j.handle).exit ≠ none)
    (hexit : ∀ i < s.n, (s.child i).exit ≠ none → (s'.child i).exit ≠ none)
    (hover : ∀ i < s.n, ∀ x, s'.overflows cap i x → s.overflows cap i x)
    (hbegun : ∀ i < s.n, (s'.handle i).begun = true → (s.handle i).begun = true) : s'.drains cap := by
  have hb : ∀ j ∈ s'.pool, j.handle < s.n := fun j hj => hp.bound j (hsub.subset hj)
  refine FifoPool.Drains.mono h hp.nodup hsub hgone (fun j hj => hexit _ (hb j hj)) (fun j hj k hk hn => ?_)
    fun j hj => hbegun _ (hb j hj)
  unfold State.needs at hn ⊢
  split
  · rename_i hkind
    rw [hkind] at hn
    exact hn
  · rename_i x hkind
    rw [hkind] at hn
    exact hover _ (hk ▸ hb j hj) x hn

theorem drains_quiet {s s' : State} {cap : Nat} (h : s.drains cap) (hp : Pooled s) (q : Quiet s s') :
    s'.drains cap := by
  refine drains_mono h hp (by rw [q.pool]) (fun j hj hj' => absurd (q.pool ▸ hj) hj') ?_ ?_
    fun i _ => ?_
  · intro i _
    rw [q.exit]
    exact id
  · intro i _ x
    rw [State.overflows, q.info, q.buf, q.prog]
    exact id
  · rw [q.begun]
    exact id

theorem drains_setChild {s : State} {cap : Nat} (h : s.drains cap) (hp : Pooled s) {i : Nat} {c : Child}
    (hx : (s.child i).exit ≠ none → c.exit ≠ none)
    (hle : ∀ x, c.buf x + c.prog.count x ≤ (s.child i).buf x + (s.child i).prog.count x) :
    (s.setChild i c).drains cap := by
  refine drains_mono h hp (List.Sublist.refl _) (fun j hj hj' => absurd hj hj') ?_ ?_
    fun _ _ => id
  · intro j _
    exact Pooled.setChild_exited hx j
  · intro j _ x
    by_cases hj : j = i
    · subst hj
      simp only [State.overflows, State.setChild, Function.update_self]
      exact fun hov => ⟨hov.1, hov.2.trans_le (hle x)⟩
    · simp [State.overflows, State.setChild, hj]

theorem Pooled.start {s : State} (h : Pooled s) (info : ProcessInfo) (prog : List StreamName) (birth : Nat) :
    Pooled (s.start info prog birth) := by
  refine ⟨h.nodup, fun j hj => Nat.lt_succ_of_lt (h.bound j hj), ?_, ?_⟩
  · intro i k
    by_cases hi : i = s.n
    · subst hi
      simp only [State.workHeld, State.start, Function.update_self, Option.any_none, Bool.false_eq_true, false_iff]
      exact fun hm => absurd (h.bound _ hm) (Nat.lt_irrefl _)
    · simp only [State.workHeld, State.start, Function.update_of_ne hi]
      exact h.held i k
  · intro i k
    by_cases hi : i = s.n
    · subst hi
      simp [State.workLate, State.start]
    · simp only [State.workLate, State.start, Function.update_of_ne hi]
      exact h.ended i k

theorem drains_start {s : State} {cap : Nat} (h : s.drains cap) (hp : Pooled s) (info : ProcessInfo)
    (prog : List StreamName) (birth : Nat) : (s.start info prog birth).drains cap := by
  refine drains_mono h hp (List.Sublist.refl _) (fun j hj hj' => absurd hj hj') (fun i hi => ?_) (fun i hi x => ?_)
    fun i hi => ?_
  all_goals
    have hne : i ≠ s.n := Nat.ne_of_lt hi
    simp [State.overflows, State.start, hne]

theorem Pooled.post {s : State} (h : Pooled s) {j : Job} {w : AsyncWork}
    (hw : (s.handle j.handle).work j.kind = some w) (hp : w.phase = .returned) (c : Int) :
    Pooled { s.setWork j.handle j.kind (some ⟨.posted, c⟩) with pool := s.pool.erase j } := by
  have hwork : ∀ i k, ((s.setWork j.handle j.kind (some ⟨.posted, c⟩)).handle i).work k =
      if (⟨i, k⟩ : Job) = j then some ⟨.posted, c⟩ else (s.handle i).work k := fun i k => by
    obtain ⟨i', k'⟩ := j
    rw [setWork_work]
    exact if_congr (by rw [Job.mk.injEq]) rfl rfl
  refine ⟨h.nodup.erase j, fun k hk => h.bound k (List.mem_of_mem_erase hk), ?_, ?_⟩
  · intro i k
    simp only [State.workHeld, hwork]
    by_cases hj : (⟨i, k⟩ : Job) = j
    · simp [hj, Phase.held, h.nodup.not_mem_erase]
    · rw [if_neg hj, List.mem_erase_of_ne hj]
      exact h.held i k
  · intro i k hl
    simp only [State.workLate, hwork] at hl
    by_cases hj : (⟨i, k⟩ : Job) = j
    · subst hj
      exact h.ended i k (by simp [State.workLate, hw, hp, Phase.late])
    · rw [if_neg hj] at hl
      exact h.ended i k hl

/-- After a submission the queue drains. -/
def SubmitOk (cap : Nat) (s : State) (ev : Event) : Prop :=
  ∀ i c, ev = .call i c → c.submits = true → (c.run s i).drains cap

structure PoolInv (cap : Nat) (s : State) : Prop where
  inv : Inv s
  pooled : Pooled s
  drains : s.drains cap

theorem PoolInv.quiet {s s' : State} {cap : Nat} (h : PoolInv cap s) (hi : Inv s') (q : Quiet s s') :
    PoolInv cap s' :=
  ⟨hi, h.pooled.quiet q, drains_quiet h.drains h.pooled q⟩

theorem PoolInv.setChild {s : State} {cap : Nat} (h : PoolInv cap s) {i : Nat} {c : Child}
    (hi : Inv (s.setChild i c)) (hx : (s.child i).exit ≠ none → c.exit ≠ none)
    (hle : ∀ x, c.buf x + c.prog.count x ≤ (s.child i).buf x + (s.child i).prog.count x) :
    PoolInv cap (s.setChild i c) :=
  ⟨hi, h.pooled.setChild hx, drains_setChild h.drains h.pooled hx hle⟩

theorem poolInv_step {cfg : Config} {s s' : State} {ev : Event} (h : PoolInv cfg.cap s) (hok : SubmitOk cfg.cap s ev)
    (hs : step cfg s ev = some s') : PoolInv cfg.cap s' := by
  have hinv := inv_step h.inv hs
  cases step_moves hs with
  | @start info prog birth hf hfree =>
    exact ⟨hinv, h.pooled.start info prog birth, drains_start h.drains h.pooled info prog birth⟩
  | @call i c hf hi =>
    refine ⟨hinv, h.pooled.call hi c, ?_⟩
    cases hc : c.submits with
    | true => exact hok i c rfl hc
    | false => exact drains_quiet h.drains h.pooled (call_quiet s i hc)
  | resume hf hs => exact h.quiet hinv (.resume hs)
  | workStart hw hp =>
    exact h.quiet hinv (.setWork s rfl rfl rfl (by simp [State.workHeld, hw, hp, Phase.held]) (by simp [Phase.late]))
  | @waitReturn i w t c hw hp hi hwait =>
    obtain ⟨-, -, st, hst, rfl, -⟩ := h.inv.core.waitReturn hi hw hp hwait
    refine h.quiet hinv ((Quiet.reap s i).trans (.setWork _ rfl rfl rfl ?_ fun _ => .inr ?_))
    · simp [State.workHeld, State.reap, State.setChild, hw, hp, Phase.held]
    · simp [State.reap, State.setChild, hst]
  | @read i x n =>
    refine h.setChild hinv id ?_
    intro y
    by_cases hy : y = x
    · subst hy
      simp
    · simp [hy]
  | eof hx hw hp =>
    exact h.quiet hinv (.setWork s rfl rfl rfl (by simp [State.workHeld, hw, hp, Phase.held]) fun _ => .inr hx)
  | @post j w hw hp =>
    refine ⟨hinv, h.pooled.post hw hp _, drains_mono h.drains h.pooled List.erase_sublist ?_
      (fun _ _ => id) ?_ ?_⟩
    · intro k hk hk'
      have hkj : k = j := by
        by_contra hne
        exact hk' ((List.mem_erase_of_ne hne).mpr hk)
      subst hkj
      exact h.pooled.ended k.handle k.kind (by simp [State.workLate, hw, hp, Phase.late])
    · intro i _ x
      show (s.setWork j.handle j.kind _).overflows cfg.cap i x → _
      rw [State.overflows, setWork_info]
      exact id
    · intro i _
      show ((s.setWork j.handle j.kind _).handle i).begun = true → _
      rw [State.setWork, setHandle_same MemberHolder.begun (by rfl)]
      exact id
  | write hr hb hx hle => exact h.setChild hinv (by rw [hx]; exact id) hle
  | exit hx => exact h.setChild hinv (by simp) fun _ => Nat.le_refl _
  | spawn hfree => exact h.quiet hinv ((Quiet.refl s).aside _ _ _ _)
  | vanish hp => exact h.quiet hinv ((Quiet.refl s).aside _ _ _ _)

theorem poolInv_init (cap : Nat) : PoolInv cap {} :=
  ⟨inv_init, ⟨List.nodup_nil, nofun, fun _ _ => by simp [State.workHeld], fun _ _ => by simp [State.workLate]⟩,
    .clear nofun⟩

/-! ## A queue that drains has a step to take -/

section Stuck

variable {cap : Nat} {hcap : 0 < cap} {s : State}

/-- The threads are all inside blocking calls. -/
theorem Stuck.running (h : Stuck (uvPool cap hcap) s) (hp : Pooled s) {j : Job}
    (hj : j ∈ s.pool.take UV_THREADPOOL_SIZE) :
    ∃ w, (s.handle j.handle).work j.kind = some w ∧ w.phase = .running := by
  have hheld := (hp.held j.handle j.kind).mpr (List.mem_of_mem_take hj)
  obtain ⟨w, hw, hph⟩ := Option.any_eq_true _ _ |>.mp hheld
  refine ⟨w, hw, ?_⟩
  cases hphase : w.phase with
  | running => rfl
  | queued =>
    have := h.threads (.workStart j) rfl
    rw [step, if_pos (by simpa [uvPool] using hj), advance_eq hw hphase] at this
    cases this
  | returned =>
    have := h.threads (.post j) rfl
    rw [step, advance_eq hw hphase] at this
    cases this
  | posted => rw [hphase] at hph; cases hph
  | done => rw [hphase] at hph; cases hph

/-- A reader on a thread has found its pipe empty, with the child still running. -/
theorem Stuck.read_blocked (h : Stuck (uvPool cap hcap) s) {i : Nat} {x : StreamName} {w : AsyncWork}
    (hw : (s.handle i).work (.read x) = some w) (hrun : w.phase = .running) :
    (s.child i).buf x = 0 ∧ (s.child i).exit = none := by
  have hbuf : (s.child i).buf x = 0 := by
    by_contra hne
    have := h.threads (.read i x 1) rfl
    simp only [step, hw] at this
    rw [if_pos ⟨hrun, Nat.one_pos, Nat.one_le_iff_ne_zero.mpr hne, by decide⟩] at this
    cases this
  refine ⟨hbuf, ?_⟩
  cases hx : (s.child i).exit with
  | none => rfl
  | some st =>
    have := h.threads (.eof i x) rfl
    rw [step, if_pos ⟨hbuf, by simp [hx]⟩, advance_eq (j := ⟨i, .read x⟩) hw hrun] at this
    cases this

/-- No thread has a job of an exited child. -/
theorem Stuck.alive (h : Stuck (uvPool cap hcap) s) (hi : Inv s) (hp : Pooled s) {j : Job}
    (hj : j ∈ s.pool.take UV_THREADPOOL_SIZE) : (s.child j.handle).exit = none := by
  obtain ⟨w, hw, hrun⟩ := h.running hp hj
  obtain ⟨i, k⟩ := j
  cases k with
  | read x => exact (h.read_blocked hw hrun).2
  | wait =>
    have hlt := hp.bound _ (List.mem_of_mem_take hj)
    obtain ⟨-, hr⟩ := (hi.core.good i hlt).early hw (by rw [hrun]; rfl)
    cases hx : (s.child i).exit with
    | none => rfl
    | some st =>
      have := h.threads (.waitReturn i) rfl
      simp only [step, hw] at this
      rw [if_pos ⟨hrun, hlt⟩, hi.core.waitFor_own hlt hr, hx] at this
      cases this

/-- A living child is blocked on a pipe without a reader on a thread. -/
theorem Stuck.unserved (h : Stuck (uvPool cap hcap) s) (hp : Pooled s) {i : Nat} (hi : i < s.n)
    (hx : (s.child i).exit = none) :
    ∃ x, s.overflows cap i x ∧ ⟨i, .read x⟩ ∉ s.pool.take UV_THREADPOOL_SIZE := by
  cases hprog : (s.child i).prog with
  | nil =>
    have := h.exits i (.exited 0) hprog
    rw [step, if_pos ⟨hi, hx⟩] at this
    cases this
  | cons x prog =>
    have hroom : s.hasRoom cap i x = false := by
      have := h.writes i
      rw [step, if_pos hi, State.write, hprog, hx] at this
      refine Bool.eq_false_iff.mpr ?_
      intro hr
      simp only [uvPool, hr, if_true] at this
      cases this
    simp only [State.hasRoom, Bool.or_eq_false_iff, decide_eq_false_iff_not, Nat.not_lt] at hroom
    refine ⟨x, ⟨hroom.1, ?_⟩, ?_⟩
    · rw [hprog, List.count_cons_self]
      omega
    · -- the reader would find the bytes the child waits with
      intro hj
      obtain ⟨w, hw, hrun⟩ := h.running hp hj
      have hempty : (s.child i).buf x = 0 := (h.read_blocked hw hrun).1
      omega

theorem PoolInv.not_stuck (h : PoolInv cap s) : ¬ Stuck (uvPool cap hcap) s := by
  intro hst
  obtain ⟨i, -, hbegun, k, w, hw, hnd⟩ := hst.unfinished
  have hheld : s.workHeld i k = true := by
    have hnp := hst.callbacks i k w hw
    cases hphase : w.phase with
    | posted => exact absurd hphase hnp
    | done => exact absurd hphase hnd
    | _ => simp [State.workHeld, hw, hphase, Phase.held]
  have hmem := (h.pooled.held i k).mp hheld
  rcases FifoPool.Drains.progress h.drains ⟨_, hmem, hbegun⟩ with ⟨j, hj, hx⟩ | ⟨j, hj, hx, hfree⟩
  · exact hx (hst.alive h.inv h.pooled hj)
  · obtain ⟨x, hover, hno⟩ := hst.unserved h.pooled (h.pooled.bound j hj) (not_not.mp hx)
    exact hno (hfree ⟨j.handle, .read x⟩ rfl hover)

end Stuck

/-- Where the queue drains in some order after each `begin_wait`, `begin_communicate` and
    `communicate`, no state of the run is stuck, in whatever order threads, children and
    calls then go on. -/
theorem never_stuck (cap : Nat) (hcap : 0 < cap) (es : List Event) (s : State) (h : run (uvPool cap hcap) es = some s)
    (hok : Runs.Meets (step (uvPool cap hcap)) (SubmitOk cap) {} es) : ¬ Stuck (uvPool cap hcap) s :=
  (Runs.exec_meets (I := PoolInv cap) (fun _ _ _ => @poolInv_step (uvPool cap hcap) _ _ _)
    (poolInv_init cap) hok h).not_stuck

/-- A child of two captured streams. -/
def piped (pid : Int) : ProcessInfo := { pid := pid, stdout := 5, stderr := 6 }

/-- A lone wait on a child that overflows its stdout leaves three threads, enough for
    another handle's `communicate`. -/
def loneWaitRun : List Event :=
  [.start (piped 10) [.stdout, .stdout] 1, .start (piped 11) [.stderr, .stderr] 2, .call 0 (.beginWait true),
    .call 1 (.beginCommunicate fun _ => true), .write 0, .write 1]

theorem never_stuck_loneWait :
    ∃ s, run (uvPool 1 Nat.one_pos) loneWaitRun = some s ∧ s.pool.length = 4 ∧ ¬ Stuck (uvPool 1 Nat.one_pos) s := by
  refine ⟨_, rfl, rfl, never_stuck 1 Nat.one_pos loneWaitRun _ rfl ?_⟩
  have hskip : ∀ {s : State} {ev : Event}, (∀ i c, ev = .call i c → c.submits = false) → SubmitOk 1 s ev :=
    fun hev i c hc hsub => by
      rw [hev i c hc] at hsub
      cases hsub
  refine (Runs.meets_cons rfl).mpr ⟨hskip nofun, (Runs.meets_cons rfl).mpr ⟨hskip nofun, ?_⟩⟩
  refine (Runs.meets_cons rfl).mpr ⟨?_, (Runs.meets_cons rfl).mpr ⟨?_, ?_⟩⟩
  · -- nobody cares for the wait yet
    intro i c hev _
    cases hev
    refine .clear ?_
    intro j hj
    rw [List.mem_singleton.mp hj]
    nofun
  · intro i c hev _
    cases hev
    -- the second child exits, its readers being served
    refine .finish ⟨1, .wait⟩ (by decide) ?_ ?_
    · intro j hj hneed
      obtain ⟨i, k⟩ := j
      cases hj
      cases k with
      | wait => exact hneed.elim
      | read x => cases x <;> decide
    · refine .complete ⟨1, .wait⟩ (by decide) (.inl rfl) (.complete ⟨1, .read .stdout⟩ (by decide) (.inl rfl)
        (.complete ⟨1, .read .stderr⟩ (by decide) (.inl rfl) (.clear ?_)))
      intro j hj
      rw [List.mem_singleton.mp hj]
      nofun
  · exact (Runs.meets_cons rfl).mpr ⟨hskip nofun, (Runs.meets_cons rfl).mpr ⟨hskip nofun, trivial⟩⟩

/-- Two waits on children that overflow their stdout, which nobody reads, and a
    `communicate` with a third child, which overflows its stderr. -/
def stuckRun : List Event :=
  [.start (piped 10) [.stdout, .stdout] 1, .start (piped 11) [.stdout, .stdout] 2,
    .start (piped 12) [.stderr, .stderr] 3, .call 0 (.beginWait true), .call 1 (.beginWait true),
    .call 2 (.beginCommunicate fun _ => true), .workStart ⟨0, .wait⟩, .workStart ⟨1, .wait⟩, .workStart ⟨2, .wait⟩,
    .workStart ⟨2, .read .stdout⟩, .write 0, .write 1, .write 2]

/-- The reader of that stderr is the fifth job. -/
theorem stuck_communicate :
    ∃ s, run (uvPool 1 Nat.one_pos) stuckRun = some s ∧ Stuck (uvPool 1 Nat.one_pos) s := by
  refine ⟨_, rfl, ⟨2, by decide, rfl, .read .stderr, ⟨.queued, 0⟩, rfl, by decide⟩, ?_, ?_, ?_, ?_⟩
  · intro ev hev
    cases ev with
    | workStart j =>
      -- the jobs with threads have all started
      obtain ⟨i, k⟩ := j
      rcases i with _ | _ | _ | i <;> rcases k with _ | _ | _ <;> rfl
    | waitReturn i => rcases i with _ | _ | _ | i <;> rfl
    | read i x n => rcases i with _ | _ | _ | i <;> cases x <;> rcases n with _ | n <;> rfl
    | eof i x => rcases i with _ | _ | _ | i <;> cases x <;> rfl
    | post j =>
      obtain ⟨i, k⟩ := j
      rcases i with _ | _ | _ | i <;> rcases k with _ | _ | _ <;> rfl
    | _ => cases hev
  · intro i
    rcases i with _ | _ | _ | i <;> rfl
  · intro i st h
    rcases i with _ | _ | _ | i
    · cases h
    · cases h
    · cases h
    · rfl
  · intro i k w hw
    rcases i with _ | _ | _ | i <;> rcases k with _ | _ | _ <;> cases hw <;> decide

end CovProcess.Handle
