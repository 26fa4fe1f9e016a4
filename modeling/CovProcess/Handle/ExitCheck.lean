/-
  CovProcess.Handle.ExitCheck — `poll_wait`, `has_exited`, and `try_wait`, `wait_poll` and
  `wait_with` made of them (`process.hpp`; `process_type` in `process.cpp`), once the
  child has exited (see `CovProcess.Handle.Model`).

  Without a wait work these ask the kernel. With one they look at its completion flag,
  which is set after a worker got a thread, its `waitid` returned and the loop ran the
  callback. `wait_poll` and `wait_with` submit one themselves.

  Proved: `exit_check_iff`, in every reachable state exactly when each of them tells of the
  exit, and that a `collect_wait` it goes on into comes to return the status;
  `tryWait_atOnce`, when no worker has to help it there; and `late_worker`: with a wait
  work still in the queue none of them tells.
-/

import CovProcess.Handle.Signals

namespace CovProcess.Handle

namespace State

/-- `try_wait` up to the point where `collect_wait` returns or waits; `none` is null. -/
def tryWait (s : State) (i : Nat) : Option State :=
  if (s.pollWait i).2 then some ((s.pollWait i).1.collectWait i) else none

end State

/-- Where a polling wait got to. -/
inductive Polled where
  | null
  | collecting (s : State)
  | polling (s : State)

/-- `if (p->poll_wait()) return p->collect_wait()`. -/
def State.pollOnce (s : State) (i : Nat) : Polled :=
  match s.tryWait i with
  | some t => .collecting t
  | none => .polling (s.pollWait i).1

/-- The loop of `wait_poll` and `wait_with`, the clock read before each turn. A turn is what
    happens while it yields, sleeps or runs the callback; a negative timeout sets no
    deadline. -/
def pollLoop (cfg : Config) (i : Nat) (deadline : Option Int64) (s : State) :
    List (Int64 × List Event) → Option Polled
  | [] => some (.polling s)
  | (now, es) :: turns =>
    if deadline.any fun d => !(now < d) then some .null
    else (Runs.exec (step cfg) s es).bind fun s =>
      match s.pollOnce i with
      | .polling s => pollLoop cfg i deadline s turns
      | p => some p

/-- `wait_poll` and `wait_with`: `begin_wait`, what the others do meanwhile, the first check,
    and the loop. Times are in nanoseconds, `timeout_ms` in milliseconds. -/
def waitPoll (cfg : Config) (s : State) (i : Nat) (queued : Bool) (timeoutMs : Int64) (meanwhile : List Event)
    (now : Int64) (turns : List (Int64 × List Event)) : Option Polled :=
  (Runs.exec (step cfg) (s.beginWait i queued) meanwhile).bind fun s =>
    match s.pollOnce i with
    | .polling s => pollLoop cfg i (if timeoutMs < 0 then none else some (now + timeoutMs * 1000000)) s turns
    | p => some p

/-- No wait work is in the way: the code is stored, there is no such work, or its result
    is with the loop. -/
def Settled (s : State) (i : Nat) : Prop :=
  (s.handle i).exitCode ≠ none ∨ (s.handle i).work .wait = none ∨
    ∃ w, (s.handle i).work .wait = some w ∧ (w.phase = .posted ∨ w.phase = .done)

/-- The exit was seen by an earlier check, or can be now. -/
def Visible (s : State) (i : Nat) : Prop := (s.handle i).observedExited = true ∨ Settled s i

/-! ## What comes of a `collect_wait` -/

/-- A step of the method in progress, of a worker, a child or a stranger. -/
def Event.onwards : Event → Bool
  | .resume _ => true
  | e => e.outside

/-- A step of handle `i`'s wait work, or of the method in progress. -/
def Event.serves (i : Nat) : Event → Bool
  | .resume _ => true
  | .workStart j => j = ⟨i, .wait⟩
  | .post j => j = ⟨i, .wait⟩
  | .waitReturn j => j = i
  | _ => false

/-- The wait work is in the queue, and the pool may not start it now. -/
def KeptWaiting (cfg : Config) (s : State) (i : Nat) : Prop :=
  ∃ w, (s.handle i).work .wait = some w ∧ w.phase = .queued ∧ cfg.mayStart s ⟨i, .wait⟩ = false

/-- So many steps of the wait work and the loop thread make the method in progress return. -/
def EndsWithin (cfg : Config) (i n : Nat) (s : State) : Prop :=
  ∃ es t, es.length ≤ n ∧ (∀ e ∈ es, e.serves i = true) ∧ Runs.exec (step cfg) s es = some t ∧ t.frame = none

/-- The method in progress in `t` returns the code and nothing else, however the run goes
    on; and wherever the run stands, unless the pool keeps the wait work waiting, five steps
    of that work and the loop thread are enough. -/
structure Returns (cfg : Config) (i : Nat) (code : Int) (t : State) : Prop where
  code : ∀ es u, (∀ e ∈ es, e.onwards = true) → Runs.exec (step cfg) t es = some u → u.frame = none →
    u.log.head? = some (.code i code)
  ends : ∀ es u, (∀ e ∈ es, e.onwards = true) → Runs.exec (step cfg) t es = some u → ¬ KeptWaiting cfg u i →
    EndsWithin cfg i 5 u

/-- The loop thread alone gets from `t` to the return of the code, no worker helping. -/
def AtOnce (cfg : Config) (i : Nat) (code : Int) (t : State) : Prop :=
  ∃ es u, (∀ e ∈ es, ∃ readable, e = .resume readable) ∧ Runs.exec (step cfg) t es = some u ∧ u.frame = none ∧
    u.log.head? = some (.code i code)

/-- On the way through `collect_wait` of a child that has exited, or back from it. -/
inductive Collecting (i : Nat) (st : Status) (s : State) : Prop
  | back (hf : s.frame = none) (hlog : s.log.head? = some (.code i st.code))
  | waiting (hf : s.frame = some (.waitFor i))
  | polling (hf : s.frame = some (.collectLoop i)) (w : AsyncWork) (hw : (s.handle i).work .wait = some w)

/-- Steps outside the loop thread report nothing, and take no work from a handle. -/
theorem outside_keeps {cfg : Config} {s s' : State} {e : Event} (h : Inv s) (he : e.outside = true)
    (hs : step cfg s e = some s') :
    s'.log = s.log ∧ ∀ i k, (s.handle i).work k ≠ none → (s'.handle i).work k ≠ none := by
  have hset : ∀ (u : State) j l w, u.handle = s.handle →
      ∀ i k, (s.handle i).work k ≠ none → ((u.setWork j l (some w)).handle i).work k ≠ none := by
    intro u j l w hu i k hk
    rw [setWork_work, hu]
    split
    · exact Option.some_ne_none w
    · exact hk
  cases step_moves hs with
  | start | call | resume => cases he
  | workStart hw hp => exact ⟨rfl, hset s _ _ _ rfl⟩
  | waitReturn hw hp hj hwait =>
    obtain ⟨-, -, st, -, rfl, -⟩ := h.core.waitReturn hj hw hp hwait
    exact ⟨rfl, hset (s.reap _) _ _ _ rfl⟩
  | eof hx hw hp => exact ⟨rfl, hset s _ _ _ rfl⟩
  | post hw hp => exact ⟨rfl, hset s _ _ _ rfl⟩
  | read | write | exit | spawn | vanish => exact ⟨rfl, fun _ _ => id⟩

section

variable {cfg : Config} {i : Nat} {st : Status} {s t : State}

/-- What one step keeps, of the call or outside the loop thread. -/
theorem Collecting.onward {e : Event} (h : Inv s) (hi : i < s.n) (hx : (s.child i).exit = some st)
    (hc : Collecting i st s) (he : e.onwards = true) (hs : step cfg s e = some t) :
    Collecting i st t ∧ i < t.n ∧ (t.child i).exit = some st := by
  cases hout : e.outside with
  | true =>
    have hbeside := step_beside h hout hs
    obtain ⟨hlog, hwork⟩ := outside_keeps h hout hs
    refine ⟨?_, by rwa [hbeside.n], outside_exit h hout hs hx⟩
    cases hc with
    | back hf hl => exact .back (hbeside.frame.trans hf) (hlog ▸ hl)
    | waiting hf => exact .waiting (hbeside.frame.trans hf)
    | polling hf w hw =>
      obtain ⟨v, hv⟩ := Option.ne_none_iff_exists'.mp (hwork i .wait (by simp [hw]))
      exact .polling (hbeside.frame.trans hf) v hv
  | false =>
    obtain ⟨readable, rfl⟩ : ∃ readable, e = .resume readable := by
      cases e <;> simp_all [Event.onwards, Event.outside]
    rw [step] at hs
    cases hc with
    | back hf hl =>
      rw [hf] at hs
      cases hs
    | waiting hf =>
      rw [hf, Option.bind_some, State.resume] at hs
      obtain ⟨-, he, hw⟩ := h.frame _ hf
      have hwait := h.core.waitFor_own hi ((h.core.good i hi).unreaped he hw)
      rw [hwait, hx] at hs
      cases hs
      exact ⟨.back rfl rfl, hi, by simp [State.report, State.setHandle, State.reap, State.setChild, hx]⟩
    | polling hf w hw =>
      rw [hf, Option.bind_some, State.resume] at hs
      simp only [hw] at hs
      split at hs <;> cases hs
      · rename_i hdone
        obtain ⟨-, -, st', hst', hcode⟩ := (h.core.good i hi).late hw (by rw [hdone]; rfl)
        rw [hx] at hst'
        cases hst'
        exact ⟨.back rfl (by simp [State.report, hcode]), hi, hx⟩
      · exact ⟨.polling hf w.afterWork (by simp [State.uvRun, hw]), hi, hx⟩

theorem Collecting.along {es : List Event} (h : Inv s) (hi : i < s.n) (hx : (s.child i).exit = some st)
    (hc : Collecting i st s) (he : ∀ e ∈ es, e.onwards = true) (hr : Runs.exec (step cfg) s es = some t) :
    Inv t ∧ Collecting i st t ∧ i < t.n ∧ (t.child i).exit = some st := by
  refine Runs.exec_meets (P := fun _ e => e.onwards = true)
    (I := fun u => Inv u ∧ Collecting i st u ∧ i < u.n ∧ (u.child i).exit = some st)
    (fun u e u' hu hon hstep => ?_) ⟨h, hc, hi, hx⟩ (Runs.meets_of_forall fun e he' _ => he e he') hr
  exact ⟨inv_step hu.1 hstep, hu.2.1.onward hu.1 hu.2.2.1 hu.2.2.2 hon hstep⟩

theorem EndsWithin.cons {n : Nat} {e : Event} (h : EndsWithin cfg i n t) (he : e.serves i = true) (hs : step cfg s e = some t) :
    EndsWithin cfg i (n + 1) s := by
  obtain ⟨fs, v, hlen, hfs, hrun, hv⟩ := h
  exact ⟨e :: fs, v, Nat.succ_le_succ hlen, List.forall_mem_cons.mpr ⟨he, hfs⟩, Runs.exec_cons.mpr ⟨t, hs, hrun⟩, hv⟩

theorem EndsWithin.mono {m n : Nat} (h : EndsWithin cfg i m s) (hle : m ≤ n) : EndsWithin cfg i n s := by
  obtain ⟨fs, v, hlen, hrest⟩ := h
  exact ⟨fs, v, hlen.trans hle, hrest⟩

theorem step_collected (hf : s.frame = some (.collectLoop i)) {w : AsyncWork}
    (hw : (s.handle i).work .wait = some w) (hd : w.phase = .done) :
    step cfg s (.resume true) = some { (s.collectWork i w).report (.code i w.exitCode) with frame := none } := by
  rw [step, hf, Option.bind_some, State.resume]
  simp only [hw, hd, if_true]

theorem ends_done (hf : s.frame = some (.collectLoop i)) {w : AsyncWork} (hw : (s.handle i).work .wait = some w)
    (hp : w.phase = .done) : EndsWithin cfg i 1 s :=
  EndsWithin.cons (n := 0) ⟨[], _, Nat.le_refl _, by simp, rfl, rfl⟩ rfl (step_collected hf hw hp)

theorem ends_posted (hf : s.frame = some (.collectLoop i)) {w : AsyncWork} (hw : (s.handle i).work .wait = some w)
    (hp : w.phase = .posted) : EndsWithin cfg i 2 s := by
  have hs : step cfg s (.resume true) = some s.uvRun := by
    rw [step, hf, Option.bind_some, State.resume]
    simp [hw, hp]
  have hdone : (s.uvRun.handle i).work .wait = some { w with phase := .done } := by
    simp [State.uvRun, hw, AsyncWork.afterWork, hp]
  exact (ends_done (s := s.uvRun) hf hdone rfl).cons rfl hs

theorem ends_returned (hf : s.frame = some (.collectLoop i)) {w : AsyncWork} (hw : (s.handle i).work .wait = some w)
    (hp : w.phase = .returned) : EndsWithin cfg i 3 s := by
  have hpost : s.advance ⟨i, .wait⟩ .returned .posted AsyncWork.exitCode =
      some (s.setWork i .wait (some ⟨.posted, w.exitCode⟩)) := advance_eq hw hp
  have hs : step cfg s (.post ⟨i, .wait⟩) =
      some { s.setWork i .wait (some ⟨.posted, w.exitCode⟩) with pool := s.pool.erase ⟨i, .wait⟩ } := by
    rw [step, hpost]
    exact Option.map_some ..
  refine (ends_posted (w := ⟨.posted, w.exitCode⟩) ?_ ?_ rfl).cons (by simp [Event.serves]) hs
  · exact hf
  · exact (setWork_work s i .wait (some ⟨.posted, w.exitCode⟩) i .wait).trans (if_pos ⟨rfl, rfl⟩)

theorem ends_running (h : Inv s) (hi : i < s.n) (hx : (s.child i).exit = some st)
    (hf : s.frame = some (.collectLoop i)) {w : AsyncWork} (hw : (s.handle i).work .wait = some w)
    (hp : w.phase = .running) : EndsWithin cfg i 4 s := by
  have hwait := h.core.waitFor_own hi ((h.core.good i hi).early hw (by rw [hp]; rfl)).2
  have hs : step cfg s (.waitReturn i) = some ((s.reap i).setWork i .wait (some ⟨.returned, st.code⟩)) := by
    rw [step]
    simp only [hw, hp, hi, and_self, if_true, hwait, hx, Option.map_some]
  refine (ends_returned (w := ⟨.returned, st.code⟩) ?_ ?_ rfl).cons (by simp [Event.serves]) hs
  · exact hf
  · exact (setWork_work (s.reap i) i .wait (some ⟨.returned, st.code⟩) i .wait).trans (if_pos ⟨rfl, rfl⟩)

theorem ends_queued (h : Inv s) (hi : i < s.n) (hx : (s.child i).exit = some st)
    (hf : s.frame = some (.collectLoop i)) {w : AsyncWork} (hw : (s.handle i).work .wait = some w)
    (hp : w.phase = .queued) (hmay : cfg.mayStart s ⟨i, .wait⟩ = true) : EndsWithin cfg i 5 s := by
  have hs : step cfg s (.workStart ⟨i, .wait⟩) = some (s.setWork i .wait (some ⟨.running, w.exitCode⟩)) := by
    rw [step, if_pos hmay]
    exact advance_eq hw hp
  refine (ends_running (w := ⟨.running, w.exitCode⟩) (inv_step h hs) hi hx hf ?_ rfl).cons
    (by simp [Event.serves]) hs
  exact (setWork_work s i .wait (some ⟨.running, w.exitCode⟩) i .wait).trans (if_pos ⟨rfl, rfl⟩)

/-- By the phases of the work, the last one first. -/
theorem Collecting.ends (h : Inv s) (hi : i < s.n) (hx : (s.child i).exit = some st) (hc : Collecting i st s)
    (hserved : ¬ KeptWaiting cfg s i) : EndsWithin cfg i 5 s := by
  cases hc with
  | back hf hlog => exact ⟨[], s, Nat.zero_le _, by simp, rfl, hf⟩
  | waiting hf =>
    obtain ⟨-, he, hw⟩ := h.frame _ hf
    have hwait := h.core.waitFor_own hi ((h.core.good i hi).unreaped he hw)
    refine EndsWithin.mono (EndsWithin.cons (n := 0) (e := .resume true) (t := ?_) ?_ rfl ?_) (by decide)
    · exact { ((s.reap i).setHandle i { (s.reap i).handle i with exitCode := some st.code }).report (.code i st.code) with
        frame := none }
    · exact ⟨[], _, Nat.le_refl _, by simp, rfl, rfl⟩
    · rw [step, hf, Option.bind_some, State.resume, hwait, hx]
      rfl
  | polling hf w hw =>
    cases hp : w.phase with
    | queued =>
      cases hmay : cfg.mayStart s ⟨i, .wait⟩ with
      | true => exact ends_queued h hi hx hf hw hp hmay
      | false => exact absurd ⟨w, hw, hp, hmay⟩ hserved
    | running => exact (ends_running h hi hx hf hw hp).mono (by decide)
    | returned => exact (ends_returned hf hw hp).mono (by decide)
    | posted => exact (ends_posted hf hw hp).mono (by decide)
    | done => exact (ends_done hf hw hp).mono (by decide)

/-- A `collect_wait` that begins after the child's exit returns its status. -/
theorem collectWait_returns (h : Core s) (hf : s.frame = none) (hi : i < s.n) (hx : (s.child i).exit = some st) :
    Returns cfg i st.code (s.collectWait i) := by
  have hinv : Inv (s.collectWait i) := call_inv h hi hf .collectWait
  have hkeeps : i < (s.collectWait i).n ∧ ((s.collectWait i).child i).exit = some st := by
    unfold State.collectWait
    split
    · exact ⟨hi, hx⟩
    · split <;> exact ⟨hi, hx⟩
  have hc : Collecting i st (s.collectWait i) := by
    unfold State.collectWait
    cases he : (s.handle i).exitCode with
    | some c =>
      obtain ⟨-, st', hst', rfl⟩ := (h.good i hi).code he
      rw [hx] at hst'
      cases hst'
      exact .back rfl rfl
    | none =>
      cases hw : (s.handle i).work .wait with
      | none => exact .waiting rfl
      | some w => exact .polling rfl w hw
  refine ⟨?_, ?_⟩
  · intro es u he hrun hback
    cases (hc.along hinv hkeeps.1 hkeeps.2 he hrun).2.1 with
    | back _ hlog => exact hlog
    | waiting hf' =>
      rw [hf'] at hback
      cases hback
    | polling hf' =>
      rw [hf'] at hback
      cases hback
  · intro es u he hrun hserved
    obtain ⟨hinv', hc', hi', hx'⟩ := hc.along hinv hkeeps.1 hkeeps.2 he hrun
    exact hc'.ends hinv' hi' hx' hserved

end

/-! ## `collect_wait` without the workers -/

/-- A wait work that is not posted stays so while only the loop thread moves, and
    `collect_wait` stays in its loop. -/
theorem collectLoop_waits {cfg : Config} {i : Nat} {es : List Event} {s u : State}
    (hes : ∀ e ∈ es, ∃ readable, e = .resume readable) (h : Runs.exec (step cfg) s es = some u)
    (hf : s.frame = some (.collectLoop i)) {w : AsyncWork} (hw : (s.handle i).work .wait = some w)
    (hp : w.phase ≠ .posted) (hd : w.phase ≠ .done) : u.frame = some (.collectLoop i) := by
  induction es generalizing s w with
  | nil =>
    cases h
    exact hf
  | cons e es ih =>
    obtain ⟨t, ht, h⟩ := Runs.exec_cons.mp h
    obtain ⟨readable, rfl⟩ := hes e List.mem_cons_self
    have hturn : t = s.uvRun := by
      rw [step, hf, Option.bind_some, State.resume] at ht
      simp only [hw, hd, if_false] at ht
      exact (Option.some.inj ht).symm
    subst hturn
    have hsame : w.afterWork = w := by
      unfold AsyncWork.afterWork
      exact if_neg hp
    have hw' : (s.uvRun.handle i).work .wait = some w := by
      simp [State.uvRun, hw, hsame]
    exact ih (fun e he => hes e (List.mem_cons_of_mem _ he)) h hf hw' hp hd

/-- Of an exited child `collect_wait` returns the status at once exactly when no wait work
    is in the way. -/
theorem collectWait_atOnce {cfg : Config} {i : Nat} {s : State} (h : Inv s) (hi : i < s.n) {st : Status}
    (hx : (s.child i).exit = some st) : AtOnce cfg i st.code (s.collectWait i) ↔ Settled s i := by
  have hgood := h.core.good i hi
  unfold State.collectWait
  cases he : (s.handle i).exitCode with
  | some c =>
    obtain ⟨-, st', hst', rfl⟩ := hgood.code he
    rw [hx] at hst'
    cases hst'
    refine iff_of_true ⟨[], _, fun e he => absurd he List.not_mem_nil, rfl, rfl, rfl⟩ (.inl ?_)
    rw [he]
    exact Option.some_ne_none _
  | none =>
    cases hw : (s.handle i).work .wait with
    | none =>
      have hwait := (h.core.aside s.pool (some (.waitFor i)) s.signals).waitFor_own hi (hgood.unreaped he hw)
      have hstep := congrArg (Option.map fun p : State × Int =>
        { (p.1.setHandle i { p.1.handle i with exitCode := some p.2 }).report (.code i p.2) with frame := none })
        (hwait.trans (congrArg _ hx))
      exact iff_of_true ⟨[.resume true], _, by simp, Runs.exec_cons.mpr ⟨_, hstep, rfl⟩, rfl, rfl⟩ (.inr (.inl hw))
    | some w =>
      refine ⟨fun ⟨es, u, hes, hrun, hu, _⟩ => ?_, fun hs => ?_⟩
      · by_contra hns
        have hp : w.phase ≠ .posted := fun hp => hns (.inr (.inr ⟨w, hw, .inl hp⟩))
        have hd : w.phase ≠ .done := fun hd => hns (.inr (.inr ⟨w, hw, .inr hd⟩))
        rw [collectLoop_waits hes hrun rfl hw hp hd] at hu
        cases hu
      · obtain ⟨w', hw', hphase⟩ : ∃ w', (s.handle i).work .wait = some w' ∧ (w'.phase = .posted ∨ w'.phase = .done) := by
          rcases hs with hs | hs | hs
          · exact absurd he hs
          · rw [hw] at hs
            cases hs
          · exact hs
        rw [hw] at hw'
        cases hw'
        have hcode : w.exitCode = st.code := by
          obtain ⟨-, -, st', hst', hcode⟩ := hgood.late hw (by rcases hphase with hp | hp <;> rw [hp] <;> rfl)
          rw [hx] at hst'
          cases hst'
          exact hcode
        rcases hphase with hp | hd
        · -- the turn that runs the callback, and the one that sees the work done
          have hturn : step cfg { s with frame := some (.collectLoop i) } (.resume true) =
              some { s with frame := some (.collectLoop i) }.uvRun := by
            rw [step, Option.bind_some, State.resume]
            simp [hw, hp]
          have hdone := @step_collected cfg i { s with frame := some (.collectLoop i) }.uvRun rfl { w with phase := .done }
            (by simp [State.uvRun, hw, AsyncWork.afterWork, hp]) rfl
          exact ⟨[.resume true, .resume true], _, by simp,
            Runs.exec_cons.mpr ⟨_, hturn, Runs.exec_cons.mpr ⟨_, hdone, rfl⟩⟩, rfl, by simp [State.report, hcode]⟩
        · have hdone := @step_collected cfg i { s with frame := some (.collectLoop i) } rfl w hw hd
          exact ⟨[.resume true], _, by simp, Runs.exec_cons.mpr ⟨_, hdone, rfl⟩, rfl, by simp [State.report, hcode]⟩

/-! ## The check -/

theorem uvRun_wait {s : State} {i : Nat} {w : AsyncWork} (hw : (s.handle i).work .wait = some w) :
    (s.uvRun.handle i).work .wait = some w.afterWork := by
  simp [State.uvRun, hw]

theorem afterWork_done (w : AsyncWork) : w.afterWork.phase = .done ↔ w.phase = .posted ∨ w.phase = .done := by
  unfold AsyncWork.afterWork
  split
  · exact ⟨fun _ => .inl ‹_›, fun _ => rfl⟩
  · exact ⟨.inr, fun h => h.resolve_left ‹_›⟩

/-- Of an exited child the check says so exactly when it was seen before or no wait work is
    in the way, and a check that says so leaves what `collect_wait` will find. -/
theorem checkExited_exited {i : Nat} {s : State} (h : Core s) (hi : i < s.n) {st : Status}
    (hx : (s.child i).exit = some st) :
    ((s.checkExited i).2 = true ↔ Visible s i) ∧
      ((s.checkExited i).2 = true → (Settled (s.checkExited i).1 i ↔ Settled s i)) := by
  unfold State.checkExited
  split
  · rename_i hk
    refine ⟨iff_of_true rfl ?_, fun _ => Iff.rfl⟩
    rcases (Bool.or_eq_true _ _).mp hk with hk | hk
    · exact .inr (.inl (Option.isSome_iff_ne_none.mp hk))
    · exact .inl hk
  · rename_i hk
    rw [Bool.not_eq_true, Bool.or_eq_false_iff] at hk
    have he : (s.handle i).exitCode = none := Option.isNone_iff_eq_none.mp (Option.isSome_eq_false_iff.mp hk.1)
    cases hw : (s.handle i).work .wait with
    | none =>
      have hexited : s.processExited (s.pid i) = true := by
        rw [State.processExited, h.waitid_own hi ((h.good i hi).unreaped he hw), hx]
      have hs : Settled s i := .inr (.inl hw)
      simp only [hexited, if_true]
      exact ⟨iff_of_true trivial (.inr hs), fun _ => iff_of_true (.inr (.inl (by simp [State.setHandle, hw]))) hs⟩
    | some w =>
      have hsettled : Settled s i ↔ w.afterWork.phase = .done := by
        rw [afterWork_done]
        refine ⟨?_, fun hp => .inr (.inr ⟨w, hw, hp⟩)⟩
        intro hs
        rcases hs with hs | hs | ⟨w', hw', hp⟩
        · exact absurd he hs
        · rw [hw] at hs
          cases hs
        · rw [hw] at hw'
          cases hw'
          exact hp
      simp only [uvRun_wait hw, Visible, hk.2, Bool.false_eq_true, false_or, hsettled]
      by_cases hd : w.afterWork.phase = .done
      · simp [hd, Settled, State.collectWork, State.setHandle]
      · simp [hd]

theorem checkExited_child (s : State) (i : Nat) : (s.checkExited i).1.child = s.child := by
  unfold State.checkExited
  repeat' split
  all_goals rfl

theorem tryWait_some {i : Nat} {s t : State} (h : s.tryWait i = some t) :
    (s.checkExited i).2 = true ∧ t = (s.checkExited i).1.collectWait i := by
  unfold State.tryWait State.pollWait at h
  split at h <;> cases h
  exact ⟨‹_›, rfl⟩

/-- `try_wait` tells of an exit when the check does, and then comes to return the status. -/
theorem tryWait_tells {i : Nat} {s : State} (h : Core s) (hf : s.frame = none) (hi : i < s.n) {st : Status}
    (hx : (s.child i).exit = some st) :
    ((∃ t, s.tryWait i = some t) ↔ Visible s i) ∧ ∀ cfg t, s.tryWait i = some t → Returns cfg i st.code t := by
  refine ⟨?_, ?_⟩
  · rw [← (checkExited_exited h hi hx).1]
    unfold State.tryWait State.pollWait
    cases (s.checkExited i).2 <;> simp
  · intro cfg t ht
    obtain ⟨-, rfl⟩ := tryWait_some ht
    obtain ⟨hcore, -, hn⟩ := h.checkExited hi
    refine collectWait_returns hcore ((checkExited_frame s i).trans hf) (by rwa [hn]) ?_
    rw [checkExited_child]
    exact hx

/-- No worker has to help it exactly when no wait work is in the way. -/
theorem tryWait_atOnce {cfg : Config} {i : Nat} {s : State} (h : Core s) (hf : s.frame = none) (hi : i < s.n)
    {st : Status} (hx : (s.child i).exit = some st) :
    (∃ t, s.tryWait i = some t ∧ AtOnce cfg i st.code t) ↔ Settled s i := by
  obtain ⟨htrue, hkeeps⟩ := checkExited_exited h hi hx
  obtain ⟨hcore, -, hn⟩ := h.checkExited hi
  have hinv := hcore.inv_idle ((checkExited_frame s i).trans hf)
  have hchild : ((s.checkExited i).1.child i).exit = some st := by
    rw [checkExited_child]
    exact hx
  have hreturns := @collectWait_atOnce cfg i _ hinv (by rwa [hn]) st hchild
  constructor
  · intro hr
    obtain ⟨t, ht, hr⟩ := hr
    obtain ⟨hb, rfl⟩ := tryWait_some ht
    exact (hkeeps hb).mp (hreturns.mp hr)
  · intro hs
    have hb := htrue.mpr (.inr hs)
    exact ⟨_, if_pos hb, hreturns.mpr ((hkeeps hb).mpr hs)⟩

/-! ## Polling -/

/-- With a timeout of 0 the first check is the only one: the clock does not go back. -/
theorem waitPoll_now {cfg : Config} {i : Nat} {queued : Bool} {meanwhile : List Event} {s s' : State}
    {now : Int64} {turn : Int64 × List Event} {turns : List (Int64 × List Event)}
    (hm : Runs.exec (step cfg) (s.beginWait i queued) meanwhile = some s') (hclock : now ≤ turn.1) :
    waitPoll cfg s i queued 0 meanwhile now (turn :: turns) = some ((s'.tryWait i).elim .null .collecting) := by
  have hdeadline : (if (0 : Int64) < 0 then none else some (now + 0 * 1000000)) = some now := by simp
  have hlate : ¬ turn.1 < now := Int64.not_lt.mpr hclock
  rw [waitPoll, hm, Option.bind_some, State.pollOnce, hdeadline]
  cases s'.tryWait i with
  | some t => rfl
  | none => simp [pollLoop, hlate]

/-- The loop thread is where it was after `begin_wait` and steps outside it, and an exited
    child is still exited. -/
theorem meanwhile_keeps {cfg : Config} {i : Nat} {queued : Bool} {meanwhile : List Event} {s s' : State} (h : Inv s)
    (hf : s.frame = none) (hi : i < s.n) {st : Status} (hx : (s.child i).exit = some st)
    (he : ∀ e ∈ meanwhile, e.outside = true) (hm : Runs.exec (step cfg) (s.beginWait i queued) meanwhile = some s') :
    Core s' ∧ s'.frame = none ∧ i < s'.n ∧ (s'.child i).exit = some st := by
  obtain ⟨hframe, hn⟩ := beginWait_frame s i queued
  have hchild : ((s.beginWait i queued).child i).exit = some st := by
    rcases beginWait_eq s i queued with heq | ⟨-, -, heq⟩ <;> rw [heq] <;> exact hx
  have h0 := (h.core.beginWait i queued).inv_idle (hframe.trans hf)
  have hrun := Runs.exec_meets (P := fun _ e => e.outside = true)
    (I := fun t => Inv t ∧ t.frame = none ∧ i < t.n ∧ (t.child i).exit = some st)
    (fun t e t' ht hout hstep => ?_) ⟨h0, hframe.trans hf, by rwa [hn], hchild⟩ (Runs.meets_of_forall fun e he' _ => he e he') hm
  · exact ⟨hrun.1.core, hrun.2⟩
  · have hbeside := step_beside ht.1 hout hstep
    exact ⟨inv_step ht.1 hstep, hbeside.frame.trans ht.2.1, by rw [hbeside.n]; exact ht.2.2.1,
      outside_exit ht.1 hout hstep ht.2.2.2⟩

/-- The exit check, for any discipline of the pool, any order of steps and any reuse of
    PIDs: which call tells of a child's exit in the states in which the child has exited,
    and what comes of a call that does. -/
theorem exit_check_iff (cfg : Config) (es : List Event) (s : State) (h : run cfg es = some s) (hf : s.frame = none)
    (i : Nat) (hi : i < s.n) (st : Status) (hx : (s.child i).exit = some st) :
    ((s.pollWait i).2 = true ↔ Visible s i) ∧ ((s.hasExited i).2 = true ↔ Visible s i) ∧
      ((∃ t, s.tryWait i = some t) ↔ Visible s i) ∧ (∀ t, s.tryWait i = some t → Returns cfg i st.code t) ∧
      ∀ queued meanwhile s' now turn turns, (∀ e ∈ meanwhile, e.outside = true) →
        Runs.exec (step cfg) (s.beginWait i queued) meanwhile = some s' → now ≤ turn.1 →
        ((∃ t, waitPoll cfg s i queued 0 meanwhile now (turn :: turns) = some (.collecting t)) ↔ Visible s' i) ∧
        (waitPoll cfg s i queued 0 meanwhile now (turn :: turns) = some .null ↔ ¬ Visible s' i) ∧
        ∀ t, waitPoll cfg s i queued 0 meanwhile now (turn :: turns) = some (.collecting t) → Returns cfg i st.code t := by
  have hinv := run_inv h
  have hcheck := (checkExited_exited hinv.core hi hx).1
  obtain ⟨htry, hreturns⟩ := tryWait_tells hinv.core hf hi hx
  refine ⟨hcheck, hcheck, htry, hreturns cfg, ?_⟩
  intro queued meanwhile s' now turn turns he hm hclock
  obtain ⟨hcore, hf', hi', hx'⟩ := meanwhile_keeps hinv hf hi hx he hm
  obtain ⟨htry', hreturns'⟩ := tryWait_tells hcore hf' hi' hx'
  rw [waitPoll_now hm hclock, ← htry']
  cases ht : s'.tryWait i with
  | none => simp
  | some t => simpa using hreturns' cfg t ht

/-- An exit that was seen before a wait work was queued: the check asks no worker, and what
    `try_wait` goes on into returns the status. -/
theorem exit_check_iff_seen :
    ∃ s t, run anyPool [.start { pid := 10 } [] 1, .exit 0 (.exited 3), .call 0 .hasExited, .call 0 (.beginWait true)] =
      some s ∧ (s.pollWait 0).2 = true ∧ s.tryWait 0 = some t ∧ Returns anyPool 0 3 t := by
  have h := exit_check_iff anyPool
    [.start { pid := 10 } [] 1, .exit 0 (.exited 3), .call 0 .hasExited, .call 0 (.beginWait true)]
    _ rfl rfl 0 (by decide) (.exited 3) rfl
  exact ⟨_, _, rfl, h.1.mpr (.inl rfl), rfl, h.2.2.2.1 _ rfl⟩

/-- An exited child, its wait work still in the queue. -/
theorem late_worker :
    ∃ s, run anyPool [.start { pid := 10 } [] 1, .exit 0 (.exited 3), .call 0 (.beginWait true)] = some s ∧
      s.frame = none ∧ (s.child 0).exit = some (.exited 3) ∧ (s.pollWait 0).2 = false ∧ (s.hasExited 0).2 = false ∧
      s.tryWait 0 = none ∧ waitPoll anyPool s 0 true 0 [] 0 [(0, [])] = some .null :=
  ⟨_, rfl, rfl, rfl, rfl, rfl, rfl, rfl⟩

end CovProcess.Handle
