/-
  CovProcess.Handle.SleepBudget — `mpp_impl::wait_timeout_ms` (`process_unix_wait.cpp`) by
  itself: how long it sleeps, for any answers of the polls and any ends of the sleeps (in
  `CovProcess.Handle.WaitTimeout` it runs beside the rest of the program, `resume_turn`).

  A sleep is asked for the whole interval, however little of the time is left, and what an
  interrupted one did not sleep is not taken off.

  Proved: `wait_budget_iff`, the call returns, `exit_code` is untouched unless it returns
  true, it has slept the whole timeout when it returns false, and it has slept no more
  than the timeout exactly when no sleep that is begun within it ends past it;
  `budget_of_full`, what that means for sleeps that are not interrupted.
-/

import CovProcess.Handle.WaitTimeout

namespace CovProcess.Handle

/-! ## The call -/

/-- What `poll_process_status` leaves: a status, `ECHILD`, or neither. -/
inductive PollStatus where
  | status (code : Int)
  | echild
  | alive
  deriving DecidableEq, Repr

/-- What the call makes of it. -/
def PollStatus.exit : PollStatus → Option Int
  | .status code => some code
  | .echild => some 0
  | .alive => none

structure Timespec where
  sec : Int
  nsec : Int
  deriving DecidableEq, Repr

def Timespec.ns (t : Timespec) : Int := t.sec * 1000000000 + t.nsec

def Timespec.of (ns : Int) : Timespec := ⟨ns / 1000000000, ns % 1000000000⟩

/-- `nanosleep`: to its end, or interrupted with a remainder. -/
inductive NanoSleep where
  | full
  | eintr (rem : Timespec)
  deriving DecidableEq, Repr

/-- The answers to one call, in the order in which it asks; `waitFor` is `wait_for`'s. -/
structure Answers where
  polls : Nat → PollStatus
  sleeps : Nat → NanoSleep
  waitFor : Int

/-- What a call leaves: its result, `exit_code`, and the number of its sleeps. -/
structure WaitReturn where
  result : Bool
  exitCode : Int
  sleeps : Nat
  deriving DecidableEq, Repr

def pollNs (pollIntervalMs : Int) : Int := max 1 pollIntervalMs * 1000000

/-- `remaining_ns` after a sleep. -/
def NanoSleep.charge (pollNs remaining : Int) : NanoSleep → Int
  | .full => remaining - pollNs
  | .eintr rem => remaining - (pollNs - rem.ns)

/-- The loop and the poll after it, which is one more turn of it without the sleep; `k`
    sleeps are behind. -/
def waitLoop (a : Answers) (exitCode pollNs : Int) : Nat → Nat → Int → Option WaitReturn
  | 0, _, _ => none
  | turns + 1, k, remaining =>
    match (a.polls k).exit with
    | some code => some ⟨true, code, k⟩
    | none =>
      if 0 < remaining then waitLoop a exitCode pollNs turns (k + 1) ((a.sleeps k).charge pollNs remaining)
      else some ⟨false, exitCode, k⟩

def waitTimeoutMs (a : Answers) (timeoutMs exitCode pollIntervalMs : Int) (turns : Nat) : Option WaitReturn :=
  if timeoutMs < 0 then some ⟨true, a.waitFor, 0⟩
  else waitLoop a exitCode (pollNs pollIntervalMs) turns 0 (timeoutMs * 1000000)

/-! ## The time slept -/

/-- The time from the start of a sleep, asked for `pollNs`, to its end. -/
def NanoSleep.time (pollNs : Int) : NanoSleep → Int
  | .full => (Timespec.of pollNs).ns
  | .eintr rem => (Timespec.of pollNs).ns - rem.ns

/-- The time of the first `k` sleeps. -/
def Answers.slept (a : Answers) (pollNs : Int) : Nat → Int
  | 0 => 0
  | k + 1 => a.slept pollNs k + (a.sleeps k).time pollNs

/-- An interrupted sleep has a remainder smaller than the request. -/
def Answers.Within (a : Answers) (pollNs : Int) : Prop :=
  ∀ k rem, a.sleeps k = .eintr rem → 0 ≤ rem.ns ∧ rem.ns < pollNs

/-- No sleep that begins with the child alive and time left takes more than is left: the
    interval it is asked for has to fit, or an interruption to cut it short
    (`budget_of_full`). -/
def Answers.NoOvershoot (a : Answers) (pollNs timeoutNs : Int) : Prop :=
  ∀ k, (∀ j, j ≤ k → a.polls j = .alive) → a.slept pollNs k < timeoutNs →
    (a.sleeps k).time pollNs ≤ timeoutNs - a.slept pollNs k

structure WithinBudget (a : Answers) (timeoutMs exitCode pollIntervalMs : Int) (r : WaitReturn) : Prop where
  most : a.slept (pollNs pollIntervalMs) r.sleeps ≤ timeoutMs * 1000000
  least : r.result = false → timeoutMs * 1000000 ≤ a.slept (pollNs pollIntervalMs) r.sleeps
  exitCode : r.result = false → r.exitCode = exitCode

section

variable {a : Answers} {pollNs timeoutNs exitCode : Int}

theorem exit_eq_none_iff {p : PollStatus} : p.exit = none ↔ p = .alive := by
  cases p <;> simp [PollStatus.exit]

@[simp]
theorem ns_of (ns : Int) : (Timespec.of ns).ns = ns := by
  show ns / 1000000000 * 1000000000 + ns % 1000000000 = ns
  omega

theorem charge_eq (remaining : Int) (o : NanoSleep) : o.charge pollNs remaining = remaining - o.time pollNs := by
  cases o <;> simp [NanoSleep.charge, NanoSleep.time]

theorem time_pos (hpos : 0 < pollNs) (hw : a.Within pollNs) (k : Nat) : 0 < (a.sleeps k).time pollNs := by
  cases hs : a.sleeps k with
  | full =>
    rw [NanoSleep.time, ns_of]
    exact hpos
  | eintr rem =>
    have := hw k rem hs
    rw [NanoSleep.time, ns_of]
    omega

theorem slept_mono (hpos : 0 < pollNs) (hw : a.Within pollNs) {j k : Nat} (h : j ≤ k) :
    a.slept pollNs j ≤ a.slept pollNs k := by
  induction h with
  | refl => exact Int.le_refl _
  | step _ ih =>
    rename_i m _
    have := time_pos hpos hw m
    rw [Answers.slept]
    omega

theorem le_slept (hpos : 0 < pollNs) (hw : a.Within pollNs) (k : Nat) : (k : Int) ≤ a.slept pollNs k := by
  induction k with
  | zero => exact Int.le_refl _
  | succ k ih =>
    have := time_pos hpos hw k
    rw [Answers.slept]
    omega

/-- Where the loop ends: its sleeps were begun with the child alive and time left. -/
theorem waitLoop_spec {turns k : Nat} {remaining : Int} {r : WaitReturn} (hrem : remaining = timeoutNs - a.slept pollNs k)
    (h : waitLoop a exitCode pollNs turns k remaining = some r) :
    k ≤ r.sleeps ∧ (∀ j, k ≤ j → j < r.sleeps → a.polls j = .alive ∧ a.slept pollNs j < timeoutNs) ∧
      (r.result = false → a.polls r.sleeps = .alive ∧ timeoutNs ≤ a.slept pollNs r.sleeps ∧ r.exitCode = exitCode) ∧
      (r.result = true → (a.polls r.sleeps).exit = some r.exitCode) := by
  induction turns generalizing k remaining with
  | zero => cases h
  | succ turns ih =>
    rw [waitLoop] at h
    cases hp : (a.polls k).exit with
    | some code =>
      rw [hp] at h
      cases h
      exact ⟨Nat.le_refl k, fun j hkj hjk => absurd hjk (Nat.not_lt.mpr hkj), nofun, fun _ => hp⟩
    | none =>
      have halive := exit_eq_none_iff.mp hp
      rw [hp] at h
      by_cases hpos : 0 < remaining
      · simp only [if_pos hpos] at h
        obtain ⟨hle, hbegun, hfalse, htrue⟩ := ih (by rw [charge_eq, Answers.slept]; omega) h
        refine ⟨by omega, ?_, hfalse, htrue⟩
        intro j hkj hjr
        rcases Nat.lt_or_ge k j with hlt | hge
        · exact hbegun j hlt hjr
        · obtain rfl : j = k := by omega
          exact ⟨halive, by omega⟩
      · simp only [if_neg hpos] at h
        cases h
        have hup : timeoutNs ≤ a.slept pollNs k := by omega
        exact ⟨Nat.le_refl k, fun j hkj hjk => absurd hjk (Nat.not_lt.mpr hkj), fun _ => ⟨halive, hup, rfl⟩, nofun⟩

/-- The loop ends: each sleep takes some of the time, and one turn is left for the last poll. -/
theorem waitLoop_ends (hpos : 0 < pollNs) (hw : a.Within pollNs) {turns k : Nat} {remaining : Int} (hone : 0 < turns)
    (hrem : remaining = timeoutNs - a.slept pollNs k) (hturns : timeoutNs < a.slept pollNs k + turns) :
    ∃ r, waitLoop a exitCode pollNs turns k remaining = some r := by
  induction turns generalizing k remaining with
  | zero => exact absurd hone (Nat.lt_irrefl 0)
  | succ turns ih =>
    rw [waitLoop]
    cases hp : (a.polls k).exit with
    | some code => exact ⟨_, rfl⟩
    | none =>
      by_cases hleft : 0 < remaining
      · have htime := time_pos hpos hw k
        simp only [if_pos hleft]
        refine ih (by omega) ?_ ?_
        · rw [charge_eq, Answers.slept]
          omega
        · rw [Answers.slept]
          omega
      · simp only [if_neg hleft]
        exact ⟨_, rfl⟩

theorem waitLoop_mono {turns more k : Nat} (hle : turns ≤ more) {remaining : Int} {r : WaitReturn}
    (h : waitLoop a exitCode pollNs turns k remaining = some r) : waitLoop a exitCode pollNs more k remaining = some r := by
  induction turns generalizing more k remaining with
  | zero => cases h
  | succ turns ih =>
    obtain ⟨more, rfl⟩ : ∃ m, more = m + 1 := ⟨more - 1, by omega⟩
    rw [waitLoop] at h ⊢
    cases hp : (a.polls k).exit with
    | some code =>
      rw [hp] at h
      exact h
    | none =>
      rw [hp] at h
      by_cases hleft : 0 < remaining
      · simp only [if_pos hleft] at h ⊢
        exact ih (by omega) h
      · simp only [if_neg hleft] at h ⊢
        exact h

/-- The loop stays within the timeout exactly when no sleep oversteps it. -/
theorem slept_le_iff (hpos : 0 < pollNs) (hw : a.Within pollNs) {turns : Nat} {r : WaitReturn} (hzero : 0 ≤ timeoutNs)
    (h : waitLoop a exitCode pollNs turns 0 timeoutNs = some r) :
    a.slept pollNs r.sleeps ≤ timeoutNs ↔ a.NoOvershoot pollNs timeoutNs := by
  obtain ⟨-, hbegun, hfalse, htrue⟩ := waitLoop_spec (k := 0) (Int.sub_zero _).symm h
  constructor
  · intro hle k halive hlt
    -- a sleep begun in time is one of the call's
    have hk : k < r.sleeps := by
      by_contra hge
      have hge := Nat.not_lt.mp hge
      cases hr : r.result with
      | true =>
        have hexit := htrue hr
        rw [halive _ hge] at hexit
        cases hexit
      | false =>
        have hup := (hfalse hr).2.1
        have := slept_mono hpos hw hge
        omega
    have hend := Int.le_trans (slept_mono hpos hw hk) hle
    rw [Nat.succ_eq_add_one, Answers.slept] at hend
    omega
  · intro hno
    cases hn : r.sleeps with
    | zero => exact hzero
    | succ n =>
      have hfits := hno n (fun j hj => (hbegun j (Nat.zero_le j) (by omega)).1) (hbegun n (Nat.zero_le n) (by omega)).2
      rw [Answers.slept]
      omega

end

/-- For every timeout from 0 on, every interval, and all ends of sleeps: the call returns,
    `exit_code` is set only if it returns true, all of the timeout was slept if it returns
    false, and no more than the timeout exactly when no sleep oversteps it. -/
theorem wait_budget_iff (a : Answers) (timeoutMs exitCode pollIntervalMs : Int) (htimeout : 0 ≤ timeoutMs)
    (hw : a.Within (pollNs pollIntervalMs)) :
    ∃ r, (∀ turns, (timeoutMs * 1000000).toNat < turns → waitTimeoutMs a timeoutMs exitCode pollIntervalMs turns = some r) ∧
      (WithinBudget a timeoutMs exitCode pollIntervalMs r ↔ a.NoOvershoot (pollNs pollIntervalMs) (timeoutMs * 1000000)) := by
  have hpos : 0 < pollNs pollIntervalMs := by
    unfold pollNs
    omega
  have hzero : 0 ≤ timeoutMs * 1000000 := by omega
  obtain ⟨r, hr⟩ : ∃ r, waitLoop a exitCode (pollNs pollIntervalMs) ((timeoutMs * 1000000).toNat + 1) 0 (timeoutMs * 1000000) =
      some r := by
    refine waitLoop_ends hpos hw (Nat.succ_pos _) (Int.sub_zero _).symm ?_
    rw [Answers.slept]
    omega
  obtain ⟨-, -, hfalse, -⟩ := waitLoop_spec (k := 0) (Int.sub_zero _).symm hr
  refine ⟨r, ?_, ?_⟩
  · intro turns hturns
    rw [waitTimeoutMs, if_neg (by omega)]
    exact waitLoop_mono hturns hr
  · rw [← slept_le_iff hpos hw hzero hr]
    constructor
    · exact WithinBudget.most
    · intro hle
      exact ⟨hle, fun hf => (hfalse hf).2.1, fun hf => (hfalse hf).2.2⟩

/-- A child that runs on, and sleeps to their end. -/
def runsOn : Answers := ⟨fun _ => .alive, fun _ => .full, 0⟩

theorem runsOn_within (pollNs : Int) : runsOn.Within pollNs := fun _ _ h => nomatch h

theorem slept_runsOn (pollNs : Int) (k : Nat) : runsOn.slept pollNs k = k * pollNs := by
  induction k with
  | zero => exact (Int.zero_mul _).symm
  | succ k ih =>
    have htime : (runsOn.sleeps k).time pollNs = pollNs := ns_of pollNs
    rw [Answers.slept, ih, htime, Int.natCast_succ, Int.add_mul, Int.one_mul]

/-- Three milliseconds in intervals of five: it sleeps five. -/
theorem sleeps_over :
    waitTimeoutMs runsOn 3 7 5 2 = some ⟨false, 7, 1⟩ ∧ runsOn.slept (pollNs 5) 1 = 5 * 1000000 ∧
      ¬ WithinBudget runsOn 3 7 5 ⟨false, 7, 1⟩ := by
  refine ⟨by decide, by decide, ?_⟩
  intro h
  exact absurd h.most (by decide)

/-- With a child that runs on and no interruption, the timeout has to be a multiple of the
    interval. -/
theorem budget_of_full (timeoutMs pollIntervalMs : Int) (htimeout : 0 ≤ timeoutMs) :
    runsOn.NoOvershoot (pollNs pollIntervalMs) (timeoutMs * 1000000) ↔ max 1 pollIntervalMs ∣ timeoutMs := by
  have hslept : ∀ k, runsOn.slept (pollNs pollIntervalMs) k = k * max 1 pollIntervalMs * 1000000 := by
    intro k
    rw [slept_runsOn, pollNs, Int.mul_assoc]
  have htime : ∀ k, (runsOn.sleeps k).time (pollNs pollIntervalMs) = max 1 pollIntervalMs * 1000000 := fun _ => ns_of _
  have hpos : 0 < max 1 pollIntervalMs := by omega
  generalize max 1 pollIntervalMs = n at hslept htime hpos
  constructor
  · intro h
    -- the last multiple of the interval that is not beyond the timeout
    have hdiv := Int.mul_ediv_add_emod timeoutMs n
    have hmod := Int.emod_nonneg timeoutMs (Int.ne_of_gt hpos)
    have hlt := Int.emod_lt_of_pos timeoutMs hpos
    have hq : ((timeoutMs / n).toNat : Int) = timeoutMs / n := Int.toNat_of_nonneg (Int.ediv_nonneg htimeout (Int.le_of_lt hpos))
    have hmul : timeoutMs / n * n = n * (timeoutMs / n) := Int.mul_comm _ _
    by_contra hnot
    have hne : timeoutMs % n ≠ 0 := fun h0 => hnot (Int.dvd_of_emod_eq_zero h0)
    have hover := h (timeoutMs / n).toNat (fun _ _ => rfl) (by
      rw [hslept, hq, hmul]
      omega)
    rw [htime, hslept, hq, hmul] at hover
    omega
  · intro h k _ hlt
    obtain ⟨q, rfl⟩ := h
    rw [hslept] at hlt
    rw [htime, hslept]
    have hkq : (k : Int) < q := by
      by_contra hge
      have := Int.mul_le_mul_of_nonneg_left (Int.not_lt.mp hge) (Int.le_of_lt hpos)
      have hcomm : (k : Int) * n = n * k := Int.mul_comm _ _
      omega
    have hle := Int.mul_le_mul_of_nonneg_left (Int.add_one_le_of_lt hkq) (Int.le_of_lt hpos)
    have hnext : n * ((k : Int) + 1) = k * n + n := by
      rw [Int.mul_add, Int.mul_one, Int.mul_comm]
    omega

/-- Six milliseconds in intervals of three. -/
theorem wait_budget_iff_six :
    ∃ r, (∀ turns, 6000000 < turns → waitTimeoutMs runsOn 6 7 3 turns = some r) ∧ WithinBudget runsOn 6 7 3 r := by
  obtain ⟨r, hr, hiff⟩ := wait_budget_iff runsOn 6 7 3 (by decide) (runsOn_within _)
  exact ⟨r, hr, hiff.mpr ((budget_of_full 6 3 (by decide)).mpr (by decide))⟩

/-! ## Beside the rest of the program -/

def State.pollStatus (s : State) (i : Nat) : PollStatus :=
  match s.waitid (s.pid i) with
  | .exited _ st => .status st.code
  | .gone => .echild
  | .alive => .alive

def NanoSleep.left : NanoSleep → Int
  | .full => 0
  | .eintr rem => rem.ns

/-- A turn there is a turn of the loop: the poll ends the call or not as here, and what
    remains after the sleep is the same. -/
theorem resume_turn (s t : State) (i : Nat) (left remaining interval : Int) (o : NanoSleep) :
    (∀ w, s.resumeTimed i left (.poll remaining interval) = some w →
      ((s.pollStatus i).exit = none ∧ 0 < remaining ↔ w.wait = some (i, .sleep remaining interval))) ∧
      t.resumeTimed i o.left (.sleep remaining interval) =
        some { base := t, wait := some (i, .poll (o.charge interval remaining) interval) } := by
  constructor
  · intro w hw
    unfold State.pollStatus
    simp only [State.resumeTimed] at hw
    cases hp : s.waitid (s.pid i) with
    | exited j st =>
      rw [hp] at hw
      cases hw
      simp [PollStatus.exit]
    | gone =>
      rw [hp] at hw
      cases hw
      simp [PollStatus.exit]
    | alive =>
      rw [hp] at hw
      cases hw
      simp [PollStatus.exit]
  · cases o with
    | full =>
      rw [NanoSleep.charge, NanoSleep.left, State.resumeTimed, Int.sub_zero]
    | eintr rem => rfl

end CovProcess.Handle
