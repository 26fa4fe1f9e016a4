/-
  CovProcess.Handle.WaitPoll — `wait_poll` and `wait_with` of `process_type`
  (`process.cpp`) over the methods of `CovProcess.Handle.Model`.

  A `Host` is what surrounds a call: the readings of `steady_clock` (signed 64-bit
  nanoseconds), whether the script runs in a fiber, and what becomes of the program in a
  yield, a sleep or a callback, which is any change of the state. The two differ in what
  they do between polls and share the loop.

  The deadline is computed modulo 2^64 and not checked.

  Proved: `null_past_timeout_iff`, neither returns null early exactly when the clock and the
  timeout in nanoseconds add up to less than 2^63; `pollLoop_ends`, a call ends when the
  clock reaches its deadline; `waitBetween_waits`, where what happens between polls are runs
  of the system, these are the calls of `CovProcess.Handle.ExitCheck`.
-/

import CovProcess.Handle.ExitCheck
import CovProcess.Lib.SteadyClock

namespace CovProcess.Handle

open SteadyClock

/-! ## What surrounds a call -/

structure Host where
  clock : SteadyClock
  /-- The script runs in a fiber of a runtime that has them. -/
  inFiber : Bool
  /-- What the program does in the `k`-th yield and in the `k`-th sleep of a call. -/
  fiberYield : Nat → State → State
  sleepFor : Nat → Int → State → State
  /-- The `k`-th `on_wait()`; an error is an exception. -/
  onWait : Nat → State → Except State State

/-- What a call returns: what `collect_wait` makes of the state, null after a number of
    clock readings, or the exception of a callback. -/
inductive Waited where
  | collect (s : State)
  | null (s : State) (reading : Nat)
  | thrown (s : State)

/-! ## The calls -/

namespace Host

def csRuntimeYield (h : Host) (fallbackSleepMs : Int) (k : Nat) (s : State) : State :=
  if h.inFiber then h.fiberYield k s
  else if 0 < fallbackSleepMs then h.sleepFor k fallbackSleepMs s
  else s

/-- The loop under a deadline; `k` readings of the clock come before it. -/
def pollLoop (h : Host) (between : Nat → State → Except State State) (i : Nat) (deadline : Int) :
    Nat → Nat → State → Option Waited
  | 0, _, _ => none
  | turns + 1, k, s =>
    if h.clock.now k < deadline then
      match between k s with
      | .error s => some (.thrown s)
      | .ok s =>
        if (s.pollWait i).2 then some (.collect ((s.pollWait i).1.collectWait i))
        else pollLoop h between i deadline turns (k + 1) (s.pollWait i).1
    else some (.null s k)

/-- The loop without one. -/
def pollForever (between : Nat → State → Except State State) (i : Nat) : Nat → Nat → State → Option Waited
  | 0, _, _ => none
  | turns + 1, k, s =>
    if (s.pollWait i).2 then some (.collect ((s.pollWait i).1.collectWait i))
    else
      match between k (s.pollWait i).1 with
      | .error s => some (.thrown s)
      | .ok s => pollForever between i turns (k + 1) s

/-- Their common part. -/
def waitBetween (h : Host) (between : Nat → State → Except State State) (s : State) (i : Nat) (queued : Bool)
    (timeoutMs : Int) (turns : Nat) : Option Waited :=
  let s := s.beginWait i queued
  if (s.pollWait i).2 then some (.collect ((s.pollWait i).1.collectWait i))
  else if timeoutMs < 0 then pollForever between i turns 1 (s.pollWait i).1
  else h.pollLoop between i (deadline (h.clock.now 0) timeoutMs) turns 1 (s.pollWait i).1

/-- `queued` is whether the submission of the wait work succeeds. -/
def waitPoll (h : Host) (s : State) (i : Nat) (queued : Bool) (timeoutMs pollIntervalMs : Int) (turns : Nat) :
    Option Waited :=
  h.waitBetween (fun k s => .ok (h.csRuntimeYield (max 1 pollIntervalMs) k s)) s i queued timeoutMs turns

def waitWith (h : Host) (s : State) (i : Nat) (queued : Bool) (timeoutMs : Int) (turns : Nat) : Option Waited :=
  h.waitBetween h.onWait s i queued timeoutMs turns

end Host

/-- A call that returns null has seen the clock advance by the whole timeout since the
    deadline was computed, whatever surrounds it. -/
def NullPastTimeout (wait : Host → State → Nat → Bool → Nat → Option Waited) (timeoutMs t₀ : Int) : Prop :=
  ∀ (h : Host) s i queued turns s' reading, h.clock.now 0 = t₀ →
    wait h s i queued turns = some (.null s' reading) → timeoutMs * 1000000 ≤ h.clock.now reading - h.clock.now 0

/-! ## The loop -/

section

variable {h : Host} {between : Nat → State → Except State State} {i : Nat} {d : Int}

/-- Null comes of a reading that is not before the deadline. -/
theorem pollLoop_null {turns k : Nat} {s s' : State} {reading : Nat}
    (hn : h.pollLoop between i d turns k s = some (.null s' reading)) : d ≤ h.clock.now reading := by
  induction turns generalizing k s with
  | zero => cases hn
  | succ turns ih =>
    rw [Host.pollLoop] at hn
    by_cases hlt : h.clock.now k < d
    · rw [if_pos hlt] at hn
      cases hb : between k s with
      | error t =>
        rw [hb] at hn
        cases hn
      | ok t =>
        rw [hb] at hn
        by_cases hp : (t.pollWait i).2 = true
        · simp only [if_pos hp] at hn
          cases hn
        · simp only [if_neg hp] at hn
          exact ih hn
    · rw [if_neg hlt] at hn
      cases hn
      exact Int.not_lt.mp hlt

/-- A turn for each reading up to one that is not before the deadline is enough. -/
theorem pollLoop_ends {n k : Nat} (hd : d ≤ h.clock.now (k + n)) (s : State) :
    ∃ w, h.pollLoop between i d (n + 1) k s = some w := by
  induction n generalizing k s with
  | zero =>
    rw [Nat.add_zero] at hd
    rw [Host.pollLoop, if_neg (Int.not_lt.mpr hd)]
    exact ⟨_, rfl⟩
  | succ n ih =>
    rw [Host.pollLoop]
    by_cases hlt : h.clock.now k < d
    · rw [if_pos hlt]
      cases between k s with
      | error t => exact ⟨_, rfl⟩
      | ok t =>
        by_cases hp : (t.pollWait i).2 = true
        · simp only [if_pos hp]
          exact ⟨_, rfl⟩
        · simp only [if_neg hp]
          exact ih (by rwa [Nat.add_right_comm]) _
    · rw [if_neg hlt]
      exact ⟨_, rfl⟩

end

theorem waitBetween_null {h : Host} {between : Nat → State → Except State State} {s s' : State} {i turns reading : Nat}
    {queued : Bool} {timeoutMs : Int} (htimeout : 0 ≤ timeoutMs)
    (hn : h.waitBetween between s i queued timeoutMs turns = some (.null s' reading)) :
    deadline (h.clock.now 0) timeoutMs ≤ h.clock.now reading := by
  rw [Host.waitBetween] at hn
  by_cases hp : ((s.beginWait i queued).pollWait i).2 = true
  · simp only [if_pos hp] at hn
    cases hn
  · simp only [if_neg hp, if_neg (Int.not_lt.mpr htimeout)] at hn
    exact pollLoop_null hn

/-! ## Among the other threads -/

/-- The same result there; a list of turns that is used up is a call that has not returned. -/
def Polled.waits : Polled → Option Waited → Prop
  | .null, w => ∃ s reading, w = some (.null s reading)
  | .collecting s, w => w = some (.collect s)
  | .polling _, w => w = none

section

variable {cfg : Config} {h : Host} {between : Nat → State → Except State State} {i : Nat}

/-- Between polls the system runs, and the clock reads what it reads at each turn. -/
structure Follows (cfg : Config) (h : Host) (between : Nat → State → Except State State) (k : Nat)
    (turns : List (Int64 × List Event)) : Prop where
  clock : ∀ n turn, turns[n]? = some turn → h.clock.now (k + n) = turn.1.toInt
  between : ∀ n turn, turns[n]? = some turn → ∀ s t, Runs.exec (step cfg) s turn.2 = some t → between (k + n) s = .ok t

theorem Follows.tail {k : Nat} {turn : Int64 × List Event} {turns : List (Int64 × List Event)}
    (hf : Follows cfg h between k (turn :: turns)) : Follows cfg h between (k + 1) turns where
  clock n turn hn := by
    have := hf.clock (n + 1) turn hn
    rwa [Nat.add_right_comm, Nat.add_assoc]
  between n turn hn := by
    have := hf.between (n + 1) turn hn
    rwa [Nat.add_right_comm, Nat.add_assoc]

theorem pollLoop_waits {turns : List (Int64 × List Event)} {k : Nat} (hf : Follows cfg h between k turns) {d : Int64}
    {s : State} {p : Polled} (hp : Handle.pollLoop cfg i (some d) s turns = some p) :
    p.waits (h.pollLoop between i d.toInt turns.length k s) := by
  induction turns generalizing k s with
  | nil =>
    cases hp
    rfl
  | cons turn turns ih =>
    obtain ⟨now, es⟩ := turn
    have hnow : h.clock.now k = now.toInt := hf.clock 0 _ rfl
    rw [Handle.pollLoop] at hp
    rw [List.length_cons, Host.pollLoop, hnow]
    by_cases hlt : now < d
    · rw [if_neg (by simp [hlt])] at hp
      obtain ⟨t, ht, hp⟩ := Option.bind_eq_some_iff.mp hp
      have hbetween : between k s = .ok t := hf.between 0 _ rfl s t ht
      rw [if_pos (Int64.lt_iff_toInt_lt.mp hlt), hbetween]
      simp only [State.pollOnce, State.tryWait] at hp
      by_cases hexit : (t.pollWait i).2 = true
      · simp only [if_pos hexit] at hp ⊢
        cases hp
        rfl
      · simp only [if_neg hexit] at hp ⊢
        exact ih hf.tail hp
    · rw [if_pos (by simp [hlt])] at hp
      cases hp
      rw [if_neg (fun hlt' => hlt (Int64.lt_iff_toInt_lt.mpr hlt'))]
      exact ⟨_, _, rfl⟩

theorem deadline_toInt (now timeoutMs : Int64) :
    (now + timeoutMs * 1000000).toInt = deadline now.toInt timeoutMs.toInt := by
  rw [Int64.toInt_add, Int64.toInt_mul]
  rfl

/-- A call there is a call here. -/
theorem waitBetween_waits {turns : List (Int64 × List Event)} (hf : Follows cfg h between 1 turns) {s : State}
    {queued : Bool} {now timeoutMs : Int64} (hnow : h.clock.now 0 = now.toInt) (htimeout : 0 ≤ timeoutMs) {p : Polled}
    (hp : Handle.waitPoll cfg s i queued timeoutMs [] now turns = some p) :
    p.waits (h.waitBetween between s i queued timeoutMs.toInt turns.length) := by
  have hzero : 0 ≤ timeoutMs.toInt := Int64.le_iff_toInt_le.mp htimeout
  have hpos : ¬ timeoutMs < 0 := fun hlt => by
    have := Int64.lt_iff_toInt_lt.mp hlt
    rw [Int64.toInt_zero] at this
    omega
  have hnil : Runs.exec (step cfg) (s.beginWait i queued) [] = some (s.beginWait i queued) := rfl
  rw [Handle.waitPoll, hnil, Option.bind_some] at hp
  rw [Host.waitBetween]
  simp only [State.pollOnce, State.tryWait] at hp
  by_cases hexit : ((s.beginWait i queued).pollWait i).2 = true
  · simp only [if_pos hexit] at hp ⊢
    cases hp
    rfl
  · simp only [if_neg hexit, if_neg hpos] at hp
    simp only [if_neg hexit, if_neg (Int.not_lt.mpr hzero), hnow, ← deadline_toInt]
    exact pollLoop_waits hf hp

end

/-! ## The timeout -/

/-- A handle whose child runs on. -/
def oneAlive : State where
  n := 1
  handle := fun _ => { info := { pid := 1 } }
  procs := Function.update (fun _ => none) 1 (some ⟨some 0, 0⟩)

theorem pollWait_oneAlive (queued : Bool) : ((oneAlive.beginWait 0 queued).pollWait 0).2 = false := by
  cases queued <;> rfl

/-- A clock at the end of its range from the second reading on. -/
def lastClock (t₀ : Int) (hlo : -2 ^ 63 ≤ t₀) (hhi : t₀ < 2 ^ 63) : SteadyClock where
  now k := if k = 0 then t₀ else 2 ^ 63 - 1
  mono j k hjk := by
    by_cases hj : j = 0
    · rw [if_pos hj]
      split <;> omega
    · rw [if_neg hj, if_neg (by omega)]
  lower k := by
    by_cases h : k = 0
    · rwa [if_pos h]
    · rw [if_neg h]
      decide
  upper k := by
    by_cases h : k = 0
    · rwa [if_pos h]
    · rw [if_neg h]
      decide

/-- Nothing happens beside the call. -/
def quiet (clock : SteadyClock) : Host where
  clock := clock
  inFiber := false
  fiberYield _ s := s
  sleepFor _ _ s := s
  onWait _ s := .ok s

/-- With a deadline that is not ahead at the first turn, the call returns null there. -/
theorem waitBetween_at_once (h : Host) (between : Nat → State → Except State State) (queued : Bool) {timeoutMs : Int}
    (htimeout : 0 ≤ timeoutMs) (hd : deadline (h.clock.now 0) timeoutMs ≤ h.clock.now 1) :
    h.waitBetween between oneAlive 0 queued timeoutMs 1 =
      some (.null ((oneAlive.beginWait 0 queued).pollWait 0).1 1) := by
  rw [Host.waitBetween]
  simp only [pollWait_oneAlive, Bool.false_eq_true, if_false, if_neg (Int.not_lt.mpr htimeout)]
  rw [Host.pollLoop, if_neg (Int.not_lt.mpr hd)]

/-- For what either does between polls. -/
theorem null_past_iff (between : Host → Nat → State → Except State State) {timeoutMs t₀ : Int} (htimeout : 0 ≤ timeoutMs)
    (hlo : -2 ^ 63 ≤ t₀) (hhi : t₀ < 2 ^ 63) :
    NullPastTimeout (fun h s i queued turns => h.waitBetween (between h) s i queued timeoutMs turns) timeoutMs t₀ ↔
      t₀ + timeoutMs * 1000000 < 2 ^ 63 := by
  constructor
  · intro hkeeps
    by_contra hover
    let h := quiet (lastClock t₀ hlo hhi)
    have hlast : h.clock.now 1 = 2 ^ 63 - 1 := rfl
    have hd : deadline (h.clock.now 0) timeoutMs ≤ h.clock.now 1 := by
      have : deadline (h.clock.now 0) timeoutMs < 2 ^ 63 := wrap64_lt _
      omega
    have hpast := hkeeps h oneAlive 0 true 1 _ 1 rfl (waitBetween_at_once h (between h) true htimeout hd)
    have hfirst : h.clock.now 0 = t₀ := rfl
    omega
  · intro hfits h s i queued turns s' reading ht hn
    have hd := waitBetween_null htimeout hn
    rw [ht, deadline_eq hlo htimeout hfits] at hd
    omega

/-- For every timeout from 0 on and every reading of the clock: neither call returns null
    early exactly when the deadline is within the clock's range. -/
theorem null_past_timeout_iff (timeoutMs pollIntervalMs t₀ : Int) (htimeout : 0 ≤ timeoutMs) (hlo : -2 ^ 63 ≤ t₀)
    (hhi : t₀ < 2 ^ 63) :
    (NullPastTimeout (fun h s i queued turns => h.waitPoll s i queued timeoutMs pollIntervalMs turns) timeoutMs t₀ ↔
        t₀ + timeoutMs * 1000000 < 2 ^ 63) ∧
      (NullPastTimeout (fun h s i queued turns => h.waitWith s i queued timeoutMs turns) timeoutMs t₀ ↔
        t₀ + timeoutMs * 1000000 < 2 ^ 63) :=
  ⟨null_past_iff (fun h k s => .ok (h.csRuntimeYield (max 1 pollIntervalMs) k s)) htimeout hlo hhi,
    null_past_iff Host.onWait htimeout hlo hhi⟩

theorem null_past_timeout_iff_second :
    NullPastTimeout (fun h s i queued turns => h.waitPoll s i queued 1000 5 turns) 1000 0 ∧
      NullPastTimeout (fun h s i queued turns => h.waitWith s i queued 1000 turns) 1000 0 := by
  obtain ⟨hpoll, hwith⟩ := null_past_timeout_iff 1000 5 0 (by decide) (by decide) (by decide)
  exact ⟨hpoll.mpr (by decide), hwith.mpr (by decide)⟩

def stoppedClock : SteadyClock where
  now _ := 1000000000
  mono _ _ _ := Int.le_refl _
  lower _ := by decide
  upper _ := by decide

/-- The longest timeout there is: the deadline is a millisecond ago, and both return null
    at once. -/
theorem null_at_once :
    deadline 1000000000 (2 ^ 63 - 1) = 1000000000 - 1000000 ∧
      (∃ s, (quiet stoppedClock).waitPoll oneAlive 0 true (2 ^ 63 - 1) 5 1 = some (.null s 1)) ∧
      (∃ s, (quiet stoppedClock).waitWith oneAlive 0 true (2 ^ 63 - 1) 1 = some (.null s 1)) ∧
      ¬ NullPastTimeout (fun h s i queued turns => h.waitPoll s i queued (2 ^ 63 - 1) 5 turns) (2 ^ 63 - 1) 1000000000 ∧
      ¬ NullPastTimeout (fun h s i queued turns => h.waitWith s i queued (2 ^ 63 - 1) turns) (2 ^ 63 - 1) 1000000000 := by
  have hlongest : (0 : Int) ≤ 2 ^ 63 - 1 := by decide
  have hbehind : deadline ((quiet stoppedClock).clock.now 0) (2 ^ 63 - 1) ≤ (quiet stoppedClock).clock.now 1 := by decide
  have hpoll := waitBetween_at_once (quiet stoppedClock)
    (fun k s => .ok ((quiet stoppedClock).csRuntimeYield (max 1 5) k s)) true hlongest hbehind
  have hwith := waitBetween_at_once (quiet stoppedClock) (quiet stoppedClock).onWait true hlongest hbehind
  refine ⟨by decide, ⟨_, hpoll⟩, ⟨_, hwith⟩, ?_, ?_⟩
  · intro hkeeps
    exact absurd (hkeeps _ oneAlive 0 true 1 _ 1 rfl hpoll) (by decide)
  · intro hkeeps
    exact absurd (hkeeps _ oneAlive 0 true 1 _ 1 rfl hwith) (by decide)

end CovProcess.Handle
