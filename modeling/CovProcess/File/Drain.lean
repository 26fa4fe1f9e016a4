/-
  CovProcess.File.Drain — `uv_wait_fs_with_deadline` (`process.cpp`) one action at a time,
  inside the `read`, `write` and `flush` that call it: what libuv still holds when it
  returns, and when the request and its buffer are freed.

  Any number of fibers on one loop thread. A fiber gives the thread up only where it yields;
  there others make their calls and drive the loop, and whoever drives it has it run the
  callbacks of any requests that are ready. Threads of the pool move at any time. A cancel
  is accepted only for a request in the queue, whose callback is then ready. In
  `CovProcess.File.Model` a whole round is one event.

  `readings` records every reading of the clock, the one that sets the deadline first, and
  whether libuv held the request when it was made.

  Proved: `wait_drains`, over every run of any calls.
-/

import CovProcess.File.Model
import CovProcess.Lib.SteadyClock

namespace CovProcess.File.Drain

/-! ## A call -/

inductive Op where
  | read
  | write
  | flush
  deriving DecidableEq, Repr

/-- Who frees the buffer of a request: the call at its end (`buf`), `delete bundle`
    (`write_data`), or whoever called, later (`data`). -/
inductive Owner where
  | frame
  | bundle
  | caller
  | absent
  deriving DecidableEq, Repr

def Op.owner (deadlineMs : Int) : Op → Owner
  | .read => .frame
  | .write => if 0 ≤ deadlineMs then .bundle else .caller
  | .flush => .absent

/-- libuv's side of a request; a `posted` one waits for its callback. -/
inductive Phase where
  | idle
  | queued
  | executing
  | posted (result : Int)
  | called
  deriving DecidableEq, Repr

/-- libuv uses the request and its buffer. -/
def Phase.Held (p : Phase) : Prop := p ≠ .idle ∧ p ≠ .called

instance : DecidablePred Phase.Held := fun p => inferInstanceAs (Decidable (p ≠ .idle ∧ p ≠ .called))

/-- The next action of the thread. -/
inductive Pc where
  | submit
  | start
  | test
  | run
  | check
  | compare
  | cancel
  | yield
  | yielded
  | delete
  | ret
  | over
  deriving DecidableEq, Repr

def Pc.ended (p : Pc) : Prop := p = .delete ∨ p = .ret ∨ p = .over

/-- Inside the wait, and not at its cancel. -/
def Pc.waits : Pc → Bool
  | .submit => false
  | .cancel => false
  | .delete => false
  | .ret => false
  | .over => false
  | _ => true

/-- A reading of the clock, in nanoseconds, and whether the request was pending then. -/
structure Reading where
  now : Int
  pending : Bool

structure Call where
  op : Op
  deadlineMs : Int
  pc : Pc := .submit
  req : Phase := .idle
  done : Bool := false
  result : Int := UV_ECANCELED
  deadline : Int := 0
  deadlineReached : Bool := false
  /-- What the wait returned. -/
  onTime : Option Bool := none
  /-- Not freed yet. -/
  bundle : Bool := true
  buffer : Bool := true
  callbacks : Nat := 0
  cancels : Nat := 0
  /-- Oldest first. -/
  readings : List Reading := []

/-- What the thread does by itself: `go` is an action with nothing to ask. -/
inductive Move where
  | submit (accepted : Bool)
  | clock (now : Int)
  | cancel (accepted : Bool)
  | go
  deriving DecidableEq, Repr

namespace Call

def hasDeadline (c : Call) : Bool := 0 ≤ c.deadlineMs

/-- `uv_fs_complete`, of a request that is ready. -/
def callback (c : Call) : Call :=
  match c.req with
  | .posted result => { c with req := .called, done := true, result := toInt result, callbacks := c.callbacks + 1 }
  | _ => c

def leave (c : Call) : Call := { c with onTime := some (!c.deadlineReached), pc := .delete }

/-- A request that is not accepted, as for a file without a descriptor, is deleted at once. -/
def move (c : Call) (m : Move) : Option Call :=
  match c.pc, m with
  | .submit, .submit accepted => some (if accepted then { c with req := .queued, pc := .start } else { c with pc := .delete })
  | .start, .clock now =>
    some { c with deadline := SteadyClock.deadline now (if c.hasDeadline then c.deadlineMs else 0), pc := .test }
  | .test, .go => some (if c.done then c.leave else { c with pc := .run })
  | .check, .go => some (if c.done then c.leave else { c with pc := .compare })
  | .compare, .go => if c.hasDeadline && !c.deadlineReached then none else some { c with pc := .yield }
  | .compare, .clock now =>
    if c.hasDeadline && !c.deadlineReached then
      some (if c.deadline ≤ now then { c with deadlineReached := true, pc := .cancel }
        else { c with pc := .yield })
    else none
  | .cancel, .cancel true =>
    if c.req = .queued then some { c with req := .posted UV_ECANCELED, cancels := c.cancels + 1, pc := .test } else none
  | .cancel, .cancel false => some { c with cancels := c.cancels + 1, pc := .yield }
  | .delete, .go =>
    some { c with bundle := false, buffer := c.buffer && c.op.owner c.deadlineMs ≠ .bundle, pc := .ret }
  | .ret, .go => some { c with buffer := c.buffer && c.op.owner c.deadlineMs = .absent, pc := .over }
  | _, _ => none

def reads (c : Call) : Move → List Reading
  | .clock now => [⟨now, decide c.req.Held⟩]
  | _ => []

/-- A move, with its readings noted. -/
def turn (c : Call) (m : Move) : Option Call :=
  (c.move m).map fun t => { t with readings := c.readings ++ c.reads m }

end Call

/-! ## The system -/

structure State where
  calls : Nat → Option Call := fun _ => none
  current : Option Nat := none

inductive Event where
  | call (fiber : Nat) (op : Op) (deadlineMs : Int)
  | move (fiber : Nat) (m : Move)
  /-- `uv_run` in the wait, and by anybody while no fiber of these has the thread. -/
  | uvRun (fiber : Nat) (ready : Nat → Bool)
  | drive (ready : Nat → Bool)
  | yield (fiber : Nat)
  | resume (fiber : Nat)
  | take (fiber : Nat)
  | execute (fiber : Nat) (result : Int)

namespace State

def set (s : State) (f : Nat) (c : Call) : State := { s with calls := Function.update s.calls f (some c) }

/-- The callbacks of the requests that the loop finds ready. -/
def callbacks (s : State) (ready : Nat → Bool) : State :=
  { s with calls := fun f => (s.calls f).map fun c => if ready f then c.callback else c }

end State

def step (s : State) : Event → Option State
  | .call f op deadlineMs =>
    if s.current = none ∧ (s.calls f).all (fun c => c.pc = .over) then
      some { s.set f { op := op, deadlineMs := deadlineMs } with current := some f }
    else none
  | .move f m =>
    if s.current = some f then
      (s.calls f).bind fun c => (c.turn m).map fun c =>
        { s.set f c with current := if c.pc = .over then none else some f }
    else none
  | .uvRun f ready =>
    if s.current = some f then
      ((s.callbacks ready).calls f).bind fun c =>
        if c.pc = .run then some ((s.callbacks ready).set f { c with pc := .check }) else none
    else none
  | .drive ready => if s.current = none then some (s.callbacks ready) else none
  | .yield f =>
    if s.current = some f then
      (s.calls f).bind fun c =>
        if c.pc = .yield then some { s.set f { c with pc := .yielded } with current := none } else none
    else none
  | .resume f =>
    if s.current = none then
      (s.calls f).bind fun c =>
        if c.pc = .yielded then some { s.set f { c with pc := .test } with current := some f } else none
    else none
  | .take f => (s.calls f).bind fun c => if c.req = .queued then some (s.set f { c with req := .executing }) else none
  | .execute f result =>
    (s.calls f).bind fun c => if c.req = .executing then some (s.set f { c with req := .posted result }) else none

/-! ## What is claimed -/

/-- No reading of these that was made with the request pending is at or past the deadline. -/
def InTime (deadline : Int) (readings : List Reading) : Prop :=
  ∀ r ∈ readings, r.pending = true → r.now < deadline

structure Drained (c : Call) : Prop where
  /-- The wait has returned only after the callback, which runs once. -/
  returned : ∀ b, c.onTime = some b → c.callbacks = 1 ∧ c.req = .called
  callbacks : c.callbacks ≤ 1
  /-- Nothing that libuv holds is freed. -/
  bundle : c.req.Held → c.bundle = true
  buffer : c.req.Held → c.buffer = true
  cancels : c.cancels ≤ 1
  /-- The first reading sets the deadline, in the clock's 64 bits; the later ones decide. -/
  onTime : ∀ b, c.onTime = some b → ∃ first later, c.readings = first :: later ∧
    (b = true ↔ InTime (SteadyClock.deadline first.now c.deadlineMs) later)
  /-- Where the sum is in the clock's range, that deadline is start + deadline_ms. -/
  noWrap : ∀ b, c.onTime = some b → 0 ≤ c.deadlineMs → ∀ first later, c.readings = first :: later →
    -2 ^ 63 ≤ first.now → first.now + c.deadlineMs * 1000000 < 2 ^ 63 →
    (b = true ↔ InTime (first.now + c.deadlineMs * 1000000) later)
  noDeadline : c.deadlineMs < 0 → ∀ b, c.onTime = some b → b = true

/-! ## One call -/

structure Inv (c : Call) : Prop where
  done : c.done = true ↔ c.req = .called
  callbacks : c.callbacks = if c.req = .called then 1 else 0
  deadline : c.deadlineReached = true → 0 ≤ c.deadlineMs
  cancels : c.cancels = if c.deadlineReached = true ∧ c.pc ≠ .cancel then 1 else 0
  cancel : c.pc = .cancel → c.deadlineReached = true
  pending : c.pc = .compare → c.req ≠ .called
  submit : c.pc = .submit → c.req = .idle
  idle : c.req = .idle → c.pc = .submit ∨ c.pc.ended
  ended : c.pc.ended → c.req = .idle ∨ c.req = .called
  onTime : ∀ b, c.onTime = some b → b = !c.deadlineReached ∧ c.req = .called ∧ c.pc.ended
  freed : c.bundle = false ∨ c.buffer = false → c.pc.ended

/-- What holds of the readings: the deadline was set by the first, and `deadlineReached`
    tells of the later ones. -/
structure Clocked (c : Call) : Prop where
  fresh : c.pc = .submit ∨ c.pc = .start → c.readings = []
  begun : c.req ≠ .idle → c.pc ≠ .start → c.readings ≠ []
  unread : c.readings = [] → c.deadlineReached = false
  first : ∀ r rs, c.readings = r :: rs →
    c.deadline = SteadyClock.deadline r.now (if c.hasDeadline then c.deadlineMs else 0) ∧
      (c.deadlineReached = false ↔ InTime c.deadline rs) ∧ (c.deadlineMs < 0 → rs = [])

structure Sound (c : Call) : Prop extends Inv c, Clocked c

theorem Sound.decides {c : Call} (h : Sound c) {b : Bool} (hb : c.onTime = some b) :
    ∃ first later, c.readings = first :: later ∧
      (b = true ↔ InTime (SteadyClock.deadline first.now c.deadlineMs) later) := by
  obtain ⟨hvalue, hreq, hended⟩ := h.onTime b hb
  have hbegun : c.readings ≠ [] := by
    refine h.begun (by simp [hreq]) ?_
    intro hstart
    simp [hstart, Pc.ended] at hended
  obtain ⟨first, later, hread⟩ := List.exists_cons_of_ne_nil hbegun
  obtain ⟨hdeadline, hreached, hnone⟩ := h.first first later hread
  refine ⟨first, later, hread, ?_⟩
  rw [hvalue, Bool.not_eq_true', hreached, hdeadline]
  by_cases hneg : c.deadlineMs < 0
  · rw [hnone hneg]
    simp [InTime]
  · simp [Call.hasDeadline, Int.not_lt.mp hneg]

theorem Sound.drained {c : Call} (h : Sound c) : Drained c where
  returned b hb := by
    obtain ⟨-, hreq, -⟩ := h.onTime b hb
    rw [h.callbacks, if_pos hreq]
    exact ⟨rfl, hreq⟩
  callbacks := by
    rw [h.callbacks]
    split <;> omega
  bundle hheld := by
    by_contra hfree
    exact (h.ended (h.freed (.inl (Bool.not_eq_true _ ▸ hfree)))).elim hheld.1 hheld.2
  buffer hheld := by
    by_contra hfree
    exact (h.ended (h.freed (.inr (Bool.not_eq_true _ ▸ hfree)))).elim hheld.1 hheld.2
  cancels := by
    rw [h.cancels]
    split <;> omega
  onTime _ hb := h.decides hb
  noWrap b hb hms first later hread hlow hfits := by
    obtain ⟨first', later', hread', hiff⟩ := h.decides hb
    rw [hread] at hread'
    cases hread'
    rwa [SteadyClock.deadline_eq hlow hms hfits] at hiff
  noDeadline hneg b hb := by
    rw [(h.onTime b hb).1, Bool.not_eq_true', ← Bool.not_eq_true]
    intro hreached
    have := h.deadline hreached
    omega

/-- What the thread can do with a call. -/
inductive Moves (c : Call) : Call → Prop where
  | submitted (hpc : c.pc = .submit) : Moves c { c with req := .queued, pc := .start }
  | refused (hpc : c.pc = .submit) : Moves c { c with pc := .delete }
  | started (hpc : c.pc = .start) (now : Int) :
      Moves c { c with
        deadline := SteadyClock.deadline now (if c.hasDeadline then c.deadlineMs else 0), pc := .test
        readings := c.readings ++ [⟨now, decide c.req.Held⟩] }
  | left (hpc : c.pc = .test ∨ c.pc = .check) (hdone : c.done = true) : Moves c c.leave
  | enters (hpc : c.pc = .test) : Moves c { c with pc := .run }
  | compares (hpc : c.pc = .check) (hdone : c.done = false) : Moves c { c with pc := .compare }
  | yields (hpc : c.pc = .compare) : Moves c { c with pc := .yield }
  | early (hpc : c.pc = .compare) (hdeadline : 0 ≤ c.deadlineMs) {now : Int} (hnow : now < c.deadline) :
      Moves c { c with pc := .yield, readings := c.readings ++ [⟨now, decide c.req.Held⟩] }
  | late (hpc : c.pc = .compare) (hdeadline : 0 ≤ c.deadlineMs) (hreached : c.deadlineReached = false) {now : Int}
      (hnow : c.deadline ≤ now) :
      Moves c { c with deadlineReached := true, pc := .cancel, readings := c.readings ++ [⟨now, decide c.req.Held⟩] }
  | cancelled (hpc : c.pc = .cancel) (hreq : c.req = .queued) :
      Moves c { c with req := .posted UV_ECANCELED, cancels := c.cancels + 1, pc := .test }
  | busy (hpc : c.pc = .cancel) : Moves c { c with cancels := c.cancels + 1, pc := .yield }
  | deleted (hpc : c.pc = .delete) (buffer : Bool) : Moves c { c with bundle := false, buffer := buffer, pc := .ret }
  | returned (hpc : c.pc = .ret) (buffer : Bool) : Moves c { c with buffer := buffer, pc := .over }

theorem turn_moves {c c' : Call} {m : Move} (h : c.turn m = some c') : Moves c c' := by
  obtain ⟨t, ht, rfl⟩ := Option.map_eq_some_iff.mp h
  unfold Call.move at ht
  split at ht
  · rename_i accepted hpc
    simp only [Call.reads, List.append_nil]
    cases accepted <;> cases ht
    · exact .refused hpc
    · exact .submitted hpc
  · rename_i now hpc
    cases ht
    exact .started hpc now
  · rename_i hpc
    simp only [Call.reads, List.append_nil]
    cases ht
    split
    · exact .left (.inl hpc) ‹_›
    · exact .enters hpc
  · rename_i hpc
    simp only [Call.reads, List.append_nil]
    cases ht
    split
    · exact .left (.inr hpc) ‹_›
    · exact .compares hpc (Bool.not_eq_true _ ▸ ‹_›)
  · rename_i hpc
    simp only [Call.reads, List.append_nil]
    split at ht <;> cases ht
    exact .yields hpc
  · rename_i now hpc
    split at ht
    · rename_i hask
      rw [Bool.and_eq_true, Bool.not_eq_true'] at hask
      have hdeadline := of_decide_eq_true hask.1
      split at ht <;> cases ht
      · exact .late hpc hdeadline hask.2 ‹_›
      · exact .early hpc hdeadline (Int.not_le.mp ‹_›)
    · cases ht
  · rename_i hpc
    simp only [Call.reads, List.append_nil]
    split at ht <;> cases ht
    rename_i hreq
    exact .cancelled hpc hreq
  · rename_i hpc
    simp only [Call.reads, List.append_nil]
    cases ht
    exact .busy hpc
  · rename_i hpc
    simp only [Call.reads, List.append_nil]
    cases ht
    exact .deleted hpc _
  · rename_i hpc
    simp only [Call.reads, List.append_nil]
    cases ht
    exact .returned hpc _
  · cases ht

theorem waits_ne {p : Pc} (h : p.waits = true) : p ≠ .submit ∧ p ≠ .cancel ∧ ¬ p.ended := by
  cases p <;> simp [Pc.waits, Pc.ended] at h ⊢

section

variable {c : Call}

/-- From place to place inside the wait. -/
theorem Inv.goto (h : Inv c) (hpc : c.pc.waits = true) (p : Pc) (hp : p.waits = true)
    (hcompare : p = .compare → c.done = false) (d : Int) : Inv { c with deadline := d, pc := p } := by
  obtain ⟨hsubmit, hcancel, hended⟩ := waits_ne hpc
  obtain ⟨hsubmit', hcancel', hended'⟩ := waits_ne hp
  refine ⟨h.done, h.callbacks, h.deadline, ?_, fun hq => absurd hq hcancel', ?_, fun hq => absurd hq hsubmit', ?_,
    fun hq => absurd hq hended', fun b hb => absurd (h.onTime b hb).2.2 hended, fun hf => absurd (h.freed hf) hended⟩
  · rw [h.cancels]
    simp [hcancel, hcancel']
  · intro hq hreq
    rw [h.done.mpr hreq] at hcompare
    exact absurd (hcompare hq) (by decide)
  · exact fun hreq => absurd (h.idle hreq) (not_or_intro hsubmit hended)

/-- Out of the wait, whose request has had its callback. -/
theorem Inv.leave (h : Inv c) (hpc : c.pc = .test ∨ c.pc = .check) (hdone : c.done = true) : Inv c.leave := by
  have hwaits : c.pc.waits = true := by
    rcases hpc with hpc | hpc <;> rw [hpc] <;> rfl
  obtain ⟨hsubmit, hcancel, hended⟩ := waits_ne hwaits
  have hcalled := h.done.mp hdone
  refine ⟨h.done, h.callbacks, h.deadline, ?_, nofun, nofun, nofun, ?_, fun _ => .inr hcalled, ?_, ?_⟩
  · rw [Call.leave, h.cancels]
    simp [hcancel]
  · exact fun _ => .inr (.inl rfl)
  · intro b hb
    exact ⟨(Option.some.inj hb).symm, hcalled, .inl rfl⟩
  · exact fun _ => .inl rfl

/-- Before the wait, and at its cancel. -/
theorem Inv.cancels_of (h : Inv c) (hpc : c.pc ≠ .cancel) : c.cancels = if c.deadlineReached = true then 1 else 0 := by
  rw [h.cancels]
  simp [hpc]

theorem Inv.submitted (h : Inv c) (hpc : c.pc = .submit) : Inv { c with req := .queued, pc := .start } := by
  have hreq := h.submit hpc
  have hin : ¬ c.pc.ended := by simp [hpc, Pc.ended]
  refine ⟨?_, ?_, h.deadline, ?_, nofun, nofun, nofun, nofun, fun hp => absurd hp (by simp [Pc.ended]), ?_, ?_⟩
  · simp [h.done, hreq]
  · simp [h.callbacks, hreq]
  · simp [h.cancels_of (hpc ▸ nofun)]
  · exact fun b hb => absurd (h.onTime b hb).2.2 hin
  · exact fun hf => absurd (h.freed hf) hin

theorem Inv.refused (h : Inv c) (hpc : c.pc = .submit) : Inv { c with pc := .delete } := by
  have hreq := h.submit hpc
  have hin : ¬ c.pc.ended := by simp [hpc, Pc.ended]
  refine ⟨h.done, h.callbacks, h.deadline, ?_, nofun, nofun, nofun, fun _ => .inr (.inl rfl), fun _ => .inl hreq, ?_,
    fun _ => .inl rfl⟩
  · simp [h.cancels_of (hpc ▸ nofun)]
  · exact fun b hb => absurd (h.onTime b hb).2.2 hin

/-- A reading that is not before the deadline: the first one, and the request pends. -/
theorem Inv.late_reading (h : Inv c) (hpc : c.pc = .compare) (hdeadline : 0 ≤ c.deadlineMs) (hreached : c.deadlineReached = false) :
    Inv { c with deadlineReached := true, pc := .cancel } := by
  have hin : ¬ c.pc.ended := by simp [hpc, Pc.ended]
  refine ⟨h.done, h.callbacks, fun _ => hdeadline, ?_, fun _ => rfl, nofun, nofun, ?_,
    fun hp => absurd hp (by simp [Pc.ended]), ?_, ?_⟩
  · simp [h.cancels_of (hpc ▸ nofun), hreached]
  · exact fun hreq => absurd (h.idle hreq) (not_or_intro (hpc ▸ nofun) hin)
  · exact fun b hb => absurd (h.onTime b hb).2.2 hin
  · exact fun hf => absurd (h.freed hf) hin

/-- The readings are nobody else's business. -/
theorem Inv.noting (h : Inv c) (readings : List Reading) : Inv { c with readings := readings } :=
  ⟨h.done, h.callbacks, h.deadline, h.cancels, h.cancel, h.pending, h.submit, h.idle, h.ended, h.onTime, h.freed⟩

theorem Inv.cancelled (h : Inv c) (hpc : c.pc = .cancel) {req : Phase} {p : Pc}
    (hreq : req = c.req ∨ c.req = .queued ∧ req = .posted UV_ECANCELED) (hp : p = .test ∨ p = .yield) :
    Inv { c with req := req, cancels := c.cancels + 1, pc := p } := by
  have hin : ¬ c.pc.ended := by simp [hpc, Pc.ended]
  have hcalled : req = .called ↔ c.req = .called := by
    rcases hreq with rfl | ⟨hq, rfl⟩ <;> simp [*]
  have hidle : c.req ≠ .idle := fun hi => absurd (h.idle hi) (not_or_intro (hpc ▸ nofun) hin)
  have hidle' : req ≠ .idle := by
    rcases hreq with rfl | ⟨-, rfl⟩
    · exact hidle
    · exact nofun
  have hreached := h.cancel hpc
  have hplace : p ≠ .cancel ∧ p ≠ .compare ∧ p ≠ .submit ∧ ¬ p.ended := by
    rcases hp with rfl | rfl <;> simp [Pc.ended]
  refine ⟨h.done.trans hcalled.symm, ?_, h.deadline, ?_, fun hq => absurd hq hplace.1, fun hq => absurd hq hplace.2.1,
    fun hq => absurd hq hplace.2.2.1, fun hq => absurd hq hidle', fun hq => absurd hq hplace.2.2.2, ?_, ?_⟩
  · simp [h.callbacks, hcalled]
  · simp [h.cancels, hpc, hreached, hplace.1]
  · exact fun b hb => absurd (h.onTime b hb).2.2 hin
  · exact fun hf => absurd (h.freed hf) hin

/-- After the wait, memory is freed. -/
theorem Inv.freeing (h : Inv c) (hpc : c.pc.ended) {p : Pc} (hp : p.ended) (bundle buffer : Bool) :
    Inv { c with bundle := bundle, buffer := buffer, pc := p } := by
  have hplace : ∀ {q : Pc}, q.ended → q ≠ .cancel ∧ q ≠ .compare ∧ q ≠ .submit := by
    intro q hq
    rcases hq with rfl | rfl | rfl <;> simp
  refine ⟨h.done, h.callbacks, h.deadline, ?_, fun hq => absurd hq (hplace hp).1, fun hq => absurd hq (hplace hp).2.1,
    fun hq => absurd hq (hplace hp).2.2, fun _ => .inr hp, fun _ => h.ended hpc, ?_, fun _ => hp⟩
  · simp [h.cancels_of (hplace hpc).1, (hplace hp).1]
  · exact fun b hb => ⟨(h.onTime b hb).1, (h.onTime b hb).2.1, hp⟩

/-- What the thread does keeps it. -/
theorem Inv.moves {c' : Call} (h : Inv c) (hm : Moves c c') : Inv c' := by
  have hwaits : ∀ p, c.pc = p → p.waits = true → c.pc.waits = true := fun p hp hw => hp ▸ hw
  cases hm with
  | submitted hpc => exact h.submitted hpc
  | refused hpc => exact h.refused hpc
  | started hpc now => exact (h.goto (hwaits _ hpc rfl) .test rfl (fun hq => by cases hq) _).noting _
  | left hpc hdone => exact h.leave hpc hdone
  | enters hpc => exact h.goto (hwaits _ hpc rfl) .run rfl (fun hq => by cases hq) c.deadline
  | compares hpc hdone => exact h.goto (hwaits _ hpc rfl) .compare rfl (fun _ => hdone) c.deadline
  | yields hpc => exact h.goto (hwaits _ hpc rfl) .yield rfl (fun hq => by cases hq) c.deadline
  | early hpc => exact (h.goto (hwaits _ hpc rfl) .yield rfl (fun hq => by cases hq) c.deadline).noting _
  | late hpc hdeadline hreached => exact (h.late_reading hpc hdeadline hreached).noting _
  | cancelled hpc hreq => exact h.cancelled hpc (.inr ⟨hreq, rfl⟩) (.inl rfl)
  | busy hpc => exact h.cancelled hpc (.inl rfl) (.inr rfl)
  | deleted hpc buffer => exact h.freeing (.inl hpc) (.inr (.inl rfl)) false buffer
  | returned hpc buffer => exact h.freeing (.inr (.inl hpc)) (.inr (.inr rfl)) c.bundle buffer

/-- Before the first reading. -/
theorem Clocked.unstarted (hnil : c.readings = []) (hreached : c.deadlineReached = false)
    (hbegun : c.req ≠ .idle → ¬ c.pc ≠ .start) : Clocked c := by
  refine ⟨fun _ => hnil, fun hreq hp => absurd hp (hbegun hreq), fun _ => hreached, ?_⟩
  intro r rs hrs
  rw [hnil] at hrs
  cases hrs

/-- Nothing is read, and the call has begun its wait no later than it had. -/
theorem Clocked.keep {c' : Call} (h : Clocked c)
    (hsame : c'.readings = c.readings ∧ c'.deadline = c.deadline ∧ c'.deadlineReached = c.deadlineReached ∧
      c'.deadlineMs = c.deadlineMs)
    (hfresh : c'.pc = .submit ∨ c'.pc = .start → c.pc = .submit ∨ c.pc = .start)
    (hbegun : c'.req ≠ .idle → c'.pc ≠ .start → c.req ≠ .idle ∧ c.pc ≠ .start) : Clocked c' := by
  obtain ⟨hread, hdeadline, hreached, hms⟩ := hsame
  refine ⟨?_, ?_, ?_, ?_⟩
  · intro hp
    rw [hread]
    exact h.fresh (hfresh hp)
  · intro hreq hp
    rw [hread]
    exact h.begun (hbegun hreq hp).1 (hbegun hreq hp).2
  · intro hnil
    rw [hreached]
    exact h.unread (hread ▸ hnil)
  · intro r rs hrs
    rw [hread] at hrs
    have hfirst := h.first r rs hrs
    rw [Call.hasDeadline] at hfirst
    rwa [Call.hasDeadline, hdeadline, hreached, hms]

theorem inTime_snoc {deadline : Int} {rs : List Reading} {r : Reading} :
    InTime deadline (rs ++ [r]) ↔ InTime deadline rs ∧ (r.pending = true → r.now < deadline) := by
  simp [InTime, or_imp, forall_and]

/-- A reading that is compared with the deadline, the request pending. -/
theorem Clocked.reading (h : Clocked c) (hinv : Inv c) (hpc : c.pc = .compare) (hdeadline : 0 ≤ c.deadlineMs) {now : Int}
    {reached : Bool} (hreached : reached = false ↔ c.deadlineReached = false ∧ now < c.deadline) {p : Pc}
    (hp : p ≠ .submit ∧ p ≠ .start) :
    Clocked { c with deadlineReached := reached, pc := p, readings := c.readings ++ [⟨now, decide c.req.Held⟩] } := by
  have hidle : c.req ≠ .idle := fun hreq => by
    have := hinv.idle hreq
    simp [hpc, Pc.ended] at this
  have hheld : c.req.Held := ⟨hidle, hinv.pending hpc⟩
  obtain ⟨first, later, hread⟩ := List.exists_cons_of_ne_nil (h.begun hidle (hpc ▸ nofun))
  obtain ⟨hset, hbefore, -⟩ := h.first first later hread
  refine ⟨fun hq => absurd hq (not_or_intro hp.1 hp.2), by simp, by simp, ?_⟩
  intro r rs hrs
  simp only [hread, List.cons_append, List.cons.injEq] at hrs
  obtain ⟨rfl, rfl⟩ := hrs
  refine ⟨hset, ?_, fun hneg => absurd hneg (Int.not_lt.mpr hdeadline)⟩
  rw [inTime_snoc, ← hbefore]
  simp [hreached, hheld]

theorem Clocked.moves {c' : Call} (h : Clocked c) (hinv : Inv c) (hm : Moves c c') : Clocked c' := by
  cases hm with
  | submitted hpc =>
    have hnil := h.fresh (.inl hpc)
    exact .unstarted hnil (h.unread hnil) fun _ hq => hq rfl
  | refused hpc =>
    have hnil := h.fresh (.inl hpc)
    exact .unstarted hnil (h.unread hnil) fun hreq _ => hreq (hinv.submit hpc)
  | started hpc now =>
    have hnil := h.fresh (.inr hpc)
    refine ⟨by simp, by simp, by simp, ?_⟩
    intro r rs hrs
    simp only [hnil, List.nil_append, List.cons.injEq] at hrs
    obtain ⟨rfl, rfl⟩ := hrs
    exact ⟨rfl, iff_of_true (h.unread hnil) (by simp [InTime]), fun _ => rfl⟩
  | left hpc hdone =>
    have hstart : c.pc ≠ .start := by
      rcases hpc with hpc | hpc <;> simp [hpc]
    exact h.keep ⟨rfl, rfl, rfl, rfl⟩ (by simp [Call.leave]) fun hreq _ => ⟨hreq, hstart⟩
  | enters hpc => exact h.keep ⟨rfl, rfl, rfl, rfl⟩ (by simp) fun hreq _ => ⟨hreq, by simp [hpc]⟩
  | compares hpc hdone => exact h.keep ⟨rfl, rfl, rfl, rfl⟩ (by simp) fun hreq _ => ⟨hreq, by simp [hpc]⟩
  | yields hpc => exact h.keep ⟨rfl, rfl, rfl, rfl⟩ (by simp) fun hreq _ => ⟨hreq, by simp [hpc]⟩
  | early hpc hdeadline hnow => exact h.reading hinv hpc hdeadline (by simp [hnow]) (by simp)
  | late hpc hdeadline hreached hnow => exact h.reading hinv hpc hdeadline (by simp [Int.not_lt.mpr hnow]) (by simp)
  | cancelled hpc hreq => exact h.keep ⟨rfl, rfl, rfl, rfl⟩ (by simp) fun _ _ => ⟨by simp [hreq], by simp [hpc]⟩
  | busy hpc => exact h.keep ⟨rfl, rfl, rfl, rfl⟩ (by simp) fun hreq _ => ⟨hreq, by simp [hpc]⟩
  | deleted hpc buffer => exact h.keep ⟨rfl, rfl, rfl, rfl⟩ (by simp) fun hreq _ => ⟨hreq, by simp [hpc]⟩
  | returned hpc buffer => exact h.keep ⟨rfl, rfl, rfl, rfl⟩ (by simp) fun hreq _ => ⟨hreq, by simp [hpc]⟩

/-- A callback keeps it, where it can run. -/
theorem Inv.callback (h : Inv c) (hpc : c.pc ≠ .compare) : Inv c.callback := by
  unfold Call.callback
  split
  · rename_i result hreq
    have hin : ¬ c.pc.ended := fun hp => by
      have := h.ended hp
      simp [hreq] at this
    refine ⟨by simp, ?_, h.deadline, h.cancels, h.cancel, fun hq => absurd hq hpc, ?_, nofun,
      fun hp => absurd hp hin, ?_, h.freed⟩
    · simp [h.callbacks, hreq]
    · intro hq
      have := h.submit hq
      rw [hreq] at this
      cases this
    · exact fun b hb => absurd (h.onTime b hb).2.2 hin
  · exact h

@[simp]
theorem callback_pc (c : Call) : c.callback.pc = c.pc := by
  unfold Call.callback
  split <;> rfl

theorem Inv.progress (h : Inv c) (hold : c.req.Held) {p : Phase} (hnew : p.Held) : Inv { c with req := p } := by
  have hin : ¬ c.pc.ended := fun hp => (h.ended hp).elim hold.1 hold.2
  refine ⟨?_, ?_, h.deadline, h.cancels, h.cancel, fun _ => hnew.2, fun hq => absurd (h.submit hq) hold.1,
    fun hq => absurd hq hnew.1, fun hp => absurd hp hin, fun b hb => absurd (h.onTime b hb).2.2 hin, h.freed⟩
  · exact iff_of_false (fun hd => hold.2 (h.done.mp hd)) hnew.2
  · rw [h.callbacks, if_neg hold.2, if_neg hnew.2]

theorem Sound.goto (h : Sound c) (hpc : c.pc.waits = true) (hstart : c.pc ≠ .start) (p : Pc) (hp : p.waits = true)
    (hs : p ≠ .start) (hcompare : p = .compare → c.done = false) : Sound { c with pc := p } := by
  refine ⟨h.toInv.goto hpc p hp hcompare c.deadline, h.toClocked.keep ⟨rfl, rfl, rfl, rfl⟩ ?_ fun hreq _ => ⟨hreq, hstart⟩⟩
  exact fun hq => absurd hq (not_or_intro (waits_ne hp).1 hs)

theorem Sound.moves {c' : Call} (h : Sound c) (hm : Moves c c') : Sound c' :=
  ⟨h.toInv.moves hm, h.toClocked.moves h.toInv hm⟩

theorem Sound.callback (h : Sound c) (hpc : c.pc ≠ .compare) : Sound c.callback := by
  refine ⟨h.toInv.callback hpc, ?_⟩
  unfold Call.callback
  split
  · rename_i result hreq
    exact h.toClocked.keep ⟨rfl, rfl, rfl, rfl⟩ id fun _ hp => ⟨by simp [hreq], hp⟩
  · exact h.toClocked

theorem Sound.progress (h : Sound c) (hold : c.req.Held) {p : Phase} (hnew : p.Held) : Sound { c with req := p } :=
  ⟨h.toInv.progress hold hnew, h.toClocked.keep ⟨rfl, rfl, rfl, rfl⟩ id fun _ hp => ⟨hold.1, hp⟩⟩

end

/-! ## The system -/

/-- Every call is in order, and one that does not have the thread has yielded or is over. -/
structure Good (s : State) : Prop where
  call : ∀ f c, s.calls f = some c → Sound c
  parked : ∀ f c, s.calls f = some c → s.current ≠ some f → c.pc = .yielded ∨ c.pc = .over

section

variable {s t : State} {f : Nat} {c : Call}

theorem set_calls (s : State) (f : Nat) (c : Call) (g : Nat) :
    (s.set f c).calls g = if g = f then some c else s.calls g := Function.update_apply ..

/-- One call changes, and the thread stays with it or is given up. -/
theorem Good.set (h : Good s) {current : Option Nat} (hown : s.current = some f ∨ s.current = none)
    (hcurrent : current = some f ∨ current = none ∧ (c.pc = .yielded ∨ c.pc = .over)) (hc : Sound c) :
    Good { s.set f c with current := current } := by
  refine ⟨?_, ?_⟩
  · intro g d hd
    replace hd : (s.set f c).calls g = some d := hd
    rw [set_calls] at hd
    by_cases hg : g = f
    · rw [if_pos hg] at hd
      cases hd
      exact hc
    · rw [if_neg hg] at hd
      exact h.call g d hd
  · intro g d hd hne
    replace hd : (s.set f c).calls g = some d := hd
    replace hne : current ≠ some g := hne
    rw [set_calls] at hd
    by_cases hg : g = f
    · rw [if_pos hg] at hd
      cases hd
      rcases hcurrent with rfl | ⟨-, hpark⟩
      · exact absurd (hg ▸ rfl) hne
      · exact hpark
    · rw [if_neg hg] at hd
      refine h.parked g d hd ?_
      rcases hown with hown | hown <;> rw [hown]
      · exact fun he => hg (Option.some.inj he).symm
      · exact nofun

/-- A call changes and stays where it is: the pool's work. -/
theorem Good.progress (h : Good s) (hc : s.calls f = some c) (hold : c.req.Held) {p : Phase} (hnew : p.Held) :
    Good (s.set f { c with req := p }) := by
  refine ⟨?_, ?_⟩
  · intro g d hd
    rw [set_calls] at hd
    by_cases hg : g = f
    · rw [if_pos hg] at hd
      cases hd
      exact (h.call f c hc).progress hold hnew
    · rw [if_neg hg] at hd
      exact h.call g d hd
  · intro g d hd hne
    rw [set_calls] at hd
    by_cases hg : g = f
    · rw [if_pos hg] at hd
      cases hd
      exact h.parked f c hc (hg ▸ hne)
    · rw [if_neg hg] at hd
      exact h.parked g d hd hne

theorem callbacks_calls {ready : Nat → Bool} {g : Nat} {d : Call} (hd : (s.callbacks ready).calls g = some d) :
    ∃ c, s.calls g = some c ∧ d = (if ready g then c.callback else c) ∧ d.pc = c.pc := by
  obtain ⟨c, hc, rfl⟩ := Option.map_eq_some_iff.mp hd
  refine ⟨c, hc, rfl, ?_⟩
  split
  · exact callback_pc c
  · rfl

/-- Callbacks run only where no call is about to compare. -/
theorem Good.callbacks (h : Good s) (hcompare : ∀ f c, s.calls f = some c → c.pc ≠ .compare) (ready : Nat → Bool) :
    Good (s.callbacks ready) := by
  refine ⟨?_, ?_⟩
  · intro g d hd
    obtain ⟨c, hc, rfl, -⟩ := callbacks_calls hd
    split
    · exact (h.call g c hc).callback (hcompare g c hc)
    · exact h.call g c hc
  · intro g d hd hne
    obtain ⟨c, hc, -, hpc⟩ := callbacks_calls hd
    rw [hpc]
    exact h.parked g c hc hne

theorem Good.step {e : Event} (h : Good s) (hs : step s e = some t) : Good t := by
  cases e with
  | call f op deadlineMs =>
    rw [Drain.step] at hs
    split at hs <;> cases hs
    rename_i hfree
    refine h.set (.inr hfree.1) (.inl rfl) ?_
    exact ⟨⟨by simp, by simp, nofun, rfl, nofun, nofun, fun _ => rfl, fun _ => .inl rfl,
      fun hp => absurd hp (by simp [Pc.ended]), nofun, by simp⟩, .unstarted rfl rfl fun hreq _ => hreq rfl⟩
  | move f m =>
    rw [Drain.step] at hs
    split at hs
    · rename_i hcurrent
      obtain ⟨c, hc, hs⟩ := Option.bind_eq_some_iff.mp hs
      obtain ⟨c', hm, rfl⟩ := Option.map_eq_some_iff.mp hs
      refine h.set (.inl hcurrent) ?_ ((h.call f c hc).moves (turn_moves hm))
      by_cases hover : c'.pc = .over
      · rw [if_pos hover]
        exact .inr ⟨rfl, .inr hover⟩
      · rw [if_neg hover]
        exact .inl rfl
    · cases hs
  | uvRun f ready =>
    rw [Drain.step] at hs
    split at hs
    · rename_i hcurrent
      obtain ⟨c, hc, hs⟩ := Option.bind_eq_some_iff.mp hs
      split at hs <;> cases hs
      rename_i hrun
      have hcompare : ∀ g d, s.calls g = some d → d.pc ≠ .compare := by
        intro g d hd hq
        by_cases hg : g = f
        · obtain ⟨c₀, hc₀, -, hpc⟩ := callbacks_calls hc
          rw [hg, hc₀] at hd
          cases hd
          rw [hpc, hq] at hrun
          cases hrun
        · have := h.parked g d hd (by rw [hcurrent]; exact fun he => hg (Option.some.inj he).symm)
          simp [hq] at this
      have hgood := h.callbacks hcompare ready
      exact hgood.set (.inl hcurrent) (.inl hcurrent)
        ((hgood.call f c hc).goto (by rw [hrun]; rfl) (by simp [hrun]) .check rfl nofun nofun)
    · cases hs
  | drive ready =>
    rw [Drain.step] at hs
    split at hs <;> cases hs
    rename_i hcurrent
    refine h.callbacks ?_ ready
    intro g d hd hq
    have := h.parked g d hd (by rw [hcurrent]; exact nofun)
    simp [hq] at this
  | yield f =>
    rw [Drain.step] at hs
    split at hs
    · rename_i hcurrent
      obtain ⟨c, hc, hs⟩ := Option.bind_eq_some_iff.mp hs
      split at hs <;> cases hs
      rename_i hyield
      exact h.set (.inl hcurrent) (.inr ⟨rfl, .inl rfl⟩)
        ((h.call f c hc).goto (by rw [hyield]; rfl) (by simp [hyield]) .yielded rfl nofun nofun)
    · cases hs
  | resume f =>
    rw [Drain.step] at hs
    split at hs
    · rename_i hcurrent
      obtain ⟨c, hc, hs⟩ := Option.bind_eq_some_iff.mp hs
      split at hs <;> cases hs
      rename_i hyielded
      exact h.set (.inr hcurrent) (.inl rfl)
        ((h.call f c hc).goto (by rw [hyielded]; rfl) (by simp [hyielded]) .test rfl nofun nofun)
    · cases hs
  | take f =>
    rw [Drain.step] at hs
    obtain ⟨c, hc, hs⟩ := Option.bind_eq_some_iff.mp hs
    split at hs <;> cases hs
    rename_i hreq
    exact h.progress hc (by simp [Phase.Held, hreq]) (by simp [Phase.Held])
  | execute f result =>
    rw [Drain.step] at hs
    obtain ⟨c, hc, hs⟩ := Option.bind_eq_some_iff.mp hs
    split at hs <;> cases hs
    rename_i hreq
    exact h.progress hc (by simp [Phase.Held, hreq]) (by simp [Phase.Held])

theorem good_init : Good {} where
  call _ _ hc := by cases hc
  parked _ _ hc := by cases hc

theorem good_reachable {es : List Event} (h : Runs.exec Drain.step {} es = some s) : Good s :=
  Runs.exec_invariant (fun _ _ _ hs ht => Good.step hs ht) good_init h

end

/-- In every state of every run, and so at every schedule: a wait has returned only after its
    request's callback, which runs once; no request or buffer is freed while libuv holds it;
    a wait cancels once at most; and it returns true exactly when no reading of the clock made
    with the request pending was at or past the deadline, the reading that sets the deadline
    not counted. -/
theorem wait_drains (es : List Event) (s : State) (f : Nat) (c : Call) (h : Runs.exec step {} es = some s)
    (hc : s.calls f = some c) : Drained c :=
  ((good_reachable h).call f c hc).drained

/-- A read whose deadline passes while a thread is at it: the cancel is refused, and the
    callback is waited for. -/
def lateRead : List Event :=
  [.call 0 .read 10, .move 0 (.submit true), .take 0, .move 0 (.clock 0), .move 0 .go, .uvRun 0 fun _ => true, .move 0 .go,
    .move 0 (.clock 10000000), .move 0 (.cancel false), .yield 0, .execute 0 5, .resume 0, .move 0 .go,
    .uvRun 0 fun _ => true, .move 0 .go, .move 0 .go, .move 0 .go]

theorem wait_drains_late : ∃ s c, Runs.exec step {} lateRead = some s ∧ s.calls 0 = some c ∧ c.onTime = some false ∧
    c.readings = [⟨0, true⟩, ⟨10000000, true⟩] ∧ c.result = 5 ∧ c.bundle = false ∧ Drained c :=
  ⟨_, _, rfl, rfl, rfl, rfl, by decide, rfl, wait_drains lateRead _ 0 _ rfl rfl⟩

end CovProcess.File.Drain
