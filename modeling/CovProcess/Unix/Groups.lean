/-
  CovProcess.Unix.Groups — the process groups that `create_process` makes and that
  `terminate_process_tree` signals (`process_unix.cpp`, `process_unix_wait.cpp`).

  Between `fork` and `exec` the child puts itself into a group of its own, and the parent
  puts it there too: whichever comes first counts, and after `exec` the kernel refuses the
  parent. Meanwhile, and afterwards, any process forks, exits, is reaped and changes its
  group. A new process gets a PID that is neither the PID nor the group of a process there
  is, and inherits its parent's group. `line` and `left` record what the kernel does not.

  Sessions are left out: a process may enter any group there is, which is more than the
  kernel allows. So are the signals of strangers, which are exits here.

  Proved: `tree_killed`, over any run in which no process enters the group of a child it
  does not descend from: while a handle's child is unreaped, `kill_tree` signals nobody but
  that child and what descends from it, so neither the program nor another child, and none
  of these escapes that never changed its group.
-/

import Mathlib.Logic.Function.Basic
import CovProcess.Lib.Runs

namespace CovProcess.Unix.Group

inductive Life where
  | running
  | zombie
  | reaped
  deriving DecidableEq, Repr

structure Proc where
  pid : Nat
  pgid : Nat
  birth : Nat
  /-- Itself and the processes it descends from. -/
  line : List Nat
  life : Life := .running
  /-- Started by `create_process`, and whether it has come to its `exec`. -/
  kid : Bool := false
  execd : Bool := true
  /-- It changed its group, or one it descends from, up to a child of the program's, had
      when it forked. -/
  left : Bool := false
  deriving DecidableEq, Repr

/-- A `create_process` in progress, and the calls of `setpgid` made so far. -/
structure Start where
  child : Nat
  grouped : Bool := false
  reinforced : Bool := false
  deriving DecidableEq, Repr

/-- What the `process_info` of a handle has of its child. -/
structure Handle where
  child : Nat
  pid : Nat
  startTime : Nat
  deriving DecidableEq, Repr

structure State where
  procs : Nat → Option Proc
  n : Nat
  start : Option Start := none
  handles : List Handle := []

namespace State

/-- The program, and the process that all strangers descend from. -/
def boot (pid pgid : Nat) : State where
  procs j := if j = 0 then some ⟨pid, pgid, 0, [0], .running, false, true, false⟩
    else if j = 1 then some ⟨1, 1, 0, [1], .running, false, true, false⟩ else none
  n := 2

variable (s : State)

/-- The child of a `create_process` in progress, which runs no program yet. -/
def starting (j : Nat) : Bool := s.start.any fun st => st.child = j && (s.procs j).any fun p => !p.execd

def setProc (j : Nat) (p : Proc) : State := { s with procs := Function.update s.procs j (some p) }

/-- No process there is has the number as its PID or its group. -/
def isFree (pid : Nat) : Bool :=
  0 < pid && (List.range s.n).all fun j => (s.procs j).all fun p => p.life = .reaped || (p.pid ≠ pid && p.pgid ≠ pid)

def hasGroup (g : Nat) : Bool := (List.range s.n).any fun j => (s.procs j).any fun p => p.life ≠ .reaped && p.pgid = g

def forkProc (parent : Proc) (pid birth : Nat) (kid : Bool) : State :=
  { s with
    procs := Function.update s.procs s.n (some
      { pid := pid, pgid := parent.pgid, birth := birth, line := s.n :: parent.line
        kid := kid, execd := !kid, left := !kid && parent.left })
    n := s.n + 1 }

/-! ## Signals -/

def members (g : Nat) : List Nat := (List.range s.n).filter fun j => (s.procs j).any fun p => p.life = .running && p.pgid = g

def names (pid j : Nat) : Bool := (s.procs j).any fun p => p.pid = pid && p.life ≠ .reaped

def holder (pid : Nat) : Option Nat := (List.range s.n).find? (s.names pid)

/-- `waitid` knows the children of the program only. -/
def processExited (pid : Nat) : Bool :=
  match (s.holder pid).bind fun j => (s.procs j).map fun p => (j, p) with
  | some (j, p) => p.line ≠ [j, 0] || p.life ≠ .running
  | none => true

/-- `get_process_start_time`; 0 when it cannot be read. -/
def startTime (pid : Nat) (readable : Bool) : Nat :=
  if readable then (((s.holder pid).bind s.procs).map Proc.birth).getD 0 else 0

/-- `terminate_process_tree`: the processes that it signals. -/
def killTree (h : Handle) (readable : Bool) : List Nat :=
  if s.processExited h.pid then []
  else
    let current := s.startTime h.pid readable
    if 0 < h.startTime && (current = 0 || current ≠ h.startTime) then
      if 0 < h.pid then (s.holder h.pid).toList else []
    else if 0 < h.pid then s.members h.pid
    else []

end State

/-! ## The system -/

inductive Event where
  | fork (x pid birth : Nat)
  | regroup (x g : Nat)
  | exit (x : Nat)
  | reap (x : Nat)
  /-- `create_process` up to `fork`. -/
  | start (pid birth : Nat)
  /-- `setpgid(0, 0)` of the child. -/
  | childGroup
  /-- `setpgid(pid, pid)` of the parent. -/
  | reinforce
  | exec
  /-- The fail pipe is at its end: the child has come to `exec`, or was killed. -/
  | returned (readable : Bool)
  /-- The child reported an error, and is reaped. -/
  | failed
  deriving DecidableEq, Repr

def step (s : State) : Event → Option State
  | .fork x pid birth =>
    (s.procs x).bind fun p =>
      if p.life = .running && !s.starting x && s.isFree pid then some (s.forkProc p pid birth false) else none
  | .regroup x g =>
    (s.procs x).bind fun p =>
      if p.life = .running && !s.starting x && (g = p.pid || s.hasGroup g) then
        some (s.setProc x { p with pgid := g, left := p.left || g ≠ p.pgid })
      else none
  | .exit x => (s.procs x).bind fun p => if p.life = .running then some (s.setProc x { p with life := .zombie }) else none
  | .reap x =>
    (s.procs x).bind fun p =>
      if p.life = .zombie && s.start.all fun st => st.child ≠ x then some (s.setProc x { p with life := .reaped }) else none
  | .start pid birth =>
    (s.procs 0).bind fun p =>
      if p.life = .running && s.start.isNone && s.isFree pid then
        some { s.forkProc p pid birth true with start := some { child := s.n } }
      else none
  | .childGroup =>
    s.start.bind fun st => (s.procs st.child).bind fun p =>
      if p.life = .running && !st.grouped then
        some { s.setProc st.child { p with pgid := p.pid } with start := some { st with grouped := true } }
      else none
  | .reinforce =>
    s.start.bind fun st => (s.procs st.child).bind fun p =>
      if st.reinforced then none
      else
        some { s.setProc st.child (if p.life = .running && !p.execd then { p with pgid := p.pid } else p) with
          start := some { st with reinforced := true } }
  | .exec =>
    s.start.bind fun st => (s.procs st.child).bind fun p =>
      if p.life = .running && st.grouped && !p.execd then some (s.setProc st.child { p with execd := true }) else none
  | .returned readable =>
    s.start.bind fun st => (s.procs st.child).bind fun p =>
      if st.reinforced && (p.execd || p.life ≠ .running) then
        some { s with start := none, handles := ⟨st.child, p.pid, if readable then p.birth else 0⟩ :: s.handles }
      else none
  | .failed =>
    s.start.bind fun st => (s.procs st.child).bind fun p =>
      if st.reinforced && p.life = .zombie && !p.execd then
        some { s.setProc st.child { p with life := .reaped } with start := none }
      else none

/-- A process enters no group of a child it does not descend from. -/
def StaysOut (s : State) : Event → Prop
  | .regroup x g => ∀ c p q, s.procs c = some p → p.kid = true → p.life ≠ .reaped → p.pid = g → s.procs x = some q → c ∈ q.line
  | _ => True

/-! ## The invariant -/

structure Inv (s : State) : Prop where
  lt : ∀ j p, s.procs j = some p → j < s.n
  line : ∀ j p, s.procs j = some p → j ∈ p.line ∧ ∀ k ∈ p.line, k ≤ j
  program : ∀ p, s.procs 0 = some p → p.line = [0] ∧ p.kid = false
  kid : ∀ j p, s.procs j = some p → p.kid = true → p.line = [j, 0] ∧ 0 < p.pid
  pids : ∀ i j p q, s.procs i = some p → s.procs j = some q → p.life ≠ .reaped → q.life ≠ .reaped → p.pid = q.pid → i = j
  /-- Nobody else is in the group of a child. -/
  outside : ∀ c p x q, s.procs c = some p → p.kid = true → p.life ≠ .reaped → s.procs x = some q → q.life ≠ .reaped →
    q.pgid = p.pid → c ∈ q.line
  /-- Who descends from a child is in its group, unless it left; the child itself is once
      one of the calls of `setpgid` was made. -/
  inside : ∀ c p x q, s.procs c = some p → p.kid = true → p.life ≠ .reaped → s.procs x = some q → q.life = .running →
    c ∈ q.line → q.left = false → q.pgid = p.pid ∨ (x = c ∧ s.start = some ⟨c, false, false⟩)
  start : ∀ st, s.start = some st → ∃ p, s.procs st.child = some p ∧ p.kid = true ∧ p.life ≠ .reaped ∧
    (p.execd = true → st.grouped = true)
  handle : ∀ h ∈ s.handles, (∃ p, s.procs h.child = some p ∧ p.kid = true ∧ h.pid = p.pid ∧ (h.startTime = 0 ∨ h.startTime = p.birth)) ∧
    ∀ st, s.start = some st → st.child ≠ h.child

section Proofs

variable {s : State} {x c : Nat} {p q : Proc}

theorem setProc_get (st : Option Start) {j : Nat} {r : Proc}
    (h : ({ s.setProc x q with start := st } : State).procs j = some r) : (j = x ∧ r = q) ∨ (j ≠ x ∧ s.procs j = some r) := by
  have hup : Function.update s.procs x (some q) j = some r := h
  rw [Function.update_apply] at hup
  split at hup
  · rename_i hj
    exact .inl ⟨hj, (Option.some.inj hup).symm⟩
  · rename_i hj
    exact .inr ⟨hj, hup⟩

/-- A process that lives on is the same process. -/
structure Ages (p q : Proc) : Prop where
  pid : q.pid = p.pid
  birth : q.birth = p.birth
  line : q.line = p.line
  kid : q.kid = p.kid
  life : q.life ≠ .reaped → p.life ≠ .reaped

theorem Ages.of_get (hp : s.procs x = some p) (ha : Ages p q) {st : Option Start} {j : Nat} {r : Proc}
    (h : ({ s.setProc x q with start := st } : State).procs j = some r) : ∃ r₀, s.procs j = some r₀ ∧ Ages r₀ r := by
  rcases setProc_get st h with ⟨rfl, rfl⟩ | ⟨-, h⟩
  · exact ⟨p, hp, ha⟩
  · exact ⟨r, h, rfl, rfl, rfl, rfl, id⟩

namespace Inv

theorem set (h : Inv s) (hp : s.procs x = some p) (ha : Ages p q) {st : Option Start}
    (hout : ∀ c r, s.procs c = some r → r.kid = true → r.life ≠ .reaped → q.life ≠ .reaped → q.pgid = r.pid → c ∈ p.line)
    (hin : ∀ c r, s.procs c = some r → r.kid = true → r.life ≠ .reaped → q.life = .running → c ∈ p.line → q.left = false →
      q.pgid = r.pid ∨ (x = c ∧ st = some ⟨c, false, false⟩))
    (hexc : ∀ c, c ≠ x → s.start = some ⟨c, false, false⟩ → st = s.start)
    (hstart : ∀ u, st = some u → ∃ u₀, s.start = some u₀ ∧ u.child = u₀.child ∧
      (u.child = x → q.life ≠ .reaped ∧ (q.execd = true → u.grouped = true)) ∧
      (u.child ≠ x → u = u₀)) :
    Inv { s.setProc x q with start := st } where
  lt j r hr := by
    obtain ⟨r₀, hr₀, -⟩ := ha.of_get hp hr
    exact h.lt j r₀ hr₀
  line j r hr := by
    obtain ⟨r₀, hr₀, hage⟩ := ha.of_get hp hr
    rw [hage.line]
    exact h.line j r₀ hr₀
  program r hr := by
    obtain ⟨r₀, hr₀, hage⟩ := ha.of_get hp hr
    rw [hage.line, hage.kid]
    exact h.program r₀ hr₀
  kid j r hr hk := by
    obtain ⟨r₀, hr₀, hage⟩ := ha.of_get hp hr
    rw [hage.line, hage.pid]
    exact h.kid j r₀ hr₀ (hage.kid ▸ hk)
  pids i j r r' hr hr' hl hl' hpid := by
    obtain ⟨r₀, hr₀, hage⟩ := ha.of_get hp hr
    obtain ⟨r₁, hr₁, hage'⟩ := ha.of_get hp hr'
    exact h.pids i j r₀ r₁ hr₀ hr₁ (hage.life hl) (hage'.life hl') (by rw [← hage.pid, ← hage'.pid, hpid])
  outside c r y r' hr hk hl hr' hl' hg := by
    obtain ⟨r₀, hr₀, hage⟩ := ha.of_get hp hr
    rcases setProc_get st hr' with ⟨rfl, rfl⟩ | ⟨-, hr'⟩
    · rw [ha.line]
      exact hout c r₀ hr₀ (hage.kid ▸ hk) (hage.life hl) hl' (hage.pid ▸ hg)
    · exact h.outside c r₀ y r' hr₀ (hage.kid ▸ hk) (hage.life hl) hr' hl' (hage.pid ▸ hg)
  inside c r y r' hr hk hl hr' hrun hc hleft := by
    obtain ⟨r₀, hr₀, hage⟩ := ha.of_get hp hr
    rcases setProc_get st hr' with ⟨rfl, rfl⟩ | ⟨hy, hr'⟩
    · rw [hage.pid]
      exact hin c r₀ hr₀ (hage.kid ▸ hk) (hage.life hl) hrun (ha.line ▸ hc) hleft
    · rw [hage.pid]
      refine (h.inside c r₀ y r' hr₀ (hage.kid ▸ hk) (hage.life hl) hr' hrun hc hleft).imp_right ?_
      intro hex
      obtain ⟨rfl, hst⟩ := hex
      exact ⟨rfl, (hexc _ hy hst).trans hst⟩
  start u hu := by
    obtain ⟨u₀, hu₀, hchild, hsame, hother⟩ := hstart u hu
    obtain ⟨r, hr, hk, hl, hexec⟩ := h.start u₀ hu₀
    by_cases hx : u.child = x
    · have hrp : r = p := by
        rw [← hchild, hx, hp] at hr
        exact (Option.some.inj hr).symm
      subst hrp
      refine ⟨q, ?_, ha.kid ▸ hk, hsame hx⟩
      rw [hx]
      exact Function.update_self ..
    · obtain rfl := hother hx
      exact ⟨r, (Function.update_of_ne hx _ _).trans hr, hk, hl, hexec⟩
  handle hd hmem := by
    obtain ⟨⟨r, hr, hk, hpid, hst⟩, hne⟩ := h.handle hd hmem
    refine ⟨?_, ?_⟩
    · by_cases hx : hd.child = x
      · have hrp : r = p := by
          rw [hx, hp] at hr
          exact (Option.some.inj hr).symm
        subst hrp
        refine ⟨q, ?_, ha.kid ▸ hk, hpid.trans ha.pid.symm, ha.birth ▸ hst⟩
        rw [hx]
        exact Function.update_self ..
      · exact ⟨r, (Function.update_of_ne hx _ _).trans hr, hk, hpid, hst⟩
    · intro u hu
      obtain ⟨u₀, hu₀, hchild, -⟩ := hstart u hu
      rw [hchild]
      exact hne u₀ hu₀

theorem setProc (h : Inv s) (hp : s.procs x = some p) (ha : Ages p q)
    (hout : ∀ c r, s.procs c = some r → r.kid = true → r.life ≠ .reaped → q.life ≠ .reaped → q.pgid = r.pid → c ∈ p.line)
    (hin : ∀ c r, s.procs c = some r → r.kid = true → r.life ≠ .reaped → q.life = .running → c ∈ p.line → q.left = false →
      q.pgid = r.pid ∨ (x = c ∧ s.start = some ⟨c, false, false⟩))
    (hstart : ∀ u, s.start = some u → u.child = x → q.life ≠ .reaped ∧ (q.execd = true → u.grouped = true)) :
    Inv (s.setProc x q) :=
  h.set hp ha hout hin (fun _ _ _ => rfl) fun u hu => ⟨u, hu, rfl, hstart u hu, fun _ => rfl⟩

/-! ## Changes of a process -/

/-- In a process's own group there is nobody but those who descend from it. -/
theorem own_group (h : Inv s) (hp : s.procs x = some p) (hl : p.life ≠ .reaped) {r : Proc} (hr : s.procs c = some r)
    (hlr : r.life ≠ .reaped) (hg : p.pid = r.pid) : c ∈ p.line := by
  obtain rfl := h.pids x c p r hp hr hl hlr hg
  exact (h.line x p hp).1

theorem end_ (h : Inv s) (hp : s.procs x = some p) {l : Life} (hlife : l ≠ .running) (hmono : l ≠ .reaped → p.life ≠ .reaped)
    (hstart : ∀ u, s.start = some u → u.child = x → l ≠ .reaped) : Inv (s.setProc x { p with life := l }) := by
  refine h.setProc hp ⟨rfl, rfl, rfl, rfl, hmono⟩ ?_ ?_ ?_
  · intro c r hr hk hl hl' hg
    exact h.outside c r x p hr hk hl hp (hmono hl') hg
  · intro c r _ _ _ hrun
    exact absurd hrun hlife
  · intro u hu hx
    obtain ⟨r, hr, -, -, hexec⟩ := h.start u hu
    refine ⟨hstart u hu hx, ?_⟩
    rw [hx, hp] at hr
    cases hr
    exact hexec

theorem regroup (h : Inv s) (hp : s.procs x = some p) (hrun : p.life = .running) {g : Nat}
    (hg : g = p.pid ∨ ∀ c r, s.procs c = some r → r.kid = true → r.life ≠ .reaped → r.pid = g → c ∈ p.line) :
    Inv (s.setProc x { p with pgid := g, left := p.left || g ≠ p.pgid }) := by
  have hl : p.life ≠ .reaped := by simp [hrun]
  refine h.setProc hp ⟨rfl, rfl, rfl, rfl, fun _ => hl⟩ ?_ ?_ ?_
  · intro c r hr hk hlr _ hgr
    rcases hg with rfl | hg
    · exact h.own_group hp hl hr hlr hgr
    · exact hg c r hr hk hlr hgr.symm
  · intro c r hr hk hlr _ hc hleft
    obtain ⟨hleft₀, hgp⟩ : p.left = false ∧ g = p.pgid := by simpa using hleft
    subst hgp
    exact h.inside c r x p hr hk hlr hp hrun hc hleft₀
  · intro u hu hx
    obtain ⟨r, hr, -, hlr, hexec⟩ := h.start u hu
    rw [hx, hp] at hr
    cases hr
    exact ⟨hlr, hexec⟩

end Inv

/-! ## New processes -/

theorem isFree_spec {pid : Nat} (h : s.isFree pid = true) :
    0 < pid ∧ ∀ j p, j < s.n → s.procs j = some p → p.life ≠ .reaped → p.pid ≠ pid ∧ p.pgid ≠ pid := by
  obtain ⟨hpos, hall⟩ : 0 < pid ∧ ∀ j < s.n, (s.procs j).all (fun p => p.life = .reaped || (p.pid ≠ pid && p.pgid ≠ pid)) = true := by
    simpa [State.isFree] using h
  refine ⟨hpos, ?_⟩
  intro j p hj hp hl
  have hp' := hall j hj
  rw [hp] at hp'
  simpa [hl] using hp'

def newProc (s : State) (parent : Proc) (pid birth : Nat) (kid : Bool) : Proc :=
  { pid := pid, pgid := parent.pgid, birth := birth, line := s.n :: parent.line
    kid := kid, execd := !kid, left := !kid && parent.left }

theorem forkProc_get {pid birth : Nat} {kid : Bool} {st : Option Start} {j : Nat} {r : Proc}
    (h : ({ s.forkProc p pid birth kid with start := st } : State).procs j = some r) :
    (j = s.n ∧ r = newProc s p pid birth kid) ∨ (j ≠ s.n ∧ s.procs j = some r) := by
  have hup : Function.update s.procs s.n (some (newProc s p pid birth kid)) j = some r := h
  rw [Function.update_apply] at hup
  split at hup
  · rename_i hj
    exact .inl ⟨hj, (Option.some.inj hup).symm⟩
  · rename_i hj
    exact .inr ⟨hj, hup⟩

/-- The child in progress that has not been put into its group has not come to `exec`. -/
theorem Inv.starting_of (h : Inv s) (hst : s.start = some ⟨c, false, false⟩) : s.starting c = true := by
  obtain ⟨r, hr, -, -, hexec⟩ := h.start _ hst
  have hnot : r.execd = false := by
    by_contra hne
    have hg := hexec (by simpa using hne)
    cases hg
  simp [State.starting, hst, hr, hnot]

theorem Inv.fork (h : Inv s) (hp : s.procs x = some p) (hrun : p.life = .running) {pid birth : Nat} {kid : Bool}
    {st : Option Start} (hfree : s.isFree pid = true) (hother : kid = false → s.starting x = false ∧ st = s.start)
    (hkid : kid = true → x = 0 ∧ s.start = none ∧ st = some { child := s.n }) :
    Inv { s.forkProc p pid birth kid with start := st } := by
  obtain ⟨hpos, hfresh⟩ := isFree_spec hfree
  have hx := h.lt x p hp
  have hl : p.life ≠ .reaped := by simp [hrun]
  have hold : ∀ {j : Nat} {r : Proc}, s.procs j = some r → ({ s.forkProc p pid birth kid with start := st } : State).procs j = some r := by
    intro j r hr
    exact (Function.update_of_ne (Nat.ne_of_lt (h.lt j r hr)) _ _).trans hr
  have hnew : ({ s.forkProc p pid birth kid with start := st } : State).procs s.n = some (newProc s p pid birth kid) :=
    Function.update_self ..
  refine ⟨?_, ?_, ?_, ?_, ?_, ?_, ?_, ?_, ?_⟩
  · intro j r hr
    show j < s.n + 1
    rcases forkProc_get hr with ⟨rfl, -⟩ | ⟨-, hr⟩
    · omega
    · have := h.lt j r hr
      omega
  · intro j r hr
    rcases forkProc_get hr with ⟨rfl, rfl⟩ | ⟨-, hr⟩
    · refine ⟨List.mem_cons_self, ?_⟩
      intro k hk
      rcases List.mem_cons.mp hk with rfl | hk
      · omega
      · have := (h.line x p hp).2 k hk
        omega
    · exact h.line j r hr
  · intro r hr
    rcases forkProc_get hr with ⟨hj, -⟩ | ⟨-, hr⟩
    · omega
    · exact h.program r hr
  · intro j r hr hk
    rcases forkProc_get hr with ⟨rfl, rfl⟩ | ⟨-, hr⟩
    · obtain ⟨rfl, -⟩ := hkid hk
      refine ⟨?_, hpos⟩
      show s.n :: p.line = _
      rw [(h.program p hp).1]
    · exact h.kid j r hr hk
  · intro i j r r' hr hr' hlr hlr' hpid
    rcases forkProc_get hr with ⟨rfl, rfl⟩ | ⟨-, hr⟩
    · rcases forkProc_get hr' with ⟨rfl, -⟩ | ⟨-, hr'⟩
      · rfl
      · exact absurd hpid.symm (hfresh j r' (h.lt j r' hr') hr' hlr').1
    · rcases forkProc_get hr' with ⟨rfl, rfl⟩ | ⟨-, hr'⟩
      · exact absurd hpid (hfresh i r (h.lt i r hr) hr hlr).1
      · exact h.pids i j r r' hr hr' hlr hlr' hpid
  · intro c r y q hr hk hlr hq hlq hg
    rcases forkProc_get hq with ⟨rfl, rfl⟩ | ⟨-, hq⟩
    · rcases forkProc_get hr with ⟨rfl, rfl⟩ | ⟨-, hr⟩
      · exact List.mem_cons_self
      · exact List.mem_cons_of_mem _ (h.outside c r x p hr hk hlr hp hl hg)
    · rcases forkProc_get hr with ⟨rfl, rfl⟩ | ⟨-, hr⟩
      · exact absurd hg (hfresh y q (h.lt y q hq) hq hlq).2
      · exact h.outside c r y q hr hk hlr hq hlq hg
  · intro c r y q hr hk hlr hq hrunq hc hleft
    rcases forkProc_get hr with ⟨rfl, rfl⟩ | ⟨hcn, hr₀⟩
    · -- the new child is the only one that descends from it
      rcases forkProc_get hq with ⟨rfl, -⟩ | ⟨-, hq⟩
      · exact .inr ⟨rfl, (hkid hk).2.2⟩
      · have := (h.line y q hq).2 _ hc
        have := h.lt y q hq
        omega
    rcases forkProc_get hq with ⟨rfl, rfl⟩ | ⟨-, hq⟩
    · have hcp : c ∈ p.line := by
        rcases List.mem_cons.mp hc with rfl | hc
        · exact absurd rfl hcn
        · exact hc
      cases kid with
      | true =>
        obtain ⟨rfl, -⟩ := hkid rfl
        obtain ⟨hline, -⟩ := h.program p hp
        rw [hline, List.mem_singleton] at hcp
        subst hcp
        rw [(h.program r hr₀).2] at hk
        cases hk
      | false =>
        obtain ⟨hns, hst⟩ := hother rfl
        rcases h.inside c r x p hr₀ hk hlr hp hrun hcp hleft with hg | ⟨rfl, hstart⟩
        · exact .inl hg
        · rw [h.starting_of hstart] at hns
          cases hns
    · refine (h.inside c r y q hr₀ hk hlr hq hrunq hc hleft).imp_right ?_
      intro hex
      obtain ⟨rfl, hstart⟩ := hex
      cases kid with
      | true =>
        rw [(hkid rfl).2.1] at hstart
        cases hstart
      | false => exact ⟨rfl, (hother rfl).2.trans hstart⟩
  · intro u hu
    cases kid with
    | true =>
      cases (hkid rfl).2.2.symm.trans hu
      exact ⟨_, hnew, rfl, by simp [newProc], fun he => by cases he⟩
    | false =>
      obtain ⟨r, hr, hrest⟩ := h.start u ((hother rfl).2.symm.trans hu)
      exact ⟨r, hold hr, hrest⟩
  · intro hd hmem
    obtain ⟨⟨r, hr, hrest⟩, hne⟩ := h.handle hd hmem
    refine ⟨⟨r, hold hr, hrest⟩, ?_⟩
    intro u hu
    cases kid with
    | true =>
      cases (hkid rfl).2.2.symm.trans hu
      exact (Nat.ne_of_lt (h.lt _ _ hr)).symm
    | false => exact hne u ((hother rfl).2.symm.trans hu)

/-! ## Runs -/

/-- A call of `setpgid` puts the child in progress into its own group. -/
theorem Inv.lead (h : Inv s) {u u' : Start} (hu : s.start = some u) (hc : u'.child = u.child) (hp : s.procs u.child = some p)
    (hset : q = p ∨ q = { p with pgid := p.pid }) (hdone : p.life = .running → q.pgid = p.pid ∨ u.grouped = true)
    (hg : u.grouped = true → u'.grouped = true) : Inv { s.setProc u.child q with start := some u' } := by
  obtain ⟨r, hr, hk, hl, hexec⟩ := h.start u hu
  rw [hp] at hr
  cases hr
  have hage : Ages p q := by rcases hset with rfl | rfl <;> exact ⟨rfl, rfl, rfl, rfl, id⟩
  have hself : p.line = [u.child, 0] := (h.kid _ p hp hk).1
  have hlife : q.life = p.life := by rcases hset with rfl | rfl <;> rfl
  have hexecd : q.execd = p.execd := by rcases hset with rfl | rfl <;> rfl
  refine h.set hp hage ?_ ?_ ?_ ?_
  · intro c r hr hkr hlr _ hgr
    rcases hset with rfl | rfl
    · exact h.outside c r u.child q hr hkr hlr hp hl hgr
    · exact h.own_group hp hl hr hlr hgr
  · intro c r hr hkr hlr hrun hcl hleft
    have hcu : c = u.child := by
      rw [hself] at hcl
      rcases List.mem_cons.mp hcl with rfl | hcl
      · rfl
      · rw [List.mem_singleton.mp hcl] at hr
        rw [(h.program r hr).2] at hkr
        cases hkr
    subst hcu
    rw [hp] at hr
    cases hr
    rcases hdone (hlife ▸ hrun) with hg' | hgrouped
    · exact .inl hg'
    rcases hset with rfl | rfl
    · rcases h.inside _ _ _ _ hp hk hl hp hrun (h.line _ _ hp).1 hleft with hg' | ⟨-, hst⟩
      · exact .inl hg'
      · rw [Option.some.inj (hu.symm.trans hst)] at hgrouped
        cases hgrouped
    · exact .inl rfl
  · intro c hne hst
    cases hu.symm.trans hst
    exact absurd rfl hne
  · intro v hv
    cases hv
    exact ⟨u, hu, hc, fun _ => ⟨hlife ▸ hl, fun he => hg (hexec (hexecd ▸ he))⟩, fun hne => absurd hc hne⟩

theorem Inv.exec (h : Inv s) {u : Start} (hu : s.start = some u) (hp : s.procs u.child = some p) (hrun : p.life = .running)
    (hgrouped : u.grouped = true) : Inv (s.setProc u.child { p with execd := true }) := by
  have hl : p.life ≠ .reaped := by simp [hrun]
  refine h.setProc hp ⟨rfl, rfl, rfl, rfl, id⟩ ?_ ?_ ?_
  · intro c r hr hk hlr _ hg
    exact h.outside c r u.child p hr hk hlr hp hl hg
  · intro c r hr hk hlr _ hc hleft
    exact h.inside c r u.child p hr hk hlr hp hrun hc hleft
  · intro v hv _
    cases hu.symm.trans hv
    exact ⟨hl, fun _ => hgrouped⟩

theorem Inv.returned (h : Inv s) {u : Start} (hu : s.start = some u) (hp : s.procs u.child = some p)
    (hre : u.reinforced = true) (readable : Bool) :
    Inv { s with start := none, handles := ⟨u.child, p.pid, if readable then p.birth else 0⟩ :: s.handles } := by
  refine ⟨h.lt, h.line, h.program, h.kid, h.pids, h.outside, ?_, ?_, ?_⟩
  · intro c r y q hr hk hlr hq hrun hc hleft
    rcases h.inside c r y q hr hk hlr hq hrun hc hleft with hg | ⟨-, hst⟩
    · exact .inl hg
    · cases hu.symm.trans hst
      cases hre
  · intro v hv
    cases hv
  · intro hd hmem
    refine ⟨?_, fun v hv => by cases hv⟩
    rcases List.mem_cons.mp hmem with rfl | hmem
    · obtain ⟨r, hr, hk, -⟩ := h.start u hu
      rw [hp] at hr
      cases hr
      refine ⟨p, hp, hk, rfl, ?_⟩
      cases readable
      · exact .inl rfl
      · exact .inr rfl
    · exact (h.handle hd hmem).1

theorem Inv.failed (h : Inv s) {u : Start} (hu : s.start = some u) (hp : s.procs u.child = some p) :
    Inv { s.setProc u.child { p with life := .reaped } with start := none } := by
  have hage : Ages p { p with life := .reaped } := ⟨rfl, rfl, rfl, rfl, fun hne => absurd rfl hne⟩
  refine h.set hp hage ?_ ?_ ?_ ?_
  · intro c r _ _ _ hl
    exact absurd rfl hl
  · intro c r _ _ _ hrun
    cases hrun
  · intro c hne hst
    cases hu.symm.trans hst
    exact absurd rfl hne
  · intro v hv
    cases hv

theorem inv_step {e : Event} {t : State} (h : Inv s) (hout : StaysOut s e) (ht : step s e = some t) : Inv t := by
  cases e with
  | fork x pid birth =>
    obtain ⟨p, hp, ht⟩ := Option.bind_eq_some_iff.mp ht
    obtain ⟨hcond, ht⟩ := Option.ite_none_right_eq_some.mp ht
    cases ht
    simp only [Bool.and_eq_true, decide_eq_true_eq, Bool.not_eq_true'] at hcond
    obtain ⟨⟨hrun, hns⟩, hfree⟩ := hcond
    exact h.fork hp hrun hfree (fun _ => ⟨hns, rfl⟩) (fun hk => by cases hk)
  | regroup x g =>
    obtain ⟨p, hp, ht⟩ := Option.bind_eq_some_iff.mp ht
    obtain ⟨hcond, ht⟩ := Option.ite_none_right_eq_some.mp ht
    cases ht
    simp only [Bool.and_eq_true, decide_eq_true_eq, Bool.not_eq_true'] at hcond
    exact h.regroup hp hcond.1.1 (.inr fun c r hr hk hl hg => hout c r p hr hk hl hg hp)
  | exit x =>
    obtain ⟨p, hp, ht⟩ := Option.bind_eq_some_iff.mp ht
    obtain ⟨hrun, ht⟩ := Option.ite_none_right_eq_some.mp ht
    cases ht
    exact h.end_ hp (by simp) (fun _ => by simp [hrun]) (fun _ _ _ => by simp)
  | reap x =>
    obtain ⟨p, hp, ht⟩ := Option.bind_eq_some_iff.mp ht
    obtain ⟨hcond, ht⟩ := Option.ite_none_right_eq_some.mp ht
    cases ht
    refine h.end_ hp (by simp) (fun hne => absurd rfl hne) ?_
    intro u hu hx
    simp [hu, hx] at hcond
  | start pid birth =>
    obtain ⟨p, hp, ht⟩ := Option.bind_eq_some_iff.mp ht
    obtain ⟨hcond, ht⟩ := Option.ite_none_right_eq_some.mp ht
    cases ht
    simp only [Bool.and_eq_true, decide_eq_true_eq, Option.isNone_iff_eq_none] at hcond
    obtain ⟨⟨hrun, hnone⟩, hfree⟩ := hcond
    exact h.fork hp hrun hfree (fun hk => by cases hk) (fun _ => ⟨rfl, hnone, rfl⟩)
  | childGroup =>
    obtain ⟨u, hu, ht⟩ := Option.bind_eq_some_iff.mp ht
    obtain ⟨p, hp, ht⟩ := Option.bind_eq_some_iff.mp ht
    obtain ⟨-, ht⟩ := Option.ite_none_right_eq_some.mp ht
    cases ht
    exact h.lead hu rfl hp (.inr rfl) (fun _ => .inl rfl) (fun _ => rfl)
  | reinforce =>
    obtain ⟨u, hu, ht⟩ := Option.bind_eq_some_iff.mp ht
    obtain ⟨p, hp, ht⟩ := Option.bind_eq_some_iff.mp ht
    obtain ⟨-, ht⟩ := Option.ite_none_left_eq_some.mp ht
    cases ht
    refine h.lead hu rfl hp ?_ ?_ id
    · split
      · exact .inr rfl
      · exact .inl rfl
    · intro hrun
      split
      · exact .inl rfl
      · -- the kernel refuses it after `exec`, but then the child has made its call
        rename_i hcond
        obtain ⟨r, hr, -, -, hexec⟩ := h.start u hu
        rw [hp] at hr
        cases hr
        exact .inr (hexec (by simpa [hrun] using hcond))
  | exec =>
    obtain ⟨u, hu, ht⟩ := Option.bind_eq_some_iff.mp ht
    obtain ⟨p, hp, ht⟩ := Option.bind_eq_some_iff.mp ht
    obtain ⟨hcond, ht⟩ := Option.ite_none_right_eq_some.mp ht
    cases ht
    simp only [Bool.and_eq_true, decide_eq_true_eq] at hcond
    exact h.exec hu hp hcond.1.1 hcond.1.2
  | returned readable =>
    obtain ⟨u, hu, ht⟩ := Option.bind_eq_some_iff.mp ht
    obtain ⟨p, hp, ht⟩ := Option.bind_eq_some_iff.mp ht
    obtain ⟨hcond, ht⟩ := Option.ite_none_right_eq_some.mp ht
    cases ht
    simp only [Bool.and_eq_true] at hcond
    exact h.returned hu hp hcond.1 readable
  | failed =>
    obtain ⟨u, hu, ht⟩ := Option.bind_eq_some_iff.mp ht
    obtain ⟨p, hp, ht⟩ := Option.bind_eq_some_iff.mp ht
    obtain ⟨-, ht⟩ := Option.ite_none_right_eq_some.mp ht
    cases ht
    exact h.failed hu hp

theorem inv_boot {pid pgid : Nat} (hne : pid ≠ 1) : Inv (State.boot pid pgid) := by
  have hprocs : ∀ j p, (State.boot pid pgid).procs j = some p →
      (j = 0 ∧ p = ⟨pid, pgid, 0, [0], .running, false, true, false⟩) ∨ (j = 1 ∧ p = ⟨1, 1, 0, [1], .running, false, true, false⟩) := by
    intro j p hp
    simp only [State.boot] at hp
    split at hp
    · exact .inl ⟨‹_›, (Option.some.inj hp).symm⟩
    split at hp
    · exact .inr ⟨‹_›, (Option.some.inj hp).symm⟩
    · cases hp
  have hkid : ∀ j p, (State.boot pid pgid).procs j = some p → p.kid ≠ true := by
    intro j p hp hk
    rcases hprocs j p hp with ⟨-, rfl⟩ | ⟨-, rfl⟩ <;> cases hk
  refine ⟨?_, ?_, ?_, ?_, ?_, ?_, ?_, ?_, ?_⟩
  · intro j p hp
    show j < 2
    rcases hprocs j p hp with ⟨rfl, -⟩ | ⟨rfl, -⟩ <;> omega
  · intro j p hp
    rcases hprocs j p hp with ⟨rfl, rfl⟩ | ⟨rfl, rfl⟩ <;> simp
  · intro p hp
    rcases hprocs 0 p hp with ⟨-, rfl⟩ | ⟨h0, -⟩
    · exact ⟨rfl, rfl⟩
    · cases h0
  · intro j p hp hk
    exact absurd hk (hkid j p hp)
  · intro i j p q hp hq _ _ hpid
    rcases hprocs i p hp with ⟨rfl, rfl⟩ | ⟨rfl, rfl⟩ <;> rcases hprocs j q hq with ⟨rfl, rfl⟩ | ⟨rfl, rfl⟩
    · rfl
    · exact absurd hpid hne
    · exact absurd hpid.symm hne
    · rfl
  · intro c p x q hp hk
    exact absurd hk (hkid c p hp)
  · intro c p x q hp hk
    exact absurd hk (hkid c p hp)
  · intro u hu
    cases hu
  · intro hd hmem
    cases hmem

/-! ## Who is hit -/

theorem mem_members {g : Nat} : x ∈ s.members g ↔ x < s.n ∧ ∃ q, s.procs x = some q ∧ q.life = .running ∧ q.pgid = g := by
  simp [State.members, Option.any_eq_true]

theorem Inv.holder_eq (h : Inv s) (hp : s.procs c = some p) (hl : p.life ≠ .reaped) : s.holder p.pid = some c := by
  have hnames : ∀ j, s.names p.pid j = true ↔ ∃ q, s.procs j = some q ∧ q.pid = p.pid ∧ q.life ≠ .reaped := by
    intro j
    simp [State.names, Option.any_eq_true]
  cases hf : s.holder p.pid with
  | none =>
    have hno := List.find?_eq_none.mp hf c (List.mem_range.mpr (h.lt c p hp))
    exact absurd ((hnames c).mpr ⟨p, hp, rfl, hl⟩) hno
  | some j =>
    obtain ⟨q, hq, hpid, hlq⟩ := (hnames j).mp (List.find?_some hf)
    rw [h.pids j c q p hq hp hlq hl hpid]

/-- With the child unreaped the check asks about it, and its start time is the one recorded. -/
theorem Inv.killTree_eq (h : Inv s) {hd : Handle} (hmem : hd ∈ s.handles) (hp : s.procs hd.child = some p)
    (hl : p.life ≠ .reaped) (readable : Bool) :
    s.killTree hd readable =
      if p.life ≠ .running then [] else if 0 < hd.startTime ∧ readable = false then [hd.child] else s.members p.pid := by
  obtain ⟨⟨r, hr, hk, hpid, hst⟩, -⟩ := h.handle hd hmem
  rw [hp] at hr
  cases hr
  obtain ⟨hline, hpos⟩ := h.kid _ p hp hk
  have hhold := h.holder_eq hp hl
  unfold State.killTree State.processExited State.startTime
  rw [hpid, hhold]
  simp only [Option.bind_some, hp, Option.map_some, hline, ne_eq, not_true_eq_false, decide_false, Bool.false_or]
  by_cases hrun : p.life = .running
  · cases readable with
    | false => simp [hrun, hpos]
    | true =>
      rcases hst with h0 | hb
      · simp [hrun, hpos, h0]
      · by_cases h0 : p.birth = 0
        · simp [hrun, hpos, hb, h0]
        · simp [hrun, hpos, hb, h0]
  · simp [hrun]

end Proofs

/-- Over any run in which no process enters the group of a child it does not descend from,
    for a handle whose child is unreaped: whoever `kill_tree` signals runs and descends from
    that child, so it is neither the program nor the child of another handle. Where the
    start time can be read, or was not recorded, it signals each process that descends
    from the running child, unless it or one on the way to it from the child changed its
    group. The program is not the process that strangers descend from, PID 1. -/
theorem tree_killed (pid pgid : Nat) (hpid : pid ≠ 1) (es : List Event) (s : State)
    (hm : Runs.Meets step StaysOut (State.boot pid pgid) es) (h : Runs.exec step (State.boot pid pgid) es = some s)
    (hd : Handle) (hmem : hd ∈ s.handles) (p : Proc) (hp : s.procs hd.child = some p) (hl : p.life ≠ .reaped) (readable : Bool) :
    (∀ x ∈ s.killTree hd readable, x ≠ 0 ∧ (∃ q, s.procs x = some q ∧ q.life = .running ∧ hd.child ∈ q.line) ∧
      ∀ hd' ∈ s.handles, hd'.child = x → hd'.child = hd.child) ∧
    (p.life = .running → hd.startTime = 0 ∨ readable = true → ∀ x q, s.procs x = some q → q.life = .running →
      hd.child ∈ q.line → q.left = false → x ∈ s.killTree hd readable) := by
  have hinv : Inv s := Runs.exec_meets (fun _ _ _ hs hr ht => inv_step hs hr ht) (inv_boot hpid) hm h
  obtain ⟨⟨r, hr, hk, -, -⟩, hne⟩ := hinv.handle hd hmem
  rw [hp] at hr
  cases hr
  rw [hinv.killTree_eq hmem hp hl]
  refine ⟨?_, ?_⟩
  · have hrel : ∀ x q, s.procs x = some q → q.life = .running → hd.child ∈ q.line → x ≠ 0 ∧
        (∃ q, s.procs x = some q ∧ q.life = .running ∧ hd.child ∈ q.line) ∧
        ∀ hd' ∈ s.handles, hd'.child = x → hd'.child = hd.child := by
      intro x q hq hrun hline
      have hzero : hd.child ≠ 0 := by
        intro h0
        rw [h0] at hp
        rw [(hinv.program p hp).2] at hk
        cases hk
      refine ⟨?_, ⟨q, hq, hrun, hline⟩, ?_⟩
      · intro heq
        subst heq
        rw [(hinv.program q hq).1, List.mem_singleton] at hline
        exact hzero hline
      · intro hd' hmem' heq
        subst heq
        obtain ⟨⟨r, hr, hkr, -⟩, -⟩ := hinv.handle hd' hmem'
        rw [hq] at hr
        cases hr
        rw [(hinv.kid _ q hq hkr).1] at hline
        rcases List.mem_cons.mp hline with heq | hline
        · exact heq.symm
        · exact absurd (List.mem_singleton.mp hline) hzero
    intro x hx
    split at hx
    · cases hx
    rename_i hrun
    split at hx
    · rw [List.mem_singleton.mp hx]
      exact hrel _ p hp (by simpa using hrun) (hinv.line _ p hp).1
    · obtain ⟨-, q, hq, hrunq, hg⟩ := mem_members.mp hx
      exact hrel x q hq hrunq (hinv.outside _ p x q hp hk hl hq (by simp [hrunq]) hg)
  · intro hrun hread x q hq hrunq hline hleft
    have hgroup : ¬ (0 < hd.startTime ∧ readable = false) := by
      intro hex
      obtain ⟨hpos, hno⟩ := hex
      rcases hread with h0 | hr
      · omega
      · rw [hr] at hno
        cases hno
    rw [if_neg (not_not_intro hrun), if_neg hgroup]
    refine mem_members.mpr ⟨hinv.lt x q hq, q, hq, hrunq, ?_⟩
    rcases hinv.inside _ p x q hp hk hl hq hrunq hline hleft with hg | ⟨-, hst⟩
    · exact hg
    · exact absurd rfl (hne _ hst)

/-- The parent's `setpgid` comes first; the child, the program and a stranger fork. -/
def treeRun : List Event :=
  [.start 10 7, .reinforce, .childGroup, .exec, .returned true, .fork 2 11 8, .fork 0 12 9, .fork 1 13 9]

theorem tree_killed_two : ∃ s, Runs.exec step (State.boot 5 5) treeRun = some s ∧ s.handles = [⟨2, 10, 7⟩] ∧
    3 ∈ s.killTree ⟨2, 10, 7⟩ true ∧ ∀ x ∈ s.killTree ⟨2, 10, 7⟩ true, x ≠ 0 := by
  have hready : Runs.Meets step StaysOut (State.boot 5 5) treeRun := Runs.meets_of_forall (by simp [treeRun, StaysOut])
  obtain ⟨s, hs, hh, p, q, hp, hl, hq, hrun, hline, hleft⟩ : ∃ s, Runs.exec step (State.boot 5 5) treeRun = some s ∧
      s.handles = [⟨2, 10, 7⟩] ∧ ∃ p q, s.procs 2 = some p ∧ p.life = .running ∧ s.procs 3 = some q ∧ q.life = .running ∧
        2 ∈ q.line ∧ q.left = false := ⟨_, rfl, rfl, _, _, rfl, rfl, rfl, rfl, by decide, rfl⟩
  obtain ⟨honly, hall⟩ := tree_killed 5 5 (by decide) treeRun s hready hs ⟨2, 10, 7⟩ (by simp [hh]) p hp (by simp [hl]) true
  exact ⟨s, hs, hh, hall hl (.inr rfl) 3 q hq hrun hline hleft, fun x hx => (honly x hx).1⟩

end CovProcess.Unix.Group
