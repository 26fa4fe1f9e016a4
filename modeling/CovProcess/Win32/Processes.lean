/-
  CovProcess.Win32.Processes — the processes of a Windows system and the tree walk over
  them: `terminate_process_tree`, `terminate_descendants` and `terminate_by_pid`
  (`process_win32_wait.cpp`).

  A process keeps the PID its creator had. A PID can be given out again once the process
  that had it has exited and its last handle is closed; the caller has a handle of the
  root until the call is over. Between any two steps of the call processes are created
  and exit. `creator` and `terminated` record what Windows does not.

  Left out: the exit codes, and the failure of `GetProcessId` on the caller's own handle.
-/

import Mathlib.Logic.Function.Basic
import CovProcess.Lib.Runs
import CovProcess.Lib.StackWalk

namespace CovProcess.Win32.Tree

/-! ## The walk -/

/-- `PROCESSENTRY32`. -/
structure ProcessEntry where
  th32ProcessID : Nat
  th32ParentProcessID : Nat
  deriving DecidableEq, Repr

/-- `children[pid]`, in the order of the snapshot. -/
def children (snap : List ProcessEntry) (pid : Nat) : List Nat :=
  (snap.filter fun pe => pe.th32ParentProcessID = pid).map ProcessEntry.th32ProcessID

/-- `order` of `terminate_descendants`, its last element first; `none` when the loop has
    not come to its end in the turns. -/
def order (snap : List ProcessEntry) (rootPid turns : Nat) : Option (List Nat) :=
  StackWalk.walk (children snap) turns (children snap rootPid).reverse []

/-! ## Processes -/

/-- An `exited` process still has handles open, a `gone` one has none. -/
inductive Life where
  | running
  | exited
  | gone
  deriving DecidableEq, Repr

structure Process where
  pid : Nat
  creator : Option Nat
  parentPid : Nat
  life : Life := .running
  deriving DecidableEq, Repr

/-- Where `terminate_process_tree` is: past its check of the root, or at the PIDs it has
    still to terminate. -/
inductive Phase where
  | checked
  | terminating (todo : List Nat)
  deriving DecidableEq, Repr

structure Call where
  root : Nat
  phase : Phase
  deriving DecidableEq, Repr

structure State where
  procs : Nat → Option Process
  n : Nat
  call : Option Call := none
  /-- What the calls terminated, each with the root of its call. -/
  terminated : List (Nat × Nat) := []

namespace State

/-- The idle process and the system process, from which all others come. -/
def boot : State where
  procs j := if j = 0 then some ⟨0, none, 0, .running⟩ else if j = 1 then some ⟨4, none, 0, .running⟩ else none
  n := 2

def isRunning (s : State) (j : Nat) : Bool := (s.procs j).any fun p => p.life = .running

def holder (s : State) (pid : Nat) : Option Nat :=
  (List.range s.n).find? fun j => (s.procs j).any fun p => p.pid = pid ∧ p.life ≠ .gone

def entry (s : State) (j : Nat) : Option ProcessEntry := (s.procs j).map fun p => ⟨p.pid, p.parentPid⟩

def create (s : State) (parent parentPid pid : Nat) : State :=
  { s with
    procs := Function.update s.procs s.n (some { pid := pid, creator := some parent, parentPid := parentPid })
    n := s.n + 1 }

def setLife (s : State) (j : Nat) (life : Life) : State :=
  { s with procs := Function.update s.procs j ((s.procs j).map fun p => { p with life := life }) }

/-- `TerminateProcess`, which does nothing to an exited process. -/
def terminate (s : State) (root j : Nat) : State :=
  if s.isRunning j then { s.setLife j .exited with terminated := (root, j) :: s.terminated } else s

/-- `terminate_by_pid`; `opened` is whether `OpenProcess` succeeds if there is a process. -/
def terminateByPid (s : State) (current root pid : Nat) (opened : Bool) : State :=
  if pid = 0 ∨ pid = current then s
  else
    match s.holder pid with
    | some j => if opened then s.terminate root j else s
    | none => s

end State

/-! ## The system -/

inductive Event where
  | create (parent pid : Nat)
  | exit (j : Nat)
  /-- The last handle of an exited process is closed. -/
  | free (j : Nat)
  /-- `terminate_process_tree`, up to its check that the root has not exited. -/
  | killTree (root : Nat)
  /-- `terminate_descendants` up to the end of its walk, the loop making `turns` turns.
      `none` is a failed `CreateToolhelp32Snapshot`. -/
  | snapshot (snap : Option (List Nat)) (turns : Nat)
  | terminateByPid (opened : Bool)
  | terminateRoot

/-- One step; `current` is what `GetCurrentProcessId` gives. -/
def step (current : Nat) (s : State) : Event → Option State
  | .create parent pid =>
    (s.procs parent).bind fun p =>
      if p.life = .running ∧ s.holder pid = none then some (s.create parent p.pid pid) else none
  | .exit j => if s.isRunning j then some (s.setLife j .exited) else none
  | .free j =>
    if (s.procs j).any (fun p => p.life = .exited) ∧ s.call.all (fun c => c.root ≠ j) then some (s.setLife j .gone) else none
  | .killTree root =>
    if s.call = none then
      (s.procs root).bind fun p =>
        match p.life with
        | .running => some { s with call := some ⟨root, .checked⟩ }
        | .exited => some s
        | .gone => none
    else none
  | .snapshot snap turns =>
    match s.call with
    | some ⟨root, .checked⟩ =>
      (s.procs root).bind fun p =>
        match snap with
        | none => some { s with call := some ⟨root, .terminating []⟩ }
        | some l =>
          if p.pid = 0 then some { s with call := some ⟨root, .terminating []⟩ }
          else if l.all s.isRunning then
            (order (l.filterMap s.entry) p.pid turns).map fun todo => { s with call := some ⟨root, .terminating todo⟩ }
          else none
    | _ => none
  | .terminateByPid opened =>
    match s.call with
    | some ⟨root, .terminating (pid :: todo)⟩ =>
      some ({ s with call := some ⟨root, .terminating todo⟩ }.terminateByPid current root pid opened)
    | _ => none
  | .terminateRoot =>
    match s.call with
    | some ⟨root, .terminating []⟩ => some { s.terminate root root with call := none }
    | _ => none

abbrev run (current : Nat) (s : State) (es : List Event) : Option State := Runs.exec (step current) s es

end CovProcess.Win32.Tree
