/-
  CovProcess.Win32.Spawn — starting a child on Windows: `create_process` (`src/process.cpp`)
  and `create_process_impl` (`src/process_win32.cpp`), as what they do to the handles of the
  parent and the child.

  A handle is a number of `Lib.FdTable`, close-on-exec where `HANDLE_FLAG_INHERIT` is not
  set: `CreateProcess` gives the child what is inheritable, at the same numbers, as an
  `exec` does. `FD_INVALID` stands for `nullptr` and `INVALID_HANDLE_VALUE`. The pipes and
  the bindings are those of `CovProcess.Unix.Spawn`: that part of the source is shared.

  The system's answers are data: the numbers of each pipe and of the process and thread
  handles (or that there are none), the standard handles, errors of the two calls on
  handle flags, the parent's environment block.
-/

import CovProcess.Unix.Spawn
import CovProcess.Win32.CommandLine
import CovProcess.Win32.Environ

namespace CovProcess.Win32

open FdTable
open CovProcess.Unix (OpenFile FdTab PipeName PipeEnd Fds Pipes redirectOrPipe closeFd closePipe rollback)

variable {φ : Type}

/-! ## Handle flags -/

/-- The errors the system gives for one handle, beside that for a handle that is not open. -/
structure FlagSys where
  getError : Option Nat := none
  setError : Option Nat := none

def ERROR_INVALID_HANDLE : Nat := 6

/-- `HANDLE_FLAG_INHERIT` by `GetHandleInformation`, or `GetLastError()`. -/
def getHandleInformation (sys : FlagSys) (t : FdTab φ) (h : Fd) : Except Nat Bool :=
  match t.get h, sys.getError with
  | none, _ => .error ERROR_INVALID_HANDLE
  | some _, some e => .error e
  | some d, none => .ok !d.cloexec

/-- `SetHandleInformation(h, HANDLE_FLAG_INHERIT, inherit)`. -/
def setHandleInformation (sys : FlagSys) (t : FdTab φ) (h : Fd) (inherit : Bool) : Except Nat (FdTab φ) :=
  match t.get h, sys.setError with
  | none, _ => .error ERROR_INVALID_HANDLE
  | some _, some e => .error e
  | some d, none => .ok (t.put h { d with cloexec := !inherit })

/-- Query the flag and set it when it is not; the messages take the error code. -/
def makeInheritable (sys : FlagSys) (queryMsg setMsg : Nat → String) (t : FdTab φ) (h : Fd) : Except String (FdTab φ) :=
  match getHandleInformation sys t h with
  | .error le => .error (queryMsg le)
  | .ok true => .ok t
  | .ok false =>
    match setHandleInformation sys t h true with
    | .error le => .error (setMsg le)
    | .ok t => .ok t

def ensureHandleInheritable (sys : FlagSys) (t : FdTab φ) (h : Fd) (name : String) : Except String (FdTab φ) :=
  if h = FD_INVALID then .ok t
  else
    makeInheritable sys (fun le => "unable to query handle info on " ++ name ++ " (err=" ++ toString le ++ ")")
      (fun le => "unable to make " ++ name ++ " inheritable (err=" ++ toString le ++ ")") t h

/-- A redirect target is asked about in the same way, with messages of its own. -/
def ensureTargetInheritable (sys : FlagSys) (t : FdTab φ) (h : Fd) (name : String) : Except String (FdTab φ) :=
  makeInheritable sys
    (fun le => "unable to query handle info on " ++ name ++ " redirect (err=" ++ toString le ++ ", h=" ++ toString h ++ ")")
    (fun le => "unable to set handle info on " ++ name ++ " redirect (err=" ++ toString le ++ ", h=" ++ toString h ++ ")") t h

/-- One stream: the handle for the child. `std` is the parent's own, `near` the child's
    end of the pipe (or the target) and `far` the parent's. -/
def setupStream (sys : FlagSys) (name : String) (inherit : Bool) (r : RedirectInfo) (std near far : Fd) (t : FdTab φ) :
    Except String (Fd × FdTab φ) :=
  if inherit then (ensureHandleInheritable sys t std name).map fun t => (std, t)
  else if r.redirected then (ensureTargetInheritable sys t near name).map fun t => (near, t)
  else
    match setHandleInformation sys t far false with
    | .error _ => .error ("unable to set handle information on " ++ name)
    | .ok t => .ok (near, t)

/-! ## The call -/

/-- The standard handles of a process: `GetStdHandle`, and those of a `STARTUPINFO`. -/
structure StdHandles where
  input : Fd := FD_INVALID
  output : Fd := FD_INVALID
  error : Fd := FD_INVALID
  deriving DecidableEq, Repr

structure Kernel (φ : Type) where
  stdinPipe : PipeAlloc (OpenFile φ)
  stdoutPipe : PipeAlloc (OpenFile φ)
  stderrPipe : PipeAlloc (OpenFile φ)
  stdHandles : StdHandles
  stdinFlags : FlagSys
  stdoutFlags : FlagSys
  stderrFlags : FlagSys
  env : Sys
  /-- The bits of a `size_t`. -/
  sizeBits : Nat
  parentEnv : Option (List Char)
  /-- The numbers of the process and the thread handle; none when `CreateProcess` fails. -/
  processHandles : PipeAlloc (OpenFile φ)
  lastError : Nat
  process : φ
  thread : φ
  /-- The creation time of `GetProcessTimes`, high and low. -/
  creationTime : Option (Nat × Nat)

/-- What `CreateProcess` is called with, and the handles the child gets. -/
structure Launch (φ : Type) where
  command : List Char
  env : Option (List Char)
  creationFlags : Nat
  cwd : String
  std : StdHandles
  handles : FdTab φ

structure Outcome (φ : Type) where
  result : Except String ProcessInfo
  table : FdTab φ
  child : Option (Launch φ) := none

def CREATE_NO_WINDOW : Nat := 0x08000000

def setupStdin (k : Kernel φ) (s : ProcessStartup) (p : Pipes) (t : FdTab φ) : Except String (Fd × FdTab φ) :=
  setupStream k.stdinFlags "stdin" s.inheritStdin s.stdin k.stdHandles.input p.pstdin.rd p.pstdin.wr t

def setupStdout (k : Kernel φ) (s : ProcessStartup) (p : Pipes) (t : FdTab φ) : Except String (Fd × FdTab φ) :=
  setupStream k.stdoutFlags "stdout" s.inheritStdout s.stdout k.stdHandles.output p.pstdout.wr p.pstdout.rd t

/-- Merged: the handle of stdout. -/
def setupStderr (k : Kernel φ) (s : ProcessStartup) (p : Pipes) (out : Fd) (t : FdTab φ) : Except String (Fd × FdTab φ) :=
  if s.mergeOutputs then .ok (out, t)
  else setupStream k.stderrFlags "stderr" s.inheritStderr s.stderr k.stdHandles.error p.pstderr.wr p.pstderr.rd t

/-- The child's ends of the piped streams, which the parent does not need. -/
def closeChildEnds (s : ProcessStartup) (p : Pipes) (t : FdTab φ) : FdTab φ :=
  let t := if !s.inheritStdin && !s.stdin.redirected then closeFd t p.pstdin.rd else t
  let t := if !s.inheritStdout && !s.stdout.redirected then closeFd t p.pstdout.wr else t
  if !s.inheritStderr && !s.mergeOutputs && !s.stderr.redirected then closeFd t p.pstderr.wr else t

def startTimeOf : Option (Nat × Nat) → Nat
  | some (high, low) => high <<< 32 ||| low
  | none => 0

/-- From the environment block on. -/
def launch (k : Kernel φ) (s : ProcessStartup) (p : Pipes) (std : StdHandles) (t : FdTab φ) : Outcome φ :=
  match envBlock k.env k.sizeBits k.parentEnv s with
  | .error msg => { result := .error msg, table := t }
  | .ok env =>
    match k.processHandles.pick t with
    | none =>
      { result := .error ("unable to fork subprocess (command: " ++ String.ofList (commandLine s.cmdline) ++
          ", error code: " ++ toString k.lastError ++ ")")
        table := t }
    | some (hProcess, hThread) =>
      { result := .ok {
          pid := hProcess
          tid := hThread
          startTime := startTimeOf k.creationTime
          stdin := if s.inheritStdin || s.stdin.redirected then FD_INVALID else p.pstdin.wr
          stdout := if s.inheritStdout || s.stdout.redirected then FD_INVALID else p.pstdout.rd
          stderr := if s.mergeOutputs || s.inheritStderr || s.stderr.redirected then FD_INVALID else p.pstderr.rd }
        table := closeChildEnds s p ((t.put hProcess ⟨.old k.process, true⟩).put hThread ⟨.old k.thread, true⟩)
        child := some {
          command := commandLine s.cmdline
          env := env
          creationFlags := if s.inheritStdin || s.inheritStdout || s.inheritStderr then 0 else CREATE_NO_WINDOW
          cwd := s.cwd
          std := std
          handles := t.exec } }

def createProcessImpl (k : Kernel φ) (s : ProcessStartup) (p : Pipes) (t : FdTab φ) : Outcome φ :=
  match setupStdin k s p t with
  | .error msg => { result := .error msg, table := t }
  | .ok (hStdInput, t) =>
    match setupStdout k s p t with
    | .error msg => { result := .error msg, table := t }
    | .ok (hStdOutput, t) =>
      match setupStderr k s p hStdOutput t with
      | .error msg => { result := .error msg, table := t }
      | .ok (hStdError, t) => launch k s p ⟨hStdInput, hStdOutput, hStdError⟩ t

/-! ## `create_process` -/

def bindStdin (k : Kernel φ) (s : ProcessStartup) (t : FdTab φ) : Option (Fds × FdTab φ) :=
  if s.inheritStdin then some ({}, t) else redirectOrPipe k.stdinPipe .stdin s.stdin t

def bindStdout (k : Kernel φ) (s : ProcessStartup) (t : FdTab φ) : Option (Fds × FdTab φ) :=
  if s.inheritStdout then some ({}, t) else redirectOrPipe k.stdoutPipe .stdout s.stdout t

def bindStderr (k : Kernel φ) (s : ProcessStartup) (t : FdTab φ) : Option (Fds × FdTab φ) :=
  if s.mergeOutputs || s.inheritStderr then some ({}, t) else redirectOrPipe k.stderrPipe .stderr s.stderr t

def createProcess (k : Kernel φ) (s : ProcessStartup) (t₀ : Table φ) : Outcome φ :=
  let t := t₀.map .old
  match bindStdin k s t with
  | none => { result := .error "unable to bind stdin", table := t }
  | some (pstdin, t) =>
    match bindStdout k s t with
    | none =>
      { result := .error "unable to bind stdout"
        table := if !s.inheritStdin then closePipe t pstdin else t }
    | some (pstdout, t) =>
      match bindStderr k s t with
      | none =>
        let t := if !s.inheritStdin then closePipe t pstdin else t
        { result := .error "unable to bind stderr"
          table := if !s.inheritStdout then closePipe t pstdout else t }
      | some (pstderr, t) =>
        let p : Pipes := ⟨pstdin, pstdout, pstderr⟩
        let o := createProcessImpl k s p t
        match o.result with
        | .ok _ => o
        | .error _ => { o with table := rollback s p o.table }

end CovProcess.Win32
