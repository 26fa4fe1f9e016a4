/-
  CovProcess.Unix.Spawn — starting a child on Unix: `redirect_or_pipe` and
  `create_process` (`src/process.cpp`), `create_process_impl`, `child_proc` and
  `close_all_descriptors` (`src/process_unix.cpp`), as what they do to the descriptor
  tables of the parent and the child.

  The kernel's answers are data: which numbers each pipe gets (or that it fails), the
  pid or failure of `fork`, what the read of the fail pipe gives, the child's
  `close_range` and `sysconf`. A table before the call refers to files of any type `φ`;
  the call's own pipes are the other open files. `close_fd` also resets the slot it was
  given to `FD_INVALID`; no slot is read after that, so the slots stay as they are here.
-/

import CovProcess.Lib.FdTable
import CovProcess.Startup

namespace CovProcess.Unix

open FdTable

inductive PipeName where
  | stdin
  | stdout
  | stderr
  | fail
  deriving DecidableEq, Repr

inductive PipeEnd where
  | read
  | write
  deriving DecidableEq, Repr

/-- An open file: one the parent had, or an end of a pipe made by this call. -/
inductive OpenFile (φ : Type) where
  | old (f : φ)
  | pipe (p : PipeName) (e : PipeEnd)
  deriving DecidableEq, Repr

abbrev FdTab (φ : Type) := Table (OpenFile φ)

/-- `fd_type fds[2]`: slot `PIPE_READ` and slot `PIPE_WRITE`. -/
structure Fds where
  rd : Fd := FD_INVALID
  wr : Fd := FD_INVALID
  deriving DecidableEq, Repr

variable {φ : Type}

def closeFd (t : FdTab φ) (fd : Fd) : FdTab φ := if fd = FD_INVALID then t else t.close fd

def closePipe (t : FdTab φ) (fds : Fds) : FdTab φ := closeFd (closeFd t fds.rd) fds.wr

/-- `pipe`, or `pipe2` with `O_CLOEXEC`. -/
def createPipe (a : PipeAlloc (OpenFile φ)) (n : PipeName) (cloexec : Bool) (t : FdTab φ) :
    Option (Fds × FdTab φ) :=
  (a.pick t).map fun (r, w) => (⟨r, w⟩, (t.put r ⟨.pipe n .read, cloexec⟩).put w ⟨.pipe n .write, cloexec⟩)

def redirectOrPipe (a : PipeAlloc (OpenFile φ)) (n : PipeName) (r : RedirectInfo) (t : FdTab φ) :
    Option (Fds × FdTab φ) :=
  if !r.redirected then createPipe a n false t
  else some (⟨r.target, r.target⟩, t)

/-! ## The child -/

/-- The answers of the system to `close_all_descriptors`. -/
structure CloseSys where
  /-- Whether the first, and the second, `close_range` succeeds. -/
  closeRange : Bool × Bool
  /-- `sysconf(_SC_OPEN_MAX)`. -/
  openMax : Int

/-- The limit of the brute-force loop: the `long` cut to an `int`, then clamped. -/
def maxFd (openMax : Int) : Int :=
  let m := Int.bmod openMax 4294967296
  if m < 0 then 1024 else if m > 65536 then 65536 else m

/-- `for (fd = from_fd; fd < max_fd; fd++)`, `n` rounds of it. -/
def closeLoop (t : FdTab φ) (fd failFd : Int) : Nat → FdTab φ
  | 0 => t
  | n + 1 => closeLoop (if fd = failFd then t else t.close fd) (fd + 1) failFd n

def bruteForce (sys : CloseSys) (t : FdTab φ) (fromFd failFd : Int) : FdTab φ :=
  closeLoop t fromFd failFd (maxFd sys.openMax - fromFd).toNat

/-- `close_all_descriptors` on Linux. -/
def closeAllDescriptors (sys : CloseSys) (t : FdTab φ) (fromFd failFd : Int) : FdTab φ :=
  if failFd < fromFd then
    if sys.closeRange.1 then t.closeRange fromFd 4294967295
    else bruteForce sys t fromFd failFd
  else if fromFd < failFd then
    if sys.closeRange.1 then
      let t := t.closeRange fromFd (failFd - 1)
      if sys.closeRange.2 then t.closeRange (failFd + 1) 4294967295
      else bruteForce sys t fromFd failFd
    else bruteForce sys t fromFd failFd
  else if sys.closeRange.2 then t.closeRange (failFd + 1) 4294967295
  else bruteForce sys t fromFd failFd

/-- The descriptor arrays `child_proc` and `create_process_impl` get. -/
structure Pipes where
  pstdin : Fds
  pstdout : Fds
  pstderr : Fds

/-- The read end of the fail pipe and the parent's ends of the stdin and stdout pipes. -/
def closeFarEnds (s : ProcessStartup) (p : Pipes) (pfail : Fds) (t : FdTab φ) : FdTab φ :=
  let t := closeFd t pfail.rd
  let t := if !s.inheritStdin && !s.stdin.redirected then closeFd t p.pstdin.wr else t
  if !s.inheritStdout && !s.stdout.redirected then closeFd t p.pstdout.rd else t

def setupStdin (s : ProcessStartup) (p : Pipes) (t : FdTab φ) : FdTab φ :=
  if !s.inheritStdin then t.dup2 p.pstdin.rd 0 else t

def setupStdout (s : ProcessStartup) (p : Pipes) (t : FdTab φ) : FdTab φ :=
  if !s.inheritStdout then t.dup2 p.pstdout.wr 1 else t

/-- Merged: wherever stdout ended up. Inherited: as it is. Else its own pair. -/
def setupStderr (s : ProcessStartup) (p : Pipes) (t : FdTab φ) : FdTab φ :=
  if s.mergeOutputs then t.dup2 1 2
  else if !s.inheritStderr then
    let t := if !s.stderr.redirected then closeFd t p.pstderr.rd else t
    t.dup2 p.pstderr.wr 2
  else t

def closeNearEnds (s : ProcessStartup) (p : Pipes) (t : FdTab φ) : FdTab φ :=
  let t := if !s.inheritStdin then closeFd t p.pstdin.rd else t
  let t := if !s.inheritStdout then closeFd t p.pstdout.wr else t
  if !s.inheritStderr && !s.mergeOutputs then closeFd t p.pstderr.wr else t

/-- `child_proc` up to `close_all_descriptors`: the stream setup. -/
def childStreams (s : ProcessStartup) (p : Pipes) (pfail : Fds) (t : FdTab φ) : FdTab φ :=
  closeNearEnds s p (setupStderr s p (setupStdout s p (setupStdin s p (closeFarEnds s p pfail t))))

/-- `child_proc` up to the `chdir`. -/
def childSetup (sys : CloseSys) (s : ProcessStartup) (p : Pipes) (pfail : Fds) (t : FdTab φ) : FdTab φ :=
  closeAllDescriptors sys (childStreams s p pfail t) 3 pfail.wr

/-- The table of the program the child runs, when `fcntl` and `exec` succeed. -/
def childExec (sys : CloseSys) (s : ProcessStartup) (p : Pipes) (pfail : Fds) (t : FdTab φ) :
    Option (FdTab φ) :=
  ((childSetup sys s p pfail t).setCloexec pfail.wr).map Table.exec

/-! ## The parent -/

/-- What `read_fully` on the fail pipe gives: end of file, the child's `errno`, or an
    error or short read with the parent's own `errno`. -/
inductive Reply where
  | eof
  | errno (e : Int)
  | failed (e : Int)
  deriving DecidableEq, Repr

structure Kernel (φ : Type) where
  stdinPipe : PipeAlloc (OpenFile φ)
  stdoutPipe : PipeAlloc (OpenFile φ)
  stderrPipe : PipeAlloc (OpenFile φ)
  failPipe : PipeAlloc (OpenFile φ)
  /-- `pipe2` makes the fail pipe close-on-exec (Linux). -/
  pipe2 : Bool
  fork : Option Nat
  reply : Reply
  /-- `get_process_start_time(pid)`. -/
  startTime : Nat
  strerror : Int → String
  child : CloseSys

/-- What a call leaves: its result, the parent's table, and the table of the program the
    child runs once its exec succeeded. -/
structure Outcome (φ : Type) where
  result : Except String ProcessInfo
  table : FdTab φ
  child : Option (FdTab φ) := none

/-- The child's ends of the piped streams, which the parent does not need. -/
def closeChildEnds (s : ProcessStartup) (p : Pipes) (t : FdTab φ) : FdTab φ :=
  let t := if !s.inheritStdin && !s.stdin.redirected then closeFd t p.pstdin.rd else t
  let t := if !s.inheritStdout && !s.stdout.redirected then closeFd t p.pstdout.wr else t
  if s.mergeOutputs || s.inheritStderr then t
  else if !s.stderr.redirected then closeFd t p.pstderr.wr else t

/-- The parent side of `create_process_impl` from the fork on. -/
def parentProc (k : Kernel φ) (s : ProcessStartup) (p : Pipes) (pfail : Fds) (pid : Nat) (t : FdTab φ) :
    Except String ProcessInfo × FdTab φ :=
  let t := closeFd t pfail.wr
  match k.reply with
  | .errno e => (.error ("child exec failed: " ++ k.strerror e), closeFd t pfail.rd)
  | .failed e => (.error ("read failed: " ++ k.strerror e), closeFd t pfail.rd)
  | .eof =>
    (.ok {
      pid := pid
      startTime := k.startTime
      stdin := if s.inheritStdin || s.stdin.redirected then FD_INVALID else p.pstdin.wr
      stdout := if s.inheritStdout || s.stdout.redirected then FD_INVALID else p.pstdout.rd
      stderr := if s.mergeOutputs || s.inheritStderr || s.stderr.redirected then FD_INVALID else p.pstderr.rd
      tid := FD_INVALID }, closeChildEnds s p (closeFd t pfail.rd))

def createProcessImpl (k : Kernel φ) (s : ProcessStartup) (p : Pipes) (t : FdTab φ) : Outcome φ :=
  match createPipe k.failPipe .fail k.pipe2 t with
  | none => { result := .error "unable to create communication pipe", table := t }
  | some (pfail, t) =>
    match k.fork with
    | none => { result := .error "unable to fork subprocess", table := closePipe t pfail }
    | some pid =>
      let r := parentProc k s p pfail pid t
      { result := r.1, table := r.2, child := childExec k.child s p pfail t }

/-! ## `create_process` -/

def bindStdin (k : Kernel φ) (s : ProcessStartup) (t : FdTab φ) : Option (Fds × FdTab φ) :=
  if s.inheritStdin then some ({}, t) else redirectOrPipe k.stdinPipe .stdin s.stdin t

def bindStdout (k : Kernel φ) (s : ProcessStartup) (t : FdTab φ) : Option (Fds × FdTab φ) :=
  if s.inheritStdout then some ({}, t) else redirectOrPipe k.stdoutPipe .stdout s.stdout t

def bindStderr (k : Kernel φ) (s : ProcessStartup) (t : FdTab φ) : Option (Fds × FdTab φ) :=
  if s.mergeOutputs || s.inheritStderr then some ({}, t) else redirectOrPipe k.stderrPipe .stderr s.stderr t

/-- The `catch` of `create_process`: redirect targets stay open. -/
def rollback (s : ProcessStartup) (p : Pipes) (t : FdTab φ) : FdTab φ :=
  let t := if !s.inheritStdin && !s.stdin.redirected then closePipe t p.pstdin else t
  let t := if !s.inheritStdout && !s.stdout.redirected then closePipe t p.pstdout else t
  if !s.inheritStderr && !s.mergeOutputs && !s.stderr.redirected then closePipe t p.pstderr else t

def createProcess (k : Kernel φ) (s : ProcessStartup) (t₀ : Table φ) : Outcome φ :=
  let t := t₀.map .old
  match bindStdin k s t with
  | none => { result := .error "unable to bind stdin", table := t }
  | some (pstdin, t) =>
    match bindStdout k s t with
    | none =>
      { result := .error "unable to bind stdout"
        table := if !s.inheritStdin then closePipe t pstdin else t }
    | some (pstdout, t) =>
      match bindStderr k s t with
      | none =>
        let t := if !s.inheritStdin then closePipe t pstdin else t
        { result := .error "unable to bind stderr"
          table := if !s.inheritStdout then closePipe t pstdout else t }
      | some (pstderr, t) =>
        let p : Pipes := ⟨pstdin, pstdout, pstderr⟩
        let o := createProcessImpl k s p t
        match o.result with
        | .ok _ => o
        | .error _ => { o with table := rollback s p o.table }

/-! ## One lemma for each call -/

theorem get_closeFd (t : FdTab φ) (fd x : Fd) : (closeFd t fd).get x = if x = fd then none else t.get x := by
  unfold closeFd
  split
  · rename_i h
    subst h
    split
    · rename_i hx
      subst hx
      exact t.get_eq_none (by decide)
    · rfl
  · rfl

theorem get_closeFd_if (b : Bool) (t : FdTab φ) (fd x : Fd) :
    (if b then closeFd t fd else t).get x = if b = true ∧ x = fd then none else t.get x := by
  cases b <;> simp [get_closeFd]

structure Piped (n : PipeName) (cloexec : Bool) (t : FdTab φ) (fds : Fds) (t' : FdTab φ) : Prop where
  ne : fds.rd ≠ fds.wr
  rdClosed : t.get fds.rd = none
  wrClosed : t.get fds.wr = none
  rdRange : InRange fds.rd
  wrRange : InRange fds.wr
  get : ∀ x, t'.get x = if x = fds.wr then some ⟨.pipe n .write, cloexec⟩
    else if x = fds.rd then some ⟨.pipe n .read, cloexec⟩ else t.get x

theorem createPipe_spec {a : PipeAlloc (OpenFile φ)} {n : PipeName} {c : Bool} {t t' : FdTab φ} {fds : Fds}
    (h : createPipe a n c t = some (fds, t')) : Piped n c t fds t' := by
  simp only [createPipe, Option.map_eq_some_iff, Prod.mk.injEq, Prod.exists] at h
  obtain ⟨r, w, hp, rfl, rfl⟩ := h
  obtain ⟨hr, hw⟩ := a.inRange t r w hp
  obtain ⟨cr, cw⟩ := a.closed t r w hp
  refine ⟨a.distinct t r w hp, cr, cw, hr, hw, ?_⟩
  intro x
  rw [get_put _ hw, get_put _ hr]

namespace Piped

variable {n : PipeName} {c : Bool} {t t' : FdTab φ} {fds : Fds}

/-- An open descriptor is neither end of a later pipe, and stays as it is. -/
theorem keep (h : Piped n c t fds t') {x : Fd} (hx : t.get x ≠ none) :
    x ≠ fds.rd ∧ x ≠ fds.wr ∧ t'.get x = t.get x := by
  have hr : x ≠ fds.rd := fun e => hx (e ▸ h.rdClosed)
  have hw : x ≠ fds.wr := fun e => hx (e ▸ h.wrClosed)
  exact ⟨hr, hw, by rw [h.get, if_neg hw, if_neg hr]⟩

theorem get_wr (h : Piped n c t fds t') : t'.get fds.wr = some ⟨.pipe n .write, c⟩ := by
  rw [h.get, if_pos rfl]

theorem get_rd (h : Piped n c t fds t') : t'.get fds.rd = some ⟨.pipe n .read, c⟩ := by
  rw [h.get, if_neg h.ne, if_pos rfl]

/-- Closing both ends gives the table back. -/
theorem closePipe_eq (h : Piped n c t fds t') : closePipe t' fds = t := by
  ext1 x
  rw [closePipe, get_closeFd, get_closeFd, h.get]
  by_cases hw : x = fds.wr
  · rw [if_pos hw, hw, h.wrClosed]
  by_cases hr : x = fds.rd
  · rw [if_neg hw, if_pos hr, hr, h.rdClosed]
  · simp [hw, hr]

end Piped

/-- What binding a stream does: nothing, the redirect target in both slots, or a pipe. -/
inductive Bound (n : PipeName) (skip : Bool) (r : RedirectInfo) (t : FdTab φ) : Fds → FdTab φ → Prop
  | skipped : skip = true → Bound n skip r t {} t
  | redirected : skip = false → r.redirected = true → Bound n skip r t ⟨r.target, r.target⟩ t
  | piped {fds : Fds} {t' : FdTab φ} : skip = false → r.redirected = false → Piped n false t fds t' →
      Bound n skip r t fds t'

theorem bind_spec {a : PipeAlloc (OpenFile φ)} {n : PipeName} {skip : Bool} {r : RedirectInfo}
    {t t' : FdTab φ} {fds : Fds}
    (h : (if skip then some ({}, t) else redirectOrPipe a n r t) = some (fds, t')) : Bound n skip r t fds t' := by
  cases hs : skip with
  | true =>
    rw [hs, if_pos rfl] at h
    cases h
    exact .skipped rfl
  | false =>
    rw [hs, if_neg (by simp), redirectOrPipe] at h
    cases hr : r.redirected with
    | true =>
      rw [hr] at h
      cases h
      exact .redirected rfl hr
    | false =>
      rw [hr] at h
      exact .piped rfl hr (createPipe_spec h)

theorem Bound.keep {n : PipeName} {skip : Bool} {r : RedirectInfo} {t t' : FdTab φ} {fds : Fds}
    (h : Bound n skip r t fds t') {x : Fd} (hx : t.get x ≠ none) : t'.get x = t.get x := by
  cases h with
  | skipped => rfl
  | redirected => rfl
  | piped _ _ hp => exact (hp.keep hx).2.2

theorem createProcess_noStdin {k : Kernel φ} {s : ProcessStartup} {t₀ : Table φ}
    (hin : bindStdin k s (t₀.map .old) = none) :
    createProcess k s t₀ = { result := .error "unable to bind stdin", table := t₀.map .old } := by
  simp [createProcess, hin]

theorem createProcess_noStdout {k : Kernel φ} {s : ProcessStartup} {t₀ : Table φ} {pstdin : Fds} {t₁ : FdTab φ}
    (hin : bindStdin k s (t₀.map .old) = some (pstdin, t₁)) (hout : bindStdout k s t₁ = none) :
    createProcess k s t₀ =
      { result := .error "unable to bind stdout", table := if !s.inheritStdin then closePipe t₁ pstdin else t₁ } := by
  simp [createProcess, hin, hout]

theorem createProcess_noStderr {k : Kernel φ} {s : ProcessStartup} {t₀ : Table φ} {pstdin pstdout : Fds}
    {t₁ t₂ : FdTab φ} (hin : bindStdin k s (t₀.map .old) = some (pstdin, t₁))
    (hout : bindStdout k s t₁ = some (pstdout, t₂)) (herr : bindStderr k s t₂ = none) :
    createProcess k s t₀ =
      { result := .error "unable to bind stderr"
        table :=
          if !s.inheritStdout then closePipe (if !s.inheritStdin then closePipe t₂ pstdin else t₂) pstdout
          else if !s.inheritStdin then closePipe t₂ pstdin else t₂ } := by
  simp [createProcess, hin, hout, herr]

theorem createProcess_bound {k : Kernel φ} {s : ProcessStartup} {t₀ : Table φ} {p : Pipes} {t₁ t₂ t₃ : FdTab φ}
    (hin : bindStdin k s (t₀.map .old) = some (p.pstdin, t₁))
    (hout : bindStdout k s t₁ = some (p.pstdout, t₂)) (herr : bindStderr k s t₂ = some (p.pstderr, t₃)) :
    createProcess k s t₀ =
      match (createProcessImpl k s p t₃).result with
      | .ok _ => createProcessImpl k s p t₃
      | .error _ => { createProcessImpl k s p t₃ with table := rollback s p (createProcessImpl k s p t₃).table } := by
  simp [createProcess, hin, hout, herr]

end CovProcess.Unix
