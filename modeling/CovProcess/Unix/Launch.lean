/-
  CovProcess.Unix.Launch — `create_process` as one step. `createProcess` of
  `CovProcess.Unix.Spawn` takes the reply on the fail pipe as data; in
  `CovProcess.Unix.Handshake` it comes of parent and child running side by side, with the
  child's failures as data. Here these are what its calls give: the `chdir` to the
  directory of the startup, the `fcntl`, and `mpp_execvpe` (`CovProcess.Unix.Execvpe`) on its
  command line and environment (`CovProcess.Unix.Environ`), or the libc's `execvp`, which is
  not in the sources, when no environment was built.

  Proved: `start_refines`, for any interleaving in which no `waitpid` is interrupted and no
  redirect target was stale. The reply is the first of the child's calls that fails, or the
  end of the file, and parent and child are as `createProcess` leaves them for that reply.
-/

import CovProcess.Unix.Environ
import CovProcess.Unix.Execvpe
import CovProcess.Unix.HandshakeProofs

namespace CovProcess.Unix

open FdTable Builder
open Execvpe (Oracle ENOENT ENOMEM Ends mppExecvpe slots strings attempt attemptErrno search components pathEnv CountFits FitsInt)

variable {φ : Type}

/-! ## The child's calls -/

/-- How the child's three calls end; `none` is success. -/
structure Calls where
  chdir : Option Errno
  fcntl : Option Errno
  exec : Option Errno
  deriving DecidableEq

def Calls.errno (f : Calls) : Option Errno := (f.chdir.or f.fcntl).or f.exec

/-- An event of the handshake gives the child what they give. -/
def Calls.Fits (f : Calls) : Event → Prop
  | .chdir err => err = f.chdir
  | .fcntl err => err = f.fcntl
  | .exec err => err = f.exec
  | _ => True

instance (f : Calls) (ev : Event) : Decidable (f.Fits ev) :=
  match ev with
  | .chdir err => inferInstanceAs (Decidable (err = f.chdir))
  | .fcntl err => inferInstanceAs (Decidable (err = f.fcntl))
  | .exec err => inferInstanceAs (Decidable (err = f.exec))
  | .parent | .read _ | .readIntr | .waitpid _ | .child | .write _ | .childExit => isTrue trivial

/-- What the system gives the child. -/
structure ChildSys where
  chdir : CString → Option Execvpe.Errno
  fcntl : Option Execvpe.Errno
  execve : Oracle
  /-- The libc's, with the parent's environment. -/
  execvp : CString → List CString → Option Execvpe.Errno
  malloc : Bool

def parentPath (environ : List CString) : Option CString := (getenv "PATH" environ).map cStr

/-- `errno`, if the function returned; nothing if it left a buffer's bounds. -/
def ending : Execvpe.Result → Option (Option Execvpe.Errno)
  | .execed _ => some none
  | .back s => some (some s.errno)
  | .crashed => none

/-- `mpp_execvpe` with `argv[0]` for its file. -/
def execCall (k : ChildSys) (o : Walks) (environ : List CString) (s : ProcessStartup) (file : CString) :
    Option (Option Execvpe.Errno) :=
  match prebuiltEnvp o environ s with
  | none => some (k.execvp file (argv s))
  | some _ =>
    ending (mppExecvpe k.execve k.malloc (parentPath environ) file ⟨0, slots (strings (argv s)), []⟩)

/-- `int errnum`. -/
def errnum (err : Option Execvpe.Errno) : Option Errno := err.map (BitVec.ofNat 32)

/-- What `child_proc` meets, if its `mpp_execvpe` is well behaved. -/
def calls (k : ChildSys) (o : Walks) (environ : List CString) (s : ProcessStartup) (file : CString) : Option Calls :=
  (execCall k o environ s file).map fun e => ⟨errnum (k.chdir (cStr s.cwd)), errnum k.fcntl, errnum e⟩

/-! ## How they end -/

/-- The end of `mpp_execvpe`, from the oracle alone. -/
def execErrno (k : ChildSys) (o : Walks) (environ : List CString) (s : ProcessStartup) (file : CString) : Option Execvpe.Errno :=
  match prebuiltEnvp o environ s with
  | none => k.execvp file (argv s)
  | some _ =>
    if file.val.toList = [] then some ENOENT
    else if '/' ∈ file.val.toList then attemptErrno k.execve file.val.toList
    else if !k.malloc then some ENOMEM
    else (search k.execve file.val.toList (strings (argv s)) (components (pathEnv (parentPath environ)).val.toList)).1

/-- The lengths that `effective_pathv` and the search keep as an `int`. -/
def PathFits (environ : List CString) (file : CString) : Prop :=
  CountFits (pathEnv (parentPath environ)).val.toList ∧
    ∀ d ∈ components (pathEnv (parentPath environ)).val.toList, FitsInt file.val.toList d

theorem ending_ends {l : List (Option (List Char))} {r : Execvpe.Result} {x : Option Execvpe.Errno × List Execvpe.Call}
    (h : Ends l r x) : ending r = some x.1 := by
  cases h <;> rfl

theorem execCall_eq {k : ChildSys} {o : Walks} {environ : List CString} {s : ProcessStartup} {file : CString}
    {rest : List CString} (hargv : argv s = file :: rest) (hfits : PathFits environ file) :
    execCall k o environ s file = some (execErrno k o environ s file) := by
  unfold execCall execErrno
  cases prebuiltEnvp o environ s with
  | none => rfl
  | some envp =>
    simp only [mppExecvpe]
    rw [hargv]
    split
    · rfl
    split
    · exact ending_ends (Execvpe.attempt_ends k.execve _ _ (strings rest) 0 [])
    split
    · rfl
    have hnul := (pathEnv (parentPath environ)).property
    rw [Execvpe.effectivePathv_eq hnul (Nat.lt_of_succ_lt hfits.1),
      ← @Execvpe.searchFrom_start k.execve _ _ 0 _ (Execvpe.components_ne_nil _)]
    apply ending_ends (Execvpe.searchLoop_ends k.execve file.property _ _ _ _ _ List.length_replicate (.inl rfl) _)
    intro d hd
    obtain ⟨hne, hdnul⟩ := Execvpe.component_spec hnul hd
    exact ⟨hne, hdnul, hfits.2 d hd⟩

def launchErrno (k : ChildSys) (o : Walks) (environ : List CString) (s : ProcessStartup) (file : CString) : Option Execvpe.Errno :=
  ((k.chdir (cStr s.cwd)).or k.fcntl).or (execErrno k o environ s file)

theorem calls_errno {k : ChildSys} {o : Walks} {environ : List CString} {s : ProcessStartup} {file : CString}
    {rest : List CString} {f : Calls} (hargv : argv s = file :: rest) (hfits : PathFits environ file)
    (hcalls : calls k o environ s file = some f) : f.errno = errnum (launchErrno k o environ s file) := by
  rw [calls, execCall_eq hargv hfits] at hcalls
  cases hcalls
  simp only [Calls.errno, launchErrno, errnum, Option.map_or]

/-! ## The child as `createProcess` has it -/

/-- The child on its way through `child_proc` for these ends of its calls. -/
def ChildAt (S : Setup φ) (t : FdTab φ) (f : Calls) : ChildPc φ → FdTab φ → Prop
  | .plumb todo, u => todo.foldl (fun u g => g u) u = childSetup S.kernel.child S.startup S.pipes S.pfail t
  | .fcntl, u => f.chdir = none ∧ u = childSetup S.kernel.child S.startup S.pipes S.pfail t
  | .exec, u => f.chdir = none ∧ f.fcntl = none ∧
      (childSetup S.kernel.child S.startup S.pipes S.pfail t).setCloexec S.pfail.wr = some u
  | .running, u => f.errno = none ∧ childExec S.kernel.child S.startup S.pipes S.pfail t = some u
  | .failing e, _ | .closing e, _ | .exiting e, _ | .exited (some e), _ | .reaped (some e), _ => f.errno = some e
  | .exited none, _ | .reaped none, _ => f.errno = none

theorem childAt_start (S : Setup φ) (t : FdTab φ) (f : Calls) : ChildAt S t f (start S t).child (start S t).childTab := rfl

theorem childAt_moves {S : Setup φ} {t : FdTab φ} {f : Calls} {c c' : Sys φ} {ev : Event}
    (hok : ChildOk S c.child c.childTab) (hi : ChildAt S t f c.child c.childTab) (hfits : f.Fits ev)
    (h : Moves S c ev c') : ChildAt S t f c'.child c'.childTab := by
  cases h with
  | closeWrite | finish | eof | short | data | reply | readIntr | waitIntr | writeIntr => exact hi
  | @reap r e hp hc =>
    rw [hc] at hi
    cases e <;> exact hi
  | plumb hc =>
    rw [hc] at hi
    exact hi
  | closeFail hc | exit hc | write hc =>
    rw [hc] at hi
    exact hi
  | chdir hc =>
    rw [hc] at hi
    exact ⟨hfits.symm, hi⟩
  | chdirFails hc =>
    change f.errno = _
    rw [Calls.errno, ← (hfits : _ = f.chdir)]
    rfl
  | fcntl hc ht =>
    rw [hc] at hi
    obtain ⟨hchdir, htab⟩ := hi
    exact ⟨hchdir, hfits.symm, by rw [← htab, ht]⟩
  | fcntlClosed hc ht =>
    -- the write end is open until the child has reported
    rw [hc] at hok
    obtain ⟨d, hd, -⟩ := Option.map_eq_some_iff.mp (Sole.here hok)
    rw [Table.setCloexec, hd] at ht
    cases ht
  | fcntlFails hc =>
    rw [hc] at hi
    change f.errno = _
    rw [Calls.errno, hi.1, ← (hfits : _ = f.fcntl)]
    rfl
  | exec hc =>
    rw [hc] at hi
    obtain ⟨hchdir, hfcntl, htab⟩ := hi
    refine ⟨?_, by rw [childExec, htab]; rfl⟩
    rw [Calls.errno, hchdir, hfcntl, ← (hfits : _ = f.exec)]
    rfl
  | execFails hc =>
    rw [hc] at hi
    obtain ⟨hchdir, hfcntl, htab⟩ := hi
    change f.errno = _
    rw [Calls.errno, hchdir, hfcntl, ← (hfits : _ = f.exec)]
    rfl
  | childExit hc =>
    rw [hc] at hi
    exact hi.1

/-! ## The two together -/

/-- What `createProcess` gives for a reply. -/
def atOnce (S : Setup φ) (t₀ : Table φ) (r : Reply) : Outcome φ :=
  createProcess { S.kernel with reply := r } S.startup t₀

/-- A run whose parent is done with `r` is what `createProcess` gives at once, where the
    child's calls end in `err`. -/
structure AtOnce (S : Setup φ) (t₀ : Table φ) (c : Sys φ) (r : Reply) (err : Option Errno) : Prop where
  reply : r = match err with
    | none => .eof
    | some e => .errno e.toInt
  result : (atOnce S t₀ r).result = result S r
  table : (atOnce S t₀ r).table = match err with
    | none => c.parentTab
    | some _ => rollback S.startup S.pipes c.parentTab
  execed : err = none → c.child.execed = true
  program : c.child = .running → (atOnce S t₀ r).child = some c.childTab
  reaped : ∀ e, err = some e → c.child = .reaped (some e)

section

variable {S : Setup φ} {t₀ : Table φ} {t : FdTab φ}

/-- What the parent's table comes to after a reply. -/
abbrev replied (S : Setup φ) (t : FdTab φ) (r : Reply) : FdTab φ :=
  (parentProc { S.kernel with reply := r } S.startup S.pipes S.pfail S.pid t).2

theorem createProcessImpl_forked {t₃ : FdTab φ} (hfail : createPipe S.kernel.failPipe .fail S.kernel.pipe2 t₃ = some (S.pfail, t))
    (hfork : S.kernel.fork = some S.pid) (r : Reply) :
    createProcessImpl { S.kernel with reply := r } S.startup S.pipes t₃ =
      ⟨result S r, replied S t r, childExec S.kernel.child S.startup S.pipes S.pfail t⟩ := by
  simp only [createProcessImpl, hfail, hfork]
  cases r <;> rfl

theorem atOnce_forked (hforks : Forks S t₀ t) (hfork : S.kernel.fork = some S.pid) (r : Reply) :
    atOnce S t₀ r =
      match result S r with
      | .ok _ => ⟨result S r, replied S t r, childExec S.kernel.child S.startup S.pipes S.pfail t⟩
      | .error _ =>
        ⟨result S r, rollback S.startup S.pipes (replied S t r), childExec S.kernel.child S.startup S.pipes S.pfail t⟩ := by
  obtain ⟨t₁, t₂, t₃, hin, hout, herr, hfail⟩ := hforks
  have hbound := createProcess_bound (k := { S.kernel with reply := r }) hin hout herr
  rw [createProcessImpl_forked hfail hfork] at hbound
  exact hbound

theorem ChildAt.errno_none {f : Calls} {pc : ChildPc φ} {u : FdTab φ} (h : ChildAt S t f pc u)
    (hexec : pc.execed = true) : f.errno = none := by
  unfold ChildPc.execed at hexec
  split at hexec
  · exact h.1
  · exact h
  · exact h
  · cases hexec

theorem atOnce_of_inv {f : Calls} {es : List Event} {c : Sys φ} {r : Reply} (hforks : Forks S t₀ t)
    (hfork : S.kernel.fork = some S.pid) (hi : Inv S t es c) (hchild : ChildAt S t f c.child c.childTab)
    (hintr : .waitpid true ∉ es) (htab : c.parentTab = replied S t r) (hfin : c.parent = .finished r) :
    AtOnce S t₀ c r f.errno := by
  have honce := atOnce_forked hforks hfork r
  have hrep := hi.parent
  rw [hfin] at hrep
  rcases hrep with ⟨rfl, hexec, -⟩ | ⟨e, rfl, ⟨hreaped, -⟩ | ⟨-, hin⟩⟩
  · have hnone := hchild.errno_none hexec
    rw [hnone]
    refine ⟨rfl, by rw [honce]; rfl, by rw [honce, htab]; rfl, fun _ => hexec, ?_, ?_⟩
    · intro hrun
      rw [hrun] at hchild
      rw [honce]
      exact hchild.2
    · intro e he
      cases he
  · rw [hreaped] at hchild
    have hsome : f.errno = some e := hchild
    rw [hsome]
    refine ⟨rfl, by rw [honce]; rfl, by rw [honce, htab]; rfl, ?_, ?_, ?_⟩
    · intro he
      cases he
    · intro hrun
      rw [hreaped] at hrun
      cases hrun
    · intro e' he
      cases he
      exact hreaped
  · exact absurd hin hintr

end

/-- For every order in which parent and child take their steps, a `create_process` that is
    done, no `waitpid` of it interrupted, no redirect target stale and the fail pipe's write
    end above 2, the command line not empty and the counts and lengths in PATH within an
    `int`, has given and left what `createProcess` does for the reply its child's calls call
    for: the end of the file if the `chdir`, the `fcntl` and `mpp_execvpe` succeed, or the
    `errno` of the first that fails. -/
theorem start_refines (S : Setup φ) (t₀ : Table φ) (t : FdTab φ) (k : ChildSys) (o : Walks) (environ : List CString)
    (file : CString) (rest : List CString) (f : Calls) (es : List Event) (c : Sys φ) (r : Reply)
    (hforks : Forks S t₀ t) (hfork : S.kernel.fork = some S.pid) (h3 : 3 ≤ S.pfail.wr) (hstale : ¬ Stale S)
    (hargv : argv S.startup = file :: rest) (hpath : PathFits environ file)
    (hcalls : calls k o environ S.startup file = some f) (hfits : ∀ ev ∈ es, f.Fits ev)
    (hintr : .waitpid true ∉ es) (hrun : run S t es = some c) (hfin : c.parent = .finished r) :
    AtOnce S t₀ c r (errnum (launchErrno k o environ S.startup file)) := by
  have hf := hforks.atFork
  have hboth : Inv S t es c ∧ ChildAt S t f c.child c.childTab :=
    Runs.exec_meets_history (I := fun es c => Inv S t es c ∧ ChildAt S t f c.child c.childTab)
      (P := fun _ ev => f.Fits ev)
      (fun es c ev c' hi hfit h =>
        ⟨inv_step hf h3 hstale hi.1 h, childAt_moves hi.1.child hi.2 hfit (step_moves h)⟩)
      ⟨inv_start hf, childAt_start S t f⟩ (Runs.meets_of_forall fun ev hev _ => hfits ev hev) hrun
  rw [← calls_errno hargv hpath hcalls]
  exact atOnce_of_inv hforks hfork hboth.1 hboth.2 hintr (finished_table hrun hfin) hfin

/-- `inheritAll` for the command `/x` and an environment of its own. -/
def ownEnviron : Setup Nat :=
  { inheritAll with startup := { inheritAll.startup with cmdline := ["/x"], inheritEnv := false } }

def noFiles : ChildSys where
  chdir := fun _ => none
  fcntl := none
  execve := fun _ => some ENOENT
  execvp := fun _ _ => some ENOENT
  malloc := true

theorem start_refines_noFiles :
    ∃ c, run ownEnviron inheritAllTab (execFails false) = some c ∧
      AtOnce ownEnviron (callerTable false) c (.errno 2)
        (errnum (launchErrno noFiles ⟨.any, .any⟩ [] ownEnviron.startup ⟨"/x", by decide⟩)) := by
  refine ⟨_, rfl, start_refines ownEnviron (callerTable false) inheritAllTab noFiles ⟨.any, .any⟩ []
    ⟨"/x", by decide⟩ [] ⟨none, none, some 2⟩ (execFails false) _ (.errno 2) ⟨_, _, _, rfl, rfl, rfl, rfl⟩ rfl
    (by decide) ?_ ?_ ?_ ?_ ?_ (by decide) rfl rfl⟩
  · intro hex
    obtain ⟨skip, r, h | h | h, hskip, -⟩ := hex <;> cases h <;> cases hskip
  · exact congrArg (fun c => [c]) (Subtype.ext rfl)
  · exact ⟨by show _ < _; decide +kernel, by show ∀ d ∈ _, _ < _; decide +kernel⟩
  · decide +kernel
  · decide +kernel

end CovProcess.Unix
