/-
  CovProcess.Win32.FileHandle — the HANDLE of an `mpp::file`
  (`include/mozart++/mpp_system/file.hpp`, Windows): `open_file`, `close_file`, the stream
  accessors, I/O through the streams they hold, and the destructor.

  What `CreateFileA` and `_open_osfhandle` answer is a parameter. The log has every system
  call that touches a HANDLE, newest first; `_close` reaches its HANDLE through the C
  runtime's table. A reference from an accessor is not used after `close_file`, which
  destroys the stream.

  When `_open_osfhandle` fails, `open_file` closes the HANDLE and throws, and the destructor
  of the object, which still has it, closes it again.

  Proved: `closed_once_iff`, every HANDLE is closed once and not touched after exactly when
  `_open_osfhandle` does not fail; `closed_of_close`, the first `close_file` is what closes it.
-/

import CovProcess.File.Model

namespace CovProcess.Win32.FileHandle

open CovProcess.File (Mode parseMode)

/-! ## The system -/

abbrev Handle := Nat

inductive Event where
  | created (h : Handle)
  | used (h : Handle)
  | closed (h : Handle)
  deriving DecidableEq, Repr

def Event.handle : Event → Handle
  | .created h => h
  | .used h => h
  | .closed h => h

/-- `crt` is the C runtime's descriptor table. -/
structure World where
  crt : Nat → Option Handle
  log : List Event := []

structure Access where
  genericRead : Bool
  genericWrite : Bool
  deriving DecidableEq, Repr

inductive Disposition where
  | openExisting
  | createAlways
  | openAlways
  deriving DecidableEq, Repr

inductive OpenFlag where
  | rdonly
  | wronly
  | rdwr
  deriving DecidableEq, Repr

/-- What the two calls answer; `none` is `INVALID_HANDLE_VALUE`, and -1. -/
structure Os where
  createFileA : String → Access → Disposition → Option Handle
  openOsfhandle : Handle → OpenFlag → Option Nat

namespace World

def touch (w : World) (h : Option Handle) (e : Handle → Event) : World :=
  match h with
  | some h => { w with log := e h :: w.log }
  | none => w

/-- `_open_osfhandle` takes a HANDLE over. -/
def adopt (w : World) (fd : Nat) (h : Handle) : World := { w with crt := Function.update w.crt fd (some h) }

/-- `_close`: of the descriptor, and of the HANDLE under it. -/
def closeFd (w : World) (fd : Nat) : World :=
  { w.touch (w.crt fd) .closed with crt := Function.update w.crt fd none }

end World

/-! ## The object -/

/-- `mpp::file`. A stream is the `native_fd()` it was made with. -/
structure FileObj where
  readable : Bool := false
  writable : Bool := false
  append : Bool := false
  isClosed : Bool := false
  istream : Option (Option Handle) := none
  ostream : Option (Option Handle) := none
  handle : Option Handle := none
  uvFd : Option Nat := none

namespace FileObj

def isReadable (f : FileObj) : Bool := f.readable && !f.isClosed

def isWritable (f : FileObj) : Bool := f.writable && !f.isClosed

def configure (f : FileObj) (m : Mode) : FileObj :=
  { f with readable := m.readable, writable := m.writable, append := m.append }

def nativeFd (f : FileObj) : Option Handle := f.handle

def closeFile (f : FileObj) (w : World) : FileObj × World :=
  if f.isClosed then (f, w)
  else
    let f := { f with isClosed := true, istream := none, ostream := none }
    match f.uvFd with
    | some fd => ({ f with uvFd := none, handle := none }, w.closeFd fd)
    | none =>
      match f.handle with
      | some h => ({ f with handle := none }, w.touch (some h) .closed)
      | none => (f, w)

/-- `~file`. -/
def destroy (f : FileObj) (w : World) : World := (f.closeFile w).2

def outStream (f : FileObj) : FileObj := { f with istream := some (f.istream.getD f.nativeFd) }

def inStream (f : FileObj) : FileObj := { f with ostream := some (f.ostream.getD f.nativeFd) }

end FileObj

/-! ## `open_file` -/

def access (f : FileObj) : Access := ⟨f.isReadable, f.isWritable⟩

def disposition (m : Mode) : Disposition :=
  if m.createTrunc then .createAlways else if m.append then .openAlways else .openExisting

def openFlag (f : FileObj) : OpenFlag :=
  if f.isReadable && f.isWritable then .rdwr else if f.isReadable then .rdonly else .wronly

inductive Opened where
  | file (f : FileObj)
  | empty
  | error (what : String)

/-- The object is destroyed where it is not returned. -/
def openFile (os : Os) (w : World) (path mode : String) : World × Opened :=
  match parseMode mode with
  | none => (w, .error ("unsupported file mode: " ++ mode))
  | some m =>
    let f := FileObj.configure {} m
    match os.createFileA path (access f) (disposition m) with
    | none => (f.destroy w, .empty)
    | some h =>
      let w := w.touch (some h) .created
      let f := { f with handle := some h }
      let w := w.touch (some h) .used
      match os.openOsfhandle h (openFlag f) with
      | none =>
        let w := w.touch (some h) .closed
        (f.destroy w, .error "_open_osfhandle failed for file handle")
      | some fd =>
        let f := { f with uvFd := some fd }
        let w := w.adopt fd h
        (if m.append then w.touch (some h) .used else w, .file f)

/-! ## A life -/

/-- What is called on an object. `read` and `write` are system calls of its streams. -/
inductive Op where
  | closeFile
  | outStream
  | inStream
  | read
  | write
  deriving DecidableEq, Repr

def Op.run (f : FileObj) (w : World) : Op → FileObj × World
  | .closeFile => f.closeFile w
  | .outStream => (f.outStream, w)
  | .inStream => (f.inStream, w)
  | .read => (f.outStream, w.touch (f.istream.getD f.nativeFd) .used)
  | .write => (f.inStream, w.touch (f.ostream.getD f.nativeFd) .used)

def runOps : List Op → FileObj × World → FileObj × World
  | [], x => x
  | op :: ops, x => runOps ops (op.run x.1 x.2)

/-- An open, any calls, and the destructor. -/
def life (os : Os) (crt : Nat → Option Handle) (path mode : String) (ops : List Op) : World :=
  match openFile os { crt := crt } path mode with
  | (w, .file f) => (runOps ops (f, w)).1.destroy (runOps ops (f, w)).2
  | (w, _) => w

/-- Closed, once, and not touched since. -/
def ClosedOnce (log : List Event) (h : Handle) : Prop :=
  ∃ later earlier, log = later ++ .closed h :: earlier ∧ (∀ e ∈ later, e.handle ≠ h) ∧ .closed h ∉ earlier

def Os.created (os : Os) (path : String) (m : Mode) : Option Handle :=
  os.createFileA path (access (FileObj.configure {} m)) (disposition m)

def Os.taken (os : Os) (m : Mode) (h : Handle) : Option Nat := os.openOsfhandle h (openFlag (FileObj.configure {} m))

/-- `CreateFileA` gives a HANDLE that the C runtime does not take. -/
def OsfhandleFails (os : Os) (path mode : String) : Prop :=
  ∃ m h, parseMode mode = some m ∧ os.created path m = some h ∧ os.taken m h = none

/-! ## Who owns it -/

/-- The C runtime's descriptor owns the HANDLE. -/
structure Held (h : Handle) (f : FileObj) (w : World) : Prop where
  isClosed : f.isClosed = false
  handle : f.handle = some h
  uvFd : ∃ fd, f.uvFd = some fd ∧ w.crt fd = some h
  istream : f.istream.getD (some h) = some h
  ostream : f.ostream.getD (some h) = some h
  unclosed : .closed h ∉ w.log

/-- Nobody does, and nothing of the object leads to it. -/
structure Released (h : Handle) (f : FileObj) (w : World) : Prop where
  isClosed : f.isClosed = true
  handle : f.handle = none
  istream : f.istream.getD none = none
  ostream : f.ostream.getD none = none
  once : ClosedOnce w.log h

section

variable {h : Handle} {f : FileObj} {w : World}

theorem closedOnce_cons {log : List Event} (hnot : .closed h ∉ log) : ClosedOnce (.closed h :: log) h :=
  ⟨[], log, rfl, fun _ he => absurd he List.not_mem_nil, hnot⟩

/-- Closed again, a HANDLE is not closed once. -/
theorem not_closedOnce_twice (log : List Event) : ¬ ClosedOnce (.closed h :: .closed h :: log) h := by
  rintro ⟨later, earlier, hlog, hlater, hearlier⟩
  cases later with
  | nil =>
    rw [List.nil_append, List.cons.injEq] at hlog
    exact hearlier (hlog.2 ▸ List.mem_cons_self)
  | cons e later =>
    rw [List.cons_append, List.cons.injEq] at hlog
    exact hlater e List.mem_cons_self (hlog.1 ▸ rfl)

theorem Held.closeFile (hh : Held h f w) : Released h (f.closeFile w).1 (f.closeFile w).2 := by
  obtain ⟨fd, hfd, hcrt⟩ := hh.uvFd
  have hclose : f.closeFile w = ({ f with isClosed := true, istream := none, ostream := none, uvFd := none, handle := none },
      w.closeFd fd) := by
    simp [FileObj.closeFile, hh.isClosed, hfd]
  have hlog : (w.closeFd fd).log = .closed h :: w.log := by
    simp [World.closeFd, World.touch, hcrt]
  rw [hclose]
  exact ⟨rfl, rfl, rfl, rfl, hlog ▸ closedOnce_cons hh.unclosed⟩

theorem Released.closeFile (hr : Released h f w) : f.closeFile w = (f, w) := by
  rw [FileObj.closeFile, if_pos hr.isClosed]

theorem Held.use (hh : Held h f w) : Held h f (w.touch (some h) .used) :=
  { hh with unclosed := by simpa [World.touch] using hh.unclosed }

/-- A call leaves the HANDLE where it is, or is the `close_file` that closes it. -/
theorem Held.run (hh : Held h f w) (op : Op) :
    if op = .closeFile then Released h (op.run f w).1 (op.run f w).2 else Held h (op.run f w).1 (op.run f w).2 := by
  have hout : Held h f.outStream w := by
    refine { hh with istream := ?_ }
    rw [FileObj.outStream, FileObj.nativeFd, hh.handle, hh.istream]
    rfl
  have hin : Held h f.inStream w := by
    refine { hh with ostream := ?_ }
    rw [FileObj.inStream, FileObj.nativeFd, hh.handle, hh.ostream]
    rfl
  cases op with
  | closeFile => exact hh.closeFile
  | outStream => exact hout
  | inStream => exact hin
  | read =>
    rw [if_neg (by decide), Op.run, FileObj.nativeFd, hh.handle, hh.istream]
    exact hout.use
  | write =>
    rw [if_neg (by decide), Op.run, FileObj.nativeFd, hh.handle, hh.ostream]
    exact hin.use

theorem Released.run (hr : Released h f w) (op : Op) : Released h (op.run f w).1 (op.run f w).2 := by
  have hout : Released h f.outStream w := by
    refine { hr with istream := ?_ }
    rw [FileObj.outStream, FileObj.nativeFd, hr.handle, hr.istream]
    rfl
  have hin : Released h f.inStream w := by
    refine { hr with ostream := ?_ }
    rw [FileObj.inStream, FileObj.nativeFd, hr.handle, hr.ostream]
    rfl
  cases op with
  | closeFile =>
    rw [Op.run, hr.closeFile]
    exact hr
  | outStream => exact hout
  | inStream => exact hin
  | read =>
    rw [Op.run, FileObj.nativeFd, hr.handle, hr.istream]
    exact hout
  | write =>
    rw [Op.run, FileObj.nativeFd, hr.handle, hr.ostream]
    exact hin

theorem Released.runOps (ops : List Op) {x : FileObj × World} (hr : Released h x.1 x.2) :
    Released h (runOps ops x).1 (runOps ops x).2 := by
  induction ops generalizing x with
  | nil => exact hr
  | cons op ops ih => exact ih (hr.run op)

theorem Held.runOps (ops : List Op) {x : FileObj × World} (hh : Held h x.1 x.2) :
    if .closeFile ∈ ops then Released h (runOps ops x).1 (runOps ops x).2
    else Held h (runOps ops x).1 (runOps ops x).2 := by
  induction ops generalizing x with
  | nil => exact hh
  | cons op ops ih =>
    have hop := hh.run op
    by_cases hc : op = .closeFile
    · rw [if_pos hc] at hop
      rw [if_pos (hc ▸ List.mem_cons_self)]
      exact hop.runOps ops
    · rw [if_neg hc] at hop
      have hmem : Op.closeFile ∈ op :: ops ↔ Op.closeFile ∈ ops := by
        simp [Ne.symm hc]
      simp only [hmem]
      exact ih hop

/-- Whatever was called, the object is destroyed with the HANDLE closed once. -/
theorem Held.destroy (ops : List Op) {x : FileObj × World} (hh : Held h x.1 x.2) :
    ClosedOnce ((FileHandle.runOps ops x).1.destroy (FileHandle.runOps ops x).2).log h := by
  have hops := hh.runOps ops
  by_cases hc : .closeFile ∈ ops
  · rw [if_pos hc] at hops
    rw [FileObj.destroy, hops.closeFile]
    exact hops.once
  · rw [if_neg hc] at hops
    exact hops.closeFile.once

end

/-! ## An open and its object -/

inductive Opens (os : Os) (w : World) (path mode : String) : World × Opened → Prop where
  | unsupported (hm : parseMode mode = none) : Opens os w path mode (w, .error ("unsupported file mode: " ++ mode))
  | empty {m : Mode} (hm : parseMode mode = some m) (hc : os.created path m = none) : Opens os w path mode (w, .empty)
  | failed {m : Mode} {h : Handle} (hm : parseMode mode = some m) (hc : os.created path m = some h)
      (ho : os.taken m h = none) :
      Opens os w path mode ({ w with log := .closed h :: .closed h :: .used h :: .created h :: w.log },
        .error "_open_osfhandle failed for file handle")
  | opened {m : Mode} {h : Handle} {fd : Nat} {more : List Event} (hm : parseMode mode = some m)
      (hc : os.created path m = some h) (ho : os.taken m h = some fd) (hmore : ∀ e ∈ more, e = .used h) :
      Opens os w path mode
        ({ crt := Function.update w.crt fd (some h), log := more ++ .used h :: .created h :: w.log },
          .file { FileObj.configure {} m with handle := some h, uvFd := some fd })

theorem openFile_spec (os : Os) (w : World) (path mode : String) : Opens os w path mode (openFile os w path mode) := by
  cases hm : parseMode mode with
  | none =>
    have heq : openFile os w path mode = (w, .error ("unsupported file mode: " ++ mode)) := by rw [openFile, hm]
    exact heq ▸ .unsupported hm
  | some m =>
    cases hc : os.created path m with
    | none =>
      have heq : openFile os w path mode = (w, .empty) := by
        rw [Os.created] at hc
        simp only [openFile, hm, hc]
        rfl
      exact heq ▸ .empty hm hc
    | some h =>
      have hflag : openFlag { FileObj.configure {} m with handle := some h } = openFlag (FileObj.configure {} m) := rfl
      cases ho : os.taken m h with
      | none =>
        have heq : openFile os w path mode =
            ({ w with log := .closed h :: .closed h :: .used h :: .created h :: w.log },
              .error "_open_osfhandle failed for file handle") := by
          rw [Os.created] at hc
          rw [Os.taken] at ho
          simp only [openFile, hm, hc, hflag, ho]
          rfl
        exact heq ▸ .failed hm hc ho
      | some fd =>
        have heq : openFile os w path mode =
            ({ crt := Function.update w.crt fd (some h),
               log := (if m.append then [.used h] else []) ++ .used h :: .created h :: w.log },
              .file { FileObj.configure {} m with handle := some h, uvFd := some fd }) := by
          rw [Os.created] at hc
          rw [Os.taken] at ho
          simp only [openFile, hm, hc, hflag, ho]
          cases m.append <;> rfl
        refine heq ▸ .opened hm hc ho ?_
        intro e he
        cases ha : m.append
        · rw [ha] at he
          cases he
        · rw [ha] at he
          exact List.mem_singleton.mp he

theorem held_of_open {os : Os} {crt : Nat → Option Handle} {path mode : String} {w : World} {f : FileObj}
    (hopen : openFile os { crt := crt } path mode = (w, .file f)) :
    ∃ h, Held h f w ∧ ∀ k, .created k ∈ w.log → k = h := by
  have hspec := openFile_spec os { crt := crt } path mode
  rw [hopen] at hspec
  cases hspec with
  | @opened m h fd more hm hc ho hmore =>
    refine ⟨h, ⟨rfl, rfl, ⟨fd, rfl, Function.update_self fd _ _⟩, rfl, rfl, ?_⟩, ?_⟩
    · intro hmem
      rcases List.mem_append.mp hmem with hm | hm
      · cases hmore _ hm
      · simp at hm
    · intro k hmem
      rcases List.mem_append.mp hmem with hm | hm
      · cases hmore _ hm
      · simpa using hm

theorem closed_of_close {os : Os} {crt : Nat → Option Handle} {path mode : String} {w : World} {f : FileObj} {ops : List Op}
    (hopen : openFile os { crt := crt } path mode = (w, .file f)) (hclose : .closeFile ∈ ops) :
    ∃ h, ClosedOnce (runOps ops (f, w)).2.log h ∧ ∀ k, .created k ∈ w.log → k = h := by
  obtain ⟨h, hheld, hcreated⟩ := held_of_open hopen
  have hops := Held.runOps ops (x := (f, w)) hheld
  rw [if_pos hclose] at hops
  exact ⟨h, hops.once, hcreated⟩

/-! ### Nothing but an open creates a HANDLE -/

section

variable {h : Handle} {w : World}

theorem created_touch {o : Option Handle} {e : Handle → Event} (hne : ∀ k, e k ≠ .created h)
    (hmem : .created h ∈ (w.touch o e).log) : .created h ∈ w.log := by
  cases o with
  | none => exact hmem
  | some k => exact (List.mem_cons.mp hmem).resolve_left (hne k).symm

theorem created_closeFile {f : FileObj} (hmem : .created h ∈ (f.closeFile w).2.log) : .created h ∈ w.log := by
  rw [FileObj.closeFile] at hmem
  by_cases hc : f.isClosed = true
  · rwa [if_pos hc] at hmem
  · rw [if_neg hc] at hmem
    cases hfd : f.uvFd with
    | some fd =>
      simp only [hfd] at hmem
      exact created_touch (fun _ he => by cases he) hmem
    | none =>
      cases hh : f.handle with
      | some k =>
        simp only [hfd, hh] at hmem
        exact created_touch (fun _ he => by cases he) hmem
      | none => simpa only [hfd, hh] using hmem

theorem created_run {f : FileObj} {op : Op} (hmem : .created h ∈ (op.run f w).2.log) : .created h ∈ w.log := by
  cases op with
  | closeFile => exact created_closeFile hmem
  | outStream => exact hmem
  | inStream => exact hmem
  | read => exact created_touch (fun _ he => by cases he) hmem
  | write => exact created_touch (fun _ he => by cases he) hmem

theorem created_runOps (ops : List Op) (x : FileObj × World)
    (hmem : .created h ∈ ((runOps ops x).1.destroy (runOps ops x).2).log) : .created h ∈ x.2.log := by
  induction ops generalizing x with
  | nil => exact created_closeFile hmem
  | cons op ops ih => exact created_run (ih _ hmem)

end

theorem iff_of_no_handle {os : Os} {path mode : String} {w : World} (hlog : w.log = []) (hok : ¬ OsfhandleFails os path mode) :
    (∀ h, .created h ∈ w.log → ClosedOnce w.log h) ↔ ¬ OsfhandleFails os path mode := by
  refine iff_of_true ?_ hok
  intro h hmem
  rw [hlog] at hmem
  cases hmem

/-- For any answers of the system, any mode and any calls: every HANDLE that was created is
    closed once and not touched after, exactly when `_open_osfhandle` does not fail. -/
theorem closed_once_iff (os : Os) (crt : Nat → Option Handle) (path mode : String) (ops : List Op) :
    (∀ h, .created h ∈ (life os crt path mode ops).log → ClosedOnce (life os crt path mode ops).log h) ↔
      ¬ OsfhandleFails os path mode := by
  have hspec := openFile_spec os { crt := crt } path mode
  unfold life
  cases hopen : openFile os { crt := crt } path mode with
  | mk w o =>
    rw [hopen] at hspec
    cases hspec with
    | unsupported hm =>
      refine iff_of_no_handle rfl ?_
      rintro ⟨m, h, hm', -⟩
      rw [hm] at hm'
      cases hm'
    | empty hm hc =>
      refine iff_of_no_handle rfl ?_
      rintro ⟨m, h, hm', hc', -⟩
      cases hm.symm.trans hm'
      cases hc.symm.trans hc'
    | @failed m h hm hc ho =>
      refine iff_of_false ?_ (not_not_intro ⟨m, h, hm, hc, ho⟩)
      intro hall
      exact not_closedOnce_twice _ (hall h (by simp))
    | @opened m h fd more hm hc ho hmore =>
      obtain ⟨k, hheld, hcreated⟩ := held_of_open hopen
      refine iff_of_true ?_ ?_
      · intro j hj
        obtain rfl := hcreated j (created_runOps ops _ hj)
        exact Held.destroy ops hheld
      · rintro ⟨m', h', hm', hc', ho'⟩
        cases hm.symm.trans hm'
        cases hc.symm.trans hc'
        cases ho.symm.trans ho'

/-- A C runtime that has no descriptor left. -/
def fullRuntime : Os := ⟨fun _ _ _ => some 4, fun _ _ => none⟩

/-- The HANDLE that was opened is closed by `open_file` and by the destructor. -/
theorem closed_twice :
    (life fullRuntime (fun _ => none) "out.txt" "w" []).log = [.closed 4, .closed 4, .used 4, .created 4] ∧
      ¬ ∀ h, .created h ∈ (life fullRuntime (fun _ => none) "out.txt" "w" []).log →
        ClosedOnce (life fullRuntime (fun _ => none) "out.txt" "w" []).log h := by
  have hlog : (life fullRuntime (fun _ => none) "out.txt" "w" []).log = [.closed 4, .closed 4, .used 4, .created 4] := by
    decide
  refine ⟨hlog, ?_⟩
  rw [hlog]
  intro hall
  exact not_closedOnce_twice _ (hall 4 (by simp))

end CovProcess.Win32.FileHandle
