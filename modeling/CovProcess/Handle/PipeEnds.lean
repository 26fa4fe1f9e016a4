/-
  CovProcess.Handle.PipeEnds — the pipe ends of a handle, from `create_process` to the end of
  `~member_holder` (`process.hpp`, `process_unix.cpp`): insertions into `in()`,
  `close_stdin` and `close_process`.

  The number of the stdin end is in `_info` and in the buffer of `_stdin`, each with a flag
  of its own. The methods run as in `CovProcess.Handle.Destroy`. Beside them the rest of
  the program opens free numbers and closes numbers the handle does not hold; a number that
  was closed may come back as another file. The log has the handle's calls of `write` and
  `close`, with what was open at the number. What a method opens for itself (`/proc`) it
  closes as well, like the rest of the program.

  Proved: `ends_agree`, the `_info` kept here is the one of the handle's methods;
  `pipe_ends_once`, at the end the handle has closed its own ends and no other, what a
  block insertion hands over is a prefix of the block as long as it reports, and no
  `write` comes after a `close`.
-/

import CovProcess.Handle.Deadlock
import CovProcess.Handle.Destroy
import CovProcess.Stream.FdOutBuf
import CovProcess.Unix.Plumbing

namespace CovProcess.Handle

open FdTable
open CovProcess.Stream (FdOStream Write handed)
open CovProcess.Unix (OpenFile FdTab Kernel Outcome createProcess)

variable {φ : Type}

/-! ## The descriptors -/

/-- What the handle did, with the open file it did it to; `n` is the count of `sputn`. -/
inductive Act (φ : Type) where
  | put (c : UInt8) (file : Option (OpenFile φ)) (ws : List Write)
  | write (s : List UInt8) (file : Option (OpenFile φ)) (ws : List Write) (n : Nat)
  | close (fd : Fd) (file : Option (OpenFile φ))

namespace Act

def file : Act φ → Option (OpenFile φ)
  | .put _ file _ => file
  | .write _ file _ _ => file
  | .close _ file => file

def writes : Act φ → List Write
  | .put _ _ ws => ws
  | .write _ _ ws _ => ws
  | .close _ _ => []

def closed : Act φ → List (Fd × Option (OpenFile φ))
  | .close fd file => [(fd, file)]
  | _ => []

end Act

def closes (log : List (Act φ)) : List (Fd × Option (OpenFile φ)) := log.flatMap Act.closed

/-- `_info` and `_stdin` of a `member_holder`, in a process with this table. -/
structure Ends (φ : Type) where
  info : ProcessInfo
  stdin : FdOStream
  table : FdTab φ
  /-- Oldest first. -/
  log : List (Act φ) := []

namespace Ends

/-- `close_fd`; the slot is its caller's. -/
def closeFd (e : Ends φ) (fd : Fd) : Ends φ :=
  if fd = FD_INVALID then e
  else { e with table := e.table.close fd, log := e.log ++ [.close fd (e.table.file fd)] }

def closeStdin (e : Ends φ) : Ends φ :=
  if e.info.stdinClosed then e
  else
    let e := { e with info := { e.info with stdinClosed := true }, stdin := e.stdin.invalidate }
    if e.info.stdin ≠ FD_INVALID then
      { e.closeFd e.info.stdin with info := { e.info with stdin := FD_INVALID } }
    else e

def closeProcess (e : Ends φ) : Ends φ :=
  let e := { e.closeFd e.info.stdin with info := { e.info with stdin := FD_INVALID } }
  let e := { e.closeFd e.info.stdout with info := { e.info with stdout := FD_INVALID } }
  { e.closeFd e.info.stderr with info := { e.info with stderr := FD_INVALID } }

/-- What the buffer's number refers to. -/
def file (e : Ends φ) : Option (OpenFile φ) := e.table.file e.stdin.buf.fd

/-- An answer the kernel can give: a `write` to a number that is not open fails. -/
def Answers (e : Ends φ) (w : Write) : Prop := w.Fits ∧ (e.file.isSome ∨ w.written < 0)

instance (e : Ends φ) (w : Write) : Decidable (e.Answers w) := inferInstanceAs (Decidable (_ ∧ _))

end Ends

/-! ## The system -/

/-- What a step of the methods does to the descriptors. -/
inductive Does where
  | nothing
  | closeStdin
  | closeProcess

/-- To the descriptors of handle `j`. -/
def Event.does (j : Nat) : Event → Does
  | .call i (.beginCommunicate _) => if j = i then .closeStdin else .nothing
  | .call i (.communicate _) => if j = i then .closeStdin else .nothing
  | _ => .nothing

def LifeEvent.does (d : Option Dtor) : LifeEvent → Does
  | .closeStdin => .closeStdin
  | .method (.other e) => e.does 0
  | .join =>
    match d with
    | some .close => .closeProcess
    | _ => .nothing
  | _ => .nothing

def Ends.follow (e : Ends φ) : Does → Ends φ
  | .nothing => e
  | .closeStdin => e.closeStdin
  | .closeProcess => e.closeProcess

structure Owner (φ : Type) where
  life : Lifetime
  ends : Ends φ

inductive OwnerEvent (φ : Type) where
  | life (e : LifeEvent)
  | put (c : UInt8) (written : Int)
  | write (s : List UInt8) (answers : List Int)
  | clear
  /-- The rest of the program. -/
  | openOther (fd : Fd) (d : Desc (OpenFile φ))
  | closeOther (fd : Fd)

def ownerStep (cfg : Config) (o : Owner φ) : OwnerEvent φ → Option (Owner φ)
  | .life e => (lifeStep cfg o.life e).map fun t => ⟨t, o.ends.follow (e.does o.life.dtor)⟩
  | .put c written =>
    let r := o.ends.stdin.put c written
    if o.life.idle ∧ ∀ w ∈ r.2.2, o.ends.Answers w then
      some { o with ends := { o.ends with stdin := r.1, log := o.ends.log ++ [.put c o.ends.file r.2.2] } }
    else none
  | .write s answers =>
    (o.ends.stdin.write s answers).bind fun (stdin, n, ws) =>
      if o.life.idle ∧ ∀ w ∈ ws, o.ends.Answers w then
        some { o with ends := { o.ends with stdin := stdin, log := o.ends.log ++ [.write s o.ends.file ws n] } }
      else none
  | .clear => if o.life.idle then some { o with ends := { o.ends with stdin := o.ends.stdin.clear } } else none
  | .openOther fd d =>
    if (o.ends.table.get fd).isNone then some { o with ends := { o.ends with table := o.ends.table.put fd d } }
    else none
  | .closeOther fd =>
    if fd ≠ o.ends.info.stdin ∧ fd ≠ o.ends.info.stdout ∧ fd ≠ o.ends.info.stderr then
      some { o with ends := { o.ends with table := o.ends.table.close fd } }
    else none

/-- The `process` that a `create_process` hands over. -/
def Owner.start (o : Outcome φ) (info : ProcessInfo) (prog : List Stream.StreamName)
    (later : List (List Stream.StreamName)) (birth : Nat) : Owner φ where
  life := lifetime info prog later birth
  ends := { info := info, stdin := { buf := { fd := info.stdin } }, table := o.table }

/-- The end of a pipe, when there is one. -/
def endOf (hasPipe : Bool) (fd : Fd) (f : OpenFile φ) : List (Fd × Option (OpenFile φ)) :=
  if hasPipe then [(fd, some f)] else []

/-- The ends that `create_process` made for the handle. -/
def ownedEnds (s : ProcessStartup) (info : ProcessInfo) : List (Fd × Option (OpenFile φ)) :=
  endOf (Unix.piped s .stdin) info.stdin (.pipe .stdin .write) ++
    endOf (Unix.piped s .stdout) info.stdout (.pipe .stdout .read) ++
    endOf (Unix.piped s .stderr) info.stderr (.pipe .stderr .read)

/-! ## The two records of the handle -/

/-- What it does to an `_info`. -/
def Does.info (d : Does) (info : ProcessInfo) : ProcessInfo :=
  match d with
  | .nothing => info
  | .closeStdin => Stream.closeStdin info
  | .closeProcess => { info with stdin := FD_INVALID, stdout := FD_INVALID, stderr := FD_INVALID }

theorem beginWait_info (s : State) (i : Nat) (queued : Bool) (j : Nat) :
    ((s.beginWait i queued).handle j).info = (s.handle j).info := by
  rcases beginWait_eq s i queued with heq | ⟨-, -, heq⟩ <;> rw [heq]
  exact setWork_info _ _ _ _ _

theorem beginRead_info (s : State) (i : Nat) (x : Stream.StreamName) (queued : Bool) (j : Nat) :
    ((s.beginRead i x queued).handle j).info = (s.handle j).info := by
  rcases beginRead_eq s i x queued with heq | ⟨-, heq⟩ <;> rw [heq]
  exact setWork_info _ _ _ _ _

theorem beginCommunicate_info (s : State) (i : Nat) (queued : Kind → Bool) (j : Nat) :
    ((s.beginCommunicate i queued).handle j).info =
      if j = i then Stream.closeStdin (s.handle j).info else (s.handle j).info := by
  simp only [State.beginCommunicate, beginRead_info, beginWait_info, setHandle_handle]
  split
  · rename_i hj
    rw [hj]
  · rfl

theorem call_info (s : State) (i : Nat) (c : Call) (j : Nat) :
    ((c.run s i).handle j).info = ((Event.call i c).does j).info (s.handle j).info := by
  have hbegin : ∀ queued, ((s.beginCommunicate i queued).handle j).info =
      Does.info (if j = i then .closeStdin else .nothing) (s.handle j).info := by
    intro queued
    rw [beginCommunicate_info]
    split <;> rfl
  cases c with
  | beginWait queued => exact beginWait_info s i queued j
  | beginCommunicate queued => exact hbegin queued
  | communicate queued => exact ((Quiet.endCommunicate _ i).info j).trans (hbegin queued)
  | _ => exact (call_quiet s i rfl).info j

theorem step_info {cfg : Config} {s t : State} {e : Event} (he : e.starts = false) (h : step cfg s e = some t)
    (j : Nat) : (t.handle j).info = (e.does j).info (s.handle j).info := by
  cases step_moves h with
  | start => cases he
  | call => exact call_info s _ _ j
  | resume _ hs => exact (Quiet.resume hs).info j
  | workStart | eof | post => exact setWork_info _ _ _ _ j
  | waitReturn _ _ _ hw => exact (setWork_info _ _ _ _ j).trans ((Quiet.waitFor hw).info j)
  | read | write | exit | spawn | vanish => rfl

theorem store_info (s : State) (i : Nat) (c : Int) (j : Nat) : ((s.store i c).handle j).info = (s.handle j).info :=
  setHandle_same MemberHolder.info (by rfl) j

theorem resumeTimed_info {s : State} {i : Nat} {left : Int} {w : TimedWait} {t : Timed}
    (h : s.resumeTimed i left w = some t) (j : Nat) : (t.base.handle j).info = (s.handle j).info := by
  cases w with
  | block =>
    obtain ⟨⟨u, c⟩, hu, rfl⟩ := Option.map_eq_some_iff.mp h
    exact (store_info u i c j).trans ((Quiet.waitFor hu).info j)
  | poll remaining interval =>
    simp only [State.resumeTimed] at h
    split at h <;> cases h
    · rfl
    · exact store_info s i 0 j
    · rfl
  | sleep remaining interval =>
    cases h
    rfl
  | reap c =>
    simp only [State.resumeTimed] at h
    split at h <;> cases h
    · exact store_info (s.reap _) i c j
    · exact store_info s i c j

theorem timed_info {cfg : Config} {s t : Timed} {e : TimedEvent} (h : timedStep cfg s e = some t) (d : Option Dtor) :
    (t.base.handle 0).info = ((LifeEvent.method e).does d).info (s.base.handle 0).info := by
  cases e with
  | other e =>
    obtain ⟨hok, h⟩ := Option.ite_none_right_eq_some.mp h
    obtain ⟨u, hu, rfl⟩ := Option.map_eq_some_iff.mp h
    simp only [Bool.and_eq_true, Bool.not_eq_true'] at hok
    exact step_info hok.1 hu 0
  | waitTimeout i timeoutMs pollIntervalMs =>
    obtain ⟨-, h⟩ := Option.ite_none_right_eq_some.mp h
    cases h
    unfold State.waitTimeout
    split <;> rfl
  | resume left =>
    obtain ⟨⟨i, w⟩, -, h⟩ := Option.bind_eq_some_iff.mp h
    exact resumeTimed_info h 0

theorem join_info {s t : State} {d d' : Dtor} (h : s.join d = some (t, d')) :
    (t.handle 0).info = (LifeEvent.join.does (some d)).info (s.handle 0).info := by
  cases d with
  | join k =>
    simp only [State.join] at h
    split at h <;> cases h
    · rfl
    · unfold State.cancel
      split
      · exact setWork_info _ _ _ _ _
      · rfl
  | spin k =>
    simp only [State.join] at h
    split at h
    · cases h
    · split at h <;> cases h
      · exact setWork_info _ _ _ _ _
      · rfl
  | close =>
    cases h
    simp only [State.closeProcess, setHandle_handle, if_true]
    rfl
  | gone => cases h

theorem lifeStep_info {cfg : Config} {s t : Lifetime} {e : LifeEvent} (h : lifeStep cfg s e = some t) :
    (t.timed.base.handle 0).info = (e.does s.dtor).info (s.timed.base.handle 0).info := by
  cases e with
  | method e =>
    obtain ⟨-, h⟩ := Option.ite_none_right_eq_some.mp h
    obtain ⟨u, hu, rfl⟩ := Option.map_eq_some_iff.mp h
    exact timed_info hu s.dtor
  | closeStdin =>
    obtain ⟨-, h⟩ := Option.ite_none_right_eq_some.mp h
    cases h
    simp only [Lifetime.setBase, setHandle_handle, if_true]
    rfl
  | get x n =>
    obtain ⟨-, h⟩ := Option.ite_none_right_eq_some.mp h
    cases h
    rfl
  | readEof =>
    obtain ⟨prog, later, -, -, -, -, rfl⟩ := readEof_some h
    rfl
  | destroy =>
    obtain ⟨-, h⟩ := Option.ite_none_right_eq_some.mp h
    obtain ⟨⟨u, d⟩, hu, rfl⟩ := Option.map_eq_some_iff.mp h
    exact join_info hu
  | join =>
    obtain ⟨d, hd, h⟩ := Option.bind_eq_some_iff.mp h
    obtain ⟨⟨u, d'⟩, hu, rfl⟩ := Option.map_eq_some_iff.mp h
    rw [hd]
    exact join_info hu

/-- What is done to the descriptors is done before the destructor, or is its last step. -/
inductive Moment (s t : Lifetime) : Does → Prop
  | nothing (h : t.dtor = some .gone ↔ s.dtor = some .gone) : Moment s t .nothing
  | closeStdin (hs : s.dtor = none) (ht : t.dtor = none) : Moment s t .closeStdin
  | closeProcess (hs : s.dtor = some .close) (ht : t.dtor = some .gone) : Moment s t .closeProcess

theorem does_cases (e : TimedEvent) (d : Option Dtor) : (LifeEvent.method e).does d = .nothing ∨
    ((LifeEvent.method e).does d = .closeStdin ∧ e.outside = false) := by
  cases e with
  | waitTimeout | resume => exact .inl rfl
  | other e =>
    cases e with
    | call i c =>
      cases c with
      | beginCommunicate | communicate =>
        by_cases hi : 0 = i
        · exact .inr ⟨if_pos hi, rfl⟩
        · exact .inl (if_neg hi)
      | _ => exact .inl rfl
    | _ => exact .inl rfl

theorem Kind.next_ne (k : Kind) : k.next ≠ .gone := by
  rcases k with _ | _ | _ <;> simp [Kind.next]

/-- The destructor is at its end after `close_process`, and not before. -/
theorem join_gone {s t : State} {d d' : Dtor} (h : s.join d = some (t, d')) :
    (d = .close ∧ d' = .gone) ∨ (LifeEvent.join.does (some d) = .nothing ∧ d ≠ .gone ∧ d' ≠ .gone) := by
  cases d with
  | join k =>
    simp only [State.join] at h
    refine .inr ⟨rfl, by simp, ?_⟩
    split at h <;> cases h
    · exact k.next_ne
    · simp
  | spin k =>
    simp only [State.join] at h
    refine .inr ⟨rfl, by simp, ?_⟩
    split at h
    · cases h
    · split at h <;> cases h
      · exact k.next_ne
      · simp
  | close =>
    cases h
    exact .inl ⟨rfl, rfl⟩
  | gone => cases h

theorem lifeStep_moment {cfg : Config} {s t : Lifetime} {e : LifeEvent} (h : lifeStep cfg s e = some t) :
    Moment s t (e.does s.dtor) := by
  cases e with
  | method e =>
    obtain ⟨hok, h⟩ := Option.ite_none_right_eq_some.mp h
    obtain ⟨u, -, rfl⟩ := Option.map_eq_some_iff.mp h
    rcases does_cases e s.dtor with hd | ⟨hd, hout⟩ <;> rw [hd]
    · exact .nothing Iff.rfl
    · have hnone : s.dtor = none := by simpa [hout, Option.isNone_iff_eq_none] using hok
      exact .closeStdin hnone hnone
  | closeStdin =>
    obtain ⟨hidle, h⟩ := Option.ite_none_right_eq_some.mp h
    cases h
    have hnone := (idle_iff.mp hidle).2.2
    exact .closeStdin hnone hnone
  | get x n =>
    obtain ⟨-, h⟩ := Option.ite_none_right_eq_some.mp h
    cases h
    exact .nothing Iff.rfl
  | readEof =>
    obtain ⟨prog, later, -, -, -, -, rfl⟩ := readEof_some h
    exact .nothing Iff.rfl
  | destroy =>
    obtain ⟨hidle, h⟩ := Option.ite_none_right_eq_some.mp h
    obtain ⟨⟨u, d⟩, hu, rfl⟩ := Option.map_eq_some_iff.mp h
    rcases join_gone hu with ⟨hd, -⟩ | ⟨-, -, hd⟩
    · cases hd
    · exact .nothing (by simp [hd, (idle_iff.mp hidle).2.2])
  | join =>
    obtain ⟨d, hd, h⟩ := Option.bind_eq_some_iff.mp h
    obtain ⟨⟨u, d'⟩, hu, rfl⟩ := Option.map_eq_some_iff.mp h
    rw [hd]
    rcases join_gone hu with ⟨rfl, rfl⟩ | ⟨hdoes, hne, hne'⟩
    · exact .closeProcess hd rfl
    · rw [hdoes]
      exact .nothing (by simp [hd, hne, hne'])

namespace Ends

variable {e : Ends φ}

@[simp] theorem closeFd_info (e : Ends φ) (fd : Fd) : (e.closeFd fd).info = e.info := by
  unfold closeFd
  split <;> rfl

@[simp] theorem closeFd_stdin (e : Ends φ) (fd : Fd) : (e.closeFd fd).stdin = e.stdin := by
  unfold closeFd
  split <;> rfl

theorem closeFd_with (e : Ends φ) (info : ProcessInfo) (fd : Fd) :
    Ends.closeFd { e with info := info } fd = { e.closeFd fd with info := info } := by
  unfold closeFd
  split <;> rfl

theorem closeProcess_eq (e : Ends φ) : e.closeProcess =
    { ((e.closeFd e.info.stdin).closeFd e.info.stdout).closeFd e.info.stderr with
      info := { e.info with stdin := FD_INVALID, stdout := FD_INVALID, stderr := FD_INVALID } } := by
  simp only [closeProcess, closeFd_with]

theorem closeStdin_done (h : e.info.stdinClosed = true) : e.closeStdin = e := if_pos h

theorem closeStdin_eq (h : e.info.stdinClosed = false) : e.closeStdin =
    { e.closeFd e.info.stdin with
      info := { e.info with stdinClosed := true, stdin := FD_INVALID }, stdin := e.stdin.invalidate } := by
  have hopen : ¬ e.info.stdinClosed = true := by simp [h]
  unfold closeStdin
  rw [if_neg hopen]
  by_cases hfd : e.info.stdin = FD_INVALID
  · simp [closeFd, hfd]
  · simp [closeFd, hfd]

theorem follow_info (e : Ends φ) (d : Does) : (e.follow d).info = d.info e.info := by
  cases d with
  | nothing => rfl
  | closeStdin =>
    cases h : e.info.stdinClosed with
    | true => simp [follow, closeStdin_done h, Does.info, Stream.closeStdin, h]
    | false => simp [follow, closeStdin_eq h, Does.info, Stream.closeStdin, h]
  | closeProcess => simp [follow, closeProcess_eq, Does.info]

end Ends

/-- The ways in which the system goes on. -/
inductive OwnerMoves (cfg : Config) (o : Owner φ) : Owner φ → Prop
  | life {e : LifeEvent} {t : Lifetime} (h : lifeStep cfg o.life e = some t) :
      OwnerMoves cfg o ⟨t, o.ends.follow (e.does o.life.dtor)⟩
  | insert {stdin : FdOStream} {a : Act φ} (hidle : o.life.dtor = none) (hbuf : stdin.buf = o.ends.stdin.buf)
      (hfile : a.file = o.ends.file) (hclosed : a.closed = []) (hws : ∀ w ∈ a.writes, o.ends.Answers w)
      (hvalid : o.ends.stdin.buf.valid = false → a.writes = [])
      (hpre : ∀ s f ws n, a = .write s f ws n → handed ws <+: s ∧ n = (handed ws).length) :
      OwnerMoves cfg o { o with ends := { o.ends with stdin := stdin, log := o.ends.log ++ [a] } }
  | clear : OwnerMoves cfg o { o with ends := { o.ends with stdin := o.ends.stdin.clear } }
  | other {table : FdTab φ} (h : ∀ fd f, fd = o.ends.info.stdin ∨ fd = o.ends.info.stdout ∨ fd = o.ends.info.stderr →
      o.ends.table.file fd = some f → table.file fd = some f) :
      OwnerMoves cfg o { o with ends := { o.ends with table := table } }

theorem ownerStep_moves {cfg : Config} {o t : Owner φ} {e : OwnerEvent φ} (h : ownerStep cfg o e = some t) :
    OwnerMoves cfg o t := by
  cases e with
  | life e =>
    obtain ⟨t, ht, rfl⟩ := Option.map_eq_some_iff.mp h
    exact .life ht
  | put c written =>
    obtain ⟨⟨hidle, hws⟩, h⟩ := Option.ite_none_right_eq_some.mp h
    cases h
    refine .insert (idle_iff.mp hidle).2.2 (FdOStream.put_buf _ _ _) rfl rfl hws (FdOStream.put_invalid _ _) ?_
    intro s f ws n heq
    cases heq
  | write s answers =>
    obtain ⟨⟨stdin, n, ws⟩, hw, h⟩ := Option.bind_eq_some_iff.mp h
    obtain ⟨⟨hidle, hws⟩, h⟩ := Option.ite_none_right_eq_some.mp h
    cases h
    refine .insert (idle_iff.mp hidle).2.2 (FdOStream.write_buf hw) rfl rfl hws (FdOStream.write_invalid hw) ?_
    intro s f ws' n' heq
    cases heq
    exact FdOStream.write_prefix hw fun w hw => (hws w hw).1
  | clear =>
    obtain ⟨-, h⟩ := Option.ite_none_right_eq_some.mp h
    cases h
    exact .clear
  | openOther fd d =>
    obtain ⟨hfree, h⟩ := Option.ite_none_right_eq_some.mp h
    cases h
    refine .other ?_
    intro x f _ hx
    have hne : x ≠ fd := by
      rintro rfl
      simp [Table.file, Option.isNone_iff_eq_none.mp hfree] at hx
    by_cases hr : InRange fd
    · rw [file_put _ hr, if_neg hne]
      exact hx
    · simpa [Table.put, hr] using hx
  | closeOther fd =>
    obtain ⟨⟨hin, hout, herr⟩, h⟩ := Option.ite_none_right_eq_some.mp h
    cases h
    refine .other ?_
    intro x f hslot hx
    have hne : x ≠ fd := by
      rintro rfl
      rcases hslot with rfl | rfl | rfl
      · exact hin rfl
      · exact hout rfl
      · exact herr rfl
    rw [file_close, if_neg hne]
    exact hx

theorem ends_agree (cfg : Config) (c : Outcome φ) (info : ProcessInfo) (prog : List Stream.StreamName)
    (later : List (List Stream.StreamName)) (birth : Nat) (es : List (OwnerEvent φ)) (o : Owner φ)
    (h : Runs.exec (ownerStep cfg) (Owner.start c info prog later birth) es = some o) :
    o.ends.info = (o.life.timed.base.handle 0).info := by
  refine Runs.exec_invariant (I := fun o => o.ends.info = (o.life.timed.base.handle 0).info) ?_ rfl h
  intro o t e hagree hstep
  cases ownerStep_moves hstep with
  | life hlife => rw [Ends.follow_info, lifeStep_info hlife, hagree]
  | insert | clear | other => exact hagree

/-! ## One end -/

/-- A slot holds its end, when there is one. -/
def HasEnd (t : FdTab φ) (hasPipe : Bool) (f : OpenFile φ) (fd : Fd) : Prop :=
  if hasPipe then t.file fd = some f else fd = FD_INVALID

theorem file_invalid (t : FdTab φ) : t.file FD_INVALID = none := by
  rw [Table.file, t.get_eq_none (by decide)]
  rfl

namespace HasEnd

variable {t t' : FdTab φ} {p q : Bool} {f g : OpenFile φ} {fd fd' : Fd}

theorem of_parentEnd {t₀ : Table φ} (h : Unix.ParentEnd p f t₀ t fd) : HasEnd t p f fd := by
  unfold HasEnd
  cases p with
  | true => exact h.2
  | false => exact h

theorem mono (h : HasEnd t p f fd) (ht : t.file fd = some f → t'.file fd = some f) : HasEnd t' p f fd := by
  cases p with
  | true => exact ht h
  | false => exact h

/-- Two slots with ends of different pipes are different. -/
theorem ne (h : HasEnd t p f fd) (h' : t.file fd' = some g) (hfg : f ≠ g) : fd' ≠ fd := by
  rintro rfl
  cases p with
  | true => exact hfg (Option.some.inj (h.symm.trans h'))
  | false =>
    have hfd : fd' = FD_INVALID := h
    rw [hfd, file_invalid] at h'
    cases h'

end HasEnd

theorem closes_append (l m : List (Act φ)) : closes (l ++ m) = closes l ++ closes m := List.flatMap_append

namespace Ends

variable {e : Ends φ} {p q : Bool} {f g : OpenFile φ} {fd fd' : Fd}

theorem closeFd_closes (h : HasEnd e.table p f fd) : closes (e.closeFd fd).log = closes e.log ++ endOf p fd f := by
  unfold closeFd
  cases p with
  | true =>
    have hfd : fd ≠ FD_INVALID := by
      rintro rfl
      rw [HasEnd, if_pos rfl, file_invalid] at h
      cases h
    have hf : e.table.file fd = some f := h
    rw [if_neg hfd, closes_append, hf]
    rfl
  | false =>
    rw [if_pos (show fd = FD_INVALID from h), endOf, if_neg (by simp), List.append_nil]

theorem closeFd_keeps (h : HasEnd e.table p f fd) (h' : HasEnd e.table q g fd') (hfg : f ≠ g) :
    HasEnd (e.closeFd fd).table q g fd' := by
  refine h'.mono ?_
  intro hg
  unfold closeFd
  split
  · exact hg
  · rw [file_close, if_neg (h.ne hg hfg)]
    exact hg

end Ends

/-! ## The log -/

/-- What the log says of the insertions, and of what came after a close. -/
structure Told (hasPipe : Bool) (log : List (Act φ)) : Prop where
  handed : ∀ b f ws n, .write b f ws n ∈ log → handed ws <+: b ∧ n = (handed ws).length
  own : ∀ a ∈ log, a.writes ≠ [] → a.file = if hasPipe then some (.pipe .stdin .write) else none
  quiet : log.Pairwise fun a b => a.closed ≠ [] → b.writes = []

namespace Told

variable {p : Bool} {log : List (Act φ)}

theorem nil : Told p ([] : List (Act φ)) := ⟨fun _ _ _ _ h => (by cases h), fun _ h => (by cases h), List.Pairwise.nil⟩

theorem snoc (h : Told p log) {a : Act φ}
    (hpre : ∀ b f ws n, a = .write b f ws n → Stream.handed ws <+: b ∧ n = (Stream.handed ws).length)
    (hown : a.writes ≠ [] → a.file = if p then some (.pipe .stdin .write) else none)
    (hquiet : closes log ≠ [] → a.writes = []) : Told p (log ++ [a]) := by
  refine ⟨?_, ?_, ?_⟩
  · intro b f ws n hm
    rcases List.mem_append.mp hm with hm | hm
    · exact h.handed b f ws n hm
    · exact hpre b f ws n (List.mem_singleton.mp hm).symm
  · intro a' hm
    rcases List.mem_append.mp hm with hm | hm
    · exact h.own a' hm
    · rw [List.mem_singleton.mp hm]
      exact hown
  · refine List.pairwise_append.mpr ⟨h.quiet, List.pairwise_singleton _ _, ?_⟩
    intro a' hm b hb hclosed
    rw [List.mem_singleton.mp hb]
    exact hquiet fun hnil => hclosed (List.flatMap_eq_nil_iff.mp hnil a' hm)

theorem closeFd {e : Ends φ} (h : Told p e.log) (fd : Fd) : Told p (e.closeFd fd).log := by
  unfold Ends.closeFd
  split
  · exact h
  · exact h.snoc (fun _ _ _ _ heq => by cases heq) (fun hne => absurd rfl hne) fun _ => rfl

theorem follow {e : Ends φ} (h : Told p e.log) (d : Does) : Told p (e.follow d).log := by
  cases d with
  | nothing => exact h
  | closeStdin =>
    cases hc : e.info.stdinClosed with
    | true => rwa [Ends.follow, Ends.closeStdin_done hc]
    | false =>
      rw [Ends.follow, Ends.closeStdin_eq hc]
      exact h.closeFd _
  | closeProcess =>
    rw [Ends.follow, Ends.closeProcess_eq]
    exact ((h.closeFd _).closeFd _).closeFd _

end Told

/-! ## The handle -/

/-- The handle has its ends, except for stdin once that is closed. -/
structure Holding (s : ProcessStartup) (info : ProcessInfo) (e : Ends φ) : Prop where
  stdin : HasEnd e.table (Unix.piped s .stdin && !e.info.stdinClosed) (.pipe .stdin .write) e.info.stdin
  stdout : HasEnd e.table (Unix.piped s .stdout) (.pipe .stdout .read) e.info.stdout
  stderr : HasEnd e.table (Unix.piped s .stderr) (.pipe .stderr .read) e.info.stderr
  slots : (e.info.stdinClosed = false → e.info.stdin = info.stdin) ∧ e.info.stdout = info.stdout ∧
    e.info.stderr = info.stderr
  closes : closes e.log = endOf (Unix.piped s .stdin && e.info.stdinClosed) info.stdin (.pipe .stdin .write)

namespace Holding

variable {s : ProcessStartup} {info : ProcessInfo} {e : Ends φ}

theorem closeStdin (h : Holding s info e) : Holding s info e.closeStdin := by
  cases hc : e.info.stdinClosed with
  | true => rwa [Ends.closeStdin_done hc]
  | false =>
    obtain ⟨hslot, hout, herr⟩ := h.slots
    have hin := h.stdin
    have hcloses := h.closes
    simp only [hc, Bool.not_false, Bool.and_true, Bool.and_false] at hin hcloses
    rw [Ends.closeStdin_eq hc]
    refine ⟨?_, ?_, ?_, ⟨?_, hout, herr⟩, ?_⟩
    · simp [HasEnd]
    · exact Ends.closeFd_keeps hin h.stdout (by simp)
    · exact Ends.closeFd_keeps hin h.stderr (by simp)
    · intro hopen
      cases hopen
    · rw [Ends.closeFd_closes hin, hcloses, hslot hc, Bool.and_true]
      rfl

theorem closeProcess (h : Holding s info e) : CovProcess.Handle.closes e.closeProcess.log = ownedEnds s info := by
  obtain ⟨hslot, hout, herr⟩ := h.slots
  have hout₁ := Ends.closeFd_keeps h.stdin h.stdout (by simp)
  have herr₁ := Ends.closeFd_keeps h.stdin h.stderr (by simp)
  have herr₂ := Ends.closeFd_keeps hout₁ herr₁ (by simp)
  have hin : endOf (Unix.piped s .stdin && e.info.stdinClosed) info.stdin (.pipe (φ := φ) .stdin .write) ++
      endOf (Unix.piped s .stdin && !e.info.stdinClosed) e.info.stdin (.pipe .stdin .write) =
        endOf (Unix.piped s .stdin) info.stdin (.pipe .stdin .write) := by
    cases hc : e.info.stdinClosed with
    | true => simp [endOf]
    | false => simp [endOf, hslot hc]
  rw [Ends.closeProcess_eq, Ends.closeFd_closes herr₂, Ends.closeFd_closes hout₁, Ends.closeFd_closes h.stdin,
    h.closes, hin, hout, herr]
  rfl

theorem other (h : Holding s info e) {table : FdTab φ}
    (ht : ∀ fd f, fd = e.info.stdin ∨ fd = e.info.stdout ∨ fd = e.info.stderr → e.table.file fd = some f →
      table.file fd = some f) : Holding s info { e with table := table } :=
  ⟨h.stdin.mono (ht _ _ (.inl rfl)), h.stdout.mono (ht _ _ (.inr (.inl rfl))), h.stderr.mono (ht _ _ (.inr (.inr rfl))),
    h.slots, h.closes⟩

theorem insert (h : Holding s info e) (stdin : FdOStream) {a : Act φ} (ha : a.closed = []) :
    Holding s info { e with stdin := stdin, log := e.log ++ [a] } := by
  refine ⟨h.stdin, h.stdout, h.stderr, h.slots, ?_⟩
  simp only [closes_append, h.closes]
  simp [CovProcess.Handle.closes, ha]

theorem clear (h : Holding s info e) : Holding s info { e with stdin := e.stdin.clear } :=
  ⟨h.stdin, h.stdout, h.stderr, h.slots, h.closes⟩

/-- While its stdin is open the buffer's number is the pipe's, if there is one. -/
theorem file (h : Holding s info e) (hc : e.info.stdinClosed = false) (hfd : e.stdin.buf.fd = info.stdin) :
    e.file = if Unix.piped s .stdin then some (.pipe .stdin .write) else none := by
  have hin := h.stdin
  rw [h.slots.1 hc, hc] at hin
  rw [Ends.file, hfd]
  cases hp : Unix.piped s .stdin with
  | true =>
    rw [hp] at hin
    exact hin
  | false =>
    rw [hp] at hin
    rw [show info.stdin = FD_INVALID from hin]
    exact file_invalid _

end Holding

structure OwnerInv (s : ProcessStartup) (info : ProcessInfo) (o : Owner φ) : Prop where
  fd : o.ends.stdin.buf.fd = info.stdin
  valid : o.ends.stdin.buf.valid = !o.ends.info.stdinClosed
  told : Told (Unix.piped s .stdin) o.ends.log
  holding : o.life.dtor ≠ some .gone → Holding s info o.ends
  gone : o.life.dtor = some .gone → closes o.ends.log = ownedEnds s info

/-- `close_stdin` invalidates the buffer, and nothing changes its number. -/
theorem follow_buf (e : Ends φ) (d : Does) (hv : e.stdin.buf.valid = !e.info.stdinClosed) :
    (e.follow d).stdin.buf.fd = e.stdin.buf.fd ∧
      (e.follow d).stdin.buf.valid = !(e.follow d).info.stdinClosed := by
  cases d with
  | nothing => exact ⟨rfl, hv⟩
  | closeStdin =>
    cases hc : e.info.stdinClosed with
    | true => rw [Ends.follow, Ends.closeStdin_done hc]; exact ⟨rfl, hv⟩
    | false => rw [Ends.follow, Ends.closeStdin_eq hc]; exact ⟨rfl, rfl⟩
  | closeProcess =>
    rw [Ends.follow, Ends.closeProcess_eq]
    simpa using hv

theorem ownerInv_life {s : ProcessStartup} {info : ProcessInfo} {o : Owner φ} (h : OwnerInv s info o) {t : Lifetime} {d : Does}
    (hm : Moment o.life t d) : OwnerInv s info ⟨t, o.ends.follow d⟩ := by
  obtain ⟨hfd, hvalid⟩ := follow_buf o.ends d h.valid
  refine ⟨hfd.trans h.fd, hvalid, h.told.follow d, ?_, ?_⟩
  · intro hnot
    cases hm with
    | nothing hiff => exact h.holding fun hg => hnot (hiff.mpr hg)
    | closeStdin hnone =>
      refine (h.holding ?_).closeStdin
      simp [hnone]
    | closeProcess _ hgone => exact absurd hgone hnot
  · intro hgone
    cases hm with
    | nothing hiff => exact h.gone (hiff.mp hgone)
    | closeStdin _ hnone =>
      rw [hnone] at hgone
      cases hgone
    | closeProcess hclose =>
      refine (h.holding ?_).closeProcess
      simp [hclose]

theorem ownerInv_step {cfg : Config} {s : ProcessStartup} {info : ProcessInfo} {o t : Owner φ} {e : OwnerEvent φ}
    (h : OwnerInv s info o) (hs : ownerStep cfg o e = some t) : OwnerInv s info t := by
  cases ownerStep_moves hs with
  | life hlife => exact ownerInv_life h (lifeStep_moment hlife)
  | @insert stdin a hidle hbuf hfile hclosed hws hvalid hpre =>
    have hnot : o.life.dtor ≠ some .gone := by simp [hidle]
    have hheld := h.holding hnot
    have hopen : a.writes ≠ [] → o.ends.info.stdinClosed = false := by
      intro hne
      cases hc : o.ends.info.stdinClosed with
      | true => exact absurd (hvalid (by simp [h.valid, hc])) hne
      | false => rfl
    refine ⟨?_, ?_, ?_, fun _ => hheld.insert stdin hclosed, fun hg => absurd hg hnot⟩
    · rw [← h.fd, ← hbuf]
    · rw [← h.valid, ← hbuf]
    · refine h.told.snoc hpre ?_ ?_
      · intro hne
        rw [hfile]
        exact hheld.file (hopen hne) h.fd
      · intro hclosed'
        by_contra hne
        refine hclosed' ?_
        rw [hheld.closes, hopen hne, Bool.and_false]
        rfl
  | clear => exact ⟨h.fd, h.valid, h.told, fun hnot => (h.holding hnot).clear, h.gone⟩
  | other ht => exact ⟨h.fd, h.valid, h.told, fun hnot => (h.holding hnot).other ht, h.gone⟩

theorem parentProc_open {k : Kernel φ} {s : ProcessStartup} {p : Unix.Pipes} {pfail : Unix.Fds} {pid : Nat}
    {t t' : FdTab φ} {info : ProcessInfo} (hrep : k.reply = .eof)
    (h : Unix.parentProc k s p pfail pid t = (.ok info, t')) : info.stdinClosed = false := by
  simp only [Unix.parentProc, hrep, Prod.mk.injEq, Except.ok.injEq] at h
  obtain ⟨rfl, -⟩ := h
  rfl

theorem ownerInv_start {k : Kernel φ} {s : ProcessStartup} {t₀ : Table φ} {info : ProcessInfo}
    (hok : (createProcess k s t₀).result = .ok info) (prog : List Stream.StreamName)
    (later : List (List Stream.StreamName)) (birth : Nat) :
    OwnerInv s info (Owner.start (createProcess k s t₀) info prog later birth) := by
  obtain ⟨p, pfail, t, pid, hf, -, hparent, hrep⟩ := Unix.createProcess_ok hok
  have hends := Unix.parent_streams hf hrep hparent
  have hopen := parentProc_open hrep hparent
  refine ⟨rfl, by simp [Owner.start, hopen], Told.nil, ?_, ?_⟩
  · intro _
    refine ⟨?_, .of_parentEnd hends.stdout, .of_parentEnd hends.stderr, ⟨fun _ => rfl, rfl, rfl⟩, ?_⟩
    · simp only [Owner.start, hopen, Bool.not_false, Bool.and_true]
      exact .of_parentEnd hends.stdin
    · simp [Owner.start, hopen, closes, endOf]
  · intro hg
    cases hg

/-- For any start that succeeds and any order of insertions with any answers, methods,
    steps of threads and child, and opens and closes elsewhere: once `~member_holder` is at
    its end the handle has closed each of its ends and nothing else. A block insertion
    handed over a prefix of its block as long as it reported; every `write` reached the
    handle's own stdin, or failed where it has none; none came after a close. -/
theorem pipe_ends_once (cfg : Config) (k : Kernel φ) (s : ProcessStartup) (t₀ : Table φ) (info : ProcessInfo)
    (hok : (createProcess k s t₀).result = .ok info) (prog : List Stream.StreamName)
    (later : List (List Stream.StreamName)) (birth : Nat) (es : List (OwnerEvent φ)) (o : Owner φ)
    (h : Runs.exec (ownerStep cfg) (Owner.start (createProcess k s t₀) info prog later birth) es = some o)
    (hgone : o.life.dtor = some .gone) :
    closes o.ends.log = ownedEnds s info ∧
      (∀ b f ws n, .write b f ws n ∈ o.ends.log → handed ws <+: b ∧ n = (handed ws).length) ∧
      (∀ a ∈ o.ends.log, a.writes ≠ [] → a.file = if Unix.piped s .stdin then some (.pipe .stdin .write) else none) ∧
      o.ends.log.Pairwise fun a b => a.closed ≠ [] → b.writes = [] := by
  have hinv : OwnerInv s info o :=
    Runs.exec_invariant (fun _ _ _ => ownerInv_step) (ownerInv_start hok prog later birth) h
  exact ⟨hinv.gone hgone, hinv.told.handed, hinv.told.own, hinv.told.quiet⟩

def pipeKernel : Kernel Nat :=
  { Unix.plainKernel with
    stdoutPipe := .at 8 9 (by decide) (by decide) (by decide)
    stderrPipe := .at 10 11 (by decide) (by decide) (by decide) }

/-- A block in two calls, the stdin closed and its number taken by another file, a block
    and a character more, the readers, and the destructor. -/
def reusedRun : List (OwnerEvent Nat) :=
  [.write [1, 2, 3] [2, 1], .life .closeStdin, .openOther 4 ⟨.old 20, false⟩, .write [4, 5] [2], .clear, .put 6 1,
    .life (.method (.other (.call 0 (.beginCommunicate fun _ => true)))), .life .destroy] ++ List.replicate 9 (.life .join)

theorem pipe_ends_once_reused :
    ∃ o, Runs.exec (ownerStep (ownPool 1 Nat.one_pos))
        (Owner.start (createProcess pipeKernel {} (Unix.callerTable false)) { pid := 100, stdin := 4, stdout := 8, stderr := 10 }
          [] [] 0) reusedRun = some o ∧ o.life.dtor = some .gone ∧
      closes o.ends.log = [(4, some (.pipe .stdin .write)), (8, some (.pipe .stdout .read)), (10, some (.pipe .stderr .read))] ∧
      o.ends.table.file 4 = some (.old 20) := by
  have hrun := pipe_ends_once (ownPool 1 Nat.one_pos) pipeKernel {} (Unix.callerTable false)
    { pid := 100, stdin := 4, stdout := 8, stderr := 10 } rfl [] [] 0 reusedRun _ rfl rfl
  exact ⟨_, rfl, rfl, hrun.1, rfl⟩

end CovProcess.Handle
