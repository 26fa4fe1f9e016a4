/-
  CovProcess.Stream.Communicate — what `communicate` returns of the two captured pipes
  (`begin_communicate` and `end_communicate` of `include/mozart++/mpp_system/process.hpp`,
  on Unix), after any reads through `out()` and `err()`.

  Each stream is `CovProcess.Stream.FdInBuf` on the outcomes its pipe will give. Submitting
  a reader succeeds: `uv_queue_work` refuses only a null callback. `collect_wait`'s result
  is a parameter here.

  Proved: `communicate_complete_iff`, the bytes read before followed by what `communicate`
  returns are all bytes of the pipe exactly when no data follows an interruption among
  the reads left to the reader: `underflow` takes `EINTR` for the end of the file, and
  one is enough to end the copy (`communicate_truncates`).
-/

import CovProcess.Startup
import CovProcess.Stream.FdInBuf

namespace CovProcess.Stream

inductive StreamName where
  | stdout
  | stderr
  deriving DecidableEq

def fdOf (info : ProcessInfo) : StreamName → Fd
  | .stdout => info.stdout
  | .stderr => info.stderr

/-- A reader's `async_work`: `output` once the worker ran it. -/
inductive ReadWork where
  | queued
  | done (output : List UInt8)

/-- The part of `member_holder` that `communicate` uses. -/
structure Member where
  info : ProcessInfo
  stream : StreamName → FdIStream
  work : StreamName → Option ReadWork := fun _ => none

structure CommunicateResult where
  text : StreamName → List UInt8
  exitCode : Int

def closeStdin (info : ProcessInfo) : ProcessInfo :=
  if info.stdinClosed then info else { info with stdinClosed := true, stdin := FD_INVALID }

def beginCommunicate (m : Member) : Member :=
  { m with
    info := closeStdin m.info
    work := fun x =>
      if fdOf (closeStdin m.info) x ≠ FD_INVALID && (m.work x).isNone then some .queued else m.work x }

/-- `read_work_cb`, for a reader that was submitted. -/
def readWorkCb (s : FdIStream) : Option ReadWork → FdIStream × Option ReadWork
  | some .queued => ((copyAll s).2, some (.done (copyAll s).1))
  | w => (s, w)

/-- The pool runs both readers, on streams of their own. -/
def runReaders (m : Member) : Member :=
  { m with
    stream := fun x => (readWorkCb (m.stream x) (m.work x)).1
    work := fun x => (readWorkCb (m.stream x) (m.work x)).2 }

def outputOf : Option ReadWork → List UInt8
  | some (.done output) => output
  | _ => []

def endCommunicate (m : Member) (collectWait : Int) : CommunicateResult × Member :=
  (⟨fun x => outputOf (m.work x), collectWait⟩, { m with work := fun _ => none })

def communicate (m : Member) (collectWait : Int) : CommunicateResult × Member :=
  endCommunicate (runReaders (beginCommunicate m)) collectWait

/-! ## Reads before it -/

inductive UserRead where
  | get (x : StreamName)
  | peek (x : StreamName)

/-- One read through `out()` or `err()`, with the bytes consumed so far. -/
def userStep (p : Member × (StreamName → List UInt8)) : UserRead → Member × (StreamName → List UInt8)
  | .get x =>
    let r := get (p.1.stream x)
    ({ p.1 with stream := Function.update p.1.stream x r.2 }, Function.update p.2 x (p.2 x ++ r.1.toList))
  | .peek x => ({ p.1 with stream := Function.update p.1.stream x (peek (p.1.stream x)).2 }, p.2)

def userRun (m : Member) (ops : List UserRead) : Member × (StreamName → List UInt8) :=
  ops.foldl userStep (m, fun _ => [])

/-- A process just started, whose pipes will give `outcomes`. -/
def started (info : ProcessInfo) (outcomes : StreamName → List ReadOutcome) : Member :=
  { info := info, stream := fun x => { pending := outcomes x } }

/-- A read keeps, on every stream, the bytes consumed followed by those to come. -/
theorem userStep_conserves (p : Member × (StreamName → List UInt8)) (op : UserRead) (x : StreamName) :
    (userStep p op).2 x ++ ((userStep p op).1.stream x).rest = p.2 x ++ (p.1.stream x).rest := by
  cases op with
  | get y =>
    by_cases h : x = y
    · subst h
      simp only [userStep, Function.update_self, List.append_assoc, get_conserves]
    · simp only [userStep, Function.update_of_ne h]
  | peek y =>
    by_cases h : x = y
    · subst h
      simp only [userStep, Function.update_self, peek_conserves]
    · simp only [userStep, Function.update_of_ne h]

theorem userStep_info (p : Member × (StreamName → List UInt8)) (op : UserRead) :
    (userStep p op).1.info = p.1.info ∧ (userStep p op).1.work = p.1.work := by
  cases op <;> exact ⟨rfl, rfl⟩

theorem userRun_conserves (info : ProcessInfo) (outcomes : StreamName → List ReadOutcome) (ops : List UserRead)
    (x : StreamName) :
    (userRun (started info outcomes) ops).2 x ++ ((userRun (started info outcomes) ops).1.stream x).rest =
      allBytes (outcomes x) := by
  have hrun : ∀ (ops : List UserRead) (p : Member × (StreamName → List UInt8)),
      (ops.foldl userStep p).2 x ++ ((ops.foldl userStep p).1.stream x).rest = p.2 x ++ (p.1.stream x).rest := by
    intro ops
    induction ops with
    | nil => exact fun p => rfl
    | cons op ops ih => exact fun p => (ih (userStep p op)).trans (userStep_conserves p op x)
  exact hrun ops _

theorem userRun_info (m : Member) (ops : List UserRead) :
    (userRun m ops).1.info = m.info ∧ (userRun m ops).1.work = m.work := by
  have hrun : ∀ (ops : List UserRead) (p : Member × (StreamName → List UInt8)),
      (ops.foldl userStep p).1.info = p.1.info ∧ (ops.foldl userStep p).1.work = p.1.work := by
    intro ops
    induction ops with
    | nil => exact fun p => ⟨rfl, rfl⟩
    | cons op ops ih =>
      intro p
      rw [List.foldl_cons, (ih _).1, (ih _).2]
      exact userStep_info p op
  exact hrun ops _

/-! ## What is returned -/

theorem fdOf_closeStdin (info : ProcessInfo) (x : StreamName) : fdOf (closeStdin info) x = fdOf info x := by
  unfold closeStdin
  split
  · rfl
  · cases x <;> rfl

/-- A captured stream with no reader yet gives its reader's copy. -/
theorem communicate_text {m : Member} {x : StreamName} (code : Int) (hx : fdOf m.info x ≠ FD_INVALID)
    (hw : m.work x = none) :
    (communicate m code).1.text x = (m.stream x).buf.unread ++ untilInterrupt (m.stream x).pending := by
  have hq : (beginCommunicate m).work x = some .queued := by
    simp [beginCommunicate, fdOf_closeStdin, hx, hw]
  have hs : (beginCommunicate m).stream x = m.stream x := rfl
  simp only [communicate, endCommunicate, runReaders, hq, hs, readWorkCb, outputOf, copyAll_eq]

/-- Nothing is truncated exactly when, of the reads that are left when `communicate`
    starts, none that gives data comes after an interrupted one. -/
theorem communicate_complete_iff (info : ProcessInfo) (outcomes : StreamName → List ReadOutcome)
    (ops : List UserRead) (code : Int) (x : StreamName) (hx : fdOf info x ≠ FD_INVALID) :
    (userRun (started info outcomes) ops).2 x ++
        (communicate (userRun (started info outcomes) ops).1 code).1.text x = allBytes (outcomes x) ↔
      DataFirst ((userRun (started info outcomes) ops).1.stream x).pending := by
  obtain ⟨hinfo, hwork⟩ := userRun_info (started info outcomes) ops
  have htext := communicate_text (m := (userRun (started info outcomes) ops).1) (x := x) code
    (by rw [hinfo]; exact hx) (by rw [hwork]; rfl)
  rw [htext, ← userRun_conserves info outcomes ops x, FdIStream.rest, List.append_cancel_left_eq,
    List.append_cancel_left_eq, untilInterrupt_eq_iff]

def oneByte (b : UInt8) : Chunk := ⟨[b], Nat.one_pos, by simp [BUFFER_SIZE]⟩

/-- A byte read through `out()`, an interruption on the way, and the rest complete. -/
theorem communicate_complete_after_get :
    (userRun (started { stdout := 3 } fun _ => [.eintr, .chunk (oneByte 1), .chunk (oneByte 2)])
        [.get .stdout, .get .stdout]).2 .stdout ++
        (communicate (userRun (started { stdout := 3 } fun _ => [.eintr, .chunk (oneByte 1), .chunk (oneByte 2)])
          [.get .stdout, .get .stdout]).1 0).1.text .stdout = [1, 2] :=
  (communicate_complete_iff { stdout := 3 } _ [.get .stdout, .get .stdout] 0 .stdout (by decide)).mpr
    (List.pairwise_singleton _ _)

/-- An interruption between two chunks: the second is not returned. -/
theorem communicate_truncates :
    ¬ ∀ (info : ProcessInfo) (outcomes : StreamName → List ReadOutcome) (ops : List UserRead) (code : Int)
      (x : StreamName), fdOf info x ≠ FD_INVALID →
      (userRun (started info outcomes) ops).2 x ++
        (communicate (userRun (started info outcomes) ops).1 code).1.text x = allBytes (outcomes x) := by
  intro hall
  have h := hall { stdout := 3 } (fun _ => [.chunk (oneByte 1), .eintr, .chunk (oneByte 2)]) [] 0 .stdout (by decide)
  rw [communicate_text 0 (by decide) rfl] at h
  exact absurd h (by decide)

end CovProcess.Stream
