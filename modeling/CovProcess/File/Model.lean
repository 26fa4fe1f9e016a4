/-
  CovProcess.File.Model — `file_t` (`file.hpp`) and its asynchronous `read`, `write` and
  `flush` (`src/process.cpp`) on Unix: fibers on one loop thread, libuv's requests and the
  kernel's files.

  A fiber that waits for a request drives the loop and yields in turn; only there another
  fiber gets the thread (`current` is a fiber that has not yielded since its call). A
  request is queued, taken by a thread of the pool, and executed there at one point, on
  the file its descriptor number then refers to. What the kernel and the clock answer is
  in the events. `file` in an object and in a request, `acks` and `acted` record what the
  code does not: the file that was opened, the calls that moved data, and what requests
  acted on.

  Left out: the streams of `in()` and `out()`, and the buffer copies of `write`.
-/

import CovProcess.Lib.Content
import CovProcess.Lib.FdTable
import CovProcess.Lib.Runs

namespace CovProcess.File

open FdTable Content

abbrev FileId := Nat

/-! ## Objects -/

/-- What a mode string asks of an open file. -/
structure Mode where
  readable : Bool
  writable : Bool
  append : Bool
  createTrunc : Bool
  deriving DecidableEq, Repr

def parseMode (mode : String) : Option Mode :=
  let readOnly := mode = "r"
  let writeOnly := mode = "w" || mode = "a"
  let readWrite := mode = "r+" || mode = "w+" || mode = "a+"
  if !readOnly && !writeOnly && !readWrite then none
  else some {
    readable := readOnly || readWrite
    writable := writeOnly || readWrite
    append := mode = "a" || mode = "a+"
    createTrunc := mode = "w" || mode = "w+" }

structure FileObj where
  readable : Bool
  writable : Bool
  append : Bool
  closed : Bool := false
  readPos : Nat := 0
  writePos : Nat := 0
  fd : Int
  file : FileId

namespace FileObj

def isReadable (f : FileObj) : Bool := f.readable && !f.closed

def isWritable (f : FileObj) : Bool := f.writable && !f.closed

def openFile (file : FileId) (mode : Mode) (fd : Int) : FileObj where
  readable := mode.readable
  writable := mode.writable
  append := mode.append
  fd := fd
  file := file

/-- `close_file`, on the object and the descriptor table. -/
def closeFile {φ : Type} (f : FileObj) (t : Table φ) : FileObj × Table φ :=
  if f.closed then (f, t)
  else if 0 ≤ f.fd then ({ f with closed := true, fd := -1 }, t.close f.fd)
  else ({ f with closed := true }, t)

theorem closeFile_spec {φ : Type} (f : FileObj) (t : Table φ) :
    (f.closeFile t).1.closed = true ∧ (f.closeFile t).1.file = f.file ∧
      ∀ x, (f.closeFile t).2.get x = if f.closed = false ∧ x = f.fd then none else t.get x := by
  unfold closeFile
  split
  · rename_i hc
    exact ⟨hc, rfl, fun x => by rw [if_neg (by simp [hc])]⟩
  · rename_i hc
    rw [Bool.not_eq_true] at hc
    split
    · exact ⟨rfl, rfl, fun x => by simp [hc]⟩
    · rename_i hfd
      refine ⟨rfl, rfl, ?_⟩
      intro x
      split
      · rename_i hx
        rw [hx.2]
        exact t.get_eq_none fun hr => hfd hr.1
      · rfl

/-- What the object's requests go to. -/
def binding (f : FileObj) : Bool × Int × FileId := (f.closed, f.fd, f.file)

end FileObj

/-- The number of each open object is at the file the object opened, and is no other open
    object's; `fileAt` is the file a number is open at. -/
structure Owned (objs : Nat → Option FileObj) (fileAt : Int → Option FileId) : Prop where
  refers : ∀ i f, objs i = some f → f.closed = false → fileAt f.fd = some f.file
  distinct : ∀ i j f g, objs i = some f → objs j = some g → f.closed = false → g.closed = false → f.fd = g.fd → i = j

namespace Owned

variable {objs : Nat → Option FileObj} {fileAt fileAt' : Int → Option FileId}

theorem start (fileAt : Int → Option FileId) : Owned (fun _ => none) fileAt where
  refers i f hf := by cases hf
  distinct i j f g hf := by cases hf

/-- Files at further numbers do not matter. -/
theorem mono (h : Owned objs fileAt) (hat : ∀ x file, fileAt x = some file → fileAt' x = some file) :
    Owned objs fileAt' :=
  ⟨fun i f hf hc => hat _ _ (h.refers i f hf hc), h.distinct⟩

/-- A file opened at a number where none was. -/
theorem openFile (h : Owned objs fileAt) {n : Nat} {file : FileId} {m : Mode} {fd : Int} (hfree : fileAt fd = none)
    (hat : ∀ x, fileAt' x = if x = fd then some file else fileAt x) :
    Owned (Function.update objs n (some (.openFile file m fd))) fileAt' := by
  have hold : ∀ i f, objs i = some f → f.closed = false → f.fd ≠ fd := by
    intro i f hf hc heq
    have hat := h.refers i f hf hc
    rw [heq, hfree] at hat
    cases hat
  refine ⟨?_, ?_⟩
  · intro i f hf hc
    rw [hat]
    rw [Function.update_apply] at hf
    split at hf
    · cases hf
      exact if_pos rfl
    · rw [if_neg (hold i f hf hc)]
      exact h.refers i f hf hc
  · intro i j f g hf hg hcf hcg heq
    rw [Function.update_apply] at hf hg
    split at hf
    · rename_i hi
      cases hf
      split at hg
      · rename_i hj
        exact hi.trans hj.symm
      · exact absurd heq.symm (hold j g hg hcg)
    · split at hg
      · cases hg
        exact absurd heq (hold i f hf hcf)
      · exact h.distinct i j f g hf hg hcf hcg heq

theorem closeFile (h : Owned objs fileAt) {i : Nat} {f f' : FileObj} (hf : objs i = some f) (hclosed : f'.closed = true)
    (hat : ∀ x, fileAt' x = if f.closed = false ∧ x = f.fd then none else fileAt x) :
    Owned (Function.update objs i (some f')) fileAt' := by
  -- what is open afterwards was there before, and is not the object
  have hold : ∀ j g, Function.update objs i (some f') j = some g → g.closed = false → j ≠ i ∧ objs j = some g := by
    intro j g hg hc
    rw [Function.update_apply] at hg
    split at hg
    · cases hg
      rw [hclosed] at hc
      cases hc
    · exact ⟨‹_›, hg⟩
  refine ⟨?_, ?_⟩
  · intro j g hg hc
    obtain ⟨hj, hg⟩ := hold j g hg hc
    rw [hat, if_neg]
    · exact h.refers j g hg hc
    · intro hfd
      exact hj (h.distinct j i g f hg hf hc hfd.1 hfd.2)
  · intro j k g g' hg hg' hc hc' heq
    exact h.distinct j k g g' (hold j g hg hc).2 (hold k g' hg' hc').2 hc hc' heq

end Owned

structure OpenDesc where
  file : FileId
  mode : Mode
  deriving DecidableEq, Repr

/-! ## Requests -/

inductive ReqKind where
  | read (size : Nat)
  | write (data : List UInt8)
  | fsync
  deriving DecidableEq, Repr

/-- A request from its submission to its callback: an `executed` one has its `ssize_t`
    result and the bytes it read, a `done` one what `uv_fs_complete` stored. -/
inductive ReqPhase where
  | queued
  | taken
  | executed (result : Int) (bytes : List UInt8)
  | done (result : Int) (bytes : List UInt8)

/-- `offset` is `none` for -1, the description's own position. -/
structure Request where
  obj : Nat
  kind : ReqKind
  fd : Int
  offset : Option Nat
  phase : ReqPhase := .queued
  file : FileId

/-- A descriptor of the mode is open for the request. -/
def Mode.allows (m : Mode) : ReqKind → Bool
  | .read _ => m.readable
  | .write _ => m.writable
  | .fsync => true

def UV_ECANCELED : Int := -125

/-- `static_cast<int>`. -/
def toInt (n : Int) : Int := Int.bmod n 4294967296

/-- `uv_fs_complete`. -/
def ReqPhase.complete : ReqPhase → ReqPhase
  | .executed result bytes => .done (toInt result) bytes
  | p => p

/-- A fiber in `uv_wait_fs_with_deadline`. -/
structure Wait where
  req : Nat
  hasDeadline : Bool
  deadlineReached : Bool := false

/-- A call that moved data: `write` gives the bytes of its own that were written. -/
structure Ack where
  obj : Nat
  offset : Option Nat
  reads : Bool
  bytes : List UInt8
  deriving DecidableEq, Repr

/-- A request that acted on a file, and the file its object had open at the call. -/
structure Acted where
  own : FileId
  on : FileId
  deriving DecidableEq, Repr

inductive Returned where
  | null
  | data (bytes : List UInt8)
  | int (n : Int)
  | bool (b : Bool)
  deriving DecidableEq, Repr

structure State where
  fds : Table OpenDesc := empty
  content : FileId → List UInt8 := fun _ => []
  objs : Nat → Option FileObj := fun _ => none
  nobjs : Nat := 0
  reqs : Nat → Option Request := fun _ => none
  nreqs : Nat := 0
  fibers : Nat → Option Wait := fun _ => none
  current : Option Nat := none
  /-- Newest first. -/
  log : List (Nat × Returned) := []
  acks : List Ack := []
  acted : List Acted := []

/-- What the end of a call, `State.finish`, makes of its object, and what the call returns. -/
def FileObj.finish (f : FileObj) (kind : ReqKind) (onTime : Bool) (result : Int) (bytes : List UInt8) :
    FileObj × Returned :=
  match kind with
  | .read _ =>
    if 0 < result then
      if onTime then ({ f with readPos := f.readPos + result.toNat }, .data (bytes.take result.toNat)) else (f, .null)
    else if result = 0 then (f, .data [])
    else (f, .null)
  | .write _ =>
    if onTime then
      (if 0 < result ∧ f.append = false then { f with writePos := f.writePos + result.toNat } else f, .int result)
    else (f, .int (-1))
  | .fsync => (f, .bool (0 ≤ result && onTime))

namespace State

def setObj (s : State) (i : Nat) (f : FileObj) : State := { s with objs := Function.update s.objs i (some f) }

def setReq (s : State) (r : Nat) (q : Request) : State := { s with reqs := Function.update s.reqs r (some q) }

def ret (s : State) (fiber : Nat) (v : Returned) : State := { s with log := (fiber, v) :: s.log }

theorem setObj_objs (s : State) (i : Nat) (f : FileObj) (x : Nat) :
    (s.setObj i f).objs x = if x = i then some f else s.objs x := Function.update_apply ..

theorem setReq_reqs (s : State) (r : Nat) (q : Request) (x : Nat) :
    (s.setReq r q).reqs x = if x = r then some q else s.reqs x := Function.update_apply ..

/-! ## Opening and closing -/

/-- `open_file`, when the `open` it makes gives `fd` for the file. -/
def openFile (s : State) (file : FileId) (mode : Mode) (fd : Int) : State :=
  { s with
    fds := s.fds.put fd ⟨⟨file, mode⟩, true⟩
    content := if mode.createTrunc then Function.update s.content file [] else s.content
    objs := Function.update s.objs s.nobjs (some (.openFile file mode fd))
    nobjs := s.nobjs + 1 }

def closeFile (s : State) (i : Nat) (f : FileObj) : State :=
  { s.setObj i (f.closeFile s.fds).1 with fds := (f.closeFile s.fds).2 }

/-! ## The loop -/

/-- `uv_run(UV_RUN_NOWAIT)`: every executed request has its callback. -/
def uvRun (s : State) : State :=
  { s with reqs := fun r => (s.reqs r).map fun q => { q with phase := q.phase.complete } }

/-- `uv_cancel`, with the callback of a request that it takes off the queue. -/
def uvCancel (s : State) (r : Nat) (q : Request) : Option State :=
  match q.phase with
  | .queued => some (s.setReq r { q with phase := .done UV_ECANCELED [] })
  | _ => none

/-- The end of `read`, `write` and `flush`, with the result of the finished request. -/
def finish (s : State) (fiber : Nat) (q : Request) (onTime : Bool) (result : Int) (bytes : List UInt8) : State :=
  let s := { s with fibers := Function.update s.fibers fiber none, current := none }
  match q.kind, s.objs q.obj with
  | .read _, some f =>
    if 0 < result then
      if !onTime then s.ret fiber .null
      else
        { (s.setObj q.obj { f with readPos := f.readPos + result.toNat }).ret fiber (.data (bytes.take result.toNat)) with
          acks := ⟨q.obj, q.offset, true, bytes.take result.toNat⟩ :: s.acks }
    else if result = 0 then s.ret fiber (.data [])
    else s.ret fiber .null
  | .write data, some f =>
    if 0 < result then
      if !onTime then s.ret fiber (.int (-1))
      else
        { (if f.append then s else s.setObj q.obj { f with writePos := f.writePos + result.toNat }).ret fiber
            (.int result) with
          acks := ⟨q.obj, q.offset, false, data.take result.toNat⟩ :: s.acks }
    else if !onTime then s.ret fiber (.int (-1))
    else s.ret fiber (.int result)
  | .fsync, _ => s.ret fiber (.bool (0 ≤ result && onTime))
  | _, none => s

/-- A round of the loop in `uv_wait_fs_with_deadline`; `late` is whether the clock has
    passed the deadline when it is read. -/
def turn (s : State) (fiber : Nat) (w : Wait) (late : Bool) : Option State :=
  let s := s.uvRun
  (s.reqs w.req).map fun q =>
    match q.phase with
    | .done result bytes => s.finish fiber q (!w.deadlineReached) result bytes
    | _ =>
      if w.hasDeadline && !w.deadlineReached && late then
        match s.uvCancel w.req q with
        | some s => s.finish fiber q false UV_ECANCELED []
        | none =>
          { s with fibers := Function.update s.fibers fiber (some { w with deadlineReached := true }), current := none }
      else { s with current := none }

/-! ## The calls -/

/-- A submitted request, and its fiber in the wait. -/
def submit (s : State) (fiber : Nat) (i : Nat) (f : FileObj) (kind : ReqKind) (offset : Option Nat)
    (deadlineMs : Int) : State :=
  { s with
    reqs := Function.update s.reqs s.nreqs (some { obj := i, kind := kind, fd := f.fd, offset := offset, file := f.file })
    nreqs := s.nreqs + 1
    fibers := Function.update s.fibers fiber (some { req := s.nreqs, hasDeadline := 0 ≤ deadlineMs })
    current := some fiber }

theorem submit_reqs (s : State) (fiber i : Nat) (f : FileObj) (kind : ReqKind) (offset : Option Nat) (deadlineMs : Int)
    (x : Nat) : (s.submit fiber i f kind offset deadlineMs).reqs x =
      if x = s.nreqs then some { obj := i, kind := kind, fd := f.fd, offset := offset, file := f.file }
      else s.reqs x := Function.update_apply ..

theorem submit_fibers (s : State) (fiber i : Nat) (f : FileObj) (kind : ReqKind) (offset : Option Nat) (deadlineMs : Int)
    (x : Nat) : (s.submit fiber i f kind offset deadlineMs).fibers x =
      if x = fiber then some { req := s.nreqs, hasDeadline := 0 ≤ deadlineMs } else s.fibers x := Function.update_apply ..

/-- `submitted` is whether `uv_fs_read` took the request. -/
def read (s : State) (fiber i : Nat) (f : FileObj) (size deadlineMs : Int) (submitted : Bool) : State :=
  if !f.isReadable then s.ret fiber .null
  else if size ≤ 0 then s.ret fiber (.data [])
  else if f.fd < 0 || !submitted then s.ret fiber .null
  else s.submit fiber i f (.read size.toNat) (some f.readPos) deadlineMs

def write (s : State) (fiber i : Nat) (f : FileObj) (data : List UInt8) (deadlineMs : Int) (submitted : Bool) : State :=
  if !f.isWritable || 4294967295 < data.length || f.fd < 0 || !submitted then s.ret fiber (.int (-1))
  else s.submit fiber i f (.write data) (if f.append then none else some f.writePos) deadlineMs

def flush (s : State) (fiber i : Nat) (f : FileObj) (deadlineMs : Int) (submitted : Bool) : State :=
  if !f.isWritable || f.fd < 0 || !submitted then s.ret fiber (.bool false)
  else s.submit fiber i f .fsync none deadlineMs

/-! ## A thread of the pool -/

/-- What the kernel does with a request: it fails with the error number `err + 1`, or moves `n`
    bytes. `own` is the position of the description, for a request without one. -/
inductive KernelResult where
  | fails (err : Fin 4095)
  | moves (n own : Nat)

/-- The system call of a taken request. -/
def execute (s : State) (r : Nat) (q : Request) (k : KernelResult) : Option State :=
  match k, s.fds.file q.fd with
  | .fails err, _ => some (s.setReq r { q with phase := .executed (-(err.val + 1)) [] })
  | .moves n own, some d =>
    let acted (s : State) : State := { s with acted := ⟨q.file, d.file⟩ :: s.acted }
    match q.kind with
    | .read size =>
      let rest := (s.content d.file).drop (q.offset.getD own)
      if d.mode.readable ∧ n ≤ size ∧ n ≤ rest.length ∧ (n = 0 → rest = []) then
        some (acted (s.setReq r { q with phase := .executed n (rest.take n) }))
      else none
    | .write data =>
      let pos := if d.mode.append then (s.content d.file).length else q.offset.getD own
      if d.mode.writable ∧ n ≤ data.length then
        some (acted { s.setReq r { q with phase := .executed n [] } with
          content := Function.update s.content d.file (pwrite 0 (s.content d.file) pos (data.take n)) })
      else none
    | .fsync => if n = 0 then some (acted (s.setReq r { q with phase := .executed 0 [] })) else none
  | .moves .., none => none

/-- An execution gives the request its result, and acts on no file but the one its number
    refers to, open for it. -/
theorem execute_cases {s s' : State} {r : Nat} {q : Request} {k : KernelResult} (h : s.execute r q k = some s') :
    ∃ result bytes content acted, s' = { s.setReq r { q with phase := .executed result bytes } with
        content := content, acted := acted } ∧
      (acted = s.acted ∨
        ∃ d, s.fds.file q.fd = some d ∧ d.mode.allows q.kind = true ∧ acted = ⟨q.file, d.file⟩ :: s.acted) := by
  unfold execute at h
  split at h
  · cases h
    exact ⟨_, _, s.content, s.acted, rfl, .inl rfl⟩
  · rename_i d hd
    split at h
    · rename_i size hk
      obtain ⟨hg, h⟩ := Option.ite_none_right_eq_some.mp h
      cases h
      exact ⟨_, _, s.content, _, rfl, .inr ⟨d, hd, by rw [hk]; exact hg.1, rfl⟩⟩
    · rename_i data hk
      obtain ⟨hg, h⟩ := Option.ite_none_right_eq_some.mp h
      cases h
      exact ⟨_, _, _, _, rfl, .inr ⟨d, hd, by rw [hk]; exact hg.1, rfl⟩⟩
    · rename_i hk
      obtain ⟨-, h⟩ := Option.ite_none_right_eq_some.mp h
      cases h
      exact ⟨_, _, s.content, _, rfl, .inr ⟨d, hd, by rw [hk]; rfl, rfl⟩⟩
  · cases h

/-- The end of a call on an object that is there. -/
theorem finish_spec (s : State) (fiber : Nat) {q : Request} {f : FileObj} (hf : s.objs q.obj = some f) (onTime : Bool)
    (result : Int) (bytes : List UInt8) :
    ∃ acks, s.finish fiber q onTime result bytes = { s with
      fibers := Function.update s.fibers fiber none
      current := none
      objs := Function.update s.objs q.obj (some (f.finish q.kind onTime result bytes).1)
      log := (fiber, (f.finish q.kind onTime result bytes).2) :: s.log
      acks := acks } := by
  have hsame : Function.update s.objs q.obj (some f) = s.objs := by
    rw [← hf]
    exact Function.update_eq_self ..
  unfold State.finish FileObj.finish
  cases q.kind with
  | read size =>
    simp only [hf]
    split
    · cases onTime with
      | false => exact ⟨s.acks, by simp [hsame, State.ret]⟩
      | true => exact ⟨_, rfl⟩
    · split
      · exact ⟨s.acks, by simp [hsame, State.ret]⟩
      · exact ⟨s.acks, by simp [hsame, State.ret]⟩
  | write data =>
    simp only [hf]
    cases onTime with
    | false => exact ⟨s.acks, by simp [hsame, State.ret]⟩
    | true =>
      by_cases hr : 0 < result
      · cases ha : f.append with
        | false => exact ⟨_, by simp [hr, State.ret, State.setObj]; rfl⟩
        | true => exact ⟨_, by simp [hr, hsame, State.ret]; rfl⟩
      · exact ⟨s.acks, by simp [hr, hsame, State.ret]⟩
  | fsync => exact ⟨s.acks, by simp [hsame, State.ret]⟩

theorem finish_binding (f : FileObj) (kind : ReqKind) (onTime : Bool) (result : Int) (bytes : List UInt8) :
    (f.finish kind onTime result bytes).1.binding = f.binding := by
  unfold FileObj.finish
  split <;> repeat' split
  all_goals rfl

/-- The end of a call takes its fiber out of the wait; of an object it can only move a
    position. -/
theorem finish_cases (s : State) (fiber : Nat) (q : Request) (onTime : Bool) (result : Int) (bytes : List UInt8) :
    ∃ objs log acks, s.finish fiber q onTime result bytes = { s with
        fibers := Function.update s.fibers fiber none, current := none, objs := objs, log := log, acks := acks } ∧
      ∀ j, (objs j).map FileObj.binding = (s.objs j).map FileObj.binding := by
  cases hf : s.objs q.obj with
  | some f =>
    obtain ⟨acks, heq⟩ := s.finish_spec fiber hf onTime result bytes
    refine ⟨_, _, acks, heq, ?_⟩
    intro j
    rw [Function.update_apply]
    split
    · rename_i hj
      rw [hj, hf, Option.map_some, Option.map_some, finish_binding]
    · rfl
  | none =>
    unfold finish
    cases q.kind with
    | fsync => exact ⟨s.objs, _, s.acks, rfl, fun _ => rfl⟩
    | read size =>
      simp only [hf]
      exact ⟨s.objs, s.log, s.acks, rfl, fun _ => rfl⟩
    | write data =>
      simp only [hf]
      exact ⟨s.objs, s.log, s.acks, rfl, fun _ => rfl⟩

end State

/-! ## The system -/

inductive Op where
  | read (size : Int)
  | write (data : List UInt8)
  | flush

def Op.kind : Op → ReqKind
  | .read size => .read size.toNat
  | .write data => .write data
  | .flush => .fsync

def Op.offset (f : FileObj) : Op → Option Nat
  | .read _ => some f.readPos
  | .write _ => if f.append then none else some f.writePos
  | .flush => none

/-- The call moved nothing. -/
def Returned.isEmpty : Returned → Bool
  | .null => true
  | .data bytes => bytes = []
  | .int n => n ≤ 0
  | .bool _ => true

inductive Event where
  /-- `fstream` opened a file at a free number. -/
  | fstream (file : FileId) (mode : String) (fd : Int)
  | close (i : Nat)
  | call (fiber i : Nat) (op : Op) (deadlineMs : Int) (submitted : Bool)
  | turn (fiber : Nat) (late : Bool)
  /-- `async.poll` of a fiber that waits for nothing. -/
  | poll
  | take (r : Nat)
  | exec (r : Nat) (k : State.KernelResult)

def State.start (s : State) (fiber i : Nat) (f : FileObj) (deadlineMs : Int) (submitted : Bool) : Op → State
  | .read size => s.read fiber i f size deadlineMs submitted
  | .write data => s.write fiber i f data deadlineMs submitted
  | .flush => s.flush fiber i f deadlineMs submitted

theorem FileObj.isReadable_open {f : FileObj} (h : f.isReadable = true) : f.closed = false :=
  Bool.not_eq_true' _ ▸ (Bool.and_eq_true_iff.mp h).2

theorem FileObj.isWritable_open {f : FileObj} (h : f.isWritable = true) : f.closed = false :=
  Bool.not_eq_true' _ ▸ (Bool.and_eq_true_iff.mp h).2

/-- What a call can return before it waits. -/
def Op.Refused : Op → Returned → Prop
  | .read size, v => v = .null ∨ (size ≤ 0 ∧ v = .data [])
  | .write _, v => v = .int (-1)
  | .flush, v => v = .bool false

theorem Op.Refused.isEmpty {op : Op} {v : Returned} (h : op.Refused v) : v.isEmpty = true := by
  cases op with
  | read size =>
    rcases h with rfl | ⟨-, rfl⟩
    · rfl
    · rfl
  | write data =>
    cases h
    rfl
  | flush =>
    cases h
    rfl

/-- What a call does before it waits: it returns at once, or submits a request on the
    descriptor of an open object. -/
theorem State.start_refused (s : State) (fiber i : Nat) (f : FileObj) (deadlineMs : Int) (submitted : Bool) (op : Op) :
    (∃ v, op.Refused v ∧ s.start fiber i f deadlineMs submitted op = s.ret fiber v) ∨
      (f.closed = false ∧ op.kind ≠ .read 0 ∧
        s.start fiber i f deadlineMs submitted op = s.submit fiber i f op.kind (op.offset f) deadlineMs) := by
  cases op with
  | read size =>
    simp only [State.start, State.read]
    split
    · exact .inl ⟨_, .inl rfl, rfl⟩
    · rename_i hr
      rw [Bool.not_eq_true', Bool.not_eq_false] at hr
      split
      · rename_i hsize
        exact .inl ⟨_, .inr ⟨hsize, rfl⟩, rfl⟩
      · rename_i hsize
        have hkind : (Op.read size).kind ≠ .read 0 := by
          rw [Op.kind, Ne, ReqKind.read.injEq]
          omega
        split
        · exact .inl ⟨_, .inl rfl, rfl⟩
        · exact .inr ⟨f.isReadable_open hr, hkind, rfl⟩
  | write data =>
    simp only [State.start, State.write]
    split
    · exact .inl ⟨_, rfl, rfl⟩
    · rename_i hw
      simp only [Bool.or_eq_true, not_or, Bool.not_eq_true', Bool.not_eq_false] at hw
      exact .inr ⟨f.isWritable_open hw.1.1.1, by simp [Op.kind], rfl⟩
  | flush =>
    simp only [State.start, State.flush]
    split
    · exact .inl ⟨_, rfl, rfl⟩
    · rename_i hw
      simp only [Bool.or_eq_true, not_or, Bool.not_eq_true', Bool.not_eq_false] at hw
      exact .inr ⟨f.isWritable_open hw.1.1, by simp [Op.kind], rfl⟩

/-- It returns with nothing, if it returns at once. -/
theorem State.start_cases (s : State) (fiber i : Nat) (f : FileObj) (deadlineMs : Int) (submitted : Bool) (op : Op) :
    (∃ v, v.isEmpty = true ∧ s.start fiber i f deadlineMs submitted op = s.ret fiber v) ∨
      (f.closed = false ∧ op.kind ≠ .read 0 ∧
        s.start fiber i f deadlineMs submitted op = s.submit fiber i f op.kind (op.offset f) deadlineMs) :=
  (s.start_refused fiber i f deadlineMs submitted op).imp_left fun ⟨v, hv, heq⟩ => ⟨v, hv.isEmpty, heq⟩

def step (s : State) : Event → Option State
  | .fstream file mode fd =>
    if s.current = none ∧ InRange fd ∧ s.fds.get fd = none then (parseMode mode).map fun m => s.openFile file m fd
    else none
  | .close i => if s.current = none then (s.objs i).map fun f => s.closeFile i f else none
  | .call fiber i op deadlineMs submitted =>
    if s.current = none ∧ (s.fibers fiber).isNone then
      (s.objs i).map fun f => s.start fiber i f deadlineMs submitted op
    else none
  | .turn fiber late =>
    if s.current = none ∨ s.current = some fiber then (s.fibers fiber).bind fun w => s.turn fiber w late else none
  | .poll => if s.current = none then some s.uvRun else none
  | .take r =>
    (s.reqs r).bind fun q =>
      match q.phase with
      | .queued => some (s.setReq r { q with phase := .taken })
      | _ => none
  | .exec r k =>
    (s.reqs r).bind fun q =>
      match q.phase with
      | .taken => s.execute r q k
      | _ => none

abbrev run (s : State) (es : List Event) : Option State := Runs.exec step s es

end CovProcess.File
