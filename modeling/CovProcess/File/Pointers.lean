/-
  CovProcess.File.Pointers — one file and the `file_t` objects open on it, with the file
  pointers of their handles: `open_file` and the streams of `in()` and `out()` (`file.hpp`,
  `fdstream.hpp`), `write` (`src/process.cpp`), and children that have a file as their output.

  A `write` is one event, at the point where its request is executed; `onTime` is what its
  wait will return. Nothing but the next `write` on the object looks at what its return
  moves, and the calls on one object are made one at a time. A `write` that is refused,
  cancelled or fails changes no file and is no event. libuv leaves the file pointer alone in
  a write at an offset; with offset -1 it writes where the pointer is.
-/

import CovProcess.Lib.FilePointer
import CovProcess.File.Writes

namespace CovProcess.File.Pointers

open FilePointer Content

inductive Platform where
  | unix
  | windows
  deriving DecidableEq, Repr

/-- What `open_file` opens in a file of a size: with `O_APPEND`, or with a seek to the end. -/
def Platform.openDesc (m : Mode) (size : Nat) : Platform → Desc
  | .unix => ⟨0, m.append⟩
  | .windows => ⟨if m.append then size else 0, false⟩

structure Handle where
  obj : FileObj
  desc : Desc
  /-- A child has been started with the file as its output. -/
  target : Bool := false

/-- Bytes put in the file; `ok` is whether who wrote them was told so. -/
structure Output where
  start : Nat
  bytes : List UInt8
  ok : Bool
  deriving DecidableEq, Repr

/-- `landed` has what was put in the file, the newest first. -/
structure State where
  content : List UInt8 := []
  handles : Nat → Option Handle := fun _ => none
  nhandles : Nat := 0
  landed : List Output := []

namespace State

def put (s : State) (i : Nat) (h : Handle) : State := { s with handles := Function.update s.handles i (some h) }

theorem put_handles (s : State) (i : Nat) (h : Handle) (x : Nat) :
    (s.put i h).handles x = if x = i then some h else s.handles x := Function.update_apply ..

def openFile (p : Platform) (s : State) (m : Mode) : State :=
  let content := if m.createTrunc then [] else s.content
  { s.put s.nhandles { obj := .openFile 0 m s.nhandles, desc := p.openDesc m content.length } with
    content := content, nhandles := s.nhandles + 1 }

/-- `write` returns the number of bytes written. -/
def reported (f : FileObj) (data : List UInt8) (n : Nat) (onTime : Bool) : Bool :=
  (f.finish (.write data) onTime (toInt n) []).2 = .int n

/-- The request of a `write` writes `n` bytes: at offset -1 in append mode, else at the
    object's own position. -/
def write (s : State) (i : Nat) (h : Handle) (data : List UInt8) (n : Nat) (onTime : Bool) : State :=
  let obj := (h.obj.finish (.write data) onTime (toInt n) []).1
  let ok := reported h.obj data n onTime
  if h.obj.append then
    let w := h.desc.write 0 s.content (data.take n)
    { s.put i { h with obj := obj, desc := w.1 } with
      content := w.2, landed := ⟨h.desc.start s.content.length, data.take n, ok⟩ :: s.landed }
  else
    { s.put i { h with obj := obj } with
      content := pwrite 0 s.content h.obj.writePos (data.take n)
      landed := ⟨h.obj.writePos, data.take n, ok⟩ :: s.landed }

/-- A write on the handle by the `in()` stream or by a child. -/
def output (s : State) (i : Nat) (h : Handle) (bytes : List UInt8) : State :=
  let w := h.desc.write 0 s.content bytes
  { s.put i { h with desc := w.1 } with
    content := w.2, landed := ⟨h.desc.start s.content.length, bytes, true⟩ :: s.landed }

end State

inductive Event where
  | fstream (mode : String)
  | write (i : Nat) (data : List UInt8) (n : Nat) (onTime : Bool)
  /-- One `write` of the loop in `xsputn` writes `n` of the bytes left. -/
  | insert (i : Nat) (bytes : List UInt8) (n : Nat)
  /-- A child is started with the file as its output. -/
  | start (i : Nat)
  | child (i : Nat) (bytes : List UInt8)
  /-- `underflow` of the `out()` stream reads `n` bytes into its buffer. -/
  | out (i : Nat) (n : Nat)
  | close (i : Nat)

def step (p : Platform) (s : State) : Event → Option State
  | .fstream mode => (parseMode mode).map fun m => s.openFile p m
  | .write i data n onTime =>
    (s.handles i).bind fun h =>
      if h.obj.isWritable ∧ data.length ≤ 4294967295 ∧ n ≤ data.length then some (s.write i h data n onTime) else none
  | .insert i bytes n =>
    (s.handles i).bind fun h => if h.obj.isWritable then some (s.output i h (bytes.take n)) else none
  | .start i =>
    (s.handles i).bind fun h => if h.obj.isWritable then some (s.put i { h with target := true }) else none
  | .child i bytes => (s.handles i).bind fun h => if h.target then some (s.output i h bytes) else none
  | .out i n =>
    (s.handles i).bind fun h =>
      if h.obj.isReadable ∧ n ≤ 1024 ∧ n ≤ (s.content.drop h.desc.pos).length then
        some (s.put i { h with desc := (h.desc.read s.content n).1 })
      else none
  | .close i =>
    (s.handles i).map fun h => s.put i { h with obj := { h.obj with closed := true, fd := -1 } }

abbrev run (p : Platform) (s : State) (es : List Event) : Option State := Runs.exec (step p) s es

/-! ## What is reported -/

section

variable {f : FileObj} {data : List UInt8} {n : Nat} {onTime : Bool}

theorem reported_iff : State.reported f data n onTime = true ↔ onTime = true ∧ toInt n = n := by
  rw [State.reported, decide_eq_true_eq, FileObj.finish]
  cases onTime with
  | true => simp
  | false =>
    simp only [Bool.false_eq_true, if_false, Returned.int.injEq, false_and, iff_false]
    omega

/-- The object's position moves by what is reported. -/
theorem finish_writePos (hn : n ≤ 4294967295) : (f.finish (.write data) onTime (toInt n) []).1.writePos =
    f.writePos + if f.append = false ∧ State.reported f data n onTime = true then n else 0 := by
  cases onTime with
  | false =>
    rw [if_neg fun h => Bool.false_ne_true (reported_iff.mp h.2).1]
    rfl
  | true =>
    rw [finish_write_pos]
    by_cases hint : toInt n = n
    · rw [hint, Int.toNat_natCast]
      cases happend : f.append with
      | true => rw [if_pos rfl, if_neg fun h => Bool.noConfusion h.1]
      | false => rw [if_neg Bool.false_ne_true, if_pos ⟨rfl, reported_iff.mpr ⟨rfl, hint⟩⟩]
    · -- the `int` is negative
      have hbig : 2147483648 ≤ (n : Int) := by
        by_contra hsmall
        exact hint (toInt_eq ⟨by omega, by omega⟩)
      have hneg : (toInt n).toNat = 0 := by
        rw [toInt_wraps hbig (by omega)]
        omega
      rw [hneg, ite_self, if_neg fun h => hint (reported_iff.mp h.2).2]

theorem finish_append : (f.finish (.write data) onTime (toInt n) []).1.append = f.append := append_finish ..

/-- On Unix the event is a call: it is submitted, its deadline passes or not, its request is
    executed and it returns. -/
theorem write_call (s : State) (i : Nat) (h : Handle) (hopen : h.obj.closed = false)
    (hflag : h.desc.append = h.obj.append) (hn : n ≤ data.length) (onTime : Bool) (rs : List Returned) :
    ∃ v₁ v₂ v₃ h' r, View.Step (some (.write data)) ⟨h.obj, none, s.content, rs⟩ v₁ ∧ View.Step none v₁ v₂ ∧
      View.Step none v₂ v₃ ∧ View.Step none v₃ ⟨h'.obj, none, (s.write i h data n onTime).content, r :: rs⟩ ∧
      (s.write i h data n onTime).handles i = some h' ∧ (State.reported h.obj data n onTime = true ↔ r = .int n) := by
  let offset := (Op.write data).offset h.obj
  have hcontent : (s.write i h data n onTime).content =
      pwrite 0 s.content (if h.obj.append then s.content.length else offset.getD 0) (data.take n) := by
    cases happend : h.obj.append with
    | true =>
      have hstart : h.desc.start s.content.length = s.content.length := if_pos (hflag.trans happend)
      simp only [State.write, happend, if_true, Desc.write, hstart]
    | false =>
      have hoffset : offset = some h.obj.writePos := if_neg (ne_true_of_eq_false happend)
      simp only [State.write, happend, Bool.false_eq_true, if_false, hoffset, Option.getD_some]
  have hexec : Executes h.obj.append (.write data) offset s.content n [] (s.write i h data n onTime).content :=
    .inr ⟨n, 0, rfl, hn, rfl, hcontent⟩
  have hhandle : ∃ h', (s.write i h data n onTime).handles i = some h' ∧
      h'.obj = (h.obj.finish (.write data) onTime (toInt n) []).1 := by
    unfold State.write
    split
    · exact ⟨_, Function.update_self .., rfl⟩
    · exact ⟨_, Function.update_self .., rfl⟩
  obtain ⟨h', hh', hobj⟩ := hhandle
  have hdeadline : View.Step none ⟨h.obj, some ⟨.write data, offset, false, none⟩, s.content, rs⟩
      ⟨h.obj, some ⟨.write data, offset, !onTime, none⟩, s.content, rs⟩ := by
    cases onTime with
    | true => exact .idle _
    | false => exact .deadline
  refine ⟨_, _, _, h', _, .submit hopen nofun, hdeadline, .execute hexec, ?_, hh', decide_eq_true_iff⟩
  have hend := @View.Step.finish h.obj (.write data) offset (!onTime) (s.write i h data n onTime).content [] rs (toInt n)
  rw [Bool.not_not] at hend
  rw [hobj]
  exact hend

end

end CovProcess.File.Pointers
