/-
  CovProcess.Lib.FdTable — a process's descriptor table and the POSIX calls on it.

  A table maps descriptor numbers to open files of any type `φ`, each with its
  close-on-exec flag. Only numbers of a C `int` that are not negative can be open, and
  the table carries that. A call on a descriptor that is not open fails and leaves the
  table alone. `dup2` onto another number clears the flag, `exec` closes what has it.
  `PipeAlloc` is the kernel's choice of two numbers for a new pipe, with what POSIX says
  of them: distinct, and not open before.
-/

import Mathlib.Logic.Function.Basic

namespace FdTable

structure Desc (φ : Type) where
  file : φ
  cloexec : Bool := false
  deriving DecidableEq, Repr

/-- A descriptor number the kernel can hand out. -/
def InRange (fd : Int) : Prop := 0 ≤ fd ∧ fd < 2147483648

instance (fd : Int) : Decidable (InRange fd) := inferInstanceAs (Decidable (_ ∧ _))

structure Table (φ : Type) where
  get : Int → Option (Desc φ)
  inRange : ∀ fd, get fd ≠ none → InRange fd

variable {φ ψ : Type}

@[ext] theorem Table.ext {t u : Table φ} (h : ∀ fd, t.get fd = u.get fd) : t = u := by
  cases t
  cases u
  congr
  exact funext h

theorem Table.get_eq_none (t : Table φ) {fd : Int} (h : ¬ InRange fd) : t.get fd = none :=
  Classical.byContradiction fun hne => h (t.inRange fd hne)

def empty : Table φ := ⟨fun _ => none, fun _ h => absurd rfl h⟩

@[simp] theorem get_empty (x : Int) : (empty : Table φ).get x = none := rfl

/-- Close the numbers `p` says. -/
def Table.closeIf (t : Table φ) (p : Int → Prop) [DecidablePred p] : Table φ where
  get fd := if p fd then none else t.get fd
  inRange fd h := t.inRange fd fun e => h (by simp [e])

@[simp] theorem get_closeIf (t : Table φ) (p : Int → Prop) [DecidablePred p] (x : Int) :
    (t.closeIf p).get x = if p x then none else t.get x := rfl

def Table.close (t : Table φ) (fd : Int) : Table φ := t.closeIf (· = fd)

@[simp] theorem get_close (t : Table φ) (fd x : Int) :
    (t.close fd).get x = if x = fd then none else t.get x := rfl

/-- Put `d` at `fd`, whatever was there; nothing happens out of range. -/
def Table.put (t : Table φ) (fd : Int) (d : Desc φ) : Table φ where
  get := if InRange fd then Function.update t.get fd (some d) else t.get
  inRange x h := by
    by_cases hr : InRange fd
    · rw [if_pos hr] at h
      by_cases e : x = fd
      · rw [e]; exact hr
      · rw [Function.update_of_ne e] at h; exact t.inRange x h
    · rw [if_neg hr] at h; exact t.inRange x h

theorem get_put (t : Table φ) {fd : Int} (hr : InRange fd) (d : Desc φ) (x : Int) :
    (t.put fd d).get x = if x = fd then some d else t.get x := by
  simp only [Table.put, if_pos hr, Function.update_apply]

/-- `dup2(src, dst)`. -/
def Table.dup2 (t : Table φ) (src dst : Int) : Table φ :=
  match t.get src with
  | none => t
  | some d => if src = dst then t else t.put dst { d with cloexec := false }

theorem get_dup2 (t : Table φ) {src dst : Int} {d : Desc φ} (hs : t.get src = some d) (hne : src ≠ dst)
    (hr : InRange dst) (x : Int) :
    (t.dup2 src dst).get x = if x = dst then some { d with cloexec := false } else t.get x := by
  simp only [Table.dup2, hs, if_neg hne]
  exact get_put t hr _ x

/-- A `dup2` that succeeds puts the source's file at the target, to stay through `exec`. -/
theorem get_dup2_self (t : Table φ) {src dst : Int} {d : Desc φ} (hs : t.get src = some d) (hne : src ≠ dst)
    (hr : InRange dst) : (t.dup2 src dst).get dst = some { d with cloexec := false } := by
  rw [get_dup2 t hs hne hr, if_pos rfl]

/-- Only the target number of a `dup2` can change. -/
theorem get_dup2_ne (t : Table φ) (src : Int) {dst x : Int} (h : x ≠ dst) : (t.dup2 src dst).get x = t.get x := by
  unfold Table.dup2
  split
  · rfl
  · split
    · rfl
    · by_cases hr : InRange dst
      · rw [get_put _ hr, if_neg h]
      · simp [Table.put, hr]

/-- `fcntl(fd, F_SETFD, FD_CLOEXEC)`; `none` is its failure on a closed descriptor. -/
def Table.setCloexec (t : Table φ) (fd : Int) : Option (Table φ) :=
  (t.get fd).map fun d => t.put fd { d with cloexec := true }

/-- `close_range(first, last, 0)` when it succeeds. -/
def Table.closeRange (t : Table φ) (first last : Int) : Table φ := t.closeIf fun x => first ≤ x ∧ x ≤ last

@[simp] theorem get_closeRange (t : Table φ) (first last x : Int) :
    (t.closeRange first last).get x = if first ≤ x ∧ x ≤ last then none else t.get x := rfl

/-- A successful `exec` closes what is marked close-on-exec. -/
def Table.exec (t : Table φ) : Table φ where
  get fd := (t.get fd).filter fun d => !d.cloexec
  inRange fd h := t.inRange fd fun e => h (by simp [e])

theorem get_exec_keep (t : Table φ) {x : Int} {d : Desc φ} (h : t.get x = some d) (hc : d.cloexec = false) :
    t.exec.get x = some d := by
  simp [Table.exec, h, hc]

theorem get_exec_drop (t : Table φ) {x : Int} (h : ∀ d, t.get x = some d → d.cloexec = true) :
    t.exec.get x = none := by
  cases hx : t.get x with
  | none => simp [Table.exec, hx]
  | some d => simp [Table.exec, hx, h d hx]

def Table.map (f : φ → ψ) (t : Table φ) : Table ψ where
  get fd := (t.get fd).map fun d => ⟨f d.file, d.cloexec⟩
  inRange fd h := t.inRange fd fun e => h (by simp [e])

@[simp] theorem get_map (f : φ → ψ) (t : Table φ) (x : Int) :
    (t.map f).get x = (t.get x).map fun d => ⟨f d.file, d.cloexec⟩ := rfl

/-! ## Who holds a file -/

def Table.file (t : Table φ) (fd : Int) : Option φ := (t.get fd).map Desc.file

theorem file_eq_some {t : Table φ} {x : Int} {f : φ} : t.file x = some f ↔ ∃ c, t.get x = some ⟨f, c⟩ := by
  rw [Table.file, Option.map_eq_some_iff]
  constructor
  · intro hx
    obtain ⟨⟨f, c⟩, h, rfl⟩ := hx
    exact ⟨c, h⟩
  · intro hx
    obtain ⟨c, h⟩ := hx
    exact ⟨_, h, rfl⟩

theorem file_ne_none {t : Table φ} {x : Int} : t.file x ≠ none ↔ t.get x ≠ none := by
  rw [Table.file, Ne, Option.map_eq_none_iff]

theorem file_put (t : Table φ) {fd : Int} (hr : InRange fd) (d : Desc φ) (x : Int) :
    (t.put fd d).file x = if x = fd then some d.file else t.file x := by
  rw [Table.file, get_put t hr]
  split <;> rfl

theorem file_close (t : Table φ) (fd x : Int) : (t.close fd).file x = if x = fd then none else t.file x := by
  rw [Table.file, get_close]
  split <;> rfl

theorem file_map (f : φ → ψ) (t : Table φ) (x : Int) : (t.map f).file x = (t.file x).map f := by
  rw [Table.file, Table.file, get_map, Option.map_map, Option.map_map]
  rfl

/-- Some descriptor of the table refers to the open file `f`. -/
def Table.Holds (t : Table φ) (f : φ) : Prop := ∃ x, t.file x = some f

theorem not_holds_empty (f : φ) : ¬ (empty : Table φ).Holds f := by
  intro hx
  obtain ⟨x, h⟩ := hx
  cases h

/-! ## New pipes -/

/-- The kernel's choice of numbers for `pipe`; `none` when the call fails. -/
structure PipeAlloc (φ : Type) where
  pick : Table φ → Option (Int × Int)
  distinct : ∀ t r w, pick t = some (r, w) → r ≠ w
  closed : ∀ t r w, pick t = some (r, w) → t.get r = none ∧ t.get w = none
  inRange : ∀ t r w, pick t = some (r, w) → InRange r ∧ InRange w

/-- A kernel on which `pipe` always fails. -/
def PipeAlloc.fails : PipeAlloc φ :=
  ⟨fun _ => none, by simp, by simp, by simp⟩

/-- A kernel that gives the two numbers named, and fails when one is taken. -/
def PipeAlloc.at (r w : Int) (hne : r ≠ w) (hr : InRange r) (hw : InRange w) : PipeAlloc φ where
  pick t := if t.get r = none ∧ t.get w = none then some (r, w) else none
  distinct t r' w' h := by
    obtain ⟨_, h⟩ := Option.ite_none_right_eq_some.mp h
    cases h
    exact hne
  closed t r' w' h := by
    obtain ⟨hc, h⟩ := Option.ite_none_right_eq_some.mp h
    cases h
    exact hc
  inRange t r' w' h := by
    obtain ⟨_, h⟩ := Option.ite_none_right_eq_some.mp h
    cases h
    exact ⟨hr, hw⟩

/-- The same, and a kernel that always fails for numbers it cannot give. -/
def PipeAlloc.named (r w : Int) : PipeAlloc φ :=
  if h : r ≠ w ∧ InRange r ∧ InRange w then .at r w h.1 h.2.1 h.2.2 else .fails

end FdTable
