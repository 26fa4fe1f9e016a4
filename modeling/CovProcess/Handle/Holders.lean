/-
  CovProcess.Handle.Holders — who holds which end of which pipe, when a program starts any
  number of children (`process.hpp`, `src/process.cpp`), for both platforms.

  The system is the program's descriptor table, the handles it ever had, in the order of
  their starts, and the table of each child. Besides starting children, closing their stdin
  and destroying handles the program opens and closes descriptors of its own; a number that
  was closed may come back as another file. A child opens, duplicates and closes on its own,
  the processes it starts included. What `create_process` does is a parameter: the spec
  `Spawns` says what a start owes the rest of the system, and each platform's own module
  proves it of its model.

  Proved: `holders_run`, along any run whose starts meet their conditions. Every slot of a
  handle is `FD_INVALID` or holds that handle's own end, the program holds no end outside
  these slots, no child holds an end of another's pipes or one of the program's ends, and
  the handles closed each of their ends once and nothing else. So a closed stdin pipe has
  no writer left (`Holds.parent_end`), and a stdout pipe has none once the child is done with it
  (`Holds.child_end`).
-/

import CovProcess.Builder
import CovProcess.Lib.Confined
import CovProcess.Lib.Runs
import CovProcess.Unix.Spawn

namespace CovProcess.Holders

open FdTable
open CovProcess.Builder (Platform)
open CovProcess.Unix (OpenFile PipeName PipeEnd)

/-- An open file: the program's or a child's own, an end of a pipe of start `i`, or its
    child process and thread (Windows). -/
inductive Obj (φ : Type) where
  | own (f : φ)
  | pipe (i : Nat) (p : PipeName) (e : PipeEnd)
  | process (i : Nat)
  | thread (i : Nat)
  deriving DecidableEq, Repr

/-- The fields of a `process_info` that hold a descriptor. -/
inductive Slot where
  | pid
  | tid
  | stdin
  | stdout
  | stderr
  deriving DecidableEq, Repr

/-- In the order of `close_process`. -/
def slots : Platform → List Slot
  | .unix => [.stdin, .stdout, .stderr]
  | .win32 => [.pid, .tid, .stdin, .stdout, .stderr]

namespace Slot

def fd (info : ProcessInfo) : Slot → Fd
  | .pid => info.pid
  | .tid => info.tid
  | .stdin => info.stdin
  | .stdout => info.stdout
  | .stderr => info.stderr

def reset (info : ProcessInfo) : Slot → ProcessInfo
  | .pid => { info with pid := FD_INVALID }
  | .tid => { info with tid := FD_INVALID }
  | .stdin => { info with stdin := FD_INVALID }
  | .stdout => { info with stdout := FD_INVALID }
  | .stderr => { info with stderr := FD_INVALID }

/-- What the slot is for, in the handle of start `i`. -/
def obj {φ : Type} (i : Nat) : Slot → Obj φ
  | .pid => .process i
  | .tid => .thread i
  | .stdin => .pipe i .stdin .write
  | .stdout => .pipe i .stdout .read
  | .stderr => .pipe i .stderr .read

end Slot

/-- The child's end of a stream's pipe; neither end of the fail pipe is left to it. -/
def childEnd : PipeName → Option PipeEnd
  | .stdin => some .read
  | .stdout => some .write
  | .stderr => some .write
  | .fail => none

variable {φ : Type}

/-- The program's own files and the child's ends of the pipes of start `i`. -/
def ForChild (i : Nat) : Obj φ → Prop
  | .own _ => True
  | .pipe j p e => j = i ∧ childEnd p = some e
  | .process _ => False
  | .thread _ => False

def Obj.isOwn : Obj φ → Bool
  | .own _ => true
  | _ => false

/-- The files of start `i`, by the names the rest of the system has for them. -/
def nameFrom (i : Nat) : OpenFile (Obj φ) → Obj φ
  | .old f => f
  | .pipe p e => .pipe i p e

/-! ## The system -/

/-- A start and what came of it: `made` is what `create_process` gave, `info` is `_info`
    since then. One that threw left no slot in use. -/
structure Handle (φ : Type) where
  made : ProcessInfo
  info : ProcessInfo
  child : Table (Obj φ)

structure System (φ : Type) where
  table : Table (Obj φ)
  handles : List (Handle φ) := []
  /-- The slots that handles closed, each with the file its number referred to. -/
  log : List ((Nat × Slot) × Option (Obj φ)) := []

namespace System

variable (s : System φ)

/-- `close_fd` on a slot of handle `i`. -/
def closeSlot (i : Nat) (a : Slot) : System φ :=
  match s.handles[i]? with
  | none => s
  | some h =>
    if a.fd h.info = FD_INVALID then s
    else
      { table := s.table.close (a.fd h.info)
        handles := s.handles.set i { h with info := a.reset h.info }
        log := s.log ++ [((i, a), s.table.file (a.fd h.info))] }

/-- `close_stdin`, which does nothing a second time. -/
def closeStdin (i : Nat) : System φ :=
  match s.handles[i]? with
  | none => s
  | some h =>
    if h.info.stdinClosed then s
    else ({ s with handles := s.handles.set i { h with info := { h.info with stdinClosed := true } } }).closeSlot i .stdin

/-- `close_process`, at the end of `~member_holder`. -/
def closeProcess (pf : Platform) (i : Nat) : System φ := (slots pf).foldl (fun s a => s.closeSlot i a) s

/-- A step of child `i` on its own table. -/
def onChild (i : Nat) (f : Table (Obj φ) → Table (Obj φ)) : System φ :=
  match s.handles[i]? with
  | none => s
  | some h => { s with handles := s.handles.set i { h with child := f h.child } }

def Uses (pf : Platform) (fd : Fd) : Prop := ∃ h ∈ s.handles, ∃ a ∈ slots pf, a.fd h.info = fd

instance (pf : Platform) (fd : Fd) : Decidable (s.Uses pf fd) :=
  inferInstanceAs (Decidable (∃ h ∈ s.handles, ∃ a ∈ slots pf, a.fd h.info = fd))

end System

/-- What a call of `create_process` leaves: the `_info` of the handle, when it returned one,
    the table of the child and the table of the program. -/
structure Spawned (φ : Type) where
  info : ProcessInfo := {}
  child : Table (Obj φ) := empty
  table : Table (Obj φ)

/-- `κ` is what a start gets: the startup and the answers of the system. -/
inductive Event (κ φ : Type) where
  | start (c : κ)
  | closeStdin (i : Nat)
  | destroy (i : Nat)
  | openOwn (fd : Fd) (f : φ) (cloexec : Bool)
  | closeOwn (fd : Fd)
  | childOpen (i : Nat) (fd : Fd) (f : φ)
  | childDup2 (i : Nat) (src dst : Fd)
  | childClose (i : Nat) (fd : Fd)
  | childExit (i : Nat)

section Runs

variable {κ : Type} (pf : Platform) (spawn : κ → Nat → Table (Obj φ) → Spawned φ)

def step (s : System φ) : Event κ φ → Option (System φ)
  | .start c =>
    let o := spawn c s.handles.length s.table
    some { s with table := o.table, handles := s.handles ++ [⟨o.info, o.info, o.child⟩] }
  | .closeStdin i => some (s.closeStdin i)
  | .destroy i => some (s.closeProcess pf i)
  | .openOwn fd f cloexec =>
    if (s.table.get fd).isNone then some { s with table := s.table.put fd ⟨.own f, cloexec⟩ } else none
  | .closeOwn fd => if s.Uses pf fd then none else some { s with table := s.table.close fd }
  | .childOpen i fd f => some (s.onChild i fun t => t.put fd ⟨.own f, false⟩)
  | .childDup2 i src dst => some (s.onChild i fun t => t.dup2 src dst)
  | .childClose i fd => some (s.onChild i fun t => t.close fd)
  | .childExit i => some (s.onChild i fun _ => empty)

/-! ## What a start owes the system -/

/-- Start `i`: the program lost descriptors of its own at most, its new ones are the slots
    of `info`, and the child holds nothing that is not for it. -/
structure Starts (i : Nat) (t : Table (Obj φ)) (o : Spawned φ) : Prop where
  kept : ∀ x, t.get x ≠ none → o.table.file x = t.file x ∨ (o.table.file x = none ∧ ∃ f, t.file x = some (.own f))
  slot : ∀ a ∈ slots pf, a.fd o.info ≠ FD_INVALID → t.get (a.fd o.info) = none ∧ o.table.file (a.fd o.info) = some (a.obj i)
  gained : ∀ x, t.get x = none → o.table.get x ≠ none → ∃ a ∈ slots pf, a.fd o.info = x
  child : o.child.Confined fun _ => ForChild i

/-- The spec of `create_process`, for the calls that `Ready` says and in the tables that `J`
    says: the platform's own condition, which the rest of the system has to keep. -/
structure Spawns (J : Table (Obj φ) → Prop) (Ready : κ → Table (Obj φ) → Prop) : Prop where
  starts : ∀ c i t, J t → Ready c t → Starts pf i t (spawn c i t)
  keeps : ∀ c i t, J t → Ready c t → J (spawn c i t).table
  opens : ∀ t fd f cloexec, J t → J (t.put fd ⟨.own f, cloexec⟩)
  closes : ∀ t fd, J t → J (t.close fd)

/-! ## The invariant -/

/-- Handle `i`, in a table and with what was closed so far. -/
structure Good (i : Nat) (h : Handle φ) (t : Table (Obj φ)) (log : List ((Nat × Slot) × Option (Obj φ))) : Prop where
  /-- A slot in use holds the end the start made for it. -/
  mine : ∀ a ∈ slots pf, a.fd h.info ≠ FD_INVALID → a.fd h.info = a.fd h.made ∧ t.file (a.fd h.info) = some (a.obj i)
  /-- A slot no longer in use was closed once. -/
  once : ∀ a ∈ slots pf,
    (log.map Prod.fst).count (i, a) = if a.fd h.made ≠ FD_INVALID ∧ a.fd h.info = FD_INVALID then 1 else 0
  child : h.child.Confined fun _ => ForChild i

/-- The file at a number is the program's own, or in its slot. -/
def Placed (s : System φ) (x : Fd) (f : Obj φ) : Prop :=
  f.isOwn = true ∨ ∃ i h a, s.handles[i]? = some h ∧ a ∈ slots pf ∧ a.fd h.info = x ∧ f = a.obj i

structure Holds (s : System φ) : Prop where
  handle : ∀ i h, s.handles[i]? = some h → Good pf i h s.table s.log
  /-- Nothing else in the program is an end of a pipe. -/
  parent : s.table.Confined (Placed pf s)
  /-- The handles closed no other file. -/
  closed : ∀ e ∈ s.log, (∃ h, s.handles[e.1.1]? = some h) ∧ e.2 = some (e.1.2.obj e.1.1)

end Runs

/-! ## Slots and tables -/

@[simp] theorem Slot.fd_reset (info : ProcessInfo) (a : Slot) : a.fd (a.reset info) = FD_INVALID := by
  cases a <;> rfl

theorem Slot.fd_reset_ne (info : ProcessInfo) {a b : Slot} (h : b ≠ a) : b.fd (a.reset info) = b.fd info := by
  cases a <;> cases b <;> first | rfl | exact absurd rfl h

theorem Slot.obj_inj {i j : Nat} {a b : Slot} (h : (a.obj i : Obj φ) = b.obj j) : i = j ∧ a = b := by
  cases a <;> cases b <;> simp only [Slot.obj, Obj.pipe.injEq, Obj.process.injEq, Obj.thread.injEq, reduceCtorEq,
    and_false, and_true] at h <;> exact ⟨h, rfl⟩

theorem Slot.obj_not_own (i : Nat) (a : Slot) : (a.obj i : Obj φ).isOwn = false := by
  cases a <;> rfl

/-- The program's ends are for no child. -/
theorem Slot.not_forChild (i j : Nat) (a : Slot) : ¬ ForChild (φ := φ) j (a.obj i) := by
  cases a <;> simp [Slot.obj, ForChild, childEnd]

theorem ne_invalid {t : Table (Obj φ)} {x : Fd} (h : t.get x ≠ none) : x ≠ FD_INVALID := by
  intro heq
  subst heq
  exact h (t.get_eq_none (by decide))

theorem file_named {i : Nat} {u : Unix.FdTab (Obj φ)} {t : Table (Obj φ)} {x : Fd} (h : u.file x = (t.map .old).file x) :
    (u.map (nameFrom i)).file x = t.file x := by
  rw [file_map, h, file_map]
  cases t.file x <;> rfl

section Proofs

variable {pf : Platform} {s : System φ} {i j : Nat} {h h' : Handle φ}

namespace Good

variable {t t' : Table (Obj φ)} {log : List ((Nat × Slot) × Option (Obj φ))}

theorem keep (hg : Good pf i h t log) (ht : ∀ a ∈ slots pf, a.fd h.info ≠ FD_INVALID →
    t'.file (a.fd h.info) = t.file (a.fd h.info)) : Good pf i h t' log where
  mine a ha hfd := ⟨(hg.mine a ha hfd).1, (ht a ha hfd).trans (hg.mine a ha hfd).2⟩
  once := hg.once
  child := hg.child

theorem update (hg : Good pf i h t log) (hmade : h'.made = h.made) (hfd : ∀ a ∈ slots pf, a.fd h'.info = a.fd h.info)
    (hc : h'.child.Confined fun _ => ForChild i) : Good pf i h' t log where
  mine a ha hne := by
    rw [hfd a ha] at hne
    rw [hfd a ha, hmade]
    exact hg.mine a ha hne
  once a ha := by rw [hfd a ha, hmade, hg.once a ha]
  child := hc

theorem fd_ne (hg : Good pf i h t log) (hg' : Good pf j h' t log) {a b : Slot} (ha : a ∈ slots pf) (hb : b ∈ slots pf)
    (hfa : a.fd h.info ≠ FD_INVALID) (hfb : b.fd h'.info ≠ FD_INVALID) (hne : (i, a) ≠ (j, b)) :
    a.fd h.info ≠ b.fd h'.info := by
  intro heq
  have hfa := (hg.mine a ha hfa).2
  rw [heq, (hg'.mine b hb hfb).2] at hfa
  obtain ⟨rfl, rfl⟩ := Slot.obj_inj (Option.some.inj hfa)
  exact hne rfl

end Good

theorem Placed.mono {s' : System φ} {x : Fd} {f : Obj φ} (hp : Placed pf s x f)
    (hs : ∀ (i : Nat) (h : Handle φ), s.handles[i]? = some h → ∃ h' : Handle φ, s'.handles[i]? = some h' ∧
      ∀ a ∈ slots pf, a.fd h.info = x → a.fd h'.info = x) : Placed pf s' x f := by
  rcases hp with hown | ⟨i, h, a, hi, ha, hx, rfl⟩
  · exact .inl hown
  · obtain ⟨h', hi', hfd⟩ := hs i h hi
    exact .inr ⟨i, h', a, hi', ha, hfd a ha hx, rfl⟩

theorem getElem?_set_cases {l : List (Handle φ)} {k : Nat} (hk : (l.set i h')[k]? = some h) :
    (k = i ∧ h = h') ∨ (k ≠ i ∧ l[k]? = some h) := by
  rw [List.getElem?_set] at hk
  split at hk
  · split at hk
    · cases hk
      exact .inl ⟨by simp [*], rfl⟩
    · cases hk
  · rename_i hne
    exact .inr ⟨fun he => hne he.symm, hk⟩

theorem getElem?_set_at {l : List (Handle φ)} (hi : l[i]? = some h) : (l.set i h')[i]? = some h' := by
  rw [List.getElem?_set_self (List.getElem?_eq_some_iff.mp hi).1]

theorem getElem?_set_other {l : List (Handle φ)} {k : Nat} (hk : l[k]? = some h) (hne : k ≠ i) :
    (l.set i h')[k]? = some h := by
  rw [List.getElem?_set_ne (Ne.symm hne), hk]

namespace Holds

theorem setHandle (hs : Holds pf s) (hi : s.handles[i]? = some h) (hmade : h'.made = h.made)
    (hfd : ∀ a ∈ slots pf, a.fd h'.info = a.fd h.info) (hc : h'.child.Confined fun _ => ForChild i) :
    Holds pf { s with handles := s.handles.set i h' } where
  handle k u hk := by
    rcases getElem?_set_cases hk with ⟨rfl, rfl⟩ | ⟨-, hk⟩
    · exact (hs.handle k h hi).update hmade hfd hc
    · exact hs.handle k u hk
  parent := hs.parent.mono fun x f hp => hp.mono fun k u hk => by
    by_cases hki : k = i
    · subst hki
      rw [hi] at hk
      cases hk
      exact ⟨h', getElem?_set_at hi, fun a ha hx => (hfd a ha).trans hx⟩
    · exact ⟨u, getElem?_set_other hk hki, fun _ _ hx => hx⟩
  closed e he := by
    obtain ⟨⟨u, hu⟩, hf⟩ := hs.closed e he
    by_cases hki : e.1.1 = i
    · exact ⟨⟨h', by rw [hki]; exact getElem?_set_at hi⟩, hf⟩
    · exact ⟨⟨u, getElem?_set_other hu hki⟩, hf⟩

theorem onChild (hs : Holds pf s) {f : Table (Obj φ) → Table (Obj φ)}
    (hf : ∀ c : Table (Obj φ), c.Confined (fun _ => ForChild i) → (f c).Confined fun _ => ForChild i) :
    Holds pf (s.onChild i f) := by
  unfold System.onChild
  split
  · exact hs
  · rename_i h hi
    exact hs.setHandle hi rfl (fun _ _ => rfl) (hf _ (hs.handle i h hi).child)

theorem count_zero (hs : Holds pf s) (hi : s.handles[i]? = some h) {a : Slot} (ha : a ∈ slots pf)
    (hfd : a.fd h.info ≠ FD_INVALID) : (s.log.map Prod.fst).count (i, a) = 0 := by
  rw [(hs.handle i h hi).once a ha, if_neg fun hc => hfd hc.2]

theorem closeSlot (hs : Holds pf s) {a : Slot} (ha : a ∈ slots pf) : Holds pf (s.closeSlot i a) := by
  unfold System.closeSlot
  split
  · exact hs
  rename_i h hi
  split
  · exact hs
  rename_i hfd
  have hgood := hs.handle i h hi
  have hother : ∀ k u, s.handles[k]? = some u → ∀ b ∈ slots pf, b.fd u.info ≠ FD_INVALID → (k, b) ≠ (i, a) →
      (s.table.close (a.fd h.info)).file (b.fd u.info) = s.table.file (b.fd u.info) := by
    intro k u hk b hb hfb hne
    rw [file_close, if_neg ((hs.handle k u hk).fd_ne hgood hb ha hfb hfd hne)]
  have hcount : ∀ k b, ((s.log ++ [((i, a), s.table.file (a.fd h.info))]).map Prod.fst).count (k, b) =
      (s.log.map Prod.fst).count (k, b) + if (k, b) = (i, a) then 1 else 0 := by
    intro k b
    rw [List.map_append, List.count_append, List.map_singleton, List.count_singleton]
    simp only [beq_iff_eq, @eq_comm _ (k, b)]
  refine ⟨?_, ?_, ?_⟩
  · intro k u hk
    rcases getElem?_set_cases hk with ⟨rfl, rfl⟩ | ⟨hne, hk⟩
    · refine ⟨?_, ?_, hgood.child⟩
      · intro b hb hfb
        by_cases hba : b = a
        · subst hba
          exact absurd (Slot.fd_reset _ _) hfb
        · simp only [Slot.fd_reset_ne _ hba] at hfb ⊢
          rw [hother k h hi b hb hfb (by simp [hba])]
          exact hgood.mine b hb hfb
      · intro b hb
        rw [hcount]
        by_cases hba : b = a
        · subst hba
          rw [hs.count_zero hi hb hfd, if_pos rfl, Slot.fd_reset, if_pos]
          exact ⟨(hgood.mine b hb hfd).1 ▸ hfd, rfl⟩
        · rw [if_neg (by simp [hba]), hgood.once b hb, Slot.fd_reset_ne _ hba, Nat.add_zero]
    · have hu := hs.handle k u hk
      refine ⟨?_, ?_, hu.child⟩
      · intro b hb hfb
        rw [hother k u hk b hb hfb (by simp [hne])]
        exact hu.mine b hb hfb
      · intro b hb
        rw [hcount, if_neg (by simp [hne]), hu.once b hb, Nat.add_zero]
  · intro x f hx
    rw [file_close] at hx
    split at hx
    · cases hx
    rename_i hxa
    refine (hs.parent x f hx).mono ?_
    intro k u hk
    by_cases hki : k = i
    · subst hki
      rw [hi] at hk
      cases hk
      refine ⟨_, getElem?_set_at hi, ?_⟩
      intro b hb hbx
      have hba : b ≠ a := by
        intro heq
        subst heq
        exact hxa hbx.symm
      exact (Slot.fd_reset_ne _ hba).trans hbx
    · exact ⟨u, getElem?_set_other hk hki, fun _ _ hx => hx⟩
  · intro e he
    have hset : ∀ (k : Nat) (u : Handle φ), s.handles[k]? = some u → ∃ v, (s.handles.set i { h with info := a.reset h.info })[k]? = some v := by
      intro k u hk
      by_cases hki : k = i
      · exact ⟨_, by rw [hki]; exact getElem?_set_at hi⟩
      · exact ⟨u, getElem?_set_other hk hki⟩
    rcases List.mem_append.mp he with he | he
    · obtain ⟨⟨u, hu⟩, hf⟩ := hs.closed e he
      exact ⟨hset _ u hu, hf⟩
    · rw [List.mem_singleton.mp he]
      exact ⟨hset i h hi, (hgood.mine a ha hfd).2⟩

theorem closeStdin (hs : Holds pf s) (hpf : Slot.stdin ∈ slots pf) : Holds pf (s.closeStdin i) := by
  unfold System.closeStdin
  split
  · exact hs
  rename_i h hi
  split
  · exact hs
  · have hset : Holds pf { s with handles := s.handles.set i { h with info := { h.info with stdinClosed := true } } } := by
      refine hs.setHandle hi rfl ?_ (hs.handle i h hi).child
      intro a _
      cases a <;> rfl
    exact hset.closeSlot hpf

theorem closeProcess (hs : Holds pf s) : Holds pf (s.closeProcess pf i) := by
  have hfold : ∀ (as : List Slot) (s : System φ), (∀ a ∈ as, a ∈ slots pf) → Holds pf s →
      Holds pf (as.foldl (fun s a => s.closeSlot i a) s) := by
    intro as
    induction as with
    | nil =>
      intro s _ hs
      exact hs
    | cons a as ih =>
      intro s has hs
      exact ih _ (fun b hb => has b (List.mem_cons_of_mem _ hb)) (hs.closeSlot (has a List.mem_cons_self))
  exact hfold (slots pf) s (fun _ ha => ha) hs

/-- A table in which every handle still has its ends, and nothing new but the program's own. -/
theorem setTable (hs : Holds pf s) {t : Table (Obj φ)}
    (hkeep : ∀ x f, s.table.file x = some f → f.isOwn = false → t.file x = some f)
    (hnew : ∀ x f, t.file x = some f → f.isOwn = true ∨ s.table.file x = some f) : Holds pf { s with table := t } where
  handle i h hi := (hs.handle i h hi).keep fun a ha hfd => by
    have hmine := ((hs.handle i h hi).mine a ha hfd).2
    rw [hmine, hkeep _ _ hmine (Slot.obj_not_own i a)]
  parent x f hx := by
    rcases hnew x f hx with hown | hold
    · exact .inl hown
    · exact hs.parent x f hold
  closed := hs.closed

theorem openOwn (hs : Holds pf s) {fd : Fd} (f : φ) (c : Bool) (hfree : s.table.get fd = none) :
    Holds pf { s with table := s.table.put fd ⟨.own f, c⟩ } := by
  refine hs.setTable ?_ ?_
  · intro x g hx _
    have hne : x ≠ fd := by
      intro heq
      subst heq
      exact get_ne_none hx hfree
    by_cases hr : InRange fd
    · rw [file_put _ hr, if_neg hne, hx]
    · rw [← hx]
      simp [Table.file, Table.put, hr]
  · intro x g hx
    by_cases hr : InRange fd
    · rw [file_put _ hr] at hx
      split at hx
      · cases hx
        exact .inl rfl
      · exact .inr hx
    · exact .inr (by simpa [Table.file, Table.put, hr] using hx)

theorem not_used (hs : Holds pf s) {fd : Fd} (hu : ¬ s.Uses pf fd) {f : Obj φ} (hf : s.table.file fd = some f) :
    f.isOwn = true := by
  rcases hs.parent fd f hf with hown | ⟨i, h, a, hi, ha, hx, -⟩
  · exact hown
  · exact absurd ⟨h, List.mem_of_getElem? hi, a, ha, hx⟩ hu

theorem closeOwn (hs : Holds pf s) {fd : Fd} (hu : ¬ s.Uses pf fd) : Holds pf { s with table := s.table.close fd } := by
  refine hs.setTable ?_ ?_
  · intro x f hx hown
    rw [file_close, if_neg, hx]
    intro heq
    subst heq
    rw [hs.not_used hu hx] at hown
    cases hown
  · intro x f hx
    rw [file_close] at hx
    split at hx
    · cases hx
    · exact .inr hx

theorem starts (hs : Holds pf s) {o : Spawned φ} (hst : Starts pf s.handles.length s.table o) :
    Holds pf { s with table := o.table, handles := s.handles ++ [⟨o.info, o.info, o.child⟩] } := by
  have hold : ∀ (k : Nat) (u : Handle φ), s.handles[k]? = some u → (s.handles ++ [⟨o.info, o.info, o.child⟩])[k]? = some u := by
    intro k u hk
    rw [List.getElem?_append_left (List.getElem?_eq_some_iff.mp hk).1, hk]
  have hlast : (s.handles ++ [⟨o.info, o.info, o.child⟩])[s.handles.length]? = some ⟨o.info, o.info, o.child⟩ := by
    rw [List.getElem?_append_right (Nat.le_refl _), Nat.sub_self]
    rfl
  refine ⟨?_, ?_, ?_⟩
  · intro k u hk
    rw [List.getElem?_append] at hk
    split at hk
    · refine (hs.handle k u hk).keep ?_
      intro a ha hfd
      have hmine := ((hs.handle k u hk).mine a ha hfd).2
      rcases hst.kept _ (get_ne_none hmine) with heq | ⟨-, f, hf⟩
      · exact heq
      · rw [hmine] at hf
        have hown := Slot.obj_not_own (φ := φ) k a
        rw [Option.some.inj hf] at hown
        cases hown
    · rename_i hlen
      obtain ⟨hk0, rfl⟩ : k - s.handles.length = 0 ∧ (⟨o.info, o.info, o.child⟩ : Handle φ) = u := by
        cases hsub : k - s.handles.length with
        | zero => simpa [hsub] using hk
        | succ m => simp [hsub] at hk
      have hke : k = s.handles.length := by omega
      subst hke
      refine ⟨fun a ha hfd => ⟨rfl, (hst.slot a ha hfd).2⟩, ?_, hst.child⟩
      intro a ha
      rw [if_neg (fun hc => hc.1 hc.2), List.count_eq_zero]
      -- the log is about handles that were there before
      intro hmem
      obtain ⟨e, he, heq⟩ := List.mem_map.mp hmem
      obtain ⟨⟨u, hu⟩, -⟩ := hs.closed e he
      rw [heq] at hu
      exact Nat.lt_irrefl _ (List.getElem?_eq_some_iff.mp hu).1
  · intro x f hx
    by_cases hopen : s.table.get x = none
    · have hopen' : o.table.get x ≠ none := get_ne_none hx
      obtain ⟨a, ha, rfl⟩ := hst.gained x hopen hopen'
      have hfile := (hst.slot a ha (ne_invalid hopen')).2
      rw [hx] at hfile
      cases hfile
      exact .inr ⟨_, _, a, hlast, ha, rfl, rfl⟩
    · rcases hst.kept x hopen with heq | ⟨hnone, -⟩
      · rw [heq] at hx
        exact (hs.parent x f hx).mono fun k u hk => ⟨u, hold k u hk, fun _ _ h => h⟩
      · rw [hx] at hnone
        cases hnone
  · intro e he
    obtain ⟨⟨u, hu⟩, hf⟩ := hs.closed e he
    exact ⟨⟨u, hold _ u hu⟩, hf⟩

end Holds

theorem stdin_mem (pf : Platform) : Slot.stdin ∈ slots pf := by
  cases pf <;> simp [slots]

/-! ## Runs -/

variable {κ : Type} {spawn : κ → Nat → Table (Obj φ) → Spawned φ} {J : Table (Obj φ) → Prop}
  {Ready : κ → Table (Obj φ) → Prop}

def StartsReady (Ready : κ → Table (Obj φ) → Prop) (s : System φ) : Event κ φ → Prop
  | .start c => Ready c s.table
  | _ => True

theorem closeSlot_keeps (hsp : Spawns pf spawn J Ready) {a : Slot} (hJ : J s.table) : J (s.closeSlot i a).table := by
  unfold System.closeSlot
  split
  · exact hJ
  · split
    · exact hJ
    · exact hsp.closes _ _ hJ

theorem step_keeps (hsp : Spawns pf spawn J Ready) {e : Event κ φ} {t : System φ} (hJ : J s.table)
    (hr : StartsReady Ready s e) (h : step pf spawn s e = some t) : J t.table := by
  cases e with
  | start c =>
    cases h
    exact hsp.keeps c _ _ hJ hr
  | closeStdin i =>
    cases h
    unfold System.closeStdin
    split
    · exact hJ
    · split
      · exact hJ
      · exact closeSlot_keeps hsp hJ
  | destroy i =>
    cases h
    have hfold : ∀ (as : List Slot) (s : System φ), J s.table → J (as.foldl (fun s a => s.closeSlot i a) s).table := by
      intro as
      induction as with
      | nil =>
        intro s hJ
        exact hJ
      | cons a as ih =>
        intro s hJ
        exact ih _ (closeSlot_keeps hsp hJ)
    exact hfold _ s hJ
  | openOwn fd f c =>
    obtain ⟨-, h⟩ := Option.ite_none_right_eq_some.mp h
    cases h
    exact hsp.opens _ _ _ _ hJ
  | closeOwn fd =>
    obtain ⟨-, h⟩ := Option.ite_none_left_eq_some.mp h
    cases h
    exact hsp.closes _ _ hJ
  | childOpen | childDup2 | childClose | childExit =>
    cases h
    unfold System.onChild
    split <;> exact hJ

theorem step_holds (hsp : Spawns pf spawn J Ready) {e : Event κ φ} {t : System φ} (hs : Holds pf s) (hJ : J s.table)
    (hr : StartsReady Ready s e) (h : step pf spawn s e = some t) : Holds pf t := by
  cases e with
  | start c =>
    cases h
    exact hs.starts (hsp.starts c _ _ hJ hr)
  | closeStdin i =>
    cases h
    exact hs.closeStdin (stdin_mem pf)
  | destroy i =>
    cases h
    exact hs.closeProcess
  | openOwn fd f c =>
    obtain ⟨hfree, h⟩ := Option.ite_none_right_eq_some.mp h
    cases h
    exact hs.openOwn f c (Option.isNone_iff_eq_none.mp hfree)
  | closeOwn fd =>
    obtain ⟨hu, h⟩ := Option.ite_none_left_eq_some.mp h
    cases h
    exact hs.closeOwn hu
  | childOpen i fd f =>
    cases h
    exact hs.onChild fun c hc => hc.put trivial
  | childDup2 i src dst =>
    cases h
    exact hs.onChild fun c hc => hc.dup2 src dst
  | childClose i fd =>
    cases h
    exact hs.onChild fun c hc => hc.close fd
  | childExit i =>
    cases h
    exact hs.onChild fun c _ => confined_empty _

/-- The start of the system: a program with files of its own, and no handle yet. -/
def System.init (t : Table φ) : System φ := { table := t.map .own }

theorem holds_init (pf : Platform) (t : Table φ) : Holds pf (System.init t) where
  handle i h hi := by cases hi
  parent x f hx := by
    rw [System.init, file_map] at hx
    obtain ⟨g, -, rfl⟩ := Option.map_eq_some_iff.mp hx
    exact .inl rfl
  closed e he := by cases he

theorem holders_run (hsp : Spawns pf spawn J Ready) {t : Table φ} (hJ : J (System.init t).table) {es : List (Event κ φ)}
    (hm : Runs.Meets (step pf spawn) (StartsReady Ready) (System.init t) es)
    (h : Runs.exec (step pf spawn) (System.init t) es = some s) : Holds pf s ∧ J s.table :=
  Runs.exec_meets (I := fun s => Holds pf s ∧ J s.table)
    (fun _ _ _ hs hr h => ⟨step_holds hsp hs.1 hs.2 hr h, step_keeps hsp hs.2 hr h⟩) ⟨holds_init pf t, hJ⟩ hm h

/-! ## The two ends of a pipe -/

def System.Held (s : System φ) (f : Obj φ) : Prop := s.table.Holds f ∨ ∃ h ∈ s.handles, h.child.Holds f

/-- The program's end of a stream's pipe is held by the handle alone: once its slot is
    closed nobody has it. -/
theorem Holds.parent_end (hs : Holds pf s) (hi : s.handles[i]? = some h) {a : Slot} (hfd : a.fd h.info = FD_INVALID) :
    ¬ s.Held (a.obj i) := by
  intro hcase
  rcases hcase with ⟨x, hx⟩ | ⟨u, hu, hx⟩
  · rcases hs.parent x _ hx with hown | ⟨k, u, b, hk, -, hbx, hobj⟩
    · rw [Slot.obj_not_own] at hown
      cases hown
    · obtain ⟨rfl, rfl⟩ := Slot.obj_inj hobj
      rw [hi] at hk
      cases hk
      rw [hfd] at hbx
      have hopen : s.table.get x ≠ none := get_ne_none hx
      exact ne_invalid hopen hbx.symm
  · obtain ⟨k, hk⟩ := List.mem_iff_getElem?.mp hu
    exact (hs.handle k u hk).child.not_holds (Slot.not_forChild i k a) hx

/-- The child's end of a stream's pipe is held by that child alone. -/
theorem Holds.child_end (hs : Holds pf s) (hi : s.handles[i]? = some h) {p : PipeName} {e : PipeEnd}
    (he : childEnd p = some e) (hc : ¬ h.child.Holds (.pipe i p e)) : ¬ s.Held (.pipe i p e) := by
  intro hcase
  rcases hcase with ⟨x, hx⟩ | ⟨u, hu, hx⟩
  · rcases hs.parent x _ hx with hown | ⟨k, u, a, -, -, -, hobj⟩
    · cases hown
    · refine Slot.not_forChild (φ := φ) k k a ?_
      rw [← hobj]
      obtain rfl : i = k := by cases a <;> simp_all [Slot.obj]
      exact ⟨rfl, he⟩
  · obtain ⟨k, hk⟩ := List.mem_iff_getElem?.mp hu
    obtain ⟨y, hy⟩ := hx
    obtain ⟨rfl, -⟩ := (hs.handle k u hk).child y _ hy
    rw [hi] at hk
    cases hk
    exact hc ⟨y, hy⟩

end Proofs

end CovProcess.Holders
