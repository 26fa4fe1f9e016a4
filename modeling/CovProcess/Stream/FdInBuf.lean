/-
  CovProcess.Stream.FdInBuf — `fdinbuf` (`include/mozart++/mpp_foundation/fdstream.hpp`)
  on a captured pipe of a running child, and the reader of `read_work_cb`
  (`include/mozart++/mpp_system/process.hpp`).

  The buffer is the array with its three pointers as offsets; their order is carried by
  the structure. What `read(2)` will give is data: chunks of at least one and at most the
  requested number of bytes, interruptions (`EINTR`), and end of file when the list is
  used up. `get` and `peek` are `sbumpc` and `sgetc`, to which every extraction through
  `out()` comes down; the `istream`'s own error bits only keep it from asking.

  Proved: no operation loses or repeats a byte (`get_conserves`, `peek_conserves`), and
  the reader returns what is buffered and what comes before the first interruption
  (`copyAll_eq`), which is everything exactly when no data follows one
  (`untilInterrupt_eq_iff`).
-/

import Mathlib.Data.List.Basic

namespace CovProcess.Stream

def PUTBACK_SIZE : Nat := 4

def BUFFER_SIZE : Nat := 1024

/-! ## What the pipe gives -/

structure Chunk where
  bytes : List UInt8
  pos : 0 < bytes.length
  le : bytes.length ≤ BUFFER_SIZE

inductive ReadOutcome where
  | chunk (c : Chunk)
  | eintr

def ReadOutcome.bytes : ReadOutcome → List UInt8
  | .chunk c => c.bytes
  | .eintr => []

def allBytes (l : List ReadOutcome) : List UInt8 := l.flatMap ReadOutcome.bytes

/-- The bytes before the first interruption. -/
def untilInterrupt : List ReadOutcome → List UInt8
  | [] => []
  | .eintr :: _ => []
  | .chunk c :: rest => c.bytes ++ untilInterrupt rest

/-- No data comes after an interruption. -/
def DataFirst (l : List ReadOutcome) : Prop := l.Pairwise fun a b => a = .eintr → b = .eintr

theorem allBytes_eq_nil {l : List ReadOutcome} : allBytes l = [] ↔ ∀ o ∈ l, o = .eintr := by
  rw [allBytes, List.flatMap_eq_nil_iff]
  refine forall₂_congr ?_
  intro o _
  cases o with
  | eintr => simp [ReadOutcome.bytes]
  | chunk c =>
    have hne : c.bytes ≠ [] := List.ne_nil_of_length_pos c.pos
    simp [ReadOutcome.bytes, hne]

theorem untilInterrupt_eq_iff (l : List ReadOutcome) : untilInterrupt l = allBytes l ↔ DataFirst l := by
  induction l with
  | nil => simp [untilInterrupt, allBytes, DataFirst]
  | cons o l ih =>
    cases o with
    | eintr =>
      have hnil : allBytes (.eintr :: l) = allBytes l := rfl
      have hall : DataFirst (.eintr :: l) ↔ ∀ o ∈ l, o = .eintr := by
        simp only [DataFirst, List.pairwise_cons, true_implies, and_iff_left_iff_imp]
        exact fun h => List.pairwise_of_forall_mem_list fun a _ b hb _ => h b hb
      rw [hall, ← allBytes_eq_nil, hnil, untilInterrupt]
      exact eq_comm
    | chunk c =>
      have hcons : allBytes (.chunk c :: l) = c.bytes ++ allBytes l := rfl
      rw [untilInterrupt, hcons, List.append_cancel_left_eq, ih]
      simp [DataFirst]

/-! ## The buffer -/

structure FdInBuf where
  buffer : Nat → UInt8 := fun _ => 0
  eback : Nat := PUTBACK_SIZE
  gptr : Nat := PUTBACK_SIZE
  egptr : Nat := PUTBACK_SIZE
  eback_le : eback ≤ gptr := by decide
  gptr_le : gptr ≤ egptr := by decide
  egptr_le : egptr ≤ BUFFER_SIZE + PUTBACK_SIZE := by decide

def memmove (m : Nat → UInt8) (dst src n : Nat) : Nat → UInt8 :=
  fun i => if dst ≤ i ∧ i < dst + n then m (src + (i - dst)) else m i

/-- What `read` writes. -/
def store (m : Nat → UInt8) (dst : Nat) (bs : List UInt8) : Nat → UInt8 :=
  fun i => if dst ≤ i ∧ i < dst + bs.length then bs.getD (i - dst) 0 else m i

def FdInBuf.unread (b : FdInBuf) : List UInt8 := (List.range' b.gptr (b.egptr - b.gptr)).map b.buffer

/-- `gbump(n)`; it is called with no more than the unread bytes. -/
def FdInBuf.gbump (b : FdInBuf) (n : Nat) : FdInBuf :=
  { b with
    gptr := min (b.gptr + n) b.egptr
    eback_le := by have := b.eback_le; have := b.gptr_le; omega
    gptr_le := Nat.min_le_right _ _ }

/-- The last `backSize` bytes extracted, moved in front of where new ones go. -/
def FdInBuf.saveBack (b : FdInBuf) (backSize : Nat) : FdInBuf :=
  { b with buffer := memmove b.buffer (PUTBACK_SIZE - backSize) (b.gptr - backSize) backSize }

def FdInBuf.refill (b : FdInBuf) (backSize : Nat) (c : Chunk) : FdInBuf where
  buffer := store b.buffer PUTBACK_SIZE c.bytes
  eback := PUTBACK_SIZE - backSize
  gptr := PUTBACK_SIZE
  egptr := PUTBACK_SIZE + c.bytes.length
  eback_le := Nat.sub_le _ _
  gptr_le := Nat.le_add_right _ _
  egptr_le := by rw [Nat.add_comm]; exact Nat.add_le_add_right c.le _

/-- A stream on a pipe: its buffer, and what the reads still to come will give. -/
structure FdIStream where
  buf : FdInBuf := {}
  pending : List ReadOutcome

def underflow (s : FdIStream) : Option UInt8 × FdIStream :=
  if s.buf.gptr < s.buf.egptr then (some (s.buf.buffer s.buf.gptr), s)
  else
    let backSize := min (s.buf.gptr - s.buf.eback) PUTBACK_SIZE
    let buf := s.buf.saveBack backSize
    match s.pending with
    | [] => (none, ⟨buf, []⟩)
    | .eintr :: rest => (none, ⟨buf, rest⟩)
    | .chunk c :: rest => (some ((buf.refill backSize c).buffer PUTBACK_SIZE), ⟨buf.refill backSize c, rest⟩)

/-- `sgetc`. -/
def peek (s : FdIStream) : Option UInt8 × FdIStream := underflow s

/-- `sbumpc`: an empty buffer is refilled by `uflow`, which is `underflow` and a bump. -/
def get (s : FdIStream) : Option UInt8 × FdIStream :=
  match underflow s with
  | (none, s) => (none, s)
  | (some c, s) => (some c, { s with buf := s.buf.gbump 1 })

/-- All bytes still to be extracted. -/
def FdIStream.rest (s : FdIStream) : List UInt8 := s.buf.unread ++ allBytes s.pending

/-! ## Nothing is lost or repeated -/

theorem unread_eq_cons {b : FdInBuf} (h : b.gptr < b.egptr) :
    b.unread = b.buffer b.gptr :: (b.gbump 1).unread := by
  have hlen : b.egptr - b.gptr = (b.egptr - (b.gptr + 1)) + 1 := by omega
  have hmin : min (b.gptr + 1) b.egptr = b.gptr + 1 := by omega
  rw [FdInBuf.unread, hlen, List.range'_succ, List.map_cons]
  simp only [FdInBuf.unread, FdInBuf.gbump, hmin]

theorem unread_eq_nil {b : FdInBuf} : b.unread = [] ↔ b.egptr ≤ b.gptr := by
  rw [FdInBuf.unread, List.map_eq_nil_iff, List.range'_eq_nil_iff]
  omega

theorem unread_gbump_all (b : FdInBuf) : (b.gbump (b.egptr - b.gptr)).unread = [] := by
  rw [unread_eq_nil]
  simp only [FdInBuf.gbump]
  omega

theorem unread_refill (b : FdInBuf) (n : Nat) (c : Chunk) : (b.refill n c).unread = c.bytes := by
  apply List.ext_getElem
  · simp [FdInBuf.unread, FdInBuf.refill]
  · intro i h₁ h₂
    simp [FdInBuf.unread, FdInBuf.refill, store, h₂]

/-- What one `underflow` does: nothing while there are unread bytes, and otherwise one
    read, whose chunk becomes the unread bytes. -/
theorem underflow_cases (s : FdIStream) :
    (s.buf.gptr < s.buf.egptr ∧ underflow s = (s.buf.unread.head?, s)) ∨
    (s.buf.unread = [] ∧ ∃ b : FdInBuf, b.unread = [] ∧ (s.pending = [] ∨ s.pending.head? = some .eintr) ∧
      underflow s = (none, ⟨b, s.pending.tail⟩)) ∨
    (s.buf.unread = [] ∧ ∃ c rest, s.pending = .chunk c :: rest ∧ ∃ b : FdInBuf, b.unread = c.bytes ∧
      underflow s = (c.bytes.head?, ⟨b, rest⟩)) := by
  unfold underflow
  by_cases hlt : s.buf.gptr < s.buf.egptr
  · rw [if_pos hlt, unread_eq_cons hlt]
    exact Or.inl ⟨hlt, rfl⟩
  · have hnil : s.buf.unread = [] := unread_eq_nil.mpr (Nat.le_of_not_lt hlt)
    have hsaved : ∀ n, (s.buf.saveBack n).unread = [] := fun _ => unread_eq_nil.mpr (Nat.le_of_not_lt hlt)
    rw [if_neg hlt]
    refine Or.inr ?_
    match hp : s.pending with
    | [] => exact Or.inl ⟨hnil, _, hsaved _, Or.inl rfl, rfl⟩
    | .eintr :: rest => exact Or.inl ⟨hnil, _, hsaved _, Or.inr rfl, rfl⟩
    | .chunk c :: rest =>
      have hpos := c.pos
      refine Or.inr ⟨hnil, c, rest, rfl, (s.buf.saveBack (min (s.buf.gptr - s.buf.eback) PUTBACK_SIZE)).refill
        (min (s.buf.gptr - s.buf.eback) PUTBACK_SIZE) c, unread_refill _ _ c, ?_⟩
      rw [List.head?_eq_getElem?, List.getElem?_eq_getElem hpos]
      simp [FdInBuf.refill, store, hpos]

theorem underflow_rest (s : FdIStream) : (underflow s).2.rest = s.rest := by
  rcases underflow_cases s with ⟨-, h⟩ | ⟨hnil, b, hb, hp, h⟩ | ⟨hnil, c, rest, hp, b, hb, h⟩
  · rw [h]
  · have htail : allBytes s.pending.tail = allBytes s.pending := by
      match hl : s.pending, hp with
      | [], _ => rfl
      | .eintr :: rest, _ => rfl
    rw [h, FdIStream.rest, FdIStream.rest, hnil, hb, htail]
  · rw [h, FdIStream.rest, FdIStream.rest, hnil, hb, hp]
    rfl

theorem underflow_head (s : FdIStream) : (underflow s).1 = (underflow s).2.buf.unread.head? := by
  rcases underflow_cases s with ⟨-, h⟩ | ⟨-, b, hb, -, h⟩ | ⟨-, c, rest, -, b, hb, h⟩
  · rw [h]
  · rw [h, hb]
    rfl
  · rw [h, hb]

theorem peek_conserves (s : FdIStream) : (peek s).2.rest = s.rest := underflow_rest s

theorem get_conserves (s : FdIStream) : (get s).1.toList ++ (get s).2.rest = s.rest := by
  rw [← underflow_rest s]
  have hhead := underflow_head s
  unfold get
  generalize underflow s = r at hhead
  obtain ⟨_ | c, s'⟩ := r
  · rfl
  · have hlt : s'.buf.gptr < s'.buf.egptr := by
      by_contra hle
      rw [unread_eq_nil.mpr (Nat.le_of_not_lt hle)] at hhead
      cases hhead
    simp only [unread_eq_cons hlt, List.head?_cons, Option.some.injEq] at hhead
    simp [FdIStream.rest, unread_eq_cons hlt, hhead]

/-! ## The reader -/

/-- `gbump` over all unread bytes. -/
def FdIStream.skip (s : FdIStream) : FdIStream := { s with buf := s.buf.gbump (s.buf.egptr - s.buf.gptr) }

/-- The reads to come, and the copy of what is buffered. -/
def FdIStream.work (s : FdIStream) : Nat := s.pending.length + if s.buf.gptr < s.buf.egptr then 1 else 0

theorem work_skip (s : FdIStream) : s.skip.work = s.pending.length := by
  have hnil : ¬ s.skip.buf.gptr < s.skip.buf.egptr :=
    Nat.not_lt.mpr (unread_eq_nil.mp (unread_gbump_all s.buf))
  rw [FdIStream.work, if_neg hnil]
  rfl

theorem work_decreases {s s' : FdIStream} {c : UInt8} (h : underflow s = (some c, s')) :
    s'.skip.work < s.work := by
  rw [work_skip, FdIStream.work]
  rcases underflow_cases s with ⟨hlt, h'⟩ | ⟨-, b, -, -, h'⟩ | ⟨-, c, rest, hp, b, -, h'⟩
  · rw [h', Prod.mk.injEq] at h
    rw [if_pos hlt, ← h.2]
    exact Nat.lt_succ_self _
  · rw [h', Prod.mk.injEq] at h
    cases h.1
  · rw [h', Prod.mk.injEq] at h
    rw [← h.2, hp, List.length_cons]
    exact Nat.lt_add_right _ (Nat.lt_succ_self _)

/-- `ss << rdbuf()`: copy what is buffered and read on, until a read gives nothing. -/
def copyAll (s : FdIStream) : List UInt8 × FdIStream :=
  match _h : underflow s with
  | (none, s') => ([], s')
  | (some _, s') =>
    let r := copyAll s'.skip
    (s'.buf.unread ++ r.1, r.2)
termination_by s.work
decreasing_by exact work_decreases _h

theorem copyAll_none {s s' : FdIStream} (h : underflow s = (none, s')) : copyAll s = ([], s') := by
  rw [copyAll]
  split
  · rename_i h'
    rw [h] at h'
    cases h'
    rfl
  · rename_i h'
    rw [h] at h'
    cases h'

theorem copyAll_some {s s' : FdIStream} {c : UInt8} (h : underflow s = (some c, s')) :
    copyAll s = (s'.buf.unread ++ (copyAll s'.skip).1, (copyAll s'.skip).2) := by
  rw [copyAll]
  split
  · rename_i h'
    rw [h] at h'
    cases h'
  · rename_i h'
    rw [h] at h'
    cases h'
    rfl

/-- The reader gets what is buffered and what comes before the first interruption. -/
theorem copyAll_eq (s : FdIStream) : (copyAll s).1 = s.buf.unread ++ untilInterrupt s.pending := by
  induction s using copyAll.induct with
  | case1 s s' h =>
    rw [copyAll_none h]
    rcases underflow_cases s with ⟨hlt, h'⟩ | ⟨hnil, b, -, hp, -⟩ | ⟨-, c, rest, -, b, -, h'⟩
    · rw [h, unread_eq_cons hlt] at h'
      cases h'
    · rw [hnil]
      match hl : s.pending, hp with
      | [], _ => rfl
      | .eintr :: _, _ => rfl
    · rw [h, Prod.mk.injEq] at h'
      exact absurd (List.head?_eq_none_iff.mp h'.1.symm) (List.ne_nil_of_length_pos c.pos)
  | case2 s c s' h ih =>
    have hskip : s'.skip.buf.unread = [] := unread_gbump_all s'.buf
    rw [copyAll_some h, ih, hskip, List.nil_append]
    rcases underflow_cases s with ⟨-, h'⟩ | ⟨-, b, -, -, h'⟩ | ⟨hnil, c, rest, hp, b, hb, h'⟩
    · rw [h, Prod.mk.injEq] at h'
      rw [h'.2]
      rfl
    · rw [h] at h'
      cases h'
    · rw [h, Prod.mk.injEq] at h'
      rw [h'.2, hnil, hp, hb]
      rfl

end CovProcess.Stream
