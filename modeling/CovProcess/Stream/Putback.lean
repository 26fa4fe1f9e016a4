/-
  CovProcess.Stream.Putback — what `fdinbuf` delivers while its reader also steps back
  (`sungetc`), and what a refill that fails does to it (see `CovProcess.Stream.FdInBuf`).

  A `Cursor` is a stream with what happened on it: the chunks read, the reader's position
  in all that they hold, and the bytes delivered, each with the position it was delivered
  for. While the buffer is `Faithful` the byte at index `i` is the one `i - 4` after the
  start of the last chunk, the putback area included.

  Proved: `window_delivers`, with no read failing every byte delivered is the input's at its
  position, and after a refill the last four can be put back; `failed_refill_iff`, for any
  reads, the ones that fail leave the get area as it was, and what is put back right, exactly
  when each finds in front of the last chunk what the last chunk ends with: `underflow`
  moves the putback bytes before it knows what the read gives (`put_back_wrong`).
-/

import CovProcess.Lib.Runs
import CovProcess.Stream.Communicate

namespace CovProcess.Stream

/-! ## Stepping back -/

/-- `gbump(-1)`; it is called with a byte in front. -/
def FdInBuf.stepBack (b : FdInBuf) : FdInBuf :=
  { b with
    gptr := max (b.gptr - 1) b.eback
    eback_le := Nat.le_max_right _ _
    gptr_le := by have := b.eback_le; have := b.gptr_le; omega }

/-- `sungetc`; `pbackfail` refuses. -/
def unget (s : FdIStream) : Option UInt8 × FdIStream :=
  if s.buf.eback < s.buf.gptr then (some (s.buf.buffer (s.buf.gptr - 1)), { s with buf := s.buf.stepBack })
  else (none, s)

inductive BufOp where
  | get
  | peek
  | unget
  deriving DecidableEq, Repr

def BufOp.run (s : FdIStream) : BufOp → Option UInt8 × FdIStream
  | .get => Stream.get s
  | .peek => Stream.peek s
  | .unget => Stream.unget s

/-- The operation calls `underflow` when the get area is used up. -/
def BufOp.asks : BufOp → Bool
  | .get => true
  | .peek => true
  | .unget => false

/-- The chunk that `underflow` reads. -/
def FdIStream.filled (s : FdIStream) : List Chunk :=
  if s.buf.gptr < s.buf.egptr then []
  else
    match s.pending with
    | .chunk c :: _ => [c]
    | _ => []

/-- What `n` calls of `sungetc` deliver. -/
def putBack : Nat → FdIStream → List (Option UInt8)
  | 0, _ => []
  | n + 1, s => (unget s).1 :: putBack n (unget s).2

/-! ## The reader's side -/

structure Cursor where
  stream : FdIStream
  /-- In the order of the reads. -/
  read : List Chunk := []
  pos : Nat := 0
  /-- Newest first. -/
  log : List (Nat × UInt8) := []

/-- The `n` bytes in front of a position, the nearest first. -/
def lastBytes (input : List UInt8) (pos n : Nat) : List UInt8 := (input.take pos).reverse.take n

namespace Cursor

def input (c : Cursor) : List UInt8 := c.read.flatMap Chunk.bytes

/-- How many bytes were read before the last chunk. -/
def before (c : Cursor) : Nat := (c.read.dropLast.flatMap Chunk.bytes).length

def lastLength (c : Cursor) : Nat := (c.read.getLast?.map fun k => k.bytes.length).getD 0

/-- The logical position of what an operation delivers, and the one it leaves. -/
def moved (c : Cursor) : BufOp → Nat × Nat
  | .get => (c.pos, c.pos + 1)
  | .peek => (c.pos, c.pos)
  | .unget => (c.pos - 1, c.pos - 1)

def step (c : Cursor) (op : BufOp) : Option Cursor :=
  let r := op.run c.stream
  let read := if op.asks then c.read ++ c.stream.filled else c.read
  match r.1 with
  | some b => some ⟨r.2, read, (c.moved op).2, ((c.moved op).1, b) :: c.log⟩
  | none => some ⟨r.2, read, c.pos, c.log⟩

abbrev run (c : Cursor) (ops : List BufOp) : Option Cursor := Runs.exec step c ops

/-- `out()` of a process just started, whose reads will give `outcomes`. -/
def start (outcomes : List ReadOutcome) : Cursor := { stream := (started {} fun _ => outcomes).stream .stdout }

/-- The operation makes a read that gives nothing: the end of the file, or an error. -/
def Fails (c : Cursor) (op : BufOp) : Prop :=
  op.asks = true ∧ c.stream.buf.egptr ≤ c.stream.buf.gptr ∧ c.stream.filled = []

/-- The get area has its bounds and bytes. -/
structure SameArea (b b' : FdInBuf) : Prop where
  eback : b'.eback = b.eback
  gptr : b'.gptr = b.gptr
  egptr : b'.egptr = b.egptr
  bytes : ∀ i, b.eback ≤ i → i < b.egptr → b'.buffer i = b.buffer i

/-- A read that fails leaves the get area as it was, and what is put back afterwards is
    what was read there. -/
def KeepsWindow (c : Cursor) (op : BufOp) : Prop :=
  c.Fails op → SameArea c.stream.buf (op.run c.stream).2.buf ∧
    ∀ n, n ≤ c.stream.buf.gptr - c.stream.buf.eback → putBack n (op.run c.stream).2 = (lastBytes c.input c.pos n).map some

/-- The bytes in front of the last chunk, up to four, are those that the last chunk ends
    with. -/
def Repeats (c : Cursor) : Prop :=
  ∀ k, k < min PUTBACK_SIZE c.before → c.input[c.before + c.lastLength - 1 - k]? = c.input[c.before - 1 - k]?

/-! ## The invariant -/

structure Faithful (c : Cursor) : Prop where
  pos : c.pos + PUTBACK_SIZE = c.before + c.stream.buf.gptr
  eback : c.stream.buf.eback = PUTBACK_SIZE - min PUTBACK_SIZE c.before
  egptr : c.stream.buf.egptr = PUTBACK_SIZE + c.lastLength
  byte : ∀ i, c.stream.buf.eback ≤ i → i < c.stream.buf.egptr →
    c.input[c.before + i - PUTBACK_SIZE]? = some (c.stream.buf.buffer i)

theorem length_input (c : Cursor) : c.input.length = c.before + c.lastLength := by
  unfold input before lastLength
  rcases List.eq_nil_or_concat c.read with h | ⟨cs, k, h⟩
  · rw [h]
    rfl
  · rw [h]
    simp

theorem faithful_start (outcomes : List ReadOutcome) : (start outcomes).Faithful where
  pos := rfl
  eback := rfl
  egptr := rfl
  byte _ hlow hhigh := absurd hhigh (Nat.not_lt.mpr hlow)

/-! ## A refill -/

/-- What one `underflow` leaves. -/
def fill (c : Cursor) : Cursor := { c with stream := (underflow c.stream).2, read := c.read ++ c.stream.filled }

end Cursor

def FdInBuf.backSize (b : FdInBuf) : Nat := min (b.gptr - b.eback) PUTBACK_SIZE

theorem underflow_has {s : FdIStream} (h : s.buf.gptr < s.buf.egptr) :
    underflow s = (some (s.buf.buffer s.buf.gptr), s) ∧ s.filled = [] :=
  ⟨if_pos h, if_pos h⟩

theorem underflow_fails {s : FdIStream} (h : s.buf.egptr ≤ s.buf.gptr) (hf : s.filled = []) :
    underflow s = (none, ⟨s.buf.saveBack s.buf.backSize, s.pending.tail⟩) := by
  have hnot : ¬ s.buf.gptr < s.buf.egptr := Nat.not_lt.mpr h
  unfold FdIStream.filled at hf
  unfold underflow
  rw [if_neg hnot] at hf ⊢
  split at hf
  · cases hf
  · rename_i hne
    match hp : s.pending with
    | [] => rfl
    | .eintr :: rest => rfl
    | .chunk k :: rest => exact absurd hp (hne k rest)

theorem filled_cons {s : FdIStream} (hf : s.filled ≠ []) :
    ∃ k rest, s.buf.egptr ≤ s.buf.gptr ∧ s.filled = [k] ∧ s.pending = .chunk k :: rest ∧
      (underflow s).2 = ⟨(s.buf.saveBack s.buf.backSize).refill s.buf.backSize k, rest⟩ := by
  unfold FdIStream.filled at hf ⊢
  split at hf
  · exact absurd rfl hf
  · rename_i hnot
    split at hf
    · rename_i k rest hp
      refine ⟨k, rest, Nat.not_lt.mp hnot, ?_, hp, ?_⟩
      · exact if_neg hnot
      · unfold underflow
        rw [if_neg hnot, hp]
        rfl
    · exact absurd rfl hf

/-- What `underflow` delivers is the byte at the read position. -/
theorem underflow_some {s t : FdIStream} {b : UInt8} (h : underflow s = (some b, t)) :
    t.buf.gptr < t.buf.egptr ∧ t.buf.buffer t.buf.gptr = b := by
  have hhead := underflow_head s
  rw [h] at hhead
  have hlt : t.buf.gptr < t.buf.egptr := by
    by_contra hle
    rw [unread_eq_nil.mpr (Nat.not_lt.mp hle)] at hhead
    cases hhead
  rw [unread_eq_cons hlt] at hhead
  exact ⟨hlt, (Option.some.inj hhead).symm⟩

namespace Cursor

variable {c : Cursor}

/-- At the end of the get area all that was read is consumed, and the last four bytes of it
    are in the buffer. -/
theorem Faithful.consumed (h : c.Faithful) (hend : c.stream.buf.egptr ≤ c.stream.buf.gptr) :
    c.stream.buf.gptr = PUTBACK_SIZE + c.lastLength ∧ c.pos = c.before + c.lastLength ∧
      c.stream.buf.backSize = min PUTBACK_SIZE (c.before + c.lastLength) := by
  have hgptr : c.stream.buf.gptr = PUTBACK_SIZE + c.lastLength :=
    (Nat.le_antisymm c.stream.buf.gptr_le hend).trans h.egptr
  have hpos := h.pos
  have heback := h.eback
  refine ⟨hgptr, by omega, ?_⟩
  unfold FdInBuf.backSize
  omega

/-- A byte that `saveBack` moved is the one that ends as far from the end of the input. -/
theorem Faithful.saved (h : c.Faithful) (hend : c.stream.buf.egptr ≤ c.stream.buf.gptr) {i : Nat}
    (hlow : PUTBACK_SIZE - c.stream.buf.backSize ≤ i) (hhigh : i < PUTBACK_SIZE) :
    c.input[c.before + c.lastLength + i - PUTBACK_SIZE]? = some ((c.stream.buf.saveBack c.stream.buf.backSize).buffer i) := by
  obtain ⟨hgptr, -, hback⟩ := h.consumed hend
  have heback := h.eback
  have hegptr := h.egptr
  have hsize : c.stream.buf.backSize ≤ PUTBACK_SIZE := by
    rw [hback]
    exact Nat.min_le_left _ _
  have hmove : (c.stream.buf.saveBack c.stream.buf.backSize).buffer i = c.stream.buf.buffer (c.lastLength + i) := by
    show memmove _ _ _ _ i = _
    rw [memmove, if_pos ⟨hlow, by omega⟩]
    congr 1
    omega
  rw [hmove, ← h.byte (c.lastLength + i) (by omega) (by omega)]
  congr 1
  omega

theorem Faithful.fill (h : c.Faithful) (hread : c.stream.buf.egptr ≤ c.stream.buf.gptr → c.stream.filled ≠ []) :
    c.fill.Faithful := by
  by_cases hlt : c.stream.buf.gptr < c.stream.buf.egptr
  · obtain ⟨hu, hf⟩ := underflow_has hlt
    have hsame : c.fill = c := by
      unfold Cursor.fill
      rw [hu, hf, List.append_nil]
    rw [hsame]
    exact h
  · obtain ⟨k, rest, hend, hf, -, hu⟩ := filled_cons (hread (Nat.not_lt.mp hlt))
    obtain ⟨hgptr, hpos, hback⟩ := h.consumed hend
    have hbefore : c.fill.before = c.before + c.lastLength := by
      rw [← length_input]
      unfold before Cursor.fill
      simp only [hf, List.dropLast_concat]
      rfl
    have hlast : c.fill.lastLength = k.bytes.length := by
      unfold lastLength Cursor.fill
      simp only [hf, List.getLast?_concat]
      rfl
    have hinput : c.fill.input = c.input ++ k.bytes := by
      unfold input Cursor.fill
      simp only [hf, List.flatMap_append, List.flatMap_singleton]
    have hbuf : c.fill.stream.buf = (c.stream.buf.saveBack c.stream.buf.backSize).refill c.stream.buf.backSize k := by
      unfold Cursor.fill
      rw [hu]
    refine ⟨?_, ?_, ?_, ?_⟩
    · rw [hbefore, hbuf]
      show c.pos + _ = _
      rw [hpos]
      rfl
    · rw [hbefore, hbuf, ← hback]
      rfl
    · rw [hlast, hbuf]
      rfl
    · rw [hbefore, hbuf, hinput]
      intro i hlow hhigh
      have hlow : PUTBACK_SIZE - c.stream.buf.backSize ≤ i := hlow
      have hhigh : i < PUTBACK_SIZE + k.bytes.length := hhigh
      have hlen := c.length_input
      show _ = some (store _ _ _ i)
      unfold store
      by_cases hnew : PUTBACK_SIZE ≤ i
      · rw [if_pos ⟨hnew, hhigh⟩, List.getElem?_append_right (by omega), List.getD_eq_getElem?_getD,
          List.getElem?_eq_getElem (by omega), List.getElem?_eq_getElem (by omega)]
        simp only [Option.getD_some, Option.some_inj]
        congr 1
        omega
      · rw [if_neg fun hin => hnew hin.1, List.getElem?_append_left (by omega)]
        exact h.saved hend hlow (by omega)

/-! ## The operations -/

theorem Faithful.bump (h : c.Faithful) (hlt : c.stream.buf.gptr < c.stream.buf.egptr) (log : List (Nat × UInt8)) :
    Faithful ⟨{ c.stream with buf := c.stream.buf.gbump 1 }, c.read, c.pos + 1, log⟩ := by
  refine ⟨?_, h.eback, h.egptr, h.byte⟩
  have hpos := h.pos
  show c.pos + 1 + PUTBACK_SIZE = c.before + min (c.stream.buf.gptr + 1) c.stream.buf.egptr
  omega

theorem Faithful.stepBack (h : c.Faithful) (hlt : c.stream.buf.eback < c.stream.buf.gptr) (log : List (Nat × UInt8)) :
    0 < c.pos ∧ Faithful ⟨{ c.stream with buf := c.stream.buf.stepBack }, c.read, c.pos - 1, log⟩ := by
  have hpos := h.pos
  have heback := h.eback
  have hgptr : max (c.stream.buf.gptr - 1) c.stream.buf.eback = c.stream.buf.gptr - 1 := by omega
  refine ⟨by omega, ?_, h.eback, h.egptr, h.byte⟩
  show c.pos - 1 + PUTBACK_SIZE = c.before + max (c.stream.buf.gptr - 1) c.stream.buf.eback
  omega

theorem Faithful.at_gptr (h : c.Faithful) (hlt : c.stream.buf.gptr < c.stream.buf.egptr) :
    c.input[c.pos]? = some (c.stream.buf.buffer c.stream.buf.gptr) := by
  rw [← h.byte _ c.stream.buf.eback_le hlt]
  have hpos := h.pos
  congr 1
  omega

theorem Faithful.at_unget (h : c.Faithful) (hlt : c.stream.buf.eback < c.stream.buf.gptr) :
    c.input[c.pos - 1]? = some (c.stream.buf.buffer (c.stream.buf.gptr - 1)) := by
  have hle := c.stream.buf.gptr_le
  have hpos := h.pos
  rw [← h.byte (c.stream.buf.gptr - 1) (by omega) (by omega)]
  congr 1
  omega

theorem lastBytes_succ {input : List UInt8} {pos : Nat} {b : UInt8} (h : input[pos]? = some b) (n : Nat) :
    lastBytes input (pos + 1) (n + 1) = b :: lastBytes input pos n := by
  have htake : input.take (pos + 1) = input.take pos ++ [b] := by
    rw [List.take_add_one, h, Option.toList_some]
  rw [lastBytes, htake, List.reverse_append]
  rfl

/-- All of the get area in front of the read position can be put back. -/
theorem Faithful.putBack (h : c.Faithful) {n : Nat} (hn : n ≤ c.stream.buf.gptr - c.stream.buf.eback) :
    putBack n c.stream = (lastBytes c.input c.pos n).map some := by
  induction n generalizing c with
  | zero => rfl
  | succ n ih =>
    have hlt : c.stream.buf.eback < c.stream.buf.gptr := by omega
    obtain ⟨hpos, hback⟩ := h.stepBack hlt []
    have hunget : unget c.stream = (some (c.stream.buf.buffer (c.stream.buf.gptr - 1)),
        { c.stream with buf := c.stream.buf.stepBack }) := if_pos hlt
    have hrest := ih hback (by
      show n ≤ max (c.stream.buf.gptr - 1) c.stream.buf.eback - c.stream.buf.eback
      omega)
    obtain ⟨pos, hp⟩ : ∃ pos, c.pos = pos + 1 := ⟨c.pos - 1, by omega⟩
    have hbyte := h.at_unget hlt
    rw [hp, Nat.add_sub_cancel] at hbyte
    rw [hp, lastBytes_succ hbyte, Stream.putBack, hunget, hrest, List.map_cons, hp]
    rfl

/-- `get` and `peek` are `underflow`, and `get` a bump. -/
theorem step_asks {op : BufOp} (ha : op.asks = true) {c' : Cursor} (hs : step c op = some c') :
    ((underflow c.stream).1 = none ∧ c' = c.fill) ∨
      ∃ b, (underflow c.stream).1 = some b ∧ ((op = .get ∧ c' =
          ⟨{ c.fill.stream with buf := c.fill.stream.buf.gbump 1 }, c.fill.read, c.pos + 1, (c.pos, b) :: c.log⟩) ∨
        (op = .peek ∧ c' = ⟨c.fill.stream, c.fill.read, c.pos, (c.pos, b) :: c.log⟩)) := by
  cases op with
  | unget => cases ha
  | get =>
    simp only [step, BufOp.run, Stream.get, BufOp.asks, if_true] at hs
    cases hu : underflow c.stream with
    | mk r s =>
      rw [hu] at hs
      cases r with
      | none =>
        cases hs
        exact .inl ⟨rfl, by rw [Cursor.fill, hu]⟩
      | some b =>
        cases hs
        exact .inr ⟨b, rfl, .inl ⟨rfl, by rw [Cursor.fill, hu]; rfl⟩⟩
  | peek =>
    simp only [step, BufOp.run, Stream.peek, BufOp.asks, if_true] at hs
    cases hu : underflow c.stream with
    | mk r s =>
      rw [hu] at hs
      cases r with
      | none =>
        cases hs
        exact .inl ⟨rfl, by rw [Cursor.fill, hu]⟩
      | some b =>
        cases hs
        exact .inr ⟨b, rfl, .inr ⟨rfl, by rw [Cursor.fill, hu]; rfl⟩⟩

theorem step_unget {c' : Cursor} (hs : step c .unget = some c') :
    (c.stream.buf.gptr ≤ c.stream.buf.eback ∧ c' = c) ∨
      (c.stream.buf.eback < c.stream.buf.gptr ∧ c' = ⟨{ c.stream with buf := c.stream.buf.stepBack }, c.read, c.pos - 1,
        (c.pos - 1, c.stream.buf.buffer (c.stream.buf.gptr - 1)) :: c.log⟩) := by
  by_cases hlt : c.stream.buf.eback < c.stream.buf.gptr
  · simp only [step, BufOp.run, unget, if_pos hlt] at hs
    cases hs
    exact .inr ⟨hlt, rfl⟩
  · simp only [step, BufOp.run, unget, if_neg hlt] at hs
    cases hs
    exact .inl ⟨Nat.not_lt.mp hlt, rfl⟩

/-! ## A read that fails -/

/-- What it leaves of a faithful buffer: the moved bytes may be others. -/
theorem Faithful.fails_iff (h : c.Faithful) {op : BufOp} (hf : c.Fails op) :
    SameArea c.stream.buf (c.stream.buf.saveBack c.stream.buf.backSize) ↔ c.Repeats := by
  obtain ⟨-, hend, -⟩ := hf
  obtain ⟨hgptr, -, hback⟩ := h.consumed hend
  have heback := h.eback
  have hegptr := h.egptr
  have hlen := c.length_input
  -- index `3 - k` of the buffer holds the byte `k` before the last chunk
  have hold : ∀ k, k < min PUTBACK_SIZE c.before →
      c.input[c.before - 1 - k]? = some (c.stream.buf.buffer (PUTBACK_SIZE - 1 - k)) := by
    intro k hk
    rw [← h.byte (PUTBACK_SIZE - 1 - k) (by omega) (by omega)]
    congr 1
    omega
  have hnew : ∀ k, k < min PUTBACK_SIZE c.before → c.input[c.before + c.lastLength - 1 - k]? =
      some ((c.stream.buf.saveBack c.stream.buf.backSize).buffer (PUTBACK_SIZE - 1 - k)) := by
    intro k hk
    rw [← h.saved hend (i := PUTBACK_SIZE - 1 - k) (by omega) (by omega)]
    congr 1
    omega
  constructor
  · intro hsame k hk
    rw [hold k hk, hnew k hk, hsame.bytes _ (by omega) (by omega)]
  · intro hrep
    refine ⟨rfl, rfl, rfl, ?_⟩
    intro i hlow hhigh
    by_cases hi : i < PUTBACK_SIZE
    · have hk := hrep (PUTBACK_SIZE - 1 - i) (by omega)
      rw [hold _ (by omega), hnew _ (by omega), Option.some_inj] at hk
      have hii : PUTBACK_SIZE - 1 - (PUTBACK_SIZE - 1 - i) = i := by omega
      rw [hii] at hk
      exact hk
    · show memmove _ _ _ _ i = _
      unfold memmove
      rw [if_neg]
      omega

theorem Faithful.same (h : c.Faithful) {b : FdInBuf} (hb : SameArea c.stream.buf b) (pending : List ReadOutcome) :
    Faithful { c with stream := ⟨b, pending⟩ } := by
  refine ⟨?_, ?_, ?_, ?_⟩
  · show _ = _ + b.gptr
    rw [hb.gptr]
    exact h.pos
  · exact hb.eback.trans h.eback
  · exact hb.egptr.trans h.egptr
  · intro i hlow hhigh
    have hlow : c.stream.buf.eback ≤ i := hb.eback ▸ hlow
    have hhigh : i < c.stream.buf.egptr := hb.egptr ▸ hhigh
    show _ = some (b.buffer i)
    rw [hb.bytes i hlow hhigh]
    exact h.byte i hlow hhigh

theorem fails_run {op : BufOp} (hf : c.Fails op) :
    op.run c.stream = (none, ⟨c.stream.buf.saveBack c.stream.buf.backSize, c.stream.pending.tail⟩) := by
  obtain ⟨ha, hend, hfilled⟩ := hf
  have hu := underflow_fails hend hfilled
  cases op with
  | unget => cases ha
  | get => simp only [BufOp.run, Stream.get, hu]
  | peek => exact hu

theorem Faithful.keeps_iff (h : c.Faithful) (op : BufOp) : c.KeepsWindow op ↔ (c.Fails op → c.Repeats) := by
  refine forall_congr' fun hf => ?_
  rw [fails_run hf, ← h.fails_iff hf]
  constructor
  · exact And.left
  · intro hsame
    refine ⟨hsame, ?_⟩
    intro n hn
    have hn' : n ≤ (c.stream.buf.saveBack c.stream.buf.backSize).gptr - (c.stream.buf.saveBack c.stream.buf.backSize).eback := hn
    exact (h.same hsame c.stream.pending.tail).putBack hn'

/-! ## Over a run -/

theorem fails_or {op : BufOp} (ha : op.asks = true) :
    c.Fails op ∨ (c.stream.buf.egptr ≤ c.stream.buf.gptr → c.stream.filled ≠ []) := by
  by_cases hf : c.Fails op
  · exact .inl hf
  · exact .inr fun hend hfilled => hf ⟨ha, hend, hfilled⟩

/-- An operation whose read, if it fails, finds the bytes repeated. -/
theorem Faithful.step (h : c.Faithful) {op : BufOp} (hrep : c.Fails op → c.Repeats) {c' : Cursor}
    (hs : Cursor.step c op = some c') : c'.Faithful := by
  cases ha : op.asks with
  | false =>
    cases op with
    | unget =>
      rcases step_unget hs with ⟨-, rfl⟩ | ⟨hlt, rfl⟩
      · exact h
      · exact (h.stepBack hlt _).2
    | get => cases ha
    | peek => cases ha
  | true =>
    rcases fails_or (c := c) ha with hf | hread
    · have hu := underflow_fails hf.2.1 hf.2.2
      rcases step_asks ha hs with ⟨-, rfl⟩ | ⟨b, hb, -⟩
      · have hfill : c.fill = { c with stream := ⟨c.stream.buf.saveBack c.stream.buf.backSize, c.stream.pending.tail⟩ } := by
          rw [Cursor.fill, hu, hf.2.2, List.append_nil]
        rw [hfill]
        exact h.same ((h.fails_iff hf).mpr (hrep hf)) _
      · rw [hu] at hb
        cases hb
    · have hfill := h.fill hread
      rcases step_asks ha hs with ⟨-, rfl⟩ | ⟨b, hb, ⟨-, rfl⟩ | ⟨-, rfl⟩⟩
      · exact hfill
      · have hlt := (underflow_some (b := b) (t := c.fill.stream) (Prod.ext hb rfl)).1
        exact hfill.bump hlt _
      · exact ⟨hfill.pos, hfill.eback, hfill.egptr, hfill.byte⟩

/-- Over any run, with any reads: those that fail leave the get area and what can be put
    back as they were exactly when each finds, in front of the last chunk, the bytes that
    the chunk ends with. -/
theorem failed_refill_iff (outcomes : List ReadOutcome) (ops : List BufOp) :
    Runs.Meets Cursor.step KeepsWindow (start outcomes) ops ↔
      Runs.Meets Cursor.step (fun c op => c.Fails op → c.Repeats) (start outcomes) ops :=
  Runs.meets_congr_kept (I := Faithful) (fun _ op h => h.keeps_iff op) (fun _ _ _ h hrep hs => h.step hrep hs)
    (faithful_start outcomes)

def oneAndOne : List ReadOutcome := [.chunk ⟨[1], Nat.one_pos, by decide⟩, .chunk ⟨[2], Nat.one_pos, by decide⟩]

/-- The reads `[1]` and `[2]` and the end of the file: the second step back finds 2 again. -/
theorem put_back_wrong :
    ∃ c, run (start oneAndOne) [.get, .get, .get, .unget, .unget] = some c ∧ c.log = [(0, 2), (1, 2), (1, 2), (0, 1)] ∧
      ¬ Runs.Meets Cursor.step KeepsWindow (start oneAndOne) [.get, .get, .get] := by
  refine ⟨_, rfl, by decide, ?_⟩
  intro h
  have hkeeps := ((h.2 _ rfl).2 _ rfl).1 ⟨rfl, by decide, rfl⟩
  exact absurd (hkeeps.1.bytes 3 (by decide) (by decide)) (by decide)

/-! ## With no read failing -/

/-- A refill moves bytes from the reads to come to the input. -/
theorem fill_input (hread : c.stream.buf.egptr ≤ c.stream.buf.gptr → c.stream.filled ≠ []) :
    ∃ more, c.fill.input = c.input ++ more ∧ allBytes c.stream.pending = more ++ allBytes c.fill.stream.pending := by
  by_cases hlt : c.stream.buf.gptr < c.stream.buf.egptr
  · obtain ⟨hu, hf⟩ := underflow_has hlt
    refine ⟨[], ?_, ?_⟩
    · rw [List.append_nil, input, input, Cursor.fill, hf, List.append_nil]
    · rw [Cursor.fill, hu]
      rfl
  · obtain ⟨k, rest, -, hf, hp, hu⟩ := filled_cons (hread (Nat.not_lt.mp hlt))
    refine ⟨k.bytes, ?_, ?_⟩
    · rw [input, input, Cursor.fill, hf, List.flatMap_append, List.flatMap_singleton]
    · rw [Cursor.fill, hu, hp]
      rfl

/-- The bytes delivered so far are the input's. -/
structure Delivers (outcomes : List ReadOutcome) (c : Cursor) : Prop where
  faithful : c.Faithful
  input : c.input ++ allBytes c.stream.pending = allBytes outcomes
  log : ∀ e ∈ c.log, c.input[e.1]? = some e.2

theorem Delivers.fill {outcomes : List ReadOutcome} (h : Delivers outcomes c)
    (hread : c.stream.buf.egptr ≤ c.stream.buf.gptr → c.stream.filled ≠ []) : Delivers outcomes c.fill := by
  obtain ⟨more, hinput, hpending⟩ := fill_input hread
  refine ⟨h.faithful.fill hread, ?_, ?_⟩
  · rw [hinput, List.append_assoc, ← hpending]
    exact h.input
  · intro e he
    have hold := h.log e he
    rw [hinput, List.getElem?_append_left (List.getElem?_eq_some_iff.mp hold).1]
    exact hold

theorem Delivers.step {outcomes : List ReadOutcome} (h : Delivers outcomes c) {op : BufOp} (hok : ¬ c.Fails op) {c' : Cursor}
    (hs : Cursor.step c op = some c') : Delivers outcomes c' := by
  have hfaithful := h.faithful.step (fun hf => absurd hf hok) hs
  -- a byte delivered at a position that holds it
  have hone : ∀ {d : Cursor} {pos : Nat} {b : UInt8}, Delivers outcomes d → d.input[pos]? = some b →
      ∀ e ∈ (pos, b) :: d.log, d.input[e.1]? = some e.2 := by
    intro d pos b hd hb e he
    rcases List.mem_cons.mp he with rfl | he
    · exact hb
    · exact hd.log e he
  cases ha : op.asks with
  | false =>
    cases op with
    | unget =>
      rcases step_unget hs with ⟨-, rfl⟩ | ⟨hlt, rfl⟩
      · exact h
      · exact ⟨hfaithful, h.input, hone h (h.faithful.at_unget hlt)⟩
    | get => cases ha
    | peek => cases ha
  | true =>
    have hfill := h.fill ((fails_or ha).resolve_left hok)
    rcases step_asks ha hs with ⟨-, rfl⟩ | ⟨b, hb, hcases⟩
    · exact hfill
    · obtain ⟨hlt, hbyte⟩ := underflow_some (b := b) (t := c.fill.stream) (Prod.ext hb rfl)
      have hat := hfill.faithful.at_gptr hlt
      rw [hbyte] at hat
      rcases hcases with ⟨-, rfl⟩ | ⟨-, rfl⟩
      · exact ⟨hfaithful, hfill.input, hone hfill hat⟩
      · exact ⟨hfaithful, hfill.input, hone hfill hat⟩

theorem delivers_start (outcomes : List ReadOutcome) : Delivers outcomes (start outcomes) where
  faithful := faithful_start outcomes
  input := rfl
  log _ he := nomatch he

/-- Right after a refill the last four bytes, or all if fewer were consumed, can be put
    back. -/
theorem Faithful.putBack_fill (h : c.Faithful) (hf : c.stream.filled ≠ []) {n : Nat} (hn : n ≤ min PUTBACK_SIZE c.pos) :
    Stream.putBack n (underflow c.stream).2 = (lastBytes c.fill.input c.pos n).map some := by
  obtain ⟨k, rest, hend, hfilled, -, hu⟩ := filled_cons hf
  obtain ⟨-, hpos, hback⟩ := h.consumed hend
  have hfill : c.fill.Faithful := h.fill fun _ => hf
  refine hfill.putBack ?_
  have hbuf : c.fill.stream.buf = (c.stream.buf.saveBack c.stream.buf.backSize).refill c.stream.buf.backSize k := by
    rw [Cursor.fill, hu]
  rw [hbuf]
  show n ≤ PUTBACK_SIZE - (PUTBACK_SIZE - c.stream.buf.backSize)
  omega

/-- For any sequence of reads that give data and any operations: each byte delivered is the
    byte of all that is read at the position it was delivered for, and right after a
    refill the last four bytes consumed, or all of them, can be put back. -/
theorem window_delivers (outcomes : List ReadOutcome) (ops : List BufOp)
    (hreads : Runs.Meets Cursor.step (fun c op => ¬ c.Fails op) (start outcomes) ops) (c : Cursor)
    (h : run (start outcomes) ops = some c) :
    (∀ e ∈ c.log, (allBytes outcomes)[e.1]? = some e.2) ∧
      ∀ n, c.stream.filled ≠ [] → n ≤ min PUTBACK_SIZE c.pos →
        Stream.putBack n (underflow c.stream).2 = (lastBytes (allBytes outcomes) c.pos n).map some := by
  have hdelivers : Delivers outcomes c := Runs.exec_meets (fun _ _ _ hd hok hs => hd.step hok hs)
    (delivers_start outcomes) hreads h
  refine ⟨?_, ?_⟩
  · intro e he
    have hbyte := hdelivers.log e he
    rw [← hdelivers.input, List.getElem?_append_left (List.getElem?_eq_some_iff.mp hbyte).1]
    exact hbyte
  · intro n hf hn
    obtain ⟨k, rest, hend, -⟩ := filled_cons hf
    obtain ⟨-, hpos, -⟩ := hdelivers.faithful.consumed hend
    have hfill := hdelivers.fill fun _ => hf
    have hlen : c.pos ≤ c.fill.input.length := by
      obtain ⟨more, hinput, -⟩ := fill_input (c := c) fun _ => hf
      rw [hinput, List.length_append, length_input]
      omega
    have htake : (allBytes outcomes).take c.pos = c.fill.input.take c.pos := by
      rw [← hfill.input, List.take_append_of_le_length hlen]
    rw [hdelivers.faithful.putBack_fill hf hn, lastBytes, lastBytes, htake]

def twoChunks : List ReadOutcome := [.chunk ⟨[1, 2], Nat.two_pos, by decide⟩, .chunk ⟨[3], Nat.one_pos, by decide⟩]

/-- Two chunks, a step back over where they meet. -/
theorem window_delivers_back :
    ∃ c, run (start twoChunks) [.get, .get, .get, .unget, .unget, .peek] = some c ∧
      ∀ e ∈ c.log, ([1, 2, 3] : List UInt8)[e.1]? = some e.2 := by
  obtain ⟨c, hc⟩ : ∃ c, run (start twoChunks) [.get, .get, .get, .unget, .unget, .peek] = some c := ⟨_, rfl⟩
  refine ⟨c, hc, (window_delivers twoChunks [.get, .get, .get, .unget, .unget, .peek] ?_ c hc).1⟩
  refine (Runs.meets_cons rfl).mpr ⟨fun hf => absurd hf.2.2 (List.cons_ne_nil _ _), ?_⟩
  refine (Runs.meets_cons rfl).mpr ⟨fun hf => absurd hf.2.1 (by decide), ?_⟩
  refine (Runs.meets_cons rfl).mpr ⟨fun hf => absurd hf.2.2 (List.cons_ne_nil _ _), ?_⟩
  refine (Runs.meets_cons rfl).mpr ⟨fun hf => absurd hf.1 Bool.false_ne_true, ?_⟩
  refine (Runs.meets_cons rfl).mpr ⟨fun hf => absurd hf.1 Bool.false_ne_true, ?_⟩
  exact (Runs.meets_cons rfl).mpr ⟨fun hf => absurd hf.2.1 (by decide), trivial⟩

end Cursor

end CovProcess.Stream
