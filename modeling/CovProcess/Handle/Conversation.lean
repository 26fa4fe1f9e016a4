/-
  CovProcess.Handle.Conversation — the program talks to its children through `in()`, `out()`
  and `err()` (Unix): the streams of `CovProcess.Stream` over the pipes of
  `CovProcess.Handle.Traffic`.

  A stream has the number it was made with, and what it writes or reads goes to whatever
  the table has there by then. An insertion is a loop of writes, each its own step: children
  read, write and exit in between, and so do other handles. `copy` is a round of the
  readers of `communicate`. On one handle the program does one thing at a time, and nothing
  after it destroyed it. Putting back is left out (see `CovProcess.Stream.Putback`).

  Proved: `conversation`, along any run. What a child can read of its stdin are the inserted
  blocks, each up to a place, and whole if the stream was good after it; what was extracted
  of an output is what its child wrote, up to what the buffer and the pipe still hold; and
  an end of the file is found when nothing is left.
-/

import CovProcess.Handle.Traffic
import CovProcess.Stream.Communicate
import CovProcess.Stream.FdOutBuf

namespace CovProcess.Holders

open FdTable
open CovProcess.Unix (PipeName PipeEnd)
open CovProcess.Stream (FdOStream FdIStream FdInBuf Chunk ReadOutcome StreamName Write fdOf allBytes handed)

variable {φ : Type}

/-! ## Reading and writing -/

inductive Extraction where
  | get
  | peek
  | copy
  deriving DecidableEq, Repr

/-- The bytes that are given to the caller, and the stream then. -/
def Extraction.run : Extraction → FdIStream → List UInt8 × FdIStream
  | .get, s => ((Stream.get s).1.toList, (Stream.get s).2)
  | .peek, s => ([], (Stream.peek s).2)
  | .copy, s =>
    match Stream.underflow s with
    | (none, s) => ([], s)
    | (some _, s) => (s.buf.unread, s.skip)

def pipeOf : StreamName → PipeName
  | .stdout => .stdout
  | .stderr => .stderr

theorem pipeOf_inj {x y : StreamName} (h : pipeOf x = pipeOf y) : x = y := by
  cases x <;> cases y <;> first | rfl | cases h

/-- A write on the file `f`, by handle or child `k.1`: bytes that do not go to a pipe are lost. -/
def Traffic.land (s : Traffic φ) (k : Nat × PipeName) (f : Option (Obj φ)) (bytes : List UInt8) : Traffic φ :=
  { s with
    pipe :=
      match f with
      | some (.pipe j q .write) => Function.update s.pipe (j, q) (s.pipe (j, q) ++ bytes)
      | _ => s.pipe
    put := Function.update s.put k (s.put k ++ bytes) }

/-- A read on a file, and what it answers; -1 counts as an interruption. -/
inductive Reads (s : Traffic φ) (k : Nat × PipeName) : Option (Obj φ) → List ReadOutcome → Traffic φ → Prop
  | chunk {j : Nat} {q : PipeName} (c : Chunk) (rest : List UInt8) : s.pipe (j, q) = c.bytes ++ rest →
      Reads s k (some (.pipe j q .read)) [.chunk c] { s with
        pipe := Function.update s.pipe (j, q) rest
        got := Function.update s.got k (s.got k ++ c.bytes) }
  | eof {j : Nat} {q : PipeName} : s.pipe (j, q) = [] → ¬ s.sys.Held (.pipe j q .write) →
      Reads s k (some (.pipe j q .read)) [] { s with ends := s.ends ++ [k] }
  | fails (f : Option (Obj φ)) : Reads s k f [.eintr] s
  | own (f : φ) (c : Chunk) : Reads s k (some (.own f)) [.chunk c] { s with got := Function.update s.got k (s.got k ++ c.bytes) }
  | ownEnd (f : φ) : Reads s k (some (.own f)) [] s

/-- Child `i` writes, reads, or reads the end of the file. -/
inductive ChildMoves (i : Nat) (s : Traffic φ) : Traffic φ → Prop
  | write {h : Handle φ} {x : Fd} {j : Nat} {q : PipeName} (bytes : List UInt8) : s.sys.handles[i]? = some h →
      h.child.file x = some (.pipe j q .write) → ChildMoves i s (s.land (i, q) (some (.pipe j q .write)) bytes)
  | read {h : Handle φ} {x : Fd} {j : Nat} {q : PipeName} (bytes rest : List UInt8) : s.sys.handles[i]? = some h →
      h.child.file x = some (.pipe j q .read) → s.pipe (j, q) = bytes ++ rest → ChildMoves i s { s with
        pipe := Function.update s.pipe (j, q) rest
        got := Function.update s.got (i, q) (s.got (i, q) ++ bytes) }
  | eof {h : Handle φ} {x : Fd} {j : Nat} {q : PipeName} : s.sys.handles[i]? = some h →
      h.child.file x = some (.pipe j q .read) → s.pipe (j, q) = [] → ¬ s.sys.Held (.pipe j q .write) →
      ChildMoves i s { s with ends := s.ends ++ [(i, q)] }

/-! ## The program -/

structure Talk (φ : Type) where
  traffic : Traffic φ
  into : Nat → FdOStream := fun _ => ⟨⟨FD_INVALID, true⟩, false⟩
  buf : Nat × StreamName → FdInBuf := fun _ => {}
  /-- The block that is being inserted, and what `write(2)` answered so far. -/
  busy : Nat → Option (List UInt8 × List Int) := fun _ => none
  /-- The insertions that returned, and whether the stream was good then. -/
  said : Nat → List (List UInt8 × Bool) := fun _ => []
  extracted : Nat × StreamName → List UInt8 := fun _ => []
  /-- The streams on which an extraction read the end of the file. -/
  eofs : List (Nat × StreamName) := []
  gone : Nat → Bool := fun _ => false

def takenBy : List Int → Nat
  | [] => 0
  | a :: as => a.toNat + takenBy as

namespace Talk

variable (s : Talk φ)

def sys : System φ := s.traffic.sys

def Live (i : Nat) : Prop := s.gone i = false ∧ i < s.sys.handles.length

/-- The file that insertions go to. -/
def file (i : Nat) : Option (Obj φ) := s.sys.table.file (s.into i).buf.fd

/-- `write(2)` takes something only where a file is open. -/
def Answers (i : Nat) (w : Write) : Prop := w.Fits ∧ (0 < w.written → s.file i ≠ none)

/-- An insertion with the answers so far, which may have returned. -/
def ask (i : Nat) (block : List UInt8) (answers : List Int) : Talk φ :=
  match (s.into i).write block answers with
  | none => { s with busy := Function.update s.busy i (some (block, answers)) }
  | some (o, _, _) =>
    { s with
      into := Function.update s.into i o
      busy := Function.update s.busy i none
      said := Function.update s.said i (s.said i ++ [(block, !o.bad)]) }

/-- The write that an insertion waits for. -/
def next (block : List UInt8) (answers : List Int) (a : Int) : Write := ⟨block.drop (takenBy answers), a⟩

/-- What the kernel takes goes to the file of the stream. -/
def land (i : Nat) (ws : List Write) : Talk φ :=
  { s with traffic := s.traffic.land (i, .stdin) (s.file i) (handed ws) }

/-- `in().put(c)`, when the `write(2)` it may make answers `a`. -/
def putChar (i : Nat) (c : UInt8) (a : Int) : Talk φ :=
  let o := (s.into i).put c a
  let s := s.land i o.2.2
  { s with
    into := Function.update s.into i o.1
    said := Function.update s.said i (s.said i ++ [([c], !o.1.bad)]) }

/-- What an extraction gave, and left in the buffer. -/
def give (k : Nat × StreamName) (r : List UInt8 × FdIStream) : Talk φ :=
  { s with
    buf := Function.update s.buf k r.2.buf
    extracted := Function.update s.extracted k (s.extracted k ++ r.1) }

/-- The streams after a step of the system. -/
def follow (t : System φ) : Event (StartOf φ .unix) φ → Talk φ
  | .start _ =>
    { s with
      traffic := { s.traffic with sys := t }
      into := Function.update s.into s.sys.handles.length
        ⟨⟨(t.handles[s.sys.handles.length]?).elim FD_INVALID fun h => h.made.stdin, true⟩, false⟩ }
  | .closeStdin i =>
    { s with
      traffic := { s.traffic with sys := t }
      into := if (s.sys.handles[i]?).elim true fun h => h.info.stdinClosed then s.into
        else Function.update s.into i (s.into i).invalidate }
  | .destroy i =>
    { s with
      traffic := { s.traffic with sys := t }
      gone := Function.update s.gone i true }
  | _ => { s with traffic := { s.traffic with sys := t } }

/-- The calls on a handle wait for one another. -/
def Allows : Event (StartOf φ .unix) φ → Prop
  | .closeStdin i => s.Live i ∧ s.busy i = none
  | .destroy i => s.Live i ∧ s.busy i = none
  | _ => True

end Talk

inductive Speaks : Talk φ → Talk φ → Prop
  | system {s : Talk φ} {e : Event (StartOf φ .unix) φ} {t : System φ} : s.Allows e → StartsReady (ReadyOn .unix) s.sys e →
      step .unix (spawnOn .unix) s.sys e = some t → Speaks s (s.follow t e)
  | child {s : Talk φ} {i : Nat} {t : Traffic φ} : ChildMoves i s.traffic t → Speaks s { s with traffic := t }
  | insert {s : Talk φ} {i : Nat} (block : List UInt8) : s.Live i → s.busy i = none → Speaks s (s.ask i block [])
  | answer {s : Talk φ} {i : Nat} {block : List UInt8} {answers : List Int} (a : Int) : s.busy i = some (block, answers) →
      s.Answers i (Talk.next block answers a) →
      Speaks s ((s.land i [Talk.next block answers a]).ask i block (answers ++ [a]))
  | put {s : Talk φ} {i : Nat} (c : UInt8) (a : Int) : s.Live i → s.busy i = none →
      (∀ w ∈ ((s.into i).put c a).2.2, s.Answers i w) → Speaks s (s.putChar i c a)
  | clear {s : Talk φ} {i : Nat} : s.Live i → s.busy i = none →
      Speaks s { s with into := Function.update s.into i (s.into i).clear }
  | extract {s : Talk φ} {i : Nat} {x : StreamName} (how : Extraction) : s.Live i → (s.buf (i, x)).unread ≠ [] →
      Speaks s (s.give (i, x) (how.run ⟨s.buf (i, x), []⟩))
  | read {s : Talk φ} {i : Nat} {x : StreamName} {h : Handle φ} {pending : List ReadOutcome} {t : Traffic φ} (how : Extraction) :
      s.Live i → (s.buf (i, x)).unread = [] → s.sys.handles[i]? = some h →
      Reads s.traffic (i, pipeOf x) (s.sys.table.file (fdOf h.made x)) pending t →
      Speaks s ({ s with traffic := t, eofs := if pending = [] then s.eofs ++ [(i, x)] else s.eofs }.give (i, x)
        (how.run ⟨s.buf (i, x), pending⟩))

/-- The states that a program with the files `t` of its own can come to. -/
inductive Spoken (t : Table φ) : Talk φ → Prop
  | init : Spoken t { traffic := { sys := System.init t } }
  | step {s s' : Talk φ} : Spoken t s → Speaks s s' → Spoken t s'

/-! ## The answers of an insertion -/

section Insertion

variable {o : FdOStream} {block : List UInt8} {answers : List Int} {total : Nat}

/-- A loop that waits took what was answered, and ends with the next answer or waits on. -/
theorem writeLoop_next (h : Stream.writeLoop block total answers = none) (a : Int) :
    total + takenBy answers < block.length ∧ (Stream.writeLoop block total (answers ++ [a])).map Prod.fst =
      if a ≤ 0 then some (total + takenBy answers)
      else if total + takenBy answers + a.toNat < block.length then none
      else some (total + takenBy answers + a.toNat) := by
  induction answers generalizing total with
  | nil =>
    have hlt : total < block.length := by
      by_contra hle
      rw [Stream.writeLoop, if_neg hle] at h
      cases h
    refine ⟨hlt, ?_⟩
    rw [List.nil_append, Stream.writeLoop, if_pos hlt]
    split
    · rfl
    · rw [Stream.writeLoop]
      split
      · rw [takenBy, Nat.add_zero, if_pos ‹_›]
        rfl
      · rw [takenBy, Nat.add_zero, if_neg ‹_›]
        rfl
  | cons b as ih =>
    rw [Stream.writeLoop] at h
    obtain ⟨hlt, h⟩ : total < block.length ∧ _ = none := by
      split at h
      · exact ⟨‹_›, h⟩
      · cases h
    split at h
    · cases h
    rename_i hb
    obtain ⟨hlen, hnext⟩ := ih (Option.map_eq_none_iff.mp h)
    rw [Nat.add_assoc] at hlen hnext
    refine ⟨hlen, ?_⟩
    rw [List.cons_append, Stream.writeLoop, if_pos hlt, if_neg hb, Option.map_map]
    exact hnext

/-- An insertion that waits is in the loop. -/
theorem write_none (h : o.write block answers = none) :
    o.bad = false ∧ o.buf.valid = true ∧ Stream.writeLoop block 0 answers = none := by
  simp only [FdOStream.write, Stream.FdOutBuf.xsputn] at h
  split at h
  · cases h
  rename_i hbad
  split at h
  · cases h
  rename_i hvalid
  split at h
  · cases h
  · exact ⟨by simpa using hbad, by simpa using hvalid, Option.map_eq_none_iff.mp h⟩

theorem write_eq (hbad : o.bad = false) (hvalid : o.buf.valid = true) (hpos : 0 < block.length) (as : List Int) :
    o.write block as = (Stream.writeLoop block 0 as).map fun (n, ws) => ({ o with bad := n ≠ block.length }, n, ws) := by
  have hne : ¬ block.length = 0 := by omega
  rw [FdOStream.write, hbad, Stream.FdOutBuf.xsputn, hvalid]
  exact congrArg (Option.map _) (if_neg hne)

theorem takenBy_snoc (as : List Int) (a : Int) : takenBy (as ++ [a]) = takenBy as + a.toNat := by
  induction as with
  | nil => exact Nat.add_comm ..
  | cons b as ih => rw [List.cons_append, takenBy, takenBy, ih, Nat.add_assoc]

/-- The end of an insertion, or its next write: the stream is good when all was taken. -/
theorem write_next (h : o.write block answers = none) {a : Int} (hfits : (Talk.next block answers a).Fits) :
    (a ≤ 0 ∧ ∃ o' r, o.write block (answers ++ [a]) = some (o', r) ∧ o'.bad = true) ∨
      (0 < a ∧ o.write block (answers ++ [a]) = none) ∨
      (0 < a ∧ takenBy answers + a.toNat = block.length ∧
        ∃ o' r, o.write block (answers ++ [a]) = some (o', r) ∧ o'.bad = false) := by
  obtain ⟨hbad, hvalid, hloop⟩ := write_none h
  obtain ⟨hlt, hnext⟩ := writeLoop_next hloop a
  rw [Nat.zero_add] at hlt hnext
  have hle : a ≤ ((block.drop (takenBy answers)).length : Int) := hfits
  rw [List.length_drop] at hle
  rw [write_eq hbad hvalid (Nat.zero_lt_of_lt hlt)]
  -- the loop with the answer, by its count
  cases hw : Stream.writeLoop block 0 (answers ++ [a]) with
  | none =>
    rw [hw] at hnext
    have hpos : 0 < a := by
      by_contra hneg
      rw [if_pos (by omega)] at hnext
      cases hnext
    exact .inr (.inl ⟨hpos, rfl⟩)
  | some r =>
    obtain ⟨n, ws⟩ := r
    rw [hw, Option.map_some] at hnext
    by_cases hneg : a ≤ 0
    · rw [if_pos hneg] at hnext
      obtain rfl : n = takenBy answers := Option.some.inj hnext
      exact .inl ⟨hneg, _, _, rfl, decide_eq_true (by omega)⟩
    · rw [if_neg hneg] at hnext
      split at hnext
      · cases hnext
      · obtain rfl : n = takenBy answers + a.toNat := Option.some.inj hnext
        have hall : takenBy answers + a.toNat = block.length := by omega
        exact .inr (.inr ⟨by omega, hall, _, _, rfl, decide_eq_false (fun hne => hne hall)⟩)

/-- An insertion that asks for nothing is good only if there was nothing to insert. -/
theorem write_nil {o' : FdOStream} {r : Nat × List Write} (h : o.write block [] = some (o', r)) (hgood : o'.bad = false) :
    block = [] := by
  simp only [FdOStream.write] at h
  split at h
  · rename_i hbad
    cases h
    rw [hgood] at hbad
    cases hbad
  · obtain ⟨⟨n, ws⟩, hbuf, heq⟩ := Option.map_eq_some_iff.mp h
    cases heq
    have hlen : n = block.length := by simpa using hgood
    simp only [Stream.FdOutBuf.xsputn] at hbuf
    split at hbuf
    · cases hbuf
      exact List.eq_nil_of_length_eq_zero hlen.symm
    · split at hbuf
      · exact List.eq_nil_of_length_eq_zero ‹_›
      · rw [Stream.writeLoop, if_pos (by omega)] at hbuf
        cases hbuf

/-- A character that left the stream good was taken. -/
theorem put_told (o : FdOStream) (c : UInt8) {a : Int} (hfits : ∀ w ∈ (o.put c a).2.2, w.Fits) :
    handed (o.put c a).2.2 <+: [c] ∧ ((o.put c a).1.bad = false → handed (o.put c a).2.2 = [c]) := by
  unfold FdOStream.put at hfits ⊢
  split
  · rename_i hbad
    refine ⟨List.nil_prefix, ?_⟩
    intro hgood
    rw [hbad] at hgood
    cases hgood
  · rename_i hbad
    rw [if_neg hbad] at hfits
    cases hvalid : o.buf.valid with
    | false =>
      have hover : o.buf.overflow (some c) a = (none, []) := by simp [Stream.FdOutBuf.overflow, hvalid]
      rw [hover]
      refine ⟨List.nil_prefix, ?_⟩
      intro hgood
      cases hgood
    | true =>
      have hover : o.buf.overflow (some c) a = (if a ≠ 1 then none else some c, [⟨[c], a⟩]) := by
        simp [Stream.FdOutBuf.overflow, hvalid]
      rw [hover] at hfits ⊢
      by_cases ha : a = 1
      · subst ha
        exact ⟨List.prefix_refl [c], fun _ => rfl⟩
      · have hle : a ≤ (1 : Nat) := hfits ⟨[c], a⟩ List.mem_cons_self
        have htaken : handed [⟨[c], a⟩] = [] := by
          rw [Stream.handed_cons, Write.taken_of_le (show a ≤ 0 by omega), Stream.handed_nil, List.append_nil]
        rw [htaken, if_pos ha]
        refine ⟨List.nil_prefix, ?_⟩
        intro hgood
        cases hgood

/-! ## The accounts -/

/-- What the kernel took of an insertion. -/
def Told (e : List UInt8 × Bool) (part : List UInt8) : Prop := part <+: e.1 ∧ (e.2 = true → part = e.1)

/-- What it took so far of the one that waits. -/
def partOf : Option (List UInt8 × List Int) → List UInt8
  | none => []
  | some (block, answers) => block.take (takenBy answers)

def Accounts (put : List UInt8) (said : List (List UInt8 × Bool)) (busy : Option (List UInt8 × List Int)) : Prop :=
  ∃ parts, List.Forall₂ Told said parts ∧ put = parts.flatten ++ partOf busy

theorem Accounts.returned {put part : List UInt8} {said : List (List UInt8 × Bool)} {busy : Option (List UInt8 × List Int)}
    (h : Accounts put said busy) {e : List UInt8 × Bool} {bytes : List UInt8} (hpart : partOf busy ++ bytes = part)
    (he : Told e part) : Accounts (put ++ bytes) (said ++ [e]) none := by
  obtain ⟨parts, hparts, rfl⟩ := h
  refine ⟨parts ++ [part], List.rel_append hparts (.cons he .nil), ?_⟩
  rw [List.append_assoc, hpart, List.flatten_append, List.flatten_singleton]
  exact (List.append_nil _).symm

end Insertion

/-! ## The bytes of an extraction -/

theorem run_conserves (how : Extraction) (s : FdIStream) : (how.run s).1 ++ (how.run s).2.rest = s.rest := by
  cases how with
  | get => exact Stream.get_conserves s
  | peek => exact Stream.peek_conserves s
  | copy =>
    rw [← Stream.underflow_rest s, Extraction.run]
    split
    · rename_i heq
      rw [heq]
      rfl
    · rename_i s' heq
      rw [heq]
      show s'.buf.unread ++ ((s'.buf.gbump (s'.buf.egptr - s'.buf.gptr)).unread ++ allBytes s'.pending) = s'.rest
      rw [Stream.unread_gbump_all]
      rfl

/-- At most one read is made, and only when the buffer is empty. -/
theorem run_pending (how : Extraction) {b : FdInBuf} {pending : List ReadOutcome} (hlen : pending.length ≤ 1)
    (hb : b.unread ≠ [] → pending = []) : (how.run ⟨b, pending⟩).2.pending = [] := by
  have hunder : (Stream.underflow ⟨b, pending⟩).2.pending = [] := by
    rcases Stream.underflow_cases ⟨b, pending⟩ with ⟨hlt, h⟩ | ⟨-, b', -, -, h⟩ | ⟨-, c, rest, hp, b', -, h⟩
    · rw [h]
      exact hb fun hnil => Nat.not_le.mpr hlt (Stream.unread_eq_nil.mp hnil)
    · rw [h]
      refine List.eq_nil_of_length_eq_zero ?_
      rw [List.length_tail]
      exact Nat.sub_eq_zero_of_le hlen
    · rw [h]
      obtain rfl : pending = .chunk c :: rest := hp
      exact List.eq_nil_of_length_eq_zero (Nat.le_zero.mp (Nat.le_of_succ_le_succ hlen))
  cases how with
  | get =>
    rw [Extraction.run, Stream.get]
    split
    · rename_i heq
      rwa [heq] at hunder
    · rename_i heq
      rwa [heq] at hunder
  | peek => exact hunder
  | copy =>
    rw [Extraction.run]
    split
    · rename_i heq
      rwa [heq] at hunder
    · rename_i heq
      rwa [heq] at hunder

theorem run_unread (how : Extraction) {b : FdInBuf} {pending : List ReadOutcome} (hlen : pending.length ≤ 1)
    (hb : b.unread ≠ [] → pending = []) :
    (how.run ⟨b, pending⟩).1 ++ (how.run ⟨b, pending⟩).2.buf.unread = b.unread ++ allBytes pending := by
  have hrest := run_conserves how ⟨b, pending⟩
  rw [FdIStream.rest, run_pending how hlen hb] at hrest
  exact (congrArg (_ ++ ·) (List.append_nil _).symm).trans hrest

/-! ## Where a stream leads -/

/-- A handle that is not destroyed, and its stream for insertions. -/
structure Bound (o : FdOStream) (h : Handle φ) : Prop where
  fd : o.buf.fd = h.made.stdin
  stdin : o.buf.valid = true → h.info.stdin = h.made.stdin
  out : ∀ x, fdOf h.info x = fdOf h.made x

structure Talking (s : Talk φ) : Prop where
  traffic : Inv .unix s.traffic
  bound : ∀ i h, s.sys.handles[i]? = some h → s.gone i = false → Bound (s.into i) h
  busy : ∀ i block answers, s.busy i = some (block, answers) → s.Live i ∧ (s.into i).write block answers = none
  said : ∀ i, Accounts (s.traffic.put (i, .stdin)) (s.said i) (s.busy i)
  books : ∀ k, s.extracted k ++ (s.buf k).unread = s.traffic.got (k.1, pipeOf k.2)
  eofs : ∀ k ∈ s.eofs, (k.1, pipeOf k.2) ∈ s.traffic.ends ∧ (s.buf k).unread = []

section Streams

variable {s : Talk φ} {i : Nat}

theorem Talk.Live.handle (hl : s.Live i) : ∃ h, s.sys.handles[i]? = some h :=
  ⟨_, List.getElem?_eq_getElem hl.2⟩

theorem file_closed (t : Table (Obj φ)) : t.file FD_INVALID = none := by
  by_contra hne
  obtain ⟨f, hf⟩ := Option.ne_none_iff_exists'.mp hne
  exact ne_invalid (get_ne_none hf) rfl

/-- A valid stream leads to the handle's own pipe or nowhere. -/
theorem Talking.file (h : Talking s) {u : Handle φ} (hu : s.sys.handles[i]? = some u) (hg : s.gone i = false)
    (hv : (s.into i).buf.valid = true) :
    s.file i = none ∨ s.file i = some (.pipe i .stdin .write) ∧ Reaches s.sys i .stdin .write i .stdin := by
  have hb := h.bound i u hu hg
  have hfd : (s.into i).buf.fd = u.info.stdin := hb.fd.trans (hb.stdin hv).symm
  by_cases hinv : u.info.stdin = FD_INVALID
  · refine .inl ?_
    rw [Talk.file, hfd, hinv, file_closed]
  · have hmine := ((h.traffic.holds.handle i u hu).mine .stdin (stdin_mem .unix) hinv).2
    refine .inr ⟨?_, .stdin hu hmine⟩
    rw [Talk.file, hfd]
    exact hmine

theorem Talking.fileOf (h : Talking s) {u : Handle φ} (hu : s.sys.handles[i]? = some u) (hg : s.gone i = false) (x : StreamName) :
    s.sys.table.file (fdOf u.made x) = none ∨ s.sys.table.file (fdOf u.made x) = some (.pipe i (pipeOf x) .read) ∧
      Reaches s.sys i (pipeOf x) .read i (pipeOf x) := by
  have hfd : fdOf u.made x = fdOf u.info x := ((h.bound i u hu hg).out x).symm
  rw [hfd]
  by_cases hinv : fdOf u.info x = FD_INVALID
  · refine .inl ?_
    rw [hinv, file_closed]
  · refine .inr ?_
    cases x with
    | stdout =>
      have hmine := ((h.traffic.holds.handle i u hu).mine .stdout (by simp [slots]) hinv).2
      exact ⟨hmine, .stdout hu hmine⟩
    | stderr =>
      have hmine := ((h.traffic.holds.handle i u hu).mine .stderr (by simp [slots]) hinv).2
      exact ⟨hmine, .stderr hu hmine⟩

/-! ## The steps -/

theorem Traffic.land_nil (s : Traffic φ) (k : Nat × PipeName) (f : Option (Obj φ)) : s.land k f [] = s := by
  have hput : Function.update s.put k (s.put k ++ []) = s.put := by rw [List.append_nil, Function.update_eq_self]
  unfold Traffic.land
  rw [hput]
  split
  · rename_i j q
    have hpipe : Function.update s.pipe (j, q) (s.pipe (j, q) ++ []) = s.pipe := by rw [List.append_nil, Function.update_eq_self]
    rw [hpipe]
  · rfl

theorem handed_closed {ws : List Write} (hw : ∀ w ∈ ws, s.Answers i w) (hf : s.file i = none) : handed ws = [] := by
  refine List.flatMap_eq_nil_iff.mpr ?_
  intro w hmem
  refine Write.taken_of_le ?_
  by_contra hpos
  exact (hw w hmem).2 (by omega) hf

/-- What a write took went to the handle's own pipe. -/
theorem Talking.land (h : Talking s) (hl : s.Live i) {ws : List Write} (hw : ∀ w ∈ ws, s.Answers i w)
    (hv : (s.into i).buf.valid = false → ws = []) : Inv .unix (s.land i ws).traffic := by
  obtain ⟨u, hu⟩ := hl.handle
  have hnone : handed ws = [] → Inv .unix (s.land i ws).traffic := by
    intro hnil
    rw [Talk.land, hnil, Traffic.land_nil]
    exact h.traffic
  cases hvalid : (s.into i).buf.valid with
  | false =>
    rw [hv hvalid] at hnone ⊢
    exact hnone rfl
  | true =>
    rcases h.file hu hl.1 hvalid with hf | ⟨hf, hreach⟩
    · exact hnone (handed_closed hw hf)
    · rw [Talk.land, hf]
      exact inv_moves h.traffic (.write (handed ws) hreach)

theorem Bound.of_buf {o o' : FdOStream} {u : Handle φ} (h : Bound o u) (ho : o'.buf = o.buf) : Bound o' u where
  fd := by
    rw [ho]
    exact h.fd
  stdin := by
    rw [ho]
    exact h.stdin
  out := h.out

theorem land_put (s : Talk φ) (i : Nat) (ws : List Write) {k : Nat} (hk : k ≠ i) :
    (s.land i ws).traffic.put (k, .stdin) = s.traffic.put (k, .stdin) :=
  Function.update_of_ne (fun heq => hk (congrArg Prod.fst heq)) ..

theorem land_put_self (s : Talk φ) (i : Nat) (ws : List Write) :
    (s.land i ws).traffic.put (i, .stdin) = s.traffic.put (i, .stdin) ++ handed ws :=
  Function.update_self ..

theorem Talking.returned (h : Talking s) (hl : s.Live i) {ws : List Write} (hw : ∀ w ∈ ws, s.Answers i w)
    (hv : (s.into i).buf.valid = false → ws = []) {o : FdOStream} (ho : o.buf = (s.into i).buf) {e : List UInt8 × Bool}
    (he : Told e (partOf (s.busy i) ++ handed ws)) :
    Talking { s.land i ws with
      into := Function.update s.into i o
      busy := Function.update s.busy i none
      said := Function.update s.said i (s.said i ++ [e]) } where
  traffic := h.land hl hw hv
  bound k u hu hg := by
    show Bound (Function.update s.into i o k) u
    by_cases hki : k = i
    · subst hki
      rw [Function.update_self]
      exact (h.bound k u hu hg).of_buf ho
    · rw [Function.update_of_ne hki]
      exact h.bound k u hu hg
  busy k b as hk := by
    have hk : Function.update s.busy i none k = some (b, as) := hk
    show s.Live k ∧ (Function.update s.into i o k).write b as = none
    by_cases hki : k = i
    · subst hki
      rw [Function.update_self] at hk
      cases hk
    · rw [Function.update_of_ne hki] at hk ⊢
      exact h.busy k b as hk
  said k := by
    show Accounts ((s.land i ws).traffic.put (k, .stdin)) (Function.update s.said i (s.said i ++ [e]) k)
      (Function.update s.busy i none k)
    by_cases hki : k = i
    · subst hki
      rw [land_put_self, Function.update_self, Function.update_self]
      exact (h.said k).returned rfl he
    · rw [land_put s i ws hki, Function.update_of_ne hki, Function.update_of_ne hki]
      exact h.said k
  books := h.books
  eofs := h.eofs

/-- An insertion that goes on with answers: it waits, or it returns. -/
theorem Talking.ask (h : Talking s) (hl : s.Live i) {ws : List Write} (hw : ∀ w ∈ ws, s.Answers i w)
    (hv : (s.into i).buf.valid = false → ws = []) {block : List UInt8} {answers : List Int}
    (hwait : (s.into i).write block answers = none → partOf (s.busy i) ++ handed ws = block.take (takenBy answers))
    (hreturn : ∀ o r, (s.into i).write block answers = some (o, r) → Told (block, !o.bad) (partOf (s.busy i) ++ handed ws)) :
    Talking ((s.land i ws).ask i block answers) := by
  unfold Talk.ask
  split
  · rename_i hnone
    have hnone : (s.into i).write block answers = none := hnone
    refine ⟨h.land hl hw hv, h.bound, ?_, ?_, h.books, h.eofs⟩
    · intro k b as hk
      have hk : Function.update s.busy i (some (block, answers)) k = some (b, as) := hk
      by_cases hki : k = i
      · subst hki
        rw [Function.update_self] at hk
        cases hk
        exact ⟨hl, hnone⟩
      · rw [Function.update_of_ne hki] at hk
        exact h.busy k b as hk
    · intro k
      show Accounts ((s.land i ws).traffic.put (k, .stdin)) (s.said k) (Function.update s.busy i (some (block, answers)) k)
      by_cases hki : k = i
      · subst hki
        rw [land_put_self, Function.update_self]
        obtain ⟨parts, hparts, heq⟩ := h.said k
        refine ⟨parts, hparts, ?_⟩
        rw [heq, List.append_assoc, hwait hnone]
        rfl
      · rw [land_put s i ws hki, Function.update_of_ne hki]
        exact h.said k
  · rename_i o n ws' hsome
    have hsome : (s.into i).write block answers = some (o, n, ws') := hsome
    exact h.returned hl hw hv (FdOStream.write_buf hsome) (hreturn o _ hsome)

theorem Talking.insert (h : Talking s) (hl : s.Live i) (hbusy : s.busy i = none) (block : List UInt8) :
    Talking (s.ask i block []) := by
  have hsame : s.land i [] = s := by rw [Talk.land, Stream.handed_nil, Traffic.land_nil]
  rw [← hsame]
  refine h.ask hl (fun _ hw => absurd hw List.not_mem_nil) (fun _ => rfl) ?_ ?_
  · intro _
    rw [hbusy]
    rfl
  · intro o r hsome
    rw [hbusy]
    refine ⟨List.nil_prefix, ?_⟩
    intro hgood
    exact (write_nil hsome (by simpa using hgood)).symm

theorem Talking.answer (h : Talking s) {block : List UInt8} {answers : List Int} (hbusy : s.busy i = some (block, answers))
    {a : Int} (ha : s.Answers i (Talk.next block answers a)) :
    Talking ((s.land i [Talk.next block answers a]).ask i block (answers ++ [a])) := by
  obtain ⟨hl, hnone⟩ := h.busy i block answers hbusy
  have hvalid := (write_none hnone).2.1
  have htaken : partOf (s.busy i) ++ handed [Talk.next block answers a] = block.take (takenBy answers + a.toNat) := by
    rw [hbusy, Stream.handed_cons, Stream.handed_nil, List.append_nil]
    exact List.take_add.symm
  refine h.ask hl ?_ ?_ ?_ ?_
  · intro w hw
    rw [List.mem_singleton.mp hw]
    exact ha
  · intro hfalse
    rw [hvalid] at hfalse
    cases hfalse
  · intro _
    rw [htaken, takenBy_snoc]
  · intro o r hsome
    rw [htaken]
    refine ⟨List.take_prefix .., ?_⟩
    intro hgood
    have hgood : o.bad = false := by simpa using hgood
    rcases write_next hnone ha.1 with ⟨-, o', r', heq, hbad⟩ | ⟨-, heq⟩ | ⟨-, hall, -⟩
    · rw [hsome] at heq
      cases heq
      rw [hgood] at hbad
      cases hbad
    · rw [hsome] at heq
      cases heq
    · rw [hall, List.take_length]

theorem Talking.putChar (h : Talking s) (hl : s.Live i) (hbusy : s.busy i = none) (c : UInt8) (a : Int)
    (hw : ∀ w ∈ ((s.into i).put c a).2.2, s.Answers i w) : Talking (s.putChar i c a) := by
  have hsame : Function.update s.busy i none = s.busy := by rw [← hbusy, Function.update_eq_self]
  obtain ⟨hpart, hall⟩ := put_told (s.into i) c (fun w hmem => (hw w hmem).1)
  have hreturned := h.returned hl hw (fun hv => FdOStream.put_invalid c a hv) (FdOStream.put_buf (s.into i) c a)
    (e := ([c], !((s.into i).put c a).1.bad)) (by
      rw [hbusy]
      refine ⟨hpart, ?_⟩
      intro hgood
      exact hall (by simpa using hgood))
  rw [hsame] at hreturned
  exact hreturned

theorem Talking.clear (h : Talking s) (hbusy : s.busy i = none) :
    Talking { s with into := Function.update s.into i (s.into i).clear } where
  traffic := h.traffic
  bound k u hu hg := by
    show Bound (Function.update s.into i (s.into i).clear k) u
    by_cases hki : k = i
    · subst hki
      rw [Function.update_self]
      exact (h.bound k u hu hg).of_buf rfl
    · rw [Function.update_of_ne hki]
      exact h.bound k u hu hg
  busy k b as hk := by
    have hk : s.busy k = some (b, as) := hk
    have hki : k ≠ i := by
      intro heq
      subst heq
      rw [hbusy] at hk
      cases hk
    show s.Live k ∧ (Function.update s.into i (s.into i).clear k).write b as = none
    rw [Function.update_of_ne hki]
    exact h.busy k b as hk
  said := h.said
  books := h.books
  eofs := h.eofs

/-- A child's step is one of the traffic, on its own ends. -/
theorem Talking.child (h : Talking s) {t : Traffic φ} (hm : ChildMoves i s.traffic t) :
    Talking { s with traffic := t } := by
  have hown : ∀ {u : Handle φ} {x : Fd} {j : Nat} {q : PipeName} {d : PipeEnd}, s.traffic.sys.handles[i]? = some u →
      u.child.file x = some (.pipe j q d) → j = i ∧ childEnd q = some d :=
    fun hu hx => (h.traffic.holds.handle i _ hu).child _ _ hx
  have hinv : Inv .unix t := by
    cases hm with
    | write bytes hu hx => exact inv_moves h.traffic (.write bytes (.child hu hx))
    | read bytes rest hu hx hpipe => exact inv_moves h.traffic (.read bytes rest (.child hu hx) hpipe)
    | eof hu hx hempty hnot => exact inv_moves h.traffic (.eof (.child hu hx) hempty hnot)
  cases hm with
  | @write u x j q bytes hu hx =>
    obtain ⟨-, hend⟩ := hown hu hx
    refine ⟨hinv, h.bound, h.busy, ?_, h.books, h.eofs⟩
    intro k
    have hput : (s.traffic.land (i, q) (some (.pipe j q .write)) bytes).put (k, .stdin) = s.traffic.put (k, .stdin) := by
      refine Function.update_of_ne ?_ ..
      intro heq
      cases heq
      cases hend
    show Accounts ((s.traffic.land (i, q) (some (.pipe j q .write)) bytes).put (k, .stdin)) (s.said k) (s.busy k)
    rw [hput]
    exact h.said k
  | @read u x j q bytes rest hu hx hpipe =>
    obtain ⟨-, hend⟩ := hown hu hx
    refine ⟨hinv, h.bound, h.busy, h.said, ?_, h.eofs⟩
    intro k
    show s.extracted k ++ (s.buf k).unread = Function.update s.traffic.got (i, q) (s.traffic.got (i, q) ++ bytes) (k.1, pipeOf k.2)
    rw [Function.update_of_ne]
    · exact h.books k
    · intro heq
      obtain ⟨-, hq⟩ := Prod.mk.inj heq
      rw [← hq] at hend
      cases hx : k.2 with
      | stdout =>
        rw [hx] at hend
        cases hend
      | stderr =>
        rw [hx] at hend
        cases hend
  | eof hu hx hempty hnot =>
    refine ⟨hinv, h.bound, h.busy, h.said, h.books, ?_⟩
    intro k hk
    exact ⟨List.mem_append_left _ (h.eofs k hk).1, (h.eofs k hk).2⟩

/-- An extraction: what it gives and what stays in the buffer is what was there and what was
    read. -/
theorem Talking.give (h : Talking s) {x : StreamName} (how : Extraction) {pending : List ReadOutcome} {t : Traffic φ}
    (hlen : pending.length ≤ 1) (hempty : (s.buf (i, x)).unread ≠ [] → pending = []) (ht : Inv .unix t) (hsys : t.sys = s.traffic.sys)
    (hput : t.put = s.traffic.put) (hgot : t.got = Function.update s.traffic.got (i, pipeOf x)
      (s.traffic.got (i, pipeOf x) ++ allBytes pending)) (hends : ∀ k ∈ s.traffic.ends, k ∈ t.ends)
    {eofs : List (Nat × StreamName)}
    (hover : ∀ k ∈ eofs, (k.1, pipeOf k.2) ∈ t.ends ∧ (k ≠ (i, x) → k ∈ s.eofs) ∧
      (k = (i, x) → (s.buf (i, x)).unread = [] ∧ allBytes pending = [])) :
    Talking ({ s with traffic := t, eofs := eofs }.give (i, x) (how.run ⟨s.buf (i, x), pending⟩)) := by
  have hrun := run_unread how hlen hempty
  obtain ⟨tsys, tpipe, tput, tgot, tends⟩ := t
  simp only at hsys hput hgot hends hover
  subst hsys hput hgot
  refine ⟨ht, h.bound, h.busy, h.said, ?_, ?_⟩
  · intro k
    show Function.update s.extracted (i, x) (s.extracted (i, x) ++ (how.run ⟨s.buf (i, x), pending⟩).1) k ++
      (Function.update s.buf (i, x) (how.run ⟨s.buf (i, x), pending⟩).2.buf k).unread =
      Function.update s.traffic.got (i, pipeOf x) (s.traffic.got (i, pipeOf x) ++ allBytes pending) (k.1, pipeOf k.2)
    by_cases hk : k = (i, x)
    · subst hk
      rw [Function.update_self, Function.update_self, Function.update_self, List.append_assoc, hrun, ← List.append_assoc]
      exact congrArg (· ++ _) (h.books (i, x))
    · have hne : (k.1, pipeOf k.2) ≠ (i, pipeOf x) := by
        intro heq
        obtain ⟨hi, hp⟩ := Prod.mk.inj heq
        exact hk (Prod.ext hi (pipeOf_inj hp))
      rw [Function.update_of_ne hk, Function.update_of_ne hk, Function.update_of_ne hne]
      exact h.books k
  · intro k hk
    obtain ⟨hend, hold, hnew⟩ := hover k hk
    refine ⟨hend, ?_⟩
    show (Function.update s.buf (i, x) (how.run ⟨s.buf (i, x), pending⟩).2.buf k).unread = []
    by_cases hki : k = (i, x)
    · obtain ⟨hunread, hbytes⟩ := hnew hki
      rw [hunread, hbytes] at hrun
      subst hki
      rw [Function.update_self]
      exact (List.append_eq_nil_iff.mp hrun).2
    · rw [Function.update_of_ne hki]
      exact (h.eofs k (hold hki)).2

theorem Talking.extract (h : Talking s) {x : StreamName} (how : Extraction) (hne : (s.buf (i, x)).unread ≠ []) :
    Talking (s.give (i, x) (how.run ⟨s.buf (i, x), []⟩)) := by
  have hgot : s.traffic.got = Function.update s.traffic.got (i, pipeOf x) (s.traffic.got (i, pipeOf x) ++ allBytes []) := by
    rw [show allBytes [] = [] from rfl, List.append_nil, Function.update_eq_self]
  refine h.give how (Nat.zero_le _) (fun _ => rfl) h.traffic rfl rfl hgot (fun _ hk => hk) ?_
  intro k hk
  refine ⟨(h.eofs k hk).1, fun _ => hk, ?_⟩
  intro heq
  subst heq
  exact absurd (h.eofs _ hk).2 hne

theorem Talking.read (h : Talking s) {x : StreamName} (how : Extraction) (hl : s.Live i) (hnil : (s.buf (i, x)).unread = [])
    {u : Handle φ} (hu : s.sys.handles[i]? = some u) {pending : List ReadOutcome} {t : Traffic φ}
    (hr : Reads s.traffic (i, pipeOf x) (s.sys.table.file (fdOf u.made x)) pending t) :
    Talking ({ s with traffic := t, eofs := if pending = [] then s.eofs ++ [(i, x)] else s.eofs }.give (i, x)
      (how.run ⟨s.buf (i, x), pending⟩)) := by
  have hfile := h.fileOf hu hl.1 x
  have hempty : ∀ l : List ReadOutcome, (s.buf (i, x)).unread ≠ [] → l = [] := fun _ hne => absurd hnil hne
  have hkept : s.traffic.got = Function.update s.traffic.got (i, pipeOf x) (s.traffic.got (i, pipeOf x) ++ []) := by
    rw [List.append_nil, Function.update_eq_self]
  generalize hf : s.sys.table.file (fdOf u.made x) = f at hr hfile
  cases hr with
  | @chunk j q c rest hpipe =>
    obtain ⟨heq, hreach⟩ := hfile.resolve_left (Option.some_ne_none _)
    cases heq
    have hbytes : allBytes [.chunk c] = c.bytes := List.append_nil _
    refine h.give how (Nat.le_refl _) (hempty _) (inv_moves h.traffic (.read c.bytes rest hreach hpipe)) rfl rfl (by rw [hbytes])
      (fun _ hk => hk) ?_
    intro k hk
    refine ⟨(h.eofs k hk).1, fun _ => hk, ?_⟩
    -- no byte comes after the end of the file
    intro heq
    subst heq
    have hnone : s.traffic.pipe (i, pipeOf x) = [] := (h.traffic.ended _ (h.eofs _ hk).1).2.1
    have hlen := congrArg List.length (hpipe.symm.trans hnone)
    rw [List.length_append, List.length_nil] at hlen
    have := c.pos
    omega
  | @eof j q hpipe hnot =>
    obtain ⟨heq, hreach⟩ := hfile.resolve_left (Option.some_ne_none _)
    cases heq
    refine h.give how (Nat.zero_le _) (hempty []) (inv_moves h.traffic (.eof hreach hpipe hnot)) rfl rfl hkept
      (fun _ hk => List.mem_append_left _ hk) ?_
    intro k hk
    rw [if_pos rfl] at hk
    rcases List.mem_append.mp hk with hk | hk
    · exact ⟨List.mem_append_left _ (h.eofs k hk).1, fun _ => hk, fun _ => ⟨hnil, rfl⟩⟩
    · rw [List.mem_singleton.mp hk]
      exact ⟨List.mem_append_right _ List.mem_cons_self, fun hne => absurd rfl hne, fun _ => ⟨hnil, rfl⟩⟩
  | fails =>
    refine h.give how (Nat.le_refl _) (hempty [.eintr]) h.traffic rfl rfl hkept (fun _ hk => hk) ?_
    intro k hk
    exact ⟨(h.eofs k hk).1, fun _ => hk, fun _ => ⟨hnil, rfl⟩⟩
  | own g c =>
    obtain ⟨heq, -⟩ := hfile.resolve_left (Option.some_ne_none _)
    cases heq
  | ownEnd g =>
    obtain ⟨heq, -⟩ := hfile.resolve_left (Option.some_ne_none _)
    cases heq

/-! ## The system -/

theorem closeSlot_handle {t : System φ} {j k : Nat} {a : Slot} {u : Handle φ} (hu : (t.closeSlot j a).handles[k]? = some u) :
    ∃ v, t.handles[k]? = some v ∧ u.made = v.made ∧ (k ≠ j → u.info = v.info) ∧ (u.info = v.info ∨ u.info = a.reset v.info) := by
  unfold System.closeSlot at hu
  split at hu
  · exact ⟨u, hu, rfl, fun _ => rfl, .inl rfl⟩
  · rename_i h hj
    split at hu
    · exact ⟨u, hu, rfl, fun _ => rfl, .inl rfl⟩
    · rcases getElem?_set_cases hu with ⟨rfl, rfl⟩ | ⟨-, hk⟩
      · exact ⟨h, hj, rfl, fun hne => absurd rfl hne, .inr rfl⟩
      · exact ⟨u, hk, rfl, fun _ => rfl, .inl rfl⟩

theorem closeProcess_handle {pf : CovProcess.Builder.Platform} {t : System φ} {j k : Nat} {u : Handle φ}
    (hu : (t.closeProcess pf j).handles[k]? = some u) :
    ∃ v, t.handles[k]? = some v ∧ u.made = v.made ∧ (k ≠ j → u.info = v.info) := by
  have hfold : ∀ (as : List Slot) (t : System φ), (as.foldl (fun s a => s.closeSlot j a) t).handles[k]? = some u →
      ∃ v, t.handles[k]? = some v ∧ u.made = v.made ∧ (k ≠ j → u.info = v.info) := by
    intro as
    induction as with
    | nil =>
      intro t hu
      exact ⟨u, hu, rfl, fun _ => rfl⟩
    | cons a as ih =>
      intro t hu
      obtain ⟨v, hv, hmade, hinfo⟩ := ih _ hu
      obtain ⟨w, hw, hmade', hinfo', -⟩ := closeSlot_handle hv
      exact ⟨w, hw, hmade.trans hmade', fun hne => (hinfo hne).trans (hinfo' hne)⟩
  exact hfold _ t hu

theorem onChild_handle {t : System φ} {j k : Nat} {f : Table (Obj φ) → Table (Obj φ)} {u : Handle φ}
    (hu : (t.onChild j f).handles[k]? = some u) : ∃ v, t.handles[k]? = some v ∧ u.made = v.made ∧ u.info = v.info := by
  unfold System.onChild at hu
  split at hu
  · exact ⟨u, hu, rfl, rfl⟩
  · rename_i h hj
    rcases getElem?_set_cases hu with ⟨rfl, rfl⟩ | ⟨-, hk⟩
    · exact ⟨h, hj, rfl, rfl⟩
    · exact ⟨u, hk, rfl, rfl⟩

theorem step_handle {e : Event (StartOf φ .unix) φ} {t : System φ} (h : step .unix (spawnOn .unix) s.sys e = some t)
    {k : Nat} {u : Handle φ} (hu : t.handles[k]? = some u) :
    (∃ v, s.sys.handles[k]? = some v ∧ u.made = v.made ∧ (u.info = v.info ∨ e = .destroy k ∨
      e = .closeStdin k ∧ v.info.stdinClosed = false ∧ ∀ x, fdOf u.info x = fdOf v.info x)) ∨
      k = s.sys.handles.length ∧ u.info = u.made ∧ ∃ c, e = .start c := by
  cases e with
  | start c =>
    cases h
    rw [List.getElem?_append] at hu
    split at hu
    · exact .inl ⟨u, hu, rfl, .inl rfl⟩
    · rename_i hle
      cases hsub : k - s.sys.handles.length with
      | zero =>
        rw [hsub] at hu
        cases hu
        exact .inr ⟨by omega, rfl, c, rfl⟩
      | succ m =>
        rw [hsub] at hu
        cases hu
  | closeStdin j =>
    cases h
    unfold System.closeStdin at hu
    split at hu
    · exact .inl ⟨u, hu, rfl, .inl rfl⟩
    · rename_i h hj
      split at hu
      · exact .inl ⟨u, hu, rfl, .inl rfl⟩
      · rename_i hclosed
        obtain ⟨v, hv, hmade, hother, hinfo⟩ := closeSlot_handle hu
        rcases getElem?_set_cases hv with ⟨rfl, rfl⟩ | ⟨hne, hk⟩
        · refine .inl ⟨h, hj, hmade, .inr (.inr ⟨rfl, by simpa using hclosed, ?_⟩)⟩
          intro x
          rcases hinfo with heq | heq <;> rw [heq] <;> cases x <;> rfl
        · exact .inl ⟨v, hk, hmade, .inl (hother hne)⟩
  | destroy j =>
    cases h
    obtain ⟨v, hv, hmade, hinfo⟩ := closeProcess_handle hu
    refine .inl ⟨v, hv, hmade, ?_⟩
    by_cases hk : k = j
    · exact .inr (.inl (congrArg _ hk.symm))
    · exact .inl (hinfo hk)
  | openOwn fd f c =>
    obtain ⟨-, h⟩ := Option.ite_none_right_eq_some.mp h
    cases h
    exact .inl ⟨u, hu, rfl, .inl rfl⟩
  | closeOwn fd =>
    obtain ⟨-, h⟩ := Option.ite_none_left_eq_some.mp h
    cases h
    exact .inl ⟨u, hu, rfl, .inl rfl⟩
  | childOpen | childDup2 | childClose | childExit =>
    cases h
    obtain ⟨v, hv, hmade, hinfo⟩ := onChild_handle hu
    exact .inl ⟨v, hv, hmade, .inl hinfo⟩

theorem follow_into (t : System φ) (e : Event (StartOf φ .unix) φ) {k : Nat} (hk : k < s.sys.handles.length) :
    (s.follow t e).into k = s.into k ∨ e = .closeStdin k ∧ (s.follow t e).into k = (s.into k).invalidate := by
  cases e with
  | start c => exact .inl (Function.update_of_ne (Nat.ne_of_lt hk) ..)
  | closeStdin j =>
    show (if _ then _ else _ : Nat → FdOStream) k = _ ∨ _ ∧ (if _ then _ else _ : Nat → FdOStream) k = _
    split
    · exact .inl rfl
    · by_cases hkj : k = j
      · subst hkj
        exact .inr ⟨rfl, Function.update_self ..⟩
      · exact .inl (Function.update_of_ne hkj ..)
  | _ => exact .inl rfl

theorem follow_closed (t : System φ) {k : Nat} {v : Handle φ} (hv : s.sys.handles[k]? = some v) (hc : v.info.stdinClosed = false) :
    (s.follow t (.closeStdin k)).into k = (s.into k).invalidate := by
  show (if _ then _ else _ : Nat → FdOStream) k = _
  rw [hv, if_neg (by simp [hc])]
  exact Function.update_self ..

theorem follow_gone {t : System φ} {e : Event (StartOf φ .unix) φ} {k : Nat} (hg : (s.follow t e).gone k = false) :
    s.gone k = false ∧ e ≠ .destroy k := by
  cases e with
  | destroy j =>
    have hg : Function.update s.gone j true k = false := hg
    by_cases hkj : k = j
    · subst hkj
      rw [Function.update_self] at hg
      cases hg
    · rw [Function.update_of_ne hkj] at hg
      exact ⟨hg, fun heq => hkj (Event.destroy.inj heq).symm⟩
  | _ => exact ⟨hg, nofun⟩

theorem Bound.congr {o : FdOStream} {u v : Handle φ} (h : Bound o v) (hmade : u.made = v.made) (hinfo : u.info = v.info) : Bound o u where
  fd := by
    rw [hmade]
    exact h.fd
  stdin := by
    rw [hmade, hinfo]
    exact h.stdin
  out := by
    rw [hmade, hinfo]
    exact h.out

theorem Bound.invalidate {o : FdOStream} {u v : Handle φ} (h : Bound o v) (hmade : u.made = v.made)
    (hout : ∀ x, fdOf u.info x = fdOf v.info x) : Bound o.invalidate u where
  fd := by
    rw [hmade]
    exact h.fd
  stdin := nofun
  out x := by
    rw [hmade, hout]
    exact h.out x

theorem Talking.follow (h : Talking s) {e : Event (StartOf φ .unix) φ} {t : System φ} (ha : s.Allows e)
    (hr : StartsReady (ReadyOn .unix) s.sys e) (ht : step .unix (spawnOn .unix) s.sys e = some t) :
    Talking (s.follow t e) := by
  have htraffic : (s.follow t e).traffic = { s.traffic with sys := t } := by cases e <;> rfl
  have hbusy : (s.follow t e).busy = s.busy := by cases e <;> rfl
  have hsaid : (s.follow t e).said = s.said := by cases e <;> rfl
  have hbuf : (s.follow t e).buf = s.buf := by cases e <;> rfl
  have hextracted : (s.follow t e).extracted = s.extracted := by cases e <;> rfl
  have hover : (s.follow t e).eofs = s.eofs := by cases e <;> rfl
  refine ⟨?_, ?_, ?_, ?_, ?_, ?_⟩
  · rw [htraffic]
    exact inv_moves h.traffic (.system hr ht)
  · intro k u hu hg
    obtain ⟨hg, hdestroy⟩ := follow_gone hg
    rw [Talk.sys, htraffic] at hu
    rcases step_handle ht hu with ⟨v, hv, hmade, hinfo⟩ | ⟨rfl, hinfo, c, rfl⟩
    · have hb := h.bound k v hv hg
      rcases hinfo with hinfo | hinfo | ⟨rfl, hc, hout⟩
      · rcases follow_into t e (List.getElem?_eq_some_iff.mp hv).1 with heq | ⟨-, heq⟩
        · rw [heq]
          exact hb.congr hmade hinfo
        · rw [heq]
          exact hb.invalidate hmade (fun x => by rw [hinfo])
      · exact absurd hinfo hdestroy
      · rw [follow_closed t hv hc]
        exact hb.invalidate hmade hout
    · -- the new handle and its stream
      have hnew : (s.follow t (.start c)).into s.sys.handles.length = ⟨⟨u.made.stdin, true⟩, false⟩ := by
        refine (Function.update_self ..).trans ?_
        rw [hu]
        rfl
      rw [hnew]
      exact ⟨rfl, fun _ => by rw [hinfo], fun x => by rw [hinfo]⟩
  · intro k b as hk
    rw [hbusy] at hk
    obtain ⟨hl, hwrite⟩ := h.busy k b as hk
    have hlive : ((s.follow t e).Live k) := by
      refine ⟨?_, ?_⟩
      · cases e with
        | destroy j =>
          have hkj : k ≠ j := by
            intro heq
            subst heq
            rw [ha.2] at hk
            cases hk
          exact (Function.update_of_ne hkj ..).trans hl.1
        | _ => exact hl.1
      · rw [Talk.sys, htraffic]
        exact Nat.lt_of_lt_of_le hl.2 (step_length ht)
    refine ⟨hlive, ?_⟩
    rcases follow_into t e hl.2 with heq | ⟨rfl, -⟩
    · rw [heq]
      exact hwrite
    · rw [ha.2] at hk
      cases hk
  · rw [htraffic, hsaid, hbusy]
    exact h.said
  · rw [htraffic, hextracted, hbuf]
    exact h.books
  · rw [htraffic, hover, hbuf]
    exact h.eofs

theorem Talking.step {s' : Talk φ} (h : Talking s) (hs : Speaks s s') : Talking s' := by
  cases hs with
  | system ha hr ht => exact h.follow ha hr ht
  | child hm => exact h.child hm
  | insert block hl hbusy => exact h.insert hl hbusy block
  | answer a hbusy ha => exact h.answer hbusy ha
  | put c a hl hbusy hw => exact h.putChar hl hbusy c a hw
  | clear hl hbusy => exact h.clear hbusy
  | extract how hl hne => exact h.extract how hne
  | read how hl hnil hu hr => exact h.read how hl hnil hu hr

theorem talking_init (t : Table φ) : Talking { traffic := { sys := System.init t } : Talk φ } where
  traffic := inv_reachable .init
  bound i u hu := by cases hu
  busy i b as hb := by cases hb
  said _ := ⟨[], .nil, rfl⟩
  books _ := rfl
  eofs _ hk := absurd hk List.not_mem_nil

theorem talking_spoken {t : Table φ} (h : Spoken t s) : Talking s := by
  induction h with
  | init => exact talking_init t
  | step _ hs ih => exact ih.step hs

end Streams

/-! ## Both ways -/

theorem told_good {said : List (List UInt8 × Bool)} {parts : List (List UInt8)} (h : List.Forall₂ Told said parts)
    (hgood : ∀ e ∈ said, e.2 = true) : parts = said.map Prod.fst := by
  induction h with
  | nil => rfl
  | cons he _ ih =>
    rw [List.map_cons, he.2 (hgood _ List.mem_cons_self), ih fun e hmem => hgood e (List.mem_cons_of_mem _ hmem)]

/-- Along any run whose starts have 0, 1, 2 and their redirect targets open, the program's own
    files, and `close_range` at work: what a child read and can read of its stdin are the blocks inserted by its
    handle, each up to a place, and just the blocks while the stream stays good; it finds the
    end of the file when it has read them and its stdin is closed. What was extracted of an
    output, with what is buffered and what is in the pipe, is what the child wrote to it, and
    all of it was extracted once the end of the file was read. -/
theorem conversation (t : Table φ) (s : Talk φ) (hs : Spoken t s) (i : Nat) (h : Handle φ) (hi : s.sys.handles[i]? = some h) :
    (∃ parts, List.Forall₂ Told (s.said i) parts ∧
      s.traffic.got (i, .stdin) ++ s.traffic.pipe (i, .stdin) = parts.flatten ++ partOf (s.busy i)) ∧
    ((∀ e ∈ s.said i, e.2 = true) → s.busy i = none →
      s.traffic.got (i, .stdin) ++ s.traffic.pipe (i, .stdin) = ((s.said i).map Prod.fst).flatten) ∧
    ((i, .stdin) ∈ s.traffic.ends → s.traffic.pipe (i, .stdin) = [] ∧ h.info.stdin = FD_INVALID) ∧
    ∀ x, s.extracted (i, x) ++ (s.buf (i, x)).unread ++ s.traffic.pipe (i, pipeOf x) = s.traffic.put (i, pipeOf x) ∧
      ((i, x) ∈ s.eofs → s.extracted (i, x) = s.traffic.put (i, pipeOf x) ∧ ¬ h.child.Holds (.pipe i (pipeOf x) .write)) := by
  have hinv := talking_spoken hs
  have hbooks := hinv.traffic.books
  obtain ⟨parts, hparts, hput⟩ := hinv.said i
  have hstdin : s.traffic.got (i, .stdin) ++ s.traffic.pipe (i, .stdin) = parts.flatten ++ partOf (s.busy i) :=
    (hbooks _).trans hput
  refine ⟨⟨parts, hparts, hstdin⟩, ?_, ?_, ?_⟩
  · intro hgood hbusy
    rw [hstdin, told_good hparts hgood, hbusy]
    exact List.append_nil _
  · intro hend
    obtain ⟨-, hempty, hfree⟩ := hinv.traffic.ended _ hend
    refine ⟨hempty, ?_⟩
    by_contra hfd
    exact free_iff.mp hfree (.inl ⟨_, ((hinv.traffic.holds.handle i h hi).mine .stdin (stdin_mem .unix) hfd).2⟩)
  · intro x
    have hread := hinv.books (i, x)
    refine ⟨(congrArg (· ++ _) hread).trans (hbooks _), ?_⟩
    intro hover
    obtain ⟨hend, hunread⟩ := hinv.eofs _ hover
    obtain ⟨-, hempty, hfree⟩ := hinv.traffic.ended _ hend
    rw [hunread, List.append_nil] at hread
    refine ⟨?_, fun hc => free_iff.mp hfree (.inr ⟨h, List.mem_of_getElem? hi, hc⟩)⟩
    have hall := hbooks (i, pipeOf x)
    rw [hempty, List.append_nil] at hall
    exact hread.trans hall

/-- Two characters go to a child in two writes; it answers with one and exits. -/
theorem conversation_echo : ∃ (s : Talk Nat) (h : Handle Nat), s.sys.handles[0]? = some h ∧
    s.traffic.got (0, .stdin) = [104, 105] ∧ h.info.stdin = FD_INVALID ∧ s.extracted (0, .stdout) = [79] ∧
    s.extracted (0, .stdout) = s.traffic.put (0, .stdout) := by
  have hready : Unix.Ready (Unix.kernelAt (.named 3 4) (.named 9 10) (.named 7 8) 100, { mergeOutputs := true })
      (System.init (Unix.callerTable false)).table := by
    refine ⟨⟨?_, ?_⟩, ?_, rfl⟩
    · intro x hcase
      rcases hcase with rfl | rfl | rfl <;> exact Option.some_ne_none _
    · intro r hcase hr
      rcases hcase with rfl | rfl | rfl <;> cases hr
    · intro x f hcase hf
      rcases hcase with rfl | rfl | rfl | rfl | rfl | rfl <;> cases hf <;> rfl
  have h₁ : Spoken (Unix.callerTable false) _ := .step .init (.system (e := .start _) trivial hready rfl)
  have h₂ := h₁.step (.insert (i := 0) [104, 105] ⟨rfl, by decide⟩ rfl)
  have h₃ := h₂.step (.answer (i := 0) 1 rfl ⟨by decide, fun _ => Option.some_ne_none _⟩)
  have h₄ := h₃.step (.child (i := 0) (.read (x := 0) [104] [] rfl rfl rfl))
  have h₅ := h₄.step (.answer (i := 0) 1 rfl ⟨by decide, fun _ => Option.some_ne_none _⟩)
  have h₆ := h₅.step (.system (e := .closeStdin 0) ⟨⟨rfl, by decide⟩, rfl⟩ trivial rfl)
  have h₇ := h₆.step (.child (i := 0) (.read (x := 0) [105] [] rfl rfl rfl))
  have h₈ := h₇.step (.child (i := 0) (.eof (x := 0) rfl rfl rfl
    ((talking_spoken h₇).traffic.holds.parent_end (i := 0) (a := .stdin) rfl rfl)))
  have h₉ := h₈.step (.child (i := 0) (.write (x := 1) [79] rfl rfl))
  have h₁₀ := h₉.step (.read (i := 0) (x := .stdout) .get ⟨rfl, by decide⟩ rfl rfl (.chunk ⟨[79], by decide, by decide⟩ [] rfl))
  have h₁₁ := h₁₀.step (.system (e := .childExit 0) trivial trivial rfl)
  have h₁₂ := h₁₁.step (.read (i := 0) (x := .stdout) .peek ⟨rfl, by decide⟩ rfl rfl (.eof rfl
    ((talking_spoken h₁₁).traffic.holds.child_end (i := 0) rfl rfl (by rintro ⟨x, hx⟩; cases hx))))
  obtain ⟨-, hgood, hend, hout⟩ := conversation _ _ h₁₂ 0 _ rfl
  have hgot := hgood (show ∀ e ∈ [([104, 105], true)], e.2 = true by decide) rfl
  obtain ⟨hempty, hfd⟩ := hend (show (0, PipeName.stdin) ∈ [(0, .stdin), (0, .stdout)] from List.mem_cons_self)
  have hover := ((hout .stdout).2 (show (0, StreamName.stdout) ∈ [(0, .stdout)] from List.mem_cons_self)).1
  exact ⟨_, _, rfl, (List.append_nil _).symm.trans ((congrArg (_ ++ ·) hempty.symm).trans hgot), hfd, rfl, hover⟩

end CovProcess.Holders
