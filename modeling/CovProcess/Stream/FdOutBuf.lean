/-
  CovProcess.Stream.FdOutBuf — `fdoutbuf` and `fdostream`
  (`include/mozart++/mpp_foundation/fdstream.hpp`, Unix), the buffer and the stream behind
  `in()`.

  Nothing is kept back: there is no put area, so a character goes to `overflow` and a block
  to `xsputn`. What `write(2)` answers is data, one number for each call; an insertion whose
  answers run out is still inside `write`. `put` and `write` are the `ostream`'s, to which
  every insertion comes down; of its state they need the `badbit`.

  Proved: `write_prefix`, what the kernel took of a block is a prefix of it, as long as the
  count says; `writeLoop_returns`, a block needs at most as many answers as it has bytes;
  `write_invalid` and `put_invalid`, an invalidated buffer asks for nothing.
-/

import Mathlib.Data.List.Basic

namespace CovProcess.Stream

/-! ## What the kernel is asked -/

structure Write where
  bytes : List UInt8
  written : Int
  deriving DecidableEq, Repr

/-- `write(2)` takes no more than it was given. -/
def Write.Fits (w : Write) : Prop := w.written ≤ w.bytes.length

instance (w : Write) : Decidable w.Fits := inferInstanceAs (Decidable (_ ≤ _))

def Write.taken (w : Write) : List UInt8 := w.bytes.take w.written.toNat

/-- The bytes the kernel took, in the order it took them. -/
def handed (ws : List Write) : List UInt8 := ws.flatMap Write.taken

/-! ## The buffer -/

structure FdOutBuf where
  fd : Int
  valid : Bool := true
  deriving DecidableEq, Repr

/-- `while (total < num)`, from `total` on. -/
def writeLoop (s : List UInt8) (total : Nat) : List Int → Option (Nat × List Write)
  | [] => if total < s.length then none else some (total, [])
  | written :: answers =>
    if total < s.length then
      if written ≤ 0 then some (total, [⟨s.drop total, written⟩])
      else
        (writeLoop s (total + written.toNat) answers).map fun (total', ws) =>
          (total', ⟨s.drop total, written⟩ :: ws)
    else some (total, [])

namespace FdOutBuf

def invalidate (b : FdOutBuf) : FdOutBuf := { b with valid := false }

/-- `none` is `EOF`. -/
def overflow (b : FdOutBuf) (c : Option UInt8) (written : Int) : Option UInt8 × List Write :=
  if !b.valid then (none, [])
  else
    match c with
    | some z => (if written ≠ 1 then none else some z, [⟨[z], written⟩])
    | none => (none, [])

def xsputn (b : FdOutBuf) (s : List UInt8) (answers : List Int) : Option (Nat × List Write) :=
  if !b.valid then some (0, [])
  else if s.length = 0 then some (0, [])
  else writeLoop s 0 answers

end FdOutBuf

/-! ## The stream -/

structure FdOStream where
  buf : FdOutBuf
  bad : Bool := false
  deriving DecidableEq, Repr

namespace FdOStream

def invalidate (o : FdOStream) : FdOStream := { o with buf := o.buf.invalidate }

def clear (o : FdOStream) : FdOStream := { o with bad := false }

/-- One character; the result is what `sputc` gave, if it was asked. -/
def put (o : FdOStream) (c : UInt8) (written : Int) : FdOStream × Option UInt8 × List Write :=
  if o.bad then (o, none, [])
  else ({ o with bad := (o.buf.overflow (some c) written).1.isNone }, o.buf.overflow (some c) written)

/-- A block; the count is that of `sputn`. -/
def write (o : FdOStream) (s : List UInt8) (answers : List Int) : Option (FdOStream × Nat × List Write) :=
  if o.bad then some (o, 0, [])
  else (o.buf.xsputn s answers).map fun (n, ws) => ({ o with bad := n ≠ s.length }, n, ws)

end FdOStream

/-! ## What is handed over -/

@[simp] theorem handed_nil : handed [] = [] := rfl

@[simp] theorem handed_cons (w : Write) (ws : List Write) : handed (w :: ws) = w.taken ++ handed ws := rfl

/-- A call that failed took nothing. -/
theorem Write.taken_of_le {w : Write} (h : w.written ≤ 0) : w.taken = [] := by
  rw [Write.taken, Int.toNat_of_nonpos h, List.take_zero]

theorem Write.Fits.length_taken {w : Write} (h : w.Fits) : w.taken.length = w.written.toNat := by
  rw [Write.taken, List.length_take]
  simp only [Write.Fits] at h
  omega

/-- The ways in which the loop ends: all is out, a call took nothing, or a call took some
    and the rest is left to the loop. -/
theorem writeLoop_some {s : List UInt8} {total n : Nat} {answers : List Int} {ws : List Write}
    (h : writeLoop s total answers = some (n, ws)) :
    (s.length ≤ total ∧ n = total ∧ ws = []) ∨
    (∃ written, written ≤ 0 ∧ n = total ∧ ws = [⟨s.drop total, written⟩]) ∨
    ∃ written rest ws', answers = written :: rest ∧ 0 < written ∧
      writeLoop s (total + written.toNat) rest = some (n, ws') ∧ ws = ⟨s.drop total, written⟩ :: ws' := by
  cases answers with
  | nil =>
    simp only [writeLoop] at h
    split at h <;> cases h
    exact .inl ⟨by omega, rfl, rfl⟩
  | cons written rest =>
    simp only [writeLoop] at h
    split at h
    · split at h
      · cases h
        exact .inr (.inl ⟨written, ‹_›, rfl, rfl⟩)
      · obtain ⟨⟨n', ws'⟩, hrest, heq⟩ := Option.map_eq_some_iff.mp h
        cases heq
        exact .inr (.inr ⟨written, rest, ws', rfl, by omega, hrest, rfl⟩)
    · cases h
      exact .inl ⟨by omega, rfl, rfl⟩

/-- From `total` on the kernel takes a prefix of what is left, and the count grows by it. -/
theorem writeLoop_prefix {s : List UInt8} {answers : List Int} {total n : Nat} {ws : List Write}
    (h : writeLoop s total answers = some (n, ws)) (hfits : ∀ w ∈ ws, w.Fits) :
    handed ws <+: s.drop total ∧ n = total + (handed ws).length := by
  induction answers generalizing total ws with
  | nil =>
    rcases writeLoop_some h with ⟨-, rfl, rfl⟩ | ⟨written, hw, rfl, rfl⟩ | ⟨_, _, _, heq, -⟩
    · exact ⟨List.nil_prefix, rfl⟩
    · rw [handed_cons, Write.taken_of_le hw]
      exact ⟨List.nil_prefix, rfl⟩
    · cases heq
  | cons written rest ih =>
    rcases writeLoop_some h with ⟨-, rfl, rfl⟩ | ⟨written', hw, rfl, rfl⟩ | ⟨_, _, ws', heq, hpos, hrest, rfl⟩
    · exact ⟨List.nil_prefix, rfl⟩
    · rw [handed_cons, Write.taken_of_le hw]
      exact ⟨List.nil_prefix, rfl⟩
    · cases heq
      obtain ⟨⟨left, hleft⟩, hn⟩ := ih hrest fun w hw => hfits w (List.mem_cons_of_mem _ hw)
      have hlen : (Write.taken ⟨s.drop total, written⟩).length = written.toNat :=
        (hfits _ List.mem_cons_self).length_taken
      refine ⟨⟨left, ?_⟩, ?_⟩
      · rw [handed_cons, List.append_assoc, hleft, ← List.drop_drop]
        exact List.take_append_drop _ _
      · rw [handed_cons, List.length_append, hlen, hn]
        omega

/-- Each call that takes a byte brings the loop on. -/
theorem writeLoop_returns {s : List UInt8} {answers : List Int} {total : Nat} (h : s.length ≤ total + answers.length) :
    (writeLoop s total answers).isSome := by
  induction answers generalizing total with
  | nil =>
    have hdone : ¬ total < s.length := by simpa using h
    simp [writeLoop, hdone]
  | cons written rest ih =>
    simp only [writeLoop]
    split
    · split
      · rfl
      · rw [Option.isSome_map]
        refine ih ?_
        simp only [List.length_cons] at h
        omega
    · rfl

namespace FdOStream

variable {o o' : FdOStream} {s : List UInt8} {answers : List Int} {n : Nat} {ws : List Write}

theorem write_prefix (h : o.write s answers = some (o', n, ws)) (hfits : ∀ w ∈ ws, w.Fits) :
    handed ws <+: s ∧ n = (handed ws).length := by
  have hnone : handed [] <+: s ∧ 0 = (handed []).length := ⟨List.nil_prefix, rfl⟩
  simp only [write, FdOutBuf.xsputn] at h
  split at h
  · cases h
    exact hnone
  · obtain ⟨⟨n', ws'⟩, hbuf, heq⟩ := Option.map_eq_some_iff.mp h
    cases heq
    split at hbuf
    · cases hbuf
      exact hnone
    · split at hbuf
      · cases hbuf
        exact hnone
      · simpa using writeLoop_prefix hbuf hfits

theorem write_buf (h : o.write s answers = some (o', n, ws)) : o'.buf = o.buf := by
  simp only [write] at h
  split at h
  · cases h
    rfl
  · obtain ⟨_, -, heq⟩ := Option.map_eq_some_iff.mp h
    cases heq
    rfl

theorem write_invalid (h : o.write s answers = some (o', n, ws)) (hv : o.buf.valid = false) : ws = [] := by
  simp only [write, FdOutBuf.xsputn, hv] at h
  split at h <;> cases h <;> rfl

theorem put_buf (o : FdOStream) (c : UInt8) (written : Int) : (o.put c written).1.buf = o.buf := by
  unfold put
  split <;> rfl

theorem put_invalid (c : UInt8) (written : Int) (hv : o.buf.valid = false) : (o.put c written).2.2 = [] := by
  simp only [put, FdOutBuf.overflow, hv]
  split <;> rfl

end FdOStream

end CovProcess.Stream
