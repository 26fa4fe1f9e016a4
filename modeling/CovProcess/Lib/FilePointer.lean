/-
  FilePointer — an open file with a position of its own (a Unix open file description, a
  Windows file object): reads and writes go by the position and move it past what they
  took; with the append flag a write moves it to the end of the file first.

  `write_eq_append_iff`: a write lands at the end exactly when the flag is set or the
  position is there.
-/

import CovProcess.Lib.Content

namespace FilePointer

open Content

structure Desc where
  pos : Nat
  append : Bool
  deriving DecidableEq, Repr

namespace Desc

variable {α : Type*} (fill : α)

/-- Where a write lands in a file of a size. -/
def start (d : Desc) (size : Nat) : Nat := if d.append then size else d.pos

def write (d : Desc) (old items : List α) : Desc × List α :=
  ({ d with pos := d.start old.length + items.length }, pwrite fill old (d.start old.length) items)

def read (d : Desc) (old : List α) (n : Nat) : Desc × List α := ({ d with pos := d.pos + n }, (old.drop d.pos).take n)

variable {fill}

theorem write_eq_append_iff (d : Desc) (old : List α) {items : List α} (h : items ≠ []) :
    (d.write fill old items).2 = old ++ items ↔ d.append = true ∨ d.pos = old.length := by
  show pwrite fill old (d.start old.length) items = _ ↔ _
  rw [pwrite_eq_append_iff old _ h, start]
  cases d.append with
  | true => exact iff_of_true rfl (.inl rfl)
  | false => exact ⟨.inr, fun h => h.resolve_left Bool.false_ne_true⟩

theorem write_pos_end (d : Desc) (old items : List α) (h : d.start old.length = old.length) :
    (d.write fill old items).1.pos = (d.write fill old items).2.length := by
  show d.start old.length + items.length = (pwrite fill old (d.start old.length) items).length
  rw [h, pwrite_end, List.length_append]

end Desc

end FilePointer
