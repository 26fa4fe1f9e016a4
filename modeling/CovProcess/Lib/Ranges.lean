/-
  CovProcess.Lib.Ranges — ranges handed out by a cursor. A user notes the cursor's
  position, and later moves the cursor forward by the length of what it took there; in
  between others may have moved it.

  `advance_apart_iff`: the ranges stay apart exactly when the cursor is still where it was
  noted, and `Cursor.tiles`: ranges that are apart cover all that the cursor has passed.
-/

import Mathlib.Order.Interval.Set.Basic
import Mathlib.Data.Set.Lattice
import Mathlib.Order.CompletePartialOrder

namespace Ranges

structure Range where
  start : Nat
  len : Nat
  deriving DecidableEq, Repr

def Range.toSet (r : Range) : Set Nat := Set.Ico r.start (r.start + r.len)

def Apart (a b : Range) : Prop := Disjoint a.toSet b.toSet

/-- The ranges are apart and together all of `[0, p)`. -/
structure Tiles (p : Nat) (l : List Range) : Prop where
  apart : l.Pairwise Apart
  covers : ⋃ r ∈ l, r.toSet = Set.Iio p

/-- A cursor at a position, with the ranges taken so far, the newest first. -/
inductive Cursor : Nat → List Range → Prop
  | start : Cursor 0 []
  | advance {p o n : Nat} {l : List Range} : Cursor p l → o ≤ p → 0 < n → Cursor (p + n) (⟨o, n⟩ :: l)

/-- The cursor is past every range. -/
theorem Cursor.le {p : Nat} {l : List Range} (h : Cursor p l) {r : Range} (hr : r ∈ l) : r.start + r.len ≤ p := by
  induction h with
  | start => cases hr
  | @advance p o n l _ ho _ ih =>
    cases hr with
    | head =>
      show o + n ≤ p + n
      omega
    | tail _ hr =>
      have := ih hr
      omega

/-- A range apart from all that was taken starts at the cursor: its start is not below, for
    one that was taken would hold it. -/
theorem Tiles.start_eq {p o n : Nat} {l : List Range} (h : Tiles p l) (ho : o ≤ p) (hn : 0 < n)
    (hapart : ∀ r ∈ l, Apart ⟨o, n⟩ r) : o = p := by
  by_contra hne
  have hmem : o ∈ ⋃ r ∈ l, r.toSet := by
    rw [h.covers]
    exact lt_of_le_of_ne ho hne
  obtain ⟨r, hr, ho'⟩ := Set.mem_iUnion₂.mp hmem
  refine Set.disjoint_left.mp (hapart r hr) ⟨le_rfl, ?_⟩ ho'
  show o < o + n
  omega

theorem Cursor.tiles {p : Nat} {l : List Range} (h : Cursor p l) (hl : l.Pairwise Apart) : Tiles p l := by
  induction h with
  | start => exact ⟨.nil, Set.ext fun k => by simp⟩
  | @advance p o n l h ho hn ih =>
    obtain ⟨hhead, htail⟩ := List.pairwise_cons.mp hl
    refine ⟨hl, Set.ext ?_⟩
    intro k
    have heq : o = p := (ih htail).start_eq ho hn hhead
    subst heq
    have hk := Set.ext_iff.mp (ih htail).covers k
    simp only [Set.mem_iUnion, exists_prop, Set.mem_Iio] at hk
    simp only [Set.mem_iUnion, List.mem_cons, exists_prop, exists_eq_or_imp, Set.mem_Iio, hk]
    show (o ≤ k ∧ k < o + n) ∨ k < o ↔ k < o + n
    omega

theorem Cursor.tiles_iff {p : Nat} {l : List Range} (h : Cursor p l) : Tiles p l ↔ l.Pairwise Apart :=
  ⟨Tiles.apart, h.tiles⟩

theorem advance_apart_iff {p o n : Nat} {l : List Range} (h : Cursor p l) (ho : o ≤ p) (hn : 0 < n) :
    (⟨o, n⟩ :: l).Pairwise Apart ↔ l.Pairwise Apart ∧ o = p := by
  rw [List.pairwise_cons]
  constructor
  · intro hl
    exact ⟨hl.2, (h.tiles hl.2).start_eq ho hn hl.1⟩
  · intro hl
    obtain ⟨htail, rfl⟩ := hl
    refine ⟨fun r hr => Set.disjoint_left.mpr ?_, htail⟩
    intro k hk hk'
    have hlow : o ≤ k := hk.1
    have hhigh : k < r.start + r.len := hk'.2
    have := h.le hr
    omega

end Ranges
