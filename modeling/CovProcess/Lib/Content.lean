/-
  Content — the contents of a file as a list, and writes into it at a position. A write
  beyond the end fills the gap; a write of nothing changes nothing.

  `pwrite_eq_append_iff`: a write is an append exactly when it lands at the end. `pwrite_resend`:
  a prefix of some data written again and further, from a place inside what was written, is
  one write of the longer prefix.
-/

import Mathlib.Data.List.Basic

namespace Content

variable {α : Type*} (fill : α)

/-- `items` put at a position of a file. -/
def pwrite (old : List α) (pos : Nat) : List α → List α
  | [] => old
  | x :: xs => old.take pos ++ List.replicate (pos - old.length) fill ++ x :: xs ++ old.drop (pos + (x :: xs).length)

variable {fill}

@[simp]
theorem pwrite_nil (old : List α) (pos : Nat) : pwrite fill old pos [] = old := rfl

theorem pwrite_eq (old : List α) (pos : Nat) {items : List α} (h : items ≠ []) : pwrite fill old pos items =
    old.take pos ++ List.replicate (pos - old.length) fill ++ items ++ old.drop (pos + items.length) := by
  cases items with
  | nil => exact absurd rfl h
  | cons x xs => rfl

theorem length_pwrite (old : List α) (pos : Nat) {items : List α} (h : items ≠ []) :
    (pwrite fill old pos items).length = max old.length (pos + items.length) := by
  rw [pwrite_eq old pos h]
  simp only [List.length_append, List.length_take, List.length_replicate, List.length_drop]
  omega

theorem length_le_pwrite (old : List α) (pos : Nat) (items : List α) :
    old.length ≤ (pwrite fill old pos items).length := by
  by_cases h : items = []
  · rw [h]
    exact Nat.le_refl _
  · rw [length_pwrite old pos h]
    exact Nat.le_max_left ..

/-- What is where after a write. -/
theorem getElem?_pwrite (old : List α) (pos : Nat) {items : List α} (h : items ≠ []) (k : Nat) :
    (pwrite fill old pos items)[k]? =
      if k < pos then (if k < old.length then old[k]? else some fill)
      else if k < pos + items.length then items[k - pos]? else old[k]? := by
  rw [pwrite_eq old pos h]
  have hlen : (old.take pos ++ List.replicate (pos - old.length) fill).length = pos := by
    rw [List.length_append, List.length_take, List.length_replicate]
    omega
  by_cases hk : k < pos
  · rw [if_pos hk, List.append_assoc, List.append_assoc, List.getElem?_append]
    by_cases hold : k < old.length
    · rw [if_pos (show k < (old.take pos).length by rw [List.length_take]; omega), if_pos hold,
        List.getElem?_take_of_lt hk]
    · rw [if_neg (show ¬ k < (old.take pos).length by rw [List.length_take]; omega), if_neg hold,
        List.getElem?_append_left (by rw [List.length_take, List.length_replicate]; omega), List.getElem?_replicate,
        if_pos (by rw [List.length_take]; omega)]
  · rw [if_neg hk]
    by_cases hin : k < pos + items.length
    · rw [if_pos hin, List.getElem?_append_left (by rw [List.length_append, hlen]; omega),
        List.getElem?_append_right (by omega), hlen]
    · rw [if_neg hin, List.getElem?_append_right (by rw [List.length_append, hlen]; omega), List.getElem?_drop,
        List.length_append, hlen]
      congr 1
      omega

/-- A write lands at the end exactly when it keeps all that is there and puts its items behind. -/
theorem pwrite_eq_append_iff (old : List α) (pos : Nat) {items : List α} (h : items ≠ []) :
    pwrite fill old pos items = old ++ items ↔ pos = old.length := by
  have hpos : 0 < items.length := List.length_pos_iff.mpr h
  constructor
  · intro heq
    have hlen := congrArg List.length heq
    rw [length_pwrite old pos h, List.length_append] at hlen
    omega
  · rintro rfl
    rw [pwrite_eq old _ h, List.take_length, Nat.sub_self, List.replicate_zero, List.append_nil,
      List.drop_eq_nil_of_le (by omega), List.append_nil]

theorem pwrite_end (old items : List α) : pwrite fill old old.length items = old ++ items := by
  by_cases h : items = []
  · rw [h, pwrite_nil, List.append_nil]
  · exact (pwrite_eq_append_iff old _ h).mpr rfl

/-- Some `data` belongs at a position, and a part of it is put where that part belongs. -/
theorem getElem?_pwrite_part (old data : List α) (pos : Nat) {m n : Nat} (hpos : 0 < n) (hn : m + n ≤ data.length) (k : Nat) :
    (pwrite fill old (pos + m) ((data.drop m).take n))[k]? =
      if k < pos + m then (if k < old.length then old[k]? else some fill)
      else if k < pos + (m + n) then data[k - pos]? else old[k]? := by
  have hlen : ((data.drop m).take n).length = n := by
    rw [List.length_take, List.length_drop]
    omega
  rw [getElem?_pwrite _ _ (List.ne_nil_of_length_pos (by omega)), hlen, ← Nat.add_assoc]
  by_cases hk : pos + m ≤ k ∧ k < pos + m + n
  · rw [if_neg (show ¬ k < pos + m by omega), if_pos hk.2, List.getElem?_take_of_lt (by omega), List.getElem?_drop,
      if_neg (show ¬ k < pos + m by omega), if_pos hk.2]
    congr 1
    omega
  · by_cases hlow : k < pos + m
    · rw [if_pos hlow, if_pos hlow]
    · rw [if_neg hlow, if_neg hlow, if_neg (show ¬ k < pos + m + n by omega), if_neg (show ¬ k < pos + m + n by omega)]

/-- Of `data`, of which the first `k` are written, `n` from the `m`th on are written again. -/
theorem pwrite_resend (old data : List α) (pos : Nat) {m k : Nat} (n : Nat) (hmk : m ≤ k) (hk : k ≤ data.length)
    (hn : m + n ≤ data.length) :
    pwrite fill (pwrite fill old pos (data.take k)) (pos + m) ((data.drop m).take n) =
      pwrite fill old pos (data.take (max k (m + n))) := by
  by_cases hzero : n = 0
  · rw [hzero, List.take_zero, pwrite_nil, Nat.add_zero, Nat.max_eq_left hmk]
  have hwhole : ∀ l, 0 < l → l ≤ data.length → ∀ j, (pwrite fill old pos (data.take l))[j]? =
      if j < pos then (if j < old.length then old[j]? else some fill)
      else if j < pos + l then data[j - pos]? else old[j]? := by
    intro l hl hle j
    have hpart := @getElem?_pwrite_part _ fill old data pos 0 l hl (by omega) j
    rwa [List.drop_zero, Nat.add_zero, Nat.zero_add] at hpart
  refine List.ext_getElem? ?_
  intro j
  rw [getElem?_pwrite_part _ _ _ (by omega) hn, hwhole (max k (m + n)) (by omega) (by omega)]
  by_cases hfirst : k = 0
  · obtain rfl : m = 0 := by omega
    rw [hfirst, List.take_zero, pwrite_nil, Nat.zero_max, Nat.add_zero]
  · rw [hwhole k (by omega) hk, length_pwrite _ _ (List.ne_nil_of_length_pos (by rw [List.length_take]; omega)),
      List.length_take, Nat.min_eq_left hk]
    by_cases hlow : j < pos
    · rw [if_pos (show j < pos + m by omega), if_pos hlow, if_pos hlow]
      by_cases hold : j < old.length
      · rw [if_pos (show j < max old.length (pos + k) by omega)]
      · rw [if_neg hold, ite_self]
    · by_cases hin : j < pos + k
      · rw [if_neg hlow, if_neg hlow, if_pos hin, if_pos (show j < pos + max k (m + n) by omega),
          if_pos (show j < max old.length (pos + k) by omega), ite_self, ite_self]
      · rw [if_neg (show ¬ j < pos + m by omega), if_neg hlow, if_neg hlow, if_neg hin]
        by_cases hnew : j < pos + (m + n)
        · rw [if_pos hnew, if_pos (show j < pos + max k (m + n) by omega)]
        · rw [if_neg hnew, if_neg (show ¬ j < pos + max k (m + n) by omega)]

end Content
