/-
  NulString — the string functions of C over a buffer whose text ends at a NUL. A pointer
  is what the buffer has from there on; outside it nothing can be read, and a function that
  would has no result. `strchr` and `strrchr` find a character, `strtoull` reads a number in
  base 10.
-/

import Mathlib.Algebra.Group.Nat.Defs
import Mathlib.Data.List.Basic

namespace NulString

/-! ## Finding a character -/

section

variable {α : Type*} [DecidableEq α] (nul : α)

/-- Where the first `c` of a text is. -/
def strchr (c : α) : List α → Option (Option (List α))
  | [] => none
  | x :: xs => if x = c then some (some (x :: xs)) else if x = nul then some none else strchr c xs

/-- Where the last one is. -/
def strrchr (c : α) : List α → Option (Option (List α))
  | [] => none
  | x :: xs =>
    if x = nul then some none
    else (strrchr c xs).map fun last => last.or (if x = c then some (x :: xs) else none)

variable {nul} {c : α}

theorem strchr_append {s : List α} (hc : c ∉ s) (hnul : nul ∉ s) (rest : List α) :
    strchr nul c (s ++ c :: rest) = some (some (c :: rest)) := by
  induction s with
  | nil => exact if_pos rfl
  | cons x s ih =>
    obtain ⟨hxc, hc⟩ := List.ne_and_not_mem_of_not_mem_cons hc
    obtain ⟨hxn, hnul⟩ := List.ne_and_not_mem_of_not_mem_cons hnul
    rw [List.cons_append, strchr, if_neg (Ne.symm hxc), if_neg (Ne.symm hxn)]
    exact ih hc hnul

/-- What is behind the NUL does not matter. -/
theorem strrchr_absent {s : List α} (hc : c ∉ s) (rest : List α) : strrchr nul c (s ++ nul :: rest) = some none := by
  induction s with
  | nil => exact if_pos rfl
  | cons x s ih =>
    obtain ⟨hxc, hc⟩ := List.ne_and_not_mem_of_not_mem_cons hc
    rw [List.cons_append, strrchr]
    by_cases hx : x = nul
    · rw [if_pos hx]
    · rw [if_neg hx, ih hc, if_neg (Ne.symm hxc)]
      rfl

theorem strrchr_append {s rest : List α} (hnul : nul ∉ s) (hne : c ≠ nul) (hrest : strrchr nul c rest = some none) :
    strrchr nul c (s ++ c :: rest) = some (some (c :: rest)) := by
  induction s with
  | nil =>
    rw [List.nil_append, strrchr, if_neg hne, hrest, if_pos rfl]
    rfl
  | cons x s ih =>
    obtain ⟨hx, hnul⟩ := List.ne_and_not_mem_of_not_mem_cons hnul
    rw [List.cons_append, strrchr, if_neg (Ne.symm hx), ih hnul]
    rfl

end

/-! ## Numbers -/

def isSpace (c : Char) : Bool := c = ' ' || ('\t' ≤ c && c ≤ '\r')

/-- The value of decimal digits. -/
def decimal (digits : List Char) : Nat := Nat.ofDigitChars 10 digits 0

def IsDecimal (s : List Char) : Prop := s ≠ [] ∧ ∀ c ∈ s, c.isDigit = true

instance (s : List Char) : Decidable (IsDecimal s) := @instDecidableAnd _ _ _ (List.decidableBAll _ s)

theorem isDecimal_toDigits (n : Nat) : IsDecimal (Nat.toDigits 10 n) :=
  ⟨Nat.toDigits_ne_nil, fun _ hc => Nat.isDigit_of_mem_toDigits (by decide) (by decide) hc⟩

/-- `strtoull(s, nullptr, 10)` in 64 bits: blanks, a sign, and digits, as far as they go. -/
def strtoull (s : List Char) : Option Nat :=
  let s := s.dropWhile isSpace
  let body := if s.head? = some '-' ∨ s.head? = some '+' then s.tail else s
  let digits := body.takeWhile Char.isDigit
  if digits.length = body.length then none
  else if 2 ^ 64 ≤ decimal digits then some (2 ^ 64 - 1)
  else if s.head? = some '-' then some ((2 ^ 64 - decimal digits) % 2 ^ 64)
  else some (decimal digits)

theorem isDigit_start {c : Char} (h : c.isDigit = true) : isSpace c = false ∧ c ≠ '-' ∧ c ≠ '+' := by
  have hlo : '0' ≤ c := by
    simp only [Char.isDigit, Bool.and_eq_true, decide_eq_true_eq] at h
    exact h.1
  have hlt : ∀ x : Char, x < '0' → c ≠ x := fun x hx he => Char.not_lt.mpr (he ▸ hlo) hx
  have hret : ¬ c ≤ '\r' := fun hc => absurd (Char.le_trans hlo hc) (by decide)
  refine ⟨?_, hlt '-' (by decide), hlt '+' (by decide)⟩
  simp [isSpace, hlt ' ' (by decide), hret]

theorem strtoull_decimal {d : List Char} (hd : IsDecimal d) (hlt : decimal d < 2 ^ 64) {c : Char} (hc : c.isDigit = false)
    (rest : List Char) : strtoull (d ++ c :: rest) = some (decimal d) := by
  obtain ⟨hne, hall⟩ := hd
  obtain ⟨x, xs, rfl⟩ := List.exists_cons_of_ne_nil hne
  obtain ⟨hspace, hminus, hplus⟩ := isDigit_start (hall x List.mem_cons_self)
  have hdrop : (x :: xs ++ c :: rest).dropWhile isSpace = x :: xs ++ c :: rest := by
    rw [List.cons_append, List.dropWhile_cons_of_neg (by rw [hspace]; decide)]
  have hhead : ¬ ((x :: xs ++ c :: rest).head? = some '-' ∨ (x :: xs ++ c :: rest).head? = some '+') := by
    simp [hminus, hplus]
  have htake : (x :: xs ++ c :: rest).takeWhile Char.isDigit = x :: xs := by
    rw [List.takeWhile_append_of_pos hall, List.takeWhile_cons_of_neg (by rw [hc]; decide), List.append_nil]
  simp only [strtoull, hdrop, if_neg hhead, htake]
  rw [if_neg (by simp), if_neg (Nat.not_le.mpr hlt), if_neg (fun h => hhead (.inl h))]

end NulString
