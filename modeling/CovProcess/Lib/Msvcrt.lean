/-
  CovProcess.Lib.Msvcrt — how the Microsoft C runtime splits a command line into `argv`.

  Argument 0 follows the program-name rule: quotes only switch quoting on and off and
  backslashes are ordinary. Later arguments follow the backslash rule: `2n` backslashes
  before a quote give `n` backslashes and the quote is a delimiter, `2n+1` give `n`
  backslashes and a literal quote, any other backslash is literal. Blanks (space, tab)
  outside quotes separate arguments.

  `Scan` is the state inside one argument; the backslashes of a run are counted, not
  copied, until the character after the run is known.
-/

import Mathlib.Data.List.Basic

namespace Msvcrt

def isBlank (c : Char) : Bool := c == ' ' || c == '\t'

/-- The program-name rule: the name, and the line after it. -/
def program : Bool → List Char → List Char × List Char
  | _, [] => ([], [])
  | inquote, c :: cs =>
    if c = '"' then program (!inquote) cs
    else if !inquote && isBlank c then ([], c :: cs)
    else (c :: (program inquote cs).1, (program inquote cs).2)

structure Scan where
  inquote : Bool := false
  numslash : Nat := 0
  copied : List Char := []

/-- The argument if it ended here: a run of backslashes before no quote is literal. -/
def Scan.text (s : Scan) : List Char := s.copied ++ List.replicate s.numslash '\\'

def Scan.feed (s : Scan) (c : Char) : Scan :=
  if c = '\\' then { s with numslash := s.numslash + 1 }
  else if c = '"' then
    if s.numslash % 2 = 0 then
      ⟨!s.inquote, 0, s.copied ++ List.replicate (s.numslash / 2) '\\'⟩
    else ⟨s.inquote, 0, s.copied ++ List.replicate (s.numslash / 2) '\\' ++ ['"']⟩
  else ⟨s.inquote, 0, s.text ++ [c]⟩

/-- The later arguments: `none` between two arguments, `some` inside one. -/
def arguments : Option Scan → List Char → List (List Char)
  | none, [] => []
  | some s, [] => [s.text]
  | none, c :: cs => if isBlank c then arguments none cs else arguments (some (Scan.feed {} c)) cs
  | some s, c :: cs =>
    if !s.inquote && isBlank c then s.text :: arguments none cs
    else arguments (some (s.feed c)) cs

def argv (line : List Char) : List (List Char) :=
  (program false line).1 :: arguments none (program false line).2

/-! ## The program name -/

theorem program_plain (s rest : List Char) (hq : '"' ∉ s) (hb : ∀ c ∈ s, isBlank c = false) :
    program false (s ++ ' ' :: rest) = (s, ' ' :: rest) := by
  induction s with
  | nil => rfl
  | cons c s ih =>
    obtain ⟨hc, hq⟩ := List.ne_and_not_mem_of_not_mem_cons hq
    have hbc := hb c List.mem_cons_self
    have ih := ih hq fun d hd => hb d (List.mem_cons_of_mem _ hd)
    simp [program, Ne.symm hc, hbc, ih]

/-- Up to the closing quote everything is copied. -/
theorem program_quoted (s rest : List Char) (hq : '"' ∉ s) :
    program true (s ++ '"' :: ' ' :: rest) = (s, ' ' :: rest) := by
  induction s with
  | nil => rfl
  | cons c s ih =>
    obtain ⟨hc, hq⟩ := List.ne_and_not_mem_of_not_mem_cons hq
    simp [program, Ne.symm hc, ih hq]

/-! ## The later arguments -/

@[simp] theorem feed_backslash (s : Scan) : s.feed '\\' = { s with numslash := s.numslash + 1 } := rfl

theorem feed_other (s : Scan) {c : Char} (hs : c ≠ '\\') (hq : c ≠ '"') :
    s.feed c = ⟨s.inquote, 0, s.text ++ [c]⟩ := by
  simp [Scan.feed, hs, hq]

/-- `2n` backslashes and a quote: `n` backslashes, and quoting switches. -/
theorem feed_quote_even (q : Bool) (n : Nat) (a : List Char) :
    Scan.feed ⟨q, 2 * n, a⟩ '"' = ⟨!q, 0, a ++ List.replicate n '\\'⟩ := by
  simp [Scan.feed]

/-- `2n+1` backslashes and a quote: `n` backslashes and the quote. -/
theorem feed_quote_odd (q : Bool) (n : Nat) (a : List Char) :
    Scan.feed ⟨q, 2 * n + 1, a⟩ '"' = ⟨q, 0, a ++ List.replicate n '\\' ++ ['"']⟩ := by
  have h2 : (2 * n + 1) / 2 = n := by omega
  simp [Scan.feed, h2, Nat.add_mod]

theorem arguments_blank (c : Char) (cs : List Char) (h : isBlank c = true) :
    arguments none (c :: cs) = arguments none cs := by
  simp [arguments, h]

/-- A character that is not a blank opens an argument. -/
theorem arguments_open (c : Char) (cs : List Char) (h : isBlank c = false) :
    arguments none (c :: cs) = arguments (some {}) (c :: cs) := by
  simp [arguments, h]

/-- Inside quotes, and outside them at a character that is no blank, scanning goes on. -/
theorem arguments_feed (s : Scan) (c : Char) (cs : List Char) (h : s.inquote = true ∨ isBlank c = false) :
    arguments (some s) (c :: cs) = arguments (some (s.feed c)) cs := by
  rcases h with h | h <;> simp [arguments, h]

theorem arguments_end (n : Nat) (a cs : List Char) :
    arguments (some ⟨false, n, a⟩) (' ' :: cs) = (a ++ List.replicate n '\\') :: arguments none cs := by
  simp [arguments, isBlank, Scan.text]

/-- A run of backslashes is only counted. -/
theorem arguments_backslashes (q : Bool) (a cs : List Char) (k : Nat) : ∀ n,
    arguments (some ⟨q, n, a⟩) (List.replicate k '\\' ++ cs) = arguments (some ⟨q, n + k, a⟩) cs := by
  induction k with
  | zero => intro n; rfl
  | succ k ih =>
    intro n
    rw [List.replicate_succ, List.cons_append, arguments_feed _ _ _ (Or.inr rfl), feed_backslash, ih,
      Nat.add_right_comm, Nat.add_assoc]

/-- Text without blanks and quotes is copied up to the blank that ends it. -/
theorem arguments_plain (s rest : List Char) (hq : '"' ∉ s) (hb : ∀ c ∈ s, isBlank c = false) :
    ∀ n a, arguments (some ⟨false, n, a⟩) (s ++ ' ' :: rest) =
      (a ++ List.replicate n '\\' ++ s) :: arguments none rest := by
  induction s with
  | nil => intro n a; rw [List.nil_append, arguments_end, List.append_nil]
  | cons c s ih =>
    intro n a
    obtain ⟨hc, hq⟩ := List.ne_and_not_mem_of_not_mem_cons hq
    have ih := ih hq fun d hd => hb d (List.mem_cons_of_mem _ hd)
    rw [List.cons_append, arguments_feed _ _ _ (Or.inr (hb c List.mem_cons_self))]
    by_cases h : c = '\\'
    · subst h
      rw [feed_backslash, ih]
      simp [List.replicate_succ', List.append_assoc]
    · rw [feed_other _ h (Ne.symm hc), ih]
      simp [Scan.text, List.append_assoc]

end Msvcrt
