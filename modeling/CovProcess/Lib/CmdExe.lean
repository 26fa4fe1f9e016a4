/-
  CovProcess.Lib.CmdExe — which command `cmd` takes from its command line. After the
  program's name and `/c`, the rest of the line is the command; if it starts with a quote,
  that quote and the last quote of the line are dropped, and all else is kept.

  This is not the rule of the runtime (`Lib.Msvcrt`): a backslash escapes nothing here.
-/

import Mathlib.Data.List.DropRight
import CovProcess.Lib.Msvcrt

namespace CmdExe

open Msvcrt

/-- The line after `/c` and the blanks that follow it. -/
def afterSwitch (line : List Char) : Option (List Char) :=
  match (program false line).2.dropWhile isBlank with
  | '/' :: 'c' :: rest => some (rest.dropWhile isBlank)
  | '/' :: 'C' :: rest => some (rest.dropWhile isBlank)
  | _ => none

def dropLastQuote : List Char → List Char
  | [] => []
  | c :: cs => if '"' ∈ cs then c :: dropLastQuote cs else if c = '"' then cs else c :: cs

/-- The rule of `/c`. -/
def command : List Char → List Char
  | [] => []
  | c :: rest => if c = '"' then dropLastQuote rest else c :: rest

theorem dropLastQuote_append {pre post : List Char} (h : '"' ∉ post) :
    dropLastQuote (pre ++ '"' :: post) = pre ++ post := by
  induction pre with
  | nil => rw [List.nil_append, dropLastQuote, if_neg h, if_pos rfl, List.nil_append]
  | cons c pre ih =>
    have hmem : '"' ∈ pre ++ '"' :: post := List.mem_append_right _ List.mem_cons_self
    rw [List.cons_append, dropLastQuote, if_pos hmem, ih, List.cons_append]

/-- Without a quote in it the rest is the command. -/
theorem command_plain {rest : List Char} (h : '"' ∉ rest) : command rest = rest := by
  cases rest with
  | nil => rfl
  | cons c rest =>
    obtain ⟨hc, -⟩ := List.ne_and_not_mem_of_not_mem_cons h
    exact if_neg (Ne.symm hc)

theorem command_quoted {text post : List Char} (h : '"' ∉ post) : command ('"' :: text ++ '"' :: post) = text ++ post := by
  rw [List.cons_append, command, if_pos rfl, dropLastQuote_append h]

/-! ## Up to trailing blanks -/

def rstrip (s : List Char) : List Char := s.rdropWhile isBlank

theorem rstrip_blank (s : List Char) : rstrip (s ++ [' ']) = rstrip s :=
  List.rdropWhile_concat_pos isBlank s ' ' rfl

theorem count_rstrip {c : Char} (hc : isBlank c = false) (s : List Char) : (rstrip s).count c = s.count c := by
  induction s using List.reverseRecOn with
  | nil => rfl
  | append_singleton s d ih =>
    unfold rstrip
    rw [List.rdropWhile_concat]
    split
    · rename_i hd
      have hne : d ≠ c := by
        intro heq
        rw [heq, hc] at hd
        cases hd
      rw [List.count_append, List.count_singleton, if_neg (by simpa using hne)]
      exact ih
    · rfl

end CmdExe
