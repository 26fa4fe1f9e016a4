/-
  CovProcess.Win32.CommandLine — the command line `create_process_impl` builds for
  `CreateProcess` (`src/process_win32.cpp`).

  Each string of `_cmdline` is written as it is, or quoted when it is empty or holds a
  blank, a newline, a vertical tab or a quote; a space follows each. Inside the quotes a
  run of backslashes is doubled when a quote follows it, and that quote is escaped by
  one more; a run before the closing quote is doubled; any other run stays.

  Proved: `argv_commandLine`, the runtime's rules (`Lib.Msvcrt`) read the original
  strings back, for every argument list and every program name without a quote and
  without a trailing backslash.
-/

import CovProcess.Lib.Msvcrt

namespace CovProcess.Win32

def needQuote (s : List Char) : Bool :=
  s.isEmpty || s.any fun c => c == ' ' || c == '\t' || c == '\n' || c == '\x0b' || c == '"'

/-- The loop over a quoted argument, `backslashes` the length of the run just read. -/
def quoteLoop : Nat → List Char → List Char
  | backslashes, [] => List.replicate (backslashes * 2) '\\'
  | backslashes, c :: cs =>
    if c = '\\' then quoteLoop (backslashes + 1) cs
    else if c = '"' then List.replicate (backslashes * 2 + 1) '\\' ++ '"' :: quoteLoop 0 cs
    else List.replicate backslashes '\\' ++ c :: quoteLoop 0 cs

def encode (s : List Char) : List Char :=
  if needQuote s then '"' :: quoteLoop 0 s ++ ['"'] else s

/-- `command`: what is handed to `CreateProcess`, without the final NUL. -/
def commandLine (cmdline : List String) : List Char :=
  cmdline.flatMap fun s => encode s.toList ++ [' ']

/-! ## One argument -/

theorem not_needQuote {s : List Char} (h : needQuote s = false) :
    s ≠ [] ∧ '"' ∉ s ∧ ∀ c ∈ s, Msvcrt.isBlank c = false := by
  unfold needQuote at h
  rw [Bool.or_eq_false_iff, List.any_eq_false] at h
  refine ⟨by simpa using h.1, ?_, ?_⟩
  · intro hq
    simpa using h.2 '"' hq
  · intro c hc
    have := h.2 c hc
    simp only [Bool.or_eq_true, not_or, Bool.not_eq_true] at this
    simp [Msvcrt.isBlank, this.1.1.1.1, this.1.1.1.2]

/-- The quoting loop is undone by the runtime: inside the quotes with nothing pending,
    the loop's output for `n` backslashes and `s`, and the closing quote, read as those
    backslashes and `s`. The runs match up because both sides count them. -/
theorem arguments_quoteLoop (s rest : List Char) : ∀ n a,
    Msvcrt.arguments (some ⟨true, 0, a⟩) (quoteLoop n s ++ '"' :: ' ' :: rest) =
      (a ++ List.replicate n '\\' ++ s) :: Msvcrt.arguments none rest := by
  induction s with
  | nil =>
    intro n a
    rw [quoteLoop, Msvcrt.arguments_backslashes, Msvcrt.arguments_feed _ _ _ (Or.inl rfl), Nat.zero_add,
      Nat.mul_comm, Msvcrt.feed_quote_even, Bool.not_true, Msvcrt.arguments_end]
    simp
  | cons c s ih =>
    intro n a
    by_cases hs : c = '\\'
    · subst hs
      rw [quoteLoop, if_pos rfl, ih]
      simp [List.replicate_succ', List.append_assoc]
    by_cases hq : c = '"'
    · subst hq
      rw [quoteLoop, if_neg hs, if_pos rfl, List.append_assoc, Msvcrt.arguments_backslashes, Nat.zero_add,
        Nat.mul_comm, List.cons_append, Msvcrt.arguments_feed _ _ _ (Or.inl rfl), Msvcrt.feed_quote_odd, ih]
      simp [List.append_assoc]
    · rw [quoteLoop, if_neg hs, if_neg hq, List.append_assoc, Msvcrt.arguments_backslashes, Nat.zero_add,
        List.cons_append, Msvcrt.arguments_feed _ _ _ (Or.inl rfl), Msvcrt.feed_other _ hs hq, ih]
      simp [Msvcrt.Scan.text, List.append_assoc]

theorem arguments_encode (s rest : List Char) :
    Msvcrt.arguments none (encode s ++ ' ' :: rest) = s :: Msvcrt.arguments none rest := by
  unfold encode
  cases hn : needQuote s with
  | true =>
    have hopen : Msvcrt.Scan.feed {} '"' = ⟨true, 0, []⟩ := by simp [Msvcrt.Scan.feed]
    simp only [if_true, List.cons_append, List.append_assoc, List.nil_append]
    rw [Msvcrt.arguments_open _ _ rfl, Msvcrt.arguments_feed _ _ _ (Or.inr rfl), hopen, arguments_quoteLoop]
    simp
  | false =>
    obtain ⟨hne, hq, hb⟩ := not_needQuote hn
    obtain ⟨c, cs, rfl⟩ := List.exists_cons_of_ne_nil hne
    simp only [Bool.false_eq_true, if_false]
    rw [List.cons_append, Msvcrt.arguments_open _ _ (hb c List.mem_cons_self), ← List.cons_append,
      Msvcrt.arguments_plain _ _ hq hb]
    simp

theorem arguments_commandLine (args : List String) :
    Msvcrt.arguments none (commandLine args) = args.map String.toList := by
  induction args with
  | nil => rfl
  | cons s args ih =>
    rw [commandLine, List.flatMap_cons, List.append_assoc, List.singleton_append, arguments_encode]
    exact congrArg _ ih

/-! ## The program name -/

/-- Without a quote, and without backslashes at the end, the loop copies. -/
theorem quoteLoop_plain (s : List Char) (hq : '"' ∉ s) : ∀ n, (n = 0 ∨ s ≠ []) → s.getLast? ≠ some '\\' →
    quoteLoop n s = List.replicate n '\\' ++ s := by
  induction s with
  | nil =>
    intro n hn _
    rcases hn with rfl | h
    · rfl
    · exact absurd rfl h
  | cons c s ih =>
    intro n _ hl
    obtain ⟨hc, hqs⟩ := List.ne_and_not_mem_of_not_mem_cons hq
    have hl' : s.getLast? ≠ some '\\' := by
      cases s with
      | nil => simp
      | cons d s => simpa using hl
    by_cases hs : c = '\\'
    · subst hs
      have hne : s ≠ [] := by
        intro heq
        subst heq
        exact hl rfl
      rw [quoteLoop, if_pos rfl, ih hqs _ (Or.inr hne) hl']
      simp [List.replicate_succ', List.append_assoc]
    · rw [quoteLoop, if_neg hs, if_neg (Ne.symm hc), ih hqs 0 (Or.inl rfl) hl']
      rfl

theorem program_encode (s rest : List Char) (hq : '"' ∉ s) (hl : s.getLast? ≠ some '\\') :
    Msvcrt.program false (encode s ++ ' ' :: rest) = (s, ' ' :: rest) := by
  unfold encode
  cases hn : needQuote s with
  | true =>
    simp only [if_true, List.cons_append, List.append_assoc, List.nil_append]
    rw [quoteLoop_plain s hq 0 (Or.inl rfl) hl, Msvcrt.program, if_pos rfl]
    exact Msvcrt.program_quoted s rest hq
  | false =>
    obtain ⟨_, hq, hb⟩ := not_needQuote hn
    exact Msvcrt.program_plain s rest hq hb

/-- The built command line reads back as the original list. -/
theorem argv_commandLine (program : String) (args : List String) (hq : '"' ∉ program.toList)
    (hl : program.toList.getLast? ≠ some '\\') :
    (Msvcrt.argv (commandLine (program :: args))).map String.ofList = program :: args := by
  have hsplit : commandLine (program :: args) = encode program.toList ++ ' ' :: commandLine args := by
    simp [commandLine]
  have hid : (args.map String.toList).map String.ofList = args := by
    simp [Function.comp_def]
  rw [Msvcrt.argv, hsplit, program_encode _ _ hq hl, Msvcrt.arguments_blank _ _ rfl, arguments_commandLine,
    List.map_cons, hid, String.ofList_toList]

theorem argv_commandLine_quotes :
    (Msvcrt.argv (commandLine ["a b.exe", "c:\\dir \\", "say \"\\\"", ""])).map String.ofList =
      ["a b.exe", "c:\\dir \\", "say \"\\\"", ""] :=
  argv_commandLine "a b.exe" ["c:\\dir \\", "say \"\\\"", ""] (by decide) (by decide)

end CovProcess.Win32
