/-
  CovProcess.Shell — the command a shell gets from `process_builder::start`
  (`process.hpp`): the program and the arguments, joined by spaces, after `-c` on Unix and
  after `/c` on Windows. `create_process_impl` writes the Windows command line for the
  runtime's rules (`Win32.CommandLine`), and `cmd` reads it by its own (`Lib.CmdExe`).

  Proved: `shell_command_iff`, on Unix the shell gets the joined text, and `cmd` does
  exactly when the text holds no quote, and does not end in a backslash if it has to be
  quoted; and `echo_quoted`, a quoted word that reaches `cmd` with backslashes.
-/

import CovProcess.Builder
import CovProcess.Unix.Environ
import CovProcess.Win32.CommandLine
import CovProcess.Lib.CmdExe

namespace CovProcess.Shell

open Builder CmdExe Win32

/-! ## What is claimed -/

/-- What the shell is told to execute. -/
def executed : Platform → ProcessStartup → Option (List Char)
  | .unix, s =>
    match Unix.argv s with
    | [_, opt, text] => if opt.val = "-c" then some text.val.toList else none
    | _ => none
  | .win32, s => (afterSwitch (commandLine s.cmdline)).map command

/-- The shell executes the text: the same one on Unix, the same up to trailing blanks on
    Windows. -/
def HandsOver (pf : Platform) (s : ProcessStartup) (text : String) : Prop :=
  match pf with
  | .unix => executed .unix s = some text.toList
  | .win32 => ∃ t, executed .win32 s = some t ∧ rstrip t = rstrip text.toList

/-- The texts that the runtime's quoting leaves as they are. -/
def Untouched (text : List Char) : Prop := '"' ∉ text ∧ (needQuote text = true → text.getLast? ≠ some '\\')

instance (text : List Char) : Decidable (Untouched text) := inferInstanceAs (Decidable (_ ∧ _))

/-! ## The command line as `cmd` reads it -/

theorem commandLine_shell (program text : String) :
    commandLine [program, "/c", text] = encode program.toList ++ ' ' :: ('/' :: 'c' :: ' ' :: (encode text.toList ++ [' '])) := by
  have hswitch : encode ['/', 'c'] = ['/', 'c'] := by decide
  simp [commandLine, hswitch]

/-- A program's name does not get in the way. -/
theorem afterSwitch_shell {program : String} (text : String) (hq : '"' ∉ program.toList)
    (hl : program.toList.getLast? ≠ some '\\') :
    afterSwitch (commandLine [program, "/c", text]) = some ((encode text.toList ++ [' ']).dropWhile Msvcrt.isBlank) := by
  rw [commandLine_shell, afterSwitch, program_encode _ _ hq hl]
  rfl

theorem encode_plain {text : List Char} (h : needQuote text = false) :
    command ((encode text ++ [' ']).dropWhile Msvcrt.isBlank) = text ++ [' '] := by
  obtain ⟨hne, hq, hblank⟩ := not_needQuote h
  obtain ⟨c, cs, rfl⟩ := List.exists_cons_of_ne_nil hne
  have hc : ¬ Msvcrt.isBlank c = true := by simp [hblank c List.mem_cons_self]
  unfold encode
  rw [if_neg (by simp [h]), List.cons_append, List.dropWhile_cons_of_neg hc, ← List.cons_append]
  apply command_plain
  simpa using hq

/-- The two quotes that `cmd` drops are those the encoder put around the text. -/
theorem encode_quoted {text : List Char} (h : needQuote text = true) :
    command ((encode text ++ [' ']).dropWhile Msvcrt.isBlank) = quoteLoop 0 text ++ [' '] := by
  have hdrop : (encode text ++ [' ']).dropWhile Msvcrt.isBlank = '"' :: quoteLoop 0 text ++ '"' :: [' '] := by
    unfold encode
    rw [if_pos h]
    simp [Msvcrt.isBlank]
  rw [hdrop]
  exact command_quoted (by decide)

/-! ## The backslashes that are added -/

theorem count_quoteLoop (s : List Char) : ∀ n, n + s.count '\\' ≤ (quoteLoop n s).count '\\' := by
  induction s with
  | nil =>
    intro n
    rw [quoteLoop, List.count_replicate_self, List.count_nil]
    omega
  | cons c s ih =>
    intro n
    rw [quoteLoop]
    split
    · rename_i hs
      have := ih (n + 1)
      rw [hs, List.count_cons_self]
      omega
    · rename_i hs
      have := ih 0
      rw [List.count_cons_of_ne hs]
      split
      · rw [List.count_append, List.count_replicate_self, List.count_cons_of_ne (by decide)]
        omega
      · rw [List.count_append, List.count_replicate_self, List.count_cons_of_ne hs]
        omega

/-- One at least, for a quote and for backslashes at the end. -/
theorem count_quoteLoop_lt (s : List Char) : ∀ n, '"' ∈ s ∨ s.getLast? = some '\\' ∨ (s = [] ∧ 0 < n) →
    n + s.count '\\' < (quoteLoop n s).count '\\' := by
  induction s with
  | nil =>
    intro n h
    rw [quoteLoop, List.count_replicate_self, List.count_nil]
    rcases h with h | h | ⟨-, h⟩
    · cases h
    · cases h
    · omega
  | cons c s ih =>
    intro n h
    rw [quoteLoop]
    split
    · rename_i hs
      have hrest : '"' ∈ s ∨ s.getLast? = some '\\' ∨ (s = [] ∧ 0 < n + 1) := by
        rcases h with h | h | h
        · rcases List.mem_cons.mp h with h | h
          · rw [hs] at h
            exact absurd h (by decide)
          · exact .inl h
        · cases s with
          | nil => exact .inr (.inr ⟨rfl, by omega⟩)
          | cons d s => exact .inr (.inl (by simpa using h))
        · cases h.1
      have := ih (n + 1) hrest
      rw [hs, List.count_cons_self]
      omega
    · rename_i hs
      rw [List.count_cons_of_ne hs]
      split
      · have := count_quoteLoop s 0
        rw [List.count_append, List.count_replicate_self, List.count_cons_of_ne (by decide)]
        omega
      · rename_i hq
        have hrest : '"' ∈ s ∨ s.getLast? = some '\\' ∨ (s = [] ∧ 0 < 0) := by
          rcases h with h | h | h
          · exact .inl ((List.mem_cons.mp h).resolve_left (Ne.symm hq))
          · cases s with
            | nil => exact absurd (Option.some.inj h) hs
            | cons d s => exact .inr (.inl (by simpa using h))
          · cases h.1
        have := ih 0 hrest
        rw [List.count_append, List.count_replicate_self, List.count_cons_of_ne hs]
        omega

/-- `cmd` gets the text exactly when nothing is added to it. -/
theorem cmd_reads_iff (text : List Char) :
    rstrip (command ((encode text ++ [' ']).dropWhile Msvcrt.isBlank)) = rstrip text ↔ Untouched text := by
  cases hn : needQuote text with
  | false =>
    rw [encode_plain hn, rstrip_blank]
    obtain ⟨-, hq, -⟩ := not_needQuote hn
    refine iff_of_true rfl ⟨hq, ?_⟩
    intro hneed
    rw [hn] at hneed
    cases hneed
  | true =>
    rw [encode_quoted hn, rstrip_blank]
    constructor
    · intro heq
      have hcount : (quoteLoop 0 text).count '\\' = text.count '\\' := by
        rw [← count_rstrip rfl (quoteLoop 0 text), heq, count_rstrip rfl]
      constructor
      · intro hq
        have := count_quoteLoop_lt text 0 (.inl hq)
        omega
      · intro _ hl
        have := count_quoteLoop_lt text 0 (.inr (.inl hl))
        omega
    · intro h
      rw [quoteLoop_plain text h.1 0 (.inl rfl) (h.2 hn), List.replicate_zero, List.nil_append]

/-! ## Starts in shell mode -/

theorem joinCmdline_nul {cmdline : List String} (h : ∀ a ∈ cmdline, NUL ∉ a.toList) : NUL ∉ (joinCmdline cmdline).toList := by
  cases cmdline with
  | nil => exact List.not_mem_nil
  | cons a rest =>
    have hfold : ∀ (rest : List String) (acc : String), NUL ∉ acc.toList → (∀ a ∈ rest, NUL ∉ a.toList) →
        NUL ∉ (rest.foldl (fun cmd a => cmd ++ " " ++ a) acc).toList := by
      intro rest
      induction rest with
      | nil =>
        intro acc hacc _
        exact hacc
      | cons b rest ih =>
        intro acc hacc hrest
        apply ih
        · have hb := hrest b List.mem_cons_self
          simp only [String.toList_append, List.mem_append, not_or]
          exact ⟨⟨hacc, by decide⟩, hb⟩
        · intro c hc
          exact hrest c (List.mem_cons_of_mem _ hc)
    exact hfold rest a (h a List.mem_cons_self) fun b hb => h b (List.mem_cons_of_mem _ hb)

/-- For every builder in shell mode, with a command and arguments without NUL and, on
    Windows, a shell whose name has no quote in it and no backslash at its end: the shell executes the joined
    text exactly when it runs on Unix, or the runtime's quoting adds nothing to the text. -/
theorem shell_command_iff (pf : Platform) (b : ProcessBuilder) (s : ProcessStartup)
    (hshell : b.startup.shellMode = true) (hnul : ∀ a ∈ b.startup.cmdline, NUL ∉ a.toList)
    (hprogram : pf = .win32 → ∀ program, b.startup.shellProgram = some program →
      '"' ∉ program.toList ∧ program.toList.getLast? ≠ some '\\')
    (hstart : start pf b = .ok s) :
    HandsOver pf s (joinCmdline b.startup.cmdline) ↔ pf = .unix ∨ Untouched (joinCmdline b.startup.cmdline).toList := by
  unfold start at hstart
  simp only [hshell, if_true] at hstart
  split at hstart
  · cases hstart
  · cases pf with
    | unix =>
      cases hstart
      refine iff_of_true ?_ (.inl rfl)
      have hopt : (Unix.cStr "-c").val = "-c" := Unix.cStr_eq (by decide)
      have htext := Unix.cStr_eq (joinCmdline_nul hnul)
      show (if (Unix.cStr "-c").val = "-c" then some (Unix.cStr (joinCmdline b.startup.cmdline)).val.toList else none) = _
      rw [if_pos hopt, htext]
    | win32 =>
      cases hstart
      have hname : '"' ∉ (b.startup.shellProgram.getD "cmd").toList ∧
          (b.startup.shellProgram.getD "cmd").toList.getLast? ≠ some '\\' := by
        cases hp : b.startup.shellProgram with
        | none => exact ⟨by decide, by decide⟩
        | some program => exact hprogram rfl program hp
      have hline := afterSwitch_shell (joinCmdline b.startup.cmdline) hname.1 hname.2
      rw [← cmd_reads_iff]
      constructor
      · intro h
        obtain ⟨t, ht, heq⟩ := h
        rw [executed, hline] at ht
        cases ht
        exact .inr heq
      · intro h
        refine ⟨_, ?_, h.resolve_left (by decide)⟩
        rw [executed, hline]
        rfl

/-- `echo` in `cmd`, with a word. -/
def echo (word : String) : ProcessBuilder where
  startup := { cmdline := ["echo", word], shellMode := true, shellProgram := some "cmd" }

theorem shell_command_iff_blank : ∃ s, start .win32 (echo "a  b") = .ok s ∧ HandsOver .win32 s "echo a  b" :=
  ⟨_, rfl, (shell_command_iff .win32 (echo "a  b") _ rfl (by decide) (by
    intro _ program h
    cases h
    decide) rfl).mpr (.inr (by decide))⟩

/-- The word is in quotes: `cmd` echoes it with a backslash before each. -/
theorem echo_quoted :
    ∃ s, start .win32 (echo "\"a b\"") = .ok s ∧ executed .win32 s = some "echo \\\"a b\\\" ".toList ∧
      ¬ HandsOver .win32 s "echo \"a b\"" := by
  have hread : executed .win32 { (echo "\"a b\"").startup with cmdline := ["cmd", "/c", "echo \"a b\""] } =
      some "echo \\\"a b\\\" ".toList := by decide
  refine ⟨_, rfl, hread, ?_⟩
  intro h
  obtain ⟨t, ht, heq⟩ := h
  cases hread.symm.trans ht
  exact absurd heq (by decide)

end CovProcess.Shell
