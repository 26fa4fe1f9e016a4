/-
  CovProcess.Builder — `process_builder` (`process.hpp`): its setters and `start`.

  The program and its arguments share the one vector `_cmdline`, and `command` and
  `arguments` both look at its size to tell what is already there. A run is the list of
  calls made on one builder; a setter that throws leaves the builder as it was, and
  `start` works on a copy.

  Proved: `start_iff`, exactly which call histories make a start outside shell mode
  launch the last program with the last argument list (and throw when there is no
  program). Arguments given before the first program lose their first string, unless
  an earlier non-empty list was there to lose it (`cmdline_run`).
-/

import Mathlib.Data.List.TakeWhile
import CovProcess.Startup

namespace CovProcess.Builder

inductive Platform where
  | unix
  | win32
  deriving DecidableEq, Repr

structure ProcessBuilder where
  startup : ProcessStartup := {}

inductive Setter where
  | command (c : String)
  | arguments (c : List String)
  | environment (key value : String)
  | redirectStdin (target : Fd)
  | redirectStdout (target : Fd)
  | redirectStderr (target : Fd)
  | directory (cwd : String)
  | mergeOutputs (r : Bool)
  | inheritStdin (v : Bool)
  | inheritStdout (v : Bool)
  | inheritStderr (v : Bool)
  | inheritOutput (v : Bool)
  | inheritEnv (v : Bool)
  /-- `shell(nullptr)`. -/
  | shellOff
  | shell (program : String)

/-- `command`: the first call pushes the program, a later one overwrites slot 0. -/
def command (cmdline : List String) (c : String) : List String :=
  match cmdline with
  | [] => [c]
  | _ :: rest => c :: rest

/-- `arguments`: erase from slot 1 on when there is more than one slot, then append. -/
def arguments (cmdline c : List String) : List String :=
  (if 1 < cmdline.length then cmdline.take 1 else cmdline) ++ c

def apply (b : ProcessBuilder) : Setter → Except String ProcessBuilder
  | .command c => .ok { b with startup.cmdline := command b.startup.cmdline c }
  | .arguments c => .ok { b with startup.cmdline := arguments b.startup.cmdline c }
  | .environment key value => .ok { b with startup.env := b.startup.env.insert key value }
  | .redirectStdin target => .ok { b with startup.stdin.target := target }
  | .redirectStdout target => .ok { b with startup.stdout.target := target }
  | .redirectStderr target => .ok { b with startup.stderr.target := target }
  | .directory cwd => .ok { b with startup.cwd := cwd }
  | .mergeOutputs r => .ok { b with startup.mergeOutputs := r }
  | .inheritStdin v => .ok { b with startup.inheritStdin := v }
  | .inheritStdout v => .ok { b with startup.inheritStdout := v }
  | .inheritStderr v => .ok { b with startup.inheritStderr := v }
  | .inheritOutput v =>
    .ok { b with startup.inheritStdout := v, startup.inheritStderr := v }
  | .inheritEnv v => .ok { b with startup.inheritEnv := v }
  | .shellOff => .ok { b with startup.shellMode := false, startup.shellProgram := none }
  | .shell program =>
    if program = "" then .error "shell program cannot be empty"
    else .ok { b with startup.shellMode := true, startup.shellProgram := some program }

def joinCmdline : List String → String
  | [] => ""
  | s :: rest => rest.foldl (fun cmd a => cmd ++ " " ++ a) s

/-- `start`, up to the call of `create_process`: the startup it is called with, or what
    is thrown. -/
def start (pf : Platform) (b : ProcessBuilder) : Except String ProcessStartup :=
  let s := b.startup
  if s.shellMode then
    if s.cmdline = [] then .error "no command specified"
    else
      let cmd := joinCmdline s.cmdline
      match pf with
      | .win32 => .ok { s with cmdline := [s.shellProgram.getD "cmd", "/c", cmd] }
      | .unix => .ok { s with cmdline := [s.shellProgram.getD "/bin/sh", "-c", cmd] }
  else if s.cmdline = [] then .error "no command specified"
  else .ok s

inductive Call where
  | set (s : Setter)
  | start

/-- One call: a setter that throws changes nothing, and neither does a start. -/
def step (b : ProcessBuilder) : Call → ProcessBuilder
  | .set s => (apply b s).toOption.getD b
  | .start => b

def run (h : List Call) : ProcessBuilder := h.foldl step {}

/-! ## What the calls ask for -/

def programOf : Call → Option String
  | .set (.command c) => some c
  | _ => none

def argumentsOf : Call → Option (List String)
  | .set (.arguments c) => some c
  | _ => none

def notCommand (c : Call) : Bool := (programOf c).isNone

def lastCommand (h : List Call) : Option String := (h.filterMap programOf).getLast?

def lastArguments (h : List Call) : Option (List String) := (h.filterMap argumentsOf).getLast?

/-- A start launches the program of the last `command` call with the list of the last
    `arguments` call, and throws when there was no `command` call. -/
def LastWins (pf : Platform) (h : List Call) : Prop :=
  match lastCommand h with
  | some program => ∃ s, start pf (run h) = .ok s ∧ s.cmdline = program :: (lastArguments h).getD []
  | none => start pf (run h) = .error "no command specified"

/-- The argument lists given before the first `command` call. -/
def early (h : List Call) : List (List String) := (h.takeWhile notCommand).filterMap argumentsOf

/-- The argument lists given after it. -/
def late (h : List Call) : List (List String) := (h.dropWhile notCommand).filterMap argumentsOf

/-- The histories the shared vector gets right. -/
def InOrder (h : List Call) : Prop :=
  if lastCommand h = none then ∀ a ∈ early h, a = []
  else late h ≠ [] ∨ (∀ a ∈ early h, a = []) ∨ ∃ a ∈ (early h).dropLast, a ≠ []

instance (h : List Call) : Decidable (InOrder h) := by unfold InOrder; infer_instance

/-! ## The vector along a run -/

@[simp] theorem command_head (p c : String) (l : List String) : command (p :: l) c = c :: l := rfl

@[simp] theorem command_tail (l : List String) (c : String) : command l c = c :: l.tail := by
  cases l <;> rfl

theorem arguments_eq (l c : List String) : arguments l c = l.take 1 ++ c := by
  unfold arguments
  split
  · rfl
  · rw [List.take_of_length_le (by omega)]

@[simp] theorem arguments_cons (p : String) (l c : List String) : arguments (p :: l) c = p :: c := by
  simp [arguments_eq]

/-- The effect of one call on the vector. -/
def onCmdline (l : List String) (c : Call) : List String :=
  match programOf c, argumentsOf c with
  | some p, _ => command l p
  | none, some a => arguments l a
  | none, none => l

theorem step_cmdline (b : ProcessBuilder) (c : Call) :
    (step b c).startup.cmdline = onCmdline b.startup.cmdline c := by
  cases c with
  | start => rfl
  | set s =>
    cases s with
    | shell program =>
      by_cases h : program = "" <;> simp [step, apply, h, onCmdline, programOf, argumentsOf, Except.toOption]
    | _ => rfl

theorem run_cmdline (h : List Call) : (run h).startup.cmdline = h.foldl onCmdline [] := by
  suffices ∀ (h : List Call) (b : ProcessBuilder),
      (h.foldl step b).startup.cmdline = h.foldl onCmdline b.startup.cmdline from this h {}
  intro h
  induction h with
  | nil => intro b; rfl
  | cons c h ih => intro b; rw [List.foldl_cons, List.foldl_cons, ih, step_cmdline]

/-- Once slot 0 holds a program the setters are independent of each other. -/
theorem foldl_from_program (h : List Call) : ∀ (p : String) (l : List String),
    h.foldl onCmdline (p :: l) = (lastCommand h).getD p :: (lastArguments h).getD l := by
  induction h using List.reverseRecOn with
  | nil => intro p l; rfl
  | append_singleton h c ih =>
    intro p l
    rw [List.foldl_concat, ih]
    unfold lastCommand lastArguments onCmdline
    cases hp : programOf c <;> cases ha : argumentsOf c <;> simp [List.filterMap_append, hp, ha]
    cases c with
    | start => cases hp
    | set s => cases s <;> simp [programOf, argumentsOf] at hp ha

/-- Before the first program the vector holds argument lists only. -/
theorem foldl_before_program (h : List Call) (hn : ∀ c ∈ h, notCommand c = true) :
    ∀ l, h.foldl onCmdline l = (h.filterMap argumentsOf).foldl arguments l := by
  induction h with
  | nil => intro l; rfl
  | cons c h ih =>
    intro l
    have hc : programOf c = none := by simpa [notCommand] using hn c List.mem_cons_self
    rw [List.foldl_cons, ih (fun c' h' => hn c' (List.mem_cons_of_mem _ h'))]
    cases ha : argumentsOf c <;> simp [onCmdline, hc, ha]

theorem foldl_arguments_eq_nil (as : List (List String)) :
    as.foldl arguments [] = [] ↔ ∀ a ∈ as, a = [] := by
  induction as using List.reverseRecOn with
  | nil => simp
  | append_singleton as a ih =>
    rw [List.foldl_concat, arguments_eq, List.append_eq_nil_iff, List.take_eq_nil_iff, ih]
    constructor
    · intro hx b hb
      obtain ⟨h, ha⟩ := hx
      rcases List.mem_append.mp hb with hb | hb
      · exact (h.resolve_left (by omega)) b hb
      · rw [List.mem_singleton.mp hb]; exact ha
    · intro h
      exact ⟨Or.inr fun b hb => h b (List.mem_append_left _ hb), h a (by simp)⟩

/-- What is left of the lists given before the first program once it takes slot 0: the
    last of them, unless its first string was the one overwritten. -/
theorem foldl_arguments_tail (as : List (List String)) :
    (as.foldl arguments []).tail = as.getLast?.getD [] ↔ (∀ a ∈ as, a = []) ∨ ∃ a ∈ as.dropLast, a ≠ [] := by
  induction as using List.reverseRecOn with
  | nil => simp
  | append_singleton as a _ =>
    rw [List.foldl_concat, List.getLast?_concat, List.dropLast_concat, Option.getD_some]
    have key := foldl_arguments_eq_nil as
    cases hl : as.foldl arguments [] with
    | nil =>
      have hall := key.mp hl
      rw [arguments_eq, List.take_nil, List.nil_append]
      constructor
      · intro ha
        left
        have : a = [] := by
          cases a with
          | nil => rfl
          | cons x xs => simp at ha
        intro b hb
        rcases List.mem_append.mp hb with hb | hb
        · exact hall b hb
        · rw [List.mem_singleton.mp hb]; exact this
      · intro hx
        rcases hx with h | ⟨b, hb, hne⟩
        · rw [h a (by simp)]; rfl
        · exact absurd (hall b hb) hne
    | cons x xs =>
      rw [arguments_cons, List.tail_cons]
      refine ⟨fun _ => Or.inr ?_, fun _ => rfl⟩
      have hne : ¬ ∀ b ∈ as, b = [] := fun h => by rw [key.mpr h] at hl; cases hl
      simpa using hne

theorem lastCommand_eq_none {h : List Call} : lastCommand h = none ↔ ∀ c ∈ h, notCommand c = true := by
  simp [lastCommand, notCommand]

/-- A history with a program splits at its first `command` call. -/
theorem split_first_command {h : List Call} (hc : lastCommand h ≠ none) :
    ∃ c p after, programOf c = some p ∧ h = h.takeWhile notCommand ++ c :: after ∧
      h.dropWhile notCommand = c :: after := by
  have hd : h.dropWhile notCommand ≠ [] := by
    intro e
    exact hc (lastCommand_eq_none.mpr (List.dropWhile_eq_nil_iff.mp e))
  obtain ⟨c, after, e⟩ := List.exists_cons_of_ne_nil hd
  have hp : notCommand c = false := by
    have := List.head_dropWhile_not notCommand hd
    simpa [e] using this
  obtain ⟨p, hp⟩ := Option.isSome_iff_exists.mp (show (programOf c).isSome = true by simpa [notCommand] using hp)
  exact ⟨c, p, after, hp, by rw [← e, List.takeWhile_append_dropWhile], e⟩

theorem argumentsOf_of_program {c : Call} {p : String} (h : programOf c = some p) : argumentsOf c = none := by
  cases c with
  | start => cases h
  | set s => cases s <;> first | rfl | cases h

/-- The vector a run leaves: the argument lists in order while there is no program;
    after that the last program, then the last list given since the first program, or
    what the first program left of the earlier ones. -/
theorem cmdline_run (h : List Call) :
    (run h).startup.cmdline =
      match lastCommand h with
      | none => (early h).foldl arguments []
      | some p => p :: (late h).getLast?.getD ((early h).foldl arguments []).tail := by
  rw [run_cmdline]
  cases hl : lastCommand h with
  | none =>
    have hn := lastCommand_eq_none.mp hl
    rw [foldl_before_program h hn, early, List.takeWhile_eq_self_iff.mpr hn]
  | some p =>
    obtain ⟨c, q, after, hp, hsplit, hdrop⟩ := split_first_command (by rw [hl]; simp)
    have ha := argumentsOf_of_program hp
    have hlate : late h = after.filterMap argumentsOf := by simp [late, hdrop, ha]
    have hlast : (lastCommand after).getD q = p := by
      have : lastCommand h = some ((lastCommand after).getD q) := by
        have hnone : (h.takeWhile notCommand).filterMap programOf = [] := by
          rw [List.filterMap_eq_nil_iff]
          intro x hx
          simpa [notCommand] using List.mem_takeWhile_imp hx
        rw [hsplit]
        simp [lastCommand, List.filterMap_append, hnone, hp, List.getLast?_cons]
      rw [hl] at this
      exact (Option.some.inj this).symm
    calc h.foldl onCmdline []
        = (c :: after).foldl onCmdline ((h.takeWhile notCommand).foldl onCmdline []) := by
          rw [← List.foldl_append, ← hsplit]
      _ = after.foldl onCmdline (q :: ((early h).foldl arguments []).tail) := by
          rw [foldl_before_program _ (fun x hx => List.mem_takeWhile_imp hx), List.foldl_cons]
          simp [onCmdline, hp, early]
      _ = _ := by rw [foldl_from_program, hlast, hlate]; rfl

/-- `lastArguments` looks past the first program when nothing came after it. -/
theorem lastArguments_eq (h : List Call) : lastArguments h = (late h).getLast?.or (early h).getLast? := by
  have : h.filterMap argumentsOf = early h ++ late h := by
    rw [early, late, ← List.filterMap_append, List.takeWhile_append_dropWhile]
  rw [lastArguments, this, List.getLast?_append]

theorem start_plain (pf : Platform) {b : ProcessBuilder} (hs : b.startup.shellMode = false) :
    start pf b = if b.startup.cmdline = [] then .error "no command specified" else .ok b.startup := by
  simp [start, hs]

/-- Outside shell mode a start launches the last program with the last argument list,
    and throws without a program, exactly when: without a program every argument list
    is empty; with one, an argument list came after the first program, or the lists
    before it are all empty, or one before the last of them is not. -/
theorem start_iff (pf : Platform) (h : List Call) (hs : (run h).startup.shellMode = false) :
    LastWins pf h ↔ InOrder h := by
  have hrun := cmdline_run h
  unfold LastWins InOrder
  rw [start_plain pf hs]
  cases hl : lastCommand h with
  | none =>
    simp only [hl] at hrun
    simp only [if_true]
    rw [← foldl_arguments_eq_nil, ← hrun]
    by_cases he : (run h).startup.cmdline = [] <;> simp [he]
  | some p =>
    simp only [hl] at hrun
    have hne : (run h).startup.cmdline ≠ [] := by rw [hrun]; simp
    simp only [if_neg hne, reduceCtorEq, if_false, Except.ok.injEq, exists_eq_left']
    rw [← foldl_arguments_tail, hrun, List.cons.injEq, lastArguments_eq]
    cases hlate : (late h).getLast? with
    | none =>
      rw [List.getLast?_eq_none_iff] at hlate
      simp [hlate]
    | some a =>
      have : late h ≠ [] := by intro e; simp [e] at hlate
      simp [this]

theorem start_iff_retried :
    (run [.set (.arguments ["a"]), .set (.arguments ["x"]), .set (.command "p")]).startup.shellMode = false ∧
      LastWins .unix [.set (.arguments ["a"]), .set (.arguments ["x"]), .set (.command "p")] :=
  ⟨rfl, (start_iff .unix _ rfl).mpr (by decide)⟩

/-- Arguments first, two of them: the program overwrites the first one. -/
theorem arguments_before_command :
    ¬ ∀ (pf : Platform) (h : List Call), (run h).startup.shellMode = false → LastWins pf h := by
  intro hall
  obtain ⟨s, hs, hc⟩ := hall .unix [.set (.arguments ["x", "y"]), .set (.command "p"), .start] rfl
  have hlaunched : s.cmdline = ["p", "y"] := by
    cases hs
    rfl
  rw [hlaunched] at hc
  exact absurd hc (by decide)

/-! ## The environment -/

/-- The pair an `environment` call sets. -/
def environmentOf : Call → Option (String × String)
  | .set (.environment key value) => some (key, value)
  | _ => none

/-- The value the last `environment` call for a name sets. -/
def lastSet (h : List Call) (name : String) : Option String := (h.filterMap environmentOf).reverse.lookup name

theorem step_env (b : ProcessBuilder) (c : Call) : (step b c).startup.env =
    match environmentOf c with
    | some e => b.startup.env.insert e.1 e.2
    | none => b.startup.env := by
  cases c with
  | start => rfl
  | set s =>
    cases s with
    | shell program => by_cases h : program = "" <;> simp [step, apply, h, environmentOf, Except.toOption]
    | _ => rfl

theorem run_env (h : List Call) (name : String) : (run h).startup.env.lookup name = lastSet h name := by
  induction h using List.reverseRecOn with
  | nil => rfl
  | append_singleton h c ih =>
    have hstep : (run (h ++ [c])).startup.env = (step (run h) c).startup.env := by
      rw [run, List.foldl_concat]
      rfl
    rw [hstep, step_env, lastSet, List.filterMap_append, List.reverse_append]
    cases hc : environmentOf c with
    | none => simpa [hc, lastSet] using ih
    | some e =>
      obtain ⟨k, v⟩ := e
      by_cases hn : name = k
      · subst hn
        simp [hc]
      · have hb : (name == k) = false := beq_eq_false_iff_ne.mpr hn
        simp [hc, List.lookup_cons, hb, Finmap.lookup_insert_of_ne _ hn, ih, lastSet]

theorem mem_environmentOf {h : List Call} {k v : String} :
    (k, v) ∈ h.filterMap environmentOf ↔ Call.set (.environment k v) ∈ h := by
  rw [List.mem_filterMap]
  constructor
  · intro hx
    obtain ⟨c, hc, he⟩ := hx
    cases c with
    | start => cases he
    | set c =>
      cases c <;> cases he
      exact hc
  · exact fun hc => ⟨_, hc, rfl⟩

/-- A name that was set has a last value, which was set. -/
theorem lastSet_of_mem {h : List Call} {k v : String} (hk : Call.set (.environment k v) ∈ h) :
    ∃ u, lastSet h k = some u := by
  rw [← Option.isSome_iff_exists, lastSet, List.lookup_isSome_iff]
  exact ⟨(k, v), List.mem_reverse.mpr (mem_environmentOf.mpr hk), beq_self_eq_true k⟩

theorem mem_of_lastSet {h : List Call} {k v : String} (hk : lastSet h k = some v) :
    Call.set (.environment k v) ∈ h := by
  obtain ⟨l₁, l₂, hl, -⟩ := List.lookup_eq_some_iff.mp hk
  rw [← mem_environmentOf, ← List.mem_reverse, hl]
  simp

theorem start_eq {pf : Platform} {b : ProcessBuilder} {s : ProcessStartup} (h : start pf b = .ok s) :
    ∃ l, s = { b.startup with cmdline := l } := by
  simp only [start] at h
  split at h
  · split at h
    · cases h
    · cases pf <;> cases h <;> exact ⟨_, rfl⟩
  · split at h <;> cases h
    exact ⟨_, rfl⟩

theorem start_env {pf : Platform} {b : ProcessBuilder} {s : ProcessStartup} (h : start pf b = .ok s) :
    s.env = b.startup.env ∧ s.inheritEnv = b.startup.inheritEnv := by
  obtain ⟨l, rfl⟩ := start_eq h
  exact ⟨rfl, rfl⟩

/-! ## `process::exec` -/

/-- The calls of `process::exec(command, args)`. -/
def exec (program : String) (args : List String) : List Call :=
  [.set (.command program), .set (.arguments args), .start]

/-- Program first, arguments second is always in order. -/
theorem exec_cmdline (program : String) (args : List String) :
    (run (exec program args)).startup.cmdline = program :: args := by
  rw [cmdline_run]
  rfl

end CovProcess.Builder
