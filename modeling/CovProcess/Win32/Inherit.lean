/-
  CovProcess.Win32.Inherit — what a started child inherits on Windows (see
  `CovProcess.Win32.Spawn`).

  `CreateProcess` gives the child every inheritable handle of the parent, so the flags
  decide. `create_process_impl` sets at most one flag a stream: inheritable for a redirect
  target or an inherited standard handle, not inheritable for the parent's end of a pipe.
  `SetsFlags` is a list of such settings, in order; a handle that is only ever set one way
  ends up that way.

  Proved: `handles_inherited`, a start that returns has given the child its three standard
  handles, all that was inheritable and no other end of a pipe, and left the parent the
  other ends, the process and the thread, none of them inheritable; `throw_restores_iff`, a
  start that throws leaves the same handles open, of which only chosen ones may have become
  inheritable, exactly when it does not lose a target, and closes the targets it loses.
-/

import CovProcess.Unix.Plumbing
import CovProcess.Unix.Rollback
import CovProcess.Win32.Spawn

namespace CovProcess.Win32

open FdTable
open CovProcess.Unix (OpenFile FdTab PipeName PipeEnd Fds Pipes redirectOrPipe closeFd closePipe rollback Bound Made
  Slots TargetsOpen pipeFds streamFile)

variable {φ : Type}

/-! ## Flags -/

/-- The flag of a handle after a list of settings, `true` for inheritable. -/
def flagAfter (l : List (Fd × Bool)) (x : Fd) (cloexec : Bool) : Bool :=
  l.foldl (fun c e => if x = e.1 then !e.2 else c) cloexec

theorem flagAfter_append (l l' : List (Fd × Bool)) (x : Fd) (c : Bool) :
    flagAfter (l ++ l') x c = flagAfter l' x (flagAfter l x c) := List.foldl_append

/-- A handle that is only set one way. -/
theorem flagAfter_cases {l : List (Fd × Bool)} {x : Fd} {b : Bool} (h : ∀ e ∈ l, e.1 = x → e.2 = b) (c : Bool) :
    flagAfter l x c = c ∨ flagAfter l x c = !b := by
  induction l generalizing c with
  | nil => exact .inl rfl
  | cons e l ih =>
    have hl := ih fun e' he' => h e' (List.mem_cons_of_mem _ he')
    unfold flagAfter at hl ⊢
    rw [List.foldl_cons]
    by_cases hx : x = e.1
    · rw [if_pos hx, h e List.mem_cons_self hx.symm]
      rcases hl (!b) with heq | heq <;> exact .inr heq
    · rw [if_neg hx]
      exact hl c

theorem flagAfter_of_mem {l : List (Fd × Bool)} {x : Fd} {b : Bool} (h : ∀ e ∈ l, e.1 = x → e.2 = b) (hm : (x, b) ∈ l)
    (c : Bool) : flagAfter l x c = !b := by
  induction l generalizing c with
  | nil => cases hm
  | cons e l ih =>
    have hl : ∀ e' ∈ l, e'.1 = x → e'.2 = b := fun e' he' => h e' (List.mem_cons_of_mem _ he')
    rcases List.mem_cons.mp hm with rfl | hm
    · have hfirst : flagAfter ((x, b) :: l) x c = flagAfter l x (!b) := by simp [flagAfter]
      rw [hfirst]
      rcases flagAfter_cases hl (!b) with heq | heq <;> exact heq
    · exact ih hl hm _

theorem flagAfter_not_mem {l : List (Fd × Bool)} {x : Fd} (h : ∀ e ∈ l, e.1 ≠ x) (c : Bool) : flagAfter l x c = c := by
  induction l generalizing c with
  | nil => rfl
  | cons e l ih =>
    have hx : x ≠ e.1 := (h e List.mem_cons_self).symm
    unfold flagAfter
    rw [List.foldl_cons, if_neg hx]
    exact ih (fun e' he' => h e' (List.mem_cons_of_mem _ he')) c

/-- `t'` is `t` after the settings. -/
def SetsFlags (l : List (Fd × Bool)) (t t' : FdTab φ) : Prop :=
  ∀ x, t'.get x = (t.get x).map fun d => { d with cloexec := flagAfter l x d.cloexec }

namespace SetsFlags

variable {l l' : List (Fd × Bool)} {t t' t'' : FdTab φ}

theorem refl (t : FdTab φ) : SetsFlags [] t t := by
  intro x
  cases t.get x <;> rfl

theorem trans (h : SetsFlags l t t') (h' : SetsFlags l' t' t'') : SetsFlags (l ++ l') t t'' := by
  intro x
  rw [h' x, h x, Option.map_map]
  simp only [flagAfter_append]
  rfl

theorem file (h : SetsFlags l t t') (x : Fd) : t'.file x = t.file x := by
  rw [Table.file, h x, Table.file, Option.map_map]
  rfl

theorem get_eq (h : SetsFlags l t t') {x : Fd} {d : Desc (OpenFile φ)} (hx : t.get x = some d) :
    t'.get x = some ⟨d.file, flagAfter l x d.cloexec⟩ := by
  rw [h x, hx]
  rfl

theorem get_eq_none (h : SetsFlags l t t') {x : Fd} : t'.get x = none ↔ t.get x = none := by
  rw [h x, Option.map_eq_none_iff]

theorem invalid (b : Bool) : SetsFlags [(FD_INVALID, b)] t t := by
  intro x
  cases hx : t.get x with
  | none => rfl
  | some d =>
    have hne : x ≠ FD_INVALID := by
      intro heq
      subst heq
      rw [t.get_eq_none (by decide)] at hx
      cases hx
    simp [flagAfter, hne]

end SetsFlags

theorem setHandleInformation_ok {sys : FlagSys} {t t' : FdTab φ} {h : Fd} {inherit : Bool}
    (hok : setHandleInformation sys t h inherit = .ok t') : SetsFlags [(h, inherit)] t t' := by
  unfold setHandleInformation at hok
  split at hok <;> cases hok
  rename_i d hd _
  intro x
  rw [get_put _ (t.inRange h (by simp [hd]))]
  by_cases hx : x = h
  · subst hx
    simp [flagAfter, hd]
  · cases t.get x <;> simp [flagAfter, hx]

theorem makeInheritable_ok {sys : FlagSys} {queryMsg setMsg : Nat → String} {t t' : FdTab φ} {h : Fd}
    (hok : makeInheritable sys queryMsg setMsg t h = .ok t') : t.get h ≠ none ∧ SetsFlags [(h, true)] t t' := by
  unfold makeInheritable getHandleInformation at hok
  cases hd : t.get h with
  | none => simp [hd] at hok
  | some d =>
    refine ⟨Option.some_ne_none d, ?_⟩
    cases he : sys.getError with
    | some e => simp [hd, he] at hok
    | none =>
      cases hc : d.cloexec with
      | true =>
        simp only [hd, he, hc, Bool.not_true] at hok
        split at hok <;> cases hok
        exact setHandleInformation_ok ‹_›
      | false =>
        simp only [hd, he, hc, Bool.not_false, Except.ok.injEq] at hok
        subst hok
        intro x
        by_cases hx : x = h
        · subst hx
          obtain ⟨f, c⟩ := d
          simp only at hc
          subst hc
          simp [flagAfter, hd]
        · cases t.get x <;> simp [flagAfter, hx]

/-! ## One stream -/

/-- What setting up a stream does: the child's handle, and the flag that was set. -/
inductive StreamSet (inherit : Bool) (r : RedirectInfo) (std near far : Fd) (t : FdTab φ) : Fd → Fd × Bool → Prop
  | inherited : inherit = true → (std = FD_INVALID ∨ t.get std ≠ none) → StreamSet inherit r std near far t std (std, true)
  | redirected : inherit = false → r.redirected = true → t.get near ≠ none →
      StreamSet inherit r std near far t near (near, true)
  | piped : inherit = false → r.redirected = false → StreamSet inherit r std near far t near (far, false)

theorem setupStream_ok {sys : FlagSys} {name : String} {inherit : Bool} {r : RedirectInfo} {std near far h : Fd}
    {t t' : FdTab φ} (hok : setupStream sys name inherit r std near far t = .ok (h, t')) :
    ∃ e, StreamSet inherit r std near far t h e ∧ SetsFlags [e] t t' := by
  unfold setupStream at hok
  cases hi : inherit with
  | true =>
    rw [hi, if_pos rfl] at hok
    unfold ensureHandleInheritable at hok
    by_cases hinv : std = FD_INVALID
    · rw [if_pos hinv] at hok
      cases hok
      exact ⟨_, .inherited rfl (.inl hinv), hinv ▸ SetsFlags.invalid true⟩
    · rw [if_neg hinv] at hok
      cases hm : makeInheritable sys _ _ t std with
      | error msg =>
        rw [hm] at hok
        cases hok
      | ok u =>
        rw [hm] at hok
        cases hok
        obtain ⟨hopen, hsets⟩ := makeInheritable_ok hm
        exact ⟨_, .inherited rfl (.inr hopen), hsets⟩
  | false =>
    rw [hi, if_neg (by simp)] at hok
    cases hr : r.redirected with
    | true =>
      rw [hr, if_pos rfl] at hok
      cases hm : ensureTargetInheritable sys t near name with
      | error msg =>
        rw [hm] at hok
        cases hok
      | ok u =>
        rw [hm] at hok
        cases hok
        obtain ⟨hopen, hsets⟩ := makeInheritable_ok hm
        exact ⟨_, .redirected rfl hr hopen, hsets⟩
    | false =>
      rw [hr, if_neg (by simp)] at hok
      cases hm : setHandleInformation sys t far false with
      | error le =>
        rw [hm] at hok
        cases hok
      | ok u =>
        rw [hm] at hok
        cases hok
        exact ⟨_, .piped rfl hr, setHandleInformation_ok hm⟩

/-! ## The three streams -/

/-- The child's end of a stream's pipe, and the parent's. -/
def nearEnd : PipeName → PipeEnd
  | .stdin => .read
  | _ => .write

def farEnd : PipeName → PipeEnd
  | .stdin => .write
  | _ => .read

theorem nearEnd_ne (n : PipeName) : nearEnd n ≠ farEnd n := by
  cases n <;> decide

def pipesMade (s : ProcessStartup) : PipeName → Bool
  | .fail => false
  | n => Unix.piped s n

/-- The handle a stream redirects to, or inherits. -/
def ChosenBy (inherit : Bool) (r : RedirectInfo) (std x : Fd) : Prop :=
  if inherit then x = std else r.redirected = true ∧ x = r.target

/-- The handles that a start makes inheritable. -/
def Chosen (k : Kernel φ) (s : ProcessStartup) (x : Fd) : Prop :=
  ChosenBy s.inheritStdin s.stdin k.stdHandles.input x ∨ ChosenBy s.inheritStdout s.stdout k.stdHandles.output x ∨
    (s.mergeOutputs = false ∧ ChosenBy s.inheritStderr s.stderr k.stdHandles.error x)

/-- The caller's side: what is chosen is open, or no handle at all. -/
def ChosenOpen (k : Kernel φ) (s : ProcessStartup) (t₀ : Table φ) : Prop :=
  ∀ x, Chosen k s x → x = FD_INVALID ∨ t₀.get x ≠ none

section Launch

variable {k : Kernel φ} {s : ProcessStartup} {t₀ : Table φ} {p : Pipes} {t t' : FdTab φ}

/-- The three streams bound: both ends of each pipe are there, and inheritable. -/
structure Bindings (s : ProcessStartup) (t₀ : Table φ) (p : Pipes) (t : FdTab φ) : Prop where
  made : Made t₀ (pipeFds p {}) (pipesMade s) t
  plain : ∀ n e, pipesMade s n = true → t.get ((pipeFds p {} n).at e) = some ⟨.pipe n e, false⟩
  stdin : Slots s.inheritStdin s.stdin p.pstdin
  stdout : Slots s.inheritStdout s.stdout p.pstdout
  stderr : Slots (s.mergeOutputs || s.inheritStderr) s.stderr p.pstderr

theorem bound_plain {fds : PipeName → Fds} {made : PipeName → Bool} {n : PipeName} {skip : Bool} {r : RedirectInfo}
    (hb : Bound n skip r t (fds n) t')
    (h : ∀ m e, made m = true → t.get ((fds m).at e) = some ⟨.pipe m e, false⟩) (m : PipeName) (e : PipeEnd)
    (hm : Function.update made n (!skip && !r.redirected) m = true) :
    t'.get ((fds m).at e) = some ⟨.pipe m e, false⟩ := by
  by_cases hmn : m = n
  · subst hmn
    rw [Function.update_self] at hm
    generalize hf : fds m = f at hb
    cases hb with
    | skipped hs => simp [hs] at hm
    | redirected hs hr => simp [hr] at hm
    | piped hs hr hp =>
      cases e with
      | read => exact hp.get_rd
      | write => exact hp.get_wr
  · rw [Function.update_of_ne hmn] at hm
    have hget := h m e hm
    rw [hb.keep (by simp [hget]), hget]

theorem bindings {t₁ t₂ t₃ : FdTab φ} (bin : Bound .stdin s.inheritStdin s.stdin (t₀.map .old) p.pstdin t₁)
    (bout : Bound .stdout s.inheritStdout s.stdout t₁ p.pstdout t₂)
    (berr : Bound .stderr (s.mergeOutputs || s.inheritStderr) s.stderr t₂ p.pstderr t₃) : Bindings s t₀ p t₃ := by
  have hpiped : Function.update (Function.update (Function.update (fun _ => false)
      PipeName.stdin (!s.inheritStdin && !s.stdin.redirected))
      PipeName.stdout (!s.inheritStdout && !s.stdout.redirected))
      PipeName.stderr (!(s.mergeOutputs || s.inheritStderr) && !s.stderr.redirected) = pipesMade s := by
    funext n
    cases n <;> rfl
  have hin := (Made.start t₀ (pipeFds p {})).bound (n := .stdin) bin rfl
  have hout := hin.bound (n := .stdout) bout rfl
  have herr := hout.bound (n := .stderr) berr rfl
  rw [hpiped] at herr
  refine ⟨herr, ?_, bin.slots, bout.slots, berr.slots⟩
  intro n e hn
  rw [← hpiped] at hn
  exact bound_plain (n := .stderr) berr
    (bound_plain (n := .stdout) bout (bound_plain (n := .stdin) bin fun _ _ h => absurd h (by simp))) n e hn

/-- The settings of the streams `S`: what they chose is made inheritable, the parent's end
    of each pipe is not. -/
structure Settings (s : ProcessStartup) (p : Pipes) (S : List PipeName) (C : Fd → Prop) (l : List (Fd × Bool)) :
    Prop where
  chosen : ∀ e ∈ l, e.2 = true → C e.1
  far : ∀ e ∈ l, e.2 = false → ∃ n, pipesMade s n = true ∧ e.1 = (pipeFds p {} n).at (farEnd n)
  all : ∀ n ∈ S, pipesMade s n = true → ((pipeFds p {} n).at (farEnd n), false) ∈ l
  given : ∀ x, C x → (x, true) ∈ l

/-- One stream, by its own names. -/
theorem StreamSet.file {n : PipeName} {inherit : Bool} {r : RedirectInfo} {std h : Fd} {u : FdTab φ} {e : Fd × Bool}
    (hst : StreamSet inherit r std ((pipeFds p {} n).at (nearEnd n)) ((pipeFds p {} n).at (farEnd n)) u h e)
    (hb : Bindings s t₀ p t) (hs : Slots inherit r (pipeFds p {} n)) (hn : pipesMade s n = (!inherit && !r.redirected))
    (hstd : inherit = true → std = FD_INVALID ∨ t₀.get std ≠ none)
    (htarget : inherit = false → r.redirected = true → t₀.get r.target ≠ none) :
    t.file h = streamFile t₀ std inherit r (.pipe n (nearEnd n)) := by
  have hold : ∀ x, t₀.get x ≠ none → t.file x = (t₀.file x).map .old := by
    intro x hx
    rw [Table.file, hb.made.kept x hx, ← file_map, Table.file]
  cases hst with
  | inherited hi =>
    rw [streamFile, hi, if_pos rfl]
    rcases hstd hi with rfl | hopen
    · rw [Table.file, t.get_eq_none (by decide), Table.file, t₀.get_eq_none (by decide)]
      rfl
    · exact hold _ hopen
  | redirected hi hr =>
    rw [streamFile, hi, if_neg (by simp), Unix.boundFile, hr, if_pos rfl, hs.at_redirected hi hr]
    exact hold _ (htarget hi hr)
  | piped hi hr =>
    rw [streamFile, hi, if_neg (by simp), Unix.boundFile, hr, if_neg (by simp), Table.file,
      hb.plain n _ (by rw [hn, hi, hr]; rfl)]
    rfl

/-- The setting `e` and the child's handle `h` of one stream. -/
structure Entry (s : ProcessStartup) (p : Pipes) (n : PipeName) (C : Fd → Prop) (h : Fd) (e : Fd × Bool) : Prop where
  chosen : ∀ x, C x ↔ e = (x, true)
  far : pipesMade s n = true → e = ((pipeFds p {} n).at (farEnd n), false) ∧ h = (pipeFds p {} n).at (nearEnd n)
  own : pipesMade s n = false → e = (h, true)

theorem Entry.far_of_false {n : PipeName} {chosen : Fd → Prop} {h : Fd} {e : Fd × Bool} (he : Entry s p n chosen h e)
    (hf : e.2 = false) : pipesMade s n = true ∧ e.1 = (pipeFds p {} n).at (farEnd n) := by
  cases hn : pipesMade s n with
  | true => exact ⟨rfl, by rw [(he.far hn).1]⟩
  | false =>
    rw [he.own hn] at hf
    cases hf

theorem Settings.nil (s : ProcessStartup) (p : Pipes) : Settings s p [] (fun _ => False) [] where
  chosen _ he := absurd he List.not_mem_nil
  far _ he := absurd he List.not_mem_nil
  all _ hn := absurd hn List.not_mem_nil
  given _ hx := hx.elim

theorem Settings.add {S : List PipeName} {c c' : Fd → Prop} {l : List (Fd × Bool)} {n : PipeName} {h : Fd} {e : Fd × Bool}
    (hl : Settings s p S c l) (he : Entry s p n c' h e) : Settings s p (n :: S) (fun x => c x ∨ c' x) (l ++ [e]) where
  chosen e' hmem hb := by
    rcases List.mem_append.mp hmem with hmem | hmem
    · exact .inl (hl.chosen e' hmem hb)
    · rw [List.mem_singleton.mp hmem] at hb ⊢
      exact .inr ((he.chosen _).mpr (Prod.ext rfl hb))
  far e' hmem hb := by
    rcases List.mem_append.mp hmem with hmem | hmem
    · exact hl.far e' hmem hb
    · rw [List.mem_singleton.mp hmem] at hb ⊢
      exact ⟨n, he.far_of_false hb⟩
  all m hm hp := by
    rcases List.mem_cons.mp hm with rfl | hm
    · exact List.mem_append_right _ (List.mem_singleton.mpr (he.far hp).1.symm)
    · exact List.mem_append_left _ (hl.all m hm hp)
  given x hx := by
    rcases hx with hx | hx
    · exact List.mem_append_left _ (hl.given x hx)
    · exact List.mem_append_right _ (List.mem_singleton.mpr ((he.chosen x).mp hx).symm)

theorem Entry.near {n : PipeName} {chosen : Fd → Prop} {h : Fd} {e : Fd × Bool} (he : Entry s p n chosen h e) :
    chosen h ∨ ∃ n, pipesMade s n = true ∧ h = (pipeFds p {} n).at (nearEnd n) := by
  cases hn : pipesMade s n with
  | true => exact .inr ⟨n, hn, (he.far hn).2⟩
  | false => exact .inl ((he.chosen h).mpr (he.own hn))

/-- The setting of a stream, and when it is which. -/
theorem StreamSet.entry {n : PipeName} {inherit : Bool} {r : RedirectInfo} {std h : Fd} {u : FdTab φ} {e : Fd × Bool}
    (hst : StreamSet inherit r std ((pipeFds p {} n).at (nearEnd n)) ((pipeFds p {} n).at (farEnd n)) u h e)
    (hs : Slots inherit r (pipeFds p {} n)) (hn : pipesMade s n = (!inherit && !r.redirected)) :
    Entry s p n (ChosenBy inherit r std) h e := by
  cases hst with
  | inherited hi =>
    refine ⟨fun x => ?_, ?_, ?_⟩
    · rw [ChosenBy, hi, if_pos rfl, Prod.mk.injEq, eq_comm]
      simp
    · simp [hn, hi]
    · simp
  | redirected hi hr =>
    refine ⟨fun x => ?_, ?_, ?_⟩
    · rw [ChosenBy, hi, if_neg (by simp), hs.at_redirected hi hr, Prod.mk.injEq, @eq_comm _ r.target]
      simp [hr]
    · simp [hn, hi, hr]
    · simp [hn, hi, hr]
  | piped hi hr =>
    refine ⟨fun x => ?_, ?_, ?_⟩
    · rw [ChosenBy, hi, if_neg (by simp), hr]
      simp
    · simp [hn, hi, hr]
    · simp [hn, hi, hr]

theorem setupStdin_ok {h : Fd} (hok : setupStdin k s p t = .ok (h, t')) :
    ∃ e, StreamSet s.inheritStdin s.stdin k.stdHandles.input p.pstdin.rd p.pstdin.wr t h e ∧ SetsFlags [e] t t' :=
  setupStream_ok hok

theorem setupStdout_ok {h : Fd} (hok : setupStdout k s p t = .ok (h, t')) :
    ∃ e, StreamSet s.inheritStdout s.stdout k.stdHandles.output p.pstdout.wr p.pstdout.rd t h e ∧ SetsFlags [e] t t' :=
  setupStream_ok hok

theorem setupStderr_ok {out h : Fd} (hok : setupStderr k s p out t = .ok (h, t')) :
    (s.mergeOutputs = true ∧ h = out ∧ t' = t) ∨
      (s.mergeOutputs = false ∧ ∃ e, StreamSet s.inheritStderr s.stderr k.stdHandles.error p.pstderr.wr p.pstderr.rd t h e ∧
        SetsFlags [e] t t') := by
  unfold setupStderr at hok
  cases hm : s.mergeOutputs with
  | true =>
    rw [hm, if_pos rfl] at hok
    cases hok
    exact .inl ⟨rfl, rfl, rfl⟩
  | false =>
    rw [hm, if_neg (by simp)] at hok
    exact .inr ⟨rfl, setupStream_ok hok⟩

/-- The parent's handles when it calls `CreateProcess`, from those with the streams bound. -/
structure AtLaunch (k : Kernel φ) (s : ProcessStartup) (t₀ : Table φ) (p : Pipes) (std : StdHandles)
    (l : List (Fd × Bool)) (t t' : FdTab φ) : Prop where
  bound : Bindings s t₀ p t
  sets : SetsFlags l t t'
  settings : Settings s p [.stderr, .stdout, .stdin] (Chosen k s) l
  /-- Each standard handle is chosen, or the child's end of a pipe. -/
  near : ∀ h, h = std.input ∨ h = std.output ∨ h = std.error →
    Chosen k s h ∨ ∃ n, pipesMade s n = true ∧ h = (pipeFds p {} n).at (nearEnd n)
  input : t.file std.input = streamFile t₀ k.stdHandles.input s.inheritStdin s.stdin (.pipe .stdin .read)
  output : t.file std.output = streamFile t₀ k.stdHandles.output s.inheritStdout s.stdout (.pipe .stdout .write)
  error : if s.mergeOutputs then std.error = std.output
    else t.file std.error = streamFile t₀ k.stdHandles.error s.inheritStderr s.stderr (.pipe .stderr .write)

theorem ChosenOpen.target {inherit : Bool} {r : RedirectInfo} {std : Fd}
    (hopen : ∀ x, ChosenBy inherit r std x → x = FD_INVALID ∨ t₀.get x ≠ none) :
    (inherit = true → std = FD_INVALID ∨ t₀.get std ≠ none) ∧
      (inherit = false → r.redirected = true → t₀.get r.target ≠ none) := by
  constructor
  · intro hi
    exact hopen std (by rw [ChosenBy, hi, if_pos rfl])
  · intro hi hr
    have hne : r.target ≠ FD_INVALID := by simpa [RedirectInfo.redirected] using hr
    refine (hopen r.target ?_).resolve_left hne
    rw [ChosenBy, hi, if_neg (by simp)]
    exact ⟨hr, rfl⟩

/-- The three streams set up: the settings, and where the child's handles come from. -/
theorem settings_ok {hin hout herr : Fd} {t₁ t₂ t₃ : FdTab φ} (hb : Bindings s t₀ p t)
    (h₁ : setupStdin k s p t = .ok (hin, t₁)) (h₂ : setupStdout k s p t₁ = .ok (hout, t₂))
    (h₃ : setupStderr k s p hout t₂ = .ok (herr, t₃)) :
    ∃ l, SetsFlags l t t₃ ∧ Settings s p [.stderr, .stdout, .stdin] (Chosen k s) l ∧
      ∀ h, h = hin ∨ h = hout ∨ h = herr → Chosen k s h ∨ ∃ n, pipesMade s n = true ∧ h = (pipeFds p {} n).at (nearEnd n) := by
  obtain ⟨e₁, hst₁, hset₁⟩ := setupStdin_ok h₁
  obtain ⟨e₂, hst₂, hset₂⟩ := setupStdout_ok h₂
  have hent₁ := StreamSet.entry (n := .stdin) (s := s) hst₁ hb.stdin rfl
  have hent₂ := StreamSet.entry (n := .stdout) (s := s) hst₂ hb.stdout rfl
  have hset := ((Settings.nil s p).add hent₁).add hent₂
  rcases setupStderr_ok h₃ with ⟨hm, rfl, rfl⟩ | ⟨hm, e₃, hst₃, hset₃⟩
  · refine ⟨[e₁] ++ [e₂], hset₁.trans hset₂, ⟨?_, hset.far, ?_, ?_⟩, ?_⟩
    · intro e he hb
      rcases hset.chosen e he hb with (hx | hx) | hx
      · exact hx.elim
      · exact .inl hx
      · exact .inr (.inl hx)
    · intro n hn hp
      rcases List.mem_cons.mp hn with rfl | hn
      · have hnot : Unix.piped s .stderr = true := hp
        simp [Unix.piped, hm] at hnot
      · exact hset.all n hn hp
    · intro x hcase
      rcases hcase with hx | hx | ⟨hm', -⟩
      · exact hset.given x (.inl (.inr hx))
      · exact hset.given x (.inr hx)
      · rw [hm] at hm'
        cases hm'
    · intro h hcase
      rcases hcase with rfl | rfl | rfl
      · exact hent₁.near.imp_left .inl
      · exact hent₂.near.imp_left fun hx => .inr (.inl hx)
      · exact hent₂.near.imp_left fun hx => .inr (.inl hx)
  · have hslots := hb.stderr
    have hskip : (s.mergeOutputs || s.inheritStderr) = s.inheritStderr := by rw [hm, Bool.false_or]
    rw [hskip] at hslots
    have hn₃ : Unix.piped s .stderr = (!s.inheritStderr && !s.stderr.redirected) := by rw [Unix.piped, hskip]
    have hent₃ := StreamSet.entry (n := .stderr) (s := s) hst₃ hslots hn₃
    have hset := hset.add hent₃
    refine ⟨([e₁] ++ [e₂]) ++ [e₃], (hset₁.trans hset₂).trans hset₃, ⟨?_, hset.far, hset.all, ?_⟩, ?_⟩
    · intro e he hb
      rcases hset.chosen e he hb with ((hx | hx) | hx) | hx
      · exact hx.elim
      · exact .inl hx
      · exact .inr (.inl hx)
      · exact .inr (.inr ⟨hm, hx⟩)
    · intro x hcase
      rcases hcase with hx | hx | ⟨-, hx⟩
      · exact hset.given x (.inl (.inl (.inr hx)))
      · exact hset.given x (.inl (.inr hx))
      · exact hset.given x (.inr hx)
    · intro h hcase
      rcases hcase with rfl | rfl | rfl
      · exact hent₁.near.imp_left .inl
      · exact hent₂.near.imp_left fun hx => .inr (.inl hx)
      · exact hent₃.near.imp_left fun hx => .inr (.inr ⟨hm, hx⟩)

theorem atLaunch {hin hout herr : Fd} {t₁ t₂ t₃ : FdTab φ} (hc : ChosenOpen k s t₀) (hb : Bindings s t₀ p t)
    (h₁ : setupStdin k s p t = .ok (hin, t₁)) (h₂ : setupStdout k s p t₁ = .ok (hout, t₂))
    (h₃ : setupStderr k s p hout t₂ = .ok (herr, t₃)) : ∃ l, AtLaunch k s t₀ p ⟨hin, hout, herr⟩ l t t₃ := by
  obtain ⟨l, hsets, hset, hnear⟩ := settings_ok hb h₁ h₂ h₃
  obtain ⟨e₁, hst₁, -⟩ := setupStdin_ok h₁
  obtain ⟨e₂, hst₂, -⟩ := setupStdout_ok h₂
  have hc₁ := ChosenOpen.target fun x hx => hc x (.inl hx)
  have hc₂ := ChosenOpen.target fun x hx => hc x (.inr (.inl hx))
  refine ⟨l, hb, hsets, hset, hnear, StreamSet.file (n := .stdin) hst₁ hb hb.stdin rfl hc₁.1 hc₁.2,
    StreamSet.file (n := .stdout) hst₂ hb hb.stdout rfl hc₂.1 hc₂.2, ?_⟩
  rcases setupStderr_ok h₃ with ⟨hm, rfl, -⟩ | ⟨hm, e₃, hst₃, -⟩
  · rw [if_pos hm]
  · have hslots := hb.stderr
    have hskip : (s.mergeOutputs || s.inheritStderr) = s.inheritStderr := by rw [hm, Bool.false_or]
    rw [hskip] at hslots
    have hn₃ : Unix.piped s .stderr = (!s.inheritStderr && !s.stderr.redirected) := by rw [Unix.piped, hskip]
    have hc₃ := ChosenOpen.target fun x hx => hc x (.inr (.inr ⟨hm, hx⟩))
    rw [if_neg (by simp [hm])]
    exact StreamSet.file (n := .stderr) hst₃ hb hslots hn₃ hc₃.1 hc₃.2

/-! ## The flags of the parent's handles -/

/-- A handle of the caller's after settings of chosen handles and of pipe ends: only a
    chosen one can have changed, to inheritable. -/
theorem Bindings.old_flag (hb : Bindings s t₀ p t) {S : List PipeName} {C : Fd → Prop} {l : List (Fd × Bool)}
    (hl : Settings s p S C l) {x : Fd} {d : Desc φ} (hx : t₀.get x = some d) :
    (∀ e ∈ l, e.1 = x → e.2 = true) ∧ (flagAfter l x d.cloexec = d.cloexec ∨ (flagAfter l x d.cloexec = false ∧ C x)) := by
  have htrue : ∀ e ∈ l, e.1 = x → e.2 = true := by
    intro e he hex
    by_contra hf
    obtain ⟨n, hn, hfar⟩ := hl.far e he (by simpa using hf)
    exact hb.made.old_ne (by simp [hx]) _ hn (hex.symm.trans hfar)
  refine ⟨htrue, ?_⟩
  by_cases hmem : ∃ e ∈ l, e.1 = x
  · obtain ⟨e, he, hex⟩ := hmem
    have hC := hl.chosen e he (htrue e he hex)
    rw [hex] at hC
    exact (flagAfter_cases htrue d.cloexec).imp_right fun h => ⟨h, hC⟩
  · exact .inl (flagAfter_not_mem (fun e he hex => hmem ⟨e, he, hex⟩) _)

namespace AtLaunch

variable {std : StdHandles} {l : List (Fd × Bool)}

theorem chosen_ne (h : AtLaunch k s t₀ p std l t t') (hc : ChosenOpen k s t₀) {x : Fd} (hx : Chosen k s x) {n : PipeName}
    (e : PipeEnd) (hn : pipesMade s n = true) : x ≠ (pipeFds p {} n).at e := by
  rcases hc x hx with rfl | hopen
  · intro heq
    have hopen : t.get FD_INVALID = some ⟨.pipe n e, false⟩ := heq ▸ h.bound.plain n e hn
    rw [t.get_eq_none (by decide)] at hopen
    cases hopen
  · exact h.bound.made.old_ne hopen e hn

theorem far_get (h : AtLaunch k s t₀ p std l t t') (hc : ChosenOpen k s t₀) {n : PipeName} (hn : pipesMade s n = true) :
    t'.get ((pipeFds p {} n).at (farEnd n)) = some ⟨.pipe n (farEnd n), true⟩ := by
  rw [h.sets.get_eq (h.bound.plain n _ hn),
    flagAfter_of_mem (b := false) ?_ (h.settings.all n (by cases n <;> simp; cases hn) hn)]
  · rfl
  · intro e he hex
    by_contra hb
    exact h.chosen_ne hc (h.settings.chosen e he (by simpa using hb)) _ hn hex

theorem near_get (h : AtLaunch k s t₀ p std l t t') (hc : ChosenOpen k s t₀) {n : PipeName} (hn : pipesMade s n = true) :
    t'.get ((pipeFds p {} n).at (nearEnd n)) = some ⟨.pipe n (nearEnd n), false⟩ := by
  rw [h.sets.get_eq (h.bound.plain n _ hn), flagAfter_not_mem]
  intro e he hex
  cases hb : e.2 with
  | true => exact h.chosen_ne hc (h.settings.chosen e he hb) _ hn hex
  | false =>
    obtain ⟨m, hm, hfar⟩ := h.settings.far e he hb
    have hfile : t.file e.1 = some (.pipe n (nearEnd n)) := by
      rw [hex, Table.file, h.bound.plain n _ hn]
      rfl
    refine h.bound.made.ne_end hfile hm ?_ hfar
    intro heq
    obtain ⟨rfl, he⟩ := OpenFile.pipe.inj heq
    exact nearEnd_ne _ he

/-- A handle of the caller's: inheritable if chosen, else as it was. -/
theorem old_get (h : AtLaunch k s t₀ p std l t t') {x : Fd} {d : Desc φ} (hx : t₀.get x = some d) :
    ∃ c, t'.get x = some ⟨.old d.file, c⟩ ∧ (Chosen k s x → c = false) ∧ (¬ Chosen k s x → c = d.cloexec) := by
  obtain ⟨htrue, hflag⟩ := h.bound.old_flag h.settings hx
  refine ⟨_, h.sets.get_eq (h.bound.made.old hx), ?_, ?_⟩
  · intro hC
    exact flagAfter_of_mem htrue (h.settings.given x hC) _
  · intro hC
    exact hflag.resolve_right fun hf => hC hf.2

theorem only (h : AtLaunch k s t₀ p std l t t') {x : Fd} (hx : t₀.get x = none) (hx' : t'.get x ≠ none) :
    ∃ n e, pipesMade s n = true ∧ x = (pipeFds p {} n).at e :=
  h.bound.made.only x hx fun hn => hx' (h.sets.get_eq_none.mpr hn)

theorem std_file (h : AtLaunch k s t₀ p std l t t') (hc : ChosenOpen k s t₀) {x : Fd}
    (hx : x = std.input ∨ x = std.output ∨ x = std.error) : t'.exec.file x = t.file x := by
  have hplain : ∀ d, t'.get x = some d → d.cloexec = false := by
    intro d hd
    rcases h.near x hx with hC | ⟨n, hn, rfl⟩
    · rcases hc x hC with rfl | hopen
      · rw [t'.get_eq_none (by decide)] at hd
        cases hd
      · obtain ⟨d₀, hd₀⟩ := Option.ne_none_iff_exists'.mp hopen
        obtain ⟨c, hget, hfalse, -⟩ := h.old_get hd₀
        rw [hget] at hd
        cases hd
        exact hfalse hC
    · rw [h.near_get hc hn] at hd
      cases hd
      rfl
  rw [← h.sets.file x]
  cases hd : t'.get x with
  | none => simp [Table.file, Table.exec, hd]
  | some d => rw [Table.file, get_exec_keep _ hd (hplain d hd), Table.file, hd]

end AtLaunch

/-! ## A start that returns -/

/-- What the child has: its standard handles, its ends of the pipes, and all that was
    inheritable of the caller's. -/
structure ChildHandles (k : Kernel φ) (s : ProcessStartup) (t₀ : Table φ) (c : Launch φ) : Prop where
  input : c.handles.file c.std.input = streamFile t₀ k.stdHandles.input s.inheritStdin s.stdin (.pipe .stdin .read)
  output : c.handles.file c.std.output = streamFile t₀ k.stdHandles.output s.inheritStdout s.stdout (.pipe .stdout .write)
  error : if s.mergeOutputs then c.std.error = c.std.output
    else c.handles.file c.std.error = streamFile t₀ k.stdHandles.error s.inheritStderr s.stderr (.pipe .stderr .write)
  only : ∀ x f, c.handles.file x = some f → (∃ n, pipesMade s n = true ∧ f = .pipe n (nearEnd n)) ∨
    ∃ d, t₀.get x = some d ∧ f = .old d.file ∧ (d.cloexec = false ∨ Chosen k s x)
  inherits : ∀ x d, t₀.get x = some d → d.cloexec = false ∨ Chosen k s x → c.handles.file x = some (.old d.file)

/-- A slot of `info`: a new handle that no child inherits, or `FD_INVALID`. -/
def ParentHandle (has : Bool) (f : OpenFile φ) (t₀ : Table φ) (t : FdTab φ) (fd : Fd) : Prop :=
  if has then t₀.get fd = none ∧ t.get fd = some ⟨f, true⟩ else fd = FD_INVALID

structure ParentHandles (k : Kernel φ) (s : ProcessStartup) (t₀ : Table φ) (info : ProcessInfo) (t : FdTab φ) : Prop where
  kept : ∀ x d, t₀.get x = some d →
    ∃ c, t.get x = some ⟨.old d.file, c⟩ ∧ (Chosen k s x → c = false) ∧ (¬ Chosen k s x → c = d.cloexec)
  process : ParentHandle true (.old k.process) t₀ t info.pid
  thread : ParentHandle true (.old k.thread) t₀ t info.tid
  stdin : ParentHandle (pipesMade s .stdin) (.pipe .stdin .write) t₀ t info.stdin
  stdout : ParentHandle (pipesMade s .stdout) (.pipe .stdout .read) t₀ t info.stdout
  stderr : ParentHandle (pipesMade s .stderr) (.pipe .stderr .read) t₀ t info.stderr
  gained : ∀ x, t₀.get x = none → t.get x ≠ none → x = info.pid ∨ x = info.tid ∨
    (pipesMade s .stdin = true ∧ x = info.stdin) ∨ (pipesMade s .stdout = true ∧ x = info.stdout) ∨
    (pipesMade s .stderr = true ∧ x = info.stderr)

theorem createProcess_noStdin (hin : bindStdin k s (t₀.map .old) = none) :
    createProcess k s t₀ = { result := .error "unable to bind stdin", table := t₀.map .old } := by
  simp [createProcess, hin]

theorem createProcess_noStdout {pstdin : Fds} {t₁ : FdTab φ} (hin : bindStdin k s (t₀.map .old) = some (pstdin, t₁))
    (hout : bindStdout k s t₁ = none) :
    createProcess k s t₀ =
      { result := .error "unable to bind stdout", table := if !s.inheritStdin then closePipe t₁ pstdin else t₁ } := by
  simp [createProcess, hin, hout]

theorem createProcess_noStderr {pstdin pstdout : Fds} {t₁ t₂ : FdTab φ}
    (hin : bindStdin k s (t₀.map .old) = some (pstdin, t₁)) (hout : bindStdout k s t₁ = some (pstdout, t₂))
    (herr : bindStderr k s t₂ = none) :
    createProcess k s t₀ =
      { result := .error "unable to bind stderr"
        table :=
          if !s.inheritStdout then closePipe (if !s.inheritStdin then closePipe t₂ pstdin else t₂) pstdout
          else if !s.inheritStdin then closePipe t₂ pstdin else t₂ } := by
  simp [createProcess, hin, hout, herr]

theorem createProcess_bound {t₁ t₂ t₃ : FdTab φ} (hin : bindStdin k s (t₀.map .old) = some (p.pstdin, t₁))
    (hout : bindStdout k s t₁ = some (p.pstdout, t₂)) (herr : bindStderr k s t₂ = some (p.pstderr, t₃)) :
    createProcess k s t₀ =
      match (createProcessImpl k s p t₃).result with
      | .ok _ => createProcessImpl k s p t₃
      | .error _ => { createProcessImpl k s p t₃ with table := rollback s p (createProcessImpl k s p t₃).table } := by
  cases hres : (createProcessImpl k s p t₃).result with
  | ok info => simp only [createProcess, hin, hout, herr, hres]
  | error msg => simp only [createProcess, hin, hout, herr, hres]

theorem createProcess_ok {info : ProcessInfo} (hc : ChosenOpen k s t₀) (h : (createProcess k s t₀).result = .ok info) :
    ∃ p std l t t', AtLaunch k s t₀ p std l t t' ∧ createProcess k s t₀ = launch k s p std t' := by
  cases hin : bindStdin k s (t₀.map .old) with
  | none => simp [createProcess_noStdin hin] at h
  | some r₁ =>
    obtain ⟨pstdin, t₁⟩ := r₁
    cases hout : bindStdout k s t₁ with
    | none => simp [createProcess_noStdout hin hout] at h
    | some r₂ =>
      obtain ⟨pstdout, t₂⟩ := r₂
      cases herr : bindStderr k s t₂ with
      | none => simp [createProcess_noStderr hin hout herr] at h
      | some r₃ =>
        obtain ⟨pstderr, t₃⟩ := r₃
        let p : Pipes := ⟨pstdin, pstdout, pstderr⟩
        have hbound := createProcess_bound (p := p) hin hout herr
        have himpl : (createProcessImpl k s p t₃).result = .ok info := by
          rw [hbound] at h
          cases hres : (createProcessImpl k s p t₃).result with
          | ok i => simpa [hres] using h
          | error m => simp [hres] at h
        rw [himpl] at hbound
        have hb : Bindings s t₀ p t₃ := bindings (Unix.bind_spec hin) (Unix.bind_spec hout) (Unix.bind_spec herr)
        cases h₁ : setupStdin k s p t₃ with
        | error m => simp [createProcessImpl, h₁] at himpl
        | ok r₁ =>
          obtain ⟨hStdin, t₄⟩ := r₁
          cases h₂ : setupStdout k s p t₄ with
          | error m => simp [createProcessImpl, h₁, h₂] at himpl
          | ok r₂ =>
            obtain ⟨hStdout, t₅⟩ := r₂
            cases h₃ : setupStderr k s p hStdout t₅ with
            | error m => simp [createProcessImpl, h₁, h₂, h₃] at himpl
            | ok r₃ =>
              obtain ⟨hStderr, t₆⟩ := r₃
              obtain ⟨l, hl⟩ := atLaunch hc hb h₁ h₂ h₃
              refine ⟨p, _, l, t₃, t₆, hl, ?_⟩
              rw [hbound]
              simp [createProcessImpl, h₁, h₂, h₃]

theorem get_closeChildEnds (s : ProcessStartup) (p : Pipes) (t : FdTab φ) (x : Fd) :
    (closeChildEnds s p t).get x =
      if pipesMade s .stderr = true ∧ x = p.pstderr.wr ∨ pipesMade s .stdout = true ∧ x = p.pstdout.wr ∨
        pipesMade s .stdin = true ∧ x = p.pstdin.rd then none
      else t.get x := by
  have hin : (!s.inheritStdin && !s.stdin.redirected) = pipesMade s .stdin := rfl
  have hout : (!s.inheritStdout && !s.stdout.redirected) = pipesMade s .stdout := rfl
  have herr : (!s.inheritStderr && !s.mergeOutputs && !s.stderr.redirected) = pipesMade s .stderr := by
    show _ = (!(s.mergeOutputs || s.inheritStderr) && !s.stderr.redirected)
    cases s.inheritStderr <;> cases s.mergeOutputs <;> rfl
  rw [closeChildEnds]
  simp only [hin, hout, herr, Unix.get_closeFd_if, ite_or]

/-- The parent's handles `u` after `CreateProcess`: the process and the thread at new
    numbers, and the child's ends of the pipes gone. -/
structure Launched (k : Kernel φ) (s : ProcessStartup) (p : Pipes) (hProcess hThread : Fd) (t u : FdTab φ) : Prop where
  process : u.get hProcess = some ⟨.old k.process, true⟩
  thread : u.get hThread = some ⟨.old k.thread, true⟩
  keep : ∀ x d, t.get x = some d → (∀ n, d.file ≠ .pipe n (nearEnd n)) → u.get x = some d
  only : ∀ x, u.get x ≠ none → x = hProcess ∨ x = hThread ∨
    (t.get x ≠ none ∧ ∀ n, pipesMade s n = true → x ≠ (pipeFds p {} n).at (nearEnd n))

theorem launched {hProcess hThread : Fd} (hpick : k.processHandles.pick t = some (hProcess, hThread))
    (hnear : ∀ n, pipesMade s n = true → t.get ((pipeFds p {} n).at (nearEnd n)) = some ⟨.pipe n (nearEnd n), false⟩) :
    Launched k s p hProcess hThread t
      (closeChildEnds s p ((t.put hProcess ⟨.old k.process, true⟩).put hThread ⟨.old k.thread, true⟩)) := by
  obtain ⟨hrp, hrt⟩ := k.processHandles.inRange _ _ _ hpick
  obtain ⟨hfp, hft⟩ := k.processHandles.closed _ _ _ hpick
  have hne := k.processHandles.distinct _ _ _ hpick
  -- the closes as one
  have hget : ∀ x, (closeChildEnds s p ((t.put hProcess ⟨.old k.process, true⟩).put hThread ⟨.old k.thread, true⟩)).get x =
      if pipesMade s .stderr = true ∧ x = p.pstderr.wr ∨ pipesMade s .stdout = true ∧ x = p.pstdout.wr ∨
        pipesMade s .stdin = true ∧ x = p.pstdin.rd then none
      else if x = hThread then some ⟨.old k.thread, true⟩ else if x = hProcess then some ⟨.old k.process, true⟩
      else t.get x := by
    intro x
    rw [get_closeChildEnds, get_put _ hrt, get_put _ hrp]
  have hkept : ∀ x, (∀ n, pipesMade s n = true → x ≠ (pipeFds p {} n).at (nearEnd n)) →
      (closeChildEnds s p ((t.put hProcess ⟨.old k.process, true⟩).put hThread ⟨.old k.thread, true⟩)).get x =
        if x = hThread then some ⟨.old k.thread, true⟩ else if x = hProcess then some ⟨.old k.process, true⟩
        else t.get x := by
    intro x hx
    rw [hget, if_neg]
    intro hcase
    rcases hcase with ⟨hn, h⟩ | ⟨hn, h⟩ | ⟨hn, h⟩
    · exact hx .stderr hn h
    · exact hx .stdout hn h
    · exact hx .stdin hn h
  have hclosed : ∀ x, t.get x = none → ∀ n, pipesMade s n = true → x ≠ (pipeFds p {} n).at (nearEnd n) := by
    intro x hx n hn heq
    subst heq
    rw [hnear n hn] at hx
    cases hx
  refine ⟨?_, ?_, ?_, ?_⟩
  · rw [hkept _ (hclosed _ hfp), if_neg hne, if_pos rfl]
  · rw [hkept _ (hclosed _ hft), if_pos rfl]
  · intro x d hx hd
    have hxt : x ≠ hThread := by
      intro heq
      subst heq
      rw [hft] at hx
      cases hx
    have hxp : x ≠ hProcess := by
      intro heq
      subst heq
      rw [hfp] at hx
      cases hx
    rw [hkept x, if_neg hxt, if_neg hxp, hx]
    intro n hn heq
    subst heq
    rw [hnear n hn] at hx
    cases hx
    exact hd n rfl
  · intro x hx
    rw [hget] at hx
    split at hx
    · exact absurd rfl hx
    rename_i hnot
    split at hx
    · exact .inr (.inl ‹_›)
    split at hx
    · exact .inl ‹_›
    refine .inr (.inr ⟨hx, ?_⟩)
    intro n hn heq
    subst heq
    cases n with
    | stdin => exact hnot (.inr (.inr ⟨hn, rfl⟩))
    | stdout => exact hnot (.inr (.inl ⟨hn, rfl⟩))
    | stderr => exact hnot (.inl ⟨hn, rfl⟩)
    | fail => cases hn

theorem AtLaunch.child {std : StdHandles} {l : List (Fd × Bool)} (h : AtLaunch k s t₀ p std l t t')
    (hc : ChosenOpen k s t₀) {c : Launch φ} (hstd : c.std = std) (hh : c.handles = t'.exec) : ChildHandles k s t₀ c := by
  subst hstd
  refine ⟨?_, ?_, ?_, ?_, ?_⟩
  · rw [hh]
    exact (h.std_file hc (.inl rfl)).trans h.input
  · rw [hh]
    exact (h.std_file hc (.inr (.inl rfl))).trans h.output
  · have herr := h.error
    rw [hh]
    split at herr
    · rw [if_pos ‹_›]
      exact herr
    · rw [if_neg ‹_›]
      exact (h.std_file hc (.inr (.inr rfl))).trans herr
  · intro x f hx
    rw [hh] at hx
    obtain ⟨d', hd', rfl⟩ := Option.map_eq_some_iff.mp hx
    obtain ⟨hget, hkeep⟩ := Option.filter_eq_some_iff.mp hd'
    cases hx₀ : t₀.get x with
    | some d =>
      obtain ⟨c, hget', -, hsame⟩ := h.old_get hx₀
      rw [hget] at hget'
      cases hget'
      refine .inr ⟨d, rfl, rfl, ?_⟩
      by_cases hC : Chosen k s x
      · exact .inr hC
      · exact .inl (by rw [← hsame hC]; simpa using hkeep)
    | none =>
      obtain ⟨n, e, hn, rfl⟩ := h.only hx₀ (by simp [hget])
      by_cases he : e = nearEnd n
      · rw [he, h.near_get hc hn] at hget
        cases hget
        exact .inl ⟨n, hn, rfl⟩
      · -- the parent's end is not inheritable
        have hfar : e = farEnd n := by cases n <;> cases e <;> simp_all [nearEnd, farEnd]
        rw [hfar, h.far_get hc hn] at hget
        cases hget
        cases hkeep
  · intro x d hx hinherits
    obtain ⟨c, hget, hchosen, hsame⟩ := h.old_get hx
    have hplain : c = false := by
      by_cases hC : Chosen k s x
      · exact hchosen hC
      · exact (hsame hC).trans (hinherits.resolve_right hC)
    rw [hh, Table.file, get_exec_keep _ hget hplain]
    rfl

theorem AtLaunch.parent {std : StdHandles} {l : List (Fd × Bool)} {u : FdTab φ} {info : ProcessInfo}
    (h : AtLaunch k s t₀ p std l t t') (hc : ChosenOpen k s t₀) (hu : Launched k s p info.pid info.tid t' u)
    (hpick : k.processHandles.pick t' = some (info.pid, info.tid))
    (hin : info.stdin = if pipesMade s .stdin then p.pstdin.wr else FD_INVALID)
    (hout : info.stdout = if pipesMade s .stdout then p.pstdout.rd else FD_INVALID)
    (herr : info.stderr = if pipesMade s .stderr then p.pstderr.rd else FD_INVALID) : ParentHandles k s t₀ info u := by
  have hold : ∀ x, t'.get x = none → t₀.get x = none := by
    intro x hx
    by_contra hopen
    obtain ⟨d, hd⟩ := Option.ne_none_iff_exists'.mp hopen
    obtain ⟨c, hget, -⟩ := h.old_get hd
    rw [hx] at hget
    cases hget
  obtain ⟨hfp, hft⟩ := k.processHandles.closed _ _ _ hpick
  have hend : ∀ n fd, (fd = if pipesMade s n then (pipeFds p {} n).at (farEnd n) else FD_INVALID) →
      ParentHandle (pipesMade s n) (.pipe n (farEnd n)) t₀ u fd := by
    intro n fd hfd
    unfold ParentHandle
    cases hn : pipesMade s n with
    | false => simpa [hn] using hfd
    | true =>
      rw [hn, if_pos rfl] at hfd
      subst hfd
      refine ⟨?_, hu.keep _ _ (h.far_get hc hn) ?_⟩
      · by_contra hopen
        exact h.bound.made.old_ne hopen _ hn rfl
      · intro m heq
        obtain ⟨rfl, he⟩ := OpenFile.pipe.inj heq
        exact nearEnd_ne _ he.symm
  refine ⟨?_, ⟨hold _ hfp, hu.process⟩, ⟨hold _ hft, hu.thread⟩, hend .stdin _ hin, hend .stdout _ hout,
    hend .stderr _ herr, ?_⟩
  · intro x d hd
    obtain ⟨c, hget, hC⟩ := h.old_get hd
    exact ⟨c, hu.keep x _ hget (fun n => by simp), hC⟩
  · intro x hx hx'
    rcases hu.only x hx' with rfl | rfl | ⟨hopen, hnot⟩
    · exact .inl rfl
    · exact .inr (.inl rfl)
    obtain ⟨n, e, hn, rfl⟩ := h.only hx hopen
    have hfar : e = farEnd n := by
      by_contra hne
      refine hnot n hn ?_
      have hnear : e = nearEnd n := by cases n <;> cases e <;> simp_all [nearEnd, farEnd]
      rw [hnear]
    subst hfar
    cases n with
    | stdin => exact .inr (.inr (.inl ⟨hn, by rw [hin, if_pos hn]; rfl⟩))
    | stdout => exact .inr (.inr (.inr (.inl ⟨hn, by rw [hout, if_pos hn]; rfl⟩)))
    | stderr => exact .inr (.inr (.inr (.inr ⟨hn, by rw [herr, if_pos hn]; rfl⟩)))
    | fail => cases hn

theorem start_handles (k : Kernel φ) (s : ProcessStartup) (t₀ : Table φ) (info : ProcessInfo)
    (hc : ChosenOpen k s t₀) (hok : (createProcess k s t₀).result = .ok info) :
    ∃ c, (createProcess k s t₀).child = some c ∧ ChildHandles k s t₀ c ∧
      ParentHandles k s t₀ info (createProcess k s t₀).table := by
  obtain ⟨p, std, l, t, t', h, heq⟩ := createProcess_ok hc hok
  rw [heq] at hok ⊢
  cases henv : envBlock k.env k.sizeBits k.parentEnv s with
  | error m => simp [launch, henv] at hok
  | ok env =>
    cases hpick : k.processHandles.pick t' with
    | none => simp [launch, henv, hpick] at hok
    | some r =>
      simp only [launch, henv, hpick, Except.ok.injEq] at hok ⊢
      have hu := launched (k := k) (s := s) (p := p) hpick fun n hn => h.near_get hc hn
      refine ⟨_, rfl, h.child hc rfl rfl, ?_⟩
      subst hok
      refine h.parent hc hu hpick ?_ ?_ ?_
      · show _ = if (!s.inheritStdin && !s.stdin.redirected) then _ else _
        cases s.inheritStdin <;> cases s.stdin.redirected <;> rfl
      · show _ = if (!s.inheritStdout && !s.stdout.redirected) then _ else _
        cases s.inheritStdout <;> cases s.stdout.redirected <;> rfl
      · show _ = if (!(s.mergeOutputs || s.inheritStderr) && !s.stderr.redirected) then _ else _
        cases (s.mergeOutputs || s.inheritStderr) <;> cases s.stderr.redirected <;> rfl

/-- A start that returns, with what it redirects to and inherits open: the child gets its
    three standard handles, its ends of the pipes and the caller's inheritable handles, and
    nothing else; the parent keeps its own, and gains the other ends, the process and the
    thread, which no child will inherit. -/
theorem handles_inherited (k : Kernel φ) (s : ProcessStartup) (t₀ : Table φ) (info : ProcessInfo)
    (hc : ChosenOpen k s t₀) (hok : (createProcess k s t₀).result = .ok info) :
    ∃ c, (createProcess k s t₀).child = some c ∧ ChildHandles k s t₀ c ∧
      ParentHandles k s t₀ info (createProcess k s t₀).table :=
  start_handles k s t₀ info hc hok

/-- A kernel that gives the numbers named; the standard output is 8. -/
noncomputable def kernelAt {φ : Type} (pstdin pstdout handles : PipeAlloc (OpenFile φ)) (process thread : φ) : Kernel φ where
  stdinPipe := pstdin
  stdoutPipe := pstdout
  stderrPipe := .fails
  stdHandles := { output := 8 }
  stdinFlags := {}
  stdoutFlags := {}
  stderrFlags := {}
  env := asciiSys
  sizeBits := 64
  parentEnv := none
  processHandles := handles
  lastError := 0
  process := process
  thread := thread
  creationTime := none

/-- A parent with 8 open, and 12 not inheritable. -/
def hostTable : Table Nat := ((empty : Table Nat).put 8 ⟨18, false⟩).put 12 ⟨112, true⟩

noncomputable def redirectKernel : Kernel Nat :=
  kernelAt (.named 16 20) .fails (.named 24 28) 1 2

theorem handles_inherited_redirect :
    ∃ c, (createProcess redirectKernel { stdout := ⟨12⟩, mergeOutputs := true } hostTable).child = some c ∧
      ChildHandles redirectKernel { stdout := ⟨12⟩, mergeOutputs := true } hostTable c ∧
      ParentHandles redirectKernel { stdout := ⟨12⟩, mergeOutputs := true } hostTable { pid := 24, tid := 28, stdin := 20 }
        (createProcess redirectKernel { stdout := ⟨12⟩, mergeOutputs := true } hostTable).table := by
  refine handles_inherited redirectKernel { stdout := ⟨12⟩, mergeOutputs := true } hostTable
    { pid := 24, tid := 28, stdin := 20 } ?_ rfl
  intro x hcase
  rcases hcase with hx | hx | ⟨hm, -⟩
  · cases hx.1
  · exact .inr (by rw [hx.2]; exact Option.some_ne_none _)
  · cases hm

/-! ## A start that throws -/

/-- Up to where `create_process_impl` threw it only set flags. -/
theorem createProcessImpl_error {msg : String} (hb : Bindings s t₀ p t) (h : (createProcessImpl k s p t).result = .error msg) :
    ∃ S C l, Settings s p S C l ∧ (∀ x, C x → Chosen k s x) ∧ SetsFlags l t (createProcessImpl k s p t).table := by
  unfold createProcessImpl at h ⊢
  cases h₁ : setupStdin k s p t with
  | error m => exact ⟨_, _, _, Settings.nil s p, fun x hx => hx.elim, SetsFlags.refl t⟩
  | ok r₁ =>
    obtain ⟨hin, t₁⟩ := r₁
    obtain ⟨e₁, hst₁, hset₁⟩ := setupStdin_ok h₁
    have hent₁ := StreamSet.entry (n := .stdin) (s := s) hst₁ hb.stdin rfl
    cases h₂ : setupStdout k s p t₁ with
    | error m =>
      refine ⟨_, _, _, (Settings.nil s p).add hent₁, ?_, by simpa [h₂] using hset₁⟩
      intro x hcase
      rcases hcase with hx | hx
      · exact hx.elim
      · exact .inl hx
    | ok r₂ =>
      obtain ⟨hout, t₂⟩ := r₂
      obtain ⟨e₂, hst₂, hset₂⟩ := setupStdout_ok h₂
      have hent₂ := StreamSet.entry (n := .stdout) (s := s) hst₂ hb.stdout rfl
      cases h₃ : setupStderr k s p hout t₂ with
      | error m =>
        refine ⟨_, _, _, ((Settings.nil s p).add hent₁).add hent₂, ?_, by simpa [h₂, h₃] using hset₁.trans hset₂⟩
        intro x hcase
        rcases hcase with (hx | hx) | hx
        · exact hx.elim
        · exact .inl hx
        · exact .inr (.inl hx)
      | ok r₃ =>
        obtain ⟨herr, t₃⟩ := r₃
        obtain ⟨l, hsets, hset, -⟩ := settings_ok hb h₁ h₂ h₃
        refine ⟨_, _, l, hset, fun x hx => hx, ?_⟩
        simp only [h₁, h₂, h₃] at h ⊢
        unfold launch at h ⊢
        cases henv : envBlock k.env k.sizeBits k.parentEnv s with
        | error m => exact hsets
        | ok env =>
          cases hpick : k.processHandles.pick t₃ with
          | none => exact hsets
          | some r => simp [henv, hpick] at h

theorem get_rollback (s : ProcessStartup) (p : Pipes) (t : FdTab φ) (x : Fd) :
    (rollback s p t).get x =
      if pipesMade s .stderr = true ∧ (x = p.pstderr.rd ∨ x = p.pstderr.wr) ∨
        pipesMade s .stdout = true ∧ (x = p.pstdout.rd ∨ x = p.pstdout.wr) ∨
        pipesMade s .stdin = true ∧ (x = p.pstdin.rd ∨ x = p.pstdin.wr) then none
      else t.get x := by
  have hin : (!s.inheritStdin && !s.stdin.redirected) = pipesMade s .stdin := rfl
  have hout : (!s.inheritStdout && !s.stdout.redirected) = pipesMade s .stdout := rfl
  have herr : (!s.inheritStderr && !s.mergeOutputs && !s.stderr.redirected) = pipesMade s .stderr := by
    show _ = (!(s.mergeOutputs || s.inheritStderr) && !s.stderr.redirected)
    cases s.inheritStderr <;> cases s.mergeOutputs <;> rfl
  rw [rollback]
  simp only [hin, hout, herr, Unix.get_closePipe_if, ite_or]

/-- The same handles open, of which only chosen ones may have become inheritable. -/
structure Restored (k : Kernel φ) (s : ProcessStartup) (t₀ : Table φ) (t : FdTab φ) : Prop where
  kept : ∀ x d, t₀.get x = some d →
    ∃ c, t.get x = some ⟨.old d.file, c⟩ ∧ (c = d.cloexec ∨ (c = false ∧ Chosen k s x))
  gone : ∀ x, t₀.get x = none → t.get x = none

theorem Restored.refl (k : Kernel φ) (s : ProcessStartup) (t₀ : Table φ) : Restored k s t₀ (t₀.map .old) where
  kept x d hx := ⟨d.cloexec, by simp [hx], .inl rfl⟩
  gone x hx := by simp [hx]

theorem Bindings.restored (hb : Bindings s t₀ p t) {S : List PipeName} {C : Fd → Prop} {l : List (Fd × Bool)}
    (hl : Settings s p S C l) (hC : ∀ x, C x → Chosen k s x) (hsets : SetsFlags l t t') :
    Restored k s t₀ (rollback s p t') where
  kept x d hx := by
    refine ⟨flagAfter l x d.cloexec, ?_, ?_⟩
    · have hne := fun n e hn => hb.made.old_ne (x := x) (n := n) (by simp [hx]) e hn
      rw [get_rollback, if_neg, hsets.get_eq (hb.made.old hx)]
      intro hcase
      rcases hcase with ⟨hn, h | h⟩ | ⟨hn, h | h⟩ | ⟨hn, h | h⟩
      · exact hne .stderr .read hn h
      · exact hne .stderr .write hn h
      · exact hne .stdout .read hn h
      · exact hne .stdout .write hn h
      · exact hne .stdin .read hn h
      · exact hne .stdin .write hn h
    · exact (hb.old_flag hl hx).2.imp_right fun h => ⟨h.1, hC x h.2⟩
  gone x hx := by
    rw [get_rollback]
    split
    · rfl
    rename_i hnot
    by_contra hopen
    obtain ⟨n, e, hn, rfl⟩ := hb.made.only x hx fun h => hopen (hsets.get_eq_none.mpr h)
    refine hnot ?_
    cases n with
    | stdin => exact .inr (.inr ⟨hn, by cases e <;> simp [Unix.Fds.at, pipeFds]⟩)
    | stdout => exact .inr (.inl ⟨hn, by cases e <;> simp [Unix.Fds.at, pipeFds]⟩)
    | stderr => exact .inl ⟨hn, by cases e <;> simp [Unix.Fds.at, pipeFds]⟩
    | fail => cases hn

/-- A target that is lost: the stdout pipe fails with stdin redirected to an open handle,
    or the stderr pipe fails with stdin or stdout so redirected. -/
def Loses (k : Kernel φ) (s : ProcessStartup) (t₀ : Table φ) (x : Fd) : Prop :=
  ∃ pstdin t₁, bindStdin k s (t₀.map .old) = some (pstdin, t₁) ∧
    (bindStdout k s t₁ = none ∧ Unix.OwnsTarget s.inheritStdin s.stdin t₀ ∧ x = s.stdin.target ∨
      ∃ pstdout t₂, bindStdout k s t₁ = some (pstdout, t₂) ∧ bindStderr k s t₂ = none ∧
        (Unix.OwnsTarget s.inheritStdin s.stdin t₀ ∧ x = s.stdin.target ∨
          Unix.OwnsTarget s.inheritStdout s.stdout t₀ ∧ x = s.stdout.target))

def LosesTarget (k : Kernel φ) (s : ProcessStartup) (t₀ : Table φ) : Prop := ∃ x, Loses k s t₀ x

theorem throw_restores {msg : String} (hl : ¬ LosesTarget k s t₀) (h : (createProcess k s t₀).result = .error msg) :
    Restored k s t₀ (createProcess k s t₀).table := by
  cases hin : bindStdin k s (t₀.map .old) with
  | none =>
    rw [createProcess_noStdin hin]
    exact .refl k s t₀
  | some r =>
    obtain ⟨pstdin, t₁⟩ := r
    have bin := Unix.bind_spec hin
    cases hout : bindStdout k s t₁ with
    | none =>
      have howns : ¬ Unix.OwnsTarget s.inheritStdin s.stdin t₀ := fun ho => hl ⟨_, pstdin, t₁, hin, .inl ⟨hout, ho, rfl⟩⟩
      rw [createProcess_noStdout hin hout]
      have heq := (Unix.eq_of_closed_iff bin.undo).mpr (Unix.not_owns_iff.mp howns)
      simp only [heq]
      exact .refl k s t₀
    | some r =>
      obtain ⟨pstdout, t₂⟩ := r
      have bout := Unix.bind_spec hout
      cases herr : bindStderr k s t₂ with
      | none =>
        have howns : ¬ (Unix.OwnsTarget s.inheritStdin s.stdin t₀ ∨ Unix.OwnsTarget s.inheritStdout s.stdout t₀) :=
          fun ho => ho.elim (fun ho => hl ⟨_, pstdin, t₁, hin, .inr ⟨pstdout, t₂, hout, herr, .inl ⟨ho, rfl⟩⟩⟩)
            fun ho => hl ⟨_, pstdin, t₁, hin, .inr ⟨pstdout, t₂, hout, herr, .inr ⟨ho, rfl⟩⟩⟩
        rw [not_or, Unix.not_owns_iff, Unix.not_owns_iff] at howns
        rw [createProcess_noStderr hin hout herr]
        have heq := (Unix.eq_of_closed_iff (Unix.get_noStderr bin bout)).mpr fun x hx => hx.elim (howns.1 x) (howns.2 x)
        simp only [heq]
        exact .refl k s t₀
      | some r =>
        obtain ⟨pstderr, t₃⟩ := r
        let p : Pipes := ⟨pstdin, pstdout, pstderr⟩
        have hb : Bindings s t₀ p t₃ := bindings bin bout (Unix.bind_spec herr)
        rw [createProcess_bound (p := p) hin hout herr] at h ⊢
        cases hres : (createProcessImpl k s p t₃).result with
        | ok info => simp [hres] at h
        | error msg' =>
          obtain ⟨S, C, l, hset, hC, hsets⟩ := createProcessImpl_error hb hres
          exact hb.restored hset hC hsets

/-- What a start leaves that loses a target: the lost ones are closed, the others as they
    were. -/
structure Lost (k : Kernel φ) (s : ProcessStartup) (t₀ : Table φ) (t : FdTab φ) : Prop where
  closed : ∀ x, Loses k s t₀ x → t₀.get x ≠ none ∧ t.get x = none
  kept : ∀ x, ¬ Loses k s t₀ x → t.get x = (t₀.map .old).get x

/-- A rollback that closes targets, given which of them were open. -/
theorem lost_of_closed {P : Fd → Prop} [DecidablePred P]
    (hget : ∀ x, t.get x = if P x then none else (t₀.map .old).get x)
    (hloses : ∀ x, Loses k s t₀ x ↔ P x ∧ t₀.get x ≠ none) : Lost k s t₀ t where
  closed x hx := by
    obtain ⟨hP, hopen⟩ := (hloses x).mp hx
    exact ⟨hopen, (hget x).trans (if_pos hP)⟩
  kept x hx := by
    rw [hget x]
    split
    · have hclosed : t₀.get x = none := by
        by_contra hopen
        exact hx ((hloses x).mpr ⟨‹P x›, hopen⟩)
      simp [hclosed]
    · rfl

/-- The condition of a rollback, and the target open. -/
theorem owns_target_iff {inherit : Bool} {r : RedirectInfo} {x : Fd} :
    Unix.OwnsTarget inherit r t₀ ∧ x = r.target ↔
      (inherit = false ∧ r.redirected = true ∧ x = r.target) ∧ t₀.get x ≠ none := by
  unfold Unix.OwnsTarget
  constructor
  · intro h
    obtain ⟨⟨hi, hr, hopen⟩, rfl⟩ := h
    exact ⟨⟨hi, hr, rfl⟩, hopen⟩
  · intro h
    obtain ⟨⟨hi, hr, rfl⟩, hopen⟩ := h
    exact ⟨⟨hi, hr, hopen⟩, rfl⟩

theorem throw_loses (hl : LosesTarget k s t₀) :
    (∃ msg, (createProcess k s t₀).result = .error msg) ∧ Lost k s t₀ (createProcess k s t₀).table := by
  obtain ⟨y, pstdin, t₁, hin, ⟨hout, -⟩ | ⟨pstdout, t₂, hout, herr, -⟩⟩ := hl
  · rw [createProcess_noStdout hin hout]
    refine ⟨⟨_, rfl⟩, lost_of_closed (Unix.bind_spec hin).undo fun x => ?_⟩
    rw [← owns_target_iff]
    simp [Loses, hin, hout]
  · rw [createProcess_noStderr hin hout herr]
    refine ⟨⟨_, rfl⟩, lost_of_closed (Unix.get_noStderr (Unix.bind_spec hin) (Unix.bind_spec hout)) fun x => ?_⟩
    rw [or_and_right, ← owns_target_iff, ← owns_target_iff]
    simp [Loses, hin, hout, herr]

theorem Lost.not_restored (h : Lost k s t₀ t) (hl : LosesTarget k s t₀) : ¬ Restored k s t₀ t := by
  intro hres
  obtain ⟨x, hx⟩ := hl
  obtain ⟨hopen, hclosed⟩ := h.closed x hx
  obtain ⟨d, hd⟩ := Option.ne_none_iff_exists'.mp hopen
  obtain ⟨c, hget, -⟩ := hres.kept x d hd
  rw [hclosed] at hget
  cases hget

end Launch

/-- A start that throws leaves the caller's handles as they were, chosen ones inheritable at
    most, exactly when it is not the stdout or stderr pipe that fails after an earlier
    stream took an open target. If it is, each such target is closed, and no other handle
    is touched. -/
theorem throw_restores_iff (k : Kernel φ) (s : ProcessStartup) (t₀ : Table φ) :
    ((∀ msg, (createProcess k s t₀).result = .error msg → Restored k s t₀ (createProcess k s t₀).table) ↔
      ¬ LosesTarget k s t₀) ∧
      (LosesTarget k s t₀ → (∃ msg, (createProcess k s t₀).result = .error msg) ∧
        Lost k s t₀ (createProcess k s t₀).table) := by
  refine ⟨⟨?_, fun hl _ hmsg => throw_restores hl hmsg⟩, throw_loses⟩
  intro h hl
  obtain ⟨⟨msg, hmsg⟩, hlost⟩ := throw_loses hl
  exact hlost.not_restored hl (h msg hmsg)

end CovProcess.Win32
