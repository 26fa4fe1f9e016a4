/-
  CovProcess.Unix.Plumbing — a `create_process` that returns: the descriptors the child
  runs with, and those the parent gained (see `CovProcess.Unix.Spawn`).

  The pipes of one call are told apart by what their numbers refer to, never by the
  numbers: `Made` says which ends a table holds and that the caller's descriptors are as
  they were, binding a stream keeps it (`Made.bound`), and each `close` and `dup2` after
  the fork then acts on one named end.

  Proved: `streams_plumbed`, the child has 0, 1 and 2 and nothing else, each from where
  the flags say, and the parent gained the other end of each pipe, when no inherited
  stream is close-on-exec in the parent. `create_process` leaves an inherited stream's
  flag alone, so the child loses one that is (`inherited_cloexec_lost`).
-/

import CovProcess.Unix.CloseAll

namespace CovProcess.Unix

open FdTable

variable {φ : Type}

/-! ## The pipes of a call -/

def Fds.at (f : Fds) : PipeEnd → Fd
  | .read => f.rd
  | .write => f.wr

def pipeFds (p : Pipes) (pfail : Fds) : PipeName → Fds
  | .stdin => p.pstdin
  | .stdout => p.pstdout
  | .stderr => p.pstderr
  | .fail => pfail

def piped (s : ProcessStartup) : PipeName → Bool
  | .stdin => !s.inheritStdin && !s.stdin.redirected
  | .stdout => !s.inheritStdout && !s.stdout.redirected
  | .stderr => !(s.mergeOutputs || s.inheritStderr) && !s.stderr.redirected
  | .fail => true

/-- `t` is the caller's table with both ends of the pipes `made` says, and no more. -/
structure Made (t₀ : Table φ) (fds : PipeName → Fds) (made : PipeName → Bool) (t : FdTab φ) : Prop where
  kept : ∀ x, t₀.get x ≠ none → t.get x = (t₀.map .old).get x
  ends : ∀ n e, made n = true → t.file ((fds n).at e) = some (.pipe n e)
  only : ∀ x, t₀.get x = none → t.get x ≠ none → ∃ n e, made n = true ∧ x = (fds n).at e

theorem Made.start (t₀ : Table φ) (fds : PipeName → Fds) : Made t₀ fds (fun _ => false) (t₀.map .old) where
  kept _ _ := rfl
  ends _ _ h := absurd h (by simp)
  only x h hx := absurd (by simp [h]) hx

namespace Made

variable {t₀ : Table φ} {fds : PipeName → Fds} {made : PipeName → Bool} {t t' : FdTab φ}

theorem pipe (h : Made t₀ fds made t) {n : PipeName} {c : Bool} (hp : Piped n c t (fds n) t')
    (hn : made n = false) : Made t₀ fds (Function.update made n true) t' := by
  refine ⟨?_, ?_, ?_⟩
  · intro x hx
    have hopen : t.get x ≠ none := by
      rw [h.kept x hx]
      simpa using hx
    rw [(hp.keep hopen).2.2, h.kept x hx]
  · intro m e hm
    by_cases hmn : m = n
    · subst hmn
      cases e with
      | read => simp [Table.file, Fds.at, hp.get_rd]
      | write => simp [Table.file, Fds.at, hp.get_wr]
    · rw [Function.update_of_ne hmn] at hm
      have he := h.ends m e hm
      have hopen : t.get ((fds m).at e) ≠ none := by
        rw [← file_ne_none, he]
        simp
      rw [Table.file, (hp.keep hopen).2.2]
      exact he
  · intro x hx hx'
    rw [hp.get] at hx'
    by_cases hw : x = (fds n).wr
    · exact ⟨n, .write, by simp, hw⟩
    by_cases hr : x = (fds n).rd
    · exact ⟨n, .read, by simp, hr⟩
    rw [if_neg hw, if_neg hr] at hx'
    obtain ⟨m, e, hm, he⟩ := h.only x hx hx'
    refine ⟨m, e, ?_, he⟩
    rw [Function.update_of_ne]
    · exact hm
    · intro heq
      subst heq
      rw [hm] at hn
      cases hn

theorem bound (h : Made t₀ fds made t) {n : PipeName} {skip : Bool} {r : RedirectInfo}
    (hb : Bound n skip r t (fds n) t') (hn : made n = false) :
    Made t₀ fds (Function.update made n (!skip && !r.redirected)) t' := by
  have hsame : Function.update made n false = made := by
    rw [← hn]
    exact Function.update_eq_self n made
  generalize hf : fds n = f at hb
  cases hb with
  | skipped hs => rwa [hs, Bool.not_true, Bool.false_and, hsame]
  | redirected hs hr => rwa [hr, Bool.not_true, Bool.and_false, hsame]
  | piped hs hr hp =>
    subst hf
    rw [hs, hr]
    exact h.pipe hp hn

/-- What is not a pipe's end is at another number than that end. -/
theorem ne_end (h : Made t₀ fds made t) {x : Fd} {f : OpenFile φ} (hx : t.file x = some f) {n : PipeName}
    {e : PipeEnd} (hm : made n = true) (hf : f ≠ .pipe n e) : x ≠ (fds n).at e := by
  intro heq
  subst heq
  rw [h.ends n e hm] at hx
  exact hf (Option.some.inj hx).symm

theorem old (h : Made t₀ fds made t) {x : Fd} {d : Desc φ} (hx : t₀.get x = some d) :
    t.get x = some ⟨.old d.file, d.cloexec⟩ := by
  rw [h.kept x (by simp [hx])]
  simp [hx]

theorem old_ne (h : Made t₀ fds made t) {x : Fd} (hx : t₀.get x ≠ none) {n : PipeName} (e : PipeEnd)
    (hm : made n = true) : x ≠ (fds n).at e := by
  obtain ⟨d, hd⟩ := Option.ne_none_iff_exists'.mp hx
  exact h.ne_end (f := .old d.file) (by simp [Table.file, h.old hd]) hm (by simp)

end Made

/-- What a stream's slots hold when it is not piped. -/
structure Slots (skip : Bool) (r : RedirectInfo) (fds : Fds) : Prop where
  skipped : skip = true → fds = {}
  redirected : skip = false → r.redirected = true → fds = ⟨r.target, r.target⟩

theorem Bound.slots {n : PipeName} {skip : Bool} {r : RedirectInfo} {t t' : FdTab φ} {fds : Fds}
    (h : Bound n skip r t fds t') : Slots skip r fds := by
  cases h with
  | skipped hs => exact ⟨fun _ => rfl, fun h => by simp [h] at hs⟩
  | redirected hs hr => exact ⟨fun h => by simp [h] at hs, fun _ _ => rfl⟩
  | piped hs hr _ => exact ⟨fun h => by simp [h] at hs, fun _ h => by simp [h] at hr⟩

/-- The table at the fork, and what the slots hold then. -/
structure AtFork (s : ProcessStartup) (t₀ : Table φ) (p : Pipes) (pfail : Fds) (t : FdTab φ) : Prop where
  made : Made t₀ (pipeFds p pfail) (piped s) t
  stdin : Slots s.inheritStdin s.stdin p.pstdin
  stdout : Slots s.inheritStdout s.stdout p.pstdout
  stderr : Slots (s.mergeOutputs || s.inheritStderr) s.stderr p.pstderr

theorem atFork {s : ProcessStartup} {t₀ : Table φ} {p : Pipes} {pfail : Fds} {c : Bool} {t₁ t₂ t₃ t₄ : FdTab φ}
    (bin : Bound .stdin s.inheritStdin s.stdin (t₀.map .old) p.pstdin t₁)
    (bout : Bound .stdout s.inheritStdout s.stdout t₁ p.pstdout t₂)
    (berr : Bound .stderr (s.mergeOutputs || s.inheritStderr) s.stderr t₂ p.pstderr t₃)
    (hfail : Piped .fail c t₃ pfail t₄) : AtFork s t₀ p pfail t₄ := by
  refine ⟨?_, bin.slots, bout.slots, berr.slots⟩
  have hstart := Made.start t₀ (pipeFds p pfail)
  have hin := hstart.bound (n := .stdin) bin rfl
  have hout := hin.bound (n := .stdout) bout rfl
  have herr := hout.bound (n := .stderr) berr rfl
  have hall := herr.pipe (n := .fail) hfail rfl
  have hpiped : Function.update (Function.update (Function.update (Function.update (fun _ => false)
      PipeName.stdin (!s.inheritStdin && !s.stdin.redirected))
      PipeName.stdout (!s.inheritStdout && !s.stdout.redirected))
      PipeName.stderr (!(s.mergeOutputs || s.inheritStderr) && !s.stderr.redirected))
      PipeName.fail true = piped s := by
    funext n
    cases n <;> rfl
  rwa [hpiped] at hall

/-- A start that returns went through every step: the parent's table and the child's are
    those of a fork with the three streams bound. -/
theorem createProcess_ok {k : Kernel φ} {s : ProcessStartup} {t₀ : Table φ} {info : ProcessInfo}
    (h : (createProcess k s t₀).result = .ok info) :
    ∃ p pfail t pid, AtFork s t₀ p pfail t ∧
      (createProcess k s t₀).child = childExec k.child s p pfail t ∧
      parentProc k s p pfail pid t = (.ok info, (createProcess k s t₀).table) ∧ k.reply = .eof := by
  cases hin : bindStdin k s (t₀.map .old) with
  | none => simp [createProcess_noStdin hin] at h
  | some r₁ =>
    obtain ⟨pstdin, t₁⟩ := r₁
    cases hout : bindStdout k s t₁ with
    | none => simp [createProcess_noStdout hin hout] at h
    | some r₂ =>
      obtain ⟨pstdout, t₂⟩ := r₂
      cases herr : bindStderr k s t₂ with
      | none => simp [createProcess_noStderr hin hout herr] at h
      | some r₃ =>
        obtain ⟨pstderr, t₃⟩ := r₃
        let p : Pipes := ⟨pstdin, pstdout, pstderr⟩
        have hbound := createProcess_bound (p := p) hin hout herr
        have himpl : (createProcessImpl k s p t₃).result = .ok info := by
          rw [hbound] at h
          cases hres : (createProcessImpl k s p t₃).result with
          | ok i => simpa [hres] using h
          | error m => simp [hres] at h
        rw [himpl] at hbound
        rw [hbound]
        cases hf : createPipe k.failPipe .fail k.pipe2 t₃ with
        | none => simp [createProcessImpl, hf] at himpl
        | some r₄ =>
          obtain ⟨pfail, t₄⟩ := r₄
          cases hfork : k.fork with
          | none => simp [createProcessImpl, hf, hfork] at himpl
          | some pid =>
            refine ⟨p, pfail, t₄, pid, atFork (bind_spec hin) (bind_spec hout) (bind_spec herr) (createPipe_spec hf),
              by simp [createProcessImpl, hf, hfork], ?_, ?_⟩
            · simp only [createProcessImpl, hf, hfork] at himpl ⊢
              rw [← himpl]
            · simp only [createProcessImpl, hf, hfork, parentProc] at himpl
              cases hrep : k.reply with
              | eof => rfl
              | errno e => simp [hrep] at himpl
              | failed e => simp [hrep] at himpl

/-! ## The parent -/

/-- What `info` holds for one stream: the parent's end of its pipe, at a number that was
    free, or `FD_INVALID`. -/
def ParentEnd (hasPipe : Bool) (f : OpenFile φ) (t₀ : Table φ) (t : FdTab φ) (fd : Fd) : Prop :=
  if hasPipe then t₀.get fd = none ∧ t.file fd = some f else fd = FD_INVALID

structure ParentStreams (s : ProcessStartup) (t₀ : Table φ) (info : ProcessInfo) (t : FdTab φ) : Prop where
  kept : ∀ x, t₀.get x ≠ none → t.get x = (t₀.map .old).get x
  stdin : ParentEnd (piped s .stdin) (.pipe .stdin .write) t₀ t info.stdin
  stdout : ParentEnd (piped s .stdout) (.pipe .stdout .read) t₀ t info.stdout
  stderr : ParentEnd (piped s .stderr) (.pipe .stderr .read) t₀ t info.stderr
  gained : ∀ x, t₀.get x = none → t.get x ≠ none →
    piped s .stdin = true ∧ x = info.stdin ∨ piped s .stdout = true ∧ x = info.stdout ∨
      piped s .stderr = true ∧ x = info.stderr

theorem parentProc_info {k : Kernel φ} {s : ProcessStartup} {p : Pipes} {pfail : Fds} {pid : Nat} {t t' : FdTab φ}
    {info : ProcessInfo} (hrep : k.reply = .eof) (h : parentProc k s p pfail pid t = (.ok info, t')) :
    info.stdin = (if piped s .stdin then p.pstdin.wr else FD_INVALID) ∧
      info.stdout = (if piped s .stdout then p.pstdout.rd else FD_INVALID) ∧
      info.stderr = (if piped s .stderr then p.pstderr.rd else FD_INVALID) := by
  simp only [parentProc, hrep, Prod.mk.injEq, Except.ok.injEq] at h
  obtain ⟨rfl, -⟩ := h
  refine ⟨?_, ?_, ?_⟩
  · cases hi : s.inheritStdin <;> cases hr : s.stdin.redirected <;> simp [piped, hi, hr]
  · cases hi : s.inheritStdout <;> cases hr : s.stdout.redirected <;> simp [piped, hi, hr]
  · cases hi : (s.mergeOutputs || s.inheritStderr) <;> cases hr : s.stderr.redirected <;> simp [piped, hi, hr]

/-- The parent's closes as one. -/
theorem parentProc_get {k : Kernel φ} {s : ProcessStartup} {p : Pipes} {pfail : Fds} {pid : Nat} {t t' : FdTab φ}
    {info : ProcessInfo} (hrep : k.reply = .eof) (h : parentProc k s p pfail pid t = (.ok info, t')) (x : Fd) :
    t'.get x =
      if piped s .stderr = true ∧ x = p.pstderr.wr ∨ piped s .stdout = true ∧ x = p.pstdout.wr ∨
        piped s .stdin = true ∧ x = p.pstdin.rd ∨ x = pfail.rd ∨ x = pfail.wr then none
      else t.get x := by
  have hclose : closeChildEnds s p (closeFd (closeFd t pfail.wr) pfail.rd) = t' := by
    simp only [parentProc, hrep, Prod.mk.injEq] at h
    exact h.2
  have hin : (!s.inheritStdin && !s.stdin.redirected) = piped s .stdin := rfl
  have hout : (!s.inheritStdout && !s.stdout.redirected) = piped s .stdout := rfl
  have herr : ∀ u : FdTab φ, (if s.mergeOutputs || s.inheritStderr then u
      else if !s.stderr.redirected then closeFd u p.pstderr.wr else u) =
      if piped s .stderr then closeFd u p.pstderr.wr else u := by
    intro u
    cases hs : (s.mergeOutputs || s.inheritStderr) <;> cases hr : s.stderr.redirected <;> simp [piped, hs, hr]
  rw [← hclose, closeChildEnds]
  simp only [hin, hout, herr, get_closeFd_if, get_closeFd, ite_or]

theorem parent_streams {k : Kernel φ} {s : ProcessStartup} {t₀ : Table φ} {p : Pipes} {pfail : Fds} {pid : Nat}
    {t t' : FdTab φ} {info : ProcessInfo} (hf : AtFork s t₀ p pfail t) (hrep : k.reply = .eof)
    (h : parentProc k s p pfail pid t = (.ok info, t')) : ParentStreams s t₀ info t' := by
  have hget := parentProc_get hrep h
  obtain ⟨hin, hout, herr⟩ := parentProc_info hrep h
  have hm := hf.made
  have hfree : ∀ n e, piped s n = true → t₀.get ((pipeFds p pfail n).at e) = none := by
    intro n e hn
    by_contra hopen
    exact hm.old_ne hopen e hn rfl
  -- the numbers closed are those of five ends
  have hkeep : ∀ x f, t.file x = some f →
      f ∉ [OpenFile.pipe .fail .write, .pipe .fail .read, .pipe .stdin .read, .pipe .stdout .write,
        .pipe .stderr .write] → t'.get x = t.get x := by
    intro x f hx hne
    simp only [List.mem_cons, List.not_mem_nil, or_false, not_or] at hne
    obtain ⟨h1, h2, h3, h4, h5⟩ := hne
    rw [hget, if_neg]
    intro hclosed
    rcases hclosed with ⟨hp, h⟩ | ⟨hp, h⟩ | ⟨hp, h⟩ | h | h
    · exact hm.ne_end hx (n := .stderr) (e := .write) hp h5 h
    · exact hm.ne_end hx (n := .stdout) (e := .write) hp h4 h
    · exact hm.ne_end hx (n := .stdin) (e := .read) hp h3 h
    · exact hm.ne_end hx (n := .fail) (e := .read) rfl h2 h
    · exact hm.ne_end hx (n := .fail) (e := .write) rfl h1 h
  have hend : ∀ n e fd, (fd = if piped s n then (pipeFds p pfail n).at e else FD_INVALID) →
      OpenFile.pipe n e ∉ [OpenFile.pipe (φ := φ) .fail .write, .pipe .fail .read, .pipe .stdin .read,
        .pipe .stdout .write, .pipe .stderr .write] → ParentEnd (piped s n) (.pipe n e) t₀ t' fd := by
    intro n e fd hfd hne
    unfold ParentEnd
    cases hp : piped s n with
    | false => simpa [hp] using hfd
    | true =>
      rw [hp, if_pos rfl] at hfd
      subst hfd
      have he := hm.ends n e hp
      refine ⟨hfree n e hp, ?_⟩
      rw [Table.file, hkeep _ _ he hne]
      exact he
  refine ⟨?_, hend .stdin .write _ hin (by simp), hend .stdout .read _ hout (by simp),
    hend .stderr .read _ herr (by simp), ?_⟩
  · intro x hx
    obtain ⟨d, hd⟩ := Option.ne_none_iff_exists'.mp hx
    have hfile : t.file x = some (.old d.file) := by simp [Table.file, hm.old hd]
    rw [hkeep x _ hfile (by simp), hm.kept x hx]
  · intro x hx hx'
    rw [hget] at hx'
    split at hx'
    · exact absurd rfl hx'
    rename_i hnot
    obtain ⟨n, e, hp, rfl⟩ := hm.only x hx hx'
    cases n with
    | stdin =>
      cases e with
      | read => exact absurd (Or.inr (Or.inr (Or.inl ⟨hp, rfl⟩))) hnot
      | write => exact Or.inl ⟨hp, by rw [hin, if_pos hp]; rfl⟩
    | stdout =>
      cases e with
      | read => exact Or.inr (Or.inl ⟨hp, by rw [hout, if_pos hp]; rfl⟩)
      | write => exact absurd (Or.inr (Or.inl ⟨hp, rfl⟩)) hnot
    | stderr =>
      cases e with
      | read => exact Or.inr (Or.inr ⟨hp, by rw [herr, if_pos hp]; rfl⟩)
      | write => exact absurd (Or.inl ⟨hp, rfl⟩) hnot
    | fail =>
      cases e with
      | read => exact absurd (Or.inr (Or.inr (Or.inr (Or.inl rfl)))) hnot
      | write => exact absurd (Or.inr (Or.inr (Or.inr (Or.inr rfl)))) hnot

/-! ## The child -/

/-- The file behind a stream that is not inherited: its redirect target's, or its pipe. -/
def boundFile (t₀ : Table φ) (r : RedirectInfo) (own : OpenFile φ) : Option (OpenFile φ) :=
  if r.redirected then (t₀.file r.target).map .old else some own

def streamFile (t₀ : Table φ) (fd : Fd) (inherit : Bool) (r : RedirectInfo) (own : OpenFile φ) :
    Option (OpenFile φ) :=
  if inherit then (t₀.file fd).map .old else boundFile t₀ r own

/-- The child has 0, 1 and 2 and nothing else, each from where the flags say. -/
structure ChildStreams (s : ProcessStartup) (t₀ : Table φ) (c : FdTab φ) : Prop where
  only : ∀ x, c.get x ≠ none ↔ x = 0 ∨ x = 1 ∨ x = 2
  stdin : c.file 0 = streamFile t₀ 0 s.inheritStdin s.stdin (.pipe .stdin .read)
  stdout : c.file 1 = streamFile t₀ 1 s.inheritStdout s.stdout (.pipe .stdout .write)
  stderr : c.file 2 = if s.mergeOutputs then c.file 1
    else streamFile t₀ 2 s.inheritStderr s.stderr (.pipe .stderr .write)

theorem get_setupStdin_ne (s : ProcessStartup) (p : Pipes) (t : FdTab φ) {x : Fd} (hx : x ≠ 0) :
    (setupStdin s p t).get x = t.get x := by
  unfold setupStdin
  split
  · exact get_dup2_ne _ _ hx
  · rfl

theorem get_setupStdout_ne (s : ProcessStartup) (p : Pipes) (t : FdTab φ) {x : Fd} (hx : x ≠ 1) :
    (setupStdout s p t).get x = t.get x := by
  unfold setupStdout
  split
  · exact get_dup2_ne _ _ hx
  · rfl

theorem get_setupStderr_ne (s : ProcessStartup) (p : Pipes) (t : FdTab φ) {x : Fd} (hx : x ≠ 2) :
    (setupStderr s p t).get x = if piped s .stderr = true ∧ x = p.pstderr.rd then none else t.get x := by
  unfold setupStderr piped
  cases hm : s.mergeOutputs with
  | true => simpa using get_dup2_ne t 1 hx
  | false =>
    cases hi : s.inheritStderr with
    | true => simp
    | false =>
      simp only [Bool.false_eq_true, if_false, Bool.not_false, if_true, Bool.or_self, Bool.true_and]
      rw [get_dup2_ne _ _ hx, get_closeFd_if]

/-- Above 2 the stream setup only closes: the far ends of the pipes, and the near ends
    (or redirect targets) once they are at 0, 1 and 2. -/
theorem get_childStreams {s : ProcessStartup} {p : Pipes} {pfail : Fds} {t : FdTab φ} {x : Fd}
    (h0 : x ≠ 0) (h1 : x ≠ 1) (h2 : x ≠ 2) :
    (childStreams s p pfail t).get x =
      if (!(s.mergeOutputs || s.inheritStderr)) = true ∧ x = p.pstderr.wr ∨
        (!s.inheritStdout) = true ∧ x = p.pstdout.wr ∨ (!s.inheritStdin) = true ∧ x = p.pstdin.rd ∨
        piped s .stderr = true ∧ x = p.pstderr.rd ∨ piped s .stdout = true ∧ x = p.pstdout.rd ∨
        piped s .stdin = true ∧ x = p.pstdin.wr ∨ x = pfail.rd then none
      else t.get x := by
  have hin : (!s.inheritStdin && !s.stdin.redirected) = piped s .stdin := rfl
  have hout : (!s.inheritStdout && !s.stdout.redirected) = piped s .stdout := rfl
  have hnear : (!s.inheritStderr && !s.mergeOutputs) = !(s.mergeOutputs || s.inheritStderr) := by
    cases s.inheritStderr <;> cases s.mergeOutputs <;> rfl
  rw [childStreams, closeNearEnds, hnear]
  simp only [get_closeFd_if, get_setupStderr_ne s p _ h2, get_setupStdout_ne s p _ h1, get_setupStdin_ne s p _ h0,
    closeFarEnds, hin, hout, get_closeFd, ite_or]

/-- What the theorems about a successful start take of the caller: 0, 1 and 2 are open, and
    so is every redirect target, at a higher number. -/
structure CallerReady (s : ProcessStartup) (t₀ : Table φ) : Prop where
  std : ∀ x, x = 0 ∨ x = 1 ∨ x = 2 → t₀.get x ≠ none
  targets : ∀ r, r = s.stdin ∨ r = s.stdout ∨ r = s.stderr → r.redirected = true →
    3 ≤ r.target ∧ t₀.get r.target ≠ none

/-- With 0, 1 and 2 taken a pipe's ends are above them. -/
theorem AtFork.three_le_end {s : ProcessStartup} {t₀ : Table φ} {p : Pipes} {pfail : Fds} {t : FdTab φ}
    {n : PipeName} (hf : AtFork s t₀ p pfail t) (hstd : ∀ x, x = 0 ∨ x = 1 ∨ x = 2 → t₀.get x ≠ none) (e : PipeEnd)
    (hn : piped s n = true) : 3 ≤ (pipeFds p pfail n).at e := by
  have hnonneg : 0 ≤ (pipeFds p pfail n).at e :=
    (t.inRange _ (file_ne_none.mp (by rw [hf.made.ends n e hn]; simp))).1
  have hne := fun x hx => hf.made.old_ne (hstd x hx) e hn
  have h0 := hne 0 (Or.inl rfl)
  have h1 := hne 1 (Or.inr (Or.inl rfl))
  have h2 := hne 2 (Or.inr (Or.inr rfl))
  have hthree : ∀ x : Int, 0 ≤ x → 0 ≠ x → 1 ≠ x → 2 ≠ x → 3 ≤ x := by
    intro x _ _ _ _
    omega
  exact hthree _ hnonneg h0 h1 h2

structure TargetsOpen (s : ProcessStartup) (t₀ : Table φ) : Prop where
  stdin : s.inheritStdin = false → s.stdin.redirected = true → t₀.get s.stdin.target ≠ none
  stdout : s.inheritStdout = false → s.stdout.redirected = true → t₀.get s.stdout.target ≠ none
  stderr : (s.mergeOutputs || s.inheritStderr) = false → s.stderr.redirected = true → t₀.get s.stderr.target ≠ none

/-- The numbers the streams are duplicated from are not 0, 1 or 2, what is inherited is
    there, and stderr's own pipe is not read from the number of a stream set up before. -/
structure Clear (s : ProcessStartup) (t₀ : Table φ) (p : Pipes) : Prop where
  stdin : s.inheritStdin = false → 3 ≤ p.pstdin.rd
  stdout : s.inheritStdout = false → 3 ≤ p.pstdout.wr
  stderr : (s.mergeOutputs || s.inheritStderr) = false → 3 ≤ p.pstderr.wr
  inheritedStdin : s.inheritStdin = true → t₀.get 0 ≠ none
  inheritedStdout : s.inheritStdout = true → t₀.get 1 ≠ none
  inheritedStderr : s.mergeOutputs = false → s.inheritStderr = true → t₀.get 2 ≠ none
  stderrRead : piped s .stderr = true → p.pstderr.rd ≠ 0 ∧ p.pstderr.rd ≠ 1

theorem CallerReady.targetsOpen {s : ProcessStartup} {t₀ : Table φ} (h : CallerReady s t₀) : TargetsOpen s t₀ where
  stdin _ hr := (h.targets s.stdin (.inl rfl) hr).2
  stdout _ hr := (h.targets s.stdout (.inr (.inl rfl)) hr).2
  stderr _ hr := (h.targets s.stderr (.inr (.inr rfl)) hr).2

theorem Slots.at_redirected {skip : Bool} {r : RedirectInfo} {fds : Fds} (hs : Slots skip r fds) (hskip : skip = false)
    (hred : r.redirected = true) (e : PipeEnd) : fds.at e = r.target := by
  rw [hs.redirected hskip hred]
  cases e <;> rfl

/-- A number that a stream is duplicated from is above 2, if the targets are and 0, 1 and 2
    are taken. -/
theorem AtFork.three_le_near {s : ProcessStartup} {t₀ : Table φ} {p : Pipes} {pfail : Fds} {t : FdTab φ} {n : PipeName}
    {skip : Bool} {r : RedirectInfo} (hf : AtFork s t₀ p pfail t) (hstd : ∀ x, x = 0 ∨ x = 1 ∨ x = 2 → t₀.get x ≠ none)
    (hs : Slots skip r (pipeFds p pfail n)) (hn : piped s n = (!skip && !r.redirected)) (hskip : skip = false)
    (h3 : r.redirected = true → 3 ≤ r.target) (e : PipeEnd) : 3 ≤ (pipeFds p pfail n).at e := by
  cases hred : r.redirected with
  | true =>
    rw [hs.at_redirected hskip hred]
    exact h3 hred
  | false => exact hf.three_le_end hstd e (by rw [hn, hskip, hred]; rfl)

/-- With 0, 1 and 2 open in the parent only the targets matter. -/
theorem AtFork.clear_iff {s : ProcessStartup} {t₀ : Table φ} {p : Pipes} {pfail : Fds} {t : FdTab φ}
    (hf : AtFork s t₀ p pfail t) (hstd : ∀ x, x = 0 ∨ x = 1 ∨ x = 2 → t₀.get x ≠ none) :
    Clear s t₀ p ↔ (s.inheritStdin = false → s.stdin.redirected = true → 3 ≤ s.stdin.target) ∧
      (s.inheritStdout = false → s.stdout.redirected = true → 3 ≤ s.stdout.target) ∧
      ((s.mergeOutputs || s.inheritStderr) = false → s.stderr.redirected = true → 3 ≤ s.stderr.target) := by
  constructor
  · intro hc
    refine ⟨?_, ?_, ?_⟩
    · intro hskip hred
      rw [← hf.stdin.at_redirected hskip hred .read]
      exact hc.stdin hskip
    · intro hskip hred
      rw [← hf.stdout.at_redirected hskip hred .write]
      exact hc.stdout hskip
    · intro hskip hred
      rw [← hf.stderr.at_redirected hskip hred .write]
      exact hc.stderr hskip
  · intro h
    obtain ⟨hin, hout, herr⟩ := h
    refine ⟨?_, ?_, ?_, fun _ => hstd 0 (.inl rfl), fun _ => hstd 1 (.inr (.inl rfl)), fun _ _ => hstd 2 (.inr (.inr rfl)), ?_⟩
    · intro hskip
      exact hf.three_le_near (n := .stdin) hstd hf.stdin rfl hskip (hin hskip) .read
    · intro hskip
      exact hf.three_le_near (n := .stdout) hstd hf.stdout rfl hskip (hout hskip) .write
    · intro hskip
      exact hf.three_le_near (n := .stderr) hstd hf.stderr rfl hskip (herr hskip) .write
    · intro hp
      have h3 : 3 ≤ p.pstderr.rd := hf.three_le_end (n := .stderr) hstd .read hp
      exact ⟨fun h => absurd h3 (by rw [h]; decide), fun h => absurd h3 (by rw [h]; decide)⟩

theorem AtFork.clear {s : ProcessStartup} {t₀ : Table φ} {p : Pipes} {pfail : Fds} {t : FdTab φ}
    (hf : AtFork s t₀ p pfail t) (hc : CallerReady s t₀) : Clear s t₀ p :=
  (hf.clear_iff hc.std).mpr ⟨fun _ hr => (hc.targets _ (.inl rfl) hr).1, fun _ hr => (hc.targets _ (.inr (.inl rfl)) hr).1,
    fun _ hr => (hc.targets _ (.inr (.inr rfl)) hr).1⟩

theorem AtFork.source {s : ProcessStartup} {t₀ : Table φ} {p : Pipes} {pfail : Fds} {t : FdTab φ} {n : PipeName}
    {skip : Bool} {r : RedirectInfo} (hf : AtFork s t₀ p pfail t) (hs : Slots skip r (pipeFds p pfail n))
    (hn : piped s n = (!skip && !r.redirected)) (hskip : skip = false)
    (hopen : r.redirected = true → t₀.get r.target ≠ none) (e : PipeEnd) :
    ∃ f, boundFile t₀ r (.pipe n e) = some f ∧ t.file ((pipeFds p pfail n).at e) = some f ∧
      (f = .pipe n e ∨ ∃ g, f = .old g) := by
  cases hred : r.redirected with
  | true =>
    obtain ⟨d, hd⟩ := Option.ne_none_iff_exists'.mp (hopen hred)
    refine ⟨.old d.file, ?_, ?_, Or.inr ⟨_, rfl⟩⟩
    · simp [boundFile, hred, Table.file, hd]
    · rw [hs.at_redirected hskip hred, Table.file, hf.made.old hd]
      rfl
  | false =>
    have hend := hf.made.ends n e (by rw [hn, hskip, hred]; rfl)
    exact ⟨.pipe n e, by simp [boundFile, hred], hend, Or.inl rfl⟩

/-- Nothing inherited is close-on-exec in the parent. -/
structure InheritsKept (s : ProcessStartup) (t₀ : Table φ) : Prop where
  stdin : s.inheritStdin = true → ∀ d, t₀.get 0 = some d → d.cloexec = false
  stdout : s.inheritStdout = true → ∀ d, t₀.get 1 = some d → d.cloexec = false
  stderr : s.mergeOutputs = false → s.inheritStderr = true → ∀ d, t₀.get 2 = some d → d.cloexec = false

/-- A stream at its number: open, at the file the flags say, and close-on-exec only where
    the parent's own was and is inherited. -/
structure SetUp (t₀ : Table φ) (dst : Fd) (skip : Bool) (r : RedirectInfo) (own : OpenFile φ) (d : Desc (OpenFile φ)) : Prop where
  file : streamFile t₀ dst skip r own = some d.file
  cloexec : d.cloexec = true → skip = true ∧ ∃ d₀, t₀.get dst = some d₀ ∧ d₀.cloexec = true

theorem SetUp.kept {t₀ : Table φ} {dst : Fd} {skip : Bool} {r : RedirectInfo} {own : OpenFile φ} {d : Desc (OpenFile φ)}
    (h : SetUp t₀ dst skip r own d) (hk : skip = true → ∀ d, t₀.get dst = some d → d.cloexec = false) :
    d = ⟨d.file, false⟩ := by
  obtain ⟨file, cloexec⟩ := d
  cases cloexec with
  | false => rfl
  | true =>
    obtain ⟨hskip, d₀, hd₀, hc⟩ := h.cloexec rfl
    exact absurd (hc.symm.trans (hk hskip d₀ hd₀)) (by decide)

/-- A stream set up by one `dup2`, or left as the parent has it, on a table that still
    has the stream's own files as at the fork. -/
theorem AtFork.setup {s : ProcessStartup} {t₀ : Table φ} {p : Pipes} {pfail : Fds} {t u : FdTab φ} {n : PipeName}
    {skip : Bool} {r : RedirectInfo} {dst : Fd} (hf : AtFork s t₀ p pfail t) (hs : Slots skip r (pipeFds p pfail n))
    (hn : piped s n = (!skip && !r.redirected)) (hdst : dst = 0 ∨ dst = 1 ∨ dst = 2) (e : PipeEnd)
    (hopen : skip = false → r.redirected = true → t₀.get r.target ≠ none)
    (h3 : skip = false → 3 ≤ (pipeFds p pfail n).at e) (hin : skip = true → t₀.get dst ≠ none)
    (hu : ∀ y f, t.file y = some f → (f = .pipe n e ∨ ∃ g, f = .old g) → y = dst ∨ 3 ≤ y → u.get y = t.get y) :
    ∃ d, (if !skip then u.dup2 ((pipeFds p pfail n).at e) dst else u).get dst = some d ∧
      SetUp t₀ dst skip r (.pipe n e) d := by
  cases hskip : skip with
  | true =>
    obtain ⟨d₀, hd₀⟩ := Option.ne_none_iff_exists'.mp (hin hskip)
    have hget : t.get dst = some ⟨.old d₀.file, d₀.cloexec⟩ := hf.made.old hd₀
    refine ⟨⟨.old d₀.file, d₀.cloexec⟩, ?_, ?_, fun hc => ⟨rfl, d₀, hd₀, hc⟩⟩
    · rw [Bool.not_true, if_neg (by simp), hu dst (.old d₀.file) (by simp [Table.file, hget]) (Or.inr ⟨_, rfl⟩) (Or.inl rfl),
        hget]
    · simp [streamFile, Table.file, hd₀]
  | false =>
    obtain ⟨f, hb, hfile, hkind⟩ := hf.source hs hn hskip (hopen hskip) e
    obtain ⟨c, hget⟩ := file_eq_some.mp hfile
    rw [← hu _ f hfile hkind (Or.inr (h3 hskip))] at hget
    have hlow : dst < 3 ∧ InRange dst := by
      rcases hdst with rfl | rfl | rfl <;> exact ⟨by decide, by decide⟩
    refine ⟨⟨f, false⟩, ?_, hb, fun hc => by cases hc⟩
    exact get_dup2_self u hget (fun h => absurd hlow.1 (by rw [← h]; exact not_lt.mpr (h3 hskip))) hlow.2

theorem AtFork.get_closeFarEnds {s : ProcessStartup} {t₀ : Table φ} {p : Pipes} {pfail : Fds} {t : FdTab φ}
    (hf : AtFork s t₀ p pfail t) {x : Fd} {f : OpenFile φ} (hx : t.file x = some f)
    (hne : f ∉ [OpenFile.pipe .fail .read, .pipe .stdin .write, .pipe .stdout .read]) :
    (closeFarEnds s p pfail t).get x = t.get x := by
  simp only [List.mem_cons, List.not_mem_nil, or_false, not_or] at hne
  obtain ⟨h1, h2, h3⟩ := hne
  rw [closeFarEnds]
  simp only [get_closeFd_if, get_closeFd]
  rw [if_neg, if_neg, if_neg]
  · exact fun h => hf.made.ne_end hx (n := .fail) (e := .read) rfl h1 h
  · exact fun h => hf.made.ne_end hx (n := .stdin) (e := .write) h.1 h2 h.2
  · exact fun h => hf.made.ne_end hx (n := .stdout) (e := .read) h.1 h3 h.2

/-- The near ends closed last are above 2. -/
theorem Clear.get_closeNearEnds {s : ProcessStartup} {t₀ : Table φ} {p : Pipes} (hc : Clear s t₀ p) (u : FdTab φ) {x : Fd}
    (hx : x = 0 ∨ x = 1 ∨ x = 2) : (closeNearEnds s p u).get x = u.get x := by
  have hne : ∀ y : Fd, 3 ≤ y → x ≠ y := by
    intro y hy heq
    subst heq
    rcases hx with rfl | rfl | rfl <;> exact absurd hy (by decide)
  rw [closeNearEnds]
  simp only [get_closeFd_if]
  rw [if_neg, if_neg, if_neg]
  · intro hclosed
    exact hne _ (hc.stdin (by simpa using hclosed.1)) hclosed.2
  · intro hclosed
    exact hne _ (hc.stdout (by simpa using hclosed.1)) hclosed.2
  · intro hclosed
    have hskip : (s.mergeOutputs || s.inheritStderr) = false := by
      obtain ⟨hi, -⟩ := hclosed
      cases hm : s.mergeOutputs <;> cases hi' : s.inheritStderr <;> simp_all
    exact hne _ (hc.stderr hskip) hclosed.2

/-- Each of 0, 1 and 2 is as its own setup left it. -/
theorem Clear.childStreams_low {s : ProcessStartup} {t₀ : Table φ} {p : Pipes} (hc : Clear s t₀ p) (pfail : Fds) (t : FdTab φ) :
    (childStreams s p pfail t).get 0 = (setupStdin s p (closeFarEnds s p pfail t)).get 0 ∧
      (childStreams s p pfail t).get 1 = (setupStdout s p (setupStdin s p (closeFarEnds s p pfail t))).get 1 ∧
      (childStreams s p pfail t).get 2 =
        (setupStderr s p (setupStdout s p (setupStdin s p (closeFarEnds s p pfail t)))).get 2 := by
  have hstay : ∀ x, x = 0 ∨ x = 1 → (setupStderr s p (setupStdout s p (setupStdin s p (closeFarEnds s p pfail t)))).get x =
      (setupStdout s p (setupStdin s p (closeFarEnds s p pfail t))).get x := by
    intro x hx
    rw [get_setupStderr_ne _ _ _ (by rcases hx with rfl | rfl <;> decide), if_neg]
    intro hclosed
    obtain ⟨h0, h1⟩ := hc.stderrRead hclosed.1
    rcases hx with rfl | rfl
    · exact h0 hclosed.2.symm
    · exact h1 hclosed.2.symm
  refine ⟨?_, ?_, ?_⟩
  · rw [childStreams, hc.get_closeNearEnds _ (Or.inl rfl), hstay 0 (Or.inl rfl), get_setupStdout_ne _ _ _ (by decide)]
  · rw [childStreams, hc.get_closeNearEnds _ (Or.inr (Or.inl rfl)), hstay 1 (Or.inr rfl)]
  · rw [childStreams, hc.get_closeNearEnds _ (Or.inr (Or.inr rfl))]

/-- What a stream's setup finds is as at the fork: its own end or an old file, at its own
    number or above 2. -/
theorem AtFork.get_farEnds {s : ProcessStartup} {t₀ : Table φ} {p : Pipes} {pfail : Fds} {t : FdTab φ}
    (hf : AtFork s t₀ p pfail t) {n : PipeName} {e : PipeEnd}
    (hne : OpenFile.pipe n e ∉ [OpenFile.pipe (φ := φ) .fail .read, .pipe .stdin .write, .pipe .stdout .read]) {y : Fd}
    {f : OpenFile φ} (hy : t.file y = some f) (hkind : f = .pipe n e ∨ ∃ g, f = .old g) :
    (closeFarEnds s p pfail t).get y = t.get y := by
  refine hf.get_closeFarEnds hy ?_
  rcases hkind with rfl | ⟨g, rfl⟩
  · exact hne
  · simp

section Streams

variable {s : ProcessStartup} {t₀ : Table φ} {p : Pipes} {pfail : Fds} {t : FdTab φ}

theorem AtFork.stdin_setUp (hf : AtFork s t₀ p pfail t) (ho : TargetsOpen s t₀) (hc : Clear s t₀ p) :
    ∃ d, (childStreams s p pfail t).get 0 = some d ∧ SetUp t₀ 0 s.inheritStdin s.stdin (.pipe .stdin .read) d := by
  rw [(hc.childStreams_low pfail t).1]
  exact hf.setup (n := .stdin) (u := closeFarEnds s p pfail t) hf.stdin rfl (Or.inl rfl) .read ho.stdin hc.stdin
    hc.inheritedStdin fun y f hy hkind _ => hf.get_farEnds (by simp) hy hkind

theorem AtFork.stdout_setUp (hf : AtFork s t₀ p pfail t) (ho : TargetsOpen s t₀) (hc : Clear s t₀ p) :
    ∃ d, (childStreams s p pfail t).get 1 = some d ∧ SetUp t₀ 1 s.inheritStdout s.stdout (.pipe .stdout .write) d := by
  rw [(hc.childStreams_low pfail t).2.1]
  exact hf.setup (n := .stdout) (u := setupStdin s p (closeFarEnds s p pfail t)) hf.stdout rfl (Or.inr (Or.inl rfl)) .write
    ho.stdout hc.stdout hc.inheritedStdout fun y f hy hkind hlow => by
      rw [get_setupStdin_ne _ _ _ (by rintro rfl; simp at hlow), hf.get_farEnds (by simp) hy hkind]

/-- stderr: merged, wherever stdout ended up; else as the other two. -/
theorem Clear.stderr_merged (hc : Clear s t₀ p) (hm : s.mergeOutputs = true) {d : Desc (OpenFile φ)}
    (h₁ : (childStreams s p pfail t).get 1 = some d) : (childStreams s p pfail t).get 2 = some ⟨d.file, false⟩ := by
  obtain ⟨-, hlow₁, hlow₂⟩ := hc.childStreams_low pfail t
  rw [hlow₂, setupStderr, hm, if_pos rfl]
  exact get_dup2_self _ (hlow₁.symm.trans h₁) (by decide) (by decide)

theorem AtFork.stderr_setUp (hf : AtFork s t₀ p pfail t) (ho : TargetsOpen s t₀) (hc : Clear s t₀ p)
    (hm : s.mergeOutputs = false) :
    ∃ d, (childStreams s p pfail t).get 2 = some d ∧ SetUp t₀ 2 s.inheritStderr s.stderr (.pipe .stderr .write) d := by
  have hor : (s.mergeOutputs || s.inheritStderr) = s.inheritStderr := by rw [hm, Bool.false_or]
  have hslots := hf.stderr
  have hopen := ho.stderr
  have h3 := hc.stderr
  rw [hor] at hslots hopen h3
  have hpiped : piped s .stderr = (!s.inheritStderr && !s.stderr.redirected) := by rw [piped, hor]
  obtain ⟨d, hget, hd⟩ := hf.setup (n := .stderr) hslots hpiped (Or.inr (Or.inr rfl)) .write hopen h3 (hc.inheritedStderr hm)
    (u := if piped s .stderr then closeFd (setupStdout s p (setupStdin s p (closeFarEnds s p pfail t))) p.pstderr.rd
      else setupStdout s p (setupStdin s p (closeFarEnds s p pfail t))) (fun y f hy hkind hlow => by
      rw [get_closeFd_if, if_neg, get_setupStdout_ne _ _ _ (by rintro rfl; simp at hlow),
        get_setupStdin_ne _ _ _ (by rintro rfl; simp at hlow), hf.get_farEnds (by simp) hy hkind]
      intro hclosed
      obtain ⟨hp, h⟩ := hclosed
      exact hf.made.ne_end hy (n := .stderr) (e := .read) hp (by rcases hkind with rfl | ⟨g, rfl⟩ <;> simp) h)
  refine ⟨d, ?_, hd⟩
  rw [← hget, (hc.childStreams_low pfail t).2.2, setupStderr, hm, if_neg (by simp), hpiped]
  cases s.inheritStderr <;> cases s.stderr.redirected <;> rfl

theorem AtFork.childStreams_stdin (hf : AtFork s t₀ p pfail t) (hc : CallerReady s t₀)
    (hk : s.inheritStdin = true → ∀ d, t₀.get 0 = some d → d.cloexec = false) :
    ∃ f₀, streamFile t₀ 0 s.inheritStdin s.stdin (.pipe .stdin .read) = some f₀ ∧
      (childStreams s p pfail t).get 0 = some ⟨f₀, false⟩ := by
  obtain ⟨d, hget, hd⟩ := hf.stdin_setUp hc.targetsOpen (hf.clear hc)
  exact ⟨d.file, hd.file, hget.trans (congrArg some (hd.kept hk))⟩

theorem AtFork.childStreams_stdout (hf : AtFork s t₀ p pfail t) (hc : CallerReady s t₀)
    (hk : s.inheritStdout = true → ∀ d, t₀.get 1 = some d → d.cloexec = false) :
    ∃ f₁, streamFile t₀ 1 s.inheritStdout s.stdout (.pipe .stdout .write) = some f₁ ∧
      (childStreams s p pfail t).get 1 = some ⟨f₁, false⟩ := by
  obtain ⟨d, hget, hd⟩ := hf.stdout_setUp hc.targetsOpen (hf.clear hc)
  exact ⟨d.file, hd.file, hget.trans (congrArg some (hd.kept hk))⟩

theorem AtFork.childStreams_stderr (hf : AtFork s t₀ p pfail t) (hc : CallerReady s t₀) (hm : s.mergeOutputs = false)
    (hk : s.inheritStderr = true → ∀ d, t₀.get 2 = some d → d.cloexec = false) :
    ∃ f₂, streamFile t₀ 2 s.inheritStderr s.stderr (.pipe .stderr .write) = some f₂ ∧
      (childStreams s p pfail t).get 2 = some ⟨f₂, false⟩ := by
  obtain ⟨d, hget, hd⟩ := hf.stderr_setUp hc.targetsOpen (hf.clear hc) hm
  exact ⟨d.file, hd.file, hget.trans (congrArg some (hd.kept hk))⟩

/-- The stream setup, at 0, 1 and 2. -/
theorem childStreams_std (hf : AtFork s t₀ p pfail t) (hc : CallerReady s t₀) (hk : InheritsKept s t₀) :
    ∃ f₀ f₁ f₂, (childStreams s p pfail t).get 0 = some ⟨f₀, false⟩ ∧
      (childStreams s p pfail t).get 1 = some ⟨f₁, false⟩ ∧ (childStreams s p pfail t).get 2 = some ⟨f₂, false⟩ ∧
      streamFile t₀ 0 s.inheritStdin s.stdin (.pipe .stdin .read) = some f₀ ∧
      streamFile t₀ 1 s.inheritStdout s.stdout (.pipe .stdout .write) = some f₁ ∧
      (if s.mergeOutputs then some f₁
        else streamFile t₀ 2 s.inheritStderr s.stderr (.pipe .stderr .write)) = some f₂ := by
  obtain ⟨f₀, hs₀, hg₀⟩ := hf.childStreams_stdin hc hk.stdin
  obtain ⟨f₁, hs₁, hg₁⟩ := hf.childStreams_stdout hc hk.stdout
  cases hm : s.mergeOutputs with
  | true => exact ⟨f₀, f₁, f₁, hg₀, hg₁, (hf.clear hc).stderr_merged hm hg₁, hs₀, hs₁, rfl⟩
  | false =>
    obtain ⟨f₂, hs₂, hg₂⟩ := hf.childStreams_stderr hc hm (hk.stderr hm)
    exact ⟨f₀, f₁, f₂, hg₀, hg₁, hg₂, hs₀, hs₁, hs₂⟩

end Streams

theorem childExec_low {sys : CloseSys} {s : ProcessStartup} {p : Pipes} {pfail : Fds} {t c : FdTab φ} {x : Fd}
    {f : OpenFile φ} (h : childExec sys s p pfail t = some c) (hx : x < 3) (h3 : 3 ≤ pfail.wr)
    (hf : (childStreams s p pfail t).get x = some ⟨f, false⟩) : c.get x = some ⟨f, false⟩ := by
  obtain ⟨u, hu, rfl⟩ := Option.map_eq_some_iff.mp h
  obtain ⟨d, hd, rfl⟩ := Option.map_eq_some_iff.mp hu
  have hr : InRange pfail.wr := (childSetup sys s p pfail t).inRange _ (by simp [hd])
  have hne : x ≠ pfail.wr := fun h => absurd h3 (by rw [← h]; exact not_le.mpr hx)
  refine get_exec_keep _ ?_ rfl
  rw [get_put _ hr, if_neg hne, childSetup, closeAllDescriptors_spares sys _ (Or.inl hx), hf]

theorem childExec_eq (sys : CloseSys) {s : ProcessStartup} {p : Pipes} {pfail : Fds} {t : FdTab φ}
    (hfail : (childStreams s p pfail t).get pfail.wr ≠ none) : ∃ d : Desc (OpenFile φ), childExec sys s p pfail t =
      some (((childSetup sys s p pfail t).put pfail.wr { d with cloexec := true }).exec) := by
  obtain ⟨d, hd⟩ := Option.ne_none_iff_exists'.mp hfail
  have hwr : (childSetup sys s p pfail t).get pfail.wr = some d := by
    rw [childSetup, closeAllDescriptors_spares sys _ (Or.inr rfl), hd]
  refine ⟨d, ?_⟩
  rw [childExec, Table.setCloexec, hwr]
  rfl

/-- The last steps before the program runs: of a table with the fail pipe's write end
    above 2, what is left is 0, 1 and 2. -/
theorem childExec_get {sys : CloseSys} {s : ProcessStartup} {p : Pipes} {pfail : Fds} {t : FdTab φ}
    {f₀ f₁ f₂ : OpenFile φ} (hsys : sys.closeRange = (true, true))
    (h₀ : (childStreams s p pfail t).get 0 = some ⟨f₀, false⟩)
    (h₁ : (childStreams s p pfail t).get 1 = some ⟨f₁, false⟩)
    (h₂ : (childStreams s p pfail t).get 2 = some ⟨f₂, false⟩)
    (hfail : (childStreams s p pfail t).get pfail.wr ≠ none) (h3 : 3 ≤ pfail.wr) :
    ∃ c, childExec sys s p pfail t = some c ∧ c.get 0 = some ⟨f₀, false⟩ ∧ c.get 1 = some ⟨f₁, false⟩ ∧
      c.get 2 = some ⟨f₂, false⟩ ∧ ∀ x, 3 ≤ x → c.get x = none := by
  obtain ⟨d, hexec⟩ := childExec_eq sys hfail
  have hr : InRange pfail.wr := (childStreams s p pfail t).inRange _ hfail
  refine ⟨_, hexec, childExec_low hexec (by decide) h3 h₀, childExec_low hexec (by decide) h3 h₁,
    childExec_low hexec (by decide) h3 h₂, ?_⟩
  intro x hx
  refine get_exec_drop _ ?_
  intro d' h'
  rw [get_put _ hr] at h'
  split at h'
  · cases h'
    rfl
  · rename_i hne
    rw [childSetup, closeAllDescriptors_closes hsys _ hx hne] at h'
    cases h'

/-- The fail pipe's write end is still open when the streams are set up, above 2 at least. -/
theorem AtFork.failWr_open {s : ProcessStartup} {t₀ : Table φ} {p : Pipes} {pfail : Fds} {t : FdTab φ}
    (hf : AtFork s t₀ p pfail t) (ho : TargetsOpen s t₀) (h3 : 3 ≤ pfail.wr) :
    (childStreams s p pfail t).get pfail.wr ≠ none := by
  have hne : ∀ x : Int, x < 3 → pfail.wr ≠ x := fun x hx h => absurd h3 (by rw [h]; exact not_le.mpr hx)
  have hfile : t.file pfail.wr = some (.pipe .fail .write) := hf.made.ends .fail .write rfl
  -- a stream's own number is a target or another pipe's end
  have hown : ∀ {n : PipeName} {e : PipeEnd} {f : OpenFile φ}, n ≠ .fail → t.file ((pipeFds p pfail n).at e) = some f →
      (f = .pipe n e ∨ ∃ g, f = .old g) → pfail.wr ≠ (pipeFds p pfail n).at e := by
    intro n e f hn hat hkind h
    rw [← h, hfile] at hat
    rcases hkind with rfl | ⟨g, rfl⟩
    · simp [Ne.symm hn] at hat
    · cases hat
  rw [get_childStreams (hne 0 (by decide)) (hne 1 (by decide)) (hne 2 (by decide)), if_neg]
  · rw [← file_ne_none, hfile]
    simp
  intro hclosed
  rcases hclosed with ⟨hi, h⟩ | ⟨hi, h⟩ | ⟨hi, h⟩ | ⟨hp, h⟩ | ⟨hp, h⟩ | ⟨hp, h⟩ | h
  · have hskip : (s.mergeOutputs || s.inheritStderr) = false := by simpa using hi
    obtain ⟨_, -, hat, hkind⟩ := hf.source (n := .stderr) hf.stderr rfl hskip (ho.stderr hskip) .write
    exact hown (by decide) hat hkind h
  · have hskip : s.inheritStdout = false := by simpa using hi
    obtain ⟨_, -, hat, hkind⟩ := hf.source (n := .stdout) hf.stdout rfl hskip (ho.stdout hskip) .write
    exact hown (by decide) hat hkind h
  · have hskip : s.inheritStdin = false := by simpa using hi
    obtain ⟨_, -, hat, hkind⟩ := hf.source (n := .stdin) hf.stdin rfl hskip (ho.stdin hskip) .read
    exact hown (by decide) hat hkind h
  · exact hf.made.ne_end hfile (n := .stderr) (e := .read) hp (by simp) h
  · exact hf.made.ne_end hfile (n := .stdout) (e := .read) hp (by simp) h
  · exact hf.made.ne_end hfile (n := .stdin) (e := .write) hp (by simp) h
  · exact hf.made.ne_end hfile (n := .fail) (e := .read) rfl (by simp) h

theorem AtFork.failWr {s : ProcessStartup} {t₀ : Table φ} {p : Pipes} {pfail : Fds} {t : FdTab φ}
    (hf : AtFork s t₀ p pfail t) (hc : CallerReady s t₀) :
    3 ≤ pfail.wr ∧ (childStreams s p pfail t).get pfail.wr ≠ none := by
  have h3 : 3 ≤ pfail.wr := hf.three_le_end hc.std (n := .fail) .write rfl
  exact ⟨h3, hf.failWr_open hc.targetsOpen h3⟩

/-- A start that returns has plumbed the child and the parent as the flags say. -/
theorem streams_plumbed (k : Kernel φ) (s : ProcessStartup) (t₀ : Table φ) (info : ProcessInfo)
    (hsys : k.child.closeRange = (true, true)) (hc : CallerReady s t₀) (hk : InheritsKept s t₀)
    (hok : (createProcess k s t₀).result = .ok info) :
    ∃ c, (createProcess k s t₀).child = some c ∧ ChildStreams s t₀ c ∧
      ParentStreams s t₀ info (createProcess k s t₀).table := by
  obtain ⟨p, pfail, t, pid, hf, hchild, hparent, hrep⟩ := createProcess_ok hok
  obtain ⟨f₀, f₁, f₂, h₀, h₁, h₂, hs₀, hs₁, hs₂⟩ := childStreams_std hf hc hk
  obtain ⟨h3, hfail⟩ := hf.failWr hc
  obtain ⟨c, hexec, hc₀, hc₁, hc₂, hhigh⟩ := childExec_get hsys h₀ h₁ h₂ hfail h3
  refine ⟨c, by rw [hchild, hexec], ⟨?_, ?_, ?_, ?_⟩, parent_streams hf hrep hparent⟩
  · intro x
    constructor
    · intro hx
      have hnonneg := (c.inRange x hx).1
      by_contra hne
      exact hx (hhigh x (by omega))
    · intro hx
      rcases hx with rfl | rfl | rfl
      · simp [hc₀]
      · simp [hc₁]
      · simp [hc₂]
  · rw [hs₀, Table.file, hc₀]
    rfl
  · rw [hs₁, Table.file, hc₁]
    rfl
  · simp only [Table.file, hc₁, hc₂, Option.map_some]
    exact hs₂.symm

/-! ## Runs -/

/-- A parent with 0, 1, 2 and 5 open, 0 close-on-exec or not. -/
def callerTable (cloexec : Bool) : Table Nat :=
  ((((empty : Table Nat).put 0 ⟨10, cloexec⟩).put 1 ⟨11, false⟩).put 2 ⟨12, false⟩).put 5 ⟨15, true⟩

def plainKernel : Kernel Nat where
  stdinPipe := .at 3 4 (by decide) (by decide) (by decide)
  stdoutPipe := .fails
  stderrPipe := .fails
  failPipe := .at 7 6 (by decide) (by decide) (by decide)
  pipe2 := true
  fork := some 100
  reply := .eof
  startTime := 0
  strerror := fun _ => ""
  child := ⟨(true, true), 1024⟩

theorem callerReady_redirect (b : Bool) {s : ProcessStartup}
    (hs : ∀ r, r = s.stdin ∨ r = s.stdout ∨ r = s.stderr → r.target = FD_INVALID ∨ r.target = 5) :
    CallerReady s (callerTable b) where
  std x hx := by rcases hx with rfl | rfl | rfl <;> exact Option.some_ne_none _
  targets r hr hred := by
    rcases hs r hr with h | h
    · simp [RedirectInfo.redirected, h] at hred
    · rw [h]
      exact ⟨by decide, Option.some_ne_none _⟩

/-- stdin piped at 3 and 4, stdout redirected to 5, stderr merged: the parent gets 4. -/
theorem streams_plumbed_redirect :
    ∃ c, (createProcess plainKernel { stdout := ⟨5⟩, mergeOutputs := true } (callerTable false)).child = some c ∧
      ChildStreams { stdout := ⟨5⟩, mergeOutputs := true } (callerTable false) c ∧
      ParentStreams { stdout := ⟨5⟩, mergeOutputs := true } (callerTable false) { pid := 100, stdin := 4 }
        (createProcess plainKernel { stdout := ⟨5⟩, mergeOutputs := true } (callerTable false)).table :=
  streams_plumbed plainKernel { stdout := ⟨5⟩, mergeOutputs := true } (callerTable false) { pid := 100, stdin := 4 } rfl
    (callerReady_redirect false (by rintro r (rfl | rfl | rfl) <;> simp))
    ⟨by simp, by simp, by simp⟩ rfl

/-- Every stream inherited, and 0 close-on-exec in the parent: the child has no 0. -/
theorem inherited_cloexec_lost :
    ¬ ∀ (k : Kernel Nat) (s : ProcessStartup) (t₀ : Table Nat) (info : ProcessInfo),
      k.child.closeRange = (true, true) → CallerReady s t₀ → (createProcess k s t₀).result = .ok info →
      ∃ c, (createProcess k s t₀).child = some c ∧ ChildStreams s t₀ c ∧
        ParentStreams s t₀ info (createProcess k s t₀).table := by
  intro hall
  obtain ⟨c, hc, hstreams, -⟩ :=
    hall plainKernel { inheritStdin := true, inheritStdout := true, inheritStderr := true } (callerTable true)
      { pid := 100 } rfl (callerReady_redirect true (by rintro r (rfl | rfl | rfl) <;> simp)) rfl
  have h0 : ((createProcess plainKernel { inheritStdin := true, inheritStdout := true, inheritStderr := true }
      (callerTable true)).child.bind fun c => c.get 0) = none := rfl
  rw [hc] at h0
  exact (hstreams.only 0).mpr (Or.inl rfl) h0

end CovProcess.Unix
