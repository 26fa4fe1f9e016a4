/-
  CovProcess.Unix.Rollback — a `create_process` that throws: what its hand-written
  rollbacks leave open (see `CovProcess.Unix.Spawn`).

  Proved: `failed_start_iff`, a failed start leaves the table as it was exactly when it
  does not fail on the stdout or stderr pipe with an earlier stream redirected to an open
  descriptor: those two rollbacks close both slots of the earlier pairs without looking
  whether they hold the caller's target. Failures after the three streams are bound
  always give the table back (`rollback_eq`).
-/

import CovProcess.Unix.Spawn

namespace CovProcess.Unix

open FdTable

variable {φ : Type}

/-! ## Undoing one stream -/

theorem get_closePipe (t : FdTab φ) (fds : Fds) (x : Fd) :
    (closePipe t fds).get x = if x = fds.rd ∨ x = fds.wr then none else t.get x := by
  rw [closePipe, get_closeFd, get_closeFd]
  by_cases hw : x = fds.wr <;> by_cases hr : x = fds.rd <;> simp [hw, hr]

/-- The rollbacks before `create_process_impl` close the pair of any stream not
    inherited: its pipe, or its redirect target. -/
theorem Bound.undo {n : PipeName} {skip : Bool} {r : RedirectInfo} {t t' : FdTab φ} {fds : Fds}
    (h : Bound n skip r t fds t') (x : Fd) :
    (if !skip then closePipe t' fds else t').get x =
      if skip = false ∧ r.redirected = true ∧ x = r.target then none else t.get x := by
  cases h with
  | skipped hs => simp [hs]
  | redirected hs hr =>
    rw [hs, Bool.not_false, if_pos rfl, get_closePipe]
    simp [hr]
  | piped hs hr hp =>
    rw [hs, Bool.not_false, if_pos rfl, hp.closePipe_eq]
    simp [hr]

/-- The rollback of the `catch` closes the pair of a piped stream only. -/
theorem Bound.undoPiped {n : PipeName} {skip : Bool} {r : RedirectInfo} {t t' : FdTab φ} {fds : Fds}
    (h : Bound n skip r t fds t') : (if !skip && !r.redirected then closePipe t' fds else t') = t := by
  cases h with
  | skipped hs => simp [hs]
  | redirected hs hr => simp [hr]
  | piped hs hr hp => simp [hs, hr, hp.closePipe_eq]

theorem get_closePipe_if (b : Bool) (t : FdTab φ) (fds : Fds) (x : Fd) :
    (if b then closePipe t fds else t).get x =
      if b = true ∧ (x = fds.rd ∨ x = fds.wr) then none else t.get x := by
  cases b <;> simp [get_closePipe]

theorem closePipe_if_comm (b c : Bool) (t : FdTab φ) (f g : Fds) :
    (if c then closePipe (if b then closePipe t f else t) g else (if b then closePipe t f else t)) =
      (if b then closePipe (if c then closePipe t g else t) f else (if c then closePipe t g else t)) := by
  ext1 x
  rw [get_closePipe_if, get_closePipe_if, get_closePipe_if, get_closePipe_if]
  by_cases h1 : b = true ∧ (x = f.rd ∨ x = f.wr) <;> by_cases h2 : c = true ∧ (x = g.rd ∨ x = g.wr) <;>
    simp only [h1, h2, if_false]

/-! ## After the streams are bound -/

/-- Every failure inside `create_process_impl` closes the fail pipe. -/
theorem createProcessImpl_error {k : Kernel φ} {s : ProcessStartup} {p : Pipes} {t : FdTab φ} {msg : String}
    (h : (createProcessImpl k s p t).result = .error msg) : (createProcessImpl k s p t).table = t := by
  unfold createProcessImpl at h ⊢
  cases hf : createPipe k.failPipe .fail k.pipe2 t with
  | none => rfl
  | some r =>
    obtain ⟨pfail, t'⟩ := r
    have hp := createPipe_spec hf
    have hswap : closeFd (closeFd t' pfail.wr) pfail.rd = t := by
      ext1 x
      rw [get_closeFd, get_closeFd, ← congrArg (fun u => u.get x) hp.closePipe_eq, get_closePipe]
      by_cases hr : x = pfail.rd <;> by_cases hw : x = pfail.wr <;> simp [hr, hw]
    cases hfork : k.fork with
    | none => simpa [hf, hfork] using hp.closePipe_eq
    | some pid =>
      simp only [hf, hfork, parentProc] at h ⊢
      cases hrep : k.reply with
      | eof => simp [hrep] at h
      | errno e => simpa [hrep] using hswap
      | failed e => simpa [hrep] using hswap

/-- The `catch` gives back the table from before the three streams were bound. -/
theorem rollback_eq {s : ProcessStartup} {p : Pipes} {t t₁ t₂ t₃ : FdTab φ}
    (hin : Bound .stdin s.inheritStdin s.stdin t p.pstdin t₁)
    (hout : Bound .stdout s.inheritStdout s.stdout t₁ p.pstdout t₂)
    (herr : Bound .stderr (s.mergeOutputs || s.inheritStderr) s.stderr t₂ p.pstderr t₃) :
    rollback s p t₃ = t := by
  have hcond : (!s.inheritStderr && !s.mergeOutputs && !s.stderr.redirected) =
      (!(s.mergeOutputs || s.inheritStderr) && !s.stderr.redirected) := by
    cases s.inheritStderr <;> cases s.mergeOutputs <;> rfl
  unfold rollback
  simp only [hcond]
  -- the closes commute: bring each next to the binding it undoes, the last one first
  rw [closePipe_if_comm (!s.inheritStdout && !s.stdout.redirected),
    closePipe_if_comm (!s.inheritStdin && !s.stdin.redirected) (!(s.mergeOutputs || s.inheritStderr) && !s.stderr.redirected),
    herr.undoPiped, closePipe_if_comm (!s.inheritStdin && !s.stdin.redirected), hout.undoPiped, hin.undoPiped]

/-! ## The condition -/

/-- The stream holds a target of the caller's that is open. -/
def OwnsTarget (inherit : Bool) (r : RedirectInfo) (t₀ : Table φ) : Prop :=
  inherit = false ∧ r.redirected = true ∧ t₀.get r.target ≠ none

/-- The stdout pipe fails with stdin redirected to an open descriptor, or the stderr pipe
    fails with stdin or stdout so redirected. -/
def LosesTarget (k : Kernel φ) (s : ProcessStartup) (t₀ : Table φ) : Prop :=
  ∃ pstdin t₁, bindStdin k s (t₀.map .old) = some (pstdin, t₁) ∧
    (bindStdout k s t₁ = none ∧ OwnsTarget s.inheritStdin s.stdin t₀ ∨
      ∃ pstdout t₂, bindStdout k s t₁ = some (pstdout, t₂) ∧ bindStderr k s t₂ = none ∧
        (OwnsTarget s.inheritStdin s.stdin t₀ ∨ OwnsTarget s.inheritStdout s.stdout t₀))

/-- A table with the targets of some streams closed is the old one when none was open. -/
theorem eq_of_closed_iff {t u : FdTab φ} {p : Fd → Prop} [DecidablePred p]
    (h : ∀ x, u.get x = if p x then none else t.get x) : u = t ↔ ∀ x, p x → t.get x = none := by
  constructor
  · intro heq x hp
    subst heq
    rw [h, if_pos hp]
  · intro hc
    ext1 x
    rw [h]
    split
    · rw [hc x ‹_›]
    · rfl

theorem not_owns_iff {inherit : Bool} {r : RedirectInfo} {t₀ : Table φ} :
    ¬ OwnsTarget inherit r t₀ ↔
      ∀ x, inherit = false ∧ r.redirected = true ∧ x = r.target → (t₀.map (OpenFile.old)).get x = none := by
  unfold OwnsTarget
  constructor
  · intro h x hx
    obtain ⟨hi, hr, rfl⟩ := hx
    by_cases hn : t₀.get r.target = none
    · simp [hn]
    · exact absurd ⟨hi, hr, hn⟩ h
  · intro h hx
    obtain ⟨hi, hr, hn⟩ := hx
    exact hn (by simpa using h r.target ⟨hi, hr, rfl⟩)

/-- The table of a start that failed on the stderr pipe: what it opened is closed again,
    and so is each target of stdin and stdout. -/
theorem get_noStderr {s : ProcessStartup} {pstdin pstdout : Fds} {t t₁ t₂ : FdTab φ}
    (bin : Bound .stdin s.inheritStdin s.stdin t pstdin t₁)
    (bout : Bound .stdout s.inheritStdout s.stdout t₁ pstdout t₂) (x : Fd) :
    (if !s.inheritStdout then closePipe (if !s.inheritStdin then closePipe t₂ pstdin else t₂) pstdout
      else if !s.inheritStdin then closePipe t₂ pstdin else t₂).get x =
      if (s.inheritStdin = false ∧ s.stdin.redirected = true ∧ x = s.stdin.target) ∨
        (s.inheritStdout = false ∧ s.stdout.redirected = true ∧ x = s.stdout.target) then none else t.get x := by
  have h1 := bin.undo x
  have h2 := bout.undo x
  rw [closePipe_if_comm, get_closePipe_if, h2]
  rw [get_closePipe_if] at h1
  by_cases ho : s.inheritStdout = false ∧ s.stdout.redirected = true ∧ x = s.stdout.target
  · rw [if_pos ho, if_pos (Or.inr ho), ite_self]
  · simp only [ho, or_false, if_false]
    exact h1

/-- A start that throws without losing a target leaves every descriptor as it was. -/
theorem failed_start_keeps {k : Kernel φ} {s : ProcessStartup} {t₀ : Table φ} (hl : ¬ LosesTarget k s t₀) {msg : String}
    (h : (createProcess k s t₀).result = .error msg) : (createProcess k s t₀).table = t₀.map .old := by
  cases hin : bindStdin k s (t₀.map .old) with
  | none => rw [createProcess_noStdin hin]
  | some r =>
    obtain ⟨pstdin, t₁⟩ := r
    have bin := bind_spec hin
    cases hout : bindStdout k s t₁ with
    | none =>
      have howns : ¬ OwnsTarget s.inheritStdin s.stdin t₀ := fun ho => hl ⟨pstdin, t₁, hin, .inl ⟨hout, ho⟩⟩
      rw [createProcess_noStdout hin hout]
      exact (eq_of_closed_iff bin.undo).mpr (not_owns_iff.mp howns)
    | some r =>
      obtain ⟨pstdout, t₂⟩ := r
      have bout := bind_spec hout
      cases herr : bindStderr k s t₂ with
      | none =>
        have howns : ¬ (OwnsTarget s.inheritStdin s.stdin t₀ ∨ OwnsTarget s.inheritStdout s.stdout t₀) := fun ho =>
          hl ⟨pstdin, t₁, hin, .inr ⟨pstdout, t₂, hout, herr, ho⟩⟩
        rw [not_or, not_owns_iff, not_owns_iff] at howns
        rw [createProcess_noStderr hin hout herr]
        exact (eq_of_closed_iff (get_noStderr bin bout)).mpr fun x hx => hx.elim (howns.1 x) (howns.2 x)
      | some r =>
        obtain ⟨pstderr, t₃⟩ := r
        let p : Pipes := ⟨pstdin, pstdout, pstderr⟩
        rw [createProcess_bound (p := p) hin hout herr] at h ⊢
        cases hres : (createProcessImpl k s p t₃).result with
        | ok info => simp [hres] at h
        | error msg' =>
          simp only [createProcessImpl_error hres]
          exact rollback_eq (p := p) bin bout (bind_spec herr)

/-- A start that loses a target throws, and the target is closed. -/
theorem failed_start_loses {k : Kernel φ} {s : ProcessStartup} {t₀ : Table φ} (hl : LosesTarget k s t₀) :
    ∃ msg, (createProcess k s t₀).result = .error msg ∧ (createProcess k s t₀).table ≠ t₀.map .old := by
  obtain ⟨pstdin, t₁, hin, ⟨hout, howns⟩ | ⟨pstdout, t₂, hout, herr, howns⟩⟩ := hl
  · rw [createProcess_noStdout hin hout]
    refine ⟨_, rfl, ?_⟩
    intro heq
    exact not_owns_iff.mpr ((eq_of_closed_iff (bind_spec hin).undo).mp heq) howns
  · rw [createProcess_noStderr hin hout herr]
    refine ⟨_, rfl, ?_⟩
    intro heq
    have hclosed := (eq_of_closed_iff (get_noStderr (bind_spec hin) (bind_spec hout))).mp heq
    rcases howns with howns | howns
    · exact not_owns_iff.mpr (fun x hx => hclosed x (.inl hx)) howns
    · exact not_owns_iff.mpr (fun x hx => hclosed x (.inr hx)) howns

/-- A start that throws leaves every descriptor as it was, exactly when it is not the
    stdout or stderr pipe that fails after an earlier stream took an open target. -/
theorem failed_start_iff (k : Kernel φ) (s : ProcessStartup) (t₀ : Table φ) :
    (∀ msg, (createProcess k s t₀).result = .error msg → (createProcess k s t₀).table = t₀.map .old) ↔
      ¬ LosesTarget k s t₀ := by
  constructor
  · intro h hl
    obtain ⟨msg, hmsg, hne⟩ := failed_start_loses hl
    exact hne (h msg hmsg)
  · intro hl msg hmsg
    exact failed_start_keeps hl hmsg

/-! ## The caller's target closed -/

/-- A parent with descriptor 5 open, on a system where the stdout pipe fails. -/
def parentTable : Table Unit := (empty : Table Unit).put 5 ⟨(), false⟩

def noStdoutPipe : Kernel Unit where
  stdinPipe := .fails
  stdoutPipe := .fails
  stderrPipe := .fails
  failPipe := .fails
  pipe2 := true
  fork := none
  reply := .eof
  startTime := 0
  strerror := fun _ => ""
  child := ⟨(true, true), 1024⟩

/-- stdin redirected to 5 and no stdout pipe: the start throws and 5 is closed. -/
theorem failed_start_closes_target :
    ¬ ∀ (k : Kernel Unit) (s : ProcessStartup) (t₀ : Table Unit) (msg : String),
      (createProcess k s t₀).result = .error msg → (createProcess k s t₀).table = t₀.map .old := by
  intro hall
  have h := hall noStdoutPipe { stdin := ⟨5⟩ } parentTable "unable to bind stdout" rfl
  have h5 : ((parentTable.map OpenFile.old).get 5).isSome = false := by
    rw [← h]
    rfl
  exact absurd h5 (by decide)

end CovProcess.Unix
