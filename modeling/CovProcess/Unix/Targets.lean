/-
  CovProcess.Unix.Targets — which descriptors a stream of a child can be redirected to
  (see `CovProcess.Unix.Spawn`). `child_proc` duplicates each stream's number to 0, 1 or 2
  and then closes it; where the number is 0, 1 or 2 itself, that closes a stream.

  Proved: `targets_connected_iff`, for any open targets, shared ones included, and any mix
  of piped, inherited and merged streams: a child gets to `exec` with every stream
  connected exactly when nothing its setup closes or overwrites is still needed
  (`Clear`). With 0, 1 and 2 open in the parent this is that no target in effect is one of
  them (`AtFork.clear_iff`). `stderr_to_stdout` is the child that has no stdout.
-/

import CovProcess.Unix.Handshake

namespace CovProcess.Unix

open FdTable

variable {φ : Type}

/-! ## What is claimed -/

/-- The child's table when it gets to `exec`; `none` when the `fcntl` before it fails. -/
def atExec (S : Setup φ) (t : FdTab φ) : Option (FdTab φ) :=
  (childSetup S.kernel.child S.startup S.pipes S.pfail t).setCloexec S.pfail.wr

/-- The streams are open, each at its target's file at the fork, the parent's own, or its
    pipe. -/
structure Connected (s : ProcessStartup) (t₀ : Table φ) (u : FdTab φ) : Prop where
  isOpen : ∀ x, x = 0 ∨ x = 1 ∨ x = 2 → u.file x ≠ none
  stdin : u.file 0 = streamFile t₀ 0 s.inheritStdin s.stdin (.pipe .stdin .read)
  stdout : u.file 1 = streamFile t₀ 1 s.inheritStdout s.stdout (.pipe .stdout .write)
  stderr : u.file 2 = if s.mergeOutputs then u.file 1
    else streamFile t₀ 2 s.inheritStderr s.stderr (.pipe .stderr .write)

/-! ## From the stream setup to `exec` -/

section

variable {S : Setup φ} {t₀ : Table φ} {t u : FdTab φ}

theorem childExec_atExec (S : Setup φ) (t : FdTab φ) :
    childExec S.kernel.child S.startup S.pipes S.pfail t = (atExec S t).map Table.exec := rfl

theorem atExec_file (h : atExec S t = some u) {x : Fd} (hx : x < 3) :
    u.file x = (childStreams S.startup S.pipes S.pfail t).file x := by
  obtain ⟨d, hd, rfl⟩ := Option.map_eq_some_iff.mp h
  have hr : InRange S.pfail.wr := Table.inRange _ _ (by rw [hd]; simp)
  have hlow : (childSetup S.kernel.child S.startup S.pipes S.pfail t).get x =
      (childStreams S.startup S.pipes S.pfail t).get x := closeAllDescriptors_spares _ _ (.inl hx)
  rw [file_put _ hr]
  split
  · rename_i hwr
    rw [Table.file, ← hlow, hwr, hd]
    rfl
  · rw [Table.file, hlow]
    rfl

/-- Where the fail pipe's write end is open, or a stream was put at its number. -/
theorem atExec_reached (hopen : (childStreams S.startup S.pipes S.pfail t).get S.pfail.wr ≠ none) :
    ∃ u, atExec S t = some u := by
  obtain ⟨d, hd⟩ := Option.ne_none_iff_exists'.mp hopen
  have hspared : (childSetup S.kernel.child S.startup S.pipes S.pfail t).get S.pfail.wr = some d :=
    (closeAllDescriptors_spares _ _ (.inr rfl)).trans hd
  unfold atExec Table.setCloexec
  rw [hspared]
  exact ⟨_, rfl⟩

/-! ## The near ends -/

theorem closeNearEnds_closes (s : ProcessStartup) (p : Pipes) (u : FdTab φ) {x : Fd}
    (hx : s.inheritStdin = false ∧ x = p.pstdin.rd ∨ s.inheritStdout = false ∧ x = p.pstdout.wr ∨
      (s.mergeOutputs || s.inheritStderr) = false ∧ x = p.pstderr.wr) : (closeNearEnds s p u).get x = none := by
  rw [closeNearEnds]
  simp only [get_closeFd_if]
  rcases hx with ⟨hi, rfl⟩ | ⟨hi, rfl⟩ | ⟨hi, rfl⟩
  · simp [hi]
  · simp [hi]
  · rw [Bool.or_eq_false_iff] at hi
    simp [hi.1, hi.2]

theorem childStreams_stderrRead {s : ProcessStartup} {p : Pipes} (pfail : Fds) (t : FdTab φ) (hp : piped s .stderr = true)
    (hx : p.pstderr.rd = 0 ∨ p.pstderr.rd = 1) : (childStreams s p pfail t).get p.pstderr.rd = none := by
  have hne : p.pstderr.rd ≠ 2 := by rcases hx with h | h <;> rw [h] <;> decide
  have hclosed := (get_setupStderr_ne s p (setupStdout s p (setupStdin s p (closeFarEnds s p pfail t))) hne).trans
    (if_pos ⟨hp, rfl⟩)
  rw [childStreams, closeNearEnds]
  simp only [get_closeFd_if, hclosed, ite_self]

theorem lt_three_cases {t : FdTab φ} {x : Fd} (hopen : t.file x ≠ none) (hx : ¬ 3 ≤ x) : x = 0 ∨ x = 1 ∨ x = 2 := by
  have hr := (t.inRange x (file_ne_none.mp hopen)).1
  have hcases : ∀ y : Int, 0 ≤ y → ¬ 3 ≤ y → y = 0 ∨ y = 1 ∨ y = 2 := by
    intro y h0 h3
    omega
  exact hcases x hr hx

theorem Connected.near {n : PipeName} {skip : Bool} {r : RedirectInfo} (hc : Connected S.startup t₀ u)
    (h : atExec S t = some u) (hf : AtFork S.startup t₀ S.pipes S.pfail t) (hs : Slots skip r (pipeFds S.pipes S.pfail n))
    (hn : piped S.startup n = (!skip && !r.redirected)) (hskip : skip = false)
    (hopen : r.redirected = true → t₀.get r.target ≠ none) (e : PipeEnd)
    (hclosed : (childStreams S.startup S.pipes S.pfail t).get ((pipeFds S.pipes S.pfail n).at e) = none) :
    3 ≤ (pipeFds S.pipes S.pfail n).at e := by
  obtain ⟨f, -, hat, -⟩ := hf.source hs hn hskip hopen e
  by_contra hlow
  have hlt : (pipeFds S.pipes S.pfail n).at e < 3 := not_le.mp hlow
  have hstd := lt_three_cases (by rw [hat]; simp) hlow
  apply hc.isOpen _ hstd
  rw [atExec_file h hlt, Table.file, hclosed]
  rfl

theorem Connected.clear (hc : Connected S.startup t₀ u) (h : atExec S t = some u)
    (hf : AtFork S.startup t₀ S.pipes S.pfail t) (ho : TargetsOpen S.startup t₀) : Clear S.startup t₀ S.pipes where
  stdin hskip := hc.near (n := .stdin) h hf hf.stdin rfl hskip (ho.stdin hskip) .read
    (closeNearEnds_closes _ _ _ (.inl ⟨hskip, rfl⟩))
  stdout hskip := hc.near (n := .stdout) h hf hf.stdout rfl hskip (ho.stdout hskip) .write
    (closeNearEnds_closes _ _ _ (.inr (.inl ⟨hskip, rfl⟩)))
  stderr hskip := hc.near (n := .stderr) h hf hf.stderr rfl hskip (ho.stderr hskip) .write
    (closeNearEnds_closes _ _ _ (.inr (.inr ⟨hskip, rfl⟩)))
  inheritedStdin hi hnone := by
    apply hc.isOpen 0 (.inl rfl)
    rw [hc.stdin, hi, streamFile, if_pos rfl, Table.file, hnone]
    rfl
  inheritedStdout hi hnone := by
    apply hc.isOpen 1 (.inr (.inl rfl))
    rw [hc.stdout, hi, streamFile, if_pos rfl, Table.file, hnone]
    rfl
  inheritedStderr hm hi hnone := by
    apply hc.isOpen 2 (.inr (.inr rfl))
    rw [hc.stderr, hm, hi, if_neg (by decide), streamFile, if_pos rfl, Table.file, hnone]
    rfl
  stderrRead hp := by
    have hread : ∀ x : Fd, x = 0 ∨ x = 1 → S.pipes.pstderr.rd ≠ x := by
      intro x hx heq
      have hx3 : x < 3 := by rcases hx with rfl | rfl <;> decide
      apply hc.isOpen x (by rcases hx with rfl | rfl <;> simp)
      have hclosed := childStreams_stderrRead S.pfail t hp (heq ▸ hx)
      rw [atExec_file h hx3, Table.file, ← heq, hclosed]
      rfl
    exact ⟨hread 0 (.inl rfl), hread 1 (.inr rfl)⟩

theorem Clear.connected (hc : Clear S.startup t₀ S.pipes) (hf : AtFork S.startup t₀ S.pipes S.pfail t)
    (ho : TargetsOpen S.startup t₀) : ∃ u, atExec S t = some u ∧ Connected S.startup t₀ u := by
  obtain ⟨d₀, hget₀, hd₀⟩ := hf.stdin_setUp ho hc
  obtain ⟨d₁, hget₁, hd₁⟩ := hf.stdout_setUp ho hc
  obtain ⟨d₂, hget₂, hd₂⟩ : ∃ d, (childStreams S.startup S.pipes S.pfail t).get 2 = some d ∧
      some d.file = if S.startup.mergeOutputs then some d₁.file
        else streamFile t₀ 2 S.startup.inheritStderr S.startup.stderr (.pipe .stderr .write) := by
    cases hm : S.startup.mergeOutputs with
    | true => exact ⟨_, hc.stderr_merged hm hget₁, rfl⟩
    | false =>
      obtain ⟨d, hget, hd⟩ := hf.stderr_setUp ho hc hm
      exact ⟨d, hget, hd.file.symm⟩
  have hwr : (childStreams S.startup S.pipes S.pfail t).get S.pfail.wr ≠ none := by
    by_cases h3 : 3 ≤ S.pfail.wr
    · exact hf.failWr_open ho h3
    · have hend : t.file S.pfail.wr = some (.pipe .fail .write) := hf.made.ends .fail .write rfl
      rcases lt_three_cases (by rw [hend]; simp) h3 with h | h | h
      · rw [h, hget₀]
        simp
      · rw [h, hget₁]
        simp
      · rw [h, hget₂]
        simp
  obtain ⟨u, hu⟩ := atExec_reached hwr
  have hfile₀ : u.file 0 = some d₀.file := by rw [atExec_file hu (by decide), Table.file, hget₀]; rfl
  have hfile₁ : u.file 1 = some d₁.file := by rw [atExec_file hu (by decide), Table.file, hget₁]; rfl
  have hfile₂ : u.file 2 = some d₂.file := by rw [atExec_file hu (by decide), Table.file, hget₂]; rfl
  refine ⟨u, hu, ?_, hfile₀.trans hd₀.file.symm, hfile₁.trans hd₁.file.symm, ?_⟩
  · intro x hx
    rcases hx with rfl | rfl | rfl
    · rw [hfile₀]
      simp
    · rw [hfile₁]
      simp
    · rw [hfile₂]
      simp
  · rw [hfile₂, hfile₁, hd₂]

end

/-- For every fork of a start whose targets in effect are open in the parent: the child gets
    to `exec` with every stream open and connected as configured exactly when the streams'
    numbers are clear of each other. -/
theorem targets_connected_iff (S : Setup φ) (t₀ : Table φ) (t : FdTab φ) (hfork : Forks S t₀ t)
    (hopen : TargetsOpen S.startup t₀) :
    (∃ u, atExec S t = some u ∧ Connected S.startup t₀ u) ↔ Clear S.startup t₀ S.pipes := by
  constructor
  · intro h
    obtain ⟨u, hu, hc⟩ := h
    exact hc.clear hu hfork.atFork hopen
  · intro hc
    exact hc.connected hfork.atFork hopen

/-- stdin and the merged outputs at one target, of a parent without 0 and 1. -/
def shared : Setup Nat where
  kernel := plainKernel
  startup := { stdin := ⟨5⟩, stdout := ⟨5⟩, mergeOutputs := true }
  pipes := ⟨⟨5, 5⟩, ⟨5, 5⟩, {}⟩
  pfail := ⟨7, 6⟩
  pid := 100
  errno := 0

theorem targets_connected_iff_shared :
    ∃ u, (∃ t, atExec shared t = some u) ∧ Connected shared.startup ((empty : Table Nat).put 5 ⟨15, true⟩) u := by
  have hfork : Forks shared ((empty : Table Nat).put 5 ⟨15, true⟩) _ := ⟨_, _, _, rfl, rfl, rfl, rfl⟩
  obtain ⟨u, hu, hc⟩ := (targets_connected_iff shared ((empty : Table Nat).put 5 ⟨15, true⟩) _ hfork
    ⟨by decide, by decide, by decide⟩).mpr
    ⟨fun _ => by decide, fun _ => by decide, fun h => absurd h (by decide), fun h => absurd h (by decide),
      fun h => absurd h (by decide), fun h => absurd h (by decide), fun h => absurd h (by decide)⟩
  exact ⟨u, ⟨_, hu⟩, hc⟩

/-- stderr at the parent's stdout, the other two inherited. -/
def stderrAtOne : Setup Nat where
  kernel := plainKernel
  startup := { stderr := ⟨1⟩, inheritStdin := true, inheritStdout := true }
  pipes := ⟨{}, {}, ⟨1, 1⟩⟩
  pfail := ⟨7, 6⟩
  pid := 100
  errno := 0

/-- The child gets to `exec` without a stdout. -/
theorem stderr_to_stdout :
    ∃ t u, Forks stderrAtOne (callerTable false) t ∧ TargetsOpen stderrAtOne.startup (callerTable false) ∧
      atExec stderrAtOne t = some u ∧ u.file 1 = none ∧ ¬ Connected stderrAtOne.startup (callerTable false) u := by
  refine ⟨_, _, ⟨_, _, _, rfl, rfl, rfl, rfl⟩, ⟨by decide, by decide, by decide⟩, rfl, rfl, ?_⟩
  intro hc
  exact hc.isOpen 1 (.inr (.inl rfl)) rfl

end CovProcess.Unix
