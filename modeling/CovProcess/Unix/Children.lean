/-
  CovProcess.Unix.Children — `create_process` (see `CovProcess.Unix.Spawn`) as the start of
  the system of `CovProcess.Handle.Holders`.

  A child whose exec failed is gone when the call throws; one whose answer could not be
  read may run all the same, and keeps its table.

  Proved: `spawns`, for a caller with 0, 1 and 2 open, targets above them, all of these its
  own, and a `close_range` that works; so `pipes_private`, over any run of starts that
  return or throw, closes and destructors of any number of handles, with the program and
  the children opening and closing on their own: an end of a pipe is where it belongs and
  nowhere else, and a pipe whose last holder is done with its end has nobody there.
-/

import CovProcess.Handle.Holders
import CovProcess.Unix.Rollback
import CovProcess.Unix.Plumbing

namespace CovProcess.Unix

open FdTable
open CovProcess.Holders

variable {φ : Type}

/-- What the child has open when the call is over. -/
def childTable (k : Kernel φ) (o : Outcome φ) : FdTab φ :=
  match k.reply with
  | .errno _ => empty
  | _ => o.child.getD empty

def spawn (c : Kernel (Obj φ) × ProcessStartup) (i : Nat) (t : Table (Obj φ)) : Spawned φ :=
  let o := createProcess c.1 c.2 t
  { info := o.result.toOption.getD {}
    child := (childTable c.1 o).map (nameFrom i)
    table := o.table.map (nameFrom i) }

/-- What a start takes of the caller and the system. -/
structure Ready (c : Kernel (Obj φ) × ProcessStartup) (t : Table (Obj φ)) : Prop where
  caller : CallerReady c.2 t
  own : ∀ x f, x = 0 ∨ x = 1 ∨ x = 2 ∨ x = c.2.stdin.target ∨ x = c.2.stdout.target ∨ x = c.2.stderr.target →
    t.file x = some f → f.isOwn = true
  closeRange : c.1.child.closeRange = (true, true)

/-! ## A start that threw -/

/-- All that a start which threw can have changed: redirect targets of stdin and stdout. -/
theorem failed_start_get {k : Kernel φ} {s : ProcessStartup} {t₀ : Table φ} {msg : String}
    (h : (createProcess k s t₀).result = .error msg) (x : Fd) :
    (createProcess k s t₀).table.get x = (t₀.map .old).get x ∨
      ((createProcess k s t₀).table.get x = none ∧ (x = s.stdin.target ∨ x = s.stdout.target)) := by
  cases hin : bindStdin k s (t₀.map .old) with
  | none =>
    rw [createProcess_noStdin hin]
    exact .inl rfl
  | some r =>
    obtain ⟨pstdin, t₁⟩ := r
    have bin := bind_spec hin
    cases hout : bindStdout k s t₁ with
    | none =>
      rw [createProcess_noStdout hin hout, bin.undo]
      split
      · rename_i hx
        exact .inr ⟨rfl, .inl hx.2.2⟩
      · exact .inl rfl
    | some r =>
      obtain ⟨pstdout, t₂⟩ := r
      have bout := bind_spec hout
      cases herr : bindStderr k s t₂ with
      | none =>
        rw [createProcess_noStderr hin hout herr, get_noStderr bin bout]
        split
        · rename_i hx
          exact .inr ⟨rfl, hx.imp (·.2.2) (·.2.2)⟩
        · exact .inl rfl
      | some r =>
        obtain ⟨pstderr, t₃⟩ := r
        let p : Pipes := ⟨pstdin, pstdout, pstderr⟩
        rw [createProcess_bound (p := p) hin hout herr] at h ⊢
        cases hres : (createProcessImpl k s p t₃).result with
        | ok info => simp [hres] at h
        | error msg' =>
          simp only [createProcessImpl_error hres]
          exact .inl (by rw [rollback_eq (p := p) bin bout (bind_spec herr)])

/-! ## The child -/

/-- A call with a child got to the fork, whatever it made of the answer. -/
theorem createProcess_child {k : Kernel φ} {s : ProcessStartup} {t₀ : Table φ} {c : FdTab φ}
    (h : (createProcess k s t₀).child = some c) :
    ∃ p pfail t, AtFork s t₀ p pfail t ∧ childExec k.child s p pfail t = some c := by
  cases hin : bindStdin k s (t₀.map .old) with
  | none => simp [createProcess_noStdin hin] at h
  | some r₁ =>
    obtain ⟨pstdin, t₁⟩ := r₁
    cases hout : bindStdout k s t₁ with
    | none => simp [createProcess_noStdout hin hout] at h
    | some r₂ =>
      obtain ⟨pstdout, t₂⟩ := r₂
      cases herr : bindStderr k s t₂ with
      | none => simp [createProcess_noStderr hin hout herr] at h
      | some r₃ =>
        obtain ⟨pstderr, t₃⟩ := r₃
        let p : Pipes := ⟨pstdin, pstdout, pstderr⟩
        have himpl : (createProcessImpl k s p t₃).child = some c := by
          rw [createProcess_bound (p := p) hin hout herr] at h
          cases hres : (createProcessImpl k s p t₃).result <;> simpa [hres] using h
        cases hf : createPipe k.failPipe .fail k.pipe2 t₃ with
        | none => simp [createProcessImpl, hf] at himpl
        | some r₄ =>
          obtain ⟨pfail, t₄⟩ := r₄
          refine ⟨p, pfail, t₄, atFork (bind_spec hin) (bind_spec hout) (bind_spec herr) (createPipe_spec hf), ?_⟩
          cases hfork : k.fork with
          | none => simp [createProcessImpl, hf, hfork] at himpl
          | some pid => simpa [createProcessImpl, hf, hfork] using himpl

/-- A file the child may have: its end of a pipe, or one of the caller's at 0, 1, 2 or a
    target. -/
def Given (s : ProcessStartup) (t₀ : Table φ) (f : OpenFile φ) : Prop :=
  (∃ n e, childEnd n = some e ∧ f = .pipe n e) ∨
    ∃ x g, (x = 0 ∨ x = 1 ∨ x = 2 ∨ x = s.stdin.target ∨ x = s.stdout.target ∨ x = s.stderr.target) ∧
      t₀.file x = some g ∧ f = .old g

theorem streamFile_given {s : ProcessStartup} {t₀ : Table φ} {dst : Fd} {inherit : Bool} {r : RedirectInfo}
    {n : PipeName} {e : PipeEnd} {f : OpenFile φ} (hdst : dst = 0 ∨ dst = 1 ∨ dst = 2)
    (hr : r = s.stdin ∨ r = s.stdout ∨ r = s.stderr) (he : childEnd n = some e)
    (h : streamFile t₀ dst inherit r (.pipe n e) = some f) : Given s t₀ f := by
  have hold : ∀ x, (x = 0 ∨ x = 1 ∨ x = 2 ∨ x = s.stdin.target ∨ x = s.stdout.target ∨ x = s.stderr.target) →
      (t₀.file x).map OpenFile.old = some f → Given s t₀ f := by
    intro x hx hf
    obtain ⟨g, hg, rfl⟩ := Option.map_eq_some_iff.mp hf
    exact .inr ⟨x, g, hx, hg, rfl⟩
  unfold streamFile boundFile at h
  split at h
  · refine hold dst ?_ h
    rcases hdst with rfl | rfl | rfl <;> simp
  · split at h
    · refine hold r.target ?_ h
      rcases hr with rfl | rfl | rfl <;> simp
    · cases h
      exact .inl ⟨n, e, he, rfl⟩

theorem AtFork.childStreams_given {s : ProcessStartup} {t₀ : Table φ} {p : Pipes} {pfail : Fds} {t : FdTab φ}
    (hf : AtFork s t₀ p pfail t) (hc : CallerReady s t₀) {x : Fd} (hx : x = 0 ∨ x = 1 ∨ x = 2) :
    ∃ d, (childStreams s p pfail t).get x = some d ∧ Given s t₀ d.file := by
  have ho := hc.targetsOpen
  have hcl := hf.clear hc
  obtain ⟨d₁, hget₁, hd₁⟩ := hf.stdout_setUp ho hcl
  have hgiven₁ : Given s t₀ d₁.file := streamFile_given (by simp) (by simp) rfl hd₁.file
  rcases hx with rfl | rfl | rfl
  · obtain ⟨d, hget, hd⟩ := hf.stdin_setUp ho hcl
    exact ⟨d, hget, streamFile_given (by simp) (by simp) rfl hd.file⟩
  · exact ⟨d₁, hget₁, hgiven₁⟩
  · cases hm : s.mergeOutputs with
    | true => exact ⟨_, hcl.stderr_merged hm hget₁, hgiven₁⟩
    | false =>
      obtain ⟨d, hget, hd⟩ := hf.stderr_setUp ho hcl hm
      exact ⟨d, hget, streamFile_given (by simp) (by simp) rfl hd.file⟩

/-- The child's program starts with files it was given, and no other. -/
theorem AtFork.childExec_given {sys : CloseSys} {s : ProcessStartup} {t₀ : Table φ} {p : Pipes} {pfail : Fds}
    {t c : FdTab φ} (hf : AtFork s t₀ p pfail t) (hc : CallerReady s t₀) (hsys : sys.closeRange = (true, true))
    (h : childExec sys s p pfail t = some c) : c.Confined fun _ => Given s t₀ := by
  obtain ⟨u, hu, rfl⟩ := Option.map_eq_some_iff.mp h
  obtain ⟨d, hd, rfl⟩ := Option.map_eq_some_iff.mp hu
  have hr : InRange pfail.wr := (childSetup sys s p pfail t).inRange _ (by simp [hd])
  intro x f hx
  obtain ⟨d', hd', rfl⟩ := Option.map_eq_some_iff.mp hx
  obtain ⟨hget, hkeep⟩ := Option.filter_eq_some_iff.mp hd'
  rw [get_put _ hr] at hget
  split at hget
  · -- the fail pipe is close-on-exec
    cases hget
    cases hkeep
  rename_i hne
  have hnonneg := ((childSetup sys s p pfail t).inRange x (by simp [hget])).1
  by_cases hlow : x < 3
  · rw [childSetup, closeAllDescriptors_spares sys _ (Or.inl hlow)] at hget
    have hstd : ∀ y : Int, 0 ≤ y → y < 3 → y = 0 ∨ y = 1 ∨ y = 2 := by
      intro y _ _
      omega
    obtain ⟨d₀, hd₀, hgiven⟩ := hf.childStreams_given hc (hstd x hnonneg hlow)
    rw [hget] at hd₀
    cases hd₀
    exact hgiven
  · rw [childSetup, closeAllDescriptors_closes hsys _ (not_lt.mp hlow) hne] at hget
    cases hget

/-! ## The start of the system -/

theorem ready_child {c : Kernel (Obj φ) × ProcessStartup} {t : Table (Obj φ)} (hr : Ready c t) (i : Nat) :
    ((childTable c.1 (createProcess c.1 c.2 t)).map (nameFrom i)).Confined fun _ => ForChild i := by
  refine Table.Confined.map ?_
  have hgiven : (childTable c.1 (createProcess c.1 c.2 t)).Confined fun _ => Given c.2 t := by
    unfold childTable
    split
    · exact confined_empty _
    · cases hch : (createProcess c.1 c.2 t).child with
      | none => exact confined_empty _
      | some u =>
        obtain ⟨p, pfail, v, hf, hexec⟩ := createProcess_child hch
        exact hf.childExec_given hr.caller hr.closeRange hexec
  refine hgiven.mono ?_
  intro _ f hcase
  rcases hcase with ⟨n, e, he, rfl⟩ | ⟨x, g, hx, hg, rfl⟩
  · exact ⟨rfl, he⟩
  · have hown := hr.own x g hx hg
    cases g with
    | own g => trivial
    | pipe | process | thread => cases hown

theorem nameFrom_end {i : Nat} {hasPipe : Bool} {n : PipeName} {e : PipeEnd} {t₀ : Table (Obj φ)} {t : FdTab (Obj φ)}
    {fd : Fd} (h : ParentEnd hasPipe (.pipe n e) t₀ t fd) (hfd : fd ≠ FD_INVALID) :
    t₀.get fd = none ∧ (t.map (nameFrom i)).file fd = some (.pipe i n e) := by
  unfold ParentEnd at h
  split at h
  · refine ⟨h.1, ?_⟩
    rw [file_map, h.2]
    rfl
  · exact absurd h hfd

theorem spawns : Spawns .unix (spawn (φ := φ)) (fun _ => True) Ready where
  starts c i t _ hr := by
    have hchild := ready_child hr i
    cases hres : (createProcess c.1 c.2 t).result with
    | error msg =>
      have hinfo : (spawn c i t).info = {} := by simp [spawn, hres, Except.toOption]
      refine ⟨?_, ?_, ?_, hchild⟩
      · intro x hx
        rcases failed_start_get hres x with heq | ⟨hnone, htarget⟩
        · exact .inl (file_named (congrArg (Option.map Desc.file) heq))
        · obtain ⟨d, hd⟩ := Option.ne_none_iff_exists'.mp hx
          have hfile : t.file x = some d.file := by
            rw [Table.file, hd]
            rfl
          have hown := hr.own x d.file (by rcases htarget with h | h <;> simp [h]) hfile
          refine .inr ⟨by simp [spawn, Table.file, hnone], ?_⟩
          cases hf : d.file with
          | own f => exact ⟨f, hf ▸ hfile⟩
          | pipe | process | thread => simp [hf, Obj.isOwn] at hown
      · intro a _ hfd
        rw [hinfo] at hfd
        cases a <;> exact absurd rfl hfd
      · intro x hx hx'
        refine absurd ?_ hx'
        simp only [spawn, get_map]
        rcases failed_start_get hres x with heq | ⟨hnone, -⟩
        · rw [heq]
          simp [hx]
        · rw [hnone]
          rfl
    | ok info =>
      obtain ⟨p, pfail, u, pid, hf, -, hparent, hrep⟩ := createProcess_ok hres
      have hps := parent_streams hf hrep hparent
      have hinfo : (spawn c i t).info = info := by simp [spawn, hres, Except.toOption]
      refine ⟨?_, ?_, ?_, hchild⟩
      · intro x hx
        exact .inl (file_named (congrArg (Option.map Desc.file) (hps.kept x hx)))
      · intro a ha hfd
        rw [hinfo] at hfd ⊢
        cases a with
        | pid | tid => simp [Holders.slots] at ha
        | stdin => exact nameFrom_end hps.stdin hfd
        | stdout => exact nameFrom_end hps.stdout hfd
        | stderr => exact nameFrom_end hps.stderr hfd
      · intro x hx hx'
        have hopen : (createProcess c.1 c.2 t).table.get x ≠ none := by
          intro hnone
          exact hx' (by simp [spawn, hnone])
        rw [hinfo]
        rcases hps.gained x hx hopen with ⟨-, h⟩ | ⟨-, h⟩ | ⟨-, h⟩
        · exact ⟨.stdin, by simp [Holders.slots], h.symm⟩
        · exact ⟨.stdout, by simp [Holders.slots], h.symm⟩
        · exact ⟨.stderr, by simp [Holders.slots], h.symm⟩
  keeps _ _ _ _ _ := trivial
  opens _ _ _ _ _ := trivial
  closes _ _ _ := trivial

/-- Over any run of starts, closes and destructors, each start with 0, 1, 2 and its redirect
    targets open, these the program's own, and `close_range` at work (`Ready`), whatever the
    program and the children do with their own files: every open end of a pipe is in the slot of its handle, or with the
    child it is for. Once the slot is closed nobody has that end, and once the child is done
    with its end nobody has it either. -/
theorem pipes_private (t : Table φ) (es : List (Holders.Event (Kernel (Obj φ) × ProcessStartup) φ)) (s : System φ)
    (hm : Runs.Meets (Holders.step .unix spawn) (StartsReady Ready) (System.init t) es)
    (h : Runs.exec (Holders.step .unix spawn) (System.init t) es = some s) :
    Holds .unix s ∧ ∀ i hd, s.handles[i]? = some hd →
      (∀ a ∈ slots .unix, a.fd hd.info = FD_INVALID → ¬ s.Held (a.obj i)) ∧
      ∀ p e, childEnd p = some e → ¬ hd.child.Holds (.pipe i p e) → ¬ s.Held (.pipe i p e) := by
  obtain ⟨hs, -⟩ := holders_run spawns trivial hm h
  refine ⟨hs, ?_⟩
  intro i hd hi
  exact ⟨fun a _ hfd => hs.parent_end hi hfd, fun p e he hc => hs.child_end hi he hc⟩

/-- A kernel that gives the numbers named, in the order stdin, stdout, fail pipe. -/
def kernelAt (pstdin pstdout pfail : PipeAlloc (OpenFile (Obj Nat))) (pid : Nat) : Kernel (Obj Nat) where
  stdinPipe := pstdin
  stdoutPipe := pstdout
  stderrPipe := .fails
  failPipe := pfail
  pipe2 := true
  fork := some pid
  reply := .eof
  startTime := 0
  strerror := fun _ => ""
  child := ⟨(true, true), 1024⟩

/-- Two children; the second gets its stdin pipe at a number the first start used. -/
def twoStarts : List (Holders.Event (Kernel (Obj Nat) × ProcessStartup) Nat) :=
  [.start (kernelAt (.named 3 4) (.named 9 10)
      (.named 7 8) 100, { mergeOutputs := true }),
    .start (kernelAt (.named 3 6) .fails
      (.named 7 8) 101, { inheritStdout := true, inheritStderr := true }),
    .closeStdin 0, .childExit 1]

theorem pipes_private_two : ∃ s : System Nat,
    Runs.exec (Holders.step .unix spawn) (System.init (callerTable false)) twoStarts = some s ∧
      Holds .unix s ∧ ¬ s.Held (.pipe 0 .stdin .write) ∧ ¬ s.Held (.pipe 1 .stdin .read) := by
  have hready : Runs.Meets (Holders.step .unix spawn) (StartsReady Ready) (System.init (callerTable false)) twoStarts := by
    refine ⟨⟨⟨?_, ?_⟩, ?_, rfl⟩, ?_⟩
    · intro x hcase
      rcases hcase with rfl | rfl | rfl <;> exact Option.some_ne_none _
    · intro r hcase hr
      rcases hcase with rfl | rfl | rfl <;> cases hr
    · intro x f hcase hf
      rcases hcase with rfl | rfl | rfl | rfl | rfl | rfl <;> cases hf <;> rfl
    intro s' hs'
    cases hs'
    refine ⟨⟨⟨?_, ?_⟩, ?_, rfl⟩, ?_⟩
    · intro x hcase
      rcases hcase with rfl | rfl | rfl <;> exact Option.some_ne_none _
    · intro r hcase hr
      rcases hcase with rfl | rfl | rfl <;> cases hr
    · intro x f hcase hf
      rcases hcase with rfl | rfl | rfl | rfl | rfl | rfl <;> cases hf <;> rfl
    exact fun s' hs' => ⟨trivial, fun _ _ => ⟨trivial, fun _ _ => trivial⟩⟩
  obtain ⟨hs, hall⟩ := pipes_private (callerTable false) twoStarts _ hready rfl
  refine ⟨_, rfl, hs, ?_, ?_⟩
  · exact (hall 0 _ rfl).1 .stdin (by decide) rfl
  · refine (hall 1 _ rfl).2 .stdin .read rfl ?_
    intro hex
    obtain ⟨x, hx⟩ := hex
    cases hx

end CovProcess.Unix
