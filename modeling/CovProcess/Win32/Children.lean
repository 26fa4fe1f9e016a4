/-
  CovProcess.Win32.Children — `create_process` (see `CovProcess.Win32.Spawn`) as the start of
  the system of `CovProcess.Handle.Holders`.

  A child inherits every handle of the program that is inheritable when it starts, whoever
  it was made for. So a start relies on all the starts before it: none may have left an end
  of a pipe inheritable (`Shielded`), which each start keeps for the next.

  Proved: `spawns`, for starts that redirect to handles of the program's own and inherit
  only such; so `handles_private`, the counterpart of `Unix.pipes_private`, with the process
  and thread handles.
-/

import CovProcess.Handle.Holders
import CovProcess.Win32.Inherit

namespace CovProcess.Win32

open FdTable
open CovProcess.Holders
open CovProcess.Unix (OpenFile FdTab PipeName PipeEnd)

variable {φ : Type}

def spawn (c : Kernel (Obj φ) × ProcessStartup) (i : Nat) (t : Table (Obj φ)) : Spawned φ :=
  let o := createProcess { c.1 with process := .process i, thread := .thread i } c.2 t
  { info := o.result.toOption.getD {}
    child := ((o.child.map Launch.handles).getD empty).map (nameFrom i)
    table := o.table.map (nameFrom i) }

/-- What is redirected to, or inherited, is an open file of the program's own. -/
structure Ready (c : Kernel (Obj φ) × ProcessStartup) (t : Table (Obj φ)) : Prop where
  chosen : ChosenOpen c.1 c.2 t
  own : ∀ x f, Chosen c.1 c.2 x → t.file x = some f → f.isOwn = true

/-- Only the program's own files are inheritable. -/
def Shielded (t : Table (Obj φ)) : Prop := ∀ x d, t.get x = some d → d.file.isOwn = true ∨ d.cloexec = true

section

variable {k : Kernel φ} {s : ProcessStartup} {t₀ : Table φ}

/-! ## A start that threw -/

theorem launch_child {p : Unix.Pipes} {std : StdHandles} {t : FdTab φ} {c : Launch φ}
    (h : (launch k s p std t).child = some c) : ∃ info, (launch k s p std t).result = .ok info := by
  unfold launch at h ⊢
  cases henv : envBlock k.env k.sizeBits k.parentEnv s with
  | error m => simp [henv] at h
  | ok env =>
    cases hpick : k.processHandles.pick t with
    | none => simp [henv, hpick] at h
    | some r => exact ⟨_, rfl⟩

theorem createProcessImpl_child {p : Unix.Pipes} {t : FdTab φ} {c : Launch φ}
    (h : (createProcessImpl k s p t).child = some c) : ∃ info, (createProcessImpl k s p t).result = .ok info := by
  unfold createProcessImpl at h ⊢
  cases h₁ : setupStdin k s p t with
  | error m => simp [h₁] at h
  | ok r₁ =>
    cases h₂ : setupStdout k s p r₁.2 with
    | error m => simp [h₁, h₂] at h
    | ok r₂ =>
      cases h₃ : setupStderr k s p r₂.1 r₂.2 with
      | error m => simp [h₁, h₂, h₃] at h
      | ok r₃ =>
        simp only [h₁, h₂, h₃] at h ⊢
        exact launch_child h

theorem createProcess_child {c : Launch φ} (h : (createProcess k s t₀).child = some c) :
    ∃ info, (createProcess k s t₀).result = .ok info := by
  cases hin : bindStdin k s (t₀.map .old) with
  | none => simp [createProcess_noStdin hin] at h
  | some r₁ =>
    obtain ⟨pstdin, t₁⟩ := r₁
    cases hout : bindStdout k s t₁ with
    | none => simp [createProcess_noStdout hin hout] at h
    | some r₂ =>
      obtain ⟨pstdout, t₂⟩ := r₂
      cases herr : bindStderr k s t₂ with
      | none => simp [createProcess_noStderr hin hout herr] at h
      | some r₃ =>
        obtain ⟨pstderr, t₃⟩ := r₃
        let p : Unix.Pipes := ⟨pstdin, pstdout, pstderr⟩
        rw [createProcess_bound (p := p) hin hout herr] at h ⊢
        cases hres : (createProcessImpl k s p t₃).result with
        | ok info => exact ⟨info, hres⟩
        | error m =>
          simp only [hres] at h
          obtain ⟨info, hok⟩ := createProcessImpl_child h
          rw [hres] at hok
          cases hok

/-- All that a start which threw can have changed: what it chose is closed, or inheritable. -/
theorem throw_get {msg : String} (h : (createProcess k s t₀).result = .error msg) (x : Fd) :
    (∀ d, t₀.get x = some d → (∃ c, (createProcess k s t₀).table.get x = some ⟨.old d.file, c⟩ ∧
        (c = d.cloexec ∨ (c = false ∧ Chosen k s x))) ∨
      ((createProcess k s t₀).table.get x = none ∧ Chosen k s x)) ∧
    (t₀.get x = none → (createProcess k s t₀).table.get x = none) := by
  by_cases hl : LosesTarget k s t₀
  · have hlost : ∀ {t : FdTab φ} {P : Prop} [Decidable P], (P → Chosen k s x) →
        t.get x = (if P then none else (t₀.map .old).get x) →
        (∀ d, t₀.get x = some d → (∃ c, t.get x = some ⟨.old d.file, c⟩ ∧ (c = d.cloexec ∨ (c = false ∧ Chosen k s x))) ∨
          (t.get x = none ∧ Chosen k s x)) ∧ (t₀.get x = none → t.get x = none) := by
      intro t P _ hP hget
      rw [hget]
      constructor
      · intro d hd
        split
        · exact .inr ⟨rfl, hP ‹_›⟩
        · exact .inl ⟨d.cloexec, by simp [hd], .inl rfl⟩
      · intro hx
        simp [hx]
    have hin : ∀ {b : Bool} {r : RedirectInfo} {std : Fd}, b = false ∧ r.redirected = true ∧ x = r.target →
        ChosenBy b r std x := by
      intro b r std hex
      obtain ⟨rfl, hr, hx⟩ := hex
      exact ⟨hr, hx⟩
    obtain ⟨-, pstdin, t₁, h₁, ⟨h₂, -⟩ | ⟨pstdout, t₂, h₂, h₃, -⟩⟩ := hl
    · rw [createProcess_noStdout h₁ h₂]
      exact hlost (fun hx => .inl (hin hx)) ((Unix.bind_spec h₁).undo x)
    · rw [createProcess_noStderr h₁ h₂ h₃]
      exact hlost (fun hx => hx.elim (fun hx => .inl (hin hx)) fun hx => .inr (.inl (hin hx)))
        (Unix.get_noStderr (Unix.bind_spec h₁) (Unix.bind_spec h₂) x)
  · have hres := throw_restores hl h
    exact ⟨fun d hd => .inl (hres.kept x d hd), hres.gone x⟩

end

/-! ## The start of the system -/

abbrev kernelOf (c : Kernel (Obj φ) × ProcessStartup) (i : Nat) : Kernel (Obj φ) :=
  { c.1 with process := .process i, thread := .thread i }

theorem pipesMade_childEnd {s : ProcessStartup} {n : PipeName} (h : pipesMade s n = true) :
    childEnd n = some (nearEnd n) := by
  cases n with
  | fail => cases h
  | _ => rfl

theorem ready_child {c : Kernel (Obj φ) × ProcessStartup} {i : Nat} {t : Table (Obj φ)} (hr : Ready c t) (hJ : Shielded t) :
    (spawn c i t).child.Confined fun _ => ForChild i := by
  refine Table.Confined.map ?_
  cases hch : (createProcess (kernelOf c i) c.2 t).child with
  | none => exact confined_empty _
  | some l =>
    obtain ⟨info, hok⟩ := createProcess_child hch
    obtain ⟨l', hl', hchild, -⟩ := start_handles (kernelOf c i) c.2 t info hr.chosen hok
    rw [hch] at hl'
    cases hl'
    intro x f hx
    rcases hchild.only x f hx with ⟨n, hn, rfl⟩ | ⟨d, hd, rfl, hplain⟩
    · exact ⟨rfl, pipesMade_childEnd hn⟩
    · have hown : d.file.isOwn = true := by
        rcases hplain with hplain | hC
        · refine (hJ x d hd).resolve_right ?_
          rw [hplain]
          exact Bool.false_ne_true
        · exact hr.own x d.file hC (by rw [Table.file, hd]; rfl)
      show ForChild i d.file
      cases hf : d.file with
      | own f => trivial
      | pipe | process | thread => simp [hf, Obj.isOwn] at hown

theorem own_file {f : Obj φ} (h : f.isOwn = true) : ∃ g, f = .own g := by
  cases f with
  | own g => exact ⟨g, rfl⟩
  | pipe | process | thread => cases h

theorem named_end {i : Nat} {has : Bool} {f : OpenFile (Obj φ)} {g : Obj φ} {t₀ : Table (Obj φ)} {t : FdTab (Obj φ)}
    {fd : Fd} (h : ParentHandle has f t₀ t fd) (hg : nameFrom i f = g) (hfd : fd ≠ FD_INVALID) :
    t₀.get fd = none ∧ (t.map (nameFrom i)).file fd = some g := by
  unfold ParentHandle at h
  split at h
  · refine ⟨h.1, ?_⟩
    rw [file_map, Table.file, h.2, ← hg]
    rfl
  · exact absurd h hfd

theorem spawns : Spawns .win32 (spawn (φ := φ)) Shielded Ready where
  starts c i t hJ hr := by
    have hchild := ready_child (i := i) hr hJ
    cases hres : (createProcess (kernelOf c i) c.2 t).result with
    | error msg =>
      have hinfo : (spawn c i t).info = {} := by simp [spawn, hres, Except.toOption]
      refine ⟨?_, ?_, ?_, hchild⟩
      · intro x hx
        obtain ⟨d, hd⟩ := Option.ne_none_iff_exists'.mp hx
        rcases (throw_get hres x).1 d hd with ⟨c', hget, -⟩ | ⟨hnone, hC⟩
        · refine .inl (file_named ?_)
          simp [Table.file, hget, hd]
        · have hfile : t.file x = some d.file := by
            rw [Table.file, hd]
            rfl
          obtain ⟨g, hg⟩ := own_file (hr.own x d.file hC hfile)
          exact .inr ⟨by simp [spawn, Table.file, hnone], g, hg ▸ hfile⟩
      · intro a _ hfd
        rw [hinfo] at hfd
        cases a <;> exact absurd rfl hfd
      · intro x hx hx'
        refine absurd ?_ hx'
        simp [spawn, (throw_get hres x).2 hx]
    | ok info =>
      obtain ⟨l, hl, -, hp⟩ := start_handles (kernelOf c i) c.2 t info hr.chosen hres
      have hinfo : (spawn c i t).info = info := by simp [spawn, hres, Except.toOption]
      refine ⟨?_, ?_, ?_, hchild⟩
      · intro x hx
        obtain ⟨d, hd⟩ := Option.ne_none_iff_exists'.mp hx
        obtain ⟨c', hget, -⟩ := hp.kept x d hd
        refine .inl (file_named ?_)
        simp [Table.file, hget, hd]
      · intro a _ hfd
        rw [hinfo] at hfd ⊢
        cases a with
        | pid => exact named_end hp.process rfl hfd
        | tid => exact named_end hp.thread rfl hfd
        | stdin => exact named_end hp.stdin rfl hfd
        | stdout => exact named_end hp.stdout rfl hfd
        | stderr => exact named_end hp.stderr rfl hfd
      · intro x hx hx'
        have hopen : (createProcess (kernelOf c i) c.2 t).table.get x ≠ none := by
          intro hnone
          exact hx' (by simp [spawn, hnone])
        rw [hinfo]
        rcases hp.gained x hx hopen with h | h | ⟨-, h⟩ | ⟨-, h⟩ | ⟨-, h⟩
        · exact ⟨.pid, by simp [slots], h.symm⟩
        · exact ⟨.tid, by simp [slots], h.symm⟩
        · exact ⟨.stdin, by simp [slots], h.symm⟩
        · exact ⟨.stdout, by simp [slots], h.symm⟩
        · exact ⟨.stderr, by simp [slots], h.symm⟩
  keeps c i t hJ hr := by
    intro x d' hx
    obtain ⟨d, hd, rfl⟩ := Option.map_eq_some_iff.mp hx
    -- an old handle: its flag was cleared only if it was chosen
    have hold : ∀ {d₀ : Desc (Obj φ)} {b : Bool}, t.get x = some d₀ → d = ⟨.old d₀.file, b⟩ →
        (b = d₀.cloexec ∨ (b = false ∧ Chosen c.1 c.2 x)) → (nameFrom i d.file).isOwn = true ∨ d.cloexec = true := by
      intro d₀ b hd₀ heq hcase
      subst heq
      rcases hcase with rfl | ⟨-, hC⟩
      · exact hJ x d₀ hd₀
      · exact .inl (hr.own x d₀.file hC (by rw [Table.file, hd₀]; rfl))
    cases hres : (createProcess (kernelOf c i) c.2 t).result with
    | error msg =>
      cases hx₀ : t.get x with
      | none =>
        rw [(throw_get hres x).2 hx₀] at hd
        cases hd
      | some d₀ =>
        rcases (throw_get hres x).1 d₀ hx₀ with ⟨b, hget, hb⟩ | ⟨hnone, -⟩
        · rw [hget] at hd
          cases hd
          exact hold hx₀ rfl hb
        · rw [hnone] at hd
          cases hd
    | ok info =>
      obtain ⟨l, hl, -, hp⟩ := start_handles (kernelOf c i) c.2 t info hr.chosen hres
      cases hx₀ : t.get x with
      | some d₀ =>
        obtain ⟨b, hget, hC, hnC⟩ := hp.kept x d₀ hx₀
        rw [hget] at hd
        cases hd
        refine hold hx₀ rfl ?_
        by_cases hch : Chosen c.1 c.2 x
        · exact .inr ⟨hC hch, hch⟩
        · exact .inl (hnC hch)
      | none =>
        -- a new handle is not inheritable
        have hnew : ∀ {has : Bool} {f : OpenFile (Obj φ)} {fd : Fd}, has = true → x = fd →
            ParentHandle has f t (createProcess (kernelOf c i) c.2 t).table fd → d.cloexec = true := by
          intro has f fd heq heq' h
          subst heq
          subst heq'
          rw [h.2] at hd
          cases hd
          rfl
        right
        rcases hp.gained x hx₀ (by simp [hd]) with h | h | ⟨hn, h⟩ | ⟨hn, h⟩ | ⟨hn, h⟩
        · exact hnew rfl h hp.process
        · exact hnew rfl h hp.thread
        · exact hnew hn h hp.stdin
        · exact hnew hn h hp.stdout
        · exact hnew hn h hp.stderr
  opens t fd f b hJ := by
    intro x d hx
    by_cases hr : InRange fd
    · rw [get_put _ hr] at hx
      split at hx
      · cases hx
        exact .inl rfl
      · exact hJ x d hx
    · exact hJ x d (by simpa [Table.put, hr] using hx)
  closes t fd hJ := by
    intro x d hx
    rw [get_close] at hx
    split at hx
    · cases hx
    · exact hJ x d hx

/-- Over any run of starts, closes and destructors, the handles that each start redirects to
    or inherits open and the program's own (`Ready`), whatever the program and the children
    do with their own files: every open end of a pipe, process or thread is in the slot of its
    handle, or with the child it is for, though a child inherits whatever is inheritable.
    Once the slot is closed nobody has that end, and once the child is done with its end
    nobody has it either. -/
theorem handles_private (t : Table φ) (es : List (Holders.Event (Kernel (Obj φ) × ProcessStartup) φ)) (s : System φ)
    (hm : Runs.Meets (Holders.step .win32 spawn) (StartsReady Ready) (System.init t) es)
    (h : Runs.exec (Holders.step .win32 spawn) (System.init t) es = some s) :
    Holds .win32 s ∧ ∀ i hd, s.handles[i]? = some hd →
      (∀ a ∈ slots .win32, a.fd hd.info = FD_INVALID → ¬ s.Held (a.obj i)) ∧
      ∀ p e, childEnd p = some e → ¬ hd.child.Holds (.pipe i p e) → ¬ s.Held (.pipe i p e) := by
  have hinit : Shielded (System.init t).table := by
    intro x d hx
    obtain ⟨d₀, -, rfl⟩ := Option.map_eq_some_iff.mp hx
    exact .inl rfl
  obtain ⟨hs, -⟩ := holders_run spawns hinit hm h
  refine ⟨hs, ?_⟩
  intro i hd hi
  exact ⟨fun a _ hfd => hs.parent_end hi hfd, fun p e he hc => hs.child_end hi he hc⟩

/-- Two children with stdin piped and the output at the program's own 12, which is
    inheritable from the first start on. -/
noncomputable def twoStarts : List (Holders.Event (Kernel (Obj Nat) × ProcessStartup) Nat) :=
  [.start (kernelAt (.named 16 20) .fails
      (.named 24 28) (.own 0) (.own 0), { stdout := ⟨12⟩, mergeOutputs := true }),
    .start (kernelAt (.named 16 32) .fails
      (.named 36 40) (.own 0) (.own 0), { stdout := ⟨12⟩, mergeOutputs := true }),
    .closeStdin 0, .destroy 1]

/-- A start that pipes stdin and puts the output at 12, the program's own. -/
theorem ready_twelve (k : Kernel (Obj Nat)) {t : Table (Obj Nat)} {f : Nat} {c : Bool} (ht : t.get 12 = some ⟨.own f, c⟩) :
    Ready (k, { stdout := ⟨12⟩, mergeOutputs := true }) t := by
  refine ⟨?_, ?_⟩
  · intro x hcase
    rcases hcase with hx | hx | ⟨hm, -⟩
    · cases hx.1
    · refine .inr ?_
      rw [hx.2]
      show t.get 12 ≠ none
      simp [ht]
    · cases hm
  · intro x g hcase hf
    rcases hcase with hx | hx | ⟨hm, -⟩
    · cases hx.1
    · rw [hx.2] at hf
      have hfile : t.file 12 = some g := hf
      rw [Table.file, ht] at hfile
      cases hfile
      rfl
    · cases hm

theorem handles_private_two : ∃ s : System Nat,
    Runs.exec (Holders.step .win32 spawn) (System.init hostTable) twoStarts = some s ∧
      Holds .win32 s ∧ ¬ s.Held (.pipe 0 .stdin .write) ∧ ¬ s.Held (.process 1) := by
  have hready : Runs.Meets (Holders.step .win32 spawn) (StartsReady Ready) (System.init hostTable) twoStarts := by
    refine ⟨ready_twelve _ rfl, ?_⟩
    intro s' hs'
    cases hs'
    exact ⟨ready_twelve _ rfl, fun _ _ => ⟨trivial, fun _ _ => ⟨trivial, fun _ _ => trivial⟩⟩⟩
  obtain ⟨hs, hall⟩ := handles_private hostTable twoStarts _ hready rfl
  refine ⟨_, rfl, hs, ?_, ?_⟩
  · exact (hall 0 _ rfl).1 .stdin (by decide) rfl
  · exact (hall 1 _ rfl).1 .pid (by decide) rfl

end CovProcess.Win32
