/-
  CovProcess.File.Redirect — builders redirected to `file_t` objects: `redirect_in`,
  `redirect_out` and `redirect_err` (`src/process.cpp`), with opening, closing and starting
  in any order, on Unix.

  A redirect takes the object's descriptor number and no more: the object keeps the
  lifetime of its descriptor, and the library never closes or holds a target. What the
  number refers to when a child starts is up to the calls in between. A descriptor of the
  parent refers to a file, to an end of a pipe that an earlier start made, or to what the
  parent had before. `passed` and `children` record what the code does not.

  Proved: `redirects_bound`, in any run from a parent with 0, 1 and 2 open, a redirected
  stream of a child refers to the file its object had open at the redirect, if the objects
  whose redirects are in effect at a start are not closed by then (and no start loses a
  target, see `CovProcess.Unix.Rollback`). `redirect_after_close` is a child that writes to a
  file opened after its own was closed, `redirect_low` one that loses a target below 3.
-/

import CovProcess.Builder
import CovProcess.File.Model
import CovProcess.Unix.Rollback
import CovProcess.Unix.Plumbing

namespace CovProcess.Redirect

open FdTable Unix File

/-! ## A start with redirects -/

section

variable {φ : Type}

/-- A startup without the redirects that inheriting or merging overrides. -/
def effective (s : ProcessStartup) : ProcessStartup :=
  { s with
    stdin := if s.inheritStdin then {} else s.stdin
    stdout := if s.inheritStdout then {} else s.stdout
    stderr := if s.mergeOutputs || s.inheritStderr then {} else s.stderr }

theorem createProcess_effective (k : Kernel φ) (s : ProcessStartup) (t₀ : Table φ) :
    createProcess k (effective s) t₀ = createProcess k s t₀ := by
  obtain ⟨cmdline, shellProgram, env, inheritEnv, cwd, stdin, stdout, stderr, mergeOutputs, inheritStdin, inheritStdout,
    inheritStderr, shellMode⟩ := s
  cases inheritStdin <;> cases inheritStdout <;> cases mergeOutputs <;> cases inheritStderr <;> rfl

inductive Stream where
  | stdin
  | stdout
  | stderr
  deriving DecidableEq, Repr

namespace Stream

def number : Stream → Fd
  | .stdin => 0
  | .stdout => 1
  | .stderr => 2

def info (s : ProcessStartup) : Stream → RedirectInfo
  | .stdin => s.stdin
  | .stdout => s.stdout
  | .stderr => s.stderr

/-- The stream is not inherited, or merged, so that its redirect counts. -/
def inEffect (s : ProcessStartup) : Stream → Bool
  | .stdin => !s.inheritStdin
  | .stdout => !s.inheritStdout
  | .stderr => !(s.mergeOutputs || s.inheritStderr)

end Stream

theorem effective_info (s : ProcessStartup) (x : Stream) :
    x.info (effective s) = if x.inEffect s then x.info s else {} := by
  cases x with
  | stdin => cases h : s.inheritStdin <;> simp [Stream.info, Stream.inEffect, effective, h]
  | stdout => cases h : s.inheritStdout <;> simp [Stream.info, Stream.inEffect, effective, h]
  | stderr =>
    cases h : s.mergeOutputs <;> cases h' : s.inheritStderr <;> simp [Stream.info, Stream.inEffect, effective, h, h']

/-- A start that does not lose a target keeps what is open. -/
theorem createProcess_keeps {k : Kernel φ} {s : ProcessStartup} {t₀ : Table φ} (hl : ¬ LosesTarget k s t₀) {x : Fd}
    (hx : t₀.get x ≠ none) : (createProcess k s t₀).table.get x = (t₀.map .old).get x := by
  cases h : (createProcess k s t₀).result with
  | ok info =>
    obtain ⟨p, pfail, t, pid, hf, -, hparent, hrep⟩ := createProcess_ok h
    exact (parent_streams hf hrep hparent).kept x hx
  | error msg => rw [failed_start_keeps hl h]

theorem streamFile_redirected (t₀ : Table φ) (fd : Fd) {r : RedirectInfo} (own : OpenFile φ) (hr : r.redirected = true) :
    streamFile t₀ fd false r own = (t₀.file r.target).map .old := by
  rw [streamFile, if_neg (by simp), boundFile, if_pos hr]

/-- The redirected streams of a child refer to what their targets refer to at the start. -/
theorem redirected_streams {k : Kernel φ} {s : ProcessStartup} {t₀ : Table φ} {info : ProcessInfo}
    (hc : CallerReady (effective s) t₀) (hok : (createProcess k s t₀).result = .ok info) :
    ∃ c, (createProcess k s t₀).child = some c ∧ ∀ x : Stream, x.inEffect s = true → (x.info s).redirected = true →
      c.file x.number = (t₀.file (x.info s).target).map .old := by
  rw [← createProcess_effective] at hok ⊢
  obtain ⟨p, pfail, t, pid, hf, hchild, -, -⟩ := createProcess_ok hok
  obtain ⟨h3, hfail⟩ := hf.failWr hc
  obtain ⟨c, hexec⟩ : ∃ c, childExec k.child (effective s) p pfail t = some c :=
    (childExec_eq k.child hfail).imp' _ fun _ => id
  have hlow : ∀ {y : Fd} {f : OpenFile φ}, y < 3 → (childStreams (effective s) p pfail t).get y = some ⟨f, false⟩ →
      c.file y = some f := fun hy hget => file_eq_some.mpr ⟨_, childExec_low hexec hy h3 hget⟩
  refine ⟨c, hchild.trans hexec, ?_⟩
  intro x hx hred
  have hinfo : x.info (effective s) = x.info s := by rw [effective_info, if_pos hx]
  rw [← hinfo] at hred ⊢
  cases x with
  | stdin =>
    have hi : (effective s).inheritStdin = false := show s.inheritStdin = false by simpa [Stream.inEffect] using hx
    obtain ⟨f, hs, hget⟩ := hf.childStreams_stdin hc fun h => absurd (hi.symm.trans h) (by decide)
    rw [hi] at hs
    exact (hlow (by decide) hget).trans (hs.symm.trans (streamFile_redirected t₀ 0 _ hred))
  | stdout =>
    have hi : (effective s).inheritStdout = false := show s.inheritStdout = false by simpa [Stream.inEffect] using hx
    obtain ⟨f, hs, hget⟩ := hf.childStreams_stdout hc fun h => absurd (hi.symm.trans h) (by decide)
    rw [hi] at hs
    exact (hlow (by decide) hget).trans (hs.symm.trans (streamFile_redirected t₀ 1 _ hred))
  | stderr =>
    have hi : (effective s).mergeOutputs = false ∧ (effective s).inheritStderr = false :=
      show s.mergeOutputs = false ∧ s.inheritStderr = false by simpa [Stream.inEffect] using hx
    obtain ⟨f, hs, hget⟩ := hf.childStreams_stderr hc hi.1 fun h => absurd (hi.2.symm.trans h) (by decide)
    rw [hi.2] at hs
    exact (hlow (by decide) hget).trans (hs.symm.trans (streamFile_redirected t₀ 2 _ hred))

end

/-! ## Builders and children -/

/-- What a descriptor of the parent refers to: a file opened by `fstream`, an end of a pipe
    of an earlier start, or what the parent had before. -/
inductive Open where
  | file (d : OpenDesc)
  | pipe (start : Nat) (p : PipeName) (e : PipeEnd)
  | other (n : Nat)
  deriving DecidableEq, Repr

def Open.fileId : Open → Option FileId
  | .file d => some d.file
  | _ => none

/-- The parent's open files after a start. -/
def settle (start : Nat) : OpenFile Open → Open
  | .old f => f
  | .pipe p e => .pipe start p e

/-- The object given to a redirect, and the file it had open then. -/
structure Passed where
  obj : Nat
  file : FileId
  deriving DecidableEq, Repr

structure BuilderObj where
  builder : Builder.ProcessBuilder := {}
  passed : Stream → Option Passed := fun _ => none

def Stream.setter : Stream → Fd → Builder.Setter
  | .stdin => .redirectStdin
  | .stdout => .redirectStdout
  | .stderr => .redirectStderr

def isRedirect : Builder.Setter → Bool
  | .redirectStdin _ => true
  | .redirectStdout _ => true
  | .redirectStderr _ => true
  | _ => false

/-- A redirect of the stream `x`; `accepts` is what it asks of the object, `msg` what it
    throws otherwise. -/
def redirectTo (x : Stream) (accepts : FileObj → Bool) (msg : String) (b : BuilderObj) (i : Nat) (f : FileObj) :
    Except String BuilderObj :=
  if !accepts f then .error msg
  else (Builder.apply b.builder (x.setter f.fd)).map fun pb =>
    { builder := pb, passed := Function.update b.passed x (some ⟨i, f.file⟩) }

def redirectIn : BuilderObj → Nat → FileObj → Except String BuilderObj :=
  redirectTo .stdin FileObj.isReadable "file_t is not open for reading"

def redirectOut : BuilderObj → Nat → FileObj → Except String BuilderObj :=
  redirectTo .stdout FileObj.isWritable "file_t is not open for writing"

def redirectErr : BuilderObj → Nat → FileObj → Except String BuilderObj :=
  redirectTo .stderr FileObj.isWritable "file_t is not open for writing"

/-- A child of a start that returned; the table is that of its program. -/
structure Child where
  startup : ProcessStartup
  passed : Stream → Option Passed
  table : Option (FdTab Open)

structure State where
  fds : Table Open
  objs : Nat → Option FileObj := fun _ => none
  nobjs : Nat := 0
  builders : Nat → BuilderObj := fun _ => {}
  starts : Nat := 0
  children : List Child := []

namespace State

def openFile (s : State) (file : FileId) (m : Mode) (fd : Int) : State :=
  { s with
    fds := s.fds.put fd ⟨.file ⟨file, m⟩, true⟩
    objs := Function.update s.objs s.nobjs (some (.openFile file m fd))
    nobjs := s.nobjs + 1 }

def closeFile (s : State) (i : Nat) (f : FileObj) : State :=
  { s with fds := (f.closeFile s.fds).2, objs := Function.update s.objs i (some (f.closeFile s.fds).1) }

theorem openFile_objs (s : State) (file : FileId) (m : Mode) (fd : Int) (i : Nat) :
    (s.openFile file m fd).objs i = if i = s.nobjs then some (.openFile file m fd) else s.objs i :=
  Function.update_apply ..

theorem closeFile_objs (s : State) (i : Nat) (f : FileObj) (j : Nat) :
    (s.closeFile i f).objs j = if j = i then some (f.closeFile s.fds).1 else s.objs j := Function.update_apply ..

/-- What a call on a builder leaves; one that throws leaves it as it was. -/
def setBuilder (s : State) (b : Nat) (r : Except String BuilderObj) : State :=
  { s with builders := Function.update s.builders b (r.toOption.getD (s.builders b)) }

theorem setBuilder_builders (s : State) (b : Nat) (r : Except String BuilderObj) (b' : Nat) :
    (s.setBuilder b r).builders b' = if b' = b then r.toOption.getD (s.builders b) else s.builders b' :=
  Function.update_apply ..

def start (s : State) (b : Nat) (k : Kernel Open) : State :=
  match Builder.start .unix (s.builders b).builder with
  | .error _ => s
  | .ok startup =>
    let o := createProcess k startup s.fds
    { s with
      fds := o.table.map (settle s.starts)
      starts := s.starts + 1
      children :=
        match o.result with
        | .ok _ => ⟨startup, (s.builders b).passed, o.child⟩ :: s.children
        | .error _ => s.children }

end State

inductive Event where
  /-- `fstream` opened a file at a free number. -/
  | fstream (file : FileId) (mode : String) (fd : Int)
  /-- `close`, or the object's destructor. -/
  | close (i : Nat)
  /-- A process closed its end of a pipe. -/
  | closeEnd (fd : Int)
  | set (b : Nat) (c : Builder.Setter)
  | redirectIn (b i : Nat)
  | redirectOut (b i : Nat)
  | redirectErr (b i : Nat)
  | start (b : Nat) (k : Kernel Open)

def step (s : State) : Event → Option State
  | .fstream file mode fd =>
    if InRange fd ∧ s.fds.get fd = none then (parseMode mode).map fun m => s.openFile file m fd else none
  | .close i => (s.objs i).map fun f => s.closeFile i f
  | .closeEnd fd =>
    match s.fds.file fd with
    | some (.pipe ..) => some { s with fds := s.fds.close fd }
    | _ => none
  | .set b c =>
    if isRedirect c then none
    else some (s.setBuilder b ((Builder.apply (s.builders b).builder c).map fun pb => { s.builders b with builder := pb }))
  | .redirectIn b i => (s.objs i).map fun f => s.setBuilder b (redirectIn (s.builders b) i f)
  | .redirectOut b i => (s.objs i).map fun f => s.setBuilder b (redirectOut (s.builders b) i f)
  | .redirectErr b i => (s.objs i).map fun f => s.setBuilder b (redirectErr (s.builders b) i f)
  | .start b k => some (s.start b k)

abbrev run (s : State) (es : List Event) : Option State := Runs.exec step s es

def initial (t₀ : Table Nat) : State := { fds := t₀.map .other }

/-! ## What is claimed -/

/-- Each stream with a redirect in effect refers to the file its object had open then. -/
def Child.Redirected (c : Child) : Prop :=
  ∀ (x : Stream) (p : Passed), x.inEffect c.startup = true → c.passed x = some p →
    ∃ t d, c.table = some t ∧ t.file x.number = some (.old (.file d)) ∧ d.file = p.file

/-- A start with the objects of its redirects still open, that loses no target. -/
def Careful (s : State) : Event → Prop
  | .start b k => ∀ startup, Builder.start .unix (s.builders b).builder = .ok startup →
      ¬ LosesTarget k startup s.fds ∧ ∀ (x : Stream) p f, x.inEffect startup = true → (s.builders b).passed x = some p →
        s.objs p.obj = some f → f.closed = false
  | _ => True

/-! ## The invariant -/

/-- A redirect's target is the number of the object it got, while that is open; without a
    redirect it is `FD_INVALID`. -/
def Targeted (objs : Nat → Option FileObj) (b : BuilderObj) : Prop :=
  ∀ x, match b.passed x with
    | none => x.info b.builder.startup = {}
    | some p => ∃ f, objs p.obj = some f ∧ f.file = p.file ∧
        (f.closed = false → (x.info b.builder.startup).target = f.fd)

structure Inv (s : State) : Prop where
  std : ∀ x, x = 0 ∨ x = 1 ∨ x = 2 → ∃ n, s.fds.file x = some (.other n)
  fresh : ∀ i f, s.objs i = some f → i < s.nobjs
  owned : Owned s.objs fun x => (s.fds.file x).bind Open.fileId
  targeted : ∀ b, Targeted s.objs (s.builders b)
  children : ∀ c ∈ s.children, c.Redirected

theorem fileId_eq_some {o : Open} {file : FileId} : o.fileId = some file ↔ ∃ d, o = .file d ∧ d.file = file := by
  cases o <;> simp [Open.fileId]

theorem Targeted.objs {objs objs' : Nat → Option FileObj} {b : BuilderObj} (h : Targeted objs b)
    (hobjs : ∀ i f, objs i = some f → ∃ f', objs' i = some f' ∧ f'.file = f.file ∧
      (f'.closed = false → f.closed = false ∧ f'.fd = f.fd)) : Targeted objs' b := by
  intro x
  have hx := h x
  cases hp : b.passed x with
  | none => simpa only [hp] using hx
  | some p =>
    simp only [hp] at hx ⊢
    obtain ⟨f, hf, hfile, htarget⟩ := hx
    obtain ⟨f', hf', hfile', hopen⟩ := hobjs _ f hf
    refine ⟨f', hf', hfile'.trans hfile, ?_⟩
    intro hc
    obtain ⟨hc, hfd⟩ := hopen hc
    rw [htarget hc, hfd]

theorem Targeted.set {objs : Nat → Option FileObj} {b : BuilderObj} {c : Builder.Setter} {pb : Builder.ProcessBuilder}
    (h : Targeted objs b) (hc : isRedirect c = false) (ha : Builder.apply b.builder c = .ok pb) :
    Targeted objs { b with builder := pb } := by
  have hinfo : ∀ x : Stream, x.info pb.startup = x.info b.builder.startup := by
    intro x
    cases c with
    | redirectStdin => cases hc
    | redirectStdout => cases hc
    | redirectStderr => cases hc
    | shell program =>
      simp only [Builder.apply] at ha
      split at ha
      · cases ha
      · cases ha
        cases x <;> rfl
    | _ =>
      cases ha
      cases x <;> rfl
  intro x
  rw [hinfo]
  exact h x

theorem Targeted.redirect {objs : Nat → Option FileObj} {b b' : BuilderObj} {x : Stream} {accepts : FileObj → Bool}
    {msg : String} {i : Nat} {f : FileObj} (h : Targeted objs b) (hf : objs i = some f)
    (hr : redirectTo x accepts msg b i f = .ok b') : Targeted objs b' := by
  unfold redirectTo at hr
  split at hr
  · cases hr
  have hinfo : ∃ pb, Builder.apply b.builder (x.setter f.fd) = .ok pb ∧
      ∀ y : Stream, y.info pb.startup = if y = x then ⟨f.fd⟩ else y.info b.builder.startup := by
    cases x <;> exact ⟨_, rfl, fun y => by cases y <;> rfl⟩
  obtain ⟨pb, hpb, hinfo⟩ := hinfo
  rw [hpb] at hr
  cases hr
  intro y
  show match Function.update b.passed x (some ⟨i, f.file⟩) y with
    | none => y.info pb.startup = {}
    | some p => ∃ f', objs p.obj = some f' ∧ f'.file = p.file ∧
        (f'.closed = false → (y.info pb.startup).target = f'.fd)
  rw [hinfo, Function.update_apply]
  by_cases hy : y = x
  · rw [if_pos hy, if_pos hy]
    exact ⟨f, hf, rfl, fun _ => rfl⟩
  · rw [if_neg hy, if_neg hy]
    exact h y

section

variable {s s' : State}

theorem inv_initial {t₀ : Table Nat} (hstd : ∀ x, x = 0 ∨ x = 1 ∨ x = 2 → t₀.get x ≠ none) : Inv (initial t₀) where
  std x hx := by
    obtain ⟨d, hd⟩ := Option.ne_none_iff_exists'.mp (hstd x hx)
    exact ⟨d.file, by simp [initial, Table.file, hd]⟩
  fresh i f hf := by cases hf
  owned := .start _
  targeted b x := by cases x <;> rfl
  children c hc := by cases hc

theorem Inv.openFile (h : Inv s) {file : FileId} {m : Mode} {fd : Int} (hr : InRange fd) (hfree : s.fds.get fd = none) :
    Inv (s.openFile file m fd) := by
  have hput : ∀ x, (s.openFile file m fd).fds.file x = if x = fd then some (.file ⟨file, m⟩) else s.fds.file x :=
    file_put s.fds hr ⟨.file ⟨file, m⟩, true⟩
  have hnone : s.fds.file fd = none := by rw [Table.file, hfree, Option.map_none]
  refine ⟨?_, ?_, ?_, ?_, h.children⟩
  · intro x hx
    obtain ⟨n, hn⟩ := h.std x hx
    refine ⟨n, ?_⟩
    rw [hput, if_neg, hn]
    intro hfd
    rw [← hfd, hn] at hnone
    cases hnone
  · intro i f hf
    rw [State.openFile_objs] at hf
    show i < s.nobjs + 1
    split at hf
    · omega
    · have := h.fresh i f hf
      omega
  · refine h.owned.openFile (show (s.fds.file fd).bind Open.fileId = none by rw [hnone, Option.bind_none]) ?_
    intro x
    rw [hput]
    split <;> rfl
  · intro b
    refine (h.targeted b).objs fun i f hf => ⟨f, ?_, rfl, fun hc => ⟨hc, rfl⟩⟩
    have := h.fresh i f hf
    rw [State.openFile_objs, if_neg (by omega), hf]

theorem Inv.closeFile (h : Inv s) {i : Nat} {f : FileObj} (hf : s.objs i = some f) : Inv (s.closeFile i f) := by
  obtain ⟨hclosed, hfile, hget⟩ := f.closeFile_spec s.fds
  have hat : ∀ x, (s.closeFile i f).fds.file x = if f.closed = false ∧ x = f.fd then none else s.fds.file x := by
    intro x
    rw [State.closeFile, Table.file, hget]
    split <;> rfl
  refine ⟨?_, ?_, ?_, ?_, h.children⟩
  · intro x hx
    obtain ⟨n, hn⟩ := h.std x hx
    refine ⟨n, ?_⟩
    rw [hat, if_neg, hn]
    -- an object's number is at a file
    intro hfd
    have hown := h.owned.refers i f hf hfd.1
    rw [← hfd.2, hn] at hown
    cases hown
  · intro j g hg
    rw [State.closeFile_objs] at hg
    split at hg
    · rename_i hj
      exact hj ▸ h.fresh i f hf
    · exact h.fresh j g hg
  · refine h.owned.closeFile hf hclosed ?_
    intro x
    rw [hat]
    split <;> rfl
  · intro b
    refine (h.targeted b).objs ?_
    intro j g hg
    rw [State.closeFile_objs]
    split
    · rename_i hj
      rw [hj, hf] at hg
      cases hg
      exact ⟨_, rfl, hfile, fun hc => absurd (hclosed.symm.trans hc) (by decide)⟩
    · exact ⟨g, hg, rfl, fun hc => ⟨hc, rfl⟩⟩

theorem Inv.closeEnd (h : Inv s) {fd : Int} {n : Nat} {p : PipeName} {e : PipeEnd}
    (hfd : s.fds.file fd = some (.pipe n p e)) : Inv { s with fds := s.fds.close fd } := by
  have hkeep : ∀ x o, s.fds.file x = some o → (∀ n p e, o ≠ .pipe n p e) → (s.fds.close fd).file x = some o := by
    intro x o hx ho
    rw [file_close, if_neg, hx]
    intro heq
    rw [heq, hfd] at hx
    exact ho n p e (Option.some.inj hx).symm
  refine ⟨?_, h.fresh, h.owned.mono ?_, h.targeted, h.children⟩
  · intro x hx
    obtain ⟨m, hm⟩ := h.std x hx
    exact ⟨m, hkeep x _ hm (by simp)⟩
  · intro x file hx
    obtain ⟨o, ho, hfile⟩ := Option.bind_eq_some_iff.mp hx
    obtain ⟨d, rfl, -⟩ := fileId_eq_some.mp hfile
    exact Option.bind_eq_some_iff.mpr ⟨_, hkeep x _ ho (by simp), hfile⟩

theorem Inv.setBuilder (h : Inv s) {b : Nat} {r : Except String BuilderObj}
    (hr : ∀ b', r = .ok b' → Targeted s.objs b') : Inv (s.setBuilder b r) := by
  refine ⟨h.std, h.fresh, h.owned, ?_, h.children⟩
  intro b'
  rw [State.setBuilder_builders]
  split
  · cases r with
    | error msg => exact h.targeted b
    | ok b' => exact hr b' rfl
  · exact h.targeted b'

/-! ## A start -/

/-- The target of a redirect in effect is at the file its object had open. -/
theorem Inv.target (h : Inv s) {b : Nat} {startup : ProcessStartup}
    (hst : Builder.start .unix (s.builders b).builder = .ok startup) {x : Stream} {p : Passed}
    (hp : (s.builders b).passed x = some p) (hopen : ∀ f, s.objs p.obj = some f → f.closed = false) :
    ∃ d, s.fds.file (x.info startup).target = some (.file d) ∧ d.file = p.file := by
  obtain ⟨l, rfl⟩ := Builder.start_eq hst
  have ht := h.targeted b x
  simp only [hp] at ht
  obtain ⟨f, hf, hfile, htarget⟩ := ht
  have hown := h.owned.refers _ f hf (hopen f hf)
  obtain ⟨o, ho, hid⟩ := Option.bind_eq_some_iff.mp hown
  obtain ⟨d, rfl, hd⟩ := fileId_eq_some.mp hid
  refine ⟨d, ?_, hd.trans hfile⟩
  rw [← ho, ← htarget (hopen f hf)]
  cases x <;> rfl

theorem Inv.three_le (h : Inv s) {fd : Int} {d : OpenDesc} (hfd : s.fds.file fd = some (.file d)) : 3 ≤ fd := by
  have hr := s.fds.inRange fd (file_ne_none.mp (by rw [hfd]; simp))
  have hne : ¬ (fd = 0 ∨ fd = 1 ∨ fd = 2) := by
    intro hx
    obtain ⟨n, hn⟩ := h.std fd hx
    rw [hfd] at hn
    cases hn
  have := hr.1
  omega

theorem Inv.callerReady (h : Inv s) {b : Nat} {k : Kernel Open} (hcare : Careful s (.start b k)) {startup : ProcessStartup}
    (hst : Builder.start .unix (s.builders b).builder = .ok startup) : CallerReady (effective startup) s.fds := by
  have hx : ∀ x : Stream, (x.info (effective startup)).redirected = true →
      3 ≤ (x.info (effective startup)).target ∧ s.fds.get (x.info (effective startup)).target ≠ none := by
    intro x hred
    rw [effective_info] at hred ⊢
    split at hred
    · rename_i heff
      rw [if_pos heff]
      cases hp : (s.builders b).passed x with
      | none =>
        have ht := h.targeted b x
        simp only [hp] at ht
        obtain ⟨l, rfl⟩ := Builder.start_eq hst
        have hinfo : x.info { (s.builders b).builder.startup with cmdline := l } = {} := by
          rw [← ht]
          cases x <;> rfl
        rw [hinfo] at hred
        cases hred
      | some p =>
        obtain ⟨d, hd, -⟩ := h.target hst hp fun f => (hcare startup hst).2 x p f heff hp
        exact ⟨h.three_le hd, file_ne_none.mp (by rw [hd]; simp)⟩
    · cases hred
  refine ⟨?_, ?_⟩
  · intro x hx
    obtain ⟨n, hn⟩ := h.std x hx
    exact file_ne_none.mp (by rw [hn]; simp)
  · intro r hr hred
    rcases hr with rfl | rfl | rfl
    · exact hx .stdin hred
    · exact hx .stdout hred
    · exact hx .stderr hred

theorem Inv.child (h : Inv s) {b : Nat} {k : Kernel Open} (hcare : Careful s (.start b k)) {startup : ProcessStartup}
    (hst : Builder.start .unix (s.builders b).builder = .ok startup) {info : ProcessInfo}
    (hok : (createProcess k startup s.fds).result = .ok info) :
    Child.Redirected ⟨startup, (s.builders b).passed, (createProcess k startup s.fds).child⟩ := by
  obtain ⟨c, hc, hstreams⟩ := redirected_streams (h.callerReady hcare hst) hok
  intro x p heff hp
  obtain ⟨d, hd, hfile⟩ := h.target hst hp fun f => (hcare startup hst).2 x p f heff hp
  have hred : (x.info startup).redirected = true := by
    have h3 := h.three_le hd
    rw [RedirectInfo.redirected, bne_iff_ne]
    intro hinv
    rw [hinv] at h3
    exact absurd h3 (by decide)
  refine ⟨c, d, hc, ?_, hfile⟩
  rw [hstreams x heff hred, hd]
  rfl

theorem Inv.start (h : Inv s) {b : Nat} {k : Kernel Open} (hcare : Careful s (.start b k)) : Inv (s.start b k) := by
  unfold State.start
  cases hst : Builder.start .unix (s.builders b).builder with
  | error msg => exact h
  | ok startup =>
    have hkeep : ∀ x o, s.fds.file x = some o →
        ((createProcess k startup s.fds).table.map (settle s.starts)).file x = some o := by
      intro x o hx
      have hget := createProcess_keeps (hcare startup hst).1 (x := x) (file_ne_none.mp (by rw [hx]; simp))
      rw [file_map, Table.file, hget, ← Table.file, file_map, hx]
      rfl
    refine ⟨?_, h.fresh, h.owned.mono ?_, h.targeted, ?_⟩
    · intro x hx
      obtain ⟨n, hn⟩ := h.std x hx
      exact ⟨n, hkeep x _ hn⟩
    · intro x file hx
      obtain ⟨o, ho, hfile⟩ := Option.bind_eq_some_iff.mp hx
      exact Option.bind_eq_some_iff.mpr ⟨o, hkeep x o ho, hfile⟩
    · cases hres : (createProcess k startup s.fds).result with
      | error msg =>
        simp only [hres]
        exact h.children
      | ok info =>
        simp only [hres]
        intro c hc
        cases hc with
        | head => exact h.child hcare hst hres
        | tail _ hc => exact h.children c hc

theorem inv_step {e : Event} (h : Inv s) (hcare : Careful s e) (hs : step s e = some s') : Inv s' := by
  cases e with
  | fstream file mode fd =>
    obtain ⟨⟨hr, hfree⟩, hs⟩ := Option.ite_none_right_eq_some.mp hs
    obtain ⟨m, -, rfl⟩ := Option.map_eq_some_iff.mp hs
    exact h.openFile hr hfree
  | close i =>
    obtain ⟨f, hf, rfl⟩ := Option.map_eq_some_iff.mp hs
    exact h.closeFile hf
  | closeEnd fd =>
    simp only [step] at hs
    split at hs
    · rename_i hfd
      cases hs
      exact h.closeEnd hfd
    · cases hs
  | set b c =>
    obtain ⟨hc, hs⟩ := Option.ite_none_left_eq_some.mp hs
    cases hs
    refine h.setBuilder ?_
    intro b' hb'
    cases ha : Builder.apply (s.builders b).builder c with
    | error msg =>
      rw [ha] at hb'
      cases hb'
    | ok pb =>
      rw [ha] at hb'
      cases hb'
      exact (h.targeted b).set (Bool.not_eq_true _ ▸ hc) ha
  | redirectIn b i =>
    obtain ⟨f, hf, rfl⟩ := Option.map_eq_some_iff.mp hs
    exact h.setBuilder fun _ => (h.targeted b).redirect hf
  | redirectOut b i =>
    obtain ⟨f, hf, rfl⟩ := Option.map_eq_some_iff.mp hs
    exact h.setBuilder fun _ => (h.targeted b).redirect hf
  | redirectErr b i =>
    obtain ⟨f, hf, rfl⟩ := Option.map_eq_some_iff.mp hs
    exact h.setBuilder fun _ => (h.targeted b).redirect hf
  | start b k =>
    cases hs
    exact h.start hcare

end

/-! ## Whole runs -/

/-- In any run, from a parent with 0, 1 and 2 open, whose starts are careful, a child's
    redirected streams refer to the files the objects had open at the redirects. -/
theorem redirects_bound (t₀ : Table Nat) (es : List Event) (s : State)
    (hstd : ∀ x, x = 0 ∨ x = 1 ∨ x = 2 → t₀.get x ≠ none) (h : run (initial t₀) es = some s)
    (hcare : Runs.Meets step Careful (initial t₀) es) : ∀ c ∈ s.children, c.Redirected :=
  (Runs.exec_meets (fun _ _ _ => inv_step) (inv_initial hstd) hcare h).children

def stdTable : Table Nat := (((empty : Table Nat).put 0 ⟨0, false⟩).put 1 ⟨1, false⟩).put 2 ⟨2, false⟩

def plainKernel : Kernel Open where
  stdinPipe := .at 14 15 (by decide) (by decide) (by decide)
  stdoutPipe := .fails
  stderrPipe := .at 16 17 (by decide) (by decide) (by decide)
  failPipe := .at 18 19 (by decide) (by decide) (by decide)
  pipe2 := true
  fork := some 100
  reply := .eof
  startTime := 0
  strerror := fun _ => ""
  child := ⟨(true, true), 1024⟩

theorem stdTable_std (x : Fd) (hx : x = 0 ∨ x = 1 ∨ x = 2) : stdTable.get x ≠ none := by
  rcases hx with rfl | rfl | rfl <;> decide

/-- A file opened for writing and given to a builder. -/
def redirected : List Event := [.fstream 0 "w" 3, .set 0 (.command "c"), .redirectOut 0 0]

theorem careful_redirected {s : State} (h : run (initial stdTable) redirected = some s) :
    Careful s (.start 0 plainKernel) := by
  cases h
  intro startup hst
  cases hst
  refine ⟨?_, ?_⟩
  · -- the target is at stdout, and the two pipes can be made
    intro hl
    obtain ⟨pstdin, t₁, hin, ⟨hout, -⟩ | ⟨pstdout, t₂, hout, herr, -⟩⟩ := hl
    · cases hout
    · cases hin
      cases hout
      cases herr
  · intro x p f _ hp hf
    cases x <;> cases hp
    cases hf
    rfl

/-- The file closed after the start. -/
theorem redirects_bound_one :
    ∃ s, run (initial stdTable) (redirected ++ [.start 0 plainKernel, .close 0]) = some s ∧ s.children.length = 1 ∧
      ∀ c ∈ s.children, c.Redirected := by
  have h := redirects_bound stdTable (redirected ++ [.start 0 plainKernel, .close 0]) _ stdTable_std rfl
  refine ⟨_, rfl, rfl, h ⟨trivial, fun s₁ h₁ => ⟨trivial, fun s₂ h₂ => ⟨trivial, fun s₃ h₃ => ⟨?_, fun _ _ =>
    ⟨trivial, fun _ _ => trivial⟩⟩⟩⟩⟩⟩
  exact careful_redirected
    (Runs.exec_cons.mpr ⟨s₁, h₁, Runs.exec_cons.mpr ⟨s₂, h₂, Runs.exec_cons.mpr ⟨s₃, h₃, rfl⟩⟩⟩)

/-- The file closed before the start and another opened: the child writes to that. -/
theorem redirect_after_close :
    ∃ s c t d, run (initial stdTable) (redirected ++ [.close 0, .fstream 1 "w" 3, .start 0 plainKernel]) = some s ∧
      s.children = [c] ∧ c.table = some t ∧ c.passed .stdout = some ⟨0, 0⟩ ∧
      t.file 1 = some (.old (.file d)) ∧ d.file = 1 ∧ ¬ c.Redirected := by
  refine ⟨_, _, _, _, rfl, rfl, rfl, rfl, rfl, rfl, ?_⟩
  intro h
  obtain ⟨t, d, ht, hd, hfile⟩ := h .stdout _ rfl rfl
  cases ht
  cases hd
  cases hfile

/-- Why 0, 1 and 2 have to be open: a file that the parent gets at 0 is closed in the child
    as a target that is done with. -/
theorem redirect_low :
    ∃ s c t, run (initial empty) [.fstream 0 "r" 0, .set 0 (.command "c"), .redirectIn 0 0, .set 0 (.inheritOutput true),
        .start 0 plainKernel] = some s ∧
      s.children = [c] ∧ c.table = some t ∧ c.passed .stdin = some ⟨0, 0⟩ ∧ t.file 0 = none :=
  ⟨_, _, _, rfl, rfl, rfl, rfl, rfl⟩

end CovProcess.Redirect
