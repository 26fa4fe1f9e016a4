/-
  CovProcess.Handle.Traffic — the bytes in the pipes of all the children, over the system of
  `CovProcess.Handle.Holders`, on either platform.

  A handle writes and reads through the numbers in its slots, a child through any number of
  its table: both go to whatever file is at the number. A pipe takes the bytes of a `write`
  at its end and gives them from its front; a read finds the end of the file when the pipe
  is empty and no process has its write end open. `put` and `got` are kept by who wrote and
  who read, not by the pipe it went through.

  Proved: `bytes_delivered`, along any run. What child `i` read of a stream and what is still
  in its pipe is what its handle wrote, and the other way round for its output: no byte is
  lost, doubled or given to another child. An end of file comes after the last byte, and
  only when the writer is done: a child reads it once its stdin was closed, the program
  once the child gave the stream up.
-/

import CovProcess.Unix.Children
import CovProcess.Win32.Children

namespace CovProcess.Holders

open FdTable
open CovProcess.Builder (Platform)
open CovProcess.Unix (OpenFile PipeName PipeEnd)

variable {φ : Type}

/-! ## The two platforms -/

def StartOf (φ : Type) : Platform → Type
  | .unix => Unix.Kernel (Obj φ) × ProcessStartup
  | .win32 => Win32.Kernel (Obj φ) × ProcessStartup

def spawnOn : (pf : Platform) → StartOf φ pf → Nat → Table (Obj φ) → Spawned φ
  | .unix => Unix.spawn
  | .win32 => Win32.spawn

def ReadyOn : (pf : Platform) → StartOf φ pf → Table (Obj φ) → Prop
  | .unix => Unix.Ready
  | .win32 => Win32.Ready

def KeptOn : Platform → Table (Obj φ) → Prop
  | .unix => fun _ => True
  | .win32 => Win32.Shielded

theorem spawnsOn : (pf : Platform) → Spawns pf (spawnOn (φ := φ) pf) (KeptOn pf) (ReadyOn pf)
  | .unix => Unix.spawns
  | .win32 => Win32.spawns

/-! ## Bytes -/

structure Traffic (φ : Type) where
  sys : System φ
  /-- What is in a pipe, oldest first. -/
  pipe : Nat × PipeName → List UInt8 := fun _ => []
  /-- What handle or child `i` wrote to the stream, and what the other of the two read. -/
  put : Nat × PipeName → List UInt8 := fun _ => []
  got : Nat × PipeName → List UInt8 := fun _ => []
  /-- The streams on which somebody read the end of the file. -/
  ends : List (Nat × PipeName) := []

/-- Handle or child `i` reaches, for its stream `p`, the end `e` of the pipe `q` of start `j`. -/
inductive Reaches (s : System φ) (i : Nat) : PipeName → PipeEnd → Nat → PipeName → Prop
  | stdin {h : Handle φ} {j : Nat} {q : PipeName} : s.handles[i]? = some h →
      s.table.file h.info.stdin = some (.pipe j q .write) → Reaches s i .stdin .write j q
  | stdout {h : Handle φ} {j : Nat} {q : PipeName} : s.handles[i]? = some h →
      s.table.file h.info.stdout = some (.pipe j q .read) → Reaches s i .stdout .read j q
  | stderr {h : Handle φ} {j : Nat} {q : PipeName} : s.handles[i]? = some h →
      s.table.file h.info.stderr = some (.pipe j q .read) → Reaches s i .stderr .read j q
  | child {h : Handle φ} {x : Fd} {j : Nat} {q : PipeName} {e : PipeEnd} : s.handles[i]? = some h →
      h.child.file x = some (.pipe j q e) → Reaches s i q e j q

variable (pf : Platform)

inductive Moves : Traffic φ → Traffic φ → Prop
  | system {s : Traffic φ} {e : Event (StartOf φ pf) φ} {t : System φ} : StartsReady (ReadyOn pf) s.sys e →
      step pf (spawnOn pf) s.sys e = some t → Moves s { s with sys := t }
  | write {s : Traffic φ} {i j : Nat} {p q : PipeName} (bytes : List UInt8) : Reaches s.sys i p .write j q →
      Moves s { s with
        pipe := Function.update s.pipe (j, q) (s.pipe (j, q) ++ bytes)
        put := Function.update s.put (i, p) (s.put (i, p) ++ bytes) }
  | read {s : Traffic φ} {i j : Nat} {p q : PipeName} (bytes rest : List UInt8) : Reaches s.sys i p .read j q →
      s.pipe (j, q) = bytes ++ rest →
      Moves s { s with
        pipe := Function.update s.pipe (j, q) rest
        got := Function.update s.got (i, p) (s.got (i, p) ++ bytes) }
  | eof {s : Traffic φ} {i j : Nat} {p q : PipeName} : Reaches s.sys i p .read j q → s.pipe (j, q) = [] →
      ¬ s.sys.Held (.pipe j q .write) → Moves s { s with ends := s.ends ++ [(i, p)] }

/-- The states that a program with the files `t` of its own can come to. -/
inductive Reachable (t : Table φ) : Traffic φ → Prop
  | init : Reachable t { sys := System.init t }
  | step {s s' : Traffic φ} : Reachable t s → Moves pf s s' → Reachable t s'

section Proofs

variable {pf} {s : System φ} {i : Nat}

/-! ## Nobody has a file -/

def Free (s : System φ) (f : Obj φ) : Prop :=
  s.table.Confined (fun _ g => g ≠ f) ∧
    ∀ (i : Nat) (h : Handle φ), s.handles[i]? = some h → h.child.Confined fun _ g => g ≠ f

theorem free_iff {f : Obj φ} : Free s f ↔ ¬ s.Held f := by
  constructor
  · intro hex hcase
    obtain ⟨ht, hc⟩ := hex
    rcases hcase with ⟨x, hx⟩ | ⟨h, hmem, x, hx⟩
    · exact ht x f hx rfl
    · obtain ⟨i, hi⟩ := List.mem_iff_getElem?.mp hmem
      exact hc i h hi x f hx rfl
  · intro hn
    refine ⟨?_, ?_⟩
    · intro x g hx heq
      subst heq
      exact hn (.inl ⟨x, hx⟩)
    · intro i h hi x g hx heq
      subst heq
      exact hn (.inr ⟨h, List.mem_of_getElem? hi, x, hx⟩)

namespace Free

variable {f : Obj φ}

theorem setHandle (hf : Free s f) {u : Handle φ} (hc : u.child.Confined fun _ g => g ≠ f) :
    Free { s with handles := s.handles.set i u } f := by
  refine ⟨hf.1, ?_⟩
  intro k v hk
  rcases getElem?_set_cases hk with ⟨-, rfl⟩ | ⟨-, hk⟩
  · exact hc
  · exact hf.2 k v hk

theorem closeSlot (hf : Free s f) (i : Nat) (a : Slot) : Free (s.closeSlot i a) f := by
  unfold System.closeSlot
  split
  · exact hf
  rename_i h hi
  split
  · exact hf
  · exact ⟨hf.1.close _, (hf.setHandle (u := { h with info := a.reset h.info }) (hf.2 i h hi)).2⟩

theorem closeStdin (hf : Free s f) (i : Nat) : Free (s.closeStdin i) f := by
  unfold System.closeStdin
  split
  · exact hf
  rename_i h hi
  split
  · exact hf
  · exact (hf.setHandle (u := { h with info := { h.info with stdinClosed := true } }) (hf.2 i h hi)).closeSlot i .stdin

theorem closeProcess (hf : Free s f) (i : Nat) : Free (s.closeProcess pf i) f := by
  have hfold : ∀ (as : List Slot) (s : System φ), Free s f → Free (as.foldl (fun s a => s.closeSlot i a) s) f := by
    intro as
    induction as with
    | nil =>
      intro s hf
      exact hf
    | cons a as ih =>
      intro s hf
      exact ih _ (hf.closeSlot i a)
  exact hfold (slots pf) s hf

theorem onChild (hf : Free s f) {g : Table (Obj φ) → Table (Obj φ)}
    (hg : ∀ c : Table (Obj φ), c.Confined (fun _ x => x ≠ f) → (g c).Confined fun _ x => x ≠ f) : Free (s.onChild i g) f := by
  unfold System.onChild
  split
  · exact hf
  · rename_i h hi
    exact hf.setHandle (u := { h with child := g h.child }) (hg _ (hf.2 i h hi))

end Free

variable {κ : Type} {spawn : κ → Nat → Table (Obj φ) → Spawned φ} {J : Table (Obj φ) → Prop}
  {Ready : κ → Table (Obj φ) → Prop}

theorem step_free (hsp : Spawns pf spawn J Ready) {e : Event κ φ} {t : System φ} (hJ : J s.table)
    (hr : StartsReady Ready s e) (h : step pf spawn s e = some t) (hi : i < s.handles.length) {p : PipeName} {d : PipeEnd}
    (hf : Free s (.pipe i p d)) : Free t (.pipe i p d) := by
  cases e with
  | start c =>
    cases h
    have hst := hsp.starts c s.handles.length s.table hJ hr
    refine ⟨?_, ?_⟩
    · intro x g hx
      by_cases hopen : s.table.get x = none
      · obtain ⟨a, ha, rfl⟩ := hst.gained x hopen (get_ne_none hx)
        have hobj := (hst.slot a ha (ne_invalid (get_ne_none hx))).2
        rw [hx] at hobj
        cases hobj
        intro heq
        have hlt : s.handles.length = i := by cases a <;> simp_all [Slot.obj]
        omega
      · rcases hst.kept x hopen with heq | ⟨hnone, -⟩
        · exact hf.1 x g (heq.symm.trans hx)
        · rw [hx] at hnone
          cases hnone
    · intro k u hk
      rw [List.getElem?_append] at hk
      split at hk
      · exact hf.2 k u hk
      · obtain rfl : (⟨_, _, (spawn c s.handles.length s.table).child⟩ : Handle φ) = u := by
          cases hsub : k - s.handles.length with
          | zero => simpa [hsub] using hk
          | succ m => simp [hsub] at hk
        refine hst.child.mono ?_
        intro x g hg heq
        subst heq
        have hlt : i = s.handles.length := hg.1
        omega
  | closeStdin j =>
    cases h
    exact hf.closeStdin j
  | destroy j =>
    cases h
    exact hf.closeProcess j
  | openOwn fd f c =>
    obtain ⟨-, h⟩ := Option.ite_none_right_eq_some.mp h
    cases h
    exact ⟨hf.1.put (by simp), hf.2⟩
  | closeOwn fd =>
    obtain ⟨-, h⟩ := Option.ite_none_left_eq_some.mp h
    cases h
    exact ⟨hf.1.close fd, hf.2⟩
  | childOpen j fd f =>
    cases h
    exact hf.onChild fun c hc => hc.put (by simp)
  | childDup2 j src dst =>
    cases h
    exact hf.onChild fun c hc => hc.dup2 src dst
  | childClose j fd =>
    cases h
    exact hf.onChild fun c hc => hc.close fd
  | childExit j =>
    cases h
    exact hf.onChild fun c _ => confined_empty _

theorem closeSlot_length (s : System φ) (i : Nat) (a : Slot) : (s.closeSlot i a).handles.length = s.handles.length := by
  unfold System.closeSlot
  split
  · rfl
  · split
    · rfl
    · exact List.length_set

theorem step_length {e : Event κ φ} {t : System φ} (h : step pf spawn s e = some t) :
    s.handles.length ≤ t.handles.length := by
  cases e with
  | start c =>
    cases h
    simp
  | closeStdin j =>
    cases h
    unfold System.closeStdin
    split
    · exact Nat.le_refl _
    · split
      · exact Nat.le_refl _
      · rw [closeSlot_length]
        exact Nat.le_of_eq List.length_set.symm
  | destroy j =>
    cases h
    have hfold : ∀ (as : List Slot) (s : System φ),
        (as.foldl (fun s a => s.closeSlot j a) s).handles.length = s.handles.length := by
      intro as
      induction as with
      | nil =>
        intro s
        rfl
      | cons a as ih =>
        intro s
        exact (ih _).trans (closeSlot_length s j a)
    exact Nat.le_of_eq (hfold _ s).symm
  | openOwn fd f c =>
    obtain ⟨-, h⟩ := Option.ite_none_right_eq_some.mp h
    cases h
    exact Nat.le_refl _
  | closeOwn fd =>
    obtain ⟨-, h⟩ := Option.ite_none_left_eq_some.mp h
    cases h
    exact Nat.le_refl _
  | childOpen | childDup2 | childClose | childExit =>
    cases h
    unfold System.onChild
    split
    · exact Nat.le_refl _
    · exact Nat.le_of_eq List.length_set.symm

/-! ## Whose pipe it is -/

/-- A handle or a child reaches its own pipes only, each by its own name. -/
theorem Holds.own_pipe (hs : Holds pf s) {p q : PipeName} {e : PipeEnd} {j : Nat} (h : Reaches s i p e j q) :
    j = i ∧ q = p ∧ i < s.handles.length := by
  have hslot : ∀ {h : Handle φ} {a : Slot} {d : PipeEnd}, s.handles[i]? = some h → a ∈ slots pf →
      s.table.file (a.fd h.info) = some (.pipe j q d) → (a.obj i : Obj φ) = .pipe j q d := by
    intro h a d hi ha hf
    have hmine := ((hs.handle i h hi).mine a ha (ne_invalid (get_ne_none hf))).2
    exact Option.some.inj (hmine.symm.trans hf)
  have hlt : ∀ {h : Handle φ}, s.handles[i]? = some h → i < s.handles.length :=
    fun hi => (List.getElem?_eq_some_iff.mp hi).1
  cases h with
  | stdin hi hf =>
    cases hslot (a := .stdin) hi (stdin_mem pf) hf
    exact ⟨rfl, rfl, hlt hi⟩
  | stdout hi hf =>
    cases hslot (a := .stdout) hi (by cases pf <;> simp [slots]) hf
    exact ⟨rfl, rfl, hlt hi⟩
  | stderr hi hf =>
    cases hslot (a := .stderr) hi (by cases pf <;> simp [slots]) hf
    exact ⟨rfl, rfl, hlt hi⟩
  | child hi hf =>
    obtain ⟨rfl, -⟩ := (hs.handle i _ hi).child _ _ hf
    exact ⟨rfl, rfl, hlt hi⟩

structure Inv (pf : Platform) (s : Traffic φ) : Prop where
  holds : Holds pf s.sys
  kept : KeptOn pf s.sys.table
  books : ∀ k, s.got k ++ s.pipe k = s.put k
  ended : ∀ k ∈ s.ends, k.1 < s.sys.handles.length ∧ s.pipe k = [] ∧ Free s.sys (.pipe k.1 k.2 .write)

theorem inv_moves {s s' : Traffic φ} (h : Inv pf s) (hm : Moves pf s s') : Inv pf s' := by
  cases hm with
  | system hr ht =>
    refine ⟨step_holds (spawnsOn pf) h.holds h.kept hr ht, step_keeps (spawnsOn pf) h.kept hr ht, h.books, ?_⟩
    intro k hk
    obtain ⟨hlt, hempty, hfree⟩ := h.ended k hk
    exact ⟨Nat.lt_of_lt_of_le hlt (step_length ht), hempty, step_free (spawnsOn pf) h.kept hr ht hlt hfree⟩
  | @write i j p q bytes hreach =>
    obtain ⟨rfl, rfl, -⟩ := h.holds.own_pipe hreach
    refine ⟨h.holds, h.kept, ?_, ?_⟩
    · intro k
      show s.got k ++ Function.update s.pipe (j, q) (s.pipe (j, q) ++ bytes) k =
        Function.update s.put (j, q) (s.put (j, q) ++ bytes) k
      by_cases hk : k = (j, q)
      · subst hk
        rw [Function.update_self, Function.update_self, ← List.append_assoc, h.books]
      · rw [Function.update_of_ne hk, Function.update_of_ne hk, h.books]
    · intro k hk
      obtain ⟨hlt, hempty, hfree⟩ := h.ended k hk
      refine ⟨hlt, ?_, hfree⟩
      -- there is no writer left on a stream that ended
      have hne : k ≠ (j, q) := by
        intro heq
        subst heq
        refine free_iff.mp hfree ?_
        cases hreach with
        | stdin hi hf => exact .inl ⟨_, hf⟩
        | child hi hf => exact .inr ⟨_, List.mem_of_getElem? hi, _, hf⟩
      show Function.update s.pipe (j, q) (s.pipe (j, q) ++ bytes) k = []
      rw [Function.update_of_ne hne, hempty]
  | @read i j p q bytes rest hreach hpipe =>
    obtain ⟨rfl, rfl, -⟩ := h.holds.own_pipe hreach
    refine ⟨h.holds, h.kept, ?_, ?_⟩
    · intro k
      show Function.update s.got (j, q) (s.got (j, q) ++ bytes) k ++ Function.update s.pipe (j, q) rest k = s.put k
      by_cases hk : k = (j, q)
      · subst hk
        rw [Function.update_self, Function.update_self, List.append_assoc, ← hpipe, h.books]
      · rw [Function.update_of_ne hk, Function.update_of_ne hk, h.books]
    · intro k hk
      obtain ⟨hlt, hempty, hfree⟩ := h.ended k hk
      refine ⟨hlt, ?_, hfree⟩
      show Function.update s.pipe (j, q) rest k = []
      by_cases hne : k = (j, q)
      · subst hne
        rw [Function.update_self]
        exact (List.append_eq_nil_iff.mp (hpipe.symm.trans hempty)).2
      · rw [Function.update_of_ne hne, hempty]
  | @eof i j p q hreach hempty hnot =>
    obtain ⟨rfl, rfl, hlt⟩ := h.holds.own_pipe hreach
    refine ⟨h.holds, h.kept, h.books, ?_⟩
    intro k hk
    rcases List.mem_append.mp hk with hk | hk
    · exact h.ended k hk
    · rw [List.mem_singleton.mp hk]
      exact ⟨hlt, hempty, free_iff.mpr hnot⟩

theorem inv_reachable {t : Table φ} {s : Traffic φ} (h : Reachable pf t s) : Inv pf s := by
  induction h with
  | init =>
    refine ⟨holds_init pf t, ?_, fun _ => rfl, fun k hk => absurd hk List.not_mem_nil⟩
    cases pf with
    | unix => trivial
    | win32 =>
      intro x d hx
      obtain ⟨d₀, -, rfl⟩ := Option.map_eq_some_iff.mp hx
      exact .inl rfl
  | step _ hm ih => exact inv_moves ih hm

end Proofs

/-- On either platform, along any run in which each start meets the condition of its platform
    (`ReadyOn`): of each stream of each child, what was read and what
    is in the pipe is what was written to it; who reads the end of the file has read it all;
    and that end comes to the child after its stdin was closed, to the program after the
    child gave the stream up, and not before. -/
theorem bytes_delivered (t : Table φ) (s : Traffic φ) (hs : Reachable pf t s) (i : Nat) (h : Handle φ)
    (hi : s.sys.handles[i]? = some h) :
    (∀ p, s.got (i, p) ++ s.pipe (i, p) = s.put (i, p)) ∧
    (∀ p, (i, p) ∈ s.ends → s.got (i, p) = s.put (i, p)) ∧
    ((i, PipeName.stdin) ∈ s.ends → h.info.stdin = FD_INVALID) ∧
    (∀ p, childEnd p = some .write → (i, p) ∈ s.ends → ¬ h.child.Holds (.pipe i p .write)) ∧
    (h.info.stdin = FD_INVALID → ¬ s.sys.Held (.pipe i .stdin .write)) ∧
    ∀ p, childEnd p = some .write → ¬ h.child.Holds (.pipe i p .write) → ¬ s.sys.Held (.pipe i p .write) := by
  have hinv := inv_reachable hs
  refine ⟨fun p => hinv.books _, ?_, ?_, ?_, fun hfd => hinv.holds.parent_end (a := .stdin) hi hfd,
    fun p he hc => hinv.holds.child_end hi he hc⟩
  · intro p hk
    have hbooks := hinv.books (i, p)
    rwa [(hinv.ended _ hk).2.1, List.append_nil] at hbooks
  · intro hk
    by_contra hfd
    have hmine := ((hinv.holds.handle i h hi).mine .stdin (stdin_mem pf) hfd).2
    exact free_iff.mp (hinv.ended _ hk).2.2 (.inl ⟨_, hmine⟩)
  · intro p _ hk hc
    exact free_iff.mp (hinv.ended _ hk).2.2 (.inr ⟨h, List.mem_of_getElem? hi, hc⟩)

/-- A child with its stdin piped, which closes it; the child reads all there is. -/
theorem bytes_delivered_stdin : ∃ (s : Traffic Nat) (h : Handle Nat), s.sys.handles[0]? = some h ∧
    s.ends = [(0, .stdin)] ∧ h.info.stdin = FD_INVALID ∧ s.put (0, .stdin) = [104, 105] ∧ s.got (0, .stdin) = [104, 105] := by
  have hready : Unix.Ready (Unix.kernelAt (.named 3 4) .fails
      (.named 7 8) 100, { inheritStdout := true, inheritStderr := true })
      (System.init (Unix.callerTable false)).table := by
    refine ⟨⟨?_, ?_⟩, ?_, rfl⟩
    · intro x hcase
      rcases hcase with rfl | rfl | rfl <;> exact Option.some_ne_none _
    · intro r hcase hr
      rcases hcase with rfl | rfl | rfl <;> cases hr
    · intro x f hcase hf
      rcases hcase with rfl | rfl | rfl | rfl | rfl | rfl <;> cases hf <;> rfl
  have h₁ : Reachable .unix (Unix.callerTable false) _ := .step .init (.system (e := .start _) hready rfl)
  have h₂ := h₁.step (.write (i := 0) (j := 0) (q := .stdin) [104, 105] (.stdin rfl rfl))
  have h₃ := h₂.step (.read (i := 0) (j := 0) (q := .stdin) [104] [105] (.child (x := 0) rfl rfl) rfl)
  have h₄ := h₃.step (.system (e := .closeStdin 0) trivial rfl)
  have h₅ := h₄.step (.read (i := 0) (j := 0) (q := .stdin) [105] [] (.child (x := 0) rfl rfl) rfl)
  have h₆ := h₅.step (.eof (i := 0) (j := 0) (q := .stdin) (.child (x := 0) rfl rfl) rfl ((bytes_delivered .unix _ _ h₅ 0 _ rfl).2.2.2.2.1 rfl))
  have hend := bytes_delivered .unix _ _ h₆ 0 _ rfl
  exact ⟨_, _, rfl, rfl, hend.2.2.1 (by simp), rfl, hend.2.1 .stdin (by simp)⟩

end CovProcess.Holders
