/-
  CovProcess.File.Append — several handles in append mode on one file (see
  `CovProcess.File.Pointers`). On Unix the descriptor has `O_APPEND`; on Windows `open_file`
  moves the handle's pointer to the end once, and the end moves on with the writes of others.

  Proved: `append_lands_iff`, the writes that succeed all land at the end exactly if, on
  Windows, the pointer of the handle is there at each; `alone_lands`, one handle alone keeps
  it there. `two_handles` is a write on Windows over the bytes of another.
-/

import CovProcess.File.Pointers

namespace CovProcess.File.Pointers

open FilePointer Content

/-- Handles in append mode: what opens, writes, reads through `out()` and closes. -/
def Event.appends : Event → Bool
  | .fstream mode => mode = "a" || mode = "a+"
  | .write .. => true
  | .out .. => true
  | .close _ => true
  | .insert .. => false
  | .start _ => false
  | .child .. => false

/-- A successful `write` puts its bytes behind all the file has. -/
def Lands (p : Platform) (s : State) : Event → Prop
  | .write i data n onTime => ∀ h s', s.handles i = some h → step p s (.write i data n onTime) = some s' →
      State.reported h.obj data n onTime = true → s'.content = s.content ++ data.take n
  | _ => True

/-- A successful `write` that writes something finds the pointer of its handle at the end. -/
def AtEnd (s : State) : Event → Prop
  | .write i data n onTime => ∀ h, s.handles i = some h → State.reported h.obj data n onTime = true → 0 < n →
      h.desc.pos = s.content.length
  | _ => True

/-- The handles are all in append mode, as the platform has it. -/
def Appending (p : Platform) (s : State) : Prop :=
  ∀ i h, s.handles i = some h → h.obj.append = true ∧ (h.desc.append = true ↔ p = .unix)

section

variable {p : Platform} {s s' : State} {e : Event}

theorem appends_mode {mode : String} {m : Mode} (he : (Event.fstream mode).appends = true) (hm : parseMode mode = some m) :
    m.append = true ∧ m.createTrunc = false := by
  have hmode : mode = "a" ∨ mode = "a+" := by simpa [Event.appends] using he
  rcases hmode with rfl | rfl
  · cases hm
    exact ⟨rfl, rfl⟩
  · cases hm
    exact ⟨rfl, rfl⟩

theorem openDesc_append {m : Mode} (hm : m.append = true) (p : Platform) (size : Nat) :
    (p.openDesc m size).append = true ↔ p = .unix := by
  cases p with
  | unix => exact iff_of_true hm rfl
  | windows => exact iff_of_false Bool.false_ne_true nofun

theorem write_of_append {i : Nat} {h : Handle} (happend : h.obj.append = true) (data : List UInt8) (n : Nat)
    (onTime : Bool) : s.write i h data n onTime =
      { s.put i { h with obj := (h.obj.finish (.write data) onTime (toInt n) []).1,
                         desc := (h.desc.write 0 s.content (data.take n)).1 } with
        content := (h.desc.write 0 s.content (data.take n)).2
        landed := ⟨h.desc.start s.content.length, data.take n, State.reported h.obj data n onTime⟩ :: s.landed } :=
  if_pos happend

/-- What a handle is after a step: as before but for what the step is about. -/
theorem Appending.put (ha : Appending p s) {i : Nat} {h : Handle} (happend : h.obj.append = true)
    (hdesc : h.desc.append = true ↔ p = .unix) : Appending p (s.put i h) := by
  intro x g hg
  rw [State.put_handles] at hg
  split at hg
  · cases hg
    exact ⟨happend, hdesc⟩
  · exact ha x g hg

theorem appending_step (he : e.appends = true) (ha : Appending p s) (hs : step p s e = some s') : Appending p s' := by
  cases e with
  | fstream mode =>
    obtain ⟨m, hm, rfl⟩ := Option.map_eq_some_iff.mp hs
    obtain ⟨happend, -⟩ := appends_mode he hm
    have hput := ha.put (i := s.nhandles)
      (h := ⟨.openFile 0 m s.nhandles, p.openDesc m (if m.createTrunc then [] else s.content).length, false⟩) happend
      (openDesc_append happend p _)
    exact hput
  | write i data n onTime =>
    obtain ⟨h, hh, hs⟩ := Option.bind_eq_some_iff.mp hs
    obtain ⟨-, hs⟩ := Option.ite_none_right_eq_some.mp hs
    obtain ⟨happend, hdesc⟩ := ha i h hh
    rw [write_of_append happend, Option.some_inj] at hs
    subst hs
    exact ha.put (finish_append.trans happend) hdesc
  | out i n =>
    obtain ⟨h, hh, hs⟩ := Option.bind_eq_some_iff.mp hs
    obtain ⟨-, hs⟩ := Option.ite_none_right_eq_some.mp hs
    cases hs
    exact ha.put (ha i h hh).1 (ha i h hh).2
  | close i =>
    obtain ⟨h, hh, rfl⟩ := Option.map_eq_some_iff.mp hs
    exact ha.put (ha i h hh).1 (ha i h hh).2
  | insert i bytes n => cases he
  | start i => cases he
  | child i bytes => cases he

/-- One write, with what its handle has. -/
theorem lands_iff (ha : Appending p s) (hs : step p s e = some s') : Lands p s e ↔ p = .unix ∨ AtEnd s e := by
  cases e with
  | write i data n onTime =>
    obtain ⟨h, hh, hs'⟩ := Option.bind_eq_some_iff.mp hs
    obtain ⟨⟨-, -, hn⟩, hs'⟩ := Option.ite_none_right_eq_some.mp hs'
    obtain ⟨happend, hdesc⟩ := ha i h hh
    rw [write_of_append happend, Option.some_inj] at hs'
    have hcontent : s'.content = (h.desc.write 0 s.content (data.take n)).2 := by rw [← hs']
    have hlands : Lands p s (.write i data n onTime) ↔
        (State.reported h.obj data n onTime = true → s'.content = s.content ++ data.take n) := by
      constructor
      · intro hl
        exact hl h s' hh hs
      · intro hl g t hg ht
        rw [hh, Option.some_inj] at hg
        rw [hs, Option.some_inj] at ht
        rw [← hg, ← ht]
        exact hl
    have hend : AtEnd s (.write i data n onTime) ↔
        (State.reported h.obj data n onTime = true → 0 < n → h.desc.pos = s.content.length) := by
      refine ⟨fun hl => hl h hh, ?_⟩
      intro hl g hg
      rw [hh, Option.some_inj] at hg
      rw [← hg]
      exact hl
    rw [hlands, hend, hcontent]
    by_cases hzero : n = 0
    · rw [hzero, List.take_zero, List.append_nil]
      exact iff_of_true (fun _ => rfl) (.inr fun _ h => absurd h (Nat.lt_irrefl 0))
    · have hne : data.take n ≠ [] := List.ne_nil_of_length_pos (by rw [List.length_take]; omega)
      rw [h.desc.write_eq_append_iff s.content hne, hdesc]
      by_cases hp : p = .unix
      · exact iff_of_true (fun _ => .inl hp) (.inl hp)
      · simp only [hp, false_or]
        exact forall_congr' fun _ => ⟨fun h _ => h, fun h => h (by omega)⟩
  | fstream mode => exact iff_of_true trivial (.inr trivial)
  | insert i bytes n => exact iff_of_true trivial (.inr trivial)
  | start i => exact iff_of_true trivial (.inr trivial)
  | child i bytes => exact iff_of_true trivial (.inr trivial)
  | out i n => exact iff_of_true trivial (.inr trivial)
  | close i => exact iff_of_true trivial (.inr trivial)

end

/-- Any number of handles in append mode on a file, their writes and reads in any order. -/
theorem append_lands_iff (p : Platform) (content : List UInt8) (es : List Event) (hes : ∀ e ∈ es, e.appends = true)
    (s : State) (h : run p { content := content } es = some s) :
    Runs.Meets (step p) (Lands p) { content := content } es ↔
      p = .unix ∨ Runs.Meets (step p) AtEnd { content := content } es := by
  have h0 : Appending p { content := content } := nofun
  have hcongr := Runs.meets_congr (A := fun e => e.appends = true) (Q := fun s e => p = .unix ∨ AtEnd s e)
    (fun s e s' he ha hs => appending_step he ha hs) (fun s e s' _ ha hs => lands_iff ha hs) h0 hes h
  rw [hcongr]
  by_cases hp : p = .unix
  · exact iff_of_true (Runs.meets_of_forall fun _ _ _ => .inl hp) (.inl hp)
  · simp only [hp, false_or]

/-! ## One handle -/

/-- The first handle is the only one, and its writes land at the end. -/
def Alone (s : State) : Prop :=
  ∀ i h, s.handles i = some h → i = 0 ∧ h.obj.append = true ∧ h.desc.start s.content.length = s.content.length

theorem Alone.put {s t : State} (ha : Alone s) {i : Nat} {h : Handle} (ht : t.handles = (s.put i h).handles) (hi : i = 0)
    (happend : h.obj.append = true) (hstart : h.desc.start t.content.length = t.content.length) : Alone t := by
  intro x g hput
  rw [ht, State.put_handles] at hput
  split at hput
  · rename_i hx
    cases hput
    exact ⟨hx.trans hi, happend, hstart⟩
  · rename_i hx
    exact absurd ((ha x g hput).1.trans hi.symm) hx

theorem alone_step {p : Platform} {s s' : State} {e : Event} (he : e.appends = true) (hopen : ∀ mode, e ≠ .fstream mode)
    (ha : Alone s) (hs : step p s e = some s') : Alone s' := by
  cases e with
  | fstream mode => exact absurd rfl (hopen mode)
  | write i data n onTime =>
    obtain ⟨h, hh, hs⟩ := Option.bind_eq_some_iff.mp hs
    obtain ⟨-, hs⟩ := Option.ite_none_right_eq_some.mp hs
    obtain ⟨hi, happend, hstart⟩ := ha i h hh
    rw [write_of_append happend, Option.some_inj] at hs
    subst hs
    refine ha.put rfl hi (finish_append.trans happend) ?_
    cases hflag : h.desc.append with
    | true => exact if_pos hflag
    | false => exact (if_neg (ne_true_of_eq_false hflag)).trans (h.desc.write_pos_end s.content _ hstart)
  | out i n =>
    obtain ⟨h, hh, hs⟩ := Option.bind_eq_some_iff.mp hs
    obtain ⟨⟨-, -, hn⟩, hs⟩ := Option.ite_none_right_eq_some.mp hs
    cases hs
    obtain ⟨hi, happend, hstart⟩ := ha i h hh
    refine ha.put rfl hi happend ?_
    cases hflag : h.desc.append with
    | true => exact if_pos hflag
    | false =>
      -- there is nothing to read
      have hpos : h.desc.pos = s.content.length := (if_neg (ne_true_of_eq_false hflag)).symm.trans hstart
      rw [hpos, List.drop_length, List.length_nil] at hn
      have hzero : n = 0 := by omega
      subst hzero
      exact hstart
  | close i =>
    obtain ⟨h, hh, rfl⟩ := Option.map_eq_some_iff.mp hs
    obtain ⟨hi, happend, hstart⟩ := ha i h hh
    exact ha.put rfl hi happend hstart
  | insert i bytes n => cases he
  | start i => cases he
  | child i bytes => cases he

/-- One handle alone on a file appends on either platform. -/
theorem alone_lands (p : Platform) (content : List UInt8) (mode : String) (hmode : (Event.fstream mode).appends = true)
    (es : List Event) (hes : ∀ e ∈ es, e.appends = true ∧ ∀ mode, e ≠ .fstream mode) (s : State)
    (h : run p { content := content } (.fstream mode :: es) = some s) :
    Runs.Meets (step p) (Lands p) { content := content } (.fstream mode :: es) := by
  obtain ⟨t, ht, h⟩ := Runs.exec_cons.mp h
  obtain ⟨m, hm, rfl⟩ := Option.map_eq_some_iff.mp ht
  obtain ⟨happend, htrunc⟩ := appends_mode hmode hm
  have hnone : Appending p { content := content } := nofun
  have halone : Alone (State.openFile p { content := content } m) := by
    refine Alone.put (s := { content := content }) nofun rfl rfl happend ?_
    cases p with
    | unix => exact if_pos happend
    | windows => exact (if_neg Bool.false_ne_true).trans (if_pos happend)
  refine (Runs.meets_cons ht).mpr ⟨trivial, ?_⟩
  have hcongr := Runs.meets_congr (A := fun e => e.appends = true ∧ ∀ mode, e ≠ .fstream mode)
    (I := fun s => Appending p s ∧ Alone s) (P := Lands p) (Q := fun _ _ => True)
    (fun s e s' he hI hs => ⟨appending_step he.1 hI.1 hs, alone_step he.1 he.2 hI.2 hs⟩)
    (by
      intro s e s' he hI hs
      refine iff_of_true ((lands_iff hI.1 hs).mpr ?_) trivial
      cases e with
      | write i data n onTime =>
        by_cases hp : p = .unix
        · exact .inl hp
        · refine .inr fun h hh _ _ => ?_
          obtain ⟨-, hdesc⟩ := hI.1 i h hh
          have hflag : ¬ h.desc.append = true := fun h => hp (hdesc.mp h)
          exact (if_neg hflag).symm.trans (hI.2 i h hh).2.2
      | _ => exact .inr trivial)
    ⟨appending_step hmode hnone ht, halone⟩ hes h
  exact hcongr.mpr (Runs.meets_of_forall fun _ _ _ => trivial)

/-- Two handles write in turn. -/
def inTurn : List Event := [.fstream "a", .fstream "a", .write 0 [1] 1 true, .write 1 [2] 1 true]

theorem append_lands_iff_unix :
    ∃ s, run .unix {} inTurn = some s ∧ s.content = [1, 2] ∧ Runs.Meets (step .unix) (Lands .unix) {} inTurn :=
  ⟨_, rfl, rfl, (append_lands_iff .unix [] inTurn (by decide) _ rfl).mpr (.inl rfl)⟩

/-- On Windows the second write is over the first. -/
theorem two_handles :
    ∃ s, (∀ e ∈ inTurn, e.appends = true) ∧ run .windows {} inTurn = some s ∧ s.content = [2] ∧
      ¬ Runs.Meets (step .windows) (Lands .windows) {} inTurn := by
  refine ⟨_, by decide, rfl, rfl, ?_⟩
  intro hl
  have hlast := (hl.2 _ rfl).2 _ rfl |>.2 _ rfl |>.1 _ _ rfl rfl rfl
  cases hlast

end CovProcess.File.Pointers
