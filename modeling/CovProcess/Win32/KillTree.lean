/-
  CovProcess.Win32.KillTree — what `kill_tree` terminates (see
  `CovProcess.Win32.Processes`). The walk goes by the parent PIDs of a snapshot, and
  `terminate_by_pid` by the PIDs it found. `terminate_process_tree` checks that the root
  has not exited, as its PID may have been given out again; it does not check this of the
  parents and PIDs that it meets.

  Proved: `kill_tree_iff`, for any history of creations, exits and reuse of PIDs around and
  during the call: only processes of the root's tree can be terminated exactly when no
  process outside it has the PID of one in it as its parent's, and none is created with a
  PID that is still to be terminated; and `foster_child`, a process that a call
  terminates because the PID of its creator was given to the root.
-/

import CovProcess.Win32.Processes

namespace CovProcess.Win32.Tree

open State StackWalk

/-! ## What is claimed -/

/-- Created by the root, through any number of creations, or the root. -/
def InTree (s : State) : Nat → Nat → Prop :=
  Relation.ReflTransGen fun a b => ∃ p, s.procs b = some p ∧ p.creator = some a

/-- The root's PID, or one that parent PIDs of the snapshot lead to from it. -/
def Linked (snap : List ProcessEntry) : Nat → Nat → Prop := Relation.ReflTransGen (Edge (children snap))

def Spared (current pid : Nat) : Prop := pid = 0 ∨ pid = current

/-- No process of a snapshot, unless it is of the root's tree or spared, has as its parent's
    a PID that is linked to the root; and none outside the tree gets a PID that is still to
    be terminated. -/
def NoReuse (current : Nat) (s : State) : Event → Prop
  | .snapshot (some l) _ => ∀ root p, s.call = some ⟨root, .checked⟩ → s.procs root = some p → p.pid ≠ 0 →
      ∀ j q, j ∈ l → s.procs j = some q → Linked (l.filterMap s.entry) p.pid q.parentPid → Spared current q.pid ∨ InTree s root j
  | .create parent pid => ∀ root todo, s.call = some ⟨root, .terminating todo⟩ → pid ∈ todo →
      Spared current pid ∨ InTree s root parent
  | _ => True

def Event.adds : Event → Bool
  | .create .. => true
  | .snapshot .. => true
  | _ => false

/-- Whatever follows, short of creations and snapshots, no process outside the tree of a
    call is terminated. -/
def Safe (current : Nat) (s : State) : Prop :=
  ∀ es t, (∀ e ∈ es, e.adds = false) → run current s es = some t → ∀ k ∈ t.terminated, InTree t k.1 k.2

/-! ## The walk -/

theorem edge_iff {snap : List ProcessEntry} {a b : Nat} :
    Edge (children snap) a b ↔ ∃ pe ∈ snap, pe.th32ParentProcessID = a ∧ pe.th32ProcessID = b := by
  unfold Edge children
  rw [List.mem_map]
  constructor
  · intro h
    obtain ⟨pe, hpe, hb⟩ := h
    rw [List.mem_filter, decide_eq_true_eq] at hpe
    exact ⟨pe, hpe.1, hpe.2, hb⟩
  · intro h
    obtain ⟨pe, hpe, ha, hb⟩ := h
    exact ⟨pe, List.mem_filter.mpr ⟨hpe, decide_eq_true ha⟩, hb⟩

theorem mem_order_iff_transGen {snap : List ProcessEntry} {rootPid turns : Nat} {l : List Nat}
    (h : order snap rootPid turns = some l) (pid : Nat) :
    pid ∈ l ↔ Relation.TransGen (Edge (children snap)) rootPid pid := by
  have hreach : Reach (children snap) (children snap rootPid).reverse pid ↔
      Relation.TransGen (Edge (children snap)) rootPid pid := by
    rw [Relation.TransGen.head'_iff]
    exact exists_congr fun y => and_congr_left fun _ => List.mem_reverse
  rw [mem_walk_iff h, hreach]
  simp only [List.not_mem_nil, false_or]

/-- The walk finds the processes whose parent PID is linked to the root's. -/
theorem mem_order_iff {snap : List ProcessEntry} {rootPid turns : Nat} {l : List Nat}
    (h : order snap rootPid turns = some l) (pid : Nat) :
    pid ∈ l ↔ ∃ pe ∈ snap, pe.th32ProcessID = pid ∧ Linked snap rootPid pe.th32ParentProcessID := by
  rw [mem_order_iff_transGen h, Relation.TransGen.tail'_iff]
  simp only [edge_iff]
  constructor
  · intro h
    obtain ⟨_, hl, pe, hpe, rfl, hpid⟩ := h
    exact ⟨pe, hpe, hpid, hl⟩
  · intro h
    obtain ⟨pe, hpe, hpid, hl⟩ := h
    exact ⟨_, hl, pe, hpe, rfl, hpid⟩

/-! ## The invariants -/

/-- The process has an object: it runs, or a handle of it is open. -/
def Held (s : State) (j : Nat) : Prop := ∃ p, s.procs j = some p ∧ p.life ≠ .gone

/-- A PID names one process, a creator comes before what it created and gave it its own
    PID as the parent's, and the caller's handle keeps the root. -/
structure World (s : State) : Prop where
  bound : ∀ j p, s.procs j = some p → j < s.n
  unique : ∀ i j p q, s.procs i = some p → s.procs j = some q → p.life ≠ .gone → q.life ≠ .gone → p.pid = q.pid → i = j
  creator : ∀ j p c, s.procs j = some p → p.creator = some c → c < j ∧ ∃ q, s.procs c = some q ∧ p.parentPid = q.pid
  root : ∀ c, s.call = some c → Held s c.root

/-- What is still to be terminated, where it runs, is in the tree, as is what was. -/
structure Own (current : Nat) (s : State) : Prop where
  terminated : ∀ k ∈ s.terminated, InTree s k.1 k.2
  todo : ∀ root todo, s.call = some ⟨root, .terminating todo⟩ → ∀ pid ∈ todo, ¬ Spared current pid → ∀ j p,
    s.procs j = some p → p.pid = pid → p.life = .running → InTree s root j

section

variable {current : Nat} {s s' : State}

theorem isRunning_iff {j : Nat} : s.isRunning j = true ↔ ∃ p, s.procs j = some p ∧ p.life = .running := by
  unfold State.isRunning
  rw [Option.any_eq_true]
  exact exists_congr fun p => and_congr_right fun _ => decide_eq_true_iff

theorem holder_some {pid j : Nat} (h : s.holder pid = some j) :
    ∃ p, s.procs j = some p ∧ p.pid = pid ∧ p.life ≠ .gone := by
  have hj := List.find?_some h
  rw [Option.any_eq_true] at hj
  obtain ⟨p, hp, hpid⟩ := hj
  exact ⟨p, hp, of_decide_eq_true hpid⟩

theorem World.holder (h : World s) {j : Nat} {p : Process} (hp : s.procs j = some p) (hlife : p.life ≠ .gone) :
    s.holder p.pid = some j := by
  cases hh : s.holder p.pid with
  | none =>
    have hnone := List.find?_eq_none.mp hh j (List.mem_range.mpr (h.bound j p hp))
    exact absurd (by rw [hp]; simp [hlife]) hnone
  | some i =>
    obtain ⟨q, hq, hpid, hlive⟩ := holder_some hh
    rw [h.unique i j q p hq hp hlive hlife hpid]

theorem holder_none (hw : World s) {pid : Nat} (h : s.holder pid = none) {j : Nat} {p : Process}
    (hp : s.procs j = some p) (hlife : p.life ≠ .gone) : p.pid ≠ pid := by
  intro heq
  rw [← heq, hw.holder hp hlife] at h
  cases h

/-! ## Steps that create nothing -/

/-- The processes and who created them stay, and none comes back to life. -/
structure Ages (s s' : State) : Prop where
  n : s'.n = s.n
  procs : ∀ j p', s'.procs j = some p' → ∃ p, s.procs j = some p ∧ p'.pid = p.pid ∧ p'.creator = p.creator ∧
    p'.parentPid = p.parentPid ∧ (p'.life = .running → p.life = .running) ∧ (p'.life ≠ .gone → p.life ≠ .gone)
  keeps : ∀ j p, s.procs j = some p → ∃ p', s'.procs j = some p' ∧ p'.pid = p.pid ∧ p'.creator = p.creator

theorem Ages.of_procs (hn : s'.n = s.n) (hp : s'.procs = s.procs) : Ages s s' := by
  refine ⟨hn, ?_, ?_⟩
  · intro j p hj
    rw [hp] at hj
    exact ⟨p, hj, rfl, rfl, rfl, id, id⟩
  · intro j p hj
    rw [← hp] at hj
    exact ⟨p, hj, rfl, rfl⟩

theorem Ages.trans {s'' : State} (h : Ages s s') (h' : Ages s' s'') : Ages s s'' where
  n := h'.n.trans h.n
  procs j p'' hj := by
    obtain ⟨p', hp', h1, h2, h3, h4, h5⟩ := h'.procs j p'' hj
    obtain ⟨p, hp, g1, g2, g3, g4, g5⟩ := h.procs j p' hp'
    exact ⟨p, hp, h1.trans g1, h2.trans g2, h3.trans g3, g4 ∘ h4, g5 ∘ h5⟩
  keeps j p hj := by
    obtain ⟨p', hp', h1, h2⟩ := h.keeps j p hj
    obtain ⟨p'', hp'', g1, g2⟩ := h'.keeps j p' hp'
    exact ⟨p'', hp'', g1.trans h1, g2.trans h2⟩

theorem Ages.inTree (h : Ages s s') (a b : Nat) : InTree s' a b ↔ InTree s a b := by
  have hedge : (fun a b => ∃ p, s'.procs b = some p ∧ p.creator = some a) =
      fun a b => ∃ p, s.procs b = some p ∧ p.creator = some a := by
    funext a b
    refine propext ⟨fun ⟨p', hp', hc⟩ => ?_, fun ⟨p, hp, hc⟩ => ?_⟩
    · obtain ⟨p, hp, -, hcreator, -⟩ := h.procs b p' hp'
      exact ⟨p, hp, hcreator ▸ hc⟩
    · obtain ⟨p', hp', -, hcreator⟩ := h.keeps b p hp
      exact ⟨p', hp', hcreator.trans hc⟩
  unfold InTree
  rw [hedge]

theorem setLife_procs (s : State) (j : Nat) (life : Life) (x : Nat) :
    (s.setLife j life).procs x = if x = j then (s.procs j).map fun p => { p with life := life } else s.procs x :=
  Function.update_apply ..

theorem ages_setLife {j : Nat} {p : Process} {life : Life} (hp : s.procs j = some p) (hlife : life ≠ .running)
    (hgone : p.life ≠ .gone) : Ages s (s.setLife j life) := by
  refine ⟨rfl, ?_, ?_⟩
  · intro x p' hx
    rw [setLife_procs] at hx
    split at hx
    · rename_i hxj
      rw [hp] at hx
      cases hx
      exact ⟨p, hxj ▸ hp, rfl, rfl, rfl, fun hr => absurd hr hlife, fun _ => hgone⟩
    · exact ⟨p', hx, rfl, rfl, rfl, id, id⟩
  · intro x q hx
    rw [setLife_procs]
    split
    · rename_i hxj
      rw [hxj, hp] at hx
      cases hx
      exact ⟨{ p with life := life }, by rw [hp]; rfl, rfl, rfl⟩
    · exact ⟨q, hx, rfl, rfl⟩

theorem ages_terminate (s : State) (root j : Nat) : Ages s (s.terminate root j) := by
  unfold State.terminate
  split
  · rename_i hr
    obtain ⟨p, hp, hlife⟩ := isRunning_iff.mp hr
    have h : Ages s (s.setLife j .exited) := ages_setLife hp (by decide) (by rw [hlife]; decide)
    exact ⟨h.n, h.procs, h.keeps⟩
  · exact .of_procs rfl rfl

theorem held_setLife {j r : Nat} {life : Life} (h : Held s r) (hlife : r = j → life ≠ .gone) : Held (s.setLife j life) r := by
  obtain ⟨p, hp, hlive⟩ := h
  unfold Held
  rw [setLife_procs]
  split
  · rename_i hrj
    exact ⟨{ p with life := life }, by rw [← hrj, hp]; rfl, hlife hrj⟩
  · exact ⟨p, hp, hlive⟩

theorem held_terminate {r : Nat} (root j : Nat) (h : Held s r) : Held (s.terminate root j) r := by
  unfold State.terminate
  split
  · exact held_setLife h fun _ => by decide
  · exact h

theorem World.age (h : World s) (ha : Ages s s') (hroot : ∀ c, s'.call = some c → Held s' c.root) : World s' where
  bound j p' hj := by
    obtain ⟨p, hp, -⟩ := ha.procs j p' hj
    rw [ha.n]
    exact h.bound j p hp
  unique i j p' q' hi hj hp hq heq := by
    obtain ⟨p, hp', hpid, -, -, -, hlive⟩ := ha.procs i p' hi
    obtain ⟨q, hq', hpid', -, -, -, hlive'⟩ := ha.procs j q' hj
    exact h.unique i j p q hp' hq' (hlive hp) (hlive' hq) (hpid.symm.trans (heq.trans hpid'))
  creator j p' c hj hc := by
    obtain ⟨p, hp, -, hcreator, hparent, -⟩ := ha.procs j p' hj
    obtain ⟨hlt, q, hq, hpid⟩ := h.creator j p c hp (hcreator ▸ hc)
    obtain ⟨q', hq', hpid', -⟩ := ha.keeps c q hq
    exact ⟨hlt, q', hq', hparent.trans (hpid.trans hpid'.symm)⟩
  root := hroot

theorem terminateByPid_cases (root pid : Nat) (opened : Bool) :
    s.terminateByPid current root pid opened = s ∨
      ∃ j p, ¬ Spared current pid ∧ s.procs j = some p ∧ p.pid = pid ∧ s.terminateByPid current root pid opened = s.terminate root j := by
  unfold State.terminateByPid
  split
  · exact .inl rfl
  · rename_i hspared
    split
    · rename_i j hj
      obtain ⟨p, hp, hpid, -⟩ := holder_some hj
      cases opened
      · exact .inl rfl
      · exact .inr ⟨j, p, hspared, hp, hpid, rfl⟩
    · exact .inl rfl

/-! ## Creation -/

theorem create_procs (s : State) (parent parentPid pid x : Nat) :
    (s.create parent parentPid pid).procs x =
      if x = s.n then some { pid := pid, creator := some parent, parentPid := parentPid } else s.procs x :=
  Function.update_apply ..

theorem World.create (h : World s) {parent pid : Nat} {p : Process} (hp : s.procs parent = some p)
    (hfree : s.holder pid = none) : World (s.create parent p.pid pid) := by
  have hlt := h.bound parent p hp
  have hnew : ∀ j q, s.procs j = some q → q.life ≠ .gone → q.pid ≠ pid := fun j q => holder_none h hfree
  refine ⟨?_, ?_, ?_, ?_⟩
  · intro j q hj
    show j < s.n + 1
    rw [create_procs] at hj
    split at hj
    · omega
    · have := h.bound j q hj
      omega
  · intro i j q r hi hj hq hr heq
    rw [create_procs] at hi hj
    split at hi
    · rename_i hin
      split at hj
      · rename_i hjn
        exact hin.trans hjn.symm
      · cases hi
        exact absurd heq.symm (hnew j r hj hr)
    · split at hj
      · cases hj
        exact absurd heq (hnew i q hi hq)
      · exact h.unique i j q r hi hj hq hr heq
  · intro j q c hj hc
    rw [create_procs] at hj
    split at hj
    · rename_i hjn
      cases hj
      cases hc
      refine ⟨by omega, p, ?_, rfl⟩
      rw [create_procs, if_neg (by omega)]
      exact hp
    · obtain ⟨hcj, r, hr, hpid⟩ := h.creator j q c hj hc
      have := h.bound j q hj
      refine ⟨hcj, r, ?_, hpid⟩
      rw [create_procs, if_neg (by omega)]
      exact hr
  · intro c hc
    obtain ⟨q, hq, hlive⟩ := h.root c hc
    have := h.bound _ q hq
    refine ⟨q, ?_, hlive⟩
    rw [create_procs, if_neg (by omega)]
    exact hq

theorem World.mono_create (h : World s) {parent parentPid pid a b : Nat} (ht : InTree s a b) :
    InTree (s.create parent parentPid pid) a b := by
  induction ht with
  | refl => exact .refl
  | @tail b c _ hstep ih =>
    obtain ⟨q, hq, hc⟩ := hstep
    have := h.bound c q hq
    refine ih.tail ⟨q, ?_, hc⟩
    rw [create_procs, if_neg (by omega)]
    exact hq

/-- What is created is in the tree where its creator is. -/
theorem World.inTree_create (h : World s) {parent pid root : Nat} {p : Process} (hp : s.procs parent = some p)
    (hroot : root < s.n) : InTree (s.create parent p.pid pid) root s.n ↔ InTree s root parent := by
  have hlt := h.bound parent p hp
  have hold : ∀ j, j < s.n → InTree (s.create parent p.pid pid) root j → InTree s root j := by
    intro j hj ht
    induction ht with
    | refl => exact .refl
    | @tail b c _ hstep ih =>
      obtain ⟨q, hq, hc⟩ := hstep
      rw [create_procs, if_neg (by omega)] at hq
      have := (h.creator c q b hq hc).1
      exact (ih (by omega)).tail ⟨q, hq, hc⟩
  constructor
  · intro ht
    rcases Relation.ReflTransGen.cases_tail ht with heq | ⟨b, hb, q, hq, hc⟩
    · omega
    · rw [create_procs, if_pos rfl] at hq
      cases hq
      cases hc
      exact hold parent hlt hb
  · intro ht
    refine (h.mono_create ht).tail ⟨{ pid := pid, creator := some parent, parentPid := p.pid }, ?_, rfl⟩
    rw [create_procs, if_pos rfl]

/-! ## The steps -/

theorem Own.age (h : Own current s) (ha : Ages s s') (hterm : ∀ k ∈ s'.terminated, InTree s k.1 k.2)
    (hcall : ∀ root todo, s'.call = some ⟨root, .terminating todo⟩ →
      ∃ todo', s.call = some ⟨root, .terminating todo'⟩ ∧ ∀ pid ∈ todo, pid ∈ todo') : Own current s' where
  terminated k hk := (ha.inTree ..).mpr (hterm k hk)
  todo root todo hc pid hpid hspared j p' hj hp hlife := by
    obtain ⟨todo', hc', hsub⟩ := hcall root todo hc
    obtain ⟨p, hp', hpid', -, -, hrun, -⟩ := ha.procs j p' hj
    exact (ha.inTree ..).mpr (h.todo root todo' hc' pid (hsub pid hpid) hspared j p hp' (hpid'.symm.trans hp) (hrun hlife))

theorem terminate_call (s : State) (root j : Nat) : (s.terminate root j).call = s.call := by
  unfold State.terminate
  split <;> rfl

theorem mem_terminate {root j : Nat} {k : Nat × Nat} (h : k ∈ (s.terminate root j).terminated) :
    k ∈ s.terminated ∨ (k = (root, j) ∧ s.isRunning j = true) := by
  unfold State.terminate at h
  split at h
  · rename_i hr
    rcases List.mem_cons.mp h with rfl | h
    · exact .inr ⟨rfl, hr⟩
    · exact .inl h
  · exact .inl h

/-- A step that creates nothing and does not walk. -/
theorem quiet_step {e : Event} (hw : World s) (he : e.adds = false) (hs : step current s e = some s') :
    Ages s s' ∧ (∀ c, s'.call = some c → Held s' c.root) ∧ (Own current s → Own current s') := by
  cases e with
  | create parent pid => cases he
  | snapshot snap turns => cases he
  | exit j =>
    obtain ⟨hr, hs⟩ := Option.ite_none_right_eq_some.mp hs
    cases hs
    obtain ⟨p, hp, hlife⟩ := isRunning_iff.mp hr
    have ha : Ages s (s.setLife j .exited) := ages_setLife hp (by decide) (by rw [hlife]; decide)
    exact ⟨ha, fun c hc => held_setLife (hw.root c hc) fun _ => by decide,
      fun ho => ho.age ha ho.terminated fun root todo hc => ⟨todo, hc, fun _ => id⟩⟩
  | free j =>
    obtain ⟨⟨hexited, hroot⟩, hs⟩ := Option.ite_none_right_eq_some.mp hs
    cases hs
    obtain ⟨p, hp, hlife⟩ := (Option.any_eq_true ..).mp hexited
    have hlive : p.life ≠ .gone := by rw [of_decide_eq_true hlife]; decide
    have ha : Ages s (s.setLife j .gone) := ages_setLife hp (by decide) hlive
    refine ⟨ha, fun c hc => held_setLife (hw.root c hc) ?_,
      fun ho => ho.age ha ho.terminated fun root todo hc => ⟨todo, hc, fun _ => id⟩⟩
    intro hj
    have hcall : s.call = some c := hc
    rw [hcall] at hroot
    exact absurd hj (of_decide_eq_true hroot)
  | killTree root =>
    obtain ⟨hnone, hs⟩ := Option.ite_none_right_eq_some.mp hs
    obtain ⟨p, hp, hs⟩ := Option.bind_eq_some_iff.mp hs
    cases hlife : p.life with
    | running =>
      simp only [hlife] at hs
      cases hs
      have ha : Ages s { s with call := some ⟨root, .checked⟩ } := .of_procs rfl rfl
      refine ⟨ha, ?_, fun ho => ho.age ha ho.terminated fun root todo hc => by cases hc⟩
      intro c hc
      cases hc
      exact ⟨p, hp, by rw [hlife]; decide⟩
    | exited =>
      simp only [hlife] at hs
      cases hs
      exact ⟨.of_procs rfl rfl, hw.root, id⟩
    | gone =>
      simp only [hlife] at hs
      cases hs
  | terminateByPid opened =>
    simp only [step] at hs
    split at hs
    · rename_i root pid todo hcall
      cases hs
      have hsame : Ages s { s with call := some ⟨root, .terminating todo⟩ } := .of_procs rfl rfl
      have hroot : Held { s with call := some ⟨root, .terminating todo⟩ } root := hw.root _ hcall
      have hsub : ∀ root' todo', some (Call.mk root (.terminating todo)) = some ⟨root', .terminating todo'⟩ →
          ∃ todo'', s.call = some ⟨root', .terminating todo''⟩ ∧ ∀ pid ∈ todo', pid ∈ todo'' := by
        intro root' todo' hc
        cases hc
        exact ⟨_, hcall, fun _ => List.mem_cons_of_mem _⟩
      rcases @terminateByPid_cases current { s with call := some ⟨root, .terminating todo⟩ } root pid opened with
        heq | ⟨j, p, hspared, hp, hpid, heq⟩
      · rw [heq]
        refine ⟨hsame, ?_, fun ho => ho.age hsame ho.terminated hsub⟩
        intro c hc
        cases hc
        exact hroot
      · rw [heq]
        have ha := hsame.trans (ages_terminate { s with call := some ⟨root, .terminating todo⟩ } root j)
        refine ⟨ha, ?_, fun ho => ho.age ha ?_ ?_⟩
        · intro c hc
          rw [terminate_call] at hc
          cases hc
          exact held_terminate root j hroot
        · intro k hk
          rcases mem_terminate hk with hk | ⟨rfl, hr⟩
          · exact ho.terminated k hk
          · obtain ⟨q, hq, hlife⟩ := isRunning_iff.mp hr
            have hq' : s.procs j = some q := hq
            have hp' : s.procs j = some p := hp
            rw [hp'] at hq'
            cases hq'
            exact ho.todo root _ hcall pid List.mem_cons_self hspared j p hp hpid hlife
        · intro root' todo' hc
          rw [terminate_call] at hc
          exact hsub root' todo' hc
    · cases hs
  | terminateRoot =>
    simp only [step] at hs
    split at hs
    · rename_i root hcall
      cases hs
      have ha : Ages s { s.terminate root root with call := none } :=
        (ages_terminate s root root).trans (.of_procs rfl rfl)
      refine ⟨ha, fun c hc => (by cases hc), fun ho => ho.age ha ?_ fun root' todo' hc => by cases hc⟩
      intro k hk
      rcases mem_terminate hk with hk | ⟨rfl, -⟩
      · exact ho.terminated k hk
      · exact .refl
    · cases hs

/-- A walk that ends leaves what it found to be terminated. -/
theorem snapshot_cases {snap : Option (List Nat)} {turns : Nat} (hs : step current s (.snapshot snap turns) = some s') :
    ∃ root p todo, s.call = some ⟨root, .checked⟩ ∧ s.procs root = some p ∧
      s' = { s with call := some ⟨root, .terminating todo⟩ } ∧
      (todo = [] ∧ (snap = none ∨ p.pid = 0) ∨
        ∃ l, snap = some l ∧ p.pid ≠ 0 ∧ (∀ j ∈ l, s.isRunning j = true) ∧
          order (l.filterMap s.entry) p.pid turns = some todo) := by
  simp only [step] at hs
  split at hs
  · rename_i root hcall
    obtain ⟨p, hp, hs⟩ := Option.bind_eq_some_iff.mp hs
    cases snap with
    | none =>
      cases hs
      exact ⟨root, p, [], hcall, hp, rfl, .inl ⟨rfl, .inl rfl⟩⟩
    | some l =>
      simp only at hs
      split at hs
      · rename_i h0
        cases hs
        exact ⟨root, p, [], hcall, hp, rfl, .inl ⟨rfl, .inr h0⟩⟩
      · rename_i h0
        obtain ⟨hall, hs⟩ := Option.ite_none_right_eq_some.mp hs
        obtain ⟨todo, htodo, rfl⟩ := Option.map_eq_some_iff.mp hs
        exact ⟨root, p, todo, hcall, hp, rfl, .inr ⟨l, rfl, h0, List.all_eq_true.mp hall, htodo⟩⟩
  · cases hs

theorem entry_mem {l : List Nat} {pe : ProcessEntry} (h : pe ∈ l.filterMap s.entry) :
    ∃ j p, j ∈ l ∧ s.procs j = some p ∧ pe = ⟨p.pid, p.parentPid⟩ := by
  obtain ⟨j, hj, he⟩ := List.mem_filterMap.mp h
  obtain ⟨p, hp, rfl⟩ := Option.map_eq_some_iff.mp he
  exact ⟨j, p, hj, hp, rfl⟩

/-- A walk leaves to be terminated only what is in the tree exactly when no PID led out of
    it. -/
theorem own_snapshot_iff (hw : World s) (h : Own current s) {snap : Option (List Nat)} {turns : Nat}
    (hs : step current s (.snapshot snap turns) = some s') : Own current s' ↔ NoReuse current s (.snapshot snap turns) := by
  obtain ⟨root, p, todo, hcall, hp, rfl, htodo⟩ := snapshot_cases hs
  have ha : Ages s { s with call := some ⟨root, .terminating todo⟩ } := .of_procs rfl rfl
  rcases htodo with ⟨rfl, hnone⟩ | ⟨l, rfl, h0, hall, horder⟩
  · refine iff_of_true ⟨fun k hk => (ha.inTree ..).mpr (h.terminated k hk), ?_⟩ ?_
    · intro root' todo' hc pid hpid
      cases hc
      cases hpid
    · cases snap with
      | none => trivial
      | some l =>
        intro root' p' hcall' hp' h0'
        rw [hcall] at hcall'
        cases hcall'
        rw [hp] at hp'
        cases hp'
        exact absurd (hnone.resolve_left nofun) h0'
  · constructor
    · intro ho root' p' hcall' hp' _ j q hj hq hlinked
      rw [hcall] at hcall'
      cases hcall'
      rw [hp] at hp'
      cases hp'
      by_cases hspared : Spared current q.pid
      · exact .inl hspared
      · right
        obtain ⟨q', hq', hlife⟩ := isRunning_iff.mp (hall j hj)
        rw [hq] at hq'
        cases hq'
        have hmem : q.pid ∈ todo := (mem_order_iff horder q.pid).mpr
          ⟨⟨q.pid, q.parentPid⟩, List.mem_filterMap.mpr ⟨j, hj, by rw [State.entry, hq]; rfl⟩, rfl, hlinked⟩
        exact (ha.inTree ..).mp (ho.todo root todo rfl q.pid hmem hspared j q hq rfl hlife)
    · intro hn
      refine ⟨fun k hk => (ha.inTree ..).mpr (h.terminated k hk), ?_⟩
      intro root' todo' hc pid hpid hspared j q hq hqpid hlife
      cases hc
      obtain ⟨pe, hpe, rfl, hlinked⟩ := (mem_order_iff horder pid).mp hpid
      obtain ⟨i, r, hi, hr, rfl⟩ := entry_mem hpe
      obtain ⟨r', hr', hrlife⟩ := isRunning_iff.mp (hall i hi)
      rw [hr] at hr'
      cases hr'
      -- the process that has the PID now is the one of the snapshot
      have heq : j = i := hw.unique j i q r hq hr (by rw [hlife]; decide) (by rw [hrlife]; decide) hqpid
      subst heq
      exact (ha.inTree ..).mpr ((hn root p hcall hp h0 j r hi hr hlinked).resolve_left hspared)

theorem own_create_iff (hw : World s) (h : Own current s) {parent pid : Nat} {p : Process} (hp : s.procs parent = some p) :
    Own current (s.create parent p.pid pid) ↔ NoReuse current s (.create parent pid) := by
  have hroot : ∀ c, s.call = some c → c.root < s.n := by
    intro c hc
    obtain ⟨q, hq, -⟩ := hw.root c hc
    exact hw.bound _ q hq
  constructor
  · intro ho root todo hc hmem
    by_cases hspared : Spared current pid
    · exact .inl hspared
    · right
      have hnew := ho.todo root todo hc pid hmem hspared s.n _ ((create_procs ..).trans (if_pos rfl)) rfl rfl
      exact (hw.inTree_create hp (hroot _ hc)).mp hnew
  · intro hn
    refine ⟨fun k hk => hw.mono_create (h.terminated k hk), ?_⟩
    intro root todo hc pid' hpid hspared j q hj hq hlife
    rw [create_procs] at hj
    split at hj
    · rename_i hjn
      cases hj
      cases hq
      rw [hjn, hw.inTree_create hp (hroot _ hc)]
      exact (hn root todo hc hpid).resolve_left hspared
    · exact hw.mono_create (h.todo root todo hc pid' hpid hspared j q hj hq hlife)

theorem create_cases {parent pid : Nat} (hs : step current s (.create parent pid) = some s') :
    ∃ p, s.procs parent = some p ∧ s.holder pid = none ∧ s' = s.create parent p.pid pid := by
  obtain ⟨p, hp, hs⟩ := Option.bind_eq_some_iff.mp hs
  obtain ⟨⟨-, hfree⟩, hs⟩ := Option.ite_none_right_eq_some.mp hs
  cases hs
  exact ⟨p, hp, hfree, rfl⟩

theorem world_step {e : Event} (hw : World s) (hs : step current s e = some s') : World s' := by
  cases he : e.adds with
  | false =>
    obtain ⟨ha, hroot, -⟩ := quiet_step hw he hs
    exact hw.age ha hroot
  | true =>
    cases e with
    | create parent pid =>
      obtain ⟨p, hp, hfree, rfl⟩ := create_cases hs
      exact hw.create hp hfree
    | snapshot snap turns =>
      obtain ⟨root, p, todo, hcall, hp, rfl, -⟩ := snapshot_cases hs
      have hroot : Held s root := hw.root _ hcall
      refine hw.age (.of_procs rfl rfl) ?_
      intro c hc
      cases hc
      exact hroot
    | _ => cases he

theorem own_step_iff {e : Event} (hw : World s) (h : Own current s) (hs : step current s e = some s') :
    Own current s' ↔ NoReuse current s e := by
  cases he : e.adds with
  | false =>
    refine iff_of_true ((quiet_step hw he hs).2.2 h) ?_
    cases e with
    | create => cases he
    | snapshot => cases he
    | _ => trivial
  | true =>
    cases e with
    | create parent pid =>
      obtain ⟨p, hp, -, rfl⟩ := create_cases hs
      exact own_create_iff hw h hp
    | snapshot snap turns => exact own_snapshot_iff hw h hs
    | _ => cases he

/-! ## Whole runs -/

/-- The call can come to a process that is still to be terminated. -/
theorem todo_terminates {root j : Nat} {p : Process} {todo : List Nat} (hw : World s)
    (hcall : s.call = some ⟨root, .terminating todo⟩) (hmem : p.pid ∈ todo) (hspared : ¬ Spared current p.pid)
    (hp : s.procs j = some p) (hlife : p.life = .running) :
    ∃ es t, (∀ e ∈ es, e.adds = false) ∧ run current s es = some t ∧ (root, j) ∈ t.terminated ∧ Ages s t := by
  induction todo generalizing s p with
  | nil => cases hmem
  | cons pid todo ih =>
    have hstep : step current s (.terminateByPid true) =
        some ({ s with call := some ⟨root, .terminating todo⟩ }.terminateByPid current root pid true) := by
      simp only [step, hcall]
    have ha : Ages s ({ s with call := some ⟨root, .terminating todo⟩ }.terminateByPid current root pid true) :=
      (quiet_step hw rfl hstep).1
    by_cases heq : pid = p.pid
    · have hholder : { s with call := some ⟨root, .terminating todo⟩ }.holder pid = some j := by
        rw [heq]
        exact hw.holder hp (by rw [hlife]; decide)
      refine ⟨[.terminateByPid true], _, by simp [Event.adds], Runs.exec_cons.mpr ⟨_, hstep, rfl⟩, ?_, ha⟩
      have hr : { s with call := some ⟨root, .terminating todo⟩ }.isRunning j = true := isRunning_iff.mpr ⟨p, hp, hlife⟩
      have hskip : ¬ (pid = 0 ∨ pid = current) := heq ▸ hspared
      simp only [State.terminateByPid, if_neg hskip, hholder, if_true, State.terminate, hr]
      exact List.mem_cons_self
    · have hmem' : p.pid ∈ todo := (List.mem_cons.mp hmem).resolve_left fun h => heq h.symm
      -- the process is still there after the turn of another PID
      have hkeep : ∀ u, { s with call := some ⟨root, .terminating todo⟩ }.terminateByPid current root pid true = u →
          u.call = some ⟨root, .terminating todo⟩ ∧ u.procs j = some p := by
        intro u hu
        rcases @terminateByPid_cases current { s with call := some ⟨root, .terminating todo⟩ } root pid true with
          hsame | ⟨i, q, -, hq, hpid, hterm⟩
        · rw [← hu, hsame]
          exact ⟨rfl, hp⟩
        · rw [← hu, hterm, terminate_call]
          refine ⟨rfl, ?_⟩
          have hij : j ≠ i := by
            intro hij
            have hq' : s.procs i = some q := hq
            rw [← hij, hp] at hq'
            cases hq'
            exact heq hpid.symm
          unfold State.terminate
          split
          · exact (setLife_procs ..).trans ((if_neg hij).trans hp)
          · exact hp
      obtain ⟨hcall', hp'⟩ := hkeep _ rfl
      obtain ⟨es, t, hes, hrun, hterm, hages⟩ := ih (world_step hw hstep) hcall' hmem' hspared hp' hlife
      refine ⟨.terminateByPid true :: es, t, ?_, Runs.exec_cons.mpr ⟨_, hstep, hrun⟩, hterm, ha.trans hages⟩
      intro e he
      rcases List.mem_cons.mp he with rfl | he
      · rfl
      · exact hes e he

theorem safe_iff (hw : World s) : Safe current s ↔ Own current s := by
  constructor
  · intro hsafe
    refine ⟨hsafe [] s nofun rfl, fun root todo hc pid hpid hspared j p hp hq hlife => ?_⟩
    subst hq
    obtain ⟨es, t, hes, hrun, hmem, ha⟩ := todo_terminates hw hc hpid hspared hp hlife
    exact (ha.inTree ..).mp (hsafe es t hes hrun _ hmem)
  · intro ho es t hes hrun
    have hquiet : Runs.Meets (step current) (fun _ e => e.adds = false) s es := Runs.meets_of_forall fun e he _ => hes e he
    exact (Runs.exec_meets (I := fun s => World s ∧ Own current s)
      (fun s e s' hI he hs => ⟨world_step hI.1 hs, (quiet_step hI.1 he hs).2.2 hI.2⟩) ⟨hw, ho⟩ hquiet hrun).2.terminated

/-- A parent PID that leads out of a tree has been given out again: the creator had it, and
    is gone. -/
theorem World.reused (hw : World s) {root i j c : Nat} {p q : Process} (hp : s.procs i = some p) (hlive : p.life ≠ .gone)
    (hq : s.procs j = some q) (hlink : q.parentPid = p.pid) (hc : q.creator = some c) (hin : InTree s root i)
    (hout : ¬ InTree s root j) : c ≠ i ∧ ∃ r, s.procs c = some r ∧ r.pid = p.pid ∧ r.life = .gone := by
  obtain ⟨-, r, hr, hpid⟩ := hw.creator j q c hq hc
  have hne : c ≠ i := by
    intro hci
    exact hout (hin.tail ⟨q, hq, hci ▸ hc⟩)
  refine ⟨hne, r, hr, hpid.symm.trans hlink, ?_⟩
  by_contra hgone
  exact hne (hw.unique c i r p hr hp hgone hlive (hpid.symm.trans hlink))

theorem world_boot : World boot where
  bound j p hj := by
    simp only [boot] at hj ⊢
    split at hj
    · omega
    · split at hj
      · omega
      · cases hj
  unique i j p q hi hj _ _ heq := by
    simp only [boot] at hi hj
    repeat' split at hi
    all_goals repeat' split at hj
    all_goals grind
  creator j p c hj hc := by
    simp only [boot] at hj
    repeat' split at hj
    all_goals cases hj
    all_goals cases hc
  root c hc := by cases hc

theorem own_boot (current : Nat) : Own current boot where
  terminated k hk := by cases hk
  todo root todo hc := by cases hc

end

/-- For any history of creations, exits and reuse of PIDs, with any number of calls: every
    process that a call terminates is of its root's tree, in every state of the run and
    whatever follows, exactly when no walk and no creation of the run met a reused PID. -/
theorem kill_tree_iff (current : Nat) (es : List Event) (s : State) (h : run current boot es = some s) :
    Runs.Meets (step current) (NoReuse current) boot es ↔
      ∀ pre post t, es = pre ++ post → run current boot pre = some t → Safe current t := by
  have hworlds : ∀ pre t, run current boot pre = some t → World t := fun pre t =>
    Runs.exec_invariant (fun _ _ _ => world_step) world_boot
  rw [Runs.meets_iff_prefixes (fun _ _ _ => world_step) (fun _ _ _ => own_step_iff) world_boot (own_boot current) h]
  exact forall₃_congr fun pre post t => imp_congr_right fun _ => imp_congr_right fun ht => (safe_iff (hworlds pre t ht)).symm

theorem kill_tree_iff_child :
    ∃ s, run 16 boot [.create 1 16, .create 2 8, .create 3 12, .killTree 3, .snapshot (some [0, 1, 2, 3, 4]) 1,
        .terminateByPid true, .terminateRoot] = some s ∧ s.terminated = [(3, 3), (3, 4)] ∧ Safe 16 s := by
  have h := kill_tree_iff 16 [.create 1 16, .create 2 8, .create 3 12, .killTree 3, .snapshot (some [0, 1, 2, 3, 4]) 1,
    .terminateByPid true, .terminateRoot] _ rfl
  refine ⟨_, rfl, rfl, h.mp ?_ _ [] _ (List.append_nil _).symm rfl⟩
  refine ⟨fun _ _ hc => (by cases hc), ?_⟩
  intro t ht
  cases ht
  refine ⟨fun _ _ hc => (by cases hc), ?_⟩
  intro t ht
  cases ht
  refine ⟨fun _ _ hc => (by cases hc), ?_⟩
  intro t ht
  cases ht
  refine ⟨trivial, ?_⟩
  intro t ht
  cases ht
  refine ⟨?_, fun t ht => ⟨trivial, fun t ht => ⟨trivial, fun t ht => trivial⟩⟩⟩
  intro root p hcall hp _ j q hj hq hlinked
  cases hcall
  cases hp
  have hset : ∀ x, Linked [⟨0, 0⟩, ⟨4, 0⟩, ⟨16, 4⟩, ⟨8, 16⟩, ⟨12, 8⟩] 8 x → x = 8 ∨ x = 12 := by
    intro x hx
    induction hx with
    | refl => exact .inl rfl
    | tail _ hstep ih =>
      obtain ⟨pe, hpe, hfrom, rfl⟩ := edge_iff.mp hstep
      rcases ih with rfl | rfl <;> simp only [List.mem_cons, List.not_mem_nil] at hpe <;> grind
  have hparent := hset q.parentPid hlinked
  simp only [List.mem_cons, List.not_mem_nil, or_false] at hj
  rcases hj with rfl | rfl | rfl | rfl | rfl <;> cases hq
  · cases hparent <;> contradiction
  · cases hparent <;> contradiction
  · cases hparent <;> contradiction
  · cases hparent <;> contradiction
  · exact .inr (.single ⟨_, rfl, rfl⟩)

/-- PID 8 of a process with a running child is given to the root, and the call terminates
    the child. -/
theorem foster_child :
    ∃ s, run 16 boot [.create 1 8, .create 2 12, .exit 2, .free 2, .create 1 16, .create 4 8, .killTree 5,
        .snapshot (some [0, 1, 3, 4, 5]) 1, .terminateByPid true, .terminateRoot] = some s ∧
      s.terminated = [(5, 5), (5, 3)] ∧ ¬ InTree s 5 3 := by
  refine ⟨_, rfl, rfl, ?_⟩
  intro h
  -- back along the creators: 2, which had PID 8 before, and the system process
  obtain heq | ⟨b, hb, p, hp, hc⟩ := Relation.ReflTransGen.cases_tail h
  · cases heq
  cases hp
  cases hc
  obtain heq | ⟨b, hb, p, hp, hc⟩ := Relation.ReflTransGen.cases_tail hb
  · cases heq
  cases hp
  cases hc
  obtain heq | ⟨b, hb, p, hp, hc⟩ := Relation.ReflTransGen.cases_tail hb
  · cases heq
  cases hp
  cases hc

end CovProcess.Win32.Tree
