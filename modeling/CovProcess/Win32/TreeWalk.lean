/-
  CovProcess.Win32.TreeWalk — `terminate_descendants` on one snapshot (see
  `CovProcess.Win32.Processes`), taken by itself: what its loops attempt to terminate, and
  in which order.

  Proved: `terminateDescendants_tree`, for every snapshot that lists a PID once and in
  which no PID descends from itself: the walk ends, and every descendant of the root is
  attempted once, before each of its ancestors, and nothing else. The idle process, which
  a snapshot lists as its own parent, does not matter unless the root is it.
  `walk_ends_iff_acyclic`: for any snapshot the walk ends exactly when the root leads to no
  cycle; `parents_loop` is a history of processes that makes one, by a PID given out again.
-/

import Mathlib.Data.List.Nodup
import CovProcess.Win32.KillTree

namespace CovProcess.Win32.Tree

open State StackWalk

/-! ## The loops -/

/-- The PIDs that `terminate_by_pid` opens, in the order of the calls: the others it
    returns at once for. `none` when the walk has not come to its end in the turns. -/
def terminateDescendants (current : Nat) (snap : List ProcessEntry) (rootPid turns : Nat) : Option (List Nat) :=
  (order snap rootPid turns).map fun todo => todo.filter fun pid => ¬ (pid = 0 ∨ pid = current)

/-- The calls of `terminate_by_pid` for a walk's PIDs, with the outcomes of `OpenProcess`. -/
def terminateAll (current root : Nat) (s : State) : List (Nat × Bool) → State
  | [] => s
  | (pid, opened) :: calls => terminateAll current root (s.terminateByPid current root pid opened) calls

theorem terminateAll_filter (current root : Nat) (s : State) (calls : List (Nat × Bool)) :
    terminateAll current root s (calls.filter fun c => ¬ (c.1 = 0 ∨ c.1 = current)) = terminateAll current root s calls := by
  induction calls generalizing s with
  | nil => rfl
  | cons c calls ih =>
    rw [List.filter_cons]
    split
    · exact ih _
    · rename_i hspared
      rw [decide_eq_true_eq, not_not] at hspared
      have hsame : s.terminateByPid current root c.1 c.2 = s := if_pos hspared
      show _ = terminateAll current root (s.terminateByPid current root c.1 c.2) calls
      rw [hsame]
      exact ih s

/-! ## Snapshots -/

/-- The parents of the snapshot lead from `b` to `a`, in one step or more. -/
def Descends (snap : List ProcessEntry) (a b : Nat) : Prop := Relation.TransGen (Edge (children snap)) a b

theorem children_mem {snap : List ProcessEntry} {a b : Nat} (h : b ∈ children snap a) :
    b ∈ snap.map ProcessEntry.th32ProcessID := by
  obtain ⟨pe, hpe, -, hpid⟩ := edge_iff.mp h
  exact List.mem_map.mpr ⟨pe, hpe, hpid⟩

/-- Each PID once, and no cycle where the root leads: a tree. -/
theorem tree_children {snap : List ProcessEntry} {rootPid : Nat}
    (honce : (snap.map ProcessEntry.th32ProcessID).Nodup)
    (hacyclic : ∀ pid, Linked snap rootPid pid → ¬ Descends snap pid pid) : StackWalk.Tree (children snap) rootPid where
  nodup x := honce.sublist (List.filter_sublist.map _)
  unique a b x ha hb := by
    obtain ⟨pe, hpe, hpa, hpx⟩ := edge_iff.mp ha
    obtain ⟨qe, hqe, hqb, hqx⟩ := edge_iff.mp hb
    have heq : pe = qe := List.inj_on_of_nodup_map honce hpe hqe (hpx.trans hqx.symm)
    rw [← hpa, ← hqb, heq]
  acyclic := hacyclic

theorem order_ends {snap : List ProcessEntry} {rootPid turns : Nat} (h : StackWalk.Tree (children snap) rootPid)
    (hturns : snap.length ≤ turns) : ∃ todo, order snap rootPid turns = some todo := by
  have hclosed : ∀ x ∈ snap.map ProcessEntry.th32ProcessID, ∀ y ∈ children snap x, y ∈ snap.map ProcessEntry.th32ProcessID :=
    fun _ _ _ => children_mem
  apply h.walk_ends hclosed h.walked_succs
  · intro y hy
    exact children_mem (List.mem_reverse.mp hy)
  · intro y hy
    cases hy
  · rw [List.length_map, List.length_nil]
    omega

/-- For every snapshot that lists each PID once, and in which no PID that parents lead to
    from the root is its own ancestor: the walk ends, in no more turns than the snapshot has
    entries, and what is attempted is every descendant of the root but PID 0 and the caller,
    each once, none before a descendant of its own, and nothing else. -/
theorem terminateDescendants_tree (current rootPid : Nat) (snap : List ProcessEntry)
    (honce : (snap.map ProcessEntry.th32ProcessID).Nodup)
    (hacyclic : ∀ pid, Linked snap rootPid pid → ¬ Descends snap pid pid) :
    ∃ attempts, (∀ turns, snap.length ≤ turns → terminateDescendants current snap rootPid turns = some attempts) ∧
      attempts.Nodup ∧
      (∀ pid, pid ∈ attempts ↔ Descends snap rootPid pid ∧ pid ≠ 0 ∧ pid ≠ current) ∧
      attempts.Pairwise fun first later => ¬ Descends snap first later := by
  have htree := tree_children honce hacyclic
  obtain ⟨todo, htodo⟩ := order_ends htree (Nat.le_refl _)
  have hlater := htree.walk_pairwise htree.walked_succs htodo
  refine ⟨todo.filter fun pid => ¬ (pid = 0 ∨ pid = current), ?_, ?_, ?_, ?_⟩
  · intro turns hturns
    unfold terminateDescendants
    have hmore : order snap rootPid turns = some todo := walk_mono hturns htodo
    rw [hmore]
    rfl
  · apply List.Nodup.filter
    refine hlater.imp ?_
    intro a b hnot heq
    exact hnot (heq ▸ .refl)
  · intro pid
    rw [List.mem_filter, decide_eq_true_eq, not_or, mem_order_iff_transGen htodo]
    exact Iff.rfl
  · apply List.Pairwise.filter
    refine hlater.imp ?_
    intro a b hnot hdesc
    exact hnot hdesc.to_reflTransGen

/-- PIDs given out in rising order: nothing descends from what it precedes. -/
theorem descends_lt {snap : List ProcessEntry}
    (hrising : ∀ pe ∈ snap, 0 < pe.th32ParentProcessID → pe.th32ParentProcessID < pe.th32ProcessID) {a b : Nat} (ha : 0 < a)
    (h : Descends snap a b) : a < b := by
  induction h with
  | single hedge =>
    obtain ⟨pe, hpe, rfl, rfl⟩ := edge_iff.mp hedge
    exact hrising pe hpe ha
  | tail _ hedge ih =>
    obtain ⟨pe, hpe, rfl, rfl⟩ := edge_iff.mp hedge
    have := hrising pe hpe (by omega)
    omega

/-- Two children, one of them the caller, and a grandchild; and the idle process. -/
theorem terminateDescendants_tree_small :
    ∃ attempts, terminateDescendants 16 [⟨0, 0⟩, ⟨4, 0⟩, ⟨8, 4⟩, ⟨12, 8⟩, ⟨16, 8⟩, ⟨20, 12⟩] 8 6 = some attempts ∧
      attempts = [20, 12] ∧ attempts.Nodup := by
  have hrising : ∀ pe ∈ [⟨0, 0⟩, ⟨4, 0⟩, ⟨8, 4⟩, ⟨12, 8⟩, ⟨16, 8⟩, (⟨20, 12⟩ : ProcessEntry)],
      0 < pe.th32ParentProcessID → pe.th32ParentProcessID < pe.th32ProcessID := by decide
  obtain ⟨attempts, hrun, hnodup, -⟩ := terminateDescendants_tree 16 8
      [⟨0, 0⟩, ⟨4, 0⟩, ⟨8, 4⟩, ⟨12, 8⟩, ⟨16, 8⟩, ⟨20, 12⟩] (by decide) (by
    intro pid hlinked hcycle
    have hpos : 0 < pid := by
      rcases Relation.reflTransGen_iff_eq_or_transGen.mp hlinked with rfl | hdesc
      · decide
      · have := descends_lt hrising (by decide) hdesc
        omega
    have := descends_lt hrising hpos hcycle
    omega)
  have h := hrun 6 (by decide)
  exact ⟨attempts, h, Option.some.inj (h.symm.trans (by decide)), hnodup⟩

/-! ## Any snapshot -/

theorem reach_children_iff {snap : List ProcessEntry} {rootPid pid : Nat} :
    Reach (children snap) (children snap rootPid).reverse pid ↔ Descends snap rootPid pid := by
  unfold Descends
  rw [Relation.TransGen.head'_iff]
  exact exists_congr fun y => and_congr_left fun _ => List.mem_reverse

/-- A cycle that the root leads to is one of its descendants'. -/
theorem acyclic_iff {snap : List ProcessEntry} {rootPid : Nat} :
    (∀ pid, Descends snap rootPid pid → ¬ Descends snap pid pid) ↔ ∀ pid, Linked snap rootPid pid → ¬ Descends snap pid pid := by
  constructor
  · intro h pid hlinked hcycle
    rcases Relation.reflTransGen_iff_eq_or_transGen.mp hlinked with rfl | hdesc
    · exact h pid hcycle hcycle
    · exact h pid hdesc hcycle
  · intro h pid hdesc
    exact h pid hdesc.to_reflTransGen

/-- The walk ends, whatever the snapshot, exactly when no PID that the root leads to leads
    back to itself. -/
theorem walk_ends_iff_acyclic (current rootPid : Nat) (snap : List ProcessEntry) :
    (∃ turns attempts, terminateDescendants current snap rootPid turns = some attempts) ↔
      ∀ pid, Linked snap rootPid pid → ¬ Descends snap pid pid := by
  have hclosed : ∀ x ∈ snap.map ProcessEntry.th32ProcessID, ∀ y ∈ children snap x, y ∈ snap.map ProcessEntry.th32ProcessID :=
    fun _ _ _ => children_mem
  have hstack : ∀ y ∈ (children snap rootPid).reverse, y ∈ snap.map ProcessEntry.th32ProcessID :=
    fun _ hy => children_mem (List.mem_reverse.mp hy)
  have hwalk : (∃ turns attempts, terminateDescendants current snap rootPid turns = some attempts) ↔
      ∃ turns todo, order snap rootPid turns = some todo := by
    refine exists_congr fun turns => ?_
    constructor
    · intro h
      obtain ⟨attempts, h⟩ := h
      obtain ⟨todo, htodo, -⟩ := Option.map_eq_some_iff.mp h
      exact ⟨todo, htodo⟩
    · intro h
      obtain ⟨todo, htodo⟩ := h
      exact ⟨_, Option.map_eq_some_iff.mpr ⟨todo, htodo, rfl⟩⟩
  rw [hwalk, ← acyclic_iff]
  refine (walk_ends_iff hclosed hstack []).trans (forall_congr' fun pid => ?_)
  rw [reach_children_iff]
  exact Iff.rfl

/-- 8 creates 12 and is gone, and 12 creates a process that gets 8 again: the root. -/
def reusedPid : List Event := [.create 1 8, .create 2 12, .exit 2, .free 2, .create 3 8, .killTree 4]

/-- The root's parent is its child by the snapshot, and the walk goes round. -/
theorem parents_loop :
    (∃ s, run 16 boot reusedPid = some s ∧
      [0, 1, 3, 4].filterMap s.entry = [⟨0, 0⟩, ⟨4, 0⟩, ⟨12, 8⟩, ⟨8, 12⟩] ∧ (s.procs 4).map Process.pid = some 8 ∧
      ∀ turns, step 16 s (.snapshot (some [0, 1, 3, 4]) turns) = none) ∧
    ¬ ∃ turns attempts, terminateDescendants 16 [⟨0, 0⟩, ⟨4, 0⟩, ⟨12, 8⟩, ⟨8, 12⟩] 8 turns = some attempts := by
  have hcycle : Descends [⟨0, 0⟩, ⟨4, 0⟩, ⟨12, 8⟩, ⟨8, 12⟩] 8 8 :=
    .tail (.single (edge_iff.mpr ⟨⟨12, 8⟩, by decide, rfl, rfl⟩)) (edge_iff.mpr ⟨⟨8, 12⟩, by decide, rfl, rfl⟩)
  have horder : ∀ turns, order [⟨0, 0⟩, ⟨4, 0⟩, ⟨12, 8⟩, ⟨8, 12⟩] 8 turns = none := by
    intro turns
    rw [Option.eq_none_iff_forall_not_mem]
    intro todo htodo
    exact not_walk_of_cycle hcycle htodo (reach_children_iff.mpr hcycle)
  refine ⟨⟨_, rfl, by decide, rfl, ?_⟩, ?_⟩
  · intro turns
    exact congrArg (Option.map _) (horder turns)
  · rintro ⟨turns, attempts, h⟩
    obtain ⟨todo, htodo, -⟩ := Option.map_eq_some_iff.mp h
    rw [horder] at htodo
    cases htodo

end CovProcess.Win32.Tree
