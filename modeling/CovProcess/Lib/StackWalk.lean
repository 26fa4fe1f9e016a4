/-
  CovProcess.Lib.StackWalk — a walk over a graph given by successor lists, with a stack
  and no record of where it has been: the top is visited and its successors are pushed,
  until the stack is empty. Over a cycle it does not come to an end, so it takes a number
  of turns.

  `mem_walk_iff`: a walk that ended has visited what can be reached from the stack.
  `walk_ends_iff`: in a finite graph it ends exactly when no cycle can be reached.

  `Tree` is a graph that is a tree as seen from a root. A walk of it from the root's
  successors comes to an end (`Tree.walk_ends`), visits nothing twice and what is
  reached from a node only after the node (`Tree.walk_pairwise`).
-/

import Mathlib.Data.Set.Finite.List
import Mathlib.Logic.Relation

namespace StackWalk

variable {α : Type*} (next : α → List α)

/-- The visited nodes, the newest first; `none` when the turns run out. The head of the
    stack is its top, and the last successor ends up there. -/
def walk : Nat → List α → List α → Option (List α)
  | _, [], visited => some visited
  | 0, _ :: _, _ => none
  | turns + 1, x :: stack, visited => walk turns ((next x).reverse ++ stack) (x :: visited)

/-- One edge of the graph. -/
def Edge (a b : α) : Prop := b ∈ next a

def Reach (stack : List α) (x : α) : Prop := ∃ y ∈ stack, Relation.ReflTransGen (Edge next) y x

variable {next}

theorem reach_cons {y : α} {stack : List α} {x : α} :
    Reach next (y :: stack) x ↔ x = y ∨ Reach next ((next y).reverse ++ stack) x := by
  constructor
  · intro h
    obtain ⟨z, hz, hpath⟩ := h
    rcases List.mem_cons.mp hz with rfl | hz
    · rcases Relation.ReflTransGen.cases_head hpath with rfl | ⟨w, hw, hpath⟩
      · exact .inl rfl
      · exact .inr ⟨w, List.mem_append_left _ (List.mem_reverse.mpr hw), hpath⟩
    · exact .inr ⟨z, List.mem_append_right _ hz, hpath⟩
  · intro h
    rcases h with rfl | ⟨z, hz, hpath⟩
    · exact ⟨x, List.mem_cons_self, .refl⟩
    · rcases List.mem_append.mp hz with hz | hz
      · exact ⟨y, List.mem_cons_self, .head (List.mem_reverse.mp hz) hpath⟩
      · exact ⟨z, List.mem_cons_of_mem _ hz, hpath⟩

theorem mem_walk_iff {turns : Nat} {stack visited l : List α} (h : walk next turns stack visited = some l) (x : α) :
    x ∈ l ↔ x ∈ visited ∨ Reach next stack x := by
  induction turns generalizing stack visited with
  | zero =>
    cases stack with
    | nil =>
      cases h
      exact ⟨.inl, fun h => h.resolve_right fun ⟨_, hy, _⟩ => List.not_mem_nil hy⟩
    | cons y stack => cases h
  | succ turns ih =>
    cases stack with
    | nil =>
      cases h
      exact ⟨.inl, fun h => h.resolve_right fun ⟨_, hy, _⟩ => List.not_mem_nil hy⟩
    | cons y stack =>
      rw [ih h, reach_cons, List.mem_cons, or_assoc, or_left_comm]

theorem walk_mono {turns more : Nat} (hle : turns ≤ more) {stack visited l : List α}
    (h : walk next turns stack visited = some l) : walk next more stack visited = some l := by
  induction turns generalizing more stack visited with
  | zero =>
    cases stack with
    | nil =>
      cases more <;> exact h
    | cons y stack => cases h
  | succ turns ih =>
    obtain ⟨more, rfl⟩ : ∃ m, more = m + 1 := ⟨more - 1, by omega⟩
    cases stack with
    | nil => exact h
    | cons y stack =>
      show walk next more ((next y).reverse ++ stack) (y :: visited) = some l
      exact ih (by omega) h

/-! ## Where it ends -/

/-- Below a node of a finite graph from which no cycle can be reached. -/
theorem acc_of_acyclic {nodes : List α} (hclosed : ∀ x ∈ nodes, ∀ y ∈ next x, y ∈ nodes) {x : α} (hx : x ∈ nodes)
    (hacyclic : ∀ y, Relation.ReflTransGen (Edge next) x y → ¬ Relation.TransGen (Edge next) y y) :
    Acc (fun b a => Edge next a b) x := by
  let Below := { y // y ∈ nodes ∧ Relation.ReflTransGen (Edge next) x y }
  have hfinite : Finite Below := (nodes.finite_toSet.subset fun y hy => hy.1).to_subtype
  have htrans : IsTrans Below fun b a => Relation.TransGen (Edge next) a.1 b.1 := ⟨fun _ _ _ hab hbc => hbc.trans hab⟩
  have hirrefl : Std.Irrefl fun b a : Below => Relation.TransGen (Edge next) a.1 b.1 := ⟨fun y => hacyclic y.1 y.2.2⟩
  have hwf := Finite.wellFounded_of_trans_of_irrefl fun b a : Below => Relation.TransGen (Edge next) a.1 b.1
  have hacc : ∀ y : Below, Acc (fun b a => Edge next a b) y.1 := by
    intro y
    induction y using hwf.induction with
    | h y ih =>
      refine ⟨y.1, ?_⟩
      intro z hz
      exact ih ⟨z, hclosed y.1 y.2.1 z hz, y.2.2.tail hz⟩ (.single hz)
  exact hacc ⟨x, hx, .refl⟩

/-- One more node on the stack; the induction is on what lies below it. -/
theorem walk_cons_ends {y : α} (hacc : Acc (fun b a => Edge next a b) y) (stack : List α)
    (hstack : ∀ visited, ∃ turns l, walk next turns stack visited = some l) (visited : List α) :
    ∃ turns l, walk next turns (y :: stack) visited = some l := by
  induction hacc generalizing stack visited with
  | intro y _ ih =>
    have hpushed : ∀ ys : List α, (∀ z ∈ ys, z ∈ next y) → ∀ visited, ∃ turns l, walk next turns (ys ++ stack) visited = some l := by
      intro ys
      induction ys with
      | nil => exact fun _ => hstack
      | cons z ys ihys =>
        intro hys
        exact ih z (hys z List.mem_cons_self) (ys ++ stack) (ihys fun w hw => hys w (List.mem_cons_of_mem _ hw))
    obtain ⟨turns, l, h⟩ := hpushed (next y).reverse (fun z hz => List.mem_reverse.mp hz) (y :: visited)
    exact ⟨turns + 1, l, h⟩

theorem walk_ends_of_acc {stack : List α} (h : ∀ y ∈ stack, Acc (fun b a => Edge next a b) y) (visited : List α) :
    ∃ turns l, walk next turns stack visited = some l := by
  induction stack generalizing visited with
  | nil => exact ⟨0, visited, rfl⟩
  | cons y stack ih =>
    exact walk_cons_ends (h y List.mem_cons_self) stack (ih fun z hz => h z (List.mem_cons_of_mem _ hz)) visited

/-- A node that leads back to itself is on the stack again, or led to, after it was visited. -/
theorem not_walk_of_cycle {x : α} (hcycle : Relation.TransGen (Edge next) x x) {turns : Nat} {stack visited l : List α}
    (h : walk next turns stack visited = some l) : ¬ Reach next stack x := by
  induction turns generalizing stack visited with
  | zero =>
    cases stack with
    | nil => exact fun ⟨_, hy, _⟩ => List.not_mem_nil hy
    | cons y stack => cases h
  | succ turns ih =>
    cases stack with
    | nil => exact fun ⟨_, hy, _⟩ => List.not_mem_nil hy
    | cons y stack =>
      intro hreach
      rcases reach_cons.mp hreach with rfl | hreach
      · obtain ⟨z, hz, hpath⟩ := Relation.TransGen.head'_iff.mp hcycle
        exact ih h ⟨z, List.mem_append_left _ (List.mem_reverse.mpr hz), hpath⟩
      · exact ih h hreach

theorem walk_ends_iff {nodes : List α} (hclosed : ∀ x ∈ nodes, ∀ y ∈ next x, y ∈ nodes) {stack : List α}
    (hstack : ∀ y ∈ stack, y ∈ nodes) (visited : List α) :
    (∃ turns l, walk next turns stack visited = some l) ↔
      ∀ x, Reach next stack x → ¬ Relation.TransGen (Edge next) x x := by
  constructor
  · intro h x hreach hcycle
    obtain ⟨turns, l, h⟩ := h
    exact not_walk_of_cycle hcycle h hreach
  · intro h
    apply walk_ends_of_acc
    intro y hy
    exact acc_of_acyclic hclosed (hstack y hy) fun x hpath => h x ⟨y, hy, hpath⟩

/-! ## Trees -/

/-- No node has two predecessors or is listed twice, and none that the root leads to leads
    back to itself. -/
structure Tree (next : α → List α) (root : α) : Prop where
  nodup : ∀ x, (next x).Nodup
  unique : ∀ a b x, Edge next a x → Edge next b x → a = b
  acyclic : ∀ x, Relation.ReflTransGen (Edge next) root x → ¬ Relation.TransGen (Edge next) x x

/-- A walk of a tree: nothing on the stack leads to another node of it or to a visited one,
    and no visited node to one visited before. -/
structure Walked (next : α → List α) (root : α) (stack visited : List α) : Prop where
  fromRoot : ∀ y ∈ stack, Relation.ReflTransGen (Edge next) root y
  apart : stack.Pairwise fun a b => ¬ Relation.ReflTransGen (Edge next) a b ∧ ¬ Relation.ReflTransGen (Edge next) b a
  ahead : ∀ y ∈ stack, ∀ v ∈ visited, ¬ Relation.ReflTransGen (Edge next) y v
  later : visited.Pairwise fun a b => ¬ Relation.ReflTransGen (Edge next) a b

namespace Tree

variable {root : α}

/-- What leads to a successor of `x` without being it leads to `x`. -/
theorem reaches_parent (h : Tree next root) {x y c : α} (hc : c ∈ next x) (hpath : Relation.ReflTransGen (Edge next) y c) :
    y = c ∨ Relation.ReflTransGen (Edge next) y x := by
  rcases Relation.ReflTransGen.cases_tail hpath with heq | ⟨p, hp, hedge⟩
  · exact .inl heq.symm
  · rw [h.unique p x c hedge hc] at hp
    exact .inr hp

theorem succ_not_reaches (h : Tree next root) {x c : α} (hx : Relation.ReflTransGen (Edge next) root x) (hc : c ∈ next x) :
    ¬ Relation.ReflTransGen (Edge next) c x :=
  fun hpath => h.acyclic x hx (.head' hc hpath)

theorem succs_apart (h : Tree next root) {x : α} (hx : Relation.ReflTransGen (Edge next) root x) :
    (next x).Pairwise fun a b => ¬ Relation.ReflTransGen (Edge next) a b ∧ ¬ Relation.ReflTransGen (Edge next) b a := by
  have hone : ∀ a ∈ next x, ∀ b ∈ next x, a ≠ b → ¬ Relation.ReflTransGen (Edge next) a b := by
    intro a ha b hb hne hpath
    rcases h.reaches_parent hb hpath with heq | hback
    · exact hne heq
    · exact h.succ_not_reaches hx ha hback
  refine (h.nodup x).imp_of_mem ?_
  intro a b ha hb hne
  exact ⟨hone a ha b hb hne, hone b hb a ha hne.symm⟩

theorem walked_succs (h : Tree next root) : Walked next root (next root).reverse [] where
  fromRoot _ hy := .single (List.mem_reverse.mp hy)
  apart := List.pairwise_reverse.mpr ((h.succs_apart .refl).imp And.symm)
  ahead _ _ _ hv := nomatch hv
  later := .nil

theorem walked_turn (h : Tree next root) {x : α} {stack visited : List α} (hw : Walked next root (x :: stack) visited) :
    Walked next root ((next x).reverse ++ stack) (x :: visited) := by
  have hx := hw.fromRoot x List.mem_cons_self
  obtain ⟨hxs, hapart⟩ := List.pairwise_cons.mp hw.apart
  refine ⟨?_, ?_, ?_, ?_⟩
  · intro y hy
    rcases List.mem_append.mp hy with hy | hy
    · exact hx.tail (List.mem_reverse.mp hy)
    · exact hw.fromRoot y (List.mem_cons_of_mem _ hy)
  · refine List.pairwise_append.mpr ⟨List.pairwise_reverse.mpr ((h.succs_apart hx).imp And.symm), hapart, ?_⟩
    intro c hc y hy
    have hc := List.mem_reverse.mp hc
    refine ⟨fun hpath => (hxs y hy).1 (.head hc hpath), ?_⟩
    intro hpath
    rcases h.reaches_parent hc hpath with rfl | hback
    · exact (hxs y hy).1 (.single hc)
    · exact (hxs y hy).2 hback
  · intro y hy v hv
    rcases List.mem_append.mp hy with hnew | hold
    · have hc := List.mem_reverse.mp hnew
      rcases List.mem_cons.mp hv with rfl | hv
      · exact h.succ_not_reaches hx hc
      · intro hpath
        exact hw.ahead x List.mem_cons_self v hv (.head hc hpath)
    · rcases List.mem_cons.mp hv with rfl | hv
      · exact (hxs y hold).2
      · exact hw.ahead y (List.mem_cons_of_mem _ hold) v hv
  · exact List.pairwise_cons.mpr ⟨hw.ahead x List.mem_cons_self, hw.later⟩

theorem walk_pairwise (h : Tree next root) {turns : Nat} {stack visited l : List α} (hw : Walked next root stack visited)
    (hwalk : walk next turns stack visited = some l) :
    l.Pairwise fun a b => ¬ Relation.ReflTransGen (Edge next) a b := by
  induction turns generalizing stack visited with
  | zero =>
    cases stack with
    | nil =>
      cases hwalk
      exact hw.later
    | cons y stack => cases hwalk
  | succ turns ih =>
    cases stack with
    | nil =>
      cases hwalk
      exact hw.later
    | cons y stack => exact ih (h.walked_turn hw) hwalk

/-- As many turns as there are nodes left in a set that the walk does not leave are
    enough: each visits a new one. -/
theorem walk_ends (h : Tree next root) {nodes : List α} (hclosed : ∀ x ∈ nodes, ∀ y ∈ next x, y ∈ nodes) {turns : Nat}
    {stack visited : List α} (hw : Walked next root stack visited) (hstack : ∀ y ∈ stack, y ∈ nodes)
    (hvisited : ∀ y ∈ visited, y ∈ nodes) (hturns : nodes.length ≤ visited.length + turns) :
    ∃ l, walk next turns stack visited = some l := by
  induction turns generalizing stack visited with
  | zero =>
    cases stack with
    | nil => exact ⟨visited, rfl⟩
    | cons y stack =>
      -- the top would be one node more than there are
      have hnodup : (y :: visited).Nodup := by
        refine (h.walked_turn hw).later.imp ?_
        intro a b hnot heq
        exact hnot (heq ▸ .refl)
      have hsub : ∀ x ∈ y :: visited, x ∈ nodes := by
        intro x hx
        rcases List.mem_cons.mp hx with rfl | hx
        · exact hstack x List.mem_cons_self
        · exact hvisited x hx
      have hle := hnodup.length_le_of_subset hsub
      rw [List.length_cons] at hle
      omega
  | succ turns ih =>
    cases stack with
    | nil => exact ⟨visited, rfl⟩
    | cons y stack =>
      have hy := hstack y List.mem_cons_self
      show ∃ l, walk next turns ((next y).reverse ++ stack) (y :: visited) = some l
      apply ih (h.walked_turn hw)
      · intro x hx
        rcases List.mem_append.mp hx with hx | hx
        · exact hclosed y hy x (List.mem_reverse.mp hx)
        · exact hstack x (List.mem_cons_of_mem _ hx)
      · intro x hx
        rcases List.mem_cons.mp hx with rfl | hx
        · exact hy
        · exact hvisited x hx
      · rw [List.length_cons]
        omega

end Tree

end StackWalk
