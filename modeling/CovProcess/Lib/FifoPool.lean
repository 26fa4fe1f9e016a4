/-
  CovProcess.Lib.FifoPool — jobs on a pool of threads, served in the order of submission,
  where a job keeps its thread until its group is finished, and a group finishes only
  while other jobs of it have threads too.

  The queue holds the jobs that have or wait for a thread; the first `threads` of it have
  one. `Drains` says that in some order of finishing groups and completing jobs every job
  that somebody cares for leaves the queue. It is then so in any order (`Drains.mono`:
  finishing groups, dropping their jobs, needing and caring less keep it), and the pool
  is never stuck before (`Drains.progress`).
-/

import Mathlib.Data.List.Nodup
import Mathlib.Data.Set.Insert

namespace FifoPool

variable {J G : Type*}

/-- Jobs move forward as others leave. -/
theorem mem_take_of_sublist {l l' : List J} (h : l'.Sublist l) (hn : l.Nodup) {threads : Nat} {j : J} (hj : j ∈ l')
    (ht : j ∈ l.take threads) : j ∈ l'.take threads := by
  induction h generalizing threads with
  | slnil => cases hj
  | cons a hsub ih =>
    obtain ⟨ha, hn⟩ := List.nodup_cons.mp hn
    cases threads with
    | zero => simp at ht
    | succ k =>
      rcases List.mem_cons.mp ht with rfl | ht
      · exact absurd (hsub.subset hj) ha
      · exact (List.take_subset_take_left _ (Nat.le_succ k)) (ih hn hj ht)
  | cons_cons a hsub ih =>
    obtain ⟨ha, hn⟩ := List.nodup_cons.mp hn
    cases threads with
    | zero => simp at ht
    | succ k =>
      rcases List.mem_cons.mp ht with rfl | ht
      · exact List.mem_cons_self
      · rcases List.mem_cons.mp hj with rfl | hj
        · exact List.mem_cons_self
        · exact List.mem_cons_of_mem _ (ih hn hj ht)

variable [DecidableEq J]

/-- An order in which the pool can get rid of the jobs in `care`: `done` are the groups
    that finished, `need` the jobs without which their group does not. -/
inductive Drains (threads : Nat) (group : J → G) (need care : J → Prop) : Set G → List J → Prop
  | clear {done : Set G} {queue : List J} (h : ∀ j ∈ queue, ¬ care j) : Drains threads group need care done queue
  | finish {done : Set G} {queue : List J} (j : J) (hj : j ∈ queue)
      (hneed : ∀ k, group k = group j → need k → k ∈ queue.take threads)
      (rest : Drains threads group need care (insert (group j) done) queue) :
      Drains threads group need care done queue
  | complete {done : Set G} {queue : List J} (j : J) (hj : j ∈ queue.take threads) (hg : group j ∈ done)
      (rest : Drains threads group need care done (queue.erase j)) : Drains threads group need care done queue

variable {threads : Nat} {group : J → G} {need need' care care' : J → Prop} {done done' : Set G}
  {queue queue' : List J}

/-- It goes on draining whatever happens first: more groups may have finished, and some of
    their jobs completed, groups may need less, and fewer jobs be cared for. -/
theorem Drains.mono (h : Drains threads group need care done queue) (hn : queue.Nodup)
    (hsub : queue'.Sublist queue) (hgone : ∀ j ∈ queue, j ∉ queue' → group j ∈ done')
    (hdone : ∀ j ∈ queue', group j ∈ done → group j ∈ done')
    (hneed : ∀ j ∈ queue', ∀ k, group k = group j → need' k → need k) (hcare : ∀ j ∈ queue', care' j → care j) :
    Drains threads group need' care' done' queue' := by
  induction h generalizing queue' done' with
  | clear h => exact .clear fun j hj hc => h j (hsub.subset hj) (hcare j hj hc)
  | @finish done queue j hj hfin rest ih =>
    by_cases hg : group j ∈ done'
    · refine ih hn hsub hgone ?_ hneed hcare
      intro k hk hkd
      rcases hkd with hkj | hkd
      · rwa [hkj]
      · exact hdone k hk hkd
    · -- a group that has not finished has all its jobs still
      have hstays : ∀ k, group k = group j → k ∈ queue → k ∈ queue' := fun k hk hkq => by
        by_contra hkq'
        exact hg (hk ▸ hgone k hkq hkq')
      have hj' := hstays j rfl hj
      refine .finish j hj' ?_ (ih hn hsub (fun k hk hk' => .inr (hgone k hk hk'))
        (fun k hk hkd => hkd.imp_right (hdone k hk)) hneed hcare)
      intro k hk hnk
      have htake := hfin k hk (hneed j hj' k hk hnk)
      exact mem_take_of_sublist hsub hn (hstays k hk (List.mem_of_mem_take htake)) htake
  | @complete done queue j hj hg rest ih =>
    by_cases hj' : j ∈ queue'
    · refine .complete j (mem_take_of_sublist hsub hn hj' hj) (hdone j hj' hg)
        (ih (hn.erase j) (hsub.erase j) (fun k hk hk' => ?_) (fun k hk => hdone k (List.mem_of_mem_erase hk))
          (fun k hk => hneed k (List.mem_of_mem_erase hk)) fun k hk => hcare k (List.mem_of_mem_erase hk))
      obtain ⟨hne, hkq⟩ := hn.mem_erase_iff.mp hk
      exact hgone k hkq fun hkq' => hk' ((List.mem_erase_of_ne hne).mpr hkq')
    · refine ih (hn.erase j) ?_ (fun k hk hk' => hgone k (List.mem_of_mem_erase hk) hk') hdone hneed hcare
      have := hsub.erase j
      rwa [List.erase_of_not_mem hj'] at this

/-- As long as a job that matters is in the queue, a finished group's job has a thread, or
    a group can finish. -/
theorem Drains.progress (h : Drains threads group need care done queue) (hcare : ∃ j ∈ queue, care j) :
    (∃ j ∈ queue.take threads, group j ∈ done) ∨
      ∃ j ∈ queue, group j ∉ done ∧ ∀ k, group k = group j → need k → k ∈ queue.take threads := by
  induction h with
  | clear h =>
    obtain ⟨j, hj, hc⟩ := hcare
    exact absurd hc (h j hj)
  | @finish done queue j hj hfin rest ih =>
    by_cases hg : group j ∈ done
    · rw [Set.insert_eq_of_mem hg] at ih
      exact ih hcare
    · exact .inr ⟨j, hj, hg, hfin⟩
  | complete j hj hg rest ih => exact .inl ⟨j, hj, hg⟩

end FifoPool
