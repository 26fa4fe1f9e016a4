/-
  CovProcess.Unix.CloseAll — what `close_all_descriptors` leaves open on Linux (see
  `CovProcess.Unix.Spawn`): one `close_range`, or two around `fail_fd`; where one fails, a
  loop up to what `sysconf(_SC_OPEN_MAX)` gives as an `int`, 1024 if that is negative, and
  never beyond 65536.

  Proved: `closeAllDescriptors_iff`, the strategies agree for a table exactly when each
  descriptor from the loop's limit on was closed by a `close_range` call; and
  `close_all_keeps_high`, a descriptor above the limit that the loop does not reach.
-/

import CovProcess.Unix.Spawn

namespace CovProcess.Unix

open FdTable

variable {φ : Type}

/-! ## What is claimed -/

/-- The table without the descriptors from `from_fd` on, but with `fail_fd`. -/
def closedFrom (t : FdTab φ) (fromFd failFd : Int) : FdTab φ := t.closeIf fun x => fromFd ≤ x ∧ x ≠ failFd

/-- `x` is in a range that a `close_range` call closed. The second call is made only if the
    first one succeeded, or there was none. -/
def RangeClosed (sys : CloseSys) (fromFd failFd x : Int) : Prop :=
  if failFd < fromFd then sys.closeRange.1 = true
  else if x < failFd then sys.closeRange.1 = true
  else (fromFd < failFd → sys.closeRange.1 = true) ∧ sys.closeRange.2 = true

instance (sys : CloseSys) (fromFd failFd x : Int) : Decidable (RangeClosed sys fromFd failFd x) := by
  unfold RangeClosed
  infer_instance

/-! ## The loop and the calls -/

/-- The loop closes its range, `fail_fd` excepted. -/
theorem get_closeLoop (failFd x : Int) : ∀ (n : Nat) (t : FdTab φ) (fd : Int),
    (closeLoop t fd failFd n).get x = if fd ≤ x ∧ x < fd + n ∧ x ≠ failFd then none else t.get x := by
  intro n
  induction n with
  | zero =>
    intro t fd
    rw [closeLoop, if_neg (by omega)]
  | succ n ih =>
    intro t fd
    rw [closeLoop, ih]
    by_cases hx : x = fd
    · subst hx
      rw [if_neg (by omega)]
      by_cases hf : x = failFd
      · rw [if_pos hf, if_neg (by omega)]
      · rw [if_neg hf, get_close, if_pos rfl, if_pos (by omega)]
    · have hsame : (if fd = failFd then t else t.close fd).get x = t.get x := by
        split
        · rfl
        · rw [get_close, if_neg hx]
      rw [hsame]
      by_cases hin : fd ≤ x ∧ x < fd + (n + 1 : Nat) ∧ x ≠ failFd
      · rw [if_pos hin, if_pos (by omega)]
      · rw [if_neg hin, if_neg (by omega)]

theorem get_bruteForce (sys : CloseSys) (t : FdTab φ) (fromFd failFd x : Int) :
    (bruteForce sys t fromFd failFd).get x =
      if fromFd ≤ x ∧ x ≠ failFd ∧ x < maxFd sys.openMax then none else t.get x := by
  rw [bruteForce, get_closeLoop]
  by_cases hx : fromFd ≤ x ∧ x ≠ failFd ∧ x < maxFd sys.openMax
  · rw [if_pos hx, if_pos (by omega)]
  · rw [if_neg hx, if_neg (by omega)]

theorem get_closeAllDescriptors (sys : CloseSys) (t : FdTab φ) (fromFd failFd x : Int) :
    (closeAllDescriptors sys t fromFd failFd).get x =
      if fromFd ≤ x ∧ x ≠ failFd ∧ (x < maxFd sys.openMax ∨ RangeClosed sys fromFd failFd x) then none else t.get x := by
  by_cases hr : InRange x
  · obtain ⟨-, h31⟩ := hr
    unfold closeAllDescriptors RangeClosed
    -- `fail_fd` below the range, above its start, or the start itself
    rcases Int.lt_trichotomy failFd fromFd with hlt | heq | hgt
    · simp only [if_pos hlt]
      split <;> grind [get_bruteForce, get_closeRange]
    · simp only [heq, Int.lt_irrefl, if_false]
      split <;> grind [get_bruteForce, get_closeRange]
    · have hnot : ¬ failFd < fromFd := by omega
      simp only [if_neg hnot, if_pos hgt]
      repeat' split
      all_goals grind [get_bruteForce, get_closeRange]
  · rw [Table.get_eq_none _ hr, Table.get_eq_none _ hr, ite_self]

/-- Only descriptors from `from_fd` on are closed, and never `fail_fd`. -/
theorem closeAllDescriptors_spares (sys : CloseSys) (t : FdTab φ) {fromFd failFd x : Int}
    (hx : x < fromFd ∨ x = failFd) : (closeAllDescriptors sys t fromFd failFd).get x = t.get x := by
  rw [get_closeAllDescriptors]
  apply if_neg
  omega

/-- With `close_range` available everything from `from_fd` on is closed but `fail_fd`. -/
theorem closeAllDescriptors_closes {sys : CloseSys} (hsys : sys.closeRange = (true, true)) (t : FdTab φ)
    {fromFd failFd x : Int} (hx : fromFd ≤ x) (hne : x ≠ failFd) :
    (closeAllDescriptors sys t fromFd failFd).get x = none := by
  have hranges : RangeClosed sys fromFd failFd x := by
    unfold RangeClosed
    simp [hsys]
  rw [get_closeAllDescriptors]
  exact if_pos ⟨hx, hne, .inr hranges⟩

theorem closeAllDescriptors_sub (sys : CloseSys) (t : FdTab φ) (fromFd failFd x : Int) :
    (closeAllDescriptors sys t fromFd failFd).get x = none ∨
      (closeAllDescriptors sys t fromFd failFd).get x = t.get x := by
  rw [get_closeAllDescriptors]
  split
  · exact .inl rfl
  · exact .inr rfl

/-! ## The strategies -/

/-- For every table, every pair of numbers, every limit and whichever of the calls succeed:
    the open descriptors are those below `from_fd`, and `fail_fd`, exactly when a
    `close_range` call closed each of the others that is not below the loop's limit. -/
theorem closeAllDescriptors_iff (sys : CloseSys) (t : FdTab φ) (fromFd failFd : Int) :
    closeAllDescriptors sys t fromFd failFd = closedFrom t fromFd failFd ↔
      ∀ x, t.get x ≠ none → fromFd ≤ x → x ≠ failFd → maxFd sys.openMax ≤ x → RangeClosed sys fromFd failFd x := by
  constructor
  · intro heq x hopen hx hne hmax
    by_contra hnot
    have hkept : (closeAllDescriptors sys t fromFd failFd).get x = t.get x := by
      rw [get_closeAllDescriptors]
      apply if_neg
      rintro ⟨-, -, hlt | hclosed⟩
      · omega
      · exact hnot hclosed
    rw [heq, closedFrom, get_closeIf, if_pos ⟨hx, hne⟩] at hkept
    exact hopen hkept.symm
  · intro h
    apply Table.ext
    intro x
    rw [get_closeAllDescriptors, closedFrom, get_closeIf]
    by_cases hx : fromFd ≤ x ∧ x ≠ failFd
    · rw [if_pos hx]
      by_cases hopen : t.get x = none
      · rw [hopen, ite_self]
      · apply if_pos
        refine ⟨hx.1, hx.2, ?_⟩
        by_cases hmax : x < maxFd sys.openMax
        · exact .inl hmax
        · exact .inr (h x hopen hx.1 hx.2 (by omega))
    · rw [if_neg hx, if_neg]
      intro hclosed
      exact hx ⟨hclosed.1, hclosed.2.1⟩

/-- No `close_range`, a limit of 1048576, and descriptor 70000 open. -/
theorem close_all_keeps_high :
    closeAllDescriptors ⟨(false, false), 1048576⟩ (empty.put 70000 ⟨.old 0, false⟩ : FdTab Nat) 3 4 ≠
      closedFrom (empty.put 70000 ⟨.old 0, false⟩) 3 4 := by
  intro h
  have hopen : (empty.put 70000 ⟨.old 0, false⟩ : FdTab Nat).get 70000 = some ⟨.old 0, false⟩ := by
    rw [get_put _ ⟨by decide, by decide⟩, if_pos rfl]
  have hkept : (closeAllDescriptors ⟨(false, false), 1048576⟩ (empty.put 70000 ⟨.old 0, false⟩ : FdTab Nat) 3 4).get 70000 =
      some ⟨.old 0, false⟩ := by
    rw [get_closeAllDescriptors, if_neg (by decide), hopen]
  rw [h, closedFrom, get_closeIf, if_pos (by decide)] at hkept
  cases hkept

end CovProcess.Unix
