/-
  CovProcess.Unix.DevFd — `close_all_descriptors` on macOS (`process_unix.cpp`): the
  entries of `/dev/fd`, each name that is a number read with `strtol`, and the loop of
  `CovProcess.Unix.CloseAll` where the directory cannot be opened.

  What `readdir` gives while its directory is being emptied is any list of names.

  Proved: `dev_fd_agrees`, everything from `from_fd` on is closed but `fail_fd`, and the
  directory's own descriptor with it, exactly when each open number in question is the
  value of a name; so with the numbers listed in decimal this strategy and `close_range`
  leave the same table.
-/

import Mathlib.Data.List.TakeWhile
import CovProcess.Lib.NulString
import CovProcess.Unix.CloseAll

namespace CovProcess.Unix

open FdTable NulString

variable {φ : Type}

/-- `strtol(s, &endp, 10)` with 64-bit longs, and what is left at `endp`. -/
def strtol (s : List Char) : Int × List Char :=
  let b := s.dropWhile isSpace
  let body := if b.head? = some '-' ∨ b.head? = some '+' then b.tail else b
  let digits := body.takeWhile Char.isDigit
  if digits = [] then (0, s)
  else
    let v := if b.head? = some '-' then max (-(decimal digits : Int)) (-9223372036854775808)
      else min (decimal digits : Int) 9223372036854775807
    (v, body.dropWhile Char.isDigit)

/-- The number of an entry whose name `strtol` read to its end, as an `int`. -/
def entryFd (name : List Char) : Option Int :=
  if (strtol name).2 = [] then some (Int.bmod (strtol name).1 4294967296) else none

def closeEntry (fromFd failFd dirFd : Int) (t : FdTab φ) (name : List Char) : FdTab φ :=
  match entryFd name with
  | some fd => if fromFd ≤ fd ∧ fd ≠ failFd ∧ fd ≠ dirFd then t.close fd else t
  | none => t

/-- An open `/dev/fd`: its descriptor, and the names that `readdir` gives. -/
structure DevFd (φ : Type) where
  dirFd : Int
  dir : OpenFile φ
  names : List (List Char)

/-- `close_all_descriptors` on macOS. -/
def closeAllDarwin (opendir : Option (DevFd φ)) (sys : CloseSys) (t : FdTab φ) (fromFd failFd : Int) : FdTab φ :=
  match opendir with
  | some d => (d.names.foldl (closeEntry fromFd failFd d.dirFd) (t.put d.dirFd ⟨d.dir, true⟩)).close d.dirFd
  | none => bruteForce sys t fromFd failFd

section Proofs

variable {fromFd failFd dirFd : Int} {t : FdTab φ}

theorem get_closeEntry (name : List Char) (x : Int) :
    (closeEntry fromFd failFd dirFd t name).get x =
      if entryFd name = some x ∧ fromFd ≤ x ∧ x ≠ failFd ∧ x ≠ dirFd then none else t.get x := by
  unfold closeEntry
  cases he : entryFd name with
  | none => simp
  | some fd =>
    by_cases hx : x = fd
    · subst hx
      simp only [true_and]
      split
      · rw [get_close, if_pos rfl]
      · rfl
    · rw [if_neg (by simp [Ne.symm hx])]
      simp only
      split
      · rw [get_close, if_neg hx]
      · rfl

theorem get_foldl (x : Int) : ∀ (names : List (List Char)) (t : FdTab φ),
    (names.foldl (closeEntry fromFd failFd dirFd) t).get x =
      if (∃ name ∈ names, entryFd name = some x) ∧ fromFd ≤ x ∧ x ≠ failFd ∧ x ≠ dirFd then none else t.get x := by
  intro names
  induction names with
  | nil =>
    intro t
    simp
  | cons name names ih =>
    intro t
    rw [List.foldl_cons, ih, get_closeEntry]
    by_cases hx : fromFd ≤ x ∧ x ≠ failFd ∧ x ≠ dirFd
    · by_cases hrest : ∃ name ∈ names, entryFd name = some x
      · simp [hx, hrest]
      · simp [hx, hrest]
    · simp [hx]

/-- With the directory open under a new number. -/
theorem get_closeAllDarwin {d : DevFd φ} (hdir : t.get d.dirFd = none) (sys : CloseSys) (x : Int) :
    (closeAllDarwin (some d) sys t fromFd failFd).get x =
      if (∃ name ∈ d.names, entryFd name = some x) ∧ fromFd ≤ x ∧ x ≠ failFd then none else t.get x := by
  rw [closeAllDarwin, get_close]
  by_cases hx : x = d.dirFd
  · subst hx
    rw [if_pos rfl, hdir, ite_self]
  · have hput : (t.put d.dirFd ⟨d.dir, true⟩).get x = t.get x := by
      by_cases hr : InRange d.dirFd
      · rw [get_put _ hr, if_neg hx]
      · simp [Table.put, hr]
    rw [if_neg hx, get_foldl, hput]
    simp [hx]

theorem strtol_decimal {d : List Char} (hd : IsDecimal d) : strtol d = (min (decimal d : Int) 9223372036854775807, []) := by
  obtain ⟨hne, hall⟩ := hd
  obtain ⟨x, xs, rfl⟩ := List.exists_cons_of_ne_nil hne
  obtain ⟨hspace, hminus, hplus⟩ := isDigit_start (hall x List.mem_cons_self)
  have hdrop : (x :: xs).dropWhile isSpace = x :: xs := List.dropWhile_cons_of_neg (by simp [hspace])
  have htake : (x :: xs).takeWhile Char.isDigit = x :: xs := List.takeWhile_eq_self_iff.mpr hall
  have hrest : (x :: xs).dropWhile Char.isDigit = [] := List.dropWhile_eq_nil_iff.mpr hall
  have hhead : ¬ ((x :: xs).head? = some '-' ∨ (x :: xs).head? = some '+') := by simp [hminus, hplus]
  simp only [strtol, hdrop, if_neg hhead, htake, hrest]
  rw [if_neg hne, if_neg (fun h => hhead (.inl h))]

/-- A descriptor number in decimal is read as that number. -/
theorem entryFd_decimal {x : Int} (hx : InRange x) : entryFd (Nat.toDigits 10 x.toNat) = some x := by
  obtain ⟨h0, h31⟩ := hx
  have hvalue : decimal (Nat.toDigits 10 x.toNat) = x.toNat := Nat.ofDigitChars_ten_toDigits
  have hmod : Int.bmod (min x 9223372036854775807) 4294967296 = x := by
    rw [Int.min_eq_left (by omega), Int.bmod_eq_of_le (by omega) (by omega)]
  rw [entryFd, strtol_decimal (isDecimal_toDigits _), if_pos rfl, hvalue, Int.toNat_of_nonneg h0, hmod]

end Proofs

/-- With `/dev/fd` open under a new number: exactly what is from `from_fd` on is closed but
    `fail_fd`, if and only if each open number there is the value of some name, cut to an
    `int`; where each is listed in decimal, the table is the one `close_range` leaves. -/
theorem dev_fd_agrees (d : DevFd φ) (sys : CloseSys) (t : FdTab φ) (fromFd failFd : Int) (hdir : t.get d.dirFd = none) :
    (closeAllDarwin (some d) sys t fromFd failFd = closedFrom t fromFd failFd ↔
      ∀ x, t.get x ≠ none → fromFd ≤ x → x ≠ failFd → ∃ name ∈ d.names, entryFd name = some x) ∧
    ((∀ x, t.get x ≠ none → fromFd ≤ x → x ≠ failFd → Nat.toDigits 10 x.toNat ∈ d.names) →
      ∀ linux : CloseSys, linux.closeRange = (true, true) →
        closeAllDarwin (some d) sys t fromFd failFd = closeAllDescriptors linux t fromFd failFd) := by
  have hiff : closeAllDarwin (some d) sys t fromFd failFd = closedFrom t fromFd failFd ↔
      ∀ x, t.get x ≠ none → fromFd ≤ x → x ≠ failFd → ∃ name ∈ d.names, entryFd name = some x := by
    constructor
    · intro heq x hopen hx hne
      by_contra hnot
      have hget : (closeAllDarwin (some d) sys t fromFd failFd).get x = _ := get_closeAllDarwin hdir sys x
      rw [if_neg (fun h => hnot h.1), heq, closedFrom, get_closeIf, if_pos ⟨hx, hne⟩] at hget
      exact hopen hget.symm
    · intro h
      apply Table.ext
      intro x
      rw [get_closeAllDarwin hdir, closedFrom, get_closeIf]
      by_cases hx : fromFd ≤ x ∧ x ≠ failFd
      · by_cases hopen : t.get x = none
        · rw [hopen, ite_self, ite_self]
        · rw [if_pos ⟨h x hopen hx.1 hx.2, hx⟩, if_pos hx]
      · rw [if_neg (fun h => hx h.2), if_neg hx]
  refine ⟨hiff, ?_⟩
  intro hlist linux hsys
  have hclosed : closeAllDarwin (some d) sys t fromFd failFd = closedFrom t fromFd failFd := by
    refine hiff.mpr ?_
    intro x hopen hx hne
    exact ⟨_, hlist x hopen hx hne, entryFd_decimal (t.inRange x hopen)⟩
  rw [hclosed]
  apply Table.ext
  intro x
  rw [closedFrom, get_closeIf]
  split
  · rename_i hx
    exact (closeAllDescriptors_closes hsys t hx.1 hx.2).symm
  · rename_i hx
    exact (closeAllDescriptors_spares linux t (by omega)).symm

/-- 0, 5 and the fail pipe at 7 open, the directory at 6. -/
def devFd : DevFd Nat := ⟨6, .old 0, [['.'], ['.', '.'], ['0'], ['5'], ['6'], ['7']]⟩

def devTable : FdTab Nat := (((empty : FdTab Nat).put 0 ⟨.old 10, false⟩).put 5 ⟨.old 15, false⟩).put 7 ⟨.pipe .fail .write, true⟩

theorem dev_fd_agrees_listed : closeAllDarwin (some devFd) ⟨(true, true), 256⟩ devTable 3 7 =
    closeAllDescriptors ⟨(true, true), 1024⟩ devTable 3 7 := by
  refine (dev_fd_agrees devFd ⟨(true, true), 256⟩ devTable 3 7 rfl).2 ?_ ⟨(true, true), 1024⟩ rfl
  intro x hopen hx hne
  have hx5 : x = 5 := by
    by_contra h5
    refine hopen ?_
    rw [devTable, get_put _ (by decide), if_neg hne, get_put _ (by decide), if_neg h5, get_put _ (by decide),
      if_neg (by omega)]
    rfl
  subst hx5
  decide

end CovProcess.Unix
