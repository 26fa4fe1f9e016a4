/-
  CovProcess.Lib.Confined — a descriptor table whose open files all satisfy a predicate.

  What a process can come to hold is decided by what its table is given: `close`, `exec`
  and closing in bulk give nothing, `dup2` gives what is there already, and a new
  descriptor is judged by itself (`Confined.close` to `Confined.put`). `dup2` and `put`
  need a predicate that does not look at the number.
-/

import CovProcess.Lib.FdTable

namespace FdTable

variable {φ ψ : Type}

theorem get_ne_none {t : Table φ} {x : Int} {f : φ} (h : t.file x = some f) : t.get x ≠ none := by
  rw [← file_ne_none, h]
  exact Option.some_ne_none f

/-- Every open file satisfies `P`, which may look at its number. -/
def Table.Confined (t : Table φ) (P : Int → φ → Prop) : Prop := ∀ x f, t.file x = some f → P x f

theorem confined_empty (P : Int → φ → Prop) : (empty : Table φ).Confined P := by
  intro x f h
  cases h

namespace Table.Confined

variable {t : Table φ} {P Q : Int → φ → Prop}

theorem mono (h : t.Confined P) (hPQ : ∀ x f, P x f → Q x f) : t.Confined Q :=
  fun x f hx => hPQ x f (h x f hx)

theorem closeIf (h : t.Confined P) (p : Int → Prop) [DecidablePred p] : (t.closeIf p).Confined P := by
  intro x f hx
  rw [Table.file, get_closeIf] at hx
  split at hx
  · cases hx
  · exact h x f hx

theorem close (h : t.Confined P) (fd : Int) : (t.close fd).Confined P := h.closeIf _

theorem exec (h : t.Confined P) : t.exec.Confined P := by
  intro x f hx
  obtain ⟨d, hd, rfl⟩ := Option.map_eq_some_iff.mp hx
  obtain ⟨hd, -⟩ := Option.filter_eq_some_iff.mp hd
  exact h x d.file (by rw [Table.file, hd]; rfl)

theorem put (h : t.Confined P) {fd : Int} {d : Desc φ} (hd : P fd d.file) : (t.put fd d).Confined P := by
  intro x f hx
  by_cases hr : InRange fd
  · rw [file_put t hr] at hx
    split at hx
    · rename_i heq
      cases hx
      rw [heq]
      exact hd
    · exact h x f hx
  · exact h x f (by simpa [Table.file, Table.put, hr] using hx)

theorem dup2 {P : φ → Prop} (h : t.Confined fun _ => P) (src dst : Int) : (t.dup2 src dst).Confined fun _ => P := by
  unfold Table.dup2
  split
  · exact h
  · rename_i d hd
    split
    · exact h
    · exact h.put (h src d.file (by rw [Table.file, hd]; rfl))

theorem map {f : φ → ψ} {P : Int → ψ → Prop} (h : t.Confined fun x a => P x (f a)) : (t.map f).Confined P := by
  intro x b hx
  rw [file_map] at hx
  obtain ⟨a, ha, rfl⟩ := Option.map_eq_some_iff.mp hx
  exact h x a ha

theorem not_holds {P : φ → Prop} (h : t.Confined fun _ => P) {f : φ} (hf : ¬ P f) : ¬ t.Holds f := by
  intro hx
  obtain ⟨x, hx⟩ := hx
  exact hf (h x f hx)

end Table.Confined

end FdTable
