/-
  CovProcess.Lib.EnvBlock — environment entries, the maps made of them, and blocks of
  strings that end at an empty one.

  An entry is a name, a separator and a value; `split` cuts at the first separator. A map
  is filled either by `emplace` (the first entry of a name stays) or by assignment (the
  last one does), and is walked in an order that its contents do not tell (`Order`). In a
  block each string is closed by a terminator, and one more closes the block: `strings`
  reads it back (`strings_block`).
-/

import Mathlib.Data.Finmap

namespace EnvBlock

section Entry

variable {α : Type*} [DecidableEq α]

/-- What stands before and after the first `sep`; `none` when there is none. -/
def split (sep : α) : List α → Option (List α × List α)
  | [] => none
  | c :: cs => if c = sep then some ([], cs) else (split sep cs).map fun (k, v) => (c :: k, v)

theorem split_append {sep : α} {k : List α} (hk : sep ∉ k) (v : List α) : split sep (k ++ sep :: v) = some (k, v) := by
  induction k with
  | nil => simp [split]
  | cons c k ih =>
    obtain ⟨hc, hk⟩ := List.ne_and_not_mem_of_not_mem_cons hk
    rw [List.cons_append, split, if_neg (Ne.symm hc), ih hk]
    rfl

theorem split_some {sep : α} {s k v : List α} (h : split sep s = some (k, v)) : s = k ++ sep :: v ∧ sep ∉ k := by
  induction s generalizing k with
  | nil => cases h
  | cons c cs ih =>
    rw [split] at h
    split at h
    · rename_i hc
      cases h
      exact ⟨by rw [hc]; rfl, List.not_mem_nil⟩
    · rename_i hc
      obtain ⟨⟨k', v'⟩, hs, he⟩ := Option.map_eq_some_iff.mp h
      cases he
      obtain ⟨rfl, hk⟩ := ih hs
      exact ⟨rfl, List.not_mem_cons_of_ne_of_not_mem (Ne.symm hc) hk⟩

end Entry

/-! ## Maps -/

section Map

variable {κ υ : Type*} [DecidableEq κ]

/-- `emplace`: a name that is there keeps its value. -/
def emplace (m : Finmap fun _ : κ => υ) (e : κ × υ) : Finmap fun _ : κ => υ :=
  if e.1 ∈ m then m else m.insert e.1 e.2

def emplaceAll (m : Finmap fun _ : κ => υ) (l : List (κ × υ)) : Finmap fun _ : κ => υ := l.foldl emplace m

def assignAll (m : Finmap fun _ : κ => υ) (l : List (κ × υ)) : Finmap fun _ : κ => υ :=
  l.foldl (fun m e => m.insert e.1 e.2) m

theorem lookup_cons_if (e : κ × υ) (l : List (κ × υ)) (k : κ) :
    (e :: l).lookup k = if k = e.1 then some e.2 else l.lookup k := by
  rw [List.lookup_cons]
  by_cases hk : k = e.1
  · rw [if_pos hk, beq_iff_eq.mpr hk]
  · rw [if_neg hk, beq_eq_false_iff_ne.mpr hk]

theorem lookup_map_snd {ω : Type*} (f : υ → ω) (l : List (κ × υ)) (k : κ) :
    (l.map fun e => (e.1, f e.2)).lookup k = (l.lookup k).map f := by
  induction l with
  | nil => rfl
  | cons e l ih =>
    rw [List.map_cons, lookup_cons_if, lookup_cons_if, ih]
    split <;> rfl

theorem lookup_iff_mem {l : List (κ × υ)} (hn : (l.map Prod.fst).Nodup) {k : κ} {v : υ} :
    l.lookup k = some v ↔ (k, v) ∈ l := by
  induction l with
  | nil => simp
  | cons e l ih =>
    obtain ⟨he, hn⟩ := List.nodup_cons.mp hn
    rw [lookup_cons_if, List.mem_cons]
    by_cases hk : k = e.1
    · subst hk
      have hnot : (e.1, v) ∉ l := fun hm => he (List.mem_map.mpr ⟨_, hm, rfl⟩)
      simp [hnot, Prod.ext_iff, eq_comm]
    · simp [hk, ih hn, Prod.ext_iff]

theorem lookup_emplace (m : Finmap fun _ : κ => υ) (e : κ × υ) (k : κ) :
    (emplace m e).lookup k = (m.lookup k).or (if k = e.1 then some e.2 else none) := by
  unfold emplace
  split
  · rename_i hm
    by_cases hk : k = e.1
    · subst hk
      obtain ⟨v, hv⟩ := Finmap.mem_iff.mp hm
      simp [hv]
    · simp [hk]
  · rename_i hm
    by_cases hk : k = e.1
    · subst hk
      simp [Finmap.lookup_eq_none.mpr hm]
    · simp [Finmap.lookup_insert_of_ne _ hk, hk]

/-- The first entry of a name is the one that stays. -/
theorem lookup_emplaceAll (l : List (κ × υ)) (m : Finmap fun _ : κ => υ) (k : κ) :
    (emplaceAll m l).lookup k = (m.lookup k).or (l.lookup k) := by
  induction l generalizing m with
  | nil => simp [emplaceAll]
  | cons e l ih =>
    show (emplaceAll (emplace m e) l).lookup k = _
    rw [ih, lookup_emplace, lookup_cons_if, Option.or_assoc]
    by_cases hk : k = e.1 <;> simp [hk]

/-- `l` holds what `m` does, in some order. -/
def Iterates (m : Finmap fun _ : κ => υ) (l : List (κ × υ)) : Prop :=
  ((l.map fun e => (⟨e.1, e.2⟩ : Sigma fun _ : κ => υ) : List _) : Multiset _) = m.entries

/-- The order in which an unordered map is walked: any. -/
structure Order (κ υ : Type*) [DecidableEq κ] where
  list : (Finmap fun _ : κ => υ) → List (κ × υ)
  iterates : ∀ m, Iterates m (list m)

/-- Some order. -/
noncomputable def Order.any : Order κ υ where
  list m := m.entries.toList.map fun e => (e.1, e.2)
  iterates m := by
    unfold Iterates
    rw [List.map_map]
    simp [Function.comp_def]

namespace Iterates

variable {m : Finmap fun _ : κ => υ} {l : List (κ × υ)}

omit [DecidableEq κ] in
theorem nodup (h : Iterates m l) : (l.map Prod.fst).Nodup := by
  have hk := Multiset.nodup_keys.mpr m.nodupKeys
  rw [← h] at hk
  simpa [Multiset.keys, Function.comp_def] using hk

theorem mem_iff (h : Iterates m l) {k : κ} {v : υ} : (k, v) ∈ l ↔ m.lookup k = some v := by
  rw [Finmap.lookup_eq_some_iff, ← h]
  simp

theorem lookup (h : Iterates m l) (k : κ) : l.lookup k = m.lookup k := by
  ext v
  rw [lookup_iff_mem h.nodup, h.mem_iff]

omit [DecidableEq κ] in
/-- Two walks of one map differ in their order only. -/
theorem perm {l' : List (κ × υ)} (h : Iterates m l) (h' : Iterates m l') : l.Perm l' := by
  have hinj : Function.Injective fun e : κ × υ => (⟨e.1, e.2⟩ : Sigma fun _ : κ => υ) := fun a b hab => by
    simpa [Prod.ext_iff] using hab
  exact (List.map_perm_map_iff hinj).mp (Multiset.coe_eq_coe.mp (h.trans h'.symm))

end Iterates

/-- Assigning a whole map leaves it on top, whatever the order. -/
theorem assignAll_iterates {m m' : Finmap fun _ : κ => υ} {l : List (κ × υ)} (h : Iterates m' l) :
    assignAll m l = m' ∪ m := by
  have hl : ∀ (l : List (κ × υ)) (m : Finmap fun _ : κ => υ) (k : κ), (l.map Prod.fst).Nodup →
      (assignAll m l).lookup k = (l.lookup k).or (m.lookup k) := by
    intro l
    induction l with
    | nil => simp [assignAll]
    | cons e l ih =>
      intro m k hn
      obtain ⟨he, hn⟩ := List.nodup_cons.mp hn
      show (assignAll (m.insert e.1 e.2) l).lookup k = _
      rw [ih _ _ hn, lookup_cons_if]
      by_cases hk : k = e.1
      · subst hk
        have hnone : l.lookup e.1 = none := by
          rw [List.lookup_eq_none_iff]
          intro p hp
          have hne : e.1 ≠ p.1 := fun hep => he (hep ▸ List.mem_map_of_mem hp)
          simpa using hne
        simp [hnone]
      · simp [hk, Finmap.lookup_insert_of_ne]
  refine Finmap.ext_lookup ?_
  intro k
  rw [hl l m k h.nodup, h.lookup]
  by_cases hk : k ∈ m'
  · obtain ⟨v, hv⟩ := Finmap.mem_iff.mp hk
    rw [Finmap.lookup_union_left hk, hv, Option.some_or]
  · rw [Finmap.lookup_union_right hk, Finmap.lookup_eq_none.mpr hk, Option.none_or]

end Map

/-! ## Blocks -/

section Block

variable {α : Type*} [DecidableEq α] (nul : α)

/-- The strings of a block, `cur` being what was read of the next one; an empty string
    ends the block. -/
def strings (cur : List α) : List α → List (List α)
  | [] => []
  | c :: cs =>
    if c = nul then if cur = [] then [] else cur :: strings [] cs
    else strings (cur ++ [c]) cs

def terminated (l : List (List α)) : List α := l.flatMap fun s => s ++ [nul]

variable {nul}

theorem strings_append {s : List α} (hs : nul ∉ s) (cur rest : List α) :
    strings nul cur (s ++ nul :: rest) = if cur ++ s = [] then [] else (cur ++ s) :: strings nul [] rest := by
  induction s generalizing cur with
  | nil => simp [strings]
  | cons c s ih =>
    obtain ⟨hc, hs⟩ := List.ne_and_not_mem_of_not_mem_cons hs
    rw [List.cons_append, strings, if_neg (Ne.symm hc), ih hs, List.append_assoc]
    rfl

/-- A block of non-empty strings without terminators inside reads back whole. -/
theorem strings_block {l : List (List α)} (hl : ∀ s ∈ l, s ≠ [] ∧ nul ∉ s) (rest : List α) :
    strings nul [] (terminated nul l ++ nul :: rest) = l := by
  induction l with
  | nil => simp [terminated, strings]
  | cons s l ih =>
    obtain ⟨hne, hs⟩ := hl s List.mem_cons_self
    rw [terminated, List.flatMap_cons, List.append_assoc, List.append_assoc, List.singleton_append, strings_append hs,
      List.nil_append, if_neg hne]
    exact congrArg _ (ih fun t ht => hl t (List.mem_cons_of_mem _ ht))

/-- No string that was read is empty or holds a terminator. -/
theorem mem_strings {mem s cur : List α} (hcur : nul ∉ cur) (h : s ∈ strings nul cur mem) : s ≠ [] ∧ nul ∉ s := by
  induction mem generalizing cur with
  | nil => cases h
  | cons c mem ih =>
    rw [strings] at h
    split at h
    · split at h
      · cases h
      · rename_i hne
        rcases List.mem_cons.mp h with rfl | h
        · exact ⟨hne, hcur⟩
        · exact ih List.not_mem_nil h
    · rename_i hc
      refine ih ?_ h
      intro hm
      rcases List.mem_append.mp hm with hm | hm
      · exact hcur hm
      · exact hc (List.mem_singleton.mp hm).symm

end Block

end EnvBlock
