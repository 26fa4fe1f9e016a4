/-
  CovProcess.Win32.Environ — the environment block `create_process_impl` builds for
  `CreateProcess` (`src/process_win32.cpp`).

  With nothing set and the environment inherited there is no block, and the child gets the
  parent's. Else the parent's block is read into a map when it is inherited, the builder's
  map is laid over it, and the entries are sorted by name ignoring case and written out,
  each with a NUL, and one more NUL at the end (two for an empty block). An entry is cut at
  its first `=`; one that starts with `=` (`=C:=C:\`, a drive's directory) at its second,
  if something stands between the two.

  Proved:
  - `block_roundtrip`: read back as the parent's is read, the block is the parent's
    variables with the builder's over them.
  - `overrides_win`: where names that differ only in case do not meet and no value holds a
    NUL, each name is there once in any casing, with the value set last; and which of the
    two fails when that does not hold. The maps compare names exactly, so two casings
    both get into the block (`casings_collide`).
-/

import CovProcess.Builder
import CovProcess.Lib.EnvBlock

namespace CovProcess.Win32

open EnvBlock Builder

/-! ## The builder of the block -/

/-- An entry as the merge loop reads it. -/
def parseEntry (entry : List Char) : Option (String × String) :=
  match entry with
  | '=' :: rest =>
    match split '=' rest with
    | some (k, v) => if k = [] then none else some (String.ofList ('=' :: k), String.ofList v)
    | none => none
  | _ => (split '=' entry).map fun (k, v) => (String.ofList k, String.ofList v)

/-- The variables of a block, in its order. -/
def vars (block : List Char) : List (String × String) := (strings NUL [] block).filterMap parseEntry

/-- The orders in which the two unordered maps are walked, `CompareStringA` ignoring case
    giving `CSTR_LESS_THAN`, and `std::sort` by it. -/
structure Sys where
  env : Order String String
  effective : Order String String
  less : String → String → Bool
  sort : List (String × String) → List (String × String)
  sort_perm : ∀ l, (sort l).Perm l
  sort_sorted : ∀ l, (sort l).Pairwise fun a b => less b.1 a.1 = false

def readBlock (block : List Char) : EnvMap := emplaceAll ∅ (vars block)

/-- `effective`; `parent` is what `GetEnvironmentStrings` gives. -/
def effective (sys : Sys) (parent : Option (List Char)) (s : ProcessStartup) : EnvMap :=
  if s.inheritEnv then assignAll ((parent.map readBlock).getD ∅) (sys.env.list s.env) else s.env

def sortedEnv (sys : Sys) (env : EnvMap) : List (String × String) :=
  sys.sort ((sys.effective.list env).filter fun e => e.1 ≠ "")

/-- `size_t` subtraction, `w` bits wide. -/
def subSize (w a b : Nat) : Nat := (a + 2 ^ w - b % 2 ^ w) % 2 ^ w

/-- One round of the size loop. -/
def addSize (w size : Nat) (e : String × String) : Except String Nat :=
  let maxObjectSize := 2 ^ (w - 1) - 1
  let keySize := e.1.length
  let valueSize := e.2.length
  if subSize w (subSize w maxObjectSize valueSize) 2 < keySize ∨
      subSize w (subSize w (subSize w maxObjectSize keySize) valueSize) 2 < size then
    .error "environment block is too large"
  else .ok ((size + keySize + valueSize + 2) % 2 ^ w)

def envSize (w : Nat) (entries : List (String × String)) : Except String Nat :=
  entries.foldlM (addSize w) (if entries.isEmpty then 2 else 1)

def writeEntry (e : String × String) : List Char := e.1.toList ++ '=' :: e.2.toList

def writeBlock (entries : List (String × String)) : List Char :=
  terminated NUL (entries.map writeEntry) ++ NUL :: (if entries.isEmpty then [NUL] else [])

/-- `envs`; `none` is `nullptr`. -/
def envBlock (sys : Sys) (w : Nat) (parent : Option (List Char)) (s : ProcessStartup) :
    Except String (Option (List Char)) :=
  if s.inheritEnv ∧ s.env = ∅ then .ok none
  else
    let sorted := sortedEnv sys (effective sys parent s)
    match envSize w sorted with
    | .error e => .error e
    | .ok size =>
      if (writeBlock sorted).length = size then .ok (some (writeBlock sorted))
      else .error "unable to copy environment variables"

/-! ## One entry -/

/-- A name an entry can have: `=` only at the start, and not alone. -/
structure ValidKey (k : String) : Prop where
  ne : k ≠ ""
  alone : k ≠ "="
  tail : '=' ∉ k.toList.tail
  nul : NUL ∉ k.toList

theorem parseEntry_write {k : String} (hk : ValidKey k) (v : String) : parseEntry (writeEntry (k, v)) = some (k, v) := by
  obtain ⟨hne, halone, htail, -⟩ := hk
  have hk : String.ofList k.toList = k := String.ofList_toList
  have hv : String.ofList v.toList = v := String.ofList_toList
  unfold writeEntry
  generalize hl : k.toList = l at hk htail ⊢
  cases l with
  | nil => exact absurd (String.toList_eq_nil_iff.mp hl) hne
  | cons c cs =>
    rw [List.tail_cons] at htail
    by_cases hc : c = '='
    · subst hc
      have hcs : cs ≠ [] := fun h => halone (by rw [← hk, h])
      simp only [List.cons_append, parseEntry, split_append htail, if_neg hcs, hk, hv]
    · have hnot : '=' ∉ c :: cs := List.not_mem_cons_of_ne_of_not_mem (Ne.symm hc) htail
      rw [parseEntry]
      · simp only [split_append hnot, Option.map_some, hk, hv]
      · intro rest h
        exact hc (List.cons.inj h).1

theorem parseEntry_some {entry : List Char} {k v : String} (hn : NUL ∉ entry) (h : parseEntry entry = some (k, v)) :
    ValidKey k ∧ NUL ∉ v.toList := by
  unfold parseEntry at h
  split at h
  · rename_i rest
    split at h
    · rename_i k' v' hs
      split at h
      · cases h
      · rename_i hne
        cases h
        obtain ⟨rfl, hk⟩ := split_some hs
        simp only [List.mem_cons, List.mem_append, not_or] at hn
        refine ⟨⟨?_, ?_, ?_, ?_⟩, ?_⟩
        · simp [← String.toList_inj]
        · simpa [← String.toList_inj] using hne
        · simpa using hk
        · simpa using ⟨hn.1, hn.2.1⟩
        · simpa using hn.2.2.2
    · cases h
  · rename_i hfirst
    obtain ⟨⟨k', v'⟩, hs, he⟩ := Option.map_eq_some_iff.mp h
    cases he
    obtain ⟨rfl, hk⟩ := split_some hs
    simp only [List.mem_cons, List.mem_append, not_or] at hn
    have hne : k' ≠ [] := fun hnil => hfirst v' (by rw [hnil]; rfl)
    refine ⟨⟨?_, ?_, ?_, ?_⟩, ?_⟩
    · simpa [← String.toList_inj] using hne
    · intro he
      rw [← String.toList_inj, String.toList_ofList] at he
      rw [he] at hk
      exact hk (by decide)
    · simpa using fun hm => hk (List.mem_of_mem_tail hm)
    · simpa using hn.1
    · simpa using hn.2.2

/-! ## The block -/

/-- The entries that a block gives back as they are. -/
def Readable (e : String × String) : Prop := ValidKey e.1 ∧ NUL ∉ e.2.toList

theorem writeEntry_readable {e : String × String} (he : Readable e) : writeEntry e ≠ [] ∧ NUL ∉ writeEntry e := by
  refine ⟨by simp [writeEntry], ?_⟩
  simp only [writeEntry, List.mem_append, List.mem_cons, not_or]
  exact ⟨he.1.nul, by decide, he.2⟩

theorem strings_writeBlock {entries : List (String × String)} (he : ∀ e ∈ entries, Readable e) :
    strings NUL [] (writeBlock entries) = entries.map writeEntry := by
  refine strings_block ?_ _
  intro s hs
  obtain ⟨e, hmem, rfl⟩ := List.mem_map.mp hs
  exact writeEntry_readable (he e hmem)

theorem vars_writeBlock {entries : List (String × String)} (he : ∀ e ∈ entries, Readable e) :
    vars (writeBlock entries) = entries := by
  rw [vars, strings_writeBlock he, List.filterMap_map]
  have hread : ∀ e ∈ entries, (parseEntry ∘ writeEntry) e = some e := fun e hmem => parseEntry_write (he e hmem).1 e.2
  rw [List.filterMap_congr hread, List.filterMap_some]

theorem vars_readable {block : List Char} {e : String × String} (h : e ∈ vars block) : Readable e := by
  obtain ⟨s, hs, he⟩ := List.mem_filterMap.mp h
  exact parseEntry_some (mem_strings List.not_mem_nil hs).2 he

theorem lookup_readBlock (block : List Char) (k : String) : (readBlock block).lookup k = (vars block).lookup k := by
  rw [readBlock, lookup_emplaceAll, Finmap.lookup_empty, Option.none_or]

theorem readBlock_readable {block : List Char} {k v : String} (h : (readBlock block).lookup k = some v) :
    Readable (k, v) := by
  rw [lookup_readBlock] at h
  obtain ⟨l₁, l₂, hl, -⟩ := List.lookup_eq_some_iff.mp h
  have hm : (k, v) ∈ vars block := by
    rw [hl]
    simp
  exact vars_readable hm

/-! ## The merge and the sort -/

theorem effective_eq (sys : Sys) (parent : List Char) (s : ProcessStartup) :
    effective sys (some parent) s = s.env ∪ (if s.inheritEnv then readBlock parent else ∅) := by
  unfold effective
  split
  · exact assignAll_iterates (sys.env.iterates s.env)
  · exact Finmap.union_empty.symm

/-- A map whose every entry can be read back. -/
def MapReadable (env : EnvMap) : Prop := ∀ k v, env.lookup k = some v → Readable (k, v)

theorem effective_readable (sys : Sys) (parent : List Char) {s : ProcessStartup} (hs : MapReadable s.env) :
    MapReadable (effective sys (some parent) s) := by
  intro k v h
  rw [effective_eq] at h
  by_cases hk : k ∈ s.env
  · rw [Finmap.lookup_union_left hk] at h
    exact hs k v h
  · rw [Finmap.lookup_union_right hk] at h
    split at h
    · exact readBlock_readable h
    · simp at h

theorem mem_sortedEnv (sys : Sys) {env : EnvMap} (henv : ∀ k v, env.lookup k = some v → k ≠ "") (e : String × String) :
    e ∈ sortedEnv sys env ↔ env.lookup e.1 = some e.2 := by
  rw [sortedEnv, (sys.sort_perm _).mem_iff, List.mem_filter, (sys.effective.iterates env).mem_iff]
  constructor
  · exact And.left
  · exact fun h => ⟨h, by simpa using henv _ _ h⟩

theorem sortedEnv_nodup (sys : Sys) (env : EnvMap) : ((sortedEnv sys env).map Prod.fst).Nodup := by
  have hsub : (((sys.effective.list env).filter fun e => e.1 ≠ "").map Prod.fst).Nodup :=
    (sys.effective.iterates env).nodup.sublist (List.Sublist.map _ List.filter_sublist)
  exact (((sys.sort_perm _).map _).nodup_iff).mpr hsub

theorem sortedEnv_perm (sys : Sys) {env : EnvMap} {l : List (String × String)} (hl : Iterates env l)
    (hne : ∀ e ∈ l, e.1 ≠ "") : (sortedEnv sys env).Perm l := by
  have hall : l.filter (fun e => e.1 ≠ "") = l := List.filter_eq_self.mpr fun e he => by simpa using hne e he
  have hperm := ((sys.effective.iterates env).perm hl).filter fun e => e.1 ≠ ""
  rw [hall] at hperm
  exact (sys.sort_perm _).trans hperm

theorem sortedEnv_readable (sys : Sys) {env : EnvMap} (henv : MapReadable env) {e : String × String}
    (he : e ∈ sortedEnv sys env) : Readable e :=
  henv e.1 e.2 ((mem_sortedEnv sys (fun k v h => (henv k v h).1.ne) e).mp he)

theorem readBlock_sorted (sys : Sys) {env : EnvMap} (henv : MapReadable env) :
    readBlock (writeBlock (sortedEnv sys env)) = env := by
  refine Finmap.ext_lookup ?_
  intro k
  rw [lookup_readBlock, vars_writeBlock fun e => sortedEnv_readable sys henv]
  ext v
  rw [lookup_iff_mem (sortedEnv_nodup sys env), mem_sortedEnv sys fun k v h => (henv k v h).1.ne]

theorem envBlock_ok {sys : Sys} {w : Nat} {parent : Option (List Char)} {s : ProcessStartup} {b : Option (List Char)}
    (h : envBlock sys w parent s = .ok b) :
    (s.inheritEnv = true ∧ s.env = ∅ ∧ b = none) ∨ b = some (writeBlock (sortedEnv sys (effective sys parent s))) := by
  simp only [envBlock] at h
  split at h
  · rename_i hnone
    cases h
    exact .inl ⟨hnone.1, hnone.2, rfl⟩
  · split at h
    · cases h
    · split at h <;> cases h
      exact .inr rfl

/-! ### Its size -/

theorem subSize_le {w a b : Nat} (hb : b ≤ a) (ha : a < 2 ^ w) : subSize w a b = a - b := by
  have hsum : a + 2 ^ w - b = a - b + 2 ^ w := by omega
  rw [subSize, Nat.mod_eq_of_lt (hb.trans_lt ha), hsum, Nat.add_mod_right, Nat.mod_eq_of_lt (by omega)]

theorem addSize_fits {w size : Nat} {e : String × String} (h : size + (writeEntry e).length + 1 ≤ 2 ^ (w - 1) - 1) :
    addSize w size e = .ok (size + (writeEntry e).length + 1) := by
  have hlen : (writeEntry e).length = e.1.length + e.2.length + 1 := by
    simp [writeEntry, String.length_toList]
    omega
  have hpow : 2 ^ (w - 1) ≤ 2 ^ w := Nat.pow_le_pow_right Nat.two_pos (Nat.sub_le w 1)
  rw [hlen] at h ⊢
  have hv := subSize_le (w := w) (a := 2 ^ (w - 1) - 1) (b := e.2.length) (by omega) (by omega)
  have hk := subSize_le (w := w) (a := 2 ^ (w - 1) - 1) (b := e.1.length) (by omega) (by omega)
  simp only [addSize, hv, hk]
  rw [subSize_le (by omega) (by omega), subSize_le (a := 2 ^ (w - 1) - 1 - e.1.length) (by omega) (by omega),
    subSize_le (by omega) (by omega), if_neg (by omega), Nat.mod_eq_of_lt (by omega)]
  congr 1
  omega

theorem foldlM_addSize {w : Nat} (entries : List (String × String)) (size : Nat)
    (h : size + (terminated NUL (entries.map writeEntry)).length ≤ 2 ^ (w - 1) - 1) :
    entries.foldlM (addSize w) size = .ok (size + (terminated NUL (entries.map writeEntry)).length) := by
  induction entries generalizing size with
  | nil => rfl
  | cons e entries ih =>
    have hlen : (terminated NUL ((e :: entries).map writeEntry)).length =
        (writeEntry e).length + 1 + (terminated NUL (entries.map writeEntry)).length := by
      simp [terminated]
      omega
    rw [hlen] at h ⊢
    rw [List.foldlM_cons, addSize_fits (by omega)]
    show entries.foldlM (addSize w) _ = _
    rw [ih _ (by omega)]
    congr 1
    omega

theorem envBlock_fits (sys : Sys) (w : Nat) (parent : Option (List Char)) (s : ProcessStartup)
    (hset : ¬ (s.inheritEnv = true ∧ s.env = ∅))
    (hfit : (writeBlock (sortedEnv sys (effective sys parent s))).length ≤ 2 ^ (w - 1) - 1) :
    envBlock sys w parent s = .ok (some (writeBlock (sortedEnv sys (effective sys parent s)))) := by
  simp only [envBlock, if_neg hset]
  generalize sortedEnv sys (effective sys parent s) = entries at hfit ⊢
  have hsize : envSize w entries = .ok (writeBlock entries).length := by
    unfold envSize
    unfold writeBlock at hfit ⊢
    cases entries with
    | nil => rfl
    | cons e entries =>
      simp only [List.isEmpty_cons, Bool.false_eq_true, if_false, List.length_append, List.length_singleton] at hfit ⊢
      rw [foldlM_addSize _ _ (by omega), Nat.add_comm]
  simp only [hsize, if_true]

/-- The length of a block does not depend on the order of its entries. -/
theorem length_writeBlock {l l' : List (String × String)} (h : l.Perm l') :
    (writeBlock l).length = (writeBlock l').length := by
  have hempty : l.isEmpty = l'.isEmpty := by
    rw [Bool.eq_iff_iff, List.isEmpty_iff, List.isEmpty_iff]
    exact ⟨fun hl => (hl ▸ h).nil_eq.symm, fun hl => (hl ▸ h).eq_nil⟩
  have hterm : (terminated NUL (l.map writeEntry)).length = (terminated NUL (l'.map writeEntry)).length :=
    ((h.map writeEntry).flatMap_right _).length_eq
  rw [writeBlock, writeBlock, List.length_append, List.length_append, hterm, hempty]

/-- The child's block reads back as the parent's variables with the builder's over them,
    and to its end. -/
theorem block_roundtrip (sys : Sys) (w : Nat) (parent : List Char) (s : ProcessStartup) (b : Option (List Char))
    (hs : ∀ k v, s.env.lookup k = some v → ValidKey k ∧ NUL ∉ v.toList) (hb : envBlock sys w (some parent) s = .ok b) :
    readBlock (b.getD parent) = s.env ∪ (if s.inheritEnv then readBlock parent else ∅) ∧
      ∀ block, b = some block → block = terminated NUL (strings NUL [] block) ++
        NUL :: (if (strings NUL [] block).isEmpty then [NUL] else []) := by
  have hread := effective_readable sys parent (s := s) hs
  rcases envBlock_ok hb with ⟨hi, hnone, rfl⟩ | rfl
  · refine ⟨?_, fun block h => by cases h⟩
    rw [hnone, Finmap.empty_union, if_pos hi]
    rfl
  · refine ⟨?_, ?_⟩
    · rw [Option.getD_some, readBlock_sorted sys hread, effective_eq]
    · intro block h
      cases h
      rw [strings_writeBlock fun e => sortedEnv_readable sys hread, List.isEmpty_map]
      rfl

/-- ASCII upper case, standing in for the equality of names and their order. -/
def upper (s : String) : List Char := s.toList.map Char.toUpper

noncomputable def asciiSys : Sys where
  env := .any
  effective := .any
  less a b := upper a < upper b
  sort l := l.mergeSort fun a b => decide (¬ upper b.1 < upper a.1)
  sort_perm l := List.mergeSort_perm l _
  sort_sorted l := by
    have htrans : ∀ a b c : String × String, decide (¬ upper b.1 < upper a.1) = true →
        decide (¬ upper c.1 < upper b.1) = true → decide (¬ upper c.1 < upper a.1) = true := fun a b c hab hbc =>
      decide_eq_true (List.not_lt.mpr
        (List.le_trans (List.not_lt.mp (of_decide_eq_true hab)) (List.not_lt.mp (of_decide_eq_true hbc))))
    have htotal : ∀ a b : String × String,
        (decide (¬ upper b.1 < upper a.1) || decide (¬ upper a.1 < upper b.1)) = true := by
      intro a b
      rw [Bool.or_eq_true, decide_eq_true_iff, decide_eq_true_iff, List.not_lt, List.not_lt]
      exact List.le_total (upper a.1) (upper b.1)
    exact (List.pairwise_mergeSort htrans htotal l).imp fun {a b} hab => decide_eq_false (of_decide_eq_true hab)

/-- A hidden variable, a variable twice, and an entry without a value. -/
def driveBlock : List Char := "=C:=C:\\\x00A=0\x00A=1\x00B\x00\x00".toList

def driveStartup : ProcessStartup := { env := (∅ : EnvMap).insert "A" "2" }

theorem block_roundtrip_drive :
    ∃ block, envBlock asciiSys 64 (some driveBlock) driveStartup = .ok (some block) ∧
      readBlock block = driveStartup.env ∪ readBlock driveBlock := by
  have heff : Iterates (effective asciiSys (some driveBlock) driveStartup) [("=C:", "C:\\"), ("A", "2")] := by
    rw [effective_eq]
    unfold Iterates
    decide +kernel
  have hfit := length_writeBlock (sortedEnv_perm asciiSys heff (by decide))
  have hb := envBlock_fits asciiSys 64 (some driveBlock) driveStartup
    (fun h => absurd h.2 (by decide +kernel)) (by rw [hfit]; decide)
  refine ⟨_, hb, (block_roundtrip asciiSys 64 driveBlock driveStartup _ ?_ hb).1⟩
  intro k v h
  have hmem : (⟨k, v⟩ : Sigma fun _ : String => String) ∈ driveStartup.env.entries := Finmap.lookup_eq_some_iff.mp h
  have hentries : driveStartup.env.entries = {⟨"A", "2"⟩} := by decide +kernel
  rw [hentries] at hmem
  cases Multiset.mem_singleton.mp hmem
  exact ⟨⟨by decide, by decide, by decide, by decide⟩, by decide⟩

/-! ## Names ignoring case -/

section Casing

variable {α : Type} [DecidableEq α] (fold : String → α)

/-- What Windows finds for a name: the first entry whose name folds to the same. -/
def find (name : String) (l : List (String × String)) : Option String :=
  (l.find? fun e => fold e.1 = fold name).map Prod.snd

/-- The value set last for a name in any casing. -/
def lastSetFold (h : List Call) (name : String) : Option String := find fold name (h.filterMap environmentOf).reverse

/-- Each name is in the block once, in one casing, and a name that was set has the value set
    last, however it is spelt. -/
structure Overrides (h : List Call) (block : List Char) : Prop where
  single : ((vars block).map fun e => fold e.1).Nodup
  found : ∀ name v, Call.set (.environment name v) ∈ h → ∀ spelt, fold spelt = fold name →
    find fold spelt (vars block) = lastSetFold fold h spelt

/-- No name is set in two casings, and none that the child inherits is set in another. -/
structure OneCasing (h : List Call) (inherited : List (String × String)) : Prop where
  set : ∀ k v k' v', Call.set (.environment k v) ∈ h → Call.set (.environment k' v') ∈ h → fold k = fold k' → k = k'
  parent : ∀ e ∈ inherited, ∀ k v, Call.set (.environment k v) ∈ h → fold e.1 = fold k → e.1 = k

/-- No value that counts holds a NUL. -/
def NoNul (h : List Call) : Prop := ∀ k v, lastSet h k = some v → NUL ∉ v.toList

variable {fold}

theorem find_of_mem {l : List (String × String)} (hn : (l.map fun e => fold e.1).Nodup) {e : String × String}
    (he : e ∈ l) {name : String} (hname : fold e.1 = fold name) : find fold name l = some e.2 := by
  induction l with
  | nil => cases he
  | cons a l ih =>
    obtain ⟨ha, hn⟩ := List.nodup_cons.mp hn
    rcases List.mem_cons.mp he with rfl | he
    · simp [find, hname]
    · have hne : fold a.1 ≠ fold name := fun h => ha (List.mem_map.mpr ⟨e, he, hname.trans h.symm⟩)
      have hrest := ih hn he
      rw [find] at hrest ⊢
      rwa [List.find?_cons_of_neg (by simpa using hne)]

/-- Where one casing of a name occurs, looking for any casing is looking for that one. -/
theorem find_eq_lookup {l : List (String × String)} {k spelt : String} (hk : fold spelt = fold k)
    (hone : ∀ e ∈ l, fold e.1 = fold k → e.1 = k) : find fold spelt l = l.lookup k := by
  induction l with
  | nil => rfl
  | cons a l ih =>
    have hrest := ih fun e he => hone e (List.mem_cons_of_mem _ he)
    rw [lookup_cons_if]
    by_cases ha : fold a.1 = fold k
    · rw [if_pos (hone a List.mem_cons_self ha).symm, find, List.find?_cons_of_pos (by simp [ha, hk])]
      rfl
    · have hne : k ≠ a.1 := fun h => ha (by rw [h])
      rw [if_neg hne, find, List.find?_cons_of_neg (by simp [ha, hk])]
      exact hrest

theorem lastSetFold_eq {h : List Call} {inherited : List (String × String)} (hc : OneCasing fold h inherited)
    {k v spelt : String} (hk : Call.set (.environment k v) ∈ h) (hs : fold spelt = fold k) :
    lastSetFold fold h spelt = lastSet h k := by
  refine find_eq_lookup hs ?_
  intro e he hfold
  exact hc.set e.1 e.2 k v (mem_environmentOf.mp (List.mem_reverse.mp he)) hk hfold

theorem effective_origin {sys : Sys} {parent : List Char} {h : List Call} {s : ProcessStartup}
    (hs : start .win32 (run h) = .ok s) {e : String × String}
    (he : (effective sys (some parent) s).lookup e.1 = some e.2) :
    Call.set (.environment e.1 e.2) ∈ h ∨ e ∈ if s.inheritEnv then vars parent else [] := by
  rw [effective_eq] at he
  by_cases hk : e.1 ∈ s.env
  · rw [Finmap.lookup_union_left hk, (start_env hs).1, run_env] at he
    exact .inl (mem_of_lastSet he)
  · rw [Finmap.lookup_union_right hk] at he
    split at he
    · rename_i hi
      rw [lookup_readBlock] at he
      obtain ⟨l₁, l₂, hl, -⟩ := List.lookup_eq_some_iff.mp he
      rw [if_pos hi, hl]
      exact .inr (by simp)
    · simp at he

theorem effective_has_set {sys : Sys} {parent : List Char} {h : List Call} {s : ProcessStartup}
    (hs : start .win32 (run h) = .ok s) {k u : String} (hu : lastSet h k = some u) :
    (effective sys (some parent) s).lookup k = some u := by
  have hk : s.env.lookup k = some u := by rw [(start_env hs).1, run_env, hu]
  rw [effective_eq, Finmap.lookup_union_left (Finmap.mem_of_lookup_eq_some hk), hk]

theorem effective_has_inherited (sys : Sys) {parent : List Char} {s : ProcessStartup} {e : String × String}
    (he : e ∈ if s.inheritEnv then vars parent else []) :
    ∃ u, (effective sys (some parent) s).lookup e.1 = some u := by
  suffices hm : e.1 ∈ effective sys (some parent) s from Finmap.mem_iff.mp hm
  rw [effective_eq, Finmap.mem_union]
  split at he
  · rename_i hi
    refine .inr ?_
    rw [if_pos hi, ← Finmap.lookup_isSome, lookup_readBlock, List.lookup_isSome_iff]
    exact ⟨e, he, beq_self_eq_true e.1⟩
  · cases he

section Entries

variable {sys : Sys} {parent : List Char} {h : List Call} {s : ProcessStartup} {l : List (String × String)}

omit [DecidableEq α] in
/-- Over the entries of the effective environment: one casing each is what keeps names
    that fold to the same apart. -/
theorem overrides_entries (hparent : ((vars parent).map fun e => fold e.1).Nodup) (hs : start .win32 (run h) = .ok s)
    (hn : (l.map Prod.fst).Nodup) (hl : ∀ e, e ∈ l ↔ (effective sys (some parent) s).lookup e.1 = some e.2) :
    ((l.map fun e => fold e.1).Nodup ↔ OneCasing fold h (if s.inheritEnv then vars parent else [])) := by
  constructor
  · intro hsingle
    have hinj := List.inj_on_of_nodup_map hsingle
    have hset : ∀ k v, Call.set (.environment k v) ∈ h → ∃ u, (k, u) ∈ l := fun k v hk => by
      obtain ⟨u, hu⟩ := lastSet_of_mem hk
      exact ⟨u, (hl _).mpr (effective_has_set hs hu)⟩
    refine ⟨?_, ?_⟩
    · intro k v k' v' hk hk' hf
      obtain ⟨u, hu⟩ := hset k v hk
      obtain ⟨u', hu'⟩ := hset k' v' hk'
      exact congrArg Prod.fst (hinj hu hu' hf)
    · intro e he k v hk hf
      obtain ⟨u, hu⟩ := effective_has_inherited sys he
      obtain ⟨u', hu'⟩ := hset k v hk
      exact congrArg Prod.fst (hinj ((hl (e.1, u)).mpr hu) hu' hf)
  · intro hone
    refine List.Nodup.map_on ?_ (List.Nodup.of_map _ hn)
    intro e he e' he' hf
    have hname : e.1 = e'.1 := by
      rcases effective_origin hs ((hl e).mp he) with hset | hin <;>
        rcases effective_origin hs ((hl e').mp he') with hset' | hin'
      · exact hone.set _ _ _ _ hset hset' hf
      · exact (hone.parent e' hin' _ _ hset hf.symm).symm
      · exact hone.parent e hin _ _ hset' hf
      · split at hin
        · rename_i hi
          rw [if_pos hi] at hin'
          exact congrArg Prod.fst (List.inj_on_of_nodup_map hparent hin hin' hf)
        · cases hin
    have hv := (hl e).mp he
    rw [hname, (hl e').mp he'] at hv
    exact Prod.ext hname (Option.some.inj hv).symm

end Entries

theorem validKey_of {k : String} (hk : k ≠ "" ∧ '=' ∉ k.toList ∧ NUL ∉ k.toList) : ValidKey k := by
  refine ⟨hk.1, ?_, fun h => hk.2.1 (List.mem_of_mem_tail h), hk.2.2⟩
  intro h
  rw [h] at hk
  exact hk.2.1 (by decide)

/-- The child's variables: the parent's own where nothing was set and it inherits, else
    the effective environment's, if they can be read back. -/
theorem vars_child {sys : Sys} {w : Nat} {parent : List Char} {h : List Call} {s : ProcessStartup}
    {b : Option (List Char)} (hvalid : ∀ k v, Call.set (.environment k v) ∈ h → k ≠ "" ∧ '=' ∉ k.toList ∧ NUL ∉ k.toList)
    (hs : start .win32 (run h) = .ok s) (hb : envBlock sys w (some parent) s = .ok b) (hnul : NoNul h) :
    (∀ k v, Call.set (.environment k v) ∉ h) ∧ b = none ∨
      ((vars (b.getD parent)).map Prod.fst).Nodup ∧
        ∀ e, e ∈ vars (b.getD parent) ↔ (effective sys (some parent) s).lookup e.1 = some e.2 := by
  have henv : ∀ k, s.env.lookup k = lastSet h k := fun k => by rw [(start_env hs).1, run_env]
  have hread : MapReadable s.env := fun k v hk => by
    rw [henv] at hk
    exact ⟨validKey_of (hvalid k v (mem_of_lastSet hk)), hnul k v hk⟩
  rcases envBlock_ok hb with ⟨-, hnone, rfl⟩ | rfl
  · refine .inl ⟨?_, rfl⟩
    intro k v hk
    obtain ⟨u, hu⟩ := lastSet_of_mem hk
    rw [← henv, hnone] at hu
    simp at hu
  · have heff := effective_readable sys parent hread
    rw [Option.getD_some, vars_writeBlock fun e => sortedEnv_readable sys heff]
    exact .inr ⟨sortedEnv_nodup sys _, mem_sortedEnv sys fun k v hk => (heff k v hk).1.ne⟩

/-- For any parent block whose names differ in more than case and any calls with valid
    names: the block keeps one value for each name in any casing, the one set last,
    exactly when no two casings of a name meet, if no value holds a NUL; and then exactly
    when none does. -/
theorem overrides_win (sys : Sys) (w : Nat) (parent : List Char) (h : List Call) (s : ProcessStartup)
    (b : Option (List Char)) (hparent : ((vars parent).map fun e => fold e.1).Nodup)
    (hvalid : ∀ k v, Call.set (.environment k v) ∈ h → k ≠ "" ∧ '=' ∉ k.toList ∧ NUL ∉ k.toList)
    (hs : start .win32 (run h) = .ok s) (hb : envBlock sys w (some parent) s = .ok b) :
    (NoNul h →
      (Overrides fold h (b.getD parent) ↔ OneCasing fold h (if s.inheritEnv then vars parent else []))) ∧
    (OneCasing fold h (if s.inheritEnv then vars parent else []) →
      (Overrides fold h (b.getD parent) ↔ NoNul h)) := by
  have hiff : NoNul h →
      (Overrides fold h (b.getD parent) ↔ OneCasing fold h (if s.inheritEnv then vars parent else [])) := by
    intro hnul
    rcases vars_child hvalid hs hb hnul with ⟨hnone, rfl⟩ | ⟨hn, hl⟩
    · -- nothing was set
      exact ⟨fun _ => ⟨fun k v _ _ hk => absurd hk (hnone k v), fun _ _ k v hk => absurd hk (hnone k v)⟩,
        fun _ => ⟨hparent, fun k v hk => absurd hk (hnone k v)⟩⟩
    · have hentries := overrides_entries hparent hs hn hl
      refine ⟨fun ho => hentries.mp ho.single, fun hone => ⟨hentries.mpr hone, ?_⟩⟩
      intro k v hk spelt hspelt
      obtain ⟨u, hu⟩ := lastSet_of_mem hk
      rw [lastSetFold_eq hone hk hspelt, hu]
      exact find_of_mem (hentries.mpr hone) ((hl (k, u)).mpr (effective_has_set hs hu)) hspelt.symm
  refine ⟨hiff, fun hone => ⟨?_, fun hnul => (hiff hnul).mpr hone⟩⟩
  intro ho k v hk
  have hset := mem_of_lastSet hk
  have hfound := ho.found k v hset k rfl
  rw [lastSetFold_eq hone hset rfl, hk] at hfound
  obtain ⟨e, he, rfl⟩ := Option.map_eq_some_iff.mp hfound
  exact (vars_readable (List.mem_of_find?_eq_some he)).2

end Casing

def pathBlock : List Char := "PATH=x\x00\x00".toList

def otherCalls : List Call := [.set (.command "p"), .set (.environment "A" "1")]

theorem overrides_win_other :
    ∃ block, envBlock asciiSys 64 (some pathBlock) (run otherCalls).startup = .ok (some block) ∧
      Overrides upper otherCalls block := by
  have heff : Iterates (effective asciiSys (some pathBlock) (run otherCalls).startup) [("A", "1"), ("PATH", "x")] := by
    rw [effective_eq]
    unfold Iterates
    decide +kernel
  have hfit := length_writeBlock (sortedEnv_perm asciiSys heff (by decide))
  have hb := envBlock_fits asciiSys 64 (some pathBlock) (run otherCalls).startup
    (fun h => absurd h.2 (by decide +kernel)) (by rw [hfit]; decide)
  have hset : ∀ k v, Call.set (.environment k v) ∈ otherCalls → k = "A" ∧ v = "1" := fun k v hm => by
    simpa [otherCalls] using hm
  have hvars : vars pathBlock = [("PATH", "x")] := by decide +kernel
  refine ⟨_, hb, ((overrides_win asciiSys 64 pathBlock otherCalls _ _ ?_ ?_ rfl hb).1
    ?_).mpr ⟨?_, ?_⟩⟩
  · rw [hvars]
    decide
  · intro k v hm
    obtain ⟨rfl, rfl⟩ := hset k v hm
    decide
  · intro k v hl
    obtain ⟨rfl, rfl⟩ := hset k v (mem_of_lastSet hl)
    decide
  · intro k v k' v' hk hk' _
    rw [(hset k v hk).1, (hset k' v' hk').1]
  · intro e he k v hk hf
    obtain ⟨rfl, rfl⟩ := hset k v hk
    have hin : (run otherCalls).startup.inheritEnv = true := rfl
    rw [if_pos hin, hvars] at he
    rw [List.mem_singleton.mp he] at hf
    exact absurd hf (by decide)

def casingCalls : List Call := [.set (.command "p"), .set (.environment "Path" "y")]

theorem casings_collide :
    ¬ ∀ (sys : Sys) (w : Nat) (parent : List Char) (h : List Call) (s : ProcessStartup) (b : Option (List Char)),
      ((vars parent).map fun e => upper e.1).Nodup →
      (∀ k v, Call.set (.environment k v) ∈ h → k ≠ "" ∧ '=' ∉ k.toList ∧ NUL ∉ k.toList) →
      start .win32 (run h) = .ok s → envBlock sys w (some parent) s = .ok b → Overrides upper h (b.getD parent) := by
  intro hall
  have heff : Iterates (effective asciiSys (some pathBlock) (run casingCalls).startup) [("Path", "y"), ("PATH", "x")] := by
    rw [effective_eq]
    unfold Iterates
    decide +kernel
  have hperm := sortedEnv_perm asciiSys heff (by decide)
  have hb := envBlock_fits asciiSys 64 (some pathBlock) (run casingCalls).startup
    (fun h => absurd h.2 (by decide +kernel)) (by rw [length_writeBlock hperm]; decide)
  have hover := hall asciiSys 64 pathBlock casingCalls _ _ (by decide +kernel) (fun k v hm => ?_) rfl hb
  · have hvars := hover.single
    rw [Option.getD_some, vars_writeBlock fun e he => ?_] at hvars
    · exact absurd ((hperm.map fun e => upper e.1).nodup_iff.mp hvars) (by decide)
    · rcases List.mem_cons.mp (hperm.mem_iff.mp he) with rfl | he
      · exact ⟨⟨by decide, by decide, by decide, by decide⟩, by decide⟩
      · rw [List.mem_singleton.mp he]
        exact ⟨⟨by decide, by decide, by decide, by decide⟩, by decide⟩
  · have hkv : k = "Path" ∧ v = "y" := by simpa [casingCalls] using hm
    obtain ⟨rfl, rfl⟩ := hkv
    decide

end CovProcess.Win32
