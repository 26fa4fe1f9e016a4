/-
  CovProcess.Win32.BlockSize — the arithmetic of the environment block (see
  `CovProcess.Win32.Environ`): the loop that sums up its size, and the loop that copies the
  entries into an allocation of that size.

  The size loop is written over its additions and subtractions. With those of a `size_t`
  it is the model's (`sizeLoop_wrapping`); with checked ones, which have no result where a
  `size_t` would wrap, it says whether one does. A write of the copy loop has no result
  where it leaves the allocation.

  Proved: `block_size_exact`, nothing wraps, the loop throws exactly for a block larger than
  `PTRDIFF_MAX`, and otherwise the copy loop fills the allocation, to its last byte, with the
  block; `envBlock_eq_create`, the whole is the model's block.
-/

import CovProcess.Win32.Environ

namespace CovProcess.Win32

open EnvBlock Builder

/-! ## The size loop -/

/-- Addition and subtraction of unsigned numbers. -/
structure SizeArith (m : Type → Type) where
  add : Nat → Nat → m Nat
  sub : Nat → Nat → m Nat

def wrapping (w : Nat) : SizeArith Id := ⟨fun a b => (a + b) % 2 ^ w, subSize w⟩

def checked (w : Nat) : SizeArith Option :=
  ⟨fun a b => if a + b < 2 ^ w then some (a + b) else none, fun a b => if b ≤ a then some (a - b) else none⟩

def ptrdiffMax (w : Nat) : Nat := 2 ^ (w - 1) - 1

/-- One round; the second comparison is not made when the first holds. -/
def sizeRound {m : Type → Type} [Monad m] (A : SizeArith m) (maxObjectSize size : Nat) (e : String × String) :
    m (Except String Nat) := do
  let keySize := e.1.length
  let valueSize := e.2.length
  let forKey ← A.sub (← A.sub maxObjectSize valueSize) 2
  if forKey < keySize then return .error "environment block is too large"
  else
    let forSize ← A.sub (← A.sub (← A.sub maxObjectSize keySize) valueSize) 2
    if forSize < size then return .error "environment block is too large"
    else return .ok (← A.add size (← A.add (← A.add keySize valueSize) 2))

def sizeLoop {m : Type → Type} [Monad m] (A : SizeArith m) (maxObjectSize : Nat) :
    Nat → List (String × String) → m (Except String Nat)
  | size, [] => return .ok size
  | size, e :: entries => do
    match ← sizeRound A maxObjectSize size e with
    | .error msg => return .error msg
    | .ok size => sizeLoop A maxObjectSize size entries

def firstSize (entries : List (String × String)) : Nat := if entries.isEmpty then 2 else 1

/-! ## The copy loop -/

/-- `p` is an offset into the allocation. -/
structure Cursor where
  block : List Char
  p : Nat
  deriving DecidableEq, Repr

/-- A write at `p`, and `p` behind it. -/
def Cursor.put (c : Cursor) (cs : List Char) : Option Cursor :=
  if c.p + cs.length ≤ c.block.length then
    some ⟨c.block.take c.p ++ cs ++ c.block.drop (c.p + cs.length), c.p + cs.length⟩
  else none

def copyEntry (c : Cursor) (e : String × String) : Option Cursor := do
  let c ← c.put e.1.toList
  let c ← c.put ['=']
  let c ← c.put e.2.toList
  c.put [NUL]

def copyBlock (size : Nat) (entries : List (String × String)) : Option Cursor := do
  let c ← entries.foldlM copyEntry ⟨List.replicate size NUL, 0⟩
  let c ← c.put [NUL]
  if entries.isEmpty then c.put [NUL] else some c

/-- Both loops and the check after them; `none` is a write outside the allocation. -/
def createBlock (w : Nat) (entries : List (String × String)) : Option (Except String (List Char)) :=
  match sizeLoop (wrapping w) (ptrdiffMax w) (firstSize entries) entries with
  | .error msg => some (.error msg)
  | .ok size => (copyBlock size entries).map fun c =>
    if c.p ≠ size then .error "unable to copy environment variables" else .ok c.block

/-! ## Sizes -/

section

variable {w : Nat}

/-- A name and a value of at most `PTRDIFF_MAX - 2` characters. -/
def Fits (w : Nat) (e : String × String) : Prop :=
  e.1.length ≤ ptrdiffMax w - 2 ∧ e.2.length ≤ ptrdiffMax w - 2

instance (w : Nat) (e : String × String) : Decidable (Fits w e) := inferInstanceAs (Decidable (_ ∧ _))

def entrySize (e : String × String) : Nat := e.1.length + e.2.length + 2

def entriesSize (entries : List (String × String)) : Nat := (terminated NUL (entries.map writeEntry)).length

theorem entriesSize_cons (e : String × String) (entries : List (String × String)) :
    entriesSize (e :: entries) = entrySize e + entriesSize entries := by
  simp [entriesSize, entrySize, terminated, writeEntry, String.length_toList]
  omega

theorem length_writeBlock_eq (entries : List (String × String)) :
    (writeBlock entries).length = firstSize entries + entriesSize entries := by
  cases entries with
  | nil => rfl
  | cons e entries =>
    rw [writeBlock, List.length_append, Nat.add_comm]
    rfl

theorem ptrdiffMax_lt (hw : 3 ≤ w) : 3 ≤ ptrdiffMax w ∧ 2 * ptrdiffMax w < 2 ^ w := by
  obtain ⟨n, rfl⟩ : ∃ n, w = n + 1 := ⟨w - 1, by omega⟩
  have hpow : 2 ^ (n + 1) = 2 * 2 ^ n := Nat.pow_succ'
  have hfour : 2 ^ 2 ≤ 2 ^ n := Nat.pow_le_pow_right Nat.two_pos (by omega)
  rw [ptrdiffMax, Nat.add_sub_cancel, hpow]
  omega

def nextSize (w size : Nat) (e : String × String) : Except String Nat :=
  if ptrdiffMax w < size + entrySize e then .error "environment block is too large" else .ok (size + entrySize e)

/-! ## The size loop and its arithmetic -/

/-- It computes what does not wrap in `w` bits. -/
structure Exact {m : Type → Type} [Monad m] (w : Nat) (A : SizeArith m) : Prop where
  add : ∀ {a b}, a + b < 2 ^ w → A.add a b = pure (a + b)
  sub : ∀ {a b}, b ≤ a → a < 2 ^ w → A.sub a b = pure (a - b)

theorem checked_exact (w : Nat) : Exact w (checked w) where
  add h := if_pos h
  sub h _ := if_pos h

theorem wrapping_exact (w : Nat) : Exact w (wrapping w) where
  add h := Nat.mod_eq_of_lt h
  sub h ha := subSize_le h ha

/-- Nothing wraps in a round that starts within the limit: the second comparison is made
    only after the first has bounded the entry. -/
theorem sizeRound_eq {m : Type → Type} [Monad m] [LawfulMonad m] {A : SizeArith m} (hA : Exact w A) (hw : 3 ≤ w)
    {size : Nat} {e : String × String} (he : Fits w e) (hsize : size ≤ ptrdiffMax w) :
    sizeRound A (ptrdiffMax w) size e = pure (nextSize w size e) := by
  obtain ⟨hthree, htwice⟩ := ptrdiffMax_lt hw
  obtain ⟨hkey, hvalue⟩ := he
  have hentry : entrySize e = e.1.length + e.2.length + 2 := rfl
  simp only [sizeRound]
  rw [nextSize, hA.sub (a := ptrdiffMax w) (b := e.2.length) (by omega) (by omega), pure_bind,
    hA.sub (b := 2) (by omega) (by omega), pure_bind]
  by_cases hfirst : ptrdiffMax w - e.2.length - 2 < e.1.length
  · rw [if_pos hfirst, if_pos (by omega)]
  · rw [if_neg hfirst, hA.sub (a := ptrdiffMax w) (b := e.1.length) (by omega) (by omega), pure_bind,
      hA.sub (b := e.2.length) (by omega) (by omega), pure_bind, hA.sub (b := 2) (by omega) (by omega), pure_bind]
    by_cases hsecond : ptrdiffMax w - e.1.length - e.2.length - 2 < size
    · rw [if_pos hsecond, if_pos (by omega)]
    · rw [if_neg hsecond, if_neg (by omega), hA.add (a := e.1.length) (by omega), pure_bind, hA.add (b := 2) (by omega),
        pure_bind, hA.add (a := size) (by omega), pure_bind, hentry]

/-- The loop throws when a size goes beyond the limit, and sizes only grow. -/
theorem sizeLoop_eq {m : Type → Type} [Monad m] [LawfulMonad m] {A : SizeArith m} (hA : Exact w A) (hw : 3 ≤ w)
    {entries : List (String × String)} (hfits : ∀ e ∈ entries, Fits w e) {size : Nat} (hsize : size ≤ ptrdiffMax w) :
    sizeLoop A (ptrdiffMax w) size entries = pure
      (if ptrdiffMax w < size + entriesSize entries then .error "environment block is too large"
        else .ok (size + entriesSize entries)) := by
  induction entries generalizing size with
  | nil =>
    have hnil : entriesSize [] = 0 := rfl
    rw [hnil, Nat.add_zero, if_neg (Nat.not_lt.mpr hsize)]
    rfl
  | cons e entries ih =>
    rw [sizeLoop, sizeRound_eq hA hw (hfits e List.mem_cons_self) hsize, pure_bind, nextSize, entriesSize_cons, ← Nat.add_assoc]
    by_cases hover : ptrdiffMax w < size + entrySize e
    · rw [if_pos hover, if_pos (by omega)]
    · rw [if_neg hover]
      exact ih (fun e he => hfits e (List.mem_cons_of_mem _ he)) (Nat.not_lt.mp hover)

/-- With the operations of a `size_t`, a round is the model's. -/
theorem sizeRound_wrapping (size : Nat) (e : String × String) :
    sizeRound (wrapping w) (ptrdiffMax w) size e = addSize w size e := by
  have hsum : (size + ((e.1.length + e.2.length) % 2 ^ w + 2) % 2 ^ w) % 2 ^ w =
      (size + e.1.length + e.2.length + 2) % 2 ^ w := by
    rw [Nat.add_mod_mod, Nat.add_comm size, Nat.add_assoc, Nat.mod_add_mod]
    congr 1
    omega
  show (if subSize w (subSize w (ptrdiffMax w) e.2.length) 2 < e.1.length then Except.error "environment block is too large"
    else if subSize w (subSize w (subSize w (ptrdiffMax w) e.1.length) e.2.length) 2 < size then
      Except.error "environment block is too large"
    else Except.ok ((size + ((e.1.length + e.2.length) % 2 ^ w + 2) % 2 ^ w) % 2 ^ w)) = _
  rw [hsum, addSize]
  by_cases hfirst : subSize w (subSize w (ptrdiffMax w) e.2.length) 2 < e.1.length
  · rw [if_pos hfirst]
    exact (if_pos (.inl hfirst)).symm
  · by_cases hsecond : subSize w (subSize w (subSize w (ptrdiffMax w) e.1.length) e.2.length) 2 < size
    · rw [if_neg hfirst, if_pos hsecond]
      exact (if_pos (.inr hsecond)).symm
    · rw [if_neg hfirst, if_neg hsecond]
      exact (if_neg (not_or_intro hfirst hsecond)).symm

theorem sizeLoop_wrapping (entries : List (String × String)) (size : Nat) :
    sizeLoop (wrapping w) (ptrdiffMax w) size entries = entries.foldlM (addSize w) size := by
  induction entries generalizing size with
  | nil => rfl
  | cons e entries ih =>
    rw [List.foldlM_cons, ← sizeRound_wrapping, sizeLoop]
    cases hr : sizeRound (wrapping w) (ptrdiffMax w) size e with
    | error msg => rfl
    | ok size => exact ih size

theorem envSize_eq (entries : List (String × String)) :
    envSize w entries = sizeLoop (wrapping w) (ptrdiffMax w) (firstSize entries) entries :=
  (sizeLoop_wrapping entries _).symm

/-! ## The copy loop and its allocation -/

/-- The first bytes written, and the cursor behind them. -/
def Cursor.after (size : Nat) (done : List Char) : Cursor :=
  ⟨done ++ List.replicate (size - done.length) NUL, done.length⟩

theorem put_after {size : Nat} {done cs : List Char} (hfits : (done ++ cs).length ≤ size) :
    (Cursor.after size done).put cs = some (Cursor.after size (done ++ cs)) := by
  rw [List.length_append] at hfits
  have hlen : (Cursor.after size done).block.length = size := by
    simp [Cursor.after]
    omega
  rw [Cursor.put, if_pos (by rw [hlen]; exact hfits)]
  simp only [Cursor.after, List.take_left, List.length_append]
  rw [← List.drop_drop, List.drop_left, List.drop_replicate, Nat.sub_sub]

theorem copyEntry_after {size : Nat} {done : List Char} {e : String × String}
    (hfits : (done ++ (writeEntry e ++ [NUL])).length ≤ size) :
    copyEntry (Cursor.after size done) e = some (Cursor.after size (done ++ (writeEntry e ++ [NUL]))) := by
  have hdone : done ++ (writeEntry e ++ [NUL]) = done ++ e.1.toList ++ ['='] ++ e.2.toList ++ [NUL] := by
    simp [writeEntry]
  rw [hdone] at hfits ⊢
  have hmono : ∀ l : List Char, ∀ cs, (l ++ cs).length ≤ size → l.length ≤ size := by
    intro l cs h
    rw [List.length_append] at h
    omega
  have h3 := hmono _ _ hfits
  have h2 := hmono _ _ h3
  have h1 := hmono _ _ h2
  simp only [copyEntry, put_after h1, put_after h2, put_after h3, put_after hfits, Option.bind_eq_bind, Option.bind_some]

theorem copyEntries_after {size : Nat} (entries : List (String × String)) {done : List Char}
    (hfits : (done ++ terminated NUL (entries.map writeEntry)).length ≤ size) :
    entries.foldlM copyEntry (Cursor.after size done) =
      some (Cursor.after size (done ++ terminated NUL (entries.map writeEntry))) := by
  induction entries generalizing done with
  | nil =>
    rw [List.map_nil, terminated, List.flatMap_nil, List.append_nil]
    rfl
  | cons e entries ih =>
    have hcons : done ++ terminated NUL ((e :: entries).map writeEntry) =
        done ++ (writeEntry e ++ [NUL]) ++ terminated NUL (entries.map writeEntry) := by
      simp [terminated]
    rw [hcons] at hfits ⊢
    rw [List.foldlM_cons, copyEntry_after (by rw [List.length_append] at hfits; omega)]
    exact ih hfits

/-- In an allocation of the block's length, every write is within it and the last one
    ends at its end. -/
theorem copyBlock_eq (entries : List (String × String)) :
    copyBlock (writeBlock entries).length entries = some ⟨writeBlock entries, (writeBlock entries).length⟩ := by
  have hend : Cursor.after (writeBlock entries).length (writeBlock entries) =
      ⟨writeBlock entries, (writeBlock entries).length⟩ := by
    rw [Cursor.after, Nat.sub_self, List.replicate_zero, List.append_nil]
  have hstart : (⟨List.replicate (writeBlock entries).length NUL, 0⟩ : Cursor) =
      Cursor.after (writeBlock entries).length [] := rfl
  rw [← hend, copyBlock, hstart]
  cases entries with
  | nil => rfl
  | cons e entries =>
    have hblock : writeBlock (e :: entries) = terminated NUL ((e :: entries).map writeEntry) ++ [NUL] := rfl
    have hlen := congrArg List.length hblock
    rw [List.length_append] at hlen
    rw [copyEntries_after _ (by rw [List.nil_append]; omega), Option.bind_eq_bind, Option.bind_some, List.nil_append,
      put_after (by rw [hblock]), ← hblock]
    rfl

/-! ## The block -/

/-- What the size loop comes to, and that it wraps nowhere on its way. -/
theorem sizes_eq (w : Nat) (hw : 3 ≤ w) (entries : List (String × String)) (hfits : ∀ e ∈ entries, Fits w e) :
    sizeLoop (checked w) (ptrdiffMax w) (firstSize entries) entries = some (envSize w entries) ∧
      envSize w entries = if ptrdiffMax w < (writeBlock entries).length then .error "environment block is too large"
        else .ok (writeBlock entries).length := by
  have hfirst : firstSize entries ≤ ptrdiffMax w := by
    have := (ptrdiffMax_lt hw).1
    unfold firstSize
    split <;> omega
  rw [envSize_eq, sizeLoop_eq (checked_exact w) hw hfits hfirst, sizeLoop_eq (wrapping_exact w) hw hfits hfirst,
    ← length_writeBlock_eq]
  exact ⟨rfl, rfl⟩

/-- For any entries whose names and values are at most `PTRDIFF_MAX - 2` long, in words of
    `w` bits (three hold the two bytes of an empty block): no addition or subtraction of the size loop wraps; it throws exactly when the
    block is larger than `PTRDIFF_MAX`; else its size is the block's, and the copy loop
    writes the block and nothing outside the allocation. -/
theorem block_size_exact (w : Nat) (hw : 3 ≤ w) (entries : List (String × String)) (hfits : ∀ e ∈ entries, Fits w e) :
    ∃ r, sizeLoop (checked w) (ptrdiffMax w) (firstSize entries) entries = some r ∧ envSize w entries = r ∧
      (r = .error "environment block is too large" ↔ ptrdiffMax w < (writeBlock entries).length) ∧
      ((∃ size, r = .ok size) ↔ (writeBlock entries).length ≤ ptrdiffMax w) ∧
      ∀ size, r = .ok size → size = (writeBlock entries).length ∧
        copyBlock size entries = some ⟨writeBlock entries, size⟩ := by
  obtain ⟨hchecked, hsize⟩ := sizes_eq w hw entries hfits
  refine ⟨_, hchecked, rfl, ?_⟩
  rw [hsize]
  by_cases hover : ptrdiffMax w < (writeBlock entries).length
  · simp [hover]
  · simp only [if_neg hover]
    refine ⟨by simp [hover], ⟨fun _ => Nat.not_lt.mp hover, fun _ => ⟨_, rfl⟩⟩, ?_⟩
    intro size hsize
    cases hsize
    exact ⟨rfl, copyBlock_eq entries⟩

/-- One variable on a machine of 64 bits: five characters. -/
theorem block_size_exact_one :
    envSize 64 [("A", "1")] = .ok 5 ∧ copyBlock 5 [("A", "1")] = some ⟨['A', '=', '1', NUL, NUL], 5⟩ := by
  obtain ⟨r, -, hr, -, hreturns, hok⟩ := block_size_exact 64 (by decide) [("A", "1")] (by decide)
  obtain ⟨size, rfl⟩ := hreturns.mpr (by decide)
  obtain ⟨rfl, hcopy⟩ := hok size rfl
  exact ⟨hr, hcopy⟩

end

/-- Both loops together are the model's block: no write leaves the allocation, and a copy
    never comes out short or long. -/
theorem envBlock_eq_create (sys : Sys) (w : Nat) (hw : 3 ≤ w) (parent : Option (List Char)) (s : ProcessStartup)
    (hset : ¬ (s.inheritEnv = true ∧ s.env = ∅)) (hfits : ∀ e ∈ sortedEnv sys (effective sys parent s), Fits w e) :
    ∃ r, createBlock w (sortedEnv sys (effective sys parent s)) = some r ∧ envBlock sys w parent s = r.map some ∧
      r ≠ .error "unable to copy environment variables" := by
  simp only [envBlock, if_neg hset, createBlock]
  generalize sortedEnv sys (effective sys parent s) = entries at hfits ⊢
  rw [← envSize_eq, (sizes_eq w hw entries hfits).2]
  by_cases hover : ptrdiffMax w < (writeBlock entries).length
  · rw [if_pos hover]
    exact ⟨_, rfl, rfl, by decide⟩
  · rw [if_neg hover]
    refine ⟨.ok (writeBlock entries), ?_, ?_, fun h => by cases h⟩
    · simp only [copyBlock_eq, Option.map_some, ne_eq, not_true_eq_false, if_false]
    · simp only [if_true]
      rfl

end CovProcess.Win32
