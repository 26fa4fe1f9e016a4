/-
  CovProcess.Unix.StartTime — `get_process_start_time` (`process_unix_wait.cpp`, Linux):
  field 22 of `/proc/<pid>/stat`, found from the last `)` of the text by counting blanks.

  The second field, the name of the program in parentheses, is the child's to choose, and
  may hold blanks, newlines and parentheses. `stack` is what the buffer held before.

  Proved: `start_time_field`, whatever the name, the value of field 22 is read, unless a NUL
  in one of the fields before it ends the text there (`start_time_nul`);
  `startTime_reads`, on the lines of a kernel it is the start time that the identity check
  of `CovProcess.Handle.Model` compares.
-/

import CovProcess.Handle.Model
import CovProcess.Lib.NulString
import CovProcess.Startup

namespace CovProcess.Unix

open NulString

/-! ## The parser -/

def statPath (pid : Int) : String := "/proc/" ++ toString pid ++ "/stat"

/-- `buf` after `fread`, and a NUL behind what was read. -/
def readStat (content stack : List Char) : List Char :=
  content.take 1023 ++ NUL :: stack.drop ((content.take 1023).length + 1)

def skipFields : Nat → List Char → Option Nat
  | 0, p => strtoull p
  | i + 1, p => do
    match ← strchr NUL ' ' p with
    | none => some 0
    | some p => skipFields i (p.drop 1)

/-- `fopen` gives the content of a file that can be opened; no result is a read outside the
    buffer. -/
def getProcessStartTime (fopen : String → Option (List Char)) (stack : List Char) (pid : Int) : Option Nat :=
  match fopen (statPath pid) with
  | none => some 0
  | some content =>
    if content = [] then some 0
    else do
      match ← strrchr NUL ')' (readStat content stack) with
      | none => some 0
      | some p => skipFields 19 (p.drop 2)

/-! ## The line -/

/-- `/proc/<pid>/stat`; the first of `fields` is field 3. -/
structure StatLine where
  pid : List Char
  name : List Char
  fields : List (List Char)
  deriving DecidableEq

namespace StatLine

def bytes (l : StatLine) : List Char := l.pid ++ ' ' :: '(' :: l.name ++ ')' :: ' ' :: [' '].intercalate l.fields

def field (l : StatLine) (n : Nat) : Option (List Char) := l.fields[n - 3]?

/-- Its form; of the name only that it holds no NUL. -/
structure Formed (l : StatLine) : Prop where
  pid : IsDecimal l.pid
  name : NUL ∉ l.name
  fields : ∀ f ∈ l.fields, ' ' ∉ f ∧ ')' ∉ f
  short : l.bytes.length ≤ 1023

end StatLine

/-! ## Counting -/

section

variable {l : StatLine} {fields : List (List Char)} {rest : List Char}

theorem not_mem_of_decimal {s : List Char} {c : Char} (hs : IsDecimal s) (hc : c.isDigit = false) : c ∉ s := by
  intro hmem
  rw [hs.2 c hmem] at hc
  cases hc

theorem intercalate_cons {f : List Char} (hne : fields ≠ []) :
    [' '].intercalate (f :: fields) = f ++ ' ' :: [' '].intercalate fields := by
  obtain ⟨g, fs, rfl⟩ := List.exists_cons_of_ne_nil hne
  rw [List.intercalate_cons_cons, List.append_assoc]
  rfl

theorem not_mem_intercalate {c : Char} (hc : c ≠ ' ') (hfields : ∀ f ∈ fields, c ∉ f) : c ∉ [' '].intercalate fields := by
  induction fields with
  | nil => exact List.not_mem_nil
  | cons f fs ih =>
    have hf := hfields f List.mem_cons_self
    have hfs := ih fun g hg => hfields g (List.mem_cons_of_mem _ hg)
    by_cases hne : fs = []
    · rwa [hne, List.intercalate_singleton]
    · rw [intercalate_cons hne, List.mem_append, List.mem_cons]
      exact fun hmem => hmem.elim hf fun h => h.elim hc hfs

/-- Each blank is the end of a field: the count does not lose its place. -/
theorem skipFields_intercalate {i : Nat} (hi : i < fields.length) (hblank : ∀ f ∈ fields.take i, ' ' ∉ f)
    (hnul : ∀ f ∈ fields.take i, NUL ∉ f) :
    skipFields i ([' '].intercalate fields ++ rest) = strtoull ([' '].intercalate (fields.drop i) ++ rest) := by
  induction i generalizing fields with
  | zero => rfl
  | succ i ih =>
    obtain ⟨f, fs, rfl⟩ := List.exists_cons_of_length_pos (Nat.zero_lt_of_lt hi)
    rw [List.length_cons] at hi
    have hfs : fs ≠ [] := fun h => by
      rw [h] at hi
      exact absurd hi (by simp)
    have hfirst : f ∈ (f :: fs).take (i + 1) := List.mem_cons_self
    have hlater : ∀ g ∈ fs.take i, g ∈ (f :: fs).take (i + 1) := fun g hg => List.mem_cons_of_mem _ hg
    rw [intercalate_cons hfs, List.append_assoc, List.cons_append, skipFields,
      strchr_append (hblank f hfirst) (hnul f hfirst), List.drop_succ_cons]
    exact ih (by omega) (fun g hg => hblank g (hlater g hg)) (fun g hg => hnul g (hlater g hg))

/-- The last `)` is the one that closes the name. -/
theorem strrchr_stat (hl : l.Formed) (stack : List Char) :
    strrchr NUL ')' (readStat l.bytes stack) =
      some (some (')' :: ' ' :: ([' '].intercalate l.fields ++ NUL :: stack.drop (l.bytes.length + 1)))) := by
  have hclose : ')' ∉ ' ' :: [' '].intercalate l.fields := by
    rw [List.mem_cons, not_or]
    exact ⟨by decide, not_mem_intercalate (by decide) fun f hf => (hl.fields f hf).2⟩
  have hopen : NUL ∉ l.pid ++ ' ' :: '(' :: l.name := by
    simp only [List.mem_append, List.mem_cons, not_or]
    exact ⟨not_mem_of_decimal hl.pid (by decide), by decide, by decide, hl.name⟩
  have hread : readStat l.bytes stack = l.pid ++ ' ' :: '(' :: l.name ++
      ')' :: ((' ' :: [' '].intercalate l.fields) ++ NUL :: stack.drop (l.bytes.length + 1)) := by
    rw [readStat, List.take_of_length_le hl.short, StatLine.bytes, List.append_assoc]
    rfl
  rw [hread, strrchr_append hopen (by decide) (strrchr_absent hclose _)]
  rfl

theorem field_ends {d : List Char} {n : Nat} (hd : fields[n]? = some d) (junk : List Char) :
    ∃ c rest, c.isDigit = false ∧ [' '].intercalate (fields.drop n) ++ NUL :: junk = d ++ c :: rest := by
  obtain ⟨hn, rfl⟩ := List.getElem?_eq_some_iff.mp hd
  rw [List.drop_eq_getElem_cons hn]
  by_cases hlast : fields.drop (n + 1) = []
  · rw [hlast, List.intercalate_singleton]
    exact ⟨NUL, junk, by decide, rfl⟩
  · rw [intercalate_cons hlast, List.append_assoc, List.cons_append]
    exact ⟨' ', _, by decide, rfl⟩

end

/-! ## Field 22 -/

/-- No NUL in the fields 3 to 21 ends the text. -/
def StatLine.Whole (l : StatLine) : Prop := ∀ f ∈ l.fields.take 19, NUL ∉ f

instance (l : StatLine) : Decidable l.Whole := inferInstanceAs (Decidable (∀ f ∈ l.fields.take 19, NUL ∉ f))

/-- For any `skip`: with the 19 fields in it the kernel would unfold them. -/
theorem skip_name (skip : List Char → Option Nat) (p : List Char) : (do
    match ← (some (some (')' :: ' ' :: p))) with
    | none => some 0
    | some p => skip (p.drop 2)) = skip p := rfl

theorem getProcessStartTime_eq {fopen : String → Option (List Char)} {stack content p : List Char} {pid : Int}
    (hopen : fopen (statPath pid) = some content) (hne : content ≠ [])
    (hparen : strrchr NUL ')' (readStat content stack) = some (some (')' :: ' ' :: p))) :
    getProcessStartTime fopen stack pid = skipFields 19 p := by
  have hscan : getProcessStartTime fopen stack pid = (do
      match ← strrchr NUL ')' (readStat content stack) with
      | none => some 0
      | some p => skipFields 19 (p.drop 2)) := by
    rw [getProcessStartTime, hopen]
    exact if_neg hne
  rw [hscan, hparen]
  exact skip_name (skipFields 19) p

theorem getProcessStartTime_line {l : StatLine} (hl : l.Formed) (hwhole : l.Whole) {fopen : String → Option (List Char)}
    {pid : Int} (hopen : fopen (statPath pid) = some l.bytes) {d : List Char} (hd : l.field 22 = some d) (stack : List Char) :
    ∃ c rest, c.isDigit = false ∧ getProcessStartTime fopen stack pid = strtoull (d ++ c :: rest) := by
  have hne : l.bytes ≠ [] := by
    rw [StatLine.bytes, List.append_assoc]
    exact List.append_ne_nil_of_right_ne_nil _ (List.cons_ne_nil _ _)
  have hd : l.fields[19]? = some d := hd
  have hlen : 19 < l.fields.length := (List.getElem?_eq_some_iff.mp hd).1
  have hblank : ∀ f ∈ l.fields.take 19, ' ' ∉ f := fun f hf => (hl.fields f (List.mem_of_mem_take hf)).1
  obtain ⟨c, rest, hc, hend⟩ := field_ends hd (stack.drop (l.bytes.length + 1))
  refine ⟨c, rest, hc, ?_⟩
  rw [getProcessStartTime_eq hopen hne (strrchr_stat hl stack), skipFields_intercalate hlen hblank hwhole, hend]

/-- For any name without a NUL: the value of field 22 is what is returned, when it is a
    decimal number of 64 bits and no field from the third on before it holds a NUL. -/
theorem start_time_field (fopen : String → Option (List Char)) (stack : List Char) (pid : Int) (l : StatLine) (d : List Char)
    (hl : l.Formed) (hopen : fopen (statPath pid) = some l.bytes) (hd : l.field 22 = some d) (hdec : IsDecimal d)
    (hlt : decimal d < 2 ^ 64) (hwhole : l.Whole) : getProcessStartTime fopen stack pid = some (decimal d) := by
  obtain ⟨c, rest, hc, hread⟩ := getProcessStartTime_line hl hwhole hopen hd stack
  rw [hread]
  exact strtoull_decimal hdec hlt hc rest

/-- Fields 3 to 21, and a field 22. -/
def statLine (name third : List Char) (startTime : List Char) : StatLine :=
  ⟨['4', '2'], name, third :: List.replicate 18 ['0'] ++ [startTime]⟩

/-- A name that looks like the rest of a line. -/
theorem start_time_field_imitated :
    getProcessStartTime (fun _ => some (statLine ") R 1 (x)
".toList ['S'] "1234".toList).bytes) [] 42 = some 1234 :=
  start_time_field (fun _ => some (statLine ") R 1 (x)
".toList ['S'] "1234".toList).bytes) [] 42
    (statLine ") R 1 (x)
".toList ['S'] "1234".toList) "1234".toList
    ⟨by decide, by decide, by decide, by decide⟩ rfl rfl (by decide) (by decide) (by decide)

/-- With a NUL as field 3 the text ends there, and 0 is returned, not field 22. -/
theorem start_time_nul :
    getProcessStartTime (fun _ => some (statLine ['s', 'h'] [NUL] ['7']).bytes) [] 42 = some 0 ∧
      ¬ ∀ (fopen : String → Option (List Char)) (stack : List Char) (pid : Int) (l : StatLine) (d : List Char),
        l.Formed → fopen (statPath pid) = some l.bytes → l.field 22 = some d → IsDecimal d → decimal d < 2 ^ 64 →
          getProcessStartTime fopen stack pid = some (decimal d) := by
  have hzero : getProcessStartTime (fun _ => some (statLine ['s', 'h'] [NUL] ['7']).bytes) [] 42 = some 0 := by decide
  refine ⟨hzero, ?_⟩
  intro hclaim
  have hseven := hclaim (fun _ => some (statLine ['s', 'h'] [NUL] ['7']).bytes) [] 42 (statLine ['s', 'h'] [NUL] ['7'])
    ['7'] ⟨by decide, by decide, by decide, by decide⟩ rfl rfl (by decide) (by decide)
  rw [hzero] at hseven
  exact absurd hseven (by decide)

/-! ## The identity check -/

/-- A kernel that shows its processes: each with its start time as field 22, unless the
    file cannot be read. -/
def Shows (s : Handle.State) (readable : Bool) (fopen : String → Option (List Char)) : Prop :=
  ∀ pid, match (if readable then s.procs pid else none) with
    | none => fopen (statPath pid) = none
    | some p => p.birth < 2 ^ 64 ∧ ∃ l : StatLine, fopen (statPath pid) = some l.bytes ∧ l.Formed ∧ l.Whole ∧
        l.field 22 = some (Nat.toDigits 10 p.birth)

/-- What `terminate_process_tree` compares with the start time of a handle is the start
    time of the process that has the PID, whatever that calls itself. -/
theorem startTime_reads {s : Handle.State} {readable : Bool} {fopen : String → Option (List Char)}
    (hshow : Shows s readable fopen) (stack : List Char) (pid : Int) :
    getProcessStartTime fopen stack pid = some (s.startTime pid readable) := by
  have hpid := hshow pid
  unfold Handle.State.startTime
  cases readable with
  | false =>
    have hclosed : fopen (statPath pid) = none := hpid
    rw [getProcessStartTime, hclosed]
    rfl
  | true =>
    rw [if_pos rfl] at hpid ⊢
    cases hp : s.procs pid with
    | none =>
      rw [hp] at hpid
      rw [getProcessStartTime, hpid]
    | some p =>
      rw [hp] at hpid
      obtain ⟨hbirth, l, hopen, hl, hwhole, hfield⟩ := hpid
      have hvalue : decimal (Nat.toDigits 10 p.birth) = p.birth := Nat.ofDigitChars_ten_toDigits
      obtain ⟨c, rest, hc, hread⟩ := getProcessStartTime_line hl hwhole hopen hfield stack
      rw [hread, strtoull_decimal (isDecimal_toDigits _) (by rwa [hvalue]) hc, hvalue]

end CovProcess.Unix
