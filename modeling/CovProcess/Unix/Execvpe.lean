/-
  CovProcess.Unix.Execvpe — `mpp_execvpe` with an environment of the child's own
  (`src/process_unix.cpp`), and below it `effective_pathv`, `execve_or_shebang` and
  `execve_without_shebang`: the search for a program along the parent's PATH.

  PATH is copied to a buffer and split there, each colon becoming a NUL; a candidate is
  put together in `absolute_path`; `argv` is shifted in place for the run of `/bin/sh` and
  shifted back. `execve` is an oracle. Lengths and the number of components are `int`s; an
  access out of a buffer's bounds is a crash.

  Proved: `mppExecvpe_search`, where the lengths and the number fit an `int`: the
  components are tried in order, each with the caller's `argv`, up to the first success or
  the first error that ends the search. `long_name_cut` is a name of 2^32 + 1 characters,
  of which one is left.

  Left out: the branch for the inherited environment, which is libc's `execvp`.
-/

import CovProcess.Unix.Environ

namespace CovProcess.Unix.Execvpe

/-! ## Errors -/

abbrev Errno := Nat

def ENOENT : Errno := 2
def ENOEXEC : Errno := 8
def ENOMEM : Errno := 12
def EACCES : Errno := 13
def ENODEV : Errno := 19
def ENOTDIR : Errno := 20
def ENAMETOOLONG : Errno := 36
def ELOOP : Errno := 40
def ETIMEDOUT : Errno := 110
def ESTALE : Errno := 116

/-- The cases of the `switch` that go on with the next directory. -/
def tryNext : List Errno := [EACCES, ENOENT, ENOTDIR, ELOOP, ESTALE, ENODEV, ETIMEDOUT]

/-! ## Buffers -/

def PATH_MAX : Int := 4096

/-- `strlen`, as an `int`. -/
def strlen (s : List Char) : Int := Int.bmod s.length 4294967296

def cStrAt (buf : List Char) (p : Nat) : List Char := (buf.drop p).takeWhile fun c => c ≠ NUL

def memcpy (buf : List Char) (off : Int) (src : List Char) (n : Int) : Option (List Char) :=
  if 0 ≤ off ∧ 0 ≤ n ∧ off + n ≤ buf.length ∧ n ≤ src.length then
    some (buf.take off.toNat ++ src.take n.toNat ++ buf.drop (off + n).toNat)
  else none

def load (buf : List Char) (off : Int) : Option Char := if 0 ≤ off then buf[off.toNat]? else none

def store (buf : List Char) (off : Int) (c : Char) : Option (List Char) := memcpy buf off [c] 1

/-! ## The directories of PATH -/

/-- An element of `pathv`. -/
inductive Dir where
  | dot
  | at (p : Nat)
  deriving DecidableEq, Repr

/-- The loop of `effective_pathv`. -/
def splitPath : Nat → List Char → Nat → List Dir × List Char
  | 0, buf, _ => ([], buf)
  | n + 1, buf, p =>
    let sep := p + ((buf.drop p).takeWhile fun c => c ≠ ':' ∧ c ≠ NUL).length
    let (dirs, buf') := splitPath n (if buf[sep]? = some ':' then buf.set sep NUL else buf) (sep + 1)
    ((if p = sep then .dot else .at p) :: dirs, buf')

def dirAt (buf : List Char) : Dir → List Char
  | .dot => ['.']
  | .at p => cStrAt buf p

/-- The strings of `pathv`; `count` is an `int`. -/
def effectivePathv (path : List Char) : List (List Char) :=
  let count := Int.bmod (path.count ':') 4294967296 + 1
  let split := splitPath count.toNat (path ++ [NUL]) 0
  split.1.map (dirAt split.2)

/-- `get_path_env`; `none` is a PATH that is not set. -/
def pathEnv (path : Option CString) : CString := path.getD ⟨":/bin:/usr/bin", by decide⟩

/-! ## Execution -/

structure Call where
  path : List Char
  argv : List (List Char)
  deriving DecidableEq, Repr

/-- `errno`, the slots of `argv`, and the `execve` calls made. -/
structure Search where
  errno : Errno
  argv : List (Option (List Char))
  calls : List Call := []
  deriving DecidableEq, Repr

/-- The program runs, the function returned, or it left a buffer's bounds. -/
inductive Result where
  | execed (s : Search)
  | back (s : Search)
  | crashed
  deriving DecidableEq, Repr

/-- What `execve` gives for a path: `none` is success. -/
abbrev Oracle := List Char → Option Errno

/-- The arguments, up to the first `nullptr`. -/
def args : List (Option (List Char)) → List (List Char)
  | some a :: argv => a :: args argv
  | _ => []

def execve (k : Oracle) (path : List Char) (s : Search) : Result :=
  let s := { s with calls := s.calls ++ [⟨path, args s.argv⟩] }
  match k path with
  | none => .execed s
  | some e => .back { s with errno := e }

def memmove {α : Type} (l : List α) (dst src n : Nat) : List α := l.take dst ++ (l.drop src).take n ++ l.drop (dst + n)

def binSh : List Char := ['/', 'b', 'i', 'n', '/', 's', 'h']

def execveWithoutShebang (k : Oracle) (file : List Char) (s : Search) : Result :=
  let argv0 := s.argv[0]?.join
  let n := (args s.argv).length
  let shifted := ((memmove s.argv 2 1 n).set 0 (some binSh)).set 1 (some file)
  match execve k binSh { s with argv := shifted } with
  | .back s => .back { s with argv := (memmove s.argv 1 2 n).set 0 argv0 }
  | r => r

def execveOrShebang (k : Oracle) (file : List Char) (s : Search) : Result :=
  match execve k file s with
  | .back s => if s.errno = ENOEXEC then execveWithoutShebang k file s else .back s
  | r => r

/-- The directory, a slash where it has none at its end, and the name, put together in
    `absolute_path`. -/
def assemble (buf dir file : List Char) : Option (List Char) := do
  let dirlen := strlen dir
  let buf ← memcpy buf 0 dir dirlen
  let last ← load buf (dirlen - 1)
  if last ≠ '/' then
    let buf ← store buf dirlen '/'
    let buf ← memcpy buf (dirlen + 1) file (strlen file)
    store buf (dirlen + 1 + strlen file) NUL
  else
    let buf ← memcpy buf dirlen file (strlen file)
    store buf (dirlen + strlen file) NUL

/-- `filelen + dirlen + 2 >= PATH_MAX`, the sum an `int`. -/
def overlong (file dir : List Char) : Bool := PATH_MAX ≤ Int.bmod (strlen file + strlen dir + 2) 4294967296

/-- One round over `pathv`: on to the next directory, with the buffer and `sticky_errno`,
    or the end. -/
inductive Round where
  | next (buf : List Char) (sticky : Errno) (s : Search)
  | done (r : Result)

def searchRound (k : Oracle) (file dir buf : List Char) (sticky : Errno) (s : Search) : Round :=
  if overlong file dir then .next buf sticky { s with errno := ENAMETOOLONG }
  else
    match assemble buf dir file with
    | none => .done .crashed
    | some buf =>
      match execveOrShebang k (cStrAt buf 0) s with
      | .back s =>
        if s.errno ∈ tryNext then .next buf (if s.errno = EACCES then s.errno else sticky) s
        else .done (.back s)
      | r => .done r

/-- The loop over `pathv`. -/
def searchLoop (round : List Char → List Char → Errno → Search → Round) : List (List Char) → List Char → Errno → Search → Result
  | [], _, sticky, s => .back (if sticky ≠ 0 then { s with errno := sticky } else s)
  | dir :: dirs, buf, sticky, s =>
    match round dir buf sticky s with
    | .next buf sticky s => searchLoop round dirs buf sticky s
    | .done r => r

/-- `mpp_execvpe` with an `envp` of its own; `malloc` is whether the allocation succeeds. -/
def mppExecvpe (k : Oracle) (malloc : Bool) (path : Option CString) (file : CString) (s : Search) : Result :=
  if file.val.toList = [] then .back { s with errno := ENOENT }
  else if '/' ∈ file.val.toList then execveOrShebang k file.val.toList s
  else if !malloc then .back { s with errno := ENOMEM }
  else searchLoop (searchRound k file.val.toList) (effectivePathv (pathEnv path).val.toList) (List.replicate PATH_MAX.toNat NUL) 0 s

/-- The slots `child_proc` makes: one more than the final `nullptr`. -/
def slots (argv : List (List Char)) : List (Option (List Char)) := argv.map some ++ [none, none]

/-! ## What is claimed -/

/-- What the colons of PATH separate, nothing meaning the current directory. -/
def components (path : List Char) : List (List Char) := (path.splitOn ':').map fun d => if d = [] then ['.'] else d

def candidate (dir file : List Char) : List Char := if dir.getLast? = some '/' then dir ++ file else dir ++ '/' :: file

def TooLong (file dir : List Char) : Prop := PATH_MAX ≤ file.length + dir.length + 2

instance (file dir : List Char) : Decidable (TooLong file dir) := inferInstanceAs (Decidable (_ ≤ _))

/-- The sum that is compared with `PATH_MAX` is an `int`. -/
def FitsInt (file dir : List Char) : Prop := file.length + dir.length + 2 < 2147483648

/-- The calls for one path: with the caller's arguments, and the fallback. -/
def attempt (k : Oracle) (argv : List (List Char)) (path : List Char) : List Call :=
  ⟨path, argv⟩ :: if k path = some ENOEXEC then [⟨binSh, binSh :: path :: argv.tail⟩] else []

/-- How they end; `none` is success. -/
def attemptErrno (k : Oracle) (path : List Char) : Option Errno := if k path = some ENOEXEC then k binSh else k path

def tryDir (k : Oracle) (file : List Char) (argv : List (List Char)) (dir : List Char) : List Call :=
  if TooLong file dir then [] else attempt k argv (candidate dir file)

def outcome (k : Oracle) (file dir : List Char) : Option Errno :=
  if TooLong file dir then some ENAMETOOLONG else attemptErrno k (candidate dir file)

/-- Neither a success nor an error that ends the search. -/
def goesOn (k : Oracle) (file dir : List Char) : Bool :=
  TooLong file dir ∨ ∃ e ∈ tryNext, outcome k file dir = some e

/-- `errno` after all directories. -/
def exhausted (k : Oracle) (file : List Char) (dirs : List (List Char)) : Option Errno :=
  if ∃ d ∈ dirs, outcome k file d = some EACCES then some EACCES else dirs.getLast?.bind (outcome k file)

/-- The end of a search and its calls, in order. -/
def search (k : Oracle) (file : List Char) (argv : List (List Char)) (dirs : List (List Char)) : Option Errno × List Call :=
  match dirs.dropWhile (goesOn k file) with
  | [] => (exhausted k file dirs, dirs.flatMap (tryDir k file argv))
  | d :: _ => (outcome k file d, (dirs.takeWhile (goesOn k file) ++ [d]).flatMap (tryDir k file argv))

/-- The function ends so, with the slots of `argv` as they were if it returns. -/
inductive Ends (argv : List (Option (List Char))) : Result → Option Errno × List Call → Prop
  | execed (s : Search) : Ends argv (.execed s) (none, s.calls)
  | back (e : Errno) (calls : List Call) : Ends argv (.back ⟨e, argv, calls⟩) (some e, calls)

/-! ## Splitting PATH -/

theorem takeWhile_stop {p : Char → Bool} {a b : List Char} {c : Char} (ha : ∀ x ∈ a, p x = true) (hc : p c = false) :
    (a ++ c :: b).takeWhile p = a := by
  rw [List.takeWhile_append_of_pos ha, List.takeWhile_cons_of_neg (by simp [hc]), List.append_nil]

theorem cStrAt_stop {pre a post : List Char} (ha : NUL ∉ a) : cStrAt (pre ++ (a ++ NUL :: post)) pre.length = a := by
  unfold cStrAt
  rw [List.drop_left]
  apply takeWhile_stop
  · intro x hx
    exact decide_eq_true fun heq => ha (heq ▸ hx)
  · exact decide_eq_false fun h => h rfl

/-- A colon becomes a NUL. -/
def cut (c : Char) : Char := if c = ':' then NUL else c

theorem map_cut {a : List Char} (h : ':' ∉ a) : a.map cut = a := by
  have hsame : ∀ c ∈ a, cut c = id c := by
    intro c hc
    have hne : c ≠ ':' := fun heq => h (heq ▸ hc)
    exact if_neg hne
  exact (List.map_congr_left hsame).trans (List.map_id a)

/-- One round: the component up to the next colon or the end. -/
theorem takeWhile_component {pre a post : List Char} {c : Char} (hcolon : ':' ∉ a) (hnul : NUL ∉ a) (hc : c = ':' ∨ c = NUL) :
    (((pre ++ (a ++ c :: post)).drop pre.length).takeWhile fun c => c ≠ ':' ∧ c ≠ NUL) = a := by
  rw [List.drop_left]
  apply takeWhile_stop
  · intro x hx
    exact decide_eq_true ⟨fun heq => hcolon (heq ▸ hx), fun heq => hnul (heq ▸ hx)⟩
  · rcases hc with rfl | rfl <;> decide

theorem dirAt_component {pre a post : List Char} (hnul : NUL ∉ a) :
    dirAt (pre ++ (a ++ NUL :: post)) (if pre.length = pre.length + a.length then .dot else .at pre.length) =
      if a = [] then ['.'] else a := by
  by_cases h : a = []
  · rw [if_pos h, h, List.length_nil, if_pos (Nat.add_zero _).symm]
    rfl
  · have hpos := List.length_pos_of_ne_nil h
    rw [if_neg h, if_neg (by omega)]
    exact cStrAt_stop hnul

theorem components_append {a : List Char} (h : ':' ∉ a) (b : List Char) :
    components (a ++ ':' :: b) = (if a = [] then ['.'] else a) :: components b := by
  rw [components, List.splitOn_append_cons_self_of_not_mem h b, List.map_cons]
  rfl

theorem components_single {a : List Char} (h : ':' ∉ a) : components a = [if a = [] then ['.'] else a] := by
  rw [components, List.splitOn_eq_singleton h]
  rfl

/-- The loop leaves a NUL for every colon of the rest, and its directories are the rest's
    components; by induction on their number. -/
theorem splitPath_spec : ∀ (n : Nat) (pre rest : List Char), NUL ∉ rest → (rest.splitOn ':').length = n →
    (splitPath n (pre ++ (rest ++ [NUL])) pre.length).2 = pre ++ (rest.map cut ++ [NUL]) ∧
      (splitPath n (pre ++ (rest ++ [NUL])) pre.length).1.map (dirAt (pre ++ (rest.map cut ++ [NUL]))) = components rest := by
  intro n
  induction n with
  | zero =>
    intro pre rest _ hn
    exact absurd (List.length_eq_zero_iff.mp hn) (List.splitOn_ne_nil ':' rest)
  | succ n ih =>
    intro pre rest hnul hn
    by_cases hcolon : ':' ∈ rest
    · obtain ⟨a, b, rfl, ha⟩ := List.eq_append_cons_of_mem hcolon
      have hna : NUL ∉ a := fun h => hnul (List.mem_append_left _ h)
      have hnb : NUL ∉ b := fun h => hnul (List.mem_append_right _ (List.mem_cons_of_mem _ h))
      have hsplit : (a ++ ':' :: b).splitOn ':' = a :: b.splitOn ':' := List.splitOn_append_cons_self_of_not_mem ha b
      have hbuf : pre ++ (a ++ ':' :: b ++ [NUL]) = pre ++ (a ++ ':' :: (b ++ [NUL])) := by simp
      have hset : (pre ++ (a ++ ':' :: (b ++ [NUL]))).set (pre.length + a.length) NUL = pre ++ a ++ [NUL] ++ (b ++ [NUL]) := by
        simp
      have hget : (pre ++ (a ++ ':' :: (b ++ [NUL])))[pre.length + a.length]? = some ':' := by
        simp
      have hlen : pre.length + a.length + 1 = (pre ++ a ++ [NUL]).length := by
        simp only [List.length_append, List.length_singleton]
      have hfinal : pre ++ ((a ++ ':' :: b).map cut ++ [NUL]) = pre ++ a ++ [NUL] ++ (b.map cut ++ [NUL]) := by
        rw [List.map_append, map_cut ha, List.map_cons]
        simp [cut]
      obtain ⟨ih2, ih1⟩ := ih (pre ++ a ++ [NUL]) b hnb (by rw [hsplit, List.length_cons] at hn; omega)
      rw [hbuf, hfinal, splitPath, takeWhile_component ha hna (.inl rfl), if_pos hget, hset, hlen]
      refine ⟨ih2, ?_⟩
      rw [List.map_cons, ih1, components_append ha]
      congr 1
      have hshape : pre ++ a ++ [NUL] ++ (b.map cut ++ [NUL]) = pre ++ (a ++ NUL :: (b.map cut ++ [NUL])) := by simp
      rw [hshape]
      exact dirAt_component hna
    · have hsplit : rest.splitOn ':' = [rest] := List.splitOn_eq_singleton hcolon
      have hget : (pre ++ (rest ++ [NUL]))[pre.length + rest.length]? = some NUL := by
        simp
      obtain rfl : n = 0 := by
        rw [hsplit, List.length_singleton] at hn
        omega
      rw [splitPath, takeWhile_component hcolon hnul (.inr rfl), hget, if_neg (by decide), map_cut hcolon]
      refine ⟨rfl, ?_⟩
      rw [components_single hcolon]
      show [_] = [_]
      congr 1
      exact dirAt_component hnul

theorem length_splitOn (path : List Char) : (path.splitOn ':').length = path.count ':' + 1 := by
  induction path with
  | nil => rfl
  | cons c path ih =>
    rw [List.splitOn_cons_eq_if_modifyHead, List.count_cons]
    split
    · rw [List.length_cons, ih]
    · rw [List.length_modifyHead, ih, Nat.add_zero]

theorem effectivePathv_eq {path : List Char} (hnul : NUL ∉ path) (hcount : (components path).length < 2147483648) :
    effectivePathv path = components path := by
  have hlen := length_splitOn path
  have hrounds : (Int.bmod (path.count ':') 4294967296 + 1).toNat = (path.splitOn ':').length := by
    rw [components, List.length_map] at hcount
    rw [Int.bmod_eq_of_le (by omega) (by omega)]
    omega
  obtain ⟨h2, h1⟩ := splitPath_spec _ [] path hnul rfl
  simp only [effectivePathv, hrounds]
  rw [← h2] at h1
  exact h1

/-! ## Putting a candidate together -/

theorem strlen_eq {s : List Char} (h : s.length < 2147483648) : strlen s = s.length :=
  Int.bmod_eq_of_le (by omega) (by omega)

theorem memcpy_eq {pre rest src : List Char} {n : Nat} (hn : n ≤ src.length) (hfit : n ≤ rest.length) :
    memcpy (pre ++ rest) pre.length src n = some (pre ++ src.take n ++ rest.drop n) := by
  have hbounds : 0 ≤ (pre.length : Int) ∧ 0 ≤ (n : Int) ∧ (pre.length : Int) + n ≤ (pre ++ rest).length ∧ (n : Int) ≤ src.length := by
    rw [List.length_append]
    omega
  have hoff : ((pre.length : Int) + n).toNat = pre.length + n := by omega
  unfold memcpy
  rw [if_pos hbounds, hoff, Int.toNat_natCast, Int.toNat_natCast, List.take_left, List.drop_length_add_append]

theorem store_eq {pre rest : List Char} (c : Char) (hrest : rest ≠ []) :
    store (pre ++ rest) pre.length c = some (pre ++ c :: rest.tail) := by
  have hpos := List.length_pos_of_ne_nil hrest
  have h := @memcpy_eq pre rest [c] 1 (Nat.le_refl 1) hpos
  unfold store
  rw [List.drop_one] at h
  simpa using h

theorem load_last {dir rest : List Char} (hdir : dir ≠ []) :
    load (dir ++ rest) ((dir.length : Int) - 1) = dir.getLast? := by
  have hpos := List.length_pos_of_ne_nil hdir
  have hidx : ((dir.length : Int) - 1).toNat = dir.length - 1 := by omega
  unfold load
  rw [if_pos (by omega), hidx, List.getElem?_append_left (by omega), List.getLast?_eq_getElem?]

/-- What fits is put together, `fl` characters of the name. -/
theorem assemble_spec {buf dir file : List Char} {fl : Nat} (hbuf : buf.length = 4096) (hdir : dir ≠ [])
    (hdirnul : NUL ∉ dir) (hfilenul : NUL ∉ file) (hfl : strlen file = fl) (hle : fl ≤ file.length)
    (hfit : dir.length + fl + 2 < 4096) :
    ∃ buf', assemble buf dir file = some buf' ∧ buf'.length = 4096 ∧ cStrAt buf' 0 = candidate dir (file.take fl) := by
  have hlen : strlen dir = dir.length := strlen_eq (by omega)
  have hcopy : memcpy buf 0 dir dir.length = some (dir ++ buf.drop dir.length) := by
    have h := @memcpy_eq [] buf dir dir.length (Nat.le_refl _) (by omega)
    rwa [List.take_length] at h
  have hfilenul' : NUL ∉ file.take fl := fun h => hfilenul (List.mem_of_mem_take h)
  obtain ⟨last, hlast⟩ : ∃ last, dir.getLast? = some last := ⟨_, List.getLast?_eq_getLast_of_ne_nil hdir⟩
  have hload : load (dir ++ buf.drop dir.length) ((dir.length : Int) - 1) = some last := (load_last hdir).trans hlast
  -- the name and the NUL, after a prefix of the length there is room for
  have htail : ∀ pre rest : List Char, NUL ∉ pre → rest.length = 4096 - pre.length → pre.length + fl + 1 < 4096 →
      ∃ buf', ((memcpy (pre ++ rest) pre.length file fl).bind fun b => store b (pre.length + fl) NUL) = some buf' ∧
        buf'.length = 4096 ∧ cStrAt buf' 0 = pre ++ file.take fl := by
    intro pre rest hpre hrest hroom
    have hne : rest.drop fl ≠ [] := List.ne_nil_of_length_pos (by rw [List.length_drop]; omega)
    have hoff : (pre.length : Int) + fl = (pre ++ file.take fl).length := by
      rw [List.length_append, List.length_take]
      omega
    refine ⟨pre ++ file.take fl ++ NUL :: (rest.drop fl).tail, ?_, ?_, ?_⟩
    · rw [memcpy_eq hle (by omega), Option.bind_some, hoff, store_eq NUL hne]
    · simp only [List.length_append, List.length_take, List.length_cons, List.length_tail, List.length_drop]
      omega
    · apply @cStrAt_stop []
      intro h
      rcases List.mem_append.mp h with h | h
      · exact hpre h
      · exact hfilenul' h
  have hdrop : (buf.drop dir.length).length = 4096 - dir.length := by rw [List.length_drop, hbuf]
  by_cases hslash : last = '/'
  · obtain ⟨buf', hb, hlen', hstr⟩ := htail dir (buf.drop dir.length) hdirnul hdrop (by omega)
    refine ⟨buf', ?_, hlen', ?_⟩
    · simp only [assemble, hlen, hfl, hcopy, hload, hslash, Option.bind_eq_bind, Option.bind_some, ne_eq, not_true_eq_false, if_false]
      exact hb
    · rw [hstr, candidate, if_pos (hslash ▸ hlast)]
  · have hne : buf.drop dir.length ≠ [] := List.ne_nil_of_length_pos (by omega)
    have hpre : NUL ∉ dir ++ ['/'] := by
      intro h
      rcases List.mem_append.mp h with h | h
      · exact hdirnul h
      · exact absurd h (by decide)
    obtain ⟨buf', hb, hlen', hstr⟩ := htail (dir ++ ['/']) (buf.drop dir.length).tail hpre
      (by rw [List.length_tail, hdrop, List.length_append, List.length_singleton]; omega)
      (by rw [List.length_append, List.length_singleton]; omega)
    have hpush : store (dir ++ buf.drop dir.length) dir.length '/' = some (dir ++ ['/'] ++ (buf.drop dir.length).tail) := by
      rw [store_eq '/' hne, List.append_assoc]
      rfl
    have hlenpre : ((dir ++ ['/']).length : Int) = dir.length + 1 := by
      rw [List.length_append, List.length_singleton]
      omega
    rw [hlenpre] at hb
    refine ⟨buf', ?_, hlen', ?_⟩
    · simp only [assemble, hlen, hfl, hcopy, hload, hpush, Option.bind_eq_bind, Option.bind_some, ne_eq, hslash, not_false_eq_true,
        if_true]
      exact hb
    · rw [hstr, candidate, if_neg (by rw [hlast]; exact fun h => hslash (Option.some.inj h)), List.append_assoc]
      rfl

/-! ## One attempt -/

theorem args_append (argv : List (List Char)) (rest : List (Option (List Char))) : args (argv.map some ++ none :: rest) = argv := by
  induction argv with
  | nil => rfl
  | cons a argv ih =>
    show a :: args (argv.map some ++ none :: rest) = a :: argv
    rw [ih]

theorem args_slots (argv : List (List Char)) : args (slots argv) = argv := args_append argv [none]

/-- Into the spare slot. -/
theorem memmove_forth {α : Type} (a b f : Option α) (l : List (Option α)) :
    ((memmove (a :: l ++ [none, none]) 2 1 (l.length + 1)).set 0 b).set 1 f = b :: f :: l ++ [none] := by
  cases l with
  | nil => rfl
  | cons c l =>
    have hkept : (c :: l ++ [none, none]).take ((c :: l).length + 1) = c :: l ++ [none] := List.take_length_add_append 1
    have hend : (a :: c :: l ++ [none, none]).drop (2 + ((c :: l).length + 1)) = [] := by
      apply List.drop_eq_nil_of_le
      simp only [List.length_append, List.length_cons, List.length_nil]
      omega
    show (([a, c] ++ (c :: l ++ [none, none]).take ((c :: l).length + 1) ++ _).set 0 b).set 1 f = _
    rw [hkept, hend]
    simp

/-- And back. -/
theorem memmove_back {α : Type} (a b f : Option α) (l : List (Option α)) :
    (memmove (b :: f :: l ++ [none]) 1 2 (l.length + 1)).set 0 a = a :: l ++ [none, none] := by
  have hkept : (l ++ [none]).take (l.length + 1) = l ++ [none] := by
    apply List.take_of_length_le
    simp
  have hend : (b :: f :: l ++ [none]).drop (1 + (l.length + 1)) = [none] := by
    have h : 1 + (l.length + 1) = (b :: f :: l).length + 0 := by
      simp only [List.length_cons]
      omega
    rw [h, List.drop_length_add_append, List.drop_zero]
  show ([b] ++ (l ++ [none]).take (l.length + 1) ++ (b :: f :: l ++ [none]).drop (1 + (l.length + 1))).set 0 a = _
  rw [hkept, hend]
  simp

/-- One candidate, with the fallback: the calls, and the slots as they were. -/
theorem attempt_ends (k : Oracle) (path a : List Char) (argv : List (List Char)) (e : Errno) (calls : List Call) :
    Ends (slots (a :: argv)) (execveOrShebang k path ⟨e, slots (a :: argv), calls⟩)
      (attemptErrno k path, calls ++ attempt k (a :: argv) path) := by
  unfold execveOrShebang execve attemptErrno attempt
  rw [args_slots]
  cases hk : k path with
  | none => exact .execed _
  | some e' =>
    by_cases hexec : e' = ENOEXEC
    · subst hexec
      have hshift : ((memmove (slots (a :: argv)) 2 1 (argv.length + 1)).set 0 (some binSh)).set 1 (some path) =
          (binSh :: path :: argv).map some ++ [none] := by
        have h := memmove_forth (some a) (some binSh) (some path) (argv.map some)
        rwa [List.length_map] at h
      have hback : (memmove ((binSh :: path :: argv).map some ++ [none]) 1 2 (argv.length + 1)).set 0 (some a) =
          slots (a :: argv) := by
        have h := memmove_back (some a) (some binSh) (some path) (argv.map some)
        rwa [List.length_map] at h
      have hargv0 : (slots (a :: argv))[0]?.join = some a := rfl
      simp only [if_true, execveWithoutShebang, args_slots, List.length_cons, hshift, hargv0, execve, args_append]
      cases hsh : k binSh with
      | none =>
        have h : calls ++ [⟨path, a :: argv⟩] ++ [⟨binSh, binSh :: path :: argv⟩] =
            calls ++ [⟨path, a :: argv⟩, (⟨binSh, binSh :: path :: argv⟩ : Call)] := List.append_assoc ..
        rw [h]
        exact .execed _
      | some e'' =>
        simp only [hback]
        rw [List.append_assoc]
        exact .back _ _
    · have hne : ¬ some e' = some ENOEXEC := fun h => hexec (Option.some.inj h)
      simp only [if_neg hexec, if_neg hne]
      exact .back _ _

/-! ## The search -/

/-- The end of a search that has made `calls` and would give `errno`, or `EACCES` if it met
    that before. -/
def searchFrom (k : Oracle) (file : List Char) (argv : List (List Char)) (sticky errno : Errno) (calls : List Call)
    (dirs : List (List Char)) : Option Errno × List Call :=
  match dirs.dropWhile (goesOn k file) with
  | [] =>
    (if sticky ≠ 0 ∨ ∃ d ∈ dirs, outcome k file d = some EACCES then some EACCES
      else (dirs.getLast?.map (outcome k file)).getD (some errno),
      calls ++ dirs.flatMap (tryDir k file argv))
  | d :: _ => (outcome k file d, calls ++ (dirs.takeWhile (goesOn k file) ++ [d]).flatMap (tryDir k file argv))

section

variable {k : Oracle} {file : List Char} {argv : List (List Char)} {sticky errno : Errno} {calls : List Call}
  {dir : List Char} {dirs : List (List Char)}

theorem searchFrom_next {e : Errno} (hgoes : goesOn k file dir = true) (he : outcome k file dir = some e) :
    searchFrom k file argv sticky errno calls (dir :: dirs) =
      searchFrom k file argv (if e = EACCES then e else sticky) e (calls ++ tryDir k file argv dir) dirs := by
  unfold searchFrom
  rw [List.dropWhile_cons_of_pos hgoes, List.takeWhile_cons_of_pos hgoes]
  cases dirs.dropWhile (goesOn k file) with
  | cons d rest => simp only [List.cons_append, List.flatMap_cons, List.append_assoc]
  | nil =>
    rw [List.flatMap_cons, List.append_assoc]
    refine Prod.ext ?_ rfl
    have hlast : ((dir :: dirs).getLast?.map (outcome k file)).getD (some errno) =
        (dirs.getLast?.map (outcome k file)).getD (some e) := by
      cases dirs with
      | nil => exact he
      | cons d dirs => rw [List.getLast?_cons_cons, List.getLast?_eq_getLast_of_ne_nil (List.cons_ne_nil d dirs)]; rfl
    have hsticky : (sticky ≠ 0 ∨ ∃ d ∈ dir :: dirs, outcome k file d = some EACCES) ↔
        ((if e = EACCES then e else sticky) ≠ 0 ∨ ∃ d ∈ dirs, outcome k file d = some EACCES) := by
      rw [List.exists_mem_cons_iff, he, Option.some.injEq]
      by_cases hacces : e = EACCES
      · rw [if_pos hacces]
        have hnonzero : e ≠ 0 := by
          rw [hacces]
          decide
        exact iff_of_true (.inr (.inl hacces)) (.inl hnonzero)
      · rw [if_neg hacces]
        simp only [hacces, false_or]
    simp only [hlast, hsticky]

theorem searchFrom_stop (hstop : goesOn k file dir = false) :
    searchFrom k file argv sticky errno calls (dir :: dirs) = (outcome k file dir, calls ++ tryDir k file argv dir) := by
  have hneg : ¬ goesOn k file dir = true := by rw [hstop]; decide
  unfold searchFrom
  rw [List.dropWhile_cons_of_neg hneg, List.takeWhile_cons_of_neg hneg]
  simp only [List.nil_append, List.flatMap_singleton]

theorem searchFrom_start (hne : dirs ≠ []) : searchFrom k file argv 0 errno [] dirs = search k file argv dirs := by
  unfold searchFrom search exhausted
  cases dirs.dropWhile (goesOn k file) with
  | cons d rest => rfl
  | nil =>
    rw [List.getLast?_eq_getLast_of_ne_nil hne]
    simp only [ne_eq, not_true_eq_false, false_or, List.nil_append]
    rfl

theorem goesOn_iff {e : Errno} (hlong : ¬ TooLong file dir) (he : outcome k file dir = some e) :
    goesOn k file dir = true ↔ e ∈ tryNext := by
  unfold goesOn
  rw [decide_eq_true_iff, he]
  simp only [hlong, false_or, Option.some.injEq]
  constructor
  · intro h
    obtain ⟨e', hmem, heq⟩ := h
    rwa [heq]
  · intro h
    exact ⟨e, h, rfl⟩

end

/-- One round: on to the next directory, or the end. -/
theorem searchRound_spec (k : Oracle) {file dir buf a : List Char} {argv : List (List Char)} (sticky errno : Errno)
    (calls : List Call) (hfile : NUL ∉ file) (hne : dir ≠ []) (hnul : NUL ∉ dir) (hlen : FitsInt file dir)
    (hbuf : buf.length = 4096) :
    (goesOn k file dir = true ∧ ∃ e buf', outcome k file dir = some e ∧ buf'.length = 4096 ∧
      searchRound k file dir buf sticky ⟨errno, slots (a :: argv), calls⟩ =
        .next buf' (if e = EACCES then e else sticky) ⟨e, slots (a :: argv), calls ++ tryDir k file (a :: argv) dir⟩) ∨
    (goesOn k file dir = false ∧ ∃ r, searchRound k file dir buf sticky ⟨errno, slots (a :: argv), calls⟩ = .done r ∧
      Ends (slots (a :: argv)) r (outcome k file dir, calls ++ tryDir k file (a :: argv) dir)) := by
  unfold FitsInt at hlen
  have hover : overlong file dir = decide (TooLong file dir) := by
    unfold overlong TooLong
    rw [strlen_eq (by omega), strlen_eq (by omega), Int.bmod_eq_of_le (by omega) (by omega)]
    rfl
  unfold searchRound
  rw [hover]
  by_cases hlong : TooLong file dir
  · have he : outcome k file dir = some ENAMETOOLONG := if_pos hlong
    have htry : tryDir k file (a :: argv) dir = [] := if_pos hlong
    have hacces : ¬ ENAMETOOLONG = EACCES := by decide
    refine .inl ⟨decide_eq_true (.inl hlong), ENAMETOOLONG, buf, he, hbuf, ?_⟩
    rw [if_pos (decide_eq_true hlong), htry, List.append_nil, if_neg hacces]
  · have hroom : ¬ PATH_MAX ≤ (file.length : Int) + dir.length + 2 := hlong
    unfold PATH_MAX at hroom
    obtain ⟨buf', hassemble, hbuf', hpath⟩ := assemble_spec hbuf hne hnul hfile (strlen_eq (by omega)) (Nat.le_refl _)
      (by omega)
    rw [List.take_length] at hpath
    have hout : outcome k file dir = attemptErrno k (candidate dir file) := if_neg hlong
    have htry : tryDir k file (a :: argv) dir = attempt k (a :: argv) (candidate dir file) := if_neg hlong
    have hattempt := attempt_ends k (candidate dir file) a argv errno calls
    have hneg : ¬ decide (TooLong file dir) = true := by rwa [decide_eq_true_iff]
    rw [← hout, ← htry] at hattempt
    rw [if_neg hneg, hassemble]
    simp only [hpath]
    generalize execveOrShebang k (candidate dir file) ⟨errno, slots (a :: argv), calls⟩ = run at hattempt
    generalize hend : (outcome k file dir, calls ++ tryDir k file (a :: argv) dir) = ending at hattempt
    cases hattempt with
    | execed s =>
      obtain ⟨hsuccess, hcalls⟩ := Prod.mk.inj hend
      refine .inr ⟨?_, .execed s, rfl, .execed s⟩
      unfold goesOn
      rw [decide_eq_false_iff_not, hsuccess]
      simp [hlong]
    | back e calls' =>
      obtain ⟨herrno, hcalls⟩ := Prod.mk.inj hend
      by_cases hmem : e ∈ tryNext
      · refine .inl ⟨(goesOn_iff hlong herrno).mpr hmem, e, buf', herrno, hbuf', ?_⟩
        simp only [hmem, if_true, hcalls]
      · refine .inr ⟨?_, .back ⟨e, slots (a :: argv), calls'⟩, ?_, .back e calls'⟩
        · rw [← Bool.not_eq_true, goesOn_iff hlong herrno]
          exact hmem
        · simp only [hmem, if_false]

/-- The loop, from any buffer and any number of attempts before. -/
theorem searchLoop_ends (k : Oracle) {file a : List Char} {argv : List (List Char)} (hfile : NUL ∉ file)
    (dirs : List (List Char)) :
    ∀ (buf : List Char) (sticky errno : Errno) (calls : List Call), buf.length = 4096 → (sticky = 0 ∨ sticky = EACCES) →
      (∀ d ∈ dirs, d ≠ [] ∧ NUL ∉ d ∧ FitsInt file d) →
      Ends (slots (a :: argv)) (searchLoop (searchRound k file) dirs buf sticky ⟨errno, slots (a :: argv), calls⟩)
        (searchFrom k file (a :: argv) sticky errno calls dirs) := by
  induction dirs with
  | nil =>
    intro buf sticky errno calls _ hsticky _
    have hend : searchFrom k file (a :: argv) sticky errno calls [] =
        (if sticky ≠ 0 then some EACCES else some errno, calls) := by
      simp [searchFrom]
    rw [hend]
    rcases hsticky with rfl | rfl
    · exact .back _ _
    · exact .back _ _
  | cons dir dirs ih =>
    intro buf sticky errno calls hbuf hsticky hdirs
    obtain ⟨hne, hnul, hlen⟩ := hdirs dir List.mem_cons_self
    rw [searchLoop]
    rcases searchRound_spec k sticky errno calls hfile hne hnul hlen hbuf with
      ⟨hgoes, e, buf', he, hbuf', hround⟩ | ⟨hstop, r, hround, hends⟩
    · rw [hround, searchFrom_next hgoes he]
      apply ih _ _ _ _ hbuf'
      · split
        · rename_i hacces
          exact .inr hacces
        · exact hsticky
      · intro d hd
        exact hdirs d (List.mem_cons_of_mem _ hd)
    · rw [hround, searchFrom_stop hstop]
      exact hends

theorem mem_splitOn {path d : List Char} {c : Char} (hd : d ∈ path.splitOn ':') (hc : c ∈ d) : c ∈ path := by
  induction path generalizing d with
  | nil =>
    rw [List.splitOn_nil, List.mem_singleton] at hd
    rwa [hd] at hc
  | cons b path ih =>
    rw [List.splitOn_cons_eq_if_modifyHead] at hd
    split at hd
    · rcases List.mem_cons.mp hd with rfl | hd
      · cases hc
      · exact List.mem_cons_of_mem _ (ih hd hc)
    · obtain ⟨e, es, hes⟩ := List.exists_cons_of_ne_nil (List.splitOn_ne_nil ':' path)
      rw [hes, List.modifyHead_cons] at hd
      rcases List.mem_cons.mp hd with rfl | hd
      · rcases List.mem_cons.mp hc with rfl | hc
        · exact List.mem_cons_self
        · exact List.mem_cons_of_mem _ (ih (hes ▸ List.mem_cons_self) hc)
      · exact List.mem_cons_of_mem _ (ih (hes ▸ List.mem_cons_of_mem _ hd) hc)

theorem component_spec {path : List Char} (hnul : NUL ∉ path) {d : List Char} (hd : d ∈ components path) : d ≠ [] ∧ NUL ∉ d := by
  obtain ⟨e, he, rfl⟩ := List.mem_map.mp hd
  split
  · exact ⟨by decide, by decide⟩
  · rename_i hne
    exact ⟨hne, fun h => hnul (mem_splitOn he h)⟩

theorem components_ne_nil (path : List Char) : components path ≠ [] := by
  unfold components
  rw [ne_eq, List.map_eq_nil_iff]
  exact List.splitOn_ne_nil ':' path

def strings (argv : List CString) : List (List Char) := argv.map fun a => a.val.toList

/-- The number of `pathv`'s pointers, the last one null, is an `int`. -/
def CountFits (path : List Char) : Prop := (components path).length + 1 < 2147483648

/-- For every PATH and every oracle, every name that is not empty and has no slash, and every
    `argv` that is not empty, the lengths and the number of components within an `int`: the
    calls are those for the components up to the first one that ends the search, in order,
    each with the caller's arguments or as the fallback with them behind the candidate; the
    end is that component's, or else `EACCES` if one gave that, or else the last one's; and
    a function that returns leaves the slots of `argv` as they were. -/
theorem mppExecvpe_search (k : Oracle) (path : Option CString) (file : CString) (argv : List CString) (errno : Errno)
    (hfile : file.val.toList ≠ []) (hslash : '/' ∉ file.val.toList) (hargv : argv ≠ [])
    (hcount : CountFits (pathEnv path).val.toList)
    (hlen : ∀ d ∈ components (pathEnv path).val.toList, FitsInt file.val.toList d) :
    Ends (slots (strings argv)) (mppExecvpe k true path file ⟨errno, slots (strings argv), []⟩)
      (search k file.val.toList (strings argv) (components (pathEnv path).val.toList)) := by
  obtain ⟨a, argv, rfl⟩ := List.exists_cons_of_ne_nil hargv
  have hnul := (pathEnv path).property
  have hpathv : effectivePathv (pathEnv path).val.toList = components (pathEnv path).val.toList :=
    effectivePathv_eq hnul (Nat.lt_of_succ_lt hcount)
  have hbuf : (List.replicate PATH_MAX.toNat NUL).length = 4096 := List.length_replicate
  unfold mppExecvpe
  rw [if_neg hfile, if_neg hslash, if_neg (by decide), hpathv, ← searchFrom_start (components_ne_nil _)]
  apply searchLoop_ends k file.property _ _ _ _ _ hbuf (.inl rfl)
  intro d hd
  obtain ⟨hne, hdnul⟩ := component_spec hnul hd
  exact ⟨hne, hdnul, hlen d hd⟩

/-- A file that may not be run, and a script without `#!`; and no shell. -/
def twoFiles : Oracle := fun p =>
  if p = "./x".toList then some EACCES else if p = "/b/x".toList then some ENOEXEC else some ENOENT

theorem mppExecvpe_search_script :
    Ends (slots ["x".toList, "-v".toList])
      (mppExecvpe twoFiles true (some ⟨":/b", by decide⟩) ⟨"x", by decide⟩ ⟨0, slots ["x".toList, "-v".toList], []⟩)
      (some EACCES, [⟨"./x".toList, ["x".toList, "-v".toList]⟩, ⟨"/b/x".toList, ["x".toList, "-v".toList]⟩,
        ⟨binSh, [binSh, "/b/x".toList, "-v".toList]⟩]) := by
  have hsearch : search twoFiles "x".toList ["x".toList, "-v".toList] (components ":/b".toList) =
      (some EACCES, [⟨"./x".toList, ["x".toList, "-v".toList]⟩, ⟨"/b/x".toList, ["x".toList, "-v".toList]⟩,
        ⟨binSh, [binSh, "/b/x".toList, "-v".toList]⟩]) := by decide
  rw [← hsearch]
  exact mppExecvpe_search twoFiles (some ⟨":/b", by decide⟩) ⟨"x", by decide⟩ [⟨"x", by decide⟩, ⟨"-v", by decide⟩] 0
    (by decide) (by decide) (by decide) (by unfold CountFits; decide) (by unfold FitsInt; decide)

/-- Only `/b/x` is there. -/
def oneFile : Oracle := fun p => if p = "/b/x".toList then none else some ENOENT

/-- A name of 2^32 + 1 characters has length 1 as an `int`: a candidate is not skipped as too
    long but made of the name's first character. -/
theorem long_name_cut :
    ∃ file : CString, file.val.toList = List.replicate 4294967297 'x' ∧
      mppExecvpe oneFile true (some ⟨"/b", by decide⟩) file ⟨0, slots ["x".toList], []⟩ =
        .execed ⟨0, slots ["x".toList], [⟨"/b/x".toList, ["x".toList]⟩]⟩ ∧
      ¬ Ends (slots ["x".toList]) (mppExecvpe oneFile true (some ⟨"/b", by decide⟩) file ⟨0, slots ["x".toList], []⟩)
        (search oneFile file.val.toList ["x".toList] (components "/b".toList)) := by
  have hmem : NUL ∉ List.replicate 4294967297 'x' := by
    intro h
    exact absurd (List.eq_of_mem_replicate h) (by decide)
  have hne : List.replicate 4294967297 'x' ≠ [] := by
    intro h
    have hlen := congrArg List.length h
    rw [List.length_replicate] at hlen
    exact absurd hlen (by decide)
  have hslash : '/' ∉ List.replicate 4294967297 'x' := by
    intro h
    exact absurd (List.eq_of_mem_replicate h) (by decide)
  have hpathv : effectivePathv (pathEnv (some ⟨"/b", by decide⟩)).val.toList = ["/b".toList] := by decide
  have hlen : strlen (List.replicate 4294967297 'x') = (1 : Nat) := by
    unfold strlen
    rw [List.length_replicate]
    decide
  obtain ⟨file, hfile⟩ : ∃ file : CString, file.val.toList = List.replicate 4294967297 'x' :=
    ⟨⟨String.ofList (List.replicate 4294967297 'x'), by rwa [String.toList_ofList]⟩, String.toList_ofList⟩
  have hrun : mppExecvpe oneFile true (some ⟨"/b", by decide⟩) file ⟨0, slots ["x".toList], []⟩ =
      .execed ⟨0, slots ["x".toList], [⟨"/b/x".toList, ["x".toList]⟩]⟩ := by
    have hover : overlong (List.replicate 4294967297 'x') "/b".toList = false := by
      unfold overlong
      rw [hlen]
      decide
    obtain ⟨buf, hassemble, -, hpath⟩ := @assemble_spec (List.replicate PATH_MAX.toNat NUL) "/b".toList
      (List.replicate 4294967297 'x') 1 List.length_replicate (by decide) (by decide) hmem hlen
      (by rw [List.length_replicate]; decide) (by decide)
    have hcand : cStrAt buf 0 = "/b/x".toList := by
      rw [hpath, List.take_replicate]
      decide
    unfold mppExecvpe
    rw [hfile, if_neg hne, if_neg hslash, if_neg (by decide), hpathv, searchLoop, searchRound, hover,
      if_neg (by decide), hassemble]
    simp only [hcand]
    rfl
  have hsearch : search oneFile file.val.toList ["x".toList] (components "/b".toList) = (some ENAMETOOLONG, []) := by
    have hlong : TooLong (List.replicate 4294967297 'x') "/b".toList := by
      unfold TooLong
      rw [List.length_replicate]
      decide
    have hcomp : components "/b".toList = ["/b".toList] := by decide
    have hgoes : goesOn oneFile (List.replicate 4294967297 'x') "/b".toList = true := decide_eq_true (.inl hlong)
    have hout : outcome oneFile (List.replicate 4294967297 'x') "/b".toList = some ENAMETOOLONG := if_pos hlong
    have htry : tryDir oneFile (List.replicate 4294967297 'x') ["x".toList] "/b".toList = [] := if_pos hlong
    rw [hfile, hcomp, ← @searchFrom_start _ _ _ 0 _ (by decide), searchFrom_next hgoes hout, htry]
    rfl
  refine ⟨file, hfile, hrun, ?_⟩
  rw [hrun, hsearch]
  intro h
  cases h

end CovProcess.Unix.Execvpe
