/-
  CovProcess.Unix.Environ — the environment of a child on Unix: the strings
  `create_process_impl` builds before the fork, and what `mpp_execvpe` makes of them
  (`src/process_unix.cpp`).

  With nothing set and the environment inherited no strings are built, and `execvp` hands
  on `environ` itself. Else the child gets a string for each entry of a map: the
  builder's, laid over the parent's when it inherits. The parent's entries are cut at
  their first `=`; one without is dropped, and of a name's entries the first stays.

  Proved: `getenv_child`, a name's value in the child is the last one set, else the
  parent's own when it inherits, and no name is in a built block twice. A string of the
  block ends at its first NUL, so a value that holds one arrives cut (`getenv_child_nul`).
-/

import CovProcess.Builder
import CovProcess.Lib.EnvBlock

namespace CovProcess.Unix

open EnvBlock Builder

abbrev CString := { s : String // NUL ∉ s.toList }

/-- `c_str()`: the string up to its first NUL. -/
def cStr (s : String) : CString :=
  ⟨String.ofList (s.toList.takeWhile (· ≠ NUL)), by
    rw [String.toList_ofList]
    exact fun h => by simpa using List.mem_takeWhile_imp h⟩

/-- `argv` of `child_proc`, up to its first `nullptr`. -/
def argv (s : ProcessStartup) : List CString := s.cmdline.map cStr

/-- `entry.find('=')` and the two `substr`. -/
def parseEntry (entry : String) : Option (String × String) :=
  (split '=' entry.toList).map fun (k, v) => (String.ofList k, String.ofList v)

/-- The orders in which the two unordered maps are walked. -/
structure Walks where
  env : Order String String
  merged : Order String String

def merge (o : Walks) (environ : List CString) (env : EnvMap) : EnvMap :=
  assignAll (emplaceAll ∅ (environ.filterMap fun e => parseEntry e.val)) (o.env.list env)

/-- `env_strings`, as `envp_vec` points to them. -/
def envp (o : Walks) (env : EnvMap) : List CString := (o.merged.list env).map fun e => cStr (e.1 ++ "=" ++ e.2)

/-- `prebuilt_envp`; `none` is `nullptr`. -/
def prebuiltEnvp (o : Walks) (environ : List CString) (s : ProcessStartup) : Option (List CString) :=
  if s.inheritEnv ∧ s.env = ∅ then none
  else some (envp o (if s.inheritEnv then merge o environ s.env else s.env))

/-- The environment `mpp_execvpe` runs the program with. -/
def childEnviron (o : Walks) (environ : List CString) (s : ProcessStartup) : List CString :=
  (prebuiltEnvp o environ s).getD environ

/-! ## Looking a name up -/

def vars (environ : List CString) : List (String × String) := environ.filterMap fun e => parseEntry e.val

def getenv (name : String) (environ : List CString) : Option String := (vars environ).lookup name

def ValidName (name : String) : Prop := name ≠ "" ∧ '=' ∉ name.toList ∧ NUL ∉ name.toList

instance (name : String) : Decidable (ValidName name) := inferInstanceAs (Decidable (_ ∧ _))

/-- A name that can be read back: all but `ValidName`'s first part. -/
def Plain (name : String) : Prop := '=' ∉ name.toList ∧ NUL ∉ name.toList

theorem cStr_eq {s : String} (h : NUL ∉ s.toList) : (cStr s).val = s := by
  have hall : s.toList.takeWhile (· ≠ NUL) = s.toList := by
    rw [List.takeWhile_eq_self_iff]
    intro c hc
    simpa using fun he : c = NUL => h (he ▸ hc)
  show String.ofList (s.toList.takeWhile (· ≠ NUL)) = s
  rw [hall, String.ofList_toList]

theorem parseEntry_cStr {k : String} (hk : Plain k) (v : String) :
    parseEntry (cStr (k ++ "=" ++ v)).val = some (k, (cStr v).val) := by
  have hkeep : ∀ c ∈ k.toList, decide (c ≠ NUL) = true := fun c hc => by
    simpa using fun he : c = NUL => hk.2 (he ▸ hc)
  have hcut : (k ++ "=" ++ v).toList.takeWhile (· ≠ NUL) = k.toList ++ '=' :: v.toList.takeWhile (· ≠ NUL) := by
    rw [String.toList_append, String.toList_append, List.append_assoc, List.takeWhile_append_of_pos hkeep]
    rfl
  rw [parseEntry, cStr, String.toList_ofList, hcut, split_append hk.1]
  simp [cStr]

theorem parseEntry_some {e : CString} {k v : String} (h : parseEntry e.val = some (k, v)) :
    Plain k ∧ NUL ∉ v.toList := by
  obtain ⟨⟨k', v'⟩, hs, he⟩ := Option.map_eq_some_iff.mp h
  cases he
  obtain ⟨heq, hk⟩ := split_some hs
  have hnul := e.property
  rw [heq] at hnul
  simp only [List.mem_append, List.mem_cons, not_or] at hnul
  simp only [Plain, String.toList_ofList]
  exact ⟨⟨hk, hnul.1⟩, hnul.2.2⟩

theorem vars_envp (o : Walks) {env : EnvMap} (henv : ∀ k v, env.lookup k = some v → Plain k) :
    vars (envp o env) = (o.merged.list env).map fun e => (e.1, (cStr e.2).val) := by
  rw [vars, envp, List.filterMap_map, ← List.filterMap_eq_map]
  refine List.filterMap_congr ?_
  intro e he
  simp only [Function.comp_apply]
  exact parseEntry_cStr (henv e.1 e.2 ((o.merged.iterates env).mem_iff.mp he)) e.2

theorem getenv_envp (o : Walks) {env : EnvMap} (henv : ∀ k v, env.lookup k = some v → Plain k) (name : String) :
    getenv name (envp o env) = (env.lookup name).map fun v => (cStr v).val := by
  rw [getenv, vars_envp o henv, lookup_map_snd (fun v => (cStr v).val), (o.merged.iterates env).lookup]

theorem names_envp (o : Walks) {env : EnvMap} (henv : ∀ k v, env.lookup k = some v → Plain k) :
    ((vars (envp o env)).map Prod.fst).Nodup := by
  rw [vars_envp o henv, List.map_map]
  exact (o.merged.iterates env).nodup

/-! ## The merge -/

theorem lookup_merge (o : Walks) (environ : List CString) (env : EnvMap) (name : String) :
    (merge o environ env).lookup name = (env.lookup name).or (getenv name environ) := by
  rw [merge, assignAll_iterates (o.env.iterates env)]
  by_cases hn : name ∈ env
  · obtain ⟨v, hv⟩ := Finmap.mem_iff.mp hn
    rw [Finmap.lookup_union_left hn, hv, Option.some_or]
  · rw [Finmap.lookup_union_right hn, Finmap.lookup_eq_none.mpr hn, Option.none_or, lookup_emplaceAll,
      Finmap.lookup_empty, Option.none_or]
    rfl

theorem getenv_some {environ : List CString} {name v : String} (h : getenv name environ = some v) :
    Plain name ∧ NUL ∉ v.toList := by
  obtain ⟨l₁, l₂, hl, -⟩ := List.lookup_eq_some_iff.mp h
  have hmem : (name, v) ∈ vars environ := by
    rw [hl]
    simp
  obtain ⟨e, -, he⟩ := List.mem_filterMap.mp hmem
  exact parseEntry_some he

theorem merge_plain (o : Walks) (environ : List CString) {env : EnvMap}
    (henv : ∀ k v, env.lookup k = some v → Plain k) : ∀ k v, (merge o environ env).lookup k = some v → Plain k := by
  intro k v h
  rw [lookup_merge] at h
  cases hk : env.lookup k with
  | some w => exact henv k w hk
  | none =>
    rw [hk, Option.none_or] at h
    exact (getenv_some h).1

theorem getenv_merge (o : Walks) (environ : List CString) {env : EnvMap}
    (henv : ∀ k v, env.lookup k = some v → Plain k) (name : String) :
    getenv name (envp o (merge o environ env)) =
      ((env.lookup name).map fun v => (cStr v).val).or (getenv name environ) := by
  rw [getenv_envp o (merge_plain o environ henv), lookup_merge]
  cases env.lookup name with
  | some v => rfl
  | none =>
    cases hp : getenv name environ with
    | none => rfl
    | some v => simp [cStr_eq (getenv_some hp).2]

/-! ## The child -/

/-- The names set are the map's. -/
theorem env_plain {h : List Call} (hvalid : ∀ k v, Call.set (.environment k v) ∈ h → ValidName k) (k v : String)
    (hk : (run h).startup.env.lookup k = some v) : Plain k := by
  rw [run_env] at hk
  exact (hvalid k v (mem_of_lastSet hk)).2

/-- For any parent environment and any calls with valid names, inheriting or not: what a
    name has in the child, that a built block names nothing twice, and that a merge with
    nothing set answers like the parent's environment uncopied. -/
theorem getenv_child (o : Walks) (environ : List CString) (h : List Call) (s : ProcessStartup)
    (hvalid : ∀ k v, Call.set (.environment k v) ∈ h → ValidName k) (hs : start .unix (run h) = .ok s) :
    (∀ name, ValidName name → getenv name (childEnviron o environ s) =
      match lastSet h name with
      | some v => some (cStr v).val
      | none => if s.inheritEnv then getenv name environ else none) ∧
    (∀ block, prebuiltEnvp o environ s = some block → ((vars block).map Prod.fst).Nodup) ∧
    ∀ name, ValidName name → getenv name (envp o (merge o environ ∅)) = getenv name environ := by
  obtain ⟨henv, -⟩ := start_env hs
  have hplain : ∀ k v, s.env.lookup k = some v → Plain k := by
    rw [henv]
    exact env_plain hvalid
  refine ⟨?_, ?_, ?_⟩
  · intro name _
    have hlast : s.env.lookup name = lastSet h name := by rw [henv, run_env]
    rw [childEnviron, prebuiltEnvp, ← hlast]
    by_cases hnull : s.inheritEnv ∧ s.env = ∅
    · rw [if_pos hnull, if_pos hnull.1, hnull.2]
      rfl
    · rw [if_neg hnull, Option.getD_some]
      cases hi : s.inheritEnv with
      | true =>
        rw [if_pos rfl, getenv_merge o environ hplain]
        cases s.env.lookup name <;> rfl
      | false =>
        rw [if_neg (by simp), getenv_envp o hplain]
        cases s.env.lookup name <;> rfl
  · intro block hb
    rw [prebuiltEnvp] at hb
    split at hb
    · cases hb
    · cases hb
      split
      · exact names_envp o (merge_plain o environ hplain)
      · exact names_envp o hplain
  · intro name _
    rw [getenv_merge o environ fun k v hk => by simp at hk]
    rfl

/-- The parent has `A=0` and, twice, `B`; the builder sets `A`. -/
def overrideEnviron : List CString := [⟨"A=0", by decide⟩, ⟨"B=1", by decide⟩, ⟨"B=2", by decide⟩]

def overrideCalls : List Call := [.set (.command "p"), .set (.environment "A" "3")]

theorem getenv_child_override :
    getenv "A" (childEnviron ⟨.any, .any⟩ overrideEnviron (run overrideCalls).startup) = some (cStr "3").val ∧
      getenv "B" (childEnviron ⟨.any, .any⟩ overrideEnviron (run overrideCalls).startup) = some "1" := by
  have hvalid : ∀ k v, Call.set (.environment k v) ∈ overrideCalls → ValidName k := fun k v hm => by
    simp only [overrideCalls, List.mem_cons, Call.set.injEq, reduceCtorEq, Setter.environment.injEq, false_or,
      List.not_mem_nil, or_false] at hm
    rw [hm.1]
    decide
  have hlookup := (getenv_child ⟨.any, .any⟩ overrideEnviron overrideCalls _ hvalid rfl).1
  have hsetA : lastSet overrideCalls "A" = some "3" := by decide +kernel
  have hsetB : lastSet overrideCalls "B" = none := by decide +kernel
  have hparent : getenv "B" overrideEnviron = some "1" := by decide +kernel
  have hA := hlookup "A" (by decide)
  have hB := hlookup "B" (by decide)
  rw [hsetA] at hA
  rw [hsetB, hparent] at hB
  exact ⟨hA, hB⟩

/-- A value with a NUL, in an environment that is not inherited. -/
def nulCalls : List Call :=
  [.set (.command "p"), .set (.inheritEnv false), .set (.environment "A" "x\x00y")]

theorem getenv_child_nul :
    ¬ ∀ (o : Walks) (environ : List CString) (h : List Call) (s : ProcessStartup),
      (∀ k v, Call.set (.environment k v) ∈ h → ValidName k) → start .unix (run h) = .ok s →
      ∀ name, ValidName name → getenv name (childEnviron o environ s) =
        match lastSet h name with
        | some v => some v
        | none => if s.inheritEnv then getenv name environ else none := by
  intro hall
  have hvalid : ∀ k v, Call.set (.environment k v) ∈ nulCalls → ValidName k := fun k v hm => by
    simp only [nulCalls, List.mem_cons, Call.set.injEq, reduceCtorEq, Setter.environment.injEq, false_or,
      List.not_mem_nil, or_false] at hm
    rw [hm.1]
    decide
  have hfound := hall ⟨.any, .any⟩ [] nulCalls (run nulCalls).startup hvalid rfl "A" (by decide)
  have hcut : getenv "A" (childEnviron ⟨.any, .any⟩ [] (run nulCalls).startup) = some (cStr "x\x00y").val := by
    have hset : lastSet nulCalls "A" = some "x\x00y" := by decide +kernel
    have henv := run_env nulCalls "A"
    rw [hset] at henv
    rw [childEnviron, prebuiltEnvp, if_neg (by simp [nulCalls, run, step, apply, Except.toOption]), Option.getD_some,
      if_neg (by simp [nulCalls, run, step, apply, Except.toOption]),
      getenv_envp _ (env_plain hvalid), henv]
    rfl
  rw [hcut] at hfound
  have hne : some (cStr "x\x00y").val ≠ some "x\x00y" := by decide +kernel
  exact hne hfound

end CovProcess.Unix
